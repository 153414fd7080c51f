import ScriptCompiler.Proofs.Brackets.Expressions
import ScriptCompiler.Proofs.Truncation.Expressions

/-!
# Blocks in other places

A statement from `begin` to `end` is read as the same node in the condition of a loop and among the
arguments of a call without parentheses, or the first fault is at a `do` in it.
-/

/-!
## Blocks and what comes behind them

An expression that starts with the word `begin` starts with a protected body, through the word `end`
that belongs to it. Where nothing behind it goes on with an expression, it is the whole expression.
-/

namespace ScriptCompiler.Brackets

open Parse

/-! ### Where an expression ends -/

/-- The punctuation that ends an expression. -/
def closers : List Punct :=
  [.comma, .closeParen, .closeBracket, .closeBrace]

/-- No expression goes on with the first token, in front of the second one. -/
def endsExpression : Token.Kind → Token.Kind → Bool
  | .newline, next => next ≠ .punct .dot
  | .punct mark, _ => closers.contains mark
  | _, _ => true

/-- No expression goes on with these tokens. -/
def Ended : List Token → Prop
  | [] => False
  | t :: rest => endsExpression t.kind (rest.head?.getD t).kind = true

instance : DecidablePred Ended
  | [] => .isFalse id
  | _ :: _ => inferInstanceAs (Decidable (_ = true))

section Ended

variable {s : State}

theorem ended_iff : Ended s.remaining ↔ endsExpression s.current.kind s.following.kind = true :=
  .rfl

theorem Ended.of_end (h : s.current.kind = .endOfInput) : Ended s.remaining := by
  rw [ended_iff, h]
  rfl

theorem Ended.mem_closers (h : Ended s.remaining) {mark : Punct}
    (hk : s.current.kind = .punct mark) : mark ∈ closers := by
  rw [ended_iff, hk] at h
  exact List.contains_iff_mem.mp h

theorem Ended.run_postfixOf (h : Ended s.remaining) (expression : Parser Node) (node : Node) :
    (postfixOf expression node).run s = (some node, s) := by
  refine run_repeating ?_
  unfold postfixRound
  rw [run_kind]
  cases hk : s.current.kind with
  | newline =>
    have next : s.following.kind ≠ .punct .dot := by
      rw [ended_iff, hk] at h
      exact of_decide_eq_true h
    dsimp only
    rw [run_followingKind, if_neg next]
    rfl
  | punct mark =>
    have closer := h.mem_closers hk
    simp only [closers, List.mem_cons, List.not_mem_nil, or_false] at closer
    rcases closer with rfl | rfl | rfl | rfl <;> rfl
  | _ => rfl

theorem Ended.run_groups (h : Ended s.remaining) {ops : List Punct}
    (hops : ∀ mark ∈ closers, mark ∉ ops) (operand : Parser Node) (left : Node) :
    (repeating (groupRound ops operand) left).run s = (some left, s) := by
  refine run_repeating ?_
  unfold groupRound
  rw [run_kind]
  cases hk : s.current.kind with
  | punct mark =>
    have other := hops mark (h.mem_closers hk)
    dsimp only
    rw [if_neg (by simpa using other)]
    rfl
  | _ => rfl

theorem Ended.isLogical_eq (h : Ended s.remaining) : isLogical s.current.kind = false := by
  have all : ∀ mark ∈ closers, isLogical (.punct mark) = false := by decide
  cases hk : s.current.kind with
  | punct mark => exact all mark (h.mem_closers hk)
  | _ => rfl

theorem Ended.assignment?_eq (h : Ended s.remaining) : assignment? s.current.kind = none := by
  have all : ∀ mark ∈ closers, assignment? (.punct mark) = none := by decide
  cases hk : s.current.kind with
  | punct mark => exact all mark (h.mem_closers hk)
  | _ => rfl

theorem Ended.ne_arrow (h : Ended s.remaining) : s.current.kind ≠ .punct .arrow := by
  intro hk
  exact absurd (h.mem_closers hk) (by decide)

end Ended

/-! ### Expressions that start with a block -/

/-- The second parser starts with what the first one does, and gives its result if no expression
goes on behind it. -/
structure Heads (block p : Parser Node) (t : State) : Prop where
  gives : ∀ node t', block.run t = (some node, t') → Ended t'.remaining → p.run t = (some node, t')
  fails : (block.run t).1 = none → (p.run t).1 = none
  onward : Onward (block.run t).2 (p.run t).2

namespace Heads

variable {block p q : Parser Node} {f : Node → Parser Node} {t : State}

theorem refl : Heads block block t :=
  ⟨fun _ _ run _ => run, id, .refl _⟩

theorem congr (h : Heads block p t) (same : q.run t = p.run t) : Heads block q t where
  gives node t' run ended := same.trans (h.gives node t' run ended)
  fails none_ := (congrArg Prod.fst same).trans (h.fails none_)
  onward := same ▸ h.onward

/-- What comes after gives the same result where no expression goes on. -/
theorem bind (h : Heads block p t) (onward : ∀ node, GoesOn (f node))
    (ended : ∀ node t', Ended t'.remaining → (f node).run t' = (some node, t')) :
    Heads block (p >>= f) t where
  gives node t' run he := by
    rw [run_bind, h.gives node t' run he]
    exact ended node t' he
  fails none_ := by
    have := h.fails none_
    rw [run_bind]
    rcases hp : p.run t with ⟨_ | node, t₁⟩
    · rfl
    · rw [hp] at this
      cases this
  onward := by
    have first := h.onward
    rw [run_bind]
    rcases hp : p.run t with ⟨_ | node, t₁⟩ <;> rw [hp] at first
    · exact first
    · exact first.trans (onward node t₁)

end Heads

section Heads

variable {c : Passage} {t : State} {expression expression' : Parser Node}
  (he : Paired c expression expression')

include he

theorem heads_unary (hk : t.current.kind = .keyword .beginKw) :
    Heads (beginBlock expression') (unary expression') t := by
  have primary_ : (primary expression').run t = (beginBlock expression').run t := by
    unfold primary
    rw [run_currentSpan]
    extract_lets finish
    rw [run_kind, hk]
    rfl
  have unary_ : (unary expression').run t
      = (primary expression' >>= postfixOf expression').run t := by
    unfold unary
    rw [run_repeating_eq, run_bind, run_currentSpan, run_kind, hk]
    dsimp only
    rw [run_bind, run_bind]
    rcases (primary expression').run t with ⟨_ | operand, t₁⟩
    · rfl
    dsimp only
    rw [run_bind]
    rcases (postfixOf expression' operand).run t₁ with ⟨_ | node, t₂⟩ <;> rfl
  have onward (node : Node) : GoesOn (postfixOf expression' node) :=
    (twins_postfixOf he fun _ => rfl : Twins c False (SameNode node node) _ _ _ _).right
  refine ((Heads.refl.congr primary_).bind onward fun node t' h => ?_).congr unary_
  exact h.run_postfixOf _ node

omit he in
theorem goesOn_groups {ops : List Punct} {operand : Parser Node} (ho : GoesOn operand)
    (left : Node) :
    GoesOn (repeating (groupRound ops operand) left) := by
  refine .repeating (fun left => .bind (.looks fun _ => rfl) fun k => ?_) left
  split
  · split
    · exact GoesOn.advance.bind fun _ => ho.bind fun _ => .refl
    · exact .refl
  · exact .refl

theorem heads_operators (hk : t.current.kind = .keyword .beginKw) :
    Heads (beginBlock expression') (operators expression') t := by
  have grouped (rs : List (List Punct)) (hrs : ∀ ops ∈ rs, ∀ mark ∈ closers, mark ∉ ops)
      {operand : Parser Node} (ho : GoesOn operand)
      (heads : Heads (beginBlock expression') operand t) :
      Heads (beginBlock expression') (rs.foldl (fun operand ops => leftGrouped ops operand) operand)
        t := by
    induction rs generalizing operand with
    | nil => exact heads
    | cons ops rs ih =>
      refine ih (fun ops hops => hrs ops (List.mem_cons_of_mem _ hops))
        (ho.bind (goesOn_groups ho)) (heads.bind (goesOn_groups ho) fun node t' h => ?_)
      exact h.run_groups (hrs ops List.mem_cons_self) operand node
  refine grouped ranks (by decide) ?_ (heads_unary he hk)
  exact (twins_unary he : Twins c False True _ _ _ _).right

theorem heads_logical (hk : t.current.kind = .keyword .beginKw) :
    Heads (beginBlock expression') (logical expression') t := by
  refine (heads_operators he hk).bind (fun left => ?_) fun left t' h => ?_
  · refine .bind (.looks fun _ => rfl) fun next => ?_
    split
    · exact .bind (.looks fun _ => rfl) fun _ => .unsupported _ _ _
    · exact .refl
  · rw [run_kind, h.isLogical_eq]
    rfl

theorem heads_assignment (hk : t.current.kind = .keyword .beginKw) :
    Heads (beginBlock expression') (assignment expression') t := by
  have expressions : Twins c False True expression expression' SameNode Any := he.twins
  have assignments (target : Target) (current : Node) (how : Parse.Assignment) (start : Span) :
      GoesOn (assignTo expression' target current how start) :=
    (twins_assignTo he target how start start fun _ => rfl :
      Twins c False (SameNode current current) _ _ _ _).right
  have whole : (assignment expression').run t
      = (logical expression' >>= assigned expression' t.current.span).run t := by
    unfold assignment
    rw [run_currentSpan, run_kind, run_followingKind, hk]
    rfl
  refine ((heads_logical he hk).bind (fun left => ?_) fun left t' h => ?_).congr whole
  · refine .bind (.looks fun _ => rfl) fun k => ?_
    split
    · exact goesOn_assignExpression expressions.right assignments _ _ _
    · exact .refl
  · rw [assigned, run_kind, h.assignment?_eq]
    rfl

end Heads

/-! ### No block is a directive -/

theorem gives_blockInside {expression : Parser Node} :
    Gives (blockInside expression) NoDirective := by
  have always : Kept fun _ => True := ⟨fun _ _ _ => trivial, fun _ _ _ _ => trivial⟩
  unfold blockInside
  refine (gives_body always .any _).bind fun protected_ h s form s' run => ?_
  exact (gives_rescueTail always .any h s form s' run).1

end ScriptCompiler.Brackets

/-!
## Blocks in conditions and arguments

The words of a statement from `begin` to `end` are read as the same node in the condition of a loop
and among the arguments of a call without parentheses, unless the first fault is at a `do` among
them: there a `do` after a call in the body does not start a block, since nothing lets blocks start
again inside the body.
-/

namespace ScriptCompiler.Brackets

open Parse

/-! ### Up to the last word -/

section Inside

variable {expression : Parser Node} {s s' : State} {node : Node}

theorem exists_inside (run : (beginBlock expression).run s = (some node, s')) :
    ∃ form s₁, (blockInside expression).run s.next = (some form, s₁)
      ∧ s₁.current.kind = .keyword .endKw ∧ s' = s₁.next ∧ node.form = form := by
  rw [beginBlock_eq, run_currentSpan, run_advance, run_bind] at run
  rcases h : (blockInside expression).run s.next with ⟨_ | form, s₁⟩ <;> rw [h] at run
  · cases run
  dsimp only at run
  by_cases hk : s₁.current.kind = .keyword .endKw
  · rw [run_bind, run_expect hk] at run
    cases run
    exact ⟨form, s₁, rfl, hk, rfl, rfl⟩
  · rw [expect, bind_assoc, run_at_of_ne hk, if_neg Bool.false_ne_true, bind_assoc, run_bind] at run
    rcases hu : (unexpected ("'" ++ Token.Kind.text (.keyword .endKw) ++ "'")).run s₁
      with ⟨_ | _, _⟩ <;> rw [hu] at run <;> cases run

theorem run_beginBlock_of_inside {form : Form} {s₁ : State}
    (run : (blockInside expression).run s.next = (some form, s₁))
    (hk : s₁.current.kind = .keyword .endKw) :
    (beginBlock expression).run s
      = (some ⟨form, s.current.span.merge s₁.next.previous⟩, s₁.next) := by
  rw [beginBlock_eq, run_currentSpan, run_advance, run_bind, run]
  dsimp only
  rw [run_bind, run_expect hk]
  rfl

end Inside

/-! ### Going on behind the block -/

/-- The parser goes on with the node, spans aside, in front of the tokens behind it and without a
fault. -/
def GoesOnWith {α : Type} (node : Node) (behind : List Token) (p : Parser α)
    (rest : Node → Parser α) (t : State) : Prop :=
  ∃ node' t', SameNode node node' ∧ t'.remaining = behind ∧ t'.log = .empty
    ∧ p.run t = (rest node').run t'

/-- The parser goes on with the node or, where blocks may start in the other place alone, its first
fault is at a `do` among the words. -/
def GoesOnOrFaults {α : Type} (apart : Prop) (node : Node) (words behind : List Token)
    (p : Parser α) (rest : Node → Parser α) (t : State) : Prop :=
  GoesOnWith node behind p rest t ∨ apart ∧ FaultAtDo words (p.run t).2

namespace GoesOnOrFaults

variable {α : Type} {apart : Prop} {node : Node} {words behind : List Token} {p q : Parser Node}
  {f : Node → Parser α} {t : State}

theorem bind (h : GoesOnOrFaults apart node words behind p pure t)
    (onward : ∀ node, GoesOn (f node)) :
    GoesOnOrFaults apart node words behind (p >>= f) f t := by
  rcases h with ⟨node', t', same, last, clean, run⟩ | ⟨ha, fault⟩
  · refine .inl ⟨node', t', same, last, clean, ?_⟩
    rw [run_bind, run]
    rfl
  · refine .inr ⟨ha, ?_⟩
    rw [run_bind]
    rcases hp : p.run t with ⟨_ | a, t₁⟩ <;> rw [hp] at fault
    · exact fault
    · exact fault.onward (onward a t₁)

theorem heads (h : GoesOnOrFaults apart node words behind p pure t) (heads : Heads p q t)
    (ended : Ended behind) : GoesOnOrFaults apart node words behind q pure t := by
  rcases h with ⟨node', t', same, rfl, clean, run⟩ | ⟨ha, fault⟩
  · exact .inl ⟨node', t', same, rfl, clean, heads.gives node' t' run ended⟩
  · exact .inr ⟨ha, fault.onward heads.onward⟩

theorem withDoBlocks {allowed : Bool}
    (h : GoesOnOrFaults apart node words behind p pure { t with doBlocks := allowed }) :
    GoesOnOrFaults apart node words behind (Parse.withDoBlocks allowed p) pure t := by
  rcases h with ⟨node', t', same, last, clean, run⟩ | fault
  · exact .inl ⟨node', { t' with doBlocks := t.doBlocks }, same, last, clean, run_withDoBlocks run⟩
  · exact .inr fault

theorem faults {p : Parser α} (h : GoesOnOrFaults apart node words behind p f t) :
    GoesOnWith node behind p f t ∨ FaultAtDo words (p.run t).2 :=
  h.imp_right And.right

end GoesOnOrFaults

/-- A block that is read in one place is read in the other one, or there is a fault. -/
theorem goesOnOrFaults_beginBlock {c : Passage} {apart : Prop} {n m : Nat} (le : n ≤ m)
    {s s' t : State} {node : Node} (beside : Beside c apart s.next t.next)
    (run : (beginBlock (expression n)).run s = (some node, s')) (clean : s'.log.total = 0)
    (last : s'.remaining = c.behind) (isEnd : s'.current.kind = .endOfInput) :
    GoesOnOrFaults apart node c.words c.behind' (beginBlock (expression m)) pure t := by
  obtain ⟨form, s₁, inside, hk, rfl, hform⟩ := exists_inside run
  have rest : s₁.rest ≠ [] := by
    intro hr
    rw [State.next_of_nil hr, hk] at isEnd
    cases isEnd
  rw [State.remaining_next rest] at last
  have answers := (twins_blockInside (paired le) : Twins c apart True _ _ _ _).joint trivial _ _
    beside form s₁ inside (by simpa using clean) ?_
  swap
  · rw [State.length_remaining, last]
    exact Nat.lt_succ_self _
  generalize hy : (blockInside (expression m)).run t.next = y at answers
  cases answers with
  | @same form' t₁ related beside₁ =>
    have rest' : t₁.rest = c.behind' := beside₁.rest_eq last
    have some_rest : t₁.rest ≠ [] := by
      intro hr
      have := c.length_le
      rw [← rest', hr] at this
      exact c.some_behind (List.eq_nil_of_length_eq_zero (Nat.le_zero.mp this))
    refine .inl ⟨_, t₁.next, ?_, ?_, ?_, run_beginBlock_of_inside hy ?_⟩
    · rw [sameNode_iff, hform]
      exact related
    · rw [State.remaining_next some_rest, rest']
    · rw [t₁.log_next]
      exact beside₁.clean'
    · rw [beside₁.current.kind, hk]
  | atDo _ never => exact never.elim
  | fault ha fault =>
    refine .inr ⟨ha, ?_⟩
    rw [beginBlock_eq, run_currentSpan, run_advance, run_bind, hy]
    obtain ⟨_ | form', t₁⟩ := y
    · exact fault
    · refine fault.onward (GoesOn.bind (.expect _) (fun _ => ?_) t₁)
      exact .bind (.looks fun _ => rfl) fun _ => .refl

/-- A statement that is a block up to the end of the text is what the block reads as. -/
theorem run_beginBlock_of_statement {n : Nat} {s s' : State} {node : Node}
    (run : (statement (expression (n + 1))).run s = (some node, s'))
    (hk : s.current.kind = .keyword .beginKw)
    (whole : ((beginBlock (expression n)).run s).2.current.kind = .endOfInput) :
    (beginBlock (expression n)).run s = (some node, s') := by
  have heads : Heads (beginBlock (expression n)) (expression (n + 1)) s :=
    heads_assignment (paired_self (c := default) n) hk
  unfold statement at run
  rw [run_currentSpan, run_bind] at run
  rcases hb : (beginBlock (expression n)).run s with ⟨_ | inner, s₁⟩ <;> rw [hb] at whole
  · have none_ := heads.fails (by rw [hb])
    rcases he : (expression (n + 1)).run s with ⟨_ | a, s₂⟩ <;> rw [he] at run none_
    · cases run
    · cases none_
  · have undirected : asDirective inner = inner := by
      obtain ⟨form, s₂, inside, -, -, hform⟩ := exists_inside hb
      rw [asDirective_eq, hform, gives_blockInside s.next form s₂ inside]
    rw [heads.gives inner s₁ hb (.of_end whole)] at run
    dsimp only at run whole
    rw [undirected, run_bind, @run_repeating _ _ s₁ s₁ _ inner inner] at run
    · dsimp only at run
      rw [run_kind, whole] at run
      exact run
    · rw [run_kind, whole]
      rfl

/-! ### The same words elsewhere -/

/-- The text is a statement from `begin` to `end`, which reads as the node with so many levels
inside. The words stand behind the word `begin`. -/
structure BlockText (file : SourceFile) (known : List String) (levels : Nat) (words : List Token)
    (node : Node) : Prop where
  tokens : ∃ first last, (Token.scan file).tokens = first :: (words ++ [last])
    ∧ first.kind = .keyword .beginKw
  accepted : ∃ s', (statement (expression (levels + 1))).run
      (.start file (Token.scan file).tokens known) = (some node, s') ∧ s'.log.total = 0
  whole : ((beginBlock (expression levels)).run
      (.start file (Token.scan file).tokens known)).2.current.kind = .endOfInput

/-- The state stands in front of `begin` and the same words, where the same local variables are
known. The tokens behind the words do not go on with an expression. -/
structure Place (known : List String) (words words' behind : List Token) (t : State) : Prop where
  remaining : ∃ first, t.remaining = first :: (words' ++ behind) ∧ first.kind = .keyword .beginKw
  same : List.Forall₂ SameWord words words'
  ended : Ended behind
  sees : ∀ name, State.sees name t.scopes = known.contains name
  scopes : t.scopes ≠ []
  clean : t.log = .empty

theorem sameWords_of_forall₂ {words words' : List Token} {e : Token}
    (h : List.Forall₂ SameWord (words ++ [e]) words') (isEnd : e.kind = .keyword .endKw) :
    SameWords (words ++ [e]) words' := by
  induction words generalizing words' with
  | nil =>
    cases h with
    | cons same more =>
      cases more
      exact .last same isEnd
  | cons t words ih =>
    cases h with
    | cons same more => exact .cons same (ih more)

section Places

variable {file : SourceFile} {known : List String} {levels m : Nat}
  {words words' behind : List Token} {node : Node} {t : State}

theorem BlockText.goesOnOrFaults (text : BlockText file known levels words node)
    (place : Place known words words' behind t) (room : levels ≤ m) :
    GoesOnOrFaults (t.doBlocks = false) node words' behind (beginBlock (expression m)) pure t := by
  obtain ⟨first, last, tokens, hfirst⟩ := text.tokens
  obtain ⟨s', accepted, clean⟩ := text.accepted
  obtain ⟨first', remaining', hfirst'⟩ := place.remaining
  let s : State := .start file (Token.scan file).tokens known
  have remaining : s.remaining = first :: (words ++ [last]) :=
    (remaining_start (.ofFile file) file known).trans tokens
  have hk : s.current.kind = .keyword .beginKw := (List.cons.inj remaining).1 ▸ hfirst
  have rest : s.rest = words ++ [last] := (List.cons.inj remaining).2
  have rest' : t.rest = words' ++ behind := (List.cons.inj remaining').2
  have run := run_beginBlock_of_statement accepted hk text.whole
  have isEnd : s'.current.kind = .endOfInput := by
    have whole := text.whole
    rwa [run] at whole
  have some_behind : behind ≠ [] := by
    rintro rfl
    exact place.ended
  let c : Passage := ⟨.ofFile file, [last], words', behind, List.cons_ne_nil _ _,
    List.length_pos_iff.mpr some_behind⟩
  have inStream : s.In c.stream := by
    rw [State.In, remaining, ← tokens]
    exact List.suffix_refl _
  obtain ⟨form, s₁, inside, hk₁, rfl, -⟩ := exists_inside run
  have onward : Onward s.next s₁ := by
    have twins : Twins c True True _ _ _ _ := twins_blockInside (paired_self levels)
    have := twins.left s.next
    rwa [inside] at this
  have passed : s.next.remaining = words ++ [last] := by
    rw [State.remaining_next, rest]
    exact rest ▸ List.append_ne_nil_of_right_ne_nil _ (List.cons_ne_nil _ _)
  -- the words end with `end`, right in front of the end of the text
  have inStream₁ : s₁.In c.stream := onward.into (s.suffix_next.trans inStream)
  have some_rest : s₁.rest ≠ [] := inStream₁.rest_ne_nil (by rw [hk₁]; decide)
  have last₁ : s₁.next.remaining = [s₁.next.current] :=
    congrArg (s₁.next.current :: ·)
      ((State.In.rest_eq_nil_iff (s₁.suffix_next.trans inStream₁)).mpr isEnd)
  obtain ⟨others, split⟩ : [s₁.current, s₁.next.current] <:+ words ++ [last] := by
    rw [← passed, ← last₁, State.remaining_next some_rest]
    exact onward.suffix
  obtain ⟨words_eq, last_eq⟩ : others ++ [s₁.current] = words ∧ [s₁.next.current] = [last] := by
    refine List.append_inj' ?_ rfl
    rw [List.append_assoc]
    exact split
  have same : SameWords words words' := by
    rw [← words_eq] at place ⊢
    exact sameWords_of_forall₂ place.same hk₁
  have beside : Beside c (t.doBlocks = false) s.next t.next := {
    inStream := s.suffix_next.trans inStream
    words := ⟨words, words', passed, by
      rw [State.remaining_next (rest' ▸ List.append_ne_nil_of_right_ne_nil _ some_behind), rest'],
      same, List.suffix_refl _⟩
    sees := fun name => by
      rw [t.scopes_next, s.scopes_next, place.sees]
      show known.contains name = (known.contains name || _)
      simp
    scopes := by
      rw [t.scopes_next, s.scopes_next]
      exact ⟨List.cons_ne_nil _ _, place.scopes⟩
    clean := by
      rw [s.log_next]
      rfl
    clean' := t.log_next.trans place.clean
    doBlocks := by
      rw [t.doBlocks_next, s.doBlocks_next]
      exact (Bool.eq_false_or_eq_true t.doBlocks).imp_right fun off => ⟨off, rfl⟩ }
  exact goesOnOrFaults_beginBlock room beside run clean (last₁.trans last_eq) isEnd

/-! ### Conditions and arguments -/

/-- What a loop does behind its condition. -/
def loopRest (expression : Parser Node) (loop : LoopKind) (start : Span) (condition : Node) :
    Parser Node := do
  discard <| eat (.keyword .doKw)
  let statements ← body expression [.keyword .endKw]
  expect (.keyword .endKw)
  return ⟨.loop loop condition statements, start.merge (← previousSpan)⟩

theorem loopBlock_eq (expression : Parser Node) (loop : LoopKind) :
    loopBlock expression loop = (do
      let start ← currentSpan
      advance
      loopRest expression loop start (← withDoBlocks false expression)) := rfl

/-- What comes behind an argument without parentheses: a comma, or the call ends. -/
def argumentRest (done : List Node) : Parser (Round (List Node) (List Node)) := do
  if ← eat (.punct .comma) then
    skipNewlines
    return .again done
  else return .done done.reverse

/-- One argument without parentheses, and what comes behind it. -/
def argumentRound (expression : Parser Node) (done : List Node) :
    Parser (Round (List Node) (List Node)) := do
  let arg ← argument expression
  argumentRest (arg :: done)

theorem commandArgs_eq (expression : Parser Node) :
    commandArgs expression = withDoBlocks false (repeating (argumentRound expression) []) := rfl

theorem goesOn_loopRest {c : Passage} {expression expression' : Parser Node}
    (he : Paired c expression expression') (loop : LoopKind) (start : Span) (condition : Node) :
    GoesOn (loopRest expression' loop start condition) := by
  have eaten : GoesOn (discard (eat (.keyword .doKw))) := (GoesOn.eat _).bind fun _ => .refl
  have noDo : Token.Kind.keyword .doKw ∉ [.keyword .endKw] := by decide
  have bodies : Twins c True True _ _ _ _ := twins_body he noDo
  refine eaten.bind fun _ => bodies.right.bind fun statements => (GoesOn.expect _).bind fun _ => ?_
  exact .bind (.looks fun _ => rfl) fun _ => .refl

theorem goesOn_argumentRest (done : List Node) : GoesOn (argumentRest done) := by
  refine (GoesOn.eat _).bind fun eaten => ?_
  split
  · exact GoesOn.skipNewlines.bind fun _ => .refl
  · exact .refl

theorem Place.withDoBlocks {allowed : Bool} (h : Place known words words' behind t) :
    Place known words words' behind { t with doBlocks := allowed } :=
  ⟨h.remaining, h.same, h.ended, h.sees, h.scopes, h.clean⟩

theorem Place.kind (h : Place known words words' behind t) :
    t.current.kind = .keyword .beginKw := by
  obtain ⟨first, remaining, hfirst⟩ := h.remaining
  rw [← hfirst, (List.cons.inj remaining).1]

theorem Place.goesOnOrFaults (place : Place known words words' behind t)
    (text : BlockText file known levels words node) (room : levels ≤ m) :
    GoesOnOrFaults (t.doBlocks = false) node words' behind (expression (m + 1)) pure t :=
  (text.goesOnOrFaults place room).heads
    (heads_assignment (paired_self (c := default) m) place.kind) place.ended

/-- An argument may not be followed by an arrow. -/
theorem Place.argument (place : Place known words words' behind t)
    (text : BlockText file known levels words node) (room : levels ≤ m) :
    GoesOnOrFaults (t.doBlocks = false) node words' behind (Parse.argument (expression (m + 1)))
      pure t := by
  have whole : (Parse.argument (expression (m + 1))).run t = (do
      let arg ← expression (m + 1)
      if ← at_ (.punct .arrow) then
        unsupported "hash arguments are not supported" (← currentSpan)
          "pass positional arguments instead"
      else return arg : Parser Node).run t := by
    unfold Parse.argument
    rw [run_kind, place.kind]
  have heads : Heads (beginBlock (expression m)) (Parse.argument (expression (m + 1))) t := by
    refine ((heads_assignment (paired_self (c := default) m) place.kind).bind (fun arg => ?_)
      fun arg t' h => ?_).congr whole
    · refine .bind (.looks fun _ => rfl) fun arrow => ?_
      split
      · exact .bind (.looks fun _ => rfl) fun _ => .unsupported _ _ _
      · exact .refl
    · rw [run_at_of_ne h.ne_arrow]
      rfl
  exact (text.goesOnOrFaults place room).heads heads place.ended

/-- Where `do` may start blocks, as it may in parentheses and brackets, the words from `begin` to
`end` that are a statement elsewhere are always read as the same node, spans aside. -/
theorem same_block_of_doBlocks (text : BlockText file known levels words node) (room : levels ≤ m)
    (place : Place known words words' behind t) (on : t.doBlocks = true) :
    GoesOnWith node behind (expression (m + 1)) pure t := by
  rcases place.goesOnOrFaults text room with same | ⟨off, -⟩
  · exact same
  · rw [on] at off
    cases off

/-- The words from `begin` to `end` that are a statement elsewhere are read as the same node, spans
aside, where they are the condition of a loop or an argument without parentheses, and the parser
goes on behind them; or the first fault is at a `do` among them, which starts no block there. At
least as many levels are left there as the statement needs. -/
theorem same_block_or_fault_at_do (text : BlockText file known levels words node)
    (room : levels < m) :
    (∀ loop t, Place known words words' behind t.next →
      GoesOnWith node behind (loopBlock (expression m) loop)
          (loopRest (expression m) loop t.current.span) t
        ∨ FaultAtDo words' ((loopBlock (expression m) loop).run t).2)
    ∧ ∀ done t, Place known words words' behind t →
      GoesOnWith node behind (argumentRound (expression m) done)
          (fun arg => argumentRest (arg :: done)) t
        ∨ FaultAtDo words' ((argumentRound (expression m) done).run t).2 := by
  obtain ⟨m, rfl⟩ := Nat.exists_eq_add_one.mpr (Nat.zero_lt_of_lt room)
  have room : levels ≤ m := Nat.le_of_lt_succ room
  constructor
  · intro loop t place
    have condition : GoesOnOrFaults True node words' behind
        (withDoBlocks false (expression (m + 1))) pure t.next :=
      .withDoBlocks ((place.withDoBlocks.goesOnOrFaults text room).imp_right
        fun fault => ⟨trivial, fault.2⟩)
    have onward := goesOn_loopRest (paired_self (c := default) (m + 1)) loop t.current.span
    exact (condition.bind onward).faults
  · intro done t place
    exact ((place.argument text room).bind fun arg => goesOn_argumentRest (arg :: done)).faults

end Places

/-- A block in parentheses inside the statement does not matter. -/
theorem same_block_or_fault_at_do_while :
    let file := SourceFile.ofText "t.rb" "begin\n(foo do\n1\nend)\nend"
    let tokens := (Token.scan file).tokens
    let file' := SourceFile.ofText "t.rb" "while begin\n(foo do\n1\nend)\nend\nbar\nend"
    let tokens' := (Token.scan file').tokens
    let words := tokens.tail.dropLast
    let words' := (tokens'.drop 2).take words.length
    let behind := (tokens'.drop 2).drop words.length
    let t := State.start file' tokens' []
    ∃ node, BlockText file [] 62 words node ∧ Place [] words words' behind t.next
      ∧ (GoesOnWith node behind (loopBlock (expression 63) .whileTruthy)
          (loopRest (expression 63) .whileTruthy t.current.span) t
        ∨ FaultAtDo words' ((loopBlock (expression 63) .whileTruthy).run t).2) := by
  intro file tokens file' tokens' words words' behind t
  have some_node : ((statement (expression 63)).run (.start file tokens [])).1.isSome = true := by
    decide +kernel
  have clean : ((statement (expression 63)).run (.start file tokens [])).2.log.total = 0 := by
    decide +kernel
  rcases run : (statement (expression 63)).run (.start file tokens []) with ⟨_ | node, s'⟩ <;>
    rw [run] at some_node clean
  · cases some_node
  have text : BlockText file [] 62 words node := {
    tokens := ⟨tokens.head?.getD t.current, tokens.getLast?.getD t.current, by decide +kernel,
      by decide +kernel⟩
    accepted := ⟨s', run, clean⟩
    whole := by decide +kernel }
  have place : Place [] words words' behind t.next := {
    remaining := ⟨t.next.current, by decide +kernel, by decide +kernel⟩
    same := by decide +kernel
    ended := by decide +kernel
    sees := fun name => by
      rw [t.scopes_next]
      rfl
    scopes := by
      rw [t.scopes_next]
      exact List.cons_ne_nil _ _
    clean := t.log_next }
  exact ⟨node, text, place, (same_block_or_fault_at_do text (by decide)).1 _ t place⟩

/-- A block that is a statement, but no condition. -/
theorem exists_block_no_condition :
    (parse "t.rb" "begin\nfoo do\n1\nend\nend" []).toOption.isSome = true
      ∧ (parse "t.rb" "while begin\nfoo do\n1\nend\nend\nend" []).toOption.isSome = false := by
  decide +kernel

end ScriptCompiler.Brackets
