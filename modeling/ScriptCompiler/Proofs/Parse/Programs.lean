import ScriptCompiler.Parse.Program
import ScriptCompiler.Proofs.Parse.Definitions

/-!
# Outcomes of expressions and programs

Expressions go as they should at every level, and so do programs.
-/

/-!
## Expressions

Expressions go as they should at every level of nesting: what an expression holds is parsed one
level below, and below the last level a fault is reported.
-/

namespace ScriptCompiler.Parse

variable {stream : Stream} {n : Nat} {expression : Parser Node} {s : State}

/-! ### Operands -/

theorem ordinary_simple {k : Token.Kind} {form : Form} (h : simple? k = some form) :
    Ordinary k := by
  constructor <;> rintro rfl <;> cases h

section Operands

variable {levels : Nat} (he : ∀ s, Goes stream n (Parse.expression levels) s (Ahead s))

include he

theorem goes_parenthesized (hk : s.current.kind = .punct .openParen) :
    Goes stream n (parenthesized (Parse.expression levels)) s (Ahead s) := by
  unfold parenthesized
  refine .currentSpan (.advance hk (ordinary_punct _) fun lt => ?_)
  refine Goes.bind (Q := Anywhere) (.withDoBlocks ?_) fun inner s₁ _ m₁ _ => ?_
  · refine Goes.skipNewlines.bind fun _ _ _ _ _ => ?_
    exact (goes_statement he).mono fun _ _ _ _ => trivial
  · refine Goes.skipNewlines.bind fun _ s₂ _ m₂ _ => ?_
    refine (Goes.expect (ordinary_punct _)).bind fun _ s₃ _ m₃ _ => .previousSpan (.pure ?_)
    have le₁ := m₁.le
    have le₂ := m₂.le
    have le₃ := m₃.le
    omega

theorem goes_primary : Goes stream n (primary (Parse.expression levels)) s (Ahead s) := by
  unfold primary
  refine .currentSpan ?_
  extract_lets finish
  have finished {s' : State} (form : Form) (h : s'.rest.length < s.rest.length) :
      Goes stream n (finish form) s' (Ahead s) :=
    .previousSpan (.pure h)
  have called {s' : State} (receiver : Option Node) (name : String)
      (h : s'.rest.length < s.rest.length) :
      Goes stream n (call (Parse.expression levels) receiver name) s' (Ahead s) :=
    (keeps_call he receiver name).mono fun _ _ m _ => Nat.lt_of_le_of_lt m.le h
  refine .kind ?_
  split
  · next form hf => exact .advance rfl (ordinary_simple hf) fun lt => finished form lt
  next hf =>
  split
  · next name hk =>
    refine .advance hk ⟨nofun, nofun⟩ fun lt => .isLocal (.atParenArgs fun paren _ => ?_)
    split
    · exact finished _ lt
    · exact called none name lt
  · next name hk =>
    refine .advance hk ⟨nofun, nofun⟩ fun lt => .atParenArgs fun paren _ => ?_
    split
    · exact called none name lt
    · exact finished _ lt
  · next hk => exact .advance hk (ordinary_keyword (by decide)) fun lt => called none _ lt
  · next hk => exact .advance hk (ordinary_keyword (by decide)) fun lt => called none _ lt
  · next hk =>
    refine .advance hk (ordinary_punct _) fun lt => (keeps_bracketedArgs he).bind ?_
    exact fun args s₁ _ m₁ _ => finished _ (Nat.lt_of_le_of_lt m₁.le lt)
  · next hk => exact goes_parenthesized he hk
  · next hk => exact goes_ifBlock he hk
  · next hk => exact goes_unlessBlock he hk
  · next hk => exact goes_loopBlock he hk (by decide)
  · next hk => exact goes_loopBlock he hk (by decide)
  · next hk => exact goes_beginBlock he hk
  · next hk => exact goes_classBlock he hk
  · next hk => exact goes_moduleBlock he hk
  · next hk => exact goes_methodBlock he hk
  · exact .unsupported _ _ _
  · exact .unsupported _ _ _
  · exact .reject _

end Operands

/-! ### What follows an operand -/

theorem keeps_scopedName : Goes stream n scopedName s Anywhere := by
  unfold scopedName
  refine .kind ?_
  split
  · next name hk => exact .advance hk ⟨nofun, nofun⟩ fun _ => .pure trivial
  · next name hk => exact .advance hk ⟨nofun, nofun⟩ fun _ => .pure trivial
  · exact .reject _

/-- After a point the word `rescue` is the name of a method. -/
theorem keeps_calledName (h : stream.Follows (.punct .dot) s.remaining) :
    Goes stream n calledName s Anywhere := by
  unfold calledName
  refine .kind ?_
  split
  · next name hm =>
    refine .pass ?_ (fun _ _ => .inl h) fun _ => .pure trivial
    intro hk
    rw [hk] at hm
    cases hm
  · exact .reject _

section Expressions

variable (he : ∀ s, Goes stream n expression s (Ahead s))

include he

theorem goes_postfixRound (node : Node) :
    Goes stream n (postfixRound expression node) s (Round.Post s Anywhere Anywhere) := by
  unfold postfixRound
  extract_lets finish
  have finished {s' : State} (form : Form) (h : s'.rest.length < s.rest.length) :
      Goes stream n (finish form) s' (Round.Post s Anywhere Anywhere) :=
    .previousSpan (.pure ⟨h, trivial⟩)
  have called {s' : State} (name : String) (h : s'.rest.length < s.rest.length) :
      Goes stream n (do return .again (← call expression (some node) name) :
        Parser (Round Node Node)) s'
        (Round.Post s Anywhere Anywhere) :=
    (keeps_call he _ name).bind fun _ _ _ m _ => .pure ⟨Nat.lt_of_le_of_lt m.le h, trivial⟩
  refine .from_ fun hs _ => .kind ?_
  split
  · next hk =>
    have dot : stream.Follows (.punct .dot) s.next.remaining := by
      refine hk ▸ hs.follows_next ?_
      rw [hk]
      nofun
    refine .advance hk (ordinary_punct _) fun lt => (keeps_calledName dot).bind ?_
    exact fun name _ _ m _ => called name (Nat.lt_of_le_of_lt m.le lt)
  · next hk =>
    refine .followingKind ?_
    split
    · exact .advance hk ⟨nofun, nofun⟩ fun lt => .pure ⟨lt, trivial⟩
    · exact .pure trivial
  · next hk =>
    refine .advance hk (ordinary_punct _) fun lt => keeps_scopedName.bind fun name _ _ m _ => ?_
    refine .atParenArgs fun paren _ => ?_
    split
    · exact finished _ (Nat.lt_of_le_of_lt m.le lt)
    · exact called name (Nat.lt_of_le_of_lt m.le lt)
  · next hk =>
    refine .spaceBefore ?_
    split
    · exact .pure trivial
    · refine .advance hk (ordinary_punct _) fun lt => (keeps_bracketedArgs he).bind ?_
      exact fun args _ _ m _ => finished _ (Nat.lt_of_le_of_lt m.le lt)
  · exact .pure trivial

theorem keeps_postfixOf (node : Node) : Goes stream n (postfixOf expression node) s Anywhere :=
  Goes.repeatingKeeps fun node _ => goes_postfixRound he node

end Expressions

/-! ### Operators -/

section Operators

variable {levels : Nat} (he : ∀ s, Goes stream n (Parse.expression levels) s (Ahead s))

include he

theorem goes_unary : Goes stream n (unary (Parse.expression levels)) s (Ahead s) := by
  unfold unary
  refine Goes.repeatingAhead fun signs s => .currentSpan (.kind ?_)
  split
  · next hk =>
    refine .advance hk (ordinary_punct _) fun lt => .kind ?_
    split
    · next value hv =>
      refine .advance hv ⟨nofun, nofun⟩ fun lt' => .previousSpan ?_
      refine (keeps_postfixOf he _).bind fun _ _ _ m _ => .pure ?_
      exact Nat.lt_of_le_of_lt m.le (Nat.lt_trans lt' lt)
    · exact .pure ⟨lt, trivial⟩
  · next hk => exact .advance hk (ordinary_punct _) fun lt => .pure ⟨lt, trivial⟩
  · exact .unsupported _ _ _
  · refine (goes_primary he).bind fun operand _ _ _ h => ?_
    exact (keeps_postfixOf he operand).bind fun _ _ _ m _ => .pure (Nat.lt_of_le_of_lt m.le h)

omit he in
theorem goes_leftGrouped {operand : Parser Node} (ops : List Punct)
    (ho : ∀ s, Goes stream n operand s (Ahead s)) :
    Goes stream n (leftGrouped ops operand) s (Ahead s) := by
  unfold leftGrouped
  refine (ho s).bind fun left s₁ _ _ h₁ => ?_
  refine Goes.repeating (I := fun _ s' => s'.rest.length < s.rest.length) ?_ h₁
  intro left s' hs'
  refine .kind ?_
  split
  · next mark hk =>
    split
    · refine .advance hk (ordinary_punct _) fun lt => (ho _).bind fun right s'' _ _ h => .pure ?_
      exact ⟨Nat.lt_trans h lt, Nat.lt_trans (Nat.lt_trans h lt) hs'⟩
    · exact .pure hs'
  · exact .pure hs'

omit he in
/-- Operators of several ranks, from the tightest to the loosest. -/
theorem goes_foldl_leftGrouped (ranks : List (List Punct)) {operand : Parser Node}
    (ho : ∀ s, Goes stream n operand s (Ahead s)) :
    Goes stream n (ranks.foldl (fun operand ops => leftGrouped ops operand) operand) s
      (Ahead s) := by
  induction ranks generalizing operand with
  | nil => exact ho s
  | cons ops ranks ih => exact ih fun _ => goes_leftGrouped ops ho

theorem goes_logical : Goes stream n (logical (Parse.expression levels)) s (Ahead s) := by
  unfold logical
  refine (goes_foldl_leftGrouped ranks fun _ => goes_unary he).bind fun left s₁ _ _ h₁ => .kind ?_
  split
  · exact .currentSpan (.unsupported _ _ _)
  · exact .pure h₁

/-! ### Assignment -/

theorem goes_assignTo {s₀ : State} (hs : s.rest.length < s₀.rest.length) (target : Target)
    (current : Node) (how : Assignment) (start : Span) :
    Goes stream n (assignTo (Parse.expression levels) target current how start) s (Ahead s₀) := by
  unfold assignTo
  refine Goes.skipNewlines.bind fun _ s₁ _ m₁ _ => (he _).bind fun right s₂ _ _ h₂ => ?_
  have le₁ := m₁.le
  cases how with
  | plain => exact .previousSpan (.pure (by omega))
  | compound op => exact .previousSpan (.pure (by omega))

omit he in
theorem ordinary_assignment {k : Token.Kind} {how : Assignment} (h : assignment? k = some how) :
    Ordinary k := by
  constructor <;> rintro rfl <;> cases h

theorem goes_assignExpression {s₀ : State} (hs : s.rest.length < s₀.rest.length) {how : Assignment}
    (hk : assignment? s.current.kind = some how) (start : Span) (left : Node) :
    Goes stream n (assignExpression (Parse.expression levels) start left how) s (Ahead s₀) := by
  unfold assignExpression
  refine .currentSpan (.advance rfl (ordinary_assignment hk) fun lt => ?_)
  split
  · exact goes_assignTo he (Nat.lt_trans lt hs) _ _ _ _
  · split
    · refine (he _).bind fun value s₁ _ _ h₁ => .previousSpan (.pure ?_)
      exact Nat.lt_trans h₁ (Nat.lt_trans lt hs)
    · split
      · exact .unsupported _ _ _
      · exact .rejectAs _ _ _

omit he in
/-- A local variable is assigned where an identifier comes before a mark of assignment. -/
theorem ordinary_localAssignment {k k' : Token.Kind} {name : String} {how : Assignment}
    (h : localAssignment? k k' = some (name, how)) : Ordinary k ∧ Ordinary k' := by
  unfold localAssignment? at h
  split at h
  · split at h
    · cases h
    · obtain ⟨_, ha, -⟩ := Option.map_eq_some_iff.mp h
      exact ⟨⟨nofun, nofun⟩, ordinary_assignment ha⟩
  · cases h

theorem goes_assignment : Goes stream n (assignment (Parse.expression levels)) s (Ahead s) := by
  unfold assignment
  refine .from_ fun hs _ => .currentSpan (.kind (.followingKind ?_))
  split
  · next name how ha =>
    obtain ⟨hk, hk'⟩ := ordinary_localAssignment ha
    refine .advance rfl hk fun lt => .advance (hs.current_next hk.1 ▸ rfl) hk' fun lt' => ?_
    refine (Goes.declare name).bind fun _ s₁ _ _ h₁ => goes_assignTo he ?_ _ _ _ _
    omega
  · refine (goes_logical he).bind fun left s₁ _ _ h₁ => .kind ?_
    split
    · next how ha => exact goes_assignExpression he h₁ ha _ _
    · exact .pure h₁

end Operators

/-- **Expressions go as they should**, at every level of nesting. -/
theorem goes_expression (levels : Nat) (s : State) :
    Goes stream n (Parse.expression levels) s (Ahead s) := by
  induction levels generalizing s with
  | zero => exact .currentSpan (.rejectAs _ _ _)
  | succ levels ih => exact goes_assignment ih

end ScriptCompiler.Parse

/-!
## The word `rescue` in programs

A text that is a program is a sequence of complete statements, and every word `rescue` in it is the
name of a method or opens the clause of a protected body, after complete statements of that body. So
a word `rescue` that comes after a statement in the same line is refused outside protected bodies;
inside them it opens the clause, as any word that ends a body may come right after a statement.
-/

namespace ScriptCompiler

theorem Log.le_total_append (l other : Log) : other.total ≤ (l.append other).total := by
  unfold append
  simp only [total_pushAll]
  omega

namespace Parse

variable {stream : Stream} {n : Nat} {s : State}

/-- A program without faults is a sequence of complete statements up to the end of the text. -/
theorem goes_program :
    Goes stream n program s fun _ s' => s'.log.total = n →
      Statements (expression maxDepth) [] s s'
        ∧ (s'.log.isFull ∨ s'.current.kind = .endOfInput) := by
  unfold program
  refine (goes_body (goes_expression maxDepth) []).bind fun statements s₁ _ m₁ h₁ => ?_
  refine .at_ (.isFull ?_)
  extract_lets jp
  split
  · refine (Goes.unexpected _).bind fun _ s₂ _ _ h₂ => .pure fun ht => ?_
    exact absurd ht (Nat.ne_of_gt h₂.2)
  · next h =>
    refine .pure fun ht => ⟨h₁ ht, ?_⟩
    simpa [Decidable.or_iff_not_not_and_not, and_comm] using h

/-- A text that is a program is parsed without faults. -/
theorem run_program_of_parse {name source : String} {known : List String} {nodes : Body}
    (h : parse name source known = .ok nodes) :
    ∃ s', program.run (.start (.ofText name source)
      (Stream.ofFile (.ofText name source)).tokens known) = (some nodes, s')
      ∧ s'.log.total = 0 := by
  unfold parse ofTokens at h
  rcases hr : program.run (.start (.ofText name source)
    (Stream.ofFile (.ofText name source)).tokens known) with ⟨_ | nodes', s'⟩
  · simp only [Stream.ofFile] at hr
    simp only [hr] at h
    cases h
  · simp only [Stream.ofFile] at hr
    simp only [hr] at h
    split at h
    · cases h
    · next hf =>
      cases h
      refine ⟨s', rfl, ?_⟩
      have hle := Log.le_total_append (Token.scan (.ofText name source)).log s'.log
      simp only [Log.hasErrors, decide_eq_true_eq] at hf
      omega

/-- **The word `rescue` in programs.** -/
theorem rescue_of_parse {name source : String} {known : List String} {nodes : Body}
    (h : parse name source known = .ok nodes) :
    let stream := Stream.ofFile (.ofText name source)
    (∃ s, Statements (expression maxDepth) []
        (.start (.ofText name source) stream.tokens known) s ∧ s.current.kind = .endOfInput)
      ∧ ∀ before t after, stream.tokens = before ++ t :: after → t.kind = .keyword .rescueKw →
        Placed stream (t :: after) := by
  intro stream
  obtain ⟨s', hrun, hclean⟩ := run_program_of_parse h
  have all : (State.start (.ofText name source) stream.tokens known).remaining = stream.tokens :=
    remaining_start stream _ known
  have start : (State.start (.ofText name source) stream.tokens known).In stream := by
    rw [State.In]
    exact ⟨[], all⟩
  obtain ⟨moves, -, passed, gives⟩ := goes_program start (Nat.zero_le _)
  rw [hrun] at moves passed gives
  obtain ⟨statements, final⟩ := gives _ rfl hclean
  have atEnd : s'.current.kind = .endOfInput := by
    refine final.resolve_left fun hf => ?_
    rw [Log.isFull, hclean] at hf
    cases hf
  refine ⟨⟨s', statements, atEnd⟩, fun before t after ht hk => ?_⟩
  have suffix : t :: after <:+ stream.tokens := ⟨before, ht.symm⟩
  refine passed hclean t after (all.symm ▸ suffix) ?_ hk
  -- only the end of the text is left, and nothing comes after it
  have last : s'.rest = [] := (moves.into start).rest_eq_nil_iff.mpr atEnd
  rw [State.length_remaining, last]
  refine List.length_pos_iff.mpr fun hnil => ?_
  obtain ⟨others, final, htokens, hfinal, -⟩ := stream.ends
  rw [ht, hnil] at htokens
  obtain ⟨-, heq⟩ := List.append_inj' htokens rfl
  rw [List.singleton_inj.mp heq, hfinal] at hk
  cases hk

/-- A method with a rescue clause. -/
def safeText : String :=
  "def safe\n  risky\nrescue\n  nil\nend"

theorem rescue_of_parse_safeText :
    ∃ nodes, parse "t.rb" safeText [] = .ok nodes
      ∧ ∃ before t after, (Stream.ofFile (.ofText "t.rb" safeText)).tokens = before ++ t :: after
        ∧ t.kind = .keyword .rescueKw
        ∧ Placed (.ofFile (.ofText "t.rb" safeText)) (t :: after) := by
  have accepted : (parse "t.rb" safeText []).toOption.isSome = true := by decide +kernel
  have fifth : ((Stream.ofFile (.ofText "t.rb" safeText)).tokens[5]?).map (·.kind)
      = some (.keyword .rescueKw) := by decide +kernel
  cases h : parse "t.rb" safeText [] with
  | error failure =>
    rw [h] at accepted
    cases accepted
  | ok nodes =>
    obtain ⟨t, ht, hk⟩ := Option.map_eq_some_iff.mp fifth
    obtain ⟨hlt, rfl⟩ := List.getElem?_eq_some_iff.mp ht
    have split := List.take_append_drop 5 (Stream.ofFile (.ofText "t.rb" safeText)).tokens
    rw [List.drop_eq_getElem_cons hlt] at split
    exact ⟨nodes, rfl, _, _, _, split.symm, hk, (rescue_of_parse h).2 _ _ _ split.symm hk⟩

/-- A statement, the word `rescue` in the same line, and a statement in the next line. -/
def modifierText : String :=
  "begin\n  risky rescue nil\n  later\nend"

/-- Inside a protected body the word opens a clause, and the statement in the next line belongs to
it. -/
theorem rescue_after_statement :
    (Token.scan (.ofText "t.rb" modifierText)).tokens.map (·.kind)
        = [.keyword .beginKw, .newline, .identifier "risky", .keyword .rescueKw, .keyword .nilKw,
          .newline, .identifier "later", .newline, .keyword .endKw, .endOfInput]
      ∧ (match parse "t.rb" modifierText [] with
        | .ok [⟨.rescue [⟨.send none "risky" [] none, _⟩] none
            [⟨.localVar "nil", _⟩, ⟨.send none "later" [] none, _⟩] none, _⟩] => true
        | _ => false) = true := by
  decide +kernel

end Parse

end ScriptCompiler
