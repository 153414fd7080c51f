import ScriptCompiler.Proofs.Continuation.Programs
import ScriptCompiler.Proofs.Operators.Trees

/-!
# Parsing groups of operands

A parser reads an operand, and groups of operands with operators up to some rank between them. What
is shown of each is that it takes the tokens of a tree, if something comes after them that the tree
does not go on with, and gives the tree. A group of one rank is read round by round: after each
round stands the tree of the operands so far.
-/

namespace ScriptCompiler.Operators

open Parse

/-! ## Tokens ahead -/

/-- What the tokens say that are left. -/
def ahead (s : State) : List Token.Kind :=
  s.remaining.map (·.kind)

/-- The second state stands behind tokens of these kinds, and nothing else happened. -/
structure Passes (s : State) (kinds : List Token.Kind) (s' : State) : Prop where
  ahead : ahead s = kinds ++ Operators.ahead s'
  log : s'.log = s.log
  scopes : s'.scopes = s.scopes

section Ahead

variable {s s' s'' : State} {k k' : Token.Kind} {kinds kinds' more : List Token.Kind}

theorem current_of_ahead (h : ahead s = k :: more) : s.current.kind = k :=
  (List.cons.inj h).1

theorem length_ahead (s : State) : (ahead s).length = s.rest.length + 1 :=
  List.length_map _

theorem following_of_ahead (h : ahead s = k :: k' :: more) : s.following.kind = k' := by
  have rest := (List.cons.inj h).2
  unfold State.following
  cases hr : s.rest with
  | nil =>
    rw [hr] at rest
    cases rest
  | cons t tokens =>
    rw [hr] at rest
    exact (List.cons.inj rest).1

theorem Passes.refl (s : State) : Passes s [] s :=
  ⟨rfl, rfl, rfl⟩

theorem Passes.trans (h : Passes s kinds s') (h' : Passes s' kinds' s'') :
    Passes s (kinds ++ kinds') s'' :=
  ⟨by rw [h.ahead, h'.ahead, List.append_assoc], h'.log.trans h.log, h'.scopes.trans h.scopes⟩

/-- Passing one of several tokens. -/
theorem passes_next (h : ahead s = k :: k' :: more) : Passes s [k] s.next := by
  have some_rest : s.rest ≠ [] := by
    intro hr
    have := congrArg List.length h
    rw [length_ahead, hr] at this
    cases this
  refine ⟨?_, s.log_next, s.scopes_next⟩
  rw [ahead, ahead, s.remaining_next some_rest, ← current_of_ahead h]
  rfl

theorem Passes.ahead_eq (h : Passes s kinds s') (hk : Operators.ahead s = kinds ++ more) :
    Operators.ahead s' = more :=
  List.append_cancel_left (h.ahead.symm.trans hk)

theorem Passes.length (h : Passes s kinds s') :
    s.rest.length = kinds.length + s'.rest.length := by
  have := congrArg List.length h.ahead
  rw [List.length_append, length_ahead, length_ahead] at this
  omega

end Ahead

/-! ## What may come after a tree -/

/-- No operator up to the rank, but one that binds more loosely, a closing parenthesis or the end of
the text. -/
inductive Stops (rank : Nat) : Token.Kind → Prop
  | closing : Stops rank (.punct .closeParen)
  | isEnd : Stops rank .endOfInput
  | operator (op : Operator) (h : rank < op.rank) : Stops rank (.punct op.mark)

theorem Stops.mono {rank rank' : Nat} {k : Token.Kind} (h : Stops rank k) (le : rank' ≤ rank) :
    Stops rank' k := by
  cases h with
  | closing => exact .closing
  | isEnd => exact .isEnd
  | operator op lt => exact .operator op (Nat.lt_of_le_of_lt le lt)

/-- The local variables are known, and tokens of these kinds come before something that stops. -/
structure Before (known : List String) (rank : Nat) (kinds : List Token.Kind) (s : State) :
    Prop where
  ahead : ∃ stop more, Stops rank stop ∧ Operators.ahead s = kinds ++ stop :: more
  knows : ∀ name ∈ known, State.sees name s.scopes = true

section Before

variable {known : List String} {rank : Nat} {kinds kinds' : List Token.Kind} {s s' : State}

theorem Before.mono {rank' : Nat} (h : Before known rank kinds s) (le : rank' ≤ rank) :
    Before known rank' kinds s := by
  obtain ⟨stop, more, stops, ha⟩ := h.ahead
  exact ⟨⟨stop, more, stops.mono le, ha⟩, h.knows⟩

theorem Before.after (h : Before known rank (kinds ++ kinds') s) (hp : Passes s kinds s') :
    Before known rank kinds' s' := by
  obtain ⟨stop, more, stops, ha⟩ := h.ahead
  rw [List.append_assoc] at ha
  exact ⟨⟨stop, more, stops, hp.ahead_eq ha⟩, hp.scopes.symm ▸ h.knows⟩

theorem Before.stop (h : Before known rank [] s) : Stops rank s.current.kind := by
  obtain ⟨stop, more, stops, ha⟩ := h.ahead
  exact current_of_ahead ha ▸ stops

theorem Before.current {k : Token.Kind} (h : Before known rank (k :: kinds) s) :
    s.current.kind = k := by
  obtain ⟨stop, more, stops, ha⟩ := h.ahead
  exact current_of_ahead ha

theorem Before.passes {k : Token.Kind} (h : Before known rank (k :: kinds) s) :
    Passes s [k] s.next := by
  obtain ⟨stop, more, stops, ha⟩ := h.ahead
  cases kinds <;> exact passes_next ha

theorem Before.next {k : Token.Kind} (h : Before known rank (k :: kinds) s) :
    Before known rank kinds s.next :=
  Before.after h h.passes

end Before

theorem Before.stops {known : List String} {rank : Nat} {kinds : List Token.Kind} {s s' : State}
    (h : Before known rank kinds s) (hp : Passes s kinds s') : Stops rank s'.current.kind := by
  rw [← List.append_nil kinds] at h
  exact (h.after hp).stop

/-! ## Operands -/

/-- One sign before an operand, or the operand. -/
def signsRound (expression : Parser Node) (signs : List (String × Span)) :
    Parser (Round (List (String × Span)) Node) := do
  let start ← currentSpan
  match ← kind with
  | .punct .minus =>
    advance
    match ← kind with
    | .integer value =>
      advance
      let literal : Node := ⟨.integer (-value), start.merge (← previousSpan)⟩
      return .done (applySigns signs (← postfixOf expression literal))
    | _ => return .again (("-@", start) :: signs)
  | .punct .bang =>
    advance
    return .again (("!", start) :: signs)
  | .keyword .notKw =>
    unsupported "'not' is not supported" start "use the '!' operator instead"
  | _ =>
    let operand ← primary expression
    return .done (applySigns signs (← postfixOf expression operand))

theorem unary_eq (expression : Parser Node) :
    unary expression = repeating (signsRound expression) [] := rfl

section Operands

variable {known : List String} {expression : Parser Node} {s : State}

/-- Nothing that follows an operand goes on with it. -/
theorem run_postfixOf_stop {rank : Nat} (h : Stops rank s.current.kind) (node : Node) :
    (postfixOf expression node).run s = (some node, s) := by
  refine run_repeating ?_
  generalize hk : s.current.kind = k at h
  unfold postfixRound
  rw [run_kind, hk]
  cases h with
  | closing => rfl
  | isEnd => rfl
  | operator op _ => cases op <;> rfl

/-- The parser of operands with signs takes the tokens, whatever signs came before, and the tree
without spans is `bare`. -/
def Operand (known : List String) (expression : Parser Node) (kinds : List Token.Kind)
    (bare : Node) : Prop :=
  ∀ signs fuel s, Before known 1 kinds s → s.rest.length < fuel → ∃ node s',
    (rounds (signsRound expression) fuel signs).run s = (some (applySigns signs node), s')
      ∧ node.bare = bare ∧ Passes s kinds s'

/-- An operand that does not start with a sign. -/
theorem Operand.of_primary {k : Token.Kind} {kinds : List Token.Kind} {bare : Node}
    (hm : k ≠ .punct .minus) (hb : k ≠ .punct .bang) (hn : k ≠ .keyword .notKw)
    (h : ∀ s, Before known 1 (k :: kinds) s → ∃ node s',
      (primary expression).run s = (some node, s') ∧ node.bare = bare
        ∧ Passes s (k :: kinds) s') :
    Operand known expression (k :: kinds) bare := by
  intro signs fuel s before lt
  obtain ⟨node, s', hp, same, passes⟩ := h s before
  obtain ⟨n, rfl⟩ := Nat.exists_eq_add_one.mpr (Nat.zero_lt_of_lt lt)
  refine ⟨node, s', run_rounds_done ?_, same, passes⟩
  have stop := before.stops passes
  unfold signsRound
  rw [run_currentSpan, run_kind, before.current]
  split
  · exact absurd rfl hm
  · exact absurd rfl hb
  · exact absurd rfl hn
  · rw [run_bind, hp]
    dsimp only
    rw [run_bind, run_postfixOf_stop stop]
    rfl

theorem operand_integer (value : Int64) :
    Operand known expression [.integer value] (.synthetic (.integer value)) := by
  refine .of_primary nofun nofun nofun fun s before => ?_
  refine ⟨⟨.integer value, s.current.span.merge s.next.previous⟩, s.next, ?_, rfl, before.passes⟩
  unfold primary
  rw [run_currentSpan]
  extract_lets finish
  rw [run_kind, before.current]
  rfl

theorem operand_numeral (n : Numeral) :
    Operand known expression (Tree.numeral n).kinds (Tree.numeral n).node :=
  operand_integer _

/-- A minus and a number are the negated number. -/
theorem operand_negated (value : Int64) :
    Operand known expression [.punct .minus, .integer value] (.synthetic (.integer (-value))) := by
  intro signs fuel s before lt
  obtain ⟨n, rfl⟩ := Nat.exists_eq_add_one.mpr (Nat.zero_lt_of_lt lt)
  have second := before.next
  refine ⟨⟨.integer (-value), s.current.span.merge s.next.next.previous⟩, s.next.next,
    run_rounds_done ?_, rfl, before.passes.trans second.passes⟩
  unfold signsRound
  rw [run_currentSpan, run_kind, before.current]
  dsimp only
  rw [run_advance, run_kind, second.current]
  dsimp only
  rw [run_advance, run_previousSpan, run_bind, run_postfixOf_stop second.next.stop]
  rfl

theorem operand_localVar {name : String} (h : name ∈ known) :
    Operand known expression (Tree.localVar name).kinds (Tree.localVar name).node := by
  refine .of_primary nofun nofun nofun fun s before => ?_
  refine ⟨⟨.localVar name, s.current.span.merge s.next.previous⟩, s.next, ?_, rfl, before.passes⟩
  have other : s.next.current.kind ≠ .punct .openParen := by
    intro hk
    have stop := before.next.stop
    rw [hk] at stop
    generalize hp : Token.Kind.punct .openParen = k at stop
    cases stop with
    | closing => cases hp
    | isEnd => cases hp
    | operator op _ => cases op <;> cases hp
  unfold primary
  rw [run_currentSpan]
  extract_lets finish
  rw [run_kind, before.current]
  dsimp only [simple?]
  rw [run_advance, run_isLocal, State.scopes_next, before.knows name h, run_atParenArgs_of_ne other]
  rfl

theorem Operand.signed {kinds : List Token.Kind} {operand : Tree} (sign : Sign)
    (h : Operand known expression kinds operand.node)
    (whole : sign = .minus → ∃ k more, kinds = k :: more ∧ ∀ value, k ≠ .integer value) :
    Operand known expression (.punct sign.mark :: kinds) (Tree.signed sign operand).node := by
  intro signs fuel s before lt
  obtain ⟨n, rfl⟩ := Nat.exists_eq_add_one.mpr (Nat.zero_lt_of_lt lt)
  have shorter : s.next.rest.length < n := by
    have := before.passes.length
    rw [List.length_singleton] at this
    omega
  obtain ⟨node, s', hr, same, passes⟩ :=
    h ((sign.message, s.current.span) :: signs) n s.next before.next shorter
  refine ⟨⟨.message (some node) sign.message [], s.current.span.merge node.span⟩, s', ?_, ?_,
    before.passes.trans passes⟩
  · rw [run_rounds_again, hr]
    · rfl
    unfold signsRound
    rw [run_currentSpan, run_kind, before.current]
    cases sign with
    | bang => rfl
    | minus =>
      obtain ⟨k, more, rfl, other⟩ := whole rfl
      dsimp only [Sign.mark]
      rw [run_advance, run_kind, before.next.current]
      cases k with
      | integer value => exact absurd rfl (other value)
      | _ => rfl
  · rw [Node.bare_message, same]
    rfl

end Operands

/-! ## Groups -/

/-- Operands with operators of the first so many ranks between them. -/
def upTo (expression : Parser Node) : Nat → Parser Node
  | 0 => unary expression
  | i + 1 => leftGrouped (ranks.getD i []) (upTo expression i)

theorem operators_eq_upTo (expression : Parser Node) :
    operators expression = upTo expression 5 := rfl

theorem mem_ranks (op : Operator) (i : Nat) :
    (ranks.getD i []).contains op.mark = decide (op.rank = i + 2) := by
  match i with
  | 0 | 1 | 2 | 3 | 4 => cases op <;> rfl
  | i + 5 =>
    have := op.rank_mem
    rw [decide_eq_false (by omega)]
    rfl

section Groups

variable {known : List String} {expression : Parser Node} {i : Nat} {kinds : List Token.Kind}
  {bare : Node}

/-- The parser takes the tokens, where no operator of its ranks comes after them, and the tree
without spans is `bare`. -/
def Grouped (known : List String) (expression : Parser Node) (i : Nat) (kinds : List Token.Kind)
    (bare : Node) : Prop :=
  ∀ s, Before known (i + 1) kinds s → ∃ node s',
    (upTo expression i).run s = (some node, s') ∧ node.bare = bare ∧ Passes s kinds s'

/-- Where an operator of the next rank may come after them, the parser of the next rank is in the
middle of its rounds behind the tokens. -/
def Chain (known : List String) (expression : Parser Node) (i : Nat) (kinds : List Token.Kind)
    (bare : Node) : Prop :=
  ∀ s, Before known (i + 1) kinds s → ∃ node s' fuel,
    (upTo expression (i + 1)).run s
        = (rounds (groupRound (ranks.getD i []) (upTo expression i)) fuel node).run s'
      ∧ node.bare = bare ∧ Passes s kinds s' ∧ s'.rest.length < fuel

theorem Operand.grouped (h : Operand known expression kinds bare) :
    Grouped known expression 0 kinds bare :=
  fun s before => h [] (s.rest.length + 3) s before (by omega)

theorem Grouped.chain (h : Grouped known expression i kinds bare) :
    Chain known expression i kinds bare := by
  intro s before
  obtain ⟨node, s', hr, same, passes⟩ := h s before
  refine ⟨node, s', s'.rest.length + 3, ?_, same, passes, by omega⟩
  show (upTo expression i >>= repeating (groupRound _ _)).run s = _
  rw [run_bind, hr]
  rfl

/-- The rounds stop in front of what binds more loosely. -/
theorem run_groupRound_stop {s : State} (h : Stops (i + 2) s.current.kind) (left : Node)
    (operand : Parser Node) :
    (groupRound (ranks.getD i []) operand left).run s = (some (.done left), s) := by
  generalize hk : s.current.kind = k at h
  unfold groupRound
  rw [run_kind, hk]
  cases h with
  | closing =>
    have none : (ranks.getD i []).contains .closeParen = false := by
      match i with
      | 0 | 1 | 2 | 3 | 4 => rfl
      | i + 5 => rfl
    dsimp only
    rw [none]
    rfl
  | isEnd => rfl
  | operator op lt =>
    dsimp only
    rw [mem_ranks, decide_eq_false (by omega)]
    rfl

theorem Chain.grouped (h : Chain known expression i kinds bare) :
    Grouped known expression (i + 1) kinds bare := by
  intro s before
  obtain ⟨node, s', fuel, hr, same, passes, lt⟩ := h s (before.mono (Nat.le_succ _))
  refine ⟨node, s', ?_, same, passes⟩
  have stop := before.stops passes
  obtain ⟨n, rfl⟩ := Nat.exists_eq_add_one.mpr (Nat.zero_lt_of_lt lt)
  rw [hr, run_rounds_done (run_groupRound_stop stop node _)]

theorem Grouped.mono {j : Nat} (h : Grouped known expression i kinds bare) (le : i ≤ j) :
    Grouped known expression j kinds bare := by
  induction le with
  | refl => exact h
  | step _ ih => exact ih.chain.grouped

/-- One more operand behind an operator. -/
theorem Chain.binary {op : Operator} (hop : op.rank = i + 2) {kinds' : List Token.Kind}
    {left right : Tree} (hl : Chain known expression i kinds left.node)
    (hr : Grouped known expression i kinds' right.node) :
    Chain known expression i (kinds ++ .punct op.mark :: kinds')
      (Tree.binary op left right).node := by
  intro s before
  have first : Before known (i + 1) kinds s := by
    obtain ⟨stop, more, -, ha⟩ := before.ahead
    refine ⟨⟨.punct op.mark, kinds' ++ stop :: more, .operator op (by omega), ?_⟩, before.knows⟩
    rw [ha, List.append_assoc]
    rfl
  obtain ⟨node, s₁, fuel, run, same, passes, lt⟩ := hl s first
  have second : Before known (i + 1) (.punct op.mark :: kinds') s₁ := before.after passes
  obtain ⟨node', s₂, run', same', passes'⟩ := hr s₁.next second.next
  have whole := second.passes.trans passes'
  obtain ⟨n, rfl⟩ := Nat.exists_eq_add_one.mpr (Nat.zero_lt_of_lt lt)
  refine ⟨Parse.binary node op.mark.text node', s₂, n, ?_, ?_, passes.trans whole, ?_⟩
  · rw [run]
    refine run_rounds_again ?_
    unfold groupRound
    rw [run_kind, second.current]
    dsimp only
    rw [mem_ranks, decide_eq_true hop, if_pos rfl, run_advance, run_bind, run']
    rfl
  · rw [Parse.binary, Node.bare_message, same, bareAll, same']
    rfl
  · have := whole.length
    rw [List.length_append, List.length_singleton] at this
    omega

end Groups

end ScriptCompiler.Operators
