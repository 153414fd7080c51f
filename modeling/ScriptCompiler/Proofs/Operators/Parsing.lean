import ScriptCompiler.Proofs.Continuation.Programs
import ScriptCompiler.Proofs.Operators.Groups
import ScriptCompiler.Proofs.Operators.Scanning

/-!
# Parsing trees of operators

A group of operands is a whole statement where an expression without assignments ends with it, so
that one in parentheses is an operand again. By induction the tokens of every tree are read as the
tree, and the text of a tree is a program of one statement.
-/

namespace ScriptCompiler.Operators

open Parse

/-! ## Statements -/

section Statements

variable {known : List String} {levels : Nat} {kinds : List Token.Kind} {bare : Node} {s : State}

/-- Nodes that are this one without spans are no calls that name a directive. -/
def Undirected (bare : Node) : Prop :=
  ∀ node : Node, node.bare = bare → asDirective node = node

/-- A message to an operand, a number or a local variable names no directive. -/
theorem undirected_node (t : Tree) : Undirected t.node := by
  intro node h
  unfold asDirective
  split
  · next name path span hf =>
    exfalso
    obtain ⟨form, whole⟩ := node
    cases hf
    cases t <;> cases h
  · rfl

theorem localAssignment?_eq_none {next : Token.Kind} (h : assignment? next = none)
    (k : Token.Kind) : localAssignment? k next = none := by
  cases k with
  | identifier name => simp [localAssignment?, h]
  | _ => rfl

/-- The end of a statement, or of one in parentheses. -/
theorem Stops.cases_last {k : Token.Kind} (h : Stops 6 k) :
    k = .punct .closeParen ∨ k = .endOfInput := by
  cases h with
  | closing => exact .inl rfl
  | isEnd => exact .inr rfl
  | operator op lt => cases op <;> exact absurd lt (by decide)

/-- The token may stand in an expression without assignments in one line. -/
def Quiet (k : Token.Kind) : Prop :=
  assignment? k = none ∧ k ≠ .newline ∧ k ≠ .endOfInput

theorem quiet_punct {mark : Punct} (h : assignment? (.punct mark) = none) :
    Quiet (.punct mark) :=
  ⟨h, nofun, nofun⟩

/-- Some tokens in one line, without assignments. -/
structure Plain (kinds : List Token.Kind) : Prop where
  some_kind : kinds ≠ []
  quiet : ∀ k ∈ kinds, Quiet k

theorem Plain.following (h : Plain kinds) (before : Before known 6 kinds s) :
    assignment? s.following.kind = none := by
  obtain ⟨stop, more, stops, ha⟩ := before.ahead
  match kinds, h.some_kind with
  | [k], _ =>
    rw [following_of_ahead ha]
    rcases stops.cases_last with rfl | rfl <;> rfl
  | k :: k' :: kinds, _ =>
    rw [following_of_ahead ha]
    exact (h.quiet k' (by simp)).1

theorem Plain.current (h : Plain kinds) (before : Before known 6 kinds s) :
    s.current.kind ≠ .newline ∧ s.current.kind ≠ .endOfInput := by
  obtain ⟨k, kinds, rfl⟩ := List.exists_cons_of_ne_nil h.some_kind
  rw [before.current]
  exact (h.quiet k List.mem_cons_self).2

theorem Before.last {s' : State} (before : Before known 6 kinds s) (passes : Passes s kinds s') :
    s'.current.kind = .punct .closeParen ∨ s'.current.kind = .endOfInput :=
  (before.stops passes).cases_last

/-- No logical operator comes. -/
theorem run_logical (h : Grouped known (Parse.expression levels) 5 kinds bare)
    (before : Before known 6 kinds s) :
    ∃ node s', (logical (Parse.expression levels)).run s = (some node, s') ∧ node.bare = bare
      ∧ Passes s kinds s' := by
  obtain ⟨node, s', hr, same, passes⟩ := h s before
  refine ⟨node, s', ?_, same, passes⟩
  unfold logical
  rw [operators_eq_upTo, run_bind, hr]
  dsimp only
  rw [run_kind]
  rcases before.last passes with hk | hk <;> rw [hk] <;> rfl

/-- No assignment comes. -/
theorem run_assignment (plain : Plain kinds)
    (h : Grouped known (Parse.expression levels) 5 kinds bare) (before : Before known 6 kinds s) :
    ∃ node s', (Parse.expression (levels + 1)).run s = (some node, s') ∧ node.bare = bare
      ∧ Passes s kinds s' := by
  obtain ⟨node, s', unjoined, same, passes⟩ := run_logical h before
  refine ⟨node, s', ?_, same, passes⟩
  show (assignment (Parse.expression levels)).run s = _
  unfold assignment
  rw [run_currentSpan, run_kind, run_followingKind,
    localAssignment?_eq_none (plain.following before)]
  dsimp only
  rw [run_bind, unjoined]
  dsimp only
  rw [run_kind]
  rcases before.last passes with hk | hk <;> rw [hk] <;> rfl

theorem run_statement (plain : Plain kinds) (undirected : Undirected bare)
    (h : Grouped known (Parse.expression levels) 5 kinds bare) (before : Before known 6 kinds s) :
    ∃ node s', (statement (Parse.expression (levels + 1))).run s = (some node, s')
      ∧ node.bare = bare ∧ Passes s kinds s' := by
  obtain ⟨node, s', hr, same, passes⟩ := run_assignment plain h before
  refine ⟨node, s', ?_, same, passes⟩
  have unmodified : modifier? s'.current.kind = none := by
    rcases before.last passes with hk | hk <;> rw [hk] <;> rfl
  have unjoined : joinWord? s'.current.kind = none := by
    rcases before.last passes with hk | hk <;> rw [hk] <;> rfl
  unfold statement
  rw [run_currentSpan, run_bind, hr]
  dsimp only
  rw [undirected node same, run_bind, run_repeating]
  swap
  · rw [run_kind, unmodified]
    rfl
  dsimp only
  rw [run_kind, unjoined]
  rfl

/-- A group in parentheses is an operand. -/
theorem Operand.parenthesized (plain : Plain kinds) (undirected : Undirected bare)
    (h : Grouped known (Parse.expression levels) 5 kinds bare) :
    Operand known (Parse.expression (levels + 1))
      (.punct .openParen :: (kinds ++ [.punct .closeParen])) bare := by
  refine .of_primary nofun nofun nofun fun s before => ?_
  have inside : Before known 6 kinds { s.next with doBlocks := true } := by
    obtain ⟨stop, more, -, ha⟩ := before.next.ahead
    rw [List.append_assoc] at ha
    exact ⟨⟨_, _, .closing, ha⟩, before.next.knows⟩
  obtain ⟨⟨form, span⟩, s₁, hr, same, passes⟩ := run_statement plain undirected h inside
  -- behind the parenthesis `do` may start a block as before it
  let s₂ : State := { s₁ with doBlocks := s.next.doBlocks }
  have passes₂ : Passes s.next kinds s₂ := ⟨passes.ahead, passes.log, passes.scopes⟩
  have closing : Before known 1 [.punct .closeParen] s₂ := before.next.after passes₂
  have within : (withDoBlocks true (do
      skipNewlines
      statement (Parse.expression (levels + 1)))).run s.next = (some ⟨form, span⟩, s₂) := by
    refine run_withDoBlocks ?_
    rw [run_bind, run_skipNewlines_of_ne (plain.current inside).1]
    exact hr
  refine ⟨⟨form, s.current.span.merge s₂.next.previous⟩, s₂.next, ?_, same,
    before.passes.trans (passes₂.trans closing.passes)⟩
  unfold primary
  rw [run_currentSpan]
  extract_lets finish
  rw [run_kind, before.current]
  show (Parse.parenthesized _).run s = _
  unfold Parse.parenthesized
  rw [run_currentSpan, run_advance, run_bind, within]
  dsimp only
  rw [run_bind, run_skipNewlines_of_ne (by rw [closing.current]; nofun)]
  dsimp only
  rw [run_bind, run_expect closing.current]
  rfl

/-- The parser starts before the tokens of the text. -/
theorem ahead_start {name source : String}
    (scanned : kindsOf (Token.scan (.ofText name source)) = kinds ++ [.endOfInput]) :
    ahead (.start (.ofText name source) (Token.scan (.ofText name source)).tokens known)
      = kinds ++ [.endOfInput] :=
  (congrArg (List.map Token.kind)
    (remaining_start (.ofFile (.ofText name source)) (.ofText name source) known)).trans scanned

theorem before_start (known : List String) {name source : String}
    (scanned : kindsOf (Token.scan (.ofText name source)) = kinds ++ [.endOfInput]) :
    Before known 6 kinds
      (.start (.ofText name source) (Token.scan (.ofText name source)).tokens known) := by
  refine ⟨⟨_, _, .isEnd, ahead_start scanned⟩, fun n hn => ?_⟩
  show (known.contains n || _) = true
  rw [List.contains_iff_mem.mpr hn, Bool.true_or]

/-- The tokens of a group are a body of one statement, without a fault. -/
theorem run_body_of_grouped {name source : String} (plain : Plain kinds)
    (undirected : Undirected bare)
    (scanned : kindsOf (Token.scan (.ofText name source)) = kinds ++ [.endOfInput])
    (h : Grouped known (Parse.expression (maxDepth - 1)) 5 kinds bare) :
    ∃ node s', (body (Parse.expression maxDepth) []).run
        (.start (.ofText name source) (Token.scan (.ofText name source)).tokens known)
          = (some [node], s')
      ∧ s'.current.kind = .endOfInput ∧ node.bare = bare ∧ s'.log = .empty := by
  have before := before_start known scanned
  obtain ⟨node, s', hr, same, passes⟩ := run_statement plain undirected h before
  have isEnd := current_of_ahead (passes.ahead_eq (ahead_start scanned))
  exact ⟨node, s', run_rounds_statement hr (plain.current before) isEnd rfl [] _, isEnd, same,
    passes.log⟩

/-- The tokens of a group are parsed as one statement, without a fault. -/
theorem run_program_of_grouped {name source : String} (plain : Plain kinds)
    (undirected : Undirected bare)
    (scanned : kindsOf (Token.scan (.ofText name source)) = kinds ++ [.endOfInput])
    (h : Grouped known (Parse.expression (maxDepth - 1)) 5 kinds bare) :
    ∃ node s', program.run
        (.start (.ofText name source) (Token.scan (.ofText name source)).tokens known)
          = (some [node], s')
      ∧ node.bare = bare ∧ s'.log = .empty := by
  obtain ⟨node, s', body, isEnd, same, clean⟩ := run_body_of_grouped plain undirected scanned h
  exact ⟨node, s', run_program_of_body body isEnd, same, clean⟩

/-- A text that is scanned as a group is a program of one statement. -/
theorem parse_of_grouped {name source : String} (plain : Plain kinds) (undirected : Undirected bare)
    (scanned : kindsOf (Token.scan (.ofText name source)) = kinds ++ [.endOfInput])
    (log : (Token.scan (.ofText name source)).log = .empty)
    (h : Grouped known (Parse.expression (maxDepth - 1)) 5 kinds bare) :
    ∃ node, parse name source known = .ok [node] ∧ node.bare = bare := by
  obtain ⟨node, s', program, same, clean⟩ := run_program_of_grouped plain undirected scanned h
  exact ⟨node, parse_of_run log program clean, same⟩

end Statements

/-! ## Trees -/

/-- The tokens are read wherever operators up to the rank may stand: as an operand, as a group, and
as the start of a group. -/
structure Readable (known : List String) (levels rank : Nat) (kinds : List Token.Kind)
    (bare : Node) : Prop where
  operand : rank ≤ 1 → Operand known (Parse.expression levels) kinds bare
  grouped : ∀ i, rank ≤ i + 1 → Grouped known (Parse.expression levels) i kinds bare
  chain : ∀ i, rank ≤ i + 2 → Chain known (Parse.expression levels) i kinds bare

namespace Readable

variable {known : List String} {levels rank : Nat} {kinds : List Token.Kind} {bare : Node}

theorem of_operand (h : Operand known (Parse.expression levels) kinds bare) :
    Readable known levels rank kinds bare where
  operand _ := h
  grouped i _ := h.grouped.mono (Nat.zero_le i)
  chain i _ := (h.grouped.mono (Nat.zero_le i)).chain

theorem mono {rank' : Nat} (h : Readable known levels rank kinds bare) (le : rank ≤ rank') :
    Readable known levels rank' kinds bare where
  operand small := h.operand (Nat.le_trans le small)
  grouped i small := h.grouped i (Nat.le_trans le small)
  chain i small := h.chain i (Nat.le_trans le small)

/-- A tree is enclosed in parentheses where it binds too loosely. -/
theorem enclose {t : Tree} (plain : Plain t.kinds) (limit : Nat)
    (h : ∀ levels, t.nesting ≤ levels → Readable known levels t.rank t.kinds t.node)
    (le : t.nesting + (t.looser limit).toNat ≤ levels) :
    Readable known levels limit
      (Tree.enclose (.punct .openParen) (.punct .closeParen) (t.looser limit) t.kinds) t.node := by
  cases hl : t.looser limit with
  | false =>
    rw [hl] at le
    exact (h levels le).mono (Nat.le_of_not_lt (of_decide_eq_false hl))
  | true =>
    rw [hl] at le
    obtain ⟨below, rfl⟩ := Nat.exists_eq_add_one.mpr (Nat.lt_of_lt_of_le (Nat.succ_pos _) le)
    have inner := (h below (Nat.le_of_succ_le_succ le)).grouped 5 t.rank_le
    exact of_operand (.parenthesized plain (undirected_node t) inner)

end Readable

namespace Tree

variable {known : List String} {t : Tree}

theorem mem_enclose {opening closing k : Token.Kind} {needed : Bool} {kinds : List Token.Kind}
    (h : k ∈ enclose opening closing needed kinds) : k = opening ∨ k ∈ kinds ∨ k = closing := by
  cases needed with
  | false => exact .inr (.inl h)
  | true => simpa [enclose] using h

/-- A tree stands in one line, without assignments. -/
theorem quiet_kinds (t : Tree) : ∀ k ∈ t.kinds, Quiet k := by
  have enclosed {t : Tree} {needed : Bool} (h : ∀ k ∈ t.kinds, Quiet k) :
      ∀ k ∈ enclose (.punct .openParen) (.punct .closeParen) needed t.kinds, Quiet k := by
    intro k hk
    rcases mem_enclose hk with rfl | hk | rfl
    · exact quiet_punct rfl
    · exact h k hk
    · exact quiet_punct rfl
  induction t with
  | numeral n =>
    intro k hk
    rw [List.mem_singleton.mp hk]
    exact ⟨rfl, Token.Kind.noConfusion, Token.Kind.noConfusion⟩
  | localVar name =>
    intro k hk
    rw [List.mem_singleton.mp hk]
    exact ⟨rfl, Token.Kind.noConfusion, Token.Kind.noConfusion⟩
  | binary op left right hl hr =>
    intro k hk
    rcases List.mem_append.mp hk with hk | hk
    · exact enclosed hl k hk
    · rcases List.mem_cons.mp hk with rfl | hk
      · cases op <;> exact quiet_punct rfl
      · exact enclosed hr k hk
  | signed sign operand ih =>
    intro k hk
    rcases List.mem_cons.mp hk with rfl | hk
    · cases sign <;> exact quiet_punct rfl
    · exact enclosed ih k hk

theorem kinds_ne_nil (t : Tree) : t.kinds ≠ [] := by
  cases t with
  | binary op left right => simp [kinds]
  | _ => exact List.cons_ne_nil _ _

theorem plain_kinds (t : Tree) : Plain t.kinds where
  some_kind := t.kinds_ne_nil
  quiet := t.quiet_kinds

/-- An operand that is no number does not start with one. -/
theorem starts_of_isNumeral (h : t.isNumeral = false) : ∃ k more,
    enclose (.punct .openParen) (.punct .closeParen) (t.looser 1) t.kinds = k :: more
      ∧ ∀ value, k ≠ .integer value := by
  cases t with
  | numeral n => cases h
  | localVar name => exact ⟨_, _, rfl, nofun⟩
  | signed sign operand => exact ⟨_, _, rfl, nofun⟩
  | binary op left right =>
    have looser : (binary op left right).looser 1 = true := decide_eq_true op.rank_mem.1
    rw [looser]
    exact ⟨_, _, rfl, nofun⟩

/-- **The tokens of a tree are read as the tree**, where so many levels are left as its parentheses
take. -/
theorem readable (h : t.Proper known) : ∀ levels, t.nesting ≤ levels →
    Readable known levels t.rank t.kinds t.node := by
  induction t with
  | numeral n => exact fun _ _ => .of_operand (operand_numeral n)
  | localVar name => exact fun _ _ => .of_operand (operand_localVar h.2)
  | signed sign operand ih =>
    intro levels le
    have inner := Readable.enclose operand.plain_kinds 1 (ih h.2) le
    exact .of_operand ((inner.operand (Nat.le_refl 1)).signed sign fun minus =>
      starts_of_isNumeral (h.1 minus))
  | binary op left right hl hr =>
    intro levels le
    obtain ⟨i, hi⟩ := Nat.exists_eq_add_of_le' op.rank_mem.1
    have first := Readable.enclose left.plain_kinds op.rank (hl h.1)
      (Nat.le_trans (Nat.le_max_left _ _) le)
    have second := Readable.enclose right.plain_kinds (op.rank - 1) (hr h.2)
      (Nat.le_trans (Nat.le_max_right _ _) le)
    have whole := (first.chain i (by omega)).binary hi (second.grouped i (by omega))
    refine ⟨fun small => absurd small ?_, fun j hj => ?_, fun j hj => ?_⟩
    · show ¬ op.rank ≤ 1
      omega
    · have hj : op.rank ≤ j + 1 := hj
      exact whole.grouped.mono (by omega)
    · have hj : op.rank ≤ j + 2 := hj
      rcases Nat.eq_or_lt_of_le (show i ≤ j by omega) with rfl | lt
      · exact whole
      · exact (whole.grouped.mono lt).chain

/-! ## Programs -/

/-- A tree alone is scanned as its tokens. -/
theorem scan_text (name : String) (h : t.Proper known) :
    kindsOf (Token.scan (.ofText name t.text)) = t.kinds ++ [.endOfInput]
      ∧ (Token.scan (.ofText name t.text)).log = .empty := by
  exact (spells h).scan ends_nil name

/-- **Operators bind as their ranks say.** The text of a tree is a program of one statement, which
without its spans is the tree, if its parentheses nest less deep than expressions may. -/
theorem parse_text (name : String) (h : t.Proper known) (shallow : t.nesting < maxDepth) :
    ∃ node, parse name t.text known = .ok [node] ∧ node.bare = t.node := by
  obtain ⟨kinds, log⟩ := scan_text name h
  have tree := (readable h (maxDepth - 1) (Nat.le_sub_one_of_lt shallow)).grouped 5 t.rank_le
  exact parse_of_grouped t.plain_kinds (undirected_node t) kinds log tree

/-- A difference that is subtracted, and a product of a negated sum. -/
def mixed : Tree :=
  .binary .minus
    (.binary .star
      (.signed .minus (.binary .plus (.localVar "a") (.numeral (.ofNat 1 (by decide)))))
      (.localVar "b"))
    (.binary .minus (.numeral (.ofNat 20 (by decide))) (.signed .bang (.localVar "a")))

theorem parse_text_mixed :
    mixed.text = "-(a + 1) * b - (20 - !a)" ∧ mixed.Proper ["a", "b"] ∧ mixed.nesting < maxDepth
      ∧ ∃ node, parse "t.rb" mixed.text ["a", "b"] = .ok [node] ∧ node.bare = mixed.node := by
  have isName (name : String) (h : name = "a" ∨ name = "b") :
      Token.isName name = true ∧ name ∈ ["a", "b"] := by
    rcases h with rfl | rfl <;> decide
  have proper : mixed.Proper ["a", "b"] :=
    ⟨⟨⟨fun _ => rfl, isName "a" (.inl rfl), trivial⟩, isName "b" (.inr rfl)⟩,
      trivial, nofun, isName "a" (.inl rfl)⟩
  have shallow : mixed.nesting < maxDepth := by decide
  exact ⟨by decide, proper, shallow, parse_text "t.rb" proper shallow⟩

end Tree

end ScriptCompiler.Operators
