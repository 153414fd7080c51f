import Mathlib.Data.List.Chain
import ScriptCompiler.Proofs.Nesting.Routines
import ScriptCompiler.Proofs.Operators.Parsing

/-!
# How deep the parser's functions call one another

A stack of calls is bounded by the levels of expressions and the signs before operands, and there
are stacks as high as the number of signs.
-/

/-!
## Calls of the parser's functions

A function calls another one in some state if what it makes of its own state depends on what the
other one answers there. Each call goes down in an order of the functions, with two exceptions: an
expression calls the function of assignments with a level less, and an operand with a sign calls
the function of operands again. So a stack of calls is bounded by the levels, apart from the signs.
-/

namespace ScriptCompiler.Parse

/-! ### Activations -/

/-- A function of the parser at work: with so many levels left, from a state on. -/
structure Activation where
  levels : Nat
  routine : Routine
  state : State

/-- The first activation makes the second one: it has another outcome if some other parser took the
place of the second one in its state. -/
def Calls (a b : Activation) : Prop :=
  ∃ calls : Routines,
    (∀ levels r s, Activation.mk levels r s ≠ b → (calls levels r).run s = (parser levels r).run s)
      ∧ (code calls a.levels a.routine).run a.state
        ≠ (code parser a.levels a.routine).run a.state

/-- Activations of which each one makes the next one. -/
abbrev Stack (stack : List Activation) : Prop :=
  stack.IsChain Calls

section Failure

variable {a b : Activation}

open Classical in
/-- The functions of the parser, but one of them fails in one state, and leaves the second state. -/
noncomputable def denied (b : Activation) (after : State) : Routines := fun levels r s =>
  if Activation.mk levels r s = b then (none, after) else (parser levels r).run s

/-- A function calls another one if it answers something else where the other one fails. -/
theorem Calls.of_failure (after : State)
    (changes : ∀ calls : Routines, (calls b.levels b.routine).run b.state = (none, after) →
      (code calls a.levels a.routine).run a.state ≠ (parser a.levels a.routine).run a.state) :
    Calls a b := by
  refine ⟨denied b after, fun levels r s other => if_neg other, ?_⟩
  rw [code_eq]
  exact changes _ (if_pos rfl)

/-- A function calls another one if it gives a result, and fails where the other one fails. -/
theorem Calls.of_needed {result : a.routine.Result} {s' : State}
    (gives : (parser a.levels a.routine).run a.state = (some result, s'))
    (fails : ∀ calls : Routines, (calls b.levels b.routine).run b.state = (none, b.state) →
      ((code calls a.levels a.routine).run a.state).1 = none) :
    Calls a b := by
  refine .of_failure b.state fun calls failure same => ?_
  have := fails calls failure
  rw [same, gives] at this
  cases this

end Failure

/-! ### The order of the functions -/

namespace Routine

/-- Where the function stands: it calls functions that stand lower. -/
def rank : Routine → Nat
  | expression | params _ => 0
  | statement | argument | assignTo _ _ _ _ => 1
  | body _ | commandArgs | bracketedArgs _ => 2
  | program | branch | unlessBlock | loopBlock _ | rescueTail _ | namespaceBody | blockRest _ => 3
  | call _ _ | ifBlock | beginBlock | classBlock | moduleBlock | methodRest _ _ _ => 4
  | postfixOf _ | methodBlock => 5
  | primary => 6
  | unary => 7
  | grouped rank => 8 + rank
  | logical => 9 + ranks.length
  | assignment => 10 + ranks.length

/-- How many ranks there are. -/
def rankCount : Nat :=
  11 + ranks.length

theorem rank_lt (r : Routine) : r.rank < rankCount := by
  cases r with
  | grouped rank =>
    show 8 + rank.val < 11 + ranks.length
    omega
  | _ => exact Nat.le_of_ble_eq_true rfl

end Routine

section Congr

variable {calls calls' : Routines} {levels : Nat}

/-- A function that is no expression depends on the functions below it alone, and on itself if it is
the function of operands with signs. -/
theorem code_congr {r : Routine} (other : r ≠ .expression)
    (same : ∀ r' : Routine, r'.rank < r.rank ∨ r = .unary ∧ r' = .unary →
      calls levels r' = calls' levels r') :
    code calls levels r = code calls' levels r := by
  have below (r' : Routine) (lt : r'.rank < r.rank) : calls levels r' = calls' levels r' :=
    same r' (.inl lt)
  have lt {n k : Nat} (h : Nat.ble (n + 1) k = true) : n < k := Nat.le_of_ble_eq_true h
  cases r with
  | expression => exact absurd rfl other
  | program => simp only [code, below (.body []) (lt rfl)]
  | body terminators =>
    unfold code bodyCode
    rw [below .statement (lt rfl)]
  | statement => simp only [code, below .expression (lt rfl)]
  | assignment =>
    simp only [code, assignmentCode, assignExpressionCode, below .logical (lt rfl),
      below .expression (lt rfl),
      fun target current how start => below (.assignTo target current how start) (lt rfl)]
  | assignTo target current how start => simp only [code, below .expression (lt rfl)]
  | logical => simp only [code, logicalCode, below (.grouped (Fin.last _)) (lt rfl)]
  | grouped rank =>
    obtain ⟨_ | rank, h⟩ := rank
    · exact below .unary (lt rfl)
    · have lower : (Routine.grouped ⟨rank, Nat.lt_of_succ_lt h⟩).rank
          < (Routine.grouped ⟨rank + 1, h⟩).rank := Nat.lt_succ_self (8 + rank)
      simp only [code, groupedCode, below _ lower]
  | unary =>
    simp only [code, unaryCode, same .unary (.inr ⟨rfl, rfl⟩), below .primary (lt rfl),
      fun node => below (.postfixOf node) (lt rfl)]
  | postfixOf node =>
    unfold code postfixCode
    simp only [fun receiver name => below (.call receiver name) (lt rfl),
      below (.bracketedArgs .closeBracket) (lt rfl)]
  | primary =>
    simp only [code, primaryCode, parenthesizedCode, below .statement (lt rfl),
      fun receiver name => below (.call receiver name) (lt rfl),
      below (.bracketedArgs .closeBracket) (lt rfl), below .ifBlock (lt rfl),
      below .unlessBlock (lt rfl), fun loop => below (.loopBlock loop) (lt rfl),
      below .beginBlock (lt rfl), below .classBlock (lt rfl), below .moduleBlock (lt rfl),
      below .methodBlock (lt rfl)]
  | call receiver name =>
    simp only [code, callCode, callBlockCode, below (.bracketedArgs .closeParen) (lt rfl),
      below .commandArgs (lt rfl), fun close => below (.blockRest close) (lt rfl)]
  | commandArgs => simp only [code, commandArgsCode, below .argument (lt rfl)]
  | bracketedArgs close => simp only [code, bracketedArgsCode, below .argument (lt rfl)]
  | argument => simp only [code, below .expression (lt rfl)]
  | blockRest close =>
    simp only [code, blockRestCode, below (.params (.punct .bar)) (lt rfl),
      below (.body [close]) (lt rfl)]
  | ifBlock =>
    simp only [code, ifBlockCode, elseCode, below .branch (lt rfl),
      fun terminators => below (.body terminators) (lt rfl)]
  | branch =>
    simp only [code, branchCode, below .expression (lt rfl),
      fun terminators => below (.body terminators) (lt rfl)]
  | unlessBlock =>
    simp only [code, unlessBlockCode, elseCode, below .expression (lt rfl),
      fun terminators => below (.body terminators) (lt rfl)]
  | loopBlock loop =>
    simp only [code, loopBlockCode, below .expression (lt rfl),
      fun terminators => below (.body terminators) (lt rfl)]
  | beginBlock =>
    simp only [code, beginBlockCode, fun terminators => below (.body terminators) (lt rfl),
      fun protected_ => below (.rescueTail protected_) (lt rfl)]
  | rescueTail protected_ =>
    simp only [code, rescueTailCode, rescueClauseCode,
      fun terminators => below (.body terminators) (lt rfl)]
  | classBlock => simp only [code, classBlockCode, below .namespaceBody (lt rfl)]
  | moduleBlock => simp only [code, moduleBlockCode, below .namespaceBody (lt rfl)]
  | namespaceBody =>
    simp only [code, namespaceBodyCode, fun terminators => below (.body terminators) (lt rfl)]
  | methodBlock =>
    simp only [code, methodBlockCode,
      fun start owner name => below (.methodRest start owner name) (lt rfl)]
  | methodRest start owner name =>
    simp only [code, methodRestCode, methodParamsCode, fun close => below (.params close) (lt rfl),
      fun terminators => below (.body terminators) (lt rfl),
      fun protected_ => below (.rescueTail protected_) (lt rfl)]
  | params close => rfl

end Congr

/-- A sign before an operand. -/
def IsSign (k : Token.Kind) : Prop :=
  k = .punct .minus ∨ k = .punct .bang

/-- The function of operands with signs calls itself behind a sign alone. -/
theorem run_unaryCode_congr {calls calls' : (r : Routine) → Parser r.Result} {s : State}
    (first : calls .primary = calls' .primary)
    (after : ∀ node, calls (.postfixOf node) = calls' (.postfixOf node))
    (operand : IsSign s.current.kind →
      (calls .unary).run s.next = (calls' .unary).run s.next) :
    (unaryCode calls).run s = (unaryCode calls').run s := by
  unfold unaryCode
  simp only [first, after]
  rw [run_currentSpan, run_currentSpan, run_kind, run_kind]
  split
  · next minus =>
    rw [run_advance, run_advance, run_kind, run_kind]
    split
    · rfl
    · rw [run_bind, run_bind, operand (.inl minus)]
  · next bang =>
    rw [run_advance, run_advance, run_bind, run_bind, operand (.inr bang)]
  · rfl
  · rfl

/-! ### What a call can be -/

namespace Calls

variable {a b : Activation}

/-- A call takes a level, or goes down in the order of the functions, or passes a sign. -/
theorem cases (h : Calls a b) :
    (a.routine = .expression ∧ b.routine = .assignment ∧ a.levels = b.levels + 1)
      ∨ (b.levels = a.levels ∧ b.routine.rank < a.routine.rank)
      ∨ (b.levels = a.levels ∧ a.routine = .unary ∧ b.routine = .unary
        ∧ IsSign a.state.current.kind ∧ b.state = a.state.next) := by
  obtain ⟨levels, r, s⟩ := a
  obtain ⟨levels', r', s'⟩ := b
  obtain ⟨calls, agree, changes⟩ := h
  dsimp only at changes ⊢
  by_cases isExpression : r = .expression
  · subst isExpression
    left
    cases levels with
    | zero => exact absurd rfl changes
    | succ below =>
      -- an expression calls the assignments of the level below and nothing else
      by_contra other
      refine changes (agree below .assignment s ?_)
      rintro ⟨⟩
      exact other ⟨rfl, rfl, rfl⟩
  right
  by_contra other
  rw [not_or, not_and, not_and] at other
  obtain ⟨lower, sign⟩ := other
  -- functions below are not called in the second state, so they answer what they answer
  have below (q : Routine) (lt : q.rank < r.rank) : calls levels q = parser levels q := by
    refine funext fun t => agree levels q t ?_
    rintro ⟨⟩
    exact lower rfl lt
  by_cases isUnary : r = .unary
  · subst isUnary
    refine changes (run_unaryCode_congr (below .primary (by decide))
      (fun node => below (.postfixOf node) (Nat.le_of_ble_eq_true rfl)) fun hs => ?_)
    refine agree levels .unary s.next ?_
    rintro ⟨⟩
    exact sign rfl ⟨rfl, rfl, hs, rfl⟩
  · have same : code calls levels r = code parser levels r :=
      code_congr isExpression fun q hq => below q (hq.resolve_right fun h => isUnary h.1)
    exact changes (congrArg (fun p : Parser r.Result => p.run s) same)

end Calls

/-! ### Stacks -/

namespace Activation

/-- The function of operands with signs is at work. -/
def isUnary (a : Activation) : Bool :=
  match a.routine with
  | .unary => true
  | _ => false

theorem isUnary_iff {a : Activation} : a.isUnary = true ↔ a.routine = .unary := by
  unfold isUnary
  cases a.routine <;> simp

/-- How many calls there may be below, apart from those for signs. -/
def height (a : Activation) : Nat :=
  Routine.rankCount * a.levels + a.routine.rank

end Activation

/-- How many calls of a stack are made for an operand behind a sign. -/
def signCalls : List Activation → Nat
  | a :: b :: rest => (if a.isUnary && b.isUnary then 1 else 0) + signCalls (b :: rest)
  | _ => 0

theorem signCalls_le_length (stack : List Activation) : signCalls stack ≤ stack.length := by
  fun_induction signCalls stack with
  | case1 a b rest ih =>
    rw [List.length_cons]
    split <;> omega
  | case2 => exact Nat.zero_le _

/-- Each call goes down, or it is made for an operand behind a sign. -/
theorem Calls.height_lt {a b : Activation} (h : Calls a b) :
    b.height < a.height ∨ (b.height = a.height ∧ (a.isUnary && b.isUnary) = true) := by
  unfold Activation.height
  rcases h.cases with ⟨ha, hb, levels⟩ | ⟨levels, lt⟩ | ⟨levels, ha, hb, -⟩
  · left
    have := Routine.rank_lt b.routine
    rw [ha, levels, Nat.mul_succ]
    exact Nat.lt_of_lt_of_le (Nat.add_lt_add_left this _) (Nat.le_add_right _ _)
  · left
    rw [levels]
    exact Nat.add_lt_add_left lt _
  · right
    rw [levels, ha, hb, Activation.isUnary_iff.mpr ha, Activation.isUnary_iff.mpr hb]
    exact ⟨rfl, rfl⟩

theorem length_le_height {a : Activation} {rest : List Activation} (h : Stack (a :: rest)) :
    (a :: rest).length ≤ a.height + 1 + signCalls (a :: rest) := by
  induction rest generalizing a with
  | nil => exact Nat.le_add_left 1 _
  | cons b rest ih =>
    obtain ⟨call, calls⟩ := List.isChain_cons_cons.mp h
    have shorter := ih calls
    rw [List.length_cons, signCalls]
    rcases call.height_lt with lt | ⟨same, sign⟩
    · split <;> omega
    · rw [if_pos sign]
      omega

/-- Without an expression on the way the last function of a stack is below the first one, or all
of them are the function of operands with signs. -/
theorem rank_lt_of_no_expression {a : Activation} {rest : List Activation} (h : Stack (a :: rest))
    (none : ∀ x ∈ a :: rest, x.routine ≠ .expression) (some : rest ≠ []) :
    ((a :: rest).getLast (List.cons_ne_nil _ _)).routine.rank < a.routine.rank
      ∨ ∀ x ∈ a :: rest, x.routine = .unary := by
  induction rest generalizing a with
  | nil => exact absurd rfl some
  | cons b rest ih =>
    obtain ⟨call, calls⟩ := List.isChain_cons_cons.mp h
    have step : b.routine.rank < a.routine.rank ∨ (a.routine = .unary ∧ b.routine = .unary) := by
      rcases call.cases with ⟨ha, -⟩ | ⟨-, lt⟩ | ⟨-, ha, hb, -⟩
      · exact absurd ha (none a List.mem_cons_self)
      · exact .inl lt
      · exact .inr ⟨ha, hb⟩
    rw [List.getLast_cons (List.cons_ne_nil b rest)]
    by_cases last : rest = []
    · subst last
      refine step.imp_right fun ⟨ha, hb⟩ => ?_
      simpa using ⟨ha, hb⟩
    · rcases ih calls (fun x hx => none x (List.mem_cons_of_mem _ hx)) last with lt | all
      · left
        rcases step with lt' | ⟨ha, hb⟩
        · exact Nat.lt_trans lt lt'
        · rwa [ha, ← hb]
      · have hb := all b List.mem_cons_self
        rcases step with lt' | ⟨ha, -⟩
        · left
          rwa [all _ (List.getLast_mem (List.cons_ne_nil b rest)), ← hb]
        · exact .inr (List.forall_mem_cons.mpr ⟨ha, all⟩)

/-- **The recursion of the parser.** However deep the calls of its functions stand inside one
another, the stack is no longer than a number that the levels fix, and the calls for operands behind
signs. A circle of calls goes through an expression, or it is the function of operands with signs
that calls itself, once for each sign. -/
theorem length_stack_le {stack : List Activation} (calls : Stack stack)
    (first : ∀ a ∈ stack.head?, a.levels ≤ maxDepth) :
    stack.length ≤ Routine.rankCount * (maxDepth + 1) + signCalls stack
      ∧ (∀ a circle b, a :: (circle ++ [b]) <:+: stack → b.routine = a.routine →
        (∃ x ∈ a :: (circle ++ [b]), x.routine = .expression)
          ∨ ∀ x ∈ a :: (circle ++ [b]), x.routine = .unary)
      ∧ ∀ a b, [a, b] <:+: stack → (a.isUnary && b.isUnary) = true →
        IsSign a.state.current.kind ∧ b.state = a.state.next := by
  refine ⟨?_, fun a circle b inside same => ?_, fun a b inside unary => ?_⟩
  · cases stack with
    | nil => exact Nat.zero_le _
    | cons a rest =>
      have levels := Nat.mul_le_mul_left Routine.rankCount (first a rfl)
      have rank := Routine.rank_lt a.routine
      have length := length_le_height calls
      rw [Activation.height] at length
      rw [Nat.mul_succ]
      omega
  · by_contra other
    rw [not_or] at other
    have none : ∀ x ∈ a :: (circle ++ [b]), x.routine ≠ .expression :=
      fun x hx hr => other.1 ⟨x, hx, hr⟩
    have within : Stack (a :: (circle ++ [b])) := List.IsChain.infix calls inside
    have last := (rank_lt_of_no_expression within none (by simp)).resolve_right other.2
    simp [same] at last
  · rw [Bool.and_eq_true, Activation.isUnary_iff, Activation.isUnary_iff] at unary
    have within : Stack [a, b] := List.IsChain.infix calls inside
    obtain ⟨call, -⟩ := List.isChain_cons_cons.mp within
    rcases call.cases with ⟨ha, -⟩ | ⟨-, lt⟩ | ⟨-, -, -, sign⟩
    · cases unary.1.symm.trans ha
    · rw [unary.1, unary.2] at lt
      exact absurd lt (Nat.lt_irrefl _)
    · exact sign

theorem length_stack_le_bang :
    let s := State.start (.ofText "t.rb" "!1") (Token.scan (.ofText "t.rb" "!1")).tokens []
    let stack : List Activation := [⟨maxDepth, .unary, s⟩, ⟨maxDepth, .unary, s.next⟩]
    Stack stack ∧ (∀ a ∈ stack.head?, a.levels ≤ maxDepth) ∧ signCalls stack = 1
      ∧ stack.length ≤ Routine.rankCount * (maxDepth + 1) + 1 ∧ IsSign s.current.kind := by
  intro s stack
  have sign : s.current.kind = .punct .bang := by decide +kernel
  have given : ((parser maxDepth .unary).run s).1.isSome = true := by decide +kernel
  obtain ⟨node, gives⟩ := Option.isSome_iff_exists.mp given
  have call : Calls ⟨maxDepth, .unary, s⟩ ⟨maxDepth, .unary, s.next⟩ := by
    refine .of_needed (Prod.ext gives rfl) fun calls failure => ?_
    show ((unaryCode (calls maxDepth)).run s).1 = none
    unfold unaryCode
    rw [run_currentSpan, run_kind, sign]
    dsimp only
    rw [run_advance, run_bind, failure]
  have calls : Stack stack := List.isChain_cons_cons.mpr ⟨call, List.isChain_singleton _⟩
  have first : ∀ a ∈ stack.head?, a.levels ≤ maxDepth := by
    rintro _ ⟨⟩
    exact Nat.le_refl _
  obtain ⟨length, -, signs⟩ := length_stack_le calls first
  exact ⟨calls, first, rfl, length, (signs _ _ List.infix_rfl rfl).1⟩

end ScriptCompiler.Parse

/-!
## Signs before an operand

The signs before an operand take no level. A text of any number of them is accepted, and while it is
parsed the function of operands with signs stands as often on the stack as there are signs.
-/

namespace ScriptCompiler.Parse

open Operators

/-! ### Stacks with signs -/

/-- The activation is the first one of a stack with so many calls for operands behind signs. -/
def Reaches (n : Nat) (a : Activation) : Prop :=
  ∃ rest, Stack (a :: rest) ∧ signCalls (a :: rest) = n

namespace Reaches

variable {n : Nat} {a b : Activation}

theorem zero (a : Activation) : Reaches 0 a :=
  ⟨[], List.isChain_singleton a, rfl⟩

theorem call (h : Reaches n b) (call : Calls a b) (other : a.isUnary = false) : Reaches n a := by
  obtain ⟨rest, calls, count⟩ := h
  refine ⟨b :: rest, List.isChain_cons_cons.mpr ⟨call, calls⟩, ?_⟩
  rw [signCalls, other, count]
  exact Nat.zero_add n

theorem sign (h : Reaches n b) (call : Calls a b) (ha : a.isUnary = true) (hb : b.isUnary = true) :
    Reaches (n + 1) a := by
  obtain ⟨rest, calls, count⟩ := h
  refine ⟨b :: rest, List.isChain_cons_cons.mpr ⟨call, calls⟩, ?_⟩
  rw [signCalls, ha, hb, count]
  exact Nat.add_comm 1 n

end Reaches

/-! ### A number behind signs -/

/-- The number one behind so many exclamation marks. -/
def bangs : Nat → Tree
  | 0 => .numeral (.ofNat 1 (by decide))
  | n + 1 => .signed .bang (bangs n)

section Bangs

variable {n : Nat} {s : State}

theorem proper_bangs (known : List String) (n : Nat) : (bangs n).Proper known := by
  induction n with
  | zero => trivial
  | succ n ih => exact ⟨nofun, ih⟩

/-- Signs need no parentheses around what they stand before. -/
theorem looser_bangs (n : Nat) : (bangs n).looser 1 = false := by
  cases n <;> rfl

theorem nesting_bangs (n : Nat) : (bangs n).nesting = 0 := by
  induction n with
  | zero => rfl
  | succ n ih =>
    show (bangs n).nesting + ((bangs n).looser 1).toNat = 0
    rw [ih, looser_bangs]
    rfl

theorem kinds_bangs (n : Nat) : (bangs (n + 1)).kinds = .punct .bang :: (bangs n).kinds := by
  show Token.Kind.punct .bang :: Tree.enclose _ _ ((bangs n).looser 1) _ = _
  rw [looser_bangs]
  rfl

theorem grouped_bangs (levels rank n : Nat) :
    Grouped [] (Parse.expression levels) rank (bangs n).kinds (bangs n).node := by
  refine ((bangs n).readable (proper_bangs [] n) levels ?_).grouped rank ?_
  · rw [nesting_bangs]
    exact Nat.zero_le levels
  · refine Nat.le_trans ?_ (Nat.succ_le_succ (Nat.zero_le rank))
    cases n <;> exact Nat.le_of_ble_eq_true rfl

/-- Each sign is a call of the function of operands with signs. -/
theorem reaches_unary (levels : Nat) (before : Before [] 1 (bangs n).kinds s) :
    Reaches n ⟨levels, .unary, s⟩ := by
  induction n generalizing s with
  | zero => exact .zero _
  | succ n ih =>
    obtain ⟨node, s', gives, -⟩ := grouped_bangs levels 0 (n + 1) s before
    rw [kinds_bangs] at before
    refine (ih before.next).sign (.of_needed gives fun calls failure => ?_) rfl rfl
    show ((unaryCode (calls levels)).run s).1 = none
    unfold unaryCode
    rw [run_currentSpan, run_kind, before.current]
    dsimp only
    rw [run_advance, run_bind, failure]

theorem reaches_grouped (levels : Nat) (rank : Fin (ranks.length + 1))
    (before : Before [] (rank + 1) (bangs n).kinds s) : Reaches n ⟨levels, .grouped rank, s⟩ := by
  obtain ⟨rank, h⟩ := rank
  induction rank with
  | zero =>
    obtain ⟨node, s', gives, -⟩ := grouped_bangs levels 0 n s before
    exact (reaches_unary levels before).call (.of_needed gives fun calls failure =>
      congrArg Prod.fst failure) rfl
  | succ rank ih =>
    obtain ⟨node, s', gives, -⟩ := grouped_bangs levels (rank + 1) n s before
    refine (ih (Nat.lt_of_succ_lt h) (before.mono (Nat.le_succ _))).call
      (.of_needed gives fun calls failure => ?_) rfl
    show ((leftGrouped _ (calls levels (.grouped ⟨rank, Nat.lt_of_succ_lt h⟩))).run s).1 = none
    unfold leftGrouped
    rw [run_bind, failure]

theorem reaches_expression (levels : Nat) (before : Before [] 6 (bangs n).kinds s) :
    Reaches n ⟨levels + 1, .expression, s⟩ := by
  have grouped := grouped_bangs levels 5 n
  obtain ⟨_, _, logical, -⟩ := run_logical grouped before
  obtain ⟨_, _, whole, -⟩ := run_assignment (bangs n).plain_kinds grouped before
  have unnamed := localAssignment?_eq_none ((bangs n).plain_kinds.following before) s.current.kind
  have ofLogical : Calls ⟨levels, .logical, s⟩ ⟨levels, .grouped (Fin.last _), s⟩ := by
    refine .of_needed logical fun calls failure => ?_
    show ((logicalCode (calls levels)).run s).1 = none
    unfold logicalCode
    rw [run_bind, failure]
  have ofAssignment : Calls ⟨levels, .assignment, s⟩ ⟨levels, .logical, s⟩ := by
    refine .of_needed whole fun calls failure => ?_
    show ((assignmentCode (calls levels)).run s).1 = none
    unfold assignmentCode
    rw [run_currentSpan, run_kind, run_followingKind, unnamed]
    dsimp only
    rw [run_bind, failure]
  have ofExpression : Calls ⟨levels + 1, .expression, s⟩ ⟨levels, .assignment, s⟩ :=
    .of_needed whole fun calls failure => congrArg Prod.fst failure
  have inLogical := (reaches_grouped levels (Fin.last _) before).call ofLogical rfl
  exact (inLogical.call ofAssignment rfl).call ofExpression rfl

theorem reaches_statement (levels : Nat) (before : Before [] 6 (bangs n).kinds s) :
    Reaches n ⟨levels + 1, .statement, s⟩ := by
  obtain ⟨_, _, gives, -⟩ := run_statement (bangs n).plain_kinds (undirected_node _)
    (grouped_bangs levels 5 n) before
  refine (reaches_expression levels before).call (.of_needed gives fun calls failure => ?_) rfl
  show ((Parse.statement (calls (levels + 1) .expression)).run s).1 = none
  unfold Parse.statement
  rw [run_currentSpan, run_bind, failure]

end Bangs

/-- A body with a statement calls the function of statements: it would be empty if that failed at
the end of the text. -/
theorem Calls.of_body {levels : Nat} {s s' : State} {nodes : List Node}
    (starts : s.current.kind ≠ .newline ∧ s.current.kind ≠ .endOfInput)
    (room : s.log.isFull = false) (some_node : nodes ≠ [])
    (gives : (body (Parse.expression levels) []).run s = (some nodes, s')) :
    Calls ⟨levels, .body [], s⟩ ⟨levels, .statement, s⟩ := by
  let last : State := { s with current := { s.current with kind := .endOfInput }, rest := [] }
  refine .of_failure last fun calls failure same => ?_
  have dropped : (bodyCode (calls levels) [] []).run s = (some (.again []), last) := by
    unfold bodyCode
    rw [run_bind, run_skipNewlines_of_ne starts.1]
    dsimp only
    rw [run_kind, if_neg (by simp [starts.2]), run_isFull, room, if_neg Bool.false_ne_true,
      run_bind]
    have attempted : (attempt (calls levels .statement)).run s = (some none, last) := by
      show (some ((calls levels .statement).run s).1, ((calls levels .statement).run s).2) = _
      rw [failure]
    rw [attempted]
    rfl
  have empty : (code calls levels (.body [])).run s = (some [], last) := by
    show (rounds (bodyCode (calls levels) []) (s.rest.length + 1 + 1 + 1) []).run s = _
    rw [run_rounds_again dropped]
    exact run_rounds_done rfl
  have : some ([] : List Node) = some nodes :=
    congrArg Prod.fst (empty.symm.trans (same.trans gives))
  exact some_node (Option.some.inj this).symm

theorem Calls.of_program {levels : Nat} {s s' : State} {nodes : Body}
    (gives : (parser levels .program).run s = (some nodes, s')) :
    Calls ⟨levels, .program, s⟩ ⟨levels, .body [], s⟩ := by
  refine .of_needed gives fun calls failure => ?_
  unfold code
  rw [run_bind, failure]

/-- **Signs take no level.** For each number there is a text that is accepted, one number behind so
many signs, and that makes a stack with so many calls for operands behind signs. So no number bounds
the stacks. -/
theorem exists_stack_signs (name : String) (n : Nat) :
    (∃ node, parse name (bangs n).text [] = .ok [node] ∧ node.bare = (bangs n).node)
      ∧ ∃ stack, Stack stack ∧ signCalls stack = n ∧ n ≤ stack.length
        ∧ stack.head? = some ⟨maxDepth, .program, .start (.ofText name (bangs n).text)
          (Token.scan (.ofText name (bangs n).text)).tokens []⟩ := by
  obtain ⟨kinds, log⟩ := (bangs n).scan_text name (proper_bangs [] n)
  have plain := (bangs n).plain_kinds
  have grouped := grouped_bangs (maxDepth - 1) 5 n
  refine ⟨parse_of_grouped plain (undirected_node _) kinds log grouped, ?_⟩
  obtain ⟨_, _, body, isEnd, -⟩ := run_body_of_grouped plain (undirected_node _) kinds grouped
  have before := before_start [] kinds
  have inBody := (reaches_statement (maxDepth - 1) before).call
    (.of_body (plain.current before) rfl (List.cons_ne_nil _ _) body) rfl
  obtain ⟨rest, calls, count⟩ := inBody.call (.of_program (run_program_of_body body isEnd)) rfl
  exact ⟨_, calls, count, count ▸ signCalls_le_length _, rfl⟩

end ScriptCompiler.Parse
