import Mathlib.Data.Prod.Lex
import ScriptCompiler.Proofs.Nesting.Calls
import ScriptCompiler.Proofs.Parse.Forward

/-!
# Progress

Parsing comes to an end, whatever the tokens are. Each round of a loop that another one follows has
passed a token, also where a statement was dropped for a fault in it, so no loop needs to be told
when to stop. A function that goes on with a node is called behind a token of it, and no chain of
calls is endless.
-/

namespace ScriptCompiler.Parse

open Walk (Takes)
open Operators (signsRound upTo)

variable {stream : Stream} {α β γ : Type} {s s' : State}

/-! ## Rounds of loops -/

/-- One line break. -/
def newlinesRound (_ : Unit) : Parser (Round Unit Unit) := do
  if ← eat .newline then return .again ()
  else return .done ()

theorem skipNewlines_eq : skipNewlines = repeating newlinesRound () := rfl

/-- One token after a fault. -/
def recoveryRound (_ : Unit) : Parser (Round Unit Unit) := do
  if ← atEnd then return .done ()
  else if ← eat .newline then return .done ()
  else if stopsRecovery (← kind) then return .done ()
  else
    advance
    return .again ()

/-- One parameter, and the comma behind it. -/
def paramsRound (close : Token.Kind) (done : List Param) :
    Parser (Round (List Param) (List Param)) := do
  let done := (← param) :: done
  if ← at_ close then return .done done.reverse
  else if ← eat (.punct .comma) then
    if close ≠ .newline then skipNewlines
    return .again done
  else return .done done.reverse

theorem params_eq (close : Token.Kind) : params close = repeating (paramsRound close) [] := rfl

section Nodes

variable (expression : Parser Node)

/-- One argument without parentheses, and the comma behind it. -/
def commandArgsRound (done : List Node) : Parser (Round (List Node) (List Node)) := do
  let done := (← argument expression) :: done
  if ← eat (.punct .comma) then
    skipNewlines
    return .again done
  else return .done done.reverse

theorem commandArgs_eq :
    commandArgs expression = withDoBlocks false (repeating (commandArgsRound expression) []) := rfl

/-- One argument in brackets, and the comma behind it. -/
def bracketedArgsRound (close : Punct) (done : List Node) :
    Parser (Round (List Node) (List Node)) := do
  if ← at_ (.punct close) then return .done done.reverse
  else
    let done := (← argument expression) :: done
    skipNewlines
    if ← eat (.punct .comma) then
      skipNewlines
      return .again done
    else return .done done.reverse

theorem bracketedArgs_eq (close : Punct) :
    bracketedArgs expression close = withDoBlocks true (do
      skipNewlines
      let args ← repeating (bracketedArgsRound expression close) []
      skipNewlines
      expect (.punct close)
      return args) := rfl

/-- One condition behind a statement. -/
def modifiersRound (start : Span) (stmt : Node) : Parser (Round Node Node) := do
  match modifier? (← kind) with
  | none => return .done stmt
  | some m =>
    advance
    let condition ← expression
    let span := start.merge (← previousSpan)
    return .again ⟨m.apply condition stmt, span⟩

theorem statement_eq : statement expression = (do
    let start ← currentSpan
    let first ← expression
    let whole ← repeating (modifiersRound expression start) (asDirective first)
    match joinWord? (← kind) with
    | some word =>
      unsupported ("'" ++ word.text ++ "' is not supported") (← currentSpan)
        "split the expression into nested if statements"
    | none => return whole) := rfl

/-- One more branch of a conditional. -/
def branchesRound (done : List Branch) : Parser (Round (List Branch) (List Branch)) := do
  if ← eat (.keyword .elsifKw) then return .again ((← branch expression) :: done)
  else return .done done.reverse

theorem ifBlock_eq : ifBlock expression = (do
    let start ← currentSpan
    advance
    let first ← branch expression
    let branches ← repeating (branchesRound expression) [first]
    let otherwise ← elseClause expression
    expect (.keyword .endKw)
    return ⟨.conditional branches otherwise, start.merge (← previousSpan)⟩) := rfl

end Nodes

/-! ## Rounds pass tokens -/

/-- A round passes a token if there is another one after it. -/
def Advances (stream : Stream) (round : α → Parser (Round α β)) : Prop :=
  ∀ a s, stream.forward.Takes (round a) s (Round.Post s Anywhere Anywhere)

section Rounds

variable {r : Round α β} {p : Parser (Round α β)} {levels : Nat}

theorem post_of_passed (lt : s'.rest.length < s.rest.length) :
    Round.Post s Anywhere Anywhere r s' := by
  cases r with
  | again a => exact ⟨lt, trivial⟩
  | done b => trivial

/-- A token was passed before. -/
theorem round_behind (lt : s'.rest.length < s.rest.length)
    (h : stream.forward.Takes p s' Anywhere) :
    stream.forward.Takes p s' (Round.Post s Anywhere Anywhere) :=
  h.mono fun _ _ _ onward _ => post_of_passed (Nat.lt_of_le_of_lt (State.rest_le onward) lt)

/-- What comes first passes a token. -/
theorem round_first {p : Parser γ} {f : γ → Parser (Round α β)}
    (hp : stream.forward.Takes p s (Ahead s))
    (hf : ∀ c s', stream.forward.Takes (f c) s' Anywhere) :
    stream.forward.Takes (p >>= f) s (Round.Post s Anywhere Anywhere) :=
  hp.bind fun c s' _ _ lt => round_behind lt (hf c s')

theorem advances_newlinesRound : Advances stream newlinesRound := by
  intro _ s
  unfold newlinesRound
  refine .from_ fun hs => .ifEat (fun kind => ?_) fun _ => .pure trivial
  exact .pure ⟨hs.lt_next (kind ▸ nofun), trivial⟩

theorem advances_recoveryRound : Advances stream recoveryRound := by
  intro _ s
  unfold recoveryRound
  refine .from_ fun hs => .ifAt (fun _ => .pure trivial) fun other => ?_
  refine .ifEat (fun _ => .pure trivial) fun _ => .kind (.ite (.pure trivial) ?_)
  exact round_first (ahead_advance other) fun _ _ => .pure trivial

/-- Also where a statement is dropped, or ends where none may end. -/
theorem advances_bodyRound (terminators : List Token.Kind) :
    Advances stream (bodyRound (expression levels) terminators) := by
  intro done s
  refine (goes_bodyRound (goes_expression levels) done fun _ => .none).takes.mono ?_
  intro r s' _ _ h
  cases r with
  | again a => exact ⟨h.1, trivial⟩
  | done b => trivial

theorem advances_postfixRound : Advances stream (postfixRound (expression levels)) :=
  fun node _ => (goes_postfixRound (goes_expression levels) node).takes

end Rounds

/-! ## Loops -/

/-- The loops of the parser. -/
inductive Loop where
  | newlines
  | recovery
  | params (close : Token.Kind)
  | commandArgs
  | bracketedArgs (close : Punct)
  /-- Conditions behind a statement that starts with the span. -/
  | modifiers (start : Span)
  | body (terminators : List Token.Kind)
  | branches
  | postfixes
  | signs
  /-- Operators of one rank, and operands with operators of the ranks below. -/
  | operators (rank : Fin ranks.length)

namespace Loop

/-- What a loop carries from one round to the next. -/
abbrev Carried : Loop → Type
  | newlines | recovery => Unit
  | params _ => List Param
  | branches => List Branch
  | signs => List (String × Span)
  | commandArgs | bracketedArgs _ | body _ => List Node
  | modifiers _ | postfixes | operators _ => Node

/-- What a loop answers. -/
abbrev Answer : Loop → Type
  | newlines | recovery => Unit
  | params _ => List Param
  | branches => List Branch
  | commandArgs | bracketedArgs _ => List Node
  | body _ => Body
  | modifiers _ | postfixes | signs | operators _ => Node

/-- One round of a loop. -/
def round (levels : Nat) : (loop : Loop) → loop.Carried → Parser (Round loop.Carried loop.Answer)
  | newlines => newlinesRound
  | recovery => recoveryRound
  | params close => paramsRound close
  | commandArgs => commandArgsRound (expression levels)
  | bracketedArgs close => bracketedArgsRound (expression levels) close
  | modifiers start => modifiersRound (expression levels) start
  | body terminators => bodyRound (expression levels) terminators
  | branches => branchesRound (expression levels)
  | postfixes => postfixRound (expression levels)
  | signs => signsRound (expression levels)
  | operators rank => groupRound (ranks.getD rank []) (upTo (expression levels) rank)

end Loop

/-- Rounds until one stops the loop or fails, however many there are. Each round after which there
is another one passes a token. -/
inductive Repeats (round : α → Parser (Round α β)) : α → State → Option β → State → Prop
  | done {a : α} {b : β} {s s' : State} (run : (round a).run s = (some (.done b), s')) :
    Repeats round a s (some b) s'
  | failed {a : α} {s s' : State} (run : (round a).run s = (none, s')) :
    Repeats round a s none s'
  | again {a a' : α} {r : Option β} {s s' s'' : State}
    (run : (round a).run s = (some (.again a'), s')) (passes : s'.rest.length < s.rest.length)
    (others : Repeats round a' s' r s'') : Repeats round a s r s''

/-- **Loops end.** As many rounds are made as the loop needs. -/
theorem Advances.repeats {round : α → Parser (Round α β)} (h : Advances stream round) (a : α)
    (hs : s.In stream) :
    Repeats round a s ((repeating round a).run s).1 ((repeating round a).run s).2 := by
  have enough (fuel : Nat) (a : α) (s : State) (hs : s.In stream) (hf : s.rest.length < fuel) :
      Repeats round a s ((rounds round fuel a).run s).1 ((rounds round fuel a).run s).2 := by
    induction fuel generalizing a s with
    | zero => exact absurd hf (Nat.not_lt_zero _)
    | succ fuel ih =>
      obtain ⟨stands, -, gives⟩ := h a s hs
      rw [rounds, run_bind]
      rcases run : (round a).run s with ⟨_ | a' | b, s'⟩ <;> rw [run] at stands gives
      · exact .failed run
      · obtain ⟨lt, -⟩ := gives _ rfl
        exact .again run lt (ih a' s' stands (Nat.lt_of_lt_of_le lt (Nat.le_of_lt_succ hf)))
      · exact .done run
  exact enough (s.rest.length + 3) a s hs (by omega)

/-! ## The whole program -/

/-- The parser answers wherever it stands in the stream. -/
def Answers (stream : Stream) (p : Parser α) : Prop :=
  ∀ s, s.In stream → ∃ a s', p.run s = (some a, s') ∧ s'.In stream

theorem Answers.of_run {p : Parser α} {r : Option α} (h : Answers stream p) (hs : s.In stream)
    (run : p.run s = (r, s')) : r ≠ none ∧ s'.In stream := by
  obtain ⟨a, s'', answer, hs''⟩ := h s hs
  rw [answer] at run
  cases run
  exact ⟨nofun, hs''⟩

/-- A loop answers if its rounds do. -/
theorem Repeats.answers {round : α → Parser (Round α β)} {a : α} {r : Option β}
    (h : Repeats round a s r s') (hr : ∀ a, Answers stream (round a)) (hs : s.In stream) :
    ∃ b, r = some b ∧ s'.In stream := by
  induction h with
  | done run => exact ⟨_, rfl, ((hr _).of_run hs run).2⟩
  | failed run => exact absurd rfl ((hr _).of_run hs run).1
  | again run _ _ ih => exact ih ((hr _).of_run hs run).2

namespace Answers

variable {p q : Parser α} {f : α → Parser β} {round : α → Parser (Round α β)}

theorem pure (a : α) : Answers stream (Pure.pure a : Parser α) :=
  fun s hs => ⟨a, s, rfl, hs⟩

theorem bind (hp : Answers stream p) (hf : ∀ a, Answers stream (f a)) :
    Answers stream (p >>= f) := by
  intro s hs
  obtain ⟨a, s', run, hs'⟩ := hp s hs
  obtain ⟨b, s'', run', hs''⟩ := hf a s' hs'
  exact ⟨b, s'', by rw [run_bind, run, ← run'], hs''⟩

theorem ite {c : Prop} [Decidable c] (hp : Answers stream p) (hq : Answers stream q) :
    Answers stream (if c then p else q) := by
  split
  · exact hp
  · exact hq

/-- The parser looks at its state only. -/
theorem looks {see : State → α} (h : ∀ s, p.run s = (some (see s), s)) : Answers stream p :=
  fun s hs => ⟨see s, s, h s, hs⟩

theorem advance : Answers stream Parse.advance :=
  fun s hs => ⟨(), s.next, rfl, s.suffix_next.trans hs⟩

theorem eat (k : Token.Kind) : Answers stream (Parse.eat k) :=
  .bind (.looks fun _ => rfl) fun _ => .ite (.bind advance fun _ => .pure _) (.pure _)

theorem unexpected (expected : String) : Answers stream (Parse.unexpected expected) := by
  intro s hs
  obtain ⟨r, run⟩ := run_unexpected expected s
  exact ⟨(), s.report r, run, hs⟩

theorem attempt (h : ∀ s, stream.forward.Takes p s Anywhere) :
    Answers stream (Parse.attempt p) :=
  fun s hs => ⟨(p.run s).1, (p.run s).2, rfl, (h s hs).1⟩

theorem repeating (h : Advances stream round) (hr : ∀ a, Answers stream (round a)) (a : α) :
    Answers stream (Parse.repeating round a) := by
  intro s hs
  obtain ⟨b, answer, hs'⟩ := (h.repeats a hs).answers hr hs
  exact ⟨b, _, Prod.ext answer rfl, hs'⟩

theorem skipNewlines : Answers stream Parse.skipNewlines :=
  .repeating advances_newlinesRound (fun _ => (eat _).bind fun _ => .ite (.pure _) (.pure _)) ()

theorem synchronize : Answers stream Parse.synchronize := by
  refine advance.bind fun _ => .repeating advances_recoveryRound (fun _ => ?_) ()
  refine .bind (.looks fun _ => rfl) fun _ => .ite (.pure _) ?_
  refine (eat _).bind fun _ => .ite (.pure _) (.bind (.looks fun _ => rfl) fun _ => ?_)
  exact .ite (.pure _) (advance.bind fun _ => .pure _)

/-- A fault in a statement does not leave the loop. -/
theorem bodyRound {levels : Nat} (terminators : List Token.Kind) (done : List Node) :
    Answers stream (Parse.bodyRound (expression levels) terminators done) := by
  unfold Parse.bodyRound
  refine skipNewlines.bind fun _ => .bind (.looks fun _ => rfl) fun _ => .ite (.pure _) ?_
  refine .bind (.looks fun _ => rfl) fun _ => .ite (.pure _) ?_
  refine .bind (.attempt fun s => ?_) fun r => ?_
  · exact (goes_statement (goes_expression levels)).takes.any
  · split
    · exact synchronize.bind fun _ => .pure _
    · refine .bind (.looks fun _ => rfl) fun _ => .ite (.pure _) ?_
      exact (unexpected _).bind fun _ => synchronize.bind fun _ => .pure _

theorem program : Answers stream Parse.program := by
  unfold Parse.program
  refine .bind (.repeating (advances_bodyRound []) (bodyRound []) []) fun _ => ?_
  refine .bind (.looks fun _ => rfl) fun _ => .bind (.looks fun _ => rfl) fun _ => ?_
  exact .ite ((unexpected _).bind fun _ => .pure _) (.pure _)

end Answers

section Behind

/-- The second state stands behind the first one. -/
def Behind (s s' : State) : Prop :=
  s'.remaining <:+ s.remaining ∧ s'.rest.length < s.rest.length

theorem Behind.later {s'' : State} (h : Behind s s') (later : s''.remaining <:+ s'.remaining) :
    Behind s s'' :=
  ⟨later.trans h.1, Nat.lt_of_le_of_lt (State.rest_le later) h.2⟩

theorem State.In.behind_next (hs : s.In stream) (other : s.current.kind ≠ .endOfInput) :
    Behind s s.next :=
  ⟨s.suffix_next, hs.lt_next other⟩

variable {p : Parser α} {f f' : α → Parser β}

/-- Two parsers that start alike do the same if they do the same after it. -/
theorem run_bind_congr (h : ∀ a s', p.run s = (some a, s') → (f a).run s' = (f' a).run s') :
    (p >>= f).run s = (p >>= f').run s := by
  rw [run_bind, run_bind]
  rcases run : p.run s with ⟨_ | a, s'⟩
  · rfl
  · exact h a s' run

/-- Two loops do the same if their rounds do the same in all states that they come to. -/
theorem run_repeating_congr {round round' : α → Parser (Round α β)} (hs : s.In stream)
    (forward : ∀ a s, stream.forward.Takes (round' a) s Anywhere)
    (same : ∀ a s', s'.In stream → s'.remaining <:+ s.remaining →
      (round a).run s' = (round' a).run s') (a : α) :
    (repeating round a).run s = (repeating round' a).run s := by
  have all (fuel : Nat) (a : α) (s' : State) (hs' : s'.In stream)
      (onward : s'.remaining <:+ s.remaining) :
      (rounds round fuel a).run s' = (rounds round' fuel a).run s' := by
    induction fuel generalizing a s' with
    | zero => rfl
    | succ fuel ih =>
      obtain ⟨stands, leads, -⟩ := forward a s' hs'
      rw [rounds, rounds, run_bind, run_bind, same a s' hs' onward]
      rcases run : (round' a).run s' with ⟨_ | a' | b, s''⟩
      · rfl
      · rw [run] at stands leads
        exact ih a' s'' stands (leads.trans onward)
      · rfl
  exact all (s.rest.length + 3) a s hs (List.suffix_refl _)

variable {calls : Routines} {levels : Nat}
  (others : ∀ levels r, r.goesOn = false → calls levels r = parser levels r)
  (behind : ∀ r s', Behind s s' → (calls levels r).run s' = (parser levels r).run s')

include others behind

theorem run_unaryCode_behind (hs : s.In stream) :
    (unaryCode (calls levels)).run s = (unaryCode (parser levels)).run s := by
  unfold unaryCode
  rw [others levels .unary rfl, others levels .primary rfl]
  rw [run_currentSpan, run_currentSpan, run_kind, run_kind]
  split
  · next minus =>
    have before := hs.behind_next (minus ▸ nofun)
    rw [run_advance, run_advance, run_kind, run_kind]
    split
    · exact behind (.postfixOf _) _ (before.later s.next.suffix_next)
    · rfl
  · rfl
  · rfl
  · refine run_bind_congr fun operand s' run => behind (.postfixOf operand) s' ?_
    obtain ⟨-, onward, ahead⟩ := forward_routine levels .primary hs
    rw [run] at onward ahead
    exact ⟨onward, ahead operand rfl rfl⟩

theorem run_primaryCode_behind (hs : s.In stream) :
    (primaryCode (calls levels)).run s = (primaryCode (parser levels)).run s := by
  have call {name : String} {kind : Token.Kind} (h : s.current.kind = kind)
      (other : kind ≠ .endOfInput) : (calls levels (.call none name)).run s.next
        = (parser levels (.call none name)).run s.next :=
    behind _ _ (hs.behind_next (h ▸ other))
  unfold primaryCode parenthesizedCode
  simp only [others levels .statement rfl, others levels (.bracketedArgs .closeBracket) rfl,
    others levels .ifBlock rfl, others levels .unlessBlock rfl,
    fun loop => others levels (.loopBlock loop) rfl, others levels .beginBlock rfl,
    others levels .classBlock rfl, others levels .moduleBlock rfl, others levels .methodBlock rfl]
  rw [run_currentSpan, run_currentSpan]
  refine run_bind_congr fun first s' run => ?_
  obtain ⟨rfl, rfl⟩ : s.current.kind = first ∧ s = s' := by cases run; exact ⟨rfl, rfl⟩
  split
  · rfl
  split
  · next name kind =>
    rw [run_advance, run_advance, run_isLocal, run_isLocal]
    refine run_bind_congr fun paren s' run => ?_
    obtain rfl : s.next = s' := congrArg Prod.snd run
    split
    · rfl
    · exact call kind nofun
  · next name kind =>
    rw [run_advance, run_advance]
    refine run_bind_congr fun paren s' run => ?_
    obtain rfl : s.next = s' := congrArg Prod.snd run
    split
    · exact call kind nofun
    · rfl
  · next kind => exact call kind nofun
  · next kind => exact call kind nofun
  all_goals rfl

theorem run_postfixCode_behind (hs : s.In stream) (node : Node) :
    (postfixCode (calls levels) node).run s = (postfixCode (parser levels) node).run s := by
  unfold postfixCode
  simp only [others levels (.bracketedArgs .closeBracket) rfl]
  refine run_bind_congr fun k s' run => ?_
  obtain ⟨rfl, rfl⟩ : s.current.kind = k ∧ s = s' := by cases run; exact ⟨rfl, rfl⟩
  split
  · next dot =>
    have before := hs.behind_next (dot ▸ nofun)
    rw [run_advance, run_advance]
    refine run_bind_congr fun name s' run => ?_
    obtain ⟨-, onward, -⟩ := Walk.takes_calledName (w := stream.forward) (s.suffix_next.trans hs)
    rw [run] at onward
    rw [run_bind, run_bind, behind (.call (some node) name) s' (before.later onward)]
  · rfl
  · next scope =>
    have before := hs.behind_next (scope ▸ nofun)
    rw [run_advance, run_advance]
    refine run_bind_congr fun name s' run => ?_
    obtain ⟨-, onward, -⟩ := Walk.takes_scopedName (w := stream.forward) (s.suffix_next.trans hs)
    rw [run] at onward
    refine run_bind_congr fun paren s'' run => ?_
    obtain rfl : s' = s'' := congrArg Prod.snd run
    split
    · rfl
    · rw [run_bind, run_bind, behind (.call (some node) name) s' (before.later onward)]
  · rfl
  · rfl

theorem run_postfixOf_behind (hs : s.In stream) (node : Node) :
    (code calls levels (.postfixOf node)).run s = (code parser levels (.postfixOf node)).run s := by
  refine run_repeating_congr hs (fun operand s => ?_) (fun operand s' hs' onward => ?_) node
  · exact (@advances_postfixRound stream levels operand s).any
  · refine run_postfixCode_behind others (fun r s'' h => behind r s'' ?_) hs' operand
    exact ⟨h.1.trans onward, Nat.lt_of_lt_of_le h.2 (State.rest_le onward)⟩

/-- The functions that stand above calls do not depend on what the functions that go on with a node
answer, but for what these answer behind the current token. -/
theorem run_code_behind (hs : s.In stream) {r : Routine} (above : 4 < r.rank) :
    (code calls levels r).run s = (code parser levels r).run s := by
  cases r with
  | assignment =>
    simp only [code, assignmentCode, assignExpressionCode, others levels .logical rfl,
      others levels .expression rfl,
      fun target current how start => others levels (.assignTo target current how start) rfl]
  | logical => simp only [code, logicalCode, others levels (.grouped (Fin.last _)) rfl]
  | grouped rank =>
    obtain ⟨_ | rank, h⟩ := rank
    · simp only [code, groupedCode, others levels .unary rfl]
    · simp only [code, groupedCode, others levels (.grouped ⟨rank, Nat.lt_of_succ_lt h⟩) rfl]
  | unary => exact run_unaryCode_behind others behind hs
  | postfixOf node => exact run_postfixOf_behind others behind hs node
  | primary => exact run_primaryCode_behind others behind hs
  | methodBlock =>
    simp only [code, methodBlockCode,
      fun start owner name => others levels (.methodRest start owner name) rfl]
  | _ => exact absurd above (Nat.not_lt.mpr (Nat.le_of_ble_eq_true rfl))

end Behind

theorem Routine.rank_of_goesOn {r : Routine} (h : r.goesOn = true) :
    4 ≤ r.rank ∧ r ≠ .assignment ∧ r ≠ .unary := by
  cases r with
  | postfixOf _ | call _ _ => exact ⟨Nat.le_of_ble_eq_true rfl, nofun, nofun⟩
  | _ => cases h

/-- A function that goes on with a node is called behind a token that the caller has passed. -/
theorem Calls.behind {a b : Activation} (h : Calls a b) (goesOn : b.routine.goesOn = true)
    (hs : a.state.In stream) : Behind a.state b.state := by
  obtain ⟨low, notAssignment, notUnary⟩ := Routine.rank_of_goesOn goesOn
  rcases h.cases with ⟨-, hb, -⟩ | ⟨levels, lt⟩ | ⟨-, -, hb, -⟩
  · exact absurd hb notAssignment
  · by_contra before
    obtain ⟨calls, agree, changes⟩ := h
    refine changes (run_code_behind (fun levels r hr => ?_) (fun r s' hb => ?_) hs ?_)
    · refine funext fun s' => agree levels r s' ?_
      rintro rfl
      rw [goesOn] at hr
      cases hr
    · refine agree _ r s' ?_
      rintro rfl
      exact before hb
    · exact Nat.lt_of_le_of_lt low lt
  · exact absurd hb notUnary

end ScriptCompiler.Parse
