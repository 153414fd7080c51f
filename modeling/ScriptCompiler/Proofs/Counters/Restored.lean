import ScriptCompiler.Proofs.Brackets.Passage
import ScriptCompiler.Proofs.Counters.Tally

/-!
# Counters are restored

Every function of the parser leaves the depth, the counter of the word `do` and the scopes as it
found them, but for names in the innermost scope, whether it answers or fails. It does so beside the
parser without counters: that one reads the depth off the levels that are left and keeps one flag in
place of the counter.
-/

namespace ScriptCompiler.Parse.Counting

open Brackets (GoesOn)

/-! ## Functions without counters -/

section Plain

theorem goesOn_expectIdentifier : GoesOn expectIdentifier := by
  unfold expectIdentifier
  refine .bind (.looks fun _ => rfl) fun k => ?_
  split
  · exact GoesOn.advance.bind fun _ => .refl
  · exact .reject _

theorem goesOn_expectConstant : GoesOn expectConstant := by
  unfold expectConstant
  refine .bind (.looks fun _ => rfl) fun k => ?_
  split
  · exact GoesOn.advance.bind fun _ => .refl
  · exact .reject _

theorem goesOn_declare (name : String) : GoesOn (declare name) :=
  fun s => .bind s name

theorem goesOn_param : GoesOn param := by
  unfold param
  refine .bind (.looks fun _ => rfl) fun span => .bind (.looks fun _ => rfl) fun k => ?_
  split
  · refine GoesOn.advance.bind fun _ => .bind (.looks fun _ => rfl) fun assigned => ?_
    split
    · exact .bind (.looks fun _ => rfl) fun _ => .unsupported _ _ _
    · exact (goesOn_declare _).bind fun _ => .refl
  · exact GoesOn.advance.bind fun _ => goesOn_expectIdentifier.bind fun name =>
      (goesOn_declare name).bind fun _ => .refl
  · exact .unsupported _ _ _
  · exact .unsupported _ _ _
  · exact .reject _

theorem goesOn_params (close : Token.Kind) : GoesOn (params close) := by
  refine .repeating (fun done => goesOn_param.bind fun one => .bind (.looks fun _ => rfl)
    fun closed => ?_) []
  split
  · exact .refl
  · refine (GoesOn.eat _).bind fun comma => ?_
    split
    · split
      · exact GoesOn.skipNewlines.bind fun _ => .refl
      · exact .refl
    · exact .refl

theorem goesOn_startsCommandArgs : GoesOn startsCommandArgs := by
  intro s
  obtain ⟨b, run⟩ := Goes.run_startsCommandArgs s
  rw [run]
  exact .refl s

theorem goesOn_skipThen : GoesOn skipThen := by
  refine GoesOn.skipNewlines.bind fun _ => (GoesOn.eat _).bind fun eaten => ?_
  split
  · exact .skipNewlines
  · exact .refl

theorem goesOn_rejectScoped : GoesOn rejectScoped := by
  refine .bind (.looks fun _ => rfl) fun here => ?_
  split
  · exact .bind (.looks fun _ => rfl) fun _ => .unsupported _ _ _
  · exact .refl

theorem goesOn_writerMark : GoesOn writerMark := by
  refine .bind (.looks fun _ => rfl) fun here => .bind (.looks fun _ => rfl) fun space => ?_
  split
  · exact GoesOn.advance.bind fun _ => .refl
  · exact .refl

theorem goesOn_definedName : GoesOn definedName := by
  unfold definedName
  refine .bind (.looks fun _ => rfl) fun k => .bind (.looks fun _ => rfl) fun following => ?_
  split
  · exact GoesOn.advance.bind fun _ => goesOn_writerMark.bind fun _ => .refl
  · exact GoesOn.advance.bind fun _ => (GoesOn.expect _).bind fun _ =>
      goesOn_writerMark.bind fun _ => .refl
  · exact GoesOn.advance.bind fun _ => GoesOn.advance.bind fun _ => .refl
  · split
    · exact GoesOn.advance.bind fun _ => .refl
    · exact .reject _

theorem goesOn_methodParams : GoesOn methodParams := by
  refine (GoesOn.eat _).bind fun paren => ?_
  split
  · refine GoesOn.skipNewlines.bind fun _ => .bind (.looks fun _ => rfl) fun closed => ?_
    split
    · exact GoesOn.skipNewlines.bind fun _ => (GoesOn.expect _).bind fun _ => .refl
    · exact (goesOn_params _).bind fun _ => GoesOn.skipNewlines.bind fun _ =>
        (GoesOn.expect _).bind fun _ => .refl
  · refine .bind (.looks fun _ => rfl) fun line => .bind (.looks fun _ => rfl) fun ended => ?_
    split
    · exact .refl
    · exact goesOn_params _

theorem goesOn_scopedName : GoesOn scopedName := by
  unfold scopedName
  refine .bind (.looks fun _ => rfl) fun k => ?_
  split
  · exact GoesOn.advance.bind fun _ => .refl
  · exact GoesOn.advance.bind fun _ => .refl
  · exact .reject _

theorem goesOn_calledName : GoesOn calledName := by
  unfold calledName
  refine .bind (.looks fun _ => rfl) fun k => ?_
  split
  · exact GoesOn.advance.bind fun _ => .refl
  · exact .reject _

theorem goesOn_reader (r : Reader) : GoesOn r.parser := by
  have discarded {α : Type} {p : Parser α} (h : GoesOn p) : GoesOn (discard p) :=
    h.bind fun _ => .refl
  cases r with
  | advance => exact .advance
  | eat k => exact discarded (.eat k)
  | expect k => exact .expect k
  | expectIdentifier => exact discarded goesOn_expectIdentifier
  | expectConstant => exact discarded goesOn_expectConstant
  | unexpected expected => exact .unexpected expected
  | declare name => exact goesOn_declare name
  | skipNewlines => exact .skipNewlines
  | skipThen => exact goesOn_skipThen
  | synchronize => exact .synchronize
  | param => exact discarded goesOn_param
  | methodParams => exact discarded goesOn_methodParams
  | definedName => exact discarded goesOn_definedName
  | calledName => exact discarded goesOn_calledName
  | scopedName => exact discarded goesOn_scopedName
  | rejectScoped => exact goesOn_rejectScoped

end Plain

/-! ## Parsers with and without counters -/

/-- Where so many levels are left, the parser that counts answers what the other one does, and it
leaves what the other one leaves, with its counters as they were. -/
def Mirrors {α : Type} (levels : Nat) (c : Counting α) (p : Parser α) : Prop :=
  ∀ t : Tally, t.scopes ≠ [] → maxDepth - t.depth = levels →
    c.run t = ((p.run t.view).1, t.put (p.run t.view).2) ∧ Moves t.view (p.run t.view).2

theorem view_put {t : Tally} {s : State} (h : Moves t.view s) : (t.put s).view = s := by
  have same : s.doBlocks = decide (t.noDo = 0) := h.doBlocks
  show { s with doBlocks := decide (t.noDo = 0) } = s
  rw [← same]

theorem length_scopes {s s' : State} (h : Moves s s') : s'.scopes.length = s.scopes.length := by
  have widens := h.scopes
  generalize s.scopes = before, s'.scopes = after at widens
  cases widens <;> rfl

theorem scopes_put {t : Tally} {s : State} (h : Moves t.view s) (open_ : t.scopes ≠ []) :
    (t.put s).scopes ≠ [] := by
  have same : s.scopes.length = t.scopes.length := length_scopes h
  have some := List.length_pos_iff.mpr open_
  exact List.ne_nil_of_length_pos (show 0 < s.scopes.length by omega)

theorem run_bind {α β : Type} (c : Counting α) (f : α → Counting β) (t : Tally) :
    (c >>= f).run t = match c.run t with
      | (some a, t') => (f a).run t'
      | (none, t') => (none, t') := by
  rw [OptionT.run_bind]
  show ((c.run t).1.elim (Pure.pure none) fun a => (f a).run : StateM Tally _) (c.run t).2 = _
  rcases c.run t with ⟨_ | a, t'⟩ <;> rfl

namespace Mirrors

variable {levels : Nat} {α β : Type} {c c' : Counting α} {p p' : Parser α} {f : α → Counting β}
  {g : α → Parser β}

theorem plain (h : GoesOn p) : Mirrors levels (liftM p) p :=
  fun t _ _ => ⟨rfl, (h t.view).toMoves⟩

/-- A parser that only looks. -/
theorem looks {view : State → α} (run : ∀ s, p.run s = (some (view s), s)) :
    Mirrors levels (liftM p) p :=
  plain (.looks run)

theorem pure {a : α} : Mirrors levels (pure a) (pure a) :=
  fun _ _ _ => ⟨rfl, .refl _⟩

theorem failure : Mirrors (α := α) levels failure failure :=
  fun _ _ _ => ⟨rfl, .refl _⟩

theorem bind (h : Mirrors levels c p) (hf : ∀ a, Mirrors levels (f a) (g a)) :
    Mirrors levels (c >>= f) (p >>= g) := by
  intro t open_ room
  obtain ⟨run, moves⟩ := h t open_ room
  rw [run_bind, Parse.run_bind, run]
  rcases hp : p.run t.view with ⟨_ | a, s⟩ <;> rw [hp] at moves
  · exact ⟨rfl, moves⟩
  · obtain ⟨run', moves'⟩ := hf a (t.put s) (scopes_put moves open_) room
    rw [view_put moves] at run' moves'
    exact ⟨run', moves.trans moves'⟩

theorem ite {b : Prop} {_ : Decidable b} (yes : Mirrors levels c p) (no : Mirrors levels c' p') :
    Mirrors levels (if b then c else c') (if b then p else p') := by
  split
  · exact yes
  · exact no

theorem attempt (h : Mirrors levels c p) :
    Mirrors levels (Counting.attempt c) (Parse.attempt p) := by
  intro t open_ room
  obtain ⟨run, moves⟩ := h t open_ room
  refine ⟨?_, moves⟩
  show (some (c.run t).1, (c.run t).2) = _
  rw [run]
  rfl

theorem rounds {round : α → Counting (Round α β)} {round' : α → Parser (Round α β)}
    (h : ∀ a, Mirrors levels (round a) (round' a)) (n : Nat) (a : α) :
    Mirrors levels (Counting.rounds round n a) (Parse.rounds round' n a) := by
  induction n generalizing a with
  | zero => exact failure
  | succ n ih =>
    refine (h a).bind fun r => ?_
    cases r with
    | again a => exact ih a
    | done b => exact pure

theorem repeating {round : α → Counting (Round α β)} {round' : α → Parser (Round α β)}
    (h : ∀ a, Mirrors levels (round a) (round' a)) (a : α) :
    Mirrors levels (Counting.repeating round a) (Parse.repeating round' a) :=
  fun t => rounds h (t.rest.length + 3) a t

theorem discard (h : Mirrors levels c p) : Mirrors levels (discard c) (discard p) :=
  h.bind fun _ => pure

/-- Both ask whether the word `do` may start a block. -/
theorem looksNoDo {f : Nat → Counting β} {g : State → Parser β}
    (h : ∀ noDo s, s.doBlocks = decide (noDo = 0) → Mirrors levels (f noDo) (g s)) :
    Mirrors levels (look Tally.noDo >>= f) (get >>= g) :=
  fun t => h t.noDo t.view rfl t

/-- Something else was expected. -/
theorem reject (expected : String) : Mirrors (α := α) levels
    (liftM (unexpected expected) >>= fun _ => Alternative.failure)
    (unexpected expected >>= fun _ => Alternative.failure) :=
  bind (plain (.unexpected _)) fun _ => failure

/-- The construct is not supported. -/
theorem unsupported (message suggestion : String) : Mirrors (α := α) levels
    (liftM currentSpan >>= fun span => liftM (Parse.unsupported (α := α) message span suggestion))
    (currentSpan >>= fun span => Parse.unsupported message span suggestion) :=
  bind (looks fun _ => rfl) fun _ => plain (.unsupported _ _ _)

/-- Both go on unless a construct that is not supported comes. -/
theorem unlessUnsupported {b : Prop} {_ : Decidable b} {message suggestion : String}
    {f : Unit → Counting β} {g : Unit → Parser β} (h : ∀ u, Mirrors levels (f u) (g u)) :
    Mirrors levels
      (if b then liftM currentSpan >>= fun span =>
        liftM (Parse.unsupported (α := Unit) message span suggestion) >>= f else f ())
      (if b then currentSpan >>= fun span => Parse.unsupported message span suggestion >>= g
        else g ()) :=
  ite (bind (looks fun _ => rfl) fun _ => bind (plain (.unsupported _ _ _)) h) (h ())

/-- The span of a node ends with the token before. -/
theorem previousSpan {f : Span → Counting β} {g : Span → Parser β}
    (h : ∀ span, Mirrors levels (f span) (g span)) :
    Mirrors levels (liftM Parse.previousSpan >>= f) (Parse.previousSpan >>= g) :=
  bind (looks fun _ => rfl) h

/-! ### Counters and scopes -/

/-- What is inside is run to its end before the step back. -/
theorem run_attempt (c : Counting α) (back : Tally → Tally) (t : Tally) :
    (do
      let result ← Counting.attempt c
      change back
      answer result : Counting α).run t = ((c.run t).1, back (c.run t).2) := by
  show (answer (c.run t).1).run (back (c.run t).2) = _
  cases (c.run t).1 <;> rfl

theorem refusingDo (h : Mirrors levels c p) :
    Mirrors levels (Counting.refusingDo c) (withDoBlocks false p) := by
  intro t open_ room
  obtain ⟨run, moves⟩ := h { t with noDo := t.noDo + 1 } open_ room
  refine ⟨?_, moves.withDoBlocks⟩
  refine (run_attempt c (fun t => { t with noDo := t.noDo - 1 }) _).trans ?_
  rw [run]
  rfl

theorem allowingDo (h : Mirrors levels c p) :
    Mirrors levels (Counting.allowingDo c) (withDoBlocks true p) := by
  intro t open_ room
  obtain ⟨run, moves⟩ := h { t with noDo := 0 } open_ room
  refine ⟨?_, moves.withDoBlocks⟩
  refine (run_attempt c (fun t' => { t' with noDo := t.noDo }) _).trans ?_
  rw [run]
  rfl

theorem inScope {closed : Bool} (h : Mirrors levels c p) :
    Mirrors levels (Counting.inScope closed c) (Parse.inScope closed p) := by
  intro t open_ room
  obtain ⟨run, moves⟩ := h (t.push closed) nofun room
  have inner : 1 < ((t.push closed).put (p.run (t.push closed).view).2).scopes.length := by
    have same : (p.run (t.push closed).view).2.scopes.length = t.scopes.length + 1 :=
      length_scopes moves
    have some := List.length_pos_iff.mpr open_
    show 1 < (p.run (t.push closed).view).2.scopes.length
    omega
  refine ⟨?_, moves.inScope⟩
  refine (run_attempt c Tally.pop (t.push closed)).trans ?_
  rw [run, Tally.pop_of_lt inner]
  rfl

/-- One more expression is open inside, and there is one level less. -/
theorem nested (h : Mirrors levels c p) : Mirrors (levels + 1) (Counting.nested c) p := by
  intro t open_ room
  have fits : ¬ t.depth + 1 > maxDepth := by omega
  obtain ⟨run, moves⟩ := h { t with depth := t.depth + 1 } open_
    (show maxDepth - (t.depth + 1) = levels by omega)
  refine ⟨?_, moves⟩
  have entered : enterNested.run t = (some true, { t with depth := t.depth + 1 }) := by
    show (if t.depth + 1 > maxDepth then _ else Pure.pure true : Counting Bool).run _ = _
    rw [if_neg fits]
    rfl
  unfold Counting.nested
  rw [run_bind, entered]
  refine (run_attempt c (fun t => { t with depth := t.depth - 1 }) _).trans ?_
  rw [run]
  rfl

/-- No level is left. -/
theorem tooDeep {c : Counting Node} : Mirrors 0 (Counting.nested c) (Parse.expression 0) := by
  intro t open_ room
  have full : t.depth + 1 > maxDepth := by omega
  refine ⟨?_, .report t.view _⟩
  have entered : enterNested.run t = (some false, t.put (t.view.report ⟨.nestingTooDeep,
      "expressions nested more than " ++ toString maxDepth ++ " levels deep",
      t.current.span, none⟩)) := by
    show (if t.depth + 1 > maxDepth then _ else Pure.pure true : Counting Bool).run _ = _
    rw [if_pos full]
    rfl
  unfold Counting.nested
  rw [run_bind, entered]
  rfl

end Mirrors

/-! ## The functions of the parser -/

section Functions

variable {levels : Nat} {expression : Counting Node} {expression' : Parser Node}
  (h : Mirrors levels expression expression')

include h

theorem mirrors_statement :
    Mirrors levels (statement expression) (Parse.statement expression') := by
  unfold statement Parse.statement
  refine .bind (.looks fun _ => rfl) fun start => h.bind fun first => ?_
  refine .bind (.repeating (fun stmt => ?_) _) fun whole => .bind (.looks fun _ => rfl) fun k => ?_
  · refine .bind (.looks fun _ => rfl) fun k => ?_
    cases modifier? k with
    | none => exact .pure
    | some m =>
      exact .bind (.plain .advance) fun _ => h.bind fun _ => .previousSpan fun _ => .pure
  · cases joinWord? k with
    | some word => exact .unsupported _ _
    | none => exact .pure

theorem mirrors_bodyRound (terminators : List Token.Kind) (done : List Node) :
    Mirrors levels (bodyRound expression terminators done)
      (Parse.bodyRound expression' terminators done) := by
  unfold bodyRound Parse.bodyRound
  refine .bind (.plain .skipNewlines) fun _ => .bind (.looks fun _ => rfl) fun k => ?_
  refine .ite .pure (.bind (.looks fun _ => rfl) fun full => .ite .pure ?_)
  refine (mirrors_statement h).attempt.bind fun result => ?_
  cases result with
  | none => exact .bind (.plain .synchronize) fun _ => .pure
  | some stmt =>
    refine .bind (.looks fun _ => rfl) fun k => .ite .pure ?_
    exact .bind (.plain (.unexpected _)) fun _ => .bind (.plain .synchronize) fun _ => .pure

theorem mirrors_body (terminators : List Token.Kind) :
    Mirrors levels (body expression terminators) (Parse.body expression' terminators) :=
  .repeating (mirrors_bodyRound h terminators) []

theorem mirrors_argument : Mirrors levels (argument expression) (Parse.argument expression') := by
  have plain : Mirrors levels
      (expression >>= fun arg => liftM (at_ (.punct .arrow)) >>= fun arrow =>
        if arrow = true then liftM currentSpan >>= fun span => liftM (unsupported (α := Node)
          "hash arguments are not supported" span "pass positional arguments instead")
        else pure arg)
      (expression' >>= fun arg => at_ (.punct .arrow) >>= fun arrow =>
        if arrow = true then currentSpan >>= fun span => unsupported
          "hash arguments are not supported" span "pass positional arguments instead"
        else pure arg) :=
    h.bind fun arg => .bind (.looks fun _ => rfl) fun arrow => .ite (.unsupported _ _) .pure
  unfold argument Parse.argument
  refine .bind (.looks fun _ => rfl) fun k => ?_
  cases k with
  | punct mark =>
    cases mark with
    | ampersand => exact .unsupported _ _
    | star => exact .unsupported _ _
    | _ => exact plain
  | _ => exact plain

theorem mirrors_commandArgs :
    Mirrors levels (commandArgs expression) (Parse.commandArgs expression') := by
  refine .refusingDo (.repeating (fun done => (mirrors_argument h).bind fun _ => ?_) _)
  exact .bind (.plain (.eat _)) fun _ => .ite (.bind (.plain .skipNewlines) fun _ => .pure) .pure

theorem mirrors_bracketedArgs (close : Punct) :
    Mirrors levels (bracketedArgs expression close) (Parse.bracketedArgs expression' close) := by
  refine .allowingDo (.bind (.plain .skipNewlines) fun _ => .bind ?_ fun args => ?_)
  · refine .repeating (fun done => .bind (.looks fun _ => rfl) fun closed => .ite .pure ?_) _
    refine (mirrors_argument h).bind fun _ => .bind (.plain .skipNewlines) fun _ => ?_
    exact .bind (.plain (.eat _)) fun _ =>
      .ite (.bind (.plain .skipNewlines) fun _ => .pure) .pure
  · exact .bind (.plain .skipNewlines) fun _ => .bind (.plain (.expect _)) fun _ => .pure

theorem mirrors_blockRest (close : Token.Kind) :
    Mirrors levels (blockRest expression close) (Parse.blockRest expression' close) := by
  refine .allowingDo (.inScope (.bind (.plain .skipNewlines) fun _ => ?_))
  have onward (names : List Param) : Mirrors levels
      (body expression [close] >>= fun statements => liftM (expect close) >>= fun _ =>
        pure (⟨names, statements⟩ : Block))
      (Parse.body expression' [close] >>= fun statements => expect close >>= fun _ =>
        pure ⟨names, statements⟩) :=
    (mirrors_body h _).bind fun _ => .bind (.plain (.expect _)) fun _ => .pure
  refine .bind (.plain (.eat _)) fun bar => .ite (.bind (.looks fun _ => rfl) fun closed => ?_) ?_
  · refine .ite (.bind .pure fun names => ?_) (.bind (.plain (goesOn_params _)) fun names => ?_)
    all_goals exact .bind (.plain (.expect _)) fun _ => .bind .pure fun _ => onward _
  · exact .bind (.discard (.plain (.eat _))) fun _ => .bind .pure fun _ => onward _

theorem mirrors_callBlock (command : Bool) :
    Mirrors levels (callBlock expression command) (Parse.callBlock expression' command) := by
  refine .bind (.looks fun _ => rfl) fun brace => .ite ?_ (.looksNoDo fun noDo s same => ?_)
  · exact .bind (.plain .advance) fun _ => (mirrors_blockRest h _).bind fun _ => .pure
  · rw [same]
    refine .bind (.looks fun _ => rfl) fun word => .ite ?_ .pure
    exact .bind (.plain .advance) fun _ => (mirrors_blockRest h _).bind fun _ => .pure

theorem mirrors_call (receiver : Option Node) (name : String) :
    Mirrors levels (call expression receiver name) (Parse.call expression' receiver name) := by
  have onward (start : Span) (command : Bool) (args : List Node) : Mirrors levels
      (callBlock expression command >>= fun block => liftM previousSpan >>= fun span =>
        pure (⟨.send receiver name args block, start.merge span⟩ : Node))
      (Parse.callBlock expression' command >>= fun block => previousSpan >>= fun span =>
        pure ⟨.send receiver name args block, start.merge span⟩) :=
    (mirrors_callBlock h _).bind fun _ => .previousSpan fun _ => .pure
  unfold call Parse.call
  extract_lets from_ from_'
  have after (start : Span) : Mirrors levels (from_ start) (from_' start) := by
    refine .bind (.looks fun _ => rfl) fun paren => ?_
    refine .bind (.plain goesOn_startsCommandArgs) fun starts => ?_
    refine .ite ?_ (.ite ?_ ?_)
    · exact .bind (.plain .advance) fun _ => (mirrors_bracketedArgs h _).bind fun args =>
        .bind .pure fun x => onward _ _ _
    · exact (mirrors_commandArgs h).bind fun args => .bind .pure fun x => onward _ _ _
    · exact .bind .pure fun x => onward _ _ _
  cases receiver with
  | some node => exact .bind .pure fun _ => after _
  | none => exact .previousSpan fun _ => after _

theorem mirrors_rescueClause :
    Mirrors levels (rescueClause expression) (Parse.rescueClause expression') := by
  unfold rescueClause Parse.rescueClause
  refine .bind (.plain (.eat _)) fun rescue => .ite (.bind (.looks fun _ => rfl) fun k => ?_) .pure
  extract_lets behind handled behind' handled'
  have after (variable_ : Option String) : Mirrors levels (behind variable_) (behind' variable_) :=
    (mirrors_body h _).bind fun handler => .bind (.looks fun _ => rfl) fun again =>
      .unlessUnsupported fun _ => .pure
  have plain (u : Unit) : Mirrors levels (handled u) (handled' u) := by
    refine .bind (.plain (.eat _)) fun arrow => .ite ?_ (.bind .pure fun _ => after _)
    exact .bind (.plain goesOn_expectIdentifier) fun name =>
      .bind (.plain (goesOn_declare name)) fun _ => .bind .pure fun _ => after _
  cases k with
  | constant name =>
    exact .bind (.looks fun _ => rfl) fun _ => .bind (.plain (.unsupported _ _ _)) plain
  | _ => exact plain ()

theorem mirrors_rescueTail (protected_ : Body) :
    Mirrors levels (rescueTail expression protected_)
      (Parse.rescueTail expression' protected_) := by
  unfold rescueTail Parse.rescueTail
  refine (mirrors_rescueClause h).bind fun clause => .bind (.looks fun _ => rfl) fun span => ?_
  refine .bind (.plain (.eat _)) fun else_ => ?_
  extract_lets behind behind'
  have after (otherwise : Option Body) : Mirrors levels (behind otherwise) (behind' otherwise) := by
    refine .bind (.looks fun _ => rfl) fun ensure => .unlessUnsupported fun _ => ?_
    rcases clause with _ | ⟨variable_, handler⟩
    · exact .ite (.bind (.plain (.report _ _ _)) fun _ => .failure) .pure
    · exact .pure
  refine .ite ((mirrors_body h _).bind fun _ => ?_) ?_
  all_goals exact .bind .pure fun _ => after _

theorem mirrors_beginBlock :
    Mirrors levels (beginBlock expression) (Parse.beginBlock expression') := by
  refine .bind (.looks fun _ => rfl) fun start => .bind (.plain .advance) fun _ => ?_
  refine (mirrors_body h _).bind fun statements => (mirrors_rescueTail h _).bind fun form => ?_
  exact .bind (.plain (.expect _)) fun _ => .previousSpan fun _ => .pure

theorem mirrors_elseClause :
    Mirrors levels (elseClause expression) (Parse.elseClause expression') :=
  .bind (.plain (.eat _)) fun _ => .ite ((mirrors_body h _).bind fun _ => .pure) .pure

theorem mirrors_branch : Mirrors levels (branch expression) (Parse.branch expression') :=
  h.bind fun _ => .bind (.plain goesOn_skipThen) fun _ => (mirrors_body h _).bind fun _ => .pure

theorem mirrors_ifBlock : Mirrors levels (ifBlock expression) (Parse.ifBlock expression') := by
  refine .bind (.looks fun _ => rfl) fun start => .bind (.plain .advance) fun _ => ?_
  refine (mirrors_branch h).bind fun first => ?_
  refine .bind (.repeating (fun done => ?_) _) fun branches => ?_
  · exact .bind (.plain (.eat _)) fun _ => .ite ((mirrors_branch h).bind fun _ => .pure) .pure
  · exact (mirrors_elseClause h).bind fun _ => .bind (.plain (.expect _)) fun _ =>
      .previousSpan fun _ => .pure

theorem mirrors_unlessBlock :
    Mirrors levels (unlessBlock expression) (Parse.unlessBlock expression') := by
  refine .bind (.looks fun _ => rfl) fun start => .bind (.plain .advance) fun _ => ?_
  refine h.bind fun condition => .bind (.plain goesOn_skipThen) fun _ => ?_
  refine (mirrors_body h _).bind fun statements => (mirrors_elseClause h).bind fun otherwise => ?_
  exact .bind (.plain (.expect _)) fun _ => .previousSpan fun _ => .pure

theorem mirrors_loopBlock (loop : LoopKind) :
    Mirrors levels (loopBlock expression loop) (Parse.loopBlock expression' loop) := by
  refine .bind (.looks fun _ => rfl) fun start => .bind (.plain .advance) fun _ => ?_
  refine (Mirrors.refusingDo h).bind fun condition => ?_
  refine .bind (.discard (.plain (.eat _))) fun _ => (mirrors_body h _).bind fun statements => ?_
  exact .bind (.plain (.expect _)) fun _ => .previousSpan fun _ => .pure

theorem mirrors_namespaceBody :
    Mirrors levels (namespaceBody expression) (Parse.namespaceBody expression') :=
  .bind (.inScope (mirrors_body h _)) fun _ => .bind (.plain (.expect _)) fun _ => .pure

theorem mirrors_classBlock :
    Mirrors levels (classBlock expression) (Parse.classBlock expression') := by
  refine .bind (.looks fun _ => rfl) fun start => .bind (.plain .advance) fun _ => ?_
  refine .bind (.looks fun _ => rfl) fun shift => .unlessUnsupported fun _ => ?_
  refine .bind (.plain goesOn_expectConstant) fun name => .bind (.plain goesOn_rejectScoped) ?_
  refine fun _ => .bind (.plain (.eat _)) fun less => ?_
  extract_lets behind behind'
  have after (superclass : Option String) :
      Mirrors levels (behind superclass) (behind' superclass) :=
    (mirrors_namespaceBody h).bind fun _ => .previousSpan fun _ => .pure
  refine .ite (.bind (.plain goesOn_expectConstant) fun superclass => ?_) ?_
  · exact .bind (.plain goesOn_rejectScoped) fun _ => .bind .pure fun _ => after _
  · exact .bind .pure fun _ => after _

theorem mirrors_moduleBlock :
    Mirrors levels (moduleBlock expression) (Parse.moduleBlock expression') := by
  refine .bind (.looks fun _ => rfl) fun start => .bind (.plain .advance) fun _ => ?_
  refine .bind (.plain goesOn_expectConstant) fun name => .bind (.plain goesOn_rejectScoped) ?_
  exact fun _ => (mirrors_namespaceBody h).bind fun _ => .previousSpan fun _ => .pure

theorem mirrors_methodRest (start : Span) (owner : Option String) (name : String) :
    Mirrors levels (methodRest expression start owner name)
      (Parse.methodRest expression' start owner name) := by
  refine .bind (.plain goesOn_methodParams) fun names => ?_
  refine (mirrors_body h _).bind fun statements => ?_
  refine .bind (.looks fun _ => rfl) fun rescue => .bind (.looks fun _ => rfl) fun ensure => ?_
  extract_lets behind first behind'
  have after (statements : Body) : Mirrors levels (behind statements) (behind' statements) :=
    .bind (.plain (.expect _)) fun _ => .previousSpan fun _ => .pure
  refine .ite ((mirrors_rescueTail h _).bind fun form => .previousSpan fun _ => ?_) ?_
  all_goals exact .bind .pure fun _ => after _

theorem mirrors_methodBlock :
    Mirrors levels (methodBlock expression) (Parse.methodBlock expression') := by
  refine .bind (.looks fun _ => rfl) fun start => .bind (.plain .advance) fun _ => ?_
  refine .bind (.looks fun _ => rfl) fun k => .bind (.looks fun _ => rfl) fun following => ?_
  extract_lets owner behind behind'
  have after (u : Unit) : Mirrors levels (behind u) (behind' u) :=
    .bind (.plain goesOn_definedName) fun name => .inScope (mirrors_methodRest h _ _ _)
  exact .ite (.bind (.plain .advance) fun _ => .bind (.plain .advance) after) (after ())

theorem mirrors_parenthesized :
    Mirrors levels (parenthesized expression) (Parse.parenthesized expression') := by
  refine .bind (.looks fun _ => rfl) fun start => .bind (.plain .advance) fun _ => ?_
  refine .bind (.allowingDo (.bind (.plain .skipNewlines) fun _ => mirrors_statement h)) ?_
  exact fun inner => .bind (.plain .skipNewlines) fun _ => .bind (.plain (.expect _)) fun _ =>
    .previousSpan fun _ => .pure

theorem mirrors_primary : Mirrors levels (primary expression) (Parse.primary expression') := by
  unfold primary Parse.primary
  refine .bind (.looks fun _ => rfl) fun start => ?_
  extract_lets finish finish'
  have finishes (form : Form) : Mirrors levels (finish form) (finish' form) :=
    .previousSpan fun _ => .pure
  have calls (name : String) : Mirrors levels
      (liftM advance >>= fun _ => call expression none name)
      (advance >>= fun _ => Parse.call expression' none name) :=
    .bind (.plain .advance) fun _ => mirrors_call h none name
  have simple (form : Form) : Mirrors levels (liftM advance >>= fun _ => finish form)
      (advance >>= fun _ => finish' form) :=
    .bind (.plain .advance) fun _ => finishes form
  refine .bind (.looks fun _ => rfl) fun first => ?_
  cases first with
  | integer | str | symbol | instanceVar | globalVar => exact simple _
  | identifier name =>
    refine .bind (.plain .advance) fun _ => .bind (.looks fun _ => rfl) fun isLocal => ?_
    exact .bind (.looks fun _ => rfl) fun paren => .ite (finishes _) (mirrors_call h none name)
  | constant name =>
    refine .bind (.plain .advance) fun _ => .bind (.looks fun _ => rfl) fun paren => ?_
    exact .ite (mirrors_call h none name) (finishes _)
  | keyword word =>
    cases word with
    | selfKw | nilKw | trueKw | falseKw => exact simple _
    | yieldKw | superKw => exact calls _
    | ifKw => exact mirrors_ifBlock h
    | unlessKw => exact mirrors_unlessBlock h
    | whileKw | untilKw => exact mirrors_loopBlock h _
    | beginKw => exact mirrors_beginBlock h
    | classKw => exact mirrors_classBlock h
    | moduleKw => exact mirrors_moduleBlock h
    | defKw => exact mirrors_methodBlock h
    | returnKw => exact .plain (.unsupported _ _ _)
    | _ => exact .reject _
  | punct mark =>
    cases mark with
    | openBracket =>
      refine .bind (.plain .advance) fun _ => (mirrors_bracketedArgs h _).bind fun _ => ?_
      exact finishes _
    | openParen => exact mirrors_parenthesized h
    | openBrace => exact .plain (.unsupported _ _ _)
    | _ => exact .reject _
  | newline | endOfInput => exact .reject _

theorem mirrors_postfixRound (node : Node) :
    Mirrors levels (postfixRound expression node) (Parse.postfixRound expression' node) := by
  unfold postfixRound Parse.postfixRound
  extract_lets finish finish'
  have finishes (form : Form) : Mirrors levels (finish form) (finish' form) :=
    .previousSpan fun _ => .pure
  have calls (name : String) : Mirrors levels
      (call expression (some node) name >>= fun node => pure (Round.again node (β := Node)))
      (Parse.call expression' (some node) name >>= fun node => pure (Round.again node)) :=
    (mirrors_call h _ _).bind fun _ => .pure
  refine .bind (.looks fun _ => rfl) fun k => ?_
  cases k with
  | newline =>
    exact .bind (.looks fun _ => rfl) fun _ => .ite (.bind (.plain .advance) fun _ => .pure) .pure
  | punct mark =>
    cases mark with
    | dot =>
      exact .bind (.plain .advance) fun _ => .bind (.plain goesOn_calledName) fun _ => calls _
    | scope =>
      refine .bind (.plain .advance) fun _ => .bind (.plain goesOn_scopedName) fun name => ?_
      exact .bind (.looks fun _ => rfl) fun paren => .ite (finishes _) (calls _)
    | openBracket =>
      refine .bind (.looks fun _ => rfl) fun space => .ite .pure (.bind (.plain .advance) ?_)
      exact fun _ => (mirrors_bracketedArgs h _).bind fun _ => finishes _
    | _ => exact .pure
  | _ => exact .pure

theorem mirrors_postfixOf (node : Node) :
    Mirrors levels (postfixOf expression node) (Parse.postfixOf expression' node) :=
  .repeating (mirrors_postfixRound h) node

theorem mirrors_unary : Mirrors levels (unary expression) (Parse.unary expression') := by
  refine .repeating (fun signs => .bind (.looks fun _ => rfl) fun start => ?_) []
  have plain : Mirrors levels
      (primary expression >>= fun operand => postfixOf expression operand >>= fun node =>
        pure (Round.done (α := List (String × Span)) (applySigns signs node)))
      (Parse.primary expression' >>= fun operand =>
        Parse.postfixOf expression' operand >>= fun node =>
        pure (Round.done (applySigns signs node))) :=
    (mirrors_primary h).bind fun _ => (mirrors_postfixOf h _).bind fun _ => .pure
  refine .bind (.looks fun _ => rfl) fun k => ?_
  cases k with
  | punct mark =>
    cases mark with
    | minus =>
      refine .bind (.plain .advance) fun _ => .bind (.looks fun _ => rfl) fun k => ?_
      cases k with
      | integer value =>
        exact .bind (.plain .advance) fun _ => .previousSpan fun _ =>
          (mirrors_postfixOf h _).bind fun _ => .pure
      | _ => exact .pure
    | bang => exact .bind (.plain .advance) fun _ => .pure
    | _ => exact plain
  | keyword word =>
    cases word with
    | notKw => exact .plain (.unsupported _ _ _)
    | _ => exact plain
  | _ => exact plain

omit h in
theorem mirrors_leftGrouped (ops : List Punct) {operand : Counting Node} {operand' : Parser Node}
    (ho : Mirrors levels operand operand') :
    Mirrors levels (leftGrouped ops operand) (Parse.leftGrouped ops operand') := by
  refine ho.bind fun first => .repeating (fun left => .bind (.looks fun _ => rfl) fun k => ?_) first
  cases k with
  | punct mark => exact .ite (.bind (.plain .advance) fun _ => ho.bind fun _ => .pure) .pure
  | _ => exact .pure

theorem mirrors_grouped (rank : Nat) :
    Mirrors levels (grouped expression rank) (Operators.upTo expression' rank) := by
  induction rank with
  | zero => exact mirrors_unary h
  | succ rank ih => exact mirrors_leftGrouped _ ih

theorem mirrors_logical : Mirrors levels (logical expression) (Parse.logical expression') := by
  refine (mirrors_grouped h 5).bind fun left => .bind (.looks fun _ => rfl) fun next => ?_
  exact .ite (.unsupported _ _) .pure

theorem mirrors_assignTo (target : Target) (current : Node) (how : Assignment) (start : Span) :
    Mirrors levels (assignTo expression target current how start)
      (Parse.assignTo expression' target current how start) := by
  refine .bind (.plain .skipNewlines) fun _ => h.bind fun right => .previousSpan fun _ => ?_
  cases how <;> exact .pure

theorem mirrors_assignExpression (start : Span) (left : Node) (how : Assignment) :
    Mirrors levels (assignExpression expression start left how)
      (Parse.assignExpression expression' start left how) := by
  refine .bind (.looks fun _ => rfl) fun opSpan => .bind (.plain .advance) fun _ => ?_
  have refused : Mirrors (α := Node) levels
      (if (how ≠ .plain && hasReceiver left.form) = true then liftM (unsupported (α := Node)
          "compound assignment to an attribute or index is not supported" opSpan
          "assign to a local first: tmp = a.b + 1; a.b = tmp")
        else liftM (report .invalidTarget ("cannot assign to " ++ left.form.kindName) left.span)
          >>= fun _ => failure)
      (if (how ≠ .plain && hasReceiver left.form) = true then unsupported
          "compound assignment to an attribute or index is not supported" opSpan
          "assign to a local first: tmp = a.b + 1; a.b = tmp"
        else report .invalidTarget ("cannot assign to " ++ left.form.kindName) left.span
          >>= fun _ => failure) :=
    .ite (.plain (.unsupported _ _ _)) (.bind (.plain (.report _ _ _)) fun _ => .failure)
  cases target? left.form with
  | some target => exact mirrors_assignTo h _ _ _ _
  | none =>
    cases how with
    | plain =>
      rcases reader? left.form with _ | ⟨receiver, name, args⟩
      · exact refused
      · exact h.bind fun _ => .previousSpan fun _ => .pure
    | compound => exact refused

theorem mirrors_assignment :
    Mirrors levels (assignment expression) (Parse.assignment expression') := by
  refine .bind (.looks fun _ => rfl) fun start => .bind (.looks fun _ => rfl) fun k => ?_
  refine .bind (.looks fun _ => rfl) fun following => ?_
  rcases localAssignment? k following with _ | ⟨name, how⟩
  · refine (mirrors_logical h).bind fun left => .bind (.looks fun _ => rfl) fun k => ?_
    cases assignment? k with
    | some how => exact mirrors_assignExpression h _ _ _
    | none => exact .pure
  · exact .bind (.plain .advance) fun _ => .bind (.plain .advance) fun _ =>
      .bind (.plain (goesOn_declare name)) fun _ => mirrors_assignTo h _ _ _ _

end Functions

theorem mirrors_expression (levels : Nat) :
    Mirrors levels (expression levels) (Parse.expression levels) := by
  induction levels with
  | zero => exact .tooDeep
  | succ levels ih => exact .nested (mirrors_assignment ih)

/-- **Every function of the parser**, with and without counters. -/
theorem mirrors_routine (levels : Nat) (r : Routine) :
    Mirrors levels (parser levels r) (Parse.parser levels r) := by
  have h := mirrors_expression levels
  cases r with
  | program =>
    refine (mirrors_body h _).bind fun statements => ?_
    refine .bind (.looks fun _ => rfl) fun ended => .bind (.looks fun _ => rfl) fun full => ?_
    exact .ite (.bind (.plain (.unexpected _)) fun _ => .pure) .pure
  | body terminators => exact mirrors_body h terminators
  | statement => exact mirrors_statement h
  | expression => exact h
  | assignment => exact mirrors_assignment h
  | assignTo target current how start => exact mirrors_assignTo h target current how start
  | logical => exact mirrors_logical h
  | grouped rank => exact mirrors_grouped h rank
  | unary => exact mirrors_unary h
  | postfixOf node => exact mirrors_postfixOf h node
  | primary => exact mirrors_primary h
  | call receiver name => exact mirrors_call h receiver name
  | commandArgs => exact mirrors_commandArgs h
  | bracketedArgs close => exact mirrors_bracketedArgs h close
  | argument => exact mirrors_argument h
  | blockRest close => exact mirrors_blockRest h close
  | ifBlock => exact mirrors_ifBlock h
  | branch => exact mirrors_branch h
  | unlessBlock => exact mirrors_unlessBlock h
  | loopBlock loop => exact mirrors_loopBlock h loop
  | beginBlock => exact mirrors_beginBlock h
  | rescueTail protected_ => exact mirrors_rescueTail h protected_
  | classBlock => exact mirrors_classBlock h
  | moduleBlock => exact mirrors_moduleBlock h
  | namespaceBody => exact mirrors_namespaceBody h
  | methodBlock => exact mirrors_methodBlock h
  | methodRest start owner name => exact mirrors_methodRest h start owner name
  | params close => exact .plain (goesOn_params close)

/-! ## What is restored -/

/-- The counters are as they were, and so are the scopes, but for names that the innermost one has
gained. -/
structure Restored (t t' : Tally) : Prop where
  depth : t'.depth = t.depth
  noDo : t'.noDo = t.noDo
  scopes : Widens t.scopes t'.scopes
  count : t'.scopes.length = t.scopes.length

namespace Restored

variable {t t' t'' : Tally}

theorem refl (t : Tally) : Restored t t :=
  ⟨rfl, rfl, .refl _, rfl⟩

theorem trans (h : Restored t t') (h' : Restored t' t'') : Restored t t'' :=
  ⟨h'.depth.trans h.depth, h'.noDo.trans h.noDo, h.scopes.trans h'.scopes, h'.count.trans h.count⟩

theorem open_ (h : Restored t t') (open_ : t.scopes ≠ []) : t'.scopes ≠ [] := by
  have some := List.length_pos_iff.mpr open_
  rw [← h.count] at some
  exact List.length_pos_iff.mp some

end Restored

/-- What mirrors a parser restores the counters. -/
theorem Mirrors.restored {levels : Nat} {α : Type} {c : Counting α} {p : Parser α}
    (h : Mirrors levels c p) {t : Tally} (open_ : t.scopes ≠ [])
    (room : maxDepth - t.depth = levels) : Restored t (c.run t).2 := by
  obtain ⟨run, moves⟩ := h t open_ room
  rw [run]
  exact ⟨rfl, rfl, moves.scopes, length_scopes moves⟩

/-- The rounds of a body that starts with a tally arrive at another one, in front of a statement or
of the end of the body: after statements that were read, and after others that were given up. -/
inductive Arrives (terminators : List Token.Kind) (t : Tally) : List Node → Tally → Prop
  | start : Arrives terminators t [] t
  | again {done done' : List Node} {t' t'' : Tally} (h : Arrives terminators t done t')
    (round : (bodyRound (expression (maxDepth - t.depth)) terminators done).run t'
      = (some (.again done'), t'')) : Arrives terminators t done' t''

theorem Arrives.restored {terminators : List Token.Kind} {t t' : Tally} {done : List Node}
    (h : Arrives terminators t done t') (open_ : t.scopes ≠ []) : Restored t t' := by
  induction h with
  | start => exact .refl t
  | @again done done' t' t'' h round ih =>
    have mirrors := mirrors_bodyRound (mirrors_expression (maxDepth - t.depth)) terminators done
    have next := mirrors.restored (ih.open_ open_) (by rw [ih.depth])
    rw [round] at next
    exact ih.trans next

/-- **Every function of the parser restores the counters and the scopes**, from every tally, whether
it answers or fails; its answer and all else that it leaves are those of the parser without
counters. Wherever a body goes on, also behind a statement that was given up, they are as at its
start. A program that is parsed to its end is back at depth zero, with no word claimed and with one
scope. -/
theorem restored_runFrom :
    (∀ t : Tally, t.scopes ≠ [] →
      (∀ r : Routine, Restored t (runFrom t r).2
        ∧ (runFrom t r).1 = ((Parse.parser (maxDepth - t.depth) r).run t.view).1
        ∧ (runFrom t r).2.view = ((Parse.parser (maxDepth - t.depth) r).run t.view).2)
      ∧ (∀ r : Reader, Restored t ((plain r.parser).run t).2)
      ∧ ∀ terminators done t', Arrives terminators t done t' → Restored t t')
    ∧ ∀ file tokens known,
      let (result, after) := runFrom (.start file tokens known) .program
      after.depth = 0 ∧ after.noDo = 0 ∧ after.scopes.length = 1
        ∧ (result, after.log) = ofTokens file tokens known := by
  refine ⟨fun t open_ => ⟨fun r => ?_, fun r => ?_, fun _ _ _ h => h.restored open_⟩,
    fun file tokens known => ?_⟩
  · have mirrors := mirrors_routine (maxDepth - t.depth) r
    obtain ⟨run, moves⟩ := mirrors t open_ rfl
    refine ⟨mirrors.restored open_ rfl, congrArg Prod.fst run, ?_⟩
    rw [runFrom, run]
    exact view_put moves
  · exact (Mirrors.plain (goesOn_reader r)).restored open_ rfl
  · have mirrors := mirrors_routine maxDepth .program
    have restored := mirrors.restored (t := .start file tokens known) (List.cons_ne_nil _ _) rfl
    obtain ⟨run, -⟩ := mirrors (.start file tokens known) (List.cons_ne_nil _ _) rfl
    refine ⟨restored.depth, restored.noDo, restored.count, ?_⟩
    show (((parser maxDepth .program).run _).1, ((parser maxDepth .program).run _).2.log) = _
    rw [run]
    rfl

/-- A call with a parenthesis that is not closed in time, and a statement behind it. -/
def openCallFile : SourceFile :=
  .ofText "main.gn" "f 1, (2 3)\ny = 4\n"

/-- The tally in front of them. -/
def openCallTally : Tally :=
  .start openCallFile (Token.scan openCallFile).tokens []

/-- The body has no statement yet and goes on. -/
def goesOnEmpty : Option (Round Body Body) → Bool
  | some (.again []) => true
  | _ => false

theorem eq_of_goesOnEmpty : {answer : Option (Round Body Body)} → goesOnEmpty answer = true →
    answer = some (.again [])
  | some (.again []), _ => rfl

/-- The first statement fails inside a command and its parentheses, and the body goes on behind
it. -/
theorem restored_runFrom_openCall :
    openCallTally.scopes ≠ [] ∧ (runFrom openCallTally .statement).1 = none
      ∧ Restored openCallTally (runFrom openCallTally .statement).2
      ∧ ∃ t', Arrives [] openCallTally [] t' ∧ t'.current.span.startLine = 2
        ∧ Restored openCallTally t' := by
  have open_ : openCallTally.scopes ≠ [] := List.cons_ne_nil _ _
  have fails : (runFrom openCallTally .statement).1 = none :=
    Option.isNone_iff_eq_none.mp (by decide +kernel)
  have round : (bodyRound (expression (maxDepth - openCallTally.depth)) [] []).run openCallTally
      = (some (.again []), ((bodyRound (expression maxDepth) [] []).run openCallTally).2) := by
    exact Prod.ext (eq_of_goesOnEmpty (by decide +kernel)) rfl
  have arrives := Arrives.start.again round
  have holds := restored_runFrom.1 openCallTally open_
  exact ⟨open_, fails, (holds.1 .statement).1, _, arrives, by decide +kernel,
    holds.2.2 _ _ _ arrives⟩

end ScriptCompiler.Parse.Counting
