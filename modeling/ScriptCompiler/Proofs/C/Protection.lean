import ScriptCompiler.Proofs.C.Rules

/-!
# Rescue scopes in C

What the test that opens a rescue scope does. Statements that run inside the scope either close it
and go on without it, or an exception leaves them while it is open; then the test comes back false,
and the statements after the test run with the scope still open.
-/

namespace ScriptCompiler.C

open ScriptCompiler.Runtime

variable {V β : Type}

theorem at_braces (body : Exec V (Flow V)) (outer : Frame V) :
    (braces body).at outer = body.at outer >>= fun
      | (.ok flow, inner) => pure (.ok flow, inner.leave outer)
      | (.error stop, inner) => pure (.error stop, inner) := by
  unfold braces
  rw [Exec.at_get_bind, Exec.at_bind]
  refine bind_congr fun r => ?_
  obtain ⟨r, inner⟩ := r
  cases r with
  | ok flow => rfl
  | error stop => rfl

/-- What the test does when the statements inside the scope are done: the braces around them close,
and an exception that left them while the scope was open makes the test come back. -/
def afterBody (inside : Frame V) (comeBack : Tree V (Except Stop (Flow V) × Frame V)) :
    Except Stop (Flow V) × Frame V → Tree V (Except Stop (Flow V) × Frame V)
  | (.ok flow, fr') => pure (.ok flow, fr'.leave inside)
  | (.error .raised, fr') =>
    if fr'.opened.length = inside.opened.length then comeBack else pure (.error .raised, fr')
  | (.error stop, fr') => pure (.error stop, fr')

theorem afterBody_of_open {inside fr' : Frame V}
    {comeBack : Tree V (Except Stop (Flow V) × Frame V)}
    (h : fr'.opened.length = inside.opened.length) :
    afterBody inside comeBack (.error .raised, fr') = comeBack :=
  if_pos h

theorem afterBody_of_closed {inside fr' : Frame V}
    {comeBack : Tree V (Except Stop (Flow V) × Frame V)}
    (h : fr'.opened.length ≠ inside.opened.length) :
    afterBody inside comeBack (.error .raised, fr') = pure (.error .raised, fr') :=
  if_neg h

variable [DecidableEq V] {isNull : V → Bool} {rounds : Nat} {call : Name → Routine V}

/-- From a frame, statements return what an action gives, and only the given scopes are open then,
also when an exception leaves them. -/
def Closes (isNull : V → Bool) (rounds : Nat) (call : Name → Routine V) (opened : List V)
    (fr : Frame V) (stmts : List Stmt) (y : Action V V) : Prop :=
  Tree.Rel (EndsAlike opened fun _ flow value => flow = .returned value)
    ((execList isNull rounds call stmts).at fr) y.run

variable {fr : Frame V}

/-- The frame inside a rescue scope on its environment. -/
def Frame.inside (fr : Frame V) : Frame V :=
  { fr with opened := fr.env :: fr.opened }

theorem at_closeScope : (closeScope : Exec V Unit).at fr.inside = pure (.ok (), fr) := by
  unfold closeScope
  rw [Exec.at_get_bind]
  show ((if fr.env = fr.env then set fr else throw .stuck : Exec V Unit)).at fr.inside = _
  rw [if_pos rfl]
  rfl

theorem at_closeRescue :
    (Stmt.exec isNull rounds call .closeRescue).at fr.inside
      = .perform (.closeRescue fr.env) fun _ => .done (.ok .next, fr) := by
  rw [Stmt.exec, Exec.at_get_bind, Exec.at_bind, Exec.at_lift]
  refine congrArg (Tree.perform (.closeRescue fr.env)) (funext fun _ => ?_)
  show (closeScope >>= fun _ => (pure .next : Exec V (Flow V))).at fr.inside = _
  rw [Exec.at_bind, at_closeScope]
  rfl

/-- Closing the innermost scope, which is on the current environment. -/
theorem closes_closeRescue {stmts : List Stmt} {y : Action V V}
    (h : Returns isNull rounds call fr stmts y) :
    Closes isNull rounds call fr.opened fr.inside (.closeRescue :: stmts)
      (signal (.closeRescue fr.env) >>= fun _ => y) := by
  unfold Closes
  rw [execList, Exec.at_bind, at_closeRescue]
  exact .perform (.closeRescue fr.env) fun _ => h

theorem at_rescueOpens (yes : List Stmt) :
    (Stmt.exec isNull rounds call (.branch .rescueOpens yes [])).at fr
      = .perform (.openRescue fr.env) fun _ =>
        (execList isNull rounds call yes).at fr.inside >>= fun r =>
          afterBody fr.inside (pure (.ok .next, { fr.inside with opened := r.2.opened })) r := by
  rw [Stmt.exec]
  refine congrArg (Tree.perform (.openRescue fr.env)) (funext fun _ => ?_)
  show (onException (fr.env :: fr.opened) (braces (execList isNull rounds call yes))
    (braces (execList isNull rounds call []))).at fr.inside = _
  unfold onException
  show ((braces (execList isNull rounds call yes)).at fr.inside >>= _) = _
  rw [at_braces, bind_assoc]
  refine bind_congr fun r => ?_
  obtain ⟨r, inner⟩ := r
  cases r with
  | ok flow => rfl
  | error stop =>
    cases stop with
    | raised =>
      show (if inner.opened.length = (fr.env :: fr.opened).length then _ else _)
        = (if inner.opened.length = (fr.env :: fr.opened).length then _ else _)
      by_cases hl : inner.opened.length = (fr.env :: fr.opened).length
      · rw [if_pos hl, if_pos hl]
        show (braces (execList isNull rounds call [])).at _ = _
        rw [at_braces, execList]
        show Tree.done (Except.ok Flow.next, Frame.leave _ _) = Tree.done _
        rw [Frame.leave_self]
      · rw [if_neg hl, if_neg hl]
    | unfinished => rfl
    | stuck => rfl

theorem at_declare {v : Variable} {e : Expr} {y : Action V V} {ss : List Stmt}
    (hv : HasValue call fr e y) (hn : fr.slots v.text = none) :
    (execList isNull rounds call (.declare v e :: ss)).at fr = y.run >>= fun
      | .ok x => (execList isNull rounds call ss).at (fr.put v.text (.object x))
      | .error stop => pure (.error stop, fr) := by
  rw [execList, Stmt.exec, bind_assoc, Exec.at_bind, hv, Exec.at_lift, bind_assoc]
  refine bind_congr fun r => ?_
  cases r with
  | ok x =>
    rw [pure_bind]
    simp only [bind_assoc, pure_bind]
    rw [Exec.at_bind, at_declareSlot hn]
    rfl
  | error stop => rfl

theorem at_discard {e : Expr} {y : Action V V} {ss : List Stmt} (hv : HasValue call fr e y) :
    (execList isNull rounds call (.discard e :: ss)).at fr = y.run >>= fun
      | .ok _ => (execList isNull rounds call ss).at fr
      | .error stop => pure (.error stop, fr) := by
  rw [execList, Stmt.exec, bind_assoc, Exec.at_bind, hv, Exec.at_lift, bind_assoc]
  refine bind_congr fun r => ?_
  cases r with
  | ok x => rfl
  | error stop => rfl

/-- **A rescue scope.** A body runs inside a scope on the current environment. If it gives a value,
statements that close the scope return what comes then; if an exception leaves it, the statements
after the test return what comes then, with the scope still open when they start. -/
theorem returns_rescueOpens {yes rest : List Stmt} {y : Action V β} {normally : β → Action V V}
    {onRaise : Action V V} {T : β → Tree V (Except Stop (Flow V) × Frame V)}
    (hy : (execList isNull rounds call yes).at fr.inside = y.run >>= fun
      | .ok b => T b
      | .error stop => pure (.error stop, fr.inside))
    (hn : ∀ b, Tree.Rel (EndsAlike fr.opened fun _ flow value => flow = .returned value) (T b)
      (normally b).run)
    (hr : Closes isNull rounds call fr.opened fr.inside rest onRaise) :
    Returns isNull rounds call fr (.branch .rescueOpens yes [] :: rest)
      (signal (.openRescue fr.env) >>= fun _ => protect y normally onRaise) := by
  unfold Returns Refines
  rw [execList, Exec.at_bind, at_rescueOpens]
  refine .perform (.openRescue fr.env) fun _ => ?_
  show Tree.Rel _ (((execList isNull rounds call yes).at fr.inside >>= _) >>= _)
    (y.run >>= _)
  rw [hy, bind_assoc, bind_assoc]
  refine Tree.Rel.bind (Tree.Rel.refl (R := Eq) (fun _ => rfl) y.run) ?_
  rintro o _ rfl
  cases o with
  | ok b =>
    show Tree.Rel _ ((T b).bind _) (normally b).run
    rw [← Tree.bind_done (normally b).run]
    refine Tree.Rel.bind (hn b) ?_
    intro r o hr
    cases hr with
    | ok ho hf =>
      subst hf
      exact .done (.ok ho rfl)
    | @error fr' stop ho =>
      cases stop with
      | raised =>
        have hl : fr'.opened.length ≠ fr.inside.opened.length := by
          rw [ho rfl]
          exact Nat.ne_of_lt (Nat.lt_succ_self _)
        show Tree.Rel _ ((afterBody _ _ (.error .raised, fr')).bind _) _
        rw [afterBody_of_closed hl]
        exact .done (.error ho)
      | unfinished => exact .done (.error nofun)
      | stuck => exact .done (.error nofun)
  | error stop =>
    cases stop with
    | raised =>
      show Tree.Rel _ ((afterBody _ _ (.error .raised, fr.inside)).bind _) _
      rw [afterBody_of_open rfl]
      exact hr
    | unfinished => exact .done (.error nofun)
    | stuck => exact .done (.error nofun)

end ScriptCompiler.C
