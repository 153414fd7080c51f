import ScriptCompiler.Proofs.Lowering.Simulation
import ScriptCompiler.Proofs.Runtime.Parting
import ScriptCompiler.Proofs.Syntax.Balance

/-!
# Exceptions in generated code

How the function around a protected body runs, in whatever way its bodies give values or raise
exceptions: what runs inside the rescue scope and what outside of it, and how often. The function
calls the functions of the three bodies, and what these do is what the evaluation of the bodies
does.
-/

namespace ScriptCompiler.Lowering

open C Evaluation ScriptCompiler.Runtime

universe u

variable {V : Type} {σ : Type u}

/-! ## Runs with a rescue scope -/

section Runs

variable {α β : Type} (m : Machine V σ) (env : V) (variable_ : Option String)
  (body handler : Action V V) (otherwise : Option (Action V V)) (s : σ)

/-- The run of an action inside a scope that is opened for it. -/
def runInside (x : Action V V) (s : σ) : Record V σ (Ending V) :=
  (m.run x.run (m.perform (.openRescue env) s).2).after (.perform (.openRescue env))

/-- The run of an action that starts when the scope is closed. -/
def runOutside (x : Action V V) (s : σ) : Record V σ (Ending V) :=
  (m.run x.run (m.perform (.closeRescue env) s).2).after (.perform (.closeRescue env))

/-- How a protected body runs, with a handler for its exceptions and an action for its normal end:
once, inside the scope. What runs after it depends on how it ends, and runs outside the scope. -/
inductive RunsProtected : Record V σ (Ending V) → Prop
  /-- The body gives a value, and nothing runs after it. -/
  | returned {value : V} (h : (runInside m env body s).ending = .ok value)
      (ho : otherwise = none) :
      RunsProtected ((runInside m env body s).andThen
        (runOutside m env (pure value) (runInside m env body s).state))
  /-- The body gives a value, which is dropped for that of another body. -/
  | continued {value : V} {after : Action V V} (h : (runInside m env body s).ending = .ok value)
      (ho : otherwise = some after) :
      RunsProtected ((runInside m env body s).andThen
        (runOutside m env after (runInside m env body s).state))
  /-- An exception leaves the body. It is bound to the variable for it, if there is one, and the
  handler runs. -/
  | handled (h : (runInside m env body s).ending = .error .raised) :
      RunsProtected ((runInside m env body s).andThen
        (runOutside m env (bindException env variable_ >>= fun _ => handler)
          (runInside m env body s).state))
  /-- The body does not end. -/
  | stopped {stop : Stop} (h : (runInside m env body s).ending = .error stop)
      (hs : stop ≠ .raised) : RunsProtected (runInside m env body s)

theorem run_rescueScope (normally : V → Action V V) (onRaise : Action V V) :
    m.run (signal (.openRescue env) >>= fun _ =>
        protect body (fun value => signal (.closeRescue env) >>= fun _ => normally value)
          (signal (.closeRescue env) >>= fun _ => onRaise)).run s
      = match (runInside m env body s).ending with
        | .ok value => (runInside m env body s).andThen
          (runOutside m env (normally value) (runInside m env body s).state)
        | .error .raised => (runInside m env body s).andThen
          (runOutside m env onRaise (runInside m env body s).state)
        | .error _ => runInside m env body s := by
  show (m.run (body.run.bind _) _).after _ = _
  rw [Machine.run_bind]
  unfold runInside Record.after
  generalize m.run body.run (m.perform (.openRescue env) s).2 = r
  obtain ⟨events, ending, left⟩ := r
  cases ending with
  | ok value => rfl
  | error stop =>
    cases stop with
    | raised => rfl
    | unfinished => exact congrArg (Record.after _) (Record.andThen_end events _ left)
    | stuck => exact congrArg (Record.after _) (Record.andThen_end events _ left)

end Runs

/-- The evaluation of a protected body, in an environment of its own. -/
theorem run_protectedBody (m : Machine V σ) (s : σ) (scope : Scope V) (variable_ : Option String)
    (body handler : Scope V → Action V V) (otherwise : Option (Scope V → Action V V)) :
    match m.perform (.childBlockEnv scope.env) s with
    | (some env, s') => ∃ r, RunsProtected m env variable_ (body (scope.on env))
        (handler (scope.on env)) (otherwise.map fun f => f (scope.on env)) s' r
        ∧ m.run (protectedBody scope variable_ body handler otherwise).run s
          = r.after (.perform (.childBlockEnv scope.env))
    | (none, s') => m.run (protectedBody scope variable_ body handler otherwise).run s
        = ⟨[.perform (.childBlockEnv scope.env)], .error .raised, s'⟩ := by
  unfold protectedBody
  rw [Machine.run_perform_bind]
  obtain ⟨reply, s'⟩ := m.perform (.childBlockEnv scope.env) s
  cases reply with
  | none => rfl
  | some env =>
    refine ⟨_, ?_, rfl⟩
    simp only
    rw [run_rescueScope]
    split
    · next value he =>
      cases otherwise with
      | none => exact .returned he rfl
      | some f => exact .continued he rfl
    · next he => exact .handled he
    · next stop he hs => exact .stopped hs (fun hr => he (by rw [hr]))

/-! ## Generated code -/

variable [DecidableEq V] {ctx ctx' : Context} {span : Span} {body handler : Body}
  {variable_ : Option String} {otherwise : Option Body} {frag : Fragment} {file : List Function}
  {depth : Nat}

theorem map_evalElse (isNull : V → Bool) (rounds : Nat) (scope : Scope V)
    (otherwise : Option Body) :
    (evalElse isNull rounds otherwise).map (fun f => f scope)
      = otherwise.map (evalBody isNull rounds scope) := by
  cases otherwise with
  | none => rfl
  | some nodes => rfl

/-- A lowered protected body is the call of a function, which does what the evaluation of the
protected body does. -/
theorem Lowers.wrapper (h : Lowers ctx ⟨.rescue body variable_ handler otherwise, span⟩ frag ctx')
    (linked : Linked file depth frag.code.functions) (isNull : V → Bool) (rounds : Nat) :
    ∃ wrapper, frag.code.stmts = [.declare frag.result (.callHere wrapper)]
      ∧ ∀ env self, enter isNull rounds file depth wrapper ⟨env, self, none⟩
        = protectedBody (.inner env self) variable_
          (fun scope => evalBody isNull rounds scope body)
          (fun scope => evalBody isNull rounds scope handler)
          (evalElse isNull rounds otherwise) := by
  cases h with
  | rescue body handler otherwise =>
    obtain ⟨d, hd, he⟩ := linked.left.enter_last isNull rounds
    have hprotected := call_hoisted isNull rounds (fun scope => evalBody isNull rounds scope _)
      hd.left.left fun d hd env self => body.returns hd (.start _ env self none)
    have hhandler := call_hoisted isNull rounds (fun scope => evalBody isNull rounds scope _)
      hd.left.right fun d hd env self => handler.returns hd (.start _ env self none)
    refine ⟨_, rfl, fun env self => (congrFun he _).trans ?_⟩
    exact runStmts_rescueWrapper isNull rounds (fun scope => evalBody isNull rounds scope _)
      (fun scope => evalBody isNull rounds scope _) hprotected hhandler
      (otherwise.calls hd.right) _ env self
  | leaf h => cases h
  | namespace_ h => cases h

/-- **Exceptions in a protected body.** Its lowered statement calls a function, which makes an
environment and runs the protected body in it, once and inside a rescue scope on that environment.
If the body gives a value, the scope is closed, and that value or the one that the body for the
normal end gives then is the value of the function. If an exception leaves the body, the scope is
closed before anything else, the exception is bound to its variable, and the handler gives the
value. An exception that leaves one of these is the ending of the function. Wherever bodies raise
exceptions, the scopes that were opened in the run, also by protected bodies inside the bodies, have
each been closed once, the innermost one first, when it ends. -/
theorem run_rescue
    (h : lower ⟨.rescue body variable_ handler otherwise, span⟩ ctx = (.ok frag, ctx'))
    (linked : Linked file depth frag.code.functions) (isNull : V → Bool) (rounds : Nat)
    (m : Machine V σ) (s : σ) (env self : V) :
    ∃ wrapper, frag.code.stmts = [.declare frag.result (.callHere wrapper)]
      ∧ (match m.perform (.childBlockEnv env) s with
        | (some inner, s') => ∃ r, RunsProtected m inner variable_
            (evalBody isNull rounds (.inner inner self) body)
            (evalBody isNull rounds (.inner inner self) handler)
            (otherwise.map (evalBody isNull rounds (.inner inner self))) s' r
            ∧ m.run (enter isNull rounds file depth wrapper ⟨env, self, none⟩).run s
              = r.after (.perform (.childBlockEnv env))
        | (none, s') => m.run (enter isNull rounds file depth wrapper ⟨env, self, none⟩).run s
            = ⟨[.perform (.childBlockEnv env)], .error .raised, s'⟩)
      ∧ ∃ left, openScopes []
            (m.run (enter isNull rounds file depth wrapper ⟨env, self, none⟩).run s).events
          = some left
        ∧ LeavesOpen [] left
            (m.run (enter isNull rounds file depth wrapper ⟨env, self, none⟩).run s).ending := by
  obtain ⟨wrapper, hs, he⟩ := (lowers_of_lower h).wrapper linked isNull rounds
  refine ⟨wrapper, hs, ?_, ?_⟩
  · simp only [he]
    have hr := run_protectedBody m s (.inner env self) variable_
      (fun scope => evalBody isNull rounds scope body)
      (fun scope => evalBody isNull rounds scope handler) (evalElse isNull rounds otherwise)
    simp only [map_evalElse] at hr
    exact hr
  · rw [he]
    have balanced := balanced_protectedBody (.inner env self) variable_
      (balanced_evalBody isNull rounds · body) (balanced_evalBody isNull rounds · handler)
      (balanced_evalElse isNull rounds otherwise)
    exact (balanced []).run m s

/-- A call whose exceptions are given back as values. -/
def riskyBody : Body :=
  [⟨.send none "risky" [] none, default⟩]

/-- The value of an exception. -/
def riskyHandler : Body :=
  [⟨.localVar "e", default⟩]

/-- The call raises an exception. -/
def riskyScript : List (Reply Nat) :=
  [.value none, .value none, .value none, .value (some 2), .value (some 3), .value (some 4)]

theorem run_rescue_riskyBody :
    ∃ frag ctx', lower ⟨.rescue riskyBody (some "e") riskyHandler none, default⟩ (.start "" .empty)
        = (.ok frag, ctx')
      ∧ Linked frag.code.functions 3 frag.code.functions
      ∧ ∃ wrapper, frag.code.stmts = [.declare frag.result (.callHere wrapper)]
        ∧ (∃ r, RunsProtected scripted 1 (some "e") (evalBody (· == 0) 3 (.inner 1 7) riskyBody)
            (evalBody (· == 0) 3 (.inner 1 7) riskyHandler) none riskyScript r
          ∧ scripted.run (enter (· == 0) 3 frag.code.functions 3 wrapper ⟨0, 7, none⟩).run
              (.value (some 1) :: riskyScript)
            = r.after (.perform (.childBlockEnv 0)))
        ∧ ∃ left, openScopes [] (scripted.run (enter (· == 0) 3 frag.code.functions 3 wrapper
              ⟨0, 7, none⟩).run (.value (some 1) :: riskyScript)).events = some left
          ∧ LeavesOpen [] left (scripted.run (enter (· == 0) 3 frag.code.functions 3 wrapper
              ⟨0, 7, none⟩).run (.value (some 1) :: riskyScript)).ending := by
  have lowered : lower ⟨.rescue riskyBody (some "e") riskyHandler none, default⟩ (.start "" .empty)
    = (.ok _, _) := rfl
  have linked : Linked _ 3 _ := Linked.of_nodup (lowers_of_lower lowered).numbered.nodup_texts
    (by decide)
  exact ⟨_, _, lowered, linked, run_rescue lowered linked (· == 0) 3 scripted
    (.value (some 1) :: riskyScript) 0 7⟩

end ScriptCompiler.Lowering
