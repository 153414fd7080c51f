import ScriptCompiler.Proofs.Runtime.Parting
import ScriptCompiler.Proofs.Syntax.Outermost

/-!
# Ends of evaluation

Every step of an evaluation can come to a value, and every step that asks the runtime library for
something can raise an exception. A watched assignment on another environment than the home is stuck
where an unwatched one goes on.
-/

namespace ScriptCompiler.Evaluation

open ScriptCompiler.Runtime

variable {V : Type} {isNull : V → Bool} {n : Nat}

/-! ## Exceptions -/

theorem raises_sendMessage (scope : Scope V) (receiver : Option V) (name : String)
    (passed : Runtime.Passed V) : Raises (sendMessage scope receiver name passed) := by
  unfold sendMessage
  cases receiver with
  | none =>
    dsimp only
    split
    · exact .first (.perform _)
    · split
      · exact .first (.perform _)
      · exact .perform _
  | some receiver =>
    dsimp only
    split <;> exact .perform _

theorem raises_defineRoutine (scope : Scope V) (owner : Option String) (name : String)
    (code : Routine V) : Raises (defineRoutine scope owner name code) := by
  cases owner with
  | none => exact Raises.first (.deliver _ _)
  | some owner =>
    rw [defineRoutine, ownerObject]
    split
    · rw [pure_bind]
      exact Raises.first (.deliver _ _)
    · exact Raises.first (.perform _)

theorem raises_assignTo [DecidableEq V] (env self value : V) (target : Target) :
    Raises (assignTo (.inner env self) value target) := by
  cases target with
  | localVar name => exact Raises.first (.perform _)
  | instanceVar name => exact Raises.first (.perform _)
  | globalVar name => exact Raises.first (.perform _)

/-- An assignment that is watched and strays is stuck. -/
theorem parts_assignTo [DecidableEq V] {env home : V} (he : env ≠ home) (self value : V)
    (name : String) :
    Parts (assignTo ⟨env, self, some home⟩ value (.localVar name))
      (assignTo (.inner env self) value (.localVar name)) := by
  have hd : (some home).any (· ≠ env) = true := by simpa using Ne.symm he
  simp only [assignTo, hd, if_true]
  exact .here

/-! ## Values -/

theorem completes_sendMessage (scope : Scope V) (receiver : Option V) (name : String)
    (passed : Runtime.Passed V) : Completes (sendMessage scope receiver name passed) := by
  have completes := fun op : Operation V => Completes.perform scope.env op
  unfold sendMessage
  cases receiver with
  | none =>
    dsimp only
    split
    · exact .bind (completes _) fun _ => completes _
    · split
      · exact .bind (completes _) fun _ => completes _
      · exact completes _
  | some receiver =>
    dsimp only
    split <;> exact completes _

theorem completes_defineRoutine (scope : Scope V) (owner : Option String) (name : String)
    (code : Routine V) : Completes (defineRoutine scope owner name code) := by
  cases owner with
  | none => exact .bind (.deliver scope.env _ _) fun _ => .pure _
  | some owner =>
    refine .bind ?_ fun _ => .bind (.deliver scope.env _ _) fun _ => .pure _
    unfold ownerObject
    split
    · exact .pure _
    · exact .perform scope.env _

theorem completes_assignTo [DecidableEq V] (env self value : V) (target : Target) :
    Completes (assignTo (.inner env self) value target) := by
  cases target with
  | localVar name => exact .bind (.perform value _) fun _ => .pure ()
  | instanceVar name => exact .bind (.perform value _) fun _ => .pure ()
  | globalVar name => exact .bind (.perform value _) fun _ => .pure ()

theorem completes_namespaceObject (scope : Scope V) (name : String) {create : Action V V}
    (hc : Completes create) : Completes (namespaceObject isNull scope name create) := by
  refine .bind (.perform scope.env _) fun object => ?_
  split
  · exact .bind hc fun _ => .bind (.perform object _) fun _ => .pure _
  · exact .pure _

theorem completes_bindException (env : V) (variable_ : Option String) :
    Completes (bindException env variable_) := by
  cases variable_ with
  | none => exact .pure _
  | some name => exact .bind (.perform env _) fun _ => .bind (.perform env _) fun _ => .pure _

/-! ## Loops -/

section Loops

variable {scope scope' : Scope V} {condition condition' body body' : Action V V}

/-- The first round of a loop, and the rounds after it if the loop goes on. -/
theorem repeatRounds_loopRound (kind : LoopKind) :
    repeatRounds (loopRound scope kind condition body) (n + 1)
      = condition >>= fun value => Runtime.test scope.env value >>= fun reply =>
        if reply = decide (kind = .untilTruthy) then pure ()
        else body >>= fun _ => repeatRounds (loopRound scope kind condition body) n := by
  rw [repeatRounds]
  generalize repeatRounds (loopRound scope kind condition body) n = others
  rw [loopRound]
  simp only [bind_assoc]
  refine bind_congr fun value => bind_congr fun reply => ?_
  split
  · rw [pure_bind]
    rfl
  · rw [bind_assoc]
    refine bind_congr fun _ => ?_
    rw [pure_bind]
    rfl

/-- A loop can end in its first round. -/
theorem completes_loop (kind : LoopKind) (hc : Completes condition) :
    Completes (repeatRounds (loopRound scope kind condition body) (n + 1)) := by
  rw [repeatRounds_loopRound]
  refine .bind hc fun _ => .test_bind _ _ (decide (kind = .untilTruthy)) ?_
  rw [if_pos rfl]
  exact .pure ()

theorem parts_loop_condition (kind : LoopKind) (h : Parts condition condition') :
    Parts (repeatRounds (loopRound scope kind condition body) (n + 1))
      (repeatRounds (loopRound scope' kind condition' body') (n + 1)) := by
  rw [repeatRounds_loopRound, repeatRounds_loopRound]
  exact .first h

theorem parts_loop_body (kind : LoopKind) (he : scope.env = scope'.env) (hc : Completes condition)
    (h : Parts body body') :
    Parts (repeatRounds (loopRound scope kind condition body) (n + 1))
      (repeatRounds (loopRound scope' kind condition body') (n + 1)) := by
  have hne : (!decide (kind = .untilTruthy)) ≠ decide (kind = .untilTruthy) := by
    cases kind <;> decide
  rw [repeatRounds_loopRound, repeatRounds_loopRound, he]
  refine .second hc fun _ => .test_bind _ _ (!decide (kind = .untilTruthy)) ?_
  rw [if_neg hne, if_neg hne]
  exact .first h

end Loops

/-! ## Protected bodies -/

section Protected

variable {scope scope' : Scope V} {body body' handler handler' : Scope V → Action V V}
  {otherwise otherwise' : Option (Scope V → Action V V)} {x : V}

theorem protectedBody_eq (scope : Scope V) (variable_ : Option String) :
    protectedBody scope variable_ body handler otherwise
      = perform (.childBlockEnv scope.env) >>= fun x => signal (.openRescue x) >>= fun _ =>
        protect (body (scope.on x))
          (fun value => signal (.closeRescue x) >>= fun _ =>
            afterwards (scope.on x) otherwise value)
          (signal (.closeRescue x) >>= fun _ => bindException x variable_ >>= fun _ =>
            handler (scope.on x)) := by
  rfl

theorem completes_protectedBody (variable_ : Option String) (hb : Completes (body (scope.on x)))
    (ho : ∀ value, Completes (afterwards (scope.on x) otherwise value)) :
    Completes (protectedBody scope variable_ body handler otherwise) := by
  rw [protectedBody_eq]
  refine .perform_bind _ x (.bind (.signal _) fun _ => .protect hb fun value => ?_)
  exact .bind (.signal _) fun _ => ho value

theorem parts_protectedBody (variable_ : Option String) (he : scope.env = scope'.env)
    (hb : Parts (body (scope.on x)) (body' (scope'.on x))) :
    Parts (protectedBody scope variable_ body handler otherwise)
      (protectedBody scope' variable_ body' handler' otherwise') := by
  rw [protectedBody_eq, protectedBody_eq, he]
  exact .perform_bind _ x (.second (.signal _) fun _ => .protect_body hb)

theorem parts_protectedBody_handler (variable_ : Option String) (he : scope.env = scope'.env)
    (hb : body (scope.on x) = body' (scope'.on x)) (hr : Raises (body' (scope'.on x)))
    (hh : Parts (handler (scope.on x)) (handler' (scope'.on x))) :
    Parts (protectedBody scope variable_ body handler otherwise)
      (protectedBody scope' variable_ body' handler' otherwise') := by
  rw [protectedBody_eq, protectedBody_eq, he]
  refine .perform_bind _ x (.second (.signal _) fun _ => ?_)
  rw [hb]
  refine .protect_onRaise hr (.second (.signal _) fun _ => ?_)
  exact .second (completes_bindException _ _) fun _ => hh

theorem parts_protectedBody_afterwards (variable_ : Option String) (he : scope.env = scope'.env)
    (hb : body (scope.on x) = body' (scope'.on x)) (hc : Completes (body' (scope'.on x)))
    (ho : ∀ value, Parts (afterwards (scope.on x) otherwise value)
      (afterwards (scope'.on x) otherwise' value)) :
    Parts (protectedBody scope variable_ body handler otherwise)
      (protectedBody scope' variable_ body' handler' otherwise') := by
  rw [protectedBody_eq, protectedBody_eq, he]
  refine .perform_bind _ x (.second (.signal _) fun _ => ?_)
  rw [hb]
  exact .protect_normally hc fun value => .second (.signal _) fun _ => ho value

end Protected

end ScriptCompiler.Evaluation
