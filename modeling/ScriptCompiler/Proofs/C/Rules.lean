import ScriptCompiler.Proofs.C.Frames

/-!
# What each statement does

One rule for each expression and each statement: the action that it does in a frame, and the frame
after it. The rules for lists, braces, loops and functions put them together.
-/

namespace ScriptCompiler.C

open ScriptCompiler.Runtime

variable {V β γ : Type}

/-! ## Expressions -/

section Expressions

variable (call : Name → Routine V) (fr : Frame V)

/-- In a frame an expression does what an action does, and the frame stays as it is. -/
def HasValue (e : Expr) (y : Action V V) : Prop :=
  (e.value call).at fr = (liftM y : Exec V V).at fr

variable {call fr}

theorem hasValue_variable {v : Variable} {value : V} (h : fr.read? v = some value) :
    HasValue call fr (.variable_ v) (pure value) := by
  show (need (fr.read? v)).at fr = _
  rw [h]
  rfl

theorem hasValue_symbol (name : String) :
    HasValue call fr (.symbol name) (perform (.symbol fr.env name)) := rfl

theorem hasValue_emptyArray : HasValue call fr .emptyArray (perform (.array fr.env)) := rfl

theorem hasValue_getLocal (name : String) :
    HasValue call fr (.getLocal name) (perform (.getLocal fr.env name)) := rfl

theorem hasValue_lookup (name : String) :
    HasValue call fr (.lookup name) (perform (.lookup fr.env name)) := rfl

theorem hasValue_exception : HasValue call fr .exception (perform (.exception fr.env)) := rfl

theorem hasValue_newModule (name : String) :
    HasValue call fr (.newModule name) (perform (.newModule fr.env name)) := rfl

theorem hasValue_newClass (superclass name : String) :
    HasValue call fr (.newClass superclass name) (do
      let superclass ← perform (.getLocal fr.env superclass)
      perform (.newClass fr.env superclass name)) :=
  (Exec.at_lift_seq _ _).symm

theorem hasValue_callHere (function : Name) :
    HasValue call fr (.callHere function) (call function ⟨fr.env, fr.self, none⟩) := rfl

theorem hasValue_send {receiver : Variable} {object : V} {name : String} {p : Passed}
    {passed : Runtime.Passed V} (hr : fr.read? receiver = some object)
    (hp : fr.passed? p = some passed) :
    HasValue call fr (.send receiver name p) (perform (.send fr.env object name passed)) := by
  unfold HasValue Expr.value
  rw [Exec.at_get_bind, hr, need_some, pure_bind, hp, need_some, pure_bind]

theorem hasValue_lookupOrSend {receiver : Variable} {object : V} {name : String} {p : Passed}
    {passed : Runtime.Passed V} (hr : fr.read? receiver = some object)
    (hp : fr.passed? p = some passed) :
    HasValue call fr (.lookupOrSend receiver name p)
      (perform (.lookupOrSend fr.env object name passed)) := by
  unfold HasValue Expr.value
  rw [Exec.at_get_bind, hr, need_some, pure_bind, hp, need_some, pure_bind]

theorem hasValue_callSuper {p : Passed} {passed : Runtime.Passed V}
    (hp : fr.passed? p = some passed) :
    HasValue call fr (.callSuper p) (do
      let method ← perform (.getLocal fr.env methodNameKey)
      perform (.callSuper fr.env fr.self method passed)) := by
  unfold HasValue Expr.value
  rw [Exec.at_get_bind, hp, need_some, pure_bind, Exec.at_lift_seq]

theorem hasValue_runBlock {p : Passed} {passed : Runtime.Passed V}
    (hp : fr.passed? p = some passed) :
    HasValue call fr (.runBlock p) (do
      let block ← perform (.currentBlock fr.env)
      perform (.runBlock fr.env block passed)) := by
  unfold HasValue Expr.value
  rw [Exec.at_get_bind, hp, need_some, pure_bind, Exec.at_lift_seq]

theorem hasValue_callInside {function : Name} {receiver : Variable} {object : V}
    (hr : fr.read? receiver = some object) :
    HasValue call fr (.callInside function receiver) (do
      let env ← perform (.childEnv fr.env)
      call function ⟨env, object, none⟩) := by
  unfold HasValue Expr.value
  rw [Exec.at_get_bind, hr, need_some, pure_bind, Exec.at_lift_seq]

end Expressions

/-! ## Statements -/

theorem at_declareSlot {fr : Frame V} {name : String} {slot : Slot V} (hn : fr.slots name = none) :
    (declareSlot name slot).at fr = pure (.ok (), fr.put name slot) := by
  unfold declareSlot
  rw [Exec.at_get_bind, hn]
  rfl

/-- An expression that is evaluated before a step. -/
theorem Refines.value_bind {call : Name → Routine V} {fr : Frame V} {γ δ : Type} {e : Expr}
    {y : Action V V} {f : V → Exec V γ} {g : V → Action V δ} {R : Frame V → γ → δ → Prop}
    (hv : HasValue call fr e y) (hf : ∀ x, Refines fr (f x) (g x) R) :
    Refines fr (e.value call >>= f) (y >>= g) R := by
  have h : Refines fr (liftM y >>= f) (y >>= g) R := .lift_bind hf
  unfold Refines at h ⊢
  rw [Exec.at_bind] at h ⊢
  unfold HasValue at hv
  rw [hv]
  exact h

section Statements

variable [DecidableEq V] (isNull : V → Bool) (rounds : Nat) (call : Name → Routine V)

/-- From a frame, statements do what an action does and go on with the next one. -/
def Runs (fr : Frame V) (stmts : List Stmt) (y : Action V β) (Q : Frame V → β → Prop) : Prop :=
  Refines fr (execList isNull rounds call stmts) y fun fr' flow b => flow = .next ∧ Q fr' b

/-- From a frame, statements do what an action does and return its value. -/
def Returns (fr : Frame V) (stmts : List Stmt) (y : Action V V) : Prop :=
  Refines fr (execList isNull rounds call stmts) y fun _ flow value => flow = .returned value

variable {isNull rounds call}

theorem execList_append (a b : List Stmt) :
    execList isNull rounds call (a ++ b) = execList isNull rounds call a >>= fun
      | .next => execList isNull rounds call b
      | flow => pure flow := by
  induction a with
  | nil => rw [List.nil_append, execList, pure_bind]
  | cons s ss ih =>
    rw [List.cons_append, execList, execList, bind_assoc]
    refine bind_congr fun flow => ?_
    cases flow with
    | next => exact ih
    | broke => rw [pure_bind]
    | returned value => rw [pure_bind]

variable {fr : Frame V} {Q : Frame V → β → Prop}

namespace Runs

theorem nil {b : β} (hq : Q fr b) : Runs isNull rounds call fr [] (pure b) Q := by
  unfold Runs
  rw [execList]
  exact .pure ⟨rfl, hq⟩

theorem mono {Q' : Frame V → β → Prop} {stmts : List Stmt} {y : Action V β}
    (h : Runs isNull rounds call fr stmts y Q) (hq : ∀ fr' b, Q fr' b → Q' fr' b) :
    Runs isNull rounds call fr stmts y Q' :=
  Refines.mono h fun fr' _ b hb => ⟨hb.1, hq fr' b hb.2⟩

/-- Statements that run, and others after them. -/
theorem followed {γ : Type} {a b : List Stmt} {y : Action V β} {g : β → Action V γ}
    {R : Frame V → Flow V → γ → Prop} (ha : Runs isNull rounds call fr a y Q)
    (hb : ∀ fr' x, Q fr' x → Refines fr' (execList isNull rounds call b) (g x) R) :
    Refines fr (execList isNull rounds call (a ++ b)) (y >>= g) R := by
  rw [execList_append]
  refine Refines.bind ha ?_
  intro fr' flow x hx
  obtain ⟨rfl, hx⟩ := hx
  exact hb fr' x hx

theorem append {γ : Type} {a b : List Stmt} {y : Action V β} {g : β → Action V γ}
    {R : Frame V → γ → Prop} (ha : Runs isNull rounds call fr a y Q)
    (hb : ∀ fr' x, Q fr' x → Runs isNull rounds call fr' b (g x) R) :
    Runs isNull rounds call fr (a ++ b) (y >>= g) R :=
  ha.followed hb

theorem returns {a b : List Stmt} {y : Action V β} {g : β → Action V V}
    (ha : Runs isNull rounds call fr a y Q)
    (hb : ∀ fr' x, Q fr' x → Returns isNull rounds call fr' b (g x)) :
    Returns isNull rounds call fr (a ++ b) (y >>= g) :=
  ha.followed hb

/-- Statements that ask for nothing, and others after them. -/
theorem skip {γ : Type} {a b : List Stmt} {y : Action V β} {c : γ} {P : Frame V → γ → Prop}
    (ha : Runs isNull rounds call fr a (pure c) P)
    (hb : ∀ fr' x, P fr' x → Runs isNull rounds call fr' b y Q) :
    Runs isNull rounds call fr (a ++ b) y Q := by
  have h : Runs isNull rounds call fr (a ++ b) (pure c >>= fun _ => y) Q := ha.append hb
  rw [pure_bind] at h
  exact h

theorem skip_returns {γ : Type} {a b : List Stmt} {y : Action V V} {c : γ}
    {P : Frame V → γ → Prop} (ha : Runs isNull rounds call fr a (pure c) P)
    (hb : ∀ fr' x, P fr' x → Returns isNull rounds call fr' b y) :
    Returns isNull rounds call fr (a ++ b) y := by
  have h : Returns isNull rounds call fr (a ++ b) (pure c >>= fun _ => y) := ha.returns hb
  rw [pure_bind] at h
  exact h

/-- The value of statements, changed by a function. -/
theorem map {γ : Type} {a : List Stmt} {y : Action V β} {f : β → γ} {R : Frame V → γ → Prop}
    (ha : Runs isNull rounds call fr a y Q) (hf : ∀ fr' x, Q fr' x → R fr' (f x)) :
    Runs isNull rounds call fr a (y >>= fun x => pure (f x)) R := by
  have h : Runs isNull rounds call fr (a ++ []) (y >>= fun x => pure (f x)) R :=
    ha.append fun fr' x hx => .nil (hf fr' x hx)
  rw [List.append_nil] at h
  exact h

/-- One statement that runs. -/
theorem single {s : Stmt} {y : Action V β}
    (h : Refines fr (s.exec isNull rounds call) y fun fr' flow b => flow = .next ∧ Q fr' b) :
    Runs isNull rounds call fr [s] y Q := by
  unfold Runs
  rw [execList, ← bind_pure y]
  refine Refines.bind h ?_
  intro fr' flow b hb
  obtain ⟨rfl, hb⟩ := hb
  rw [execList]
  exact .pure ⟨rfl, hb⟩

end Runs

theorem runs_declare {v : Variable} {e : Expr} {y : Action V V} (hv : HasValue call fr e y)
    (hn : fr.slots v.text = none) :
    Runs isNull rounds call fr [.declare v e] y
      fun fr' x => fr' = fr.put v.text (.object x) := by
  refine .single ?_
  rw [Stmt.exec, ← bind_pure y]
  refine Refines.value_bind hv fun x => ?_
  exact Refines.step_bind (fr.put v.text (.object x)) ⟨⟩ (at_declareSlot hn) rfl
    (.pure ⟨rfl, rfl⟩)

theorem runs_assign {v : Variable} {e : Expr} {y : Action V V} {old : V}
    (hv : HasValue call fr e y) (ho : fr.slots v.text = some (.object old)) :
    Runs isNull rounds call fr [.assign v e] y
      fun fr' x => fr' = fr.put v.text (.object x) := by
  refine .single ?_
  rw [Stmt.exec, ← bind_pure y]
  refine Refines.value_bind hv fun x => ?_
  refine Refines.step_bind (fr.put v.text (.object x)) ⟨⟩ ?_ rfl (.pure ⟨rfl, rfl⟩)
  unfold assignSlot
  rw [Exec.at_get_bind, ho]
  rfl

theorem runs_discard {e : Expr} {y : Action V V} (hv : HasValue call fr e y) :
    Runs isNull rounds call fr [.discard e] y fun fr' _ => fr' = fr := by
  refine .single ?_
  rw [Stmt.exec, ← bind_pure y]
  exact Refines.value_bind hv fun x => .pure ⟨rfl, rfl⟩

theorem runs_unused {formal : Formal} {passed : Runtime.Passed V} (hp : fr.passed = some passed) :
    Runs isNull rounds call fr [.unused formal] (pure ()) fun fr' _ => fr' = fr := by
  refine .single ?_
  rw [Stmt.exec]
  unfold formals
  rw [bind_assoc]
  refine .get_bind (.need_bind hp ?_)
  exact .pure ⟨rfl, rfl⟩

theorem runs_push {array value : Variable} {a x : V} (ha : fr.read? array = some a)
    (hx : fr.read? value = some x) :
    Runs isNull rounds call fr [.push array value] (perform (.push fr.env a x))
      fun fr' _ => fr' = fr := by
  refine .single ?_
  rw [Stmt.exec, ← bind_pure (perform _)]
  refine .get_bind (.need_bind ha (.need_bind hx ?_))
  exact .lift_bind fun _ => .pure ⟨rfl, rfl⟩

theorem runs_setLocal {name : String} {e : Expr} {y : Action V V} (hv : HasValue call fr e y) :
    Runs isNull rounds call fr [.setLocal name e]
      (y >>= fun x => perform (.setLocal fr.env name x)) fun fr' _ => fr' = fr := by
  refine .single ?_
  rw [Stmt.exec]
  refine Refines.value_bind hv fun x => ?_
  rw [← bind_pure (perform _)]
  exact .get_bind (.lift_bind fun _ => .pure ⟨rfl, rfl⟩)

theorem runs_declareLocal {name : String} {e : Expr} {y : Action V V}
    (hv : HasValue call fr e y) :
    Runs isNull rounds call fr [.declareLocal name e]
      (y >>= fun x => perform (.declareLocal fr.env name x)) fun fr' _ => fr' = fr := by
  refine .single ?_
  rw [Stmt.exec]
  refine Refines.value_bind hv fun x => ?_
  rw [← bind_pure (perform _)]
  exact .get_bind (.lift_bind fun _ => .pure ⟨rfl, rfl⟩)

theorem runs_setInstance {name : String} {value : Variable} {x : V}
    (hx : fr.read? value = some x) :
    Runs isNull rounds call fr [.setInstance name value]
      (perform (.setInstance fr.env fr.self name x)) fun fr' _ => fr' = fr := by
  refine .single ?_
  rw [Stmt.exec, ← bind_pure (perform _)]
  exact .get_bind (.need_bind hx (.lift_bind fun _ => .pure ⟨rfl, rfl⟩))

theorem runs_setGlobal {name : String} {value : Variable} {x : V}
    (hx : fr.read? value = some x) :
    Runs isNull rounds call fr [.setGlobal name value] (perform (.setGlobal fr.env name x))
      fun fr' _ => fr' = fr := by
  refine .single ?_
  rw [Stmt.exec, ← bind_pure (perform _)]
  exact .get_bind (.need_bind hx (.lift_bind fun _ => .pure ⟨rfl, rfl⟩))

theorem runs_declareArgs {array : Name} {size : Nat} (hn : fr.slots array.text = none) :
    Runs isNull rounds call fr [.declareArgs array size] (pure ())
      fun fr' _ => fr' = fr.put array.text (.vector (List.replicate size none)) := by
  refine .single ?_
  rw [Stmt.exec]
  exact Refines.step_bind (fr.put array.text (.vector (List.replicate size none))) ⟨⟩
    (at_declareSlot hn) rfl (.pure ⟨rfl, rfl⟩)

theorem runs_storeArg {array : Name} {index : Nat} {value : Variable} {x : V}
    {values : List (Option V)} (hx : fr.read? value = some x)
    (ha : fr.slots array.text = some (.vector values)) (hi : index < values.length) :
    Runs isNull rounds call fr [.storeArg array index value] (pure ())
      fun fr' _ => fr' = fr.put array.text (.vector (values.set index (some x))) := by
  refine .single ?_
  rw [Stmt.exec]
  unfold readVariable
  rw [bind_assoc]
  refine .get_bind (.need_bind hx ?_)
  refine Refines.step_bind (fr.put array.text (.vector (values.set index (some x)))) ⟨⟩ ?_ rfl
    (.pure ⟨rfl, rfl⟩)
  unfold fillEntry
  rw [Exec.at_get_bind, ha]
  simp only [if_pos hi]
  rfl

theorem runs_declareBlock {name function : Name} (hn : fr.slots name.text = none) :
    Runs isNull rounds call fr [.declareBlock name function]
      (deliver (.block fr.env fr.self) (call function))
      fun fr' x => fr' = fr.put name.text (.block x) := by
  refine .single ?_
  rw [Stmt.exec, ← bind_pure (deliver _ _)]
  refine .get_bind (.lift_bind fun x => ?_)
  exact Refines.step_bind (fr.put name.text (.block x)) ⟨⟩ (at_declareSlot hn) rfl
    (.pure ⟨rfl, rfl⟩)

theorem runs_defineMethod {name : String} {function : Name} :
    Runs isNull rounds call fr [.defineMethod name function]
      (deliver (.defineMethod fr.env fr.self name) (call function)) fun fr' _ => fr' = fr := by
  refine .single ?_
  rw [Stmt.exec, ← bind_pure (deliver _ _)]
  exact .get_bind (.lift_bind fun _ => .pure ⟨rfl, rfl⟩)

theorem runs_defineSingleton {owner : Expr} {y : Action V V} {name : String} {function : Name}
    (hv : HasValue call fr owner y) :
    Runs isNull rounds call fr [.defineSingleton owner name function]
      (y >>= fun x => deliver (.defineSingleton fr.env x name) (call function))
      fun fr' _ => fr' = fr := by
  refine .single ?_
  rw [Stmt.exec]
  refine Refines.value_bind hv fun x => ?_
  rw [← bind_pure (deliver _ _)]
  exact .get_bind (.lift_bind fun _ => .pure ⟨rfl, rfl⟩)

theorem runs_assertArgc {count : Nat} {passed : Runtime.Passed V}
    (hp : fr.passed = some passed) :
    Runs isNull rounds call fr [.assertArgc count]
      (expectCount fr.env passed.args.length count) fun fr' _ => fr' = fr := by
  refine .single ?_
  rw [Stmt.exec, ← bind_pure (expectCount _ _ _)]
  unfold formals
  rw [bind_assoc]
  refine .get_bind (.need_bind hp (.get_bind ?_))
  exact .lift_bind fun _ => .pure ⟨rfl, rfl⟩

theorem runs_enterEnv :
    Runs isNull rounds call fr [.enterEnv] (perform (.childEnv fr.env))
      fun fr' env => fr' = { fr with env } := by
  refine .single ?_
  rw [Stmt.exec, ← bind_pure (perform _)]
  refine .get_bind (.lift_bind fun env => ?_)
  exact Refines.step_bind { fr with env } ⟨⟩ rfl rfl (.pure ⟨rfl, rfl⟩)

theorem runs_enterBlockEnv :
    Runs isNull rounds call fr [.enterBlockEnv] (perform (.childBlockEnv fr.env))
      fun fr' env => fr' = { fr with env } := by
  refine .single ?_
  rw [Stmt.exec, ← bind_pure (perform _)]
  refine .get_bind (.lift_bind fun env => ?_)
  exact Refines.step_bind { fr with env } ⟨⟩ rfl rfl (.pure ⟨rfl, rfl⟩)

theorem runs_setBlock {passed : Runtime.Passed V} (hp : fr.passed = some passed) :
    Runs isNull rounds call fr [.setBlock] (perform (.setBlock fr.env passed.block))
      fun fr' _ => fr' = fr := by
  refine .single ?_
  rw [Stmt.exec, ← bind_pure (perform _)]
  unfold formals
  rw [bind_assoc]
  refine .get_bind (.need_bind hp (.get_bind ?_))
  exact .lift_bind fun _ => .pure ⟨rfl, rfl⟩

theorem returns_return {e : Expr} {y : Action V V} (hv : HasValue call fr e y) :
    Returns isNull rounds call fr [.return_ e] y := by
  unfold Returns
  rw [execList, Stmt.exec, bind_assoc, ← bind_pure y]
  refine Refines.value_bind hv fun x => ?_
  rw [pure_bind]
  exact .pure rfl

/-! ## Braces, branches and loops -/

theorem refines_braces {y : Action V β} {R : Frame V → Flow V → β → Prop} {body : List Stmt}
    (h : Refines fr (execList isNull rounds call body) y R) :
    Refines fr (braces (execList isNull rounds call body)) y
      fun fr' flow b => ∃ inner, R inner flow b ∧ fr' = inner.leave fr := by
  unfold braces
  rw [← bind_pure y]
  refine .get_bind (Refines.bind h ?_)
  intro inner flow b hb
  exact Refines.step_bind (inner.leave fr) ⟨⟩ rfl rfl (.pure ⟨inner, hb, rfl⟩)

theorem Runs.braces {y : Action V β} {body : List Stmt}
    (h : Runs isNull rounds call fr body y Q) :
    Refines fr (braces (execList isNull rounds call body)) y
      fun fr' flow b => flow = .next ∧ ∃ inner, Q inner b ∧ fr' = inner.leave fr := by
  refine (refines_braces h).mono ?_
  intro fr' flow b hb
  obtain ⟨inner, ⟨hf, hq⟩, he⟩ := hb
  exact ⟨hf, inner, hq, he⟩

theorem runs_branch_truthy {v : Variable} {x : V} {yes no : List Stmt} {y n : Action V β}
    (hx : fr.read? v = some x) (hy : Runs isNull rounds call fr yes y Q)
    (hn : Runs isNull rounds call fr no n Q) :
    Runs isNull rounds call fr [.branch (.truthy v) yes no]
      (test fr.env x >>= fun truth => if truth then y else n)
      fun fr' b => ∃ inner, Q inner b ∧ fr' = inner.leave fr := by
  refine .single ?_
  rw [Stmt.exec]
  unfold choose
  refine .get_bind (.need_bind hx ?_)
  refine Refines.lift_bind fun truth => ?_
  cases truth with
  | true => exact Runs.braces hy
  | false => exact Runs.braces hn

theorem runs_branch_isNull {v : Variable} {x : V} {yes no : List Stmt} {y n : Action V β}
    (hx : fr.read? v = some x) (hy : Runs isNull rounds call fr yes y Q)
    (hn : Runs isNull rounds call fr no n Q) :
    Runs isNull rounds call fr [.branch (.isNull v) yes no] (if isNull x then y else n)
      fun fr' b => ∃ inner, Q inner b ∧ fr' = inner.leave fr := by
  refine .single ?_
  rw [Stmt.exec]
  unfold choose readVariable
  simp only [bind_assoc]
  refine .get_bind (.need_bind hx ?_)
  cases isNull x with
  | true => exact Runs.braces hy
  | false => exact Runs.braces hn

/-- A statement that may leave the loop, and others after it. -/
theorem refines_breakIf {v : Variable} {x : V} {truthy : Bool} {ss : List Stmt}
    {last y : Action V β} {R : Frame V → Flow V → β → Prop} (hx : fr.read? v = some x)
    (hl : Refines fr (pure .broke) last R)
    (hs : Refines fr (execList isNull rounds call ss) y R) :
    Refines fr (execList isNull rounds call (.breakIf v truthy :: ss))
      (test fr.env x >>= fun truth => if truth = truthy then last else y) R := by
  rw [execList, Stmt.exec]
  simp only [bind_assoc]
  refine .get_bind (.need_bind hx ?_)
  refine Refines.lift_bind fun truth => ?_
  rw [pure_bind]
  by_cases ht : truth = truthy
  · rw [if_pos ht, if_pos ht]
    exact hl
  · rw [if_neg ht, if_neg ht]
    exact hs

/-- A loop whose body does one round and, if the braces around it close, leaves the frame as it
was. -/
theorem runs_forever {body : List Stmt} {round : Action V Bool}
    (hb : Refines fr (execList isNull rounds call body) round fun fr' flow again =>
      (flow = if again then .next else .broke) ∧ fr'.leave fr = fr) :
    Runs isNull rounds call fr [.forever body] (repeatRounds round rounds)
      fun fr' _ => fr' = fr := by
  refine .single ?_
  rw [Stmt.exec]
  have loop : ∀ n, Refines fr (loopRounds (braces (execList isNull rounds call body)) n)
      (repeatRounds round n) fun fr' flow _ => flow = .next ∧ fr' = fr := by
    intro n
    induction n with
    | zero => exact .throw
    | succ n ih =>
      unfold loopRounds repeatRounds
      refine Refines.bind (refines_braces hb) ?_
      intro fr' flow again h
      obtain ⟨inner, ⟨rfl, hl⟩, rfl⟩ := h
      rw [hl]
      cases again with
      | true => exact ih
      | false => exact .pure ⟨rfl, rfl⟩
  exact loop rounds

/-! ## Functions -/

/-- Statements that return what an action gives are a routine that does the action. -/
theorem runStmts_eq {entry : Invocation V} {body : List Stmt} {y : Action V V}
    (h : Returns isNull rounds call (Frame.start entry) body y) :
    runStmts isNull rounds call body entry = y := by
  have hb : Tree.Rel Eq
      (((execList isNull rounds call body).at (Frame.start entry)).bind fun r => .done (endOf r))
      (y.run.bind .done) := by
    refine Tree.Rel.bind h ?_
    intro r o hr
    cases hr with
    | @ok fr' flow value ho hf =>
      subst hf
      have he : fr'.opened.isEmpty = true := by rw [ho]; rfl
      refine .done ?_
      simp only [endOf, he, if_true]
    | @error fr' stop ho =>
      cases stop with
      | raised =>
        have he : fr'.opened.isEmpty = true := by rw [ho rfl]; rfl
        refine .done ?_
        simp only [endOf, he, if_true]
      | unfinished => exact .done rfl
      | stuck => exact .done rfl
  rw [Tree.bind_done] at hb
  exact hb.eq

end Statements
end ScriptCompiler.C
