import ScriptCompiler.Proofs.C.Protection
import ScriptCompiler.Proofs.C.Rules
import ScriptCompiler.Proofs.Lowering.Numbering
import ScriptCompiler.Proofs.Syntax.Evaluation

/-!
# Frames and functions of generated code

The frames in which generated code can run, and the functions that surround bodies.
-/

/-!
## Frames of generated code

What generated code relies on when it runs: the variables that it will declare are not there yet,
and those that it declared stay as they are.
-/

namespace ScriptCompiler

open ScriptCompiler.Runtime

variable {V : Type}

/-! ### Frames between two states of a compilation -/

namespace Lowering

open C Evaluation

/-- A frame in which code that is generated from a state on can run in a scope: it has the scope's
environment and receiver, and none of the names that are still to be given out. -/
structure Ready (ctx : Context) (scope : Scope V) (fr : Frame V) : Prop where
  home : scope.home = none
  env : fr.env = scope.env
  self : fr.self = scope.self
  clear : ∀ base n, plainBase base = true → ctx.counter < n →
    fr.slots (Name.text ⟨ctx.lead, base, n⟩) = none

/-- Code that was generated between two states ran from one frame to another. -/
structure Reached (ctx : Context) (scope : Scope V) (fr fr' : Frame V) : Prop where
  extends_ : fr.Extends fr'
  ready : Ready ctx scope fr'

variable {ctx ctx' : Context} {scope : Scope V} {fr fr' fr'' : Frame V}

namespace Ready

/-- A function that is entered has no variables. -/
theorem start (ctx : Context) (env self : V) (passed : Option (Runtime.Passed V)) :
    Ready ctx (.inner env self) (Frame.start ⟨env, self, passed⟩) :=
  ⟨rfl, rfl, rfl, fun _ _ _ _ => rfl⟩

theorem name (h : Ready ctx scope fr) {base : String} (hb : plainBase base = true) :
    fr.slots (ctx.name base).text = none :=
  h.clear base _ hb (Nat.lt_succ_self _)

theorem variable_ (h : Ready ctx scope fr) {base : String} (hb : plainBase base = true) :
    fr.slots (ctx.variable_ base).text = none :=
  h.name hb

/-- Code that is generated later can run in the same frame. -/
theorem later (h : Ready ctx scope fr) (hl : ctx'.lead = ctx.lead)
    (hc : ctx.counter ≤ ctx'.counter) : Ready ctx' scope fr where
  home := h.home
  env := h.env
  self := h.self
  clear base n hb hn := by
    rw [hl]
    exact h.clear base n hb (Nat.lt_of_le_of_lt hc hn)

theorem numbered (h : Ready ctx scope fr) {names : List Name} (hn : Numbered ctx ctx' names) :
    Ready ctx' scope fr :=
  h.later hn.lead hn.le

theorem next (h : Ready ctx scope fr) : Ready ctx.next scope fr :=
  h.later rfl (Nat.le_succ _)

/-- The variable with the name that is given out. -/
theorem put (h : Ready ctx scope fr) {base : String} (hb : plainBase base = true)
    (slot : Slot V) : Ready ctx.next scope (fr.put (ctx.name base).text slot) where
  home := h.home
  env := h.env
  self := h.self
  clear other n ho hn := by
    have hne : Name.text ⟨ctx.lead, other, n⟩ ≠ (ctx.name base).text := by
      intro he
      have hname : (⟨ctx.lead, other, n⟩ : Name) = ctx.name base :=
        Name.text_injective rfl ho hb he
      have hnum : n = ctx.counter + 1 := congrArg Name.number hname
      exact absurd hn (by rw [hnum]; exact Nat.lt_irrefl _)
    exact (Frame.slots_put_of_ne _ hne).trans (h.clear other n ho (Nat.lt_of_succ_lt hn))

/-- A variable that is there already gets another value. -/
theorem assign (h : Ready ctx scope fr) {name : String} (hn : (fr.slots name).isSome = true)
    (slot : Slot V) : Ready ctx scope (fr.put name slot) where
  home := h.home
  env := h.env
  self := h.self
  clear base n hb hlt := by
    have hne : Name.text ⟨ctx.lead, base, n⟩ ≠ name := by
      intro he
      rw [← he, h.clear base n hb hlt] at hn
      cases hn
    rw [Frame.slots_put_of_ne _ hne]
    exact h.clear base n hb hlt

theorem reached (h : Ready ctx scope fr) : Reached ctx scope fr fr :=
  ⟨.refl fr, h⟩

end Ready

namespace Reached

theorem trans (h : Reached ctx scope fr fr') (h' : Reached ctx' scope fr' fr'') :
    Reached ctx' scope fr fr'' :=
  ⟨h.extends_.trans h'.extends_, h'.ready⟩

/-- A variable with the name that is given out is declared. -/
theorem put (h : Ready ctx scope fr) {base : String} (hb : plainBase base = true)
    (slot : Slot V) : Reached ctx.next scope fr (fr.put (ctx.name base).text slot) :=
  ⟨.put (h.name hb) slot, h.put hb slot⟩

/-- A variable that is declared with a value holds it. -/
theorem declare (h : Ready ctx scope fr) {base : String} (hb : plainBase base = true) (x : V) :
    Reached ctx.next scope fr (fr.put (ctx.variable_ base).text (.object x))
      ∧ (fr.put (ctx.variable_ base).text (.object x)).read? (ctx.variable_ base) = some x := by
  have hv : ctx.variable_ base ≠ .self := nofun
  exact ⟨put h hb _, Frame.read?_put_self hv x⟩

end Reached

end Lowering

end ScriptCompiler

/-!
## Functions of generated code

What surrounds the bodies that become functions: how a function is found by its name, what a method
and a block do before their body, what surrounds a protected body, and how arguments are put into a
vector.
-/

namespace ScriptCompiler.Lowering

open C Evaluation ScriptCompiler.Runtime

variable {V : Type} {isNull : V → Bool} {rounds : Nat}

theorem rel_imp {α β : Type*} {R S : α → β → Prop} (h : ∀ a b, R a b → S a b) {a : Option α}
    {b : Option β} (hr : Option.Rel R a b) : Option.Rel S a b := by
  cases hr with
  | some hr => exact .some (h _ _ hr)
  | none => exact .none

/-! ### Finding functions -/

/-- Functions that are found by their names in a file, and a depth of calls that is enough for
them. -/
structure Linked (file : List Function) (depth : Nat) (functions : List Function) : Prop where
  found : ∀ f ∈ functions, file.find? (·.name.text = f.name.text) = some f
  deep : functions.length ≤ depth

section Finding

variable [DecidableEq V]

namespace Linked

variable {file a b : List Function} {depth : Nat}

theorem left (h : Linked file depth (a ++ b)) : Linked file depth a :=
  ⟨fun f hf => h.found f (List.mem_append_left b hf), by
    have := h.deep
    rw [List.length_append] at this
    omega⟩

theorem right (h : Linked file depth (a ++ b)) : Linked file depth b :=
  ⟨fun f hf => h.found f (List.mem_append_right a hf), by
    have := h.deep
    rw [List.length_append] at this
    omega⟩

/-- A function runs with one call less to go, which is enough for the functions before it. -/
theorem enter_last {f : Function} (h : Linked file depth (a ++ [f])) (isNull : V → Bool)
    (rounds : Nat) : ∃ d, Linked file d a
      ∧ enter isNull rounds file depth f.name
        = f.run isNull rounds (enter isNull rounds file d) := by
  cases depth with
  | zero =>
    have := h.deep
    simp at this
  | succ d =>
    refine ⟨d, ⟨h.left.found, ?_⟩, ?_⟩
    · have := h.deep
      rw [List.length_append, List.length_singleton] at this
      omega
    · funext entry
      unfold enter
      rw [h.found f (List.mem_append_right a List.mem_cons_self)]

/-- Functions with pairwise distinct spellings are found in their own file. -/
theorem of_nodup {file : List Function} (h : ((namesOf file).map Name.text).Nodup)
    {depth : Nat} (hd : file.length ≤ depth) : Linked file depth file := by
  refine ⟨?_, hd⟩
  intro f hf
  clear hd
  induction file with
  | nil => cases hf
  | cons g rest ih =>
    simp only [namesOf, List.map_cons, List.nodup_cons, List.mem_map] at h
    rw [List.find?_cons]
    rcases List.mem_cons.mp hf with rfl | hf
    · simp
    · have hne : g.name.text ≠ f.name.text := fun he =>
        h.1 ⟨f.name, ⟨f, hf, rfl⟩, he.symm⟩
      simp only [hne, decide_false]
      exact ih (by simpa [namesOf] using h.2) hf

end Linked

/-- The function of a scope runs on the given environment and receiver. -/
theorem call_hoisted (isNull : V → Bool) (rounds : Nat) {file : List Function} {depth : Nat}
    {name : Name} {code : Code} (body : Scope V → Action V V)
    (linked : Linked file depth (hoist name .scoped [] code))
    (returns : ∀ d, Linked file d code.functions → ∀ env self,
      Returns isNull rounds (enter isNull rounds file d) (Frame.start ⟨env, self, none⟩)
        code.stmts (body (.inner env self))) (env self : V) :
    enter isNull rounds file depth name ⟨env, self, none⟩ = body (.inner env self) := by
  obtain ⟨d, hd, he⟩ := linked.enter_last isNull rounds
  have hr : enter isNull rounds file depth name ⟨env, self, none⟩
      = runStmts isNull rounds (enter isNull rounds file d) code.stmts ⟨env, self, none⟩ :=
    congrFun he _
  rw [hr]
  exact runStmts_eq (returns d hd env self)

/-- The function of a method or block runs what its body does after its opening. -/
theorem enter_hoisted (isNull : V → Bool) (rounds : Nat) {file : List Function} {depth : Nat}
    {name : Name} {code : Code} {before : List Stmt} (opening : V → Runtime.Passed V → Action V V)
    (body : Scope V → Action V V) (linked : Linked file depth (hoist name .method before code))
    (opens : ∀ (call : Name → Routine V) env self passed,
      Runs isNull rounds call (Frame.start ⟨env, self, some passed⟩) before (opening env passed)
        fun fr' x => fr' = Frame.start ⟨x, self, some passed⟩)
    (returns : ∀ d, Linked file d code.functions → ∀ env self passed,
      Returns isNull rounds (enter isNull rounds file d) (Frame.start ⟨env, self, some passed⟩)
        code.stmts (body (.inner env self))) :
    enter isNull rounds file depth name = routine opening body := by
  obtain ⟨d, hd, he⟩ := linked.enter_last isNull rounds
  rw [he]
  funext entry
  obtain ⟨env, self, passed⟩ := entry
  cases passed with
  | none => rfl
  | some passed =>
    refine runStmts_eq ((opens _ env self passed).returns ?_)
    rintro _ x rfl
    exact returns d hd x self passed

end Finding

/-! ### Openings -/

section Openings

variable {call : Name → Routine V} {fr : Frame V} {passed : Runtime.Passed V}

theorem hasValue_argument (hp : fr.passed = some passed) (index : Nat) :
    HasValue call fr (.argument index) (argumentOf passed.args index) := by
  unfold HasValue argumentOf
  rw [Expr.value]
  unfold formals
  rw [bind_assoc, Exec.at_get_bind, hp, need_some, pure_bind]
  cases passed.args[index]? with
  | none => rfl
  | some value => rfl

theorem hasValue_argumentOrNil (hp : fr.passed = some passed) (index : Nat) :
    HasValue call fr (.argumentOrNil index) (argumentOrNil fr.env passed.args index) := by
  unfold HasValue argumentOrNil
  rw [Expr.value]
  unfold formals
  rw [bind_assoc, Exec.at_get_bind, hp, need_some, pure_bind]
  cases passed.args[index]? with
  | none => rfl
  | some value => rfl

theorem hasValue_passedBlock (hp : fr.passed = some passed) :
    HasValue call fr .passedBlock (perform (.proc fr.env passed.block)) := by
  unfold HasValue
  rw [Expr.value]
  unfold formals
  rw [bind_assoc, Exec.at_get_bind, hp, need_some, pure_bind, Exec.at_get_bind]

variable [DecidableEq V]

theorem runs_bindParams (hp : fr.passed = some passed) {argument : Nat → Expr}
    {value : Nat → Action V V} (hv : ∀ i, HasValue call fr (argument i) (value i))
    (params : List Param) (index : Nat) :
    Runs isNull rounds call fr (bindParams argument index params)
      (bindAll fr.env passed.block value index params) fun fr' _ => fr' = fr := by
  induction params generalizing index with
  | nil => exact .nil rfl
  | cons p params ih =>
    cases p with
    | positional name =>
      rw [bindParams, bindAll, ← bind_assoc]
      refine (runs_declareLocal (hv index)).append ?_
      rintro _ _ rfl
      exact ih (index + 1)
    | block name =>
      rw [bindParams, bindAll, ← bind_assoc]
      refine (runs_declareLocal (hasValue_passedBlock hp)).append ?_
      rintro _ _ rfl
      exact ih index

theorem runs_methodEntry {env self : V} (name : String) (params : List Param) :
    Runs isNull rounds call (Frame.start ⟨env, self, some passed⟩) (methodEntry name params)
      (openMethod name params env passed)
      fun fr' x => fr' = Frame.start ⟨x, self, some passed⟩ := by
  have hp : ∀ x, (Frame.start ⟨x, self, some passed⟩ : Frame V).passed = some passed :=
    fun _ => rfl
  unfold methodEntry openMethod
  simp only [List.append_assoc]
  refine (runs_unused (hp env)).skip ?_
  rintro _ _ rfl
  have hu : Runs isNull rounds call (Frame.start ⟨env, self, some passed⟩)
      (if positionalCount params = 0 then [.unused .args] else []) (pure ())
      fun fr' _ => fr' = Frame.start ⟨env, self, some passed⟩ := by
    split
    · exact runs_unused (hp env)
    · exact .nil rfl
  refine hu.skip ?_
  rintro _ _ rfl
  refine (runs_assertArgc (hp env)).append (a := [_]) ?_
  rintro _ _ rfl
  refine runs_enterEnv.append (a := [_]) ?_
  rintro _ x rfl
  rw [← bind_assoc]
  refine (runs_declareLocal (hasValue_symbol name)).append (a := [_]) ?_
  rintro _ _ rfl
  refine (runs_setBlock (hp x)).append (a := [_]) ?_
  rintro _ _ rfl
  refine Runs.map (runs_bindParams (hp x) (hasValue_argument (hp x)) params 0) ?_
  rintro _ _ rfl
  rfl

theorem runs_blockEntry {env self : V} (params : List Param) :
    Runs isNull rounds call (Frame.start ⟨env, self, some passed⟩) (blockEntry params)
      (openBlock params env passed)
      fun fr' x => fr' = Frame.start ⟨x, self, some passed⟩ := by
  have hp : ∀ x, (Frame.start ⟨x, self, some passed⟩ : Frame V).passed = some passed :=
    fun _ => rfl
  unfold blockEntry openBlock
  simp only [List.append_assoc]
  have hu : Runs isNull rounds call (Frame.start ⟨env, self, some passed⟩)
      (if positionalCount params = 0 then [.unused .argc, .unused .args] else []) (pure ())
      fun fr' _ => fr' = Frame.start ⟨env, self, some passed⟩ := by
    split
    · refine (runs_unused (hp env)).skip (a := [_]) ?_
      rintro _ _ rfl
      exact runs_unused (hp env)
    · exact .nil rfl
  refine hu.skip ?_
  rintro _ _ rfl
  refine (runs_unused (hp env)).skip (a := [_]) ?_
  rintro _ _ rfl
  refine runs_enterBlockEnv.append (a := [_]) ?_
  rintro _ x rfl
  refine Runs.map (runs_bindParams (hp x) (hasValue_argumentOrNil (hp x)) params 0) ?_
  rintro _ _ rfl
  rfl

end Openings

/-! ### Messages -/

section Messages

variable {call : Name → Routine V} {fr : Frame V} {scope : Scope V}

/-- The call of a message. -/
theorem hasValue_callOf {rv : Option Variable} {receiver : Option V} {name : String} {p : Passed}
    {passed : Runtime.Passed V} (hr : Option.Rel (fun v x => fr.read? v = some x) rv receiver)
    (hp : fr.passed? p = some passed) (he : fr.env = scope.env) (hs : fr.self = scope.self) :
    HasValue call fr (callOf rv name p) (sendMessage scope receiver name passed) := by
  cases hr with
  | none =>
    by_cases hsuper : name = "super"
    · simp only [callOf, sendMessage, if_pos hsuper, ← he, ← hs]
      exact hasValue_callSuper hp
    · by_cases hyield : name = "yield"
      · simp only [callOf, sendMessage, if_neg hsuper, if_pos hyield, ← he]
        exact hasValue_runBlock hp
      · simp only [callOf, sendMessage, if_neg hsuper, if_neg hyield, ← he, ← hs]
        exact hasValue_lookupOrSend rfl hp
  | some hr =>
    by_cases hupper : Token.startsUpper name = true
    · simp only [callOf, sendMessage, if_pos hupper, ← he]
      exact hasValue_lookupOrSend hr hp
    · simp only [callOf, sendMessage, if_neg hupper, ← he]
      exact hasValue_send hr hp

variable [DecidableEq V]

/-- Filling a vector from an entry on gives it all the values. -/
theorem runs_storeArgs {array : Name} {vars : List Variable} {xs : List V}
    (hv : List.Forall₂ (fun v x => fr.read? v = some x) vars xs) (before : List (Option V))
    (ha : fr.slots array.text = some (.vector (before ++ List.replicate vars.length none))) :
    Runs isNull rounds call fr (storeArgs array before.length vars) (pure ())
      fun fr' _ => fr' = fr.put array.text (.vector (before ++ xs.map some)) := by
  induction vars generalizing fr xs before with
  | nil =>
    cases hv
    exact .nil (Frame.put_same ha).symm
  | cons v vars ih =>
    cases hv with
    | @cons _ x _ xs hx hxs =>
      have hl : before.length < (before ++ List.replicate (vars.length + 1) none).length := by
        simp
      have hset : (before ++ List.replicate (vars.length + 1) none).set before.length (some x)
          = (before ++ [some x]) ++ List.replicate vars.length none := by
        simp [List.replicate_succ]
      have hlen : (before ++ [some x]).length = before.length + 1 := by simp
      rw [storeArgs, ← hlen]
      refine (runs_storeArg hx ha hl).skip (a := [_]) ?_
      rintro _ _ rfl
      rw [List.length_cons, hset]
      refine (ih (hxs.imp fun _ _ h => Frame.read?_put_vector ha h) (before ++ [some x])
        (Frame.slots_put_self _ _)).mono ?_
      rintro fr' _ rfl
      rw [Frame.put_put, List.append_assoc]
      rfl

/-- The vector of arguments holds their values. -/
theorem runs_marshal {ctx ctx' : Context} {vars : List Variable} {stmts : List Stmt}
    {argv : ArgVector} {xs : List V} (h : marshal vars ctx = (.ok (stmts, argv), ctx'))
    (ready : Ready ctx scope fr) (hv : List.Forall₂ (fun v x => fr.read? v = some x) vars xs) :
    Runs isNull rounds call fr stmts (pure ())
      fun fr' _ => Reached ctx' scope fr fr' ∧ fr'.vector? argv = some xs := by
  rcases marshal_ok h with ⟨rfl, rfl, rfl, rfl⟩ | ⟨arg, rfl, rfl, rfl, rfl⟩ | ⟨-, rfl, rfl, rfl⟩
  · cases hv
    exact .nil ⟨ready.reached, rfl⟩
  · cases hv with
    | @cons _ x _ _ hx hn =>
      cases hn
      refine .nil ⟨ready.reached, ?_⟩
      simp only [Frame.vector?, hx, Option.map_some]
  · have hp : plainBase "args" = true := by decide
    refine (runs_declareArgs (ready.name hp)).skip (a := [_]) ?_
    rintro _ _ rfl
    have hr := Reached.put ready hp (.vector (List.replicate vars.length none))
    refine (runs_storeArgs (hv.imp fun _ _ hx => hr.extends_.read? hx) []
      (Frame.slots_put_self _ _)).mono ?_
    rintro _ _ rfl
    rw [Frame.put_put]
    refine ⟨Reached.put ready hp _, ?_⟩
    simp only [Frame.vector?, Frame.slots_put_self, List.nil_append]
    clear h hv hr
    induction xs with
    | nil => rfl
    | cons x xs ih => simp [ih]

end Messages

/-! ### Assignments and definitions -/

section Definitions

variable [DecidableEq V] {call : Name → Routine V} {ctx : Context} {scope : Scope V} {fr : Frame V}

theorem runs_storeStmt (ready : Ready ctx scope fr) {value : Variable} {x : V}
    (hx : fr.read? value = some x) (target : Target) :
    Runs isNull rounds call fr [storeStmt value target] (assignTo scope x target)
      fun fr' _ => fr' = fr := by
  cases target with
  | localVar name =>
    have h : Runs isNull rounds call fr [.setLocal name (.variable_ value)] _ _ :=
      (runs_setLocal (hasValue_variable hx)).map (f := fun _ => ()) (R := fun fr' _ => fr' = fr)
        fun _ _ hq => hq
    simp only [pure_bind, ready.env] at h
    simpa only [storeStmt, assignTo, ready.home, Option.any_none, Bool.false_eq_true, if_false,
      pure_bind] using h
  | instanceVar name =>
    rw [assignTo, ← ready.env, ← ready.self]
    exact (runs_setInstance hx).map fun _ _ hq => hq
  | globalVar name =>
    rw [assignTo, ← ready.env]
    exact (runs_setGlobal hx).map fun _ _ hq => hq

theorem runs_defineOn (ready : Ready ctx scope fr) (owner : Option String) (name : String)
    (function : Name) :
    Runs isNull rounds call fr [defineOn owner name function]
      (defineRoutine scope owner name (call function)) fun fr' _ => fr' = fr := by
  cases owner with
  | none =>
    rw [defineRoutine, ← ready.env, ← ready.self]
    have h : Runs isNull rounds call fr [.defineMethod name function] _ _ := runs_defineMethod
    exact h.map fun _ _ hq => hq
  | some owner =>
    have hv : HasValue call fr (if owner = "self" then .variable_ .self else .getLocal owner)
        (ownerObject scope owner) := by
      unfold ownerObject
      rw [← ready.env, ← ready.self]
      split
      · exact hasValue_variable rfl
      · exact hasValue_getLocal owner
    have h : Runs isNull rounds call fr [.defineSingleton _ name function] _ _ :=
      runs_defineSingleton hv
    rw [ready.env] at h
    rw [defineRoutine, ← bind_assoc]
    exact h.map fun _ _ hq => hq

/-- A class or module is found or created, and its body runs with it as the receiver. -/
theorem runs_namespace (ready : Ready ctx scope fr) {ns : Namespace} {function : Name}
    {create : Action V V} {body : Scope V → Action V V} (ho : plainBase ns.base = true)
    (hr : plainBase (ns.base ++ "_result") = true)
    (hc : ∀ fr' : Frame V, fr'.env = scope.env → HasValue call fr' ns.create create)
    (hb : ∀ env object, call function ⟨env, object, none⟩ = body (.inner env object)) :
    Runs isNull rounds call fr (ns.stmts function (ctx.variable_ ns.base)
        (ctx.next.variable_ (ns.base ++ "_result")))
      (namespaceObject isNull scope ns.name create >>= fun object =>
        namespaceBody scope object body)
      fun fr' x => Reached ctx.next.next scope fr fr'
        ∧ fr'.read? (ctx.next.variable_ (ns.base ++ "_result")) = some x := by
  unfold Namespace.stmts namespaceObject
  rw [bind_assoc, ← ready.env]
  refine (runs_declare (hasValue_lookup ns.name) (ready.variable_ ho)).append (a := [_]) ?_
  rintro _ object rfl
  have found : ∀ x : V,
      (fr.put (ctx.variable_ ns.base).text (.object x)).slots (ctx.variable_ ns.base).text
        = some (.object x) := fun x => Frame.slots_put_self _ _
  have read : ∀ x : V, (fr.put (ctx.variable_ ns.base).text (.object x)).read?
      (ctx.variable_ ns.base) = some x := fun x => (Reached.declare ready ho x).2
  have created : Runs isNull rounds call (fr.put (ctx.variable_ ns.base).text (.object object))
      [.assign (ctx.variable_ ns.base) ns.create,
        .setLocal ns.name (.variable_ (ctx.variable_ ns.base))]
      (create >>= fun x => perform (.setLocal fr.env ns.name x) >>= fun _ => pure x)
      fun fr' x => fr' = fr.put (ctx.variable_ ns.base).text (.object x) := by
    refine (runs_assign (hc (fr.put (ctx.variable_ ns.base).text (.object object)) ready.env)
      (found object)).append (a := [_]) ?_
    rintro _ x rfl
    have h : Runs isNull rounds call
        ((fr.put (ctx.variable_ ns.base).text (.object object)).put (ctx.variable_ ns.base).text
          (.object x)) [.setLocal ns.name (.variable_ (ctx.variable_ ns.base))] _ _ :=
      runs_setLocal (hasValue_variable (by rw [Frame.put_put]; exact read x))
    rw [pure_bind] at h
    refine h.map ?_
    rintro _ _ rfl
    exact Frame.put_put _ _ _
  have missing : Runs isNull rounds call (fr.put (ctx.variable_ ns.base).text (.object object)) []
      (pure object) fun fr' x => fr' = fr.put (ctx.variable_ ns.base).text (.object x) := .nil rfl
  refine (runs_branch_isNull (read object) created missing).append
    (a := [_]) ?_
  rintro _ x ⟨_, rfl, rfl⟩
  have hl : (fr.put (ctx.variable_ ns.base).text (.object x)).leave
      (fr.put (ctx.variable_ ns.base).text (.object object))
        = fr.put (ctx.variable_ ns.base).text (.object x) := by
    have hs : ((fr.put (ctx.variable_ ns.base).text (.object object)).slots
        (ctx.variable_ ns.base).text).isSome = true := by rw [found]; rfl
    have he : (fr.put (ctx.variable_ ns.base).text (.object x)).leave
        (fr.put (ctx.variable_ ns.base).text (.object object)) = _ :=
      Frame.Extends.leave_put_eq hs (by rw [Frame.put_put]; exact .refl _)
    rw [he, Frame.put_put]
  rw [hl]
  obtain ⟨reached, -⟩ := Reached.declare ready ho x
  have hv : HasValue call (fr.put (ctx.variable_ ns.base).text (.object x))
      (.callInside function (ctx.variable_ ns.base)) _ :=
    hasValue_callInside (read x)
  simp only [hb] at hv
  unfold namespaceBody
  rw [← ready.env]
  refine (runs_declare hv (reached.ready.variable_ hr)).mono ?_
  rintro _ y rfl
  obtain ⟨reached', hread⟩ := Reached.declare reached.ready hr y
  exact ⟨reached.trans reached', hread⟩

end Definitions

/-! ### Protected bodies -/

/-- What the wrapper does with what its protected body raised: it names the exception if the
program does, and calls the handler. -/
theorem returns_handler [DecidableEq V] (isNull : V → Bool) (rounds : Nat)
    {call : Name → Routine V} {onError : Name} {handler : Scope V → Action V V}
    (hh : ∀ env self, call onError ⟨env, self, none⟩ = handler (.inner env self))
    (variable_ : Option String) (env self : V) :
    Returns isNull rounds call (Frame.start ⟨env, self, none⟩)
      ((match variable_ with
        | some name => [.setLocal name .exception]
        | none => []) ++ [.return_ (.callHere onError)])
      (bindException env variable_ >>= fun _ => handler (.inner env self)) := by
  have called : Returns isNull rounds call (Frame.start ⟨env, self, none⟩)
      [.return_ (.callHere onError)] (handler (.inner env self)) := by
    rw [← hh]
    exact returns_return (hasValue_callHere onError)
  cases variable_ with
  | none =>
    rw [bindException, pure_bind]
    exact called
  | some name =>
    simp only [bindException, bind_assoc, pure_bind]
    rw [← bind_assoc]
    refine (runs_setLocal hasValue_exception).returns ?_
    rintro _ _ rfl
    exact called

/-- The function around a protected body does what the evaluation of the protected body does. -/
theorem runStmts_rescueWrapper [DecidableEq V] (isNull : V → Bool) (rounds : Nat)
    {call : Name → Routine V} {protected_ onError : Name} {otherwise : Option Name}
    (body handler : Scope V → Action V V) {after : Option (Scope V → Action V V)}
    (hb : ∀ env self, call protected_ ⟨env, self, none⟩ = body (.inner env self))
    (hh : ∀ env self, call onError ⟨env, self, none⟩ = handler (.inner env self))
    (ho : Option.Rel (fun name (f : Scope V → Action V V) =>
      ∀ env self, call name ⟨env, self, none⟩ = f (.inner env self)) otherwise after)
    (variable_ : Option String) (env self : V) :
    runStmts isNull rounds call (rescueWrapper protected_ onError otherwise variable_)
        ⟨env, self, none⟩
      = protectedBody (.inner env self) variable_ body handler after := by
  refine runStmts_eq ?_
  unfold rescueWrapper protectedBody
  simp only [List.cons_append, List.nil_append]
  refine runs_enterBlockEnv.returns (a := [_]) ?_
  rintro _ x rfl
  have calls : ∀ {name : Name} {f : Scope V → Action V V},
      (∀ env self, call name ⟨env, self, none⟩ = f (.inner env self)) →
        ∀ fr : Frame V, fr.env = x → fr.self = self →
          HasValue call fr (.callHere name) (f (.inner x self)) := by
    rintro name f hf fr rfl rfl
    rw [← hf]
    exact hasValue_callHere name
  have inside := closes_closeRescue (returns_handler isNull rounds hh variable_ x self)
  cases ho with
  | none =>
    refine returns_rescueOpens (at_declare (calls hb _ rfl rfl) rfl) ?_ inside
    intro value
    have hv : (((Frame.start ⟨x, self, none⟩).put "result" (.object value)).read? .outcome)
        = some value := Frame.read?_object (by decide) (Frame.slots_put_self _ _)
    have h : Returns isNull rounds call _ _ _ := returns_return (hasValue_variable hv)
    exact closes_closeRescue h
  | some hf =>
    refine returns_rescueOpens (at_discard (calls hb _ rfl rfl)) ?_ inside
    intro value
    have h : Returns isNull rounds call (Frame.start ⟨x, self, none⟩) _ _ :=
      returns_return (calls hf _ rfl rfl)
    exact closes_closeRescue h

end ScriptCompiler.Lowering
