import ScriptCompiler.Proofs.Runtime.Balance
import ScriptCompiler.Proofs.Syntax.Evaluation

/-!
# Evaluation closes its rescue scopes

Every scope that is opened while a tree is evaluated is closed on every way out of it, however its
protected bodies stand inside one another.
-/

namespace ScriptCompiler.Evaluation

open Lowering ScriptCompiler.Runtime

variable {V : Type} [DecidableEq V]

/-! ## Parts of the evaluation -/

theorem balanced_sendMessage (scope : Scope V) (receiver : Option V) (name : String)
    (passed : Runtime.Passed V) : Balanced (sendMessage scope receiver name passed) := by
  unfold sendMessage
  split
  · split
    · exact (Balanced.perform fun _ => rfl).bind fun _ => .perform fun _ => rfl
    · split
      · exact (Balanced.perform fun _ => rfl).bind fun _ => .perform fun _ => rfl
      · exact .perform fun _ => rfl
  · split
    · exact .perform fun _ => rfl
    · exact .perform fun _ => rfl

theorem balanced_bindAll (env : V) (block : Option V) {argument : Nat → Action V V}
    (h : ∀ index, Balanced (argument index)) (params : List Param) (index : Nat) :
    Balanced (bindAll env block argument index params) := by
  induction params generalizing index with
  | nil => exact .pure ()
  | cons param params ih =>
    cases param with
    | positional name =>
      refine (h index).bind fun value => ?_
      exact (Balanced.perform fun _ => rfl).bind fun _ => ih (index + 1)
    | block name =>
      refine (Balanced.perform fun _ => rfl).bind fun value => ?_
      exact (Balanced.perform fun _ => rfl).bind fun _ => ih index

theorem balanced_argumentOf (args : List V) (index : Nat) : Balanced (argumentOf args index) := by
  unfold argumentOf
  split
  · exact .pure _
  · exact .throw .stuck

theorem balanced_argumentOrNil (env : V) (args : List V) (index : Nat) :
    Balanced (argumentOrNil env args index) := by
  unfold argumentOrNil
  split
  · exact .pure _
  · exact .perform fun _ => rfl

theorem balanced_openMethod (name : String) (params : List Param) (env : V)
    (passed : Runtime.Passed V) : Balanced (openMethod name params env passed) := by
  refine (Balanced.expectCount env _ _).bind fun _ => ?_
  refine (Balanced.perform fun _ => rfl).bind fun env => ?_
  refine (Balanced.perform fun _ => rfl).bind fun symbol => ?_
  refine (Balanced.perform fun _ => rfl).bind fun _ => ?_
  refine (Balanced.perform fun _ => rfl).bind fun _ => ?_
  exact (balanced_bindAll env _ (balanced_argumentOf passed.args) params 0).bind fun _ => .pure env

theorem balanced_openBlock (params : List Param) (env : V) (passed : Runtime.Passed V) :
    Balanced (openBlock params env passed) := by
  refine (Balanced.perform fun _ => rfl).bind fun env => ?_
  exact (balanced_bindAll env _ (balanced_argumentOrNil env passed.args) params 0).bind
    fun _ => .pure env

theorem balanced_routine {opening : V → Runtime.Passed V → Action V V}
    {body : Scope V → Action V V} (ho : ∀ env passed, Balanced (opening env passed))
    (hb : ∀ scope, Balanced (body scope)) (entry : Invocation V) :
    Balanced (routine opening body entry) := by
  unfold routine
  split
  · exact .throw .stuck
  · exact (ho _ _).bind fun _ => hb _

theorem balanced_assignTo (scope : Scope V) (value : V) (target : Target) :
    Balanced (assignTo scope value target) := by
  cases target with
  | localVar name =>
    rw [assignTo]
    split
    · exact (Balanced.throw .stuck).bind fun _ =>
        (Balanced.perform fun _ => rfl).bind fun _ => .pure ()
    · exact (Balanced.perform fun _ => rfl).bind fun _ => .pure ()
  | instanceVar name => exact (Balanced.perform fun _ => rfl).bind fun _ => .pure ()
  | globalVar name => exact (Balanced.perform fun _ => rfl).bind fun _ => .pure ()

theorem balanced_defineRoutine (scope : Scope V) (owner : Option String) (name : String)
    {code : Routine V} (h : ∀ entry, Balanced (code entry)) :
    Balanced (defineRoutine scope owner name code) := by
  cases owner with
  | none => exact (Balanced.deliver h).bind fun _ => .pure ()
  | some owner =>
    have object : Balanced (ownerObject scope owner) := by
      unfold ownerObject
      split
      · exact .pure _
      · exact .perform fun _ => rfl
    exact object.bind fun _ => (Balanced.deliver h).bind fun _ => .pure ()

theorem balanced_namespace (isNull : V → Bool) (scope : Scope V) (name : String)
    {create : Action V V} (hc : Balanced create) {body : Scope V → Action V V}
    (hb : ∀ scope, Balanced (body scope)) :
    Balanced (namespaceObject isNull scope name create >>= fun object =>
      namespaceBody scope object body) := by
  have object : Balanced (namespaceObject isNull scope name create) := by
    refine (Balanced.perform fun _ => rfl).bind fun object => ?_
    split
    · exact hc.bind fun _ => (Balanced.perform fun _ => rfl).bind fun _ => .pure _
    · exact .pure _
  exact object.bind fun _ => (Balanced.perform fun _ => rfl).bind fun _ => hb _

theorem balanced_bindException (env : V) (variable_ : Option String) :
    Balanced (bindException env variable_) := by
  cases variable_ with
  | none => exact .pure ()
  | some name =>
    refine (Balanced.perform fun _ => rfl).bind fun exception => ?_
    exact (Balanced.perform fun _ => rfl).bind fun _ => .pure ()

/-- The scope of a protected body is closed on every way out of it. -/
theorem balanced_protectedBody (scope : Scope V) (variable_ : Option String)
    {body handler : Scope V → Action V V} {otherwise : Option (Scope V → Action V V)}
    (hb : ∀ scope, Balanced (body scope)) (hh : ∀ scope, Balanced (handler scope))
    (ho : ∀ f ∈ otherwise, ∀ scope, Balanced (f scope)) :
    Balanced (protectedBody scope variable_ body handler otherwise) := by
  refine (Balanced.perform fun _ => rfl).bind fun env => ?_
  refine .rescueScope env (hb _) (fun value => ?_)
    ((balanced_bindException env variable_).bind fun _ => hh _)
  cases otherwise with
  | none => exact .pure value
  | some f => exact ho f rfl _

theorem balanced_loopRound (scope : Scope V) (kind : LoopKind) {condition body : Action V V}
    (hc : Balanced condition) (hb : Balanced body) :
    Balanced (loopRound scope kind condition body) := by
  refine hc.bind fun value => ?_
  refine (Balanced.test _ value).bind fun truth => ?_
  split
  · exact .pure false
  · exact hb.bind fun _ => .pure true

/-! ## Nodes -/

variable (isNull : V → Bool) (rounds : Nat)

mutual

theorem balanced_eval (scope : Scope V) (node : Node) :
    Balanced (eval isNull rounds scope node) := by
  match node with
  | ⟨form, span⟩ =>
    rw [eval]
    exact balanced_evalForm scope form

theorem balanced_evalForm (scope : Scope V) (form : Form) :
    Balanced (evalForm isNull rounds scope form) := by
  cases form with
  | array elements =>
    rw [evalForm]
    refine (Balanced.perform fun _ => rfl).bind fun array => ?_
    exact (balanced_evalElements scope array elements).bind fun _ => .pure array
  | selfRef => exact .pure scope.self
  | assign target value =>
    rw [evalForm]
    refine (balanced_eval scope value).bind fun x => ?_
    exact (balanced_assignTo scope x target).bind fun _ => .pure x
  | classDef name superclass body =>
    rw [evalForm]
    exact balanced_namespace isNull scope name
      ((Balanced.perform fun _ => rfl).bind fun _ => .perform fun _ => rfl)
      fun scope => balanced_evalBody scope body
  | moduleDef name body =>
    rw [evalForm]
    exact balanced_namespace isNull scope name (.perform fun _ => rfl)
      fun scope => balanced_evalBody scope body
  | methodDef owner name params body =>
    rw [evalForm]
    refine Balanced.bind ?_ fun _ => .perform fun _ => rfl
    exact balanced_defineRoutine scope owner name
      (balanced_routine (balanced_openMethod name params) fun scope => balanced_evalBody scope body)
  | send receiver name args block =>
    rw [evalForm]
    refine (balanced_evalReceiver scope receiver).bind fun object => ?_
    refine (balanced_evalArgs scope args).bind fun values => ?_
    refine (balanced_evalBlock scope block).bind fun passedBlock => ?_
    exact balanced_sendMessage scope object name ⟨values, passedBlock⟩
  | conditional branches otherwise =>
    rw [evalForm]
    refine (Balanced.perform fun _ => rfl).bind fun nil => ?_
    exact balanced_evalBranches scope (balanced_evalOtherwise scope nil otherwise) branches
  | loop kind condition body =>
    rw [evalForm]
    refine Balanced.bind ?_ fun _ => .perform fun _ => rfl
    exact .repeatRounds (balanced_loopRound scope kind (balanced_eval scope condition)
      (balanced_evalBody scope body)) rounds
  | rescue body variable_ handler otherwise =>
    rw [evalForm]
    exact balanced_protectedBody scope variable_ (fun scope => balanced_evalBody scope body)
      (fun scope => balanced_evalBody scope handler) (balanced_evalElse otherwise)
  | directive kind path => exact .throw .stuck
  | unknown => exact .throw .stuck
  | _ => exact .perform fun _ => rfl

theorem balanced_evalBody (scope : Scope V) (nodes : List Node) :
    Balanced (evalBody isNull rounds scope nodes) := by
  match nodes with
  | [] => exact .perform fun _ => rfl
  | [last] =>
    rw [evalBody]
    exact balanced_eval scope last
  | first :: second :: nodes =>
    rw [evalBody]
    · exact (balanced_eval scope first).bind fun _ => balanced_evalBody scope (second :: nodes)
    · exact nofun

theorem balanced_evalElements (scope : Scope V) (array : V) (nodes : List Node) :
    Balanced (evalElements isNull rounds scope array nodes) := by
  match nodes with
  | [] => exact .pure ()
  | node :: nodes =>
    rw [evalElements]
    refine (balanced_eval scope node).bind fun value => ?_
    exact (Balanced.perform fun _ => rfl).bind fun _ => balanced_evalElements scope array nodes

theorem balanced_evalReceiver (scope : Scope V) (receiver : Option Node) :
    Balanced (evalReceiver isNull rounds scope receiver) := by
  match receiver with
  | none => exact .pure none
  | some node =>
    rw [evalReceiver]
    exact (balanced_eval scope node).bind fun value => .pure (some value)

theorem balanced_evalArgs (scope : Scope V) (nodes : List Node) :
    Balanced (evalArgs isNull rounds scope nodes) := by
  match nodes with
  | [] => exact .pure []
  | node :: nodes =>
    rw [evalArgs]
    refine (balanced_eval scope node).bind fun first => ?_
    exact (balanced_evalArgs scope nodes).bind fun others => .pure (first :: others)

theorem balanced_evalBlock (scope : Scope V) (block : Option Block) :
    Balanced (evalBlock isNull rounds scope block) := by
  match block with
  | none => exact .pure none
  | some ⟨params, body⟩ =>
    rw [evalBlock]
    refine Balanced.bind (.deliver ?_) fun value => .pure (some value)
    exact balanced_routine (balanced_openBlock params) fun scope => balanced_evalBody scope body

theorem balanced_evalBranches (scope : Scope V) {otherwise : Action V V} (h : Balanced otherwise)
    (branches : List Branch) : Balanced (evalBranches isNull rounds scope otherwise branches) := by
  match branches with
  | [] =>
    rw [evalBranches]
    exact h
  | ⟨condition, body⟩ :: branches =>
    rw [evalBranches]
    refine (balanced_eval scope condition).bind fun value => ?_
    refine (Balanced.test _ value).bind fun truth => ?_
    split
    · exact balanced_evalBody scope body
    · exact balanced_evalBranches scope h branches

theorem balanced_evalOtherwise (scope : Scope V) (nil : V) (otherwise : Option (List Node)) :
    Balanced (evalOtherwise isNull rounds scope nil otherwise) := by
  match otherwise with
  | none => exact .pure nil
  | some body =>
    rw [evalOtherwise]
    exact balanced_evalBody scope body

theorem balanced_evalElse (otherwise : Option (List Node)) :
    ∀ f ∈ evalElse isNull rounds otherwise, ∀ scope, Balanced (f scope) := by
  match otherwise with
  | none => exact nofun
  | some body =>
    rintro f hf scope
    obtain rfl := Option.mem_some_iff.1 hf
    exact balanced_evalBody scope body

end

end ScriptCompiler.Evaluation
