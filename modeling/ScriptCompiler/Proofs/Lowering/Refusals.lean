import ScriptCompiler.Proofs.Lowering.Derivation
import ScriptCompiler.Proofs.Syntax.Trees

/-!
# What lowering refuses

A tree is refused for a node of an unknown kind, for a directive that was left in it, and for a
parameter that receives the block and is not the last one. A tree with none of these is lowered, in
every state; of several the one that lowering comes to first is reported, and nothing else ever is.
-/

namespace ScriptCompiler.Lowering

open C

/-! ## Refusals of a tree -/

namespace Refusals

/-- What is refused in a parameter list: at most its first parameter in a wrong place. -/
def ofParams (owner : ParamOwner) (params : List Param) : List Failure :=
  ((misplacedBlock? params).map fun p => .blockParamNotLast owner p.name).toList

mutual

/-- What is refused in a node. -/
def ofNode : Node → List Failure
  | ⟨form, span⟩ => ofForm span form

/-- What is refused in a node of a form that stands at a span, in the order of lowering: the
parameters before the body that they belong to, and the body of a loop before its condition. -/
def ofForm (span : Span) : Form → List Failure
  | .directive kind path => [.unexpandedDirective kind path]
  | .unknown => [.unknownNode span]
  | .array elements => ofNodes elements
  | .assign _ value => ofNode value
  | .classDef _ _ body => ofNodes body
  | .moduleDef _ body => ofNodes body
  | .methodDef _ name params body => ofParams (.method name) params ++ ofNodes body
  | .send receiver name args block => ofReceiver receiver ++ ofNodes args ++ ofBlock name block
  | .conditional branches otherwise => ofBranches branches ++ ofOptional otherwise
  | .loop _ condition body => ofNodes body ++ ofNode condition
  | .rescue body _ handler otherwise => ofNodes body ++ ofNodes handler ++ ofOptional otherwise
  | .integer _ | .str _ | .symbol _ | .selfRef | .localVar _ | .instanceVar _ | .globalVar _ => []

/-- What is refused in nodes one after the other. -/
def ofNodes : List Node → List Failure
  | [] => []
  | node :: nodes => ofNode node ++ ofNodes nodes

/-- What is refused in a receiver. -/
def ofReceiver : Option Node → List Failure
  | none => []
  | some node => ofNode node

/-- What is refused in a body that may be missing. -/
def ofOptional : Option (List Node) → List Failure
  | none => []
  | some body => ofNodes body

/-- What is refused in the block of a message. -/
def ofBlock (message : String) : Option Block → List Failure
  | none => []
  | some ⟨params, body⟩ => ofParams (.block message) params ++ ofNodes body

/-- What is refused in branches. -/
def ofBranches : List Branch → List Failure
  | [] => []
  | ⟨condition, body⟩ :: branches => ofNode condition ++ ofNodes body ++ ofBranches branches

end

theorem ofNode_eq (node : Node) : ofNode node = ofForm node.span node.form := by
  obtain ⟨form, span⟩ := node
  rw [ofNode]

theorem ofForm_of_isAtom {form : Form} (h : form.isAtom = true) (known : form ≠ .unknown)
    (span : Span) : ofForm span form = [] := by
  cases form <;> simp_all [Form.isAtom, ofForm]

theorem ofNodes_append (xs ys : List Node) : ofNodes (xs ++ ys) = ofNodes xs ++ ofNodes ys := by
  induction xs with
  | nil => rw [List.nil_append, ofNodes, List.nil_append]
  | cons node nodes ih => rw [List.cons_append, ofNodes, ofNodes, ih, List.append_assoc]

/-! ### All refusals -/

section All

variable {Q : Failure → Prop}

theorem forall_ofNodes {nodes : List Node} (h : ∀ node ∈ nodes, ∀ f ∈ ofNode node, Q f) :
    ∀ f ∈ ofNodes nodes, Q f := by
  induction nodes with
  | nil =>
    rw [ofNodes]
    nofun
  | cons node nodes ih =>
    rw [List.forall_mem_cons] at h
    rw [ofNodes, List.forall_mem_append]
    exact ⟨h.1, ih h.2⟩

theorem forall_ofReceiver {receiver : Option Node}
    (h : ∀ node ∈ receiver, ∀ f ∈ ofNode node, Q f) : ∀ f ∈ ofReceiver receiver, Q f := by
  cases receiver with
  | none =>
    rw [ofReceiver]
    nofun
  | some node =>
    rw [ofReceiver]
    exact h node rfl

theorem forall_ofOptional {body : Option (List Node)}
    (h : ∀ nodes ∈ body, ∀ node ∈ nodes, ∀ f ∈ ofNode node, Q f) :
    ∀ f ∈ ofOptional body, Q f := by
  cases body with
  | none =>
    rw [ofOptional]
    nofun
  | some nodes =>
    rw [ofOptional]
    exact forall_ofNodes (h nodes rfl)

theorem forall_ofBlock {message : String} {block : Option Block}
    (hp : ∀ b ∈ block, ∀ f ∈ ofParams (.block message) b.params, Q f)
    (h : ∀ b ∈ block, ∀ node ∈ b.body, ∀ f ∈ ofNode node, Q f) :
    ∀ f ∈ ofBlock message block, Q f := by
  rcases block with _ | ⟨params, body⟩
  · rw [ofBlock]
    nofun
  · rw [ofBlock, List.forall_mem_append]
    exact ⟨hp _ rfl, forall_ofNodes (h _ rfl)⟩

theorem forall_ofBranches {branches : List Branch}
    (h : ∀ branch ∈ branches, (∀ f ∈ ofNode branch.condition, Q f)
      ∧ ∀ node ∈ branch.body, ∀ f ∈ ofNode node, Q f) : ∀ f ∈ ofBranches branches, Q f := by
  induction branches with
  | nil =>
    rw [ofBranches]
    nofun
  | cons branch branches ih =>
    rw [List.forall_mem_cons] at h
    obtain ⟨condition, body⟩ := branch
    rw [ofBranches, List.forall_mem_append, List.forall_mem_append]
    exact ⟨⟨h.1.1, forall_ofNodes h.1.2⟩, ih h.2⟩

end All

end Refusals

/-! ## Steps that fail -/

/-- The failure of a result. -/
def failure? {α : Type} : Except Failure α → Option Failure
  | .ok _ => none
  | .error f => some f

/-- In every state the step fails for the first of the reasons, and succeeds if there are none. -/
def Refuses {α : Type} (step : Step α) (reasons : List Failure) : Prop :=
  ∀ ctx, failure? (step ctx).1 = reasons.head?

namespace Refuses

variable {α β : Type} {step : Step α} {f : α → Step β} {xs ys : List Failure}

theorem pure (a : α) : Refuses (Pure.pure a) [] :=
  fun _ => rfl

theorem throw (failure : Failure) : Refuses (throwThe Failure failure : Step α) [failure] :=
  fun _ => rfl

theorem bind (h : Refuses step xs) (hf : ∀ a, Refuses (f a) ys) :
    Refuses (step >>= f) (xs ++ ys) := by
  intro ctx
  have first := h ctx
  rcases hs : step ctx with ⟨e | a, mid⟩ <;> rw [hs] at first
  · rw [bind_of_error hs, List.head?_append, ← first]
    rfl
  · rw [bind_of_ok hs, hf a mid, List.head?_eq_none_iff.mp first.symm, List.nil_append]

/-- The step never fails. -/
theorem skip (h : Refuses step []) (hf : ∀ a, Refuses (f a) ys) : Refuses (step >>= f) ys :=
  h.bind hf

/-- What comes after the step never fails. -/
theorem last (h : Refuses step xs) (hf : ∀ a, Refuses (f a) []) : Refuses (step >>= f) xs := by
  have both := h.bind hf
  rwa [List.append_nil] at both

theorem inScope (h : Refuses step xs) : Refuses (Lowering.inScope step) xs :=
  fun ctx => h ctx.opened

theorem fresh (base : String) : Refuses (Lowering.fresh base) [] :=
  fun _ => rfl

theorem freshVariable (base : String) : Refuses (Lowering.freshVariable base) [] :=
  fun _ => rfl

theorem bindFresh (base : String) (value : Expr) : Refuses (Lowering.bindFresh base value) [] :=
  fun _ => rfl

theorem store (target : Target) (value : Variable) : Refuses (Lowering.store target value) [] := by
  cases target <;> exact fun _ => rfl

theorem openNamespace (base name : String) (create : Expr) (function : Name) :
    Refuses (Lowering.openNamespace base name create function) [] :=
  fun _ => rfl

theorem marshal (args : List Variable) : Refuses (Lowering.marshal args) [] := by
  match args with
  | [] | [_] | _ :: _ :: _ => exact fun _ => rfl

theorem checkParams (owner : ParamOwner) (params : List Param) :
    Refuses (Lowering.checkParams owner params) (Refusals.ofParams owner params) := by
  unfold Lowering.checkParams Refusals.ofParams
  cases misplacedBlock? params with
  | none => exact .pure ()
  | some p => exact .throw _

end Refuses

/-! ## Lowering -/

mutual

/-- **What a node is refused for.** -/
theorem refuses_lower (node : Node) : Refuses (lower node) (Refusals.ofNode node) := by
  match node with
  | ⟨form, span⟩ =>
    rw [lower, Refusals.ofNode]
    exact refuses_lowerForm span form
termination_by structural node

theorem refuses_lowerForm (span : Span) (form : Form) :
    Refuses (lowerForm span form) (Refusals.ofForm span form) := by
  cases form with
  | integer | str | symbol | localVar | instanceVar | globalVar =>
    rw [lowerForm, Refusals.ofForm]
    exact .bindFresh _ _
  | selfRef =>
    rw [lowerForm, Refusals.ofForm]
    exact .pure _
  | array elements =>
    rw [lowerForm, Refusals.ofForm]
    refine Refuses.skip (.freshVariable _) fun array => ?_
    exact (refuses_lowerElements array elements).last fun _ => .pure _
  | assign target value =>
    rw [lowerForm, Refusals.ofForm]
    exact (refuses_lower value).last fun _ => Refuses.last (.store _ _) fun _ => .pure _
  | classDef name superclass body =>
    rw [lowerForm, Refusals.ofForm]
    refine Refuses.skip (.fresh _) fun function => ?_
    exact (refuses_lowerBody body).inScope.last fun _ =>
      Refuses.last (.openNamespace _ _ _ _) fun _ => .pure _
  | moduleDef name body =>
    rw [lowerForm, Refusals.ofForm]
    refine Refuses.skip (.fresh _) fun function => ?_
    exact (refuses_lowerBody body).inScope.last fun _ =>
      Refuses.last (.openNamespace _ _ _ _) fun _ => .pure _
  | methodDef owner name params body =>
    rw [lowerForm, Refusals.ofForm]
    refine Refuses.bind (.checkParams _ _) fun _ => Refuses.skip (.fresh _) fun function => ?_
    exact (refuses_lowerBody body).inScope.last fun _ =>
      Refuses.last (.bindFresh _ _) fun _ => .pure _
  | send receiver name args block =>
    rw [lowerForm, Refusals.ofForm, List.append_assoc]
    refine (refuses_lowerReceiver receiver).bind fun _ => ?_
    refine (refuses_lowerArgs args).bind fun _ => Refuses.skip (.marshal _) fun _ => ?_
    exact (refuses_lowerBlock name block).last fun _ =>
      Refuses.last (.bindFresh _ _) fun _ => .pure _
  | conditional branches otherwise =>
    rw [lowerForm, Refusals.ofForm]
    refine Refuses.skip (.freshVariable _) fun result => ?_
    exact (refuses_lowerBranches result (refuses_lowerOtherwise result otherwise) branches).last
      fun _ => .pure _
  | loop kind condition body =>
    rw [lowerForm, Refusals.ofForm]
    refine Refuses.skip (.fresh _) fun function => (refuses_lowerBody body).bind fun _ => ?_
    exact (refuses_lower condition).last fun _ => Refuses.last (.bindFresh _ _) fun _ => .pure _
  | rescue body variable_ handler otherwise =>
    rw [lowerForm, Refusals.ofForm, List.append_assoc]
    refine Refuses.skip (.fresh _) fun function => (refuses_lowerBody body).bind fun _ => ?_
    refine Refuses.skip (.fresh _) fun _ => (refuses_lowerBody handler).bind fun _ => ?_
    refine (refuses_lowerElseBody otherwise).last fun _ => Refuses.last (.fresh _) fun _ => ?_
    exact Refuses.last (.bindFresh _ _) fun _ => .pure _
  | directive kind path =>
    rw [lowerForm, Refusals.ofForm]
    exact .throw _
  | unknown =>
    rw [lowerForm, Refusals.ofForm]
    exact .throw _
termination_by structural form

/-- **What a body is refused for.** -/
theorem refuses_lowerBody (nodes : Body) : Refuses (lowerBody nodes) (Refusals.ofNodes nodes) := by
  match nodes with
  | [] =>
    rw [lowerBody, Refusals.ofNodes]
    exact .pure _
  | [node] =>
    rw [lowerBody, Refusals.ofNodes, Refusals.ofNodes, List.append_nil]
    exact (refuses_lower node).last fun _ => .pure _
  | node :: next :: nodes =>
    rw [lowerBody, Refusals.ofNodes]
    · refine (refuses_lower node).bind fun _ => ?_
      exact (refuses_lowerBody (next :: nodes)).last fun _ => .pure _
    · simp
termination_by structural nodes

theorem refuses_lowerElements (array : Variable) (nodes : List Node) :
    Refuses (lowerElements array nodes) (Refusals.ofNodes nodes) := by
  match nodes with
  | [] =>
    rw [lowerElements, Refusals.ofNodes]
    exact .pure _
  | node :: nodes =>
    rw [lowerElements, Refusals.ofNodes]
    refine (refuses_lower node).bind fun _ => ?_
    exact (refuses_lowerElements array nodes).last fun _ => .pure _
termination_by structural nodes

theorem refuses_lowerReceiver (receiver : Option Node) :
    Refuses (lowerReceiver receiver) (Refusals.ofReceiver receiver) := by
  match receiver with
  | none =>
    rw [lowerReceiver, Refusals.ofReceiver]
    exact .pure _
  | some node =>
    rw [lowerReceiver, Refusals.ofReceiver]
    exact (refuses_lower node).last fun _ => .pure _
termination_by structural receiver

theorem refuses_lowerArgs (nodes : List Node) :
    Refuses (lowerArgs nodes) (Refusals.ofNodes nodes) := by
  match nodes with
  | [] =>
    rw [lowerArgs, Refusals.ofNodes]
    exact .pure _
  | node :: nodes =>
    rw [lowerArgs, Refusals.ofNodes]
    exact (refuses_lower node).bind fun _ => (refuses_lowerArgs nodes).last fun _ => .pure _
termination_by structural nodes

theorem refuses_lowerBlock (message : String) (block : Option Block) :
    Refuses (lowerBlock message block) (Refusals.ofBlock message block) := by
  match block with
  | none =>
    rw [lowerBlock, Refusals.ofBlock]
    exact .pure _
  | some ⟨params, body⟩ =>
    rw [lowerBlock, Refusals.ofBlock]
    refine Refuses.bind (.checkParams _ _) fun _ => Refuses.skip (.fresh _) fun function => ?_
    exact (refuses_lowerBody body).inScope.last fun _ => Refuses.last (.fresh _) fun _ => .pure _
termination_by structural block

theorem refuses_lowerBranches (result : Variable) {otherwise : Step Code} {ys : List Failure}
    (ho : Refuses otherwise ys) (branches : List Branch) :
    Refuses (lowerBranches result otherwise branches) (Refusals.ofBranches branches ++ ys) := by
  match branches with
  | [] =>
    rw [lowerBranches, Refusals.ofBranches]
    exact ho
  | ⟨condition, body⟩ :: branches =>
    rw [lowerBranches, Refusals.ofBranches, List.append_assoc, List.append_assoc]
    refine (refuses_lower condition).bind fun _ => Refuses.skip (.fresh _) fun function => ?_
    refine (refuses_lowerBody body).bind fun _ => ?_
    exact (refuses_lowerBranches result ho branches).last fun _ => .pure _
termination_by structural branches

theorem refuses_lowerOtherwise (result : Variable) (otherwise : Option (List Node)) :
    Refuses (lowerOtherwise result otherwise) (Refusals.ofOptional otherwise) := by
  match otherwise with
  | none =>
    rw [lowerOtherwise, Refusals.ofOptional]
    exact .pure _
  | some body =>
    rw [lowerOtherwise, Refusals.ofOptional]
    exact Refuses.skip (.fresh _) fun function => (refuses_lowerBody body).last fun _ => .pure _
termination_by structural otherwise

theorem refuses_lowerElseBody (otherwise : Option (List Node)) :
    Refuses (lowerElseBody otherwise) (Refusals.ofOptional otherwise) := by
  match otherwise with
  | none =>
    rw [lowerElseBody, Refusals.ofOptional]
    exact .pure _
  | some body =>
    rw [lowerElseBody, Refusals.ofOptional]
    exact Refuses.skip (.fresh _) fun function => (refuses_lowerBody body).last fun _ => .pure _
termination_by structural otherwise

end

end ScriptCompiler.Lowering
