import Mathlib.Logic.Relation
import ScriptCompiler.Syntax.Basic

/-!
# Parts of trees

What is in a tree: the spans of its nodes, its directives, and the nodes that stand inside others.
-/

/-!
## Spans in trees

The spans of all nodes of a tree, each before those of the nodes inside it.
-/

namespace ScriptCompiler.Spans

mutual

/-- The spans in a node. -/
def ofNode : Node → List Span
  | ⟨form, span⟩ => span :: ofForm form

/-- The spans in what a node holds. -/
def ofForm : Form → List Span
  | .array elements => ofNodes elements
  | .assign _ value => ofNode value
  | .classDef _ _ body => ofNodes body
  | .moduleDef _ body => ofNodes body
  | .methodDef _ _ _ body => ofNodes body
  | .send receiver _ args block => ofReceiver receiver ++ ofNodes args ++ ofBlock block
  | .conditional branches otherwise => ofBranches branches ++ ofOptional otherwise
  | .loop _ condition body => ofNode condition ++ ofNodes body
  | .rescue body _ handler otherwise => ofNodes body ++ ofNodes handler ++ ofOptional otherwise
  | .integer _ | .str _ | .symbol _ | .selfRef | .localVar _ | .instanceVar _ | .globalVar _
  | .directive _ _ | .unknown => []

/-- The spans in nodes one after the other. -/
def ofNodes : List Node → List Span
  | [] => []
  | node :: nodes => ofNode node ++ ofNodes nodes

/-- The spans in a receiver. -/
def ofReceiver : Option Node → List Span
  | none => []
  | some node => ofNode node

/-- The spans in a body that may be missing. -/
def ofOptional : Option (List Node) → List Span
  | none => []
  | some body => ofNodes body

/-- The spans in the block of a message. -/
def ofBlock : Option Block → List Span
  | none => []
  | some ⟨_, body⟩ => ofNodes body

/-- The spans in branches. -/
def ofBranches : List Branch → List Span
  | [] => []
  | ⟨condition, body⟩ :: branches => ofNode condition ++ ofNodes body ++ ofBranches branches

end

theorem ofNode_eq (node : Node) : ofNode node = node.span :: ofForm node.form := by
  obtain ⟨form, span⟩ := node
  rw [ofNode]

/-! ### All spans -/

section All

variable {Q : Span → Prop}

theorem forall_ofNodes {nodes : List Node} (h : ∀ node ∈ nodes, ∀ s ∈ ofNode node, Q s) :
    ∀ s ∈ ofNodes nodes, Q s := by
  induction nodes with
  | nil => nofun
  | cons node nodes ih =>
    rw [List.forall_mem_cons] at h
    rw [ofNodes, List.forall_mem_append]
    exact ⟨h.1, ih h.2⟩

theorem forall_ofReceiver {receiver : Option Node}
    (h : ∀ node ∈ receiver, ∀ s ∈ ofNode node, Q s) : ∀ s ∈ ofReceiver receiver, Q s := by
  cases receiver with
  | none => nofun
  | some node => exact h node rfl

theorem forall_ofOptional {body : Option (List Node)}
    (h : ∀ nodes ∈ body, ∀ node ∈ nodes, ∀ s ∈ ofNode node, Q s) :
    ∀ s ∈ ofOptional body, Q s := by
  cases body with
  | none => nofun
  | some nodes => exact forall_ofNodes (h nodes rfl)

theorem forall_ofBlock {block : Option Block}
    (h : ∀ b ∈ block, ∀ node ∈ b.body, ∀ s ∈ ofNode node, Q s) : ∀ s ∈ ofBlock block, Q s := by
  rcases block with _ | ⟨params, body⟩
  · nofun
  · exact forall_ofNodes (h _ rfl)

theorem forall_ofBranches {branches : List Branch}
    (h : ∀ branch ∈ branches, (∀ s ∈ ofNode branch.condition, Q s)
      ∧ ∀ node ∈ branch.body, ∀ s ∈ ofNode node, Q s) : ∀ s ∈ ofBranches branches, Q s := by
  induction branches with
  | nil => nofun
  | cons branch branches ih =>
    rw [List.forall_mem_cons] at h
    obtain ⟨condition, body⟩ := branch
    simp only [ofBranches, List.forall_mem_append]
    exact ⟨⟨h.1.1, forall_ofNodes h.1.2⟩, ih h.2⟩

end All

end ScriptCompiler.Spans

/-!
## Directives in trees

The directives of a tree at any depth, in the order in which they are reached: in bodies,
conditions, receivers, arguments, elements, assigned values and blocks. A tree without directives is
left with atoms, nodes that hold no other node, and with nodes around such trees.
-/

namespace ScriptCompiler

/-- A directive that stands somewhere in a tree. -/
structure Directive where
  kind : DirectiveKind
  path : String
  span : Span
  deriving DecidableEq, Repr

/-- A node of this form holds no other node and stands for itself. -/
def Form.isAtom : Form → Bool
  | .integer _ | .str _ | .symbol _ | .selfRef | .localVar _ | .instanceVar _ | .globalVar _
  | .unknown => true
  | .array _ | .assign _ _ | .classDef _ _ _ | .moduleDef _ _ | .methodDef _ _ _ _ | .send _ _ _ _
  | .conditional _ _ | .loop _ _ _ | .rescue _ _ _ _ | .directive _ _ => false

namespace Directives

mutual

/-- The directives in a node. -/
def ofNode : Node → List Directive
  | ⟨form, span⟩ => ofForm span form

/-- The directives in a node of a form that stands at a span. -/
def ofForm (span : Span) : Form → List Directive
  | .directive kind path => [⟨kind, path, span⟩]
  | .array elements => ofNodes elements
  | .assign _ value => ofNode value
  | .classDef _ _ body => ofNodes body
  | .moduleDef _ body => ofNodes body
  | .methodDef _ _ _ body => ofNodes body
  | .send receiver _ args block => ofReceiver receiver ++ ofNodes args ++ ofBlock block
  | .conditional branches otherwise => ofBranches branches ++ ofOptional otherwise
  | .loop _ condition body => ofNode condition ++ ofNodes body
  | .rescue body _ handler otherwise => ofNodes body ++ ofNodes handler ++ ofOptional otherwise
  | .integer _ | .str _ | .symbol _ | .selfRef | .localVar _ | .instanceVar _ | .globalVar _
  | .unknown => []

/-- The directives in nodes one after the other. -/
def ofNodes : List Node → List Directive
  | [] => []
  | node :: nodes => ofNode node ++ ofNodes nodes

/-- The directives in a receiver. -/
def ofReceiver : Option Node → List Directive
  | none => []
  | some node => ofNode node

/-- The directives in a body that may be missing. -/
def ofOptional : Option (List Node) → List Directive
  | none => []
  | some body => ofNodes body

/-- The directives in the block of a message. -/
def ofBlock : Option Block → List Directive
  | none => []
  | some ⟨_, body⟩ => ofNodes body

/-- The directives in branches. -/
def ofBranches : List Branch → List Directive
  | [] => []
  | ⟨condition, body⟩ :: branches => ofNode condition ++ ofNodes body ++ ofBranches branches

end

theorem ofForm_of_isAtom {form : Form} (h : form.isAtom = true) (span : Span) :
    ofForm span form = [] := by
  cases form <;> simp_all [Form.isAtom, ofForm]

theorem ofNodes_append (xs ys : List Node) : ofNodes (xs ++ ys) = ofNodes xs ++ ofNodes ys := by
  induction xs with
  | nil => rw [List.nil_append, ofNodes, List.nil_append]
  | cons node nodes ih => rw [List.cons_append, ofNodes, ofNodes, ih, List.append_assoc]

end Directives

end ScriptCompiler

/-!
## Nodes inside nodes

The nodes that stand directly inside a form, at all the places that a form has for them, and from
that the nodes that stand anywhere in a tree.
-/

namespace ScriptCompiler

/-- The node stands directly inside the form. -/
inductive Form.Holds : Form → Node → Prop
  | element {elements : List Node} {child : Node} (h : child ∈ elements) :
      Holds (.array elements) child
  | value {target : Target} {child : Node} : Holds (.assign target child) child
  | classBody {name : String} {superclass : Option String} {body : Body} {child : Node}
      (h : child ∈ body) : Holds (.classDef name superclass body) child
  | moduleBody {name : String} {body : Body} {child : Node} (h : child ∈ body) :
      Holds (.moduleDef name body) child
  | methodBody {owner : Option String} {name : String} {params : List Param} {body : Body}
      {child : Node} (h : child ∈ body) : Holds (.methodDef owner name params body) child
  | receiver {name : String} {args : List Node} {block : Option Block} {child : Node} :
      Holds (.send (some child) name args block) child
  | argument {receiver : Option Node} {name : String} {args : List Node} {block : Option Block}
      {child : Node} (h : child ∈ args) : Holds (.send receiver name args block) child
  | blockBody {receiver : Option Node} {name : String} {args : List Node} {params : List Param}
      {body : Body} {child : Node} (h : child ∈ body) :
      Holds (.send receiver name args (some ⟨params, body⟩)) child
  | condition {branches : List Branch} {otherwise : Option Body} {child : Node} {body : Body}
      (h : ⟨child, body⟩ ∈ branches) : Holds (.conditional branches otherwise) child
  | branchBody {branches : List Branch} {otherwise : Option Body} {condition child : Node}
      {body : Body} (h : ⟨condition, body⟩ ∈ branches) (hb : child ∈ body) :
      Holds (.conditional branches otherwise) child
  | noBranch {branches : List Branch} {body : Body} {child : Node} (h : child ∈ body) :
      Holds (.conditional branches (some body)) child
  | loopCondition {kind : LoopKind} {body : Body} {child : Node} :
      Holds (.loop kind child body) child
  | loopBody {kind : LoopKind} {condition : Node} {body : Body} {child : Node} (h : child ∈ body) :
      Holds (.loop kind condition body) child
  | protected_ {body handler : Body} {variable_ : Option String} {otherwise : Option Body}
      {child : Node} (h : child ∈ body) : Holds (.rescue body variable_ handler otherwise) child
  | handler {body handler : Body} {variable_ : Option String} {otherwise : Option Body}
      {child : Node} (h : child ∈ handler) : Holds (.rescue body variable_ handler otherwise) child
  | elseBody {body handler otherwise : Body} {variable_ : Option String} {child : Node}
      (h : child ∈ otherwise) : Holds (.rescue body variable_ handler (some otherwise)) child

/-- The node is the other one, or stands somewhere inside it. -/
def Node.Inside (inner outer : Node) : Prop :=
  Relation.ReflTransGen (fun node child => node.form.Holds child) outer inner

/-- The node stands somewhere in the body, at any depth. -/
def Body.Contains (body : Body) (node : Node) : Prop :=
  ∃ top ∈ body, node.Inside top

namespace Node.Inside

theorem refl (node : Node) : node.Inside node :=
  Relation.ReflTransGen.refl

theorem held {inner child : Node} {form : Form} {span : Span} (h : inner.Inside child)
    (holds : form.Holds child) : inner.Inside ⟨form, span⟩ :=
  Relation.ReflTransGen.head holds h

end Node.Inside

/-! ### Operands and bodies -/

namespace Form

/-- The nodes that a form uses the values of: elements, an assigned value, a receiver, arguments and
conditions. -/
def operands : Form → List Node
  | .array elements => elements
  | .assign _ value => [value]
  | .send receiver _ args _ => receiver.toList ++ args
  | .conditional branches _ => branches.map Branch.condition
  | .loop _ condition _ => [condition]
  | _ => []

/-- The bodies in a form. -/
def bodies : Form → List Body
  | .classDef _ _ body | .moduleDef _ body | .methodDef _ _ _ body | .loop _ _ body => [body]
  | .send _ _ _ block => (block.map Block.body).toList
  | .conditional branches otherwise => branches.map Branch.body ++ otherwise.toList
  | .rescue body _ handler otherwise => body :: handler :: otherwise.toList
  | _ => []

/-- What stands in a form is an operand of it, or a statement of one of its bodies. -/
theorem holds_cases {form : Form} {child : Node} (h : form.Holds child) :
    child ∈ form.operands ∨ ∃ body ∈ form.bodies, child ∈ body := by
  cases h with
  | element hm => exact .inl hm
  | value | loopCondition => exact .inl (List.mem_singleton_self _)
  | receiver => exact .inl List.mem_cons_self
  | argument hm => exact .inl (List.mem_append_right _ hm)
  | condition hm => exact .inl (List.mem_map_of_mem hm)
  | classBody hm | moduleBody hm | methodBody hm | blockBody hm | loopBody hm =>
    exact .inr ⟨_, List.mem_singleton_self _, hm⟩
  | branchBody hm hc => exact .inr ⟨_, List.mem_append_left _ (List.mem_map_of_mem hm), hc⟩
  | noBranch hm => exact .inr ⟨_, List.mem_append_right _ List.mem_cons_self, hm⟩
  | protected_ hm => exact .inr ⟨_, List.mem_cons_self, hm⟩
  | handler hm => exact .inr ⟨_, List.mem_cons_of_mem _ List.mem_cons_self, hm⟩
  | elseBody hm =>
    exact .inr ⟨_, List.mem_cons_of_mem _ (List.mem_cons_of_mem _ List.mem_cons_self), hm⟩

theorem holds_of_mem_operands {form : Form} {child : Node} (h : child ∈ form.operands) :
    form.Holds child := by
  cases form with
  | array elements => exact .element h
  | assign target value =>
    cases List.mem_singleton.mp h
    exact .value
  | send receiver name args block =>
    rcases List.mem_append.mp h with h | h
    · cases Option.mem_toList.mp h
      exact .receiver
    · exact .argument h
  | conditional branches otherwise =>
    obtain ⟨⟨condition, body⟩, hm, rfl⟩ := List.mem_map.mp h
    exact .condition hm
  | loop kind condition body =>
    cases List.mem_singleton.mp h
    exact .loopCondition
  | _ => cases h

end Form

/-- The second body is the first one, or stands somewhere inside it. -/
def Body.Nests (program body : Body) : Prop :=
  body = program ∨ ∃ outer, program.Contains outer ∧ body ∈ outer.form.bodies

/-- A node of a program is a statement of some body, or an operand. -/
theorem Body.Contains.cases {program : Body} {node : Node} (h : program.Contains node) :
    (∃ body, program.Nests body ∧ node ∈ body)
      ∨ ∃ outer, program.Contains outer ∧ node ∈ outer.form.operands := by
  obtain ⟨top, hm, inside⟩ := h
  cases inside with
  | refl => exact .inl ⟨program, .inl rfl, hm⟩
  | tail inside holds =>
    rename_i outer
    have outer_ : program.Contains outer := ⟨top, hm, inside⟩
    rcases Form.holds_cases holds with operand | ⟨body, hb, hc⟩
    · exact .inr ⟨outer, outer_, operand⟩
    · exact .inl ⟨body, .inr ⟨outer, outer_, hb⟩, hc⟩

end ScriptCompiler
