import ScriptCompiler.Proofs.Syntax.Outermost

/-!
# Bindings of the outermost scope

A local variable of the outermost scope of a program is bound by an assignment, or by a rescue
clause that names the exception: in both cases outside the bodies of classes, modules, methods and
blocks.
-/

namespace ScriptCompiler

/-- What binds a local variable. -/
inductive Binding where
  | assigned (name : String)
  /-- A rescue clause names the exception so. -/
  | caught (name : String)
  deriving DecidableEq, Repr

namespace Binding

/-- The variable. -/
def name : Binding → String
  | assigned name => name
  | caught name => name

/-- The variable, if it is assigned. -/
def assigned? : Binding → Option String
  | assigned name => some name
  | caught _ => none

/-- The variable, if it holds an exception. -/
def caught? : Binding → Option String
  | assigned _ => none
  | caught name => some name

theorem exists_name_iff {xs : List Binding} {n : String} :
    (∃ b ∈ xs, b.name = n) ↔ n ∈ xs.filterMap assigned? ∨ n ∈ xs.filterMap caught? := by
  rw [List.mem_filterMap, List.mem_filterMap, ← exists_or]
  refine exists_congr fun b => ?_
  cases b <;> simp [name, assigned?, caught?]

end Binding

namespace Bindings

/-- The binding of an assignment to a target. -/
def ofTarget : Target → List Binding
  | .localVar name => [.assigned name]
  | .instanceVar _ => []
  | .globalVar _ => []

mutual

/-- The outermost bindings of a node. -/
def ofNode : Node → List Binding
  | ⟨form, _⟩ => ofForm form

/-- The outermost bindings of a node of a form. -/
def ofForm : Form → List Binding
  | .array elements => ofNodes elements
  | .assign target value => ofNode value ++ ofTarget target
  | .send receiver _ args _ => ofReceiver receiver ++ ofNodes args
  | .conditional branches otherwise => ofBranches branches ++ ofOptional otherwise
  | .loop _ condition body => ofNodes body ++ ofNode condition
  | .rescue body variable_ handler otherwise =>
    ofNodes body ++ (variable_.toList.map .caught ++ ofNodes handler) ++ ofOptional otherwise
  | _ => []

/-- The outermost bindings of nodes one after the other. -/
def ofNodes : List Node → List Binding
  | [] => []
  | node :: nodes => ofNode node ++ ofNodes nodes

/-- The outermost bindings of a receiver. -/
def ofReceiver : Option Node → List Binding
  | none => []
  | some node => ofNode node

/-- The outermost bindings of branches. -/
def ofBranches : List Branch → List Binding
  | [] => []
  | ⟨condition, body⟩ :: branches => ofNode condition ++ ofNodes body ++ ofBranches branches

/-- The outermost bindings of a body that may be missing. -/
def ofOptional : Option (List Node) → List Binding
  | none => []
  | some body => ofNodes body

end

attribute [simp] ofNode ofForm ofNodes ofReceiver ofBranches ofOptional

@[simp] theorem ofForm_message (receiver : Option Node) (name : String) (args : List Node) :
    ofForm (.message receiver name args) = ofReceiver receiver ++ ofNodes args := rfl

theorem mem_ofNodes {nodes : List Node} {b : Binding} :
    b ∈ ofNodes nodes ↔ ∃ node ∈ nodes, b ∈ ofNode node := by
  induction nodes with
  | nil => simp [ofNodes]
  | cons node nodes ih => simp [ofNodes, ih]

theorem mem_ofBranches {branches : List Branch} {b : Binding} :
    b ∈ ofBranches branches
      ↔ ∃ branch ∈ branches, b ∈ ofNode branch.condition ∨ b ∈ ofNodes branch.body := by
  induction branches with
  | nil => simp [ofBranches]
  | cons branch branches ih =>
    obtain ⟨condition, body⟩ := branch
    simp [ofBranches, ih, or_assoc]

theorem filterMap_caught (names : List String) :
    (names.map Binding.caught).filterMap Binding.assigned? = [] := by
  rw [List.filterMap_map]
  exact List.filterMap_eq_nil_iff.mpr fun _ _ => rfl

mutual

/-- The assigned variables are those of the outermost assignments. -/
theorem assigned_ofNode (inside : Bool) : (node : Node) →
    (ofNode node).filterMap Binding.assigned? = (Outermost.ofNode inside node).map (·.name)
  | ⟨form, _⟩ => by
    rw [ofNode, Outermost.ofNode]
    exact assigned_ofForm inside form

theorem assigned_ofForm (inside : Bool) : (form : Form) →
    (ofForm form).filterMap Binding.assigned? = (Outermost.ofForm inside form).map (·.name)
  | .array elements => by
    rw [ofForm, Outermost.ofForm]
    exact assigned_ofNodes inside elements
  | .assign (.localVar name) value => by
    rw [ofForm, Outermost.ofForm, List.filterMap_append, List.map_append,
      assigned_ofNode inside value]
    rfl
  | .assign (.instanceVar _) value => by
    rw [ofForm, Outermost.ofForm, ofTarget, List.append_nil]
    exact assigned_ofNode inside value
  | .assign (.globalVar _) value => by
    rw [ofForm, Outermost.ofForm, ofTarget, List.append_nil]
    exact assigned_ofNode inside value
  | .send receiver _ args _ => by
    rw [ofForm, Outermost.ofForm, List.filterMap_append, List.map_append,
      assigned_ofReceiver inside receiver, assigned_ofNodes inside args]
  | .conditional branches otherwise => by
    rw [ofForm, Outermost.ofForm, List.filterMap_append, List.map_append,
      assigned_ofBranches inside branches, assigned_ofOptional inside otherwise]
  | .loop _ condition body => by
    rw [ofForm, Outermost.ofForm, List.filterMap_append, List.map_append,
      assigned_ofNodes inside body, assigned_ofNode inside condition]
  | .rescue body variable_ handler otherwise => by
    rw [ofForm, Outermost.ofForm, List.filterMap_append, List.filterMap_append,
      List.filterMap_append, List.map_append, List.map_append, map_name_handled,
      assigned_ofNodes true body, assigned_ofNodes true handler,
      assigned_ofOptional true otherwise, filterMap_caught, List.nil_append]
  | .integer _ | .str _ | .symbol _ | .selfRef | .localVar _ | .instanceVar _ | .globalVar _
  | .classDef _ _ _ | .moduleDef _ _ | .methodDef _ _ _ _ | .directive _ _ | .unknown => rfl

theorem assigned_ofNodes (inside : Bool) : (nodes : List Node) →
    (ofNodes nodes).filterMap Binding.assigned? = (Outermost.ofNodes inside nodes).map (·.name)
  | [] => rfl
  | node :: nodes => by
    rw [ofNodes, Outermost.ofNodes, List.filterMap_append, List.map_append,
      assigned_ofNode inside node, assigned_ofNodes inside nodes]

theorem assigned_ofReceiver (inside : Bool) : (receiver : Option Node) →
    (ofReceiver receiver).filterMap Binding.assigned?
      = (Outermost.ofReceiver inside receiver).map (·.name)
  | none => rfl
  | some node => by
    rw [ofReceiver, Outermost.ofReceiver]
    exact assigned_ofNode inside node

theorem assigned_ofBranches (inside : Bool) : (branches : List Branch) →
    (ofBranches branches).filterMap Binding.assigned?
      = (Outermost.ofBranches inside branches).map (·.name)
  | [] => rfl
  | ⟨condition, body⟩ :: branches => by
    rw [ofBranches, Outermost.ofBranches, List.filterMap_append, List.filterMap_append,
      List.map_append, List.map_append, assigned_ofNode inside condition,
      assigned_ofNodes inside body, assigned_ofBranches inside branches]

theorem assigned_ofOptional (inside : Bool) : (otherwise : Option (List Node)) →
    (ofOptional otherwise).filterMap Binding.assigned?
      = (Outermost.ofOtherwise inside otherwise).map (·.name)
  | none => rfl
  | some body => by
    rw [ofOptional, Outermost.ofOtherwise]
    exact assigned_ofNodes inside body

end

end Bindings

/-! ## Assignments in the outermost scope

Which names are assigned, said without an order: where an assignment stands, and that no body of a
class, module, method or block is around it.
-/

/-- The node stands directly inside the form and belongs to the scope of the form. -/
inductive Form.SameScope : Form → Node → Prop
  | element {elements : List Node} {child : Node} (h : child ∈ elements) :
      SameScope (.array elements) child
  | value {target : Target} {child : Node} : SameScope (.assign target child) child
  | receiver {name : String} {args : List Node} {block : Option Block} {child : Node} :
      SameScope (.send (some child) name args block) child
  | argument {receiver : Option Node} {name : String} {args : List Node} {block : Option Block}
      {child : Node} (h : child ∈ args) : SameScope (.send receiver name args block) child
  | condition {branches : List Branch} {otherwise : Option Body} {branch : Branch}
      (h : branch ∈ branches) : SameScope (.conditional branches otherwise) branch.condition
  | branchBody {branches : List Branch} {otherwise : Option Body} {branch : Branch} {child : Node}
      (h : branch ∈ branches) (hb : child ∈ branch.body) :
      SameScope (.conditional branches otherwise) child
  | noBranch {branches : List Branch} {body : Body} {child : Node} (h : child ∈ body) :
      SameScope (.conditional branches (some body)) child
  | loopCondition {kind : LoopKind} {body : Body} {child : Node} :
      SameScope (.loop kind child body) child
  | loopBody {kind : LoopKind} {condition : Node} {body : Body} {child : Node} (h : child ∈ body) :
      SameScope (.loop kind condition body) child
  | protected_ {body handler : Body} {variable_ : Option String} {otherwise : Option Body}
      {child : Node} (h : child ∈ body) : SameScope (.rescue body variable_ handler otherwise) child
  | handler {body handler : Body} {variable_ : Option String} {otherwise : Option Body}
      {child : Node} (h : child ∈ handler) :
      SameScope (.rescue body variable_ handler otherwise) child
  | elseBody {body handler otherwise : Body} {variable_ : Option String} {child : Node}
      (h : child ∈ otherwise) : SameScope (.rescue body variable_ handler (some otherwise)) child

/-- The node assigns the local variable, in the scope that it stands in. -/
inductive Node.Assigns (name : String) : Node → Prop
  | here {value : Node} {span : Span} : Assigns name ⟨.assign (.localVar name) value, span⟩
  | inside {node child : Node} (h : node.form.SameScope child) (hc : Assigns name child) :
      Assigns name node

/-- A statement of the body assigns the local variable, in the scope of the body. -/
def Body.Assigns (body : Body) (name : String) : Prop :=
  ∃ node ∈ body, node.Assigns name

namespace Bindings

variable {name : String}

/-- What is assigned in a part of a form is assigned in the form. -/
theorem mem_of_sameScope {form : Form} {child : Node} (h : form.SameScope child)
    (hc : .assigned name ∈ ofNode child) : .assigned name ∈ ofForm form := by
  have body {nodes : Body} (hm : child ∈ nodes) : .assigned name ∈ ofNodes nodes :=
    mem_ofNodes.mpr ⟨child, hm, hc⟩
  cases h with
  | element h => simpa only [ofForm] using body h
  | value => exact List.mem_append_left _ hc
  | receiver => exact List.mem_append_left _ hc
  | argument h => exact List.mem_append_right _ (body h)
  | condition h => exact List.mem_append_left _ (mem_ofBranches.mpr ⟨_, h, .inl hc⟩)
  | branchBody h hb => exact List.mem_append_left _ (mem_ofBranches.mpr ⟨_, h, .inr (body hb)⟩)
  | noBranch h => exact List.mem_append_right _ (body h)
  | loopCondition => exact List.mem_append_right _ hc
  | loopBody h => exact List.mem_append_left _ (body h)
  | protected_ h => simp [body h]
  | handler h => simp [body h]
  | elseBody h => simp [body h]

theorem mem_of_assigns {node : Node} (h : node.Assigns name) : .assigned name ∈ ofNode node := by
  induction h with
  | here => simp [ofTarget]
  | @inside node child holds _ ih =>
    obtain ⟨form, span⟩ := node
    exact mem_of_sameScope holds ih

mutual

theorem assigns_of_mem : (node : Node) → .assigned name ∈ ofNode node → node.Assigns name
  | ⟨form, span⟩, h => by
    rw [ofNode] at h
    rcases assigns_of_mem_ofForm form h with ⟨child, holds, hc⟩ | ⟨value, rfl⟩
    · exact .inside holds hc
    · exact .here

theorem assigns_of_mem_ofForm : (form : Form) → .assigned name ∈ ofForm form →
    (∃ child, form.SameScope child ∧ child.Assigns name)
      ∨ ∃ value, form = .assign (.localVar name) value
  | .array elements, h => by
    obtain ⟨child, hm, hc⟩ := assigns_of_mem_ofNodes elements h
    exact .inl ⟨child, .element hm, hc⟩
  | .assign target value, h => by
    rcases List.mem_append.mp h with h | h
    · exact .inl ⟨value, .value, assigns_of_mem value h⟩
    · cases target with
      | localVar n =>
        cases List.mem_singleton.mp h
        exact .inr ⟨value, rfl⟩
      | instanceVar _ => cases h
      | globalVar _ => cases h
  | .send receiver _ args _, h => by
    rcases List.mem_append.mp h with h | h
    · obtain ⟨child, rfl, hc⟩ := assigns_of_mem_ofReceiver receiver h
      exact .inl ⟨child, .receiver, hc⟩
    · obtain ⟨child, hm, hc⟩ := assigns_of_mem_ofNodes args h
      exact .inl ⟨child, .argument hm, hc⟩
  | .conditional branches otherwise, h => by
    rcases List.mem_append.mp h with h | h
    · obtain ⟨branch, hm, hc | ⟨child, hb, hc⟩⟩ := assigns_of_mem_ofBranches branches h
      · exact .inl ⟨branch.condition, .condition hm, hc⟩
      · exact .inl ⟨child, .branchBody hm hb, hc⟩
    · obtain ⟨body, rfl, child, hm, hc⟩ := assigns_of_mem_ofOptional otherwise h
      exact .inl ⟨child, .noBranch hm, hc⟩
  | .loop _ condition body, h => by
    rcases List.mem_append.mp h with h | h
    · obtain ⟨child, hm, hc⟩ := assigns_of_mem_ofNodes body h
      exact .inl ⟨child, .loopBody hm, hc⟩
    · exact .inl ⟨condition, .loopCondition, assigns_of_mem condition h⟩
  | .rescue body variable_ handler otherwise, h => by
    simp only [ofForm, List.mem_append, List.mem_map, reduceCtorEq, and_false, exists_false,
      false_or] at h
    rcases h with (h | h) | h
    · obtain ⟨child, hm, hc⟩ := assigns_of_mem_ofNodes body h
      exact .inl ⟨child, .protected_ hm, hc⟩
    · obtain ⟨child, hm, hc⟩ := assigns_of_mem_ofNodes handler h
      exact .inl ⟨child, .handler hm, hc⟩
    · obtain ⟨body, rfl, child, hm, hc⟩ := assigns_of_mem_ofOptional otherwise h
      exact .inl ⟨child, .elseBody hm, hc⟩
  | .integer _, h | .str _, h | .symbol _, h | .selfRef, h | .localVar _, h | .instanceVar _, h
  | .globalVar _, h | .classDef _ _ _, h | .moduleDef _ _, h | .methodDef _ _ _ _, h
  | .directive _ _, h | .unknown, h => by cases h

theorem assigns_of_mem_ofNodes : (nodes : List Node) → .assigned name ∈ ofNodes nodes →
    ∃ child ∈ nodes, child.Assigns name
  | [], h => by cases h
  | node :: nodes, h => by
    rcases List.mem_append.mp h with h | h
    · exact ⟨node, List.mem_cons_self, assigns_of_mem node h⟩
    · obtain ⟨child, hm, hc⟩ := assigns_of_mem_ofNodes nodes h
      exact ⟨child, List.mem_cons_of_mem _ hm, hc⟩

theorem assigns_of_mem_ofReceiver : (receiver : Option Node) →
    .assigned name ∈ ofReceiver receiver → ∃ child, receiver = some child ∧ child.Assigns name
  | none, h => by cases h
  | some node, h => ⟨node, rfl, assigns_of_mem node h⟩

theorem assigns_of_mem_ofBranches : (branches : List Branch) →
    .assigned name ∈ ofBranches branches →
      ∃ branch ∈ branches,
        branch.condition.Assigns name ∨ ∃ child ∈ branch.body, child.Assigns name
  | [], h => by cases h
  | ⟨condition, body⟩ :: branches, h => by
    rw [ofBranches, List.mem_append, List.mem_append] at h
    rcases h with (h | h) | h
    · exact ⟨_, List.mem_cons_self, .inl (assigns_of_mem condition h)⟩
    · exact ⟨_, List.mem_cons_self, .inr (assigns_of_mem_ofNodes body h)⟩
    · obtain ⟨branch, hm, hc⟩ := assigns_of_mem_ofBranches branches h
      exact ⟨branch, List.mem_cons_of_mem _ hm, hc⟩

theorem assigns_of_mem_ofOptional : (optional : Option (List Node)) →
    .assigned name ∈ ofOptional optional →
      ∃ body, optional = some body ∧ ∃ child ∈ body, child.Assigns name
  | none, h => by cases h
  | some body, h => ⟨body, rfl, assigns_of_mem_ofNodes body h⟩

end

/-- **Assignments by their places.** The outermost assignments are those that no body of a class,
module, method or block is around. -/
theorem mem_assigned_iff {body : Body} : .assigned name ∈ ofNodes body ↔ body.Assigns name := by
  constructor
  · exact assigns_of_mem_ofNodes body
  · rintro ⟨node, hm, h⟩
    exact mem_ofNodes.mpr ⟨node, hm, mem_of_assigns h⟩

end Bindings

/-- The names of the outermost local variables that a program assigns. -/
def assignedNames (program : Body) : List String :=
  (Bindings.ofNodes program).filterMap Binding.assigned?

/-- The names of the outermost local variables in which a program receives exceptions. -/
def caughtNames (program : Body) : List String :=
  (Bindings.ofNodes program).filterMap Binding.caught?

theorem mem_assignedNames {program : Body} {name : String} :
    name ∈ assignedNames program ↔ program.Assigns name := by
  rw [← Bindings.mem_assigned_iff, assignedNames, List.mem_filterMap]
  constructor
  · rintro ⟨b, hb, same⟩
    cases b with
    | assigned n =>
      cases same
      exact hb
    | caught n => cases same
  · exact fun h => ⟨.assigned name, h, rfl⟩

end ScriptCompiler
