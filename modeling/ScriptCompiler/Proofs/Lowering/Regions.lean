import Mathlib.Data.List.Forall2
import ScriptCompiler.Proofs.C.Scoping
import ScriptCompiler.Proofs.Lowering.Derivation
import ScriptCompiler.Proofs.Syntax.Trees

/-!
# Regions of a program

Methods, blocks and all bodies that run in the scope around them are the regions of a program: each
becomes a function of its own. The functions that a lowering makes are those of the regions, in
order. In the environments in which they run they bind what the program binds in the regions, and
each method its own name.
-/

/-!
## Functions of regions
-/

namespace ScriptCompiler.Lowering

open C

/-- A part of a program that becomes a function of its own. -/
inductive Region where
  | method (name : String) (params : List Param) (body : Body)
  | block (params : List Param) (body : Body)
  /-- The body of a class, module, branch or loop, or one of a protected construct. -/
  | inline (body : Body)
  /-- What is around the bodies of a protected construct; it binds the exception. -/
  | protection (variable_ : Option String)

namespace Regions

mutual

/-- The regions inside a node, each behind those inside of it. -/
def ofNode : Node → List Region
  | ⟨form, _⟩ => ofForm form

def ofForm : Form → List Region
  | .array elements => ofNodes elements
  | .assign _ value => ofNode value
  | .classDef _ _ body => ofNodes body ++ [.inline body]
  | .moduleDef _ body => ofNodes body ++ [.inline body]
  | .methodDef _ name params body => ofNodes body ++ [.method name params body]
  | .send receiver _ args block => ofReceiver receiver ++ ofNodes args ++ ofBlock block
  | .conditional branches otherwise => ofBranches branches ++ ofOptional otherwise
  | .loop _ condition body => ofNodes body ++ [.inline body] ++ ofNode condition
  | .rescue body variable_ handler otherwise =>
    ofNodes body ++ [.inline body] ++ (ofNodes handler ++ [.inline handler])
      ++ ofOptional otherwise ++ [.protection variable_]
  | _ => []

def ofNodes : List Node → List Region
  | [] => []
  | node :: nodes => ofNode node ++ ofNodes nodes

def ofReceiver : Option Node → List Region
  | none => []
  | some node => ofNode node

def ofBlock : Option Block → List Region
  | none => []
  | some ⟨params, body⟩ => ofNodes body ++ [.block params body]

def ofBranches : List Branch → List Region
  | [] => []
  | ⟨condition, body⟩ :: branches =>
    ofNode condition ++ (ofNodes body ++ [.inline body]) ++ ofBranches branches

def ofOptional : Option (List Node) → List Region
  | none => []
  | some body => ofNodes body ++ [.inline body]

end

end Regions

/-- What the function of a region consists of: what it does first, and the code of its body. -/
inductive Makes : Region → Function → Prop
  | method {ctx ctx' : Context} {function : Name} {name : String} {params : List Param}
      {body : Body} {code : Code} (lowered : LowersBody ctx body code ctx') :
      Makes (.method name params body)
        ⟨function, .method, methodEntry name params ++ code.stmts⟩
  | block {ctx ctx' : Context} {function : Name} {params : List Param} {body : Body} {code : Code}
      (lowered : LowersBody ctx body code ctx') :
      Makes (.block params body) ⟨function, .method, blockEntry params ++ code.stmts⟩
  | inline {ctx ctx' : Context} {function : Name} {body : Body} {code : Code}
      (lowered : LowersBody ctx body code ctx') :
      Makes (.inline body) ⟨function, .scoped, code.stmts⟩
  | protection {function protected_ handler : Name} {otherwise : Option Name}
      {variable_ : Option String} :
      Makes (.protection variable_)
        ⟨function, .scoped, rescueWrapper protected_ handler otherwise variable_⟩

/-- The function of a body stands behind those of the regions inside of it. -/
theorem makes_hoist {xs : List Region} {region : Region} {name : Name} {signature : Signature}
    {before : List Stmt} {code : Code} (inner : List.Forall₂ Makes xs code.functions)
    (h : Makes region ⟨name, signature, before ++ code.stmts⟩) :
    List.Forall₂ Makes (xs ++ [region]) (hoist name signature before code) :=
  List.rel_append inner (.cons h .nil)

namespace Regions

theorem ofForm_leaf {form : Form} {base : String} {e : Expr} (h : leaf? form = some (base, e)) :
    ofForm form = [] := by
  cases form <;> cases h <;> rfl

theorem ofForm_namespace {form : Form} {ns : Namespace} (h : namespace? form = some ns) :
    ofForm form = ofNodes ns.body ++ [.inline ns.body] := by
  cases form with
  | classDef name superclass body => cases h; rfl
  | moduleDef name body => cases h; rfl
  | _ => cases h

end Regions

open Regions

mutual

/-- **The functions of a node are those of its regions.** -/
theorem Lowers.makes {ctx ctx' : Context} {node : Node} {frag : Fragment}
    (h : Lowers ctx node frag ctx') : List.Forall₂ Makes (ofNode node) frag.code.functions := by
  match h with
  | .leaf h =>
    rw [ofNode, ofForm_leaf h]
    exact .nil
  | .selfRef => exact .nil
  | .array elements => exact elements.makes
  | .assign value =>
    show List.Forall₂ Makes _ (_ ++ [])
    rw [List.append_nil]
    exact value.makes
  | .namespace_ h body =>
    rw [ofNode, ofForm_namespace h]
    show List.Forall₂ Makes _ (_ ++ [])
    rw [List.append_nil]
    exact makes_hoist body.makes (.inline body)
  | .methodDef _ body =>
    show List.Forall₂ Makes _ (_ ++ [])
    rw [List.append_nil]
    exact makes_hoist body.makes (.method body)
  | .send receiver args marshal block =>
    show List.Forall₂ Makes _ (_ ++ _ ++ [] ++ _ ++ [])
    rw [List.append_nil, List.append_nil]
    exact List.rel_append (List.rel_append receiver.makes args.makes) block.makes
  | .conditional branches => exact branches.makes
  | .loop body condition =>
    show List.Forall₂ Makes _ (_ ++ [])
    rw [List.append_nil]
    exact List.rel_append (makes_hoist body.makes (.inline body)) condition.makes
  | .rescue body handler otherwise =>
    show List.Forall₂ Makes _ (_ ++ [])
    rw [List.append_nil]
    exact List.rel_append (List.rel_append (List.rel_append (makes_hoist body.makes (.inline body))
      (makes_hoist handler.makes (.inline handler))) otherwise.makes) (.cons .protection .nil)

theorem LowersBody.makes {ctx ctx' : Context} {nodes : Body} {code : Code}
    (h : LowersBody ctx nodes code ctx') : List.Forall₂ Makes (ofNodes nodes) code.functions := by
  match h with
  | .nil => exact .nil
  | .last last => exact List.rel_append last.makes .nil
  | .cons first others =>
    show List.Forall₂ Makes _ (_ ++ [] ++ _)
    rw [List.append_nil]
    exact List.rel_append first.makes others.makes

theorem LowersElements.makes {ctx ctx' : Context} {v : Variable} {nodes : List Node} {code : Code}
    (h : LowersElements ctx v nodes code ctx') :
    List.Forall₂ Makes (ofNodes nodes) code.functions := by
  match h with
  | .nil => exact .nil
  | .cons first others =>
    show List.Forall₂ Makes _ (_ ++ [] ++ _)
    rw [List.append_nil]
    exact List.rel_append first.makes others.makes

theorem LowersReceiver.makes {ctx ctx' : Context} {receiver : Option Node} {code : Code}
    {rv : Option Variable} (h : LowersReceiver ctx receiver code rv ctx') :
    List.Forall₂ Makes (ofReceiver receiver) code.functions := by
  match h with
  | .none => exact .nil
  | .some receiver => exact receiver.makes

theorem LowersArgs.makes {ctx ctx' : Context} {nodes : List Node} {code : Code}
    {vars : List Variable} (h : LowersArgs ctx nodes code vars ctx') :
    List.Forall₂ Makes (ofNodes nodes) code.functions := by
  match h with
  | .nil => exact .nil
  | .cons first others => exact List.rel_append first.makes others.makes

theorem LowersBlock.makes {ctx ctx' : Context} {block : Option Block} {code : Code}
    {bn : Option Name} (h : LowersBlock ctx block code bn ctx') :
    List.Forall₂ Makes (ofBlock block) code.functions := by
  match h with
  | .none => exact .nil
  | .some _ body => exact makes_hoist body.makes (.block body)

theorem LowersBranches.makes {ctx ctx' : Context} {result : Variable}
    {otherwise : Option (List Node)} {branches : List Branch} {code : Code}
    (h : LowersBranches ctx result otherwise branches code ctx') :
    List.Forall₂ Makes (ofBranches branches ++ ofOptional otherwise) code.functions := by
  match h with
  | .nil otherwise => exact otherwise.makes
  | .cons condition body others =>
    rw [ofBranches, List.append_assoc]
    exact List.rel_append (List.rel_append condition.makes (makes_hoist body.makes (.inline body)))
      others.makes

theorem LowersOtherwise.makes {ctx ctx' : Context} {result : Variable}
    {otherwise : Option (List Node)} {code : Code}
    (h : LowersOtherwise ctx result otherwise code ctx') :
    List.Forall₂ Makes (ofOptional otherwise) code.functions := by
  match h with
  | .none => exact .nil
  | .some body => exact makes_hoist body.makes (.inline body)

theorem LowersElse.makes {ctx ctx' : Context} {otherwise : Option (List Node)}
    {functions : List Function} {name : Option Name}
    (h : LowersElse ctx otherwise functions name ctx') :
    List.Forall₂ Makes (ofOptional otherwise) functions := by
  match h with
  | .none => exact .nil
  | .some body => exact makes_hoist body.makes (.inline body)

end

end ScriptCompiler.Lowering

/-!
## Names in environments
-/

namespace ScriptCompiler

/-- A name that is bound in an environment when a program runs. -/
inductive Binder where
  /-- A variable: an assigned one, a parameter, or one that receives an exception. -/
  | variable_ (name : String)
  /-- A class or module. -/
  | constant (name : String)
  /-- A method records its own name. -/
  | ownName
  deriving DecidableEq

/-- The name. -/
def Binder.name : Binder → String
  | variable_ name => name
  | constant name => name
  | ownName => C.methodNameKey

/-- The variables of parameters. -/
def Binder.ofParams (params : List Param) : List Binder :=
  params.map fun p => .variable_ p.name

/-- What a form itself binds, apart from the nodes in it. -/
def Form.binders : Form → List Binder
  | .assign (.localVar name) _ => [.variable_ name]
  | .classDef name _ _ => [.constant name]
  | .moduleDef name _ => [.constant name]
  | .methodDef _ _ params _ => .ownName :: Binder.ofParams params
  | .send _ _ _ (some ⟨params, _⟩) => Binder.ofParams params
  | .rescue _ (some name) _ _ => [.variable_ name]
  | _ => []

theorem Form.binders_of_isAtom {form : Form} (h : form.isAtom = true) : form.binders = [] := by
  cases form <;> first | rfl | cases h

/-- The form at some place in the node binds this. -/
def Node.Binds (node : Node) (b : Binder) : Prop :=
  ∃ inner : Node, inner.Inside node ∧ b ∈ inner.form.binders

/-- Some node in the body, at any depth, binds this. -/
def Body.Binds (body : Body) (b : Binder) : Prop :=
  ∃ node, body.Contains node ∧ b ∈ node.form.binders

namespace C

/-- The name that the line of a statement binds in an environment. -/
def Stmt.boundName? : Stmt → Option String
  | .setLocal name _ => some name
  | .declareLocal name _ => some name
  | _ => none

/-- The names that a body binds in environments, at any depth of braces. -/
def boundNames (body : List Stmt) : List String :=
  (allOf body).filterMap Stmt.boundName?

theorem boundNames_append (a b : List Stmt) :
    boundNames (a ++ b) = boundNames a ++ boundNames b := by
  rw [boundNames, allOf_append, List.filterMap_append]
  rfl

theorem boundNames_branch (condition : Condition) (yes no : List Stmt) :
    boundNames [.branch condition yes no] = boundNames yes ++ boundNames no := by
  simp [boundNames, allOf, Stmt.all, List.filterMap_cons, Stmt.boundName?]

theorem boundNames_forever (body : List Stmt) : boundNames [.forever body] = boundNames body := by
  simp [boundNames, allOf, Stmt.all, List.filterMap_cons, Stmt.boundName?]

end C

namespace Lowering

open C

namespace Binders

/-- What an assignment to a target binds. -/
def ofTarget : Target → List Binder
  | .localVar name => [.variable_ name]
  | .instanceVar _ => []
  | .globalVar _ => []

mutual

/-- What a node binds in the function that it is in, in order. -/
def ofNode : Node → List Binder
  | ⟨form, _⟩ => ofForm form

def ofForm : Form → List Binder
  | .array elements => ofNodes elements
  | .assign target value => ofNode value ++ ofTarget target
  | .classDef name _ _ => [.constant name]
  | .moduleDef name _ => [.constant name]
  | .send receiver _ args _ => ofReceiver receiver ++ ofNodes args
  | .conditional branches _ => ofConditions branches
  | .loop _ condition _ => ofNode condition
  | _ => []

def ofNodes : List Node → List Binder
  | [] => []
  | node :: nodes => ofNode node ++ ofNodes nodes

def ofReceiver : Option Node → List Binder
  | none => []
  | some node => ofNode node

def ofConditions : List Branch → List Binder
  | [] => []
  | ⟨condition, _⟩ :: branches => ofNode condition ++ ofConditions branches

end

end Binders

/-- What the function of a region binds, in order. -/
def Region.binders : Region → List Binder
  | method _ params body => .ownName :: Binder.ofParams params ++ Binders.ofNodes body
  | block params body => Binder.ofParams params ++ Binders.ofNodes body
  | inline body => Binders.ofNodes body
  | protection variable_ => variable_.toList.map .variable_

/-! ### Code binds what its regions bind -/

namespace Binders

theorem ofForm_leaf {form : Form} {base : String} {e : Expr} (h : leaf? form = some (base, e)) :
    ofForm form = [] := by
  cases form <;> cases h <;> rfl

theorem ofForm_namespace {form : Form} {ns : Namespace} (h : namespace? form = some ns) :
    ofForm form = [.constant ns.name] := by
  cases form with
  | classDef name superclass body => cases h; rfl
  | moduleDef name body => cases h; rfl
  | _ => cases h

end Binders

theorem boundNames_marshal {ctx ctx' : Context} {args : List Variable} {stmts : List Stmt}
    {argv : ArgVector} (h : marshal args ctx = (.ok (stmts, argv), ctx')) :
    boundNames stmts = [] := by
  have slots (array : Name) (index : Nat) (args : List Variable) :
      boundNames (storeArgs array index args) = [] := by
    induction args generalizing index with
    | nil => rfl
    | cons arg args ih => exact ih (index + 1)
  rcases marshal_ok h with ⟨-, rfl, -, -⟩ | ⟨_, -, rfl, -, -⟩ | ⟨-, rfl, -, -⟩
  · rfl
  · rfl
  · exact slots _ 0 args

theorem boundNames_bindParams (argument : Nat → Expr) (index : Nat) (params : List Param) :
    boundNames (bindParams argument index params)
      = (Binder.ofParams params).map Binder.name := by
  induction params generalizing index with
  | nil => rfl
  | cons p params ih =>
    cases p with
    | positional name => exact congrArg (name :: ·) (ih (index + 1))
    | block name => exact congrArg (name :: ·) (ih index)

theorem boundNames_defineOn (owner : Option String) (name : String) (function : Name) :
    boundNames [defineOn owner name function] = [] := by
  cases owner <;> rfl

theorem boundNames_storeStmt (value : Variable) (target : Target) :
    boundNames [storeStmt value target] = (Binders.ofTarget target).map Binder.name := by
  cases target <;> rfl

theorem boundNames_loopStmts (kind : LoopKind) (test : Fragment) (function : Name) :
    boundNames (loopStmts kind test function) = boundNames test.code.stmts := by
  rw [loopStmts, boundNames_forever, boundNames_append]
  exact List.append_nil _

open Binders

mutual

/-- **The code of a node binds what the node does** in the same function. -/
theorem Lowers.boundNames_eq {ctx ctx' : Context} {node : Node} {frag : Fragment}
    (h : Lowers ctx node frag ctx') :
    boundNames frag.code.stmts = (ofNode node).map Binder.name := by
  match h with
  | .leaf h =>
    rw [ofNode, ofForm_leaf h]
    rfl
  | .selfRef => rfl
  | .array elements => exact elements.boundNames_eq
  | .assign value =>
    rw [Code.stmts_append, boundNames_append, value.boundNames_eq, ofNode, ofForm, List.map_append]
    exact congrArg _ (boundNames_storeStmt _ _)
  | .namespace_ h body =>
    rw [ofNode, ofForm_namespace h]
    rfl
  | .methodDef placed body =>
    rw [Code.stmts_append, boundNames_append, boundNames_defineOn]
    rfl
  | .send receiver args marshal block =>
    have handed : boundNames (Code.ofStmts _).stmts = [] := boundNames_marshal marshal
    simp only [Code.stmts_append, boundNames_append, receiver.boundNames_eq, args.boundNames_eq,
      handed, block.boundNames_eq, ofNode, ofForm, List.map_append, List.append_nil]
    exact List.append_nil _
  | .conditional branches => exact branches.boundNames_eq
  | .loop body condition =>
    rw [Code.stmts_append, boundNames_append, boundNames_loopStmts, condition.boundNames_eq]
    exact List.append_nil _
  | .rescue body handler otherwise => rfl

theorem LowersBody.boundNames_eq {ctx ctx' : Context} {nodes : Body} {code : Code}
    (h : LowersBody ctx nodes code ctx') :
    boundNames code.stmts = (ofNodes nodes).map Binder.name := by
  match h with
  | .nil => rfl
  | .last last =>
    rw [Code.stmts_append, boundNames_append, last.boundNames_eq, ofNodes, ofNodes,
      List.append_nil]
    exact List.append_nil _
  | .cons first others =>
    rw [ofNodes, List.map_append, Code.stmts_append, Code.stmts_append, boundNames_append,
      boundNames_append, first.boundNames_eq, others.boundNames_eq]
    exact congrArg (· ++ _) (List.append_nil _)

theorem LowersElements.boundNames_eq {ctx ctx' : Context} {v : Variable} {nodes : List Node}
    {code : Code} (h : LowersElements ctx v nodes code ctx') :
    boundNames code.stmts = (ofNodes nodes).map Binder.name := by
  match h with
  | .nil => rfl
  | .cons first others =>
    rw [Code.stmts_append, Code.stmts_append, boundNames_append, boundNames_append,
      first.boundNames_eq, others.boundNames_eq, ofNodes, List.map_append]
    exact congrArg (· ++ _) (List.append_nil _)

theorem LowersReceiver.boundNames_eq {ctx ctx' : Context} {receiver : Option Node} {code : Code}
    {rv : Option Variable} (h : LowersReceiver ctx receiver code rv ctx') :
    boundNames code.stmts = (ofReceiver receiver).map Binder.name := by
  match h with
  | .none => rfl
  | .some receiver => exact receiver.boundNames_eq

theorem LowersArgs.boundNames_eq {ctx ctx' : Context} {nodes : List Node} {code : Code}
    {vars : List Variable} (h : LowersArgs ctx nodes code vars ctx') :
    boundNames code.stmts = (ofNodes nodes).map Binder.name := by
  match h with
  | .nil => rfl
  | .cons first others =>
    rw [Code.stmts_append, boundNames_append, first.boundNames_eq, others.boundNames_eq, ofNodes,
      List.map_append]

theorem LowersBlock.boundNames_eq {ctx ctx' : Context} {block : Option Block} {code : Code}
    {bn : Option Name} (h : LowersBlock ctx block code bn ctx') : boundNames code.stmts = [] := by
  cases h <;> rfl

theorem LowersBranches.boundNames_eq {ctx ctx' : Context} {result : Variable}
    {otherwise : Option (List Node)} {branches : List Branch} {code : Code}
    (h : LowersBranches ctx result otherwise branches code ctx') :
    boundNames code.stmts = (ofConditions branches).map Binder.name := by
  match h with
  | .nil otherwise => exact otherwise.boundNames_eq
  | .cons condition body others =>
    rw [boundNames_append, boundNames_branch, condition.boundNames_eq, others.boundNames_eq,
      ofConditions, List.map_append]
    rfl

theorem LowersOtherwise.boundNames_eq {ctx ctx' : Context} {result : Variable}
    {otherwise : Option (List Node)} {code : Code}
    (h : LowersOtherwise ctx result otherwise code ctx') : boundNames code.stmts = [] := by
  cases h <;> rfl

end

/-- **A function binds what its region does.** -/
theorem Makes.boundNames_eq {region : Region} {f : Function} (h : Makes region f) :
    boundNames f.body = region.binders.map Binder.name := by
  cases h with
  | @method _ _ _ name params _ _ lowered =>
    have first : boundNames (methodEntry name params)
        = methodNameKey :: (Binder.ofParams params).map Binder.name := by
      rw [methodEntry, boundNames_append, boundNames_append, boundNames_append,
        boundNames_bindParams]
      split <;> rfl
    rw [boundNames_append, first, lowered.boundNames_eq, Region.binders, List.map_append]
    rfl
  | @block _ _ _ params _ _ lowered =>
    have first : boundNames (blockEntry params) = (Binder.ofParams params).map Binder.name := by
      rw [blockEntry, boundNames_append, boundNames_append, boundNames_bindParams]
      split <;> rfl
    rw [boundNames_append, first, lowered.boundNames_eq, Region.binders, List.map_append]
  | inline lowered => exact lowered.boundNames_eq
  | @protection _ _ _ otherwise variable_ =>
    cases otherwise <;> cases variable_ <;> rfl

/-! ### What regions bind stands in the program -/

/-- The form binds this, or a node in it does. -/
def FormBinds (form : Form) (b : Binder) : Prop :=
  b ∈ form.binders ∨ ∃ child, form.Holds child ∧ child.Binds b

section Binds

set_option linter.unusedSectionVars false

variable {b : Binder} {form : Form} {child : Node}

theorem FormBinds.held (holds : form.Holds child) (h : child.Binds b) : FormBinds form b :=
  .inr ⟨child, holds, h⟩

theorem FormBinds.node {span : Span} (h : FormBinds form b) : Node.Binds ⟨form, span⟩ b := by
  rcases h with h | ⟨child, holds, inner, inside, h⟩
  · exact ⟨_, .refl _, h⟩
  · exact ⟨inner, inside.held holds, h⟩

theorem mem_binders_of_mem_ofTarget {target : Target} {value : Node}
    (h : b ∈ Binders.ofTarget target) : b ∈ (Form.assign target value).binders := by
  cases target with
  | localVar name => exact h
  | instanceVar name => cases h
  | globalVar name => cases h

mutual

theorem binds_of_mem_ofNode : (node : Node) → b ∈ ofNode node → node.Binds b
  | ⟨form, _⟩, h => (formBinds_of_mem form h).node

theorem formBinds_of_mem : (form : Form) → b ∈ ofForm form → FormBinds form b
  | .array elements, h => by
    obtain ⟨child, hm, hc⟩ := binds_of_mem_ofNodes elements h
    exact .held (.element hm) hc
  | .assign _ value, h => by
    rcases List.mem_append.mp h with h | h
    · exact .held .value (binds_of_mem_ofNode value h)
    · exact .inl (mem_binders_of_mem_ofTarget h)
  | .classDef _ _ _, h => .inl h
  | .moduleDef _ _, h => .inl h
  | .send receiver _ args _, h => by
    rcases List.mem_append.mp h with h | h
    · obtain ⟨child, rfl, hc⟩ := binds_of_mem_ofReceiver receiver h
      exact .held .receiver hc
    · obtain ⟨child, hm, hc⟩ := binds_of_mem_ofNodes args h
      exact .held (.argument hm) hc
  | .conditional branches _, h => by
    obtain ⟨⟨condition, body⟩, hm, hc⟩ := binds_of_mem_ofConditions branches h
    exact .held (.condition hm) hc
  | .loop _ condition _, h => .held .loopCondition (binds_of_mem_ofNode condition h)
  | .integer _, h | .str _, h | .symbol _, h | .selfRef, h | .localVar _, h | .instanceVar _, h
  | .globalVar _, h | .methodDef _ _ _ _, h | .rescue _ _ _ _, h | .directive _ _, h
  | .unknown, h => by cases h

theorem binds_of_mem_ofNodes : (nodes : List Node) → b ∈ ofNodes nodes →
    ∃ child ∈ nodes, child.Binds b
  | [], h => by cases h
  | node :: nodes, h => by
    rcases List.mem_append.mp h with h | h
    · exact ⟨node, List.mem_cons_self, binds_of_mem_ofNode node h⟩
    · obtain ⟨child, hm, hc⟩ := binds_of_mem_ofNodes nodes h
      exact ⟨child, List.mem_cons_of_mem _ hm, hc⟩

theorem binds_of_mem_ofReceiver : (receiver : Option Node) → b ∈ ofReceiver receiver →
    ∃ child, receiver = some child ∧ child.Binds b
  | none, h => by cases h
  | some node, h => ⟨node, rfl, binds_of_mem_ofNode node h⟩

theorem binds_of_mem_ofConditions : (branches : List Branch) → b ∈ ofConditions branches →
    ∃ branch ∈ branches, branch.condition.Binds b
  | [], h => by cases h
  | ⟨condition, body⟩ :: branches, h => by
    rcases List.mem_append.mp h with h | h
    · exact ⟨_, List.mem_cons_self, binds_of_mem_ofNode condition h⟩
    · obtain ⟨branch, hm, hc⟩ := binds_of_mem_ofConditions branches h
      exact ⟨branch, List.mem_cons_of_mem _ hm, hc⟩

end

/-- A region that is one of a body's, or that of the body itself. -/
theorem binds_of_mem_inline {regions : List Region} {region : Region} {body : Body}
    (inner : region ∈ regions → ∃ child ∈ body, child.Binds b) (h : b ∈ region.binders)
    (hr : region ∈ regions ++ [.inline body]) : ∃ child ∈ body, child.Binds b := by
  rcases List.mem_append.mp hr with hr | hr
  · exact inner hr
  · cases List.mem_singleton.mp hr
    exact binds_of_mem_ofNodes body h

variable {region : Region} (hb : b ∈ region.binders)

include hb

mutual

theorem binds_of_region : (node : Node) → region ∈ Regions.ofNode node → node.Binds b
  | ⟨form, _⟩, h => (formBinds_of_region form h).node

theorem formBinds_of_region : (form : Form) → region ∈ Regions.ofForm form → FormBinds form b
  | .array elements, h => by
    obtain ⟨child, hm, hc⟩ := binds_of_region_ofNodes elements h
    exact .held (.element hm) hc
  | .assign _ value, h => .held .value (binds_of_region value h)
  | .classDef _ _ body, h => by
    obtain ⟨child, hm, hc⟩ := binds_of_mem_inline (binds_of_region_ofNodes body) hb h
    exact .held (.classBody hm) hc
  | .moduleDef _ body, h => by
    obtain ⟨child, hm, hc⟩ := binds_of_mem_inline (binds_of_region_ofNodes body) hb h
    exact .held (.moduleBody hm) hc
  | .methodDef _ _ params body, h => by
    rcases List.mem_append.mp h with h | h
    · obtain ⟨child, hm, hc⟩ := binds_of_region_ofNodes body h
      exact .held (.methodBody hm) hc
    · cases List.mem_singleton.mp h
      rcases List.mem_append.mp hb with hb | hb
      · exact .inl hb
      · obtain ⟨child, hm, hc⟩ := binds_of_mem_ofNodes body hb
        exact .held (.methodBody hm) hc
  | .send receiver _ args block, h => by
    rw [Regions.ofForm, List.mem_append, List.mem_append] at h
    rcases h with (h | h) | h
    · obtain ⟨child, rfl, hc⟩ := binds_of_region_ofReceiver receiver h
      exact .held .receiver hc
    · obtain ⟨child, hm, hc⟩ := binds_of_region_ofNodes args h
      exact .held (.argument hm) hc
    · obtain ⟨params, body, rfl, hp | ⟨child, hm, hc⟩⟩ := binds_of_region_ofBlock block h
      · exact .inl hp
      · exact .held (.blockBody hm) hc
  | .conditional branches otherwise, h => by
    rcases List.mem_append.mp h with h | h
    · obtain ⟨⟨condition, body⟩, hm, hc | ⟨child, hcm, hc⟩⟩ :=
        binds_of_region_ofBranches branches h
      · exact .held (.condition hm) hc
      · exact .held (.branchBody hm hcm) hc
    · obtain ⟨body, rfl, child, hm, hc⟩ := binds_of_region_ofOptional otherwise h
      exact .held (.noBranch hm) hc
  | .loop _ condition body, h => by
    rcases List.mem_append.mp h with h | h
    · obtain ⟨child, hm, hc⟩ := binds_of_mem_inline (binds_of_region_ofNodes body) hb h
      exact .held (.loopBody hm) hc
    · exact .held .loopCondition (binds_of_region condition h)
  | .rescue body variable_ handler otherwise, h => by
    rw [Regions.ofForm, List.mem_append, List.mem_append, List.mem_append] at h
    rcases h with ((h | h) | h) | h
    · obtain ⟨child, hm, hc⟩ := binds_of_mem_inline (binds_of_region_ofNodes body) hb h
      exact .held (.protected_ hm) hc
    · obtain ⟨child, hm, hc⟩ := binds_of_mem_inline (binds_of_region_ofNodes handler) hb h
      exact .held (.handler hm) hc
    · obtain ⟨body, rfl, child, hm, hc⟩ := binds_of_region_ofOptional otherwise h
      exact .held (.elseBody hm) hc
    · cases List.mem_singleton.mp h
      cases variable_ with
      | none => cases hb
      | some name => exact .inl hb
  | .integer _, h | .str _, h | .symbol _, h | .selfRef, h | .localVar _, h | .instanceVar _, h
  | .globalVar _, h | .directive _ _, h | .unknown, h => by cases h

theorem binds_of_region_ofNodes : (nodes : List Node) → region ∈ Regions.ofNodes nodes →
    ∃ child ∈ nodes, child.Binds b
  | [], h => by cases h
  | node :: nodes, h => by
    rcases List.mem_append.mp h with h | h
    · exact ⟨node, List.mem_cons_self, binds_of_region node h⟩
    · obtain ⟨child, hm, hc⟩ := binds_of_region_ofNodes nodes h
      exact ⟨child, List.mem_cons_of_mem _ hm, hc⟩

theorem binds_of_region_ofReceiver : (receiver : Option Node) →
    region ∈ Regions.ofReceiver receiver → ∃ child, receiver = some child ∧ child.Binds b
  | none, h => by cases h
  | some node, h => ⟨node, rfl, binds_of_region node h⟩

theorem binds_of_region_ofBlock : (block : Option Block) → region ∈ Regions.ofBlock block →
    ∃ params body, block = some ⟨params, body⟩
      ∧ (b ∈ Binder.ofParams params ∨ ∃ child ∈ body, child.Binds b)
  | none, h => by cases h
  | some ⟨params, body⟩, h => by
    refine ⟨params, body, rfl, ?_⟩
    rcases List.mem_append.mp h with h | h
    · exact .inr (binds_of_region_ofNodes body h)
    · cases List.mem_singleton.mp h
      exact (List.mem_append.mp hb).imp_right (binds_of_mem_ofNodes body)

theorem binds_of_region_ofBranches : (branches : List Branch) →
    region ∈ Regions.ofBranches branches → ∃ branch ∈ branches,
      branch.condition.Binds b ∨ ∃ child ∈ branch.body, child.Binds b
  | [], h => by cases h
  | ⟨condition, body⟩ :: branches, h => by
    rw [Regions.ofBranches, List.mem_append, List.mem_append] at h
    rcases h with (h | h) | h
    · exact ⟨_, List.mem_cons_self, .inl (binds_of_region condition h)⟩
    · exact ⟨_, List.mem_cons_self, .inr (binds_of_mem_inline (binds_of_region_ofNodes body) hb h)⟩
    · obtain ⟨branch, hm, hc⟩ := binds_of_region_ofBranches branches h
      exact ⟨branch, List.mem_cons_of_mem _ hm, hc⟩

theorem binds_of_region_ofOptional : (optional : Option (List Node)) →
    region ∈ Regions.ofOptional optional →
      ∃ body, optional = some body ∧ ∃ child ∈ body, child.Binds b
  | none, h => by cases h
  | some body, h => ⟨body, rfl, binds_of_mem_inline (binds_of_region_ofNodes body) hb h⟩

end

end Binds

end Lowering

end ScriptCompiler
