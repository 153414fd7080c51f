import ScriptCompiler.C.Code
import ScriptCompiler.Source.Span
import ScriptCompiler.Syntax.Basic

/-!
# Lowering steps

A lowering step reads and changes the state of the compilation and gives a result, or fails; the
state that it reached is kept when it fails. What a node is lowered to is a fragment: functions for
the scopes inside it, statements to run in its place, and the variable that then holds its value.
-/

namespace ScriptCompiler

/-! ## The state of a compilation

What lowering carries from one node to the next: the number of the last generated name, the local
variables of the outermost scope with the order of their first assignments, and how many inner
scopes are open.
-/

/-- The local variables of the outermost scope with their indexes, in order of appearance. -/
structure VarMap where
  entries : List (String × Nat)
  deriving DecidableEq, Repr

namespace VarMap

/-- No variables. -/
def empty : VarMap := ⟨[]⟩

/-- The index of a variable. -/
def get? (m : VarMap) (name : String) : Option Nat :=
  m.entries.lookup name

/-- The names of the variables. -/
def names (m : VarMap) : List String :=
  m.entries.map Prod.fst

/-- How many variables there are. -/
def size (m : VarMap) : Nat :=
  m.entries.length

/-- Gives a variable an index; the one that it had is replaced. -/
def insert (m : VarMap) (name : String) (index : Nat) : VarMap :=
  ⟨m.entries.filter (·.1 ≠ name) ++ [(name, index)]⟩

/-- Gives a new variable the next index; a known one keeps its own. -/
def declare (m : VarMap) (name : String) : VarMap :=
  if m.names.contains name then m else ⟨m.entries ++ [(name, m.size)]⟩

theorem isSome_get?_iff {m : VarMap} {name : String} :
    (m.get? name).isSome = true ↔ name ∈ m.names := by
  simp [get?, names]

theorem size_declare_of_new {m : VarMap} {name : String} (h : name ∉ m.names) :
    (m.declare name).size = m.size + 1 := by
  simp [declare, h, size]

theorem declare_of_known {m : VarMap} {name : String} (h : name ∈ m.names) :
    m.declare name = m := by
  simp [declare, h]

end VarMap

namespace Lowering

/-- The state of a compilation. -/
structure Context where
  /-- Shared by all generated names. -/
  lead : String
  /-- The number of the last generated name. -/
  counter : Nat
  vars : VarMap
  /-- Inner scopes that are open: bodies of classes, modules, methods and blocks. -/
  depth : Nat
  deriving DecidableEq, Repr

namespace Context

/-- A compilation at its start. -/
def start (lead : String) (vars : VarMap) : Context :=
  ⟨lead, 0, vars, 0⟩

/-- A name with a number of its own. -/
def fresh (ctx : Context) (base : String) : C.Name × Context :=
  (⟨ctx.lead, base, ctx.counter + 1⟩, { ctx with counter := ctx.counter + 1 })

/-- Records an assignment to a local variable, unless it belongs to an inner scope. -/
def declare (ctx : Context) (name : String) : Context :=
  if ctx.depth = 0 then { ctx with vars := ctx.vars.declare name } else ctx

end Context

end Lowering

/-! ## Steps -/

namespace Lowering

/-- What a parameter list belongs to. -/
inductive ParamOwner where
  | method (name : String)
  /-- The block passed with a message of this name. -/
  | block (message : String)
  deriving DecidableEq, Repr

/-- Why a program cannot be compiled. -/
inductive Failure where
  /-- A node of a kind that this library does not know. -/
  | unknownNode (span : Span)
  /-- A parameter that receives the block and is not the last one. -/
  | blockParamNotLast (owner : ParamOwner) (param : String)
  /-- A directive that was not replaced by the contents of its file. -/
  | unexpandedDirective (kind : DirectiveKind) (path : String)
  /-- A unit whose name is not a C identifier. -/
  | invalidUnitName (name : String)
  deriving DecidableEq, Repr

/-- The owner of a parameter list as messages name it. -/
def ParamOwner.text : ParamOwner → String
  | .method name => "method '" ++ name ++ "'"
  | .block message => "block passed to '" ++ message ++ "'"

/-- The message of a failure. -/
def Failure.message : Failure → String
  | .unknownNode span => "unknown AST node at " ++ span.text
  | .blockParamNotLast owner param =>
    "block parameter '&" ++ param ++ "' must be the last parameter of " ++ owner.text
  | .unexpandedDirective kind path =>
    "unexpanded " ++ kind.text ++ " '" ++ path
      ++ "': loader directives must be expanded before lowering"
  | .invalidUnitName name => "invalid object unit name '" ++ name ++ "'"

/-- A step of lowering. -/
abbrev Step (α : Type) := ExceptT Failure (StateM Context) α

/-- A name with a number of its own. -/
def fresh (base : String) : Step C.Name :=
  modifyGet fun ctx => ctx.fresh base

/-- A variable with a number of its own. -/
def freshVariable (base : String) : Step C.Variable := do
  return .generated (← fresh base)

/-- Records an assignment to a local variable. -/
def declare (name : String) : Step Unit :=
  modify fun ctx => ctx.declare name

/-- Runs a step inside an inner scope, which closes again even if the step fails. -/
def inScope {α : Type} (step : Step α) : Step α := fun ctx =>
  let (result, after) := step.run { ctx with depth := ctx.depth + 1 }
  (result, { after with depth := after.depth - 1 })

/-- Functions for inner scopes and statements to run. -/
structure Code where
  functions : List C.Function
  stmts : List C.Stmt

namespace Code

/-- Statements alone. -/
def ofStmts (stmts : List C.Stmt) : Code :=
  ⟨[], stmts⟩

/-- Code followed by other code. -/
def append (a b : Code) : Code :=
  ⟨a.functions ++ b.functions, a.stmts ++ b.stmts⟩

instance : Append Code := ⟨append⟩

@[simp] theorem functions_append (a b : Code) :
    (a ++ b).functions = a.functions ++ b.functions := rfl

@[simp] theorem stmts_append (a b : Code) : (a ++ b).stmts = a.stmts ++ b.stmts := rfl

end Code

/-- What a node is lowered to. -/
structure Fragment where
  code : Code
  /-- The variable that holds the node's value after the statements. -/
  result : C.Variable

/-- A fresh variable that is declared with a value. -/
def bindFresh (base : String) (value : C.Expr) : Step Fragment := do
  let v ← freshVariable base
  return ⟨.ofStmts [.declare v value], v⟩

/-- Makes the body of a scope a function of its own. -/
def hoist (name : C.Name) (signature : C.Signature) (before : List C.Stmt) (body : Code) :
    List C.Function :=
  body.functions ++ [⟨name, signature, before ++ body.stmts⟩]

end Lowering

end ScriptCompiler
