import ScriptCompiler.Source.Span

/-!
# Syntax trees

A program is a sequence of nodes, each with the span of source it was read from. The value of a
sequence is the value of its last node.
-/

namespace ScriptCompiler

/-- Where an assignment stores its value. The names of instance and global variables keep their
sigils. -/
inductive Target where
  | localVar (name : String)
  | instanceVar (name : String)
  | globalVar (name : String)
  deriving DecidableEq, Repr

/-- A formal parameter of a method or block. -/
inductive Param where
  | positional (name : String)
  /-- Receives the block that was passed; only the last parameter may. -/
  | block (name : String)
  deriving DecidableEq, Repr

namespace Param

/-- The name that the parameter binds. -/
def name : Param → String
  | .positional name => name
  | .block name => name

/-- The parameter receives the block that was passed. -/
def isBlock : Param → Bool
  | .positional _ => false
  | .block _ => true

end Param

/-- When a loop goes on. -/
inductive LoopKind where
  | whileTruthy
  | untilTruthy
  deriving DecidableEq, Repr

/-- How a directive names and repeats the file it stands for. -/
inductive DirectiveKind where
  /-- A file on the load path, at most once. -/
  | require
  /-- A file beside the current one, at most once. -/
  | requireRelative
  /-- A file on the load path, every time. -/
  | load
  deriving DecidableEq, Repr

mutual

/-- A node of a syntax tree. -/
structure Node where
  form : Form
  span : Span

/-- What a node is. -/
inductive Form where
  | integer (value : Int64)
  | str (value : String)
  | symbol (name : String)
  | array (elements : List Node)
  | selfRef
  /-- A bound local variable; the names `nil`, `true` and `false` are bound everywhere. -/
  | localVar (name : String)
  | instanceVar (name : String)
  | globalVar (name : String)
  | assign (target : Target) (value : Node)
  | classDef (name : String) (superclass : Option String) (body : List Node)
  | moduleDef (name : String) (body : List Node)
  /-- A method of the current receiver's instances or, with an owner, of one object; the owner
  `self` is the current receiver. -/
  | methodDef (owner : Option String) (name : String) (params : List Param) (body : List Node)
  /-- A message to a receiver, or to the current one if there is none. Without a receiver the names
  `super` and `yield` mean the reserved words. -/
  | send (receiver : Option Node) (name : String) (args : List Node) (block : Option Block)
  | conditional (branches : List Branch) (otherwise : Option (List Node))
  | loop (kind : LoopKind) (condition : Node) (body : List Node)
  /-- A protected body, the variable that receives an exception, the body that runs after one, and
  the body that runs after none. -/
  | rescue (body : List Node) (variable_ : Option String) (handler : List Node)
      (otherwise : Option (List Node))
  | directive (kind : DirectiveKind) (path : String)
  /-- A node of a kind that this library does not know. -/
  | unknown

/-- A block that is passed with a message. -/
structure Block where
  params : List Param
  body : List Node

/-- A condition and what runs when it holds. -/
structure Branch where
  condition : Node
  body : List Node

end

/-- A sequence of statements. -/
abbrev Body := List Node

instance : Inhabited Node := ⟨⟨.unknown, .synthetic⟩⟩

/-- The name of a directive. -/
def DirectiveKind.text : DirectiveKind → String
  | .require => "require"
  | .requireRelative => "require_relative"
  | .load => "load"

/-- All directives. -/
def DirectiveKind.all : List DirectiveKind := [.require, .requireRelative, .load]

namespace Form

/-- What messages call a node of this form. -/
def kindName : Form → String
  | .integer _ => "integer"
  | .str _ => "string"
  | .symbol _ => "symbol"
  | .array _ => "array"
  | .selfRef => "self"
  | .localVar _ => "local variable"
  | .instanceVar _ => "instance variable"
  | .globalVar _ => "global variable"
  | .assign _ _ => "assignment"
  | .classDef _ _ _ => "class"
  | .moduleDef _ _ => "module"
  | .methodDef _ _ _ _ => "def"
  | .send _ _ _ _ => "send"
  | .conditional _ _ => "if"
  | .loop .whileTruthy _ _ => "while"
  | .loop .untilTruthy _ _ => "until"
  | .rescue _ _ _ _ => "begin"
  | .directive kind _ => kind.text
  | .unknown => "unknown"

/-- The node stands for the contents of a file. -/
def isDirective : Form → Bool
  | .directive _ _ => true
  | _ => false

/-- A message without a block. -/
def message (receiver : Option Node) (name : String) (args : List Node) : Form :=
  .send receiver name args none

end Form

namespace Node

/-- A node that was built and not read. -/
def synthetic (form : Form) : Node :=
  ⟨form, .synthetic⟩

end Node

end ScriptCompiler
