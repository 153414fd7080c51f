/-!
# Emitted code

The C statements that the compiler emits, as data. Every value of the compiled program is held by a
C variable, and every operation on values is a call of the runtime library. Functions do not nest in
C, so each scope of the compiled program becomes a function of its own at file level.
-/

namespace ScriptCompiler.C

/-! ## Generated names

A generated C identifier is put together from a prefix that all names of one compilation share, a
base that says what it is for, and a number that the compilation gives out once.
-/

/-- A generated identifier. -/
structure Name where
  /-- Shared by all names of one compilation. -/
  lead : String
  /-- What the name is for. -/
  base : String
  number : Nat
  deriving DecidableEq, Repr

/-- The spelling of a generated identifier. -/
def Name.text (n : Name) : String :=
  n.lead ++ n.base ++ toString n.number

/-! ## Code -/

/-- A variable that holds a value. -/
inductive Variable where
  /-- The receiver of the function. -/
  | self
  /-- The value of a protected body, in the function that protects it. -/
  | outcome
  | generated (name : Name)
  deriving DecidableEq, Repr

/-- A parameter of a function with the method signature that code may leave unused. -/
inductive Formal where
  | argc
  | args
  | kwargs
  deriving DecidableEq, Repr

/-- The vector of arguments of a call. -/
inductive ArgVector where
  | none
  /-- The address of the only argument. -/
  | single (arg : Variable)
  | array (name : Name)
  deriving DecidableEq, Repr

/-- What is passed with a message. -/
structure Passed where
  argc : Nat
  argv : ArgVector
  /-- The variable of the block object, if a block is passed. -/
  block : Option Name
  deriving DecidableEq, Repr

/-- An expression with a value. Names of the compiled program are strings. -/
inductive Expr where
  | variable_ (v : Variable)
  | integer (value : Int64)
  | str (value : String)
  | symbol (name : String)
  | emptyArray
  /-- The value that an environment binds to a name. -/
  | getLocal (name : String)
  /-- The same, or a null pointer if the name is unbound. -/
  | lookup (name : String)
  | getInstance (name : String)
  | getGlobal (name : String)
  | newClass (superclass name : String)
  | newModule (name : String)
  | send (receiver : Variable) (name : String) (passed : Passed)
  /-- A message that a binding of its name takes precedence over. -/
  | lookupOrSend (receiver : Variable) (name : String) (passed : Passed)
  /-- The method of the superclass. -/
  | callSuper (passed : Passed)
  /-- The block passed to the current method. -/
  | runBlock (passed : Passed)
  /-- A function run on the current environment and receiver. -/
  | callHere (function : Name)
  /-- A function run on a child environment, with another receiver. -/
  | callInside (function : Name) (receiver : Variable)
  | exception
  /-- The passed block as a value. -/
  | passedBlock
  | argument (index : Nat)
  /-- An argument, or nil if there are not so many. -/
  | argumentOrNil (index : Nat)
  deriving DecidableEq, Repr

/-- The name that every environment binds to the value nil. -/
def nilName : String := "nil"

/-- The name under which a method finds its own name. -/
def methodNameKey : String := "__method__"

/-- The value nil. -/
def Expr.nil : Expr := .getLocal nilName

/-- What decides a branch. -/
inductive Condition where
  | truthy (v : Variable)
  /-- The variable holds a null pointer. -/
  | isNull (v : Variable)
  /-- A rescue scope opens; it is false when an exception comes back to the scope. -/
  | rescueOpens
  deriving DecidableEq, Repr

/-- A statement. -/
inductive Stmt where
  /-- Declares a variable with a value. -/
  | declare (v : Variable) (value : Expr)
  | assign (v : Variable) (value : Expr)
  /-- Evaluates and forgets. -/
  | discard (value : Expr)
  | unused (formal : Formal)
  | push (array value : Variable)
  /-- Assigns to a name of the compiled program. -/
  | setLocal (name : String) (value : Expr)
  /-- Binds a name of the compiled program in the innermost environment. -/
  | declareLocal (name : String) (value : Expr)
  | setInstance (name : String) (value : Variable)
  | setGlobal (name : String) (value : Variable)
  /-- Declares a vector of arguments. -/
  | declareArgs (array : Name) (size : Nat)
  | storeArg (array : Name) (index : Nat) (value : Variable)
  /-- Declares a block object. -/
  | declareBlock (name function : Name)
  | defineMethod (name : String) (function : Name)
  | defineSingleton (owner : Expr) (name : String) (function : Name)
  | assertArgc (count : Nat)
  /-- Goes on in a child environment. -/
  | enterEnv
  /-- Goes on in a child environment that leaves outer names visible. -/
  | enterBlockEnv
  /-- Makes the passed block the current one. -/
  | setBlock
  /-- Closes the rescue scope. -/
  | closeRescue
  /-- Runs the first list if the condition holds, else the second one. -/
  | branch (condition : Condition) (yes no : List Stmt)
  /-- Runs a list until a statement in it leaves the loop. -/
  | forever (body : List Stmt)
  /-- Leaves the loop if the value is truthy, or if it is not. -/
  | breakIf (v : Variable) (truthy : Bool)
  | return_ (value : Expr)

/-- The parameters of a function. -/
inductive Signature where
  /-- Called by the runtime library, with arguments and a block. -/
  | method
  /-- Called by emitted code, with an environment and a receiver. -/
  | scoped
  deriving DecidableEq, Repr

/-- A function at file level. -/
structure Function where
  name : Name
  signature : Signature
  body : List Stmt

end ScriptCompiler.C
