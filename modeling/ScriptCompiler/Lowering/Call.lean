import ScriptCompiler.Lowering.Basic
import ScriptCompiler.Token.Word

/-!
# Calls and parameters

How arguments are handed over. No argument needs no vector, one is passed by its address, and more
go into an array that is filled before the call. A method checks how many arguments it got; a block
takes nil for those that are missing.
-/

namespace ScriptCompiler.Lowering

open C

/-- The statements that fill a vector of arguments, from an index on. -/
def storeArgs (array : Name) : Nat → List Variable → List Stmt
  | _, [] => []
  | index, arg :: args => .storeArg array index arg :: storeArgs array (index + 1) args

/-- The vector of arguments, and the statements that make it. -/
def marshal (args : List Variable) : Step (List Stmt × ArgVector) :=
  match args with
  | [] => return ([], .none)
  | [arg] => return ([], .single arg)
  | _ => do
    let array ← fresh "args"
    return (.declareArgs array args.length :: storeArgs array 0 args, .array array)

/-- The call that a message is lowered to. Without a receiver the names `super` and `yield` mean the
reserved words, and any other name may be bound; with one, only a name with a capital first letter
may. -/
def callOf (receiver : Option Variable) (name : String) (passed : Passed) : Expr :=
  match receiver with
  | none =>
    if name = "super" then .callSuper passed
    else if name = "yield" then .runBlock passed
    else .lookupOrSend .self name passed
  | some receiver =>
    if Token.startsUpper name then .lookupOrSend receiver name passed
    else .send receiver name passed

/-- The first parameter that receives the block and is not the last one. -/
def misplacedBlock? : List Param → Option Param
  | [] => none
  | [_] => none
  | p :: rest => if p.isBlock then some p else misplacedBlock? rest

/-- Fails unless a parameter that receives the block comes last. -/
def checkParams (owner : ParamOwner) (params : List Param) : Step Unit :=
  match misplacedBlock? params with
  | some p => throw (.blockParamNotLast owner p.name)
  | none => return

/-- How many parameters are not for the block. -/
def positionalCount (params : List Param) : Nat :=
  (params.filter fun p => !p.isBlock).length

/-- The statements that bind parameters, from the argument with the given index on. -/
def bindParams (argument : Nat → Expr) : Nat → List Param → List Stmt
  | _, [] => []
  | index, .positional name :: params =>
    .declareLocal name (argument index) :: bindParams argument (index + 1) params
  | index, .block name :: params =>
    .declareLocal name .passedBlock :: bindParams argument index params

/-- What a method does before its body. -/
def methodEntry (name : String) (params : List Param) : List Stmt :=
  let count := positionalCount params
  [.unused .kwargs] ++ (if count = 0 then [.unused .args] else [])
    ++ [.assertArgc count, .enterEnv, .declareLocal methodNameKey (.symbol name), .setBlock]
    ++ bindParams .argument 0 params

/-- What a block does before its body. -/
def blockEntry (params : List Param) : List Stmt :=
  (if positionalCount params = 0 then [.unused .argc, .unused .args] else [])
    ++ [.unused .kwargs, .enterBlockEnv] ++ bindParams .argumentOrNil 0 params

end ScriptCompiler.Lowering
