import ScriptCompiler.Lowering.Call

/-!
# Lowering nodes

Every node becomes statements that leave its value in a variable. Bodies of classes, modules,
methods, blocks, branches, loops and protected bodies become functions of their own; those of
branches, loops and protected bodies run in the environment of the code around them, so that the
variables they assign are visible after them.
-/

namespace ScriptCompiler.Lowering

open C

/-- Runs a function on the current environment and receiver and keeps its value in a variable. -/
def assignCall (result : Variable) (function : Name) : Stmt :=
  .assign result (.callHere function)

/-- What surrounds a protected body: it runs inside a rescue scope on an environment of its own, and
the scope is closed before anything else runs. -/
def rescueWrapper (protected_ handler : Name) (otherwise : Option Name)
    (variable_ : Option String) : List Stmt :=
  let normally : List Stmt :=
    match otherwise with
    | some otherwise =>
      [.discard (.callHere protected_), .closeRescue, .return_ (.callHere otherwise)]
    | none =>
      [.declare .outcome (.callHere protected_), .closeRescue, .return_ (.variable_ .outcome)]
  [.enterBlockEnv, .branch .rescueOpens normally [], .closeRescue]
    ++ (match variable_ with
      | some name => [.setLocal name .exception]
      | none => [])
    ++ [.return_ (.callHere handler)]

/-- The assignment to a target of a value that a variable holds. -/
def store (target : Target) (value : Variable) : Step Stmt :=
  match target with
  | .localVar name => do
    declare name
    return .setLocal name (.variable_ value)
  | .instanceVar name => return .setInstance name value
  | .globalVar name => return .setGlobal name value

/-- The definition of a method on its owner. -/
def defineOn (owner : Option String) (name : String) (function : Name) : Stmt :=
  match owner with
  | none => .defineMethod name function
  | some owner =>
    .defineSingleton (if owner = "self" then .variable_ .self else .getLocal owner) name function

/-- What the body of a loop is called. -/
def loopBase : LoopKind → String
  | .whileTruthy => "while_body"
  | .untilTruthy => "until_body"

/-- The body of a class or module: found by its name, or created and bound to it, and then the
receiver of the function that runs the body in an environment of its own. -/
def openNamespace (base name : String) (create : Expr) (function : Name) : Step Fragment := do
  let object ← freshVariable base
  let result ← freshVariable (base ++ "_result")
  return ⟨.ofStmts [
    .declare object (.lookup name),
    .branch (.isNull object)
      [.assign object create, .setLocal name (.variable_ object)] [],
    .declare result (.callInside function object)], result⟩

mutual

/-- Lowers a node. -/
def lower : Node → Step Fragment
  | ⟨form, span⟩ => lowerForm span form

/-- Lowers a node that stands at a span. -/
def lowerForm (span : Span) : Form → Step Fragment
  | .integer value => bindFresh "int" (.integer value)
  | .str value => bindFresh "str" (.str value)
  | .symbol name => bindFresh "sym" (.symbol name)
  | .array elements => do
    let array ← freshVariable "arr"
    let code ← lowerElements array elements
    return ⟨.ofStmts [.declare array .emptyArray] ++ code, array⟩
  | .selfRef => return ⟨.ofStmts [], .self⟩
  | .localVar name => bindFresh "var" (.getLocal name)
  | .instanceVar name => bindFresh "ivar" (.getInstance name)
  | .globalVar name => bindFresh "gvar" (.getGlobal name)
  | .assign target value => do
    let value ← lower value
    let stmt ← store target value.result
    return ⟨value.code ++ .ofStmts [stmt], value.result⟩
  | .classDef name superclass body => do
    let function ← fresh "class_body"
    let body ← inScope (lowerBody body)
    let opened ← openNamespace "class" name (.newClass (superclass.getD "Object") name) function
    return ⟨⟨hoist function .scoped [] body, []⟩ ++ opened.code, opened.result⟩
  | .moduleDef name body => do
    let function ← fresh "module_body"
    let body ← inScope (lowerBody body)
    let opened ← openNamespace "module" name (.newModule name) function
    return ⟨⟨hoist function .scoped [] body, []⟩ ++ opened.code, opened.result⟩
  | .methodDef owner name params body => do
    checkParams (.method name) params
    let function ← fresh "method"
    let body ← inScope (lowerBody body)
    let symbol ← bindFresh "sym" (.symbol name)
    return ⟨⟨hoist function .method (methodEntry name params) body,
      [defineOn owner name function]⟩ ++ symbol.code, symbol.result⟩
  | .send receiver name args block => do
    let (before, receiver) ← lowerReceiver receiver
    let (code, args) ← lowerArgs args
    let (stmts, argv) ← marshal args
    let (passing, block) ← lowerBlock name block
    let sent ← bindFresh "call" (callOf receiver name ⟨args.length, argv, block⟩)
    return ⟨before ++ code ++ .ofStmts stmts ++ passing ++ sent.code, sent.result⟩
  | .conditional branches otherwise => do
    let result ← freshVariable "if_result"
    let code ← lowerBranches result (lowerOtherwise result otherwise) branches
    return ⟨.ofStmts [.declare result .nil] ++ code, result⟩
  | .loop kind condition body => do
    let function ← fresh (loopBase kind)
    let body ← lowerBody body
    let test ← lower condition
    let result ← bindFresh "nil" .nil
    return ⟨⟨hoist function .scoped [] body ++ test.code.functions,
      [.forever (test.code.stmts
        ++ [.breakIf test.result (kind = .untilTruthy), .discard (.callHere function)])]⟩
        ++ result.code, result.result⟩
  | .rescue body variable_ handler otherwise => do
    let protected_ ← fresh "begin_body"
    let body ← lowerBody body
    let onError ← fresh "rescue_body"
    let handler ← lowerBody handler
    let (others, otherwise) ← lowerElseBody otherwise
    let wrapper ← fresh "begin"
    let result ← bindFresh "begin_result" (.callHere wrapper)
    return ⟨⟨hoist protected_ .scoped [] body ++ hoist onError .scoped [] handler ++ others
      ++ [⟨wrapper, .scoped, rescueWrapper protected_ onError otherwise variable_⟩], []⟩
        ++ result.code, result.result⟩
  | .directive kind path => throw (.unexpandedDirective kind path)
  | .unknown => throw (.unknownNode span)

/-- Lowers the statements of a scope; the last one's value is returned. -/
def lowerBody : List Node → Step Code
  | [] => return .ofStmts [.return_ .nil]
  | [last] => do
    let last ← lower last
    return last.code ++ .ofStmts [.return_ (.variable_ last.result)]
  | node :: nodes => do
    let first ← lower node
    let others ← lowerBody nodes
    return first.code ++ .ofStmts [.discard (.variable_ first.result)] ++ others

/-- Lowers the elements of an array, each pushed before the next one is evaluated. -/
def lowerElements (array : Variable) : List Node → Step Code
  | [] => return .ofStmts []
  | node :: nodes => do
    let first ← lower node
    let others ← lowerElements array nodes
    return first.code ++ .ofStmts [.push array first.result] ++ others

/-- Lowers the receiver of a message. -/
def lowerReceiver : Option Node → Step (Code × Option Variable)
  | none => return (.ofStmts [], none)
  | some node => do
    let receiver ← lower node
    return (receiver.code, some receiver.result)

/-- Lowers the arguments of a message in order. -/
def lowerArgs : List Node → Step (Code × List Variable)
  | [] => return (.ofStmts [], [])
  | node :: nodes => do
    let first ← lower node
    let (code, others) ← lowerArgs nodes
    return (first.code ++ code, first.result :: others)

/-- Lowers the block passed with a message. -/
def lowerBlock (message : String) : Option Block → Step (Code × Option Name)
  | none => return (.ofStmts [], none)
  | some ⟨params, body⟩ => do
    checkParams (.block message) params
    let function ← fresh "block_fn"
    let body ← inScope (lowerBody body)
    let name ← fresh "blk"
    return (⟨hoist function .method (blockEntry params) body, [.declareBlock name function]⟩,
      some name)

/-- Lowers the branches of a conditional, each inside what runs when the ones before it do not, and
then what runs when none does. -/
def lowerBranches (result : Variable) (otherwise : Step Code) : List Branch → Step Code
  | [] => otherwise
  | ⟨condition, body⟩ :: branches => do
    let condition ← lower condition
    let function ← fresh "if_branch"
    let body ← lowerBody body
    let others ← lowerBranches result otherwise branches
    return ⟨condition.code.functions ++ hoist function .scoped [] body ++ others.functions,
      condition.code.stmts
        ++ [.branch (.truthy condition.result) [assignCall result function] others.stmts]⟩

/-- Lowers the body that runs when no branch does. -/
def lowerOtherwise (result : Variable) : Option (List Node) → Step Code
  | none => return .ofStmts []
  | some body => do
    let function ← fresh "if_else"
    let body ← lowerBody body
    return ⟨hoist function .scoped [] body, [assignCall result function]⟩

/-- Lowers the body that runs after a protected body without an exception. -/
def lowerElseBody : Option (List Node) → Step (List Function × Option Name)
  | none => return ([], none)
  | some body => do
    let function ← fresh "else_body"
    let body ← lowerBody body
    return (hoist function .scoped [] body, some function)

end

end ScriptCompiler.Lowering
