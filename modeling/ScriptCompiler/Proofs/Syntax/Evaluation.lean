import ScriptCompiler.C.Code
import ScriptCompiler.Lowering.Call
import ScriptCompiler.Proofs.Runtime.Action

/-!
# Evaluation of syntax trees

What a program does when it is evaluated in the order in which it is written: a receiver, then the
arguments from left to right, then the block object, then the call; a value before its assignment; a
condition before what it decides. The value of a conditional starts as nil, and nil is the value of
a loop. Code that is handed to the runtime library is the code that evaluates the body of the
method or block.

Assignments of the outermost scope can be watched: when a scope has a home, evaluation is stuck at
an assignment to a local variable that is made on another environment.
-/

namespace ScriptCompiler.Evaluation

open Lowering ScriptCompiler.Runtime

/-- Where a node is evaluated. -/
structure Scope (V : Type) where
  env : V
  self : V
  /-- The environment that has to get the assignments of this scope, if that is watched. -/
  home : Option V

namespace Scope

variable {V : Type}

/-- The scope of a class, module, method or block: its assignments are not watched. -/
def inner (env self : V) : Scope V :=
  ⟨env, self, none⟩

/-- The scope on another environment. -/
def on (scope : Scope V) (env : V) : Scope V :=
  { scope with env }

end Scope

variable {V : Type}

/-! ## Calls -/

/-- A message. -/
def sendMessage (scope : Scope V) (receiver : Option V) (name : String)
    (passed : Runtime.Passed V) : Action V V :=
  match receiver with
  | none =>
    if name = "super" then do
      let method ← perform (.getLocal scope.env C.methodNameKey)
      perform (.callSuper scope.env scope.self method passed)
    else if name = "yield" then do
      let block ← perform (.currentBlock scope.env)
      perform (.runBlock scope.env block passed)
    else perform (.lookupOrSend scope.env scope.self name passed)
  | some receiver =>
    if Token.startsUpper name then perform (.lookupOrSend scope.env receiver name passed)
    else perform (.send scope.env receiver name passed)

/-- Binds parameters in an environment, from the argument with the given index on. -/
def bindAll (env : V) (block : Option V) (argument : Nat → Action V V) :
    Nat → List Param → Action V Unit
  | _, [] => return
  | index, .positional name :: params => do
    let value ← argument index
    let _ ← perform (.declareLocal env name value)
    bindAll env block argument (index + 1) params
  | index, .block name :: params => do
    let value ← perform (.proc env block)
    let _ ← perform (.declareLocal env name value)
    bindAll env block argument index params

/-- An argument that has to be there. -/
def argumentOf (args : List V) (index : Nat) : Action V V :=
  match args[index]? with
  | some value => return value
  | none => throw .stuck

/-- An argument, or nil if there are not so many. -/
def argumentOrNil (env : V) (args : List V) (index : Nat) : Action V V :=
  match args[index]? with
  | some value => return value
  | none => perform (.getLocal env C.nilName)

/-- What a method does before its body: it checks the number of its arguments and makes an
environment that knows the method's name, the block and the parameters. -/
def openMethod (name : String) (params : List Param) (env : V) (passed : Runtime.Passed V) :
    Action V V := do
  expectCount env passed.args.length (positionalCount params)
  let env ← perform (.childEnv env)
  let symbol ← perform (.symbol env name)
  let _ ← perform (.declareLocal env C.methodNameKey symbol)
  let _ ← perform (.setBlock env passed.block)
  bindAll env passed.block (argumentOf passed.args) 0 params
  return env

/-- What a block does before its body: it makes an environment that knows the parameters. -/
def openBlock (params : List Param) (env : V) (passed : Runtime.Passed V) : Action V V := do
  let env ← perform (.childBlockEnv env)
  bindAll env passed.block (argumentOrNil env passed.args) 0 params
  return env

/-- A routine that evaluates a body in an environment of its own. -/
def routine (opening : V → Runtime.Passed V → Action V V) (body : Scope V → Action V V) :
    Routine V := fun entry =>
  match entry.passed with
  | none => throw .stuck
  | some passed => do
    let env ← opening entry.env passed
    body (.inner env entry.self)

/-! ## Assignments and definitions -/

section

variable [DecidableEq V]

/-- The assignment of a value to a target. -/
def assignTo (scope : Scope V) (value : V) : Target → Action V Unit
  | .localVar name => do
    if scope.home.any (· ≠ scope.env) then throw .stuck
    let _ ← perform (.setLocal scope.env name value)
  | .instanceVar name => do
    let _ ← perform (.setInstance scope.env scope.self name value)
  | .globalVar name => do
    let _ ← perform (.setGlobal scope.env name value)

end

/-- The object that a method is defined on. -/
def ownerObject (scope : Scope V) (owner : String) : Action V V :=
  if owner = "self" then pure scope.self else perform (.getLocal scope.env owner)

/-- Hands over a method to the current receiver's instances or to one object. -/
def defineRoutine (scope : Scope V) (owner : Option String) (name : String) (code : Routine V) :
    Action V Unit :=
  match owner with
  | none => do
    let _ ← deliver (.defineMethod scope.env scope.self name) code
  | some owner => do
    let object ← ownerObject scope owner
    let _ ← deliver (.defineSingleton scope.env object name) code

/-- The object of a class or module: found by its name, or created and bound to it. -/
def namespaceObject (isNull : V → Bool) (scope : Scope V) (name : String)
    (create : Action V V) : Action V V := do
  let object ← perform (.lookup scope.env name)
  if isNull object then
    let object ← create
    let _ ← perform (.setLocal scope.env name object)
    return object
  else return object

/-- The body of a class or module, with the object as its receiver. -/
def namespaceBody (scope : Scope V) (object : V) (body : Scope V → Action V V) : Action V V := do
  let env ← perform (.childEnv scope.env)
  body (.inner env object)

/-- Binds the exception that came to a rescue scope to the variable for it, if there is one. -/
def bindException (env : V) : Option String → Action V Unit
  | none => return
  | some name => do
    let exception ← perform (.exception env)
    let _ ← perform (.setLocal env name exception)

/-- What runs after a protected body without an exception; it may give another value. -/
def afterwards (scope : Scope V) (otherwise : Option (Scope V → Action V V)) (value : V) :
    Action V V :=
  match otherwise with
  | some otherwise => otherwise scope
  | none => return value

/-- A body that is protected by a rescue scope on an environment of its own. -/
def protectedBody (scope : Scope V) (variable_ : Option String)
    (body handler : Scope V → Action V V) (otherwise : Option (Scope V → Action V V)) :
    Action V V := do
  let env ← perform (.childBlockEnv scope.env)
  let scope := scope.on env
  signal (.openRescue env)
  protect (body scope)
    (fun value => do
      signal (.closeRescue env)
      afterwards scope otherwise value)
    (do
      signal (.closeRescue env)
      bindException env variable_
      handler scope)

/-- A round of a loop: the condition and, if the loop goes on, its body. -/
def loopRound (scope : Scope V) (kind : LoopKind) (condition body : Action V V) :
    Action V Bool := do
  let value ← condition
  if (← test scope.env value) = decide (kind = .untilTruthy) then return false
  let _ ← body
  return true

/-! ## Nodes -/

section Nodes

variable [DecidableEq V] (isNull : V → Bool) (rounds : Nat)

mutual

/-- The value of a node. -/
def eval (scope : Scope V) : Node → Action V V
  | ⟨form, _⟩ => evalForm scope form

/-- The value of a node of a form. -/
def evalForm (scope : Scope V) : Form → Action V V
  | .integer value => perform (.integer scope.env value)
  | .str value => perform (.str scope.env value)
  | .symbol name => perform (.symbol scope.env name)
  | .array elements => do
    let array ← perform (.array scope.env)
    evalElements scope array elements
    return array
  | .selfRef => return scope.self
  | .localVar name => perform (.getLocal scope.env name)
  | .instanceVar name => perform (.getInstance scope.env scope.self name)
  | .globalVar name => perform (.getGlobal scope.env name)
  | .assign target value => do
    let value ← eval scope value
    assignTo scope value target
    return value
  | .classDef name superclass body => do
    let object ← namespaceObject isNull scope name do
      let superclass ← perform (.getLocal scope.env (superclass.getD "Object"))
      perform (.newClass scope.env superclass name)
    namespaceBody scope object fun scope => evalBody scope body
  | .moduleDef name body => do
    let object ← namespaceObject isNull scope name (perform (.newModule scope.env name))
    namespaceBody scope object fun scope => evalBody scope body
  | .methodDef owner name params body => do
    defineRoutine scope owner name
      (routine (openMethod name params) fun scope => evalBody scope body)
    perform (.symbol scope.env name)
  | .send receiver name args block => do
    let receiver ← evalReceiver scope receiver
    let args ← evalArgs scope args
    let block ← evalBlock scope block
    sendMessage scope receiver name ⟨args, block⟩
  | .conditional branches otherwise => do
    let nil ← perform (.getLocal scope.env C.nilName)
    evalBranches scope (evalOtherwise scope nil otherwise) branches
  | .loop kind condition body => do
    repeatRounds (loopRound scope kind (eval scope condition) (evalBody scope body)) rounds
    perform (.getLocal scope.env C.nilName)
  | .rescue body variable_ handler otherwise =>
    protectedBody scope variable_ (fun scope => evalBody scope body)
      (fun scope => evalBody scope handler) (evalElse otherwise)
  | .directive _ _ => throw .stuck
  | .unknown => throw .stuck

/-- The value of the statements of a scope: that of the last one, or nil. -/
def evalBody (scope : Scope V) : List Node → Action V V
  | [] => perform (.getLocal scope.env C.nilName)
  | [last] => eval scope last
  | node :: nodes => do
    let _ ← eval scope node
    evalBody scope nodes

/-- Evaluates the elements of an array, each pushed before the next one is evaluated. -/
def evalElements (scope : Scope V) (array : V) : List Node → Action V Unit
  | [] => return
  | node :: nodes => do
    let value ← eval scope node
    let _ ← perform (.push scope.env array value)
    evalElements scope array nodes

/-- The value of the receiver of a message. -/
def evalReceiver (scope : Scope V) : Option Node → Action V (Option V)
  | none => return none
  | some node => do
    return some (← eval scope node)

/-- The values of arguments, from left to right. -/
def evalArgs (scope : Scope V) : List Node → Action V (List V)
  | [] => return []
  | node :: nodes => do
    let first ← eval scope node
    let others ← evalArgs scope nodes
    return first :: others

/-- The block that is passed with a message. -/
def evalBlock (scope : Scope V) : Option Block → Action V (Option V)
  | none => return none
  | some ⟨params, body⟩ => do
    let block ← deliver (.block scope.env scope.self)
      (routine (openBlock params) fun scope => evalBody scope body)
    return some block

/-- The value of the first branch whose condition is truthy, or of what runs when none is. -/
def evalBranches (scope : Scope V) (otherwise : Action V V) : List Branch → Action V V
  | [] => otherwise
  | ⟨condition, body⟩ :: branches => do
    let value ← eval scope condition
    if ← test scope.env value then evalBody scope body
    else evalBranches scope otherwise branches

/-- The value of the body that runs when no branch does, or nil. -/
def evalOtherwise (scope : Scope V) (nil : V) : Option (List Node) → Action V V
  | none => return nil
  | some body => evalBody scope body

/-- The body that runs after a protected body without an exception. -/
def evalElse : Option (List Node) → Option (Scope V → Action V V)
  | none => none
  | some body => some fun scope => evalBody scope body

end

end Nodes

end ScriptCompiler.Evaluation
