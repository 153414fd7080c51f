import ScriptCompiler.C.Print
import ScriptCompiler.Proofs.Runtime.Action

/-!
# The meaning of emitted C

What emitted statements do when they run. A function runs in a frame: its parameters, its variables
by their spelling, and the rescue scopes that it opened and did not close. A variable is visible
from its declaration to the end of the braces around it, and it is declared once. Code that uses a
variable which is not visible, or a vector beyond its end, or that returns with a scope still open,
has no meaning and is stuck. What has a meaning here has the same one in C.
-/

namespace ScriptCompiler.C

open ScriptCompiler.Runtime

/-! ## Frames -/

/-- What a variable holds. -/
inductive Slot (V : Type) where
  | object (value : V)
  /-- A vector of arguments; an entry that was not filled is missing. -/
  | vector (values : List (Option V))
  | block (value : V)

/-- The state of a function that runs. -/
structure Frame (V : Type) where
  env : V
  self : V
  /-- What a function with the method signature got, apart from `env` and `self`. -/
  passed : Option (Runtime.Passed V)
  slots : String → Option (Slot V)
  /-- The environments of the open rescue scopes, the innermost one first. -/
  opened : List V

/-- How a statement ends. -/
inductive Flow (V : Type) where
  | next
  /-- The innermost loop is left. -/
  | broke
  | returned (value : V)

/-- What a statement does to a frame. -/
abbrev Exec (V : Type) := ExceptT Stop (StateT (Frame V) (Tree V))

namespace Frame

variable {V : Type}

/-- The frame of a function that is entered. -/
def start (entry : Invocation V) : Frame V :=
  ⟨entry.env, entry.self, entry.passed, fun _ => none, []⟩

/-- The frame with a variable that holds something. -/
def put (fr : Frame V) (name : String) (slot : Slot V) : Frame V :=
  { fr with slots := fun n => if n = name then some slot else fr.slots n }

/-- The value of a variable. -/
def read? (fr : Frame V) : Variable → Option V
  | .self => some fr.self
  | v => match fr.slots v.text with
    | some (.object value) => some value
    | _ => none

/-- The values in a vector of arguments. -/
def vector? (fr : Frame V) : ArgVector → Option (List V)
  | .none => some []
  | .single arg => (fr.read? arg).map fun value => [value]
  | .array name => match fr.slots name.text with
    | some (.vector values) => values.mapM id
    | _ => none

/-- The value of a block object. -/
def block? (fr : Frame V) (name : Name) : Option V :=
  match fr.slots name.text with
  | some (.block value) => some value
  | _ => none

/-- What is passed with a message; the count has to be that of the vector. -/
def passed? (fr : Frame V) (p : Passed) : Option (Runtime.Passed V) := do
  let args ← fr.vector? p.argv
  guard (args.length = p.argc)
  match p.block with
  | none => return ⟨args, none⟩
  | some name => return ⟨args, some (← fr.block? name)⟩

/-- The frame when braces close: what was declared inside them is gone. -/
def leave (inner outer : Frame V) : Frame V :=
  { inner with slots := fun n => if (outer.slots n).isSome then inner.slots n else none }

end Frame

/-! ## Steps -/

variable {V : Type}

instance : MonadLift (Action V) (Exec V) where
  monadLift x := ExceptT.mk fun fr => x.run >>= fun r => pure (r, fr)

/-- Something that must be there. -/
def need {α : Type} : Option α → Exec V α
  | some a => return a
  | none => throw .stuck

/-- The value of a variable. -/
def readVariable (v : Variable) : Exec V V := do
  need ((← get).read? v)

/-- Declares a variable, which must not be visible yet. -/
def declareSlot (name : String) (slot : Slot V) : Exec V Unit := do
  let fr ← get
  if (fr.slots name).isSome then throw .stuck
  set (fr.put name slot)

/-- Assigns to a variable that holds a value. -/
def assignSlot (name : String) (value : V) : Exec V Unit := do
  let fr ← get
  match fr.slots name with
  | some (.object _) => set (fr.put name (.object value))
  | _ => throw .stuck

/-- Fills an entry of a vector. -/
def fillEntry (array : String) (index : Nat) (value : V) : Exec V Unit := do
  let fr ← get
  match fr.slots array with
  | some (.vector values) =>
    if index < values.length then set (fr.put array (.vector (values.set index (some value))))
    else throw .stuck
  | _ => throw .stuck

/-- What the library passed to the function. -/
def formals : Exec V (Runtime.Passed V) := do
  need (← get).passed

/-- Statements between braces. -/
def braces (body : Exec V (Flow V)) : Exec V (Flow V) := do
  let outer ← get
  let flow ← body
  modify fun inner => inner.leave outer
  return flow

/-- Runs a body and, if an exception comes back to a scope that is still open, a handler on the
variables as they were. -/
def onException (scopes : List V) (body handler : Exec V (Flow V)) : Exec V (Flow V) :=
  ExceptT.mk fun fr => body.run fr >>= fun
    | (.error .raised, fr') =>
      if fr'.opened.length = scopes.length then
        handler.run { fr with opened := fr'.opened }
      else pure (.error .raised, fr')
    | other => pure other

/-- Runs one of two bodies, as a condition decides. -/
def choose (isNull : V → Bool) (condition : Condition) (yes no : Exec V (Flow V)) :
    Exec V (Flow V) :=
  match condition with
  | .truthy v => do
    let fr ← get
    if ← test fr.env (← need (fr.read? v)) then yes else no
  | .isNull v => do
    if isNull (← readVariable v) then yes else no
  | .rescueOpens => do
    let fr ← get
    signal (.openRescue fr.env)
    set { fr with opened := fr.env :: fr.opened }
    onException (fr.env :: fr.opened) yes no

/-- Runs the body of a loop until it is left. -/
def loopRounds (body : Exec V (Flow V)) : Nat → Exec V (Flow V)
  | 0 => throw .unfinished
  | n + 1 => do
    match ← body with
    | .next => loopRounds body n
    | .broke => return .next
    | .returned value => return .returned value

/-! ## Statements -/

section Statements

variable [DecidableEq V] (isNull : V → Bool) (rounds : Nat) (call : Name → Routine V)

/-- The innermost rescue scope, which has to be on the current environment, is no longer open. -/
def closeScope : Exec V Unit := do
  let fr ← get
  match fr.opened with
  | [] => throw .stuck
  | scope :: outer => if scope = fr.env then set { fr with opened := outer } else throw .stuck

/-- The value of an expression. -/
@[simp]
def Expr.value : Expr → Exec V V
  | .variable_ v => readVariable v
  | .integer value => do perform (.integer (← get).env value)
  | .str value => do perform (.str (← get).env value)
  | .symbol name => do perform (.symbol (← get).env name)
  | .emptyArray => do perform (.array (← get).env)
  | .getLocal name => do perform (.getLocal (← get).env name)
  | .lookup name => do perform (.lookup (← get).env name)
  | .getInstance name => do
    let fr ← get
    perform (.getInstance fr.env fr.self name)
  | .getGlobal name => do perform (.getGlobal (← get).env name)
  | .newClass superclass name => do
    let env := (← get).env
    let superclass ← perform (.getLocal env superclass)
    perform (.newClass env superclass name)
  | .newModule name => do perform (.newModule (← get).env name)
  | .send receiver name passed => do
    let fr ← get
    let receiver ← need (fr.read? receiver)
    perform (.send fr.env receiver name (← need (fr.passed? passed)))
  | .lookupOrSend receiver name passed => do
    let fr ← get
    let receiver ← need (fr.read? receiver)
    perform (.lookupOrSend fr.env receiver name (← need (fr.passed? passed)))
  | .callSuper passed => do
    let fr ← get
    let passed ← need (fr.passed? passed)
    let method ← perform (.getLocal fr.env methodNameKey)
    perform (.callSuper fr.env fr.self method passed)
  | .runBlock passed => do
    let fr ← get
    let passed ← need (fr.passed? passed)
    let block ← perform (.currentBlock fr.env)
    perform (.runBlock fr.env block passed)
  | .callHere function => do
    let fr ← get
    call function ⟨fr.env, fr.self, none⟩
  | .callInside function receiver => do
    let fr ← get
    let receiver ← need (fr.read? receiver)
    let env ← perform (.childEnv fr.env)
    call function ⟨env, receiver, none⟩
  | .exception => do perform (.exception (← get).env)
  | .passedBlock => do
    let passed ← formals
    perform (.proc (← get).env passed.block)
  | .argument index => do
    let passed ← formals
    need passed.args[index]?
  | .argumentOrNil index => do
    let passed ← formals
    match passed.args[index]? with
    | some value => return value
    | none => perform (.getLocal (← get).env nilName)

mutual

/-- Runs a statement. -/
@[simp]
def Stmt.exec : Stmt → Exec V (Flow V)
  | .declare v value => do
    declareSlot v.text (.object (← value.value call))
    return .next
  | .assign v value => do
    assignSlot v.text (← value.value call)
    return .next
  | .discard value => do
    let _ ← value.value call
    return .next
  | .unused _ => do
    let _ ← formals
    return .next
  | .push array value => do
    let fr ← get
    let array ← need (fr.read? array)
    let value ← need (fr.read? value)
    let _ ← perform (.push fr.env array value)
    return .next
  | .setLocal name value => do
    let value ← value.value call
    let _ ← perform (.setLocal (← get).env name value)
    return .next
  | .declareLocal name value => do
    let value ← value.value call
    let _ ← perform (.declareLocal (← get).env name value)
    return .next
  | .setInstance name value => do
    let fr ← get
    let _ ← perform (.setInstance fr.env fr.self name (← need (fr.read? value)))
    return .next
  | .setGlobal name value => do
    let fr ← get
    let _ ← perform (.setGlobal fr.env name (← need (fr.read? value)))
    return .next
  | .declareArgs array size => do
    declareSlot array.text (.vector (List.replicate size none))
    return .next
  | .storeArg array index value => do
    fillEntry array.text index (← readVariable value)
    return .next
  | .declareBlock name function => do
    let fr ← get
    declareSlot name.text (.block (← deliver (.block fr.env fr.self) (call function)))
    return .next
  | .defineMethod name function => do
    let fr ← get
    let _ ← deliver (.defineMethod fr.env fr.self name) (call function)
    return .next
  | .defineSingleton owner name function => do
    let owner ← owner.value call
    let _ ← deliver (.defineSingleton (← get).env owner name) (call function)
    return .next
  | .assertArgc count => do
    let passed ← formals
    expectCount (← get).env passed.args.length count
    return .next
  | .enterEnv => do
    let env ← perform (.childEnv (← get).env)
    modify fun fr => { fr with env }
    return .next
  | .enterBlockEnv => do
    let env ← perform (.childBlockEnv (← get).env)
    modify fun fr => { fr with env }
    return .next
  | .setBlock => do
    let passed ← formals
    let _ ← perform (.setBlock (← get).env passed.block)
    return .next
  | .closeRescue => do
    signal (.closeRescue (← get).env)
    closeScope
    return .next
  | .branch condition yes no =>
    choose isNull condition (braces (execList yes)) (braces (execList no))
  | .forever body => loopRounds (braces (execList body)) rounds
  | .breakIf v truthy => do
    let fr ← get
    return if (← test fr.env (← need (fr.read? v))) = truthy then .broke else .next
  | .return_ value => do
    return .returned (← value.value call)

/-- Runs statements, one after the other, until one does not go on. -/
@[simp]
def execList : List Stmt → Exec V (Flow V)
  | [] => return .next
  | s :: ss => do
    match ← s.exec with
    | .next => execList ss
    | flow => return flow

end

/-! ## Functions -/

/-- How a function ends with the frame that its body left behind. -/
def endOf : Except Stop (Flow V) × Frame V → Ending V
  | (.error .unfinished, _) => .error .unfinished
  | (.ok (.returned value), fr) => if fr.opened.isEmpty then .ok value else .error .stuck
  | (.error .raised, fr) => if fr.opened.isEmpty then .error .raised else .error .stuck
  | _ => .error .stuck

/-- The entry passes what the signature takes. -/
def Signature.takes (signature : Signature) (entry : Invocation V) : Bool :=
  match signature with
  | .method => entry.passed.isSome
  | .scoped => entry.passed.isNone

/-- Runs the body of a function. -/
def runStmts (body : List Stmt) : Routine V := fun entry =>
  ExceptT.mk ((execList isNull rounds call body).run (Frame.start entry) >>= fun r =>
    pure (endOf r))

/-- Runs a function. -/
def Function.run (f : Function) : Routine V := fun entry =>
  if f.signature.takes entry then runStmts isNull rounds call f.body entry else throw .stuck

end Statements

/-- Enters a function of a file by its name; calls nest at most as deeply as they may. -/
def enter [DecidableEq V] (isNull : V → Bool) (rounds : Nat) (functions : List Function) :
    Nat → Name → Routine V
  | 0, _, _ => throw .unfinished
  | depth + 1, name, entry =>
    match functions.find? (·.name.text = name.text) with
    | some f => f.run isNull rounds (enter isNull rounds functions depth) entry
    | none => throw .stuck

end ScriptCompiler.C
