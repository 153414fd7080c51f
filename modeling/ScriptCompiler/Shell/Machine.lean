import ScriptCompiler.Shell.Options
import ScriptCompiler.Shell.Program
import ScriptCompiler.Shell.Script
import ScriptCompiler.Shell.Signal

/-!
# The state of a running script

A **machine** holds what a script has done: the files, the open streams with what was written into
them, and the status of the last command. Its **setting** is what a process of its own may change
for itself alone. A step of a run changes the machine, and what it did stays done when the script
ends there.
-/

namespace ScriptCompiler.Shell

/-! ## Streams -/

/-- What may be done with a file that is open. -/
inductive Access where
  | read
  | write
  /-- What is written goes to the end. -/
  | append
  | readWrite
  deriving DecidableEq, Repr

/-- A stream that is open. -/
inductive Stream where
  /-- Holds nothing; what is written into it is lost. -/
  | nothing
  /-- What is left of a text. -/
  | text (left : Raw)
  /-- What was written, the last part first. -/
  | sink (parts : List Raw)
  /-- What was written for another process, the last part first, and how much more there is room
  for; none if there was not enough. -/
  | pipe (parts : List Raw) (room : Option Nat)
  /-- A file or directory, by the names that lead to it, and how far it was read or written. -/
  | file (names : List String) (position : Nat) (access : Access)
  deriving DecidableEq, Repr

/-- All that was written into a stream. -/
def Stream.written : Stream → Raw
  | .sink parts | .pipe parts _ => parts.reverse.flatten
  | _ => []

/-! ## Settings -/

/-- A variable. -/
structure Variable where
  value : Option Raw
  /-- Programs see it. -/
  exported : Bool
  /-- Its value does not change. -/
  fixed : Bool
  deriving DecidableEq, Repr

/-- A program that was looked for by its name, and its file. -/
structure Tracked where
  name : Raw
  file : Raw
  /-- The working directory is another one since then. -/
  stale : Bool
  deriving DecidableEq, Repr

/-- How far a process is. -/
inductive ProcessState where
  | running
  | exited (status : Nat)
  | killed (signal : Nat)
  deriving DecidableEq, Repr

/-- The status that a process leaves. -/
def ProcessState.status : ProcessState → Nat
  | .running => 0
  | .exited status => status
  | .killed signal => 128 + signal

/-- A process that runs beside the script. -/
structure Job where
  number : Nat
  process : Nat
  state : ProcessState
  /-- The script knows of its end. -/
  seen : Bool
  /-- The script waited for its end. -/
  waited : Bool
  deriving DecidableEq, Repr

/-- What is in force for the commands of a script. -/
structure Setting where
  /-- The number of the process that runs the script. -/
  process : Nat
  /-- The number of the process at hand, which may be a copy of that one. -/
  self : Nat
  /-- The number of the process that started it. -/
  parent : Nat
  name : Raw
  args : List Raw
  /-- The number of the argument at hand, where options are taken one by one, and how many of its
  letters are passed. -/
  passed : Nat × Nat
  vars : List (Raw × Variable)
  /-- The variables that a function has for itself, as they were before; none outside of
  functions. -/
  locals : Option (List (Raw × Option Variable))
  functions : List (Raw × Command)
  aliases : List Alias
  tracked : List Tracked
  /-- How many functions run, each called by the one before. -/
  depth : Nat
  options : Options
  /-- The rights that new files do not get, as a number of nine bits. -/
  mask : Nat
  /-- The streams that numbers stand for. -/
  numbers : List (Nat × Nat)
  /-- The scripts that run when a signal comes, or at the end for the number zero. -/
  traps : List (Nat × Raw)
  /-- The processes that run beside the script, the last one first. -/
  jobs : List Job
  /-- The last process that was started beside the script. -/
  beside : Option Nat
  /-- The command of the shell that runs. -/
  called : Option Raw

/-- The process at hand is a copy. -/
def Setting.isCopy (s : Setting) : Bool :=
  s.self ≠ s.process

/-- A command that is to run beside the script, and what was in force when the script came to it. -/
structure Pending where
  process : Nat
  command : Command
  /-- The number of loops around it. -/
  loops : Nat
  status : Nat
  savedStatus : Option Nat
  line : Nat
  workingDir : List String
  setting : Setting

/-- What a script has done so far. -/
structure Machine where
  files : FileSystem
  streams : Array Stream
  /-- The status of the last command. -/
  status : Nat
  /-- The status of the last command that wrote a part of the command at hand. -/
  innerStatus : Nat
  /-- The status before the trap that runs. -/
  savedStatus : Option Nat
  /-- The texts inside scripts by their numbers. -/
  texts : Array Word
  /-- The line of the command at hand. -/
  line : Nat
  /-- The lines up to which scripts are read, the one at hand first; the last one is what the shell
  itself reads from a file or its input. -/
  reached : List Nat
  /-- The number of the next process. -/
  nextProcess : Nat
  /-- The signals that were sent to processes which have not seen them yet. -/
  signals : List (Nat × Nat)
  /-- The processes beside the script that have not started yet, in order. -/
  pending : List Pending
  /-- How many more commands run before those processes start. -/
  patience : Nat
  setting : Setting

/-! ## Runs -/

/-- How a run ends before its last command. -/
inductive Ending where
  | exited (status : Nat)
  /-- Another program took the place of the shell and ended with a status. -/
  | replaced (status : Nat)
  | killed (signal : Nat)
  /-- Something is wrong that ends more than a command. -/
  | failed
  /-- A function or a file of commands ends. -/
  | returned (status : Nat)
  /-- So many loops end. -/
  | left (loops : Nat)
  /-- All but one of so many loops end, and that one goes on. -/
  | resumed (loops : Nat)
  deriving DecidableEq, Repr

/-- The shell ends. -/
def Ending.endsShell : Ending → Bool
  | .exited _ | .replaced _ | .killed _ | .failed => true
  | .returned _ | .left _ | .resumed _ => false

/-- A step of a run. -/
abbrev Run (α : Type) := ExceptT Ending (StateM Machine) α

/-- What is in force. -/
def setting : Run Setting := do
  return (← get).setting

/-- Changes what is in force. -/
def adjust (f : Setting → Setting) : Run Unit :=
  modify fun m => { m with setting := f m.setting }

/-- The status of the last command. -/
def status : Run Nat := do
  return (← get).status

/-- Gives the last command a status. -/
def setStatus (status : Nat) : Run Unit :=
  modify fun m => { m with status }

/-- Gives the last command the status of an answer. -/
def answerWith (yes : Bool) : Run Unit :=
  setStatus (if yes then 0 else 1)

/-- Ends the script with a status. -/
def quit {α : Type} (status : Nat) : Run α :=
  throw (.exited status)

/-- Does something after a run, also if the run ends early. -/
def ensuring {α : Type} (act : Run α) (after : Run Unit) : Run α := do
  let a ← tryCatch act fun e => do
    after
    throw e
  after
  return a

/-- Does something after a run, unless the shell ends. -/
def unlessEnded {α : Type} (act : Run α) (after : Run Unit) : Run α := do
  let a ← tryCatch act fun e => do
    unless e.endsShell do after
    throw e
  after
  return a

/-! ## Reading and writing -/

/-- Opens a stream, which gets the next number. -/
def openStream (s : Stream) : Run Nat := do
  let m ← get
  set { m with streams := m.streams.push s }
  return m.streams.size

/-- The stream that a number stands for. -/
def stream? (number : Nat) : Run (Option Nat) := do
  return (← setting).numbers.lookup number

/-- Makes a number stand for a stream, or for none. -/
def connect (number : Nat) (stream : Option Nat) : Run Unit :=
  adjust fun s =>
    let others := s.numbers.filter (·.1 ≠ number)
    { s with numbers := match stream with
        | some k => (number, k) :: others
        | none => others }

/-- Changes a stream. -/
def changeStream (stream : Nat) (f : Stream → Stream) : Run Unit :=
  modify fun m => { m with streams := m.streams.modify stream f }

/-- What is wrong with a number that stands for no stream. -/
def badNumber : FileError := .other "Bad file descriptor"

/-- The bytes that are left in the stream of a number. -/
def available (number : Nat) : Run (Except FileError Raw) := do
  let m ← get
  match (m.setting.numbers.lookup number).bind (m.streams[·]?) with
  | none | some (.sink _) | some (.pipe _ _) | some (.file _ _ .write) | some (.file _ _ .append) =>
    return .error badNumber
  | some .nothing => return .ok []
  | some (.text left) => return .ok left
  | some (.file names position _) =>
    match m.files.lookup names with
    | some .directory => return .error .isDirectory
    | some (.file content) => return .ok (Raw.ofBytes (content.drop position))
    | none => return .ok []

/-- Passes bytes of the stream of a number. -/
def consume (number count : Nat) : Run Unit := do
  if let some k ← stream? number then
    changeStream k fun
      | .text left => .text (left.drop count)
      | .file names position access => .file names (position + count) access
      | s => s

/-- A content with bytes written over it from a position on. -/
def overwrite (content : List UInt8) (position : Nat) (bytes : List UInt8) : List UInt8 :=
  content.take position ++ List.replicate (position - content.length) 0 ++ bytes
    ++ content.drop (position + bytes.length)

/-- Writes a text into a stream, and says whether that is possible. A process that writes more than
another one takes ends. -/
def emitTo (stream : Option Nat) (text : Raw) : Run Bool := do
  if text.isEmpty then return true
  let m ← get
  match stream with
  | none => return false
  | some k =>
    match m.streams[k]? with
    | none | some (.text _) | some (.file _ _ .read) => return false
    | some .nothing => return true
    | some (.sink parts) =>
      changeStream k fun _ => .sink (text :: parts)
      return true
    | some (.pipe parts room) =>
      let room := room.getD 0
      if text.length ≤ room then
        changeStream k fun _ => .pipe (text :: parts) (some (room - text.length))
        return true
      else
        changeStream k fun _ => .pipe (text.take room :: parts) none
        throw (.killed brokenPipe)
    | some (.file names position access) =>
      if let some (.file content) := m.files.lookup names then
        let bytes := Raw.toBytes text
        let start := if access = .append then content.length else position
        let file := .file (overwrite content start bytes)
        modify fun m => { m with files := m.files.put names file }
        changeStream k fun _ => .file names (start + bytes.length) access
      return true

/-- Writes a text into the stream of a number, and says whether that is possible. -/
def emit (number : Nat) (text : Raw) : Run Bool := do
  emitTo (← stream? number) text

/-- Runs something and puts back what some numbers stand for. -/
def keepingNumbers {α : Type} (numbers : List Nat) (act : Run α) : Run α := do
  let before := (← setting).numbers
  ensuring act (numbers.forM fun n => connect n (before.lookup n))

/-! ## Complaints -/

/-- Writes a text to the stream for complaints. -/
def emitError (text : Raw) : Run Unit := do
  let _ ← emit 2 text

/-- What stands before a complaint about a line of the script. -/
def placeAt (line : Nat) : Run Raw := do
  let s ← setting
  let called := match s.called with
    | some name => name ++ ": ".toList
    | none => []
  return s.name ++ ": ".toList ++ Raw.ofNat line ++ ": ".toList ++ called

/-- Says what is wrong on a line of the script. -/
def complainAt (line : Nat) (text : Raw) : Run Unit := do
  emitError ((← placeAt line) ++ text ++ ['\n'])

/-- Says what is wrong on the line of the command at hand. -/
def complain (text : Raw) : Run Unit := do
  complainAt (← get).line text

/-- Says what is wrong with a command, which ends with a status. -/
def fails (status : Nat) (text : Raw) : Run Unit := do
  complain text
  setStatus status

/-- Says what is wrong and ends more than a command. -/
def fault {α : Type} (text : Raw) : Run α := do
  complain text
  throw .failed

/-- Says that what a command wrote is lost, and makes its status one, at least. -/
def lost (text : Raw) : Run Unit := do
  emitError (text ++ ['\n'])
  modify fun m => { m with status := max 1 m.status }

/-- Writes a text. The command that does this had its status before. -/
def print (text : Raw) : Run Unit := do
  unless ← emit 1 text do
    lost ((← placeAt (← get).line) ++ ((← setting).called.getD []) ++ ": I/O error".toList)

/-! ## Programs -/

/-- Writes what a program writes, and says whether that is possible. -/
def writeAll : List Written → Run Bool
  | [] => return true
  | w :: rest => do
    let well ← match w with
      | .output text => emit 1 text
      | .error text => do
        emitError text
        pure true
    return (← writeAll rest) && well

/-- Does what a program does; there is something to say if what it writes is lost. -/
def perform (complaint : Raw) (e : Effect) : Run Unit := do
  setStatus e.status
  unless ← writeAll e.written do lost complaint
  if e.reads then
    if let .ok left ← available 0 then consume 0 left.length

end ScriptCompiler.Shell
