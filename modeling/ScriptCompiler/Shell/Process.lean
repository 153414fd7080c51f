import ScriptCompiler.Shell.Builtin
import ScriptCompiler.Shell.Read
import ScriptCompiler.Shell.Redirection

/-!
# Processes

A script runs in a process, and parts of it run in copies of that process. Of a copy nothing stays
but its status and what it did to files and streams. What runs beside the script is such a copy as
well: it starts when the script waits for a process, ends, or has run a number of commands since,
and then runs to its end.

Commands hold commands. The functions here take the function that runs those inside as an argument.
-/

namespace ScriptCompiler.Shell

/-- Where a command stands. -/
structure Position where
  /-- Another command depends on whether it does well. -/
  tested : Bool
  /-- The number of loops around it. -/
  loops : Nat
  /-- The process ends with it. -/
  last : Bool
  deriving DecidableEq, Repr

namespace Position

/-- No command is around. -/
def top : Position :=
  ⟨false, 0, false⟩

/-- Something follows. -/
def before (p : Position) : Position :=
  { p with last := false }

/-- Something depends on the status. -/
def asked (p : Position) : Position :=
  { p with tested := true, last := false }

/-- In one more loop. -/
def looped (p : Position) : Position :=
  { p with loops := p.loops + 1, last := false }

/-- In a process of its own. -/
def alone (p : Position) : Position :=
  { p with last := true }

end Position

/-- What there is to do inside something else. -/
inductive Task where
  | command (p : Position) (c : Command)
  /-- The processes beside the script catch up with it. -/
  | pending

/-- Does what there is to do inside something else. -/
abbrev Runner := Task → Run Unit

/-- Runs a command inside another one. -/
def Runner.command (again : Runner) (p : Position) (c : Command) : Run Unit :=
  again (.command p c)

/-- The processes beside the script catch up with it. -/
def Runner.catchUp (again : Runner) : Run Unit :=
  again .pending

/-! ## Scripts -/

/-- The most lines of a script. -/
def lineLimit : Nat := 0xffffffff

/-- Lines with the line feeds at their ends. -/
def linesOf (text : Raw) : List Raw :=
  let pieces := Text.split text
  pieces.dropLast.map (· ++ ['\n']) ++ pieces.getLast?.toList.filter (!·.isEmpty)

/-- Shows lines that are read, if that is wanted. -/
def showRead (lines : List Raw) : Run Unit := do
  if (← setting).options.isSet "verbose" then emitError lines.flatten

/-- Runs what is left of a script, up to a fault, and says whether there are commands in it, or were
any before. The lines that are not read yet are shown when they are. -/
def runLines (again : Runner) (p : Position) : Nat → Bool → List Raw → Input → Run Bool
  | 0, found, _, _ => return found
  | fuel + 1, found, lines, i => do
    match nextLine (← setting).aliases (← get).texts i with
    | .error f =>
      showRead (lines.take (f.last + 1 - i.line))
      complainAt f.line f.error.message
      throw .failed
    | .ok (c, next) =>
      let count := if next.rest.isEmpty then lines.length else next.line - i.line
      showRead (lines.take count)
      modify fun m => { m with reached := next.line :: m.reached.tail, texts := next.texts }
      again.command p c
      let found := found || !c.isNothing
      if next.rest.isEmpty then return found
      else runLines again p fuel found (lines.drop count) next

/-- Runs a script at a position, and says whether there are commands in it. The lines are those that
may be shown. -/
def runScript (again : Runner) (p : Position) (lines : List Raw) (text : Raw) : Run Bool := do
  let reached := (← get).reached
  modify fun m => { m with reached := 1 :: reached }
  ensuring (runLines again p lineLimit false lines (.start text))
    (modify fun m => { m with reached })

/-- Runs the script in a text. -/
def runText (again : Runner) (text : Raw) : Run Unit := do
  let _ ← runScript again .top [] text

/-- Runs the script that the shell itself reads from a file or its input. -/
def runOwn (again : Runner) (content : Raw) : Run Unit := do
  let _ ← runLines again .top lineLimit false (linesOf content) (.start content)

/-- Runs a script as part of another one; without commands it does well. -/
def runPart (again : Runner) (p : Position) (lines : List Raw) (text : Raw) : Run Unit := do
  unless ← runScript again p.before lines text do setStatus 0

/-! ## Ends -/

/-- What is left of an end, once the script for the end of the shell ran: the signal that killed the
process, if one did. -/
def afterEnd (before : Nat) : Option Ending → Run (Option Nat)
  | some (.killed signal) => return some signal
  | some (.exited n) | some (.replaced n) => do
    setStatus n
    return none
  | some .failed => do
    setStatus 2
    return none
  | some (.returned _) | some (.left _) | some (.resumed _) | none => do
    setStatus before
    return none

/-- Runs something and says how it ended, if it ended early. -/
def endingOf (act : Run Unit) : Run (Option Ending) :=
  tryCatch (do
    act
    return none) fun e => return some e

/-- Runs the script for the end of the shell, if there is one. -/
def runEndTrap (again : Runner) : Run (Option Nat) := do
  match (← setting).traps.lookup atEnd with
  | none | some [] => return none
  | some script =>
    let before ← status
    adjust fun s => { s with traps := s.traps.filter (·.1 ≠ atEnd) }
    modify fun m => { m with savedStatus := some before }
    afterEnd before (← endingOf (runText again script))

/-- Runs all that a process does, up to its end, and says which signal killed it, if one did. What
it started beside it ends after it. -/
def finish (again : Runner) (act : Run Unit) : Run (Option Nat) := do
  let signal ← match ← endingOf act with
    | some (.killed signal) => pure (some signal)
    | some (.replaced n) => do
      setStatus n
      pure none
    | some (.exited n) | some (.returned n) => do
      setStatus n
      runEndTrap again
    | some .failed => do
      setStatus 2
      runEndTrap again
    | some (.left _) | some (.resumed _) | none => runEndTrap again
  setStatus ((← status) % 256)
  again.catchUp
  return signal

/-! ## Copies -/

/-- Runs something in a process of its own, of which nothing stays but its status and what it did to
files and streams, and says which signal killed it, if one did. -/
def inProcess (again : Runner) (enter : Machine → Machine) (act : Run Unit) :
    Run (Option Nat) := do
  let before ← get
  set (enter before)
  let signal ← finish again act
  modify fun m =>
    { m with
      files := { m.files with workingDir := before.files.workingDir }
      innerStatus := before.innerStatus
      savedStatus := before.savedStatus
      line := before.line
      reached := before.reached
      pending := before.pending
      setting := before.setting }
  return signal

/-- What is ignored stays ignored in another process; other signals are not caught there. -/
def Setting.withoutTraps (s : Setting) : Setting :=
  { s with traps := s.traps.filter (·.2.isEmpty), jobs := [] }

/-- What is in force in a copy of a process. -/
def Setting.copy (s : Setting) (process : Nat) : Setting :=
  { s.withoutTraps with self := process, parent := s.self }

/-- A copy of a process, or the process itself where it has nothing else to do. The scripts at hand
are not read any further there. -/
def Machine.copy (inPlace : Bool) (m : Machine) : Machine :=
  { m with
    nextProcess := if inPlace then m.nextProcess else m.nextProcess + 1
    reached := [m.reached.getLastD 1]
    setting := if inPlace then m.setting.withoutTraps else m.setting.copy m.nextProcess }

/-- What a script makes of the end of a process for which it waited: it sees which others have
ended. It ends itself if it was that process. -/
def seeFront (inPlace : Bool) (signal : Option Nat) : Run Unit := do
  if let some signal := signal then
    if inPlace then throw (.killed signal)
    unless quietSignals.contains signal do emitError ((signalText signal).toList ++ ['\n'])
    setStatus (128 + signal)
  unless inPlace do
    seeEnds
    hearEnd

/-- A process of its own is not needed, as the shell has nothing else to do. -/
def isInPlace (p : Position) : Run Bool := do
  return p.last && !(← setting).hasTraps

/-- Runs something in a copy of the process. -/
def apart (again : Runner) (inPlace : Bool) (act : Run Unit) : Run Unit := do
  again.catchUp
  seeFront inPlace (← inProcess again (Machine.copy inPlace) act)

/-! ## Beside the script -/

/-- What a process beside the script starts with. -/
def Pending.enter (p : Pending) (m : Machine) : Machine :=
  { m with
    files := { m.files with workingDir := p.workingDir }
    status := p.status
    savedStatus := p.savedStatus
    line := p.line
    reached := [m.reached.getLastD 1]
    setting := p.setting.copy p.process }

/-- Runs what is to run beside the script. It has no input. -/
def start (again : Runner) (p : Pending) : Run Unit := do
  let before ← status
  let stream ← openStream .nothing
  let signal ← inProcess again p.enter do
    connect 0 (some stream)
    again.command ⟨false, p.loops, true⟩ p.command
  let after ← status
  endJob p.process (match signal with
    | some signal => .killed signal
    | none => .exited after)
  setStatus before

/-- Runs all that is to run beside the script, in order. -/
def startAll (again : Runner) : Run Unit := do
  let pending := (← get).pending
  modify fun m => { m with pending := [] }
  pending.forM (start again)

/-- The commands that a script has time for while a process beside it starts. -/
def startTime : Nat := 200

/-- Lets time pass, in which the processes beside the script may start. -/
def passTime (again : Runner) : Run Unit := do
  let m ← get
  if !m.pending.isEmpty then
    if m.patience = 0 then again.catchUp else set { m with patience := m.patience - 1 }

/-- Runs something beside the script, when the script waits or ends, or after some time. -/
def runBeside (p : Position) (c : Command) : Run Unit := do
  let number ← takeNumberOfJob
  let m ← get
  let process := m.nextProcess
  let pending : Pending :=
    ⟨process, c, p.loops, m.status, m.savedStatus, m.line, m.files.workingDir, m.setting⟩
  set { m with
    nextProcess := process + 1
    pending := m.pending ++ [pending]
    patience := startTime }
  let job : Job := ⟨number, process, .running, false, false⟩
  adjust fun s => { s with jobs := job :: s.jobs, beside := some process }
  setStatus 0

/-! ## Signals -/

/-- Does what a shell does about signals, in order. -/
def answerSignals (again : Runner) : List Nat → Run Unit
  | [] => return
  | signal :: rest => do
    match (← setting).trapFor signal with
    | some [] => pure ()
    | some script =>
      let before ← get
      modify fun m => { m with savedStatus := some (before.savedStatus.getD before.status) }
      runText again script
      modify fun m => { m with savedStatus := before.savedStatus }
      setStatus before.status
    | none => unless harmless.contains signal do throw (.killed signal)
    answerSignals again rest

/-- Does what there is to do about the signals that came. -/
def answerAll (again : Runner) : Run Unit := do
  let m ← get
  if !m.signals.isEmpty then
    set { m with signals := m.signals.filter (·.1 ≠ m.setting.self) }
    answerSignals again m.unseen

/-! ## Output -/

/-- The text without line feeds at its end and without null bytes. -/
def withoutFeeds (text : Raw) : Raw :=
  ((text.filter (· ≠ '\x00')).reverse.dropWhile (· = '\n')).reverse

/-- Runs something with its output in a stream of its own, and gives what it wrote. -/
def collect (act : Nat → Run Unit) : Run Raw := do
  let stream ← openStream (.sink [])
  act stream
  let written := ((← get).streams[stream]?.map Stream.written).getD []
  changeStream stream fun _ => .nothing
  return written

/-- What a command writes. -/
def outputOf (again : Runner) (p : Position) (c : Command) : Run Raw := do
  let before ← status
  discard takeNumberOfJob
  let written ← collect fun stream =>
    apart again false do
      connect 1 (some stream)
      again.command ⟨false, p.loops, true⟩ c
  modify fun m => { m with innerStatus := m.status, status := before }
  dieIfKilled
  return withoutFeeds written

end ScriptCompiler.Shell
