import ScriptCompiler.Shell.Jobs

/-!
# Signals sent and caught

`kill` sends signals to processes. A process sees them after the command at hand, and `trap` says
what it does then. The only processes are the shells of a script.
-/

namespace ScriptCompiler.Shell

/-! ## Sending -/

/-- Sends a signal to a process that has not started yet. -/
def sendToPending (signal : Nat) (p : Pending) : Run Unit := do
  if p.setting.diesOf signal then
    modify fun m => { m with pending := m.pending.filter (·.process ≠ p.process) }
    endJob p.process (.killed signal)

/-- A process beside the script is there until it ends, or until the script sees that a signal ended
it. -/
def Job.isThere (j : Job) : Bool :=
  match j.state with
  | .running => true
  | .exited _ => false
  | .killed _ => !j.seen

/-- Sends a signal to a process and says whether there is such a process. -/
def sendSignal (signal process : Nat) : Run Bool := do
  let m ← get
  let s := m.setting
  if [s.process, s.self, s.parent].contains process then
    if signal ≠ 0 then post process signal
    return true
  else
    if let some p := m.pending.find? (·.process = process) then sendToPending signal p
    return s.jobs.any fun j => j.process = process && j.isThere

/-- Sends a signal to processes. -/
def sendAll (signal : Nat) : List Raw → Run Unit
  | [] => return
  | p :: ps => do
    match p with
    | '%' :: _ =>
      let _ ← jobOf p
      fails 1 "No such process\n".toList
    | '-' :: group =>
      let _ ← neededNumber group
      fails 1 "No such process\n".toList
    | _ => unless ← sendSignal signal (← neededNumber p) do fails 1 "No such process\n".toList
    sendAll signal ps

/-- Says how signals are sent. -/
def killUsage {α : Type} : Run α :=
  fault ("Usage: kill [-s sigspec | -signum | -sigspec] [pid | job]... or\n"
    ++ "kill -l [exitstatus]").toList

/-- Shows the name of the signal that a status tells of, or the names of all signals. -/
def listSignals : List Raw → Run Unit
  | [] => print (("0" :: signalNames.tail).flatMap fun name => name.toList ++ ['\n'])
  | s :: _ => do
    let n ← neededNumber s
    let signal := if 128 < n then n - 128 else n
    match signalNames[signal]?.filter fun _ => signal ≠ 0 with
    | some name => print (name.toList ++ ['\n'])
    | none => fault ("invalid signal number or exit status: ".toList ++ s)

/-- The signal that a text names for sending. -/
def sendable? (s : Raw) : Option Nat :=
  (signal? s).filter fun n => n ≠ 0 || s.all Char.isDigit

/-- The last signal that options name. -/
def namedSignal : Option Nat → List Given → Run (Option Nat)
  | signal, [] => return signal
  | signal, (c, name) :: given => do
    if c = 's' then
      match sendable? name with
      | some n => namedSignal (some n) given
      | none => fault ("invalid signal number or name: ".toList ++ name)
    else namedSignal signal given

/-- Sends the signal that arguments say, or shows names of signals. -/
def kill (args : List Raw) : Run Unit := do
  let direct := match args with
    | ('-' :: name) :: rest => (sendable? name).map fun n => (n, rest)
    | _ => none
  setStatus 0
  match direct with
  | some (signal, processes) =>
    if processes.isEmpty then killUsage else sendAll signal processes
  | none =>
    let (given, rest) ← if args.isEmpty then pure ([], []) else takeOptions "l" "s" args
    let signal ← namedSignal none given
    if isGiven 'l' given then
      if signal.isSome then killUsage else listSignals rest
    else if rest.isEmpty then killUsage
    else sendAll (signal.getD terminate) rest

/-! ## Catching -/

/-- Shows what is caught. -/
def listTraps : Run Unit := do
  let s ← setting
  print <| signalNames.zipIdx.flatMap fun (name, n) =>
    match s.traps.lookup n with
    | some script => "trap -- ".toList ++ quotedText script ++ [' '] ++ name.toList ++ ['\n']
    | none => []

/-- Says what happens when signals come: a script, or what usually happens. -/
def catchAll (script : Option Raw) : List Raw → Run Unit
  | [] => return
  | s :: rest => do
    match signal? s with
    | none =>
      emitError ("trap: ".toList ++ s ++ ": bad trap\n".toList)
      setStatus 1
    | some n =>
      adjust fun t =>
        let others := t.traps.filter (·.1 ≠ n)
        { t with traps := match script with
            | some script => (n, script) :: others
            | none => others }
      catchAll script rest

/-- Catches signals, or shows what is caught. -/
def trap (args : List Raw) : Run Unit := do
  let args ← withoutOptions args
  setStatus 0
  match args with
  | [] => listTraps
  | script :: signals =>
    if signals.isEmpty || (numberedSignal? script).isSome then catchAll none args
    else catchAll (if script = ['-'] then none else some script) signals

/-- Something is to be done when a signal comes or at the end. -/
def Setting.hasTraps (s : Setting) : Bool :=
  s.traps.any fun (_, script) => !script.isEmpty

end ScriptCompiler.Shell
