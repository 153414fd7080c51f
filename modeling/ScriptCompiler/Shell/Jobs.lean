import ScriptCompiler.Shell.Arguments
import ScriptCompiler.Shell.Signal

/-!
# Processes beside a script

A process that runs beside the script is a **job** with a number. It takes some time to start: the
script goes on with some more commands, unless it waits for a process or ends. The number is free
again when the script waited for the job and starts another process.
-/

namespace ScriptCompiler.Shell

/-! ## Signals -/

/-- The signals that came to the process at hand and that it has not seen yet, in order. -/
def Machine.unseen (m : Machine) : List Nat :=
  ((m.signals.filter (·.1 = m.setting.self)).map (·.2)).eraseDups.mergeSort

/-- What a process does when a signal comes: a script, which may be empty, or what usually
happens. -/
def Setting.trapFor (s : Setting) (signal : Nat) : Option Raw :=
  if untrapped.contains signal then none else s.traps.lookup signal

/-- A signal ends a process. -/
def Setting.diesOf (s : Setting) (signal : Nat) : Bool :=
  !harmless.contains signal && (s.trapFor signal).isNone

/-- Sends a signal to a process, which sees it later. -/
def post (process signal : Nat) : Run Unit :=
  modify fun m => { m with signals := m.signals ++ [(process, signal)] }

/-- Ends if a signal came that ends the process. -/
def dieIfKilled : Run Unit := do
  let m ← get
  if let some signal := m.unseen.find? m.setting.diesOf then throw (.killed signal)

/-- A process has ended that the one at hand started. -/
def hearEnd : Run Unit := do
  let s ← setting
  if (s.trapFor childEnds).isSome then post s.self childEnds

/-! ## Numbers -/

/-- The least number from one on that no job has, where those for which the script waited do not
count, and the jobs that stay when that number is taken. -/
def freeNumber (jobs : List Job) : Nat → Nat → Nat × List Job
  | 0, n => (n, jobs)
  | fuel + 1, n =>
    match jobs.find? (·.number = n) with
    | none => (n, jobs)
    | some j => if j.waited then (n, jobs.filter (·.number ≠ n)) else freeNumber jobs fuel (n + 1)

/-- Takes a number for a process that starts. -/
def takeNumberOfJob : Run Nat := do
  let jobs := (← setting).jobs
  let (n, jobs) := freeNumber jobs jobs.length 1
  adjust fun s => { s with jobs }
  return n

/-- The job that a text names: after a percent sign, by its number or by how recent it is. -/
def jobOf (name : Raw) : Run Job := do
  let jobs := (← setting).jobs
  let one (message : Raw) (job : Option Job) : Run Job :=
    match job with
    | some job => return job
    | none => fault message
  match name with
  | ['%'] | ['%', '+'] | ['%', '%'] => one "No current job".toList jobs.head?
  | ['%', '-'] => one "No previous job".toList jobs.tail.head?
  | '%' :: digits =>
    let n := wholeNumber? (1, jobs.length) digits
    one ("No such job: ".toList ++ name) (n.bind fun n => jobs.find? (·.number = n.toNat))
  | _ => fault ("No such job: ".toList ++ name)

/-! ## Ends -/

/-- Changes all jobs. -/
def changeJobs (f : Job → Job) : Run Unit :=
  adjust fun s => { s with jobs := s.jobs.map f }

/-- The process of a job has ended. -/
def endJob (process : Nat) (state : ProcessState) : Run Unit := do
  changeJobs fun j => if j.process = process then { j with state } else j
  hearEnd

/-- The script sees that a job has ended, if it has. -/
def Job.see (j : Job) : Job :=
  { j with seen := j.seen || j.state ≠ .running }

/-- The script sees which jobs have ended. -/
def seeEnds : Run Unit :=
  changeJobs Job.see

/-! ## Waiting -/

/-- The signal that came while the script waited and for which it has a script of its own. One that
ends the process does so at once. -/
def interruption? : Run (Option Nat) := do
  dieIfKilled
  let m ← get
  return m.unseen.find? fun n =>
    n ≠ childEnds && (m.setting.trapFor n).any fun script => !script.isEmpty

/-- Waited for a job that has ended: the status of the last command is that of the job. The script
sees as well which jobs before that one have ended; how they ended is not said. -/
def seeJob (job : Job) : Run Unit := do
  if let .killed signal := job.state then
    unless job.seen || quietSignals.contains signal do
      emitError ((signalText signal).toList ++ ['\n'])
  changeJobs fun j =>
    if j.process = job.process then { j.see with waited := true }
    else if j.process < job.process then j.see
    else j
  setStatus job.state.status

/-- Waits for the jobs that arguments name by numbers or by those of processes. -/
def waitEach (catchUp : Run Unit) : List Raw → Run Unit
  | [] => return
  | name :: names => do
    let find : Run (Option Job) := do
      if name.head? = some '%' then return some (← jobOf name)
      else
        let n ← neededNumber name
        return (← setting).jobs.find? (·.process = n)
    match ← find with
    | none => waitEach catchUp names
    | some job =>
      if job.state = .running then catchUp
      match ← interruption?, (← setting).jobs.find? (·.process = job.process) with
      | some signal, _ => setStatus (128 + signal)
      | none, job => do
        if let some job := job then seeJob job
        waitEach catchUp names

/-- Waits for processes that run beside the script, once these caught up with it. The status is that
of the last one that there is. -/
def waitAll (catchUp : Run Unit) (args : List Raw) : Run Unit := do
  let names ← withoutOptions args
  if names.isEmpty then
    catchUp
    match ← interruption? with
    | some signal => setStatus (128 + signal)
    | none =>
      changeJobs fun j => { j.see with waited := true }
      setStatus 0
  else
    setStatus 127
    waitEach catchUp names

/-! ## Showing -/

/-- A text with blanks after it up to a column, one at least. -/
def upToColumn (column : Nat) (text : Raw) : Raw :=
  text ++ List.replicate (max 1 (column - text.length)) ' '

/-- The words for the state of a job. -/
def ProcessState.text : ProcessState → Raw
  | .running => "Running".toList
  | .exited status =>
    if status = 0 then "Done".toList else "Done(".toList ++ Raw.ofNat status ++ [')']
  | .killed signal => (signalText signal).toList

/-- What is said about a job. -/
def jobText (jobs : List Job) (withProcess : Bool) (job : Job) : Raw :=
  let mark := if jobs.head? = some job then '+' else if jobs.tail.head? = some job then '-' else ' '
  let process := if withProcess then Raw.ofNat job.process ++ [' '] else []
  upToColumn 33
      ('[' :: Raw.ofNat job.number ++ "] ".toList ++ [mark, ' '] ++ process ++ job.state.text)
    ++ ['\n']

/-- Shows jobs. One that has ended is shown once. -/
def showJobs (args : List Raw) : Run Unit := do
  let (given, names) ← takeOptions "lp" "" args
  setStatus 0
  seeEnds
  let named ← names.mapM jobOf
  let jobs := (← setting).jobs
  let shown := if names.isEmpty then jobs else named
  for job in shown do
    if (given.getLast?.map (·.1)) = some 'p' then print (Raw.ofNat job.process ++ ['\n'])
    else
      print (jobText (← setting).jobs (isGiven 'l' given) job)
      if job.seen then adjust fun s => { s with jobs := s.jobs.filter (·.number ≠ job.number) }

/-- Refuses to make a job the one that a user sees. -/
def changeJob (args : List Raw) : Run Unit := do
  let names ← withoutOptions args
  let _ ← jobOf (names.headD ['%'])
  fault ("job ".toList ++ names.headD "(null)".toList
    ++ " not created under job control".toList)

end ScriptCompiler.Shell
