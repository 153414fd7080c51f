import ScriptCompiler.Shell.Run
import ScriptCompiler.Toolchain.Basic

/-!
# Launching programs

A system whose only programs are a shell and the few commands that its scripts need. A program that
is launched has no input, and what it writes is collected.
-/

namespace ScriptCompiler.Shell

/-- The levels of commands that a shell has room for. -/
def levelLimit : Nat := 100000

/-- The number of the first process, as scripts see it. -/
def firstProcess : Nat := 4242

/-- The machine in which a program is launched: its streams are an input without text and two
sinks. -/
def Machine.launch (fs : FileSystem) : Machine where
  files := fs
  streams := #[.text [], .sink [], .sink []]
  status := 0
  innerStatus := 0
  savedStatus := none
  texts := #[]
  line := 0
  reached := [1]
  nextProcess := firstProcess + 1
  signals := []
  pending := []
  patience := 0
  setting := .start fs firstProcess 1 usualMask [] [(0, 0), (1, 1), (2, 2)] []

/-- What a machine wrote into one of its first streams. -/
def Machine.written (m : Machine) (stream : Nat) : List UInt8 :=
  Raw.toBytes ((m.streams[stream]?.map Stream.written).getD [])

/-- What is left of a run. -/
def outcomeOf (act : Run Unit) (fs : FileSystem) : Outcome :=
  let (ending, m) := act.run (.launch fs)
  let status : Option Int := match ending with
    | .error (.killed _) => none
    | _ => some m.status
  ⟨status, m.written 1, m.written 2, m.files⟩

/-- Why a name is not that of a program. -/
def noProgram (fs : FileSystem) (name : String) : FileError :=
  if name.toList.contains '/' then
    match fs.resolve ⟨name⟩ with
    | .ok _ => .permissionDenied
    | .error e => e
  else if FileSystem.maxName < name.utf8ByteSize then .nameTooLong
  else .notFound

/-- Runs a program. Names and arguments hold no null character. -/
def launch : Launcher := fun fs name args =>
  if (name :: args).any (·.toList.contains '\x00') then
    .error (.other "nul byte found in provided data")
  else
    let called := Raw.ofString name
    match findProgram fs usualPath called with
    | .program program file =>
      .ok (outcomeOf
        (runFound (run levelLimit) true called (args.map Raw.ofString) (.program program file)) fs)
    | _ => .error (noProgram fs name)

end ScriptCompiler.Shell
