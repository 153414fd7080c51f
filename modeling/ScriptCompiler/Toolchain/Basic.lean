import ScriptCompiler.Files.System
import ScriptCompiler.Text.Blank

/-!
# Toolchains

A toolchain makes a binary of a generated C file. The one here is a C compiler that is run as a
program; `CCompiler.args` says how.
-/

namespace ScriptCompiler

/-- What is made of a generated C file. -/
inductive BuildKind where
  | executable
  /-- An object file, to be linked later. -/
  | object
  /-- A library that a running program loads. -/
  | sharedLibrary
  deriving DecidableEq, Repr

/-- Why a toolchain fails. -/
inductive ToolchainError where
  /-- The C compiler says no, with a status unless a signal stopped it. -/
  | compileFailed (status : Option Int) (output : String)
  /-- The C compiler cannot be run. -/
  | notRun (program : String) (cause : FileError)
  /-- The generated file cannot be written. -/
  | notStaged (cause : FileError)
  deriving DecidableEq, Repr

namespace ToolchainError

/-- How a program ended, as messages say it. -/
def statusText : Option Int → String
  | some status => "status " ++ toString status
  | none => "a signal"

/-- The message of an error. -/
def message : ToolchainError → String
  | .compileFailed status output =>
    "C compiler exited with " ++ statusText status ++ ":\n" ++ output
  | .notRun program cause => "cannot run C compiler '" ++ program ++ "': " ++ cause.text
  | .notStaged cause => "cannot stage generated code: " ++ cause.text

end ToolchainError

/-- A C compiler and what it is always told. -/
structure CCompiler where
  program : String
  includeDirs : List Path
  libDirs : List Path
  /-- The libraries that everything is linked to that is linked at all. -/
  libs : List String
  flags : List String
  deriving DecidableEq, Repr

namespace CCompiler

/-- A C compiler that links the runtime library and is told nothing else. -/
def ofProgram (program : String) : CCompiler :=
  ⟨program, [], [], ["garnet"], []⟩

/-- The C compiler of a system. -/
def default : CCompiler :=
  ofProgram "cc"

/-- The C compiler that the environment names, or the one of the system if it names none. -/
def ofEnvironment : Option String → CCompiler
  | none => default
  | some name =>
    match Text.trim name.toList with
    | [] => default
    | program => ofProgram (String.ofList program)

/-- The arguments that say what to make. -/
def kindArgs : BuildKind → List String
  | .executable => []
  | .object => ["-c"]
  | .sharedLibrary => ["-shared", "-fPIC"]

/-- The arguments for the linker; an object file is not linked. -/
def linkArgs (cc : CCompiler) (kind : BuildKind) : List String :=
  if kind = .object then []
  else cc.libDirs.map (fun dir => "-L" ++ dir.text) ++ cc.libs.map fun lib => "-l" ++ lib

/-- The arguments with which the C compiler makes one file of another. -/
def args (cc : CCompiler) (input output : Path) (kind : BuildKind) : List String :=
  cc.flags ++ cc.includeDirs.map (fun dir => "-I" ++ dir.text) ++ kindArgs kind
    ++ ["-x", "c", input.text, "-o", output.text] ++ cc.linkArgs kind

end CCompiler

/-! ## Running a C compiler

A generated file is written where the C compiler can read it, the C compiler is run, and the file is
removed. How programs are run is a parameter.
-/

/-- What is left of a program that ran. -/
structure Outcome where
  /-- None if a signal stopped it. -/
  status : Option Int
  output : List UInt8
  errors : List UInt8
  files : FileSystem

/-- Runs a program with arguments. -/
abbrev Launcher := FileSystem → String → List String → Except FileError Outcome

/-- Takes the entry under names away. -/
def FileSystem.remove (fs : FileSystem) (names : List String) : FileSystem :=
  { fs with entries := fs.entries.filter (·.1 ≠ names) }

/-- Takes the file of a path away, if there is one. -/
def FileSystem.removeFile (fs : FileSystem) (p : Path) : FileSystem :=
  match fs.resolve p with
  | .ok names => fs.remove names
  | .error _ => fs

namespace CCompiler

/-- The file system after a C compiler made a binary of a text that is staged in a file. What it
wrote is part of the error when it fails, its complaints first. -/
def build (cc : CCompiler) (launch : Launcher) (fs : FileSystem) (staged : Path) (source : String)
    (output : Path) (kind : BuildKind) : Except ToolchainError FileSystem := do
  let fs ← (fs.write staged (Text.Utf8.bytes source)).mapError .notStaged
  let outcome ←
    (launch fs cc.program (cc.args staged output kind)).mapError (.notRun cc.program)
  if outcome.status = some 0 then return outcome.files.removeFile staged
  else
    throw (.compileFailed outcome.status
      (Text.Utf8.decodeLossy outcome.errors ++ Text.Utf8.decodeLossy outcome.output))

end CCompiler

end ScriptCompiler
