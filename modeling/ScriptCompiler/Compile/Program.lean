import ScriptCompiler.Compile.Options
import ScriptCompiler.Compile.UnitName
import ScriptCompiler.Load.Error
import ScriptCompiler.Load.Expand
import ScriptCompiler.Lowering.Basic
import ScriptCompiler.Lowering.Program
import ScriptCompiler.Toolchain.Basic

/-!
# From a text to a C file

A program is parsed, its directives are replaced by the contents of their files, and what results is
lowered to C. The path of the program names it in messages, says where `require_relative` starts
from, and keeps the program from being put into itself.
-/

namespace ScriptCompiler

/-! ## Compile errors

Why a program is not compiled, from whichever part of the compiler says so.
-/

/-- Why a program is not compiled. -/
inductive CompileError where
  | load (cause : LoadError)
  | parse (cause : ParseFailure)
  | lowering (cause : Lowering.Failure)
  | toolchain (cause : ToolchainError)
  /-- The file of the program itself cannot be read. -/
  | unreadable (path : Path) (cause : FileError)
  deriving DecidableEq, Repr

namespace CompileError

/-- The message of an error. -/
def message : CompileError → String
  | .load cause => cause.message
  | .parse cause => cause.message
  | .lowering cause => cause.message
  | .toolchain cause => cause.message
  | .unreadable path cause => "cannot read " ++ path.text ++ ": " ++ cause.text

/-- The program stops inside a construct, so that more text could complete it. A file that a
directive names does not count. -/
def isIncomplete : CompileError → Bool
  | .parse cause => cause.isIncomplete
  | _ => false

end CompileError

/-! ## Compiling -/

/-- The kind of file that is asked for; a unit that has no name is named after its file. -/
def Options.kindOf (o : Options) (fs : FileSystem) (path : Path) : C.FileKind :=
  match o.output with
  | .unit name => .unit (if name.isEmpty then UnitName.ofFile fs path else name)
  | kind => kind

/-- The C file for a program that has a path. -/
def compileSource (fs : FileSystem) (o : Options) (path : Path) (source : String) :
    Except CompileError String := do
  let program ← (parse path.text source []).mapError .parse
  let settings := o.settings fs
  let tracker := Load.markLoaded settings .empty path
  let program ← (Load.expand settings path program tracker).1.mapError .load
  (Lowering.compile (o.kindOf fs path) program).mapError .lowering

/-- The C file for the program in a file. -/
def compileFile (fs : FileSystem) (o : Options) (path : Path) : Except CompileError String :=
  match fs.readText path with
  | .ok source => compileSource fs o path source
  | .error cause => .error (.unreadable path cause)

/-- What a toolchain makes of a kind of C file. -/
def C.FileKind.buildKind : C.FileKind → BuildKind
  | .program => .executable
  | .unit _ => .object
  | .snippet => .sharedLibrary

/-- Has a toolchain make a binary of the program in a file. -/
def buildFile {α : Type} (toolchain : String → Path → BuildKind → Except ToolchainError α)
    (fs : FileSystem) (o : Options) (path output : Path) : Except CompileError α := do
  let text ← compileFile fs o path
  (toolchain text output o.output.buildKind).mapError .toolchain

end ScriptCompiler
