import ScriptCompiler.C.Layout
import ScriptCompiler.Load.Search

/-!
# Compile options

Where the files of directives are looked for, and what kind of C file is wanted.
-/

namespace ScriptCompiler

/-- How a program is compiled. -/
structure Options where
  /-- The directories where `require` and `load` look for files. -/
  loadPath : List Path
  /-- The kind of C file. A unit without a name is named after its file. -/
  output : C.FileKind
  /-- Where names that say where they start are looked for, and where `require` looks last, if that
  is not where the compiler runs. -/
  workingDir : Option Path
  deriving DecidableEq, Repr

namespace Options

/-- A program whose files are all looked for where the compiler runs. -/
def default : Options :=
  ⟨[], .program, none⟩

/-- The working directory: the one that the options name, or the one where the compiler runs. -/
def directory (o : Options) (fs : FileSystem) : Path :=
  o.workingDir.getD (.ofNames fs.workingDir)

/-- What a loader needs to know. -/
def settings (o : Options) (fs : FileSystem) : Load.Settings :=
  ⟨fs, o.loadPath, o.directory fs⟩

end Options

end ScriptCompiler
