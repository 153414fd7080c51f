import ScriptCompiler.Files.System
import ScriptCompiler.Syntax.Basic

/-!
# Finding files

Where the file of a directive is looked for. A name without an extension stands for two file names.
A name that is absolute, or starts from the working directory or the one above it, is not looked for
on the load path.
-/

namespace ScriptCompiler.Load

/-- The extensions of source files, in the order in which they are tried. -/
def extensions : List String := ["gn", "rb"]

/-- The name says where it starts. -/
def isExplicit (name : String) : Bool :=
  (Path.mk name).isAbsolute || name.startsWith "./" || name.startsWith "../"

/-- The file names that a name stands for. -/
def candidates (name : String) : List Path :=
  if (Path.mk name).extension?.isSome then [⟨name⟩]
  else extensions.map fun extension => ⟨name ++ "." ++ extension⟩

/-- The first file under one of the directories: all candidates are tried in a directory before the
next one. -/
def search (fs : FileSystem) (dirs : List Path) (names : List Path) : Option Path :=
  (dirs.flatMap fun dir => names.map dir.join).find? fs.isFile

/-- What a loader knows. -/
structure Settings where
  files : FileSystem
  loadPath : List Path
  /-- The last place where `require` looks, and where names that say so start from. -/
  workingDir : Path

namespace Settings

/-- The file that `require` means. -/
def findRequired (s : Settings) (name : String) : Option Path :=
  let dirs := if isExplicit name then [s.workingDir] else s.loadPath ++ [s.workingDir]
  search s.files dirs (candidates name)

/-- The directory of a file, for names that are relative to it. -/
def dirOf (s : Settings) (current : Path) : Path :=
  match current.parent? with
  | none => s.workingDir
  | some parent => if parent.text.isEmpty then s.workingDir else s.workingDir.join parent

/-- The file that `require_relative` means in a file. -/
def findRelative (s : Settings) (current : Path) (name : String) : Option Path :=
  search s.files [s.dirOf current] (candidates name)

/-- The file that `load` means. -/
def findLoaded (s : Settings) (name : String) : Option Path :=
  search s.files (if isExplicit name then [s.workingDir] else s.loadPath) [⟨name⟩]

/-- The file that a directive in a file means. -/
def find (s : Settings) (current : Path) (kind : DirectiveKind) (name : String) : Option Path :=
  match kind with
  | .require => s.findRequired name
  | .requireRelative => s.findRelative current name
  | .load => s.findLoaded name

end Settings

/-- The directories in a list with colons between them, without empty ones, before others. -/
def prependList (value : String) (dirs : List Path) : List Path :=
  let listed := (Text.splitAt ':' value.toList).filter (!·.isEmpty)
  listed.map (fun dir => ⟨String.ofList dir⟩) ++ dirs

end ScriptCompiler.Load
