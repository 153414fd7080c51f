import ScriptCompiler.Text.Lines
import ScriptCompiler.Text.Utf8

/-!
# File systems

A file system holds directories and files, each under the list of names that lead to it from the
root. A relative path is read from the working directory. A path names an entry only if every name
in it exists and everything but the last is a directory; that holds for a slash or points at the end
of a path too.
-/

namespace ScriptCompiler

/-! ## Paths

A path is kept as it was written; most questions about it are questions about its components. Empty
pieces between slashes count for nothing, and a point only at the start of a relative path, so that
`a//b/./` and `a/b` have the same components.
-/

/-- A path as it was written. -/
structure Path where
  text : String
  deriving DecidableEq, Repr

namespace Path

/-- A part of a path. -/
inductive Component where
  /-- The slash at the start of an absolute path. -/
  | root
  /-- The point at the start of a relative path. -/
  | here
  /-- Two points. -/
  | up
  | name (s : String)
  deriving DecidableEq, Repr

/-- The pieces between slashes. -/
def pieces (p : Path) : List String :=
  (Text.splitAt '/' p.text.toList).map String.ofList

/-- The path starts at the root. -/
def isAbsolute (p : Path) : Bool :=
  p.text.toList.head? = some '/'

/-- What a piece counts for, other than a point at the start. -/
def component? (piece : String) : Option Component :=
  if piece = "" ∨ piece = "." then none
  else if piece = ".." then some .up
  else some (.name piece)

/-- The components of a path. -/
def components (p : Path) : List Component :=
  let inner := p.pieces.filterMap component?
  if p.isAbsolute then .root :: inner
  else if p.pieces.head? = some "." then .here :: inner
  else inner

/-- The path of an entry, from the names that lead to it from the root. -/
def ofNames (names : List String) : Path :=
  ⟨"/" ++ "/".intercalate names⟩

/-- The pieces up to the last one that counts. -/
def counted (pieces : List String) : List String :=
  (pieces.reverse.dropWhile fun piece => (component? piece).isNone).reverse

/-- The pieces before the last one that counts, if one does. -/
def outer? (pieces : List String) : Option (List String) :=
  match counted pieces with
  | [] => none
  | ps => some (counted ps.dropLast)

/-- The path without its last component, as it is written up to there. The root and the empty path
have no component to leave out. -/
def parent? (p : Path) : Option Path :=
  match p.pieces with
  | [] => none
  | first :: rest =>
    if p.isAbsolute then (outer? rest).map fun before => ⟨"/" ++ "/".intercalate before⟩
    else if first = "." then
      some (((outer? rest).map fun before => ⟨"/".intercalate ("." :: before)⟩).getD ⟨""⟩)
    else (outer? p.pieces).map fun before => ⟨"/".intercalate before⟩

/-- The last component, if it is a name. -/
def fileName? (p : Path) : Option String :=
  match p.components.getLast? with
  | some (.name s) => some s
  | _ => none

/-- A name cut at its last point, unless nothing comes before the point. -/
def cutName (name : String) : String × Option String :=
  let backwards := name.toList.reverse
  let after := backwards.takeWhile (· ≠ '.')
  let before := (backwards.drop (after.length + 1)).reverse
  if before.isEmpty then (name, none)
  else (String.ofList before, some (String.ofList after.reverse))

/-- The file name up to its last point. -/
def stem? (p : Path) : Option String :=
  p.fileName?.map fun name => (cutName name).1

/-- What comes after the last point of the file name. -/
def extension? (p : Path) : Option String :=
  p.fileName?.bind fun name => (cutName name).2

/-- A path read from a directory; an absolute path is not changed by that. -/
def join (dir p : Path) : Path :=
  if p.isAbsolute || dir.text.isEmpty then p
  else if dir.text.toList.getLast? = some '/' then ⟨dir.text ++ p.text⟩
  else ⟨dir.text ++ "/" ++ p.text⟩

theorem join_of_isAbsolute {dir p : Path} (h : p.isAbsolute = true) : dir.join p = p := by
  simp [join, h]

end Path

/-! ## Entries -/

/-- Why a file cannot be read or written. -/
inductive FileError where
  | notFound
  | permissionDenied
  | notDirectory
  | isDirectory
  | nameTooLong
  /-- The path holds a null character. -/
  | nullInPath
  | notUtf8
  /-- Another cause, in words. -/
  | other (text : String)
  deriving DecidableEq, Repr

/-- The cause in the words of the operating system. -/
def FileError.text : FileError → String
  | .notFound => "No such file or directory (os error 2)"
  | .permissionDenied => "Permission denied (os error 13)"
  | .notDirectory => "Not a directory (os error 20)"
  | .isDirectory => "Is a directory (os error 21)"
  | .nameTooLong => "File name too long (os error 36)"
  | .nullInPath => "file name contained an unexpected NUL byte"
  | .notUtf8 => "stream did not contain valid UTF-8"
  | .other text => text

/-- What a file system holds under a name. -/
inductive Entry where
  | directory
  | file (content : List UInt8)
  deriving DecidableEq

/-- Directories and files. -/
structure FileSystem where
  /-- Entries by the names that lead to them from the root; of several under the same names, the
  first counts. -/
  entries : List (List String × Entry)
  /-- The names that lead to the directory which relative paths are read from. -/
  workingDir : List String

namespace FileSystem

/-- The entry under these names. The root is a directory. -/
def lookup (fs : FileSystem) (names : List String) : Option Entry :=
  if names.isEmpty then some .directory else fs.entries.lookup names

/-- The longest name of an entry, in bytes. -/
def maxName : Nat := 255

/-- The longest path, in bytes. -/
def maxPath : Nat := 4095

/-- Follows the pieces of a path from an entry on. -/
def walk (fs : FileSystem) : List String → List String → Except FileError (List String)
  | names, [] => .ok names
  | names, piece :: rest =>
    if fs.lookup names ≠ some .directory then .error .notDirectory
    else if piece = "" ∨ piece = "." then fs.walk names rest
    else if piece = ".." then fs.walk names.dropLast rest
    else if maxName < piece.utf8ByteSize then .error .nameTooLong
    else if (fs.lookup (names ++ [piece])).isNone then .error .notFound
    else fs.walk (names ++ [piece]) rest

/-- The names that lead to the entry of a path. -/
def resolve (fs : FileSystem) (p : Path) : Except FileError (List String) :=
  if p.text.toList.contains '\x00' then .error .nullInPath
  else if p.text.isEmpty then .error .notFound
  else if maxPath < p.text.utf8ByteSize then .error .nameTooLong
  else fs.walk (if p.isAbsolute then [] else fs.workingDir) p.pieces

/-- The path is that of a file. -/
def isFile (fs : FileSystem) (p : Path) : Bool :=
  match fs.resolve p with
  | .ok names => (fs.lookup names).any (· ≠ .directory)
  | .error _ => false

/-- The one absolute path without points for the entry of a path. -/
def canonical (fs : FileSystem) (p : Path) : Except FileError Path :=
  (fs.resolve p).map Path.ofNames

/-- The bytes of a file. -/
def read (fs : FileSystem) (p : Path) : Except FileError (List UInt8) :=
  match fs.resolve p with
  | .error e => .error e
  | .ok names =>
    match fs.lookup names with
    | some (.file content) => .ok content
    | some .directory => .error .isDirectory
    | none => .error .notFound

/-- The text of a file. -/
def readText (fs : FileSystem) (p : Path) : Except FileError String :=
  match fs.read p with
  | .error e => .error e
  | .ok content =>
    match Text.Utf8.decode? content with
    | some text => .ok text
    | none => .error .notUtf8

/-! ## Changes -/

/-- Puts an entry under names. -/
def put (fs : FileSystem) (names : List String) (entry : Entry) : FileSystem :=
  { fs with entries := (names, entry) :: fs.entries.filter (·.1 ≠ names) }

/-- Makes the directories on the way from one entry down to another. -/
def makeDirs (fs : FileSystem) : List String → List String → FileSystem
  | _, [] => fs
  | above, name :: rest =>
    let names := above ++ [name]
    let fs := if (fs.lookup names).isNone then fs.put names .directory else fs
    fs.makeDirs names rest

/-- The names in a path under a directory. -/
def namesIn (dir : List String) (path : String) : List String :=
  dir ++ (Path.mk path).components.filterMap fun
    | .name s => some s
    | _ => none

/-- A file system with a working directory and files and empty directories under it, and with the
directories that hold them. -/
def ofFiles (workingDir : List String) (files : List (String × Option (List UInt8))) :
    FileSystem :=
  let start : FileSystem := (FileSystem.mk [] workingDir).makeDirs [] workingDir
  files.foldl
    (fun fs (path, content) =>
      let names := namesIn workingDir path
      match content with
      | none => fs.makeDirs [] names
      | some bytes => (fs.makeDirs [] names.dropLast).put names (.file bytes))
    start

/-- Writes a file, whose directory must exist. -/
def write (fs : FileSystem) (p : Path) (content : List UInt8) : Except FileError FileSystem :=
  match fs.resolve p with
  | .ok names =>
    match fs.lookup names with
    | some .directory => .error .isDirectory
    | _ => .ok (fs.put names (.file content))
  | .error .notFound =>
    match p.parent?, p.fileName? with
    | some parent, some name =>
      if p.text.toList.getLast? = some '/' then .error .isDirectory
      else
        match fs.resolve (if parent.text.isEmpty then ⟨"."⟩ else parent) with
        | .ok names =>
          if fs.lookup names = some .directory then
            .ok (fs.put (names ++ [name]) (.file content))
          else .error .notDirectory
        | .error e => .error e
    | _, _ => .error .notFound
  | .error e => .error e

end FileSystem

end ScriptCompiler
