import ScriptCompiler.Digest
import ScriptCompiler.Files.System

/-!
# Names of units

A unit that is given no name is named after its file: the stem of the file name, made a C
identifier, and the first digits of a digest of where the file is. The digest keeps files of one
name in different directories apart, so that their units can be linked together.
-/

namespace ScriptCompiler.UnitName

/-- A character that may stand in a C identifier as it is. -/
def isPlain (c : Char) : Bool :=
  ('a' ≤ c && c ≤ 'z') || ('A' ≤ c && c ≤ 'Z') || ('0' ≤ c && c ≤ '9')

/-- Writes an underscore for every character that a C identifier cannot hold, and one before a digit
that would be the first character. -/
def clean (stem : List Char) : List Char :=
  let text := stem.map fun c => if isPlain c then c else '_'
  match text with
  | c :: _ => if '0' ≤ c && c ≤ '9' then '_' :: text else text
  | [] => []

/-- What the name of a unit starts with. -/
def stem (path : Path) : List Char :=
  match clean (path.stem?.getD "").toList with
  | [] => "unit".toList
  | text => text

/-- How many digits of the digest a name holds. -/
def hashLength : Nat := 8

/-- The digits that stand for a place. -/
def hash (place : Path) : List Char :=
  (Digest.sha256 (Text.Utf8.bytes place.text)).take hashLength

/-- Where a file is; where nothing is known of it, the path says so itself. -/
def place (fs : FileSystem) (path : Path) : Path :=
  match fs.canonical path with
  | .ok place => place
  | .error _ => path

/-- The name of the unit in a file. -/
def ofFile (fs : FileSystem) (path : Path) : String :=
  String.ofList (stem path ++ '_' :: hash (place fs path))

theorem length_hash (place : Path) : (hash place).length = hashLength := by
  simp [hash, hashLength, Digest.length_sha256]

end ScriptCompiler.UnitName
