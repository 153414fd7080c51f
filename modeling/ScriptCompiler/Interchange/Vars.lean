import ScriptCompiler.C.Layout
import ScriptCompiler.Json.Basic
import ScriptCompiler.Lowering.Basic

/-!
# Variable maps and kinds of files as JSON

A variable map is an object with a record for each variable; of two records for one variable the
last one counts. A kind of file is an object with its name and, for a unit, the unit's name; the
list of them is read too.
-/

namespace ScriptCompiler

open Json

namespace VarMap

/-- The map as an object. -/
def toJson (m : VarMap) : Value :=
  .object (m.entries.map fun (name, index) => (name, .object [("index", .integer index)]))

/-- The index that a record says. -/
def index? (v : Value) : Option Nat := do
  match ← record? ["index"] v with
  | [some index] => word64? index
  | _ => none

/-- The map that a value says. -/
def ofJson? (v : Value) : Option VarMap := do
  (← object? v).foldlM
    (fun m (name, v) => do return m.insert name (← index? v)) .empty

end VarMap

namespace C.FileKind

/-- The kind as an object. -/
def toJson : FileKind → Value
  | .program => .object [("kind", .string "program")]
  | .unit name => .object [("kind", .string "object"), ("unit", .string name)]
  | .snippet => .object [("kind", .string "repl")]

/-- The kind that a value says, which may stand in other options. The fields of an object are kept
until its kind is known. -/
def ofJson? : Value → Option FileKind
  | .object fields => do
    guard (fieldsFit (depthLimit - 3) fields)
    match ← required "kind" string? fields with
    | "program" => some .program
    | "object" => some (.unit (← required "unit" string? fields))
    | "repl" => some .snippet
    | _ => none
  | .list [.string "program"] => some .program
  | .list [.string "object", .string name] => some (.unit name)
  | .list [.string "repl"] => some .snippet
  | _ => none

end C.FileKind

end ScriptCompiler
