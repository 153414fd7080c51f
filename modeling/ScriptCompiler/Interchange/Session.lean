import ScriptCompiler.Interchange.Vars
import ScriptCompiler.Json.Read
import ScriptCompiler.Json.Write
import ScriptCompiler.Session.Basic

/-!
# Session states as JSON

A state is a record of the number of turns and of the variable map, so that a session can go on
later.
-/

namespace ScriptCompiler.Session.State

open Json

/-- The state as an object. -/
def toJson (s : State) : Value :=
  .object [("turn", .integer s.turn.toNat), ("vars", s.vars.toJson)]

/-- The state that a value says. -/
def ofJson? (v : Value) : Option State := do
  match ← record? ["turn", "vars"] v with
  | [some turn, some vars] => return ⟨.ofNat (← word64? turn), ← VarMap.ofJson? vars⟩
  | _ => none

/-- The state as text. -/
def toJsonText (s : State) : String :=
  s.toJson.text

/-- The state that a text says. -/
def ofJsonText? (text : String) : Option State := do
  ofJson? (← Json.read? text)

end ScriptCompiler.Session.State
