import ScriptCompiler.Json.Basic
import ScriptCompiler.Source.Span

/-!
# Spans as JSON

A span is a record of four numbers.
-/

namespace ScriptCompiler.Span

open Json

/-- The span as fields of an object. -/
def toFields (s : Span) : Fields :=
  [("start_line", .integer s.startLine), ("start_col", .integer s.startColumn),
    ("end_line", .integer s.endLine), ("end_col", .integer s.endColumn)]

/-- The names of the fields, in order. -/
def fieldNames : List String :=
  ["start_line", "start_col", "end_line", "end_col"]

/-- The span with the numbers of a record. -/
def ofRecord? : List (Option Value) → Option Span
  | [some a, some b, some c, some d] => do
    some ⟨← word32? a, ← word32? b, ← word32? c, ← word32? d⟩
  | _ => none

/-- The span that a value says. -/
def ofJson? (v : Value) : Option Span := do
  ofRecord? (← record? fieldNames v)

end ScriptCompiler.Span
