import ScriptCompiler.Diagnostic.Basic
import ScriptCompiler.Interchange.Span
import ScriptCompiler.Json.Read

/-!
# Diagnostics as JSON

A diagnostic is an object that holds the four numbers of its span beside its own fields; only the
suggestion may be missing. A log is a record of the diagnostics kept and of how many there were.
-/

namespace ScriptCompiler

open Json (Value Fields)

/-- The diagnostic as an object. -/
def Diagnostic.toJson (d : Diagnostic) : Value :=
  .object ([("file", .string d.file), ("code", .integer d.code.number),
    ("severity", .string d.severity.text), ("category", .string d.category.text),
    ("message", .string d.message)] ++ d.span.toFields
    ++ [("source_line", .string d.sourceLine)]
    ++ match d.suggestion with
      | none => []
      | some s => [("suggestion", .string s)])

/-- The log's fields. -/
def Log.toFields (l : Log) : Fields :=
  [("errors", .list (l.kept.map Diagnostic.toJson)), ("total_errors", .integer l.total)]

namespace Interchange

open Json

/-- One of several names, written as a string or as an object with the name as its only key. -/
def choice? {α : Type} (named : List (String × α)) : Value → Option α
  | .string s => named.lookup s
  | .object [(s, .null)] => named.lookup s
  | _ => none

/-- The names of severities. -/
def severity? : Value → Option Severity :=
  choice? ([.error, .warning].map fun s => (s.text, s))

/-- The names of categories. -/
def category? : Value → Option Category :=
  choice? ([.syntactic, .unsupported].map fun c => (c.text, c))

/-- The diagnostic that a value says, which stands in the list of a log. Fields that are not its own
are kept until its span is taken from them. -/
def diagnostic? (v : Value) : Option Diagnostic := do
  let fields ← object? v
  let own := ["file", "code", "severity", "category", "message", "source_line", "suggestion"]
  guard (fieldsFit (depthLimit - 4) (fields.filter fun (name, _) => !own.contains name))
  some {
    file := ← required "file" string? fields
    code := ⟨← required "code" word16? fields⟩
    severity := ← required "severity" severity? fields
    category := ← required "category" category? fields
    message := ← required "message" string? fields
    span := ← Span.ofJson? v
    sourceLine := ← required "source_line" string? fields
    suggestion := ← optional "suggestion" string? fields }

end Interchange

/-- The log that a value says. -/
def Log.ofJson? (v : Value) : Option Log := do
  match ← Json.record? ["errors", "total_errors"] v with
  | [some errors, some total] =>
    some ⟨← Json.listOf? Interchange.diagnostic? errors, ← Json.word64? total⟩
  | _ => none

/-- The log that a JSON text says. -/
def Log.ofJsonText? (text : String) : Option Log := do
  ofJson? (← Json.read? text)

end ScriptCompiler
