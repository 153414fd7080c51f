import ScriptCompiler.Compile.Options
import ScriptCompiler.Interchange.Vars
import ScriptCompiler.Json.Read

/-!
# Compile options as JSON

Options are an object in which every field may be left out, or the list of the fields in order, from
which any number of them may be missing at the end. What is missing is as in the options that nobody
set. Of the fields only the working directory may be null.
-/

namespace ScriptCompiler

open Json

namespace Options

/-- The options as an object. -/
def toJson (o : Options) : Value :=
  .object [("load_path", .list (o.loadPath.map fun dir => .string dir.text)),
    ("output", o.output.toJson),
    ("working_dir", match o.workingDir with | some dir => .string dir.text | none => .null)]

/-- A path. -/
def path? (v : Value) : Option Path :=
  (string? v).map Path.mk

/-- What is written, decoded, or what stands for it when nothing is. -/
def orElse {α : Type} (decode : Value → Option α) (missing : α) : Option Value → Option α
  | none => some missing
  | some v => decode v

/-- The options made of the fields that are written. -/
def ofFields? (loadPath output workingDir : Option Value) : Option Options := do
  return ⟨← orElse (listOf? path?) default.loadPath loadPath,
    ← orElse C.FileKind.ofJson? default.output output,
    ← orElse (nullable path?) default.workingDir workingDir⟩

/-- The options that a value says. -/
def ofJson? : Value → Option Options
  | .object fields => do
    ofFields? (← field? "load_path" fields) (← field? "output" fields)
      (← field? "working_dir" fields)
  | .list items =>
    if 3 < items.length then none else ofFields? items[0]? items[1]? items[2]?
  | _ => none

/-- The options that a text says. -/
def ofJsonText? (text : String) : Option Options := do
  ofJson? (← Json.read? text)

end Options

end ScriptCompiler
