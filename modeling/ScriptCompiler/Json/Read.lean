import ScriptCompiler.Json.Lexeme

/-!
# Reading JSON texts

The value that a JSON text says. The words are read from left to right; the lists and objects that
are open are kept innermost first.
-/

namespace ScriptCompiler.Json

/-- A list or object that is open: what it holds so far, last item first. -/
inductive Frame where
  | list (items : List Value)
  | object (fields : List (Option String × Value)) (key : Option String)

/-- The value of a string. -/
def stringValue : Option String → Value
  | some s => .string s
  | none => .unreadable

/-- The object with these fields, last field first. One key that says nothing makes it
unreadable. -/
def objectValue (fields : List (Option String × Value)) : Value :=
  match fields.reverse.mapM fun (key, v) => key.map (·, v) with
  | some fields => .object fields
  | none => .unreadable

/-- What may come next. -/
inductive Expect where
  /-- A value; a closing bracket too, if the list just opened. -/
  | value (first : Bool)
  /-- The key of a field of an object with these fields; a closing brace too, if it just opened. -/
  | key (fields : List (Option String × Value)) (first : Bool)
  /-- The colon after a key. -/
  | colon (fields : List (Option String × Value)) (key : Option String)
  /-- A comma or the end of what is open, after a value. -/
  | more (v : Value)

/-- Reads words, with the open lists and objects at hand. -/
def readFrom : Expect → List Frame → List Lexeme → Option Value
  | .more v, [], [] => some v
  | _, _, [] => none
  | .value first, open_, word :: rest =>
    match word with
    | .openList => readFrom (.value true) (.list [] :: open_) rest
    | .openObject => readFrom (.key [] true) open_ rest
    | .closeList =>
      match first, open_ with
      | true, .list [] :: outer => readFrom (.more (.list [])) outer rest
      | _, _ => none
    | .string s => readFrom (.more (stringValue s)) open_ rest
    | .scalar v => readFrom (.more v) open_ rest
    | _ => none
  | .key fields first, open_, word :: rest =>
    match word with
    | .string key => readFrom (.colon fields key) open_ rest
    | .closeObject =>
      if first then readFrom (.more (objectValue [])) open_ rest else none
    | _ => none
  | .colon fields key, open_, word :: rest =>
    match word with
    | .colon => readFrom (.value false) (.object fields key :: open_) rest
    | _ => none
  | .more v, open_, word :: rest =>
    match open_, word with
    | .list items :: outer, .comma => readFrom (.value false) (.list (v :: items) :: outer) rest
    | .list items :: outer, .closeList =>
      readFrom (.more (.list (v :: items).reverse)) outer rest
    | .object fields key :: outer, .comma => readFrom (.key ((key, v) :: fields) false) outer rest
    | .object fields key :: outer, .closeObject =>
      readFrom (.more (objectValue ((key, v) :: fields))) outer rest
    | _, _ => none

/-- The value that a text says. -/
def read? (text : String) : Option Value :=
  (lexemes? text.toList).bind (readFrom (.value false) [])

end ScriptCompiler.Json
