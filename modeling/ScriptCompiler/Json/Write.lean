import ScriptCompiler.Json.Basic
import ScriptCompiler.Text.Quoted

/-!
# Writing JSON texts

The shortest spelling of a value: no blanks between words, and escapes only where a string needs
one. What says no value is spelled as a number that is too great.
-/

namespace ScriptCompiler.Json

/-- A character inside a string. -/
def writeChar (c : Char) : List Char :=
  if c = '"' then ['\\', '"']
  else if c = '\\' then ['\\', '\\']
  else if c = '\x08' then ['\\', 'b']
  else if c = '\x0c' then ['\\', 'f']
  else if c = '\n' then ['\\', 'n']
  else if c = '\r' then ['\\', 'r']
  else if c = '\t' then ['\\', 't']
  else if c.toNat < 0x20 then
    ['\\', 'u', '0', '0', Nat.digitChar (c.toNat / 16), Nat.digitChar (c.toNat % 16)]
  else [c]

/-- A string between quotes. -/
def writeString (s : String) : List Char :=
  '"' :: s.toList.flatMap writeChar ++ ['"']

/-- The decimal digits of an integer. -/
def writeInteger (n : Int) : List Char :=
  (toString n).toList

mutual

/-- A value as text. -/
def Value.write : Value → List Char
  | .null => "null".toList
  | .bool true => "true".toList
  | .bool false => "false".toList
  | .integer n => writeInteger n
  | .decimal digits exponent => writeInteger digits ++ 'e' :: writeInteger exponent
  | .string s => writeString s
  | .list items => '[' :: writeItems items ++ [']']
  | .unreadable => "1e309".toList
  | .object fields => '\x7b' :: writeFields fields ++ ['\x7d']

/-- The items of a list, with commas between them. -/
def writeItems : List Value → List Char
  | [] => []
  | [v] => v.write
  | v :: vs => v.write ++ ',' :: writeItems vs

/-- The fields of an object, with commas between them. -/
def writeFields : List (String × Value) → List Char
  | [] => []
  | [(key, v)] => writeString key ++ ':' :: v.write
  | (key, v) :: fields => writeString key ++ ':' :: v.write ++ ',' :: writeFields fields

end

/-- A value as text. -/
def Value.text (v : Value) : String :=
  String.ofList v.write

end ScriptCompiler.Json
