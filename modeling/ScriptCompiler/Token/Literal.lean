import ScriptCompiler.Diagnostic.Basic
import ScriptCompiler.Text.Utf8
import ScriptCompiler.Token.Word

/-!
# String and number literals

A string in double quotes is read piece by piece: a plain character, or an escape sequence that a
backslash starts. Its pieces spell bytes, because an escape may write a single byte; the text of
the literal is what the bytes say as UTF-8. A string in single quotes knows no escapes but a
backslash before a backslash or a single quote.
-/

namespace ScriptCompiler.Token

/-- Part of a string literal: the bytes it spells, how many characters it takes, and its faults. -/
structure Piece where
  bytes : List UInt8
  length : Nat
  reports : List Report

/-- The report that a string goes on to the end of the text. -/
def unterminated (start here : Position) : Report :=
  ⟨.unterminatedString, "unterminated string literal", start.spanTo here, none⟩

/-- The report of an escape sequence without a meaning. -/
def badEscape (start here : Position) (message : String) : Report :=
  ⟨.invalidEscape, message, start.spanTo here, none⟩

/-! ## Escape sequences -/

/-- Up to `most` digits in base sixteen: their value and how many there are. -/
def hexRun : Nat → Nat → List Char → Nat × Nat
  | 0, value, _ => (value, 0)
  | _ + 1, value, [] => (value, 0)
  | most + 1, value, c :: rest =>
    match hexValue? c with
    | none => (value, 0)
    | some d =>
      let (total, count) := hexRun most (value * 16 + d) rest
      (total, count + 1)

/-- The code point with this number. -/
def charOfNumber? (n : Nat) : Option Char :=
  if n.isValidChar then some (Char.ofNat n) else none

/-- The escape of one byte, after its letter: two digits in base sixteen. -/
def byteEscape (start letter : Position) (rest : List Char) : Piece :=
  let (value, count) := hexRun 2 0 rest
  if count = 2 then ⟨[UInt8.ofNat value], 1 + count, []⟩
  else
    let here := (letter.step 'x').past (rest.take count)
    ⟨[], 1 + count, [badEscape start here "\\x needs two hex digits"]⟩

/-- The escape of a code point, after its letter: four digits in base sixteen, or one to six in
braces. -/
def codePointEscape (start letter : Position) (rest : List Char) : Piece :=
  let after (n : Nat) : Position := (letter.step 'u').past (rest.take n)
  let finish (value least count length : Nat) : Piece :=
    match if least ≤ count then charOfNumber? value else none with
    | some c => ⟨String.utf8EncodeChar c, 1 + length, []⟩
    | none => ⟨[], 1 + length, [badEscape start (after length) "invalid \\u escape"]⟩
  match rest with
  | '\x7b' :: inner =>
    let (value, count) := hexRun 6 0 inner
    if inner[count]? = some '\x7d' then finish value 1 count (count + 2)
    else
      ⟨[], count + 2,
        [badEscape start (after (count + 1)) "unterminated \\u\x7b...\x7d escape"]⟩
  | _ =>
    let (value, count) := hexRun 4 0 rest
    finish value 4 count count

/-- An escape sequence, after its backslash, which stands at `start`. -/
def escape (start : Position) : List Char → Piece
  | [] => ⟨[], 0, [unterminated start (start.step '\\')]⟩
  | c :: rest =>
    match c with
    | 'n' => ⟨[0x0a], 1, []⟩
    | 't' => ⟨[0x09], 1, []⟩
    | 'r' => ⟨[0x0d], 1, []⟩
    | '0' => ⟨[0x00], 1, []⟩
    | 's' => ⟨[0x20], 1, []⟩
    | 'e' => ⟨[0x1b], 1, []⟩
    | 'a' => ⟨[0x07], 1, []⟩
    | 'b' => ⟨[0x08], 1, []⟩
    | '\n' => ⟨[], 1, []⟩
    | 'x' => byteEscape start (start.step '\\') rest
    | 'u' => codePointEscape start (start.step '\\') rest
    | other => ⟨String.utf8EncodeChar other, 1, []⟩

/-! ## Strings -/

/-- A piece and what comes after it. -/
def Piece.append (first next : Piece) : Piece :=
  ⟨first.bytes ++ next.bytes, first.length + next.length, first.reports ++ next.reports⟩

/-- The rest of a string in double quotes that starts at `start`, from the position `here` on. -/
def doubleQuoted (start here : Position) : List Char → Piece
  | [] => ⟨[], 0, [unterminated start here]⟩
  | '"' :: _ => ⟨[], 1, []⟩
  | '\\' :: rest =>
    let piece := escape here rest
    let length := piece.length
    Piece.append ⟨piece.bytes, length + 1, piece.reports⟩
      (doubleQuoted start ((here.step '\\').past (rest.take length)) (rest.drop length))
  | '#' :: rest =>
    let reports :=
      if rest.head? = some '\x7b' then
        [⟨.unsupportedSyntax, "string interpolation is not supported", here.point,
          some "build the string with + and to_s"⟩]
      else []
    Piece.append ⟨String.utf8EncodeChar '#', 1, reports⟩
      (doubleQuoted start (here.step '#') rest)
  | c :: rest =>
    Piece.append ⟨String.utf8EncodeChar c, 1, []⟩ (doubleQuoted start (here.step c) rest)
termination_by cs => cs.length
decreasing_by all_goals simp only [List.length_drop, List.length_cons]; omega

/-- The rest of a string in single quotes that starts at `start`, from the position `here` on. -/
def singleQuoted (start here : Position) : List Char → Piece
  | [] => ⟨[], 0, [unterminated start here]⟩
  | '\'' :: _ => ⟨[], 1, []⟩
  | '\\' :: '\\' :: rest =>
    Piece.append ⟨String.utf8EncodeChar '\\', 2, []⟩
      (singleQuoted start ((here.step '\\').step '\\') rest)
  | '\\' :: '\'' :: rest =>
    Piece.append ⟨String.utf8EncodeChar '\'', 2, []⟩
      (singleQuoted start ((here.step '\\').step '\'') rest)
  | c :: rest =>
    Piece.append ⟨String.utf8EncodeChar c, 1, []⟩ (singleQuoted start (here.step c) rest)

/-- The text that a literal's bytes say. -/
def Piece.text (p : Piece) : String :=
  Text.Utf8.decodeLossy p.bytes

/-! ## Integers -/

/-- The number that decimal digits spell. -/
def decimal (digits : List Char) : Nat :=
  digits.foldl (fun n c => n * 10 + (c.toNat - '0'.toNat)) 0

/-- The 64-bit integer with this value. -/
def int64OfNat? (n : Nat) : Option Int64 :=
  if (n : Int) ≤ Int64.maxValue.toInt then some (Int64.ofNat n) else none

/-- How many characters of a fraction follow: a point and at least one digit. -/
def fractionLength : List Char → Nat
  | '.' :: rest =>
    let n := (rest.takeWhile isDigit).length
    if n = 0 then 0 else n + 1
  | _ => 0

end ScriptCompiler.Token
