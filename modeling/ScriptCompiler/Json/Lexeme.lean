import ScriptCompiler.Json.Basic
import ScriptCompiler.Token.Literal

/-!
# The words of JSON texts

A JSON text is a sequence of marks, numbers, strings and the three names, with blanks between them.
Strings hold no control characters, and an escape names a code point or half a surrogate pair. A
string says nothing if it holds one half of a pair without the other.
-/

namespace ScriptCompiler.Json

/-! ## Numbers too great for a float

A number that is no integer of a word is read as a double-precision float, in steps that round: the
digits that a word holds become a float, and that is multiplied by the float of a power of ten. So a
number close to the greatest float may overflow although a float lies nearer to it than infinity.
`Scaled.overflows` says which numbers do.
-/

/-- A whole number with so many significant bits at most, the nearest to the given one; of two that
are equally near, the even one. -/
def roundTo (bits n : Nat) : Nat :=
  let dropped := n.log2 + 1 - bits
  let kept := n >>> dropped
  let rest := n - kept <<< dropped
  let up := 1 <<< dropped < 2 * rest || (1 <<< dropped == 2 * rest && kept % 2 == 1)
  (if up then kept + 1 else kept) <<< dropped

theorem roundTo_eq_self {bits n : Nat} (h : n.log2 < bits) : roundTo bits n = n := by
  have none_dropped : n.log2 + 1 - bits = 0 := by omega
  simp [roundTo, none_dropped]

/-- The double-precision float nearest to a whole number, if it is not too great. -/
def nearestFloat (n : Nat) : Nat :=
  roundTo 53 n

/-- The least number that rounds to infinity: half a unit above the greatest double-precision
float. -/
def floatLimit : Nat :=
  1 <<< 1024 - 1 <<< 970

/-- The greatest power of ten that is a float. -/
def greatestPower : Int := 308

/-- A whole number of a word times a power of ten. -/
structure Scaled where
  significand : Nat
  exponent : Int
  deriving DecidableEq, Repr

namespace Scaled

/-- The value of a digit. -/
def digit (c : Char) : Nat :=
  c.toNat - '0'.toNat

/-- Appends digits before the point: as many as the word holds; each other one is a power of ten. -/
def whole (s : Scaled) : List Char → Scaled
  | [] => s
  | c :: cs =>
    let n := s.significand * 10 + digit c
    if n < UInt64.size then whole ⟨n, s.exponent⟩ cs
    else ⟨s.significand, s.exponent + (cs.length + 1)⟩

/-- Appends digits after the point, as many as the word holds. -/
def fraction (s : Scaled) : List Char → Scaled
  | [] => s
  | c :: cs =>
    let n := s.significand * 10 + digit c
    if n < UInt64.size then fraction ⟨n, s.exponent - 1⟩ cs else s

/-- The number with these digits before and after the point, times a power of ten. -/
def ofDigits (before after : List Char) (exponent : Int) : Scaled :=
  let s := ((⟨0, 0⟩ : Scaled).whole before).fraction after
  { s with exponent := s.exponent + exponent }

/-- The number is read as infinity. -/
def overflows (s : Scaled) : Bool :=
  s.significand != 0 &&
    (greatestPower < s.exponent ||
      (0 ≤ s.exponent &&
        floatLimit ≤ nearestFloat s.significand * nearestFloat (Nat.pow 10 s.exponent.toNat)))

/-- The significand of a number is one of a word. -/
theorem significand_whole_lt {s : Scaled} (h : s.significand < UInt64.size) (cs : List Char) :
    (s.whole cs).significand < UInt64.size := by
  induction cs generalizing s with
  | nil => exact h
  | cons c cs ih =>
    by_cases fits : s.significand * 10 + digit c < UInt64.size
    · simpa only [whole, if_pos fits] using ih fits
    · simpa only [whole, if_neg fits] using h

end Scaled

/-! ## Words -/

open Token (isDigit hexRun)

/-- A word of a JSON text. -/
inductive Lexeme where
  | openList
  | closeList
  | openObject
  | closeObject
  | comma
  | colon
  /-- A string, or none if it says nothing. -/
  | string (s : Option String)
  /-- A value that is neither a string, nor a list, nor an object. -/
  | scalar (v : Value)

/-! ## Strings -/

/-- A code unit: four digits in base sixteen. -/
def codeUnit? (cs : List Char) : Option Nat :=
  let (value, count) := hexRun 4 0 cs
  if count = 4 then some value else none

/-- The second half of a surrogate pair, if an escape for one comes next. -/
def secondHalf? : List Char → Option Nat
  | '\\' :: 'u' :: rest => (codeUnit? rest).filter fun low => 0xdc00 ≤ low && low ≤ 0xdfff
  | _ => none

/-- The character of an escape by number, none for half a pair, and how many characters the escape
takes after its letter. -/
def codePoint? (cs : List Char) : Option (Option Char × Nat) := do
  let unit ← codeUnit? cs
  if 0xd800 ≤ unit ∧ unit ≤ 0xdbff then
    match secondHalf? (cs.drop 4) with
    | some low => some (some (Char.ofNat ((unit - 0xd800) * 0x400 + (low - 0xdc00) + 0x10000)), 10)
    | none => some (none, 4)
  else if 0xdc00 ≤ unit ∧ unit ≤ 0xdfff then some (none, 4)
  else some (some (Char.ofNat unit), 4)

/-- The character that an escape of one letter stands for. -/
def shortEscape? : Char → Option Char
  | '"' => some '"'
  | '\\' => some '\\'
  | '/' => some '/'
  | 'b' => some '\x08'
  | 'f' => some '\x0c'
  | 'n' => some '\n'
  | 'r' => some '\r'
  | 't' => some '\t'
  | _ => none

/-- A character, if there is one, before others, if there are any to say. -/
def before (c : Option Char) (cs : Option (List Char)) : Option (List Char) := do
  return (← c) :: (← cs)

/-- The characters of a string after its opening quote, none if it says nothing, and what follows
its closing quote. -/
def stringBody? : List Char → Option (Option (List Char) × List Char)
  | [] => none
  | '"' :: rest => some (some [], rest)
  | '\\' :: 'u' :: rest =>
    match codePoint? rest with
    | none => none
    | some (c, length) =>
      (stringBody? (rest.drop length)).map fun (cs, after) => (before c cs, after)
  | '\\' :: e :: rest =>
    match shortEscape? e with
    | none => none
    | some c => (stringBody? rest).map fun (cs, after) => (before (some c) cs, after)
  | c :: rest =>
    if c.toNat < 0x20 ∨ c = '\\' then none
    else (stringBody? rest).map fun (cs, after) => (before (some c) cs, after)
termination_by cs => cs.length
decreasing_by all_goals simp only [List.length_drop, List.length_cons]; omega

/-! ## Numbers -/

/-- A run of digits at the start of a text. -/
def digitRun (cs : List Char) : List Char :=
  cs.takeWhile isDigit

/-- The digits of a fraction: a point and at least one digit, or nothing. -/
def fraction? : List Char → Option (List Char × List Char)
  | '.' :: rest =>
    let digits := digitRun rest
    if digits.isEmpty then none else some (digits, rest.drop digits.length)
  | rest => some ([], rest)

/-- The exponent of a number: a letter, perhaps a sign, and at least one digit, or nothing. -/
def exponent? (cs : List Char) : Option (Option Int × List Char) :=
  match cs with
  | c :: rest =>
    if c = 'e' ∨ c = 'E' then
      let (negative, rest) :=
        match rest with
        | '-' :: after => (true, after)
        | '+' :: after => (false, after)
        | _ => (false, rest)
      let digits := digitRun rest
      if digits.isEmpty then none
      else
        let size : Int := Token.decimal digits
        some (some (if negative then -size else size), rest.drop digits.length)
    else some (none, cs)
  | [] => some (none, [])

/-- The number without its sign at the start of a text, and what follows it. -/
def unsigned? (negative : Bool) (cs : List Char) : Option (Value × List Char) := do
  let whole := digitRun cs
  guard (whole ≠ [])
  guard (whole.head? = some '0' → whole.length = 1)
  let (fractional, rest) ← fraction? (cs.drop whole.length)
  let (exponent, rest) ← exponent? rest
  let size : Int := Token.decimal (whole ++ fractional)
  let digits := if negative then -size else size
  if (Scaled.ofDigits whole fractional (exponent.getD 0)).overflows then some (.unreadable, rest)
  else if fractional.isEmpty ∧ exponent = none ∧ ¬ (negative ∧ size = 0) then
    some (.integer digits, rest)
  else some (.decimal digits (exponent.getD 0 - fractional.length), rest)

/-- The number at the start of a text, and what follows it. -/
def number? : List Char → Option (Value × List Char)
  | '-' :: rest => unsigned? true rest
  | cs => unsigned? false cs

/-! ## All words -/

/-- The names of values. -/
def names : List (String × Value) :=
  [("null", .null), ("true", .bool true), ("false", .bool false)]

/-- The word that starts a text which is not blank at its start, and what follows it. -/
def lexeme? (cs : List Char) : Option (Lexeme × List Char) :=
  match cs with
  | [] => none
  | '[' :: rest => some (.openList, rest)
  | ']' :: rest => some (.closeList, rest)
  | '\x7b' :: rest => some (.openObject, rest)
  | '\x7d' :: rest => some (.closeObject, rest)
  | ',' :: rest => some (.comma, rest)
  | ':' :: rest => some (.colon, rest)
  | '"' :: rest => 
    (stringBody? rest).map fun (s, after) => (.string (s.map String.ofList), after)
  | _ =>
    match names.find? fun (name, _) => name.toList.isPrefixOf cs with
    | some (name, v) => some (.scalar v, cs.drop name.length)
    | none => (number? cs).map fun (v, after) => (.scalar v, after)

/-- A blank between words. -/
def isGap (c : Char) : Bool :=
  c = ' ' || c = '\t' || c = '\n' || c = '\r'

/-- The words of a text. -/
def lexemes? (cs : List Char) : Option (List Lexeme) :=
  match _h : cs.dropWhile isGap with
  | [] => some []
  | text =>
    match lexeme? text with
    | none => none
    | some (word, rest) =>
      if _lt : rest.length < text.length then (lexemes? rest).map (word :: ·) else none
termination_by cs.length
decreasing_by
  have : (cs.dropWhile isGap).length ≤ cs.length := (List.dropWhile_suffix _).length_le
  simp_all only
  omega

end ScriptCompiler.Json
