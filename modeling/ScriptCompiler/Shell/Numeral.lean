import ScriptCompiler.Shell.Raw

/-!
# Numerals

Numbers as programs and shells read them: a sign, then digits in base ten, in base eight after a
zero, or in base sixteen after `0x`.
-/

namespace ScriptCompiler.Shell

/-- A blank before a numeral. -/
def isSpaceByte (c : Char) : Bool :=
  c = ' ' || ('\t' ≤ c && c ≤ '\r')

/-- The value of a digit of a base. -/
def digitOf? (base : Nat) (c : Char) : Option Nat :=
  let value :=
    if c.isDigit then c.toNat - '0'.toNat
    else if 'a' ≤ c && c ≤ 'f' then c.toNat - 'a'.toNat + 10
    else if 'A' ≤ c && c ≤ 'F' then c.toNat - 'A'.toNat + 10
    else base
  if value < base then some value else none

/-- The digits of a base at the start of a text as a number, and what follows them. -/
def readDigits (base : Nat) (cs : Raw) : Nat × Raw :=
  let isDigit c := (digitOf? base c).isSome
  ((cs.takeWhile isDigit).foldl (fun n c => base * n + (digitOf? base c).getD 0) 0,
    cs.dropWhile isDigit)

/-- The base of a numeral without its sign, and its digits. -/
def baseOf (cs : Raw) : Nat × Raw :=
  match cs with
  | '0' :: x :: c :: rest =>
    if (x = 'x' || x = 'X') && (digitOf? 16 c).isSome then (16, c :: rest) else (8, cs)
  | '0' :: _ => (8, cs)
  | _ => (10, cs)

/-- The least and the greatest signed number of a word of the machine. -/
def signedBounds : Int × Int :=
  (Int64.minValue.toInt, Int64.maxValue.toInt)

/-- The numbers that a word without a sign can write: up to the greatest one, and as far below
zero. -/
def unsignedBounds : Int × Int :=
  (-(UInt64.size - 1 : Nat), (UInt64.size - 1 : Nat))

/-- The number nearest to another one between bounds. -/
def clamp (bounds : Int × Int) (n : Int) : Int :=
  max bounds.1 (min bounds.2 n)

/-- A number at the start of a text. -/
structure Numeral where
  value : Int
  /-- What follows the number. -/
  rest : Raw
  /-- There is no number. -/
  empty : Bool
  deriving DecidableEq, Repr

/-- The number at the start of a text, after blanks. Without a base it is the one that the digits
say. -/
def readNumber (base : Option Nat) (cs : Raw) : Numeral :=
  let trimmed := cs.dropWhile isSpaceByte
  let negative := trimmed.head? = some '-'
  let unsigned := if negative || trimmed.head? = some '+' then trimmed.tail else trimmed
  let (base, digits) := match base with
    | some base => (base, unsigned)
    | none => baseOf unsigned
  let (size, rest) := readDigits base digits
  if rest.length = digits.length then ⟨0, cs, true⟩
  else ⟨if negative then -size else size, rest, false⟩

/-- The decimal number that a text is, between blanks and between bounds. -/
def wholeNumber? (bounds : Int × Int) (cs : Raw) : Option Int :=
  let n := readNumber (some 10) cs
  if n.empty || !n.rest.all isSpaceByte || clamp bounds n.value ≠ n.value then none
  else some n.value

/-- The number that fits a status. -/
def smallNumber? (cs : Raw) : Option Nat :=
  (wholeNumber? (0, 0x7fffffff) cs).map Int.toNat

/-- Digits with at least so many of them, zeros in front. -/
def withZeros (count : Nat) (digits : Raw) : Raw :=
  List.replicate (count - digits.length) '0' ++ digits

end ScriptCompiler.Shell
