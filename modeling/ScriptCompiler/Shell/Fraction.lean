import ScriptCompiler.Shell.Numeral

/-!
# Numbers with a point

A numeral with a point or an exponent stands for the number of a binary format that is nearest to
it. Such a number is written with a given count of decimals, and all of its digits are right: both
steps work with fractions of whole numbers and round once.
-/

namespace ScriptCompiler.Shell

/-- The whole number nearest to a fraction; of two that are equally near, the even one. -/
def roundFraction (num den : Nat) : Nat :=
  let whole := num / den
  let rest := num % den
  if den < 2 * rest || (2 * rest = den && whole % 2 = 1) then whole + 1 else whole

/-- A whole number is not rounded. -/
theorem roundFraction_mul {den : Nat} (h : 0 < den) (n : Nat) :
    roundFraction (n * den) den = n := by
  simp [roundFraction, Nat.mul_div_cancel n h, Nat.mul_mod_left, Nat.ne_of_lt h]

/-- A binary format: its numbers have so many bits, of which the last one counts as a power of two
between bounds. -/
structure BinaryFormat where
  bits : Nat
  least : Int
  greatest : Int
  deriving DecidableEq, Repr

namespace BinaryFormat

/-- The format of 64 bits. -/
def double : BinaryFormat :=
  ⟨53, -1074, 971⟩

/-- The format of 80 bits. -/
def extended : BinaryFormat :=
  ⟨64, -16445, 16320⟩

end BinaryFormat

/-- The size of a number. -/
inductive Size where
  | fraction (num den : Nat)
  | infinite
  | undefined
  deriving DecidableEq, Repr

/-- A number times a power of a base. -/
def scaled (base : Nat) (num den : Nat) (exponent : Int) : Nat × Nat :=
  if 0 ≤ exponent then (num * Nat.pow base exponent.toNat, den)
  else (num, den * Nat.pow base exponent.natAbs)

/-- The greatest power of a base that is not above a fraction, which is not zero. -/
def powerBelow (base num den : Nat) : Int :=
  let guess : Int := (Nat.toDigits base num).length - (Nat.toDigits base den).length
  let (n, d) := scaled base num den (-guess)
  if d ≤ n then guess else guess - 1

/-- The power of two that the last bit of a number counts as, if it is near to a fraction, which is
not zero. -/
def BinaryFormat.place (f : BinaryFormat) (num den : Nat) : Int :=
  max f.least (powerBelow 2 num den - f.bits + 1)

/-- The number of a format that is nearest to a fraction. -/
def BinaryFormat.nearest (f : BinaryFormat) (num den : Nat) : Size :=
  if num = 0 then .fraction 0 1
  else
    let place := f.place num den
    let (n, d) := scaled 2 num den (-place)
    let size := roundFraction n d
    let above := if size = 1 <<< f.bits then place + 1 else place
    if f.greatest < above then .infinite
    else
      let (n, d) := scaled 2 size 1 place
      .fraction n d

/-- A fraction is too great for a format, or so small that bits of it are lost. -/
def BinaryFormat.isOutside (f : BinaryFormat) (num den : Nat) : Bool :=
  match f.nearest num den with
  | .fraction n d => n * den ≠ num * d && powerBelow 2 num den < f.least + f.bits - 1
  | _ => true

/-! ## Reading -/

/-- A number at the start of a text. -/
structure PointNumeral where
  negative : Bool
  size : Size
  /-- What follows the number. -/
  rest : Raw
  /-- There is no number. -/
  empty : Bool
  /-- The number is too great or too small for its format. -/
  outside : Bool

/-- What follows a word at the start of a text, in small letters or in capitals. -/
def afterWord (word : String) (cs : Raw) : Option Raw :=
  if (cs.take word.length).map Char.toLower = word.toList then some (cs.drop word.length) else none

/-- What follows a name in brackets, if there is one at the start of a text. -/
def afterBrackets (cs : Raw) : Raw :=
  match cs with
  | '(' :: inner =>
    match inner.dropWhile fun c => c.isAlphanum || c = '_' with
    | ')' :: rest => rest
    | _ => cs
  | _ => cs

/-- The power after a mark at the start of a text, and what follows it; without digits there is
none. -/
def powerOf (mark : Char) (cs : Raw) : Int × Raw :=
  match cs with
  | [] => (0, [])
  | c :: after =>
    let n := readNumber (some 10) after
    if c.toLower = mark && !n.empty && !(after.head?.any isSpaceByte) then (n.value, n.rest)
    else (0, cs)

/-- The powers past which a number is too great or too small for all formats. -/
def powerLimit : Int := 20000

/-- The size at the start of a text without its sign. -/
def sizeOf? (f : BinaryFormat) (cs : Raw) : Option (Size × Bool × Raw) :=
  match afterWord "infinity" cs, afterWord "inf" cs, afterWord "nan" cs with
  | some rest, _, _ | none, some rest, _ => some (.infinite, false, rest)
  | none, none, some rest => some (.undefined, false, afterBrackets rest)
  | none, none, none =>
    let isHex : Bool := match afterWord "0x" cs with
      | some (c :: d :: _) =>
        (digitOf? 16 c).isSome || (c = '.' && (digitOf? 16 d).isSome)
      | some [c] => (digitOf? 16 c).isSome
      | _ => false
    let base := if isHex then 16 else 10
    let cs := if isHex then cs.drop 2 else cs
    let (whole, rest) := readDigits base cs
    let wholeCount := cs.length - rest.length
    let after := match rest with
      | '.' :: after => after
      | _ => []
    let (both, afterPoint) := readDigits base after
    let pointCount := after.length - afterPoint.length
    let rest := if rest.head? = some '.' && 0 < wholeCount + pointCount then afterPoint else rest
    if wholeCount + pointCount = 0 then none
    else
      let num := whole * Nat.pow base pointCount + both
      let den := Nat.pow base pointCount
      let (power, rest) := powerOf (if isHex then 'p' else 'e') rest
      let place := (if isHex then 4 else 1) * powerBelow base num den + power
      if num = 0 then some (.fraction 0 1, false, rest)
      else if powerLimit < place then some (.infinite, true, rest)
      else if place < -powerLimit then some (.fraction 0 1, true, rest)
      else
        let (n, d) := scaled (if isHex then 2 else 10) num den power
        some (f.nearest n d, f.isOutside n d, rest)

/-- The number at the start of a text, after blanks. -/
def readPoint (f : BinaryFormat) (cs : Raw) : PointNumeral :=
  let trimmed := cs.dropWhile isSpaceByte
  let negative := trimmed.head? = some '-'
  let unsigned := if negative || trimmed.head? = some '+' then trimmed.tail else trimmed
  match sizeOf? f unsigned with
  | some (size, outside, rest) => ⟨negative, size, rest, false, outside⟩
  | none => ⟨false, .fraction 0 1, cs, true, false⟩

/-! ## Writing -/

/-- The decimals of a number after a point. -/
def afterPoint (always : Bool) (decimals : Raw) : Raw :=
  if decimals.isEmpty && !always then [] else '.' :: decimals

/-- A fraction with so many decimals. -/
def fixedText (always : Bool) (count num den : Nat) : Raw :=
  let digits := withZeros (count + 1) (Raw.ofNat (roundFraction (num * Nat.pow 10 count) den))
  digits.take (digits.length - count) ++ afterPoint always (digits.drop (digits.length - count))

/-- The digits of a fraction, one and so many decimals, and the power of ten of the first one. -/
def leadingDigits (count num den : Nat) : Raw × Int :=
  if num = 0 then (List.replicate (count + 1) '0', 0)
  else
    let power := powerBelow 10 num den
    let (n, d) := scaled 10 num den (count - power)
    let digits := Raw.ofNat (roundFraction n d)
    if digits.length = count + 1 then (digits, power) else (digits.take (count + 1), power + 1)

/-- Digits and a power of ten, of which at least two digits are written. -/
def powerText (always : Bool) (digits : Raw) (power : Int) : Raw :=
  digits.take 1 ++ afterPoint always (digits.drop 1) ++ 'e' :: (if power < 0 then '-' else '+')
    :: withZeros 2 (Raw.ofNat power.natAbs)

/-- A fraction with one digit before the point, so many decimals and a power of ten. -/
def exponentText (always : Bool) (count num den : Nat) : Raw :=
  let (digits, power) := leadingDigits count num den
  powerText always digits power

/-- Decimals without the zeros at their end. -/
def withoutZeros (digits : Raw) : Raw :=
  (digits.reverse.dropWhile (· = '0')).reverse

/-- A fraction with so many digits at most, with a power of ten if it is very great or small. -/
def generalText (always : Bool) (count num den : Nat) : Raw :=
  let count := max 1 count
  let (digits, power) := leadingDigits (count - 1) num den
  let kept := if always then digits else digits.take 1 ++ withoutZeros (digits.drop 1)
  if power < -4 || count ≤ power then powerText always kept power
  else if power < 0 then
    '0' :: afterPoint always (List.replicate (power.natAbs - 1) '0' ++ kept)
  else
    let whole := power.toNat + 1
    digits.take whole ++ afterPoint always (kept.drop whole)

/-- The bits of the digit before the point of a number in base sixteen: all others fill digits. -/
def BinaryFormat.leading (f : BinaryFormat) : Nat :=
  (f.bits - 1) % 4 + 1

/-- A number of a format in base sixteen with a power of two. Without a count it has the decimals
that it needs. -/
def hexText (f : BinaryFormat) (always : Bool) (count : Option Nat) (num den : Nat) : Raw :=
  let places := (f.bits - f.leading) / 4
  let power : Int :=
    if num = 0 then 0 else max (f.least + f.bits - f.leading) (powerBelow 2 num den - f.leading + 1)
  let (n, d) := scaled 2 num den (4 * (count.getD places : Nat) - power)
  let digits := withZeros (count.getD places + 1) (Nat.toDigits 16 (roundFraction n d))
  let decimals := digits.drop 1
  digits.take 1 ++ afterPoint always (if count.isSome then decimals else withoutZeros decimals)
    ++ 'p' :: (if power < 0 then '-' else '+') :: Raw.ofNat power.natAbs

end ScriptCompiler.Shell
