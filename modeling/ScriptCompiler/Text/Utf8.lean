/-!
# UTF-8

Text as bytes and back. A byte sequence is read one code point at a time; where the bytes are not
UTF-8, the longest start of a code point they hold counts as one fault. `decode?` refuses a
sequence with a fault and `decodeLossy` writes U+FFFD for each.
-/

namespace ScriptCompiler.Text.Utf8

/-- The bytes of a text. -/
def encode (cs : List Char) : List UInt8 :=
  cs.flatMap String.utf8EncodeChar

/-- The bytes of a string. -/
def bytes (s : String) : List UInt8 :=
  encode s.toList

/-- A byte that continues a code point. -/
def isTail (b : UInt8) : Bool :=
  0x80 ≤ b && b ≤ 0xbf

/-- How many bytes follow a first byte, and the range of the first of them. -/
def tailsAfter (b : UInt8) : Option (Nat × UInt8 × UInt8) :=
  if b < 0x80 then some (0, 0x80, 0xbf)
  else if b < 0xc2 then none
  else if b < 0xe0 then some (1, 0x80, 0xbf)
  else if b = 0xe0 then some (2, 0xa0, 0xbf)
  else if b = 0xed then some (2, 0x80, 0x9f)
  else if b < 0xf0 then some (2, 0x80, 0xbf)
  else if b = 0xf0 then some (3, 0x90, 0xbf)
  else if b < 0xf4 then some (3, 0x80, 0xbf)
  else if b = 0xf4 then some (3, 0x80, 0x8f)
  else none

/-- The payload of the first byte of a code point with so many bytes after it. -/
def leadBits (b : UInt8) : Nat → Nat
  | 0 => b.toNat
  | 1 => b.toNat % 0x20
  | 2 => b.toNat % 0x10
  | _ => b.toNat % 0x08

/-- A step of reading: the code point, or none for a fault, and how many bytes after the first one
belong to it. -/
structure Step where
  char : Option Char
  tails : Nat

/-- Reads on after a first byte: `wanted` bytes are to come, the next one between `low` and `high`,
and `seen` were taken. -/
def readTails (value : Nat) (low high : UInt8) (seen : Nat) : Nat → List UInt8 → Step
  | 0, _ => ⟨some (Char.ofNat value), seen⟩
  | _ + 1, [] => ⟨none, seen⟩
  | wanted + 1, b :: rest =>
    if low ≤ b && b ≤ high then
      readTails (value * 0x40 + b.toNat % 0x40) 0x80 0xbf (seen + 1) wanted rest
    else ⟨none, seen⟩

/-- Reads one code point, or one fault. -/
def readOne (b : UInt8) (rest : List UInt8) : Step :=
  match tailsAfter b with
  | none => ⟨none, 0⟩
  | some (wanted, low, high) => readTails (leadBits b wanted) low high 0 wanted rest

/-- The code points and faults of a byte sequence, in order. -/
def decodeAll : List UInt8 → List (Option Char)
  | [] => []
  | b :: rest =>
    let step := readOne b rest
    step.char :: decodeAll (rest.drop step.tails)
termination_by bytes => bytes.length
decreasing_by simp only [List.length_drop, List.length_cons]; omega

/-- The text of a byte sequence, with U+FFFD for each fault. -/
def decodeLossy (bs : List UInt8) : String :=
  String.ofList ((decodeAll bs).map (·.getD '\uFFFD'))

/-- The text of a byte sequence without faults. -/
def decode? (bs : List UInt8) : Option String :=
  ((decodeAll bs).mapM id).map String.ofList

end ScriptCompiler.Text.Utf8
