/-!
# Digests

The SHA-256 digest of a sequence of bytes. The message is padded to whole blocks of sixteen words;
each block is extended to sixty-four words, and these are mixed into a state of eight words, one in
each round. The digest is the state after the last block, written with eight hexadecimal digits for
each word.
-/

namespace ScriptCompiler.Digest

/-! ## Padding -/

/-- How many zero bytes stand between the end mark of a message of so many bytes and its length. -/
def zeros (size : Nat) : Nat :=
  (64 - (size + 9) % 64) % 64

/-- The bytes of a number, the most significant of so many first. -/
def bigEndian : Nat → Nat → List UInt8
  | 0, _ => []
  | count + 1, n => UInt8.ofNat (n >>> (8 * count)) :: bigEndian count n

/-- A message with its end mark, zeros up to the end of a block, and its length in bits. -/
def pad (message : List UInt8) : List UInt8 :=
  message ++ 0x80 :: List.replicate (zeros message.length) 0 ++ bigEndian 8 (8 * message.length)

/-- Bytes as words, the most significant byte of each first. -/
def words : List UInt8 → List UInt32
  | a :: b :: c :: d :: rest =>
    (a.toUInt32 <<< 24 ||| b.toUInt32 <<< 16 ||| c.toUInt32 <<< 8 ||| d.toUInt32) :: words rest
  | _ => []

/-- The first so many blocks of sixteen words. -/
def blocks : Nat → List UInt32 → List (List UInt32)
  | 0, _ => []
  | count + 1, ws => ws.take 16 :: blocks count (ws.drop 16)

/-! ## Rounds -/

/-- The bits of a word moved to the right, those that leave coming back on the left. -/
def rotate (w n : UInt32) : UInt32 :=
  w >>> n ||| w <<< (32 - n)

/-- The words of a block extended by so many; the newest one comes first. -/
def extend : Nat → List UInt32 → List UInt32
  | 0, ws => ws
  | count + 1, ws =>
    let early := ws.getD 14 0
    let late := ws.getD 1 0
    let next := ws.getD 15 0 + (rotate early 7 ^^^ rotate early 18 ^^^ early >>> 3)
      + ws.getD 6 0 + (rotate late 17 ^^^ rotate late 19 ^^^ late >>> 10)
    extend count (next :: ws)

/-- The words that the rounds of a block use. -/
def schedule (block : List UInt32) : List UInt32 :=
  (extend 48 block.reverse).reverse

/-- The state between rounds. -/
structure State where
  a : UInt32
  b : UInt32
  c : UInt32
  d : UInt32
  e : UInt32
  f : UInt32
  g : UInt32
  h : UInt32
  deriving DecidableEq, Repr

/-- The words of a state in order. -/
def State.words (s : State) : List UInt32 :=
  [s.a, s.b, s.c, s.d, s.e, s.f, s.g, s.h]

/-- The sum of two states, word by word. -/
def State.add (s t : State) : State :=
  ⟨s.a + t.a, s.b + t.b, s.c + t.c, s.d + t.d, s.e + t.e, s.f + t.f, s.g + t.g, s.h + t.h⟩

/-- The fractional parts of the square roots of the first eight primes. -/
def start : State :=
  ⟨0x6a09e667, 0xbb67ae85, 0x3c6ef372, 0xa54ff53a,
    0x510e527f, 0x9b05688c, 0x1f83d9ab, 0x5be0cd19⟩

/-- The fractional parts of the cube roots of the first sixty-four primes. -/
def constants : List UInt32 :=
  [0x428a2f98, 0x71374491, 0xb5c0fbcf, 0xe9b5dba5, 0x3956c25b, 0x59f111f1, 0x923f82a4, 0xab1c5ed5,
    0xd807aa98, 0x12835b01, 0x243185be, 0x550c7dc3, 0x72be5d74, 0x80deb1fe, 0x9bdc06a7, 0xc19bf174,
    0xe49b69c1, 0xefbe4786, 0x0fc19dc6, 0x240ca1cc, 0x2de92c6f, 0x4a7484aa, 0x5cb0a9dc, 0x76f988da,
    0x983e5152, 0xa831c66d, 0xb00327c8, 0xbf597fc7, 0xc6e00bf3, 0xd5a79147, 0x06ca6351, 0x14292967,
    0x27b70a85, 0x2e1b2138, 0x4d2c6dfc, 0x53380d13, 0x650a7354, 0x766a0abb, 0x81c2c92e, 0x92722c85,
    0xa2bfe8a1, 0xa81a664b, 0xc24b8b70, 0xc76c51a3, 0xd192e819, 0xd6990624, 0xf40e3585, 0x106aa070,
    0x19a4c116, 0x1e376c08, 0x2748774c, 0x34b0bcb5, 0x391c0cb3, 0x4ed8aa4a, 0x5b9cca4f, 0x682e6ff3,
    0x748f82ee, 0x78a5636f, 0x84c87814, 0x8cc70208, 0x90befffa, 0xa4506ceb, 0xbef9a3f7, 0xc67178f2]

/-- One round, with its constant and its word. -/
def round (s : State) : UInt32 × UInt32 → State
  | (constant, word) =>
    let choice := (s.e &&& s.f) ^^^ (~~~s.e &&& s.g)
    let majority := (s.a &&& s.b) ^^^ (s.a &&& s.c) ^^^ (s.b &&& s.c)
    let first := s.h + (rotate s.e 6 ^^^ rotate s.e 11 ^^^ rotate s.e 25) + choice + constant + word
    let second := (rotate s.a 2 ^^^ rotate s.a 13 ^^^ rotate s.a 22) + majority
    ⟨first + second, s.a, s.b, s.c, s.d + first, s.e, s.f, s.g⟩

/-- Mixes a block into a state. -/
def mix (s : State) (block : List UInt32) : State :=
  s.add ((constants.zip (schedule block)).foldl round s)

/-- The digest of a message as a state. -/
def final (message : List UInt8) : State :=
  let padded := pad message
  (blocks (padded.length / 64) (words padded)).foldl mix start

/-! ## Text -/

/-- The hexadecimal digit of a number below sixteen. -/
def hexDigit (n : Nat) : Char :=
  if n < 10 then Char.ofNat ('0'.toNat + n) else Char.ofNat ('a'.toNat + (n - 10))

/-- The last so many hexadecimal digits of a number. -/
def hexDigits : Nat → Nat → List Char
  | 0, _ => []
  | count + 1, n => hexDigit (n >>> (4 * count) % 16) :: hexDigits count n

/-- The digest of a message in hexadecimal digits. -/
def sha256 (message : List UInt8) : List Char :=
  (final message).words.flatMap fun w => hexDigits 8 w.toNat

theorem length_hexDigits (count n : Nat) : (hexDigits count n).length = count := by
  induction count with
  | zero => rfl
  | succ count ih => simp [hexDigits, ih]

theorem length_sha256 (message : List UInt8) : (sha256 message).length = 64 := by
  simp [sha256, State.words, length_hexDigits]

end ScriptCompiler.Digest
