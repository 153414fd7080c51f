import ScriptCompiler.Text.Utf8

/-!
# Raw text

A shell does not know which bytes make a character: it counts, cuts and compares bytes. A raw text
holds one character for each byte, the one with its number.
-/

namespace ScriptCompiler.Shell

/-- A text with a character for each byte. -/
abbrev Raw := List Char

namespace Raw

/-- The raw text of bytes. -/
def ofBytes (bytes : List UInt8) : Raw :=
  bytes.map fun b => Char.ofNat b.toNat

/-- The bytes of a raw text. -/
def toBytes (r : Raw) : List UInt8 :=
  r.map fun c => UInt8.ofNat c.toNat

/-- The raw text of a text. -/
def ofString (s : String) : Raw :=
  ofBytes (Text.Utf8.bytes s)

/-- The text of a raw text; bytes that make no character are replaced. -/
def toString (r : Raw) : String :=
  Text.Utf8.decodeLossy (toBytes r)

/-- The decimal digits of a number. -/
def ofNat (n : Nat) : Raw :=
  Nat.toDigits 10 n

/-- The decimal digits of an integer, after a minus if it is below zero. -/
def ofInt (n : Int) : Raw :=
  if n < 0 then '-' :: ofNat n.natAbs else ofNat n.natAbs

/-- Texts in order, with another one between each two. -/
def join (between : Raw) (parts : List Raw) : Raw :=
  (parts.intersperse between).flatten

theorem toBytes_ofBytes (bytes : List UInt8) : toBytes (ofBytes bytes) = bytes := by
  induction bytes with
  | nil => rfl
  | cons b bytes ih =>
    have small : b.toNat < 256 := b.toNat_lt
    have valid : b.toNat.isValidChar := Or.inl (by omega)
    have h : UInt8.ofNat (Char.ofNat b.toNat).toNat = b := by
      have same : (Char.ofNat b.toNat).toNat = b.toNat := by
        rw [Char.ofNat, dif_pos valid]
        rfl
      rw [same, UInt8.ofNat_toNat]
    simp only [ofBytes, toBytes, List.map_cons, List.cons.injEq] at ih ⊢
    exact ⟨h, ih⟩

end Raw

end ScriptCompiler.Shell
