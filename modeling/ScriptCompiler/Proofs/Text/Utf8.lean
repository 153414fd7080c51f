import ScriptCompiler.Text.Utf8

/-!
# Text and its bytes

The bytes of a text are read back as the text, without a fault. So texts with the same bytes are the
same, and the first null byte is that of the first null character.
-/

namespace ScriptCompiler.Text.Utf8

/-! ## One code point -/

/-- The byte that continues a code point with six bits of it. -/
def tail (n : Nat) : UInt8 :=
  UInt8.ofNat (n % 64 + 128)

theorem toNat_tail (n : Nat) : (tail n).toNat = n % 64 + 128 := by
  rw [tail, UInt8.toNat_ofNat']
  omega

theorem tail_range (n : Nat) : 0x80 ≤ tail n ∧ tail n ≤ 0xbf := by
  simp only [UInt8.le_iff_toNat_le, toNat_tail, UInt8.reduceToNat]
  omega

/-- A byte in range is taken with its bits. -/
theorem readTails_tail {low high : UInt8} {n : Nat} (ge : low ≤ tail n) (le : tail n ≤ high)
    (value seen wanted : Nat) (rest : List UInt8) :
    readTails value low high seen (wanted + 1) (tail n :: rest)
      = readTails (value * 64 + n % 64) 0x80 0xbf (seen + 1) wanted rest := by
  have bits : (n % 64 + 128) % 64 = n % 64 := by omega
  rw [readTails, decide_eq_true ge, decide_eq_true le, Bool.and_self, if_pos rfl, toNat_tail,
    bits]

/-- The number that a number and the bits of more bytes make. -/
def extend (value : Nat) (ns : List Nat) : Nat :=
  ns.foldl (fun value n => value * 64 + n % 64) value

theorem readTails_tails (value seen : Nat) (ns : List Nat) (rest : List UInt8) :
    readTails value 0x80 0xbf seen ns.length (ns.map tail ++ rest)
      = ⟨some (Char.ofNat (extend value ns)), seen + ns.length⟩ := by
  induction ns generalizing value seen with
  | nil => rfl
  | cons n ns ih =>
    rw [List.length_cons, List.map_cons, List.cons_append,
      readTails_tail (tail_range n).1 (tail_range n).2, ih, Nat.add_assoc, Nat.add_comm 1]
    rfl

/-- After a first byte, the first of the bytes that continue it has a range of its own. -/
theorem readOne_tails {b low high : UInt8} {n : Nat} {ns : List Nat}
    (wanted : tailsAfter b = some (ns.length + 1, low, high)) (ge : low ≤ tail n)
    (le : tail n ≤ high) (rest : List UInt8) :
    readOne b ((n :: ns).map tail ++ rest)
      = ⟨some (Char.ofNat (extend (leadBits b (ns.length + 1)) (n :: ns))), ns.length + 1⟩ := by
  rw [readOne, wanted, List.map_cons, List.cons_append]
  simp only [readTails_tail ge le, readTails_tails, Nat.zero_add, Nat.add_comm 1 ns.length]
  rfl

/-- The numbers that the first byte of a code point is compared with. -/
theorem tailsAfter_eq {b : UInt8} {n : Nat} (h : b.toNat = n) : tailsAfter b
    = if n < 0x80 then some (0, 0x80, 0xbf)
      else if n < 0xc2 then none
      else if n < 0xe0 then some (1, 0x80, 0xbf)
      else if n = 0xe0 then some (2, 0xa0, 0xbf)
      else if n = 0xed then some (2, 0x80, 0x9f)
      else if n < 0xf0 then some (2, 0x80, 0xbf)
      else if n = 0xf0 then some (3, 0x90, 0xbf)
      else if n < 0xf4 then some (3, 0x80, 0xbf)
      else if n = 0xf4 then some (3, 0x80, 0x8f)
      else none := by
  subst h
  simp only [tailsAfter, UInt8.lt_iff_toNat_lt, ← UInt8.toNat_inj]
  rfl

/-- Three bytes spell no number that two can spell, and no half of a pair. -/
theorem tailsAfter_three {b : UInt8} {a m : Nat} (h : b.toNat = 224 + a) (small : a < 16)
    (short : a = 0 → 32 ≤ m % 64) (pair : a = 13 → m % 64 < 32) :
    ∃ low high, tailsAfter b = some (2, low, high) ∧ low ≤ tail m ∧ tail m ≤ high := by
  simp only [tailsAfter_eq h, UInt8.le_iff_toNat_le, toNat_tail]
  rw [if_neg (by omega), if_neg (by omega), if_neg (by omega)]
  split
  · refine ⟨_, _, rfl, ?_⟩
    simp only [UInt8.reduceToNat]
    omega
  · split
    · refine ⟨_, _, rfl, ?_⟩
      simp only [UInt8.reduceToNat]
      omega
    · rw [if_pos (by omega)]
      refine ⟨_, _, rfl, ?_⟩
      simp only [UInt8.reduceToNat]
      omega

/-- Four bytes spell no number that three can spell, and none after the last code point. -/
theorem tailsAfter_four {b : UInt8} {a m : Nat} (h : b.toNat = 240 + a) (small : a < 5)
    (short : a = 0 → 16 ≤ m % 64) (last : a = 4 → m % 64 < 16) :
    ∃ low high, tailsAfter b = some (3, low, high) ∧ low ≤ tail m ∧ tail m ≤ high := by
  simp only [tailsAfter_eq h, UInt8.le_iff_toNat_le, toNat_tail]
  rw [if_neg (by omega), if_neg (by omega), if_neg (by omega), if_neg (by omega),
    if_neg (by omega), if_neg (by omega)]
  split
  · refine ⟨_, _, rfl, ?_⟩
    simp only [UInt8.reduceToNat]
    omega
  · split
    · refine ⟨_, _, rfl, ?_⟩
      simp only [UInt8.reduceToNat]
      omega
    · rw [if_pos (by omega)]
      refine ⟨_, _, rfl, ?_⟩
      simp only [UInt8.reduceToNat]
      omega

/-- A code point is read back with all its bytes. -/
theorem readOne_utf8EncodeChar (c : Char) (rest : List UInt8) :
    ∃ b tails, String.utf8EncodeChar c = b :: tails
      ∧ readOne b (tails ++ rest) = ⟨some c, tails.length⟩ := by
  obtain ⟨n, hn⟩ : ∃ n, c.val.toNat = n := ⟨_, rfl⟩
  have valid : n.isValidChar := hn ▸ c.valid
  have char {m : Nat} (h : m = n) : Char.ofNat m = c := by
    rw [h, ← hn]
    exact Char.ofNat_toNat c
  have lead {m : Nat} (h : m < 256) : (UInt8.ofNat m).toNat = m := by
    rw [UInt8.toNat_ofNat', Nat.mod_eq_of_lt h]
  simp only [String.utf8EncodeChar, hn]
  split
  · refine ⟨_, [], rfl, ?_⟩
    have code := lead (m := n) (by omega)
    rw [readOne, tailsAfter_eq code, if_pos (by omega)]
    simp only [leadBits, readTails, code, char rfl, List.length_nil]
  · split
    · refine ⟨_, [n].map tail, rfl, ?_⟩
      have first := lead (m := n / 64 % 32 + 192) (by omega)
      have wanted : tailsAfter (UInt8.ofNat (n / 64 % 32 + 192)) = some (1, 0x80, 0xbf) := by
        rw [tailsAfter_eq first, if_neg (by omega), if_neg (by omega), if_pos (by omega)]
      rw [readOne_tails wanted (tail_range n).1 (tail_range n).2]
      simp only [leadBits, first, extend, List.foldl, List.length_nil]
      rw [char (by omega)]
      rfl
    · split
      · refine ⟨_, [n / 64, n].map tail, rfl, ?_⟩
        have first := lead (m := n / 4096 % 16 + 224) (by omega)
        obtain ⟨low, high, wanted, ge, le⟩ := tailsAfter_three (m := n / 64)
          (first.trans (Nat.add_comm _ _)) (by omega) (by omega) (by omega)
        rw [readOne_tails wanted ge le]
        simp only [leadBits, first, extend, List.foldl, List.length_singleton]
        rw [char (by omega)]
        rfl
      · refine ⟨_, [n / 4096, n / 64, n].map tail, rfl, ?_⟩
        have first := lead (m := n / 262144 % 8 + 240) (by omega)
        obtain ⟨low, high, wanted, ge, le⟩ := tailsAfter_four (m := n / 4096)
          (first.trans (Nat.add_comm _ _)) (by omega) (by omega) (by omega)
        rw [readOne_tails wanted ge le]
        simp only [leadBits, first, extend, List.foldl, List.length_cons, List.length_nil]
        rw [char (by omega)]
        rfl

/-! ## Whole texts -/

/-- A text is read back from its bytes. -/
theorem decodeAll_encode (cs : List Char) : decodeAll (encode cs) = cs.map some := by
  induction cs with
  | nil => rw [encode, List.flatMap_nil, decodeAll, List.map_nil]
  | cons c cs ih =>
    obtain ⟨b, tails, bytes, read⟩ := readOne_utf8EncodeChar c (encode cs)
    rw [encode, List.flatMap_cons, bytes, List.cons_append, decodeAll]
    rw [encode] at read ih
    simp only [read, List.drop_left, ih, List.map_cons]

theorem decodeLossy_encode (cs : List Char) : decodeLossy (encode cs) = String.ofList cs := by
  rw [decodeLossy, decodeAll_encode, List.map_map]
  exact congrArg String.ofList (List.map_id cs)

/-- Texts with the same bytes are the same. -/
theorem encode_injective {cs ds : List Char} (h : encode cs = encode ds) : cs = ds := by
  have read := decodeLossy_encode cs
  rw [h, decodeLossy_encode] at read
  exact (String.ofList_injective read).symm

/-- Only the null character has a null byte. -/
theorem zero_mem_utf8EncodeChar {c : Char} (h : 0 ∈ String.utf8EncodeChar c) : c = '\x00' := by
  have zero {m : Nat} (h : 0 = UInt8.ofNat m) : m % 256 = 0 := by
    rw [← UInt8.toNat_ofNat', ← h]
    rfl
  have code : c.val.toNat = 0 := by
    -- in a longer code point, every byte says that it is part of one
    simp only [String.utf8EncodeChar] at h
    split at h
    · have := zero (List.mem_singleton.mp h)
      omega
    · split at h
      · simp only [List.mem_cons, List.not_mem_nil, or_false] at h
        have := h.imp zero zero
        omega
      · split at h
        · simp only [List.mem_cons, List.not_mem_nil, or_false] at h
          have := h.imp zero (·.imp zero zero)
          omega
        · simp only [List.mem_cons, List.not_mem_nil, or_false] at h
          have := h.imp zero (·.imp zero (·.imp zero zero))
          omega
  exact Char.ext (UInt32.toNat_inj.mp code)

/-- What comes before the first null byte is what comes before the first null character. -/
theorem takeWhile_encode (cs : List Char) :
    (encode cs).takeWhile (· ≠ 0) = encode (cs.takeWhile (· ≠ '\x00')) := by
  induction cs with
  | nil => rfl
  | cons c cs ih =>
    rw [encode] at ih
    by_cases h : c = '\x00'
    · rw [h]
      rfl
    · have all : ∀ b ∈ String.utf8EncodeChar c, decide (b ≠ 0) = true :=
        fun b hb => decide_eq_true fun zero => h (zero_mem_utf8EncodeChar (zero ▸ hb))
      rw [encode, List.flatMap_cons, List.takeWhile_append_of_pos all, ih,
        List.takeWhile_cons, if_pos (decide_eq_true h)]
      rfl

end ScriptCompiler.Text.Utf8
