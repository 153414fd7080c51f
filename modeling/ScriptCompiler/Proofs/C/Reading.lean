import ScriptCompiler.Proofs.C.Printable
import ScriptCompiler.Proofs.Json.Words

/-!
# How C reads string literals

A C text is read in phases. Trigraphs are replaced and lines that end in a backslash are joined with
the next one, wherever they stand. Then a string literal goes on to the first quote that is not
escaped, and every escape sequence in it takes as many characters as it can: an octal one up to
three digits, a hexadecimal one all that come. A function that gets a pointer to the characters and
no length sees those before the first null character.
-/

namespace ScriptCompiler.C

/-! ## Before tokens -/

/-- What two question marks and a third character stand for. -/
def trigraph? : Char → Option Char
  | '=' => some '#'
  | '/' => some '\\'
  | '\'' => some '^'
  | '(' => some '['
  | ')' => some ']'
  | '!' => some '|'
  | '<' => some '\x7b'
  | '>' => some '\x7d'
  | '-' => some '~'
  | _ => none

/-- The text with its trigraphs replaced. -/
def replaceTrigraphs : List Char → List Char
  | '?' :: '?' :: c :: rest =>
    match trigraph? c with
    | some d => d :: replaceTrigraphs rest
    | none => '?' :: replaceTrigraphs ('?' :: c :: rest)
  | c :: rest => c :: replaceTrigraphs rest
  | [] => []
termination_by cs => cs.length

/-- The text with escaped line breaks left out. -/
def joinLines : List Char → List Char
  | '\\' :: '\n' :: rest => joinLines rest
  | c :: rest => c :: joinLines rest
  | [] => []

/-- The text that is cut into tokens. -/
def prepared (cs : List Char) : List Char :=
  joinLines (replaceTrigraphs cs)

/-! ## Escape sequences -/

/-- The character that a letter after a backslash stands for. -/
def letterEscape? : Char → Option UInt8
  | '\'' => some 0x27
  | '"' => some 0x22
  | '?' => some 0x3f
  | '\\' => some 0x5c
  | 'a' => some 0x07
  | 'b' => some 0x08
  | 'f' => some 0x0c
  | 'n' => some 0x0a
  | 'r' => some 0x0d
  | 't' => some 0x09
  | 'v' => some 0x0b
  | _ => none

/-- The value of a digit in a base. -/
def digitValue? (base : Nat) (c : Char) : Option Nat :=
  (Token.hexValue? c).filter (· < base)

/-- The number that the digits at the start spell, of which there may be so many, and how many there
are. -/
def digitRun (base : Nat) : Nat → Nat → List Char → Nat × Nat
  | most + 1, value, c :: rest =>
    match digitValue? base c with
    | some d =>
      let (total, count) := digitRun base most (value * base + d) rest
      (total, count + 1)
    | none => (value, 0)
  | _, value, _ => (value, 0)

/-- A number that is the code of a character. -/
def code? (n : Nat) : Option UInt8 :=
  if n < 0x100 then some (UInt8.ofNat n) else none

/-- The character of an escape sequence, after its backslash, and how long the sequence is. -/
def readEscape? : List Char → Option (UInt8 × Nat)
  | [] => none
  | c :: rest =>
    if c = 'x' then
      let (value, count) := digitRun 16 rest.length 0 rest
      if count = 0 then none else (code? value).map fun b => (b, count + 1)
    else
      match digitRun 8 3 0 (c :: rest) with
      | (_, 0) => (letterEscape? c).map fun b => (b, 1)
      | (value, count + 1) => (code? value).map fun b => (b, count + 1)

/-! ## Literals -/

/-- The characters of a string literal, after its first quote, and what comes after it. -/
def readCharacters? : List Char → Option (List UInt8 × List Char)
  | [] => none
  | c :: rest =>
    if c = '"' then some ([], rest)
    else if c = '\n' then none
    else if c = '\\' then
      (readEscape? rest).bind fun (b, n) =>
        (readCharacters? (rest.drop n)).map fun (bs, after) => (b :: bs, after)
    else (readCharacters? rest).map fun (bs, after) => (String.utf8EncodeChar c ++ bs, after)
termination_by cs => cs.length
decreasing_by all_goals simp only [List.length_drop, List.length_cons]; omega

/-- The string literal that a text starts with: its characters, and what is left to be cut into
tokens. -/
def readLiteral? (cs : List Char) : Option (List UInt8 × List Char) :=
  match prepared cs with
  | '"' :: rest => readCharacters? rest
  | _ => none

/-- What a function sees that gets a pointer to characters and no length. -/
def upToNull (bs : List UInt8) : List UInt8 :=
  bs.takeWhile (· ≠ 0)

/-! ## Texts that stay as they are -/

section Prepared

variable {c : Char} {rest : List Char}

theorem replaceTrigraphs_cons (h : c = '?' → rest.head? ≠ some '?') :
    replaceTrigraphs (c :: rest) = c :: replaceTrigraphs rest := by
  rw [replaceTrigraphs]
  rintro d after rfl rfl
  exact absurd rfl (h rfl)

theorem joinLines_cons (h : c = '\\' → rest.head? ≠ some '\n') :
    joinLines (c :: rest) = c :: joinLines rest := by
  rw [joinLines]
  rintro after rfl rfl
  exact absurd rfl (h rfl)

/-- No trigraph stands for a line break. -/
theorem head?_replaceTrigraphs (h : rest.head? ≠ some '\n') :
    (replaceTrigraphs rest).head? ≠ some '\n' := by
  fun_cases replaceTrigraphs rest with
  | case1 c after d found =>
    rintro ⟨⟩
    revert found
    unfold trigraph?
    split <;> simp
  | case2 => nofun
  | case3 => exact h
  | case4 => nofun

/-- A character is left alone unless a trigraph or an escaped line break starts with it. -/
theorem prepared_cons (question : c = '?' → rest.head? ≠ some '?')
    (backslash : c = '\\' → rest.head? ≠ some '\n') :
    prepared (c :: rest) = c :: prepared rest := by
  rw [prepared, replaceTrigraphs_cons question,
    joinLines_cons fun h => head?_replaceTrigraphs (backslash h)]
  rfl

theorem prepared_of_ne (question : c ≠ '?') (backslash : c ≠ '\\') :
    prepared (c :: rest) = c :: prepared rest :=
  prepared_cons (fun h => absurd h question) fun h => absurd h backslash

theorem prepared_backslash (h : rest.head? ≠ some '\n') :
    prepared ('\\' :: rest) = '\\' :: prepared rest :=
  prepared_cons (fun question => absurd question (by decide)) fun _ => h

end Prepared

/-! ## Strings that are read back -/

/-- The character with the code of an ASCII byte. -/
theorem toNat_ofNat_byte {b : UInt8} (h : b ≤ 0x7e) : (Char.ofNat b.toNat).toNat = b.toNat := by
  have small : b.toNat ≤ 0x7e := UInt8.le_iff_toNat_le.mp h
  have valid : b.toNat.isValidChar := .inl (by omega)
  rw [Char.ofNat, dif_pos valid]
  rfl

theorem utf8EncodeChar_ofNat {b : UInt8} (h : b ≤ 0x7e) :
    String.utf8EncodeChar (Char.ofNat b.toNat) = [b] := by
  have small : b.toNat ≤ 0x7e := UInt8.le_iff_toNat_le.mp h
  have code : (Char.ofNat b.toNat).val.toNat = b.toNat := toNat_ofNat_byte h
  simp only [String.utf8EncodeChar, code]
  rw [if_pos (by omega), UInt8.ofNat_toNat]

/-- How a byte is written inside a literal: by a letter, as itself, or by its code. -/
theorem literalByte_cases (b : UInt8) :
    (∃ letter, literalByte b = ['\\', letter] ∧ letterEscape? letter = some b)
      ∨ (∃ c, literalByte b = [c] ∧ String.utf8EncodeChar c = [b]
        ∧ c ≠ '"' ∧ c ≠ '\n' ∧ c ≠ '\\' ∧ c ≠ '?')
      ∨ literalByte b = '\\' :: octal b.toNat := by
  unfold literalByte
  split_ifs with quote backslash question line tab feed plain
  · exact .inl ⟨_, rfl, congrArg some quote.symm⟩
  · exact .inl ⟨_, rfl, congrArg some backslash.symm⟩
  · exact .inl ⟨_, rfl, congrArg some question.symm⟩
  · exact .inl ⟨_, rfl, congrArg some line.symm⟩
  · exact .inl ⟨_, rfl, congrArg some tab.symm⟩
  · exact .inl ⟨_, rfl, congrArg some feed.symm⟩
  · have other {c : Char} (h : b ≠ UInt8.ofNat c.toNat) : Char.ofNat b.toNat ≠ c := by
      rintro rfl
      rw [toNat_ofNat_byte plain.2, UInt8.ofNat_toNat] at h
      exact h rfl
    exact .inr (.inl ⟨_, rfl, utf8EncodeChar_ofNat plain.2, other quote, other line,
      other backslash, other question⟩)
  · exact .inr (.inr rfl)

/-- What comes next in a literal: no question mark and no line break. -/
def Calm (rest : List Char) : Prop :=
  rest.head? ≠ some '?' ∧ rest.head? ≠ some '\n'

theorem calm_literal (bs : List UInt8) (rest : List Char) :
    Calm (bs.flatMap literalByte ++ '"' :: rest) := by
  cases bs with
  | nil => exact ⟨nofun, nofun⟩
  | cons b bs =>
    rw [List.flatMap_cons, List.append_assoc]
    rcases literalByte_cases b with ⟨letter, h, -⟩ | ⟨c, h, -, -, line, -, question⟩ | h
    · rw [h]
      exact ⟨nofun, nofun⟩
    · rw [h]
      exact ⟨fun he => question (Option.some.inj he), fun he => line (Option.some.inj he)⟩
    · rw [h]
      exact ⟨nofun, nofun⟩

/-- The digits of an escape by code. -/
theorem digitChar_octal {d : Nat} (h : d < 8) : digitValue? 8 (Nat.digitChar d) = some d
    ∧ Nat.digitChar d ≠ '?' ∧ Nat.digitChar d ≠ '\\' ∧ Nat.digitChar d ≠ '\n'
    ∧ Nat.digitChar d ≠ 'x' := by
  revert d
  decide

theorem prepared_literalByte (b : UInt8) {rest : List Char} (calm : Calm rest) :
    prepared (literalByte b ++ rest) = literalByte b ++ prepared rest := by
  rcases literalByte_cases b with ⟨letter, h, escape⟩ | ⟨c, h, -, -, -, backslash, question⟩ | h
  · have line : (letter :: rest).head? ≠ some '\n' := by
      rintro ⟨⟩
      cases escape
    rw [h, List.cons_append, List.cons_append, List.nil_append, prepared_backslash line,
      prepared_cons (fun _ => calm.1) fun _ => calm.2]
    rfl
  · rw [h, List.singleton_append, prepared_of_ne question backslash]
    rfl
  · have digit (k : Nat) (rest : List Char) : prepared (Nat.digitChar (k % 8) :: rest)
        = Nat.digitChar (k % 8) :: prepared rest := by
      obtain ⟨-, question, backslash, -⟩ := digitChar_octal (Nat.mod_lt k (by decide : 8 > 0))
      exact prepared_of_ne question backslash
    obtain ⟨-, -, -, line, -⟩ := digitChar_octal (Nat.mod_lt (b.toNat / 64) (by decide : 8 > 0))
    rw [h, octal, List.cons_append, prepared_backslash]
    swap
    · exact fun he => line (Option.some.inj he)
    simp only [List.cons_append, List.nil_append, digit]

/-- A literal is cut out of the text as it is written. -/
theorem prepared_literal (bs : List UInt8) (rest : List Char) :
    prepared (bs.flatMap literalByte ++ '"' :: rest)
      = bs.flatMap literalByte ++ '"' :: prepared rest := by
  induction bs with
  | nil => exact prepared_of_ne (by decide) (by decide)
  | cons b bs ih =>
    rw [List.flatMap_cons, List.append_assoc, prepared_literalByte b (calm_literal bs rest), ih,
      List.append_assoc]

theorem readEscape?_letter {letter : Char} {b : UInt8} (h : letterEscape? letter = some b)
    (rest : List Char) : readEscape? (letter :: rest) = some (b, 1) := by
  have other : letter ≠ 'x' ∧ digitValue? 8 letter = none := by
    revert h
    unfold letterEscape?
    split <;> first | (intro; decide) | nofun
  rw [readEscape?, if_neg other.1, digitRun, other.2, h]
  rfl

/-- Three digits are the most, so that no digit after them is taken for one of the escape. -/
theorem readEscape?_octal (b : UInt8) (rest : List Char) :
    readEscape? (octal b.toNat ++ rest) = some (b, 3) := by
  have digit (k : Nat) := (digitChar_octal (Nat.mod_lt k (by decide : 8 > 0))).1
  obtain ⟨-, -, -, -, letter⟩ := digitChar_octal (Nat.mod_lt (b.toNat / 64) (by decide : 8 > 0))
  have size := b.toNat_lt
  have value : ((0 * 8 + b.toNat / 64 % 8) * 8 + b.toNat / 8 % 8) * 8 + b.toNat % 8 = b.toNat := by
    omega
  rw [octal, List.cons_append, readEscape?, if_neg letter]
  simp only [List.cons_append, digitRun, digit, value]
  rw [code?, if_pos size, UInt8.ofNat_toNat]
  rfl

theorem readCharacters?_literalByte (b : UInt8) (rest : List Char) :
    readCharacters? (literalByte b ++ rest)
      = (readCharacters? rest).map fun (bs, after) => (b :: bs, after) := by
  rcases literalByte_cases b with ⟨letter, h, escape⟩ | ⟨c, h, code, quote, line, backslash, -⟩ | h
  · rw [h, List.cons_append, readCharacters?, if_neg (by decide), if_neg (by decide), if_pos rfl,
      List.cons_append, readEscape?_letter escape, Option.bind_some]
    rfl
  · rw [h, List.singleton_append, readCharacters?, if_neg quote, if_neg line, if_neg backslash,
      code]
    rfl
  · rw [h, List.cons_append, readCharacters?, if_neg (by decide), if_neg (by decide), if_pos rfl,
      readEscape?_octal, Option.bind_some]
    rfl

theorem readCharacters?_literal (bs : List UInt8) (rest : List Char) :
    readCharacters? (bs.flatMap literalByte ++ '"' :: rest) = some (bs, rest) := by
  induction bs with
  | nil => rw [List.flatMap_nil, List.nil_append, readCharacters?, if_pos rfl]
  | cons b bs ih =>
    rw [List.flatMap_cons, List.append_assoc, readCharacters?_literalByte, ih]
    rfl

theorem toList_stringLiteral (s : String) :
    (stringLiteral s).toList = '"' :: ((Text.Utf8.bytes s).flatMap literalByte ++ ['"']) := by
  rw [stringLiteral, String.toList_ofList, List.cons_append]

/-- **A string literal is read back.** Its characters are the bytes of the string, and it ends where
it was written to. -/
theorem readLiteral?_stringLiteral (s : String) (rest : List Char) :
    readLiteral? ((stringLiteral s).toList ++ rest)
      = some (Text.Utf8.bytes s, prepared rest) := by
  rw [toList_stringLiteral, List.cons_append, List.append_assoc, List.singleton_append,
    readLiteral?, prepared_of_ne (by decide) (by decide), prepared_literal]
  exact readCharacters?_literal _ _

end ScriptCompiler.C
