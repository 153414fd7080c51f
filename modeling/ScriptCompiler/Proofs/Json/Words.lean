import Mathlib.Data.Nat.Basic
import ScriptCompiler.Json.Lexeme
import ScriptCompiler.Json.Write

/-!
# Words that were written

The characters of a string are read back from between their quotes, whatever they are, and a whole
number is read back from its digits if its size is one of a word. What follows a number must not go
on with it.
-/

namespace ScriptCompiler.Json

open Token (isDigit hexValue? hexRun decimal)

/-! ## Strings -/

theorem hexValue?_digitChar : ∀ {d : Nat}, d < 16 → hexValue? (Nat.digitChar d) = some d := by
  decide

/-- The escape by number of a control character. -/
theorem codePoint?_control {c : Char} (h : c.toNat < 0x20) (cs : List Char) :
    codePoint? ('0' :: '0' :: Nat.digitChar (c.toNat / 16) :: Nat.digitChar (c.toNat % 16) :: cs)
      = some (some c, 4) := by
  have high := hexValue?_digitChar (d := c.toNat / 16) (by omega)
  have low := hexValue?_digitChar (d := c.toNat % 16) (by omega)
  have zero : hexValue? '0' = some 0 := by decide
  have unit : codeUnit?
      ('0' :: '0' :: Nat.digitChar (c.toNat / 16) :: Nat.digitChar (c.toNat % 16) :: cs)
        = some c.toNat := by
    simp only [codeUnit?, hexRun, zero, high, low]
    simp
    omega
  have plain : ¬ (0xd800 ≤ c.toNat ∧ c.toNat ≤ 0xdbff) := by omega
  have plain' : ¬ (0xdc00 ≤ c.toNat ∧ c.toNat ≤ 0xdfff) := by omega
  simp only [codePoint?, unit, Option.bind_eq_bind, Option.bind_some, if_neg plain, if_neg plain',
    Char.ofNat_toNat]

/-- A character inside a string is read back. -/
theorem stringBody?_writeChar (c : Char) (cs : List Char) :
    stringBody? (writeChar c ++ cs)
      = (stringBody? cs).map fun (s, after) => (before (some c) s, after) := by
  unfold writeChar
  split
  · subst c; simp [stringBody?, shortEscape?]
  split
  · subst c; simp [stringBody?, shortEscape?]
  split
  · subst c; simp [stringBody?, shortEscape?]
  split
  · subst c; simp [stringBody?, shortEscape?]
  split
  · subst c; simp [stringBody?, shortEscape?]
  split
  · subst c; simp [stringBody?, shortEscape?]
  split
  · subst c; simp [stringBody?, shortEscape?]
  split
  · next control =>
    simp only [List.cons_append, List.nil_append]
    rw [stringBody?, codePoint?_control control]
    rfl
  · next quote backslash _ _ _ _ _ control =>
    rw [List.singleton_append, stringBody?]
    · simp [backslash, control]
    · exact quote
    · simp [backslash]
    · simp [backslash]

/-- A string is read back from what stands between its quotes. -/
theorem stringBody?_flatMap (s rest : List Char) :
    stringBody? (s.flatMap writeChar ++ '"' :: rest) = some (some s, rest) := by
  induction s with
  | nil => simp [stringBody?]
  | cons c s ih =>
    rw [List.flatMap_cons, List.append_assoc, stringBody?_writeChar, ih]
    rfl

/-! ## Whole numbers -/

/-- The text does not go on with a number. -/
def Stops (rest : List Char) : Prop :=
  ∀ c ∈ rest.head?, isDigit c = false ∧ c ≠ '.' ∧ c ≠ 'e' ∧ c ≠ 'E'

theorem stops_nil : Stops [] := nofun

theorem isDigit_of_mem_toDigits {n : Nat} {c : Char} (h : c ∈ Nat.toDigits 10 n) :
    isDigit c = true :=
  Nat.isDigit_of_mem_toDigits (by decide) (by decide) h

theorem decimal_eq_ofDigitChars (cs : List Char) : decimal cs = Nat.ofDigitChars 10 cs 0 := by
  unfold decimal Nat.ofDigitChars
  simp only [Nat.mul_comm]

theorem decimal_toDigits (n : Nat) : decimal (Nat.toDigits 10 n) = n := by
  rw [decimal_eq_ofDigitChars]
  exact Nat.ofDigitChars_toDigits (by decide) (by decide)

theorem digitChar_eq_zero : ∀ {n : Nat}, n < 10 → Nat.digitChar n = '0' → n = 0 := by
  decide

/-- Only zero has a leading zero. -/
theorem head?_toDigits {n : Nat} (h : (Nat.toDigits 10 n).head? = some '0') : n = 0 := by
  induction n using Nat.strongRecOn with
  | _ n ih =>
    by_cases small : n < 10
    · rw [Nat.toDigits_of_lt_base small] at h
      exact digitChar_eq_zero small (Option.some.inj h)
    · have large : 10 ≤ n := by omega
      rw [Nat.toDigits_of_base_le (by decide) large, List.head?_append,
        List.head?_eq_some_head Nat.toDigits_ne_nil, Option.some_or,
        ← List.head?_eq_some_head Nat.toDigits_ne_nil] at h
      have := ih (n / 10) (by omega) h
      omega

theorem digitRun_append {digits rest : List Char} (all : ∀ c ∈ digits, isDigit c = true)
    (hr : Stops rest) : digitRun (digits ++ rest) = digits := by
  have none_left : rest.takeWhile isDigit = [] := by
    cases rest with
    | nil => rfl
    | cons c rest => rw [List.takeWhile_cons, (hr c rfl).1]; rfl
  rw [digitRun, List.takeWhile_append_of_pos all, none_left, List.append_nil]

/-! ### Their size -/

theorem roundTo_le {bits n : Nat} (hb : 0 < bits) : roundTo bits n ≤ 2 * n := by
  by_cases hn : n = 0
  · subst hn
    simp [roundTo]
  · have dropped : 2 ^ (n.log2 + 1 - bits) ≤ n :=
      Nat.le_trans (Nat.pow_le_pow_right (by decide) (by omega)) (Nat.log2_self_le hn)
    have kept : n / 2 ^ (n.log2 + 1 - bits) * 2 ^ (n.log2 + 1 - bits) ≤ n := Nat.div_mul_le_self _ _
    simp only [roundTo, Nat.shiftLeft_eq, Nat.shiftRight_eq_div_pow]
    split
    · rw [Nat.add_mul]
      omega
    · omega

/-- A whole number of a word is not too great for a float. -/
theorem not_overflows {n : Nat} (h : n < UInt64.size) :
    (⟨n, 0⟩ : Scaled).overflows = false := by
  have one : nearestFloat (Nat.pow 10 (0 : Int).toNat) = 1 := by decide
  have rounded : nearestFloat n ≤ 2 * n := roundTo_le (by decide)
  have limit : 2 * UInt64.size ≤ floatLimit := by decide
  have power : ¬ greatestPower < 0 := by decide
  have below : ¬ floatLimit ≤ nearestFloat n * 1 := by omega
  simp only [Scaled.overflows, one, decide_eq_false power, decide_eq_false below, Bool.false_or,
    Bool.and_false]

theorem le_ofDigitChars (cs : List Char) (n : Nat) : n ≤ Nat.ofDigitChars 10 cs n := by
  induction cs generalizing n with
  | nil => exact Nat.le_refl n
  | cons c cs ih =>
    have := ih (10 * n + (c.toNat - '0'.toNat))
    simp only [Nat.ofDigitChars, List.foldl_cons] at this ⊢
    omega

/-- A word holds all digits of a number of its size. -/
theorem whole_eq {cs : List Char} {n : Nat} (h : Nat.ofDigitChars 10 cs n < UInt64.size) :
    (⟨n, 0⟩ : Scaled).whole cs = ⟨Nat.ofDigitChars 10 cs n, 0⟩ := by
  induction cs generalizing n with
  | nil => rfl
  | cons c cs ih =>
    have step : Nat.ofDigitChars 10 (c :: cs) n
        = Nat.ofDigitChars 10 cs (n * 10 + Scaled.digit c) := by
      simp only [Nat.ofDigitChars, List.foldl_cons, Scaled.digit, Nat.mul_comm n]
    rw [step] at h ⊢
    have fits : n * 10 + Scaled.digit c < UInt64.size := Nat.lt_of_le_of_lt (le_ofDigitChars _ _) h
    rw [Scaled.whole, if_pos fits]
    exact ih h

/-! ### Reading them -/

theorem fraction?_of_stops {rest : List Char} (hr : Stops rest) :
    fraction? rest = some ([], rest) := by
  unfold fraction?
  split
  · exact absurd rfl (hr '.' rfl).2.1
  · rfl

theorem exponent?_of_stops {rest : List Char} (hr : Stops rest) :
    exponent? rest = some (none, rest) := by
  unfold exponent?
  split
  · next c rest =>
    obtain ⟨-, -, small, capital⟩ := hr c rfl
    rw [if_neg (by simp [small, capital])]
  · rfl

/-- The digits of a number are read back. Zero has no sign. -/
theorem unsigned?_toDigits (negative : Bool) {n : Nat} {rest : List Char} (h : n < UInt64.size)
    (sign : negative = true → n ≠ 0) (hr : Stops rest) :
    unsigned? negative (Nat.toDigits 10 n ++ rest)
      = some (.integer (if negative then -n else n), rest) := by
  have run : digitRun (Nat.toDigits 10 n ++ rest) = Nat.toDigits 10 n :=
    digitRun_append (fun _ => isDigit_of_mem_toDigits) hr
  have some_digits : Nat.toDigits 10 n ≠ [] := Nat.toDigits_ne_nil
  have leading : (Nat.toDigits 10 n).head? = some '0' → (Nat.toDigits 10 n).length = 1 := by
    intro zero
    rw [head?_toDigits zero]
    rfl
  have size : Nat.ofDigitChars 10 (Nat.toDigits 10 n) 0 = n :=
    Nat.ofDigitChars_toDigits (by decide) (by decide)
  have scaled : Scaled.ofDigits (Nat.toDigits 10 n) [] 0 = ⟨n, 0⟩ := by
    rw [Scaled.ofDigits, whole_eq (by rwa [size]), size]
    rfl
  have passes {p : Prop} [Decidable p] (hp : p) : (guard p : Option Unit) = some () := if_pos hp
  rw [unsigned?, run, passes some_digits, passes leading]
  simp only [List.drop_left, fraction?_of_stops hr, exponent?_of_stops hr, List.append_nil,
    decimal_toDigits, Option.getD_none, scaled, not_overflows h, Option.bind_eq_bind,
    Option.bind_some]
  simpa using sign

/-- A whole number is read back. -/
theorem number?_writeInteger {n : Int} {rest : List Char} (h : n.natAbs < UInt64.size)
    (hr : Stops rest) : number? (writeInteger n ++ rest) = some (.integer n, rest) := by
  rw [writeInteger, Int.toString_eq_repr]
  cases n with
  | ofNat m =>
    have digits : (Int.ofNat m).repr.toList = Nat.toDigits 10 m := Nat.toList_repr
    have read := unsigned?_toDigits false (n := m) h nofun hr
    rw [digits]
    -- a digit is not the sign
    cases hd : Nat.toDigits 10 m with
    | nil => exact absurd hd Nat.toDigits_ne_nil
    | cons c cs =>
      have digit : isDigit c = true := isDigit_of_mem_toDigits (hd ▸ List.mem_cons_self)
      rw [hd] at read
      rw [List.cons_append, number?]
      · exact read
      · rintro rest' hc
        rw [(List.cons.inj hc).1] at digit
        exact absurd digit (by decide)
  | negSucc m =>
    have digits : (Int.negSucc m).repr.toList = '-' :: Nat.toDigits 10 (m + 1) := by
      rw [Int.repr, String.toList_append, Nat.toList_repr]
      rfl
    rw [digits, List.cons_append, number?,
      unsigned?_toDigits true (n := m + 1) h (fun _ => Nat.succ_ne_zero m) hr]
    rfl

/-! ## Words one after the other -/

/-- A word at the start of a text is the first of its words. -/
theorem lexemes?_cons {c : Char} {cs rest : List Char} {word : Lexeme} (gap : isGap c = false)
    (h : lexeme? (c :: cs) = some (word, rest)) (le : rest.length ≤ cs.length) :
    lexemes? (c :: cs) = (lexemes? rest).map (word :: ·) := by
  have start : (c :: cs).dropWhile isGap = c :: cs := by
    rw [List.dropWhile_cons, gap]
    rfl
  have lt : rest.length < (c :: cs).length := by
    rw [List.length_cons]
    omega
  rw [lexemes?]
  split
  · next hd =>
    rw [start] at hd
    cases hd
  · rw [start, h]
    exact dif_pos lt

theorem lexemes?_string (s : String) (rest : List Char) :
    lexemes? (writeString s ++ rest) = (lexemes? rest).map (.string (some s) :: ·) := by
  have body := stringBody?_flatMap s.toList rest
  have text : writeString s ++ rest = '"' :: (s.toList.flatMap writeChar ++ '"' :: rest) := by
    simp [writeString]
  rw [text]
  refine lexemes?_cons (by decide) ?_ ?_
  · simp [lexeme?, body]
  · rw [List.length_append, List.length_cons]
    omega

/-- No name starts with a character that starts none of the names. -/
theorem names_find?_eq_none {c : Char} {cs : List Char} (n : ('n' == c) = false)
    (t : ('t' == c) = false) (f : ('f' == c) = false) :
    names.find? (fun (name, _) => name.toList.isPrefixOf (c :: cs)) = none := by
  simp [names, List.isPrefixOf, n, t, f]

theorem lexeme?_number {c : Char} {cs : List Char} (h : c = '-' ∨ isDigit c = true) :
    lexeme? (c :: cs) = (number? (c :: cs)).map fun (v, after) => (.scalar v, after) := by
  have other (d : Char) (hd : d ≠ '-') (hd' : isDigit d = false) : c ≠ d := by
    rintro rfl
    rcases h with h | h
    · exact hd h
    · rw [hd'] at h
      cases h
  have first (d : Char) (hd : d ≠ '-') (hd' : isDigit d = false) : (d == c) = false :=
    beq_eq_false_iff_ne.mpr (other d hd hd').symm
  unfold lexeme?
  split
  · next nothing => cases nothing
  -- no mark, and no quote
  iterate 7
    · next heq => exact absurd (List.cons.inj heq).1 (other _ (by decide) (by decide))
  · rw [names_find?_eq_none (first 'n' (by decide) rfl) (first 't' (by decide) rfl)
      (first 'f' (by decide) rfl)]

theorem lexemes?_integer {n : Int} {rest : List Char} (h : n.natAbs < UInt64.size)
    (hr : Stops rest) :
    lexemes? (writeInteger n ++ rest) = (lexemes? rest).map (.scalar (.integer n) :: ·) := by
  have read := number?_writeInteger h hr
  obtain ⟨c, cs, hc, first⟩ : ∃ c cs, writeInteger n = c :: cs ∧ (c = '-' ∨ isDigit c = true) := by
    rw [writeInteger, Int.toString_eq_repr]
    cases n with
    | ofNat m =>
      obtain ⟨c, cs, hc⟩ := List.exists_cons_of_ne_nil (Nat.toDigits_ne_nil (n := m) (b := 10))
      have digit := isDigit_of_mem_toDigits (hc ▸ List.mem_cons_self)
      exact ⟨c, cs, Nat.toList_repr.trans hc, .inr digit⟩
    | negSucc m =>
      refine ⟨'-', (m + 1).repr.toList, ?_, .inl rfl⟩
      rw [Int.repr, String.toList_append]
      rfl
  rw [hc, List.cons_append] at read ⊢
  refine lexemes?_cons ?_ ((lexeme?_number first).trans (by rw [read]; rfl)) ?_
  · rcases first with rfl | first
    · decide
    · rw [Bool.eq_false_iff]
      intro gap
      simp only [isGap, Bool.or_eq_true, decide_eq_true_eq] at gap
      rcases gap with ((rfl | rfl) | rfl) | rfl <;> exact absurd first (by decide)
  · rw [List.length_append]
    omega

end ScriptCompiler.Json
