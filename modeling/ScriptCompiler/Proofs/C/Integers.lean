import Mathlib.Data.List.TakeWhile
import ScriptCompiler.Proofs.C.Reading

/-!
# How C reads integers

The expressions that integers are written as: literals with a suffix, negated, subtracted and
enclosed in parentheses, by the rules of the C grammar. The type of a literal is the first one from
its suffix on that holds its value, and a step whose value does not fit its type has none. How great
the values of the smaller types are depends on the platform.
-/

namespace ScriptCompiler.C

open Token (isDigit)

/-! ## Types -/

/-- A signed type, from the least one of arithmetic on. -/
inductive IntType where
  | int
  | long
  | longLong
  deriving DecidableEq, Repr

/-- How great the values of the types are. -/
structure Platform where
  greatestInt : Nat
  greatestLong : Nat
  least_le : 0x7fff ≤ greatestInt
  int_le_long : greatestInt ≤ greatestLong
  long_le : greatestLong ≤ 0x7fffffffffffffff

namespace IntType

/-- The greatest value of the greatest type. -/
def greatestLongLong : Nat := 0x7fffffffffffffff

/-- The place of the type among the others. -/
def rank : IntType → Nat
  | int => 0
  | long => 1
  | longLong => 2

/-- The type of the values of two types together. -/
def common (t u : IntType) : IntType :=
  if t.rank ≤ u.rank then u else t

/-- The greatest value of the type. -/
def greatest (p : Platform) : IntType → Nat
  | int => p.greatestInt
  | long => p.greatestLong
  | longLong => greatestLongLong

/-- The type has the value. -/
def Holds (p : Platform) (t : IntType) (v : Int) : Prop :=
  -(t.greatest p : Int) - 1 ≤ v ∧ v ≤ t.greatest p

instance (p : Platform) (t : IntType) (v : Int) : Decidable (t.Holds p v) :=
  inferInstanceAs (Decidable (_ ∧ _))

end IntType

/-! ## Literals -/

/-- The number that a literal spells, and the least type that its suffix admits. -/
structure IntLiteral where
  value : Nat
  least : IntType
  deriving DecidableEq, Repr

/-- What a suffix says. -/
def suffixType? : List Char → Option IntType
  | [] => some .int
  | ['l'] | ['L'] => some .long
  | ['l', 'l'] | ['L', 'L'] => some .longLong
  | _ => none

/-- A literal in base ten, or in base eight if it starts with a zero. -/
def intLiteral? (text : List Char) : Option IntLiteral :=
  let base := if text.head? = some '0' then 8 else 10
  let (value, count) := digitRun base text.length 0 text
  (suffixType? (text.drop count)).map fun least => ⟨value, least⟩

/-- The type of a literal. -/
def IntLiteral.type? (p : Platform) (l : IntLiteral) : Option IntType :=
  [IntType.int, .long, .longLong].find? fun t => l.least.rank ≤ t.rank && l.value ≤ t.greatest p

/-! ## Tokens -/

/-- A token of an expression. -/
inductive IntToken where
  | number (text : List Char)
  | minus
  | opening
  | closing
  deriving DecidableEq, Repr

/-- The tokens of a text. A number goes on as long as it can, and two signs one after the other, or
one with a mark that makes it another operator, are no signs. -/
def intTokens? : List Char → Option (List IntToken)
  | [] => some []
  | c :: rest =>
    if c = ' ' then intTokens? rest
    else if c = '(' then (intTokens? rest).map (.opening :: ·)
    else if c = ')' then (intTokens? rest).map (.closing :: ·)
    else if c = '-' then
      if rest.head?.any fun d => d = '-' || d = '=' || d = '>' then none
      else (intTokens? rest).map (.minus :: ·)
    else if isDigit c then
      let more := rest.takeWhile fun d => identifierChar d || d = '.'
      (intTokens? (rest.drop more.length)).map (.number (c :: more) :: ·)
    else none
termination_by cs => cs.length
decreasing_by all_goals simp only [List.length_drop, List.length_cons]; omega

/-! ## Expressions -/

/-- An expression of integers. -/
inductive IntExpr where
  | literal (l : IntLiteral)
  | negate (operand : IntExpr)
  | subtract (left right : IntExpr)
  deriving DecidableEq, Repr

/-- How tightly an expression is put together. -/
inductive IntLevel where
  | primary
  | unary
  | additive

/-- The grammar of expressions. -/
inductive Reads : IntLevel → List IntToken → IntExpr → Prop
  | literal {text : List Char} {l : IntLiteral} (h : intLiteral? text = some l) :
      Reads .primary [.number text] (.literal l)
  | enclosed {ts : List IntToken} {e : IntExpr} (h : Reads .additive ts e) :
      Reads .primary (.opening :: (ts ++ [.closing])) e
  | primary {ts : List IntToken} {e : IntExpr} (h : Reads .primary ts e) : Reads .unary ts e
  | negated {ts : List IntToken} {e : IntExpr} (h : Reads .unary ts e) :
      Reads .unary (.minus :: ts) (.negate e)
  | unary {ts : List IntToken} {e : IntExpr} (h : Reads .unary ts e) : Reads .additive ts e
  | difference {left right : List IntToken} {a b : IntExpr} (ha : Reads .additive left a)
      (hb : Reads .unary right b) : Reads .additive (left ++ .minus :: right) (.subtract a b)

namespace IntExpr

/-- The literals in an expression. -/
def literals : IntExpr → List IntLiteral
  | literal l => [l]
  | negate e => e.literals
  | subtract a b => a.literals ++ b.literals

/-- A value of a type, unless it does not fit. -/
def checked (p : Platform) (t : IntType) (v : Int) : Option (IntType × Int) :=
  if t.Holds p v then some (t, v) else none

/-- The type and the value of an expression, unless a step overflows. -/
def eval (p : Platform) : IntExpr → Option (IntType × Int)
  | literal l => (l.type? p).map fun t => (t, (l.value : Int))
  | negate e => (e.eval p).bind fun (t, v) => checked p t (-v)
  | subtract a b =>
    (a.eval p).bind fun (t, v) => (b.eval p).bind fun (u, w) => checked p (t.common u) (v - w)

end IntExpr

/-- The text is an expression in one way only. Its literals are numbers of the greatest type, and no
step on the way to its value overflows, whatever the platform. -/
def Denotes (text : String) (v : Int) : Prop :=
  ∃ ts e, intTokens? text.toList = some ts ∧ Reads .additive ts e
    ∧ (∀ e', Reads .additive ts e' → e' = e)
    ∧ (∀ l ∈ e.literals, l.value ≤ IntType.greatestLongLong)
    ∧ ∀ p, ∃ t, e.eval p = some (t, v)

/-! ## One reading -/

section Readings

variable {level : IntLevel} {ts : List IntToken} {e : IntExpr} {text : List Char} {l : IntLiteral}

/-- Parentheses are closed as often as they are opened. -/
theorem Reads.balanced (h : Reads level ts e) : ts.count .opening = ts.count .closing := by
  induction h with
  | literal => rfl
  | enclosed _ ih => simp [ih]
  | primary _ ih | unary _ ih => exact ih
  | negated _ ih => simpa using ih
  | difference _ _ iha ihb => simp [iha, ihb]

theorem Reads.length_pos (h : Reads level ts e) : 0 < ts.length := by
  induction h with
  | primary _ ih | unary _ ih => exact ih
  | literal | enclosed | negated => exact Nat.succ_pos _
  | difference ha hb iha ihb =>
    rw [List.length_append]
    exact Nat.add_pos_left iha _

/-- A literal alone. -/
theorem Reads.of_number (hl : intLiteral? text = some l) {more : List IntToken}
    (h : Reads .unary (.number text :: more) e) : e = .literal l ∧ more = [] := by
  generalize hts : IntToken.number text :: more = ts at h
  cases h with
  | primary h =>
    cases h with
    | literal found =>
      obtain ⟨same, rfl⟩ := List.cons.inj hts
      cases same
      rw [hl] at found
      exact ⟨congrArg _ (Option.some.inj found).symm, rfl⟩
    | enclosed => cases hts
  | negated => cases hts

/-- What a sign stands before is no more than an operand. -/
theorem Reads.of_minus (hl : intLiteral? text = some l) {more : List IntToken}
    (h : Reads .unary (.minus :: .number text :: more) e) :
    e = .negate (.literal l) ∧ more = [] := by
  generalize hts : IntToken.minus :: .number text :: more = ts at h
  cases h with
  | primary h => cases h <;> cases hts
  | negated h =>
    cases hts
    obtain ⟨rfl, rfl⟩ := h.of_number hl
    exact ⟨rfl, rfl⟩

/-- A difference has two operands and a sign. -/
theorem Reads.of_short (short : ts.length < 3) (h : Reads .additive ts e) : Reads .unary ts e := by
  cases h with
  | unary h => exact h
  | difference ha hb =>
    have := ha.length_pos
    have := hb.length_pos
    simp only [List.length_append, List.length_cons] at short
    omega

variable {text' : List Char} {l' : IntLiteral}

/-- A negative and a number with a sign between them. -/
theorem Reads.of_negated_minus (hl : intLiteral? text = some l) (hl' : intLiteral? text' = some l')
    (h : Reads .additive [.minus, .number text, .minus, .number text'] e) :
    e = .subtract (.negate (.literal l)) (.literal l') := by
  generalize hts : [IntToken.minus, .number text, .minus, .number text'] = ts at h
  cases h with
  | unary h =>
    rw [← hts] at h
    cases (h.of_minus hl).2
  | @difference left _ _ _ ha hb =>
    -- only the sign in the middle has an operand before it
    rcases left with _ | ⟨_, _ | ⟨_, _ | ⟨_, _⟩⟩⟩
    · exact absurd ha.length_pos (Nat.lt_irrefl 0)
    · cases hts
    · cases hts
      obtain ⟨rfl, -⟩ := (ha.of_short (by simp)).of_minus hl
      obtain ⟨rfl, -⟩ := hb.of_number hl'
      rfl
    · have length := congrArg List.length hts
      have := hb.length_pos
      simp only [List.length_append, List.length_cons, List.length_nil] at length
      omega

/-- The same between parentheses. -/
theorem Reads.of_enclosed {inner : List IntToken} (closed : inner.count .closing = 0)
    (h : Reads .additive (.opening :: (inner ++ [.closing])) e) :
    Reads .additive inner e := by
  generalize hts : IntToken.opening :: (inner ++ [.closing]) = ts at h
  cases h with
  | unary h =>
    cases h with
    | primary h =>
      cases h with
      | literal => cases hts
      | enclosed h =>
        obtain rfl := List.append_cancel_right (List.cons.inj hts).2
        exact h
    | negated => cases hts
  | difference ha hb =>
    -- what stands before the sign opens the parenthesis and does not close it
    exfalso
    obtain ⟨first, before, rfl⟩ := List.exists_cons_of_length_pos ha.length_pos
    obtain ⟨rfl, split⟩ := List.cons.inj hts
    have balanced := ha.balanced
    rcases List.append_eq_append_iff.mp split with ⟨more, hl, hr⟩ | ⟨more, hi, -⟩
    · have sign : IntToken.minus ∈ [IntToken.closing] := by
        rw [hr]
        exact List.mem_append_right _ List.mem_cons_self
      cases List.mem_singleton.mp sign
    · rw [hi, List.count_append] at closed
      simp at balanced
      omega

end Readings

/-! ## Integers that are read back -/

/-- The digits of a number, and the suffix of the greatest type. -/
def suffixed (n : Nat) : List Char :=
  Nat.toDigits 10 n ++ ['L', 'L']

theorem digitValue?_of_isDigit {c : Char} (h : isDigit c = true) :
    digitValue? 10 c = some (c.toNat - '0'.toNat) := by
  have small : c.toNat - '0'.toNat < 10 := by
    have range := h
    simp only [isDigit, Bool.and_eq_true, decide_eq_true_eq, Char.le_def,
      UInt32.le_iff_toNat_le] at range
    have code : c.toNat = c.val.toNat := rfl
    have zero : '0'.toNat = 48 := rfl
    have nine : '9'.val.toNat = 57 := rfl
    omega
  rw [digitValue?, Token.hexValue?, if_pos h, Option.filter_some, if_pos (decide_eq_true small)]

/-- All digits at the start of a text are taken. -/
theorem digitRun_digits {digits rest : List Char} (all : ∀ c ∈ digits, isDigit c = true)
    (stops : ∀ c ∈ rest.head?, digitValue? 10 c = none) {most : Nat} (long : digits.length < most)
    (n : Nat) : digitRun 10 most n (digits ++ rest)
      = (digits.foldl (fun n c => n * 10 + (c.toNat - '0'.toNat)) n, digits.length) := by
  induction digits generalizing most n with
  | nil =>
    obtain ⟨most, rfl⟩ := Nat.exists_eq_add_one.mpr long
    cases rest with
    | nil => rfl
    | cons c rest => simp only [List.nil_append, digitRun, stops c rfl, List.foldl_nil,
        List.length_nil]
  | cons c digits ih =>
    obtain ⟨most, rfl⟩ := Nat.exists_eq_add_one.mpr (Nat.zero_lt_of_lt long)
    rw [List.forall_mem_cons] at all
    simp only [List.cons_append, digitRun, digitValue?_of_isDigit all.1,
      ih all.2 (Nat.lt_of_succ_lt_succ long), List.foldl_cons, List.length_cons]

theorem intLiteral?_suffixed (n : Nat) : intLiteral? (suffixed n) = some ⟨n, .longLong⟩ := by
  rcases Nat.eq_zero_or_pos n with rfl | pos
  · decide
  · have decimal : (suffixed n).head? ≠ some '0' := by
      rw [suffixed, List.head?_append, List.head?_eq_some_head Nat.toDigits_ne_nil, Option.some_or,
        ← List.head?_eq_some_head Nat.toDigits_ne_nil]
      exact fun h => Nat.ne_of_gt pos (Json.head?_toDigits h)
    have long : (Nat.toDigits 10 n).length < (suffixed n).length := by
      rw [suffixed, List.length_append]
      exact Nat.lt_add_of_pos_right (Nat.succ_pos _)
    have run : digitRun 10 (suffixed n).length 0 (suffixed n)
        = (n, (Nat.toDigits 10 n).length) := by
      refine (digitRun_digits (fun _ => Json.isDigit_of_mem_toDigits) ?_ long 0).trans ?_
      · rintro _ ⟨⟩
        decide
      · exact congrArg (·, _) (Json.decimal_toDigits n)
    rw [intLiteral?, if_neg decimal, run]
    simp only [suffixed, List.drop_left]
    rfl

/-- Letters and digits go on with a number. -/
theorem intTokens?_digit {c : Char} (h : isDigit c = true) (rest : List Char) :
    intTokens? (c :: rest) =
      (intTokens? (rest.drop (rest.takeWhile fun d => identifierChar d || d = '.').length)).map
        (.number (c :: rest.takeWhile fun d => identifierChar d || d = '.') :: ·) := by
  have other (d : Char) (hd : isDigit d = false) : c ≠ d := by
    rintro rfl
    rw [hd] at h
    cases h
  rw [intTokens?, if_neg (other ' ' rfl), if_neg (other '(' rfl), if_neg (other ')' rfl),
    if_neg (other '-' rfl), if_pos h]

theorem intTokens?_suffixed (n : Nat) : intTokens? (suffixed n) = some [.number (suffixed n)] := by
  have all : ∀ c ∈ suffixed n, (identifierChar c || c = '.') = true := by
    have suffix : ['L', 'L'].all (fun c => identifierChar c || c = '.') = true := rfl
    refine List.forall_mem_append.mpr ⟨fun c hc => ?_, List.all_eq_true.mp suffix⟩
    have digit : ('0' ≤ c && c ≤ '9') = true := Json.isDigit_of_mem_toDigits hc
    rw [identifierChar, digit, Bool.or_true, Bool.true_or]
  obtain ⟨c, digits, hd⟩ := List.exists_cons_of_ne_nil (Nat.toDigits_ne_nil (n := n) (b := 10))
  have start : suffixed n = c :: (digits ++ ['L', 'L']) := by rw [suffixed, hd, List.cons_append]
  have digit : isDigit c = true := Json.isDigit_of_mem_toDigits (hd ▸ List.mem_cons_self)
  rw [start] at all ⊢
  have more := List.takeWhile_eq_self_iff.mpr fun d hd => all d (List.mem_cons_of_mem _ hd)
  rw [intTokens?_digit digit, more, List.drop_length, intTokens?]
  rfl

theorem type?_longLong {n : Nat} (h : n ≤ IntType.greatestLongLong) (p : Platform) :
    (IntLiteral.mk n .longLong).type? p = some .longLong := by
  simp [IntLiteral.type?, IntType.rank, IntType.greatest, h]

theorem eval_longLong {n : Nat} (h : n ≤ IntType.greatestLongLong) (p : Platform) :
    (IntExpr.literal ⟨n, .longLong⟩).eval p = some (.longLong, (n : Int)) := by
  rw [IntExpr.eval, type?_longLong h]
  rfl

/-- The negative of a number fits its type. -/
theorem eval_negate {n : Nat} (h : n ≤ IntType.greatestLongLong) (p : Platform) :
    (IntExpr.negate (.literal ⟨n, .longLong⟩)).eval p = some (.longLong, -(n : Int)) := by
  have holds : IntType.longLong.Holds p (-(n : Int)) := by
    simp only [IntType.Holds, IntType.greatest]
    omega
  rw [IntExpr.eval, eval_longLong h, Option.bind_some]
  exact if_pos holds

/-- A number is its own value. -/
theorem denotes_suffixed {n : Nat} (h : n ≤ IntType.greatestLongLong) :
    Denotes (String.ofList (suffixed n)) n := by
  refine ⟨[.number (suffixed n)], .literal ⟨n, .longLong⟩, ?_,
    .unary (.primary (.literal (intLiteral?_suffixed n))), fun e' h' => ?_,
    List.forall_mem_singleton.mpr h, fun p => ⟨.longLong, eval_longLong h p⟩⟩
  · rw [String.toList_ofList, intTokens?_suffixed]
  · have operand := h'.of_short (by simp)
    exact (operand.of_number (intLiteral?_suffixed n)).1

theorem intTokens?_minus (n : Nat) (rest : List Char) :
    intTokens? ('-' :: (suffixed n ++ rest))
      = (intTokens? (suffixed n ++ rest)).map (.minus :: ·) := by
  obtain ⟨c, digits, hd⟩ := List.exists_cons_of_ne_nil (Nat.toDigits_ne_nil (n := n) (b := 10))
  have digit : isDigit c = true := Json.isDigit_of_mem_toDigits (hd ▸ List.mem_cons_self)
  have single : (suffixed n ++ rest).head?.any (fun d => d = '-' || d = '=' || d = '>')
      = false := by
    rw [suffixed, hd]
    simp only [List.cons_append, List.head?_cons, Option.any_some, Bool.or_eq_false_iff,
      decide_eq_false_iff_not]
    refine ⟨⟨?_, ?_⟩, ?_⟩
    all_goals
      rintro rfl
      exact absurd digit (by decide)
  rw [intTokens?, if_neg (by decide), if_neg (by decide), if_neg (by decide), if_pos rfl, single,
    if_neg Bool.false_ne_true]

/-- A sign before a number gives its negative. -/
theorem denotes_negated {n : Nat} (h : n ≤ IntType.greatestLongLong) :
    Denotes (String.ofList ('-' :: suffixed n)) (-n) := by
  refine ⟨[.minus, .number (suffixed n)], .negate (.literal ⟨n, .longLong⟩), ?_,
    .unary (.negated (.primary (.literal (intLiteral?_suffixed n)))), fun e' h' => ?_,
    List.forall_mem_singleton.mpr h, fun p => ⟨.longLong, eval_negate h p⟩⟩
  · have tokens := intTokens?_minus n []
    rw [List.append_nil, intTokens?_suffixed] at tokens
    rw [String.toList_ofList, tokens]
    rfl
  · have operand := h'.of_short (by simp)
    exact (operand.of_minus (intLiteral?_suffixed n)).1

theorem eval_subtract {p : Platform} {a b : IntExpr} {t u : IntType} {v w : Int}
    (ha : a.eval p = some (t, v)) (hb : b.eval p = some (u, w))
    (h : (t.common u).Holds p (v - w)) :
    (a.subtract b).eval p = some (t.common u, v - w) := by
  rw [IntExpr.eval, ha, hb]
  exact if_pos h

/-- The least number is one less than the negative of the greatest. -/
theorem denotes_least : Denotes "(-9223372036854775807LL - 1)" leastInt64.toInt := by
  have greatest := intLiteral?_suffixed IntType.greatestLongLong
  have one : intLiteral? ['1'] = some ⟨1, .int⟩ := by decide
  refine ⟨.opening :: ([.minus, .number (suffixed IntType.greatestLongLong), .minus, .number ['1']]
      ++ [.closing]), .subtract (.negate (.literal ⟨IntType.greatestLongLong, .longLong⟩))
        (.literal ⟨1, .int⟩), ?_, ?_, fun e' h => ?_, ?_, fun p => ⟨.longLong, ?_⟩⟩
  · decide +kernel
  · exact .unary (.primary (.enclosed
      (.difference (.unary (.negated (.primary (.literal greatest)))) (.primary (.literal one)))))
  · exact (h.of_enclosed rfl).of_negated_minus greatest one
  · decide
  · have unit : (IntExpr.literal ⟨1, .int⟩).eval p = some (.int, 1) := by
      have fits : 1 ≤ p.greatestInt := Nat.le_trans (by decide) p.least_le
      simp [IntExpr.eval, IntLiteral.type?, IntType.rank, IntType.greatest, fits]
    have holds : IntType.longLong.Holds p (-(IntType.greatestLongLong : Int) - 1) := by
      simp only [IntType.Holds, IntType.greatest, IntType.greatestLongLong]
      omega
    exact eval_subtract (eval_negate (Nat.le_refl _) p) unit holds

/-- **An integer is read back.** -/
theorem denotes_integerLiteral (v : Int64) : Denotes (integerLiteral v) v.toInt := by
  unfold integerLiteral
  split_ifs with least
  · rw [least]
    exact denotes_least
  · have le : v.toInt ≤ IntType.greatestLongLong := v.toInt_le
    have ge : -(IntType.greatestLongLong : Int) - 1 ≤ v.toInt := v.le_toInt
    have ne : v.toInt ≠ -(IntType.greatestLongLong : Int) - 1 :=
      fun h => least (Int64.toInt_inj.mp h)
    cases hv : v.toInt with
    | ofNat n =>
      have h : n ≤ IntType.greatestLongLong := by
        rw [hv] at le
        exact Int.ofNat_le.mp le
      have text : toString (Int.ofNat n) ++ "LL" = String.ofList (suffixed n) := by
        apply String.toList_injective
        rw [Int.toString_eq_repr, Int.repr]
        simp only [String.toList_append, Nat.toList_repr, String.toList_ofList]
        rfl
      rw [text]
      exact denotes_suffixed h
    | negSucc n =>
      have h : n + 1 ≤ IntType.greatestLongLong := by
        rw [hv] at ge ne
        omega
      have text : toString (Int.negSucc n) ++ "LL" = String.ofList ('-' :: suffixed (n + 1)) := by
        apply String.toList_injective
        rw [Int.toString_eq_repr, Int.repr]
        simp only [String.toList_append, Nat.toList_repr, String.toList_ofList]
        rfl
      rw [text]
      exact denotes_negated h

/-! ## Literals carry what they are written for -/

/-- **Literals are read back.** Before the parenthesis or the comma that comes after an argument, a
string is one literal with the bytes of the string, in printable ASCII. An integer is an expression
with its value. -/
theorem literals_read_back {c : Char} (h : c = ')' ∨ c = ',') (s : String) (rest : List Char)
    (v : Int64) :
    readLiteral? ((stringLiteral s).toList ++ c :: rest)
        = some (Text.Utf8.bytes s, c :: prepared rest)
      ∧ Printable (stringLiteral s) ∧ Denotes (integerLiteral v) v.toInt := by
  refine ⟨?_, printable_stringLiteral s, denotes_integerLiteral v⟩
  rw [readLiteral?_stringLiteral]
  rcases h with rfl | rfl <;> rw [prepared_of_ne (by decide) (by decide)]

/-- A code before a digit, question marks that a trigraph could start with, and the least
integer. -/
theorem literals_read_back_of_escapes :
    readLiteral? ((stringLiteral "é7??=\x007").toList ++ [',', ' ', '0', ')'])
        = some ([0xc3, 0xa9, 0x37, 0x3f, 0x3f, 0x3d, 0x00, 0x37], [',', ' ', '0', ')'])
      ∧ Printable (stringLiteral "é7??=\x007")
      ∧ Denotes (integerLiteral leastInt64) (-9223372036854775808) := by
  have bytes : Text.Utf8.bytes "é7??=\x007" = [0xc3, 0xa9, 0x37, 0x3f, 0x3f, 0x3d, 0x00, 0x37] := by
    decide
  have after : prepared [' ', '0', ')'] = [' ', '0', ')'] := by
    simp [prepared, replaceTrigraphs, joinLines]
  have read := literals_read_back (.inr rfl) "é7??=\x007" [' ', '0', ')'] leastInt64
  rw [bytes, after] at read
  exact read

end ScriptCompiler.C
