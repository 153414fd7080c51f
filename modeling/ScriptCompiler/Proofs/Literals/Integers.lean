import ScriptCompiler.Proofs.Operators.Parsing
import ScriptCompiler.Proofs.Truncation.Lines

/-!
# Integers in decimal digits

An integer in decimal digits, with a minus before them if it is negative, is a program of one
literal, as long as its digits alone spell an integer of 64 bits. The minus is a token of its own,
and the parser applies it to the number that was scanned. So the least integer, whose digits spell
one more than the greatest, is no literal.
-/

namespace ScriptCompiler.Literals

open Operators Parse
open Token (Kind Lexeme isDigit scanFrom)

/-! ## Scanning -/

/-- The digits of a number. -/
abbrev digits (n : Nat) : List Char :=
  Nat.toDigits 10 n

/-- Digits are not read on into a sign. -/
theorem head?_digits (n : Nat) (rest : List Char) : (digits n ++ rest).head? ≠ some '=' := by
  obtain ⟨c, cs, hc⟩ := List.exists_cons_of_ne_nil (Nat.toDigits_ne_nil (n := n) (b := 10))
  have digit : isDigit c = true := Json.isDigit_of_mem_toDigits (hc ▸ List.mem_cons_self)
  rw [digits, hc]
  intro h
  rw [Option.some.inj h] at digit
  exact absurd digit (by decide)

theorem spells_digits {n : Nat} (h : n < 0x8000000000000000) :
    Spells Ends (digits n) [.integer (Int64.ofNat n)] := by
  have spells := spells_numeral (.ofNat n h)
  rwa [Numeral.value_ofNat, Numeral.chars, Numeral.ofNat, List.cons_head_tail] at spells

theorem spells_negated {n : Nat} (h : n < 0x8000000000000000) :
    Spells Ends ('-' :: digits n) [.punct .minus, .integer (Int64.ofNat n)] :=
  (spells_sign .minus).append (spells_digits h) fun rest _ => head?_digits n rest

/-- Digits that spell too great a number are one token, with a report. -/
theorem ofChar_overflow {n : Nat} (h : 0x8000000000000000 ≤ n) (start : Token.Position) :
    ∃ c cs report, digits n = c :: cs ∧ isDigit c = true
      ∧ Lexeme.ofChar start c cs = .complete (.integer 0) cs.length [report]
      ∧ report.code = .integerOverflow := by
  obtain ⟨c, cs, hc⟩ := List.exists_cons_of_ne_nil (Nat.toDigits_ne_nil (n := n) (b := 10))
  have all : ∀ d ∈ c :: cs, isDigit d = true := fun d hd =>
    Json.isDigit_of_mem_toDigits (hc ▸ hd)
  have run : cs.takeWhile (fun d => isDigit d || d = '_') = cs :=
    List.takeWhile_eq_self_iff.mpr fun d hd => by
      rw [all d (List.mem_cons_of_mem c hd), Bool.true_or]
  have spelled : Token.decimal ((c :: cs).filter (· ≠ '_')) = n := by
    rw [← hc, Numeral.filter_toDigits, Json.decimal_toDigits]
  have none : Token.int64OfNat? n = none := by
    refine if_neg ?_
    show ¬ (n : Int) ≤ 0x7fffffffffffffff
    omega
  have whole : Token.fractionLength [] = 0 := rfl
  refine ⟨c, cs, ?_⟩
  rw [ofChar_digit (all c List.mem_cons_self), Lexeme.number]
  simp only [run, spelled, none, List.drop_length, whole, if_true, Nat.add_zero, List.nil_append]
  exact ⟨_, hc, all c List.mem_cons_self, rfl, rfl⟩

theorem scanFrom_overflow {n : Nat} (h : 0x8000000000000000 ≤ n) (file : SourceFile)
    (last : Option Kind) (place : Token.Position) :
    ∃ report, report.code = .integerOverflow
      ∧ kindsOf (scanFrom file last .empty ⟨place, digits n⟩) = [.integer 0, .endOfInput]
      ∧ (scanFrom file last .empty ⟨place, digits n⟩).log
        = Log.empty.pushAll [file.diagnose report] := by
  obtain ⟨c, cs, report, hc, digit, hl, code⟩ :=
    ofChar_overflow h (Token.tokenPlace place (digits n))
  have start : (digits n).drop (Token.triviaLength (digits n)) = c :: cs := by
    rw [hc, triviaLength_of_not_mem (not_mem_skips (by decide) digit), List.drop_zero]
  have found := Token.next_complete start hl
  rw [List.drop_length] at found
  have scanned : scanFrom file last .empty ⟨place, digits n⟩ = _ :=
    Token.scanFrom_token (by rw [found]; nofun) (by rw [found]; nofun)
  rw [found] at scanned
  obtain ⟨stop, isEnd, none_left⟩ := Token.scanFrom_nil file (some (.integer 0))
    (Log.empty.pushAll [file.diagnose report]) _
  refine ⟨report, code, ?_, ?_⟩
  · rw [scanned]
    dsimp only
    rw [List.map_singleton, none_left, kindsOf, List.map_cons, List.map_singleton, isEnd]
  · rw [scanned]
    dsimp only
    rw [List.map_singleton, none_left]

/-! ## Parsing -/

theorem eq_of_bare_integer {node : Node} {value : Int64}
    (h : node.bare = .synthetic (.integer value)) : node.form = .integer value := by
  obtain ⟨form, span⟩ := node
  cases form <;> cases h
  rfl

theorem undirected_integer (value : Int64) : Undirected (.synthetic (.integer value)) := by
  intro node h
  unfold asDirective
  rw [eq_of_bare_integer h]

/-- The tokens of a number. -/
theorem plain_integer (value : Int64) : Plain [.integer value] where
  some_kind := List.cons_ne_nil _ _
  quiet := List.forall_mem_singleton.mpr ⟨rfl, nofun, nofun⟩

theorem plain_negated (value : Int64) : Plain [.punct .minus, .integer value] where
  some_kind := List.cons_ne_nil _ _
  quiet := List.forall_mem_cons.mpr ⟨quiet_punct rfl, (plain_integer value).quiet⟩

/-! ## Programs -/

section Programs

variable {name source : String} {known : List String} {kinds : List Kind} {value : Int64}

/-- A text of a number is a program of one literal, if scanning finds no fault in it. -/
theorem parse_of_integer (plain : Plain kinds)
    (scanned : kindsOf (Token.scan (.ofText name source)) = kinds ++ [.endOfInput]
      ∧ (Token.scan (.ofText name source)).log = .empty)
    (operand : Operand known (Parse.expression (maxDepth - 1)) kinds
      (.synthetic (.integer value))) :
    ∃ span, parse name source known = .ok [⟨.integer value, span⟩] := by
  obtain ⟨⟨form, span⟩, parsed, same⟩ := parse_of_grouped plain (undirected_integer value)
    scanned.1 scanned.2 (operand.grouped.mono (Nat.zero_le 5))
  obtain rfl : form = .integer value := eq_of_bare_integer same
  exact ⟨span, parsed⟩

/-- The fault that scanning finds in a text of a number is all that is wrong with it. -/
theorem parse_of_overflow {report : Report} (plain : Plain kinds)
    (scanned : kindsOf (Token.scan (.ofText name source)) = kinds ++ [.endOfInput])
    (log : (Token.scan (.ofText name source)).log
      = Log.empty.pushAll [(SourceFile.ofText name source).diagnose report])
    (code : report.code = .integerOverflow)
    (operand : Operand known (Parse.expression (maxDepth - 1)) kinds
      (.synthetic (.integer value))) :
    ∃ d, parse name source known = .error (.malformed ⟨[d], 1⟩) ∧ d.code = .integerOverflow := by
  obtain ⟨node, s', program, -, clean⟩ := run_program_of_grouped plain (undirected_integer value)
    scanned (operand.grouped.mono (Nat.zero_le 5))
  have parsed : ofText name source known = (some [node], .empty) := by
    unfold ofText ofTokens
    rw [program]
    exact congrArg (some [node], ·) clean
  have all : faults name source known
      = Log.empty.pushAll [(SourceFile.ofText name source).diagnose report] := by
    rw [faults, log, parsed]
    rfl
  refine ⟨(SourceFile.ofText name source).diagnose report, (parse_of_cons all).trans ?_, code⟩
  rw [ParseFailure.ofLog_malformed]
  · rfl
  · show report.code.isEndOfInput = false
    rw [code]
    rfl
  · exact List.forall_mem_nil _

variable (name : String) (known : List String)

theorem toString_ofNat (n : Nat) : toString (Int.ofNat n) = String.ofList (digits n) :=
  String.toList_injective (Nat.toList_repr.trans String.toList_ofList.symm)

theorem toString_negSucc (n : Nat) :
    toString (Int.negSucc n) = String.ofList ('-' :: digits (n + 1)) := by
  rw [Int.toString_eq_repr, Int.repr]
  apply String.toList_injective
  rw [String.toList_append, Nat.toList_repr]
  exact String.toList_ofList.symm

/-- An integer is a literal if its digits spell one of 64 bits. -/
theorem parse_toString {z : Int} (h : z.natAbs < 0x8000000000000000) :
    ∃ span, parse name (toString z) known = .ok [⟨.integer (Int64.ofInt z), span⟩] := by
  cases z with
  | ofNat n =>
    have value : Int64.ofInt (Int.ofNat n) = Int64.ofNat n := Int64.ofInt_eq_ofNat
    rw [toString_ofNat, value]
    exact parse_of_integer (plain_integer _) ((spells_digits h).scan ends_nil name)
      (operand_integer _)
  | negSucc n =>
    have value : Int64.ofInt (Int.negSucc n) = -Int64.ofNat (n + 1) := by
      rw [Int.negSucc_eq, Int64.ofInt_neg]
      exact congrArg _ (Int64.ofInt_eq_ofNat (n := n + 1))
    rw [toString_negSucc, value]
    exact parse_of_integer (plain_negated _) ((spells_negated h).scan ends_nil name)
      (operand_negated _)

/-- An integer is refused if its digits spell a greater number, also where a minus comes before
them. -/
theorem parse_toString_overflow {z : Int} (h : 0x8000000000000000 ≤ z.natAbs) :
    ∃ d, parse name (toString z) known = .error (.malformed ⟨[d], 1⟩)
      ∧ d.code = .integerOverflow := by
  have start (chars : List Char) :
      Token.scan (.ofText name (String.ofList chars))
        = scanFrom (.ofText name (String.ofList chars)) none .empty ⟨⟨1, 1⟩, chars⟩ := by
    rw [Token.scan, Token.Cursor.start]
    congr 2
    exact String.toList_ofList
  cases z with
  | ofNat n =>
    rw [toString_ofNat]
    obtain ⟨report, code, kinds, log⟩ := scanFrom_overflow (n := n) h
      (.ofText name (String.ofList (digits n))) none ⟨1, 1⟩
    rw [← start] at kinds log
    exact parse_of_overflow (plain_integer 0) kinds log code (operand_integer 0)
  | negSucc n =>
    rw [toString_negSucc]
    have large : 0x8000000000000000 ≤ n + 1 := h
    obtain ⟨last, place, minus, same⟩ := spells_sign .minus
      (.ofText name (String.ofList ('-' :: digits (n + 1)))) none ⟨1, 1⟩ (digits (n + 1))
      (List.append_nil (digits (n + 1)) ▸ head?_digits (n + 1) [])
    obtain ⟨report, code, kinds, log⟩ := scanFrom_overflow large
      (.ofText name (String.ofList ('-' :: digits (n + 1)))) last place
    rw [kinds] at minus
    rw [log] at same
    refine parse_of_overflow (plain_negated 0) ?_ ?_ code (operand_negated 0)
    · rw [start]
      exact minus
    · rw [start]
      exact same

theorem natAbs_lt_iff (v : Int64) : v.toInt.natAbs < 0x8000000000000000 ↔ v ≠ .minValue := by
  have least : Int64.minValue.toInt = -0x8000000000000000 := by decide
  have below := v.le_toInt
  have above := v.toInt_lt
  have same : v = .minValue ↔ v.toInt = -0x8000000000000000 := by
    rw [← least, Int64.toInt_inj]
  rw [ne_eq, same]
  omega

/-- **Every integer but the least one can be written.** The decimal spelling of a 64-bit integer,
with a minus before it if it is negative, is a program of one statement, the literal of this
integer, exactly if the integer is not the least one. -/
theorem parse_decimal_iff (v : Int64) :
    (∃ span, parse name (toString v.toInt) known = .ok [⟨.integer v, span⟩]) ↔ v ≠ .minValue := by
  rw [← natAbs_lt_iff]
  constructor
  · rintro ⟨span, parsed⟩
    refine Nat.lt_of_not_le fun large => ?_
    obtain ⟨d, refused, -⟩ := parse_toString_overflow name known large
    cases parsed.symm.trans refused
  · intro small
    obtain ⟨span, parsed⟩ := parse_toString name known small
    rw [Int64.ofInt_toInt] at parsed
    exact ⟨span, parsed⟩

/-- The least integer is refused, and the one after it is read. -/
theorem parse_decimal_near_least :
    (¬ ∃ span, parse "t.rb" "-9223372036854775808" [] = .ok [⟨.integer .minValue, span⟩])
      ∧ ∃ span, parse "t.rb" "-9223372036854775807" []
          = .ok [⟨.integer (-9223372036854775807), span⟩] := by
  have least : "-9223372036854775808" = toString Int64.minValue.toInt := by decide
  have next : "-9223372036854775807" = toString (-9223372036854775807 : Int64).toInt := by decide
  rw [least, next]
  exact ⟨fun h => (parse_decimal_iff "t.rb" [] .minValue).mp h rfl,
    (parse_decimal_iff "t.rb" [] (-9223372036854775807)).mpr (by decide)⟩

end Programs

end ScriptCompiler.Literals
