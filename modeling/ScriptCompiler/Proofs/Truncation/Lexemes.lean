import Mathlib.Data.List.Find
import Mathlib.Data.List.TakeWhile
import ScriptCompiler.Proofs.Truncation.Cut

/-!
# Lexemes at a line break

A text is cut in front of one of its line breaks. A lexeme that starts before the cut is the same in
what is left, as a line break is part of no name, number or operator; only a string, or a symbol in
quotes, may go on after the cut, and then it has no end in what is left.
-/

namespace ScriptCompiler.Token

open Parse (Alike)

/-! ## Ends of lines -/

/-- The character ends the line before it: a line feed, or the carriage return in front of one. -/
def EndsLine (x : Char) : Prop :=
  x = '\n' ∨ x = '\r'

theorem EndsLine.feed : EndsLine '\n' :=
  .inl rfl

section EndsLine

variable {x : Char} (hx : EndsLine x)
include hx

/-- A class without the line feed and the carriage return has no end of a line in it. -/
theorem EndsLine.stops {p : Char → Bool} (feed : p '\n' = false) (back : p '\r' = false) :
    p x = false := by
  rcases hx with rfl | rfl
  · exact feed
  · exact back

theorem EndsLine.ne {c : Char} (feed : c ≠ '\n') (back : c ≠ '\r') : c ≠ x := by
  rcases hx with rfl | rfl
  · exact feed
  · exact back

end EndsLine

/-! ## Lengths of words and marks -/

/-- A run of characters is not read on over a character that ends it. -/
theorem takeWhile_stop {p : Char → Bool} {rest : List Char} (stop : ∀ c ∈ rest.head?, p c = false)
    (text : List Char) : (text ++ rest).takeWhile p = text.takeWhile p := by
  induction text with
  | nil =>
    cases rest with
    | nil => rfl
    | cons c rest => exact List.takeWhile_cons_of_neg (Bool.not_eq_true _ ▸ stop c rfl)
  | cons c text ih => rw [List.cons_append, List.takeWhile_cons, List.takeWhile_cons, ih]

/-- The text is one line. -/
theorem takeWhile_oneLine {line : List Char} (h : '\n' ∉ line) :
    line.takeWhile (· ≠ '\n') = line :=
  List.takeWhile_eq_self_iff.mpr fun _ hc => decide_eq_true fun he => h (he ▸ hc)

section Lengths

variable {x : Char} (hx : EndsLine x) (text more : List Char)

theorem takeWhile_cut {p : Char → Bool} (hp : p x = false) :
    (text ++ x :: more).takeWhile p = text.takeWhile p :=
  takeWhile_stop (fun _ h => Option.some.inj h ▸ hp) text

include hx in
theorem wordLength_cut : wordLength (text ++ x :: more) = wordLength text :=
  congrArg List.length (takeWhile_cut text more (hx.stops (by decide) (by decide)))

theorem wordLength_le : wordLength text ≤ text.length :=
  (List.takeWhile_sublist _).length_le

include hx in
theorem suffixLength_cut : suffixLength (text ++ x :: more) = suffixLength text := by
  match text with
  | [] => rcases hx with rfl | rfl <;> rfl
  | [c] => rcases hx with rfl | rfl <;> rfl
  | c :: d :: text => rfl

theorem suffixLength_le : suffixLength text ≤ text.length := by
  cases text with
  | nil => exact Nat.le_refl _
  | cons c text =>
    show (if _ then 1 else 0) ≤ text.length + 1
    split <;> omega

include hx in
theorem methodLength_cut : methodLength (text ++ x :: more) = methodLength text := by
  show wordLength _ + suffixLength (List.drop (wordLength _) _) = _
  rw [wordLength_cut hx, List.drop_append_of_le_length (wordLength_le text), suffixLength_cut hx]
  rfl

theorem methodLength_le : methodLength text ≤ text.length := by
  show wordLength text + suffixLength (text.drop (wordLength text)) ≤ text.length
  have := wordLength_le text
  have := suffixLength_le (text.drop (wordLength text))
  rw [List.length_drop] at this
  omega

theorem writerLength_of_ne {c : Char} (h : c ≠ '=') : Lexeme.writerLength (c :: text) = 0 := by
  rw [Lexeme.writerLength]
  rintro _ ⟨⟩
  exact h rfl

include hx in
theorem writerLength_cut :
    Lexeme.writerLength (text ++ x :: more) = Lexeme.writerLength text := by
  cases text with
  | nil => rcases hx with rfl | rfl <;> rfl
  | cons c text =>
    rw [List.cons_append]
    by_cases h : c = '='
    · subst h
      cases text with
      | nil => rcases hx with rfl | rfl <;> rfl
      | cons d text => rfl
    · rw [writerLength_of_ne _ h, writerLength_of_ne _ h]

theorem writerLength_le : Lexeme.writerLength text ≤ text.length := by
  cases text with
  | nil => exact Nat.le_refl _
  | cons c text =>
    by_cases h : c = '='
    · subst h
      show (if _ then 0 else 1) ≤ text.length + 1
      split <;> omega
    · rw [writerLength_of_ne _ h]
      exact Nat.zero_le _

theorem fractionLength_of_ne {c : Char} (h : c ≠ '.') : fractionLength (c :: text) = 0 := by
  rw [fractionLength]
  rintro _ ⟨⟩
  exact h rfl

theorem fractionLength_dot : fractionLength ('.' :: text)
    = if (text.takeWhile isDigit).length = 0 then 0 else (text.takeWhile isDigit).length + 1 :=
  rfl

include hx in
theorem fractionLength_cut : fractionLength (text ++ x :: more) = fractionLength text := by
  cases text with
  | nil => rcases hx with rfl | rfl <;> rfl
  | cons c text =>
    rw [List.cons_append]
    by_cases h : c = '.'
    · subst h
      rw [fractionLength_dot, fractionLength_dot,
        takeWhile_cut text more (hx.stops (by decide) (by decide))]
    · rw [fractionLength_of_ne _ h, fractionLength_of_ne _ h]

theorem fractionLength_le : fractionLength text ≤ text.length := by
  cases text with
  | nil => exact Nat.le_refl _
  | cons c text =>
    by_cases h : c = '.'
    · subst h
      have : (text.takeWhile isDigit).length ≤ text.length := (List.takeWhile_sublist _).length_le
      rw [fractionLength_dot, List.length_cons]
      split <;> omega
    · rw [fractionLength_of_ne _ h]
      exact Nat.zero_le _

theorem hexRun_cons (most value : Nat) (c : Char) :
    hexRun (most + 1) value (c :: text) = match hexValue? c with
      | none => (value, 0)
      | some d => ((hexRun most (value * 16 + d) text).1, (hexRun most (value * 16 + d) text).2 + 1) :=
  rfl

include hx in
theorem hexRun_cut (most value : Nat) :
    hexRun most value (text ++ x :: more) = hexRun most value text := by
  induction text generalizing most value with
  | nil => rcases hx with rfl | rfl <;> cases most <;> rfl
  | cons c text ih =>
    cases most with
    | zero => rfl
    | succ most =>
      rw [List.cons_append, hexRun_cons, hexRun_cons]
      split
      · rfl
      · rw [ih]

theorem hexRun_le (most value : Nat) : (hexRun most value text).2 ≤ text.length := by
  induction text generalizing most value with
  | nil => cases most <;> exact Nat.le_refl _
  | cons c text ih =>
    cases most with
    | zero => exact Nat.zero_le _
    | succ most =>
      rw [hexRun_cons]
      split
      · exact Nat.zero_le _
      · exact Nat.succ_le_succ (ih _ _)

theorem isPrefixOf_cut {name : List Char} (h : x ∉ name) :
    name.isPrefixOf (text ++ x :: more) = name.isPrefixOf text := by
  induction name generalizing text with
  | nil => rfl
  | cons d name ih =>
    rw [List.mem_cons, not_or] at h
    cases text with
    | nil =>
      show (d == x && _) = false
      rw [beq_false_of_ne (Ne.symm h.1), Bool.false_and]
    | cons c text =>
      rw [List.cons_append, List.isPrefixOf, List.isPrefixOf, ih text h.2]

theorem head?_cut {c : Char} (h : c ≠ x) :
    (text ++ x :: more).head? = some c ↔ text.head? = some c := by
  cases text with
  | nil => exact iff_of_false (fun hc => h (Option.some.inj hc).symm) nofun
  | cons d text => exact Iff.rfl

theorem cons_of_cut {c : Char} {rest : List Char} (h : c ≠ x)
    (hr : text ++ x :: more = c :: rest) : ∃ rest, text = c :: rest :=
  List.head?_eq_some_iff.mp ((head?_cut text more h).mp (hr ▸ List.head?_cons))

end Lengths

/-! ## Names, numbers and operators -/

namespace Lexeme

section Names

variable {x : Char} (hx : EndsLine x) (text more : List Char)
include hx

theorem either_cut (single : Punct) (longer : List (Char × Punct))
    (feed : longer.lookup '\n' = none) (back : longer.lookup '\r' = none) :
    either single (text ++ x :: more) longer = either single text longer := by
  cases text with
  | nil =>
    have h : longer.lookup x = none := by
      rcases hx with rfl | rfl
      · exact feed
      · exact back
    unfold either
    rw [List.nil_append, List.head?_cons, Option.bind_some, h, List.head?_nil, Option.bind_none]
  | cons c text => rfl

theorem lowerName_cut (c : Char) : lowerName c (text ++ x :: more) = lowerName c text := by
  simp only [lowerName, methodLength_cut hx, List.take_append_of_le_length (methodLength_le text)]

theorem upperName_cut (c : Char) : upperName c (text ++ x :: more) = upperName c text := by
  simp only [upperName, wordLength_cut hx, List.take_append_of_le_length (wordLength_le text)]

theorem wideName_cut (c : Char) : wideName c (text ++ x :: more) = wideName c text := by
  simp only [wideName, wordLength_cut hx, List.take_append_of_le_length (wordLength_le text)]

theorem sigilName_cut (start : Position) (sigil : Char) (what : String) (make : String → Kind) :
    sigilName start sigil what make (text ++ x :: more)
      = sigilName start sigil what make text := by
  simp only [sigilName, wordLength_cut hx, List.take_append_of_le_length (wordLength_le text)]

theorem instanceName_cut (start : Position) :
    instanceName start (text ++ x :: more) = instanceName start text := by
  cases text with
  | nil =>
    rcases hx with rfl | rfl
    · exact sigilName_cut (.inl rfl) [] more start '@' _ _
    · exact sigilName_cut (.inr rfl) [] more start '@' _ _
  | cons c text =>
    by_cases h : c = '@'
    · subst h
      simp only [List.cons_append, instanceName, wordLength_cut hx,
        List.take_append_of_le_length (wordLength_le text)]
    · rw [List.cons_append, instanceName, instanceName]
      · exact sigilName_cut hx (c :: text) more start '@' _ _
      · rintro _ ⟨⟩
        exact h rfl
      · rintro _ ⟨⟩
        exact h rfl

theorem number_cut (start : Position) (c : Char) :
    number start c (text ++ x :: more) = number start c text := by
  have stop : (isDigit x || x = '_') = false := by
    rcases hx with rfl | rfl <;> decide
  have run := takeWhile_cut text more (p := fun d => isDigit d || d = '_') stop
  have le : (text.takeWhile fun d => isDigit d || d = '_').length ≤ text.length :=
    (List.takeWhile_sublist _).length_le
  have fraction :=
    fractionLength_le (text.drop (text.takeWhile fun d => isDigit d || d = '_').length)
  rw [List.length_drop] at fraction
  simp only [number, run, List.drop_append_of_le_length le, fractionLength_cut hx]
  rw [List.take_append_of_le_length (by omega)]

theorem operatorNames_cut :
    (operatorNames.find? fun name => name.toList.isPrefixOf (text ++ x :: more))
      = operatorNames.find? fun name => name.toList.isPrefixOf text := by
  have h : ∀ name ∈ operatorNames, x ∉ name.toList := by
    rcases hx with rfl | rfl <;> decide
  exact List.find?_congr fun name hn => isPrefixOf_cut text more (h name hn)

theorem colon_cut (start : Position) (h : text.head? ≠ some '"') :
    colon start (text ++ x :: more) = colon start text := by
  have names := operatorNames_cut hx text more
  cases text with
  | nil =>
    rw [List.nil_append] at names ⊢
    rw [colon, colon, names]
    · rcases hx with rfl | rfl <;> rfl
    · exact (hx.ne (c := ':') (by decide) (by decide)).symm
    · exact (hx.ne (c := '"') (by decide) (by decide)).symm
  | cons c text =>
    by_cases hc : c = ':'
    · subst hc
      rfl
    · have hq : c ≠ '"' := fun hc => h (congrArg some hc)
      have method := methodLength_le (c :: text)
      have writer := writerLength_le ((c :: text).drop (methodLength (c :: text)))
      rw [List.length_drop] at writer
      rw [List.cons_append] at names ⊢
      rw [colon, colon, names]
      · simp only [← List.cons_append, methodLength_cut hx, List.drop_append_of_le_length method,
          writerLength_cut hx]
        rw [List.take_append_of_le_length (by omega)]
      all_goals assumption

end Names

end Lexeme

/-! ## Strings -/

/-- The faults, if any, are that a string has no end. -/
def Unfinished (reports : List Report) : Prop :=
  ∀ r ∈ reports, r.code = .unterminatedString

/-- The text stops inside the string that the piece is a part of. -/
def Piece.StopsIn (piece : Piece) (text : List Char) : Prop :=
  piece.length = text.length ∧ Unfinished piece.reports

section Strings

variable {start here : Position} {text : List Char}

theorem Piece.stopsIn_nil (bytes : List UInt8) :
    Piece.StopsIn ⟨bytes, 0, [unterminated start here]⟩ [] :=
  ⟨rfl, fun _ h => List.mem_singleton.mp h ▸ rfl⟩

theorem Piece.StopsIn.append {first next : Piece} (h : next.StopsIn (text.drop first.length))
    (hl : first.length ≤ text.length) (hr : ∀ r ∈ first.reports, r.code = .unterminatedString) :
    (first.append next).StopsIn text := by
  obtain ⟨length, all⟩ := h
  refine ⟨?_, fun r hm => ?_⟩
  · rw [List.length_drop] at length
    show first.length + next.length = text.length
    omega
  · exact (List.mem_append.mp hm).elim (hr r) (all r)

theorem singleQuoted_le (start here : Position) (text : List Char) :
    (singleQuoted start here text).length ≤ text.length := by
  fun_induction singleQuoted start here text with
  | case1 => exact Nat.le_refl _
  | case2 => exact Nat.succ_pos _
  | case3 here rest ih =>
    show 2 + _ ≤ rest.length + 2
    omega
  | case4 here rest ih =>
    show 2 + _ ≤ rest.length + 2
    omega
  | case5 here c rest _ _ _ ih =>
    show 1 + _ ≤ rest.length + 1
    omega

theorem byteEscape_le (start letter : Position) (text : List Char) :
    (byteEscape start letter text).length ≤ text.length + 1 := by
  have h := hexRun_le text 2 0
  unfold byteEscape
  generalize hexRun 2 0 text = digits at h ⊢
  split
  split <;> dsimp only at h ⊢ <;> omega

theorem codePointEscape_le (start letter : Position) (text : List Char) :
    (codePointEscape start letter text).length ≤ text.length + 1 := by
  unfold codePointEscape
  extract_lets after finish
  have length (value least count length : Nat) : (finish value least count length).length
      = 1 + length := by
    unfold finish
    split <;> rfl
  split
  · next inner =>
    have h := hexRun_le inner 6 0
    rw [List.length_cons]
    dsimp only
    split
    · next hc =>
      have lt := (List.getElem?_eq_some_iff.mp hc).1
      rw [length]
      omega
    · dsimp only
      omega
  · have h := hexRun_le text 4 0
    dsimp only
    rw [length]
    omega

theorem escape_le (start : Position) (text : List Char) :
    (escape start text).length ≤ text.length := by
  unfold escape
  split
  · exact Nat.le_refl _
  · rw [List.length_cons]
    split
    all_goals try exact Nat.succ_le_succ (Nat.zero_le _)
    · exact byteEscape_le _ _ _
    · exact codePointEscape_le _ _ _

theorem doubleQuoted_le (start here : Position) (text : List Char) :
    (doubleQuoted start here text).length ≤ text.length := by
  fun_induction doubleQuoted start here text with
  | case1 => exact Nat.le_refl _
  | case2 => exact Nat.succ_pos _
  | case3 here rest piece length ih =>
    have le : length ≤ rest.length := escape_le here rest
    rw [List.length_drop] at ih
    show length + 1 + _ ≤ rest.length + 1
    omega
  | case4 here rest reports ih =>
    show 1 + _ ≤ rest.length + 1
    omega
  | case5 here c rest _ _ _ ih =>
    show 1 + _ ≤ rest.length + 1
    omega

theorem byteEscape_cut {x : Char} (hx : EndsLine x) (start letter : Position)
    (text more : List Char) :
    byteEscape start letter (text ++ x :: more) = byteEscape start letter text := by
  simp only [byteEscape, hexRun_cut hx, List.take_append_of_le_length (hexRun_le text 2 0)]

theorem getElem?_cut {x : Char} (hx : EndsLine x) {n : Nat} (more : List Char)
    (hn : n ≤ text.length) :
    (text ++ x :: more)[n]? = some '\x7d' ↔ text[n]? = some '\x7d' := by
  rcases Nat.lt_or_eq_of_le hn with hn | rfl
  · rw [List.getElem?_append_left hn]
  · rw [List.getElem?_append_right (Nat.le_refl _), Nat.sub_self, List.getElem?_cons_zero,
      List.getElem?_eq_none (Nat.le_refl _)]
    exact iff_of_false (fun h => hx.ne (by decide) (by decide) (Option.some.inj h).symm) nofun

theorem codePointEscape_cut {x : Char} (hx : EndsLine x) (start letter : Position)
    (text more : List Char) :
    codePointEscape start letter (text ++ x :: more) = codePointEscape start letter text := by
  cases text with
  | nil => rcases hx with rfl | rfl <;> rfl
  | cons c text =>
    rw [List.cons_append]
    by_cases hc : c = '\x7b'
    · subst hc
      have inner := hexRun_le text 6 0
      rw [codePointEscape, codePointEscape]
      simp only [hexRun_cut hx, getElem?_cut hx more inner, List.take_succ_cons,
        List.take_append_of_le_length inner]
      split
      · -- the closing brace stands before the cut
        next h =>
        have lt := (List.getElem?_eq_some_iff.mp h).1
        rw [List.take_append_of_le_length lt]
      · rfl
    · -- without a brace the digits come at once
      rw [codePointEscape, codePointEscape]
      · simp only [← List.cons_append, hexRun_cut hx,
          List.take_append_of_le_length (hexRun_le (c :: text) 4 0)]
      all_goals
        rintro _ ⟨⟩
        exact hc rfl

theorem escape_cut {x : Char} (hx : EndsLine x) (start : Position) (more : List Char)
    (h : text ≠ []) :
    escape start (text ++ x :: more) = escape start text := by
  obtain ⟨c, text, rfl⟩ := List.exists_cons_of_ne_nil h
  rw [List.cons_append]
  unfold escape
  simp only [byteEscape_cut hx, codePointEscape_cut hx]

/-- The same piece comes first in the whole text and in what is left. -/
theorem Piece.append_cut {first next next' : Piece} (h : (first.append next).reports = [])
    (hl : first.length ≤ text.length)
    (ih : next.reports = [] → next = next' ∨ next'.StopsIn (text.drop first.length)) :
    first.append next = first.append next' ∨ (first.append next').StopsIn text := by
  obtain ⟨hf, hn⟩ := List.append_eq_nil_iff.mp h
  rcases ih hn with rfl | h
  · exact .inl rfl
  · exact .inr (h.append hl (hf ▸ nofun))

theorem doubleQuoted_cut (more : List Char)
    (h : (doubleQuoted start here (text ++ '\n' :: more)).reports = []) :
    doubleQuoted start here (text ++ '\n' :: more) = doubleQuoted start here text
      ∨ (doubleQuoted start here text).StopsIn text := by
  fun_induction doubleQuoted start here text with
  | case1 here => exact .inr (Piece.stopsIn_nil [])
  | case2 =>
    left
    rw [List.cons_append, doubleQuoted]
  | case3 here rest piece length ih =>
    rw [List.cons_append, doubleQuoted] at h ⊢
    by_cases hr : rest = []
    · subst hr
      -- the backslash is the last character: the sequence has no end, and no more has the string
      right
      refine Piece.StopsIn.append ?_ (Nat.le_refl _) ?_
      · show (doubleQuoted _ _ []).StopsIn []
        rw [doubleQuoted]
        exact Piece.stopsIn_nil []
      · exact fun r hm => List.mem_singleton.mp hm ▸ rfl
    · rw [escape_cut .feed here more hr] at h ⊢
      have le : length ≤ rest.length := escape_le here rest
      rw [List.take_append_of_le_length le, List.drop_append_of_le_length le] at h ⊢
      exact Piece.append_cut h (Nat.succ_le_succ le) ih
  | case4 here rest reports ih =>
    rw [List.cons_append, doubleQuoted] at h ⊢
    simp only [head?_cut rest more (by decide : '\x7b' ≠ '\n')] at h ⊢
    exact Piece.append_cut h (Nat.succ_le_succ (Nat.zero_le _)) ih
  | case5 here c rest hq hs hn ih =>
    rw [List.cons_append, doubleQuoted] at h ⊢
    · exact Piece.append_cut h (Nat.succ_le_succ (Nat.zero_le _)) ih
    all_goals assumption

/-- A plain character before a line break. -/
theorem singleQuoted_cons_cut {x : Char} (hx : EndsLine x) {c : Char} {rest : List Char}
    (more : List Char) (hq : c ≠ '\'') (hs : ∀ r, c = '\\' → rest ≠ '\\' :: r)
    (hn : ∀ r, c = '\\' → rest ≠ '\'' :: r) :
    singleQuoted start here (c :: (rest ++ x :: more))
      = Piece.append ⟨String.utf8EncodeChar c, 1, []⟩
        (singleQuoted start (here.step c) (rest ++ x :: more)) := by
  rw [singleQuoted]
  · exact hq
  · intro r hc hr
    obtain ⟨r, hr⟩ := cons_of_cut rest more (hx.ne (by decide) (by decide)) hr
    exact hs r hc hr
  · intro r hc hr
    obtain ⟨r, hr⟩ := cons_of_cut rest more (hx.ne (by decide) (by decide)) hr
    exact hn r hc hr

theorem singleQuoted_cut (more : List Char)
    (h : (singleQuoted start here (text ++ '\n' :: more)).reports = []) :
    singleQuoted start here (text ++ '\n' :: more) = singleQuoted start here text
      ∨ (singleQuoted start here text).StopsIn text := by
  fun_induction singleQuoted start here text with
  | case1 here => exact .inr (Piece.stopsIn_nil [])
  | case2 =>
    left
    rw [List.cons_append, singleQuoted]
  | case3 here rest ih =>
    rw [List.cons_append, List.cons_append, singleQuoted] at h ⊢
    exact Piece.append_cut h (Nat.le_add_left 2 _) ih
  | case4 here rest ih =>
    rw [List.cons_append, List.cons_append, singleQuoted] at h ⊢
    exact Piece.append_cut h (Nat.le_add_left 2 _) ih
  | case5 here c rest hq hs hn ih =>
    rw [List.cons_append, singleQuoted_cons_cut .feed more hq hs hn] at h ⊢
    exact Piece.append_cut h (Nat.le_add_left 1 _) ih

end Strings

/-! ## All lexemes -/

namespace Lexeme

variable {start : Position} {c : Char} {text : List Char}

/-- A lexeme that starts no string is the same before a line break. -/
theorem ofChar_plain {x : Char} (hx : EndsLine x) (more : List Char) (hd : c ≠ '"') (hs : c ≠ '\'')
    (hc : c = ':' → text.head? ≠ some '"') :
    ofChar start c (text ++ x :: more) = ofChar start c text := by
  unfold ofChar
  split
  -- most rows ask for nothing, or for one character that is no line break
  all_goals try first | rfl | contradiction | exact either_cut hx text more _ _ rfl rfl
  -- left are sigils, the colon, the star and what starts a name or a number
  case h_5 => exact instanceName_cut hx text more start
  case h_6 => exact sigilName_cut hx text more start _ _ _
  case h_7 => exact colon_cut hx text more start (hc rfl)
  case h_10 =>
    simp only [head?_cut text more (hx.ne (by decide) (by decide) : '*' ≠ x),
      either_cut hx text more .star [('=', .starAssign)] rfl rfl]
  case h_27 =>
    simp only [number_cut hx, lowerName_cut hx, upperName_cut hx, wideName_cut hx]

/-- The token takes no more characters than there are. -/
def Fits (text : List Char) : Lexeme → Prop
  | .complete _ extra _ => extra ≤ text.length
  | _ => True

theorem fits_either (single : Punct) (text : List Char) (longer : List (Char × Punct)) :
    (either single text longer).Fits text := by
  cases text with
  | nil => exact Nat.le_refl _
  | cons c text =>
    unfold either
    split
    · exact Nat.succ_le_succ (Nat.zero_le _)
    · exact Nat.zero_le _

theorem fits_lowerName (c : Char) (text : List Char) : (lowerName c text).Fits text := by
  unfold lowerName
  dsimp only
  split <;> exact methodLength_le text

theorem fits_sigilName (start : Position) (sigil : Char) (what : String) (make : String → Kind)
    (text : List Char) : (sigilName start sigil what make text).Fits text := by
  unfold sigilName
  dsimp only
  split
  · exact Nat.zero_le _
  · exact wordLength_le text

theorem fits_instanceName (start : Position) (text : List Char) :
    (instanceName start text).Fits text := by
  unfold instanceName
  split
  · exact Nat.succ_le_succ (wordLength_le _)
  · exact fits_sigilName _ _ _ _ _

theorem fits_number (start : Position) (c : Char) (text : List Char) :
    (number start c text).Fits text := by
  have run : (text.takeWhile fun d => isDigit d || d = '_').length ≤ text.length :=
    (List.takeWhile_sublist _).length_le
  have fraction :=
    fractionLength_le (text.drop (text.takeWhile fun d => isDigit d || d = '_').length)
  rw [List.length_drop] at fraction
  unfold number
  dsimp only
  split <;> dsimp only [Fits, clean] <;> omega

theorem fits_colon (start : Position) (text : List Char) : (colon start text).Fits text := by
  unfold colon
  dsimp only
  split
  · trivial
  · exact Nat.succ_le_succ (Nat.zero_le _)
  · next inner =>
    have := doubleQuoted_le start ((start.step ':').step '"') inner
    show 1 + _ ≤ inner.length + 1
    omega
  · next c rest _ _ =>
    split
    · have method := methodLength_le (c :: rest)
      have writer := writerLength_le ((c :: rest).drop (methodLength (c :: rest)))
      rw [List.length_drop] at writer
      show _ + _ ≤ _
      omega
    · split
      · next name h =>
        have first := List.find?_some h
        exact (List.isPrefixOf_iff_prefix.mp first).length_le
      · trivial

theorem fits_ofChar (start : Position) (c : Char) (text : List Char) :
    (ofChar start c text).Fits text := by
  unfold ofChar
  split
  all_goals try first | exact Nat.zero_le _ | exact fits_either _ _ _
  -- left are quotes, sigils, the colon, the star and what starts a name or a number
  case h_3 => exact doubleQuoted_le _ _ _
  case h_4 => exact singleQuoted_le _ _ _
  case h_5 => exact fits_instanceName start text
  case h_6 => exact fits_sigilName start _ _ _ text
  case h_7 => exact fits_colon start text
  case h_10 =>
    split
    · next h =>
      cases text with
      | nil => exact absurd h nofun
      | cons c text => exact Nat.succ_le_succ (Nat.zero_le _)
    · exact fits_either _ _ _
  case h_27 =>
    split
    · exact fits_number start c text
    split
    · exact fits_lowerName c text
    split
    · exact wordLength_le text
    split
    · exact wordLength_le text
    · trivial

/-- The first token is a string or a symbol, and the other one says the same up to its text. -/
def Cuts (kind kind' : Kind) : Prop :=
  Alike kind kind' ∧ ¬ Parse.Plain kind

theorem Cuts.ne {kind kind' other : Kind} (h : Cuts kind kind') (hp : Parse.Plain other) :
    kind ≠ other ∧ kind' ≠ other := by
  have ne : kind ≠ other := by
    rintro rfl
    exact h.2 hp
  exact ⟨ne, fun he => ne ((h.1.eq_iff hp).mp he)⟩

/-- A string in what is left: so many characters come before the piece. -/
theorem quoted_cut (make : String → Kind) (hm : ∀ value value', Cuts (make value) (make value'))
    (length : Nat → Nat) {piece piece' : Piece} {inner : List Char} {kind : Kind} {extra : Nat}
    (h : complete (make piece.text) (length piece.length) piece.reports = .complete kind extra [])
    (cut : piece.reports = [] → piece = piece' ∨ piece'.StopsIn inner)
    (hl : length inner.length = text.length)
    (fits : (complete (make piece'.text) (length piece'.length) piece'.reports).Fits text) :
    (complete (make piece'.text) (length piece'.length) piece'.reports = .complete kind extra []
        ∧ extra ≤ text.length)
      ∨ ∃ kind' reports,
        complete (make piece'.text) (length piece'.length) piece'.reports
            = .complete kind' text.length reports
          ∧ Cuts kind kind' ∧ Unfinished reports := by
  obtain ⟨rfl, rfl, hr⟩ := complete.inj h
  rcases cut hr with rfl | ⟨hs, unfinished⟩
  · exact .inl ⟨h, fits⟩
  · exact .inr ⟨_, _, by rw [hs, hl], hm _ _, unfinished⟩

/-- A lexeme that has no faults before a line break is whole in what is left, or it is a string or a
symbol whose end is missing. -/
theorem ofChar_cut {more : List Char} {kind : Kind} {extra : Nat}
    (h : ofChar start c (text ++ '\n' :: more) = .complete kind extra []) :
    (ofChar start c text = .complete kind extra [] ∧ extra ≤ text.length)
      ∨ ∃ kind' reports, ofChar start c text = .complete kind' text.length reports
        ∧ Cuts kind kind' ∧ Unfinished reports := by
  have fits := fits_ofChar start c text
  by_cases hd : c = '"'
  · subst hd
    exact quoted_cut .str (fun _ _ => ⟨.str _ _, id⟩) id h (doubleQuoted_cut more) rfl fits
  by_cases hs : c = '\''
  · subst hs
    exact quoted_cut .str (fun _ _ => ⟨.str _ _, id⟩) id h (singleQuoted_cut more) rfl fits
  by_cases hc : c = ':' ∧ text.head? = some '"'
  · obtain ⟨rfl, hc⟩ := hc
    obtain ⟨inner, rfl⟩ := List.head?_eq_some_iff.mp hc
    exact quoted_cut .symbol (fun _ _ => ⟨.symbol _ _, id⟩) (1 + ·) h (doubleQuoted_cut more)
      (Nat.add_comm 1 _) fits
  · left
    have same : ofChar start c (text ++ '\n' :: more) = ofChar start c text :=
      ofChar_plain .feed more hd hs fun hc' h' => hc ⟨hc', h'⟩
    rw [← same, h] at fits
    exact ⟨same ▸ h, fits⟩

end Lexeme

end ScriptCompiler.Token
