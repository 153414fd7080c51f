import Mathlib.Algebra.GroupWithZero.Nat
import ScriptCompiler.Proofs.Continuation.Scanning
import ScriptCompiler.Proofs.Scanning.Cap
import ScriptCompiler.Proofs.Text.Lines

/-!
# Line ends of two characters

A text is scanned with its line feeds, and again with a carriage return in front of each of them.
The scanner skips a carriage return as it skips a blank, so both texts have the same tokens and the
same faults as long as their literals stay on their lines. An escaped line break is the exception:
the backslash stands before the carriage return then, and is reported.
-/

namespace ScriptCompiler

namespace Token

/-- The text with a carriage return in front of every line feed. -/
def withReturns : List Char → List Char
  | [] => []
  | c :: rest => if c = '\n' then '\r' :: '\n' :: withReturns rest else c :: withReturns rest

section WithReturns

variable {text : List Char} {c : Char}

@[simp] theorem withReturns_nil : withReturns [] = [] := rfl

@[simp] theorem withReturns_feed (rest : List Char) :
    withReturns ('\n' :: rest) = '\r' :: '\n' :: withReturns rest :=
  if_pos rfl

theorem withReturns_cons (h : c ≠ '\n') (rest : List Char) :
    withReturns (c :: rest) = c :: withReturns rest :=
  if_neg h

theorem withReturns_append (xs ys : List Char) :
    withReturns (xs ++ ys) = withReturns xs ++ withReturns ys := by
  induction xs with
  | nil => rfl
  | cons c xs ih =>
    by_cases h : c = '\n'
    · subst h
      rw [List.cons_append, withReturns_feed, withReturns_feed, ih]
      rfl
    · rw [List.cons_append, withReturns_cons h, withReturns_cons h, ih]
      rfl

theorem withReturns_line (h : '\n' ∉ text) : withReturns text = text := by
  induction text with
  | nil => rfl
  | cons c text ih =>
    rw [List.mem_cons, not_or] at h
    rw [withReturns_cons (Ne.symm h.1), ih h.2]

/-- A text is one line, or it has a first line and more after it. -/
theorem line_cases (text : List Char) :
    '\n' ∉ text ∨ ∃ line more, text = line ++ '\n' :: more ∧ '\n' ∉ line := by
  by_cases h : '\n' ∈ text
  · exact .inr (List.eq_append_cons_of_mem h)
  · exact .inl h

theorem withReturns_lines {line : List Char} (h : '\n' ∉ line) (more : List Char) :
    withReturns (line ++ '\n' :: more) = line ++ '\r' :: '\n' :: withReturns more := by
  rw [withReturns_append, withReturns_line h, withReturns_feed]

theorem split_at_line {n : Nat} (h : '\n' ∉ text.take n) :
    (withReturns text).take n = text.take n
      ∧ (withReturns text).drop n = withReturns (text.drop n) := by
  induction n generalizing text with
  | zero => exact ⟨rfl, rfl⟩
  | succ n ih =>
    cases text with
    | nil => exact ⟨rfl, rfl⟩
    | cons c text =>
      rw [List.take_succ_cons, List.mem_cons, not_or] at h
      obtain ⟨take, drop⟩ := ih h.2
      rw [withReturns_cons (Ne.symm h.1), List.take_succ_cons, List.take_succ_cons, take,
        List.drop_succ_cons, List.drop_succ_cons, drop]
      exact ⟨rfl, rfl⟩

end WithReturns

/-! ## Lines that messages quote -/

theorem dropReturns_concat (line : List Char) :
    Text.dropReturns (line ++ ['\r']) = Text.dropReturns line := by
  simp [Text.dropReturns]

theorem split_withReturns (text : List Char) :
    (Text.split (withReturns text)).map Text.dropReturns
      = (Text.split text).map Text.dropReturns := by
  -- on the length of the text: the lines after the first one make a shorter text
  induction hn : text.length using Nat.strong_induction_on generalizing text with
  | _ n ih =>
    subst hn
    rcases line_cases text with line | ⟨line, more, rfl, h⟩
    · rw [withReturns_line line]
    · have shorter : more.length < (line ++ '\n' :: more).length := by
        rw [List.length_append, List.length_cons]
        omega
      have back : '\n' ∉ line ++ ['\r'] := by
        rw [List.mem_append, List.mem_singleton]
        exact not_or.mpr ⟨h, by decide⟩
      have lines : withReturns (line ++ '\n' :: more)
          = (line ++ ['\r']) ++ '\n' :: withReturns more := by
        rw [withReturns_lines h, List.append_assoc]
        rfl
      have after : (Text.split (withReturns more)).map Text.dropReturns
          = (Text.split more).map Text.dropReturns := ih _ shorter more rfl
      rw [lines, Text.split, Text.split, Text.splitAt_append, Text.splitAt_append,
        Text.splitAt_of_not_mem h, Text.splitAt_of_not_mem back, List.map_append, List.map_append,
        List.map_singleton, List.map_singleton, dropReturns_concat]
      exact congrArg (_ ++ ·) after

/-- A fault at a place is the same diagnostic in both files. -/
theorem diagnose_withReturns (name source : String) :
    (SourceFile.ofText name (String.ofList (withReturns source.toList))).diagnose
      = (SourceFile.ofText name source).diagnose := by
  let file := SourceFile.ofText name source
  let file' := SourceFile.ofText name (String.ofList (withReturns source.toList))
  have lines : file'.lines = file.lines := by
    have h := congrArg (List.map String.ofList) (split_withReturns source.toList)
    rw [List.map_map, List.map_map] at h
    simp only [file, file', SourceFile.ofText, String.toList_ofList]
    exact h
  have line? (n : Nat) : file'.line? n = file.line? n := by
    cases n with
    | zero => rfl
    | succ n => exact congrArg (·[n]?) lines
  funext report
  show file'.diagnose report = file.diagnose report
  simp only [SourceFile.diagnose, line?]
  rfl

/-! ## Lexemes -/

section Strings

variable {start here : Position} {text : List Char} {x : Char}

/-- A string that ends in the text reads nothing of what comes after its line. -/
theorem doubleQuoted_stop (hx : EndsLine x) (more other : List Char)
    (h : (doubleQuoted start here (text ++ '\n' :: more)).length ≤ text.length) :
    doubleQuoted start here (text ++ x :: other)
      = doubleQuoted start here (text ++ '\n' :: more) := by
  fun_induction doubleQuoted start here text with
  | case1 here =>
    rw [List.nil_append, doubleQuoted] at h
    · exact absurd h (Nat.not_le.mpr (Nat.lt_of_lt_of_le Nat.zero_lt_one (Nat.le_add_right 1 _)))
    all_goals decide
  | case2 => rw [List.cons_append, List.cons_append, doubleQuoted, doubleQuoted]
  | case3 here rest piece length ih =>
    simp only [List.cons_append] at h ⊢
    rw [doubleQuoted] at h ⊢
    by_cases hr : rest = []
    · -- the backslash would escape the line break, which is part of the string then
      subst hr
      have long : 1 + 1 + _ ≤ 0 + 1 := h
      omega
    · have le : length ≤ rest.length := escape_le here rest
      rw [doubleQuoted]
      rw [escape_cut .feed here more hr, List.take_append_of_le_length le,
        List.drop_append_of_le_length le] at h ⊢
      rw [escape_cut hx here other hr, List.take_append_of_le_length le,
        List.drop_append_of_le_length le, ih]
      have long : length + 1 + _ ≤ rest.length + 1 := h
      rw [List.length_drop]
      omega
  | case4 here rest reports ih =>
    simp only [List.cons_append] at h ⊢
    rw [doubleQuoted] at h ⊢
    have long : 1 + _ ≤ rest.length + 1 := h
    rw [doubleQuoted, ih (by omega)]
    simp only [head?_cut rest more (by decide : '\x7b' ≠ '\n'),
      head?_cut rest other (hx.ne (by decide) (by decide) : '\x7b' ≠ x)]
  | case5 here c rest hq hs hn ih =>
    simp only [List.cons_append] at h ⊢
    rw [doubleQuoted] at h ⊢
    · have long : 1 + _ ≤ rest.length + 1 := h
      rw [doubleQuoted, ih (by omega)]
      all_goals assumption
    all_goals assumption

theorem singleQuoted_stop (hx : EndsLine x) (more other : List Char)
    (h : (singleQuoted start here (text ++ '\n' :: more)).length ≤ text.length) :
    singleQuoted start here (text ++ x :: other)
      = singleQuoted start here (text ++ '\n' :: more) := by
  fun_induction singleQuoted start here text with
  | case1 here =>
    rw [List.nil_append, singleQuoted] at h
    · exact absurd h (Nat.not_le.mpr (Nat.lt_of_lt_of_le Nat.zero_lt_one (Nat.le_add_right 1 _)))
    all_goals simp
  | case2 => rw [List.cons_append, List.cons_append, singleQuoted, singleQuoted]
  | case3 here rest ih =>
    simp only [List.cons_append] at h ⊢
    rw [singleQuoted] at h ⊢
    have long : 2 + _ ≤ rest.length + 2 := h
    rw [singleQuoted, ih (by omega)]
  | case4 here rest ih =>
    simp only [List.cons_append] at h ⊢
    rw [singleQuoted] at h ⊢
    have long : 2 + _ ≤ rest.length + 2 := h
    rw [singleQuoted, ih (by omega)]
  | case5 here c rest hq hs hn ih =>
    rw [List.cons_append, List.cons_append, singleQuoted_cons_cut hx other hq hs hn]
    rw [List.cons_append, singleQuoted_cons_cut .feed more hq hs hn] at h
    have long : 1 + _ ≤ rest.length + 1 := h
    rw [singleQuoted_cons_cut .feed more hq hs hn, ih (by omega)]

end Strings

namespace Lexeme

/-- The character starts a string, or a symbol in quotes. -/
def quotes (c : Char) (rest : List Char) : Bool :=
  c = '"' || c = '\'' || (c = ':' && rest.head? = some '"')

/-- The characters after the first one that the lexeme takes. -/
def taken (rest : List Char) : Lexeme → List Char
  | .complete _ extra _ => rest.take extra
  | _ => []

variable {start : Position} {c : Char}

theorem fits_of_taken {line more : List Char} {l : Lexeme}
    (h : '\n' ∉ l.taken (line ++ '\n' :: more)) : l.Fits line := by
  cases l with
  | complete kind extra reports =>
    show extra ≤ line.length
    by_contra long
    rw [taken, List.take_append, List.take_of_length_le (by omega)] at h
    obtain ⟨n, hn⟩ : ∃ n, extra - line.length = n + 1 := ⟨_, (Nat.succ_pred (by omega)).symm⟩
    rw [hn, List.take_succ_cons] at h
    exact h (List.mem_append_right _ List.mem_cons_self)
  | unknown report => trivial
  | strayColon report => trivial

theorem taken_of_fits {line more : List Char} {l : Lexeme} (h : l.Fits line) (hl : '\n' ∉ line) :
    '\n' ∉ l.taken (line ++ '\n' :: more) := by
  cases l with
  | complete kind extra reports =>
    rw [taken, List.take_append_of_le_length h]
    exact fun hm => hl (List.mem_of_mem_take hm)
  | unknown report => exact List.not_mem_nil
  | strayColon report => exact List.not_mem_nil

/-- A lexeme that ends on its line is read alike before a line feed and a carriage return. -/
theorem ofChar_stop {x : Char} (hx : EndsLine x) {text : List Char} (more other : List Char)
    (h : quotes c (text ++ '\n' :: more) = true
      → (ofChar start c (text ++ '\n' :: more)).Fits text) :
    ofChar start c (text ++ x :: other) = ofChar start c (text ++ '\n' :: more)
      ∧ (ofChar start c (text ++ '\n' :: more)).Fits text := by
  by_cases hd : c = '"'
  · subst hd
    have fits := h rfl
    refine ⟨?_, fits⟩
    simp only [ofChar, doubleQuoted_stop hx more other fits]
  by_cases hs : c = '\''
  · subst hs
    have fits := h rfl
    refine ⟨?_, fits⟩
    simp only [ofChar, singleQuoted_stop hx more other fits]
  by_cases hc : c = ':' ∧ text.head? = some '"'
  · obtain ⟨rfl, hc⟩ := hc
    obtain ⟨inner, rfl⟩ := List.head?_eq_some_iff.mp hc
    have fits := h rfl
    refine ⟨?_, fits⟩
    have fits' : 1 + (doubleQuoted start ((start.step ':').step '"')
        (inner ++ '\n' :: more)).length ≤ inner.length + 1 := fits
    have inside : (doubleQuoted start ((start.step ':').step '"')
        (inner ++ '\n' :: more)).length ≤ inner.length := by omega
    simp only [ofChar, List.cons_append, colon, doubleQuoted_stop hx more other inside]
  · have plain : c = ':' → text.head? ≠ some '"' := fun hc' h' => hc ⟨hc', h'⟩
    rw [ofChar_plain hx other hd hs plain, ofChar_plain .feed more hd hs plain]
    exact ⟨rfl, fits_ofChar start c text⟩

/-- A lexeme whose literal stays on its line is the same with other line ends, and takes no line
break. -/
theorem ofChar_withReturns {rest : List Char}
    (h : quotes c rest = true → '\n' ∉ (ofChar start c rest).taken rest) :
    ofChar start c (withReturns rest) = ofChar start c rest
      ∧ '\n' ∉ (ofChar start c rest).taken rest := by
  rcases line_cases rest with line | ⟨line, more, rfl, hl⟩
  · rw [withReturns_line line]
    refine ⟨rfl, ?_⟩
    cases ofChar start c rest with
    | complete kind extra reports => exact fun hm => line (List.mem_of_mem_take hm)
    | unknown report => exact List.not_mem_nil
    | strayColon report => exact List.not_mem_nil
  · rw [withReturns_lines hl]
    obtain ⟨same, fits⟩ := ofChar_stop (.inr rfl) more ('\n' :: withReturns more)
      fun hq => fits_of_taken (h hq)
    exact ⟨same, taken_of_fits fits hl⟩

end Lexeme

/-! ## What is skipped -/

/-- How many escaped line breaks are skipped before the next token. -/
def joins : List Char → Nat
  | '\\' :: '\n' :: rest => joins rest + 1
  | '#' :: _ => 0
  | c :: rest => if c = ' ' || c = '\t' || c = '\r' then joins rest else 0
  | [] => 0

section Trivia

variable {text : List Char} {c : Char} {rest : List Char}

theorem joins_cons (hc : c ≠ '#') (hs : ∀ r, c = '\\' → rest ≠ '\n' :: r) :
    joins (c :: rest) = if c = ' ' || c = '\t' || c = '\r' then joins rest else 0 := by
  rw [joins]
  · exact hs
  · exact hc

theorem triviaLength_blank (hc : (c = ' ' || c = '\t' || c = '\r') = true) :
    triviaLength (c :: rest) = triviaLength rest + 1 := by
  rw [triviaLength_cons, if_pos hc]
  · rintro rfl
    exact absurd hc (by decide)
  · rintro rfl
    exact absurd hc (by decide)

theorem triviaLength_stop (hc : c ≠ '#') (hs : ∀ r, c = '\\' → rest ≠ '\n' :: r)
    (hb : ¬ (c = ' ' || c = '\t' || c = '\r') = true) : triviaLength (c :: rest) = 0 := by
  rw [triviaLength_cons hc, if_neg hb]
  rintro rfl head
  obtain ⟨r, hr⟩ := List.head?_eq_some_iff.mp head
  exact hs r rfl hr

theorem ne_feed_of_blank (hc : (c = ' ' || c = '\t' || c = '\r') = true) : c ≠ '\n' := by
  rintro rfl
  exact absurd hc (by decide)

/-- Without an escaped line break nothing that is skipped has a line break in it. -/
theorem not_mem_trivia (h : joins text = 0) : '\n' ∉ text.take (triviaLength text) := by
  fun_induction triviaLength text with
  | case1 rest ih => cases h
  | case2 rest =>
    have comment : rest.take (rest.takeWhile (· ≠ '\n')).length = rest.takeWhile (· ≠ '\n') :=
      (List.prefix_iff_eq_take.mp (List.takeWhile_prefix _)).symm
    rw [List.take_succ_cons, List.mem_cons, not_or, comment]
    refine ⟨by decide, fun hm => ?_⟩
    have := List.mem_takeWhile_imp hm
    simp at this
  | case3 c rest hs hc blank ih =>
    rw [joins_cons hc hs, if_pos blank] at h
    rw [List.take_succ_cons, List.mem_cons, not_or]
    exact ⟨(ne_feed_of_blank blank).symm, ih h⟩
  | case4 => exact List.not_mem_nil
  | case5 => exact List.not_mem_nil

/-- As much is skipped in both texts, and the carriage return if a line break comes next. -/
theorem triviaLength_withReturns (h : joins text = 0) :
    triviaLength (withReturns text) = triviaLength text
      + if (text.drop (triviaLength text)).head? = some '\n' then 1 else 0 := by
  fun_induction triviaLength text with
  | case1 rest ih => cases h
  | case2 rest =>
    rw [withReturns_cons (by decide), triviaLength, List.drop_succ_cons]
    rcases line_cases rest with line | ⟨line, more, rfl, hl⟩
    · rw [withReturns_line line, takeWhile_oneLine line, List.drop_length]
      rfl
    · have whole := takeWhile_oneLine hl
      have long : (line ++ '\r' :: '\n' :: withReturns more).takeWhile (· ≠ '\n')
          = line ++ ['\r'] := by
        rw [List.takeWhile_append, if_pos (congrArg List.length whole)]
        rfl
      rw [withReturns_lines hl, long, takeWhile_cut line more (by decide), whole, List.drop_left,
        List.head?_cons, if_pos rfl, List.length_append]
      rfl
  | case3 c rest hs hc blank ih =>
    rw [joins_cons hc hs, if_pos blank] at h
    rw [withReturns_cons (ne_feed_of_blank blank), triviaLength_blank blank, ih h,
      List.drop_succ_cons]
    omega
  | case4 c rest hs hc blank =>
    rw [List.drop_zero, List.head?_cons]
    by_cases feed : c = '\n'
    · subst feed
      rw [withReturns_feed, if_pos rfl, triviaLength_blank rfl]
      rfl
    · rw [if_neg fun he => feed (Option.some.inj he), withReturns_cons feed]
      refine triviaLength_stop hc (fun r hc' hr => ?_) blank
      -- behind a backslash there is no line feed: not in the text, so not in the other one
      cases rest with
      | nil => cases hr
      | cons d rest =>
        by_cases hd : d = '\n'
        · exact hs rest hc' (congrArg (· :: rest) hd)
        · rw [withReturns_cons hd] at hr
          exact hd (List.cons.inj hr).1
  | case5 => rfl

end Trivia

/-! ## The next token -/

/-- The place in the text with carriage returns. -/
def Cursor.withReturns (cursor : Cursor) : Cursor :=
  ⟨cursor.position, Token.withReturns cursor.rest⟩

/-- The characters of the string or the quoted symbol that comes next, behind the first one. -/
def literal (cursor : Cursor) : List Char :=
  match cursor.rest.drop (triviaLength cursor.rest) with
  | [] => []
  | c :: rest =>
    if Lexeme.quotes c rest then
      (Lexeme.ofChar (tokenPlace cursor.position cursor.rest) c rest).taken rest
    else []

section Next

variable {cursor : Cursor} {text : List Char} {c : Char} {rest : List Char}

theorem literal_cons (h : cursor.rest.drop (triviaLength cursor.rest) = c :: rest)
    (oneLine : '\n' ∉ literal cursor) (quotes : Lexeme.quotes c rest = true) :
    '\n' ∉ (Lexeme.ofChar (tokenPlace cursor.position cursor.rest) c rest).taken rest := by
  rw [literal, h] at oneLine
  dsimp only at oneLine
  rwa [if_pos quotes] at oneLine

/-- Where a token starts in the text with carriage returns, if it is no line feed. -/
theorem start_withReturns (place : Position) (h : text.drop (triviaLength text) = c :: rest)
    (whole : joins text = 0) (hc : c ≠ '\n') :
    (withReturns text).drop (triviaLength (withReturns text)) = c :: withReturns rest
      ∧ tokenPlace place (withReturns text) = tokenPlace place text := by
  have same : triviaLength (withReturns text) = triviaLength text := by
    rw [triviaLength_withReturns whole, h, List.head?_cons,
      if_neg fun he => hc (Option.some.inj he)]
    rfl
  obtain ⟨take, drop⟩ := split_at_line (not_mem_trivia whole)
  constructor
  · rw [same, drop, h, withReturns_cons hc]
  · rw [tokenPlace, same, take, tokenPlace]

/-- A line feed comes one character later. -/
theorem start_feed (place : Position) (h : text.drop (triviaLength text) = '\n' :: rest)
    (whole : joins text = 0) :
    (withReturns text).drop (triviaLength (withReturns text)) = '\n' :: withReturns rest
      ∧ tokenPlace place (withReturns text) = (tokenPlace place text).step '\r' := by
  have more : triviaLength (withReturns text) = triviaLength text + 1 := by
    rw [triviaLength_withReturns whole, h]
    rfl
  obtain ⟨take, drop⟩ := split_at_line (not_mem_trivia whole)
  have after : (withReturns text).drop (triviaLength text) = '\r' :: '\n' :: withReturns rest := by
    rw [drop, h, withReturns_feed]
  constructor
  · rw [more, ← List.drop_drop, after]
    rfl
  · have skipped : (withReturns text).take (triviaLength text + 1)
        = text.take (triviaLength text) ++ ['\r'] := by
      rw [List.take_add, take, after]
      rfl
    rw [tokenPlace, more, skipped, Position.past_append]
    rfl

theorem step_feed (place : Position) : (place.step '\r').step '\n' = place.step '\n' := rfl

/-- Both texts have the same next token, as far as its kind goes, and the same faults before it. -/
theorem next_withReturns
    (plain : ∀ place ∈ calls cursor, '\n' ∉ literal place ∧ joins place.rest = 0) :
    (next cursor.withReturns).token.kind = (next cursor).token.kind
      ∧ (next cursor.withReturns).reports = (next cursor).reports
      ∧ (next cursor.withReturns).after = (next cursor).after.withReturns := by
  fun_induction calls cursor with
  | case1 cursor skipped h =>
    -- what is skipped is the whole text, which is one line
    have whole := not_mem_trivia (plain cursor List.mem_cons_self).2
    rw [List.take_of_length_le (List.drop_eq_nil_iff.mp h)] at whole
    have same : cursor.withReturns = cursor := congrArg (Cursor.mk _) (withReturns_line whole)
    rw [same, next_nil h]
    exact ⟨rfl, rfl, rfl⟩
  | case2 cursor skipped here c rest h kind extra reports hl =>
    obtain ⟨oneLine, whole⟩ := plain cursor List.mem_cons_self
    rw [next_complete h hl]
    by_cases hc : c = '\n'
    · subst hc
      obtain ⟨rfl, rfl, rfl⟩ := Lexeme.complete.inj hl
      obtain ⟨start, place⟩ := start_feed cursor.position h whole
      rw [Cursor.withReturns, next_complete start rfl, place]
      exact ⟨rfl, rfl, rfl⟩
    · obtain ⟨start, place⟩ := start_withReturns cursor.position h whole hc
      obtain ⟨same, inside⟩ := Lexeme.ofChar_withReturns (literal_cons h oneLine)
      have hl' : Lexeme.ofChar (tokenPlace cursor.position cursor.rest) c rest
          = .complete kind extra reports := hl
      rw [hl'] at inside
      obtain ⟨take, drop⟩ := split_at_line inside
      rw [Cursor.withReturns, next_complete start (place ▸ same.trans hl), place, take, drop]
      exact ⟨rfl, rfl, rfl⟩
  | case3 cursor skipped here c rest h report hl ih =>
    obtain ⟨oneLine, whole⟩ := plain cursor List.mem_cons_self
    have hc : c ≠ '\n' := by
      rintro rfl
      cases hl
    obtain ⟨start, place⟩ := start_withReturns cursor.position h whole hc
    have same := (Lexeme.ofChar_withReturns (literal_cons h oneLine)).1
    obtain ⟨kind, reports, after⟩ := ih fun place hp => plain place (List.mem_cons_of_mem _ hp)
    rw [next_unknown h hl, Cursor.withReturns, next_unknown start (place ▸ same.trans hl), place]
    exact ⟨kind, congrArg (report :: ·) reports, after⟩
  | case4 cursor skipped here c rest h report hl ih =>
    obtain ⟨oneLine, whole⟩ := plain cursor List.mem_cons_self
    have hc : c ≠ '\n' := by
      rintro rfl
      cases hl
    obtain ⟨start, place⟩ := start_withReturns cursor.position h whole hc
    have same := (Lexeme.ofChar_withReturns (literal_cons h oneLine)).1
    have hl' : Lexeme.ofChar (tokenPlace cursor.position cursor.rest) c rest
        = .strayColon report := hl
    obtain ⟨kind, reports, after⟩ := ih fun place hp => plain place (List.mem_cons_of_mem _ hp)
    rw [next_cons h, hl', Cursor.withReturns, next_cons start, place, same, hl']
    exact ⟨kind, congrArg (report :: ·) reports, after⟩

end Next

/-! ## All tokens -/

/-- The places of a source file where the scanner is called for a token. -/
def places (file : SourceFile) : List Cursor :=
  (looks file).flatMap fun l => calls l.place

theorem scanFrom_withReturns {file file' : SourceFile} (same : file'.diagnose = file.diagnose)
    {last : Option Kind} {log : Log} {cursor : Cursor}
    (plain : ∀ l ∈ looksFrom file log cursor, ∀ place ∈ calls l.place,
      '\n' ∉ literal place ∧ joins place.rest = 0) :
    (scanFrom file' last log cursor.withReturns).tokens.map (·.kind)
        = (scanFrom file last log cursor).tokens.map (·.kind)
      ∧ (scanFrom file' last log cursor.withReturns).log = (scanFrom file last log cursor).log := by
  fun_induction scanFrom file last log cursor with
  | case1 last log cursor full =>
    rw [scanFrom, if_pos full]
    exact ⟨rfl, rfl⟩
  | case2 last log cursor room found log' stops =>
    rw [looksFrom_stop (eq_false_of_ne_true room) stops] at plain
    obtain ⟨kind, reports, after⟩ := next_withReturns (plain _ List.mem_cons_self)
    rw [scanFrom, if_neg room]
    dsimp only
    rw [dif_pos (kind.trans stops), reports, same]
    exact ⟨congrArg ([·]) kind, rfl⟩
  | case3 last log cursor room found log' goes drops ih =>
    rw [looksFrom_token (eq_false_of_ne_true room) goes] at plain
    obtain ⟨kind, reports, after⟩ := next_withReturns (plain _ List.mem_cons_self)
    rw [scanFrom, if_neg room]
    dsimp only
    rw [dif_neg (kind ▸ goes), if_pos (kind ▸ drops), reports, same, after]
    exact ih fun l hl => plain l (List.mem_cons_of_mem _ hl)
  | case4 last log cursor room found log' goes keeps others ih =>
    rw [looksFrom_token (eq_false_of_ne_true room) goes] at plain
    obtain ⟨kind, reports, after⟩ := next_withReturns (plain _ List.mem_cons_self)
    rw [scanFrom, if_neg room]
    dsimp only
    rw [dif_neg (kind ▸ goes), if_neg (kind ▸ keeps), reports, same, after, kind]
    obtain ⟨tokens, logs⟩ := ih fun l hl => plain l (List.mem_cons_of_mem _ hl)
    exact ⟨congrArg₂ List.cons kind tokens, logs⟩

/-! ## Faults at escaped line breaks -/

/-- How many faults there are from a place on, if the scanner does not stop before the end. -/
def faultsFrom (cursor : Cursor) : Nat :=
  let here := tokenPlace cursor.position cursor.rest
  match _h : cursor.rest.drop (triviaLength cursor.rest) with
  | [] => 0
  | c :: rest =>
    match Lexeme.ofChar here c rest with
    | .complete _ extra reports =>
      reports.length + faultsFrom ⟨here.past (c :: rest.take extra), rest.drop extra⟩
    | .unknown _ => 1 + faultsFrom ⟨here.step c, rest⟩
    | .strayColon _ => 1 + faultsFrom ⟨here.step c, rest⟩
termination_by cursor.rest.length
decreasing_by
  all_goals
    have := congrArg List.length _h
    simp only [List.length_drop, List.length_cons] at this ⊢
    omega

section Faults

variable {place place' : Position} {text text' : List Char} {c : Char} {rest : List Char}

theorem faultsFrom_nil (h : text.drop (triviaLength text) = []) : faultsFrom ⟨place, text⟩ = 0 := by
  rw [faultsFrom]
  split
  · rfl
  · next c rest h' =>
    rw [h] at h'
    cases h'

theorem faultsFrom_cons (h : text.drop (triviaLength text) = c :: rest) :
    faultsFrom ⟨place, text⟩ =
      match Lexeme.ofChar (tokenPlace place text) c rest with
      | .complete _ extra reports =>
        reports.length
          + faultsFrom ⟨(tokenPlace place text).past (c :: rest.take extra), rest.drop extra⟩
      | .unknown _ => 1 + faultsFrom ⟨(tokenPlace place text).step c, rest⟩
      | .strayColon _ => 1 + faultsFrom ⟨(tokenPlace place text).step c, rest⟩ := by
  rw [faultsFrom]
  split
  · next h' =>
    rw [h] at h'
    cases h'
  · next c' rest' h' =>
    rw [h] at h'
    obtain ⟨rfl, rfl⟩ := List.cons.inj h'
    rfl

/-- What is skipped before a token does not matter. -/
theorem faultsFrom_congr (drop : text.drop (triviaLength text) = text'.drop (triviaLength text'))
    (start : tokenPlace place text = tokenPlace place' text') :
    faultsFrom ⟨place, text⟩ = faultsFrom ⟨place', text'⟩ := by
  cases h : text'.drop (triviaLength text') with
  | nil => rw [faultsFrom_nil h, faultsFrom_nil (drop.trans h)]
  | cons c rest => rw [faultsFrom_cons h, faultsFrom_cons (drop.trans h), start]

theorem faultsFrom_blank (hc : (c = ' ' || c = '\t' || c = '\r') = true) :
    faultsFrom ⟨place, c :: rest⟩ = faultsFrom ⟨place.step c, rest⟩ := by
  refine faultsFrom_congr ?_ ?_
  · rw [triviaLength_blank hc, List.drop_succ_cons]
  · rw [tokenPlace, triviaLength_blank hc, List.take_succ_cons]
    rfl

theorem faultsFrom_feed :
    faultsFrom ⟨place, '\n' :: rest⟩ = faultsFrom ⟨place.step '\n', rest⟩ := by
  have h : ('\n' :: rest).drop (triviaLength ('\n' :: rest)) = '\n' :: rest := rfl
  rw [faultsFrom_cons h]
  exact Nat.zero_add _

/-- The faults of a text without carriage returns, up to its next token and from there on. -/
theorem faultsFrom_next (cursor : Cursor) :
    faultsFrom cursor = (next cursor).reports.length
      + if (next cursor).token.kind = .endOfInput then 0 else faultsFrom (next cursor).after := by
  fun_induction faultsFrom cursor with
  | case1 cursor h =>
    rw [next_nil h]
    rfl
  | case2 cursor here c rest h kind extra reports hl =>
    have goes : Lexeme.Says (· ≠ .endOfInput) (.complete kind extra reports) :=
      hl ▸ Lexeme.ofChar_ne_end
    rw [next_complete h hl, if_neg goes]
  | case3 cursor here c rest h report hl ih =>
    rw [next_unknown h hl, ih]
    exact (Nat.add_assoc 1 _ _).symm.trans (congrArg (· + _) (Nat.add_comm 1 _))
  | case4 cursor here c rest h report hl ih =>
    have hl' : Lexeme.ofChar (tokenPlace cursor.position cursor.rest) c rest
        = .strayColon report := hl
    rw [next_cons h, hl', ih]
    exact (Nat.add_assoc 1 _ _).symm.trans (congrArg (· + _) (Nat.add_comm 1 _))

/-- A comment is skipped up to the end of its line. -/
theorem faultsFrom_comment {line : List Char} (h : '\n' ∉ line) (more : List Char) :
    faultsFrom ⟨place, '#' :: (line ++ '\r' :: '\n' :: more)⟩
      = faultsFrom ⟨place.past ('#' :: line), '\r' :: '\n' :: more⟩ := by
  have oneLine : '\n' ∉ line ++ ['\r'] := by
    rw [List.mem_append, List.mem_singleton]
    exact not_or.mpr ⟨h, by decide⟩
  have whole : line ++ '\r' :: '\n' :: more = (line ++ ['\r']) ++ '\n' :: more := by
    rw [List.append_assoc]
    rfl
  have skipped : triviaLength ('#' :: (line ++ '\r' :: '\n' :: more))
      = ('#' :: (line ++ ['\r'])).length := by
    rw [triviaLength, whole, takeWhile_cut _ more (by decide), takeWhile_oneLine oneLine]
    rfl
  have text : '#' :: (line ++ '\r' :: '\n' :: more) = '#' :: (line ++ ['\r']) ++ '\n' :: more :=
    congrArg ('#' :: ·) whole
  refine faultsFrom_congr ?_ ?_
  · rw [skipped, text, List.drop_left]
    rfl
  · rw [tokenPlace, skipped, text, List.take_left, ← List.cons_append, Position.past_append]
    rfl

/-- With carriage returns there is one fault for each escaped line break that is skipped. -/
theorem faultsFrom_trivia (place : Position) (text : List Char) :
    faultsFrom ⟨place, withReturns text⟩ = joins text
      + faultsFrom ⟨tokenPlace place text, withReturns (text.drop (triviaLength text))⟩ := by
  unfold tokenPlace
  fun_induction triviaLength text generalizing place with
  | case1 rest ih =>
    -- the backslash is reported, and the line break behind it is a token
    have start : ('\\' :: '\r' :: '\n' :: withReturns rest).drop
        (triviaLength ('\\' :: '\r' :: '\n' :: withReturns rest))
          = '\\' :: '\r' :: '\n' :: withReturns rest := rfl
    have unknown : faultsFrom ⟨place, '\\' :: '\r' :: '\n' :: withReturns rest⟩
        = 1 + faultsFrom ⟨place.step '\\', '\r' :: '\n' :: withReturns rest⟩ :=
      faultsFrom_cons start
    rw [withReturns_cons (by decide), withReturns_feed, unknown, faultsFrom_blank rfl,
      faultsFrom_feed, ih, joins, ← Nat.add_assoc, Nat.add_comm 1]
    rfl
  | case2 rest =>
    rw [withReturns_cons (by decide), joins, Nat.zero_add, List.drop_succ_cons, List.take_succ_cons]
    rcases line_cases rest with line | ⟨line, more, rfl, hl⟩
    · have skipped : ('#' :: rest).drop (triviaLength ('#' :: rest)) = [] := by
        rw [triviaLength, takeWhile_oneLine line, List.drop_succ_cons, List.drop_length]
      rw [withReturns_line line, faultsFrom_nil skipped, takeWhile_oneLine line, List.drop_length]
      exact (faultsFrom_nil rfl).symm
    · rw [withReturns_lines hl, faultsFrom_comment hl, takeWhile_cut line more (by decide),
        takeWhile_oneLine hl, List.drop_left, List.take_left, withReturns_feed]
  | case3 c rest hs hc blank ih =>
    rw [withReturns_cons (ne_feed_of_blank blank), faultsFrom_blank blank, ih, joins_cons hc hs,
      if_pos blank]
    rfl
  | case4 c rest hs hc blank =>
    rw [joins_cons hc hs, if_neg blank, Nat.zero_add]
    rfl
  | case5 => exact (Nat.zero_add _).symm

end Faults

/-- Nothing is skipped twice. -/
theorem triviaLength_drop (text : List Char) :
    triviaLength (text.drop (triviaLength text)) = 0 := by
  fun_induction triviaLength text with
  | case1 rest ih => exact ih
  | case2 rest =>
    rw [List.drop_succ_cons]
    rcases line_cases rest with line | ⟨line, more, rfl, hl⟩
    · rw [takeWhile_oneLine line, List.drop_length]
      rfl
    · rw [takeWhile_cut line more (by decide), takeWhile_oneLine hl, List.drop_left]
      rfl
  | case3 c rest hs hc blank ih => exact ih
  | case4 c rest hs hc blank =>
    exact triviaLength_stop hc hs blank
  | case5 => rfl

theorem joins_of_stop {text : List Char} (h : triviaLength text = 0) : joins text = 0 := by
  fun_induction joins text with
  | case1 rest ih => cases h
  | case2 => rfl
  | case3 c rest hs hc blank ih =>
    rw [triviaLength_blank blank] at h
    cases h
  | case4 => rfl
  | case5 => rfl

section Faults

variable {cursor : Cursor} {file : SourceFile} {last : Option Kind} {log : Log}

theorem faultsFrom_start {c : Char} {rest : List Char} (place : Position)
    (starts : triviaLength (c :: rest) = 0)
    (oneLine : Lexeme.quotes c rest = true → '\n' ∉ (Lexeme.ofChar place c rest).taken rest) :
    faultsFrom ⟨place, withReturns (c :: rest)⟩ =
      match Lexeme.ofChar place c rest with
      | .complete _ extra reports =>
        reports.length
          + faultsFrom ⟨place.past (c :: rest.take extra), withReturns (rest.drop extra)⟩
      | .unknown _ => 1 + faultsFrom ⟨place.step c, withReturns rest⟩
      | .strayColon _ => 1 + faultsFrom ⟨place.step c, withReturns rest⟩ := by
  by_cases hc : c = '\n'
  · subst hc
    rw [withReturns_feed, faultsFrom_blank rfl, faultsFrom_feed, step_feed]
    exact (Nat.zero_add _).symm
  · have all : (c :: rest).drop (triviaLength (c :: rest)) = c :: rest := by rw [starts]; rfl
    have here : tokenPlace place (c :: rest) = place := by
      rw [tokenPlace, starts]
      rfl
    obtain ⟨start, same⟩ := start_withReturns place all (joins_of_stop starts) hc
    obtain ⟨lexeme, inside⟩ := Lexeme.ofChar_withReturns oneLine
    rw [faultsFrom_cons start, same, here, lexeme]
    split
    · next kind extra reports hl =>
      rw [hl] at inside
      obtain ⟨take, drop⟩ := split_at_line inside
      rw [take, drop]
    · rfl
    · rfl

/-- The faults of the text with carriage returns, up to the next token and from there on: those of
the text itself, and one for each escaped line break. -/
theorem faultsFrom_withReturns (oneLine : ∀ place ∈ calls cursor, '\n' ∉ literal place) :
    faultsFrom cursor.withReturns
      = (next cursor).reports.length + ((calls cursor).map (joins ·.rest)).sum
        + if (next cursor).token.kind = .endOfInput then 0
          else faultsFrom (next cursor).after.withReturns := by
  -- what one call reads: the rest of a text behind what it skips
  have reads (cursor : Cursor) {c : Char} {rest : List Char}
      (h : cursor.rest.drop (triviaLength cursor.rest) = c :: rest)
      (plain : '\n' ∉ literal cursor) :=
    faultsFrom_start (tokenPlace cursor.position cursor.rest)
      (h ▸ triviaLength_drop cursor.rest) (literal_cons h plain)
  have oneMore {all found joined others : Nat} (joint : Nat)
      (after : all = found + joined + others) :
      joint + (1 + all) = found + 1 + (joint + joined) + others := by
    omega
  fun_induction calls cursor with
  | case1 cursor skipped h =>
    have nothing : faultsFrom ⟨tokenPlace cursor.position cursor.rest, withReturns []⟩ = 0 :=
      faultsFrom_nil rfl
    rw [Cursor.withReturns, faultsFrom_trivia, h, nothing, next_nil h]
    exact (Nat.zero_add _).symm
  | case2 cursor skipped here c rest h kind extra reports hl =>
    have goes : Lexeme.Says (· ≠ .endOfInput) (.complete kind extra reports) :=
      hl ▸ Lexeme.ofChar_ne_end
    have hl' : Lexeme.ofChar (tokenPlace cursor.position cursor.rest) c rest
        = .complete kind extra reports := hl
    rw [Cursor.withReturns, faultsFrom_trivia, h, reads cursor h (oneLine _ List.mem_cons_self),
      hl', next_complete h hl, if_neg goes, List.map_singleton, List.sum_singleton]
    exact (Nat.add_left_comm _ _ _).trans (Nat.add_assoc _ _ _).symm
  | case3 cursor skipped here c rest h report hl ih =>
    have hl' : Lexeme.ofChar (tokenPlace cursor.position cursor.rest) c rest = .unknown report := hl
    have after := ih fun place hp => oneLine place (List.mem_cons_of_mem _ hp)
    rw [Cursor.withReturns, faultsFrom_trivia, h, reads cursor h (oneLine _ List.mem_cons_self),
      hl', next_unknown h hl, List.map_cons, List.sum_cons]
    exact oneMore _ after
  | case4 cursor skipped here c rest h report hl ih =>
    have hl' : Lexeme.ofChar (tokenPlace cursor.position cursor.rest) c rest
        = .strayColon report := hl
    have after := ih fun place hp => oneLine place (List.mem_cons_of_mem _ hp)
    rw [Cursor.withReturns, faultsFrom_trivia, h, reads cursor h (oneLine _ List.mem_cons_self),
      hl', next_cons h, hl', List.map_cons, List.sum_cons]
    exact oneMore _ after

/-- The scanner finds the faults from a place on, unless the log is full before. -/
theorem total_scanFrom (file : SourceFile) (last : Option Kind) (log : Log) (cursor : Cursor) :
    (scanFrom file last log cursor).log.isFull = true
      ∨ (scanFrom file last log cursor).log.total = log.total + faultsFrom cursor := by
  fun_induction scanFrom file last log cursor with
  | case1 last log cursor full => exact .inl full
  | case2 last log cursor room found log' stops =>
    right
    rw [faultsFrom_next, if_pos stops, Log.total_pushAll, List.length_map]
    rfl
  | case3 last log cursor room found log' goes drops ih =>
    refine ih.imp_right fun h => ?_
    rw [h, faultsFrom_next cursor, if_neg goes, Log.total_pushAll, List.length_map, Nat.add_assoc]
  | case4 last log cursor room found log' goes keeps others ih =>
    refine ih.imp_right fun h => ?_
    rw [h, faultsFrom_next cursor, if_neg goes, Log.total_pushAll, List.length_map, Nat.add_assoc]

/-- A log that is not full at the end has the faults of the text with carriage returns, except for
those at the escaped line breaks. -/
theorem total_scanFrom_joins (room : (scanFrom file last log cursor).log.isFull = false)
    (oneLine : ∀ l ∈ looksFrom file log cursor, ∀ place ∈ calls l.place, '\n' ∉ literal place) :
    (scanFrom file last log cursor).log.total
        + (((looksFrom file log cursor).flatMap fun l => calls l.place).map (joins ·.rest)).sum
      = log.total + faultsFrom cursor.withReturns := by
  have split {total joined before found others : Nat} (first : Nat)
      (after : total + joined = before + found + others) :
      total + (first + joined) = before + (found + first + others) := by
    omega
  fun_induction scanFrom file last log cursor with
  | case1 last log cursor full => exact absurd (full.symm.trans room) Bool.noConfusion
  | case2 last log cursor room' found log' stops =>
    rw [looksFrom_stop (eq_false_of_ne_true room') stops] at oneLine ⊢
    rw [faultsFrom_withReturns (oneLine _ List.mem_cons_self), if_pos stops, List.flatMap_singleton,
      Log.total_pushAll, List.length_map]
    exact Nat.add_assoc _ _ _
  | case3 last log cursor room' found log' goes drops ih =>
    rw [looksFrom_token (eq_false_of_ne_true room') goes] at oneLine ⊢
    have after := ih room fun l hl => oneLine l (List.mem_cons_of_mem _ hl)
    rw [faultsFrom_withReturns (oneLine _ List.mem_cons_self), if_neg goes, List.flatMap_cons,
      List.map_append, List.sum_append]
    rw [Log.total_pushAll, List.length_map] at after
    exact split _ after
  | case4 last log cursor room' found log' goes keeps others ih =>
    rw [looksFrom_token (eq_false_of_ne_true room') goes] at oneLine ⊢
    have after := ih room fun l hl => oneLine l (List.mem_cons_of_mem _ hl)
    rw [faultsFrom_withReturns (oneLine _ List.mem_cons_self), if_neg goes, List.flatMap_cons,
      List.map_append, List.sum_append]
    rw [Log.total_pushAll, List.length_map] at after
    exact split _ after

end Faults

/-- **Line ends.** In a text whose strings and quoted symbols stay on their lines the line breaks
may have carriage returns before them: if none of those that the scanner skips is escaped, it finds
tokens of the same kinds, and the same log. Each escaped one is a fault more, which is counted
unless the log is full. -/
theorem scan_withReturns (name source : String)
    (oneLine : ∀ place ∈ places (.ofText name source), '\n' ∉ literal place) :
    let file := SourceFile.ofText name source
    let file' := SourceFile.ofText name (String.ofList (withReturns source.toList))
    ((∀ place ∈ places file, joins place.rest = 0)
        → (scan file').tokens.map (·.kind) = (scan file).tokens.map (·.kind)
          ∧ (scan file').log = (scan file).log)
      ∧ ((scan file).log.isFull = false
        → (scan file').log.isFull = true
          ∨ (scan file').log.total
            = (scan file).log.total + ((places file).map (joins ·.rest)).sum) := by
  intro file file'
  have text : Cursor.start file'.text.toList = (Cursor.start file.text.toList).withReturns :=
    congrArg Cursor.start String.toList_ofList
  have inPlaces {l : Look} (hl : l ∈ looks file) {place : Cursor} (hp : place ∈ calls l.place) :
      place ∈ places file := List.mem_flatMap.mpr ⟨l, hl, hp⟩
  constructor
  · intro whole
    rw [scan, text]
    refine scanFrom_withReturns (diagnose_withReturns name source) fun l hl place hp => ?_
    exact ⟨oneLine place (inPlaces hl hp), whole place (inPlaces hl hp)⟩
  · intro room
    have counted := total_scanFrom_joins room fun l hl place hp => oneLine place (inPlaces hl hp)
    have total := total_scanFrom file' none .empty (Cursor.start file'.text.toList)
    refine total.imp_right fun total => ?_
    rw [scan, total, text]
    exact counted.symm

/-- The second line goes on behind a comment, and the third one behind a backslash. -/
def joinedText : String :=
  "x =\n1 + # one\n2\nputs \\\n x\n"

/-- With carriage returns the backslash of `joinedText` is a fault. -/
theorem scan_withReturns_joinedText :
    let file := SourceFile.ofText "t.rb" joinedText
    (∀ place ∈ places file, '\n' ∉ literal place)
      ∧ (scan file).log.total = 0
      ∧ (scan (.ofText "t.rb" (String.ofList (withReturns joinedText.toList)))).log.total = 1 := by
  intro file
  have oneLine : ∀ place ∈ places file, '\n' ∉ literal place := by decide +kernel
  have clean : (scan file).log.total = 0 := by decide +kernel
  have joined : ((places file).map (joins ·.rest)).sum = 1 := by decide +kernel
  have room : (scan file).log.isFull = false := by rw [Log.isFull, clean]; rfl
  have room' : (scan (.ofText "t.rb" (String.ofList (withReturns joinedText.toList)))).log.isFull
      = false := by decide +kernel
  refine ⟨oneLine, clean, ?_⟩
  rcases (scan_withReturns "t.rb" joinedText oneLine).2 room with full | counted
  · exact absurd (full.symm.trans room') Bool.noConfusion
  · rw [counted, clean, joined]

end Token

end ScriptCompiler
