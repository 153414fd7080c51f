import ScriptCompiler.Proofs.Truncation.Scanning

/-!
# Tokens of a text with a line after it

A text in which scanning finds no fault has the same tokens with more lines after it: no token of it
can be read on over the line break. The line break itself is a token after them, unless the text is
blank or its last token asks for more.
-/

namespace ScriptCompiler.Token

/-! ## Strings -/

section Strings

variable {start here : Position} {text : List Char}

theorem Piece.append_clean {first next next' : Piece} (h : (first.append next).reports = [])
    (ih : next.reports = [] → next' = next) : first.append next' = first.append next := by
  rw [ih (List.append_eq_nil_iff.mp h).2]

/-- A string that has an end does not go on after it. -/
theorem doubleQuoted_line (more : List Char) (h : (doubleQuoted start here text).reports = []) :
    doubleQuoted start here (text ++ '\n' :: more) = doubleQuoted start here text := by
  fun_induction doubleQuoted start here text with
  | case1 here => cases h
  | case2 => rw [List.cons_append, doubleQuoted]
  | case3 here rest piece length ih =>
    -- an escape sequence is not the last thing in the text
    have ends : rest ≠ [] := by
      rintro rfl
      cases h
    have le : length ≤ rest.length := escape_le here rest
    rw [List.cons_append, doubleQuoted, escape_cut .feed here more ends,
      List.take_append_of_le_length le, List.drop_append_of_le_length le]
    exact Piece.append_clean h ih
  | case4 here rest reports ih =>
    rw [List.cons_append, doubleQuoted]
    simp only [head?_cut rest more (by decide : '\x7b' ≠ '\n')]
    exact Piece.append_clean h ih
  | case5 here c rest hq hs hn ih =>
    rw [List.cons_append, doubleQuoted]
    · exact Piece.append_clean h ih
    all_goals assumption

theorem singleQuoted_line (more : List Char) (h : (singleQuoted start here text).reports = []) :
    singleQuoted start here (text ++ '\n' :: more) = singleQuoted start here text := by
  fun_induction singleQuoted start here text with
  | case1 here => cases h
  | case2 => rw [List.cons_append, singleQuoted]
  | case3 here rest ih =>
    rw [List.cons_append, List.cons_append, singleQuoted]
    exact Piece.append_clean h ih
  | case4 here rest ih =>
    rw [List.cons_append, List.cons_append, singleQuoted]
    exact Piece.append_clean h ih
  | case5 here c rest hq hs hn ih =>
    rw [List.cons_append, singleQuoted_cons_cut .feed more hq hs hn]
    exact Piece.append_clean h ih

end Strings

/-! ## Lexemes -/

namespace Lexeme

variable {start : Position} {c : Char} {text : List Char} {kind : Kind} {extra : Nat}

theorem quoted_line (make : String → Kind) (length : Nat → Nat) {piece piece' : Piece}
    (h : complete (make piece.text) (length piece.length) piece.reports = .complete kind extra [])
    (same : piece.reports = [] → piece' = piece) :
    complete (make piece'.text) (length piece'.length) piece'.reports
      = .complete kind extra [] := by
  rw [same (complete.inj h).2.2]
  exact h

/-- A lexeme without faults is the same with more lines after the text. -/
theorem ofChar_line (more : List Char) (h : ofChar start c text = .complete kind extra []) :
    ofChar start c (text ++ '\n' :: more) = .complete kind extra [] := by
  by_cases hd : c = '"'
  · subst hd
    exact quoted_line .str id h (doubleQuoted_line more)
  by_cases hs : c = '\''
  · subst hs
    exact quoted_line .str id h (singleQuoted_line more)
  by_cases hc : c = ':' ∧ text.head? = some '"'
  · obtain ⟨rfl, hc⟩ := hc
    obtain ⟨inner, rfl⟩ := List.head?_eq_some_iff.mp hc
    exact quoted_line .symbol (1 + ·) h (doubleQuoted_line more)
  · rw [ofChar_plain .feed more hd hs fun hc' h' => hc ⟨hc', h'⟩, h]

/-- What a token says, if the lexeme is one. -/
def Says (p : Kind → Prop) : Lexeme → Prop
  | .complete kind _ _ => p kind
  | _ => True

theorem Says.mono {p q : Kind → Prop} (h : ∀ kind, p kind → q kind) {l : Lexeme} (hp : l.Says p) :
    l.Says q := by
  cases l with
  | complete kind extra reports => exact h kind hp
  | unknown => trivial
  | strayColon => trivial

/-- The kind is not the end of the text, and it is a line break only if the character is one. -/
def Starts (c : Char) (kind : Kind) : Prop :=
  kind ≠ .endOfInput ∧ (kind = .newline → c = '\n' ∨ c = ';')

/-- No character starts the end of the text, and only two start a line break. -/
theorem ofChar_says : (ofChar start c text).Says (Starts c) := by
  have either (single : Punct) (longer : List (Char × Punct)) :
      (either single text longer).Says (Starts c) := by
    unfold Lexeme.either
    split <;> exact ⟨Kind.noConfusion, Kind.noConfusion⟩
  have sigil (sigil : Char) (what : String) (make : String → Kind)
      (h : ∀ name, Starts c (make name)) :
      (sigilName start sigil what make text).Says (Starts c) := by
    unfold sigilName
    dsimp only
    split <;> exact h _
  unfold ofChar
  split
  case h_1 => exact ⟨Kind.noConfusion, fun _ => .inl rfl⟩
  case h_2 => exact ⟨Kind.noConfusion, fun _ => .inr rfl⟩
  all_goals try first | exact either _ _ | exact ⟨Kind.noConfusion, Kind.noConfusion⟩
  case h_5 =>
    unfold instanceName
    split
    · exact ⟨Kind.noConfusion, Kind.noConfusion⟩
    · exact sigil _ _ _ fun _ => ⟨Kind.noConfusion, Kind.noConfusion⟩
  case h_6 => exact sigil _ _ _ fun _ => ⟨Kind.noConfusion, Kind.noConfusion⟩
  case h_7 =>
    unfold colon
    dsimp only
    repeat' split
    all_goals first | trivial | exact ⟨Kind.noConfusion, Kind.noConfusion⟩
  case h_10 =>
    split
    · exact ⟨Kind.noConfusion, Kind.noConfusion⟩
    · exact either _ _
  case h_27 =>
    unfold number lowerName upperName wideName
    dsimp only
    repeat' split
    all_goals first | trivial | exact ⟨Kind.noConfusion, Kind.noConfusion⟩

theorem ofChar_ne_end : (ofChar start c text).Says (· ≠ .endOfInput) :=
  ofChar_says.mono fun _ => And.left

end Lexeme

/-! ## The next token -/

/-- What comes next in a text, and what comes next if a line break and `more` come after it. -/
inductive NextLine (text more : List Char) (left whole : Found) : Prop
  /-- A token of the text. -/
  | same (place : Position) (rest : List Char) (token : whole.token = left.token)
      (kind : left.token.kind ≠ .endOfInput) (reports : whole.reports = [])
      (left_after : left.after = ⟨place, rest⟩)
      (whole_after : whole.after = ⟨place, rest ++ '\n' :: more⟩)
      (shorter : rest.length < text.length)
  /-- The text has no more tokens. -/
  | line (place : Position) (isEnd : left.token.kind = .endOfInput)
      (kind : whole.token.kind = .newline)
      (space : whole.token.spaceBefore = left.token.spaceBefore) (reports : whole.reports = [])
      (after : whole.after = ⟨place, more⟩)

theorem next_line {place : Position} {text : List Char} (more : List Char)
    (h : (next ⟨place, text⟩).reports = []) :
    NextLine text more (next ⟨place, text⟩) (next ⟨place, text ++ '\n' :: more⟩) := by
  have same : triviaLength (text ++ '\n' :: more) = triviaLength text := by
    refine (triviaLength_cut text more).resolve_right fun ⟨_, escaped⟩ => ?_
    rw [next_unknown escaped rfl] at h
    cases h
  have le := triviaLength_le text
  have here : tokenPlace place (text ++ '\n' :: more) = tokenPlace place text := by
    rw [tokenPlace, same, List.take_append_of_le_length le, tokenPlace]
  have drop : (text ++ '\n' :: more).drop (triviaLength (text ++ '\n' :: more))
      = text.drop (triviaLength text) ++ '\n' :: more := by
    rw [same, List.drop_append_of_le_length le]
  cases hd : text.drop (triviaLength text) with
  | nil =>
    rw [hd, List.nil_append] at drop
    rw [next_nil hd, next_complete drop rfl]
    refine .line _ rfl rfl ?_ rfl rfl
    rw [same]
  | cons c rest =>
    rw [hd, List.cons_append] at drop
    obtain ⟨kind, extra, hl⟩ := complete_of_clean hd h
    have fits : Lexeme.Fits rest (.complete kind extra []) := hl ▸ Lexeme.fits_ofChar _ c rest
    have no_end : Lexeme.Says (· ≠ .endOfInput) (.complete kind extra []) :=
      hl ▸ Lexeme.ofChar_ne_end
    rw [next_complete hd hl, next_complete drop (here ▸ Lexeme.ofChar_line more hl), here, same,
      List.take_append_of_le_length fits, List.drop_append_of_le_length fits]
    refine .same _ _ rfl no_end rfl rfl rfl ?_
    have shorter := congrArg List.length hd
    rw [List.length_drop, List.length_cons] at shorter
    rw [List.length_drop]
    omega

/-! ## All tokens -/

/-- What the last of some tokens says that come after a token of the given kind. -/
def lastKind (last : Option Kind) (tokens : List Token) : Option Kind :=
  (tokens.getLast?.map (·.kind)).or last

theorem lastKind_cons (last : Option Kind) (t : Token) (tokens : List Token) :
    lastKind last (t :: tokens) = lastKind (some t.kind) tokens := by
  cases tokens with
  | nil => rfl
  | cons t' tokens => simp [lastKind, List.getLast?_cons]

/-- Tokens, and then those that were scanned. -/
def Scanned.after (tokens : List Token) (s : Scanned) : Scanned :=
  { s with tokens := tokens ++ s.tokens }

/-- **Scanning a text with a line after it.** -/
theorem scanFrom_line (file file' : SourceFile) {text : List Char} (more : List Char)
    {last : Option Kind} {place : Position}
    (clean : (scanFrom file last .empty ⟨place, text⟩).log.total = 0) :
    ∃ (before : List Token) (stop lineBreak : Token) (place' : Position),
      (scanFrom file last .empty ⟨place, text⟩).tokens = before ++ [stop]
        ∧ stop.kind = .endOfInput ∧ lineBreak.kind = .newline
        ∧ lineBreak.spaceBefore = stop.spaceBefore
        ∧ scanFrom file' last .empty ⟨place, text ++ '\n' :: more⟩ =
          let drops := dropsNewline (lastKind last before)
          (scanFrom file' (if drops then lastKind last before else some .newline) .empty
            ⟨place', more⟩).after (if drops then before else before ++ [lineBreak]) := by
  -- on the length of the text: behind a token the same holds of the rest
  induction hn : text.length using Nat.strong_induction_on generalizing text last place with
  | _ n ih =>
    subst hn
    cases next_line more (reports_next clean) with
    | line place' isEnd kind space reports after =>
      refine ⟨[], _, _, place', ?_, isEnd, kind, space, ?_⟩
      · exact congrArg Scanned.tokens (scanFrom_stop isEnd)
      show _ = Scanned.after (if dropsNewline last then _ else _)
        (scanFrom file' (if dropsNewline last then _ else _) _ _)
      split
      · next drops =>
        rw [scanFrom_dropped kind drops, reports, after]
        rfl
      · next keeps =>
        rw [scanFrom_token (by rw [kind]; nofun) fun _ => eq_false_of_ne_true keeps, reports, after,
          kind]
        rfl
    | same place' rest token stops reports left_after whole_after shorter =>
      have none := reports_next clean
      rcases (token_cases (next ⟨place, text⟩).token.kind last).resolve_left stops with
        ⟨hk, drops⟩ | ⟨-, keeps⟩
      · rw [scanFrom_dropped hk drops, none, left_after] at clean ⊢
        rw [scanFrom_dropped (token ▸ hk) drops, reports, whole_after]
        exact ih _ shorter clean rfl
      · rw [scanFrom_token stops keeps, none, left_after] at clean ⊢
        rw [scanFrom_token (token ▸ stops) (token ▸ keeps), reports, whole_after, token]
        obtain ⟨before, stop, lineBreak, place'', ht, isEnd, kind, space, hs⟩ :=
          ih _ shorter clean rfl
        refine ⟨_ :: before, stop, lineBreak, place'', congrArg (_ :: ·) ht, isEnd, kind, space, ?_⟩
        have logs : Log.empty.pushAll ([].map file'.diagnose) = .empty := rfl
        rw [lastKind_cons, logs, hs]
        dsimp only
        split <;> rfl

/-! ## What all tokens say -/

section Says

variable {p : Kind → Prop} (atEnd : p .endOfInput)
  (h : ∀ start c rest, (Lexeme.ofChar start c rest).Says p)

include atEnd h

theorem says_next (cursor : Cursor) : p (next cursor).token.kind := by
  fun_induction next cursor with
  | case1 => exact atEnd
  | case2 cursor skipped here space c rest _ kind extra reports hl after =>
    have said := h here.position c rest
    rw [hl] at said
    exact said
  | case3 cursor skipped here space c rest _ report hl found ih => exact ih
  | case4 cursor skipped here space c rest _ report hl found ih => exact ih

/-- What every lexeme says, and the end of the text too, is said by every token. -/
theorem says_scanFrom (file : SourceFile) (last : Option Kind) (log : Log) (cursor : Cursor) :
    ∀ t ∈ (scanFrom file last log cursor).tokens, p t.kind := by
  fun_induction scanFrom file last log cursor with
  | case1 => exact List.forall_mem_singleton.mpr atEnd
  | case2 last log cursor _ found _ _ =>
    exact List.forall_mem_singleton.mpr (says_next atEnd h cursor)
  | case3 last log cursor _ found _ _ _ ih => exact ih
  | case4 last log cursor _ found _ _ _ others ih =>
    exact List.forall_mem_cons.mpr ⟨says_next atEnd h cursor, ih⟩

end Says

/-! ## Bare names -/

/-- The text is the name of a local variable and nothing else. -/
def isName (text : String) : Bool :=
  match text.toList with
  | [] => false
  | c :: rest =>
    if isLower c || c = '_' then methodLength rest = rest.length && (Keyword.ofText? text).isNone
    else isWide c && wordLength rest = rest.length

section Names

variable {c : Char}

/-- A small letter and the underscore come after digits and capital letters. -/
theorem not_le_of_lower (h : (isLower c || c = '_') = true) {d : Char}
    (hd : d.toNat < '_'.toNat) : ¬ c ≤ d := by
  intro le
  have le : c.toNat ≤ d.toNat := le
  simp only [isLower, Bool.or_eq_true, Bool.and_eq_true, decide_eq_true_eq] at h
  rcases h with ⟨ha, -⟩ | rfl
  · have ha : 'a'.toNat ≤ c.toNat := ha
    have : '_'.toNat < 'a'.toNat := by decide
    omega
  · omega

theorem classes_of_lower (h : (isLower c || c = '_') = true) :
    isDigit c = false ∧ isUpper c = false := by
  simp [isDigit, isUpper, not_le_of_lower h]

/-- A character beyond ASCII comes after every character of it. -/
theorem not_le_of_wide (h : isWide c = true) {d : Char} (hd : d.toNat < 0x80) : ¬ c ≤ d := by
  intro le
  have le : c.toNat ≤ d.toNat := le
  simp only [isWide, decide_eq_true_eq] at h
  omega

theorem classes_of_wide (h : isWide c = true) :
    isDigit c = false ∧ (isLower c || c = '_') = false ∧ isUpper c = false := by
  have other : c ≠ '_' := by
    rintro rfl
    exact absurd h (by decide)
  simp [isDigit, isLower, isUpper, other, not_le_of_wide h]

theorem ofChar_lower (h : (isLower c || c = '_') = true) (start : Position) (rest : List Char) :
    Lexeme.ofChar start c rest = Lexeme.lowerName c rest := by
  unfold Lexeme.ofChar
  split
  case h_27 => rw [if_neg (by rw [(classes_of_lower h).1]; nofun), if_pos h]
  all_goals exact absurd h (by decide)

theorem ofChar_wide (h : isWide c = true) (start : Position) (rest : List Char) :
    Lexeme.ofChar start c rest = Lexeme.wideName c rest := by
  obtain ⟨digit, lower, upper⟩ := classes_of_wide h
  unfold Lexeme.ofChar
  split
  case h_27 =>
    rw [if_neg (by rw [digit]; nofun), if_neg (by rw [lower]; nofun),
      if_neg (by rw [upper]; nofun), if_pos h]
  all_goals exact absurd h (by decide)

/-- Nothing is skipped before a name. -/
theorem triviaLength_name (h : (isLower c || c = '_') = true ∨ isWide c = true)
    (rest : List Char) : triviaLength (c :: rest) = 0 := by
  have other (d : Char) (lower : (isLower d || d = '_') = false) (wide : isWide d = false) :
      c ≠ d := by
    rintro rfl
    rw [lower, wide] at h
    exact h.elim nofun nofun
  rw [triviaLength_cons (other '#' (by decide) (by decide))
    fun hc => absurd hc (other '\\' (by decide) (by decide))]
  simp [other ' ' (by decide) (by decide), other '\t' (by decide) (by decide),
    other '\r' (by decide) (by decide)]

end Names

variable {text : String} {place : Position}

theorem isName_cases (h : isName text = true) :
    ∃ c rest, text.toList = c :: rest
      ∧ ((isLower c || c = '_') = true ∧ methodLength rest = rest.length
          ∧ Keyword.ofText? text = none
        ∨ isWide c = true ∧ wordLength rest = rest.length) := by
  unfold isName at h
  split at h
  · cases h
  · next c rest ht =>
    refine ⟨c, rest, ht, ?_⟩
    split at h
    · next lower =>
      rw [Bool.and_eq_true, decide_eq_true_eq, Option.isNone_iff_eq_none] at h
      exact .inl ⟨lower, h⟩
    · rw [Bool.and_eq_true, decide_eq_true_eq] at h
      exact .inr h

/-- The first character of a name starts a token that is all of it. -/
theorem ofChar_name (h : isName text = true) : ∃ c rest, text.toList = c :: rest
    ∧ triviaLength text.toList = 0
    ∧ ∀ start, Lexeme.ofChar start c rest = .complete (.identifier text) rest.length [] := by
  obtain ⟨c, rest, ht, ⟨lower, all, plain⟩ | ⟨wide, all⟩⟩ := isName_cases h
  · refine ⟨c, rest, ht, ht ▸ triviaLength_name (.inl lower) rest, fun start => ?_⟩
    rw [ofChar_lower lower, Lexeme.lowerName, all, List.take_length, ← ht, String.ofList_toList,
      plain]
    rfl
  · refine ⟨c, rest, ht, ht ▸ triviaLength_name (.inr wide) rest, fun start => ?_⟩
    rw [ofChar_wide wide, Lexeme.wideName, all, List.take_length, ← ht, String.ofList_toList]
    rfl

theorem next_name (h : isName text = true) : ∃ span after, next ⟨place, text.toList⟩
    = ⟨⟨.identifier text, span, false⟩, ⟨after, []⟩, []⟩ := by
  obtain ⟨c, rest, ht, skipped, hl⟩ := ofChar_name h
  have start : text.toList.drop (triviaLength text.toList) = c :: rest := by
    rw [skipped, ht]
    rfl
  have space : decide (triviaLength text.toList ≠ 0) = false := by
    rw [skipped]
    rfl
  rw [next_complete start (hl _), List.drop_length, space]
  exact ⟨_, _, rfl⟩

theorem startsUpper_of_isName (h : isName text = true) : startsUpper text = false := by
  obtain ⟨c, rest, ht, classes⟩ := isName_cases h
  have upper : isUpper c = false := by
    rcases classes with ⟨lower, -⟩ | ⟨wide, -⟩
    · exact (classes_of_lower lower).2
    · exact (classes_of_wide wide).2.2
  rw [startsUpper, ht, List.head?_cons, Option.any_some, upper]

/-- A bare name is one token. -/
theorem scanFrom_name (file : SourceFile) (last : Option Kind) (h : isName text = true) :
    ∃ span stop, scanFrom file last .empty ⟨place, text.toList⟩
        = ⟨[⟨.identifier text, span, false⟩, stop], .empty⟩ ∧ stop.kind = .endOfInput := by
  obtain ⟨span, after, hn⟩ := @next_name text place h
  rw [scanFrom_token (by rw [hn]; nofun) (by rw [hn]; nofun), hn]
  obtain ⟨stop, isEnd, hs⟩ := scanFrom_nil file (some (.identifier text)) .empty after
  refine ⟨span, stop, ?_, isEnd⟩
  have logs : Log.empty.pushAll ([].map file.diagnose) = .empty := rfl
  dsimp only
  rw [logs, hs]

end ScriptCompiler.Token
