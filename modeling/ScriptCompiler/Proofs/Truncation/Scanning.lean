import ScriptCompiler.Proofs.Truncation.Lexemes
import ScriptCompiler.Proofs.Truncation.Expressions

/-!
# Tokens at a line break

A text is cut in front of one of its line breaks. The tokens of what is left are the first ones of
the whole text, up to what a last string says, and then the end. Scanning finds no fault in what is
left, or a string without an end, or a backslash at the end: the line break that it escapes is
missing.
-/

namespace ScriptCompiler.Token

open Parse (Shortened)

/-! ## What is skipped -/

theorem triviaLength_le (text : List Char) : triviaLength text ≤ text.length := by
  fun_induction triviaLength text with
  | case1 rest ih => exact Nat.add_le_add_right ih 2
  | case2 rest => exact Nat.succ_le_succ (List.takeWhile_sublist _).length_le
  | case3 c rest _ _ _ ih => exact Nat.succ_le_succ ih
  | case4 => exact Nat.zero_le _
  | case5 => exact Nat.le_refl _

theorem triviaLength_cons {c : Char} {rest : List Char} (hc : c ≠ '#')
    (hs : c = '\\' → rest.head? ≠ some '\n') :
    triviaLength (c :: rest)
      = if c = ' ' || c = '\t' || c = '\r' then triviaLength rest + 1 else 0 := by
  rw [triviaLength]
  · rintro r h rfl
    exact hs h rfl
  · exact hc

/-- As much is skipped before a line break, unless it is escaped. -/
theorem triviaLength_cut (text more : List Char) :
    triviaLength (text ++ '\n' :: more) = triviaLength text
      ∨ triviaLength (text ++ '\n' :: more) ≠ 0 ∧ text.drop (triviaLength text) = ['\\'] := by
  fun_induction triviaLength text with
  | case1 rest ih =>
    rw [List.cons_append, List.cons_append, triviaLength]
    exact ih.imp (congrArg (· + 2)) fun h => ⟨nofun, h.2⟩
  | case2 rest =>
    left
    rw [List.cons_append, triviaLength, takeWhile_cut rest more (by decide)]
  | case3 c rest hs hc blank ih =>
    have plain : c ≠ '\\' := by
      rintro rfl
      exact absurd blank (by decide)
    rw [List.cons_append, triviaLength_cons hc fun h => absurd h plain, if_pos blank]
    exact ih.imp (congrArg (· + 1)) fun h => ⟨nofun, h.2⟩
  | case4 c rest hs hc blank =>
    by_cases escaped : c = '\\' ∧ rest = []
    · obtain ⟨rfl, rfl⟩ := escaped
      exact .inr ⟨nofun, rfl⟩
    · left
      rw [List.cons_append, triviaLength_cons hc, if_neg blank]
      intro h
      cases rest with
      | nil => exact absurd ⟨h, rfl⟩ escaped
      | cons d rest =>
        intro hd
        exact hs rest h (congrArg (· :: rest) (Option.some.inj hd))
  | case5 => exact .inl rfl

/-! ## The next token -/

/-- Where the next token starts. -/
def tokenPlace (place : Position) (text : List Char) : Position :=
  place.past (text.take (triviaLength text))

section Next

variable {place : Position} {text : List Char} {c : Char} {rest : List Char}

theorem next_nil (h : text.drop (triviaLength text) = []) :
    next ⟨place, text⟩ = ⟨⟨.endOfInput, (tokenPlace place text).point, triviaLength text ≠ 0⟩,
      ⟨tokenPlace place text, []⟩, []⟩ := by
  rw [next]
  split
  · rw [← h]
    rfl
  · next c rest h' =>
    rw [h] at h'
    cases h'

theorem next_end (place : Position) :
    next ⟨place, []⟩ = ⟨⟨.endOfInput, place.point, false⟩, ⟨place, []⟩, []⟩ :=
  next_nil rfl

theorem next_cons (h : text.drop (triviaLength text) = c :: rest) :
    next ⟨place, text⟩ =
      match Lexeme.ofChar (tokenPlace place text) c rest with
      | .complete kind extra reports =>
        ⟨⟨kind, (tokenPlace place text).spanTo
              ((tokenPlace place text).past (c :: rest.take extra)), triviaLength text ≠ 0⟩,
            ⟨(tokenPlace place text).past (c :: rest.take extra), rest.drop extra⟩, reports⟩
      | .unknown report =>
        let found := next ⟨(tokenPlace place text).step c, rest⟩
        { found with
          token := { found.token with spaceBefore := triviaLength text ≠ 0 }
          reports := report :: found.reports }
      | .strayColon report =>
        let found := next ⟨(tokenPlace place text).step c, rest⟩
        { found with
          token := ⟨found.token.kind, (tokenPlace place text).spanTo found.after.position,
            triviaLength text ≠ 0⟩
          reports := report :: found.reports } := by
  rw [next]
  split
  · next h' =>
    rw [h] at h'
    cases h'
  · next c' rest' h' =>
    rw [h] at h'
    obtain ⟨rfl, rfl⟩ := List.cons.inj h'
    simp only [Cursor.skip, h]
    rfl

theorem next_complete (h : text.drop (triviaLength text) = c :: rest) {kind : Kind} {extra : Nat}
    {reports : List Report}
    (hl : Lexeme.ofChar (tokenPlace place text) c rest = .complete kind extra reports) :
    next ⟨place, text⟩
      = ⟨⟨kind, (tokenPlace place text).spanTo
            ((tokenPlace place text).past (c :: rest.take extra)), triviaLength text ≠ 0⟩,
          ⟨(tokenPlace place text).past (c :: rest.take extra), rest.drop extra⟩, reports⟩ := by
  rw [next_cons h, hl]

theorem next_unknown (h : text.drop (triviaLength text) = c :: rest) {report : Report}
    (hl : Lexeme.ofChar (tokenPlace place text) c rest = .unknown report) :
    next ⟨place, text⟩ =
      let found := next ⟨(tokenPlace place text).step c, rest⟩
      { found with
        token := { found.token with spaceBefore := triviaLength text ≠ 0 }
        reports := report :: found.reports } := by
  rw [next_cons h, hl]

/-- A token without faults is a whole lexeme. -/
theorem complete_of_clean (h : text.drop (triviaLength text) = c :: rest)
    (clean : (next ⟨place, text⟩).reports = []) :
    ∃ kind extra, Lexeme.ofChar (tokenPlace place text) c rest = .complete kind extra [] := by
  rw [next_cons h] at clean
  cases hl : Lexeme.ofChar (tokenPlace place text) c rest with
  | complete kind extra reports =>
    rw [hl] at clean
    obtain rfl : reports = [] := clean
    exact ⟨kind, extra, rfl⟩
  | unknown | strayColon =>
    rw [hl] at clean
    cases clean

theorem spaceBefore_next (place : Position) (text : List Char) :
    (next ⟨place, text⟩).token.spaceBefore = (triviaLength text ≠ 0 : Bool) := by
  cases h : text.drop (triviaLength text) with
  | nil => rw [next_nil h]
  | cons c rest =>
    rw [next_cons h]
    cases Lexeme.ofChar (tokenPlace place text) c rest <;> rfl

end Next

/-- What comes next in a whole text, and what comes next in `text`, which goes on with a line break
and `more` in it. -/
inductive Meets (text more : List Char) (whole left : Found) : Prop
  /-- A token before the cut. -/
  | same (place : Position) (rest : List Char) (token : left.token = whole.token)
      (reports : left.reports = []) (whole_after : whole.after = ⟨place, rest ++ '\n' :: more⟩)
      (left_after : left.after = ⟨place, rest⟩) (suffix : rest <:+ text)
      (shorter : rest.length < text.length)
  /-- The line break. -/
  | newline (kind : whole.token.kind = .newline) (isEnd : left.token.kind = .endOfInput)
      (space : left.token.spaceBefore = whole.token.spaceBefore) (reports : left.reports = [])
  /-- A string or a symbol in quotes that has the line break in it. -/
  | quoted (cuts : Lexeme.Cuts whole.token.kind left.token.kind)
      (space : left.token.spaceBefore = whole.token.spaceBefore) (after : left.after.rest = [])
      (unfinished : Unfinished left.reports)
  /-- A token behind the line break, which is escaped. -/
  | escape (report : Report) (reports : left.reports = [report])
      (code : report.code = .invalidCharacter)
      (early : Span.noLater report.span.start left.token.span.start)
      (space : whole.token.spaceBefore = true) (isEnd : left.token.kind = .endOfInput)
      (backslash : ['\\'] <:+ text)

section Meets

variable {place : Position} {text more : List Char}

/-- A backslash at the end of a text is a character outside the language. -/
theorem meets_escape (space : triviaLength (text ++ '\n' :: more) ≠ 0)
    (h : text.drop (triviaLength text) = ['\\']) :
    Meets text more (next ⟨place, text ++ '\n' :: more⟩) (next ⟨place, text⟩) := by
  have unknown : next ⟨place, text⟩ = _ := next_unknown h rfl
  rw [unknown, next_end]
  refine .escape _ rfl rfl ?_ ?_ rfl ⟨_, h ▸ List.take_append_drop _ text⟩
  · -- the end comes right after the backslash
    generalize tokenPlace place text = here
    have step : here.step '\\' = ⟨here.line, here.column + '\\'.utf8Size⟩ := if_neg (by decide)
    simp only [Span.noLater, Span.start, Position.spanTo, Position.point, Span.point, step]
    simp
  · rw [spaceBefore_next]
    exact decide_eq_true space

theorem next_cut (h : (next ⟨place, text ++ '\n' :: more⟩).reports = []) :
    Meets text more (next ⟨place, text ++ '\n' :: more⟩) (next ⟨place, text⟩) := by
  rcases triviaLength_cut text more with same | ⟨space, escaped⟩
  · have le := triviaLength_le text
    have here : tokenPlace place (text ++ '\n' :: more) = tokenPlace place text := by
      rw [tokenPlace, same, List.take_append_of_le_length le, tokenPlace]
    have drop : (text ++ '\n' :: more).drop (triviaLength (text ++ '\n' :: more))
        = text.drop (triviaLength text) ++ '\n' :: more := by
      rw [same, List.drop_append_of_le_length le]
    cases hd : text.drop (triviaLength text) with
    | nil =>
      rw [hd, List.nil_append] at drop
      rw [next_nil hd, next_complete drop rfl]
      refine .newline rfl rfl ?_ rfl
      rw [same]
    | cons c rest =>
      rw [hd, List.cons_append] at drop
      obtain ⟨kind, extra, hl⟩ := complete_of_clean drop h
      rw [next_complete drop hl]
      rw [here] at hl ⊢
      rw [same]
      rcases Lexeme.ofChar_cut hl with ⟨hl', fits⟩ | ⟨kind', reports, hl', cuts, unfinished⟩
      · rw [next_complete hd hl', List.take_append_of_le_length fits,
          List.drop_append_of_le_length fits]
        have suffix : c :: rest <:+ text := hd ▸ List.drop_suffix _ text
        refine .same _ _ rfl rfl rfl rfl ?_ ?_
        · exact (List.drop_suffix _ _).trans ((List.suffix_cons c rest).trans suffix)
        · have := suffix.length_le
          rw [List.length_cons] at this
          rw [List.length_drop]
          omega
      · rw [next_complete hd hl']
        exact .quoted cuts rfl List.drop_length unfinished
  · exact meets_escape space escaped

end Meets

/-! ## All tokens -/

/-- The faults that scanning finds in `text`, which ends at `stop`, where the whole text has none.
-/
inductive Blame (file : SourceFile) (text : List Char) (stop : Token) : Log → Prop
  | unfinished {reports : List Report} (h : Unfinished reports) :
    Blame file text stop (Log.empty.pushAll (reports.map file.diagnose))
  | escape {report : Report} (code : report.code = .invalidCharacter)
      (early : Span.noLater report.span.start stop.span.start) (backslash : ['\\'] <:+ text) :
    Blame file text stop (Log.empty.pushAll [file.diagnose report])

theorem Blame.nothing (file : SourceFile) (text : List Char) (stop : Token) :
    Blame file text stop .empty :=
  have none : Unfinished [] := nofun
  .unfinished none

section Scan

variable {file : SourceFile} {last : Option Kind} {cursor : Cursor}

theorem scanFrom_stop (h : (next cursor).token.kind = .endOfInput) :
    scanFrom file last .empty cursor
      = ⟨[(next cursor).token], Log.empty.pushAll ((next cursor).reports.map file.diagnose)⟩ := by
  rw [scanFrom, if_neg (by decide)]
  exact dif_pos h

theorem scanFrom_dropped (hk : (next cursor).token.kind = .newline)
    (hd : dropsNewline last = true) :
    scanFrom file last .empty cursor
      = scanFrom file last (Log.empty.pushAll ((next cursor).reports.map file.diagnose))
        (next cursor).after := by
  rw [scanFrom, if_neg (by decide)]
  dsimp only
  rw [dif_neg (by rw [hk]; nofun), if_pos (by rw [hk, hd]; rfl)]

theorem scanFrom_token (hs : (next cursor).token.kind ≠ .endOfInput)
    (hn : (next cursor).token.kind = .newline → dropsNewline last = false) :
    scanFrom file last .empty cursor =
      let others := scanFrom file (some (next cursor).token.kind)
        (Log.empty.pushAll ((next cursor).reports.map file.diagnose)) (next cursor).after
      { others with tokens := (next cursor).token :: others.tokens } := by
  rw [scanFrom, if_neg (by decide)]
  dsimp only
  rw [dif_neg hs, if_neg]
  rw [Bool.and_eq_true, decide_eq_true_iff]
  rintro ⟨hk, hd⟩
  exact Bool.false_ne_true ((hn hk).symm.trans hd)

theorem le_total_scanFrom (log : Log) : log.total ≤ (scanFrom file last log cursor).log.total := by
  fun_induction scanFrom file last log cursor with
  | case1 => exact Nat.le_refl _
  | case2 last log cursor _ found log' _ =>
    rw [Log.total_pushAll]
    exact Nat.le_add_right _ _
  | case3 last log cursor _ found log' _ _ ih =>
    rw [Log.total_pushAll] at ih
    exact Nat.le_trans (Nat.le_add_right _ _) ih
  | case4 last log cursor _ found log' _ _ others ih =>
    rw [Log.total_pushAll] at ih
    exact Nat.le_trans (Nat.le_add_right _ _) ih

/-- What scanning does with a token: it stops, drops a line break, or keeps the token. -/
theorem token_cases (kind : Kind) (last : Option Kind) :
    kind = .endOfInput ∨ (kind = .newline ∧ dropsNewline last = true)
      ∨ (kind ≠ .endOfInput ∧ (kind = .newline → dropsNewline last = false)) := by
  by_cases stops : kind = .endOfInput
  · exact .inl stops
  by_cases drops : kind = .newline ∧ dropsNewline last = true
  · exact .inr (.inl drops)
  · exact .inr (.inr ⟨stops, fun hk => eq_false_of_ne_true fun hd => drops ⟨hk, hd⟩⟩)

/-- A text without faults has none in its first token. -/
theorem reports_next (h : (scanFrom file last .empty cursor).log.total = 0) :
    (next cursor).reports = [] := by
  suffices (Log.empty.pushAll ((next cursor).reports.map file.diagnose)).total = 0 by
    rw [Log.total_pushAll, List.length_map] at this
    exact List.eq_nil_of_length_eq_zero (Nat.eq_zero_of_add_eq_zero_left this)
  rcases token_cases (next cursor).token.kind last with stops | ⟨hk, drops⟩ | ⟨stops, keeps⟩
  · rwa [scanFrom_stop stops] at h
  · rw [scanFrom_dropped hk drops] at h
    exact Nat.eq_zero_of_le_zero (h ▸ le_total_scanFrom _)
  · rw [scanFrom_token stops keeps] at h
    exact Nat.eq_zero_of_le_zero (h ▸ le_total_scanFrom _)

theorem scanFrom_nil (file : SourceFile) (last : Option Kind) (log : Log) (place : Position) :
    ∃ stop : Token, stop.kind = .endOfInput
      ∧ scanFrom file last log ⟨place, []⟩ = ⟨[stop], log⟩ := by
  rw [scanFrom]
  split
  · exact ⟨_, rfl, rfl⟩
  · rw [next_end]
    exact ⟨_, rfl, rfl⟩

/-- The first token is the next one of the text, or a line break is dropped. -/
theorem scanFrom_first (file : SourceFile) (last : Option Kind) (cursor : Cursor) :
    ∃ first after, (scanFrom file last .empty cursor).tokens = first :: after
      ∧ (dropsNewline last = false → first = (next cursor).token) := by
  rcases token_cases (next cursor).token.kind last with stops | ⟨hk, drops⟩ | ⟨stops, keeps⟩
  · exact ⟨_, _, congrArg Scanned.tokens (scanFrom_stop stops), fun _ => rfl⟩
  · obtain ⟨others, final, ht, -⟩ := Parse.scanFrom_ends file last .empty cursor
    obtain ⟨first, after, hc⟩ := List.exists_cons_of_ne_nil
      (ht ▸ List.append_ne_nil_of_right_ne_nil others (List.cons_ne_nil _ _))
    exact ⟨first, after, hc, fun h => absurd (h.symm.trans drops) Bool.false_ne_true⟩
  · exact ⟨_, _, congrArg Scanned.tokens (scanFrom_token stops keeps), fun _ => rfl⟩

end Scan

/-- Nothing but the end comes in what is left. -/
theorem shortened_stop {file : SourceFile} {last : Option Kind} {cursor : Cursor} {stop : Token}
    (space : (next cursor).token.spaceBefore = false → stop.spaceBefore = false) :
    Shortened stop last (scanFrom file last .empty cursor).tokens [stop] := by
  obtain ⟨first, after, h, token⟩ := scanFrom_first file last cursor
  rw [h]
  refine .nothing fun bang hf => ?_
  rw [token (bang ▸ rfl)] at hf
  exact space hf

/-- A string without an end is the last token of what is left. -/
theorem scanFrom_quoted (file file' : SourceFile) {whole : List Char} {last : Option Kind}
    {cursor cursor' : Cursor} (reports : (next cursor).reports = [])
    (cuts : Lexeme.Cuts (next cursor).token.kind (next cursor').token.kind)
    (space : (next cursor').token.spaceBefore = (next cursor).token.spaceBefore)
    (after : (next cursor').after.rest = []) (unfinished : Unfinished (next cursor').reports) :
    ∃ stop : Token, stop.kind = .endOfInput
      ∧ Shortened stop last (scanFrom file last .empty cursor).tokens
        (scanFrom file' last .empty cursor').tokens
      ∧ Blame file' whole stop (scanFrom file' last .empty cursor').log := by
  have stops := cuts.ne (show Parse.Plain .endOfInput from trivial)
  have breaks := cuts.ne (show Parse.Plain .newline from trivial)
  have bang := cuts.ne (show Parse.Plain (.punct .bang) from trivial)
  rw [scanFrom_token stops.1 fun h => absurd h breaks.1,
    scanFrom_token stops.2 fun h => absurd h breaks.2, reports]
  obtain ⟨first, others, hf, -⟩ :=
    scanFrom_first file (some (next cursor).token.kind) (next cursor).after
  have behind : (next cursor').after = ⟨(next cursor').after.position, []⟩ := by rw [← after]
  obtain ⟨stop, isEnd, hs⟩ := scanFrom_nil file' (some (next cursor').token.kind)
    (Log.empty.pushAll ((next cursor').reports.map file'.diagnose)) (next cursor').after.position
  rw [behind, hs]
  refine ⟨stop, isEnd, ?_, .unfinished unfinished⟩
  show Shortened stop last ([] ++ _ :: (scanFrom file _ .empty _).tokens) ([] ++ [_, stop])
  rw [hf]
  exact .cut cuts.1 space fun hk => absurd hk bang.1

/-- **Scanning what is left** of a text without faults. -/
theorem scanFrom_cut (file file' : SourceFile) {whole text more : List Char} {last : Option Kind}
    {place : Position} (hs : text <:+ whole)
    (clean : (scanFrom file last .empty ⟨place, text ++ '\n' :: more⟩).log.total = 0) :
    ∃ stop : Token, stop.kind = .endOfInput
      ∧ Shortened stop last (scanFrom file last .empty ⟨place, text ++ '\n' :: more⟩).tokens
        (scanFrom file' last .empty ⟨place, text⟩).tokens
      ∧ Blame file' whole stop (scanFrom file' last .empty ⟨place, text⟩).log := by
  -- on the length of what is left: behind a token before the cut the same holds of the rest
  induction hn : text.length using Nat.strong_induction_on generalizing text last place with
  | _ n ih =>
    subst hn
    have reports := reports_next clean
    cases next_cut reports with
    | same place' rest token left whole_after left_after suffix shorter =>
      have ih {last' : Option Kind} := @ih _ shorter rest last' place' (suffix.trans hs)
      rcases token_cases (next ⟨place, text⟩).token.kind last with
        stops | ⟨hk, drops⟩ | ⟨stops, keeps⟩
      · rw [scanFrom_stop stops, left]
        exact ⟨_, stops, shortened_stop fun h => token ▸ h, .nothing _ _ _⟩
      · rw [scanFrom_dropped (token ▸ hk) drops, reports, whole_after] at clean ⊢
        rw [scanFrom_dropped hk drops, left, left_after]
        exact ih clean rfl
      · rw [scanFrom_token (token ▸ stops) (token ▸ keeps), reports, whole_after] at clean ⊢
        rw [scanFrom_token stops keeps, left, left_after, token]
        obtain ⟨stop, isEnd, shortened, blame⟩ := ih clean rfl
        exact ⟨stop, isEnd, shortened.cons last, blame⟩
    | newline kind isEnd space left =>
      rw [scanFrom_stop isEnd, left]
      exact ⟨_, isEnd, shortened_stop fun h => space.trans h, .nothing _ _ _⟩
    | quoted cuts space after unfinished =>
      exact scanFrom_quoted file file' reports cuts space after unfinished
    | escape report left code early space isEnd backslash =>
      rw [scanFrom_stop isEnd, left]
      refine ⟨_, isEnd, shortened_stop fun h => ?_, .escape code early (backslash.trans hs)⟩
      rw [space] at h
      cases h

end ScriptCompiler.Token
