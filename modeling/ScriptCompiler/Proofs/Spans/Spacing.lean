import Mathlib.Data.List.TakeWhile
import ScriptCompiler.Proofs.Continuation.Scanning

/-!
# What stands between tokens

A text without faults consists of the characters of its tokens and of what is skipped before each of
them: blanks, escaped line breaks, comments, and the line breaks that end no statement. A token is
marked if something was skipped before it, but only what comes after the last such line break
counts. So a token at the start of a line has no mark of what parts it from the token before.
-/

namespace ScriptCompiler.Token

/-! ## Texts as tokens and gaps -/

/-- What may stand between two tokens. -/
inductive Skip where
  | blank (c : Char) (isBlank : c = ' ' ∨ c = '\t' ∨ c = '\r')
  /-- A backslash and the line break that it escapes. -/
  | joint
  | comment (text : List Char) (oneLine : '\n' ∉ text)
  /-- A line break, or a semicolon, that is dropped. -/
  | lineBreak (c : Char) (isBreak : c = '\n' ∨ c = ';')

namespace Skip

/-- How it is written. -/
def chars : Skip → List Char
  | blank c _ => [c]
  | joint => ['\\', '\n']
  | comment text _ => '#' :: text
  | lineBreak c _ => [c]

/-- It is skipped after a token of the kind `last`, where `rest` comes next: a comment takes all of
its line, and a line break is skipped only where no statement ends. -/
def Fits (last : Option Kind) (rest : List Char) : Skip → Prop
  | comment .. => ∀ c ∈ rest.head?, c = '\n'
  | lineBreak .. => dropsNewline last = true
  | _ => True

/-- It is a line break that is dropped. -/
def IsLineBreak : Skip → Prop
  | lineBreak .. => True
  | _ => False

end Skip

/-- A token, how it is written, and what is skipped before it. -/
structure Written where
  gap : List Skip
  word : List Char
  token : Token

namespace Written

/-- The characters that the token and the gap before it take up. -/
def chars (w : Written) : List Char :=
  w.gap.flatMap Skip.chars ++ w.word

/-- More is skipped before the token. -/
def behind (gap : List Skip) (w : Written) : Written :=
  { w with gap := gap ++ w.gap }

/-- The token comes directly after the token before it, or after a line break that is dropped. -/
def Follows (w : Written) : Prop :=
  w.gap = [] ∨ ∃ s, w.gap.getLast? = some s ∧ s.IsLineBreak

/-- The token is marked unless it follows directly. -/
def Marked (w : Written) : Prop :=
  w.token.spaceBefore = false ↔ w.Follows

variable {w : Written}

/-- No more than what comes last before a token counts. -/
theorem Marked.behind (h : w.Marked) (skips : w.gap ≠ []) (gap : List Skip) :
    (w.behind gap).Marked := by
  have follows : (w.behind gap).Follows ↔ w.Follows := by
    simp [Follows, Written.behind, skips]
  exact h.trans follows.symm

/-- A line break that is dropped does not count. -/
theorem Marked.lineBreak (h : w.Marked) {s : Skip} (isBreak : s.IsLineBreak) :
    (w.behind [s]).Marked := by
  by_cases skips : w.gap = []
  · have unmarked : w.token.spaceBefore = false := h.mpr (.inl skips)
    exact iff_of_true unmarked (.inr ⟨s, by simp [Written.behind, skips], isBreak⟩)
  · exact h.behind skips [s]

/-- What is skipped on a line counts. -/
theorem marked_behind (start : w.gap = []) {gap : List Skip} (plain : ∀ s ∈ gap, ¬ s.IsLineBreak)
    (space : w.token.spaceBefore = false ↔ gap = []) : (w.behind gap).Marked := by
  have all : (w.behind gap).gap = gap := by rw [Written.behind, start, List.append_nil]
  refine space.trans ⟨fun h => .inl (all.trans h), ?_⟩
  rintro (none | ⟨s, last, isBreak⟩)
  · rwa [all] at none
  · rw [all] at last
    exact absurd isBreak (plain s (List.mem_of_getLast? last))

end Written

/-- The tokens of a text without faults, as they stand in it from a place on, after a token of the
kind `last`. The characters of a token are those that its first character takes together with what
comes after it. -/
inductive Layout : Option Kind → Position → List Char → List Written → Prop
  | stop {last : Option Kind} {here : Position} (space : Bool) :
    Layout last here [] [⟨[], [], ⟨.endOfInput, here.point, space⟩⟩]
  | word {last : Option Kind} {here : Position} {c : Char} {more rest : List Char} {kind : Kind}
      {words : List Written} (space : Bool)
      (lexeme : Lexeme.ofChar here c (more ++ rest) = .complete kind more.length [])
      (kept : kind = .newline → dropsNewline last = false)
      (others : Layout (some kind) (here.past (c :: more)) rest words) :
    Layout last here (c :: (more ++ rest))
      (⟨[], c :: more, ⟨kind, here.spanTo (here.past (c :: more)), space⟩⟩ :: words)
  | skip {last : Option Kind} {here : Position} {rest : List Char} {w : Written}
      {words : List Written} (s : Skip) (fits : s.Fits last rest)
      (others : Layout last (here.past s.chars) rest (w :: words)) :
    Layout last here (s.chars ++ rest) (w.behind [s] :: words)

/-- Nothing of a text is lost between its tokens. -/
theorem Layout.chars_eq {last : Option Kind} {here : Position} {text : List Char}
    {words : List Written} (h : Layout last here text words) :
    text = words.flatMap Written.chars := by
  induction h with
  | stop => rfl
  | word space lexeme kept others ih =>
    rw [ih]
    rfl
  | skip s fits others ih =>
    rw [ih]
    simp [Written.chars, Written.behind]

/-! ## One layout -/

/-- A comment ends where its line does. -/
theorem takeWhile_line {line rest : List Char} (oneLine : '\n' ∉ line)
    (fits : ∀ c ∈ rest.head?, c = '\n') : (line ++ rest).takeWhile (· ≠ '\n') = line := by
  rw [takeWhile_stop fun c hc => by simpa using fits c hc, takeWhile_oneLine oneLine]

/-- What is skipped at a place is decided by the text. -/
theorem Skip.unique {last : Option Kind} {s s' : Skip} {rest rest' : List Char}
    (fits : s.Fits last rest) (fits' : s'.Fits last rest')
    (h : s.chars ++ rest = s'.chars ++ rest') : s = s' ∧ rest = rest' := by
  cases s <;> cases s'
  case comment.comment line oneLine line' oneLine' =>
    have same : line ++ rest = line' ++ rest' := (List.cons.inj h).2
    obtain rfl : line = line' := by
      rw [← takeWhile_line oneLine fits, same, takeWhile_line oneLine' fits']
    exact ⟨rfl, List.append_cancel_left same⟩
  -- two of different sorts start with different characters
  all_goals grind [Skip.chars]

/-- A character that is skipped starts no token, unless it is a line break that is dropped. -/
theorem Skip.newline_of_lexeme {last : Option Kind} {s : Skip} {start : Position} {c : Char}
    {rest more : List Char} {kind : Kind} {extra : Nat} (fits : s.Fits last rest)
    (h : s.chars ++ rest = c :: more)
    (lexeme : Lexeme.ofChar start c more = .complete kind extra []) :
    kind = .newline ∧ dropsNewline last = true := by
  cases s with
  | blank d isBlank =>
    obtain ⟨rfl, rfl⟩ := List.cons.inj h
    rcases isBlank with rfl | rfl | rfl <;> cases lexeme
  | joint =>
    obtain ⟨rfl, rfl⟩ := List.cons.inj h
    cases lexeme
  | comment =>
    obtain ⟨rfl, rfl⟩ := List.cons.inj h
    cases lexeme
  | lineBreak d isBreak =>
    obtain ⟨rfl, rfl⟩ := List.cons.inj h
    refine ⟨?_, fits⟩
    rcases isBreak with rfl | rfl <;> exact (Lexeme.complete.inj lexeme).1.symm

/-- There is one way to lay out the tokens in the text. -/
theorem Layout.unique {last : Option Kind} {here : Position} {text : List Char}
    {words words' : List Written} (h : Layout last here text words)
    (h' : Layout last here text words')
    (tokens : words.map (·.token) = words'.map (·.token)) : words = words' := by
  induction h generalizing words' with
  | stop =>
    generalize ht : [] = text at h'
    cases h' with
    | @stop _ _ space' =>
      obtain rfl : _ = space' := (Token.mk.inj (List.cons.inj tokens).1).2.2
      rfl
    | word => cases ht
    | skip s => cases s <;> cases ht
  | @word last here c more rest kind words space lexeme kept others ih =>
    generalize ht : c :: (more ++ rest) = text at h'
    cases h' with
    | stop => cases ht
    | @word _ _ c' more' rest' kind' words' space' lexeme' kept' others' =>
      obtain ⟨rfl, same⟩ := List.cons.inj ht
      rw [← same, lexeme] at lexeme'
      obtain ⟨rfl, length, -⟩ := Lexeme.complete.inj lexeme'
      obtain ⟨rfl, rfl⟩ := List.append_inj same length
      obtain rfl : space = space' := (Token.mk.inj (List.cons.inj tokens).1).2.2
      rw [ih others' (List.cons.inj tokens).2]
    | skip s fits others' =>
      obtain ⟨line, drops⟩ := s.newline_of_lexeme fits ht.symm lexeme
      exact absurd ((kept line).symm.trans drops) Bool.false_ne_true
  | @skip last here rest w words s fits others ih =>
    generalize ht : s.chars ++ rest = text at h'
    cases h' with
    | stop => cases s <;> cases ht
    | word space lexeme kept others' =>
      obtain ⟨line, drops⟩ := s.newline_of_lexeme fits ht lexeme
      exact absurd ((kept line).symm.trans drops) Bool.false_ne_true
    | skip s' fits' others' =>
      obtain ⟨rfl, rfl⟩ := Skip.unique fits fits' ht
      obtain ⟨rfl, rfl⟩ := List.cons.inj (ih others' tokens)
      rfl

/-- There is always the end of the text. -/
theorem Layout.exists_cons {last : Option Kind} {here : Position} {text : List Char}
    {words : List Written} (h : Layout last here text words) : ∃ w words', words = w :: words' := by
  cases h with
  | stop => exact ⟨_, _, rfl⟩
  | word => exact ⟨_, _, rfl⟩
  | skip => exact ⟨_, _, rfl⟩

/-! ## The gap before a token -/

/-- A text is what stands on its first line, and what comes after that. -/
theorem exists_line (text : List Char) : ∃ line rest, text = line ++ rest ∧ '\n' ∉ line
    ∧ (∀ c ∈ rest.head?, c = '\n') ∧ (text.takeWhile (· ≠ '\n')).length = line.length := by
  refine ⟨_, text.dropWhile (· ≠ '\n'), List.takeWhile_append_dropWhile.symm, fun h => ?_,
    fun c hc => ?_, rfl⟩
  · simpa using List.mem_takeWhile_imp h
  · have stops := List.head?_dropWhile_not (· ≠ '\n') text
    rw [hc] at stops
    simpa using stops

/-- What is skipped before the next token are blanks, escaped line breaks and a comment. -/
theorem Layout.behind_trivia {last : Option Kind} {here : Position} {text : List Char} {w : Written}
    {words : List Written}
    (h : Layout last (tokenPlace here text) (text.drop (triviaLength text)) (w :: words)) :
    ∃ gap : List Skip, (∀ s ∈ gap, ¬ s.IsLineBreak) ∧ (gap = [] ↔ triviaLength text = 0)
      ∧ Layout last here text (w.behind gap :: words) := by
  unfold tokenPlace at h
  fun_induction triviaLength text generalizing here with
  | case1 rest ih =>
    obtain ⟨gap, plain, -, hl⟩ := ih h
    exact ⟨.joint :: gap, List.forall_mem_cons.mpr ⟨id, plain⟩, by simp, hl.skip .joint trivial⟩
  | case2 rest =>
    obtain ⟨line, tail, rfl, oneLine, fits, length⟩ := exists_line rest
    rw [length, List.take_succ_cons, List.take_left, List.drop_succ_cons, List.drop_left] at h
    exact ⟨[.comment line oneLine], List.forall_mem_singleton.mpr id, by simp,
      h.skip (.comment line oneLine) fits⟩
  | case3 c rest hs hc blank ih =>
    obtain ⟨gap, plain, -, hl⟩ := ih h
    have isBlank : c = ' ' ∨ c = '\t' ∨ c = '\r' := by
      simpa [Bool.or_eq_true, decide_eq_true_eq, or_assoc] using blank
    exact ⟨.blank c isBlank :: gap, List.forall_mem_cons.mpr ⟨id, plain⟩, by simp,
      hl.skip (.blank c isBlank) trivial⟩
  | case4 c rest hs hc blank => exact ⟨[], List.forall_mem_nil _, by simp, h⟩
  | case5 => exact ⟨[], List.forall_mem_nil _, by simp, h⟩

/-! ## All tokens -/

/-- The tokens stand in the text from a place on, and each is marked if it does not follow. -/
def LaidOut (last : Option Kind) (place : Position) (text : List Char)
    (tokens : List Token) : Prop :=
  ∃ words, Layout last place text words ∧ tokens = words.map (·.token) ∧ ∀ w ∈ words, w.Marked

namespace LaidOut

variable {last : Option Kind} {place : Position} {text : List Char} {tokens : List Token}

theorem stop (h : text.drop (triviaLength text) = []) :
    LaidOut last place text
      [⟨.endOfInput, (tokenPlace place text).point, triviaLength text ≠ 0⟩] := by
  have stop : Layout last (tokenPlace place text) [] [_] := .stop (triviaLength text ≠ 0)
  obtain ⟨gap, plain, none, hl⟩ := Layout.behind_trivia (h ▸ stop)
  refine ⟨_, hl, rfl, List.forall_mem_singleton.mpr ?_⟩
  exact Written.marked_behind rfl plain (by simp [none])

theorem word {c : Char} {more rest : List Char} {kind : Kind}
    (h : text.drop (triviaLength text) = c :: (more ++ rest))
    (lexeme : Lexeme.ofChar (tokenPlace place text) c (more ++ rest)
      = .complete kind more.length [])
    (kept : kind = .newline → dropsNewline last = false)
    (others : LaidOut (some kind) ((tokenPlace place text).past (c :: more)) rest tokens) :
    LaidOut last place text
      (⟨kind, (tokenPlace place text).spanTo ((tokenPlace place text).past (c :: more)),
        triviaLength text ≠ 0⟩ :: tokens) := by
  obtain ⟨words, inner, rfl, marked⟩ := others
  have whole := Layout.word (triviaLength text ≠ 0) lexeme kept inner
  obtain ⟨gap, plain, none, hl⟩ := Layout.behind_trivia (h ▸ whole)
  refine ⟨_, hl, rfl, List.forall_mem_cons.mpr ⟨?_, marked⟩⟩
  exact Written.marked_behind rfl plain (by simp [none])

/-- A line break that is dropped is part of the gap before the next token. -/
theorem lineBreak {c : Char} {rest : List Char} (h : text.drop (triviaLength text) = c :: rest)
    (isBreak : c = '\n' ∨ c = ';') (drops : dropsNewline last = true)
    (others : LaidOut last ((tokenPlace place text).past [c]) rest tokens) :
    LaidOut last place text tokens := by
  obtain ⟨words, inner, rfl, marked⟩ := others
  obtain ⟨w, words, rfl⟩ := inner.exists_cons
  obtain ⟨first, marked⟩ := List.forall_mem_cons.mp marked
  have whole : Layout last (tokenPlace place text) (c :: rest) _ :=
    inner.skip (.lineBreak c isBreak) drops
  obtain ⟨gap, -, -, hl⟩ := Layout.behind_trivia (h ▸ whole)
  refine ⟨_, hl, rfl, List.forall_mem_cons.mpr ⟨?_, marked⟩⟩
  have dropped : (w.behind [.lineBreak c isBreak]).Marked := first.lineBreak trivial
  exact dropped.behind (List.cons_ne_nil _ _) gap

end LaidOut

theorem laidOut_scanFrom (file : SourceFile) {text : List Char} {last : Option Kind}
    {place : Position} (clean : (scanFrom file last .empty ⟨place, text⟩).log.total = 0) :
    LaidOut last place text (scanFrom file last .empty ⟨place, text⟩).tokens := by
  -- on the length of the text: behind a token the same holds of the rest
  induction hn : text.length using Nat.strong_induction_on generalizing text last place with
  | _ n ih =>
    subst hn
    cases hd : text.drop (triviaLength text) with
    | nil =>
      rw [scanFrom_stop (by rw [next_nil hd]), next_nil hd]
      exact .stop hd
    | cons c rest =>
      obtain ⟨kind, extra, hl⟩ := complete_of_clean hd (reports_next clean)
      have fits : Lexeme.Fits rest (.complete kind extra []) := hl ▸ Lexeme.fits_ofChar _ c rest
      have starts : Lexeme.Says (Lexeme.Starts c) (.complete kind extra []) :=
        hl ▸ Lexeme.ofChar_says
      obtain ⟨more, rest, rfl, rfl⟩ : ∃ more rest', rest = more ++ rest' ∧ extra = more.length :=
        ⟨_, _, (List.take_append_drop extra rest).symm, (List.length_take_of_le fits).symm⟩
      have found := next_complete hd hl
      rw [List.take_left, List.drop_left] at found
      have shorter : rest.length < text.length := by
        have := congrArg List.length hd
        simp only [List.length_drop, List.length_cons, List.length_append] at this
        omega
      have logs : Log.empty.pushAll ([].map file.diagnose) = .empty := rfl
      rcases (token_cases kind last).resolve_left starts.1 with ⟨rfl, drops⟩ | ⟨stops, keeps⟩
      · rw [scanFrom_dropped (by rw [found]) drops, found, logs] at clean ⊢
        have isBreak : c = '\n' ∨ c = ';' := starts.2 rfl
        obtain rfl : more = [] := by
          rcases isBreak with rfl | rfl
          all_goals exact List.eq_nil_of_length_eq_zero (Lexeme.complete.inj hl).2.1.symm
        exact .lineBreak hd isBreak drops (ih _ shorter clean rfl)
      · rw [scanFrom_token (by rwa [found]) (by rwa [found]), found, logs] at clean ⊢
        exact .word hd hl keeps (ih _ shorter clean rfl)

/-- The words are the tokens of a source file as they stand in its text. -/
def WordsOf (file : SourceFile) (words : List Written) : Prop :=
  Layout none ⟨1, 1⟩ file.text.toList words ∧ (scan file).tokens = words.map (·.token)

/-- **The mark of a gap.** The tokens of a text without faults stand in it one after the other, in
one way, with gaps before them. A token is unmarked where there is no gap, so that it directly
follows the token before it, and also where the gap ends with a line break that is dropped. -/
theorem spaceBefore_iff (file : SourceFile) (clean : (scan file).log.total = 0) :
    (∃! words, WordsOf file words)
      ∧ ∀ words, WordsOf file words → ∀ w ∈ words, w.token.spaceBefore = false
        ↔ w.gap = [] ∨ ∃ s, w.gap.getLast? = some s ∧ s.IsLineBreak := by
  obtain ⟨words, layout, tokens, marked⟩ := laidOut_scanFrom file clean
  have only : ∀ words', WordsOf file words' → words' = words := fun words' ⟨layout', tokens'⟩ =>
    layout'.unique layout (tokens'.symm.trans tokens)
  exact ⟨⟨words, ⟨layout, tokens⟩, only⟩, fun words' h => only words' h ▸ marked⟩

/-- A sum on two lines. -/
def twoLines : SourceFile :=
  .ofText "t.rb" "1 +\n2"

/-- The tokens of the sum. -/
def twoLinesWords : List Written :=
  [⟨[], ['1'], ⟨.integer 1, ⟨1, 1, 1, 1⟩, false⟩⟩,
    ⟨[.blank ' ' (.inl rfl)], ['+'], ⟨.punct .plus, ⟨1, 3, 1, 3⟩, true⟩⟩,
    ⟨[.lineBreak '\n' (.inl rfl)], ['2'], ⟨.integer 2, ⟨2, 1, 2, 1⟩, false⟩⟩,
    ⟨[], [], ⟨.endOfInput, ⟨2, 2, 2, 2⟩, false⟩⟩]

/-- The second operand is unmarked, and a line break stands before it. -/
theorem spaceBefore_twoLines : (scan twoLines).log.total = 0 ∧ WordsOf twoLines twoLinesWords
    ∧ ∃ w ∈ twoLinesWords, w.token.spaceBefore = false ∧ w.gap ≠ [] := by
  have clean : (scan twoLines).log.total = 0 := by decide +kernel
  have two := @Layout.word (some (.punct .plus)) ⟨2, 1⟩ '2' [] [] (.integer 2) _ false rfl
    Kind.noConfusion (.stop false)
  have broken := @Layout.skip (some (.punct .plus)) ⟨1, 4⟩ ['2'] _ _ (.lineBreak '\n' (.inl rfl))
    rfl two
  have plus := @Layout.word (some (.integer 1)) ⟨1, 3⟩ '+' [] ['\n', '2'] (.punct .plus) _ true rfl
    Kind.noConfusion broken
  have spaced := @Layout.skip (some (.integer 1)) ⟨1, 2⟩ _ _ _ (.blank ' ' (.inl rfl)) trivial plus
  have layout : Layout none ⟨1, 1⟩ "1 +\n2".toList twoLinesWords :=
    @Layout.word none ⟨1, 1⟩ '1' [] [' ', '+', '\n', '2'] (.integer 1) _ false rfl
      Kind.noConfusion spaced
  have laid : WordsOf twoLines twoLinesWords := ⟨layout, by decide +kernel⟩
  have marks := (spaceBefore_iff twoLines clean).2 _ laid
  refine ⟨clean, laid, _, .tail _ (.tail _ (.head _)), ?_, List.cons_ne_nil _ _⟩
  exact (marks _ (.tail _ (.tail _ (.head _)))).mpr (.inr ⟨_, rfl, trivial⟩)

end ScriptCompiler.Token
