import ScriptCompiler.Proofs.Scanning.Order
import ScriptCompiler.Proofs.Text.Lines

/-!
# Places in a text

A text has one line more than line breaks, and every place of a cursor in it is on one of them, at
most one column behind its last byte. So the spans that the scanner makes are in the text: those of
its tokens, and those of its reports, whether they run over several lines or stand at the end of the
text.
-/

namespace ScriptCompiler

/-! ## Lines -/

namespace Text

/-- The text has this line, without the line break behind it, as the one with this number. -/
def IsLine (text : List Char) (n : Nat) (line : List Char) : Prop :=
  ∃ before after, text = before ++ line ++ after ∧ n = before.count '\n' + 1 ∧ '\n' ∉ line
    ∧ (∀ c ∈ before.getLast?, c = '\n') ∧ ∀ c ∈ after.head?, c = '\n'

/-- What is left of the line when the carriage returns at its end are taken away. -/
def IsStripped (line stripped : List Char) : Prop :=
  ∃ returns, line = stripped ++ returns ∧ (∀ c ∈ returns, c = '\r')
    ∧ ∀ c ∈ stripped.getLast?, c ≠ '\r'

section Lines

variable {text line before rest : List Char} {n : Nat}

/-- The last line of what stands before a place. -/
def lastLine (before : List Char) : List Char :=
  (before.reverse.takeWhile (· ≠ '\n')).reverse

theorem exists_lastLine (before : List Char) :
    ∃ above, before = above ++ lastLine before ∧ (∀ c ∈ above.getLast?, c = '\n')
      ∧ '\n' ∉ lastLine before := by
  refine ⟨(before.reverse.dropWhile (· ≠ '\n')).reverse, ?_, fun c hc => ?_, fun hm => ?_⟩
  · rw [lastLine, ← List.reverse_append, List.takeWhile_append_dropWhile, List.reverse_reverse]
  · have stops := List.head?_dropWhile_not (· ≠ '\n') before.reverse
    rw [List.getLast?_reverse] at hc
    rw [hc] at stops
    simpa using stops
  · have inside := List.mem_takeWhile_imp (List.mem_reverse.mp hm)
    simp at inside

/-- The line of a place: what stands before the place on it, and what stands behind. -/
theorem isLine_of_append (before rest : List Char) :
    IsLine (before ++ rest) (before.count '\n' + 1)
      (lastLine before ++ rest.takeWhile (· ≠ '\n')) := by
  obtain ⟨above, parts, breaks, oneLine⟩ := exists_lastLine before
  have behind : '\n' ∉ rest.takeWhile (· ≠ '\n') := fun hm => by
    simpa using List.mem_takeWhile_imp hm
  have lines : before.count '\n' = above.count '\n' := by
    rw [parts, List.count_append, List.count_eq_zero_of_not_mem oneLine, Nat.add_zero]
  refine ⟨above, rest.dropWhile (· ≠ '\n'), ?_, congrArg (· + 1) lines,
    fun hm => (List.mem_append.mp hm).elim oneLine behind, breaks, fun c hc => ?_⟩
  · rw [← List.append_assoc, ← parts, List.append_assoc, List.takeWhile_append_dropWhile]
  · have stops := List.head?_dropWhile_not (· ≠ '\n') rest
    rw [hc] at stops
    simpa using stops

/-- A line is a piece between line feeds. -/
theorem IsLine.split (h : IsLine text n line) : (split text)[n - 1]? = some line := by
  obtain ⟨before, after, rfl, rfl, oneLine, above, below⟩ := h
  have first : ∃ more, Text.split (line ++ after) = line :: more := by
    cases after with
    | nil => exact ⟨[], by rw [List.append_nil, Text.split, splitAt_of_not_mem oneLine]⟩
    | cons c after =>
      obtain rfl := below c rfl
      exact ⟨_, by rw [Text.split, splitAt_append, splitAt_of_not_mem oneLine]; rfl⟩
  obtain ⟨more, pieces⟩ := first
  rcases List.eq_nil_or_concat before with rfl | ⟨start, c, rfl⟩
  · rw [List.nil_append, pieces]
    rfl
  · obtain rfl : c = '\n' := above c (by simp)
    have cut : start.concat '\n' ++ line ++ after = start ++ '\n' :: (line ++ after) := by simp
    have length : (splitAt '\n' start).length = start.count '\n' + 1 := length_splitAt ..
    have number : (start.concat '\n').count '\n' + 1 - 1 = (splitAt '\n' start).length := by
      rw [length, List.concat_eq_append, List.count_append]
      rfl
    rw [cut, Text.split, splitAt_append, number, List.getElem?_append_right (Nat.le_refl _),
      Nat.sub_self]
    exact congrArg (·[0]?) pieces

/-- Carriage returns at the end of a line are not quoted. -/
theorem isStripped_dropReturns (line : List Char) : IsStripped line (dropReturns line) := by
  refine ⟨(line.reverse.takeWhile (· = '\r')).reverse, ?_, fun c hc => ?_, fun c hc => ?_⟩
  · rw [dropReturns, ← List.reverse_append, List.takeWhile_append_dropWhile,
      List.reverse_reverse]
  · simpa using List.mem_takeWhile_imp (List.mem_reverse.mp hc)
  · have stops := List.head?_dropWhile_not (· = '\r') line.reverse
    rw [dropReturns, List.getLast?_reverse] at hc
    rw [hc] at stops
    simpa using stops

end Lines

/-- The line and the byte column of a place in the text: on one of its lines, and at most one column
behind the last byte of it. -/
def HasPlace (text : List Char) (place : Nat × Nat) : Prop :=
  ∃ line, IsLine text place.1 line ∧ 1 ≤ place.2 ∧ place.2 ≤ String.utf8Len line + 1

/-- What is to the left of a place is a place of the same line. -/
theorem HasPlace.left {text : List Char} {line column column' : Nat}
    (h : HasPlace text (line, column)) (first : 1 ≤ column') (le : column' ≤ column) :
    HasPlace text (line, column') := by
  obtain ⟨cs, isLine, -, last⟩ := h
  exact ⟨cs, isLine, first, Nat.le_trans le last⟩

end Text

/-! ## The order of places -/

namespace Span

variable {p q r : Nat × Nat}

theorem noLater_iff : noLater p q = true ↔ p.1 < q.1 ∨ p.1 = q.1 ∧ p.2 ≤ q.2 := by
  simp [noLater]

theorem noLater_refl (p : Nat × Nat) : noLater p p = true :=
  noLater_iff.mpr (.inr ⟨rfl, Nat.le_refl _⟩)

theorem noLater_trans (h : noLater p q = true) (h' : noLater q r = true) : noLater p r = true := by
  rw [noLater_iff] at *
  omega

/-- Of two places one comes first. -/
theorem noLater_of_not (h : noLater q p = false) : noLater p q = true := by
  rw [← Bool.not_eq_true, noLater_iff] at h
  rw [noLater_iff]
  omega

end Span

/-- The span is in the text: it does not end before it starts, and it starts and ends at places of
the text. -/
structure Span.InText (text : List Char) (s : Span) : Prop where
  ordered : Span.noLater s.start s.finish = true
  start : Text.HasPlace text s.start
  finish : Text.HasPlace text s.finish

namespace Span.InText

variable {text : List Char} {a b : Span}

/-- The text has the line on which the span starts. -/
theorem startLine_pos (h : a.InText text) : 1 ≤ a.startLine := by
  obtain ⟨line, ⟨before, after, -, (number : a.startLine = _), -⟩, -⟩ := h.start
  exact number ▸ Nat.le_add_left 1 _

theorem not_isSynthetic (h : a.InText text) : a.isSynthetic = false :=
  decide_eq_false (Nat.ne_of_gt h.startLine_pos)

theorem merge (ha : a.InText text) (hb : b.InText text) : (a.merge b).InText text := by
  simp only [Span.merge, ha.not_isSynthetic, hb.not_isSynthetic, Bool.false_eq_true, if_false]
  obtain ⟨orderedA, startA, finishA⟩ := ha
  obtain ⟨orderedB, startB, finishB⟩ := hb
  have ordered : Span.noLater (if noLater a.start b.start then a.start else b.start)
      (if noLater a.finish b.finish then b.finish else a.finish) = true := by
    simp only [noLater_iff] at orderedA orderedB ⊢
    split <;> split <;> omega
  refine ⟨ordered, ?_, ?_⟩
  · show Text.HasPlace text (if noLater a.start b.start then a.start else b.start)
    split <;> assumption
  · show Text.HasPlace text (if noLater a.finish b.finish then b.finish else a.finish)
    split <;> assumption

end Span.InText

/-- The file quotes the line on which a span of its text starts. -/
theorem SourceFile.line?_of_inText {name source : String} {s : Span}
    (h : s.InText source.toList) : ∃ line quoted,
      (SourceFile.ofText name source).line? s.startLine = some quoted
        ∧ Text.IsLine source.toList s.startLine line ∧ Text.IsStripped line quoted.toList := by
  obtain ⟨line, isLine, -⟩ := h.start
  refine ⟨line, String.ofList (Text.dropReturns line), ?_, isLine, ?_⟩
  · obtain ⟨n, number⟩ := Nat.exists_eq_add_one.mpr h.startLine_pos
    have piece : (Text.split source.toList)[s.startLine - 1]? = some line := isLine.split
    rw [number, Nat.add_sub_cancel] at piece
    rw [number]
    show (SourceFile.ofText name source).lines[n]? = _
    rw [SourceFile.ofText, List.getElem?_map, piece]
    rfl
  · rw [String.toList_ofList]
    exact Text.isStripped_dropReturns line

namespace Token

variable {text cs : List Char} {p q start here : Position} {cursor : Cursor}

/-! ## Places of the cursor -/

theorem Cursor.Within.hasPlace (h : cursor.Within text) :
    Text.HasPlace text (cursor.position.line, cursor.position.column) := by
  obtain ⟨before, rfl, position⟩ := h
  have isLine := Text.isLine_of_append before cursor.rest
  have bytes : String.utf8Len (Text.lastLine before)
      = String.utf8Len (before.reverse.takeWhile (· ≠ '\n')) := String.utf8Len_reverse _
  rw [position, Position.behind]
  refine ⟨_, Nat.add_comm 1 _ ▸ isLine, Nat.le_add_right 1 _, ?_⟩
  rw [String.utf8Len_append, bytes, Nat.add_comm _ 1]
  exact Nat.add_le_add_left (Nat.le_add_right _ _) 1

/-- The text has a place there. -/
def Position.In (text : List Char) (p : Position) : Prop :=
  ∃ rest, Cursor.Within text ⟨p, rest⟩

theorem Cursor.Within.position (h : cursor.Within text) : cursor.position.In text :=
  ⟨cursor.rest, h⟩

theorem Cursor.Within.past (n : Nat) (h : Cursor.Within text ⟨p, cs⟩) :
    Cursor.Within text ⟨p.past (cs.take n), cs.drop n⟩ :=
  h.skip n

theorem Position.In.hasPlace (h : p.In text) : Text.HasPlace text (p.line, p.column) :=
  h.elim fun _ within => within.hasPlace

theorem Position.In.point (h : p.In text) : p.point.InText text where
  ordered := by simp [Span.noLater, Span.start, Span.finish, Position.point, Span.point]
  start := h.hasPlace
  finish := h.hasPlace

/-- A span that takes a character. -/
theorem Position.In.spanTo (hp : p.In text) (hq : q.In text) (before : p.Before q) :
    (p.spanTo q).InText text where
  ordered := by
    unfold Position.Before at before
    rw [Span.noLater_iff]
    simp only [Span.start, Span.finish, Position.spanTo]
    omega
  start := hp.hasPlace
  finish := by
    obtain ⟨_, _, first, _⟩ := hq.hasPlace
    exact hq.hasPlace.left (Nat.le_max_right _ _) (by simp only [Position.spanTo] at *; omega)

theorem Position.Before.past (h : p.Before q) (cs : List Char) : p.Before (q.past cs) :=
  h.of_before_of_not (q.not_past_before cs)

/-! ## Reports on literals -/

theorem inText_byteEscape (within : Cursor.Within text ⟨start, '\\' :: 'x' :: cs⟩) :
    ∀ r ∈ (byteEscape start (start.step '\\') cs).reports, r.span.InText text := by
  have letter : Cursor.Within text ⟨(start.step '\\').step 'x', cs⟩ := within.step.step
  have before : start.Before ((start.step '\\').step 'x') :=
    (start.before_step _).trans (Position.before_step _ _)
  unfold byteEscape
  dsimp only
  split
  · exact List.forall_mem_nil _
  · rw [List.forall_mem_singleton]
    exact within.position.spanTo (letter.past _).position (before.past _)

theorem inText_codePointEscape (within : Cursor.Within text ⟨start, '\\' :: 'u' :: cs⟩) :
    ∀ r ∈ (codePointEscape start (start.step '\\') cs).reports, r.span.InText text := by
  have letter : Cursor.Within text ⟨(start.step '\\').step 'u', cs⟩ := within.step.step
  have before : start.Before ((start.step '\\').step 'u') :=
    (start.before_step _).trans (Position.before_step _ _)
  have after (n : Nat) :
      (start.spanTo (((start.step '\\').step 'u').past (cs.take n))).InText text :=
    within.position.spanTo (letter.past n).position (before.past _)
  unfold codePointEscape
  extract_lets place finish
  have finished (value least count length : Nat) :
      ∀ r ∈ (finish value least count length).reports, r.span.InText text := by
    intro r hr
    simp only [finish] at hr
    split at hr
    · cases hr
    · rw [List.mem_singleton.mp hr]
      exact after length
  split
  · dsimp only
    split
    · exact finished _ _ _ _
    · rw [List.forall_mem_singleton]
      exact after _
  · exact finished _ _ _ _

theorem inText_escape (within : Cursor.Within text ⟨start, '\\' :: cs⟩) :
    ∀ r ∈ (escape start cs).reports, r.span.InText text := by
  unfold escape
  split
  · rw [List.forall_mem_singleton]
    exact within.position.spanTo within.step.position (start.before_step _)
  · split
    case h_10 => exact inText_byteEscape within
    case h_11 => exact inText_codePointEscape within
    all_goals exact List.forall_mem_nil _

/-- The string starts before the place where reading goes on. -/
theorem inText_unterminated (opens : start.In text) (before : start.Before here)
    (within : here.In text) : ∀ r ∈ [unterminated start here], r.span.InText text := by
  rw [List.forall_mem_singleton]
  exact opens.spanTo within before

theorem inText_doubleQuoted (opens : start.In text) (before : start.Before here)
    (within : Cursor.Within text ⟨here, cs⟩) :
    ∀ r ∈ (doubleQuoted start here cs).reports, r.span.InText text := by
  fun_induction doubleQuoted start here cs with
  | case1 here => exact inText_unterminated opens before within.position
  | case2 here => exact List.forall_mem_nil _
  | case3 here rest piece length ih =>
    have after := before.trans (here.before_step '\\')
    exact List.forall_mem_append.mpr
      ⟨inText_escape within, ih (after.past _) (within.step.past length)⟩
  | case4 here rest reports ih =>
    refine List.forall_mem_append.mpr ⟨?_, ih (before.trans (here.before_step _)) within.step⟩
    simp only [reports]
    split
    · rw [List.forall_mem_singleton]
      exact within.position.point
    · exact List.forall_mem_nil _
  | case5 here c rest _ _ _ ih =>
    exact List.forall_mem_append.mpr
      ⟨List.forall_mem_nil _, ih (before.trans (here.before_step _)) within.step⟩

theorem inText_singleQuoted (opens : start.In text) (before : start.Before here)
    (within : Cursor.Within text ⟨here, cs⟩) :
    ∀ r ∈ (singleQuoted start here cs).reports, r.span.InText text := by
  fun_induction singleQuoted start here cs with
  | case1 here => exact inText_unterminated opens before within.position
  | case2 here => exact List.forall_mem_nil _
  | case3 here rest ih =>
    have after := (before.trans (here.before_step '\\')).trans (Position.before_step _ '\\')
    exact List.forall_mem_append.mpr ⟨List.forall_mem_nil _, ih after within.step.step⟩
  | case4 here rest ih =>
    have after := (before.trans (here.before_step '\\')).trans (Position.before_step _ '\'')
    exact List.forall_mem_append.mpr ⟨List.forall_mem_nil _, ih after within.step.step⟩
  | case5 here c rest _ _ _ ih =>
    exact List.forall_mem_append.mpr
      ⟨List.forall_mem_nil _, ih (before.trans (here.before_step _)) within.step⟩

/-! ## Reports on lexemes -/

namespace Lexeme

/-- The faults of a lexeme. -/
def reports : Lexeme → List Report
  | .complete _ _ reports => reports
  | .unknown report => [report]
  | .strayColon report => [report]

theorem inText_either (single : Punct) (rest : List Char) (longer : List (Char × Punct)) :
    ∀ r ∈ (either single rest longer).reports, r.span.InText text := by
  unfold either
  split <;> exact List.forall_mem_nil _

variable {c : Char}

/-- Some characters that stand in the text from a place on. -/
theorem inText_taken (within : Cursor.Within text ⟨start, c :: cs⟩) (n : Nat) :
    (start.spanTo (start.past (c :: cs.take n))).InText text :=
  within.position.spanTo (within.past (n + 1)).position (start.before_past_cons c _)

theorem inText_sigilName (within : Cursor.Within text ⟨start, c :: cs⟩) (what : String)
    (make : String → Kind) :
    ∀ r ∈ (sigilName start c what make cs).reports, r.span.InText text := by
  unfold sigilName
  dsimp only
  split
  · exact List.forall_mem_singleton.mpr (inText_taken within 0)
  · exact List.forall_mem_nil _

theorem inText_instanceName (within : Cursor.Within text ⟨start, '@' :: cs⟩) :
    ∀ r ∈ (instanceName start cs).reports, r.span.InText text := by
  unfold instanceName
  split
  · next rest =>
    exact List.forall_mem_singleton.mpr (inText_taken within (wordLength rest + 1))
  · exact inText_sigilName within _ _

theorem inText_number (within : Cursor.Within text ⟨start, c :: cs⟩) :
    ∀ r ∈ (number start c cs).reports, r.span.InText text := by
  unfold number
  extract_lets run digits fraction extra span onFraction
  have literal : span.InText text := inText_taken within extra
  have skipped : ∀ r ∈ onFraction, r.span.InText text := by
    simp only [onFraction]
    split
    · exact List.forall_mem_nil _
    · exact List.forall_mem_singleton.mpr literal
  split
  · exact skipped
  · exact List.forall_mem_append.mpr ⟨skipped, List.forall_mem_singleton.mpr literal⟩

theorem inText_colon (within : Cursor.Within text ⟨start, ':' :: cs⟩) :
    ∀ r ∈ (colon start cs).reports, r.span.InText text := by
  unfold colon
  extract_lets stray
  have alone : ∀ r ∈ stray.reports, r.span.InText text :=
    List.forall_mem_singleton.mpr (inText_taken within 0)
  split
  · exact alone
  · exact List.forall_mem_nil _
  · exact inText_doubleQuoted within.position
      ((start.before_step _).trans (Position.before_step _ _)) within.step.step
  · split
    · exact List.forall_mem_nil _
    · split
      · exact List.forall_mem_nil _
      · exact alone

/-- **Faults of a lexeme.** They are reported at places of it. -/
theorem inText_ofChar (within : Cursor.Within text ⟨start, c :: cs⟩) :
    ∀ r ∈ (ofChar start c cs).reports, r.span.InText text := by
  unfold ofChar
  split
  case h_3 => exact inText_doubleQuoted within.position (start.before_step _) within.step
  case h_4 => exact inText_singleQuoted within.position (start.before_step _) within.step
  case h_5 => exact inText_instanceName within
  case h_6 => exact inText_sigilName within _ _
  case h_7 => exact inText_colon within
  case h_10 =>
    split
    · next h =>
      obtain ⟨rest, rfl⟩ := List.head?_eq_some_iff.mp h
      exact List.forall_mem_singleton.mpr (inText_taken within 1)
    · exact inText_either _ _ _
  case h_27 =>
    split
    · exact inText_number within
    split
    · unfold lowerName
      dsimp only
      split <;> exact List.forall_mem_nil _
    split
    · exact List.forall_mem_nil _
    split
    · exact List.forall_mem_nil _
    · exact List.forall_mem_singleton.mpr (inText_taken within 0)
  all_goals first | exact inText_either _ _ _ | exact List.forall_mem_nil _

end Lexeme

/-! ## What the scanner finds -/

/-- **One token**: its span is in the text, and so are the spans of the faults on the way to it. -/
theorem inText_next (within : cursor.Within text) :
    (next cursor).token.span.InText text
      ∧ ∀ r ∈ (next cursor).reports, r.span.InText text := by
  fun_induction next cursor with
  | case1 cursor skipped here =>
    exact ⟨(within.skip skipped).position.point, List.forall_mem_nil _⟩
  | case2 cursor skipped here space c rest h kind extra reports hl after =>
    have start : Cursor.Within text ⟨here.position, c :: rest⟩ := h ▸ within.skip skipped
    have faults := Lexeme.inText_ofChar start
    rw [hl] at faults
    refine ⟨?_, faults⟩
    have taken : here.rest.take (extra + 1) = c :: rest.take extra := by
      rw [← List.take_succ_cons, ← h]
      rfl
    have token := Lexeme.inText_taken start extra
    rw [← taken] at token
    exact token
  | case3 cursor skipped here space c rest h report hl found ih =>
    have start : Cursor.Within text ⟨here.position, c :: rest⟩ := h ▸ within.skip skipped
    have faults := Lexeme.inText_ofChar start
    rw [hl] at faults
    obtain ⟨token, others⟩ := ih start.step
    exact ⟨token, List.forall_mem_cons.mpr ⟨faults _ List.mem_cons_self, others⟩⟩
  | case4 cursor skipped here space c rest h report hl found ih =>
    have start : Cursor.Within text ⟨here.position, c :: rest⟩ := h ▸ within.skip skipped
    have faults := Lexeme.inText_ofChar start
    rw [hl] at faults
    have later := isNext_next start.step
    refine ⟨?_, List.forall_mem_cons.mpr ⟨faults _ List.mem_cons_self, (ih start.step).2⟩⟩
    exact start.position.spanTo later.after.position
      ((here.position.before_step c).of_before_of_not later.not_after_before)

/-- **All tokens**, by induction on the scan: their spans are in the text, and the log is what
reports in the text add up to. -/
theorem inText_scanFrom (file : SourceFile) (last : Option Kind) (log : Log)
    (within : cursor.Within text) :
    (∀ t ∈ (scanFrom file last log cursor).tokens, t.span.InText text)
      ∧ ∃ reports : List Report, (∀ r ∈ reports, r.span.InText text)
        ∧ (scanFrom file last log cursor).log = log.pushAll (reports.map file.diagnose) := by
  fun_induction scanFrom file last log cursor with
  | case1 =>
    exact ⟨List.forall_mem_singleton.mpr within.position.point, [], List.forall_mem_nil _, rfl⟩
  | case2 last log cursor _ found log' _ =>
    obtain ⟨token, faults⟩ := inText_next within
    exact ⟨List.forall_mem_singleton.mpr token, found.reports, faults, rfl⟩
  | case3 last log cursor _ found log' _ _ ih =>
    obtain ⟨token, faults⟩ := inText_next within
    obtain ⟨tokens, reports, others, h⟩ := ih (isNext_next within).after
    exact ⟨tokens, found.reports ++ reports, List.forall_mem_append.mpr ⟨faults, others⟩,
      h.trans (by simp [log', Log.pushAll])⟩
  | case4 last log cursor _ found log' _ _ next' ih =>
    obtain ⟨token, faults⟩ := inText_next within
    obtain ⟨tokens, reports, others, h⟩ := ih (isNext_next within).after
    exact ⟨List.forall_mem_cons.mpr ⟨token, tokens⟩, found.reports ++ reports,
      List.forall_mem_append.mpr ⟨faults, others⟩, h.trans (by simp [log', Log.pushAll])⟩

/-! ## Where tokens end -/

/-- The last place before a position, on the same line. -/
def Position.last (p : Position) : Nat × Nat :=
  (p.line, max (p.column - 1) 1)

theorem Position.last_le (h : ¬ q.Before p) : Span.noLater p.last q.last = true := by
  rw [Span.noLater_iff]
  simp only [last, Before] at *
  omega

theorem Position.last_le_self (h : ¬ q.Before p) (first : 1 ≤ q.column) :
    Span.noLater p.last (q.line, q.column) = true := by
  rw [Span.noLater_iff]
  simp only [last, Before] at *
  omega

/-- A token ends right before the place where scanning goes on, unless it is the end of the text,
which takes no room. -/
theorem finish_next (cursor : Cursor) :
    (next cursor).token.span.finish = (next cursor).after.position.last
      ∨ (next cursor).token.kind = .endOfInput ∧ (next cursor).token.span.finish
        = ((next cursor).after.position.line, (next cursor).after.position.column) := by
  fun_induction next cursor with
  | case1 => exact .inr ⟨rfl, rfl⟩
  | case2 => exact .inl rfl
  | case3 cursor skipped here space c rest h report hl found ih => exact ih
  | case4 => exact .inl rfl

/-- Tokens end in the order in which they come. -/
theorem finishes_scanFrom (file : SourceFile) (last : Option Kind) (log : Log)
    (within : cursor.Within text) :
    (∀ t ∈ (scanFrom file last log cursor).tokens,
        Span.noLater cursor.position.last t.span.finish = true)
      ∧ (scanFrom file last log cursor).tokens.Pairwise
        fun t t' => Span.noLater t.span.finish t'.span.finish = true := by
  have found {cursor : Cursor} (within : cursor.Within text) :
      Span.noLater cursor.position.last (next cursor).token.span.finish = true := by
    have isNext := isNext_next within
    obtain ⟨_, _, first, _⟩ := isNext.after.hasPlace
    rcases finish_next cursor with finish | ⟨-, finish⟩ <;> rw [finish]
    · exact Position.last_le isNext.not_after_before
    · exact Position.last_le_self isNext.not_after_before first
  fun_induction scanFrom file last log cursor with
  | case1 last log cursor =>
    obtain ⟨_, _, first, _⟩ := within.hasPlace
    exact ⟨List.forall_mem_singleton.mpr
      (Position.last_le_self (Position.not_before_self _) first), List.pairwise_singleton _ _⟩
  | case2 => exact ⟨List.forall_mem_singleton.mpr (found within), List.pairwise_singleton _ _⟩
  | case3 last log cursor _ token log' _ _ ih =>
    have isNext := isNext_next within
    obtain ⟨later, ordered⟩ := ih isNext.after
    refine ⟨fun t ht => ?_, ordered⟩
    exact Span.noLater_trans (Position.last_le isNext.not_after_before) (later t ht)
  | case4 last log cursor _ token log' stops _ others ih =>
    have isNext := isNext_next within
    obtain ⟨later, ordered⟩ := ih isNext.after
    have finish : token.token.span.finish = token.after.position.last :=
      (finish_next cursor).resolve_right fun h => stops h.1
    refine ⟨List.forall_mem_cons.mpr ⟨found within, fun t ht => ?_⟩, ordered.cons fun t ht => ?_⟩
    · exact Span.noLater_trans (Position.last_le isNext.not_after_before) (later t ht)
    · exact finish ▸ later t ht

end Token

end ScriptCompiler
