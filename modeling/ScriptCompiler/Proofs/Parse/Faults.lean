import Mathlib.Data.List.Induction
import Mathlib.Data.String.Basic
import ScriptCompiler.Proofs.Scanning.Places
import ScriptCompiler.Proofs.Spans.Grammar
import ScriptCompiler.Proofs.Truncation.Lines
import ScriptCompiler.Token.Scan

/-!
# The faults of a text

Where tokens stand, which fault of a text starts first, and what its diagnostics quote.
-/

/-!
## Places of tokens

Lines and columns are counted from one, and a character moves the sum of both by no more than its
bytes. So every token starts on a line of the text, and none of its numbers is greater than the
bytes of the text and one.
-/

namespace ScriptCompiler

/-- The span starts on a line, and its numbers are below a bound. -/
structure Span.Below (bound : Nat) (s : Span) : Prop where
  sourced : 1 ≤ s.startLine
  startLine : s.startLine < bound
  startColumn : s.startColumn < bound
  endLine : s.endLine < bound
  endColumn : s.endColumn < bound

theorem Span.Below.merge {bound : Nat} {a b : Span} (ha : a.Below bound) (hb : b.Below bound) :
    (a.merge b).Below bound := by
  have left : a.isSynthetic = false := decide_eq_false (by have := ha.sourced; omega)
  have right : b.isSynthetic = false := decide_eq_false (by have := hb.sourced; omega)
  simp only [Span.merge, left, right, Bool.false_eq_true, if_false]
  obtain ⟨ha₀, ha₁, ha₂, ha₃, ha₄⟩ := ha
  obtain ⟨hb₀, hb₁, hb₂, hb₃, hb₄⟩ := hb
  split <;> split <;> constructor <;> assumption

namespace Token

/-- The place is in a text, and no more bytes are left than fit below a bound. -/
structure Cursor.Below (bound : Nat) (c : Cursor) : Prop where
  line : 1 ≤ c.position.line
  column : 1 ≤ c.position.column
  left : c.position.line + c.position.column + String.utf8Len c.rest ≤ bound

namespace Cursor.Below

variable {bound : Nat}

theorem step {p : Position} {c : Char} {rest : List Char} (h : Below bound ⟨p, c :: rest⟩) :
    Below bound ⟨p.step c, rest⟩ := by
  obtain ⟨line, column, left⟩ := h
  have size : 1 ≤ c.utf8Size := c.utf8Size_pos
  simp only [String.utf8Len_cons] at left column line
  unfold Position.step
  split <;> constructor <;> simp only <;> omega

theorem skip {c : Cursor} (h : Below bound c) (n : Nat) : Below bound (c.skip n) := by
  obtain ⟨p, rest⟩ := c
  unfold Cursor.skip
  induction n generalizing p rest with
  | zero => exact h
  | succ n ih =>
    cases rest with
    | nil => exact h
    | cons c rest => exact ih _ _ h.step

theorem spanTo {c after : Cursor} (h : Below bound c) (ha : Below bound after) :
    (c.position.spanTo after.position).Below bound := by
  obtain ⟨line, column, left⟩ := h
  obtain ⟨line', column', left'⟩ := ha
  constructor <;> simp only [Position.spanTo] <;> omega

theorem point {c : Cursor} (h : Below bound c) : c.position.point.Below bound := by
  obtain ⟨line, column, left⟩ := h
  constructor <;> simp only [Position.point, Span.point] <;> omega

end Cursor.Below

variable {bound : Nat}

theorem below_next {cursor : Cursor} (h : cursor.Below bound) :
    (next cursor).token.span.Below bound ∧ (next cursor).after.Below bound := by
  fun_induction next cursor with
  | case1 cursor skipped here => exact ⟨(h.skip skipped).point, h.skip skipped⟩
  | case2 cursor skipped here space c rest hr kind extra reports _ after =>
    have there : after.Below bound := (h.skip skipped).skip _
    exact ⟨(h.skip skipped).spanTo there, there⟩
  | case3 cursor skipped here space c rest hr report _ found ih =>
    have start := h.skip skipped
    rw [Cursor.skip, hr] at start
    exact ih start.step
  | case4 cursor skipped here space c rest hr report _ found ih =>
    have start := h.skip skipped
    have inner : found.after.Below bound := by
      rw [Cursor.skip, hr] at start
      exact (ih start.step).2
    exact ⟨start.spanTo inner, inner⟩

theorem below_scanFrom (file : SourceFile) (last : Option Kind) (log : Log) {cursor : Cursor}
    (h : cursor.Below bound) :
    ∀ t ∈ (scanFrom file last log cursor).tokens, t.span.Below bound := by
  fun_induction scanFrom file last log cursor with
  | case1 => exact List.forall_mem_singleton.mpr h.point
  | case2 last log cursor _ found log' _ => exact List.forall_mem_singleton.mpr (below_next h).1
  | case3 last log cursor _ found log' _ _ ih => exact ih (below_next h).2
  | case4 last log cursor _ found log' _ _ others ih =>
    exact List.forall_mem_cons.mpr ⟨(below_next h).1, ih (below_next h).2⟩

/-- **Places of tokens.** The numbers of a token are bounded by the bytes of the text. -/
theorem below_scan (name source : String) :
    ∀ t ∈ (scan (.ofText name source)).tokens, t.span.Below (source.utf8ByteSize + 2) := by
  refine below_scanFrom _ _ _ ⟨Nat.le_refl _, Nat.le_refl _, ?_⟩
  have size : source.utf8ByteSize = String.utf8Len source.toList := by
    rw [← String.utf8ByteSize_ofList, String.ofList_toList]
  simp only [Cursor.start, SourceFile.ofText, size]
  omega

/-- The log of a scan is what its reports add up to. -/
theorem exists_reports_scanFrom (file : SourceFile) (last : Option Kind) (log : Log)
    (cursor : Cursor) : ∃ reports : List Report,
      (scanFrom file last log cursor).log = log.pushAll (reports.map file.diagnose) := by
  fun_induction scanFrom file last log cursor with
  | case1 => exact ⟨[], rfl⟩
  | case2 last log cursor _ found log' _ => exact ⟨found.reports, rfl⟩
  | case3 last log cursor _ found log' _ _ ih =>
    obtain ⟨reports, h⟩ := ih
    exact ⟨found.reports ++ reports, h.trans (by simp [log', Log.pushAll])⟩
  | case4 last log cursor _ found log' _ _ others ih =>
    obtain ⟨reports, h⟩ := ih
    exact ⟨found.reports ++ reports, h.trans (by simp [log', Log.pushAll])⟩

end Token

end ScriptCompiler

/-!
## The faults of a text

Scanning finds its faults before parsing does, so the faults of a text are not reported in the order
of their places, and only the first ones are kept. A text is incomplete if the fault among those
that starts first says that the text stops early; where none was dropped, this is the fault that
starts first.
-/

namespace ScriptCompiler

/-! ### The first fault -/

namespace Log

/-- Of the diagnostics that start first, the one that was reported first. -/
def IsEarliest (d : Diagnostic) (ds : List Diagnostic) : Prop :=
  ∃ before after, ds = before ++ d :: after
    ∧ (∀ b ∈ before, Span.noLater b.span.start d.span.start = false)
    ∧ ∀ a ∈ after, Span.noLater d.span.start a.span.start = true

theorem isEarliest_append {d x : Diagnostic} {ds : List Diagnostic} (h : IsEarliest d ds) :
    IsEarliest (if Span.noLater d.span.start x.span.start then d else x) (ds ++ [x]) := by
  obtain ⟨before, after, rfl, earlier, later⟩ := h
  split
  · next hx =>
    refine ⟨before, after ++ [x], by simp, earlier, ?_⟩
    rw [List.forall_mem_append, List.forall_mem_singleton]
    exact ⟨later, hx⟩
  · next hx =>
    -- what does not start before `d` does not start before `x` either
    refine ⟨before ++ d :: after, [], rfl, ?_, nofun⟩
    simp only [List.forall_mem_append, List.forall_mem_cons]
    simp only [Span.noLater, Bool.or_eq_true, Bool.or_eq_false_iff, Bool.and_eq_true,
      Bool.and_eq_false_iff, decide_eq_true_eq, decide_eq_false_iff_not] at earlier later hx ⊢
    refine ⟨fun b hb => ?_, by omega, fun a ha => ?_⟩
    · have := earlier b hb
      omega
    · have := later a ha
      omega

theorem isEarliest_earliest? {l : Log} (h : l.kept ≠ []) :
    ∃ d, l.earliest? = some d ∧ IsEarliest d l.kept := by
  unfold earliest?
  generalize l.kept = ds at h ⊢
  induction ds using List.reverseRecOn with
  | nil => exact absurd rfl h
  | append_singleton ds x ih =>
    rw [List.foldl_append, List.foldl_cons, List.foldl_nil]
    by_cases hds : ds = []
    · subst hds
      exact ⟨x, rfl, [], [], rfl, nofun, nofun⟩
    · obtain ⟨d, found, earliest⟩ := ih hds
      refine ⟨_, ?_, isEarliest_append earliest⟩
      rw [found]
      exact (apply_ite some _ _ _).symm

end Log

theorem ParseFailure.log_ofLog (log : Log) : (ofLog log).log = log := by
  unfold ofLog
  split <;> rfl

theorem ParseFailure.isIncomplete_ofLog (log : Log) :
    (ofLog log).isIncomplete = log.earliest?.any fun d => d.code.isEndOfInput := by
  unfold ofLog
  split <;> simp_all [isIncomplete]

namespace Parse

variable {name source : String} {known : List String} {nodes : Body} {failure : ParseFailure}

/-- The logs of both passes are what their reports add up to. -/
theorem exists_reports (name source : String) (known : List String) :
    ∃ scanned parsed : List Diagnostic,
      (Token.scan (.ofText name source)).log = Log.empty.pushAll scanned
        ∧ (ofText name source known).2 = Log.empty.pushAll parsed := by
  obtain ⟨scanned, hs⟩ := Token.exists_reports_scanFrom (.ofText name source) none .empty
    (.start source.toList)
  have anywhere : ∀ t ∈ (Token.scan (.ofText name source)).tokens, True := fun _ _ => trivial
  obtain ⟨⟨parsed, -, hp⟩, -⟩ := sites_ofTokens (P := fun _ => True) (fun _ _ => trivial)
    (.ofText name source) known anywhere trivial
  exact ⟨_, _, hs, hp⟩

theorem ofText_of_parse (h : parse name source known = .ok nodes) :
    (ofText name source known).1 = some nodes := by
  rw [parse_eq] at h
  split at h
  · next statements hs =>
    split at h
    · cases h
    · rw [hs, Except.ok.inj h]
  · cases h

/-- **What a program is made of.** The grammar builds it, of spans with a property of all tokens. -/
theorem within_of_parse {P : Span → Prop} (merges : Span.Merges P)
    (tokens : ∀ t ∈ (Token.scan (.ofText name source)).tokens, P t.span) (first : P (.point 1 1))
    (h : parse name source known = .ok nodes) : Body.Within P nodes :=
  (sites_ofTokens merges (.ofText name source) known tokens first).2 nodes (ofText_of_parse h)

theorem failure_eq (h : parse name source known = .error failure) :
    failure = .ofLog (faults name source known) := by
  rw [parse_eq] at h
  split at h
  · split at h
    · exact (Except.error.inj h).symm
    · cases h
  · exact (Except.error.inj h).symm

/-- A text that is not a program has a fault. -/
theorem total_of_error (h : parse name source known = .error failure) :
    0 < (faults name source known).total := by
  refine Nat.pos_of_ne_zero fun none_ => ?_
  obtain ⟨nodes, hn⟩ := parse_of_nil none_
  rw [hn] at h
  cases h

theorem kept_eq_nil_of_pushAll {ds : List Diagnostic} (h : (Log.empty.pushAll ds).kept = []) :
    (Log.empty.pushAll ds).total = 0 := by
  rw [Log.kept_empty_pushAll, List.take_eq_nil_iff] at h
  rcases h with h | rfl
  · exact absurd h (by decide)
  · rfl

/-- **Incomplete texts.** The faults that are kept are the first ones that scanning reports and then
those that parsing reports, and of these the one that starts first decides. If none was dropped,
they are all faults of the text. -/
theorem isIncomplete_of_parse (h : parse name source known = .error failure) :
    let scanned := (Token.scan (.ofText name source)).log
    let parsed := (ofText name source known).2
    failure.log.kept = (scanned.kept ++ parsed.kept).take Log.capacity
      ∧ failure.log.total = scanned.total + parsed.total
      ∧ (failure.log.dropped = 0 → scanned.dropped = 0 ∧ parsed.dropped = 0
        ∧ failure.log.kept = scanned.kept ++ parsed.kept)
      ∧ ∃ d, Log.IsEarliest d failure.log.kept
        ∧ failure.isIncomplete = d.code.isEndOfInput := by
  intro scanned parsed
  obtain ⟨ds, ds', hs, hp⟩ := exists_reports name source known
  have log : failure.log = Log.empty.pushAll (ds ++ ds') := by
    rw [failure_eq h, ParseFailure.log_ofLog, faults, hs, hp, Log.append_pushAll]
  have some_ : failure.log.kept ≠ [] := by
    intro none_
    have fault := total_of_error h
    rw [log] at none_
    rw [← ParseFailure.log_ofLog (faults _ _ _), ← failure_eq h, log,
      kept_eq_nil_of_pushAll none_] at fault
    exact absurd fault (Nat.lt_irrefl 0)
  obtain ⟨d, found, earliest⟩ := Log.isEarliest_earliest? some_
  have kind : failure.isIncomplete = d.code.isEndOfInput := by
    rw [failure_eq h, ParseFailure.log_ofLog] at found
    rw [failure_eq h, ParseFailure.isIncomplete_ofLog, found, Option.any_some]
  have empty : Log.empty.total = 0 := rfl
  refine ⟨?_, ?_, fun none_ => ?_, d, earliest, kind⟩
  · simp only [scanned, parsed, log, hs, hp, Log.kept_empty_pushAll]
    rw [List.take_append, List.take_append, List.take_take, List.take_take, List.length_take]
    congr 2
    omega
  · simp only [scanned, parsed, log, hs, hp, Log.total_pushAll, List.length_append]
    omega
  · -- there is room for all of them
    simp only [log, Log.dropped, Log.kept_empty_pushAll, Log.total_pushAll, List.length_append,
      List.length_take, empty] at none_
    have room : ds.length + ds'.length ≤ Log.capacity := by omega
    simp only [scanned, parsed, log, hs, hp, Log.dropped, Log.kept_empty_pushAll,
      Log.total_pushAll, empty]
    rw [List.take_of_length_le (by omega), List.take_of_length_le (by omega),
      List.take_of_length_le (by rw [List.length_append]; exact room)]
    exact ⟨by omega, by omega, rfl⟩

/-- A string that never ends, with twenty pieces of code in it. Each piece is a fault, and they are
reported before the missing quote is. -/
def unclosedText : String :=
  "\"" ++ String.join (List.replicate 20 "#\x7b")

/-- How many faults of a text that is not a program were dropped, and whether it is incomplete. -/
def verdict? (source : String) : Option (Nat × Bool) :=
  match parse "main" source [] with
  | .error failure => some (failure.log.dropped, failure.isIncomplete)
  | .ok _ => none

theorem parse_of_verdict? {dropped : Nat} {incomplete : Bool}
    (h : verdict? source = some (dropped, incomplete)) :
    ∃ failure, parse "main" source [] = .error failure ∧ failure.log.dropped = dropped
      ∧ failure.isIncomplete = incomplete := by
  unfold verdict? at h
  split at h
  · next failure hf =>
    obtain ⟨rfl, rfl⟩ := Prod.mk.inj (Option.some.inj h)
    exact ⟨failure, hf, rfl, rfl⟩
  · cases h

/-- The fault that starts first says that the text stops early; it is the only one that is dropped,
and the text is not incomplete. -/
theorem isIncomplete_unclosedText :
    (∃ r ∈ (Token.next (.start unclosedText.toList)).reports, r.code = .unterminatedString
        ∧ ∀ r' ∈ (Token.next (.start unclosedText.toList)).reports,
          r' = r ∨ Span.noLater r'.span.start r.span.start = false)
      ∧ ∃ failure, parse "main" unclosedText [] = .error failure
        ∧ failure.log.dropped = 1 ∧ failure.isIncomplete = false
        ∧ ∃ d, Log.IsEarliest d failure.log.kept ∧ d.code.isEndOfInput = false := by
  refine ⟨by decide +kernel, ?_⟩
  have verdict : verdict? unclosedText = some (1, false) := by decide +kernel
  obtain ⟨failure, h, dropped, complete⟩ := parse_of_verdict? verdict
  obtain ⟨-, -, -, d, earliest, kind⟩ := isIncomplete_of_parse h
  exact ⟨failure, h, dropped, complete, d, earliest, kind ▸ complete⟩

end Parse

end ScriptCompiler

/-!
## What diagnostics point at

The scanner reports faults at places of the text, and the parser at spans of tokens or of nodes,
which are merged from spans of tokens. The end of the text is on its last line, even if nothing
stands there. So a diagnostic always finds the line that it quotes.
-/

namespace ScriptCompiler.Parse

variable {name source : String} {known : List String} {failure : ParseFailure}

/-- The log of a text is what reports in the text add up to. -/
theorem inText_faults (name source : String) (known : List String) :
    ∃ reports : List Report, (∀ r ∈ reports, r.span.InText source.toList)
      ∧ faults name source known
        = Log.empty.pushAll (reports.map (SourceFile.ofText name source).diagnose) := by
  let file := SourceFile.ofText name source
  obtain ⟨tokens, scanned, hs, scannedLog⟩ :=
    Token.inText_scanFrom file none .empty (Token.Cursor.Within.start source.toList)
  obtain ⟨⟨parsed, hp, parsedLog⟩, -⟩ :=
    sites_ofTokens (fun ha hb => ha.merge hb) file known tokens
      (Token.Cursor.Within.start source.toList).position.point
  refine ⟨scanned ++ parsed, List.forall_mem_append.mpr ⟨hs, hp⟩, ?_⟩
  have scannedLog' : (Token.scan file).log = Log.empty.pushAll (scanned.map file.diagnose) :=
    scannedLog
  have parsedLog' : (ofText name source known).2 = Log.empty.pushAll (parsed.map file.diagnose) :=
    parsedLog
  rw [faults, scannedLog', parsedLog', Log.append_pushAll, List.map_append]

/-- **Diagnostics point at the source.** Where a text is not a program, every diagnostic that is
kept has a span that does not end before it starts, starts on a line of the text, and quotes this
line as it stands between line feeds, without the carriage returns at its end. -/
theorem quotes_of_parse (h : parse name source known = .error failure) :
    let file := SourceFile.ofText name source
    file.lineCount = source.toList.count '\n' + 1
      ∧ ∀ d ∈ failure.log.kept, d.span.InText source.toList
        ∧ 1 ≤ d.span.startLine ∧ d.span.startLine ≤ file.lineCount
        ∧ file.line? d.span.startLine = some d.sourceLine
        ∧ ∃ line, Text.IsLine source.toList d.span.startLine line
          ∧ Text.IsStripped line d.sourceLine.toList := by
  intro file
  refine ⟨?_, fun d hd => ?_⟩
  · show ((Text.split source.toList).map _).length = _
    rw [List.length_map]
    exact Text.length_splitAt ..
  · obtain ⟨reports, all, log⟩ := inText_faults name source known
    rw [failure_eq h, ParseFailure.log_ofLog, log, Log.kept_empty_pushAll] at hd
    obtain ⟨r, hr, rfl⟩ := List.mem_map.mp (List.mem_of_mem_take hd)
    obtain ⟨line, quoted, found, isLine, stripped⟩ :=
      @SourceFile.line?_of_inText name source r.span (all r hr)
    have same : (file.diagnose r).sourceLine = quoted := congrArg (·.getD "") found
    obtain ⟨first, last⟩ := SourceFile.line?_isSome_iff.mp (Option.isSome_of_eq_some found)
    exact ⟨all r hr, first, last, found.trans (congrArg some same.symm), line, isLine,
      same ▸ stripped⟩

/-- A sigil without a name on a line that ends with carriage returns, and a condition that is still
open behind the last line break. -/
def openText : String :=
  "f(@)\r\r\nif x\n"

/-- The lines that the diagnostics of a text quote, with their numbers. -/
def quoted? (source : String) : Option (List (Nat × String)) :=
  match parse "main" source [] with
  | .error failure => some (failure.log.kept.map fun d => (d.span.startLine, d.sourceLine))
  | .ok _ => none

/-- The first fault is on the first line, which is quoted without its carriage returns, and the
other one is at the end of the text, on the empty third line. -/
theorem quotes_openText :
    ∃ failure, parse "main" openText [] = .error failure
      ∧ failure.log.kept.map (fun d => (d.span.startLine, d.sourceLine)) = [(1, "f(@)"), (3, "")]
      ∧ ∀ d ∈ failure.log.kept, d.span.startLine ≤ (SourceFile.ofText "main" openText).lineCount
        ∧ (SourceFile.ofText "main" openText).line? d.span.startLine = some d.sourceLine := by
  have quotes : quoted? openText = some [(1, "f(@)"), (3, "")] := by decide +kernel
  unfold quoted? at quotes
  split at quotes
  · next failure h =>
    obtain ⟨-, each⟩ := quotes_of_parse h
    refine ⟨failure, h, Option.some.inj quotes, fun d hd => ?_⟩
    obtain ⟨-, -, last, found, -⟩ := each d hd
    exact ⟨last, found⟩
  · cases quotes

end ScriptCompiler.Parse
