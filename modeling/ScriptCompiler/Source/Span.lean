import ScriptCompiler.Text.Lines

/-!
# Spans of source text

A span names the first and the last character of a stretch of source by line and column, both
counted from one; columns count bytes. A span that starts on line zero belongs to no source text.
-/

namespace ScriptCompiler

/-- A stretch of source text. -/
structure Span where
  startLine : Nat
  startColumn : Nat
  endLine : Nat
  endColumn : Nat
  deriving DecidableEq, Repr, Inhabited

namespace Span

/-- The span of one place. -/
def point (line column : Nat) : Span :=
  ⟨line, column, line, column⟩

/-- The span of a node that was built and not read. -/
def synthetic : Span :=
  ⟨0, 0, 0, 0⟩

/-- The span belongs to no source text. -/
def isSynthetic (s : Span) : Bool :=
  s.startLine = 0

/-- The place comes no later than the other: by line, then by column. -/
def noLater (a b : Nat × Nat) : Bool :=
  a.1 < b.1 || (a.1 = b.1 && a.2 ≤ b.2)

/-- The place where the span starts. -/
def start (s : Span) : Nat × Nat :=
  (s.startLine, s.startColumn)

/-- The place where the span ends. -/
def finish (s : Span) : Nat × Nat :=
  (s.endLine, s.endColumn)

/-- The smallest span that covers both; one that belongs to no source text adds nothing. -/
def merge (a b : Span) : Span :=
  if a.isSynthetic then b
  else if b.isSynthetic then a
  else
    let first := if noLater a.start b.start then a.start else b.start
    let last := if noLater a.finish b.finish then b.finish else a.finish
    ⟨first.1, first.2, last.1, last.2⟩

/-- Where the span starts, as a reader of messages sees it. -/
def text (s : Span) : String :=
  toString s.startLine ++ ":" ++ toString s.startColumn

theorem merge_of_synthetic_left {a b : Span} (h : a.isSynthetic = true) : a.merge b = b := by
  simp [merge, h]

theorem merge_of_synthetic_right {a b : Span} (ha : a.isSynthetic = false)
    (hb : b.isSynthetic = true) : a.merge b = a := by
  simp [merge, ha, hb]

end Span

/-! ## Source files

A source text with the name that messages give it and its lines, for messages that quote one.
-/

/-- A named source text. -/
structure SourceFile where
  name : String
  text : String
  /-- The pieces between line feeds, each without the carriage returns at its end. -/
  lines : List String

namespace SourceFile

/-- The source file of a text. -/
def ofText (name text : String) : SourceFile where
  name := name
  text := text
  lines := (Text.split text.toList).map fun piece => String.ofList (Text.dropReturns piece)

/-- The line with this number, counted from one. -/
def line? (file : SourceFile) : Nat → Option String
  | 0 => none
  | n + 1 => file.lines[n]?

/-- How many lines the text has; a text that ends with a line feed has an empty last line. -/
def lineCount (file : SourceFile) : Nat :=
  file.lines.length

theorem line?_isSome_iff {file : SourceFile} {n : Nat} :
    (file.line? n).isSome ↔ 1 ≤ n ∧ n ≤ file.lineCount := by
  cases n with
  | zero => simp [line?]
  | succ n =>
    have h : (file.line? (n + 1)).isSome = true ↔ n < file.lines.length := by
      rw [line?]
      by_cases lt : n < file.lines.length
      · simp only [List.getElem?_eq_getElem lt, Option.isSome_some, lt]
      · simp only [List.getElem?_eq_none (Nat.le_of_not_lt lt), Option.isSome_none, lt]
        decide
    rw [h, lineCount]
    omega

end SourceFile

end ScriptCompiler
