import ScriptCompiler.Source.Span

/-!
# Diagnostics

What is wrong with a source text, and where. A diagnostic's code fixes its category: the codes from
200 to 299 are for well-formed source that the compiler does not take, all others for malformed
source.
-/

namespace ScriptCompiler

/-- How grave a diagnostic is. -/
inductive Severity where
  | error
  | warning
  deriving DecidableEq, Repr

/-- What kind of fault a diagnostic reports. -/
inductive Category where
  | syntactic
  | unsupported
  deriving DecidableEq, Repr

/-- The severity as it is written. -/
def Severity.text : Severity → String
  | .error => "error"
  | .warning => "warning"

/-- The category as it is written. -/
def Category.text : Category → String
  | .syntactic => "syntax"
  | .unsupported => "unsupported"

/-- The number of a kind of diagnostic. -/
structure Code where
  number : Nat
  deriving DecidableEq, Repr

namespace Code

/-- A token that cannot stand here. -/
def unexpectedToken : Code := ⟨100⟩

/-- The source stops inside an open construct. -/
def unexpectedEnd : Code := ⟨101⟩

/-- The source stops inside a string. -/
def unterminatedString : Code := ⟨102⟩

/-- An assignment to what cannot be assigned. -/
def invalidTarget : Code := ⟨103⟩

/-- A character outside the language. -/
def invalidCharacter : Code := ⟨104⟩

/-- An escape sequence without a meaning. -/
def invalidEscape : Code := ⟨105⟩

/-- An integer literal beyond 64 bits. -/
def integerOverflow : Code := ⟨106⟩

/-- Expressions inside one another beyond the limit. -/
def nestingTooDeep : Code := ⟨107⟩

/-- A construct that the compiler does not take. -/
def unsupportedSyntax : Code := ⟨200⟩

/-- A literal that the compiler does not take. -/
def unsupportedLiteral : Code := ⟨201⟩

/-- The category that the code belongs to. -/
def category (c : Code) : Category :=
  if 200 ≤ c.number ∧ c.number ≤ 299 then .unsupported else .syntactic

/-- The code says that the source stops early, not that it is wrong. -/
def isEndOfInput (c : Code) : Bool :=
  c = unexpectedEnd || c = unterminatedString

/-- The code as it is written. -/
def text (c : Code) : String :=
  "E" ++ toString c.number

end Code

/-- A fault at a place of a source text. -/
structure Diagnostic where
  file : String
  code : Code
  severity : Severity
  category : Category
  message : String
  span : Span
  /-- The source line on which the span starts. -/
  sourceLine : String
  suggestion : Option String
  deriving DecidableEq, Repr

namespace Diagnostic

/-- The error with this code; its category is the code's. -/
def error (file : String) (code : Code) (message : String) (span : Span) (sourceLine : String)
    (suggestion : Option String) : Diagnostic :=
  ⟨file, code, .error, code.category, message, span, sourceLine, suggestion⟩

/-- The diagnostic as one line. -/
def text (d : Diagnostic) : String :=
  d.file ++ ":" ++ d.span.text ++ ": " ++ d.code.text ++ " [" ++ d.category.text ++ "] "
    ++ d.message

end Diagnostic

/-- A fault found in a source text that is not named yet. -/
structure Report where
  code : Code
  message : String
  span : Span
  suggestion : Option String
  deriving DecidableEq, Repr

/-- The error that a report stands for in this file; it quotes the line on which the span starts,
or an empty one if the file has no such line. -/
def SourceFile.diagnose (file : SourceFile) (r : Report) : Diagnostic :=
  .error file.name r.code r.message r.span ((file.line? r.span.startLine).getD "") r.suggestion

/-! ## Diagnostic logs

The diagnostics of one pass over a source text. A log keeps the first twenty and counts the rest.
-/

/-- Diagnostics kept in order, and how many there were. -/
structure Log where
  kept : List Diagnostic
  total : Nat
  deriving DecidableEq, Repr

namespace Log

/-- How many diagnostics a log keeps. -/
def capacity : Nat := 20

/-- The log without diagnostics. -/
def empty : Log := ⟨[], 0⟩

/-- The log has counted a diagnostic. -/
def hasErrors (l : Log) : Bool :=
  0 < l.total

/-- The log has counted as many diagnostics as it keeps, so that a pass stops. -/
def isFull (l : Log) : Bool :=
  capacity ≤ l.total

/-- Counts a diagnostic and keeps it if there is room. -/
def push (l : Log) (d : Diagnostic) : Log :=
  ⟨if l.kept.length < capacity then l.kept ++ [d] else l.kept, l.total + 1⟩

/-- Counts diagnostics one after the other. -/
def pushAll (l : Log) (ds : List Diagnostic) : Log :=
  ds.foldl push l

/-- Counts what another log counted, in its order. -/
def append (l other : Log) : Log :=
  let both := l.pushAll other.kept
  { both with total := both.total + (other.total - other.kept.length) }

/-- The first diagnostic. -/
def first? (l : Log) : Option Diagnostic :=
  l.kept.head?

/-- How many diagnostics were counted and not kept. -/
def dropped (l : Log) : Nat :=
  l.total - l.kept.length

/-- The log as lines: one for each diagnostic kept, and a last one if there were more. -/
def text (l : Log) : String :=
  "\n".intercalate (l.kept.map Diagnostic.text)
    ++ (if l.dropped = 0 then "" else "\n... and " ++ toString l.dropped ++ " more")

/-- The kept diagnostic that starts first; of several, the one that was reported first. -/
def earliest? (l : Log) : Option Diagnostic :=
  l.kept.foldl
    (fun best d =>
      match best with
      | none => some d
      | some b => if Span.noLater b.span.start d.span.start then some b else some d)
    none

@[simp] theorem total_push (l : Log) (d : Diagnostic) : (l.push d).total = l.total + 1 := rfl

@[simp] theorem total_pushAll (l : Log) (ds : List Diagnostic) :
    (l.pushAll ds).total = l.total + ds.length := by
  induction ds generalizing l with
  | nil => rfl
  | cons d ds ih =>
    simp only [pushAll, List.foldl_cons, List.length_cons] at ih ⊢
    rw [ih, total_push]
    omega

end Log

end ScriptCompiler
