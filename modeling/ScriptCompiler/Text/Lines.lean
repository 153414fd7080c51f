/-!
# Lines of a text

Two readings of a text as lines. `split` cuts at every line feed, so a text with `n` line feeds has
`n + 1` pieces; `splitAt` cuts at another character. `lines` reads a line feed, and a carriage
return right before it, as the end of a line, so that a text that ends with a line break has no
empty line after it.
-/

namespace ScriptCompiler.Text

/-- The pieces between separators: the first piece and the pieces after it. -/
def cut (separator : Char) : List Char → List Char × List (List Char)
  | [] => ([], [])
  | c :: rest =>
    let (piece, pieces) := cut separator rest
    if c = separator then ([], piece :: pieces) else (c :: piece, pieces)

/-- The pieces between separators. -/
def splitAt (separator : Char) (cs : List Char) : List (List Char) :=
  (cut separator cs).1 :: (cut separator cs).2

/-- The pieces between line feeds. -/
def split (cs : List Char) : List (List Char) :=
  splitAt '\n' cs

/-- The line without one carriage return at its end. -/
def dropReturn (cs : List Char) : List Char :=
  if cs.getLast? = some '\r' then cs.dropLast else cs

/-- The line without the carriage returns at its end. -/
def dropReturns (cs : List Char) : List Char :=
  (cs.reverse.dropWhile (· = '\r')).reverse

/-- Pieces between line feeds as lines: only the last one has no line feed after it. -/
def linesOfPieces : List (List Char) → List (List Char)
  | [] => []
  | [last] => if last.isEmpty then [] else [last]
  | piece :: pieces => dropReturn piece :: linesOfPieces pieces

/-- The lines of a text, without their line breaks. -/
def lines (cs : List Char) : List (List Char) :=
  linesOfPieces (split cs)

/-- A text is never without a piece, and has one more for every separator. -/
theorem length_splitAt (separator : Char) (cs : List Char) :
    (splitAt separator cs).length = cs.count separator + 1 := by
  induction cs with
  | nil => rfl
  | cons c rest ih =>
    simp only [splitAt, cut, List.length_cons] at ih ⊢
    by_cases h : c = separator <;> simp [h] <;> omega

end ScriptCompiler.Text
