import ScriptCompiler.Source.Span

/-!
# Reading positions

A cursor stands in a source text: what is left to read, and the line and byte column of the first
character of it.
-/

namespace ScriptCompiler.Token

/-- A line and a column, both counted from one; columns count bytes. -/
structure Position where
  line : Nat
  column : Nat
  deriving DecidableEq, Repr

namespace Position

/-- The position after a character. -/
def step (p : Position) (c : Char) : Position :=
  if c = '\n' then ⟨p.line + 1, 1⟩ else ⟨p.line, p.column + c.utf8Size⟩

/-- The position after several characters. -/
def past (p : Position) (cs : List Char) : Position :=
  cs.foldl step p

/-- The span of this place. -/
def point (p : Position) : Span :=
  .point p.line p.column

/-- The span from this position to just before another. At the start of a line, where nothing comes
before, it ends on the first column. -/
def spanTo (p after : Position) : Span :=
  ⟨p.line, p.column, after.line, max (after.column - 1) 1⟩

theorem past_append (p : Position) (xs ys : List Char) :
    p.past (xs ++ ys) = (p.past xs).past ys := by
  simp [past]

end Position

/-- A place in a source text. -/
structure Cursor where
  position : Position
  rest : List Char

namespace Cursor

/-- The start of a text. -/
def start (cs : List Char) : Cursor :=
  ⟨⟨1, 1⟩, cs⟩

/-- Moves over so many characters. -/
def skip (c : Cursor) (n : Nat) : Cursor :=
  ⟨c.position.past (c.rest.take n), c.rest.drop n⟩

@[simp] theorem length_rest_skip (c : Cursor) (n : Nat) :
    (c.skip n).rest.length = c.rest.length - n := by
  simp [skip]

end Cursor

end ScriptCompiler.Token
