import ScriptCompiler.Files.System
import ScriptCompiler.Shell.Raw

/-!
# Patterns

In a pattern a star stands for any text, a question mark for any character, and brackets for one of
the characters in them, unless they are quoted. Main statement: a pattern of quoted characters
stands for these characters only.
-/

namespace ScriptCompiler

namespace Shell

/-- A character of an expanded word, and whether it is quoted. -/
structure Marked where
  char : Char
  quoted : Bool
  deriving DecidableEq, Repr

/-- A character means what it means in patterns. -/
def Marked.isBare (m : Marked) (c : Char) : Bool :=
  !m.quoted && m.char = c

/-- The characters of a text that are all quoted or all not. -/
def Raw.marked (quoted : Bool) (s : Raw) : List Marked :=
  s.map fun c => ⟨c, quoted⟩

/-- The text of characters. -/
def unmarked (w : List Marked) : Raw :=
  w.map (·.char)

/-- What stands between brackets. -/
inductive Member where
  | range (first last : Char)
  | kind (holds : Char → Bool)

/-- A piece of a pattern. -/
inductive Atom where
  | char (c : Char)
  | anyChar
  | anyText
  | set (inverted : Bool) (members : List Member)

/-! ## Sets of characters -/

/-- Where a character stands in the order of ranges, in which the second half of all bytes comes
first. -/
def orderOf (c : Char) : Nat :=
  (c.toNat + 128) % 256

/-- A character is one of those that a member stands for. -/
def Member.holds (c : Char) : Member → Bool
  | .range first last => orderOf first ≤ orderOf c && orderOf c ≤ orderOf last
  | .kind holds => holds c

/-- A character that is printed with ink. -/
def isGraphic (c : Char) : Bool :=
  '!' ≤ c && c ≤ '~'

/-- The kinds of characters that have names. -/
def kinds : List (String × (Char → Bool)) :=
  [("alnum", Char.isAlphanum), ("alpha", Char.isAlpha), ("blank", fun c => c = ' ' || c = '\t'),
    ("cntrl", fun c => c < ' ' || c = '\x7f'), ("digit", Char.isDigit), ("graph", isGraphic),
    ("lower", Char.isLower), ("print", fun c => c = ' ' || isGraphic c),
    ("punct", fun c => isGraphic c && !c.isAlphanum),
    ("space", fun c => c = ' ' || ('\t' ≤ c && c ≤ '\r')), ("upper", Char.isUpper),
    ("xdigit", fun c => c.isDigit || ('a' ≤ c && c ≤ 'f') || ('A' ≤ c && c ≤ 'F'))]

/-- The kind whose name is at the start of a pattern, and what follows it. -/
def kindOf (p : List Marked) : Option (Member × List Marked) :=
  kinds.findSome? fun (name, holds) =>
    let text := Raw.marked false ((":" ++ name ++ ":]").toList)
    if text.isPrefixOf p then some (.kind holds, p.drop text.length) else none

/-- The character at the start of a pattern, whose meaning a backslash takes away. -/
def literal? : List Marked → Option (Char × List Marked)
  | [] => none
  | m :: p =>
    if m.isBare '\\' then
      match p with
      | n :: p => some (n.char, p)
      | [] => none
    else some (m.char, p)

/-- The members of a set and what follows its closing bracket, if there is one. A bracket that comes
first is a member. -/
def membersOf : Nat → Bool → List Marked → Option (List Member × List Marked)
  | 0, _, _ => none
  | _, _, [] => none
  | fuel + 1, first, m :: p => do
    if m.isBare ']' && !first then return ([], p)
    match if m.isBare '[' then kindOf p else none with
    | some (member, p) =>
      let (members, p) ← membersOf fuel false p
      return (member :: members, p)
    | none =>
      let (c, p) ← literal? (m :: p)
      let (last, p) ← match p with
        | dash :: n :: rest =>
          if dash.isBare '-' && !n.isBare ']' then literal? (n :: rest) else some (c, p)
        | _ => some (c, p)
      let (members, p) ← membersOf fuel false p
      return (.range c last :: members, p)

/-- The set after an opening bracket, and what follows it. -/
def setOf (p : List Marked) : Option (Atom × List Marked) :=
  let inverted := p.head?.any fun m => m.isBare '!' || m.isBare '^'
  let p := if inverted then p.tail else p
  (membersOf (p.length + 1) true p).map fun (members, rest) => (.set inverted members, rest)

/-! ## Patterns -/

/-- The pieces of a pattern, so many at most. -/
def atomsOf : Nat → List Marked → List Atom
  | 0, _ => []
  | _, [] => []
  | fuel + 1, m :: p =>
    if m.isBare '*' then .anyText :: atomsOf fuel p
    else if m.isBare '?' then .anyChar :: atomsOf fuel p
    else
      match if m.isBare '[' then setOf p else none, literal? (m :: p) with
      | some (set, rest), _ => set :: atomsOf fuel rest
      | none, some (c, rest) => .char c :: atomsOf fuel rest
      | none, none => .char m.char :: atomsOf fuel p

/-- The pieces of a pattern. -/
def atoms (p : List Marked) : List Atom :=
  atomsOf p.length p

/-- A piece stands for a character. -/
def Atom.holds (c : Char) : Atom → Bool
  | .char d => d = c
  | .anyChar | .anyText => true
  | .set inverted members => members.any (·.holds c) != inverted

/-- Pieces stand for all of a text. -/
def matchesAtoms : List Atom → Raw → Bool
  | [], s => s.isEmpty
  | .anyText :: p, [] => matchesAtoms p []
  | .anyText :: p, c :: s => matchesAtoms p (c :: s) || matchesAtoms (.anyText :: p) s
  | _ :: _, [] => false
  | a :: p, c :: s => a.holds c && matchesAtoms p s
termination_by p s => p.length + s.length

/-- A pattern stands for all of a text. -/
def matchesText (p : List Marked) (s : Raw) : Bool :=
  matchesAtoms (atoms p) s

/-- A pattern of quoted characters has a piece for each. -/
theorem atomsOf_of_quoted {p : List Marked} (h : ∀ m ∈ p, m.quoted = true) :
    atomsOf p.length p = p.map fun m => .char m.char := by
  induction p with
  | nil => rfl
  | cons m p ih =>
    have hm := h m (by simp)
    simp [atomsOf, Marked.isBare, literal?, hm, ih fun x hx => h x (by simp [hx])]

/-- Pieces that are characters stand for these characters only. -/
theorem matchesAtoms_map_char (cs s : Raw) : matchesAtoms (cs.map .char) s = true ↔ s = cs := by
  induction cs generalizing s with
  | nil => simp [matchesAtoms]
  | cons c cs ih =>
    cases s with
    | nil => simp [matchesAtoms]
    | cons d s =>
      simp only [List.map_cons, matchesAtoms, Atom.holds, Bool.and_eq_true, decide_eq_true_eq, ih,
        List.cons.injEq]
      exact and_congr_left' eq_comm

/-- A pattern of quoted characters stands for them only. -/
theorem matchesText_of_quoted {p : List Marked} (h : ∀ m ∈ p, m.quoted = true) (s : Raw) :
    matchesText p s = true ↔ s = unmarked p := by
  rw [matchesText, atoms, atomsOf_of_quoted h, unmarked, ← matchesAtoms_map_char]
  simp [Function.comp_def]

/-! ## Taking text away -/

/-- What is left of a text when the part of it that a pattern stands for is taken away at the start:
the longest such part, or the shortest one. -/
def trimStart (longest : Bool) (p : List Marked) (s : Raw) : Raw :=
  let cuts := List.range (s.length + 1)
  let cut? := (if longest then cuts.reverse else cuts).find? fun n => matchesText p (s.take n)
  s.drop (cut?.getD 0)

/-- What is left of a text when a part of it is taken away at the end. -/
def trimEnd (longest : Bool) (p : List Marked) (s : Raw) : Raw :=
  let cuts := List.range (s.length + 1)
  let cut? := (if longest then cuts else cuts.reverse).find? fun n => matchesText p (s.drop n)
  s.take (cut?.getD s.length)

end Shell

/-! ## Names of files by patterns

A word that is a pattern stands for the names of the files that it matches, in order. Each part
between slashes is matched for itself; a name that starts with a point is matched only by a pattern
that does.
-/

/-- The names in a directory, each once. -/
def FileSystem.children (fs : FileSystem) (dir : List String) : List String :=
  (fs.entries.filterMap fun (names, _) =>
    if names.dropLast = dir then names.getLast? else none).eraseDups

namespace Shell

/-- The parts of a word between slashes. -/
def partsOf : List Marked → List (List Marked)
  | [] => [[]]
  | m :: w =>
    match partsOf w with
    | [] => [[m]]
    | first :: others => if m.char = '/' then [] :: first :: others else (m :: first) :: others

/-- A bracket closes what an opening bracket before the text started. -/
def closesSet (p : List Marked) : Bool :=
  let p := if p.head?.any (·.isBare '!') then p.tail else p
  p.tail.any (·.isBare ']')

/-- A part of a word is a pattern. -/
def isPattern : List Marked → Bool
  | [] => false
  | m :: p => m.isBare '*' || m.isBare '?' || (m.isBare '[' && closesSet p) || isPattern p

/-- The text of a word, in which backslashes take the meaning of characters away. -/
def literalText : List Marked → Raw
  | [] => []
  | [m] => [m.char]
  | m :: n :: w =>
    if m.isBare '\\' then n.char :: literalText w else m.char :: literalText (n :: w)

/-- The names in a directory that a part of a word matches. -/
def matchingNames (fs : FileSystem) (dir : Raw) (part : List Marked) : List Raw :=
  match fs.resolve ⟨if dir.isEmpty then "." else Raw.toString dir⟩ with
  | .error _ => []
  | .ok names =>
    if fs.lookup names ≠ some .directory then []
    else
      let hidden := (literalText part).head? = some '.'
      ((["." , ".."] ++ fs.children names).map Raw.ofString).filter fun name =>
        (hidden || name.head? ≠ some '.') && matchesText part name

/-- The names of the files that the parts of a word match, after a text. -/
def matchParts (fs : FileSystem) : Raw → List (List Marked) → List Raw
  | _, [] => []
  | front, part :: rest =>
    if isPattern part then
      (matchingNames fs front part).flatMap fun name =>
        if rest.isEmpty then [front ++ name] else matchParts fs (front ++ name ++ ['/']) rest
    else
      let text := front ++ literalText part
      if rest.isEmpty then
        if (fs.resolve ⟨Raw.toString text⟩).toOption.isSome then [text] else []
      else matchParts fs (text ++ ['/']) rest

/-- The names of files that a word stands for; if it matches none, its own text. -/
def fileNames (fs : FileSystem) (w : List Marked) : List Raw :=
  let parts := partsOf w
  if parts.any isPattern then
    match matchParts fs [] parts with
    | [] => [unmarked w]
    | names => names.mergeSort fun a b => !decide (b < a)
  else [unmarked w]

end Shell

end ScriptCompiler
