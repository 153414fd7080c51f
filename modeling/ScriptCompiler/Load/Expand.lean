import ScriptCompiler.Load.Error
import ScriptCompiler.Load.Search

/-!
# Expanding directives

Every directive in a program is replaced by the contents of its file, in which directives are
replaced in turn. The loader remembers the files that `require` and `require_relative` put into the
program, and puts none of them there twice; `load` neither asks nor changes what it remembers. What
was remembered stays so when a directive fails. Files may stand inside one another sixty-four levels
deep.
-/

namespace ScriptCompiler.Load

/-- The files that were put into a program at most once, by their components. -/
structure Tracker where
  loaded : List (List Path.Component)
  deriving DecidableEq, Repr

namespace Tracker

/-- No files. -/
def empty : Tracker := ⟨[]⟩

/-- The file is remembered. -/
def contains (t : Tracker) (p : Path) : Bool :=
  t.loaded.contains p.components

/-- Remembers a file. -/
def insert (t : Tracker) (p : Path) : Tracker :=
  if t.contains p then t else ⟨p.components :: t.loaded⟩

/-- How many files are remembered. -/
def size (t : Tracker) : Nat :=
  t.loaded.length

theorem contains_insert (t : Tracker) (p : Path) : (t.insert p).contains p = true := by
  unfold insert
  split
  · assumption
  · simp [contains]

theorem size_le_size_insert (t : Tracker) (p : Path) : t.size ≤ (t.insert p).size := by
  unfold insert
  split <;> simp [size]

end Tracker

/-- A step of expansion. What it remembered stays so when it fails. -/
abbrev Step (α : Type) := ExceptT LoadError (StateM Tracker) α

/-- How a directive with its span is replaced. -/
abbrev Replace := DirectiveKind → String → Span → Step Body

/-! ## Trees -/

mutual

/-- A sequence with its directives replaced in place. -/
def expandBody (replace : Replace) : List Node → Step Body
  | [] => return []
  | ⟨.directive kind path, span⟩ :: nodes => do
    let contents ← replace kind path span
    let others ← expandBody replace nodes
    return contents ++ others
  | node :: nodes => do
    let first ← expandNode replace node
    let others ← expandBody replace nodes
    return first :: others

/-- A node with the directives in it replaced. A directive that stands for a value becomes a
conditional without branches around the contents of its file. -/
def expandNode (replace : Replace) : Node → Step Node
  | ⟨form, span⟩ => do
    let form ← expandForm replace span form
    return ⟨form, span⟩

/-- The form of a node with the directives in it replaced. -/
def expandForm (replace : Replace) (span : Span) : Form → Step Form
  | .directive kind path => do
    let contents ← replace kind path span
    return .conditional [] (some contents)
  | .array elements => do
    return .array (← expandEach replace elements)
  | .assign target value => do
    return .assign target (← expandNode replace value)
  | .classDef name superclass body => do
    return .classDef name superclass (← expandBody replace body)
  | .moduleDef name body => do
    return .moduleDef name (← expandBody replace body)
  | .methodDef owner name params body => do
    return .methodDef owner name params (← expandBody replace body)
  | .send receiver name args block => do
    let receiver ← expandReceiver replace receiver
    let args ← expandEach replace args
    let block ← expandBlock replace block
    return .send receiver name args block
  | .conditional branches otherwise => do
    let branches ← expandBranches replace branches
    let otherwise ← expandOptional replace otherwise
    return .conditional branches otherwise
  | .loop kind condition body => do
    let condition ← expandNode replace condition
    let body ← expandBody replace body
    return .loop kind condition body
  | .rescue body variable_ handler otherwise => do
    let body ← expandBody replace body
    let handler ← expandBody replace handler
    let otherwise ← expandOptional replace otherwise
    return .rescue body variable_ handler otherwise
  | .integer value => return .integer value
  | .str value => return .str value
  | .symbol name => return .symbol name
  | .selfRef => return .selfRef
  | .localVar name => return .localVar name
  | .instanceVar name => return .instanceVar name
  | .globalVar name => return .globalVar name
  | .unknown => return .unknown

/-- Nodes that each stand for a value. -/
def expandEach (replace : Replace) : List Node → Step (List Node)
  | [] => return []
  | node :: nodes => do
    let first ← expandNode replace node
    let others ← expandEach replace nodes
    return first :: others

/-- The receiver of a message. -/
def expandReceiver (replace : Replace) : Option Node → Step (Option Node)
  | none => return none
  | some node => return some (← expandNode replace node)

/-- A body that may be missing. -/
def expandOptional (replace : Replace) : Option (List Node) → Step (Option Body)
  | none => return none
  | some body => return some (← expandBody replace body)

/-- The block of a message. -/
def expandBlock (replace : Replace) : Option Block → Step (Option Block)
  | none => return none
  | some ⟨params, body⟩ => return some ⟨params, ← expandBody replace body⟩

/-- The branches of a conditional. -/
def expandBranches (replace : Replace) : List Branch → Step (List Branch)
  | [] => return []
  | ⟨condition, body⟩ :: branches => do
    let condition ← expandNode replace condition
    let body ← expandBody replace body
    let others ← expandBranches replace branches
    return ⟨condition, body⟩ :: others

end

/-! ## Files -/

/-- How many levels of files may stand inside one another. -/
def maxDepth : Nat := 64

/-- The path of an entry without points, or the failure to read it. -/
def canonical (s : Settings) (found : Path) : Step Path :=
  match s.files.canonical found with
  | .ok path => return path
  | .error e => throw (.unreadable found e)

/-- The program in a file. -/
def programOf (s : Settings) (path : Path) : Step Body :=
  match s.files.readText path with
  | .error e => throw (.unreadable path e)
  | .ok source =>
    match parse path.text source [] with
    | .error failure => throw (.malformed path failure)
    | .ok program => return program

/-- Remembers a file, and says whether it was new. -/
def remember (path : Path) : Step Bool := do
  let tracker ← get
  set (tracker.insert path)
  return !tracker.contains path

/-- The failure to find the file of a directive. -/
def missing (current : Path) (name : String) (span : Span) : LoadError :=
  .notFound name (if current.text.isEmpty then none else some current)
    (if span.isSynthetic then none else some span.startLine)

/-- The contents of the file of a directive in a file, with so many levels of files left. -/
def runDirective (s : Settings) : Nat → Path → Replace
  | levels, current, kind, name, span => do
    match s.find current kind name with
    | none => throw (missing current name span)
    | some found =>
      let path ← canonical s found
      let wanted ← if kind = .load then pure true else remember path
      if wanted then
        match levels with
        | 0 => throw (.nestingTooDeep name)
        | levels + 1 =>
          let program ← programOf s path
          expandBody (runDirective s levels path) program
      else return []

/-- A program that came from a file, with its directives replaced. -/
def expand (s : Settings) (current : Path) (program : Body) : Step Body :=
  expandBody (runDirective s maxDepth current) program

/-- Remembers a file that is part of the program already, if it exists. -/
def markLoaded (s : Settings) (tracker : Tracker) (path : Path) : Tracker :=
  match s.files.canonical path with
  | .ok path => tracker.insert path
  | .error _ => tracker

end ScriptCompiler.Load
