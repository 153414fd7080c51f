import ScriptCompiler.Shell.Arithmetic
import ScriptCompiler.Shell.Pattern

/-!
# Expansion of words

A word becomes **fields**: its parameters are replaced by what they stand for, and what is not
quoted is split at separators and matched with the names of files afterwards. Where one text is
wanted there is neither. Commands inside words are run by an argument of these functions.
-/

namespace ScriptCompiler.Shell

/-- A piece of an expanded word. -/
inductive Item where
  /-- A character, at which the word may be split. -/
  | char (m : Marked) (splits : Bool)
  /-- Something quoted, which may be empty. -/
  | mark
  /-- The end of a quoted argument. -/
  | cut
  /-- The end of an argument that is not quoted. -/
  | gap
  /-- The start or the end of a value. -/
  | border
  deriving DecidableEq, Repr

namespace Item

/-- The pieces for a text. -/
def ofText (quoted splits : Bool) (s : Raw) : List Item :=
  s.map fun c => .char ⟨c, quoted⟩ splits

/-- The pieces for a value. What is not quoted is split. -/
def ofValue (quoted : Bool) (s : Raw) : List Item :=
  if quoted then ofText true false s else .border :: ofText false true s ++ [.border]

/-- The character of a piece. -/
def marked? : Item → Option Marked
  | .char m _ => some m
  | .mark | .cut | .gap | .border => none

end Item

/-! ## Parameters -/

/-- How words are expanded. -/
structure Manner where
  /-- There may be many fields. -/
  full : Bool
  /-- Text that is written in the word is split as well. -/
  loose : Bool
  deriving DecidableEq, Repr

/-- The pieces for the value of a parameter. -/
def paramItems (m : Machine) (full quoted : Bool) (p : Param) : List Item :=
  let args := m.setting.args.map (Item.ofText quoted !quoted)
  if full && quoted && p = .each then
    if args.isEmpty then [] else .mark :: (args.intersperse [.cut]).flatten
  else if full && !quoted && (p = .each || p = .joined) then
    .border :: (args.intersperse [.gap]).flatten ++ [.border]
  else Item.ofValue quoted ((m.paramText? p).getD [])

/-- Refuses a parameter without a value, if that is wanted. -/
def refuseMissing (p : Param) : Run Unit := do
  let m ← get
  if m.setting.options.refusing && (m.paramText? p).isNone then
    fault (p.text ++ ": parameter not set".toList)

/-- A parameter has a value that counts. -/
def hasValue (p : Param) (orEmpty : Bool) : Run Bool := do
  match (← get).paramText? p with
  | none => return false
  | some s => return !(orEmpty && s.isEmpty)

/-- Gives a parameter a value. -/
def assignParam (p : Param) (value : Raw) : Run Unit :=
  match p with
  | .named name => assign name value
  | p => fault (p.text ++ ": bad variable name".toList)

/-- Refuses a parameter without a value, in the words of the script if there are any. -/
def refuseParam (p : Param) (orEmpty : Bool) (words : Option Raw) : Run Unit :=
  let usual := if orEmpty then "parameter not set or null" else "parameter not set"
  fault (p.text ++ ": ".toList ++ words.getD usual.toList)

/-! ## Words -/

mutual

/-- The pieces that a part of a word becomes. -/
def Segment.items (inner : Command → Run Raw) (how : Manner) : Segment → Run (List Item)
  | .text s quoted =>
    return if quoted && s.isEmpty then [.mark] else Item.ofText quoted (how.loose && !quoted) s
  | .output command quoted => do return Item.ofValue quoted (← inner command)
  | .sum expression quoted => do
    let items ← segmentItems inner ⟨false, false⟩ expression
    return Item.ofValue quoted (← evaluate (unmarked (items.filterMap Item.marked?)))
  | .param p form quoted => Form.items inner how p quoted form

/-- The pieces that a parameter becomes. -/
def Form.items (inner : Command → Run Raw) (how : Manner) (p : Param) (quoted : Bool) :
    Form → Run (List Item)
  | .plain => do
    refuseMissing p
    return paramItems (← get) how.full quoted p
  | .length => do
    refuseMissing p
    return Item.ofValue quoted (Raw.ofNat (((← get).paramText? p).getD []).length)
  | .instead kind orEmpty word => do
    let has ← hasValue p orEmpty
    match kind with
    | .use =>
      if has then return paramItems (← get) how.full quoted p
      else segmentItems inner { how with loose := how.full && !quoted } word
    | .replace =>
      if has then segmentItems inner { how with loose := how.full && !quoted } word else return []
    | .assign =>
      if !has then
        let items ← segmentItems inner ⟨false, false⟩ word
        assignParam p (unmarked (items.filterMap Item.marked?))
      return paramItems (← get) how.full quoted p
    | .refuse =>
      if !has then
        let items ← segmentItems inner ⟨false, false⟩ word
        refuseParam p orEmpty
          (if word.isEmpty then none else some (unmarked (items.filterMap Item.marked?)))
      return paramItems (← get) how.full quoted p
  | .trimmed atEnd longest pattern => do
    refuseMissing p
    let text := ((← get).paramText? p).getD []
    let items ← segmentItems inner ⟨false, false⟩ pattern
    let pattern := items.filterMap Item.marked?
    return Item.ofValue quoted
      (if atEnd then trimEnd longest pattern text else trimStart longest pattern text)
  | .bad => fault "Bad substitution".toList

/-- The pieces that parts of a word become. -/
def segmentItems (inner : Command → Run Raw) (how : Manner) : List Segment → Run (List Item)
  | [] => return []
  | s :: rest => do
    let front ← s.items inner how
    return front ++ (← segmentItems inner how rest)

end

/-- The home directory stands for a tilde before a slash or at the end. In a value a colon counts as
an end, and what follows it as a start. -/
def withHome (home : Raw) (inValue : Bool) : Bool → Word → Word
  | _, [] => []
  | atStart, s :: rest =>
    let ends : Bool := match rest with
      | [] => true
      | .text [c] false :: _ => c = '/' || (inValue && c = ':')
      | _ => false
    match s with
    | .text ['~'] false =>
      (if atStart && ends then .text home true else s) :: withHome home inValue false rest
    | .text [':'] false => s :: withHome home inValue inValue rest
    | _ => s :: withHome home inValue false rest

/-- The pieces that a word becomes. -/
def Word.items (inner : Command → Run Raw) (full inValue : Bool) (w : Word) : Run (List Item) := do
  let w := match ← value? "HOME".toList with
    | some home => withHome home inValue true w
    | none => w
  segmentItems inner ⟨full, false⟩ w

/-- The one pattern that a word becomes. -/
def Word.pattern (inner : Command → Run Raw) (w : Word) : Run (List Marked) := do
  return (← Word.items inner false false w).filterMap Item.marked?

/-- The one text that a word becomes. -/
def Word.whole (inner : Command → Run Raw) (w : Word) : Run Raw := do
  return unmarked (← Word.pattern inner w)

/-- The one text that the value of an assignment becomes. -/
def Word.value (inner : Command → Run Raw) (w : Word) : Run Raw := do
  return unmarked ((← Word.items inner false true w).filterMap Item.marked?)

/-! ## Fields -/

/-- Fields that are put together from pieces, the last one first. -/
structure Fields where
  whole : List (List Marked)
  /-- The field at hand, if one was started, the last character first. -/
  current : Option (List Marked)
  /-- A blank ended the last field, so that another separator of the same value still belongs to
  that end. -/
  open? : Bool

namespace Fields

/-- Ends the field at hand. -/
def close (f : Fields) (field : List Marked) (open? : Bool) : Fields :=
  ⟨field.reverse :: f.whole, none, open?⟩

/-- Passes a blank. -/
def blank (f : Fields) : Fields :=
  match f.current with
  | some field => f.close field true
  | none => f

/-- Passes a separator that is no blank. -/
def separator (f : Fields) : Fields :=
  match f.current with
  | some field => f.close field false
  | none => if f.open? then { f with open? := false } else f.close [] false

/-- Adds a piece. -/
def step (separators : Raw) (f : Fields) : Item → Fields
  | .char m splits =>
    if splits && separators.contains m.char then
      if usualBlanks.contains m.char then f.blank else f.separator
    else { f with current := some (m :: f.current.getD []) }
  | .mark => { f with current := some (f.current.getD []) }
  | .cut => { f.close (f.current.getD []) false with current := some [] }
  | .gap => f.blank
  | .border => { f with open? := false }

/-- The fields that pieces make. -/
def ofItems (separators : Raw) (items : List Item) : List (List Marked) :=
  let f := items.foldl (step separators) ⟨[], none, false⟩
  (match f.current with
    | some field => f.close field false
    | none => f).whole.reverse

end Fields

/-- The fields that a word becomes. -/
def Word.fields (inner : Command → Run Raw) (w : Word) : Run (List Raw) := do
  let items ← Word.items inner true false w
  let m ← get
  let fields := Fields.ofItems m.setting.separators items
  return if m.setting.options.literal then fields.map unmarked
    else fields.flatMap (fileNames m.files)

/-- The fields that words become. -/
def fieldsOf (inner : Command → Run Raw) : List Word → Run (List Raw)
  | [] => return []
  | w :: rest => do
    let front ← Word.fields inner w
    return front ++ (← fieldsOf inner rest)

end ScriptCompiler.Shell
