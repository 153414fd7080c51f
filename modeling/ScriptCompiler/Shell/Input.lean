import ScriptCompiler.Shell.Expand
import ScriptCompiler.Shell.Arguments

/-!
# Input

`read` takes a line of the input and gives variables the fields of it as values; `getopts` takes the
options of a script one by one.
-/

namespace ScriptCompiler.Shell

/-! ## Lines -/

/-- A line at the front of a text. -/
structure Line where
  items : List Item
  /-- The number of characters that it takes, with its end. -/
  size : Nat
  /-- There is an end. -/
  ended : Bool

/-- The line at the front of a text, without null bytes. A backslash takes the meaning of the
character after it away, unless the line is taken as it is; the flag says whether there was one
before. -/
def inputLine (asIs : Bool) : Bool → Raw → Line
  | _, [] => ⟨[], 0, false⟩
  | escaped, c :: cs =>
    let grown (front : List Item) (l : Line) : Line := ⟨front ++ l.items, 1 + l.size, l.ended⟩
    if c = '\x00' then grown [] (inputLine asIs escaped cs)
    else if escaped then
      grown (if c = '\n' then [] else Item.ofText true false [c]) (inputLine asIs false cs)
    else if c = '\\' && !asIs then grown [] (inputLine asIs true cs)
    else if c = '\n' then ⟨[], 1, true⟩
    else grown (Item.ofText false true [c]) (inputLine asIs false cs)

/-- A piece is a separator; or, if that is asked, one that is a blank. -/
def Item.separates (separators : Raw) (blank : Bool) : Item → Bool
  | .char m splits =>
    splits && separators.contains m.char && (!blank || usualBlanks.contains m.char)
  | _ => false

/-- A piece is quoted. -/
def Item.isQuoted : Item → Bool
  | .char m _ => m.quoted
  | _ => false

/-- Where the last field is cut: in front of the separators at its end, of which all but one are
blanks. The flags say whether a separator was met, and whether another one that is no blank may
follow. What is quoted is not looked at. -/
def cutOf (separators : Raw) : Nat → Option Nat → Bool → Bool → List Item → Option Nat
  | _, cut, _, _, [] => cut
  | n, cut, met, open?, i :: rest =>
    let separates := i.separates separators false
    let blank := i.separates separators true
    if i.isQuoted then cutOf separators (n + 1) cut met false rest
    else if !met then
      if separates then cutOf separators (n + 1) (some n) true blank rest
      else cutOf separators (n + 1) none false false rest
    else if blank then cutOf separators (n + 1) (some (cut.getD n)) true open? rest
    else cutOf separators (n + 1) (if separates && open? then cut else none) true false rest

/-- The text of pieces. -/
def textOf (items : List Item) : Raw :=
  unmarked (items.filterMap Item.marked?)

/-- The fields of a line, so many at most; the last one holds what is left. -/
def lineFields (separators : Raw) : Nat → List Item → List Raw
  | 0, _ => []
  | count + 1, items =>
    let isBlank := Item.separates separators true
    match items.dropWhile isBlank with
    | [] => []
    | items =>
      if count = 0 then
        [textOf (items.take ((cutOf separators 0 none false false items).getD items.length))]
      else
        let field := items.takeWhile fun i => !i.separates separators false
        let rest := items.drop field.length
        let after := rest.dropWhile isBlank
        let after :=
          if after.length < rest.length && !(after.head?.any (·.separates separators false)) then
            after
          else (after.drop 1).dropWhile isBlank
        textOf field :: lineFields separators count after

/-- Gives variables values in order; those for which there is none become empty. -/
def assignAll : List Raw → List Raw → Run Unit
  | [], _ => return
  | name :: names, values => do
    refuseName name
    assign name (values.headD [])
    assignAll names values.tail

/-- Reads a line into variables. -/
def readLine (args : List Raw) : Run Unit := do
  let (given, names) ← takeOptions "r" "p" args
  if names.isEmpty then fault "arg count".toList
  let line := inputLine (isGiven 'r' given) false ((← available 0).toOption.getD [])
  consume 0 line.size
  assignAll names (lineFields (← setting).separators names.length line.items)
  answerWith line.ended

/-! ## Options of a script -/

/-- The next option among arguments. -/
structure NextOption where
  /-- The letter, or what stands for it. -/
  letter : Char
  /-- The argument of the option. -/
  arg : Option Raw
  /-- What is wrong. -/
  complaint : Option Raw
  /-- Which argument is at hand, and how many of its letters are passed. -/
  passed : Nat × Nat
  done : Bool

/-- What a text of known options says about a letter: nothing, or whether it takes an argument. -/
def optionIn? (c : Char) : Raw → Option Bool
  | [] => none
  | d :: rest =>
    let takes : Bool := rest.head? = some ':'
    if c = d then some takes else optionIn? c (if takes then rest.tail else rest)
termination_by rest => rest.length
decreasing_by
  have shorter : rest.tail.length ≤ rest.length := by
    rw [List.length_tail]
    exact Nat.sub_le _ _
  rw [List.length_cons]
  split <;> omega

/-- The next option among arguments. A colon before the known options asks for silence. -/
def nextOption (known : Raw) (args : List Raw) (passed : Nat × Nat) : NextOption :=
  let silent : Bool := known.head? = some ':'
  let (index, letters) := passed
  let arg (index : Nat) : Option Raw := if index = 0 then none else args[index - 1]?
  let left : Raw := if letters = 0 then [] else ((arg (index - 1)).getD []).drop letters
  -- The letters at hand, and the number of the argument after them.
  let found : Option (Raw × Nat) × Nat :=
    if !left.isEmpty then (some (left, index), index)
    else
      match arg index with
      | some ['-', '-'] => (none, index + 1)
      | some ('-' :: c :: cs) => (some (c :: cs, index + 1), index + 1)
      | _ => (none, index)
  match found with
  | (some (c :: cs, next), _) =>
    let letters := ((arg (next - 1)).getD []).length - cs.length
    let here : Nat × Nat := (next, if cs.isEmpty then 0 else letters)
    match optionIn? c (if silent then known.tail else known) with
    | none =>
      if silent then ⟨'?', some [c], none, here, false⟩
      else ⟨'?', none, some ("Illegal option -".toList ++ [c, '\n']), here, false⟩
    | some false => ⟨c, some [], none, here, false⟩
    | some true =>
      if !cs.isEmpty then ⟨c, some cs, none, (next, 0), false⟩
      else
        match arg next with
        | some value => ⟨c, some value, none, (next + 1, 0), false⟩
        | none =>
          if silent then ⟨':', some [c], none, (next, 0), false⟩
          else
            let missing := "No arg for -".toList ++ [c] ++ " option\n".toList
            ⟨'?', none, some missing, (next, 0), false⟩
  | (_, next) => ⟨'?', none, none, (next, 0), true⟩

/-- Takes the next option of the script, or of other arguments. -/
def getopts (args : List Raw) : Run Unit := do
  match ← withoutOptions args with
  | known :: name :: others =>
    let s ← setting
    let args := if others.isEmpty then s.args else others
    let passed := if args.length + 1 < s.passed.1 then (1, 0) else s.passed
    let o := nextOption known args passed
    if let some text := o.complaint then emitError text
    let argName := "OPTARG".toList
    match o.arg with
    | some value => assign argName value
    | none => if !o.done then unset argName
    assign optionIndex (Raw.ofNat o.passed.1)
    refuseName name
    assign name [o.letter]
    adjust fun s => { s with passed := o.passed }
    answerWith !o.done
  | _ => fault "Usage: getopts optstring var [arg...]".toList

end ScriptCompiler.Shell
