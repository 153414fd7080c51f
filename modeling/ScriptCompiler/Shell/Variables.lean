import ScriptCompiler.Shell.Machine
import ScriptCompiler.Shell.Numeral
import ScriptCompiler.Shell.Reader

/-!
# Variables

Variables have texts as values. Programs see those that are exported; a function may have some for
itself, which get their old values back when it ends.
-/

namespace ScriptCompiler.Shell

/-- A variable of a setting. -/
def Setting.binding? (s : Setting) (name : Raw) : Option Variable :=
  s.vars.lookup name

/-- The value of a variable of a setting. -/
def Setting.value? (s : Setting) (name : Raw) : Option Raw :=
  (s.binding? name).bind (·.value)

/-- A setting with a variable, or without one. -/
def Setting.put (s : Setting) (name : Raw) (v : Option Variable) : Setting :=
  let others := s.vars.filter (·.1 ≠ name)
  { s with vars := match v with
      | some v => (name, v) :: others
      | none => others }

/-- The name of the variable that says where programs are looked for. -/
def pathName : Raw := "PATH".toList

/-- A setting where a variable changes. A shell forgets its programs when they are looked for
elsewhere. -/
def Setting.change (s : Setting) (name : Raw) (v : Option Variable) : Setting :=
  let s := s.put name v
  if name = pathName then { s with tracked := [] } else s

/-- The value of a variable. -/
def value? (name : Raw) : Run (Option Raw) := do
  return (← setting).value? name

/-- The name of the variable that says which argument is at hand where options are taken one by
one. -/
def optionIndex : Raw := "OPTIND".toList

/-- Refuses to change a variable whose value is fixed. -/
def refuseFixed (name : Raw) : Run Unit := do
  if ((← setting).binding? name).any (·.fixed) then fault (name ++ ": is read only".toList)

/-- Gives a variable a value. -/
def assign (name value : Raw) : Run Unit := do
  refuseFixed name
  if name = optionIndex then
    adjust fun s => { s with passed := (max 1 (readDigits 10 value).1, 0) }
  adjust fun s =>
    let exported := s.options.exporting || (s.binding? name).any (·.exported)
    s.change name (some ⟨some value, exported, false⟩)

/-- Takes a variable away. -/
def unset (name : Raw) : Run Unit := do
  refuseFixed name
  adjust fun s => s.change name none

/-- Refuses a text that is no name. -/
def refuseName (name : Raw) : Run Unit := do
  unless isName name do fault (name ++ ": bad variable name".toList)

/-- Gives a variable a mark, with a value if there is one. -/
def mark (f : Variable → Variable) (name : Raw) (value : Option Raw) : Run Unit := do
  if let some value := value then assign name value
  adjust fun s => s.put name (some (f ((s.binding? name).getD ⟨none, false, false⟩)))

/-- Makes a variable one that a function has for itself. -/
def makeLocal (name : Raw) : Run Unit := do
  adjust fun s =>
    match s.locals with
    | some saved => { s with locals := some ((name, s.binding? name) :: saved) }
    | none => s

/-- Puts variables back as they were. -/
def Setting.putBack (s : Setting) (saved : List (Raw × Option Variable)) : Setting :=
  saved.foldl (fun s (name, v) => s.change name v) s

/-- The variables that programs see. -/
def Setting.environment (s : Setting) : List (Raw × Variable) :=
  s.vars.filter fun (_, v) => v.exported && v.value.isSome

/-- The number that the value of a variable is. -/
def numericValue (name : Raw) : Run Int64 := do
  let text := (← value? name).getD []
  let n := readNumber none text
  if !n.rest.all isSpaceByte || clamp signedBounds n.value ≠ n.value then
    fault ("Illegal number: ".toList ++ text)
  return Int64.ofInt n.value

/-! ## Parameters -/

/-- The characters at which fields are split, if nothing else is said. -/
def usualBlanks : Raw := [' ', '\t', '\n']

/-- The characters at which fields are split. -/
def Setting.separators (s : Setting) : Raw :=
  (s.value? "IFS".toList).getD usualBlanks

/-- What stands between arguments that are put together. -/
def Setting.between (s : Setting) : Raw :=
  s.separators.take 1

/-- The name of a parameter. -/
def Param.text : Param → Raw
  | .arg n => Raw.ofNat n
  | .count => ['#']
  | .status => ['?']
  | .process => ['$']
  | .beside => ['!']
  | .options => ['-']
  | .each => ['@']
  | .joined => ['*']
  | .named name => name

/-- The one text that a parameter stands for, if it has a value. -/
def Machine.paramText? (m : Machine) (p : Param) : Option Raw :=
  let s := m.setting
  match p with
  | .arg 0 => some s.name
  | .arg (n + 1) => s.args[n]?
  | .count => some (Raw.ofNat s.args.length)
  | .status => some (Raw.ofNat m.status)
  | .process => some (Raw.ofNat s.process)
  | .beside => s.beside.map Raw.ofNat
  | .options => some s.options.letters
  | .each | .joined => some (Raw.join s.between s.args)
  | .named name => s.value? name

end ScriptCompiler.Shell
