import ScriptCompiler.Shell.Raw

/-!
# Options

What a shell is told about how to run. Options have names, and most of them a letter too; they are
set by the arguments of a shell and by the command `set`, where a plus sign takes them back.
-/

namespace ScriptCompiler.Shell

/-- What a shell is told about how to run. -/
structure Options where
  /-- A command that fails ends the script. -/
  strict : Bool
  /-- Commands are shown before they run. -/
  traced : Bool
  /-- Commands are read only. -/
  idle : Bool
  /-- A parameter without a value is a fault. -/
  refusing : Bool
  /-- Words are no patterns. -/
  literal : Bool
  /-- Files are not written over. -/
  careful : Bool
  /-- Programs see all variables. -/
  exporting : Bool
  /-- The script is an argument. -/
  command : Bool
  /-- The script is the input. -/
  fromInput : Bool
  /-- The names of options without a meaning here. -/
  others : List String
  deriving DecidableEq, Repr

namespace Options

/-- No option is set. -/
def none : Options :=
  ⟨false, false, false, false, false, false, false, false, false, []⟩

/-- The names of options and their letters, in the order in which they are shown. -/
def names : List (String × Option Char) :=
  [("errexit", some 'e'), ("noglob", some 'f'), ("ignoreeof", some 'I'), ("interactive", some 'i'),
    ("monitor", some 'm'), ("noexec", some 'n'), ("stdin", some 's'), ("xtrace", some 'x'),
    ("verbose", some 'v'), ("vi", some 'V'), ("emacs", some 'E'), ("noclobber", some 'C'),
    ("allexport", some 'a'), ("notify", some 'b'), ("nounset", some 'u'), ("privileged", some 'p'),
    ("nolog", .none), ("debug", .none)]

/-- The option of a name is set. -/
def isSet (o : Options) (name : String) : Bool :=
  match name with
  | "errexit" => o.strict
  | "xtrace" => o.traced
  | "noexec" => o.idle
  | "nounset" => o.refusing
  | "noglob" => o.literal
  | "noclobber" => o.careful
  | "allexport" => o.exporting
  | "stdin" => o.fromInput
  | _ => o.others.contains name

/-- Sets the option of a name, or takes it back. -/
def set (o : Options) (name : String) (value : Bool) : Options :=
  match name with
  | "errexit" => { o with strict := value }
  | "xtrace" => { o with traced := value }
  | "noexec" => { o with idle := value }
  | "nounset" => { o with refusing := value }
  | "noglob" => { o with literal := value }
  | "noclobber" => { o with careful := value }
  | "allexport" => { o with exporting := value }
  | "stdin" => { o with fromInput := value }
  | _ =>
    let others := o.others.filter (· ≠ name)
    { o with others := if value then name :: others else others }

/-- Sets the option of a letter. Of two ways to edit lines, one is in force. -/
def setLetter? (o : Options) (c : Char) (value : Bool) : Option Options :=
  (names.find? fun (_, letter) => letter = some c).map fun (name, _) =>
    let o := o.set name value
    if value && c = 'V' then o.set "emacs" false
    else if value && c = 'E' then o.set "vi" false
    else o

/-- Sets the option of a name, if there is one. -/
def setNamed? (o : Options) (name : Raw) (value : Bool) : Option Options :=
  (names.find? fun (n, _) => n.toList = name).map fun (n, _) => o.set n value

/-- The letters of the options that are set. -/
def letters (o : Options) : Raw :=
  names.reverse.filterMap fun (name, letter) => if o.isSet name then letter else .none

/-- Says of each option whether it is set. -/
def described (o : Options) : Raw :=
  "Current option settings\n".toList ++ names.flatMap fun (name, _) =>
    name.toList ++ List.replicate (16 - name.length) ' '
      ++ (if o.isSet name then "on\n" else "off\n").toList

/-- The commands that set the options as they are. -/
def asCommands (o : Options) : Raw :=
  names.flatMap fun (name, _) =>
    (if o.isSet name then "set -o " else "set +o ").toList ++ name.toList ++ ['\n']

/-- Sets the options of letters. The name of an option is the next argument; what stands before
arguments to which the letter `c` applies may be a script. The error is the option that is not
known. -/
def setAll (start value : Bool) : Options → List Char → List Raw →
    Except Raw (Options × List Raw)
  | o, [], args => .ok (o, args)
  | o, c :: cs, args =>
    if c = 'o' then
      match args with
      | [] => setAll start value o cs []
      | name :: args =>
        match o.setNamed? name value with
        | some o => setAll start value o cs args
        | .none => .error ("-o ".toList ++ name)
    else if c = 'c' && start then setAll start value { o with command := value } cs args
    else
      match o.setLetter? c value with
      | some o => setAll start value o cs args
      | .none => .error ['-', c]

/-- Reads options up to the first argument that is none, and gives what follows them. The flag says
whether a shell starts; the last part of the answer says whether two hyphens ended the options. One
hyphen ends them too, and the script is not shown any more. -/
def read (start : Bool) : Nat → Options → List Raw → Except Raw (Options × List Raw × Bool)
  | 0, o, args => .ok (o, args, false)
  | _, o, [] => .ok (o, [], false)
  | fuel + 1, o, arg :: args =>
    match arg with
    | ['-'] => .ok (if start then o else (o.set "xtrace" false).set "verbose" false, args, false)
    | ['-', '-'] => .ok (o, args, true)
    | '-' :: cs => do
      let (o, args) ← setAll start true o cs args
      read start fuel o args
    | '+' :: cs => do
      let (o, args) ← setAll start false o cs args
      read start fuel o args
    | _ => .ok (o, arg :: args, false)

end Options

end ScriptCompiler.Shell
