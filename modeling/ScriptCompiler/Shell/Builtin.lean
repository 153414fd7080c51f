import ScriptCompiler.Shell.Condition
import ScriptCompiler.Shell.Input
import ScriptCompiler.Shell.Naming
import ScriptCompiler.Shell.Numeral
import ScriptCompiler.Shell.Traps

/-!
# Commands of the shell

The commands that a shell runs without a program: those that write or ask something, those that
change variables and where files are looked for, and those that change how the script goes on.
-/

namespace ScriptCompiler.Shell

/-! ## Rights

The owner of a file, the group and all others may each have the right to read, to write and to
execute it. Nine bits say which of these rights a new file does not get.
-/

/-- The rights that new files do not get, if nothing else is said. -/
def usualMask : Nat := 0o022

/-- All rights. -/
def allRights : Nat := 0o777

/-- The rights that are left by others, among all of them. -/
def withoutRights (rights others : Nat) : Nat :=
  rights &&& (allRights ^^^ (others &&& allRights))

/-- A mask in base eight. -/
def maskText (mask : Nat) : Raw :=
  withZeros 4 (Nat.toDigits 8 mask)

/-- The rights that a mask leaves, for each kind of user. -/
def rightsText (mask : Nat) : Raw :=
  Raw.join [','] <| [('u', 6), ('g', 3), ('o', 0)].map fun (user, place) =>
    user :: '=' :: [('r', 2), ('w', 1), ('x', 0)].filterMap fun (right, bit) =>
      if mask.testBit (place + bit) then none else some right

/-- The bits for a letter that names users. -/
def userBits (c : Char) : Nat :=
  match c with
  | 'u' => 0o100
  | 'g' => 0o010
  | 'o' => 0o001
  | _ => 0o111

/-- The three bits for a letter that names rights, or users who have them. -/
def rightBits (rights : Nat) (c : Char) : Nat :=
  match c with
  | 'r' => 4
  | 'w' => 2
  | 'x' => 1
  | 'u' => rights >>> 6
  | 'g' => rights >>> 3
  | 'o' => rights
  | 'X' => if rights &&& 0o111 = 0 then 0 else 1
  | _ => 0

/-- Rights after changes that a text says: users, a sign and rights. The next change may be about
the same users, or about other ones after a comma. -/
def changeRights (before : Nat) : Nat → Nat → Nat → Raw → Option Nat
  | 0, _, _, _ => none
  | fuel + 1, rights, users, cs =>
    if cs.isEmpty then some rights
    else
      let named := cs.takeWhile "augo".toList.contains
      let users := named.foldl (fun bits c => bits ||| userBits c) users
      let users := if users = 0 then userBits 'a' else users
      match cs.drop named.length with
      | [] => some rights
      | sign :: after =>
        let given := after.takeWhile "rwxugoXs".toList.contains
        let bits := (given.foldl (fun bits c => bits ||| rightBits before c) 0 &&& 7) * users
        let changed := match sign with
          | '-' => some (withoutRights rights bits)
          | '+' => some (rights ||| bits)
          | '=' => some (bits ||| withoutRights rights (7 * users))
          | _ => none
        match after.drop given.length with
        | ',' :: rest => changed.bind fun rights => changeRights before fuel rights 0 rest
        | rest =>
          if rest.isEmpty || rest.head?.any "=+-".toList.contains then
            changed.bind fun rights => changeRights before fuel rights users rest
          else none

/-- The mask that a text says: a number in base eight, or changes of the rights that it leaves. -/
def newMask? (before : Nat) (text : Raw) : Option Nat :=
  if text.head?.any Char.isDigit then
    let (n, rest) := readDigits 8 text
    if rest.isEmpty then some (n &&& allRights) else none
  else
    let rights := withoutRights allRights before
    (changeRights rights (text.length + 1) rights 0 text).map (withoutRights allRights)

/-! ## Going on -/

/-- Ends the script with a status, the last one if none is given. -/
def exit : List Raw → Run Unit
  | [] => do
    let m ← get
    quit (m.savedStatus.getD m.status)
  | n :: _ => do quit (← neededNumber n)

/-- The status that is given, or the last one if none is. -/
def statusOf : List Raw → Run Nat
  | [] => status
  | n :: _ => neededNumber n

/-- Takes arguments away from the front, one if no number is given. -/
def shift (args : List Raw) : Run Unit := do
  let n ← neededNumber (args.headD ['1'])
  if (← setting).args.length < n then fault "can't shift that many".toList
  adjust fun s => { s with args := s.args.drop n, passed := (1, 0) }
  setStatus 0

/-- Ends loops, one if no number is given. Outside of loops there is nothing to end. -/
def leave (loops : Nat) (ending : Nat → Ending) (args : List Raw) : Run Unit := do
  let n ← neededNumber (args.headD ['1'])
  if n = 0 then fault ("Illegal number: ".toList ++ args.headD [])
  setStatus 0
  if 0 < loops then throw (ending (min n loops))

/-! ## Writing and asking -/

/-- Does what a program does as a command of the shell. -/
def performHere (e : Effect) : Run Unit := do
  let called := (← setting).called.getD []
  perform ((← placeAt (← get).line) ++ called ++ ": I/O error".toList) e

/-- Writes arguments as a format says. The shell knows no options here. -/
def printfHere (args : List Raw) : Run Unit := do
  let unknown := match args.headD [] with
    | '-' :: c :: _ => if c = '-' then none else some c
    | _ => none
  let printed := match unknown with
    | some c => Printed.failed (.illegalOption c)
    | none => printf .shell args
  let place ← placeAt (← get).line
  performHere ⟨printed.status .shell, printed.written .shell place, false⟩

/-- Asks something. -/
def ask (name : Raw) (args : List Raw) : Run Unit := do
  let fs := (← get).files
  match if name = ['['] then bracketed fs args else answer fs args with
  | .ok yes => answerWith yes
  | .error e => fault e.message

/-! ## Variables -/

/-- The name and the value in an argument that gives a variable a value. -/
def nameAndValue (arg : Raw) : Raw × Option Raw :=
  let name := arg.takeWhile (· ≠ '=')
  (name, if name.length < arg.length then some (arg.drop (name.length + 1)) else none)

/-- Shows variables in order, each after a text. -/
def listVariables (front : Raw) (vars : List (Raw × Variable)) : Run Unit :=
  print <| (vars.mergeSort fun a b => !decide (b.1 < a.1)).flatMap fun (name, v) =>
    match v.value with
    | some value => front ++ name ++ ['='] ++ quotedText value ++ ['\n']
    | none => front ++ name ++ ['\n']

/-- Marks variables, or shows those with the mark. -/
def markAll (command : Raw) (has : Variable → Bool) (f : Variable → Variable) (args : List Raw) :
    Run Unit := do
  let (given, names) ← takeOptions "p" "" args
  setStatus 0
  if names.isEmpty || isGiven 'p' given then
    listVariables (command ++ [' ']) ((← setting).vars.filter fun (_, v) => has v)
  else
    for arg in names do
      let (name, value) := nameAndValue arg
      refuseName name
      mark f name value

/-- Gives a function variables for itself. -/
def localAll (args : List Raw) : Run Unit := do
  if (← setting).locals.isNone then fault "not in a function".toList
  setStatus 0
  for arg in args do
    let (name, value) := nameAndValue arg
    refuseName name
    makeLocal name
    if let some value := value then assign name value

/-- Takes variables or functions away. -/
def unsetAll (args : List Raw) : Run Unit := do
  let (given, names) ← takeOptions "vf" "" args
  setStatus 0
  for name in names do
    if (given.getLast?.map (·.1)) = some 'f' then
      adjust fun s => { s with functions := s.functions.filter (·.1 ≠ name) }
    else
      refuseName name
      unset name

/-- Refuses to watch jobs, which only a shell with a user can do. A copy of a shell says that it
does, and does not. -/
def withoutMonitor (complaint : Raw → Run Unit) (o : Options) : Run Options := do
  if (← setting).isCopy then return o
  if o.isSet "monitor" then complaint "can't access tty; job control turned off".toList
  return o.set "monitor" false

/-- Changes options and, if any are given, the arguments of the script. Shows the variables if there
is nothing to change, and the options if the name of one is missing at the end. -/
def setOptions (args : List Raw) : Run Unit := do
  setStatus 0
  if args.isEmpty then listVariables [] ((← setting).vars.filter fun (_, v) => v.value.isSome)
  else
    match Options.read false (args.length + 1) (← setting).options args with
    | .error option => fault ("Illegal option ".toList ++ option)
    | .ok (options, rest, ended) =>
      let options ← withoutMonitor complain options
      adjust fun s => { s with options }
      if !rest.isEmpty || ended then
        adjust fun s => { s with args := rest, passed := (1, 0) }
      else if args.getLast? = some "-o".toList then print options.described
      else if args.getLast? = some "+o".toList then print options.asCommands

/-! ## Directories -/

/-- The name of the variable for the working directory. -/
def workingDirName : Raw := "PWD".toList

/-- The working directory as a text. -/
def workingDirText (fs : FileSystem) : Raw :=
  Raw.ofString (Path.ofNames fs.workingDir).text

/-- The names of the directory of a path, if it is one. -/
def directory? (fs : FileSystem) (path : Raw) : Option (List String) :=
  match fs.resolve ⟨Raw.toString path⟩ with
  | .ok names => if fs.lookup names = some .directory then some names else none
  | .error _ => none

/-- A path says itself where it starts: at the root, or at the working directory. -/
def isRooted (path : Raw) : Bool :=
  match path with
  | '/' :: _ => true
  | _ =>
    let first := path.takeWhile (· ≠ '/')
    first = ['.'] || first = ['.', '.']

/-- Looks for a directory where a variable says, and says whether it was found elsewhere than in the
working directory. -/
def searchDirectory (fs : FileSystem) (dest : Raw) : List Raw → Option (List String × Bool)
  | [] => none
  | front :: rest =>
    match directory? fs (if front.isEmpty then dest else front ++ ['/'] ++ dest) with
    | some names => some (names, !front.isEmpty)
    | none => searchDirectory fs dest rest

/-- Goes to a directory. -/
def changeDirectory (args : List Raw) : Run Unit := do
  let (_, args) ← takeOptions "LP" "" args
  let back : Bool := args.head? = some ['-']
  let home ← value? "HOME".toList
  let old ← value? "OLDPWD".toList
  let dest := if back then old.getD [] else args.headD (home.getD [])
  let dest := if dest.isEmpty then ['.'] else dest
  let fs := (← get).files
  let path := Text.splitAt ':' ((← value? "CDPATH".toList).getD [])
  let found := if isRooted dest then none else searchDirectory fs dest path
  match found.orElse fun _ => (directory? fs dest).map fun names => (names, false) with
  | none => fault ("can't cd to ".toList ++ dest)
  | some (names, elsewhere) =>
    let before := (← value? workingDirName).getD (workingDirText fs)
    modify fun m => { m with files := { m.files with workingDir := names } }
    adjust fun s => { s with tracked := s.tracked.map fun t => { t with stale := true } }
    assign "OLDPWD".toList before
    assign workingDirName (workingDirText (← get).files)
    setStatus 0
    if back || elsewhere then print (workingDirText (← get).files ++ ['\n'])

/-- Shows the working directory. -/
def showDirectory (args : List Raw) : Run Unit := do
  let _ ← takeOptions "LP" "" args
  setStatus 0
  print (workingDirText (← get).files ++ ['\n'])

/-! ## The process -/

/-- Shows or changes which rights new files do not get. -/
def umask (args : List Raw) : Run Unit := do
  let (given, args) ← takeOptions "S" "" args
  let before := (← setting).mask
  setStatus 0
  match args with
  | [] => print ((if isGiven 'S' given then rightsText before else maskText before) ++ ['\n'])
  | text :: _ =>
    match newMask? before text with
    | some mask => adjust fun s => { s with mask }
    | none =>
      let kind := if text.head?.any Char.isDigit then "number" else "mode"
      fault ("Illegal ".toList ++ kind.toList ++ ": ".toList ++ text)

/-- Sets no limit, as there are none, and shows that. -/
def ulimit (args : List Raw) : Run Unit := do
  let (_, args) ← takeOptions "HSatfdscmlpnvwr" "" args
  setStatus 0
  match args with
  | [] => print "unlimited\n".toList
  | [n] =>
    unless n = "unlimited".toList || (!n.isEmpty && n.all Char.isDigit) do fault "bad number".toList
  | _ => fault "too many arguments".toList

/-- Shows how much time was used, which is none. -/
def showTimes : Run Unit := do
  setStatus 0
  print "0m0.000000s 0m0.000000s\n0m0.000000s 0m0.000000s\n".toList

end ScriptCompiler.Shell
