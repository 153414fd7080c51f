import ScriptCompiler.Shell.Arguments

/-!
# What names mean

The name of a command is an alias, a command of the shell, a function or a program. Programs are
looked for in directories, and a shell keeps in mind where it found them.
-/

namespace ScriptCompiler.Shell

/-! ## Names -/

/-- The other commands of the shell. -/
def regularNames : List String :=
  ["[", "alias", "bg", "cd", "chdir", "command", "echo", "false", "fg", "getopts", "hash", "jobs",
    "kill", "printf", "pwd", "read", "test", "true", "type", "ulimit", "umask", "unalias", "wait"]

/-- A name is among others. -/
def isAmong (names : List String) (name : Raw) : Bool :=
  names.any (·.toList = name)

/-! ## Order -/

/-- The place of a name in a table with so many places. -/
def placeIn (places : Nat) (name : Raw) : Nat :=
  (name.foldl (fun sum c => sum + c.toNat) (16 * (name.headD '\x00').toNat)) % places

/-- Things by their places in a table, and those at one place in order. -/
def inTable {α : Type} (places : Nat) (name : α → Raw) (xs : List α) : List α :=
  xs.mergeSort fun a b => placeIn places (name a) ≤ placeIn places (name b)

/-! ## Aliases -/

/-- An alias as it is shown. -/
def Alias.shown (a : Alias) : Raw :=
  a.name ++ ['='] ++ quotedText a.text

/-- The alias of a name. -/
def Setting.alias? (s : Setting) (name : Raw) : Option Alias :=
  s.aliases.find? (·.name = name)

/-- A setting with an alias. -/
def Setting.withAlias (s : Setting) (a : Alias) : Setting :=
  { s with aliases :=
      if (s.alias? a.name).isSome then s.aliases.map fun b => if b.name = a.name then a else b
      else s.aliases ++ [a] }

/-- Says that there is no alias of a name. -/
def noAlias (command name : Raw) : Run Unit := do
  emitError (command ++ ": ".toList ++ name ++ " not found\n".toList)
  setStatus 1

/-- Makes names aliases, or shows which ones they are. -/
def aliasAll (args : List Raw) : Run Unit := do
  setStatus 0
  if args.isEmpty then
    let aliases := inTable 39 Alias.name (← setting).aliases
    print (aliases.flatMap fun a => a.shown ++ ['\n'])
  for arg in args do
    let name := arg.take 1 ++ arg.tail.takeWhile (· ≠ '=')
    match arg.drop name.length with
    | _ :: text => adjust (·.withAlias ⟨name, text⟩)
    | [] =>
      match (← setting).alias? name with
      | some a => print (a.shown ++ ['\n'])
      | none => noAlias "alias".toList name

/-- Takes aliases away. -/
def unaliasAll (args : List Raw) : Run Unit := do
  let (given, names) ← takeOptions "a" "" args
  setStatus 0
  if isGiven 'a' given then adjust fun s => { s with aliases := [] }
  else
    for name in names do
      if ((← setting).alias? name).isNone then noAlias "unalias".toList name
      adjust fun s => { s with aliases := s.aliases.filter (·.name ≠ name) }

/-! ## Programs -/

/-- The directories in which programs are looked for, if nothing else is said. -/
def usualPath : Raw :=
  "/usr/local/sbin:/usr/local/bin:/usr/sbin:/usr/bin:/sbin:/bin".toList

/-- What is found under the name of a program. -/
inductive Found where
  /-- A program, and its file. -/
  | program (name : String) (file : Raw)
  /-- A file that is no program. -/
  | other
  | nothing
  deriving DecidableEq, Repr

/-- A program is found. -/
def Found.isProgram : Found → Bool
  | .program _ _ => true
  | _ => false

/-- A path leads to something. -/
def isThere (fs : FileSystem) (path : Raw) : Bool :=
  (fs.resolve ⟨Raw.toString path⟩).toOption.isSome

/-- Looks for a program in directories. -/
def searchProgram (fs : FileSystem) (name : Raw) : List Raw → Found
  | [] => .nothing
  | dir :: dirs =>
    let file := if dir.isEmpty then name else dir ++ ['/'] ++ name
    match programFile? file with
    | some program => .program program file
    | none =>
      match searchProgram fs name dirs with
      | .nothing => if name.isEmpty || isThere fs file then .other else .nothing
      | found => found

/-- Looks for a program by its name, which may be that of a file. -/
def findProgram (fs : FileSystem) (path name : Raw) : Found :=
  if name.contains '/' then
    match programFile? name with
    | some program => .program program name
    | none => if isThere fs name then .other else .nothing
  else if name.isEmpty && path.isEmpty then .nothing
  else searchProgram fs name (Text.splitAt ':' path)

/-- The directories in which programs are looked for. -/
def Setting.path (s : Setting) : Raw :=
  (s.value? pathName).getD []

/-- A setting that keeps a program in mind. -/
def Setting.tracking (s : Setting) (t : Tracked) : Setting :=
  { s with tracked :=
      if s.tracked.any (·.name = t.name) then
        s.tracked.map fun u => if u.name = t.name then t else u
      else s.tracked ++ [t] }

/-- Looks for a program by its name and keeps it in mind. -/
def track (name : Raw) : Run Found := do
  let m ← get
  let found := findProgram m.files m.setting.path name
  if let .program _ file := found then
    unless name.contains '/' do adjust (·.tracking ⟨name, file, false⟩)
  return found

/-- Keeps a program in mind if a name means one. -/
def trackPlain (name : Raw) : Run Unit := do
  let s ← setting
  unless isAmong (specialNames ++ regularNames) name || (s.functions.lookup name).isSome do
    let _ ← track name

/-- Shows which programs are kept in mind, or looks for some. -/
def hash (args : List Raw) : Run Unit := do
  let (given, names) ← takeOptions "r" "" args
  setStatus 0
  if isGiven 'r' given then adjust fun s => { s with tracked := [] }
  else if names.isEmpty then
    print <| (inTable 31 Tracked.name (← setting).tracked).flatMap fun t =>
      t.file ++ (if t.stale then ['*', '\n'] else ['\n'])
  else
    for name in names do
      adjust fun s => { s with tracked := s.tracked.filter (·.name ≠ name) }
      unless name.contains '/' do
        trackPlain name
        let s ← setting
        unless isAmong (specialNames ++ regularNames) name || (s.functions.lookup name).isSome
            || s.tracked.any (·.name = name) do
          fails 1 (name ++ ": not found".toList)

/-! ## Meanings -/

/-- What a name means to the shell. -/
inductive Meaning where
  | keyword
  | alias (a : Alias)
  | special
  | function
  | regular
  /-- A program, which may be kept in mind. -/
  | program (file : Raw) (tracked : Bool)
  | nothing
  deriving DecidableEq, Repr

/-- What a name means. A program is kept in mind. -/
def meaningOf (name : Raw) : Run Meaning := do
  let s ← setting
  if isAmong keywords name then return .keyword
  if let some a := s.alias? name then return .alias a
  if isAmong specialNames name then return .special
  if (s.functions.lookup name).isSome then return .function
  if isAmong regularNames name then return .regular
  let tracked := s.tracked.any (·.name = name)
  match ← track name with
  | .program _ file => return .program file tracked
  | _ => return .nothing

/-- The words for what a name means. -/
def Meaning.words (name : Raw) : Meaning → Raw
  | .keyword => name ++ " is a shell keyword".toList
  | .alias a => name ++ " is an alias for ".toList ++ a.text
  | .special => name ++ " is a special shell builtin".toList
  | .function => name ++ " is a shell function".toList
  | .regular => name ++ " is a shell builtin".toList
  | .program file tracked =>
    name ++ (if tracked then " is a tracked alias for " else " is ").toList ++ file
  | .nothing => name ++ ": not found".toList

/-- Says what names mean. -/
def describeAll : List Raw → Run Unit
  | [] => return
  | name :: names => do
    let meaning ← meaningOf name
    print (meaning.words name ++ ['\n'])
    if meaning = .nothing then setStatus 127
    describeAll names

/-- Says what a name means, in short. -/
def describeShort (name : Raw) : Run Unit := do
  match ← meaningOf name with
  | .nothing => setStatus 127
  | .program file _ => print (file ++ ['\n'])
  | .alias a => print ("alias ".toList ++ a.shown ++ ['\n'])
  | _ => print (name ++ ['\n'])

/-- Says what names mean in one way or the other. -/
def describe (args : List Raw) : Run Unit := do
  let (given, names) ← takeOptions "pvV" "" args
  setStatus 0
  match names with
  | [] => return
  | name :: _ =>
    if isGiven 'V' given then describeAll [name]
    else if isGiven 'v' given then describeShort name

end ScriptCompiler.Shell
