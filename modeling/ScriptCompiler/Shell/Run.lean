import ScriptCompiler.Shell.Process

/-!
# Running shell scripts

A script runs on a file system and leaves another one, together with what it wrote and how it ended.
Words are expanded before redirections are made; a redirection that fails keeps its command from
running and gives the status two, and a name that is not that of a program gives 127.

Commands hold commands. The functions for one command take the function that runs those inside it as
an argument; `run` ties them together, one level less for what is inside.
-/

namespace ScriptCompiler.Shell

/-! ## Shells -/

/-- The variables that a shell starts with, other than those that it is given. -/
def ownVariables (fs : FileSystem) (parent : Nat) : List (Raw × Variable) :=
  let plain (name : String) (value : Raw) : Raw × Variable :=
    (name.toList, ⟨some value, false, false⟩)
  [plain "IFS" usualBlanks, plain "OPTIND" ['1'], (pathName, ⟨some usualPath, false, false⟩),
    plain "PPID" (Raw.ofNat parent), plain "PS1" ['#', ' '], plain "PS2" ['>', ' '],
    plain "PS4" ['+', ' '], (workingDirName, ⟨some (workingDirText fs), true, false⟩)]

/-- What is in force in a shell that starts, with streams and with variables from outside. -/
def Setting.start (fs : FileSystem) (process parent mask : Nat) (given : List (Raw × Variable))
    (numbers : List (Nat × Nat)) (traps : List (Nat × Raw)) : Setting where
  process
  self := process
  parent
  name := []
  args := []
  passed := (1, 0)
  vars := given ++ (ownVariables fs parent).filter fun (name, _) => (given.lookup name).isNone
  locals := none
  functions := []
  aliases := []
  tracked := []
  depth := 0
  options := .none
  mask
  numbers
  traps
  jobs := []
  beside := none
  called := none

/-- Takes all that is left of the input. -/
def takeInput : Run Raw := do
  let text := (← available 0).toOption.getD []
  consume 0 text.length
  return text

/-- What a shell does that is called with arguments. -/
def shellMain (again : Runner) (called : Raw) (args : List Raw) : Run Unit := do
  let complaint (text : Raw) : Run Unit := do
    emitError (called ++ ": 0: ".toList ++ text ++ ['\n'])
    quit 2
  match Options.read true (args.length + 1) .none args with
  | .error option => complaint ("Illegal option ".toList ++ option)
  | .ok (options, rest, _) =>
    let start (name : Raw) (args : List Raw) (script : Run Unit) : Run Unit := do
      adjust fun s => { s with name, args, options }
      let watching := if options.isSet "interactive" then options.set "monitor" true else options
      let options ← withoutMonitor (complainAt 0) watching
      adjust fun s => { s with options }
      script
    let fromInput : Run Unit := do runOwn again (← takeInput)
    if options.command then
      match rest with
      | [] => complaint "-c requires an argument".toList
      | text :: rest =>
        start (rest.headD called) rest.tail (runText again text)
        if options.fromInput then fromInput
    else
      match if options.fromInput then none else rest.head? with
      | none => start called rest fromInput
      | some file =>
        match readFile (← get).files file with
        | .ok text => start file rest.tail (runOwn again text)
        | .error .isDirectory => return
        | .error e =>
          complaint ("cannot open ".toList ++ file ++ ": ".toList ++ openText e "No such file")

/-- Runs a shell as a program. -/
def runShell (again : Runner) (inPlace : Bool) (called : Raw) (args : List Raw) : Run Unit := do
  let m ← get
  let s := m.setting
  let process := if inPlace then s.self else m.nextProcess
  let parent := if inPlace then s.parent else s.self
  let traps := s.withoutTraps.traps
  let setting := Setting.start m.files process parent s.mask s.environment s.numbers traps
  let enter (m : Machine) : Machine :=
    { m with
      nextProcess := m.nextProcess + 1
      status := 0
      savedStatus := none
      reached := [1]
      setting }
  seeFront inPlace (← inProcess again enter (shellMain again called args))

/-! ## Simple commands -/

/-- Runs a program, or says that there is none. -/
def runFound (again : Runner) (inPlace : Bool) (name : Raw) (args : List Raw) :
    Found → Run Unit
  | .program program _ => do
    again.catchUp
    if shellNames.contains program then runShell again inPlace name args
    else
      match program? program name with
      | some act =>
        let input ← available 0
        perform (name ++ ": write error: Bad file descriptor".toList)
          (act (← get).files input args)
      | none => return
  | .other => fails (if name.contains '/' then 126 else 127) (name ++ ": Permission denied".toList)
  | .nothing => fails 127 (name ++ ": not found".toList)

/-- Runs a program that is looked for in the usual directories, or in those that a variable
names. -/
def runProgram (again : Runner) (p : Position) (usual : Bool) (name : Raw) (args : List Raw) :
    Run Unit := do
  let found ← if usual then pure (findProgram (← get).files usualPath name) else track name
  let inPlace ← isInPlace p
  if found.isProgram && !inPlace then discard takeNumberOfJob
  runFound again inPlace name args found
  if found.isProgram && !inPlace then seeFront false none

/-- Puts a program in the place of the shell, which goes on only where there are no arguments. -/
def exec (again : Runner) : List Raw → Run Unit
  | [] => setStatus 0
  | name :: args => do
    let m ← get
    let found := findProgram m.files m.setting.path name
    runFound again true name args found
    match found with
    | .program _ _ => throw (.replaced (← status))
    | .other => quit 126
    | .nothing => quit 127

/-- Runs the commands in a file. -/
def source (again : Runner) (p : Position) (args : List Raw) : Run Unit := do
  match ← withoutOptions args with
  | [] => setStatus 0
  | file :: _ =>
    let fs := (← get).files
    let path := Text.splitAt ':' ((← value? pathName).getD [])
    let inDirs := path.map fun dir => if dir.isEmpty then file else dir ++ ['/'] ++ file
    let found? := if file.contains '/' then some file
      else inDirs.find? fun f => fs.isFile ⟨Raw.toString f⟩
    match found? with
    | none => fault (file ++ ": not found".toList)
    | some path =>
      match readFile fs path with
      | .error .isDirectory => setStatus 0
      | .error e =>
        fault ("cannot open ".toList ++ path ++ ": ".toList ++ openText e "No such file")
      | .ok text =>
        adjust fun s => { s with called := some path }
        tryCatch (runPart again ⟨false, p.loops, false⟩ (linesOf text) text) fun
          | .returned n => setStatus n
          | e => throw e

/-- A command that failed ends a strict script, unless another one depends on it. -/
def check (p : Position) : Run Unit := do
  let m ← get
  if m.setting.options.strict && !p.tested && m.status ≠ 0 then quit m.status

/-- Ends a function or a file of commands. -/
def leaveFunction (p : Position) (args : List Raw) : Run Unit := do
  let n ← statusOf args
  setStatus n
  check p
  throw (.returned n)

/-- Runs what a name of the shell means. -/
def runNamed (again : Runner) (p : Position) (name : Raw) (args : List Raw) : Run Unit := do
  match String.ofList name with
  | ":" | "true" => setStatus 0
  | "false" => setStatus 1
  | "echo" => performHere (echo args)
  | "printf" => printfHere args
  | "test" | "[" => ask name args
  | "kill" => kill args
  | "trap" => trap args
  | "exit" => exit args
  | "return" => leaveFunction p args
  | "shift" => shift args
  | "set" => setOptions args
  | "export" => markAll name (·.exported) (fun v => { v with exported := true }) args
  | "readonly" => markAll name (·.fixed) (fun v => { v with fixed := true }) args
  | "local" => localAll args
  | "unset" => unsetAll args
  | "read" => readLine args
  | "getopts" => getopts args
  | "cd" | "chdir" => changeDirectory args
  | "pwd" => showDirectory args
  | "umask" => umask args
  | "ulimit" => ulimit args
  | "wait" => waitAll again.catchUp args
  | "times" => showTimes
  | "alias" => aliasAll args
  | "unalias" => unaliasAll args
  | "hash" => hash args
  | "jobs" => showJobs args
  | "fg" | "bg" => changeJob args
  | "type" =>
    setStatus 0
    describeAll (← withoutOptions args)
  | "command" => describe args
  | "break" => leave p.loops .left args
  | "continue" => leave p.loops .resumed args
  | "eval" => runPart again p [] (Raw.join [' '] args)
  | "exec" => exec again args
  | "." => source again p args
  | _ => return

/-- Runs a command of the shell. A fault ends only the command, unless it is a special one. -/
def runBuiltin (again : Runner) (p : Position) (special : Bool) (name : Raw) (args : List Raw) :
    Run Unit := do
  let called := (← setting).called
  adjust fun s => { s with called := some name }
  tryCatch (ensuring (runNamed again p name args) (adjust fun s => { s with called })) fun
    | .failed => if special then throw .failed else setStatus 2
    | e => throw e

/-- The most functions that run, each called by the one before. -/
def depthLimit : Nat := 1000

/-- Runs a function. -/
def runFunction (again : Runner) (p : Position) (body : Command) (args : List Raw) : Run Unit := do
  let before ← setting
  if depthLimit ≤ before.depth then
    fault ("Maximum function recursion depth (".toList ++ Raw.ofNat depthLimit
      ++ ") reached".toList)
  adjust fun s => { s with args, passed := (1, 0), locals := some [], depth := s.depth + 1 }
  let act : Run Unit := tryCatch (again.command ⟨p.tested, 0, false⟩ body) fun
    | .returned n => setStatus n
    | e => throw e
  ensuring (unlessEnded act (adjust fun s => s.putBack (s.locals.getD [])))
    (adjust fun s =>
      { s with
        args := before.args
        passed := before.passed
        locals := before.locals
        depth := before.depth })

/-- The name of the command that looks for another one among programs and commands of the shell. -/
def plainly : Raw := "command".toList

/-- The command behind `command`, if one is to be run, and whether it is looked for in the usual
directories. -/
def behindPlainly : Nat → Bool → List Raw → Option (Bool × List Raw)
  | 0, _, _ => none
  | fuel + 1, usual, fields =>
    match fields with
    | ['-', '-'] :: rest => if rest.isEmpty then none else some (usual, rest)
    | ('-' :: c :: cs) :: rest =>
      if (c :: cs).all (· = 'p') then behindPlainly fuel true rest else none
    | [] => none
    | fields => some (usual, fields)

/-- What a simple command runs. -/
structure Callee where
  name : Raw
  args : List Raw
  /-- Functions are passed over. -/
  plain : Bool
  /-- A program is looked for in the usual directories. -/
  usual : Bool

/-- What fields run. -/
def calleeOf : Nat → Bool → Bool → List Raw → Option Callee
  | 0, _, _, _ => none
  | _, _, _, [] => none
  | fuel + 1, plain, usual, name :: args =>
    match if name = plainly then behindPlainly args.length usual args else none with
    | some (usual, fields) => calleeOf fuel true usual fields
    | none => some ⟨name, args, plain, usual⟩

/-- The commands whose arguments may be assignments. -/
def declaringNames : List String := ["export", "local", "readonly"]

/-- Expands the words of a command after some fields. -/
def callFields (inner : Command → Run Raw) : List Raw → List Word → Run (List Raw)
  | fields, [] => return fields
  | fields, w :: rest => do
    let declares := (calleeOf fields.length false false fields).any fun c =>
      isAmong declaringNames c.name
    let more ← match if declares then assignment? w else none with
      | some a => do pure [a.name ++ ['='] ++ (← Word.value inner a.value)]
      | none => Word.fields inner w
    callFields inner (fields ++ more) rest

/-- Gives variables values, which may be for one command only, and says which ones. -/
def assignEach (inner : Command → Run Raw) (exported : Bool) :
    List (Assignment Word) → Run (List Raw)
  | [] => return []
  | a :: rest => do
    let value ← Word.value inner a.value
    assign a.name value
    if exported then mark (fun v => { v with exported := true }) a.name none
    return (a.name ++ ['='] ++ value) :: (← assignEach inner exported rest)

/-- Shows a command before it runs, if that is wanted, in a stream. -/
def trace (stream : Option Nat) (words : List Raw) : Run Unit := do
  let s ← setting
  if s.options.traced then
    let _ ← emitTo stream ((s.value? "PS4".toList).getD [] ++ Raw.join [' '] words ++ ['\n'])

/-- Runs what fields mean. -/
def runCallee (again : Runner) (p : Position) (c : Callee) : Run Unit := do
  let s ← setting
  let function := if c.plain then none else s.functions.lookup c.name
  if isAmong specialNames c.name then runBuiltin again p (!c.plain) c.name c.args
  else
    match function with
    | some body => runFunction again p body c.args
    | none =>
      if isAmong regularNames c.name then runBuiltin again p false c.name c.args
      else
        runProgram again p c.usual c.name c.args

/-- Runs a simple command. -/
def call (again : Runner) (p : Position) (line : Nat) (assignments : List (Assignment Word))
    (words : List Word) (redirects : List (Redirect Word)) : Run Unit := do
  modify fun m => { m with line, innerStatus := 0 }
  let inner := outputOf again p
  let fields ← callFields inner [] words
  let callee := calleeOf (fields.length + 1) false false fields
  let special : Bool := callee.any fun c => !c.plain && isAmong specialNames c.name
  let errors ← stream? 2
  let act : Run Unit := do
    if ← redirect inner redirects then
      let before ← setting
      let passing : Bool := callee.isSome && !special
      let exported : Bool := passing || (callee.any (·.name = "exec".toList) && 1 < fields.length)
      let shown ← assignEach inner exported assignments
      trace errors (shown ++ fields)
      match callee with
      | none => setStatus (← get).innerStatus
      | some c =>
        if passing then
          let saved := assignments.map fun a => (a.name, before.binding? a.name)
          unlessEnded (runCallee again p c) (adjust fun s => s.putBack saved)
        else runCallee again p c
    else if special then throw .failed
    else setStatus 2
  if callee.any (·.name = "exec".toList) then act
  else keepingNumbers (redirects.map (·.stream)) act

/-! ## Compound commands -/

/-- Runs something with redirections in force. -/
def redirected (again : Runner) (p : Position) (line : Nat) (redirects : List (Redirect Word))
    (act : Run Unit) : Run Unit := do
  modify fun m => { m with line }
  let made ← keepingNumbers (redirects.map (·.stream)) do
    let made ← redirect (outputOf again p) redirects
    if made then act
    return made
  if !made then
    setStatus 2
    check p

/-- Runs the body of a loop, and says whether the loop goes on. -/
def turn (body : Run Unit) : Run Bool :=
  tryCatch (do
    body
    return true) fun
    | .left n => if n ≤ 1 then return false else throw (.left (n - 1))
    | .resumed n => if n ≤ 1 then return true else throw (.resumed (n - 1))
    | e => throw e

/-- Repeats a body as long as a test does well, or as long as it does not, so often at most. The
status is that of the last body. -/
def repeatWhile (well : Bool) (test body : Run Unit) : Nat → Nat → Run Unit
  | 0, _ => return
  | count + 1, last => do
    let asked ← endingOf test
    match asked with
    | some (.left n) => if n ≤ 1 then setStatus last else throw (.left (n - 1))
    | some (.resumed n) =>
      if n ≤ 1 then repeatWhile well test body count last else throw (.resumed (n - 1))
    | some e => throw e
    | none =>
      if ((← status) = 0) = well then
        if ← turn body then repeatWhile well test body count (← status)
      else setStatus last

/-- Runs a body once for each text. -/
def forEach (name : Raw) (body : Run Unit) : List Raw → Run Unit
  | [] => return
  | s :: rest => do
    assign name s
    if ← turn body then forEach name body rest

/-- The first arm of which a pattern matches a text. -/
def armFor (inner : Command → Run Raw) (subject : Raw) :
    List (List Word × Command) → Run Command
  | [] => return .nothing
  | (patterns, body) :: arms => do
    let found ← patterns.anyM fun w => return matchesText (← Word.pattern inner w) subject
    if found then return body else armFor inner subject arms

/-- Runs a command, or does well without one. -/
def runOr (again : Runner) (p : Position) : Command → Run Unit
  | .nothing => setStatus 0
  | c => again.command p c

/-- Keeps the programs in mind that the commands of a pipeline call by their names. -/
def trackCalled : Command → Run Unit
  | .pipe first second => do
    trackCalled first
    trackCalled second
  | .call _ _ (w :: _) _ => do
    if let some name := (Word.plain? w).filter isName then trackPlain name
  | _ => return

/-- Runs the two sides of a pipeline, one after the other, with room for so much between them. If
that is not enough, the first side runs until it has written as much as the second one takes: the
room is doubled, so often at most, until something is left of it. -/
def runSides (again : Runner) (p : Position) (first second : Command) : Nat → Nat → Run Unit
  | 0, _ => return
  | fuel + 1, room => do
    let before ← get
    let stream ← openStream (.pipe [] (some room))
    apart again false do
      connect 1 (some stream)
      again.command p.alone first
    trackCalled second
    let isFull := (← get).streams[stream]?.any (· matches .pipe _ none)
    changeStream stream fun s => .text s.written
    setStatus before.status
    apart again false do
      connect 0 (some stream)
      again.command p.alone second
    if isFull && (← get).streams[stream]? = some (.text []) then
      set before
      runSides again p first second fuel (2 * room)

/-- The room between the sides of a pipeline. -/
def pipeRoom : Nat := 65536

/-- A number of times after which nothing has room for twice as much. -/
def doublings : Nat := 64

/-- Runs a pipeline. -/
def runPipe (again : Runner) (p : Position) (first second : Command) : Run Unit := do
  again.catchUp
  discard takeNumberOfJob
  trackCalled first
  runSides again p first second doublings pipeRoom

/-- The most turns of a loop. -/
def turnLimit : Nat := 0xffffffff

/-- The signal for a process that has no room for more levels of commands. -/
def noRoom : Nat := 11

/-- Runs a command that holds others, which have a level less. -/
def runOne (again : Runner) (p : Position) : Command → Run Unit
  | .nothing => return
  | .call line assignments words redirects => call again p line assignments words redirects
  | .redirected line c redirects => redirected again p line redirects (again.command p.before c)
  | .negated c => do
    again.command p.asked c
    answerWith ((← status) ≠ 0)
  | .pipe first second => runPipe again p first second
  | .joined first link second => do
    again.command (if link = .always then p.before else p.asked) first
    if link.allows (← status) then again.command p second
  | .apart line c redirects => do
    modify fun m => { m with line }
    let inner := outputOf again p
    let redirects ← expandTargets inner redirects
    let inPlace ← isInPlace p
    unless inPlace do discard takeNumberOfJob
    apart again inPlace do if ← redirectAll inner redirects then again.command p.alone c else quit 2
  | .beside c => runBeside p c
  | .choice test yes no => do
    again.command p.asked test
    if (← status) = 0 then runOr again p yes else runOr again p no
  | .loop well test body =>
    repeatWhile well (again.command p.looped.asked test) (again.command p.looped body) turnLimit 0
  | .each line name words body => do
    modify fun m => { m with line }
    let items ← fieldsOf (outputOf again p) words
    if items.isEmpty then setStatus 0 else forEach name (again.command p.looped body) items
  | .select line subject arms => do
    modify fun m => { m with line }
    let inner := outputOf again p
    let text ← Word.whole inner subject
    runOr again p (← armFor inner text arms)
  | .define name body => do
    adjust fun s =>
      { s with
        functions := (name, body) :: s.functions.filter (·.1 ≠ name)
        tracked := s.tracked.filter (·.name ≠ name) }
    setStatus 0

/-- A strict script looks at the status of a command. -/
def isChecked : Command → Bool
  | .call .. | .pipe _ _ | .apart .. => true
  | _ => false

/-- Runs a command, no deeper than so many levels. -/
def run : Nat → Runner
  | 0, .command _ _ => throw (.killed noRoom)
  | 0, .pending => return
  | fuel + 1, .pending => startAll (run fuel)
  | fuel + 1, .command p c => do
    unless (← setting).options.idle do
      runOne (run fuel) p c
      passTime (run fuel)
      answerAll (run fuel)
      if isChecked c then check p

end ScriptCompiler.Shell
