import ScriptCompiler.Files.System
import ScriptCompiler.Shell.Printf

/-!
# Programs

What the programs do that build commands are made of: `echo`, `printf`, `cat`, `true` and `false`.
Each reads files and its input, and says what it writes and with which status it ends. `echo` and
`printf` are commands of the shell as well; the shell's `echo` replaces escapes unasked.
-/

namespace ScriptCompiler.Shell

/-- A piece of what a program writes, and where. -/
inductive Written where
  | output (text : Raw)
  | error (text : Raw)
  deriving DecidableEq, Repr

/-- What a program does, other than changing files. -/
structure Effect where
  status : Nat
  written : List Written
  /-- Its input is read to the end. -/
  reads : Bool
  deriving DecidableEq, Repr

namespace Effect

/-- Does nothing but end. -/
def ends (status : Nat) : Effect :=
  ⟨status, [], false⟩

/-- Writes a text and ends well. -/
def writes (text : Raw) : Effect :=
  ⟨0, [.output text], false⟩

/-- Complains and ends. -/
def complains (status : Nat) (text : Raw) : Effect :=
  ⟨status, [.error text], false⟩

/-- All that went to the output. -/
def output (e : Effect) : Raw :=
  e.written.flatMap fun
    | .output text => text
    | .error _ => []

/-- All complaints. -/
def errors (e : Effect) : Raw :=
  e.written.flatMap fun
    | .output _ => []
    | .error text => text

end Effect

/-! ## echo and printf -/

/-- A text, and a line feed after it where one is wanted. -/
def withFeed (feed : Bool) (text : Raw) : Effect :=
  .writes (if feed then text ++ ['\n'] else text)

/-- Writes arguments with spaces between them and a line feed after them, the escapes replaced. -/
def echo (args : List Raw) : Effect :=
  let (feed, args) := match args with
    | ['-', 'n'] :: args => (false, args)
    | args => (true, args)
  let e := EscapeRules.argument.replace (Raw.join [' '] args)
  withFeed (feed && !e.stop) e.text

/-- The letters of an option of the program `echo`. -/
def echoOption? (arg : Raw) : Option (List Char) :=
  match arg with
  | '-' :: letters =>
    if !letters.isEmpty && letters.all "neE".toList.contains then some letters else none
  | _ => none

/-- Writes arguments as the program `echo` does, which replaces escapes only when it is told. -/
def echoProgram (args : List Raw) : Effect :=
  let options := args.takeWhile fun arg => (echoOption? arg).isSome
  let letters := options.flatMap fun arg => (echoOption? arg).getD []
  let text := Raw.join [' '] (args.drop options.length)
  let feed := !letters.contains 'n'
  if (letters.filter (· ≠ 'n')).getLast? = some 'e' then
    let e := EscapeRules.echoProgram.replace text
    withFeed (feed && !e.stop) e.text
  else withFeed feed text

/-- What is printed, and the words for each fault after a text. What the shell prints waits for the
end. -/
def Printed.written (p : Printed) (who : Printer) (before : Raw) : List Written :=
  let blame (f : PrintFault) : Written := .error (before ++ who.words f ++ ['\n'])
  match who with
  | .shell => p.faults.map blame ++ [.output p.output]
  | .program =>
    p.pieces.map fun
      | .text s => .output s
      | .fault f => blame f

/-- Complains about how a program is called. -/
def misused (called text : Raw) : Effect :=
  .complains 1
    (called ++ ": ".toList ++ text ++ "\nTry '".toList ++ called
      ++ " --help' for more information.\n".toList)

/-- Writes arguments as the program `printf` does. -/
def printfProgram (called : Raw) (args : List Raw) : Effect :=
  let p := printf .program args
  if p.faults = [.missingFormat] then misused called (Printer.program.words .missingFormat)
  else ⟨p.status .program, p.written .program (called ++ [':', ' ']), false⟩

/-! ## cat -/

/-- The cause in the words of programs, which give no numbers. -/
def causeText (e : FileError) : String :=
  match e with
  | .notFound => "No such file or directory"
  | .permissionDenied => "Permission denied"
  | .notDirectory => "Not a directory"
  | .isDirectory => "Is a directory"
  | .nameTooLong => "File name too long"
  | _ => e.text

/-- The file that is always empty and takes everything. -/
def nullFile : Raw := "/dev/null".toList

/-- The bytes of the file of a name. -/
def readFile (fs : FileSystem) (name : Raw) : Except FileError Raw :=
  if name = nullFile then .ok []
  else (fs.read ⟨Raw.toString name⟩).map Raw.ofBytes

/-- How `cat` shows what it writes. -/
structure Shown where
  /-- Lines have numbers. -/
  numbered : Bool
  /-- Lines without characters have none. -/
  onlyFull : Bool
  /-- Of blank lines in a row there is one. -/
  squeezed : Bool
  ends : Bool
  tabs : Bool
  /-- Characters that are not printed are spelled. -/
  spelled : Bool
  deriving DecidableEq, Repr

namespace Shown

/-- Everything is shown as it is. -/
def plain : Shown :=
  ⟨false, false, false, false, false, false⟩

/-- Follows an option. -/
def set? (s : Shown) (c : Char) : Option Shown :=
  match c with
  | 'A' => some { s with spelled := true, ends := true, tabs := true }
  | 'b' => some { s with numbered := true, onlyFull := true }
  | 'e' => some { s with spelled := true, ends := true }
  | 'E' => some { s with ends := true }
  | 'n' => some { s with numbered := true }
  | 's' => some { s with squeezed := true }
  | 't' => some { s with spelled := true, tabs := true }
  | 'T' => some { s with tabs := true }
  | 'u' => some s
  | 'v' => some { s with spelled := true }
  | _ => none

/-- The options with long names. -/
def longNames : List (String × Char) :=
  [("--show-all", 'A'), ("--number-nonblank", 'b'), ("--show-ends", 'E'), ("--number", 'n'),
    ("--squeeze-blank", 's'), ("--show-tabs", 'T'), ("--show-nonprinting", 'v')]

/-- The spelling of a character below 128. -/
def spellLow (n : Nat) : Raw :=
  if n < 32 then ['^', Char.ofNat (n + 64)] else if n = 127 then ['^', '?'] else [Char.ofNat n]

/-- The spelling of a character. -/
def spell (s : Shown) (c : Char) : Raw :=
  if c = '\t' then if s.tabs then ['^', 'I'] else [c]
  else if !s.spelled then [c]
  else if c.toNat < 128 then spellLow c.toNat
  else 'M' :: '-' :: spellLow (c.toNat - 128)

end Shown

/-- Where `cat` is in what it writes: the number of the last line with a number, and how many lines
ended in a row before the character at hand. -/
structure CatState where
  line : Nat
  feeds : Nat

/-- What a line starts with. -/
def lineNumber (n : Nat) : Raw :=
  let digits := Raw.ofNat n
  List.replicate (6 - digits.length) ' ' ++ digits ++ ['\t']

/-- Shows a text from a state on. -/
def showText (s : Shown) : CatState → Raw → Raw × CatState
  | state, [] => ([], state)
  | state, c :: cs =>
    let atStart := 0 < state.feeds
    let isFeed := c = '\n'
    if isFeed && s.squeezed && 2 ≤ state.feeds then showText s state cs
    else
      let counts := atStart && s.numbered && !(isFeed && s.onlyFull)
      let line := if counts then state.line + 1 else state.line
      let front := if counts then lineNumber line else []
      let shown := if isFeed then if s.ends then ['$', c] else [c] else s.spell c
      let (text, state) := showText s ⟨line, if isFeed then state.feeds + 1 else 0⟩ cs
      (front ++ shown ++ text, state)

/-- Writes files one after another; a hyphen stands for the input. -/
def catFiles (called : Raw) (s : Shown) (fs : FileSystem) :
    CatState → Except FileError Raw → List Raw → Effect
  | _, _, [] => .ends 0
  | state, input, name :: names =>
    let isInput := name = ['-']
    match if isInput then input else readFile fs name with
    | .ok content =>
      let (text, state) := if s = .plain then (content, state) else showText s state content
      let others := catFiles called s fs state (if isInput then .ok [] else input) names
      ⟨others.status, .output text :: others.written, isInput || others.reads⟩
    | .error e =>
      let others := catFiles called s fs state input names
      let cause := (causeText e).toList
      let text := called ++ ": ".toList ++ shownName name ++ ": ".toList ++ cause ++ ['\n']
      ⟨1, .error text :: others.written, others.reads⟩

/-- What the options of `cat` say, and the arguments that name files; or what is wrong, if there is
anything but the wish for help. -/
def catOptions : Shown → List Raw → Except (Option Raw) (Shown × List Raw)
  | s, [] => .ok (s, [])
  | s, arg :: args =>
    match arg with
    | ['-', '-'] => .ok (s, args)
    | '-' :: '-' :: _ =>
      if arg = "--help".toList || arg = "--version".toList then .error none
      else
        match (Shown.longNames.find? (·.1.toList = arg)).bind (s.set? ·.2) with
        | some s => catOptions s args
        | none => .error (some ("unrecognized option '".toList ++ arg ++ ['\x27']))
    | '-' :: c :: cs =>
      let step (s : Except Char Shown) (c : Char) : Except Char Shown :=
        s.bind fun s => match s.set? c with
          | some s => .ok s
          | none => .error c
      match (c :: cs).foldl step (.ok s) with
      | .ok s => catOptions s args
      | .error c => .error (some ("invalid option -- '".toList ++ [c, '\x27']))
    | _ => (catOptions s args).map fun (s, names) => (s, arg :: names)

/-- Writes files, or the input if there are none. -/
def cat (called : Raw) (fs : FileSystem) (input : Except FileError Raw) (args : List Raw) :
    Effect :=
  match catOptions .plain args with
  | .error none => .ends 0
  | .error (some text) => misused called text
  | .ok (s, names) => catFiles called s fs ⟨0, 1⟩ input (if names.isEmpty then [['-']] else names)

/-! ## All of them -/

/-- What a program does with the files, its input and arguments. -/
abbrev Program := FileSystem → Except FileError Raw → List Raw → Effect

/-- The names of the shell. -/
def shellNames : List String := ["sh", "dash"]

/-- The names of programs. -/
def programNames : List String :=
  shellNames ++ ["echo", "printf", "cat", "true", "false"]

/-- The directories that hold the programs. -/
def programDirs : List String := ["/bin/", "/usr/bin/"]

/-- The name of the program that a file is. -/
def programFile? (path : Raw) : Option String :=
  programNames.find? fun name => programDirs.any fun dir => (dir ++ name).toList = path

/-- What the program with a name does, if it is no shell; it is called by maybe another name. -/
def program? (name : String) (called : Raw) : Option Program :=
  match name with
  | "echo" => some fun _ _ args => echoProgram args
  | "printf" => some fun _ _ args => printfProgram called args
  | "cat" => some (cat called)
  | "true" => some fun _ _ _ => .ends 0
  | "false" => some fun _ _ _ => .ends 1
  | _ => none

end ScriptCompiler.Shell
