import ScriptCompiler.Shell.Raw

/-!
# Shell scripts

The command language of POSIX that build commands are written in. **Words** are pieces of text,
parameters, sums and what other commands write. **Commands** are calls of programs and what is put
together from them: pipelines, lists, branches, loops and functions.
-/

namespace ScriptCompiler.Shell

/-- What a parameter stands for. -/
inductive Param where
  /-- An argument of the script by its number; the name of the script is number zero. -/
  | arg (number : Nat)
  /-- The number of arguments. -/
  | count
  /-- The status of the last command. -/
  | status
  /-- The number of the process. -/
  | process
  /-- The number of the last process that runs beside the script. -/
  | beside
  /-- The letters of the options. -/
  | options
  /-- All arguments, one by one. -/
  | each
  /-- All arguments in one text. -/
  | joined
  /-- A variable. -/
  | named (name : Raw)
  deriving DecidableEq, Repr

/-- What to do about a parameter that has no value. -/
inductive Instead where
  /-- Another word stands for it. -/
  | use
  /-- Another word becomes its value. -/
  | assign
  /-- It is a fault. -/
  | refuse
  /-- Nothing; another word stands for it if it has a value. -/
  | replace
  deriving DecidableEq, Repr

/-- What a redirection does. -/
inductive RedirectKind where
  | read
  | write
  /-- Writes also where an option protects files. -/
  | overwrite
  | append
  | readWrite
  /-- Makes one stream the same as another one. -/
  | copy
  /-- Reads a text inside the script, which has a number. -/
  | text (number : Nat)
  deriving DecidableEq, Repr

/-- A redirection of a numbered stream. -/
structure Redirect (Word : Type) where
  stream : Nat
  kind : RedirectKind
  target : Word

/-- A word at the start of commands for which a text is read. -/
structure Alias where
  name : Raw
  text : Raw
  deriving DecidableEq, Repr

/-- A variable that gets a value. -/
structure Assignment (Word : Type) where
  name : Raw
  value : Word

/-- When the second of two commands runs. -/
inductive Link where
  | always
  /-- After a status of zero. -/
  | afterSuccess
  /-- After any other status. -/
  | afterFailure
  deriving DecidableEq, Repr

/-- A command runs after a status. -/
def Link.allows : Link → Nat → Bool
  | .always, _ => true
  | .afterSuccess, status => status = 0
  | .afterFailure, status => status ≠ 0

mutual

/-- A piece of a word. What is quoted is not split at blanks and is no pattern. -/
inductive Segment where
  | text (s : Raw) (quoted : Bool)
  | param (p : Param) (form : Form) (quoted : Bool)
  /-- What a command writes. -/
  | output (command : Command) (quoted : Bool)
  /-- The value of an arithmetic expression. -/
  | sum (expression : List Segment) (quoted : Bool)

/-- What is made of the value of a parameter. -/
inductive Form where
  | plain
  /-- Its length. -/
  | length
  /-- An empty value may count as none. -/
  | instead (kind : Instead) (orEmpty : Bool) (word : List Segment)
  /-- What is left when a pattern is taken away at the start or at the end. -/
  | trimmed (atEnd longest : Bool) (pattern : List Segment)
  /-- There is no such form. -/
  | bad

/-- A command. -/
inductive Command where
  | nothing
  /-- A program, function or command of the shell with its arguments. -/
  | call (line : Nat) (assignments : List (Assignment (List Segment)))
    (words : List (List Segment)) (redirects : List (Redirect (List Segment)))
  | redirected (line : Nat) (command : Command) (redirects : List (Redirect (List Segment)))
  /-- Fails where the command does well. -/
  | negated (command : Command)
  /-- What the first command writes is what the second one reads. -/
  | pipe (first second : Command)
  | joined (first : Command) (link : Link) (second : Command)
  /-- Runs in a process of its own. -/
  | apart (line : Nat) (command : Command) (redirects : List (Redirect (List Segment)))
  /-- Runs beside the script, which does not ask how it ends. -/
  | beside (command : Command)
  | choice (test yes no : Command)
  /-- Runs as long as the test does well, or as long as it does not. -/
  | loop (well : Bool) (test body : Command)
  | each (line : Nat) (name : Raw) (words : List (List Segment)) (body : Command)
  /-- Runs the first arm of which a pattern matches. -/
  | select (line : Nat) (subject : List Segment) (arms : List (List (List Segment) × Command))
  | define (name : Raw) (body : Command)

end

/-- A word as it is written. -/
abbrev Word := List Segment

/-- The text of a word that is nothing but text without quotes. -/
def Word.plain? : Word → Option Raw
  | [] => some []
  | .text s false :: rest => (Word.plain? rest).map (s ++ ·)
  | _ => none

/-- The text of a word without its quotes, the way the end of a text is named. -/
def Word.unquoted (w : Word) : Raw :=
  w.flatMap fun
    | .text s _ => s
    | _ => ['$']

/-- A part of the word is quoted. -/
def Word.isQuoted (w : Word) : Bool :=
  w.any fun
    | .text _ quoted => quoted
    | _ => false

/-- There is no command. -/
def Command.isNothing : Command → Bool
  | .nothing => true
  | _ => false

end ScriptCompiler.Shell
