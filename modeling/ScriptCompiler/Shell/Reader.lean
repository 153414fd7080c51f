import ScriptCompiler.Shell.Script

/-!
# Reading from a script

A **reader** takes something from the front of a script, or says what is wrong and on which line.
Commands hold lists of commands, and so do words, which may say "what these commands write". A
reader is therefore given another one, for such lists; it is meant for one level less.
-/

namespace ScriptCompiler.Shell

/-- Why a script cannot be read. -/
inductive ReadError where
  | unterminatedQuote
  | unterminatedBrace
  | unterminatedSum
  | unterminatedBackquote
  | badVariable
  | badFunction
  | unexpected (token : Raw) (expected : Option Raw)
  deriving DecidableEq, Repr

/-- The words for an error. -/
def ReadError.message (e : ReadError) : Raw :=
  "Syntax error: ".toList ++ match e with
    | .unterminatedQuote => "Unterminated quoted string".toList
    | .unterminatedBrace => "Missing '\x7d'".toList
    | .unterminatedSum => "Missing '))'".toList
    | .unterminatedBackquote => "EOF in backquote substitution".toList
    | .badVariable => "Bad for loop variable".toList
    | .badFunction => "Bad function name".toList
    | .unexpected token none => token ++ " unexpected".toList
    | .unexpected token (some e) => token ++ " unexpected (expecting ".toList ++ e ++ [')']

/-- A fault and the line on which it is seen. -/
structure Fault where
  line : Nat
  /-- The last line that is read, which is the one before if its end is seen. -/
  last : Nat
  error : ReadError
  deriving DecidableEq, Repr

/-- A word or an operator. -/
inductive Token where
  | word (w : Word)
  | redirect (stream : Nat) (kind : RedirectKind)
  /-- Starts a text inside the script. Tabs at the start of its lines may be left out. -/
  | here (stream : Nat) (withoutTabs : Bool)
  /-- An operator by its text. -/
  | operator (text : String)
  | newline
  | finish

/-- The words that mean something where a command may start. -/
def keywords : List String :=
  ["if", "then", "elif", "else", "fi", "while", "until", "for", "do", "done", "case", "esac", "in",
    "!", "\x7b", "\x7d"]

/-- The commands of the shell whose faults end the script, and whose assignments stay. No function
has their names. -/
def specialNames : List String :=
  [".", ":", "break", "continue", "eval", "exec", "exit", "export", "local", "readonly", "return",
    "set", "shift", "times", "trap", "unset"]

namespace Token

/-- The keyword that a token is. -/
def keyword? : Token → Option String
  | .word w => (Word.plain? w).bind fun s => keywords.find? (·.toList = s)
  | _ => none

/-- A token is a keyword or an operator. -/
def isMark (t : Token) (mark : String) : Bool :=
  match t with
  | .operator text => text = mark
  | t => t.keyword? = some mark

/-- A token ends a line. -/
def isNewline : Token → Bool
  | .newline => true
  | _ => false

/-- A token ends a script. -/
def isFinish : Token → Bool
  | .finish => true
  | _ => false

/-- The words for a token in an error. -/
def name (t : Token) : Raw :=
  let quote (s : String) : Raw := '"' :: s.toList ++ ['"']
  match t with
  | .word _ =>
    match t.keyword? with
    | some k => quote k
    | none => "word".toList
  | .redirect _ _ | .here _ _ => "redirection".toList
  | .operator text => quote text
  | .newline => "newline".toList
  | .finish => "end of file".toList

end Token

/-- An alias whose text is read. -/
structure Opened where
  name : Raw
  /-- The number of characters that are left of the script after the text. -/
  left : Nat
  /-- The text ends with a blank. -/
  blank : Bool
  deriving DecidableEq, Repr

/-- A text inside the script that starts after the line at hand. -/
structure Announced where
  number : Nat
  /-- Tabs at the start of its lines are left out. -/
  withoutTabs : Bool
  /-- The word for the line at which it ends. -/
  mark : Word

/-- How the text inside the script ends that is at hand. -/
structure Bounds where
  withoutTabs : Bool
  /-- The line at which it ends. -/
  mark : Raw
  /-- The number of that line, once it is passed. -/
  last : Option Nat
  deriving DecidableEq, Repr

/-- What is left of a script. -/
structure Input where
  rest : Raw
  line : Nat
  /-- A token that was looked at and not taken. -/
  held : Option Token
  aliases : List Alias
  /-- The aliases whose texts were put into the script, the last one first. -/
  opened : List Opened
  /-- The texts inside scripts by their numbers. -/
  texts : Array Word
  /-- The texts that start after the line at hand, in order. -/
  announced : List Announced
  /-- The text at hand, inside one. -/
  bounds : Option Bounds

/-- A script of which nothing is read yet. -/
def Input.start (script : Raw) : Input :=
  ⟨script, 1, none, [], [], #[], [], none⟩

/-- The text of an alias, unless the word stands inside that text. -/
def Input.aliasText? (i : Input) (name : Raw) : Option Raw :=
  if i.opened.any fun o => o.name = name && o.left ≤ i.rest.length then none
  else (i.aliases.find? (·.name = name)).map (·.text)

/-- Puts the text of an alias into the script. -/
def Input.openAlias (i : Input) (name text : Raw) : Input :=
  let blank : Bool := text.getLast? = some ' ' || text.getLast? = some '\t'
  { i with
    rest := text ++ i.rest
    held := none
    opened := ⟨name, i.rest.length, blank⟩ :: i.opened }

/-- The blank at the end of an alias is passed, since so many characters were left. -/
def Input.passesBlank (i : Input) (before : Nat) : Bool :=
  i.opened.any fun o => o.blank && o.left < before && i.rest.length ≤ o.left

/-- Reads from a script. -/
abbrev ReadFrom (α : Type) := StateT Input (Except Fault) α

/-- A list of commands inside something. -/
inductive Enclosed where
  | optional
  /-- It has to hold a command. -/
  | needed
  /-- It is a script of its own. -/
  | script
  deriving DecidableEq, Repr

/-- Reads from a script, where a list of commands may be part of what is read. -/
abbrev Reader (α : Type) := ReaderT (Enclosed → ReadFrom Command) (StateT Input (Except Fault)) α

/-- Reads a list of commands. -/
def commands (list : Enclosed) : Reader Command := do
  (← read) list

/-- The last line that is read: a line end at hand was only looked at, and so was the one after a
text inside the script. -/
def Input.lastLine (i : Input) : Nat :=
  match i.bounds.bind (·.last) with
  | some last => last
  | none => if i.held.any Token.isNewline then i.line - 1 else i.line

/-- Refuses what is at hand. -/
def refuse {α : Type} (e : ReadError) : Reader α := do
  let i ← get
  throw ⟨i.line, i.lastLine, e⟩

/-- The characters that are left. -/
def rest : Reader Raw := do
  return (← get).rest

/-- The room for what aliases put into a script. -/
def aliasRoom : Nat := 0xffffffff

/-- A bound for what can be read. -/
def Input.bound (i : Input) : Nat :=
  i.rest.length + 1 + aliasRoom * i.aliases.length

/-- A bound for loops that take characters. -/
def bound : Reader Nat := do
  return (← get).bound

/-- Passes characters. -/
def drop (count : Nat) : Reader Unit :=
  modify fun i =>
    { i with rest := i.rest.drop count, line := i.line + (i.rest.take count).count '\n' }

/-- A text whose characters of a kind at the start are not cut by line ends after backslashes. -/
def joined (kind : Char → Bool) : Raw → Raw
  | '\\' :: '\n' :: cs => joined kind cs
  | c :: cs => if kind c then c :: joined kind cs else c :: cs
  | [] => []

/-- Takes line ends after backslashes away from between the characters of a kind that come next. -/
def join (kind : Char → Bool) : Reader Unit :=
  modify fun i =>
    let rest := joined kind i.rest
    { i with rest, line := i.line + (i.rest.length - rest.length) / 2 }

/-- Takes characters as long as they are of a kind. -/
def takeAll (kind : Char → Bool) : Reader Raw := do
  let taken := (← rest).takeWhile kind
  drop taken.length
  return taken

/-! ## Characters -/

/-- A blank between words on a line. -/
def isSpace (c : Char) : Bool :=
  c = ' ' || c = '\t'

/-- A character that ends a word. -/
def endsWord (c : Char) : Bool :=
  isSpace c || c = '\n' || c = ';' || c = '&' || c = '|' || c = '<' || c = '>' || c = '(' || c = ')'

/-- A character that the name of a variable may start with. -/
def startsName (c : Char) : Bool :=
  c.isAlpha || c = '_'

/-- A character that the name of a variable may hold. -/
def inName (c : Char) : Bool :=
  startsName c || c.isDigit

/-- A text is the name of a variable. -/
def isName (s : Raw) : Bool :=
  s.all inName && s.head?.any startsName

/-- The number that decimal digits write. -/
def digitsValue (ds : Raw) : Nat :=
  ds.foldl (fun n c => 10 * n + (c.toNat - '0'.toNat)) 0

end ScriptCompiler.Shell
