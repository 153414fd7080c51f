import ScriptCompiler.Shell.Words

/-!
# Reading shell scripts

Tokens are put together to commands. A script runs line by line: the commands on a line are read
with all that has to be there before they can run, and a fault on a later line is seen only after
they ran.
-/

namespace ScriptCompiler.Shell

/-! ## Tokens at hand -/

/-- What is done about the token at hand at a place. -/
structure Place where
  /-- Line ends are passed. -/
  newlines : Bool
  /-- Keywords mean something. -/
  keywords : Bool
  /-- Texts are read for aliases. -/
  aliases : Bool
  deriving DecidableEq, Repr

namespace Place

/-- Nothing is done. -/
def inside : Place :=
  ⟨false, false, false⟩

/-- A command may start. -/
def start : Place :=
  ⟨false, true, true⟩

/-- A command may start on a later line. -/
def laterStart : Place :=
  ⟨true, true, true⟩

end Place

/-- Reads a token with something around it, unless one is at hand, and says whether a blank at the
end of an alias is passed by that. -/
def hold (a : Around) : Reader Bool := do
  let i ← get
  if i.held.isSome then return false
  let t ← nextToken a
  modify fun i => { i with held := some t }
  return (← get).passesBlank i.rest.length

/-- The most tokens that are read for one. -/
def tokenLimit : Nat := 0xffffffff

/-- The token at hand. An alias that ends with a blank is followed by a word that may be an alias
too. -/
def tokenAt (a : Around) : Nat → Place → Reader Token
  | 0, _ => return .finish
  | fuel + 1, p => do
    let passed ← hold a
    let i ← get
    let t := i.held.getD .finish
    let p := { p with aliases := p.aliases || passed }
    if p.newlines && t.isNewline then
      set { i with held := none }
      takeTexts
      tokenAt a fuel p
    else
      let name? := match t with
        | .word w => if p.aliases && !(p.keywords && t.keyword?.isSome) then Word.plain? w else none
        | _ => none
      match name?, name?.bind i.aliasText? with
      | some name, some text =>
        set (i.openAlias name text)
        tokenAt a fuel p
      | _, _ => return t

/-- The token at hand, read with something around it if it was not looked at yet. -/
def peekIn (a : Around) : Reader Token :=
  tokenAt a tokenLimit .inside

/-- The token at hand. -/
def peek : Reader Token :=
  peekIn .nothing

/-- The token at hand at a place. -/
def peekAt (p : Place) : Reader Token :=
  tokenAt .nothing tokenLimit p

/-- Passes line ends. -/
def skipLines : Reader Unit := do
  let _ ← peekAt ⟨true, false, false⟩

/-- Passes line ends to where a command may start. -/
def skipToStart : Reader Unit := do
  let _ ← peekAt .laterStart

/-- Passes the token at hand. -/
def advance : Reader Unit :=
  modify fun i => { i with held := none }

/-- Refuses a token, where a certain one may have to stand. -/
def reject {α : Type} (t : Token) (expected : Option String) : Reader α :=
  refuse (.unexpected t.name (expected.map Raw.ofString))

/-- Takes the meaning of a keyword at hand away. -/
def asPlain : Reader Unit := do
  if let .word w ← peek then modify fun i => { i with held := some (.word (.text [] true :: w)) }

/-- Passes a keyword or an operator if it is at hand. -/
def accept (mark : String) : Reader Bool := do
  let found := (← peek).isMark mark
  if found then advance
  return found

/-- Passes a keyword or an operator that has to be at hand. -/
def expect (mark : String) : Reader Unit := do
  unless ← accept mark do reject (← peek) (some ("\"" ++ mark ++ "\""))

/-! ## Simple commands -/

/-- The assignment that a word is. -/
def assignment? (w : Word) : Option (Assignment Word) :=
  let letter? : Segment → Option Char
    | .text [c] false => some c
    | _ => none
  let front := w.takeWhile fun s => letter? s |>.any (· ≠ '=')
  let name := front.filterMap letter?
  match w.drop front.length with
  | .text ['='] false :: value => if isName name then some ⟨name, value⟩ else none
  | _ => none

/-- The parts of a simple command, the last one of each kind first. -/
structure Parts where
  assignments : List (Assignment Word)
  words : List Word
  redirects : List (Redirect Word)

namespace Parts

/-- There are no parts yet. -/
def none : Parts :=
  ⟨[], [], []⟩

/-- Adds a word. Only the words before the name of the command are assignments. -/
def add (p : Parts) (w : Word) : Parts :=
  match if p.words.isEmpty then assignment? w else .none with
  | some a => { p with assignments := a :: p.assignments }
  | .none => { p with words := w :: p.words }

/-- The one word, if there is nothing else. -/
def single? (p : Parts) : Option Word :=
  match p with
  | ⟨[], [w], []⟩ => some w
  | _ => .none

end Parts

/-- Reads the word after the operator of a redirection. -/
def redirectWord (a : Around) : Reader Word := do
  match ← peekIn a with
  | .word w =>
    advance
    return w
  | t => reject t none

/-- Reads a redirection, if there is one. -/
def redirection? : Reader (Option (Redirect Word)) := do
  match ← peek with
  | .redirect stream kind =>
    advance
    return some ⟨stream, kind, ← redirectWord .nothing⟩
  | .here stream withoutTabs =>
    advance
    let last ← redirectWord .mark
    return some ⟨stream, .text (← announce withoutTabs last), []⟩
  | _ => return none

/-- Reads redirections. What follows them is no keyword. -/
def redirections : Nat → Reader (List (Redirect Word))
  | 0 => return []
  | fuel + 1 => do
    match ← redirection? with
    | some r =>
      let rs ← redirections fuel
      if rs.isEmpty then asPlain
      return r :: rs
    | none => return []

/-- Reads the words and redirections of a simple command. -/
def parts : Nat → Parts → Reader Parts
  | 0, p => return p
  | fuel + 1, p => do
    let t ← peekAt { Place.inside with aliases := p.words.isEmpty }
    match ← redirection? with
    | some r => parts fuel { p with redirects := r :: p.redirects }
    | none =>
      match t with
      | .word w =>
        advance
        parts fuel (p.add w)
      | _ => return p

/-! ## Compound commands -/

/-- Reads what is before a keyword or operator. -/
def before (last : String) : Reader Command := do
  let body ← commands .needed
  expect last
  return body

/-- Reads a branch after its first word. -/
def choice : Nat → Reader Command
  | 0 => return .nothing
  | fuel + 1 => do
    let test ← before "then"
    let yes ← commands .needed
    if ← accept "elif" then return .choice test yes (← choice fuel)
    else if ← accept "else" then return .choice test yes (← before "fi")
    else
      expect "fi"
      return .choice test yes .nothing

/-- Reads words. -/
def wordsOf : Nat → Reader (List Word)
  | 0 => return []
  | fuel + 1 => do
    match ← peek with
    | .word w =>
      advance
      return w :: (← wordsOf fuel)
    | _ => return []

/-- Reads the name that a loop gives to its words. -/
def loopName : Reader Raw := do
  match ← peek with
  | .word w =>
    match (Word.plain? w).filter isName with
    | some name =>
      advance
      return name
    | none => refuse .badVariable
  | _ => refuse .badVariable

/-- Reads a loop over words after its first word. Without words it is over the arguments. -/
def each (line : Nat) : Reader Command := do
  let name ← loopName
  skipToStart
  let items ← if ← accept "in" then do
      let items ← wordsOf (← bound)
      let t ← peek
      if t.isNewline || t.isMark ";" then advance else reject t none
      pure items
    else do
      let _ ← accept ";"
      pure [[.param .each .plain true]]
  skipToStart
  expect "do"
  return .each line name items (← before "done")

/-- Reads the patterns of an arm. Anything counts as one, but only a word matches something. -/
def patterns : Nat → Reader (List Word)
  | 0 => return []
  | fuel + 1 => do
    let first := match ← peek with
      | .word w => w
      | _ => []
    advance
    asPlain
    if ← accept "|" then return first :: (← patterns fuel) else return [first]

/-- Reads the arms of a selection and its end. -/
def arms : Nat → Reader (List (List Word × Command))
  | 0 => return []
  | fuel + 1 => do
    skipLines
    if ← accept "esac" then return []
    else
      let _ ← accept "("
      let ps ← patterns (← bound)
      expect ")"
      let body ← commands .optional
      skipLines
      if ← accept "esac" then return [(ps, body)]
      else
        expect ";;"
        return (ps, body) :: (← arms fuel)

/-- Reads a selection after its first word. -/
def selection (line : Nat) : Reader Command := do
  match ← peek with
  | .word subject =>
    advance
    skipToStart
    expect "in"
    return .select line subject (← arms (← bound))
  | t => reject t (some "word")

/-- Reads a command that starts with a keyword or an operator, without its redirections. -/
def compound? : Reader (Option Command) := do
  let t ← peek
  let line := (← get).line
  let starts (mark : String) : Reader Bool := accept mark
  if t.isMark "(" then return none
  else if ← starts "if" then return some (← choice (← bound))
  else if ← starts "while" then return some (.loop true (← before "do") (← before "done"))
  else if ← starts "until" then return some (.loop false (← before "do") (← before "done"))
  else if ← starts "for" then return some (← each line)
  else if ← starts "case" then return some (← selection line)
  else if ← starts "\x7b" then return some (← before "\x7d")
  else return none

/-- Reads a simple command, or the name of a function with its parentheses. -/
def simple : Reader (Sum Command Raw) := do
  let line := (← get).line
  let p ← parts (← bound) .none
  match p.single?, (← peek).isMark "(" with
  | some w, true =>
    advance
    asPlain
    expect ")"
    match (Word.plain? w).filter fun s => isName s && !specialNames.any (·.toList = s) with
    | some name => return .inr name
    | none => refuse .badFunction
  | _, _ =>
    return .inl (.call line p.assignments.reverse p.words.reverse p.redirects.reverse)

/-- Reads a command. The body of a function is a command as well. -/
def command : Nat → Reader Command
  | 0 => return .nothing
  | fuel + 1 => do
    let t ← peek
    let line := (← get).line
    match ← compound? with
    | some c =>
      let rs ← redirections (← bound)
      return if rs.isEmpty then c else .redirected line c rs
    | none =>
      if ← accept "(" then
        let c ← before ")"
        return .apart line c (← redirections (← bound))
      match t, t.keyword? with
      | .word _, none | .redirect _ _, _ | .here _ _, _ =>
        match ← simple with
        | .inl c => return c
        | .inr name =>
          skipToStart
          return .define name (← command fuel)
      | _, _ => reject t none

/-- Reads a command with all that belongs to it. -/
def wholeCommand : Reader Command := do
  command (← bound)

/-! ## Lists -/

/-- Reads what a command is piped into. -/
def pipes : Nat → Command → Reader Command
  | 0, c => return c
  | fuel + 1, c => do
    if ← accept "|" then
      skipToStart
      return .pipe c (← pipes fuel (← wholeCommand))
    else return c

/-- Reads a pipeline. -/
def pipeline : Reader Command := do
  let negated ← accept "!"
  let _ ← peekAt .start
  let c ← pipes (← bound) (← wholeCommand)
  return if negated then .negated c else c

/-- Reads the pipelines that depend on how a command ends. -/
def chained : Nat → Command → Reader Command
  | 0, c => return c
  | fuel + 1, c => do
    if ← accept "&&" then
      skipToStart
      chained fuel (.joined c .afterSuccess (← pipeline))
    else if ← accept "||" then
      skipToStart
      chained fuel (.joined c .afterFailure (← pipeline))
    else return c

/-- Reads pipelines that depend on one another. -/
def chain : Reader Command := do
  let c ← pipeline
  chained (← bound) c

/-- A token stands after a list of commands. -/
def Token.endsList (t : Token) : Bool :=
  ["then", "elif", "else", "fi", "do", "done", "esac", "\x7d", ")", ";;"].any t.isMark

/-- Reads a list of commands inside another command. -/
def listOf : Nat → Bool → Reader Command
  | 0, _ => return .nothing
  | fuel + 1, needed => do
    let t ← peekAt .laterStart
    if t.isFinish || (!needed && t.endsList) then return .nothing
    let c ← chain
    if (← peek).isNewline || (← accept ";") then return .joined c .always (← listOf fuel false)
    else if ← accept "&" then return .joined (.beside c) .always (← listOf fuel false)
    else return c

/-- Reads the commands on a line. -/
def lineOf : Nat → Reader Command
  | 0 => return .nothing
  | fuel + 1 => do
    let t ← peekAt .start
    if t.isFinish then return .nothing
    else if t.isNewline then
      advance
      takeTexts
      return .nothing
    else
      let c ← chain
      if ← accept ";" then return .joined c .always (← lineOf fuel)
      else if ← accept "&" then return .joined (.beside c) .always (← lineOf fuel)
      else
        let t ← peek
        if t.isNewline then
          advance
          takeTexts
        else if !t.isFinish then reject t none
        return c

/-- Reads a list of commands inside something. The texts of a script of its own start after the
list, if not before. -/
def enclosed (list : Enclosed) : Reader Command := do
  let c ← listOf (← bound) (list = .needed)
  if list = .script then takeTexts
  return c

/-- Reads a list of commands, with lists inside lists up to a number of levels. -/
def nested : Nat → Enclosed → ReadFrom Command
  | 0, _ => return .nothing
  | levels + 1, list => (enclosed list).run (nested levels)

/-! ## Scripts -/

/-- Reads the commands on the next line of a script, with the aliases and the texts inside scripts
that are known when they are read. -/
def nextLine (aliases : List Alias) (texts : Array Word) (i : Input) :
    Except Fault (Command × Input) :=
  let i := { i with aliases, texts, announced := [] }
  ((lineOf i.bound : Reader Command).run (nested i.bound)).run i

end ScriptCompiler.Shell
