import ScriptCompiler.Diagnostic.Basic
import ScriptCompiler.Token.Basic
import ScriptCompiler.Syntax.Basic

/-!
# Parser state

A parser reads tokens and keeps three more things: the local variables of the open scopes, whether
the word `do` may start a block, and the faults found so far. It answers a result or fails; what it
read and reported before it failed stays read and reported, so that the caller can recover.

The last token of a stream is the end of the text, and it is never passed.
-/

namespace ScriptCompiler.Parse

/-- The local variables of a scope. A closed scope hides the variables of the scopes around it, an
open one shows them. -/
structure Scope where
  names : List String
  closed : Bool
  deriving DecidableEq, Repr

/-- The state of a parser. -/
structure State where
  file : SourceFile
  current : Token
  /-- The tokens after the current one. -/
  rest : List Token
  /-- The span of the token before the current one. -/
  previous : Span
  log : Log
  /-- The open scopes, innermost first. -/
  scopes : List Scope
  /-- The word `do` may start a block. Inside the arguments of a call without parentheses, and in
  the condition of a loop, it belongs to what is around them. -/
  doBlocks : Bool

namespace State

/-- Local variables that are bound in a scope, innermost scope first. -/
def sees (name : String) : List Scope → Bool
  | [] => false
  | s :: outer => s.names.contains name || (!s.closed && sees name outer)

/-- The state after the current token. -/
def next (s : State) : State :=
  match s.rest with
  | [] => s
  | t :: rest => { s with current := t, rest := rest, previous := s.current.span }

/-- The token after the current one; the last token comes after itself. -/
def following (s : State) : Token :=
  s.rest.head?.getD s.current

/-- Binds a local variable in the innermost scope. -/
def bind (s : State) (name : String) : State :=
  match s.scopes with
  | [] => s
  | scope :: outer => { s with scopes := { scope with names := name :: scope.names } :: outer }

/-- Reports a fault. -/
def report (s : State) (r : Report) : State :=
  { s with log := s.log.push (s.file.diagnose r) }

/-- A state in front of the tokens of a file, with local variables that are known already. -/
def start (file : SourceFile) (tokens : List Token) (known : List String) : State where
  file := file
  current := tokens.head?.getD ⟨.endOfInput, .point 1 1, false⟩
  rest := tokens.tail
  previous := .point 1 1
  log := .empty
  scopes := [⟨known, true⟩]
  doBlocks := true

end State

/-- A parser: it may fail, and keeps what it did either way. -/
abbrev Parser (α : Type) := OptionT (StateM State) α

/-! ## Looking -/

/-- What the current token says. -/
def kind : Parser Token.Kind :=
  return (← get).current.kind

/-- What the token after the current one says. -/
def followingKind : Parser Token.Kind :=
  return (← get).following.kind

/-- The span of the current token. -/
def currentSpan : Parser Span :=
  return (← get).current.span

/-- The span of the token before the current one. -/
def previousSpan : Parser Span :=
  return (← get).previous

/-- Something was skipped before the current token. -/
def spaceBefore : Parser Bool :=
  return (← get).current.spaceBefore

/-- The current token says this. -/
def at_ (k : Token.Kind) : Parser Bool :=
  return (← kind) = k

/-- No token is left. -/
def atEnd : Parser Bool :=
  at_ .endOfInput

/-- The log is full, so that parsing stops. -/
def isFull : Parser Bool :=
  return (← get).log.isFull

/-- The name is a local variable here. -/
def isLocal (name : String) : Parser Bool :=
  return State.sees name (← get).scopes

/-! ## Moving -/

/-- Passes the current token. -/
def advance : Parser Unit :=
  modify State.next

/-- Passes the current token if it says this. -/
def eat (k : Token.Kind) : Parser Bool := do
  if ← at_ k then
    advance
    return true
  else return false

/-- Binds a local variable in the innermost scope. -/
def declare (name : String) : Parser Unit :=
  modify fun s => s.bind name

/-! ## Reporting -/

/-- Reports a fault at a span. -/
def report (code : Code) (message : String) (span : Span) : Parser Unit :=
  modify fun s => s.report ⟨code, message, span, none⟩

/-- Fails on a construct that the compiler does not take, and says what to do instead. -/
def unsupported {α : Type} (message : String) (span : Span) (suggestion : String) : Parser α := do
  modify fun s => s.report ⟨.unsupportedSyntax, message, span, some suggestion⟩
  failure

/-- Reports that something else was expected than the current token. -/
def unexpected (expected : String) : Parser Unit := do
  let got ← kind
  if got = .endOfInput then
    report .unexpectedEnd ("expected " ++ expected ++ ", got end of file") (← currentSpan)
  else
    report .unexpectedToken ("expected " ++ expected ++ ", got '" ++ got.text ++ "'")
      (← currentSpan)

/-- Passes a token that must come now. -/
def expect (k : Token.Kind) : Parser Unit := do
  if ← at_ k then advance
  else
    unexpected ("'" ++ k.text ++ "'")
    failure

/-- Passes an identifier, which must come now. -/
def expectIdentifier : Parser String := do
  match ← kind with
  | .identifier name =>
    advance
    return name
  | _ =>
    unexpected "identifier"
    failure

/-- Passes a constant, which must come now. -/
def expectConstant : Parser String := do
  match ← kind with
  | .constant name =>
    advance
    return name
  | _ =>
    unexpected "constant name"
    failure

/-! ## Control -/

/-- Turns a failure into an answer. -/
def attempt {α : Type} (p : Parser α) : Parser (Option α) := fun s =>
  let (result, after) := p.run s
  (some result, after)

/-- Runs a parser where `do` may or may not start a block; afterwards it may as before. -/
def withDoBlocks {α : Type} (allowed : Bool) (p : Parser α) : Parser α := fun s =>
  let (result, after) := p.run { s with doBlocks := allowed }
  (result, { after with doBlocks := s.doBlocks })

/-- Runs a parser inside a scope of its own, which is left even if the parser fails. -/
def inScope {α : Type} (closed : Bool) (p : Parser α) : Parser α := fun s =>
  let (result, after) := p.run { s with scopes := ⟨[], closed⟩ :: s.scopes }
  (result, { after with scopes := after.scopes.tail })

/-- What a round of a repetition says: go on, or stop with an answer. -/
inductive Round (α β : Type) where
  | again (a : α)
  | done (b : β)

/-- At most so many rounds. -/
def rounds {α β : Type} (round : α → Parser (Round α β)) : Nat → α → Parser β
  | 0, _ => failure
  | n + 1, a => do
    match ← round a with
    | .again a => rounds round n a
    | .done b => return b

/-- Repeats rounds until one stops. Every round but the last two passes a token, so that there are
as many rounds as there can be. -/
def repeating {α β : Type} (round : α → Parser (Round α β)) (a : α) : Parser β := do
  rounds round ((← get).rest.length + 3) a

/-- Passes line breaks. -/
def skipNewlines : Parser Unit :=
  repeating (fun _ => do
    if ← eat .newline then return .again ()
    else return .done ()) ()

/-- A word that ends a part of a statement, so that recovery stops in front of it. -/
def stopsRecovery : Token.Kind → Bool
  | .keyword .endKw | .keyword .elseKw | .keyword .elsifKw | .keyword .rescueKw => true
  | .punct .closeBrace => true
  | _ => false

/-- Goes on to the start of the next statement after a fault. At least one token is passed. -/
def synchronize : Parser Unit := do
  advance
  repeating (fun _ => do
    if ← atEnd then return .done ()
    else if ← eat .newline then return .done ()
    else if stopsRecovery (← kind) then return .done ()
    else
      advance
      return .again ()) ()

end ScriptCompiler.Parse
