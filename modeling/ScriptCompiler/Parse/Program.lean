import ScriptCompiler.Parse.Expression
import ScriptCompiler.Token.Scan

/-!
# Parsing programs

A source text as a program. Scanning and parsing report their faults into one log; a text without
faults is a program. Where the fault that starts first says that the text stops early, more lines
may still make it a program.
-/

namespace ScriptCompiler

/-- Why a source text is not a program. -/
inductive ParseFailure where
  /-- It stops inside an open construct. -/
  | incomplete (log : Log)
  | malformed (log : Log)
  deriving DecidableEq, Repr

namespace ParseFailure

/-- The faults. -/
def log : ParseFailure → Log
  | .incomplete log => log
  | .malformed log => log

/-- The text stops inside an open construct. -/
def isIncomplete : ParseFailure → Bool
  | .incomplete _ => true
  | .malformed _ => false

/-- The message of a failure. -/
def message : ParseFailure → String
  | .incomplete log => "incomplete input\n" ++ log.text
  | .malformed log => log.text

/-- The failure with these faults. -/
def ofLog (log : Log) : ParseFailure :=
  if log.earliest?.any fun d => d.code.isEndOfInput then .incomplete log else .malformed log

end ParseFailure

namespace Parse

/-- A whole program. -/
def program : Parser Body := do
  let statements ← body (expression maxDepth) []
  if !(← atEnd) && !(← isFull) then unexpected "end of file"
  return statements

/-- The program that the tokens of a file spell, if any, and the faults found. -/
def ofTokens (file : SourceFile) (tokens : List Token) (known : List String) :
    Option Body × Log :=
  let (result, after) := program.run (State.start file tokens known)
  (result, after.log)

end Parse

/-- The program that a source text spells. The names in `known` are local variables from the
start. -/
def parse (name source : String) (known : List String) : Except ParseFailure Body :=
  let file := SourceFile.ofText name source
  let scanned := Token.scan file
  let (result, log) := Parse.ofTokens file scanned.tokens known
  let faults := scanned.log.append log
  match result with
  | some statements => if faults.hasErrors then .error (.ofLog faults) else .ok statements
  | none => .error (.ofLog faults)

end ScriptCompiler
