import ScriptCompiler.Files.System
import ScriptCompiler.Parse.Program

/-!
# Load errors

Why a directive cannot be replaced by the contents of its file.
-/

namespace ScriptCompiler

/-- Why a directive fails. -/
inductive LoadError where
  /-- No file has the name; the file and line that ask for it, as far as they are known. -/
  | notFound (name : String) (file : Option Path) (line : Option Nat)
  | unreadable (path : Path) (cause : FileError)
  | malformed (path : Path) (cause : ParseFailure)
  /-- Files inside one another beyond the limit. -/
  | nestingTooDeep (name : String)
  deriving DecidableEq, Repr

namespace LoadError

/-- Where a file was asked for, as messages say it. -/
def place : Option Path → Option Nat → String
  | some file, some line => " (required at " ++ file.text ++ ":" ++ toString line ++ ")"
  | some file, none => " (required from " ++ file.text ++ ")"
  | none, _ => ""

/-- The message of an error. -/
def message : LoadError → String
  | .notFound name file line => "cannot load such file -- " ++ name ++ place file line
  | .unreadable path cause => "cannot read " ++ path.text ++ ": " ++ cause.text
  | .malformed path cause => "cannot parse " ++ path.text ++ ": " ++ cause.message
  | .nestingTooDeep name =>
    "loading '" ++ name ++ "' exceeds the maximum load nesting depth"

end LoadError

end ScriptCompiler
