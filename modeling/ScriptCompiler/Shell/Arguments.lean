import ScriptCompiler.Shell.Variables

/-!
# Arguments of commands

The commands of the shell take options from the front of their arguments: letters after a hyphen,
some of which take an argument themselves.
-/

namespace ScriptCompiler.Shell

/-- An option that was given, with its argument if it takes one. -/
abbrev Given := Char × Raw

/-- Takes the letters of one argument, and the next argument for a letter that takes one. -/
def takeLetters (known taking : List Char) : Raw → List Raw → Run (List Given × List Raw)
  | [], args => return ([], args)
  | c :: cs, args => do
    if taking.contains c then
      match cs, args with
      | [], [] => fault ("No arg for -".toList ++ [c] ++ " option".toList)
      | [], arg :: args => return ([(c, arg)], args)
      | cs, args => return ([(c, cs)], args)
    else if known.contains c then
      let (others, args) ← takeLetters known taking cs args
      return ((c, []) :: others, args)
    else fault ("Illegal option -".toList ++ [c])

/-- Takes the options from the front of arguments, so many at most. -/
def takeOptionsFrom (known taking : List Char) : Nat → List Raw → Run (List Given × List Raw)
  | 0, args => return ([], args)
  | fuel + 1, args => do
    match args with
    | ['-', '-'] :: args => return ([], args)
    | ('-' :: c :: cs) :: args =>
      let (front, args) ← takeLetters known taking (c :: cs) args
      let (others, args) ← takeOptionsFrom known taking fuel args
      return (front ++ others, args)
    | _ => return ([], args)

/-- Takes the options from the front of arguments: letters, some of which take an argument. -/
def takeOptions (known taking : String) (args : List Raw) : Run (List Given × List Raw) :=
  takeOptionsFrom known.toList taking.toList args.length args

/-- The arguments of a command that has no options. -/
def withoutOptions (args : List Raw) : Run (List Raw) := do
  return (← takeOptions "" "" args).2

/-- An option was given. -/
def isGiven (c : Char) (given : List Given) : Bool :=
  given.any (·.1 = c)

/-- The number that an argument is, and no other one. -/
def neededNumber (s : Raw) : Run Nat := do
  match smallNumber? s with
  | some n => return n
  | none => fault ("Illegal number: ".toList ++ s)

end ScriptCompiler.Shell
