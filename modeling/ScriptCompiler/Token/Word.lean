import ScriptCompiler.Token.Cursor

/-!
# Character classes of names and numbers

The classes are those of ASCII; every character beyond ASCII counts as part of a name.
-/

namespace ScriptCompiler.Token

/-- A decimal digit. -/
def isDigit (c : Char) : Bool :=
  '0' ≤ c && c ≤ '9'

/-- A small letter. -/
def isLower (c : Char) : Bool :=
  'a' ≤ c && c ≤ 'z'

/-- A capital letter. -/
def isUpper (c : Char) : Bool :=
  'A' ≤ c && c ≤ 'Z'

/-- A character beyond ASCII. -/
def isWide (c : Char) : Bool :=
  0x80 ≤ c.toNat

/-- A character inside a name. -/
def isWord (c : Char) : Bool :=
  isLower c || isUpper c || isDigit c || c = '_' || isWide c

/-- The value of a digit in base sixteen. -/
def hexValue? (c : Char) : Option Nat :=
  if isDigit c then some (c.toNat - '0'.toNat)
  else if 'a' ≤ c && c ≤ 'f' then some (c.toNat - 'a'.toNat + 10)
  else if 'A' ≤ c && c ≤ 'F' then some (c.toNat - 'A'.toNat + 10)
  else none

/-- How many of the first characters belong to a name. -/
def wordLength (cs : List Char) : Nat :=
  (cs.takeWhile isWord).length

/-- How many characters of a mark at the end of a method name follow: a question or exclamation
mark that does not start the operator of inequality. -/
def suffixLength : List Char → Nat
  | c :: rest => if (c = '?' || c = '!') && rest.head? ≠ some '=' then 1 else 0
  | [] => 0

/-- How many characters of a method name follow: a word and a mark at its end. -/
def methodLength (cs : List Char) : Nat :=
  let n := wordLength cs
  n + suffixLength (cs.drop n)

/-- The name starts with a capital letter. -/
def startsUpper (name : String) : Bool :=
  name.toList.head?.any isUpper

end ScriptCompiler.Token
