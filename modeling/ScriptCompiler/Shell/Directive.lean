import ScriptCompiler.Shell.Escape
import ScriptCompiler.Shell.Fraction

/-!
# Directives

A **directive** of a format takes an argument and says how it is written. The shell and the program
`printf` know much the same ones.
-/

namespace ScriptCompiler.Shell

/-- Who prints by a format. -/
inductive Printer where
  | shell
  | program
  deriving DecidableEq, Repr

/-- What is wrong with a format or an argument that it takes. -/
inductive PrintFault where
  | notNumeric (s : Raw)
  | notWhole (s : Raw)
  | outOfRange (s : Raw)
  | invalidDirective (s : Raw)
  /-- The format ends within a directive. -/
  | missingCharacter (s : Raw)
  | missingFormat
  | illegalOption (c : Char)
  | badWidth (s : Raw)
  | badPrecision (s : Raw)
  /-- A text is wider than can be written. -/
  | tooWide
  | escape (e : EscapeFault)
  /-- A text follows a character that is meant itself. -/
  | ignoredText (s : Raw)
  /-- There are more arguments than the format takes. -/
  | ignoredArguments (first : Raw)
  deriving DecidableEq, Repr

namespace PrintFault

/-- Nothing is wrong, but there is something to say. -/
def isWarning : PrintFault → Bool
  | ignoredText _ | ignoredArguments _ => true
  | _ => false

/-- The words of the program for a fault. -/
def inProgram : PrintFault → Raw
  | notNumeric s => shownText s ++ ": expected a numeric value".toList
  | notWhole s => shownText s ++ ": value not completely converted".toList
  | outOfRange s => shownText s ++ ": Numerical result out of range".toList
  | invalidDirective s => s ++ ": invalid conversion specification".toList
  | missingCharacter s => s ++ ": invalid conversion specification".toList
  | missingFormat => "missing operand".toList
  | illegalOption c => "invalid option -- '".toList ++ [c, '\x27']
  | badWidth s => "invalid field width: ".toList ++ shownText s
  | badPrecision s => "invalid precision: ".toList ++ shownText s
  | tooWide => "write error".toList
  | escape .missingHex => "missing hexadecimal number in escape".toList
  | escape (.badNumber letter n) =>
    "invalid universal character name \\".toList
      ++ letter :: hexNumeral ((numberLetters.lookup letter).getD 0) n
  | ignoredText s =>
    "warning: ".toList ++ s
      ++ ": character(s) following character constant have been ignored".toList
  | ignoredArguments s =>
    "warning: ignoring excess arguments, starting with ".toList ++ shownText s

/-- The words of the shell for a fault. -/
def inShell : PrintFault → Raw
  | notNumeric s => s ++ ": expected numeric value".toList
  | notWhole s => s ++ ": not completely converted".toList
  | outOfRange s => s ++ ": Numerical result out of range".toList
  | invalidDirective s => s ++ ": invalid directive".toList
  | missingCharacter _ => "missing format character".toList
  | missingFormat => "usage: printf format [arg ...]".toList
  | tooWide => "xvsnprintf failed".toList
  | illegalOption c => "Illegal option -".toList ++ [c]
  | fault => fault.inProgram

end PrintFault

/-- The words for a fault. -/
def Printer.words : Printer → PrintFault → Raw
  | .shell => PrintFault.inShell
  | .program => PrintFault.inProgram

/-! ## Arguments -/

/-- A number that a directive takes. -/
structure Taken (α : Type) where
  value : α
  fault : Option PrintFault

/-- What is wrong with an argument as a number. -/
def Printer.numberFault? (who : Printer) (s rest : Raw) (empty outside : Bool) :
    Option PrintFault :=
  if who = .program && outside then some (.outOfRange s)
  else if empty then if s.isEmpty then none else some (.notNumeric s)
  else if !rest.isEmpty then some (.notWhole s)
  else if outside then some (.outOfRange s)
  else none

/-- The character that an argument means itself, as it stands after a quote. -/
def Printer.character? (who : Printer) (s : Raw) : Option (Taken Nat) :=
  match s with
  | q :: cs =>
    if (q = '\x27' || q = '"') && (who = .shell || !cs.isEmpty) then
      some ⟨(cs.headD '\x00').toNat,
        if who = .program && 1 < cs.length then some (.ignoredText cs.tail) else none⟩
    else none
  | [] => none

/-- The whole number that an argument says; without one, zero. A word without a sign that is too
small to be written counts as the greatest one. -/
def Printer.takeNumber (who : Printer) (signed : Bool) (s : Raw) : Taken Int :=
  match who.character? s with
  | some c => ⟨c.value, c.fault⟩
  | none =>
    let n := readNumber none s
    let value :=
      if signed then clamp signedBounds n.value
      else if n.value < unsignedBounds.1 then unsignedBounds.2
      else clamp unsignedBounds n.value
    ⟨value, who.numberFault? s n.rest n.empty (value ≠ n.value)⟩

/-- The format of numbers with a point. -/
def Printer.format : Printer → BinaryFormat
  | .shell => .double
  | .program => .extended

/-- The number with a point that an argument says; without one, zero. -/
def Printer.takePoint (who : Printer) (s : Raw) : Taken PointNumeral :=
  match who.character? s with
  | some c => ⟨⟨false, .fraction c.value 1, [], false, false⟩, c.fault⟩
  | none =>
    let n := readPoint who.format s
    ⟨n, who.numberFault? s n.rest n.empty n.outside⟩

/-! ## Layout -/

/-- How a directive writes its argument. -/
structure Layout where
  flags : List Char
  width : Nat
  precision : Option Nat

namespace Layout

/-- Fills up to the width. -/
def pad (l : Layout) (text : Raw) : Raw :=
  let blanks := List.replicate (l.width - text.length) ' '
  if l.flags.contains '-' then text ++ blanks else blanks ++ text

/-- A text fills its width. -/
theorem length_pad (l : Layout) (text : Raw) :
    (l.pad text).length = max l.width text.length := by
  unfold pad
  split <;> simp <;> omega

/-- Writes no more than the precision allows. -/
def string (l : Layout) (text : Raw) : Raw :=
  l.pad (match l.precision with
    | some n => text.take n
    | none => text)

/-- Writes digits after a sign or the mark of a base. -/
def digits (l : Layout) (mark digits : Raw) : Raw :=
  let fill := match l.precision with
    | some n => n - digits.length
    | none =>
      if l.flags.contains '0' && !l.flags.contains '-' then
        l.width - mark.length - digits.length
      else 0
  l.pad (mark ++ List.replicate fill '0' ++ digits)

/-- The digits of a number; zero has none where a precision of zero is asked for. -/
def digitsOf (l : Layout) (base n : Nat) : Raw :=
  if l.precision = some 0 && n = 0 then [] else Nat.toDigits base n

/-- What stands before a number for its sign. -/
def sign (l : Layout) (negative : Bool) : Raw :=
  if negative then ['-'] else if l.flags.contains '+' then ['+']
  else if l.flags.contains ' ' then [' '] else []

/-- Writes a number with its sign. -/
def integer (l : Layout) (n : Int) : Raw :=
  l.digits (l.sign (n < 0)) (l.digitsOf 10 n.natAbs)

/-- Writes a number in a base, below zero as its distance from the greatest one. -/
def word (l : Layout) (base : Nat) (mark : Raw) (upper : Bool) (n : Int) : Raw :=
  let size := (if n < 0 then n + UInt64.size else n).toNat
  let digits := l.digitsOf base size
  l.digits (if l.flags.contains '#' && size ≠ 0 then mark else [])
    (if upper then digits.map Char.toUpper else digits)

/-- The decimals of a number with a point, if nothing else is said. -/
def usualDecimals : Nat := 6

/-- Writes a number with a point: with a count of decimals, with a power of ten, as it is shorter,
or in base sixteen. -/
def real (l : Layout) (f : BinaryFormat) (kind : Char) (n : PointNumeral) : Raw :=
  let count := l.precision.getD usualDecimals
  let always := l.flags.contains '#'
  let sign := l.sign n.negative
  let filled := { l with precision := none }.digits
  let text := match n.size with
    | .infinite => l.pad (sign ++ "inf".toList)
    | .undefined => l.pad (sign ++ "nan".toList)
    | .fraction num den =>
      match kind.toLower with
      | 'f' => filled sign (fixedText always count num den)
      | 'e' => filled sign (exponentText always count num den)
      | 'g' => filled sign (generalText always count num den)
      | _ => filled (sign ++ ['0', 'x']) (hexText f always l.precision num den)
  if kind.isUpper then text.map Char.toUpper else text

end Layout

/-! ## Kinds -/

/-- A piece of what is printed. -/
inductive Piece where
  | text (s : Raw)
  | fault (f : PrintFault)
  deriving DecidableEq, Repr

/-- Why nothing more is printed. -/
inductive Stop where
  /-- An escape asks for it. -/
  | asked
  | failed
  deriving DecidableEq, Repr

/-- What a directive makes of an argument. -/
structure Converted where
  pieces : List Piece
  stop : Option Stop

namespace Converted

/-- A text, after what is wrong with the argument. -/
def ofText (text : Raw) (fault : Option PrintFault) : Converted :=
  ⟨fault.toList.map .fault ++ [.text text], none⟩

/-- A text with its escapes replaced. -/
def ofEscaped (e : Escaped) : Converted :=
  ⟨.text e.text :: e.fault.toList.map fun f => .fault (.escape f),
    if e.fault.isSome then some .failed else if e.stop then some .asked else none⟩

/-- Nothing more can be printed. -/
def failed (faults : List PrintFault) : Converted :=
  ⟨faults.map .fault, some .failed⟩

/-- Has faults first. -/
def blamed (faults : List PrintFault) (c : Converted) : Converted :=
  { c with pieces := faults.map .fault ++ c.pieces }

end Converted

/-- What a directive makes of an argument, if there is such a directive. -/
def Layout.convert? (l : Layout) (who : Printer) (kind : Char) (arg : Raw) : Option Converted :=
  let signed := who.takeNumber true arg
  let unsigned := who.takeNumber false arg
  match kind with
  | 's' => some (.ofText (l.string arg) none)
  | 'c' => some (.ofText (l.pad [arg.headD '\x00']) none)
  | 'd' | 'i' => some (.ofText (l.integer signed.value) signed.fault)
  | 'u' => some (.ofText (l.word 10 [] false unsigned.value) unsigned.fault)
  | 'o' => some (.ofText (l.word 8 ['0'] false unsigned.value) unsigned.fault)
  | 'x' => some (.ofText (l.word 16 ['0', 'x'] false unsigned.value) unsigned.fault)
  | 'X' => some (.ofText (l.word 16 ['0', 'X'] true unsigned.value) unsigned.fault)
  | 'a' | 'e' | 'f' | 'g' | 'A' | 'E' | 'F' | 'G' =>
    let point := who.takePoint arg
    some (.ofText (l.real who.format kind point.value) point.fault)
  | 'b' =>
    let e := EscapeRules.argument.replace arg
    if who = .shell then some (.ofEscaped { e with text := l.string e.text }) else none
  | _ => none

/-- What a directive of a kind alone makes of an argument, if the kind has to stand alone. -/
def Printer.alone? (who : Printer) (kind : Char) (arg : Option Raw) : Option Converted :=
  if who = .program && kind = 'b' then
    some (.ofEscaped (EscapeRules.programArgument.replace (arg.getD [])))
  else if who = .program && kind = 'q' then some (.ofText ((arg.map scriptName).getD []) none)
  else none

end ScriptCompiler.Shell
