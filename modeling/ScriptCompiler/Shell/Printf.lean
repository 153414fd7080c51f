import ScriptCompiler.Shell.Directive

/-!
# Printing by a format

A format holds text and directives. Each directive takes an argument; as long as there are arguments
left, the format is followed again.
-/

namespace ScriptCompiler.Shell

/-! ## Directives in a format -/

/-- A number in a directive: digits, or a star for an argument. -/
structure Count where
  value : Option Int
  /-- What is wrong with the argument. -/
  faults : List PrintFault
  /-- Why the number cannot be used. -/
  refused : List PrintFault
  cs : Raw
  args : List Raw

/-- No width and no precision is greater. -/
def greatestCount : Int := Int32.maxValue.toInt

/-- A width or a precision is too great. -/
def Layout.isTooWide (l : Layout) : Bool :=
  greatestCount < l.width || l.precision.any fun n => greatestCount < n

/-- What a directive makes of an argument within bounds. The program goes on without a text that is
too wide. -/
def Layout.fit? (l : Layout) (who : Printer) (kind : Char) (arg : Raw) : Option Converted :=
  if l.isTooWide then
    (Layout.convert? ⟨[], 0, none⟩ who kind arg).map fun c =>
      ⟨(c.pieces.filter fun p => p matches .fault _) ++ [.fault .tooWide],
        if who = .shell then some .failed else c.stop⟩
  else l.convert? who kind arg

/-- The number at the start of a text. Numbers that are arguments have 32 bits in the shell; to the
program they may be unfit. -/
def readCount (who : Printer) (cs : Raw) (args : List Raw) (unfit : Int → Bool)
    (fault : Raw → PrintFault) : Count :=
  match cs with
  | '*' :: cs =>
    let n := who.takeNumber true (args.headD [])
    match who with
    | .shell => ⟨some (n.value.bmod UInt32.size), n.fault.toList, [], cs, args.tail⟩
    | .program =>
      ⟨some n.value, n.fault.toList, if unfit n.value then [fault (args.headD [])] else [], cs,
        args.tail⟩
  | _ =>
    let (n, rest) := readDigits 10 cs
    ⟨some n, [], [], rest, args⟩

/-- The width of a directive. -/
def readWidth (who : Printer) (cs : Raw) (args : List Raw) : Count :=
  readCount who cs args (fun n => n < Int32.minValue.toInt || greatestCount < n) .badWidth

/-- The precision of a directive, if there is one. -/
def readPrecision (who : Printer) (cs : Raw) (args : List Raw) : Count :=
  match cs with
  | '.' :: cs => readCount who cs args (greatestCount < ·) .badPrecision
  | _ => ⟨none, [], [], cs, args⟩

/-- The flags of directives. -/
def Printer.flags : Printer → List Char
  | .shell => "#-+ 0".toList
  | .program => "#-+ 0'I".toList

/-- The program has no directives of a kind with some flags, or with a precision. -/
def Printer.allows (who : Printer) (flags : List Char) (precise : Bool) (kind : Char) : Bool :=
  let excluded (flag : Char) (kinds : String) : Bool :=
    flags.contains flag && kinds.toList.contains kind
  who = .shell ||
    !(excluded '\x27' "aAceEosxX" || excluded 'I' "aAceEosxX" || excluded '#' "cdisu"
      || excluded '0' "cs" || (precise && kind = 'c'))

/-- The letters for the size of a number, which the program passes over. -/
def Printer.sizeLetters : Printer → List Char
  | .shell => []
  | .program => "lLhjtz".toList

/-- What is printed for a directive, and what is left of the format and of the arguments. -/
structure Followed where
  converted : Converted
  rest : Raw
  args : List Raw

/-- Follows the directive after a percent sign. -/
def followDirective (who : Printer) (cs : Raw) (args : List Raw) : Followed :=
  let flags := cs.takeWhile who.flags.contains
  let width := readWidth who (cs.drop flags.length) args
  let precision := readPrecision who width.cs width.args
  let w := width.value.getD 0
  let layout : Layout :=
    ⟨if w < 0 then '-' :: flags else flags, w.natAbs,
      (precision.value.filter (0 ≤ ·)).map Int.toNat⟩
  let arg := precision.args.headD []
  let ends (faults : List PrintFault) : Followed := ⟨.failed faults, [], []⟩
  let faults := width.faults ++ width.refused ++ precision.faults ++ precision.refused
  if !width.refused.isEmpty then ends (width.faults ++ width.refused)
  else if !precision.refused.isEmpty then ends faults
  else
    match precision.cs.dropWhile who.sizeLetters.contains with
    | [] => ends (faults ++ [.missingCharacter ('%' :: cs)])
    | kind :: rest =>
      let isAllowed := who.allows flags (precision.cs.length < width.cs.length) kind
      match if isAllowed then layout.fit? who kind arg else none with
      | some c => ⟨c.blamed faults, rest, precision.args.tail⟩
      | none =>
        ends (faults ++ [.invalidDirective ('%' :: cs.take (cs.length - rest.length))])

/-! ## Formats -/

/-- What is printed, and the arguments that are left. -/
structure Printed where
  pieces : List Piece
  args : List Raw
  stop : Option Stop

namespace Printed

/-- Nothing is printed. -/
def start (args : List Raw) : Printed :=
  ⟨[], args, none⟩

/-- Printing fails at once. -/
def failed (fault : PrintFault) : Printed :=
  ⟨[.fault fault], [], some .failed⟩

/-- What is printed at first, and then something else unless printing stops. -/
def after (c : Converted) (p : Printed) : Printed :=
  match c.stop with
  | some stop => ⟨c.pieces, [], some stop⟩
  | none => { p with pieces := c.pieces ++ p.pieces }

/-- The text that is printed. -/
def output (p : Printed) : Raw :=
  p.pieces.flatMap fun
    | .text s => s
    | .fault _ => []

/-- What is wrong. -/
def faults (p : Printed) : List PrintFault :=
  p.pieces.filterMap fun
    | .text _ => none
    | .fault f => some f

/-- The status at the end. Faults before an escape that stops the program do not count, unless not
all was written. -/
def status (who : Printer) (p : Printed) : Nat :=
  let counts (f : PrintFault) : Bool :=
    if who = .program && p.stop = some .asked then f = .tooWide else !f.isWarning
  if who = .shell && p.stop = some .failed then 2 else if p.faults.any counts then 1 else 0

/-- What is printed, and at the end that not all was written. -/
def settled (p : Printed) : Printed :=
  let (lost, others) := p.pieces.partition (· = .fault .tooWide)
  { p with pieces := others ++ lost.take 1 }

end Printed

/-- The escapes in a format. -/
def Printer.escapes : Printer → EscapeRules
  | .shell => .format
  | .program => .programFormat

/-- What is said of arguments that a format does not take. -/
def Printer.leftOver (who : Printer) (args : List Raw) : List PrintFault :=
  match who, args with
  | .program, arg :: _ => [.ignoredArguments arg]
  | _, _ => []

/-- Follows a format once. -/
def printOnce (who : Printer) : Nat → Raw → List Raw → Printed
  | 0, _, args => .start args
  | _, [], args => .start args
  | fuel + 1, '\\' :: cs, args =>
    let e := who.escapes.read cs
    (printOnce who fuel e.rest args).after (.ofEscaped e)
  | fuel + 1, '%' :: '%' :: cs, args => (printOnce who fuel cs args).after (.ofText ['%'] none)
  | fuel + 1, '%' :: cs, args =>
    match cs.head?.bind fun kind => who.alone? kind args.head? with
    | some c => (printOnce who fuel cs.tail args.tail).after c
    | none =>
      let d := followDirective who cs args
      (printOnce who fuel d.rest d.args).after d.converted
  | fuel + 1, c :: cs, args => (printOnce who fuel cs args).after (.ofText [c] none)

/-- Follows a format as long as it takes arguments and there are any. -/
def printAll (who : Printer) (format : Raw) : Nat → List Raw → Printed
  | 0, args => .start args
  | fuel + 1, args =>
    let p := printOnce who (format.length + 1) format args
    if p.stop.isSome || p.args.isEmpty then p
    else if p.args.length = args.length then
      (Printed.start args).after ⟨p.pieces ++ (who.leftOver args).map .fault, none⟩
    else (printAll who format fuel p.args).after ⟨p.pieces, none⟩

/-- Writes arguments as a format says. -/
def printf (who : Printer) (args : List Raw) : Printed :=
  match if args.head? = some ['-', '-'] then args.tail else args with
  | [] => .failed .missingFormat
  | format :: args => (printAll who format (args.length + 1) args).settled

end ScriptCompiler.Shell
