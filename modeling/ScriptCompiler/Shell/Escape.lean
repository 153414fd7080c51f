import ScriptCompiler.Shell.Numeral

/-!
# Escapes and quotes

What a backslash and the characters after it stand for in the arguments of `echo` and `printf`, and
how a text is written between quotes, in a script or in a message.
-/

namespace ScriptCompiler.Shell

/-! ## Digits -/

/-- The digits of a base at the start of a text, so many at most, as a number, how many there are,
and what follows them. -/
def readSomeDigits (base : Nat) : Nat → Raw → Nat × Nat × Raw
  | count, cs =>
    let digits := (cs.take count).takeWhile fun c => (digitOf? base c).isSome
    ((readDigits base digits).1, digits.length, cs.drop digits.length)

/-- The byte with a number, which is cut to its last eight bits. -/
def byteOf (n : Nat) : Char :=
  Char.ofNat (n % 256)

/-! ## Escapes -/

/-- Which escapes there are. -/
structure EscapeRules where
  /-- A zero may stand before three octal digits. -/
  zeroFirst : Bool := false
  /-- The letter `c` stops all. -/
  stops : Bool := false
  /-- The letter `x` stands before two hexadecimal digits. -/
  hex : Bool := false
  /-- These digits may not be missing; the letters `u` and `U` stand before the number of a
  character, and a quote may be escaped. -/
  full : Bool := false
  deriving DecidableEq, Repr

namespace EscapeRules

/-- The escapes in a format of the shell. -/
def format : EscapeRules :=
  {}

/-- The escapes in an argument of the shell. -/
def argument : EscapeRules :=
  { zeroFirst := true, stops := true }

/-- The escapes in an argument of the program `echo`. -/
def echoProgram : EscapeRules :=
  { argument with hex := true }

/-- The escapes in a format of the program `printf`. -/
def programFormat : EscapeRules :=
  { stops := true, hex := true, full := true }

/-- The escapes in an argument of the program `printf`. -/
def programArgument : EscapeRules :=
  { programFormat with zeroFirst := true }

end EscapeRules

/-- What is wrong with an escape. -/
inductive EscapeFault where
  | missingHex
  /-- No character has the number that follows a letter. -/
  | badNumber (letter : Char) (number : Nat)
  deriving DecidableEq, Repr

/-- What stands for a text with escapes. -/
structure Escaped where
  text : Raw
  /-- What follows. -/
  rest : Raw
  /-- Nothing more is to be written. -/
  stop : Bool
  fault : Option EscapeFault

/-- The character that a letter after a backslash stands for. -/
def letterByte? (c : Char) : Option Char :=
  match c with
  | 'a' => some '\x07'
  | 'b' => some '\x08'
  | 'e' => some '\x1b'
  | 'f' => some '\x0c'
  | 'n' => some '\n'
  | 'r' => some '\r'
  | 't' => some '\t'
  | 'v' => some '\x0b'
  | '\\' => some '\\'
  | _ => none

/-- The letters before the number of a character, and how many digits it has. -/
def numberLetters : List (Char × Nat) := [('u', 4), ('U', 8)]

/-- Hexadecimal digits of a number, so many at least. -/
def hexNumeral (count n : Nat) : Raw :=
  withZeros count (Nat.toDigits 16 n)

/-- What stands for the character with a number, if there is such a character. Those that need more
than one byte are spelled. -/
def characterText? (n : Nat) : Option Raw :=
  if 0xd800 ≤ n && n ≤ 0xdfff then none
  else if n < 0x80 then some [Char.ofNat n]
  else if n < 0x10000 then some ('\\' :: 'u' :: (hexNumeral 4 n).map Char.toUpper)
  else some ('\\' :: 'U' :: (hexNumeral 8 n).map Char.toUpper)

/-- What stands for a backslash and the text after it. A backslash that means nothing stands for
itself. -/
def EscapeRules.read (r : EscapeRules) (cs : Raw) : Escaped :=
  let found (text rest : Raw) : Escaped := ⟨text, rest, false, none⟩
  let wrong (fault : EscapeFault) : Escaped := ⟨[], [], true, some fault⟩
  match cs with
  | [] => found ['\\'] []
  | c :: rest =>
    let octal := readSomeDigits 8 3 (if r.zeroFirst && c = '0' then rest else cs)
    let hex := readSomeDigits 16 2 rest
    if '0' ≤ c && c ≤ '7' then found [byteOf octal.1] octal.2.2
    else if r.stops && c = 'c' then ⟨[], [], true, none⟩
    else if r.hex && c = 'x' && 0 < hex.2.1 then found [byteOf hex.1] hex.2.2
    else if r.full && c = 'x' then wrong .missingHex
    else if r.full && c = '"' then found [c] rest
    else
      match letterByte? c, if r.full then numberLetters.lookup c else none with
      | some b, _ => found [b] rest
      | none, some count =>
        let (n, size, after) := readSomeDigits 16 count rest
        if size < count then wrong .missingHex
        else
          match characterText? n with
          | some text => found text after
          | none => wrong (.badNumber c n)
      | none, none => if r.full then found ['\\', c] rest else found ['\\'] cs

/-- A text with its escapes replaced. -/
def EscapeRules.expand (r : EscapeRules) : Nat → Raw → Escaped
  | 0, _ => ⟨[], [], false, none⟩
  | _, [] => ⟨[], [], false, none⟩
  | fuel + 1, c :: cs =>
    let e : Escaped := if c = '\\' then r.read cs else ⟨[c], cs, false, none⟩
    if e.stop then e
    else
      let more := r.expand fuel e.rest
      { more with text := e.text ++ more.text }

/-- A text with its escapes replaced. -/
def EscapeRules.replace (r : EscapeRules) (cs : Raw) : Escaped :=
  r.expand (cs.length + 1) cs

/-- A text without backslashes holds no escapes. -/
theorem EscapeRules.text_expand_of_bare (r : EscapeRules) {cs : Raw} (h : '\\' ∉ cs) {fuel : Nat}
    (hf : cs.length < fuel) : (r.expand fuel cs).text = cs := by
  induction cs generalizing fuel with
  | nil => cases fuel <;> simp [EscapeRules.expand]
  | cons c cs ih =>
    obtain ⟨fuel, rfl⟩ : ∃ n, fuel = n + 1 := ⟨fuel - 1, by simp at hf; omega⟩
    obtain ⟨hc, hcs⟩ := not_or.1 (mt List.mem_cons.2 h)
    simp [EscapeRules.expand, Ne.symm hc, ih hcs (Nat.lt_of_succ_lt_succ hf)]

/-- A text without backslashes is written as it is. -/
theorem EscapeRules.text_replace_of_bare (r : EscapeRules) {cs : Raw} (h : '\\' ∉ cs) :
    (r.replace cs).text = cs :=
  r.text_expand_of_bare h (Nat.lt_succ_self _)

/-! ## Quotes -/

/-- A text between quotes, as a script would hold it, so many quotes in it at most. -/
def quotedFrom : Nat → Raw → Raw
  | 0, _ => []
  | fuel + 1, s =>
    let front := s.takeWhile (· ≠ '\x27')
    let rest := s.drop front.length
    let quotes := rest.takeWhile (· = '\x27')
    let after := rest.drop quotes.length
    let others := if quotes.isEmpty then [] else
      '"' :: quotes ++ '"' :: (if after.isEmpty then [] else quotedFrom fuel after)
    '\x27' :: front ++ '\x27' :: others

/-- A text between quotes, as a script would hold it. -/
def quotedText (s : Raw) : Raw :=
  quotedFrom (s.length + 1) s

/-! ## Names in messages -/

/-- A character that is printed as it is. -/
def isPrinted (c : Char) : Bool :=
  ' ' ≤ c && c ≤ '~'

/-- What stands after a backslash for a character that is not printed: a letter, or three octal
digits. -/
def spelledByte? (c : Char) : Option Raw :=
  match c with
  | '\x07' => some ['a']
  | '\x08' => some ['b']
  | '\x0c' => some ['f']
  | '\n' => some ['n']
  | '\r' => some ['r']
  | '\t' => some ['t']
  | '\x0b' => some ['v']
  | _ =>
    if isPrinted c then none
    else some ([c.toNat / 64, c.toNat / 8 % 8, c.toNat % 8].map Nat.digitChar)

/-- The characters that mean something in a script wherever they stand. -/
def specialCharacters : List Char :=
  " !\"$&()*;<=>[^`|'\\?".toList

/-- Nothing in a name has to be quoted in a script. -/
def isBare (name : Raw) : Bool :=
  !name.isEmpty && name.all (fun c => isPrinted c && !specialCharacters.contains c)
    && name.head? ≠ some '#' && name.head? ≠ some '~' && name ≠ ['\x7b'] && name ≠ ['\x7d']

/-- A name with single quotes is shown between double ones: nothing else in it has to be quoted. -/
def fitsDoubleQuotes (name : Raw) : Bool :=
  let plain (c : Char) : Bool :=
    isPrinted c && (" '".toList.contains c || !specialCharacters.contains c)
  name.contains '\x27' && name.all plain && !name.contains '\x7b' && !name.contains '\x7d'
    && !name.tail.contains '#' && !name.tail.contains '~'

/-- What follows the first quote of a name between single quotes. The flag says whether what is
before is spelled; a name with single quotes starts the way in which it ends. -/
def singleQuoted : Bool → Raw → Raw
  | _, [] => ['\x27']
  | spelled, c :: cs =>
    if c = '\x27' then "'\\''".toList ++ singleQuoted false cs
    else
      match spelledByte? c with
      | some text => (if spelled then [] else "'$'".toList) ++ '\\' :: text ++ singleQuoted true cs
      | none => (if spelled then "''".toList else []) ++ c :: singleQuoted false cs

/-- A name between quotes. -/
def quotedName (name : Raw) : Raw :=
  if fitsDoubleQuotes name then '"' :: name ++ ['"']
  else
    let ends := (name.getLast?.bind spelledByte?).isSome
    '\x27' :: singleQuoted (name.contains '\x27' && ends) name

/-- A name as a script would hold it: quoted if it has to be. -/
def scriptName (name : Raw) : Raw :=
  if isBare name then name else quotedName name

/-- A name as programs show it in messages: as a script would hold it, and quoted if it has the
colon that ends a name in a message. -/
def shownName (name : Raw) : Raw :=
  if name.contains ':' then quotedName name else scriptName name

/-- A text as programs show it between quotes in messages. -/
def shownText (text : Raw) : Raw :=
  let spell (c : Char) : Raw :=
    match spelledByte? c with
    | some s => '\\' :: s
    | none => if c = '\x27' || c = '\\' then ['\\', c] else [c]
  '\x27' :: text.flatMap spell ++ ['\x27']

end ScriptCompiler.Shell
