import ScriptCompiler.Shell.Reader

/-!
# Words of shell scripts

Quotes and backslashes take the meaning of characters away; a dollar sign or a backquote starts what
is replaced when the script runs. Which characters mean something depends on what is around them.
-/

namespace ScriptCompiler.Shell

/-- What is around a piece of a word. -/
inductive Around where
  /-- Nothing; blanks and operators end the word. -/
  | nothing
  /-- Nothing, in the name of the end of a text: nothing in it is replaced. -/
  | mark
  /-- Double quotes, which may be in the name of the end of a text. -/
  | quotes (inMark : Bool)
  /-- Braces. -/
  | braces
  /-- Braces between double quotes or in a text inside the script; the flags say which, and whether
  other double quotes are open in them. -/
  | quotedBraces (inText inner : Bool)
  /-- The parentheses of an arithmetic expression, with so many more open in it. -/
  | sum (parentheses : Nat)
  /-- A text inside the script. -/
  | text
  deriving DecidableEq, Repr

namespace Around

/-- Blanks and quotes are characters like others. -/
def isQuoting : Around → Bool
  | .quotes _ | .quotedBraces _ _ | .sum _ | .text => true
  | .nothing | .mark | .braces => false

/-- What is around the word of a form in braces. A pattern is read as if nothing were quoted. -/
def inBraces (a : Around) (isPattern : Bool) : Around :=
  if !a.isQuoting || isPattern then .braces
  else
    match a with
    | .text => .quotedBraces true false
    | .quotedBraces inText _ => .quotedBraces inText false
    | _ => .quotedBraces false false

/-- What a script that ends here is missing. -/
def missing? : Around → Option ReadError
  | .nothing | .mark | .text => none
  | .quotes _ | .quotedBraces false _ => some .unterminatedQuote
  | .braces | .quotedBraces true _ => some .unterminatedBrace
  | .sum _ => some .unterminatedSum

/-- A backslash before the character takes its meaning away; before others it stands for itself. -/
def escapes (a : Around) (c : Char) : Bool :=
  match a with
  | .nothing | .mark | .braces => true
  | .quotes _ | .sum _ => c = '$' || c = '\x60' || c = '\\' || c = '"'
  | .quotedBraces _ _ => c = '$' || c = '\x60' || c = '\\' || c = '"' || c = '\x7d'
  | .text => c = '$' || c = '\x60' || c = '\\'

/-- What is written in a name of the end of a text. -/
def inMark : Around → Bool
  | .mark | .quotes true => true
  | _ => false

end Around

/-! ## Parameters -/

/-- The parameter with a name of one character. -/
def special? (c : Char) : Option Param :=
  if c = '@' then some .each
  else if c = '*' then some .joined
  else if c = '#' then some .count
  else if c = '?' then some .status
  else if c = '$' then some .process
  else if c = '!' then some .beside
  else if c = '-' then some .options
  else if c.isDigit then some (.arg (c.toNat - '0'.toNat))
  else none

/-- The parameter whose name starts a text, and what follows it. -/
def paramOf (cs : Raw) : Option (Param × Raw) :=
  match cs with
  | [] => none
  | c :: rest =>
    if startsName c then some (.named (cs.takeWhile inName), cs.dropWhile inName)
    else if c.isDigit then
      some (.arg (digitsValue (cs.takeWhile Char.isDigit)), cs.dropWhile Char.isDigit)
    else (special? c).map fun p => (p, rest)

/-- What stands after the name of a parameter in braces. -/
inductive Operator where
  | close
  | instead (kind : Instead) (orEmpty : Bool)
  | trim (atEnd longest : Bool)
  | bad
  deriving DecidableEq, Repr

/-- The operator that starts a text, and what follows it. What is no operator is passed. -/
def operatorOf (cs : Raw) : Operator × Raw :=
  let insteadOf (orEmpty : Bool) (c : Char) (after : Raw) : Operator × Raw :=
    match c with
    | '-' => (.instead .use orEmpty, after)
    | '=' => (.instead .assign orEmpty, after)
    | '?' => (.instead .refuse orEmpty, after)
    | '+' => (.instead .replace orEmpty, after)
    | _ => (.bad, after)
  match cs with
  | [] => (.bad, [])
  | '\x7d' :: rest => (.close, rest)
  | '%' :: '%' :: rest => (.trim true true, rest)
  | '%' :: rest => (.trim true false, rest)
  | '#' :: '#' :: rest => (.trim false true, rest)
  | '#' :: rest => (.trim false false, rest)
  | ':' :: c :: rest => insteadOf true c rest
  | c :: rest => insteadOf false c rest

/-- What is written in braces after a dollar sign, as far as a word may follow. -/
inductive Braced where
  | plain (p : Param)
  | length (p : Param)
  | formed (p : Param) (operator : Operator)
  | bad
  deriving DecidableEq, Repr

/-- Reads what is written in braces, up to a word or past the closing brace. What is no parameter is
passed. -/
def bracedOf (cs : Raw) : Braced × Raw :=
  let formed (cs : Raw) : Braced × Raw :=
    match paramOf cs with
    | none => (.bad, if cs.head? = some '\x7d' then cs else cs.tail)
    | some (p, rest) =>
      match operatorOf rest with
      | (.close, after) => (.plain p, after)
      | (.bad, after) => (.bad, after)
      | (operator, after) => (.formed p operator, after)
  match cs with
  | '#' :: inner =>
    match paramOf inner with
    | some (p, '\x7d' :: after) => (.length p, after)
    | some (.named _, after) | some (.arg _, after) => (.bad, after)
    | _ => formed cs
  | _ => formed cs

/-! ## Words -/

/-- The text up to a backquote and what follows it. A backslash before some characters is taken
away. -/
def backquoted (quoted : Bool) : Raw → Option (Raw × Raw)
  | [] => none
  | '\\' :: c :: rest =>
    (backquoted quoted rest).map fun (inside, after) =>
      if c = '\x60' || c = '$' || c = '\\' || (quoted && c = '"') then (c :: inside, after)
      else ('\\' :: c :: inside, after)
  | c :: rest =>
    if c = '\x60' then some ([], rest)
    else (backquoted quoted rest).map fun (inside, after) => (c :: inside, after)

/-- Reads commands of which the script at hand knows no more than the texts inside. -/
def separate {α : Type} (r : Reader α) : Reader α := do
  let i ← get
  set { i with announced := [], bounds := none }
  let a ← r
  modify fun j => { j with announced := i.announced, bounds := i.bounds }
  return a

/-- Reads from another script than the one at hand, from its first line on. -/
def within {α : Type} (script : Raw) (r : Reader α) : Reader α := do
  let i ← get
  set { i with rest := script, line := 1, held := none, opened := [] }
  let a ← separate r
  modify fun j => { i with texts := j.texts }
  return a

/-- Reads what follows a backquote. -/
def backquote (quoted : Bool) : Reader Segment := do
  let cs ← rest
  match backquoted quoted cs with
  | none =>
    drop cs.length
    refuse .unterminatedBackquote
  | some (script, after) =>
    let c ← within script (commands .script)
    drop (cs.length - after.length)
    return .output c quoted

/-- What stands for a piece of a word, and what is around the next piece; none at the end. -/
abbrev Step := Option (Word × Around)

/-- A character that may stand after a dollar sign before the word of a form in braces. -/
def startsParameter (c : Char) : Bool :=
  inName c || "\x7b(#?$!@*-:=+%".toList.contains c

/-- Passes the parenthesis after a list of commands, which is the token at hand. -/
def passClosing : Reader Unit := do
  let t := (← get).held.getD .finish
  if t.isMark ")" then modify fun i => { i with held := none }
  else refuse (.unexpected t.name (some (Raw.ofString "\")\"")))

/-- Reads what follows a dollar sign. Words inside braces and sums are read by the argument. -/
def dollar (inside : Around → Reader Word) (a : Around) :
    Reader Segment := do
  let quoted := a.isQuoting
  join startsParameter
  match ← rest with
  | '(' :: '(' :: _ =>
    drop 2
    return .sum (← inside (.sum 0)) quoted
  | '(' :: _ =>
    drop 1
    let c ← separate do
      let c ← commands .optional
      passClosing
      return c
    return .output c quoted
  | '\x7b' :: cs =>
    let (braced, after) := bracedOf cs
    modify fun i => { i with rest := after }
    match braced with
    | .plain p => return .param p .plain quoted
    | .length p => return .param p .length quoted
    | .formed p (.instead kind orEmpty) =>
      return .param p (.instead kind orEmpty (← inside (a.inBraces false))) quoted
    | .formed p (.trim atEnd longest) =>
      return .param p (.trimmed atEnd longest (← inside (a.inBraces true))) quoted
    | .formed p _ => return .param p .bad quoted
    | .bad =>
      let _ ← inside (a.inBraces false)
      return .param .count .bad quoted
  | c :: _ =>
    if startsName c then
      let name ← takeAll inName
      return .param (.named name) .plain quoted
    else
      match special? c with
      | some p =>
        drop 1
        return .param p .plain quoted
      | none => return .text ['$'] quoted
  | [] => return .text ['$'] quoted

/-- What follows a line at the start of a text. -/
def afterLine? (line cs : Raw) : Option Raw :=
  if line.isPrefixOf cs then
    match cs.drop line.length with
    | [] => some []
    | c :: after => if c = '\n' then some after else none
  else none

/-- Passes tabs at the start of a line of a text inside the script, and the line at which the text
ends. -/
def startLine : Reader Unit := do
  if let some b := (← get).bounds then
    if b.withoutTabs then discard (takeAll (· = '\t'))
    let cs ← rest
    if let some after := afterLine? b.mark cs then
      modify fun i => { i with bounds := some { b with last := some i.line } }
      drop (cs.length - after.length)

/-- The characters that are left, none after a text inside the script. -/
def left : Reader Raw := do
  let i ← get
  return if i.bounds.any (·.last.isSome) then [] else i.rest

/-- Reads a piece of a word that starts with a character and is no end of it. -/
def piece (inside : Around → Reader Word) (a : Around) (c : Char) :
    Reader Word := do
  let quoted := a.isQuoting
  drop 1
  if c = '\\' then
    match ← rest with
    | [] => return [.text ['\\'] true]
    | d :: _ =>
      drop 1
      return if d = '\n' then [] else if a.escapes d then [.text [d] true]
        else [.text ['\\', d] true]
  else if c = '\x27' && !quoted then
    let s ← takeAll (· ≠ '\x27')
    if (← rest).isEmpty then refuse .unterminatedQuote
    drop 1
    return [.text s true]
  else if c = '"' && !quoted then
    match ← inside (.quotes a.inMark) with
    | [.param .each .plain _] => return [.param .each .plain true]
    | w => return .text [] true :: w
  else if c = '$' && !a.inMark then return [← dollar inside a]
  else if c = '\x60' && !a.inMark then return [← backquote quoted]
  else
    if c = '\n' then startLine
    return [.text [c] quoted]

/-- Reads a piece of a word, or passes what ends the word. -/
def step (inside : Around → Reader Word) (a : Around) : Reader Step := do
  match ← left with
  | [] =>
    match a.missing? with
    | none => return none
    | some e => refuse e
  | c :: cs =>
    let go : Reader Step := do return some (← piece inside a c, a)
    let pass (s : Step) : Reader Step := do
      drop 1
      return s
    match a with
    | .nothing | .mark => if endsWord c then return none else go
    | .text => go
    | .quotes _ => if c = '"' then pass none else go
    | .braces => if c = '\x7d' then pass none else go
    | .quotedBraces inText inner =>
      if c = '"' then pass (some ([.text [] true], .quotedBraces inText !inner))
      else if c = '\x7d' && !inner then pass none
      else go
    | .sum depth =>
      if c = '(' then pass (some ([.text [c] true], .sum (depth + 1)))
      else if c = ')' then
        match depth with
        | depth + 1 => pass (some ([.text [c] true], .sum depth))
        | 0 =>
          if (joined (fun _ => false) cs).head? = some ')' then
            drop 1
            join fun _ => false
            pass none
          else pass (some ([.text [c] true], .sum 0))
      else go

/-- Reads the pieces of a word. -/
def word : Nat → Around → Reader Word
  | 0, _ => return []
  | fuel + 1, a => do
    match ← step (word fuel) a with
    | none => return []
    | some (front, a) => return front ++ (← word fuel a)

/-! ## Tokens -/

/-- The operator at the start of a text, and its length. -/
def operator? : Raw → Option (Token × Nat)
  | '\n' :: _ => some (.newline, 1)
  | ';' :: ';' :: _ => some (.operator ";;", 2)
  | ';' :: _ => some (.operator ";", 1)
  | '|' :: '|' :: _ => some (.operator "||", 2)
  | '|' :: _ => some (.operator "|", 1)
  | '&' :: '&' :: _ => some (.operator "&&", 2)
  | '&' :: _ => some (.operator "&", 1)
  | '(' :: _ => some (.operator "(", 1)
  | ')' :: _ => some (.operator ")", 1)
  | _ => none

/-- The operator of a redirection at the start of a text, and its length. Without a number before
it, it is about the input or the output. -/
def redirect? (stream : Option Nat) (cs : Raw) : Option (Token × Nat) :=
  let input := stream.getD 0
  let output := stream.getD 1
  match cs with
  | '>' :: '>' :: _ => some (.redirect output .append, 2)
  | '>' :: '&' :: _ => some (.redirect output .copy, 2)
  | '>' :: '|' :: _ => some (.redirect output .overwrite, 2)
  | '>' :: _ => some (.redirect output .write, 1)
  | '<' :: '<' :: '-' :: _ => some (.here input true, 3)
  | '<' :: '<' :: _ => some (.here input false, 2)
  | '<' :: '&' :: _ => some (.redirect input .copy, 2)
  | '<' :: '>' :: _ => some (.redirect input .readWrite, 2)
  | '<' :: _ => some (.redirect input .read, 1)
  | _ => none

/-- Passes blanks, comments and line ends that are taken away. -/
def skipBlanks : Nat → Reader Unit
  | 0 => return
  | fuel + 1 => do
    match ← rest with
    | '\\' :: '\n' :: _ =>
      drop 2
      skipBlanks fuel
    | '#' :: _ =>
      let _ ← takeAll (· ≠ '\n')
      skipBlanks fuel
    | c :: _ =>
      if isSpace c then
        drop 1
        skipBlanks fuel
    | [] => return

/-- A character of an operator, or of the number before it. -/
def inOperator (c : Char) : Bool :=
  c.isDigit || "&|;<>-".toList.contains c

/-- Takes the token at the front. -/
def nextToken (a : Around) : Reader Token := do
  skipBlanks (← bound)
  join inOperator
  match ← rest with
  | [] => return .finish
  | c :: cs =>
    let numbered := if c.isDigit then redirect? (some (digitsValue [c])) cs else none
    match redirect? none (c :: cs), numbered, operator? (c :: cs) with
    | some (t, size), _, _ | none, none, some (t, size) =>
      drop size
      return t
    | none, some (t, size), _ =>
      drop (1 + size)
      return t
    | none, none, none => return .word (← word (← bound) a)

/-! ## Texts inside scripts -/

/-- The text up to a line, and what follows that line. -/
def textUpTo (b : Bounds) : Nat → Raw → Raw × Raw
  | 0, cs => ([], cs)
  | _, [] => ([], [])
  | fuel + 1, cs =>
    let cs := if b.withoutTabs then cs.dropWhile (· = '\t') else cs
    match afterLine? b.mark cs with
    | some after => ([], after)
    | none =>
      let size := (cs.takeWhile (· ≠ '\n')).length + 1
      let (text, rest) := textUpTo b fuel (cs.drop size)
      (cs.take size ++ text, rest)

/-- Takes a text that starts here out of the script. Without quotes in the name of its end,
parameters in it are replaced. -/
def insideText (a : Announced) : Reader Word := do
  let b : Bounds := ⟨a.withoutTabs, a.mark.unquoted, none⟩
  if a.mark.isQuoted then
    let cs ← rest
    let (text, after) := textUpTo b (cs.length + 1) cs
    drop (cs.length - after.length)
    return [.text text true]
  else
    separate do
      modify fun i => { i with bounds := some b }
      join fun _ => false
      startLine
      word (← bound) .text

/-- Takes the texts that were announced on the line before. -/
def takeTexts : Reader Unit := do
  let announced := (← get).announced
  modify fun i => { i with announced := [] }
  for a in announced do
    let text ← insideText a
    modify fun i => { i with texts := i.texts.setIfInBounds a.number text }

/-- Announces a text that starts after the line at hand, and gives it a number. -/
def announce (withoutTabs : Bool) (mark : Word) : Reader Nat := do
  let i ← get
  let number := i.texts.size
  set { i with
    texts := i.texts.push []
    announced := i.announced ++ [(⟨number, withoutTabs, mark⟩ : Announced)] }
  return number

end ScriptCompiler.Shell
