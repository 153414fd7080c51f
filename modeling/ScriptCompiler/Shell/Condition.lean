import ScriptCompiler.Shell.Numeral
import ScriptCompiler.Shell.Program

/-!
# Conditions

What `test` asks about texts, numbers and files. A question is answered by a status: zero for yes,
one for no; what is no question is complained about.
-/

namespace ScriptCompiler.Shell

/-- Why there is no answer. -/
inductive ConditionError where
  | unexpectedOperator (s : Raw)
  | argumentExpected (s : Raw)
  | illegalNumber (s : Raw)
  | closingExpected
  | unclosed
  deriving DecidableEq, Repr

/-- The words for an error. -/
def ConditionError.message : ConditionError → Raw
  | .unexpectedOperator s =>
    (if s.isEmpty then [] else s ++ [':', ' ']) ++ "unexpected operator".toList
  | .argumentExpected s => s ++ ": argument expected".toList
  | .illegalNumber s => "Illegal number: ".toList ++ s
  | .closingExpected => "closing paren expected".toList
  | .unclosed => "missing ]".toList

/-- An answer, or why there is none. -/
abbrev Answer := Except ConditionError Bool

/-- The number that a text is, between blanks. -/
def conditionNumber (s : Raw) : Except ConditionError Int :=
  match wholeNumber? signedBounds s with
  | some n => .ok n
  | none => .error (.illegalNumber s)

/-- What is asked about two texts. -/
def binary? (fs : FileSystem) (operator : Raw) : Option (Raw → Raw → Answer) :=
  let compare (f : Int → Int → Bool) : Raw → Raw → Answer :=
    fun a b => do return f (← conditionNumber a) (← conditionNumber b)
  match String.ofList operator with
  | "=" => some fun a b => .ok (a = b)
  | "!=" => some fun a b => .ok (a ≠ b)
  | "<" => some fun a b => .ok (decide (a < b))
  | ">" => some fun a b => .ok (decide (b < a))
  | "-eq" => some (compare (· = ·))
  | "-ne" => some (compare (· ≠ ·))
  | "-lt" => some (compare (· < ·))
  | "-le" => some (compare (· ≤ ·))
  | "-gt" => some (compare (· > ·))
  | "-ge" => some (compare (· ≥ ·))
  | "-nt" | "-ot" => some fun _ _ => .ok false
  | "-ef" => some fun a b =>
    match fs.resolve ⟨Raw.toString a⟩, fs.resolve ⟨Raw.toString b⟩ with
    | .ok a, .ok b => .ok (a = b)
    | _, _ => .ok false
  | _ => none

/-- What is asked about one text. -/
def unary? (fs : FileSystem) (operator : Raw) : Option (Raw → Answer) :=
  let path (s : Raw) : Path := ⟨Raw.toString s⟩
  let isThere (s : Raw) : Bool := (fs.resolve (path s)).toOption.isSome
  let isPlain (s : Raw) : Bool := fs.isFile (path s) || (programFile? s).isSome
  let isDevice (s : Raw) : Bool := s = nullFile
  let about (f : Raw → Bool) : Option (Raw → Answer) := some fun s => .ok (f s)
  match String.ofList operator with
  | "-n" => about (· ≠ [])
  | "-z" => about (· = [])
  | "-e" | "-r" | "-w" | "-O" | "-G" => about fun s => isThere s || isPlain s || isDevice s
  | "-f" => about isPlain
  | "-d" => about fun s => isThere s && !isPlain s
  | "-x" => about fun s => (isThere s && !isPlain s) || (programFile? s).isSome
  | "-s" => about fun s =>
    (isThere s && (fs.read (path s)).toOption.all (!·.isEmpty)) || (programFile? s).isSome
  | "-c" => about isDevice
  | "-b" | "-p" | "-u" | "-g" | "-k" | "-h" | "-L" | "-S" => about fun _ => false
  | "-t" => some fun s => do
    let _ ← conditionNumber s
    return false
  | _ => none

/-! ## Questions put together -/

/-- What an argument of a question is. -/
inductive Mark where
  | operand
  | unary (operator : Raw)
  | binary (operator : Raw)
  | not
  | and
  | or
  | opening
  | closing
  | finish
  deriving DecidableEq, Repr

/-- What an argument is if nothing else says what it is. -/
def markOf (fs : FileSystem) (s : Raw) : Mark :=
  match String.ofList s with
  | "!" => .not
  | "-a" => .and
  | "-o" => .or
  | "(" => .opening
  | ")" => .closing
  | _ =>
    if (unary? fs s).isSome then .unary s
    else if (binary? fs s).isSome then .binary s
    else .operand

/-- What the argument at the front is. An operator for one text is a text where no other one follows
or where it is compared with another one; so is a parenthesis at the end. -/
def markAt (fs : FileSystem) : List Raw → Mark
  | [] => .finish
  | s :: rest =>
    match markOf fs s, rest with
    | .unary _, [] => .operand
    | .unary op, [_] => .unary op
    | .unary op, next :: _ =>
      match markOf fs next with
      | .binary _ => .operand
      | _ => .unary op
    | .opening, [] => .operand
    | mark, _ => mark

/-- An answer and the arguments from the last one on that belongs to its question. -/
abbrev Answered := Except ConditionError (Bool × List Raw)

mutual

/-- The answer to questions of which one has to hold. -/
def answerEither (fs : FileSystem) : Nat → Mark → List Raw → Answered
  | 0, _, args => .ok (false, args)
  | fuel + 1, mark, args => do
    let (yes, args) ← answerBoth fs fuel mark args
    if markAt fs args.tail = .or then
      let (others, args) ← answerEither fs fuel (markAt fs (args.drop 2)) (args.drop 2)
      return (yes || others, args)
    else return (yes, args)

/-- The answer to questions that have to hold together. -/
def answerBoth (fs : FileSystem) : Nat → Mark → List Raw → Answered
  | 0, _, args => .ok (false, args)
  | fuel + 1, mark, args => do
    let (yes, args) ← answerNot fs fuel mark args
    if markAt fs args.tail = .and then
      let (others, args) ← answerBoth fs fuel (markAt fs (args.drop 2)) (args.drop 2)
      return (yes && others, args)
    else return (yes, args)

/-- The answer to a question, or its opposite. -/
def answerNot (fs : FileSystem) : Nat → Mark → List Raw → Answered
  | 0, _, args => .ok (false, args)
  | fuel + 1, mark, args => do
    if mark = .not then
      let next := markAt fs args.tail
      let (yes, args) ← answerNot fs fuel next (if next = .finish then args else args.tail)
      return (!yes, args)
    else answerOne fs fuel mark args

/-- The answer to a question that is not put together from others, or is one in parentheses. -/
def answerOne (fs : FileSystem) : Nat → Mark → List Raw → Answered
  | 0, _, args => .ok (false, args)
  | fuel + 1, mark, args => do
    match mark with
    | .finish => return (false, args)
    | .opening =>
      let args := args.tail
      let next := markAt fs args
      if next = .closing then return (false, args)
      let (yes, args) ← answerEither fs fuel next args
      if markAt fs args.tail = .closing then return (yes, args.tail)
      else throw .closingExpected
    | .unary op =>
      match args.tail, unary? fs op with
      | s :: rest, some ask => return (← ask s, s :: rest)
      | _, _ => throw (.argumentExpected op)
    | _ =>
      match markAt fs args.tail with
      | .binary op =>
        match args, binary? fs op with
        | a :: _ :: b :: rest, some ask => return (← ask a b, b :: rest)
        | _, _ => throw (.argumentExpected op)
      | _ => return (args.head?.any (· ≠ []), args)

end

/-- The answer to a question of which the first mark is known. -/
def answerFrom (fs : FileSystem) (mark : Mark) (args : List Raw) : Answer := do
  let (yes, left) ← answerEither fs (4 * args.length + 4) mark args
  match left with
  | s :: _ :: _ => throw (.unexpectedOperator s)
  | _ => return yes

/-- The answer to a question, or its opposite. Of three arguments the second one may be an operator
between the others whatever these are; of three or four, parentheses may be around the others or an
exclamation mark before them. Such a mark asks for the opposite even after another one. -/
def answerUnless (fs : FileSystem) (opposite : Bool) : List Raw → Answer
  | [] => .ok opposite
  | args@(first :: rest) =>
    let answered := fun (mark : Mark) (args : List Raw) =>
      (answerFrom fs mark args).map (· != opposite)
    let compared : Bool := match args with
      | [_, op, _] => (binary? fs op).isSome
      | _ => false
    if compared then answered .operand args
    else if args.length = 3 || args.length = 4 then
      if first = ['('] && args.getLast? = some [')'] then
        let inside := rest.dropLast
        answered (markAt fs inside) inside
      else if first = ['!'] then answerUnless fs true rest
      else answered (markAt fs args) args
    else answered (markAt fs args) args

/-- The answer to a question. -/
def answer (fs : FileSystem) (args : List Raw) : Answer :=
  answerUnless fs false args

/-- The answer to a question between brackets: what closes it only has to start with a bracket. -/
def bracketed (fs : FileSystem) (args : List Raw) : Answer :=
  if (args.getLast?.bind List.head?) = some ']' then answer fs args.dropLast else .error .unclosed

end ScriptCompiler.Shell
