import ScriptCompiler.Shell.Variables

/-!
# Arithmetic

Expressions over whole numbers of 64 bits, in which variables stand for the numbers that their
values are and may get other ones. Evaluation goes from left to right and meets a fault of the text
where it stands; a part whose value is not asked for has no effects, but its faults count.
-/

namespace ScriptCompiler.Shell

/-- An operator between two numbers. -/
inductive BinaryOp where
  | times | over | rest | plus | minus | shiftLeft | shiftRight
  | less | lessEq | greater | greaterEq | equal | unequal
  | and | xor | or
  deriving DecidableEq, Repr

/-- An operator before a number. -/
inductive UnaryOp where
  | negate | isZero | complement
  deriving DecidableEq, Repr

/-- What is wrong with an expression. -/
inductive ArithmeticError where
  | operandExpected
  | endExpected
  | closingExpected
  | colonExpected
  | divisionByZero
  deriving DecidableEq, Repr

/-- The words for an error in a text. -/
def ArithmeticError.message (e : ArithmeticError) (text : Raw) : Raw :=
  let words := match e with
    | .operandExpected => "expecting primary"
    | .endExpected => "expecting EOF"
    | .closingExpected => "expecting ')'"
    | .colonExpected => "expecting ':'"
    | .divisionByZero => "division by zero"
  "arithmetic expression: ".toList ++ words.toList ++ ": \"".toList ++ text ++ ['"']

/-- An expression. -/
inductive Arithmetic where
  | number (n : Int64)
  | name (s : Raw)
  | unary (op : UnaryOp) (a : Arithmetic)
  | binary (op : BinaryOp) (a b : Arithmetic)
  /-- The second part counts if the first one is not zero. -/
  | both (a b : Arithmetic)
  /-- The second part counts if the first one is zero. -/
  | either (a b : Arithmetic)
  | choice (test yes no : Arithmetic)
  /-- A variable gets a value, which may be put together with the one that it has. -/
  | assign (name : Raw) (op : Option BinaryOp) (value : Arithmetic)
  /-- There is a fault after a part. -/
  | wrong (before : Arithmetic) (e : ArithmeticError)
  /-- There is a fault. -/
  | fault (e : ArithmeticError)
  deriving DecidableEq, Repr

/-! ## Tokens -/

/-- A piece of the text of an expression. -/
inductive ArithmeticToken where
  | number (n : Int64)
  | name (s : Raw)
  | mark (text : String)
  /-- No expression holds it. -/
  | other
  deriving DecidableEq, Repr

/-- The marks of expressions; of two that start a text, the first one counts. -/
def arithmeticMarks : List String :=
  ["<<=", ">>=", "*=", "/=", "%=", "+=", "-=", "&=", "^=", "|=", "<<", ">>", "<=", ">=", "==", "!=",
    "&&", "||", "=", "<", ">", "*", "/", "%", "+", "-", "&", "^", "|", "~", "!", "?", ":", "(", ")"]

/-- The tokens of a text, so many at most. -/
def arithmeticTokens : Nat → Raw → List ArithmeticToken
  | 0, _ => []
  | _, [] => []
  | fuel + 1, c :: cs =>
    if c = ' ' || c = '\t' || c = '\n' then arithmeticTokens fuel cs
    else if c.isDigit then
      let n := readNumber none (c :: cs)
      .number (Int64.ofInt (clamp signedBounds n.value)) :: arithmeticTokens fuel n.rest
    else if startsName c then
      .name ((c :: cs).takeWhile inName) :: arithmeticTokens fuel ((c :: cs).dropWhile inName)
    else
      match arithmeticMarks.find? fun text => text.toList.isPrefixOf (c :: cs) with
      | some text => .mark text :: arithmeticTokens fuel ((c :: cs).drop text.length)
      | none => [.other]

/-! ## Reading -/

/-- The operator of a mark, and its rank; an operator of a lower rank binds its numbers first. -/
def binaryOp? (mark : String) : Option (BinaryOp × Nat) :=
  match mark with
  | "*" => some (.times, 0)
  | "/" => some (.over, 0)
  | "%" => some (.rest, 0)
  | "+" => some (.plus, 1)
  | "-" => some (.minus, 1)
  | "<<" => some (.shiftLeft, 2)
  | ">>" => some (.shiftRight, 2)
  | "<" => some (.less, 3)
  | "<=" => some (.lessEq, 3)
  | ">" => some (.greater, 3)
  | ">=" => some (.greaterEq, 3)
  | "==" => some (.equal, 4)
  | "!=" => some (.unequal, 4)
  | "&" => some (.and, 5)
  | "^" => some (.xor, 6)
  | "|" => some (.or, 7)
  | _ => none

/-- The mark of an assignment, and the operator in it. -/
def assignOp? (mark : String) : Option (Option BinaryOp) :=
  match mark with
  | "=" => some none
  | "*=" => some (some .times)
  | "/=" => some (some .over)
  | "%=" => some (some .rest)
  | "+=" => some (some .plus)
  | "-=" => some (some .minus)
  | "<<=" => some (some .shiftLeft)
  | ">>=" => some (some .shiftRight)
  | "&=" => some (some .and)
  | "^=" => some (some .xor)
  | "|=" => some (some .or)
  | _ => none

/-- An expression at the start of tokens, and the tokens after it. -/
abbrev ReadArithmetic := Arithmetic × List ArithmeticToken

mutual

/-- Reads a number, a variable or what stands for one. -/
def readOperand : Nat → List ArithmeticToken → ReadArithmetic
  | 0, ts => (.fault .operandExpected, ts)
  | fuel + 1, ts =>
    let signed (op : UnaryOp) (ts : List ArithmeticToken) : ReadArithmetic :=
      let (a, ts) := readOperand fuel ts
      (.unary op a, ts)
    match ts with
    | .number n :: ts => (.number n, ts)
    | .name s :: ts => (.name s, ts)
    | .mark "+" :: ts => readOperand fuel ts
    | .mark "-" :: ts => signed .negate ts
    | .mark "!" :: ts => signed .isZero ts
    | .mark "~" :: ts => signed .complement ts
    | .mark "(" :: ts =>
      let (a, ts) := readAssignment fuel ts
      if ts.head? = some (.mark ")") then (a, ts.tail) else (.wrong a .closingExpected, ts)
    | _ => (.fault .operandExpected, ts)

/-- Reads the operators below a rank, and what they put together with what stands before them. -/
def readOperators : Nat → Nat → Arithmetic → List ArithmeticToken → ReadArithmetic
  | 0, _, a, ts => (a, ts)
  | fuel + 1, limit, a, ts =>
    match ts with
    | .mark text :: rest =>
      match (binaryOp? text).filter (·.2 < limit) with
      | some (op, rank) =>
        let (b, rest) := readOperand fuel rest
        let (b, rest) := readOperators fuel rank b rest
        readOperators fuel limit (.binary op a b) rest
      | none => (a, ts)
    | _ => (a, ts)

/-- Reads parts that have to hold together. -/
def readBoth : Nat → List ArithmeticToken → ReadArithmetic
  | 0, ts => (.fault .operandExpected, ts)
  | fuel + 1, ts =>
    let (a, ts) := readOperand fuel ts
    let (a, ts) := readOperators fuel 8 a ts
    if ts.head? = some (.mark "&&") then
      let (b, ts) := readBoth fuel ts.tail
      (.both a b, ts)
    else (a, ts)

/-- Reads parts of which one has to hold. -/
def readEither : Nat → List ArithmeticToken → ReadArithmetic
  | 0, ts => (.fault .operandExpected, ts)
  | fuel + 1, ts =>
    let (a, ts) := readBoth fuel ts
    if ts.head? = some (.mark "||") then
      let (b, ts) := readEither fuel ts.tail
      (.either a b, ts)
    else (a, ts)

/-- Reads a part, or a question with two answers. -/
def readChoice : Nat → List ArithmeticToken → ReadArithmetic
  | 0, ts => (.fault .operandExpected, ts)
  | fuel + 1, ts =>
    let (a, ts) := readEither fuel ts
    if ts.head? = some (.mark "?") then
      let (b, ts) := readAssignment fuel ts.tail
      if ts.head? = some (.mark ":") then
        let (c, ts) := readChoice fuel ts.tail
        (.choice a b c, ts)
      else (.choice a (.wrong b .colonExpected) (.number 0), ts)
    else (a, ts)

/-- Reads an expression. -/
def readAssignment : Nat → List ArithmeticToken → ReadArithmetic
  | 0, ts => (.fault .operandExpected, ts)
  | fuel + 1, ts =>
    match ts with
    | .name s :: .mark text :: rest =>
      match assignOp? text with
      | some op =>
        let (a, rest) := readAssignment fuel rest
        (.assign s op a, rest)
      | none => readChoice fuel ts
    | _ => readChoice fuel ts

end

/-- The expression that a text is. -/
def Arithmetic.read (text : Raw) : Arithmetic :=
  let ts := arithmeticTokens (text.length + 1) text
  let (a, rest) := readAssignment (8 * ts.length + 8) ts
  if rest.isEmpty then a else .wrong a .endExpected

/-! ## Values -/

/-- The number for an answer. -/
def numberOfAnswer (yes : Bool) : Int64 :=
  if yes then 1 else 0

/-- The value of an operator before a number. -/
def UnaryOp.value (op : UnaryOp) (a : Int64) : Int64 :=
  match op with
  | .negate => -a
  | .isZero => numberOfAnswer (a = 0)
  | .complement => ~~~a

/-- The value of an operator between numbers, if there is one. -/
def BinaryOp.value? (op : BinaryOp) (a b : Int64) : Except ArithmeticError Int64 :=
  match op with
  | .times => .ok (a * b)
  | .over => if b = 0 then .error .divisionByZero else .ok (a / b)
  | .rest => if b = 0 then .error .divisionByZero else .ok (a % b)
  | .plus => .ok (a + b)
  | .minus => .ok (a - b)
  | .shiftLeft => .ok (a <<< b)
  | .shiftRight => .ok (a >>> b)
  | .less => .ok (numberOfAnswer (a < b))
  | .lessEq => .ok (numberOfAnswer (a ≤ b))
  | .greater => .ok (numberOfAnswer (b < a))
  | .greaterEq => .ok (numberOfAnswer (b ≤ a))
  | .equal => .ok (numberOfAnswer (a = b))
  | .unequal => .ok (numberOfAnswer (a ≠ b))
  | .and => .ok (a &&& b)
  | .xor => .ok (a ^^^ b)
  | .or => .ok (a ||| b)

/-- Says what is wrong with an expression. -/
def refuseArithmetic {α : Type} (text : Raw) (e : ArithmeticError) : Run α :=
  fault (e.message text)

/-- The value of an operator between numbers. Where no value is asked for there is always one. -/
def combine (text : Raw) (idle : Bool) (op : BinaryOp) (a b : Int64) : Run Int64 :=
  if idle then pure b
  else
    match op.value? a b with
    | .ok n => pure n
    | .error e => refuseArithmetic text e

/-- The value of an expression. It may be idle, which means that no value is asked for. -/
def Arithmetic.value (text : Raw) : Bool → Arithmetic → Run Int64
  | _, .number n => return n
  | idle, .name s => if idle then return 0 else numericValue s
  | idle, .unary op a => do return op.value (← a.value text idle)
  | idle, .binary op a b => do
    let a ← a.value text idle
    let b ← b.value text idle
    combine text idle op a b
  | idle, .both a b => do
    let a ← a.value text idle
    let b ← b.value text (idle || a = 0)
    return numberOfAnswer (a ≠ 0 && b ≠ 0)
  | idle, .either a b => do
    let a ← a.value text idle
    let b ← b.value text (idle || a ≠ 0)
    return numberOfAnswer (a ≠ 0 || b ≠ 0)
  | idle, .choice test yes no => do
    let test ← test.value text idle
    let yes ← yes.value text (idle || test = 0)
    let no ← no.value text (idle || test ≠ 0)
    return if test ≠ 0 then yes else no
  | idle, .assign s op a => do
    let n ← a.value text idle
    if idle then return n
    let n ← match op with
      | some op => do combine text false op (← numericValue s) n
      | none => pure n
    Shell.assign s (Raw.ofInt n.toInt)
    return n
  | idle, .wrong before e => do
    let _ ← before.value text idle
    refuseArithmetic text e
  | _, .fault e => refuseArithmetic text e

/-- The number that a text stands for. -/
def evaluate (text : Raw) : Run Raw := do
  return Raw.ofInt (← (Arithmetic.read text).value text false).toInt

end ScriptCompiler.Shell
