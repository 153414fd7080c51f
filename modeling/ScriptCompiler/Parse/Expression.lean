import ScriptCompiler.Parse.Definition
import ScriptCompiler.Text.Alphanumeric

/-!
# Expressions

From the loosest to the tightest: assignment; equality; comparison; `<<`; addition; multiplication;
the signs `-` and `!`; and calls, names and indexes after an operand. Binary operators group to the
left and become messages to their left operand.

Expressions may stand inside one another sixty-four levels deep. Everything an expression holds is
parsed by the parser of the level below, so the recursion ends with the levels.
-/

namespace ScriptCompiler.Parse

/-! ## Operands -/

/-- An operand that is its first token, and nothing after it. -/
def simple? : Token.Kind → Option Form
  | .integer value => some (.integer value)
  | .str value => some (.str value)
  | .symbol name => some (.symbol name)
  | .instanceVar name => some (.instanceVar name)
  | .globalVar name => some (.globalVar name)
  | .keyword .selfKw => some .selfRef
  | .keyword .nilKw => some (.localVar Keyword.nilKw.text)
  | .keyword .trueKw => some (.localVar Keyword.trueKw.text)
  | .keyword .falseKw => some (.localVar Keyword.falseKw.text)
  | _ => none

/-- An expression in parentheses. -/
def parenthesized (expression : Parser Node) : Parser Node := do
  let start ← currentSpan
  advance
  let inner ← withDoBlocks true do
    skipNewlines
    statement expression
  skipNewlines
  expect (.punct .closeParen)
  return ⟨inner.form, start.merge (← previousSpan)⟩

/-- An operand without what may follow it. -/
def primary (expression : Parser Node) : Parser Node := do
  let start ← currentSpan
  let finish (form : Form) : Parser Node := return ⟨form, start.merge (← previousSpan)⟩
  let first ← kind
  match simple? first with
  | some form =>
    advance
    finish form
  | none =>
    match first with
    | .identifier name =>
      advance
      if (← isLocal name) && !(← atParenArgs) then finish (.localVar name)
      else call expression none name
    | .constant name =>
      advance
      if ← atParenArgs then call expression none name
      else finish (.message none name [])
    | .keyword .yieldKw =>
      advance
      call expression none Keyword.yieldKw.text
    | .keyword .superKw =>
      advance
      call expression none Keyword.superKw.text
    | .punct .openBracket =>
      advance
      finish (.array (← bracketedArgs expression .closeBracket))
    | .punct .openParen => parenthesized expression
    | .keyword .ifKw => ifBlock expression
    | .keyword .unlessKw => unlessBlock expression
    | .keyword .whileKw => loopBlock expression .whileTruthy
    | .keyword .untilKw => loopBlock expression .untilTruthy
    | .keyword .beginKw => beginBlock expression
    | .keyword .classKw => classBlock expression
    | .keyword .moduleKw => moduleBlock expression
    | .keyword .defKw => methodBlock expression
    | .keyword .returnKw =>
      unsupported "'return' is not supported" start
        "make the value the last expression of the method"
    | .punct .openBrace =>
      unsupported "hash literals are not supported" start "use an array of pairs"
    | _ =>
      unexpected "expression"
      failure

/-! ## What follows an operand -/

/-- A call of a bare name, after which a bracket that stands apart opens an argument. -/
def isCommandHead : Form → Bool
  | .send none _ [] none => true
  | _ => false

/-- The name after a scope mark. -/
def scopedName : Parser String := do
  match ← kind with
  | .constant name | .identifier name =>
    advance
    return name
  | _ =>
    unexpected "name after '::'"
    failure

/-- The name after a point. -/
def calledName : Parser String := do
  match methodName? (← kind) with
  | some name =>
    advance
    return name
  | none =>
    unexpected "method name"
    failure

/-- One call, scoped name or index after an operand. A line break may stand before a point. -/
def postfixRound (expression : Parser Node) (node : Node) : Parser (Round Node Node) := do
  let finish (form : Form) : Parser (Round Node Node) :=
    return .again ⟨form, node.span.merge (← previousSpan)⟩
  match ← kind with
  | .punct .dot =>
    advance
    let name ← calledName
    return .again (← call expression (some node) name)
  | .newline =>
    if (← followingKind) = .punct .dot then
      advance
      return .again node
    else return .done node
  | .punct .scope =>
    advance
    let name ← scopedName
    if Token.startsUpper name && !(← atParenArgs) then finish (.message (some node) name [])
    else return .again (← call expression (some node) name)
  | .punct .openBracket =>
    if (← spaceBefore) && isCommandHead node.form then return .done node
    else
      advance
      let args ← bracketedArgs expression .closeBracket
      finish (.message (some node) "[]" args)
  | _ => return .done node

/-- What follows an operand. -/
def postfixOf (expression : Parser Node) (node : Node) : Parser Node :=
  repeating (postfixRound expression) node

/-! ## Operators -/

/-- An operator applied to two operands. -/
def binary (left : Node) (op : String) (right : Node) : Node :=
  ⟨.message (some left) op [right], left.span.merge right.span⟩

/-- Signs applied to an operand, the last one first. -/
def applySigns : List (String × Span) → Node → Node
  | [], operand => operand
  | (op, start) :: signs, operand =>
    applySigns signs ⟨.message (some operand) op [], start.merge operand.span⟩

/-- An operand with signs before it. A minus before an integer literal belongs to the literal. -/
def unary (expression : Parser Node) : Parser Node :=
  repeating (fun signs => do
    let start ← currentSpan
    match ← kind with
    | .punct .minus =>
      advance
      match ← kind with
      | .integer value =>
        advance
        let literal : Node := ⟨.integer (-value), start.merge (← previousSpan)⟩
        return .done (applySigns signs (← postfixOf expression literal))
      | _ => return .again (("-@", start) :: signs)
    | .punct .bang =>
      advance
      return .again (("!", start) :: signs)
    | .keyword .notKw =>
      unsupported "'not' is not supported" start "use the '!' operator instead"
    | _ =>
      let operand ← primary expression
      return .done (applySigns signs (← postfixOf expression operand))) []

/-- Operands with operators of one rank between them, grouped to the left. -/
def leftGrouped (ops : List Punct) (operand : Parser Node) : Parser Node := do
  repeating (fun left => do
    match ← kind with
    | .punct mark =>
      if ops.contains mark then
        advance
        return .again (binary left mark.text (← operand))
      else return .done left
    | _ => return .done left) (← operand)

/-- The binary operators, those that bind tightest first. -/
def ranks : List (List Punct) :=
  [[.star, .slash, .percent], [.plus, .minus], [.shift],
    [.less, .greater, .lessEqual, .greaterEqual], [.equal, .notEqual]]

/-- Operands with binary operators between them. -/
def operators (expression : Parser Node) : Parser Node :=
  ranks.foldl (fun operand ops => leftGrouped ops operand) (unary expression)

/-- The logical operators, which the compiler does not take. -/
def isLogical : Token.Kind → Bool
  | .punct .andAnd | .punct .orOr => true
  | _ => false

/-- An expression without assignment. -/
def logical (expression : Parser Node) : Parser Node := do
  let left ← operators expression
  let next ← kind
  if isLogical next then
    unsupported ("the '" ++ next.text ++ "' operator is not supported") (← currentSpan)
      "use nested if statements instead"
  else return left

/-! ## Assignment -/

/-- How an assignment makes the new value. -/
inductive Assignment where
  | plain
  /-- From the old one, by an operator. -/
  | compound (op : String)
  deriving DecidableEq

/-- The assignment that a token stands for. -/
def assignment? : Token.Kind → Option Assignment
  | .punct .assign => some .plain
  | .punct .plusAssign => some (.compound "+")
  | .punct .minusAssign => some (.compound "-")
  | .punct .starAssign => some (.compound "*")
  | _ => none

/-- The right-hand side of an assignment to a target whose old value is `current`. -/
def assignTo (expression : Parser Node) (target : Target) (current : Node) (how : Assignment)
    (start : Span) : Parser Node := do
  skipNewlines
  let right ← expression
  let value :=
    match how with
    | .plain => right
    | .compound op => binary current op right
  return ⟨.assign target value, start.merge (← previousSpan)⟩

/-- The name ends in a question or exclamation mark. -/
def isMarked (name : String) : Bool :=
  name.toList.getLast?.any fun c => c = '?' || c = '!'

/-- An identifier right before an assignment: a local variable is assigned. -/
def localAssignment? : Token.Kind → Token.Kind → Option (String × Assignment)
  | .identifier name, next =>
    if isMarked name then none else (assignment? next).map fun how => (name, how)
  | _, _ => none

/-- The variable that an expression names. A bare constant names a variable of its environment. -/
def target? : Form → Option Target
  | .instanceVar name => some (.instanceVar name)
  | .globalVar name => some (.globalVar name)
  | .send none name [] none => if Token.startsUpper name then some (.localVar name) else none
  | _ => none

/-- The name of a reader that a writer may belong to. -/
def isAttribute (name : String) : Bool :=
  name.toList.head?.any (fun c => Token.isLower c || c = '_')
    && name.toList.all fun c =>
      Token.isLower c || Token.isUpper c || Token.isDigit c || c = '_' || Text.isWideAlphanumeric c

/-- The receiver, name and arguments of the reader that an expression calls. -/
def reader? : Form → Option (Node × String × List Node)
  | .send (some receiver) name args none =>
    if name = "[]" || (args.isEmpty && isAttribute name) then some (receiver, name, args) else none
  | _ => none

/-- A message to a receiver. -/
def hasReceiver : Form → Bool
  | .send (some _) _ _ _ => true
  | _ => false

/-- An assignment to an expression that is not a plain local variable. -/
def assignExpression (expression : Parser Node) (start : Span) (left : Node) (how : Assignment) :
    Parser Node := do
  let opSpan ← currentSpan
  advance
  match target? left.form with
  | some target => assignTo expression target left how start
  | none =>
    match how, reader? left.form with
    | .plain, some (receiver, name, args) =>
      let value ← expression
      return ⟨.message (some receiver) (name ++ "=") (args ++ [value]),
        start.merge (← previousSpan)⟩
    | _, _ =>
      if how ≠ .plain && hasReceiver left.form then
        unsupported "compound assignment to an attribute or index is not supported" opSpan
          "assign to a local first: tmp = a.b + 1; a.b = tmp"
      else
        report .invalidTarget ("cannot assign to " ++ left.form.kindName) left.span
        failure

/-- An expression, given the parser of the expressions inside it. -/
def assignment (expression : Parser Node) : Parser Node := do
  let start ← currentSpan
  match localAssignment? (← kind) (← followingKind) with
  | some (name, how) =>
    advance
    advance
    declare name
    assignTo expression (.localVar name) ⟨.localVar name, start⟩ how start
  | none =>
    let left ← logical expression
    match assignment? (← kind) with
    | some how => assignExpression expression start left how
    | none => return left

/-! ## All expressions -/

/-- How many levels of expressions may stand inside one another. -/
def maxDepth : Nat := 64

/-- An expression with at most so many levels. -/
def expression : Nat → Parser Node
  | 0 => do
    report .nestingTooDeep
      ("expressions nested more than " ++ toString maxDepth ++ " levels deep") (← currentSpan)
    failure
  | levels + 1 => assignment (expression levels)

end ScriptCompiler.Parse
