import ScriptCompiler.Parse.State

/-!
# Statements

A statement is an expression, perhaps with conditions after it that decide whether or how often it
runs. A body is a sequence of statements up to a word that ends it. A statement with a fault is
dropped and parsing goes on with the next one.

Expressions may hold statements again; here the parser of expressions is a parameter.
-/

namespace ScriptCompiler.Parse

/-- The negation of a condition, as a message to its value. -/
def negate (condition : Node) : Node :=
  ⟨.message (some condition) "!" [], condition.span⟩

/-- A call with one string that names a directive is that directive. -/
def asDirective (node : Node) : Node :=
  match node.form with
  | .send none name [⟨.str path, _⟩] none =>
    match DirectiveKind.all.find? (·.text = name) with
    | some kind => ⟨.directive kind path, node.span⟩
    | none => node
  | _ => node

/-- A word after a statement that makes it depend on a condition. -/
inductive Modifier where
  | if_
  | unless
  | loop (kind : LoopKind)

/-- The modifier that a token starts. -/
def modifier? : Token.Kind → Option Modifier
  | .keyword .ifKw => some .if_
  | .keyword .unlessKw => some .unless
  | .keyword .whileKw => some (.loop .whileTruthy)
  | .keyword .untilKw => some (.loop .untilTruthy)
  | _ => none

/-- A statement that depends on a condition. -/
def Modifier.apply (m : Modifier) (condition : Node) (statement : Node) : Form :=
  match m with
  | .if_ => .conditional [⟨condition, [statement]⟩] none
  | .unless => .conditional [⟨negate condition, [statement]⟩] none
  | .loop kind => .loop kind condition [statement]

/-- A word that joins statements in other languages. -/
def joinWord? : Token.Kind → Option Keyword
  | .keyword .andKw => some .andKw
  | .keyword .orKw => some .orKw
  | _ => none

/-- A statement: an expression and the modifiers after it. -/
def statement (expression : Parser Node) : Parser Node := do
  let start ← currentSpan
  let first ← expression
  let whole ← repeating (fun stmt => do
    match modifier? (← kind) with
    | none => return .done stmt
    | some m =>
      advance
      let condition ← expression
      let span := start.merge (← previousSpan)
      return .again ⟨m.apply condition stmt, span⟩) (asDirective first)
  match joinWord? (← kind) with
  | some word =>
    unsupported ("'" ++ word.text ++ "' is not supported") (← currentSpan)
      "split the expression into nested if statements"
  | none => return whole

/-- A statement may end before this token. -/
def endsStatement (terminators : List Token.Kind) (k : Token.Kind) : Bool :=
  k = .endOfInput || k = .newline || terminators.contains k

/-- One statement of a body, or the end of the body. -/
def bodyRound (expression : Parser Node) (terminators : List Token.Kind) (done : List Node) :
    Parser (Round (List Node) Body) := do
  skipNewlines
  let k ← kind
  if k = .endOfInput || terminators.contains k then return .done done.reverse
  else if ← isFull then return .done done.reverse
  else
    match ← attempt (statement expression) with
    | none =>
      synchronize
      return .again done
    | some stmt =>
      if endsStatement terminators (← kind) then return .again (stmt :: done)
      else
        unexpected "newline"
        synchronize
        return .again (stmt :: done)

/-- Statements up to the end of the text or one of the terminators, which is not passed. -/
def body (expression : Parser Node) (terminators : List Token.Kind) : Parser Body :=
  repeating (bodyRound expression terminators) []

end ScriptCompiler.Parse
