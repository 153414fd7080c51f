import ScriptCompiler.Parse.Call

/-!
# Definitions and control flow

Classes, modules, methods, conditionals, loops and protected bodies: what a reserved word opens and
the word `end` closes.
-/

namespace ScriptCompiler.Parse

/-! ## Protected bodies -/

/-- A body as one expression with the body's value: a lone statement is that statement, nothing is
nil, and several statements are a conditional that always holds. -/
def sequence : Body → Form
  | [] => .localVar "nil"
  | [node] => node.form
  | statements => .conditional [⟨.synthetic (.localVar "true"), statements⟩] none

/-- The clause that runs after an exception, if one follows: the variable that receives it, and its
body. -/
def rescueClause (expression : Parser Node) : Parser (Option (Option String × Body)) := do
  if ← eat (.keyword .rescueKw) then
    if let .constant _ := ← kind then
      unsupported "rescuing specific exception classes is not supported" (← currentSpan)
        "rescue everything and inspect the exception object"
    let variable_ ←
      if ← eat (.punct .arrow) then
        let name ← expectIdentifier
        declare name
        pure (some name)
      else pure none
    let handler ← body expression
      [.keyword .endKw, .keyword .elseKw, .keyword .ensureKw, .keyword .rescueKw]
    if ← at_ (.keyword .rescueKw) then
      unsupported "multiple rescue clauses are not supported" (← currentSpan)
        "handle every exception in a single rescue clause"
    return some (variable_, handler)
  else return none

/-- What follows a protected body, up to the word `end`, which is not passed. -/
def rescueTail (expression : Parser Node) (protected_ : Body) : Parser Form := do
  let clause ← rescueClause expression
  let elseSpan ← currentSpan
  let otherwise ←
    if ← eat (.keyword .elseKw) then
      pure (some (← body expression [.keyword .endKw, .keyword .ensureKw]))
    else pure none
  if ← at_ (.keyword .ensureKw) then
    unsupported "'ensure' is not supported" (← currentSpan)
      "run the cleanup code after the begin block"
  match clause with
  | some (variable_, handler) => return .rescue protected_ variable_ handler otherwise
  | none =>
    if otherwise.isSome then
      report .unexpectedToken "'else' without 'rescue'" elseSpan
      failure
    else return sequence protected_

/-- A protected body, from the word `begin` on. -/
def beginBlock (expression : Parser Node) : Parser Node := do
  let start ← currentSpan
  advance
  let protected_ ← body expression
    [.keyword .endKw, .keyword .rescueKw, .keyword .elseKw, .keyword .ensureKw]
  let form ← rescueTail expression protected_
  expect (.keyword .endKw)
  return ⟨form, start.merge (← previousSpan)⟩

/-! ## Conditionals and loops -/

/-- What stands between a condition and its body: line breaks, the word `then`, or both. -/
def skipThen : Parser Unit := do
  skipNewlines
  if ← eat (.keyword .thenKw) then skipNewlines

/-- The body after the word `else`, if it comes now. -/
def elseClause (expression : Parser Node) : Parser (Option Body) := do
  if ← eat (.keyword .elseKw) then
    return some (← body expression [.keyword .endKw])
  else return none

/-- A condition and the body that it decides on. -/
def branch (expression : Parser Node) : Parser Branch := do
  let condition ← expression
  skipThen
  let statements ← body expression [.keyword .elsifKw, .keyword .elseKw, .keyword .endKw]
  return ⟨condition, statements⟩

/-- A conditional, from the word `if` on. -/
def ifBlock (expression : Parser Node) : Parser Node := do
  let start ← currentSpan
  advance
  let first ← branch expression
  let branches ← repeating (fun done => do
    if ← eat (.keyword .elsifKw) then return .again ((← branch expression) :: done)
    else return .done done.reverse) [first]
  let otherwise ← elseClause expression
  expect (.keyword .endKw)
  return ⟨.conditional branches otherwise, start.merge (← previousSpan)⟩

/-- A conditional on a negated condition, from the word `unless` on. -/
def unlessBlock (expression : Parser Node) : Parser Node := do
  let start ← currentSpan
  advance
  let condition ← expression
  skipThen
  let statements ← body expression [.keyword .elseKw, .keyword .endKw]
  let otherwise ← elseClause expression
  expect (.keyword .endKw)
  let span := start.merge (← previousSpan)
  return ⟨.conditional [⟨negate condition, statements⟩] otherwise, span⟩

/-- A loop, from its first word on. -/
def loopBlock (expression : Parser Node) (loop : LoopKind) : Parser Node := do
  let start ← currentSpan
  advance
  let condition ← withDoBlocks false expression
  discard <| eat (.keyword .doKw)
  let statements ← body expression [.keyword .endKw]
  expect (.keyword .endKw)
  return ⟨.loop loop condition statements, start.merge (← previousSpan)⟩

/-! ## Classes and modules -/

/-- Fails if a name goes on with a scope mark. -/
def rejectScoped : Parser Unit := do
  if ← at_ (.punct .scope) then
    unsupported "scoped constant names are not supported here" (← currentSpan)
      "nest the definition inside the outer module instead"

/-- The body of a class or module in a scope of its own, through the word `end`. -/
def namespaceBody (expression : Parser Node) : Parser Body := do
  let statements ← inScope true (body expression [.keyword .endKw])
  expect (.keyword .endKw)
  return statements

/-- A class, from the word `class` on. -/
def classBlock (expression : Parser Node) : Parser Node := do
  let start ← currentSpan
  advance
  if ← at_ (.punct .shift) then
    unsupported "'class << self' is not supported" (← currentSpan)
      "define singleton methods with 'def self.name'"
  let name ← expectConstant
  rejectScoped
  let superclass ←
    if ← eat (.punct .less) then
      let superclass ← expectConstant
      rejectScoped
      pure (some superclass)
    else pure none
  let statements ← namespaceBody expression
  return ⟨.classDef name superclass statements, start.merge (← previousSpan)⟩

/-- A module, from the word `module` on. -/
def moduleBlock (expression : Parser Node) : Parser Node := do
  let start ← currentSpan
  advance
  let name ← expectConstant
  rejectScoped
  let statements ← namespaceBody expression
  return ⟨.moduleDef name statements, start.merge (← previousSpan)⟩

/-! ## Methods -/

/-- An operator that a method may be called after. -/
def isMethodOperator : Punct → Bool
  | .plus | .minus | .star | .slash | .percent | .equal | .notEqual | .less | .greater
  | .lessEqual | .greaterEqual | .shift | .bang => true
  | _ => false

/-- The name of a method that one token spells: a name, a reserved word or an operator. -/
def methodName? : Token.Kind → Option String
  | .identifier name | .constant name => some name
  | .keyword word => some word.text
  | .punct mark => if isMethodOperator mark then some mark.text else none
  | _ => none

/-- Passes an equals sign that directly follows a name, which makes it the name of a writer. -/
def writerMark : Parser Bool := do
  if (← at_ (.punct .assign)) && !(← spaceBefore) then
    advance
    return true
  else return false

/-- The name in the definition of a method. -/
def definedName : Parser String := do
  match ← kind, ← followingKind with
  | .identifier name, _ =>
    advance
    return if ← writerMark then name ++ "=" else name
  | .punct .openBracket, _ =>
    advance
    expect (.punct .closeBracket)
    return if ← writerMark then "[]=" else "[]"
  | .punct .lessEqual, .punct .greater =>
    advance
    advance
    return "<=>"
  | k, _ =>
    match methodName? k with
    | some name =>
      advance
      return name
    | none =>
      unexpected "method name"
      failure

/-- The owner that a method is defined on: a name and a point before the method's name. -/
def owner? : Token.Kind → Token.Kind → Option String
  | .keyword .selfKw, .punct .dot => some "self"
  | .constant name, .punct .dot => some name
  | .identifier name, .punct .dot => some name
  | _, _ => none

/-- The parameters of a method: in parentheses, or up to the end of the line. -/
def methodParams : Parser (List Param) := do
  if ← eat (.punct .openParen) then
    skipNewlines
    let names ← if ← at_ (.punct .closeParen) then pure [] else params (.punct .closeParen)
    skipNewlines
    expect (.punct .closeParen)
    return names
  else if (← at_ .newline) || (← atEnd) then return []
  else params .newline

/-- The rest of a method definition after its name. -/
def methodRest (expression : Parser Node) (start : Span) (owner : Option String) (name : String) :
    Parser Node := do
  let names ← methodParams
  let statements ← body expression [.keyword .endKw, .keyword .rescueKw, .keyword .ensureKw]
  let statements ←
    if (← at_ (.keyword .rescueKw)) || (← at_ (.keyword .ensureKw)) then
      let first := (statements.head?.map Node.span).getD start
      let form ← rescueTail expression statements
      pure [⟨form, first.merge (← previousSpan)⟩]
    else pure statements
  expect (.keyword .endKw)
  return ⟨.methodDef owner name names statements, start.merge (← previousSpan)⟩

/-- A method definition, from the word `def` on. -/
def methodBlock (expression : Parser Node) : Parser Node := do
  let start ← currentSpan
  advance
  let owner := owner? (← kind) (← followingKind)
  if owner.isSome then
    advance
    advance
  let name ← definedName
  inScope true (methodRest expression start owner name)

end ScriptCompiler.Parse
