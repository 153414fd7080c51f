import ScriptCompiler.Parse.Statement
import ScriptCompiler.Token.Word

/-!
# Calls

A call has arguments, in parentheses right after its name or without them, and perhaps a block. A
call without parentheses takes its arguments only after a space, so that `a -1` is a call and
`a - 1` a difference.
-/

namespace ScriptCompiler.Parse

/-! ## Parameters -/

/-- One parameter. -/
def param : Parser Param := do
  let span ← currentSpan
  match ← kind with
  | .identifier name =>
    advance
    if ← at_ (.punct .assign) then
      unsupported "default parameter values are not supported" (← currentSpan)
        "assign the default inside the method body"
    else
      declare name
      return .positional name
  | .punct .ampersand =>
    advance
    let name ← expectIdentifier
    declare name
    return .block name
  | .punct .star | .symbol _ =>
    unsupported "splat and keyword parameters are not supported" span "use positional parameters"
  | _ =>
    unexpected "parameter name"
    failure

/-- Parameters with commas between them, up to a closing token, which is not passed. Each name
becomes a local variable of the current scope. -/
def params (close : Token.Kind) : Parser (List Param) :=
  repeating (fun done => do
    let done := (← param) :: done
    if ← at_ close then return .done done.reverse
    else if ← eat (.punct .comma) then
      if close ≠ .newline then skipNewlines
      return .again done
    else return .done done.reverse) []

/-! ## Arguments -/

/-- One argument. -/
def argument (expression : Parser Node) : Parser Node := do
  match ← kind with
  | .punct .ampersand =>
    unsupported "passing a block with '&' is not supported" (← currentSpan)
      "pass a block literal: foo \x7b |x| blk.call(x) \x7d"
  | .punct .star =>
    unsupported "splat arguments are not supported" (← currentSpan)
      "pass the elements individually"
  | _ =>
    let arg ← expression
    if ← at_ (.punct .arrow) then
      unsupported "hash arguments are not supported" (← currentSpan)
        "pass positional arguments instead"
    else return arg

/-- Arguments without parentheses. -/
def commandArgs (expression : Parser Node) : Parser (List Node) :=
  withDoBlocks false <| repeating (fun done => do
    let done := (← argument expression) :: done
    if ← eat (.punct .comma) then
      skipNewlines
      return .again done
    else return .done done.reverse) []

/-- Arguments up to a closing bracket, which is passed. Line breaks may stand anywhere between them
and a comma after the last one. -/
def bracketedArgs (expression : Parser Node) (close : Punct) : Parser (List Node) :=
  withDoBlocks true do
    skipNewlines
    let args ← repeating (fun done => do
      if ← at_ (.punct close) then return .done done.reverse
      else
        let done := (← argument expression) :: done
        skipNewlines
        if ← eat (.punct .comma) then
          skipNewlines
          return .again done
        else return .done done.reverse) []
    skipNewlines
    expect (.punct close)
    return args

/-- A parenthesis right after a name opens its arguments. -/
def atParenArgs : Parser Bool :=
  return (← at_ (.punct .openParen)) && !(← spaceBefore)

/-- The current token starts the first argument of a call without parentheses. -/
def startsCommandArgs : Parser Bool := do
  let s ← get
  if !s.current.spaceBefore then return false
  else
    match s.current.kind with
    | .integer _ | .str _ | .symbol _ | .identifier _ | .constant _ | .instanceVar _
    | .globalVar _ => return true
    | .keyword .selfKw | .keyword .nilKw | .keyword .trueKw | .keyword .falseKw
    | .keyword .yieldKw | .keyword .superKw => return true
    | .punct .openBracket | .punct .openParen => return true
    | .punct .minus | .punct .bang => return !s.following.spaceBefore
    | _ => return false

/-! ## Blocks -/

/-- The rest of a block after the word or brace that opens it, up to the one that closes it. -/
def blockRest (expression : Parser Node) (close : Token.Kind) : Parser Block :=
  withDoBlocks true <| inScope false do
    skipNewlines
    let names ←
      if ← eat (.punct .bar) then
        let names ← if ← at_ (.punct .bar) then pure [] else params (.punct .bar)
        expect (.punct .bar)
        pure names
      else
        discard <| eat (.punct .orOr)
        pure []
    let statements ← body expression [close]
    expect close
    return ⟨names, statements⟩

/-- The block of a call, if one follows. A brace starts one unless the call has arguments without
parentheses. -/
def callBlock (expression : Parser Node) (command : Bool) : Parser (Option Block) := do
  if !command && (← at_ (.punct .openBrace)) then
    advance
    return some (← blockRest expression (.punct .closeBrace))
  else if (← get).doBlocks && (← at_ (.keyword .doKw)) then
    advance
    return some (← blockRest expression (.keyword .endKw))
  else return none

/-! ## Calls -/

/-- The rest of a call after its name. -/
def call (expression : Parser Node) (receiver : Option Node) (name : String) : Parser Node := do
  let start ←
    match receiver with
    | some node => pure node.span
    | none => previousSpan
  let (command, args) ←
    if ← atParenArgs then
      advance
      pure (false, ← bracketedArgs expression .closeParen)
    else if ← startsCommandArgs then pure (true, ← commandArgs expression)
    else pure (false, [])
  let block ← callBlock expression command
  return ⟨.send receiver name args block, start.merge (← previousSpan)⟩

end ScriptCompiler.Parse
