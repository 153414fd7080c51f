import ScriptCompiler.Parse.Program
import ScriptCompiler.Proofs.Nesting.Routines

/-!
# The parser with its counters

The parser once more, as a program that counts. It keeps the depth of expressions and the number of
constructs around it that claim the word `do`, and changes both, and the open scopes, by single
steps: up or open on the way in, down or closed on the way out. A function that fails in between
leaves nothing out: what is inside is run to its end, with or without a result, before the step back
is made.

A function that only looks at tokens, passes them, reports or binds names is the same in both.
-/

namespace ScriptCompiler.Parse

/-- The state of the parser that counts. -/
structure Tally where
  file : SourceFile
  current : Token
  rest : List Token
  previous : Span
  log : Log
  scopes : List Scope
  /-- How many expressions are open. -/
  depth : Nat
  /-- While this is not zero, the word `do` starts no block: it belongs to what is around. -/
  noDo : Nat

namespace Tally

/-- What a parser without counters sees. -/
def view (t : Tally) : State where
  file := t.file
  current := t.current
  rest := t.rest
  previous := t.previous
  log := t.log
  scopes := t.scopes
  doBlocks := t.noDo = 0

/-- The tally after a parser without counters. -/
def put (t : Tally) (s : State) : Tally :=
  { t with
    file := s.file
    current := s.current
    rest := s.rest
    previous := s.previous
    log := s.log
    scopes := s.scopes }

/-- The tally with one more scope. -/
def push (t : Tally) (closed : Bool) : Tally :=
  { t with scopes := ⟨[], closed⟩ :: t.scopes }

/-- The tally without the innermost scope. The outermost one stays. -/
def pop (t : Tally) : Tally :=
  if t.scopes.length > 1 then { t with scopes := t.scopes.tail } else t

theorem pop_of_lt {t : Tally} (h : 1 < t.scopes.length) :
    t.pop = { t with scopes := t.scopes.tail } :=
  if_pos h

/-- A tally in front of the tokens of a file, with local variables that are known already. -/
def start (file : SourceFile) (tokens : List Token) (known : List String) : Tally where
  file := file
  current := tokens.head?.getD ⟨.endOfInput, .point 1 1, false⟩
  rest := tokens.tail
  previous := .point 1 1
  log := .empty
  scopes := [⟨known, true⟩]
  depth := 0
  noDo := 0

end Tally

/-- A parser that counts. -/
abbrev Counting (α : Type) := OptionT (StateM Tally) α

namespace Counting

/-- A parser without counters, run on what it sees. -/
def plain {α : Type} (p : Parser α) : Counting α := fun t =>
  let (result, after) := p.run t.view
  (result, t.put after)

instance : MonadLift Parser Counting := ⟨plain⟩

/-- Something of the tally. -/
def look {α : Type} (f : Tally → α) : Counting α := fun t =>
  (some (f t), t)

/-- A single step. -/
def change (f : Tally → Tally) : Counting Unit := fun t =>
  (some (), f t)

/-! ## Control -/

/-- Turns a failure into an answer. -/
def attempt {α : Type} (p : Counting α) : Counting (Option α) := fun t =>
  let (result, after) := p.run t
  (some result, after)

/-- Hands on an answer of `attempt`. -/
def answer {α : Type} : Option α → Counting α
  | some a => return a
  | none => failure

/-- At most so many rounds. -/
def rounds {α β : Type} (round : α → Counting (Round α β)) : Nat → α → Counting β
  | 0, _ => failure
  | n + 1, a => do
    match ← round a with
    | .again a => rounds round n a
    | .done b => return b

/-- Repeats rounds until one stops. -/
def repeating {α β : Type} (round : α → Counting (Round α β)) (a : α) : Counting β := do
  rounds round ((← look Tally.rest).length + 3) a

/-! ## Counters and scopes -/

/-- Counts an expression that opens. If there are too many, that is reported, and it is not counted
any more. -/
def enterNested : Counting Bool := do
  change fun t => { t with depth := t.depth + 1 }
  if (← look Tally.depth) > maxDepth then
    report .nestingTooDeep
      ("expressions nested more than " ++ toString maxDepth ++ " levels deep") (← currentSpan)
    change fun t => { t with depth := t.depth - 1 }
    return false
  else return true

/-- Counts an expression that is closed. -/
def leaveNested : Counting Unit :=
  change fun t => { t with depth := t.depth - 1 }

/-- Runs a parser inside one more expression. -/
def nested {α : Type} (p : Counting α) : Counting α := do
  if ← enterNested then
    let result ← attempt p
    leaveNested
    answer result
  else failure

/-- Runs a parser where the word `do` belongs to what is around it. -/
def refusingDo {α : Type} (p : Counting α) : Counting α := do
  change fun t => { t with noDo := t.noDo + 1 }
  let result ← attempt p
  change fun t => { t with noDo := t.noDo - 1 }
  answer result

/-- Runs a parser between words of its own, where the word `do` may start a block again. -/
def allowingDo {α : Type} (p : Counting α) : Counting α := do
  let saved ← look Tally.noDo
  change fun t => { t with noDo := 0 }
  let result ← attempt p
  change fun t => { t with noDo := saved }
  answer result

/-- Runs a parser in a scope of its own. -/
def inScope {α : Type} (closed : Bool) (p : Counting α) : Counting α := do
  change fun t => t.push closed
  let result ← attempt p
  change Tally.pop
  answer result

/-! ## Statements -/

section Functions

variable (expression : Counting Node)

/-- A statement: an expression and the modifiers after it. -/
def statement : Counting Node := do
  let start ← currentSpan
  let first ← expression
  let whole ← repeating (fun stmt => do
    match modifier? (← kind) with
    | none => return .done stmt
    | some m =>
      advance
      let condition ← expression
      let span := start.merge (← previousSpan)
      return .again ⟨m.apply condition stmt, span⟩) (asDirective first)
  match joinWord? (← kind) with
  | some word =>
    unsupported ("'" ++ word.text ++ "' is not supported") (← currentSpan)
      "split the expression into nested if statements"
  | none => return whole

/-- One statement of a body, or the end of the body. A statement that fails is dropped, and parsing
goes on with the next one. -/
def bodyRound (terminators : List Token.Kind) (done : List Node) :
    Counting (Round (List Node) Body) := do
  skipNewlines
  let k ← kind
  if k = .endOfInput || terminators.contains k then return .done done.reverse
  else if ← isFull then return .done done.reverse
  else
    match ← attempt (statement expression) with
    | none =>
      synchronize
      return .again done
    | some stmt =>
      if endsStatement terminators (← kind) then return .again (stmt :: done)
      else
        unexpected "newline"
        synchronize
        return .again (stmt :: done)

/-- Statements up to the end of the text or one of the terminators, which is not passed. -/
def body (terminators : List Token.Kind) : Counting Body :=
  repeating (bodyRound expression terminators) []

/-! ## Calls -/

/-- One argument. -/
def argument : Counting Node := do
  match ← kind with
  | .punct .ampersand =>
    unsupported "passing a block with '&' is not supported" (← currentSpan)
      "pass a block literal: foo \x7b |x| blk.call(x) \x7d"
  | .punct .star =>
    unsupported "splat arguments are not supported" (← currentSpan)
      "pass the elements individually"
  | _ =>
    let arg ← expression
    if ← at_ (.punct .arrow) then
      unsupported "hash arguments are not supported" (← currentSpan)
        "pass positional arguments instead"
    else return arg

/-- Arguments without parentheses. -/
def commandArgs : Counting (List Node) :=
  refusingDo <| repeating (fun done => do
    let done := (← argument expression) :: done
    if ← eat (.punct .comma) then
      skipNewlines
      return .again done
    else return .done done.reverse) []

/-- Arguments up to a closing bracket, which is passed. -/
def bracketedArgs (close : Punct) : Counting (List Node) :=
  allowingDo do
    skipNewlines
    let args ← repeating (fun done => do
      if ← at_ (.punct close) then return .done done.reverse
      else
        let done := (← argument expression) :: done
        skipNewlines
        if ← eat (.punct .comma) then
          skipNewlines
          return .again done
        else return .done done.reverse) []
    skipNewlines
    expect (.punct close)
    return args

/-- The rest of a block after the word or brace that opens it, up to the one that closes it. -/
def blockRest (close : Token.Kind) : Counting Block :=
  allowingDo <| inScope false do
    skipNewlines
    let names ←
      if ← eat (.punct .bar) then
        let names ← if ← at_ (.punct .bar) then pure [] else params (.punct .bar)
        expect (.punct .bar)
        pure names
      else
        discard <| eat (.punct .orOr)
        pure []
    let statements ← body expression [close]
    expect close
    return ⟨names, statements⟩

/-- The block of a call, if one follows. -/
def callBlock (command : Bool) : Counting (Option Block) := do
  if !command && (← at_ (.punct .openBrace)) then
    advance
    return some (← blockRest expression (.punct .closeBrace))
  else if (← look Tally.noDo) = 0 && (← at_ (.keyword .doKw)) then
    advance
    return some (← blockRest expression (.keyword .endKw))
  else return none

/-- The rest of a call after its name. -/
def call (receiver : Option Node) (name : String) : Counting Node := do
  let start ←
    match receiver with
    | some node => pure node.span
    | none => previousSpan
  let (command, args) ←
    if ← atParenArgs then
      advance
      pure (false, ← bracketedArgs expression .closeParen)
    else if ← startsCommandArgs then pure (true, ← commandArgs expression)
    else pure (false, [])
  let block ← callBlock expression command
  return ⟨.send receiver name args block, start.merge (← previousSpan)⟩

/-! ## Definitions and control flow -/

/-- The clause that runs after an exception, if one follows. -/
def rescueClause : Counting (Option (Option String × Body)) := do
  if ← eat (.keyword .rescueKw) then
    if let .constant _ := ← kind then
      unsupported "rescuing specific exception classes is not supported" (← currentSpan)
        "rescue everything and inspect the exception object"
    let variable_ ←
      if ← eat (.punct .arrow) then
        let name ← expectIdentifier
        declare name
        pure (some name)
      else pure none
    let handler ← body expression
      [.keyword .endKw, .keyword .elseKw, .keyword .ensureKw, .keyword .rescueKw]
    if ← at_ (.keyword .rescueKw) then
      unsupported "multiple rescue clauses are not supported" (← currentSpan)
        "handle every exception in a single rescue clause"
    return some (variable_, handler)
  else return none

/-- What follows a protected body, up to the word `end`, which is not passed. -/
def rescueTail (protected_ : Body) : Counting Form := do
  let clause ← rescueClause expression
  let elseSpan ← currentSpan
  let otherwise ←
    if ← eat (.keyword .elseKw) then
      pure (some (← body expression [.keyword .endKw, .keyword .ensureKw]))
    else pure none
  if ← at_ (.keyword .ensureKw) then
    unsupported "'ensure' is not supported" (← currentSpan)
      "run the cleanup code after the begin block"
  match clause with
  | some (variable_, handler) => return .rescue protected_ variable_ handler otherwise
  | none =>
    if otherwise.isSome then
      report .unexpectedToken "'else' without 'rescue'" elseSpan
      failure
    else return sequence protected_

/-- A protected body, from the word `begin` on. -/
def beginBlock : Counting Node := do
  let start ← currentSpan
  advance
  let protected_ ← body expression
    [.keyword .endKw, .keyword .rescueKw, .keyword .elseKw, .keyword .ensureKw]
  let form ← rescueTail expression protected_
  expect (.keyword .endKw)
  return ⟨form, start.merge (← previousSpan)⟩

/-- The body after the word `else`, if it comes now. -/
def elseClause : Counting (Option Body) := do
  if ← eat (.keyword .elseKw) then
    return some (← body expression [.keyword .endKw])
  else return none

/-- A condition and the body that it decides on. -/
def branch : Counting Branch := do
  let condition ← expression
  skipThen
  let statements ← body expression [.keyword .elsifKw, .keyword .elseKw, .keyword .endKw]
  return ⟨condition, statements⟩

/-- A conditional, from the word `if` on. -/
def ifBlock : Counting Node := do
  let start ← currentSpan
  advance
  let first ← branch expression
  let branches ← repeating (fun done => do
    if ← eat (.keyword .elsifKw) then return .again ((← branch expression) :: done)
    else return .done done.reverse) [first]
  let otherwise ← elseClause expression
  expect (.keyword .endKw)
  return ⟨.conditional branches otherwise, start.merge (← previousSpan)⟩

/-- A conditional on a negated condition, from the word `unless` on. -/
def unlessBlock : Counting Node := do
  let start ← currentSpan
  advance
  let condition ← expression
  skipThen
  let statements ← body expression [.keyword .elseKw, .keyword .endKw]
  let otherwise ← elseClause expression
  expect (.keyword .endKw)
  let span := start.merge (← previousSpan)
  return ⟨.conditional [⟨negate condition, statements⟩] otherwise, span⟩

/-- A loop, from its first word on. -/
def loopBlock (loop : LoopKind) : Counting Node := do
  let start ← currentSpan
  advance
  let condition ← refusingDo expression
  discard <| eat (.keyword .doKw)
  let statements ← body expression [.keyword .endKw]
  expect (.keyword .endKw)
  return ⟨.loop loop condition statements, start.merge (← previousSpan)⟩

/-- The body of a class or module in a scope of its own, through the word `end`. -/
def namespaceBody : Counting Body := do
  let statements ← inScope true (body expression [.keyword .endKw])
  expect (.keyword .endKw)
  return statements

/-- A class, from the word `class` on. -/
def classBlock : Counting Node := do
  let start ← currentSpan
  advance
  if ← at_ (.punct .shift) then
    unsupported "'class << self' is not supported" (← currentSpan)
      "define singleton methods with 'def self.name'"
  let name ← expectConstant
  rejectScoped
  let superclass ←
    if ← eat (.punct .less) then
      let superclass ← expectConstant
      rejectScoped
      pure (some superclass)
    else pure none
  let statements ← namespaceBody expression
  return ⟨.classDef name superclass statements, start.merge (← previousSpan)⟩

/-- A module, from the word `module` on. -/
def moduleBlock : Counting Node := do
  let start ← currentSpan
  advance
  let name ← expectConstant
  rejectScoped
  let statements ← namespaceBody expression
  return ⟨.moduleDef name statements, start.merge (← previousSpan)⟩

/-- The rest of a method definition after its name. -/
def methodRest (start : Span) (owner : Option String) (name : String) : Counting Node := do
  let names ← methodParams
  let statements ← body expression [.keyword .endKw, .keyword .rescueKw, .keyword .ensureKw]
  let statements ←
    if (← at_ (.keyword .rescueKw)) || (← at_ (.keyword .ensureKw)) then
      let first := (statements.head?.map Node.span).getD start
      let form ← rescueTail expression statements
      pure [⟨form, first.merge (← previousSpan)⟩]
    else pure statements
  expect (.keyword .endKw)
  return ⟨.methodDef owner name names statements, start.merge (← previousSpan)⟩

/-- A method definition, from the word `def` on. -/
def methodBlock : Counting Node := do
  let start ← currentSpan
  advance
  let owner := owner? (← kind) (← followingKind)
  if owner.isSome then
    advance
    advance
  let name ← definedName
  inScope true (methodRest expression start owner name)

/-! ## Expressions -/

/-- An expression in parentheses. -/
def parenthesized : Counting Node := do
  let start ← currentSpan
  advance
  let inner ← allowingDo do
    skipNewlines
    statement expression
  skipNewlines
  expect (.punct .closeParen)
  return ⟨inner.form, start.merge (← previousSpan)⟩

/-- An operand without what may follow it. -/
def primary : Counting Node := do
  let start ← currentSpan
  let finish (form : Form) : Counting Node := return ⟨form, start.merge (← previousSpan)⟩
  let first ← kind
  match simple? first with
  | some form =>
    advance
    finish form
  | none =>
    match first with
    | .identifier name =>
      advance
      if (← isLocal name) && !(← atParenArgs) then finish (.localVar name)
      else call expression none name
    | .constant name =>
      advance
      if ← atParenArgs then call expression none name
      else finish (.message none name [])
    | .keyword .yieldKw =>
      advance
      call expression none Keyword.yieldKw.text
    | .keyword .superKw =>
      advance
      call expression none Keyword.superKw.text
    | .punct .openBracket =>
      advance
      finish (.array (← bracketedArgs expression .closeBracket))
    | .punct .openParen => parenthesized expression
    | .keyword .ifKw => ifBlock expression
    | .keyword .unlessKw => unlessBlock expression
    | .keyword .whileKw => loopBlock expression .whileTruthy
    | .keyword .untilKw => loopBlock expression .untilTruthy
    | .keyword .beginKw => beginBlock expression
    | .keyword .classKw => classBlock expression
    | .keyword .moduleKw => moduleBlock expression
    | .keyword .defKw => methodBlock expression
    | .keyword .returnKw =>
      unsupported "'return' is not supported" start
        "make the value the last expression of the method"
    | .punct .openBrace =>
      unsupported "hash literals are not supported" start "use an array of pairs"
    | _ =>
      unexpected "expression"
      failure

/-- One call, scoped name or index after an operand. -/
def postfixRound (node : Node) : Counting (Round Node Node) := do
  let finish (form : Form) : Counting (Round Node Node) :=
    return .again ⟨form, node.span.merge (← previousSpan)⟩
  match ← kind with
  | .punct .dot =>
    advance
    let name ← calledName
    return .again (← call expression (some node) name)
  | .newline =>
    if (← followingKind) = .punct .dot then
      advance
      return .again node
    else return .done node
  | .punct .scope =>
    advance
    let name ← scopedName
    if Token.startsUpper name && !(← atParenArgs) then finish (.message (some node) name [])
    else return .again (← call expression (some node) name)
  | .punct .openBracket =>
    if (← spaceBefore) && isCommandHead node.form then return .done node
    else
      advance
      let args ← bracketedArgs expression .closeBracket
      finish (.message (some node) "[]" args)
  | _ => return .done node

/-- What follows an operand. -/
def postfixOf (node : Node) : Counting Node :=
  repeating (postfixRound expression) node

/-- An operand with signs before it. -/
def unary : Counting Node :=
  repeating (fun signs => do
    let start ← currentSpan
    match ← kind with
    | .punct .minus =>
      advance
      match ← kind with
      | .integer value =>
        advance
        let literal : Node := ⟨.integer (-value), start.merge (← previousSpan)⟩
        return .done (applySigns signs (← postfixOf expression literal))
      | _ => return .again (("-@", start) :: signs)
    | .punct .bang =>
      advance
      return .again (("!", start) :: signs)
    | .keyword .notKw =>
      unsupported "'not' is not supported" start "use the '!' operator instead"
    | _ =>
      let operand ← primary expression
      return .done (applySigns signs (← postfixOf expression operand))) []

/-- Operands with operators of one rank between them, grouped to the left. -/
def leftGrouped (ops : List Punct) (operand : Counting Node) : Counting Node := do
  repeating (fun left => do
    match ← kind with
    | .punct mark =>
      if ops.contains mark then
        advance
        return .again (binary left mark.text (← operand))
      else return .done left
    | _ => return .done left) (← operand)

/-- Operands with operators of the first so many ranks between them. -/
def grouped : Nat → Counting Node
  | 0 => unary expression
  | rank + 1 => leftGrouped (ranks.getD rank []) (grouped rank)

/-- An expression without assignment. -/
def logical : Counting Node := do
  let left ← grouped expression ranks.length
  let next ← kind
  if isLogical next then
    unsupported ("the '" ++ next.text ++ "' operator is not supported") (← currentSpan)
      "use nested if statements instead"
  else return left

/-- The right-hand side of an assignment to a target whose old value is `current`. -/
def assignTo (target : Target) (current : Node) (how : Assignment) (start : Span) :
    Counting Node := do
  skipNewlines
  let right ← expression
  let value :=
    match how with
    | .plain => right
    | .compound op => binary current op right
  return ⟨.assign target value, start.merge (← previousSpan)⟩

/-- An assignment to an expression that is not a plain local variable. -/
def assignExpression (start : Span) (left : Node) (how : Assignment) : Counting Node := do
  let opSpan ← currentSpan
  advance
  match target? left.form with
  | some target => assignTo expression target left how start
  | none =>
    match how, reader? left.form with
    | .plain, some (receiver, name, args) =>
      let value ← expression
      return ⟨.message (some receiver) (name ++ "=") (args ++ [value]),
        start.merge (← previousSpan)⟩
    | _, _ =>
      if how ≠ .plain && hasReceiver left.form then
        unsupported "compound assignment to an attribute or index is not supported" opSpan
          "assign to a local first: tmp = a.b + 1; a.b = tmp"
      else
        report .invalidTarget ("cannot assign to " ++ left.form.kindName) left.span
        failure

/-- An expression, given the parser of the expressions inside it. -/
def assignment : Counting Node := do
  let start ← currentSpan
  match localAssignment? (← kind) (← followingKind) with
  | some (name, how) =>
    advance
    advance
    declare name
    assignTo expression (.localVar name) ⟨.localVar name, start⟩ how start
  | none =>
    let left ← logical expression
    match assignment? (← kind) with
    | some how => assignExpression expression start left how
    | none => return left

end Functions

/-- An expression. The counter stops the recursion before the levels do. -/
def expression : Nat → Counting Node
  | 0 => nested failure
  | levels + 1 => nested (assignment (expression levels))

/-! ## All functions -/

/-- The functions of the parser that counts. -/
def parser (levels : Nat) : (r : Routine) → Counting r.Result
  | .program => do
    let statements ← body (expression levels) []
    if !(← atEnd) && !(← isFull) then unexpected "end of file"
    return statements
  | .body terminators => body (expression levels) terminators
  | .statement => statement (expression levels)
  | .expression => expression levels
  | .assignment => assignment (expression levels)
  | .assignTo target current how start => assignTo (expression levels) target current how start
  | .logical => logical (expression levels)
  | .grouped rank => grouped (expression levels) rank
  | .unary => unary (expression levels)
  | .postfixOf node => postfixOf (expression levels) node
  | .primary => primary (expression levels)
  | .call receiver name => call (expression levels) receiver name
  | .commandArgs => commandArgs (expression levels)
  | .bracketedArgs close => bracketedArgs (expression levels) close
  | .argument => argument (expression levels)
  | .blockRest close => blockRest (expression levels) close
  | .ifBlock => ifBlock (expression levels)
  | .branch => branch (expression levels)
  | .unlessBlock => unlessBlock (expression levels)
  | .loopBlock kind => loopBlock (expression levels) kind
  | .beginBlock => beginBlock (expression levels)
  | .rescueTail protected_ => rescueTail (expression levels) protected_
  | .classBlock => classBlock (expression levels)
  | .moduleBlock => moduleBlock (expression levels)
  | .namespaceBody => namespaceBody (expression levels)
  | .methodBlock => methodBlock (expression levels)
  | .methodRest start owner name => methodRest (expression levels) start owner name
  | .params close => params close

/-- The functions that look at tokens, pass them, report and bind names, and do nothing else. -/
inductive Reader where
  | advance
  | eat (k : Token.Kind)
  | expect (k : Token.Kind)
  | expectIdentifier
  | expectConstant
  | unexpected (expected : String)
  | declare (name : String)
  | skipNewlines
  | skipThen
  | synchronize
  | param
  | methodParams
  | definedName
  | calledName
  | scopedName
  | rejectScoped

/-- What the function does, whatever it answers. -/
def Reader.parser : Reader → Parser Unit
  | .advance => Parse.advance
  | .eat k => discard (Parse.eat k)
  | .expect k => Parse.expect k
  | .expectIdentifier => discard Parse.expectIdentifier
  | .expectConstant => discard Parse.expectConstant
  | .unexpected expected => Parse.unexpected expected
  | .declare name => Parse.declare name
  | .skipNewlines => Parse.skipNewlines
  | .skipThen => Parse.skipThen
  | .synchronize => Parse.synchronize
  | .param => discard Parse.param
  | .methodParams => discard Parse.methodParams
  | .definedName => discard Parse.definedName
  | .calledName => discard Parse.calledName
  | .scopedName => discard Parse.scopedName
  | .rejectScoped => Parse.rejectScoped

/-- A run of a function from a tally, with the levels that its depth leaves. -/
def runFrom (t : Tally) (r : Routine) : Option r.Result × Tally :=
  (parser (maxDepth - t.depth) r).run t

end Counting

end ScriptCompiler.Parse
