import ScriptCompiler.Proofs.Operators.Groups

/-!
# The functions of the parser

Each function of the parser as a case of one function that is given all of them: what it makes of
the answers of the functions it calls. Where these are the functions of the parser themselves, it is
the function of the parser (`code_eq`).

The functions call one another in circles. Expressions inside an expression have a level less, so
functions are told apart by the levels that are left, too.
-/

namespace ScriptCompiler.Parse

open Operators (upTo signsRound)

/-- The functions of the parser, with their arguments. -/
inductive Routine where
  | program
  | body (terminators : List Token.Kind)
  | statement
  | expression
  | assignment
  | assignTo (target : Target) (current : Node) (how : Assignment) (start : Span)
  | logical
  /-- Operands with operators of the first so many ranks. -/
  | grouped (rank : Fin (ranks.length + 1))
  | unary
  | postfixOf (node : Node)
  | primary
  | call (receiver : Option Node) (name : String)
  | commandArgs
  | bracketedArgs (close : Punct)
  | argument
  | blockRest (close : Token.Kind)
  | ifBlock
  | branch
  | unlessBlock
  | loopBlock (kind : LoopKind)
  | beginBlock
  | rescueTail (protected_ : Body)
  | classBlock
  | moduleBlock
  | namespaceBody
  | methodBlock
  | methodRest (start : Span) (owner : Option String) (name : String)
  | params (close : Token.Kind)

namespace Routine

/-- What the function answers. -/
abbrev Result : Routine → Type
  | program | body _ | namespaceBody => Body
  | commandArgs | bracketedArgs _ => List Node
  | blockRest _ => Block
  | branch => Branch
  | rescueTail _ => Form
  | params _ => List Param
  | _ => Node

end Routine

/-- A parser for each function and each number of levels. -/
abbrev Routines := Nat → (r : Routine) → Parser r.Result

/-- The functions of the parser, where so many levels are left for the expressions inside. -/
def parser : Routines := fun levels r =>
  match r with
  | .program => do
    let statements ← Parse.body (Parse.expression levels) []
    if !(← atEnd) && !(← isFull) then unexpected "end of file"
    return statements
  | .body terminators => Parse.body (Parse.expression levels) terminators
  | .statement => Parse.statement (Parse.expression levels)
  | .expression => Parse.expression levels
  | .assignment => Parse.assignment (Parse.expression levels)
  | .assignTo target current how start =>
    Parse.assignTo (Parse.expression levels) target current how start
  | .logical => Parse.logical (Parse.expression levels)
  | .grouped rank => upTo (Parse.expression levels) rank
  | .unary => Parse.unary (Parse.expression levels)
  | .postfixOf node => Parse.postfixOf (Parse.expression levels) node
  | .primary => Parse.primary (Parse.expression levels)
  | .call receiver name => Parse.call (Parse.expression levels) receiver name
  | .commandArgs => Parse.commandArgs (Parse.expression levels)
  | .bracketedArgs close => Parse.bracketedArgs (Parse.expression levels) close
  | .argument => Parse.argument (Parse.expression levels)
  | .blockRest close => Parse.blockRest (Parse.expression levels) close
  | .ifBlock => Parse.ifBlock (Parse.expression levels)
  | .branch => Parse.branch (Parse.expression levels)
  | .unlessBlock => Parse.unlessBlock (Parse.expression levels)
  | .loopBlock kind => Parse.loopBlock (Parse.expression levels) kind
  | .beginBlock => Parse.beginBlock (Parse.expression levels)
  | .rescueTail protected_ => Parse.rescueTail (Parse.expression levels) protected_
  | .classBlock => Parse.classBlock (Parse.expression levels)
  | .moduleBlock => Parse.moduleBlock (Parse.expression levels)
  | .namespaceBody => Parse.namespaceBody (Parse.expression levels)
  | .methodBlock => Parse.methodBlock (Parse.expression levels)
  | .methodRest start owner name =>
    Parse.methodRest (Parse.expression levels) start owner name
  | .params close => Parse.params close

/-! ## What a function makes of the others -/

section Code

variable (calls : (r : Routine) → Parser r.Result)

/-- One statement of a body, or the end of the body. -/
def bodyCode (terminators : List Token.Kind) (done : List Node) :
    Parser (Round (List Node) Body) := do
  skipNewlines
  let k ← kind
  if k = .endOfInput || terminators.contains k then return .done done.reverse
  else if ← isFull then return .done done.reverse
  else
    match ← attempt (calls .statement) with
    | none =>
      synchronize
      return .again done
    | some stmt =>
      if endsStatement terminators (← kind) then return .again (stmt :: done)
      else
        unexpected "newline"
        synchronize
        return .again (stmt :: done)

/-- An assignment to an expression that is not a plain local variable. -/
def assignExpressionCode (start : Span) (left : Node) (how : Assignment) : Parser Node := do
  let opSpan ← currentSpan
  advance
  match target? left.form with
  | some target => calls (.assignTo target left how start)
  | none =>
    match how, reader? left.form with
    | .plain, some (receiver, name, args) =>
      let value ← calls .expression
      return ⟨.message (some receiver) (name ++ "=") (args ++ [value]),
        start.merge (← previousSpan)⟩
    | _, _ =>
      if how ≠ .plain && hasReceiver left.form then
        unsupported "compound assignment to an attribute or index is not supported" opSpan
          "assign to a local first: tmp = a.b + 1; a.b = tmp"
      else
        report .invalidTarget ("cannot assign to " ++ left.form.kindName) left.span
        failure

/-- An expression, from the loosest operators on. -/
def assignmentCode : Parser Node := do
  let start ← currentSpan
  match localAssignment? (← kind) (← followingKind) with
  | some (name, how) =>
    advance
    advance
    declare name
    calls (.assignTo (.localVar name) ⟨.localVar name, start⟩ how start)
  | none =>
    let left ← calls .logical
    match assignment? (← kind) with
    | some how => assignExpressionCode calls start left how
    | none => return left

/-- An expression without assignment. -/
def logicalCode : Parser Node := do
  let left ← calls (.grouped (Fin.last _))
  let next ← kind
  if isLogical next then
    unsupported ("the '" ++ next.text ++ "' operator is not supported") (← currentSpan)
      "use nested if statements instead"
  else return left

/-- Operands with operators of the first so many ranks. -/
def groupedCode : Fin (ranks.length + 1) → Parser Node
  | ⟨0, _⟩ => calls .unary
  | ⟨rank + 1, h⟩ =>
    leftGrouped (ranks.getD rank []) (calls (.grouped ⟨rank, Nat.lt_of_succ_lt h⟩))

/-- An operand with a sign before it is a sign and an operand. -/
def unaryCode : Parser Node := do
  let start ← currentSpan
  match ← kind with
  | .punct .minus =>
    advance
    match ← kind with
    | .integer value =>
      advance
      calls (.postfixOf ⟨.integer (-value), start.merge (← previousSpan)⟩)
    | _ =>
      let operand ← calls .unary
      return ⟨.message (some operand) "-@" [], start.merge operand.span⟩
  | .punct .bang =>
    advance
    let operand ← calls .unary
    return ⟨.message (some operand) "!" [], start.merge operand.span⟩
  | .keyword .notKw =>
    unsupported "'not' is not supported" start "use the '!' operator instead"
  | _ =>
    let operand ← calls .primary
    calls (.postfixOf operand)

/-- One call, scoped name or index after an operand. -/
def postfixCode (node : Node) : Parser (Round Node Node) := do
  let finish (form : Form) : Parser (Round Node Node) :=
    return .again ⟨form, node.span.merge (← previousSpan)⟩
  match ← kind with
  | .punct .dot =>
    advance
    let name ← calledName
    return .again (← calls (.call (some node) name))
  | .newline =>
    if (← followingKind) = .punct .dot then
      advance
      return .again node
    else return .done node
  | .punct .scope =>
    advance
    let name ← scopedName
    if Token.startsUpper name && !(← atParenArgs) then finish (.message (some node) name [])
    else return .again (← calls (.call (some node) name))
  | .punct .openBracket =>
    if (← spaceBefore) && isCommandHead node.form then return .done node
    else
      advance
      let args ← calls (.bracketedArgs .closeBracket)
      finish (.message (some node) "[]" args)
  | _ => return .done node

/-- An expression in parentheses. -/
def parenthesizedCode : Parser Node := do
  let start ← currentSpan
  advance
  let inner ← withDoBlocks true do
    skipNewlines
    calls .statement
  skipNewlines
  expect (.punct .closeParen)
  return ⟨inner.form, start.merge (← previousSpan)⟩

/-- An operand without what may follow it. -/
def primaryCode : Parser Node := do
  let start ← currentSpan
  let finish (form : Form) : Parser Node := return ⟨form, start.merge (← previousSpan)⟩
  let first ← kind
  match simple? first with
  | some form =>
    advance
    finish form
  | none =>
    match first with
    | .identifier name =>
      advance
      if (← isLocal name) && !(← atParenArgs) then finish (.localVar name)
      else calls (.call none name)
    | .constant name =>
      advance
      if ← atParenArgs then calls (.call none name)
      else finish (.message none name [])
    | .keyword .yieldKw =>
      advance
      calls (.call none Keyword.yieldKw.text)
    | .keyword .superKw =>
      advance
      calls (.call none Keyword.superKw.text)
    | .punct .openBracket =>
      advance
      finish (.array (← calls (.bracketedArgs .closeBracket)))
    | .punct .openParen => parenthesizedCode calls
    | .keyword .ifKw => calls .ifBlock
    | .keyword .unlessKw => calls .unlessBlock
    | .keyword .whileKw => calls (.loopBlock .whileTruthy)
    | .keyword .untilKw => calls (.loopBlock .untilTruthy)
    | .keyword .beginKw => calls .beginBlock
    | .keyword .classKw => calls .classBlock
    | .keyword .moduleKw => calls .moduleBlock
    | .keyword .defKw => calls .methodBlock
    | .keyword .returnKw =>
      unsupported "'return' is not supported" start
        "make the value the last expression of the method"
    | .punct .openBrace =>
      unsupported "hash literals are not supported" start "use an array of pairs"
    | _ =>
      unexpected "expression"
      failure

/-- The block of a call, if one follows. -/
def callBlockCode (command : Bool) : Parser (Option Block) := do
  if !command && (← at_ (.punct .openBrace)) then
    advance
    return some (← calls (.blockRest (.punct .closeBrace)))
  else if (← get).doBlocks && (← at_ (.keyword .doKw)) then
    advance
    return some (← calls (.blockRest (.keyword .endKw)))
  else return none

/-- The rest of a call after its name. -/
def callCode (receiver : Option Node) (name : String) : Parser Node := do
  let start ←
    match receiver with
    | some node => pure node.span
    | none => previousSpan
  let (command, args) ←
    if ← atParenArgs then
      advance
      pure (false, ← calls (.bracketedArgs .closeParen))
    else if ← startsCommandArgs then pure (true, ← calls .commandArgs)
    else pure (false, [])
  let block ← callBlockCode calls command
  return ⟨.send receiver name args block, start.merge (← previousSpan)⟩

/-- Arguments without parentheses. -/
def commandArgsCode : Parser (List Node) :=
  withDoBlocks false <| repeating (fun done => do
    let done := (← calls .argument) :: done
    if ← eat (.punct .comma) then
      skipNewlines
      return .again done
    else return .done done.reverse) []

/-- Arguments up to a closing bracket. -/
def bracketedArgsCode (close : Punct) : Parser (List Node) :=
  withDoBlocks true do
    skipNewlines
    let args ← repeating (fun done => do
      if ← at_ (.punct close) then return .done done.reverse
      else
        let done := (← calls .argument) :: done
        skipNewlines
        if ← eat (.punct .comma) then
          skipNewlines
          return .again done
        else return .done done.reverse) []
    skipNewlines
    expect (.punct close)
    return args

/-- The rest of a block after the word or brace that opens it. -/
def blockRestCode (close : Token.Kind) : Parser Block :=
  withDoBlocks true <| inScope false do
    skipNewlines
    let names ←
      if ← eat (.punct .bar) then
        let names ← if ← at_ (.punct .bar) then pure [] else calls (.params (.punct .bar))
        expect (.punct .bar)
        pure names
      else
        discard <| eat (.punct .orOr)
        pure []
    let statements ← calls (.body [close])
    expect close
    return ⟨names, statements⟩

/-- The body after the word `else`, if it comes now. -/
def elseCode : Parser (Option Body) := do
  if ← eat (.keyword .elseKw) then
    return some (← calls (.body [.keyword .endKw]))
  else return none

/-- A conditional, from the word `if` on. -/
def ifBlockCode : Parser Node := do
  let start ← currentSpan
  advance
  let first ← calls .branch
  let branches ← repeating (fun done => do
    if ← eat (.keyword .elsifKw) then return .again ((← calls .branch) :: done)
    else return .done done.reverse) [first]
  let otherwise ← elseCode calls
  expect (.keyword .endKw)
  return ⟨.conditional branches otherwise, start.merge (← previousSpan)⟩

/-- A condition and the body that it decides on. -/
def branchCode : Parser Branch := do
  let condition ← calls .expression
  skipThen
  let statements ← calls (.body [.keyword .elsifKw, .keyword .elseKw, .keyword .endKw])
  return ⟨condition, statements⟩

/-- A conditional on a negated condition. -/
def unlessBlockCode : Parser Node := do
  let start ← currentSpan
  advance
  let condition ← calls .expression
  skipThen
  let statements ← calls (.body [.keyword .elseKw, .keyword .endKw])
  let otherwise ← elseCode calls
  expect (.keyword .endKw)
  let span := start.merge (← previousSpan)
  return ⟨.conditional [⟨negate condition, statements⟩] otherwise, span⟩

/-- A loop, from its first word on. -/
def loopBlockCode (loop : LoopKind) : Parser Node := do
  let start ← currentSpan
  advance
  let condition ← withDoBlocks false (calls .expression)
  discard <| eat (.keyword .doKw)
  let statements ← calls (.body [.keyword .endKw])
  expect (.keyword .endKw)
  return ⟨.loop loop condition statements, start.merge (← previousSpan)⟩

/-- A protected body, from the word `begin` on. -/
def beginBlockCode : Parser Node := do
  let start ← currentSpan
  advance
  let protected_ ← calls
    (.body [.keyword .endKw, .keyword .rescueKw, .keyword .elseKw, .keyword .ensureKw])
  let form ← calls (.rescueTail protected_)
  expect (.keyword .endKw)
  return ⟨form, start.merge (← previousSpan)⟩

/-- The clause that runs after an exception, if one follows. -/
def rescueClauseCode : Parser (Option (Option String × Body)) := do
  if ← eat (.keyword .rescueKw) then
    if let .constant _ := ← kind then
      unsupported "rescuing specific exception classes is not supported" (← currentSpan)
        "rescue everything and inspect the exception object"
    let variable_ ←
      if ← eat (.punct .arrow) then
        let name ← expectIdentifier
        declare name
        pure (some name)
      else pure none
    let handler ← calls
      (.body [.keyword .endKw, .keyword .elseKw, .keyword .ensureKw, .keyword .rescueKw])
    if ← at_ (.keyword .rescueKw) then
      unsupported "multiple rescue clauses are not supported" (← currentSpan)
        "handle every exception in a single rescue clause"
    return some (variable_, handler)
  else return none

/-- What follows a protected body, up to the word `end`. -/
def rescueTailCode (protected_ : Body) : Parser Form := do
  let clause ← rescueClauseCode calls
  let elseSpan ← currentSpan
  let otherwise ←
    if ← eat (.keyword .elseKw) then
      pure (some (← calls (.body [.keyword .endKw, .keyword .ensureKw])))
    else pure none
  if ← at_ (.keyword .ensureKw) then
    unsupported "'ensure' is not supported" (← currentSpan)
      "run the cleanup code after the begin block"
  match clause with
  | some (variable_, handler) => return .rescue protected_ variable_ handler otherwise
  | none =>
    if otherwise.isSome then
      report .unexpectedToken "'else' without 'rescue'" elseSpan
      failure
    else return sequence protected_

/-- The body of a class or module in a scope of its own. -/
def namespaceBodyCode : Parser Body := do
  let statements ← inScope true (calls (.body [.keyword .endKw]))
  expect (.keyword .endKw)
  return statements

/-- A class, from the word `class` on. -/
def classBlockCode : Parser Node := do
  let start ← currentSpan
  advance
  if ← at_ (.punct .shift) then
    unsupported "'class << self' is not supported" (← currentSpan)
      "define singleton methods with 'def self.name'"
  let name ← expectConstant
  rejectScoped
  let superclass ←
    if ← eat (.punct .less) then
      let superclass ← expectConstant
      rejectScoped
      pure (some superclass)
    else pure none
  let statements ← calls .namespaceBody
  return ⟨.classDef name superclass statements, start.merge (← previousSpan)⟩

/-- A module, from the word `module` on. -/
def moduleBlockCode : Parser Node := do
  let start ← currentSpan
  advance
  let name ← expectConstant
  rejectScoped
  let statements ← calls .namespaceBody
  return ⟨.moduleDef name statements, start.merge (← previousSpan)⟩

/-- The parameters of a method. -/
def methodParamsCode : Parser (List Param) := do
  if ← eat (.punct .openParen) then
    skipNewlines
    let names ←
      if ← at_ (.punct .closeParen) then pure [] else calls (.params (.punct .closeParen))
    skipNewlines
    expect (.punct .closeParen)
    return names
  else if (← at_ .newline) || (← atEnd) then return []
  else calls (.params .newline)

/-- The rest of a method definition after its name. -/
def methodRestCode (start : Span) (owner : Option String) (name : String) : Parser Node := do
  let names ← methodParamsCode calls
  let statements ← calls (.body [.keyword .endKw, .keyword .rescueKw, .keyword .ensureKw])
  let statements ←
    if (← at_ (.keyword .rescueKw)) || (← at_ (.keyword .ensureKw)) then
      let first := (statements.head?.map Node.span).getD start
      let form ← calls (.rescueTail statements)
      pure [⟨form, first.merge (← previousSpan)⟩]
    else pure statements
  expect (.keyword .endKw)
  return ⟨.methodDef owner name names statements, start.merge (← previousSpan)⟩

/-- A method definition, from the word `def` on. -/
def methodBlockCode : Parser Node := do
  let start ← currentSpan
  advance
  let owner := owner? (← kind) (← followingKind)
  if owner.isSome then
    advance
    advance
  let name ← definedName
  inScope true (calls (.methodRest start owner name))

end Code

/-- What a function makes of the functions it calls. An expression takes one of the levels. -/
def code (calls : Routines) (levels : Nat) : (r : Routine) → Parser r.Result
  | .program => do
    let statements ← calls levels (.body [])
    if !(← atEnd) && !(← isFull) then unexpected "end of file"
    return statements
  | .body terminators => repeating (bodyCode (calls levels) terminators) []
  | .statement => Parse.statement (calls levels .expression)
  | .expression =>
    match levels with
    | 0 => Parse.expression 0
    | below + 1 => calls below .assignment
  | .assignment => assignmentCode (calls levels)
  | .assignTo target current how start =>
    Parse.assignTo (calls levels .expression) target current how start
  | .logical => logicalCode (calls levels)
  | .grouped rank => groupedCode (calls levels) rank
  | .unary => unaryCode (calls levels)
  | .postfixOf node => repeating (postfixCode (calls levels)) node
  | .primary => primaryCode (calls levels)
  | .call receiver name => callCode (calls levels) receiver name
  | .commandArgs => commandArgsCode (calls levels)
  | .bracketedArgs close => bracketedArgsCode (calls levels) close
  | .argument => Parse.argument (calls levels .expression)
  | .blockRest close => blockRestCode (calls levels) close
  | .ifBlock => ifBlockCode (calls levels)
  | .branch => branchCode (calls levels)
  | .unlessBlock => unlessBlockCode (calls levels)
  | .loopBlock loop => loopBlockCode (calls levels) loop
  | .beginBlock => beginBlockCode (calls levels)
  | .rescueTail protected_ => rescueTailCode (calls levels) protected_
  | .classBlock => classBlockCode (calls levels)
  | .moduleBlock => moduleBlockCode (calls levels)
  | .namespaceBody => namespaceBodyCode (calls levels)
  | .methodBlock => methodBlockCode (calls levels)
  | .methodRest start owner name => methodRestCode (calls levels) start owner name
  | .params close => Parse.params close

/-! ## The functions are what they make of one another -/

section Unary

variable {expression : Parser Node} {s : State}

/-- A message to an operand, from the sign on. -/
def signedWith (sign : String × Span) (operand : Node) : Node :=
  ⟨.message (some operand) sign.1 [], sign.2.merge operand.span⟩

/-- The round does not depend on the signs that were met before. -/
theorem run_signsRound_append (met signs : List (String × Span)) :
    (signsRound expression (met ++ signs)).run s =
      match (signsRound expression met).run s with
      | (some (.again met'), s') => (some (.again (met' ++ signs)), s')
      | (some (.done operand), s') => (some (.done (applySigns signs operand)), s')
      | (none, s') => (none, s') := by
  have applied (operand : Node) :
      applySigns (met ++ signs) operand = applySigns signs (applySigns met operand) := by
    induction met generalizing operand with
    | nil => rfl
    | cons sign met ih => exact ih _
  unfold signsRound
  rw [run_currentSpan, run_currentSpan, run_kind, run_kind]
  split
  · rw [run_advance, run_advance, run_kind, run_kind]
    split
    · rw [run_advance, run_advance, run_previousSpan, run_previousSpan, run_bind, run_bind]
      cases (postfixOf expression _).run s.next.next with
      | mk result s' =>
        cases result with
        | none => rfl
        | some operand =>
          exact congrArg (fun node => (some (Round.done node), s')) (applied operand)
    · rfl
  · rfl
  · rfl
  · rw [run_bind, run_bind]
    cases (primary expression).run s with
    | mk result s' =>
      cases result with
      | none => rfl
      | some operand =>
        dsimp only
        rw [run_bind, run_bind]
        cases (postfixOf expression operand).run s' with
        | mk result s' =>
          cases result with
          | none => rfl
          | some operand =>
            exact congrArg (fun node => (some (Round.done node), s')) (applied operand)

/-- Signs that were met before are applied last. -/
theorem run_rounds_append (n : Nat) (met signs : List (String × Span)) :
    (rounds (signsRound expression) n (met ++ signs)).run s =
      match (rounds (signsRound expression) n met).run s with
      | (some operand, s') => (some (applySigns signs operand), s')
      | (none, s') => (none, s') := by
  induction n generalizing met s with
  | zero => rfl
  | succ n ih =>
    rw [rounds, rounds, run_bind, run_bind, run_signsRound_append]
    cases (signsRound expression met).run s with
    | mk result s' =>
      rcases result with _ | ⟨met' | operand⟩
      · rfl
      · exact ih met'
      · rfl

/-- A sign before an operand, and the operand. -/
theorem run_unary_sign (sign : String × Span)
    (h : ∀ signs, (signsRound expression signs).run s = (some (.again (sign :: signs)), s.next)) :
    (unary expression).run s = (do
      let operand ← unary expression
      return signedWith sign operand : Parser Node).run s.next := by
  have again (n : Nat) : (rounds (signsRound expression) (n + 1) []).run s
      = match (rounds (signsRound expression) n []).run s.next with
        | (some operand, s') => (some (signedWith sign operand), s')
        | (none, s') => (none, s') :=
    (run_rounds_again (h [])).trans (run_rounds_append n [] [sign])
  have first : (unary expression).run s
      = match (rounds (signsRound expression) (s.rest.length + 2) []).run s.next with
        | (some operand, s') => (some (signedWith sign operand), s')
        | (none, s') => (none, s') := again _
  rw [run_bind, first]
  by_cases hr : s.rest = []
  · -- the sign is the last token, and there is no operand behind it
    have stuck (n : Nat) : (rounds (signsRound expression) n []).run s = (none, s) := by
      induction n with
      | zero => rfl
      | succ n ih => rw [again, State.next_of_nil hr, ih]
    have operand : (unary expression).run s = (none, s) := stuck _
    rw [State.next_of_nil hr, stuck, operand]
  · have shorter : s.rest.length = s.next.rest.length + 1 :=
      (congrArg List.length (State.remaining_next hr)).symm
    have operand : (unary expression).run s.next
        = (rounds (signsRound expression) (s.rest.length + 2) []).run s.next := by
      rw [shorter]
      rfl
    rw [operand]
    cases (rounds (signsRound expression) (s.rest.length + 2) []).run s.next with
    | mk result s' => cases result <;> rfl

/-- An operand without a sign. -/
theorem run_unary_operand {operand : Parser Node} {s' : State}
    (h : (signsRound expression []).run s = match operand.run s' with
      | (some node, s'') => (some (.done node), s'')
      | (none, s'') => (none, s'')) :
    (unary expression).run s = operand.run s' := by
  show (rounds (signsRound expression) (s.rest.length + 2 + 1) []).run s = _
  rw [rounds, run_bind, h]
  cases operand.run s' with
  | mk result s'' => cases result <;> rfl

end Unary

/-- The loop over the signs before an operand is the function that calls itself after a sign. -/
theorem unaryCode_eq (levels : Nat) :
    unaryCode (parser levels) = Parse.unary (Parse.expression levels) := by
  funext s
  show (unaryCode (parser levels)).run s = (Parse.unary (Parse.expression levels)).run s
  have after (node : Node) :
      parser levels (.postfixOf node) = Parse.postfixOf (Parse.expression levels) node := rfl
  have first : parser levels .primary = Parse.primary (Parse.expression levels) := rfl
  have operand : parser levels .unary = Parse.unary (Parse.expression levels) := rfl
  unfold unaryCode
  simp only [after, first, operand]
  rw [run_currentSpan, run_kind]
  split
  · next minus =>
    rw [run_advance, run_kind]
    split
    · next value integer =>
      rw [run_advance, run_previousSpan]
      refine (run_unary_operand ?_).symm
      unfold signsRound
      rw [run_currentSpan, run_kind, minus]
      dsimp only
      rw [run_advance, run_kind, integer]
      dsimp only
      rw [run_advance, run_previousSpan, run_bind]
      cases (Parse.postfixOf (Parse.expression levels) _).run s.next.next with
      | mk result s' => cases result <;> rfl
    · next other =>
      refine (run_unary_sign ("-@", s.current.span) fun signs => ?_).symm
      unfold signsRound
      rw [run_currentSpan, run_kind, minus]
      dsimp only
      rw [run_advance, run_kind]
      split
      · next value integer => exact absurd integer (other value)
      · rfl
  · next bang =>
    refine (run_unary_sign ("!", s.current.span) fun signs => ?_).symm
    unfold signsRound
    rw [run_currentSpan, run_kind, bang]
    rfl
  · next word =>
    refine (run_unary_operand ?_).symm
    unfold signsRound
    rw [run_currentSpan, run_kind, word]
    rfl
  · next minus bang word =>
    refine (run_unary_operand ?_).symm
    unfold signsRound
    rw [run_currentSpan, run_kind]
    split
    · next h => exact absurd h minus
    · next h => exact absurd h bang
    · next h => exact absurd h word
    · rw [run_bind, run_bind]
      cases (Parse.primary (Parse.expression levels)).run s with
      | mk result s' =>
        cases result with
        | none => rfl
        | some operand =>
          dsimp only
          rw [run_bind]
          cases (Parse.postfixOf (Parse.expression levels) operand).run s' with
          | mk result s'' => cases result <;> rfl

/-- **Each function of the parser is what it makes of the functions it calls.** -/
theorem code_eq (levels : Nat) (r : Routine) : code parser levels r = parser levels r := by
  cases r with
  | unary => exact unaryCode_eq levels
  | expression => cases levels <;> rfl
  | grouped rank => obtain ⟨_ | rank, h⟩ := rank <;> rfl
  | _ => rfl

theorem parser_program : parser maxDepth .program = program := rfl

end ScriptCompiler.Parse
