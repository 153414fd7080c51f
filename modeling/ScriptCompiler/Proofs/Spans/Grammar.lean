import ScriptCompiler.Parse.Program
import ScriptCompiler.Proofs.Spans.Rules

/-!
# Spans of the grammar

Every part of the grammar builds its nodes of those that the parts before and inside it have built,
and takes their spans from where these have them, if the expressions inside it do.
-/

namespace ScriptCompiler

variable {P : Span → Prop}

namespace Parse

variable {file : SourceFile} {expression : Parser Node}

/-! ## Statements -/

theorem within_negate {condition : Node} (h : condition.Within P) : (negate condition).Within P :=
  ⟨h.span, .message (by rintro _ ⟨⟩; exact h) nofun⟩

theorem within_asDirective {node : Node} (h : node.Within P) : (asDirective node).Within P := by
  unfold asDirective
  split
  · split
    · exact ⟨h.span, .directive⟩
    · exact h
  · exact h

theorem within_apply (m : Modifier) {condition statement : Node} (hc : condition.Within P)
    (hs : statement.Within P) : (m.apply condition statement).Within P := by
  have body : Body.Within P [statement] := List.forall_mem_singleton.mpr hs
  rcases m with _ | _ | kind
  · exact .conditional (List.forall_mem_singleton.mpr ⟨hc, body⟩) nofun
  · exact .conditional (List.forall_mem_singleton.mpr ⟨within_negate hc, body⟩) nofun
  · exact .loop hc body

section Expressions

variable (merges : Span.Merges P) (he : Sites file P expression (Node.Within P))

include merges he

theorem sites_statement : Sites file P (statement expression) (Node.Within P) := by
  unfold statement
  refine Sites.currentSpan.bind fun start hstart => he.bind fun first hfirst => ?_
  refine .bind (Q := Node.Within P)
    (.repeating (I := Node.Within P) ?_ (within_asDirective hfirst)) fun whole hw => ?_
  · intro stmt hstmt
    refine Sites.kind.bind fun k _ => ?_
    split
    · exact .pure hstmt
    · next m _ =>
      refine Sites.advance.bind fun _ _ => he.bind fun condition hc => ?_
      refine Sites.previousSpan.bind fun finish hfinish => ?_
      exact .pure ⟨merges hstart hfinish, within_apply m hc hstmt⟩
  · refine Sites.kind.bind fun k _ => ?_
    split
    · exact .unsupportedHere
    · exact .pure hw

theorem sites_body (terminators : List Token.Kind) :
    Sites file P (body expression terminators) (Body.Within P) := by
  unfold body
  refine .repeating (I := Body.Within P) (fun done hdone => ?_) nofun
  have all : Body.Within P done.reverse := fun node h => hdone node (List.mem_reverse.mp h)
  unfold bodyRound
  refine Sites.skipNewlines.bind fun _ _ => Sites.kind.bind fun k _ => .ite (.pure all) ?_
  refine Sites.isFull.bind fun full _ => .ite (.pure all) ?_
  refine .bind (.attempt (sites_statement merges he)) fun r hr => ?_
  split
  · exact Sites.synchronize.bind fun _ _ => .pure hdone
  · next stmt =>
    have more : Body.Within P (stmt :: done) := List.forall_mem_cons.mpr ⟨hr stmt rfl, hdone⟩
    refine Sites.kind.bind fun next _ => .ite (.pure more) ?_
    exact (Sites.unexpected _).bind fun _ _ => Sites.synchronize.bind fun _ _ => .pure more

end Expressions

/-! ## Calls -/

theorem sites_param : Sites file P param Any := by
  unfold param
  refine Sites.currentSpan.bind fun start hstart => Sites.kind.bind fun k _ => ?_
  split
  · refine Sites.advance.bind fun _ _ => (Sites.at_ _).bind fun _ _ => .ite .unsupportedHere ?_
    exact (Sites.declare _).bind fun _ _ => .pure trivial
  · refine Sites.advance.bind fun _ _ => Sites.expectIdentifier.bind fun name _ => ?_
    exact (Sites.declare _).bind fun _ _ => .pure trivial
  · exact .unsupported hstart
  · exact .unsupported hstart
  · exact .reject _

theorem sites_params (close : Token.Kind) : Sites file P (params close) Any := by
  unfold params
  refine .repeating (I := Any) (fun done _ => sites_param.bind fun p _ => ?_) trivial
  refine (Sites.at_ _).bind fun _ _ => .ite (.pure trivial) ?_
  refine (Sites.eat _).bind fun _ _ => .ite ?_ (.pure trivial)
  extract_lets jp
  have next : Sites file P (jp ()) (Sites.Round Any Any) := .pure trivial
  exact .ite (Sites.skipNewlines.bind fun _ _ => next) next

section Expressions

variable (merges : Span.Merges P) (he : Sites file P expression (Node.Within P))

include he

theorem sites_argument : Sites file P (argument expression) (Node.Within P) := by
  unfold argument
  refine Sites.kind.bind fun k _ => ?_
  split
  · exact .unsupportedHere
  · exact .unsupportedHere
  · refine he.bind fun arg harg => (Sites.at_ _).bind fun _ _ => ?_
    exact .ite .unsupportedHere (.pure harg)

theorem sites_commandArgs : Sites file P (commandArgs expression) (Body.Within P) := by
  unfold commandArgs
  refine .withDoBlocks (.repeating (I := Body.Within P) (fun done hdone => ?_) nofun)
  refine (sites_argument he).bind fun arg harg => ?_
  have more : Body.Within P (arg :: done) := List.forall_mem_cons.mpr ⟨harg, hdone⟩
  refine (Sites.eat _).bind fun _ _ => .ite ?_ ?_
  · exact Sites.skipNewlines.bind fun _ _ => .pure more
  · exact .pure fun node h => more node (List.mem_reverse.mp h)

theorem sites_bracketedArgs (close : Punct) :
    Sites file P (bracketedArgs expression close) (Body.Within P) := by
  unfold bracketedArgs
  refine .withDoBlocks (Sites.skipNewlines.bind fun _ _ => ?_)
  refine .bind (Q := Body.Within P)
    (.repeating (I := Body.Within P) (fun done hdone => ?_) nofun) fun args hargs => ?_
  · refine (Sites.at_ _).bind fun _ _ => .ite ?_ ?_
    · exact .pure fun node h => hdone node (List.mem_reverse.mp h)
    · refine (sites_argument he).bind fun arg harg => Sites.skipNewlines.bind fun _ _ => ?_
      have more : Body.Within P (arg :: done) := List.forall_mem_cons.mpr ⟨harg, hdone⟩
      refine (Sites.eat _).bind fun _ _ => .ite ?_ ?_
      · exact Sites.skipNewlines.bind fun _ _ => .pure more
      · exact .pure fun node h => more node (List.mem_reverse.mp h)
  · exact Sites.skipNewlines.bind fun _ _ => (Sites.expect _).bind fun _ _ => .pure hargs

include merges

theorem sites_blockRest (close : Token.Kind) :
    Sites file P (blockRest expression close) fun b => Body.Within P b.body := by
  unfold blockRest
  refine .withDoBlocks (.inScope (Sites.skipNewlines.bind fun _ _ => ?_))
  refine (Sites.eat _).bind fun bars _ => ?_
  extract_lets jp jp'
  have rest (names : List Param) : Sites file P (jp names) fun b => Body.Within P b.body :=
    (sites_body merges he _).bind fun _ h => (Sites.expect _).bind fun _ _ => .pure h
  have bar (names : List Param) : Sites file P (jp' names) fun b => Body.Within P b.body :=
    (Sites.expect _).bind fun _ _ => rest names
  refine .ite ?_ ?_
  · exact (Sites.at_ _).bind fun _ _ => .ite (bar _) ((sites_params _).bind fun _ _ => bar _)
  · exact .bind (Q := Any) (.bind (.eat _) fun _ _ => .pure trivial) fun _ _ => rest _

theorem sites_callBlock (command : Bool) :
    Sites file P (callBlock expression command) fun b => ∀ block ∈ b, Body.Within P block.body := by
  have some_ (close : Token.Kind) :
      Sites file P (blockRest expression close >>= fun b => Pure.pure (some b))
        fun b => ∀ block ∈ b, Body.Within P block.body :=
    (sites_blockRest merges he close).bind fun b hb => .pure (by rintro _ ⟨⟩; exact hb)
  unfold callBlock
  refine (Sites.at_ _).bind fun _ _ => .ite (Sites.advance.bind fun _ _ => some_ _) ?_
  refine Sites.get.bind fun s _ => (Sites.at_ _).bind fun _ _ => ?_
  exact .ite (Sites.advance.bind fun _ _ => some_ _) (.pure nofun)

theorem sites_call {receiver : Option Node} (name : String)
    (hr : ∀ node ∈ receiver, node.Within P) :
    Sites file P (call expression receiver name) (Node.Within P) := by
  unfold call
  extract_lets jp
  have rest {start : Span} (hstart : P start) : Sites file P (jp start) (Node.Within P) := by
    refine Sites.atParenArgs.bind fun paren _ => Sites.startsCommandArgs.bind fun command _ => ?_
    extract_lets jp'
    have block (args : Bool × List Node) (ha : Body.Within P args.2) :
        Sites file P (jp' args) (Node.Within P) := by
      refine (sites_callBlock merges he _).bind fun block hb => ?_
      refine Sites.previousSpan.bind fun finish hf => ?_
      exact .pure ⟨merges hstart hf, .send hr ha hb⟩
    refine .ite ?_ (.ite ?_ ?_)
    · refine Sites.advance.bind fun _ _ => (sites_bracketedArgs he _).bind fun args ha => ?_
      exact block (false, args) ha
    · exact (sites_commandArgs he).bind fun args ha => block (true, args) ha
    · exact block (false, []) nofun
  cases receiver with
  | none => exact Sites.previousSpan.bind fun _ h => rest h
  | some node => exact rest (hr node rfl).span

end Expressions

/-! ## Protected bodies -/

theorem within_sequence {statements : Body} (h : Body.Within P statements) :
    (sequence statements).Within P := by
  unfold sequence
  split
  · exact .atom rfl nofun
  · next node => exact (h node (List.mem_singleton_self node)).inner
  · exact .sequence h

section Expressions

variable (merges : Span.Merges P) (he : Sites file P expression (Node.Within P))

include merges he

theorem sites_rescueClause :
    Sites file P (rescueClause expression) fun r => ∀ clause ∈ r, Body.Within P clause.2 := by
  unfold rescueClause
  refine (Sites.eat _).bind fun _ _ => .ite ?_ (.pure nofun)
  refine Sites.kind.bind fun k _ => ?_
  extract_lets jp jp'
  have handled (variable_ : Option String) :
      Sites file P (jp variable_) fun r => ∀ clause ∈ r, Body.Within P clause.2 := by
    refine (sites_body merges he _).bind fun handler hh => (Sites.at_ _).bind fun _ _ => ?_
    exact .ite .unsupportedThen (.pure (by rintro _ ⟨⟩; exact hh))
  have rest : Sites file P (jp' ()) fun r => ∀ clause ∈ r, Body.Within P clause.2 := by
    refine (Sites.eat _).bind fun _ _ => .ite ?_ (handled none)
    refine Sites.expectIdentifier.bind fun name _ => ?_
    exact (Sites.declare _).bind fun _ _ => handled (some name)
  split
  · exact .unsupportedThen
  · exact rest

theorem sites_rescueTail {protected_ : Body} (hp : Body.Within P protected_) :
    Sites file P (rescueTail expression protected_) (Form.Within P) := by
  unfold rescueTail
  refine (sites_rescueClause merges he).bind fun clause hc => ?_
  refine Sites.currentSpan.bind fun elseSpan hs => (Sites.eat _).bind fun _ _ => ?_
  extract_lets jp
  have rest (otherwise : Option Body) (ho : ∀ body ∈ otherwise, Body.Within P body) :
      Sites file P (jp otherwise) (Form.Within P) := by
    refine (Sites.at_ _).bind fun _ _ => .ite .unsupportedThen ?_
    split
    · exact .pure (.rescue hp (hc _ rfl) ho)
    · exact .ite (.rejectAs hs) (.pure (within_sequence hp))
  refine .ite ?_ (rest none nofun)
  refine (sites_body merges he _).bind fun otherwise ho => ?_
  exact rest (some otherwise) (by rintro _ ⟨⟩; exact ho)

theorem sites_beginBlock : Sites file P (beginBlock expression) (Node.Within P) := by
  unfold beginBlock
  refine Sites.currentSpan.bind fun start hs => Sites.advance.bind fun _ _ => ?_
  refine (sites_body merges he _).bind fun protected_ hp => ?_
  refine (sites_rescueTail merges he hp).bind fun form hform => ?_
  refine (Sites.expect _).bind fun _ _ => Sites.previousSpan.bind fun finish hf => ?_
  exact .pure ⟨merges hs hf, hform⟩

/-! ## Conditionals and loops -/

omit merges he in
theorem sites_skipThen : Sites file P skipThen Any := by
  unfold skipThen
  refine Sites.skipNewlines.bind fun _ _ => (Sites.eat _).bind fun _ _ => ?_
  exact .ite .skipNewlines (.pure trivial)

theorem sites_elseClause :
    Sites file P (elseClause expression) fun r => ∀ body ∈ r, Body.Within P body := by
  unfold elseClause
  refine (Sites.eat _).bind fun _ _ => .ite ?_ (.pure nofun)
  exact (sites_body merges he _).bind fun body h => .pure (by rintro _ ⟨⟩; exact h)

theorem sites_branch : Sites file P (branch expression) (Branch.Within P) := by
  unfold branch
  refine he.bind fun condition hc => sites_skipThen.bind fun _ _ => ?_
  exact (sites_body merges he _).bind fun statements h => .pure ⟨hc, h⟩

theorem sites_ifBlock : Sites file P (ifBlock expression) (Node.Within P) := by
  unfold ifBlock
  refine Sites.currentSpan.bind fun start hs => Sites.advance.bind fun _ _ => ?_
  refine (sites_branch merges he).bind fun first hfirst => ?_
  have one : ∀ b ∈ [first], b.Within P := List.forall_mem_singleton.mpr hfirst
  refine .bind (Q := fun branches : List Branch => ∀ b ∈ branches, b.Within P)
    (.repeating (I := fun done : List Branch => ∀ b ∈ done, b.Within P) (fun done hdone => ?_) one)
    fun branches hb => ?_
  · refine (Sites.eat _).bind fun _ _ => .ite ?_ ?_
    · refine (sites_branch merges he).bind fun b hb => ?_
      exact .pure (List.forall_mem_cons.mpr ⟨hb, hdone⟩)
    · exact .pure fun b h => hdone b (List.mem_reverse.mp h)
  · refine (sites_elseClause merges he).bind fun otherwise ho => (Sites.expect _).bind fun _ _ => ?_
    exact Sites.previousSpan.bind fun finish hf => .pure ⟨merges hs hf, .conditional hb ho⟩

theorem sites_unlessBlock : Sites file P (unlessBlock expression) (Node.Within P) := by
  unfold unlessBlock
  refine Sites.currentSpan.bind fun start hs => Sites.advance.bind fun _ _ => ?_
  refine he.bind fun condition hc => sites_skipThen.bind fun _ _ => ?_
  refine (sites_body merges he _).bind fun statements h => ?_
  refine (sites_elseClause merges he).bind fun otherwise ho => (Sites.expect _).bind fun _ _ => ?_
  refine Sites.previousSpan.bind fun finish hf => .pure ⟨merges hs hf, .conditional ?_ ho⟩
  exact List.forall_mem_singleton.mpr ⟨within_negate hc, h⟩

theorem sites_loopBlock (loop : LoopKind) :
    Sites file P (loopBlock expression loop) (Node.Within P) := by
  unfold loopBlock
  refine Sites.currentSpan.bind fun start hs => Sites.advance.bind fun _ _ => ?_
  refine he.withDoBlocks.bind fun condition hc => ?_
  refine .bind (Q := Any) ((Sites.eat _).bind fun _ _ => .pure trivial) fun _ _ => ?_
  refine (sites_body merges he _).bind fun statements h => (Sites.expect _).bind fun _ _ => ?_
  exact Sites.previousSpan.bind fun finish hf => .pure ⟨merges hs hf, .loop hc h⟩

/-! ## Classes, modules and methods -/

omit merges he in
theorem sites_rejectScoped : Sites file P rejectScoped Any := by
  unfold rejectScoped
  exact (Sites.at_ _).bind fun _ _ => .ite .unsupportedHere (.pure trivial)

theorem sites_namespaceBody : Sites file P (namespaceBody expression) (Body.Within P) := by
  unfold namespaceBody
  refine (Sites.inScope (sites_body merges he _)).bind fun statements h => ?_
  exact (Sites.expect _).bind fun _ _ => .pure h

theorem sites_classBlock : Sites file P (classBlock expression) (Node.Within P) := by
  unfold classBlock
  refine Sites.currentSpan.bind fun start hs => Sites.advance.bind fun _ _ => ?_
  refine (Sites.at_ _).bind fun _ _ => .ite .unsupportedThen ?_
  refine Sites.expectConstant.bind fun name _ => sites_rejectScoped.bind fun _ _ => ?_
  refine (Sites.eat _).bind fun _ _ => ?_
  extract_lets jp
  have rest (superclass : Option String) : Sites file P (jp superclass) (Node.Within P) := by
    refine (sites_namespaceBody merges he).bind fun statements h => ?_
    exact Sites.previousSpan.bind fun finish hf => .pure ⟨merges hs hf, .classDef h⟩
  refine .ite ?_ (rest none)
  refine Sites.expectConstant.bind fun superclass _ => ?_
  exact sites_rejectScoped.bind fun _ _ => rest (some superclass)

theorem sites_moduleBlock : Sites file P (moduleBlock expression) (Node.Within P) := by
  unfold moduleBlock
  refine Sites.currentSpan.bind fun start hs => Sites.advance.bind fun _ _ => ?_
  refine Sites.expectConstant.bind fun name _ => sites_rejectScoped.bind fun _ _ => ?_
  refine (sites_namespaceBody merges he).bind fun statements h => ?_
  exact Sites.previousSpan.bind fun finish hf => .pure ⟨merges hs hf, .moduleDef h⟩

omit merges he in
theorem sites_writerMark : Sites file P writerMark Any := by
  unfold writerMark
  refine (Sites.at_ _).bind fun _ _ => Sites.spaceBefore.bind fun _ _ => ?_
  exact .ite (Sites.advance.bind fun _ _ => .pure trivial) (.pure trivial)

omit merges he in
theorem sites_definedName : Sites file P definedName Any := by
  unfold definedName
  refine Sites.kind.bind fun k _ => Sites.followingKind.bind fun k' _ => ?_
  split
  · exact Sites.advance.bind fun _ _ => sites_writerMark.bind fun _ _ => .pure trivial
  · refine Sites.advance.bind fun _ _ => (Sites.expect _).bind fun _ _ => ?_
    exact sites_writerMark.bind fun _ _ => .pure trivial
  · exact Sites.advance.bind fun _ _ => Sites.advance.bind fun _ _ => .pure trivial
  · split
    · exact Sites.advance.bind fun _ _ => .pure trivial
    · exact .reject _

omit merges he in
theorem sites_methodParams : Sites file P methodParams Any := by
  unfold methodParams
  refine (Sites.eat _).bind fun _ _ => .ite ?_ ?_
  · refine Sites.skipNewlines.bind fun _ _ => (Sites.at_ _).bind fun _ _ => ?_
    extract_lets jp
    have rest (names : List Param) : Sites file P (jp names) Any :=
      Sites.skipNewlines.bind fun _ _ => (Sites.expect _).bind fun _ _ => .pure trivial
    exact .ite (rest []) ((sites_params _).bind fun names _ => rest names)
  · refine (Sites.at_ _).bind fun _ _ => Sites.atEnd.bind fun _ _ => ?_
    exact .ite (.pure trivial) (sites_params _)

theorem sites_methodRest {start : Span} (hs : P start) (owner : Option String) (name : String) :
    Sites file P (methodRest expression start owner name) (Node.Within P) := by
  unfold methodRest
  refine sites_methodParams.bind fun params _ => ?_
  refine (sites_body merges he _).bind fun statements h => ?_
  refine (Sites.at_ _).bind fun _ _ => (Sites.at_ _).bind fun _ _ => ?_
  extract_lets jp
  have rest {statements : Body} (h : Body.Within P statements) :
      Sites file P (jp statements) (Node.Within P) := by
    refine (Sites.expect _).bind fun _ _ => Sites.previousSpan.bind fun finish hf => ?_
    exact .pure ⟨merges hs hf, .methodDef h⟩
  have first : P ((statements.head?.map Node.span).getD start) := by
    cases statements with
    | nil => exact hs
    | cons node statements => exact (h node List.mem_cons_self).span
  refine .ite ?_ (rest h)
  refine (sites_rescueTail merges he h).bind fun form hform => ?_
  refine Sites.previousSpan.bind fun finish hf => ?_
  exact rest (List.forall_mem_singleton.mpr ⟨merges first hf, hform⟩)

theorem sites_methodBlock : Sites file P (methodBlock expression) (Node.Within P) := by
  unfold methodBlock
  refine Sites.currentSpan.bind fun start hs => Sites.advance.bind fun _ _ => ?_
  refine Sites.kind.bind fun k _ => Sites.followingKind.bind fun k' _ => ?_
  extract_lets owner jp
  have rest : Sites file P (jp ()) (Node.Within P) :=
    sites_definedName.bind fun name _ => .inScope (sites_methodRest merges he hs owner name)
  exact .ite (Sites.advance.bind fun _ _ => Sites.advance.bind fun _ _ => rest) rest

/-! ## Operands -/

theorem sites_parenthesized : Sites file P (parenthesized expression) (Node.Within P) := by
  unfold parenthesized
  refine Sites.currentSpan.bind fun start hs => Sites.advance.bind fun _ _ => ?_
  refine .bind (Q := Node.Within P) (.withDoBlocks ?_) fun inner hinner => ?_
  · exact Sites.skipNewlines.bind fun _ _ => sites_statement merges he
  · refine Sites.skipNewlines.bind fun _ _ => (Sites.expect _).bind fun _ _ => ?_
    exact Sites.previousSpan.bind fun finish hf => .pure ⟨merges hs hf, hinner.inner⟩

omit merges he in
theorem within_simple {k : Token.Kind} {form : Form} (h : simple? k = some form) :
    form.Within P := by
  cases k with
  | keyword word => cases word <;> cases h <;> exact .atom rfl nofun
  | _ => cases h <;> exact .atom rfl nofun

theorem sites_primary : Sites file P (primary expression) (Node.Within P) := by
  unfold primary
  refine Sites.currentSpan.bind fun start hs => ?_
  extract_lets finish
  have finished {form : Form} (h : form.Within P) : Sites file P (finish form) (Node.Within P) :=
    Sites.previousSpan.bind fun _ hf => .pure ⟨merges hs hf, h⟩
  have called (name : String) : Sites file P (call expression none name) (Node.Within P) :=
    sites_call merges he name nofun
  refine Sites.kind.bind fun k _ => ?_
  split
  · next form hform => exact Sites.advance.bind fun _ _ => finished (within_simple hform)
  split
  · refine Sites.advance.bind fun _ _ => (Sites.isLocal _).bind fun _ _ => ?_
    refine Sites.atParenArgs.bind fun _ _ => .ite ?_ (called _)
    exact finished (.atom rfl nofun)
  · refine Sites.advance.bind fun _ _ => Sites.atParenArgs.bind fun _ _ => .ite (called _) ?_
    exact finished (.message nofun nofun)
  · exact Sites.advance.bind fun _ _ => called _
  · exact Sites.advance.bind fun _ _ => called _
  · refine Sites.advance.bind fun _ _ => (sites_bracketedArgs he _).bind fun args ha => ?_
    exact finished (.array ha)
  · exact sites_parenthesized merges he
  · exact sites_ifBlock merges he
  · exact sites_unlessBlock merges he
  · exact sites_loopBlock merges he _
  · exact sites_loopBlock merges he _
  · exact sites_beginBlock merges he
  · exact sites_classBlock merges he
  · exact sites_moduleBlock merges he
  · exact sites_methodBlock merges he
  · exact .unsupported hs
  · exact .unsupported hs
  · exact .reject _

/-! ## What follows an operand -/

omit merges he in
theorem sites_scopedName : Sites file P scopedName Any := by
  unfold scopedName
  refine Sites.kind.bind fun k _ => ?_
  split
  · exact Sites.advance.bind fun _ _ => .pure trivial
  · exact Sites.advance.bind fun _ _ => .pure trivial
  · exact .reject _

omit merges he in
theorem sites_calledName : Sites file P calledName Any := by
  unfold calledName
  refine Sites.kind.bind fun k _ => ?_
  split
  · exact Sites.advance.bind fun _ _ => .pure trivial
  · exact .reject _

theorem sites_postfixOf {node : Node} (hn : node.Within P) :
    Sites file P (postfixOf expression node) (Node.Within P) := by
  unfold postfixOf
  refine .repeating (I := Node.Within P) (fun node hn => ?_) hn
  have receiver : ∀ r ∈ some node, r.Within P := by rintro _ ⟨⟩; exact hn
  unfold postfixRound
  extract_lets finish
  have finished {form : Form} (h : form.Within P) :
      Sites file P (finish form) (Sites.Round (Node.Within P) (Node.Within P)) :=
    Sites.previousSpan.bind fun _ hf => .pure ⟨merges hn.span hf, h⟩
  have called (name : String) :
      Sites file P (do return .again (← call expression (some node) name) :
        Parser (Round Node Node)) (Sites.Round (Node.Within P) (Node.Within P)) :=
    (sites_call merges he name receiver).bind fun _ h => .pure h
  refine Sites.kind.bind fun k _ => ?_
  split
  · exact Sites.advance.bind fun _ _ => sites_calledName.bind fun name _ => called name
  · refine Sites.followingKind.bind fun k' _ => .ite ?_ (.pure hn)
    exact Sites.advance.bind fun _ _ => .pure hn
  · refine Sites.advance.bind fun _ _ => sites_scopedName.bind fun name _ => ?_
    refine Sites.atParenArgs.bind fun _ _ => .ite ?_ (called name)
    exact finished (.message receiver nofun)
  · refine Sites.spaceBefore.bind fun _ _ => .ite (.pure hn) ?_
    refine Sites.advance.bind fun _ _ => (sites_bracketedArgs he _).bind fun args ha => ?_
    exact finished (.message receiver ha)
  · exact .pure hn

/-! ## Operators -/

omit he in
theorem within_binary {left right : Node} (op : String) (hl : left.Within P)
    (hr : right.Within P) : (binary left op right).Within P :=
  ⟨merges hl.span hr.span,
    .message (by rintro _ ⟨⟩; exact hl) (List.forall_mem_singleton.mpr hr)⟩

omit he in
theorem within_applySigns {signs : List (String × Span)} (h : ∀ sign ∈ signs, P sign.2)
    {operand : Node} (ho : operand.Within P) : (applySigns signs operand).Within P := by
  induction signs generalizing operand with
  | nil => exact ho
  | cons sign signs ih =>
    rw [List.forall_mem_cons] at h
    exact ih h.2 ⟨merges h.1 ho.span, .message (by rintro _ ⟨⟩; exact ho) nofun⟩

theorem sites_unary : Sites file P (unary expression) (Node.Within P) := by
  unfold unary
  refine .repeating (I := fun signs => ∀ sign ∈ signs, P sign.2) (fun signs hsigns => ?_) nofun
  have signed {operand : Node} (h : operand.Within P) :
      Sites file P (do return .done (applySigns signs (← postfixOf expression operand)) :
        Parser (Round (List (String × Span)) Node))
        (Sites.Round (fun signs => ∀ sign ∈ signs, P sign.2) (Node.Within P)) :=
    (sites_postfixOf merges he h).bind fun _ hn => .pure (within_applySigns merges hsigns hn)
  refine Sites.currentSpan.bind fun start hs => Sites.kind.bind fun k _ => ?_
  split
  · refine Sites.advance.bind fun _ _ => Sites.kind.bind fun k' _ => ?_
    split
    · refine Sites.advance.bind fun _ _ => Sites.previousSpan.bind fun finish hf => ?_
      exact signed ⟨merges hs hf, .atom rfl nofun⟩
    · exact .pure (List.forall_mem_cons.mpr ⟨hs, hsigns⟩)
  · exact Sites.advance.bind fun _ _ => .pure (List.forall_mem_cons.mpr ⟨hs, hsigns⟩)
  · exact .unsupported hs
  · exact (sites_primary merges he).bind fun operand h => signed h

omit he in
theorem sites_leftGrouped {operand : Parser Node} (ops : List Punct)
    (ho : Sites file P operand (Node.Within P)) :
    Sites file P (leftGrouped ops operand) (Node.Within P) := by
  unfold leftGrouped
  refine ho.bind fun left hl => .repeating (I := Node.Within P) (fun left hl => ?_) hl
  refine Sites.kind.bind fun k _ => ?_
  split
  · next mark _ =>
    refine .ite ?_ (.pure hl)
    refine Sites.advance.bind fun _ _ => ho.bind fun right hr => ?_
    exact .pure (within_binary merges mark.text hl hr)
  · exact .pure hl

omit he in
theorem sites_foldl_leftGrouped (ranks : List (List Punct)) {operand : Parser Node}
    (ho : Sites file P operand (Node.Within P)) :
    Sites file P (ranks.foldl (fun operand ops => leftGrouped ops operand) operand)
      (Node.Within P) := by
  induction ranks generalizing operand with
  | nil => exact ho
  | cons ops ranks ih => exact ih (sites_leftGrouped merges ops ho)

theorem sites_logical : Sites file P (logical expression) (Node.Within P) := by
  unfold logical
  refine (sites_foldl_leftGrouped merges ranks (sites_unary merges he)).bind fun left hl => ?_
  exact Sites.kind.bind fun k _ => .ite .unsupportedHere (.pure hl)

/-! ## Assignment -/

theorem sites_assignTo {current : Node} {start : Span} (target : Target) (how : Assignment)
    (hc : current.Within P) (hs : P start) :
    Sites file P (assignTo expression target current how start) (Node.Within P) := by
  unfold assignTo
  refine Sites.skipNewlines.bind fun _ _ => he.bind fun right hr => ?_
  refine Sites.previousSpan.bind fun finish hf => .pure ⟨merges hs hf, .assign ?_⟩
  cases how with
  | plain => exact hr
  | compound op => exact within_binary merges op hc hr

omit merges he in
/-- A writer takes the receiver and the arguments of its reader. -/
theorem within_writer {form : Form} {receiver value : Node} {name : String} {args : List Node}
    (h : reader? form = some (receiver, name, args)) (hform : form.Within P)
    (hv : value.Within P) (writer : String) :
    (Form.message (some receiver) writer (args ++ [value])).Within P := by
  unfold reader? at h
  split at h
  · split at h
    · cases h
      obtain ⟨hr, ha⟩ : receiver.Within P ∧ Body.Within P args := by
        cases hform with
        | atom atom _ => cases atom
        | send hr ha _ => exact ⟨hr _ rfl, ha⟩
      have more : Body.Within P (args ++ [value]) :=
        List.forall_mem_append.mpr ⟨ha, List.forall_mem_singleton.mpr hv⟩
      exact .message (by rintro _ ⟨⟩; exact hr) more
    · cases h
  · cases h

theorem sites_assignExpression {start : Span} {left : Node} (how : Assignment) (hs : P start)
    (hl : left.Within P) :
    Sites file P (assignExpression expression start left how) (Node.Within P) := by
  unfold assignExpression
  refine Sites.currentSpan.bind fun opSpan hop => Sites.advance.bind fun _ _ => ?_
  split
  · exact sites_assignTo merges he _ how hl hs
  · split
    · next hr =>
      refine he.bind fun value hv => Sites.previousSpan.bind fun finish hf => ?_
      exact .pure ⟨merges hs hf, within_writer hr hl.inner hv _⟩
    · exact .ite (.unsupported hop) (.rejectAs hl.span)

theorem sites_assignment : Sites file P (assignment expression) (Node.Within P) := by
  unfold assignment
  refine Sites.currentSpan.bind fun start hs => ?_
  refine Sites.kind.bind fun k _ => Sites.followingKind.bind fun k' _ => ?_
  split
  · refine Sites.advance.bind fun _ _ => Sites.advance.bind fun _ _ => ?_
    refine (Sites.declare _).bind fun _ _ => ?_
    exact sites_assignTo merges he _ _ ⟨hs, .atom rfl nofun⟩ hs
  · refine (sites_logical merges he).bind fun left hl => Sites.kind.bind fun k _ => ?_
    split
    · exact sites_assignExpression merges he _ hs hl
    · exact .pure hl

end Expressions

/-! ## Programs -/

section Programs

variable (merges : Span.Merges P)

include merges

theorem sites_expression (levels : Nat) :
    Sites file P (Parse.expression levels) (Node.Within P) := by
  induction levels with
  | zero => exact Sites.currentSpan.bind fun _ h => .rejectAs h
  | succ levels ih => exact sites_assignment merges ih

/-- **Where the spans of a program come from.** Its nodes and its faults are where tokens are. -/
theorem sites_program : Sites file P program (Body.Within P) := by
  unfold program
  refine (sites_body merges (sites_expression merges _) _).bind fun statements h => ?_
  refine Sites.atEnd.bind fun _ _ => Sites.isFull.bind fun _ _ => ?_
  exact .ite ((Sites.unexpected _).bind fun _ _ => .pure h) (.pure h)

omit merges in
theorem sited_start (file : SourceFile) {tokens : List Token} (known : List String)
    (ht : ∀ t ∈ tokens, P t.span) (first : P (.point 1 1)) :
    Sited file P (.start file tokens known) := by
  refine ⟨rfl, ?_, fun t h => ht t (List.mem_of_mem_tail h), first, [], nofun, rfl⟩
  cases tokens with
  | nil => exact first
  | cons t tokens => exact ht t List.mem_cons_self

/-- The spans of what is read from tokens, and those of the diagnostics, are where tokens are. -/
theorem sites_ofTokens (file : SourceFile) {tokens : List Token} (known : List String)
    (ht : ∀ t ∈ tokens, P t.span) (first : P (.point 1 1)) :
    (∃ reports : List Report, (∀ r ∈ reports, P r.span)
        ∧ (ofTokens file tokens known).2 = Log.empty.pushAll (reports.map file.diagnose))
      ∧ ∀ body, (ofTokens file tokens known).1 = some body → Body.Within P body := by
  obtain ⟨sited, gives⟩ := sites_program merges _ (sited_start file known ht first)
  exact ⟨sited.log, gives⟩

end Programs

end Parse

end ScriptCompiler
