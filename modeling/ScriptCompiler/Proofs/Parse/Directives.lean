import ScriptCompiler.Proofs.Parse.Programs
import ScriptCompiler.Proofs.Syntax.Trees

/-!
# Calls that name directives

A statement that calls `require`, `require_relative` or `load` with one string is read as a
directive, whatever body it stands in. A call that is part of another expression stays a call,
unless parentheses or the words `begin` and `end` make a statement of it.
-/

namespace ScriptCompiler.Parse

/-! ## Results of parsers -/

/-- All results of the parser have a property. -/
def Gives {α : Type} (p : Parser α) (post : α → Prop) : Prop :=
  ∀ s a s', p.run s = (some a, s') → post a

namespace Gives

variable {α β : Type} {p : Parser α} {f : α → Parser β} {Q : α → Prop} {post : β → Prop}

theorem any : Gives p fun _ => True :=
  fun _ _ _ _ => trivial

theorem pure {b : β} (h : post b) : Gives (pure b) post := by
  rintro _ _ _ ⟨⟩
  exact h

theorem bind (hp : Gives p Q) (hf : ∀ a, Q a → Gives (f a) post) : Gives (p >>= f) post := by
  intro s b s' run
  rw [run_bind] at run
  rcases h : p.run s with ⟨_ | a, s₁⟩ <;> rw [h] at run
  · cases run
  · exact hf a (hp s a s₁ h) s₁ b s' run

theorem after (hf : ∀ a, Gives (f a) post) : Gives (p >>= f) post :=
  any.bind fun a _ => hf a

theorem failure : Gives (Alternative.failure (f := Parser) (α := β)) post :=
  fun _ _ _ run => by cases run

theorem unsupported {message suggestion : String} {span : Span} :
    Gives (Parse.unsupported message span suggestion) post :=
  fun _ _ _ run => by cases run

theorem ite {P : Prop} [Decidable P] {q r : Parser β} (hq : Gives q post) (hr : Gives r post) :
    Gives (if P then q else r) post := by
  split
  · exact hq
  · exact hr

theorem attempt (hp : Gives p Q) : Gives (Parse.attempt p) fun r => ∀ a, r = some a → Q a := by
  intro s r s' run a hr
  have run : (some (p.run s).1, (p.run s).2) = (some r, s') := run
  rcases h : p.run s with ⟨_ | a', s₁⟩ <;> rw [h] at run <;> cases run <;> cases hr
  exact hp s a s₁ h

theorem withDoBlocks {allowed : Bool} (hp : Gives p Q) :
    Gives (Parse.withDoBlocks allowed p) Q := by
  intro s a s' run
  have result : (p.run { s with doBlocks := allowed }).1 = some a := congrArg Prod.fst run
  exact hp _ a _ (Prod.ext result rfl)

theorem inScope {closed : Bool} (hp : Gives p Q) : Gives (Parse.inScope closed p) Q := by
  intro s a s' run
  have result : (p.run { s with scopes := ⟨[], closed⟩ :: s.scopes }).1 = some a :=
    congrArg Prod.fst run
  exact hp _ a _ (Prod.ext result rfl)

/-- What is known of the answer of a round. -/
def Round (Q : α → Prop) (post : β → Prop) : Parse.Round α β → Prop
  | .again a => Q a
  | .done b => post b

/-- What holds between two rounds holds of the result. -/
theorem repeating {round : α → Parser (Parse.Round α β)}
    (h : ∀ a, Q a → Gives (round a) (Gives.Round Q post)) {a : α} (ha : Q a) :
    Gives (Parse.repeating round a) post := by
  have rounds (fuel : Nat) (a : α) (ha : Q a) : Gives (Parse.rounds round fuel a) post := by
    induction fuel generalizing a with
    | zero => exact failure
    | succ fuel ih =>
      refine (h a ha).bind fun r hr => ?_
      cases r with
      | again a => exact ih a hr
      | done b => exact pure hr
  exact fun s => rounds _ a ha s

end Gives

/-! ## Statements -/

/-- The directive that a call with one string names. -/
def namedDirective? : Form → Option (DirectiveKind × String)
  | .send none name [⟨.str path, _⟩] none =>
    (DirectiveKind.all.find? (·.text = name)).map fun kind => (kind, path)
  | _ => none

theorem asDirective_eq (node : Node) :
    asDirective node =
      match namedDirective? node.form with
      | some (kind, path) => ⟨.directive kind path, node.span⟩
      | none => node := by
  unfold asDirective
  split
  · next name path span hf =>
    have named : namedDirective? (.send none name [⟨.str path, span⟩] none)
        = (DirectiveKind.all.find? (·.text = name)).map fun kind => (kind, path) := rfl
    rw [hf, named]
    cases DirectiveKind.all.find? (·.text = name) <;> rfl
  · next other =>
    have unnamed : namedDirective? node.form = none := by
      unfold namedDirective?
      split
      · next name path span hf => exact absurd hf (other name path span)
      · rfl
    rw [unnamed]

/-- The form is not a call that names a directive. -/
abbrev NoDirective (form : Form) : Prop :=
  namedDirective? form = none

/-- Forms that are built of forms with the property have it, if no statement in them is a call that
names a directive; and then their operands have it. -/
structure Kept (N : Form → Prop) : Prop where
  build : ∀ form : Form, (∀ child ∈ form.operands, N child.form) →
    (∀ body ∈ form.bodies, ∀ child ∈ body, NoDirective child.form ∧ N child.form) → N form
  operand : ∀ form, N form → ∀ child ∈ form.operands, N child.form

/-- The node is a statement: it is no call that names a directive, and has the property. -/
abbrev Stated (N : Form → Prop) (node : Node) : Prop :=
  NoDirective node.form ∧ N node.form

/-- All statements of the body are such nodes. -/
abbrev AllStated (N : Form → Prop) (body : Body) : Prop :=
  ∀ node ∈ body, Stated N node

variable {N : Form → Prop} {expression : Parser Node}

namespace Kept

variable (hN : Kept N)

include hN

/-- A form without bodies. -/
theorem plain {form : Form} (none_ : form.bodies = []) (h : ∀ child ∈ form.operands, N child.form) :
    N form :=
  hN.build form h (by simp [none_])

theorem send {receiver : Option Node} {name : String} {args : List Node} {block : Option Block}
    (hr : ∀ node ∈ receiver, N node.form) (ha : ∀ arg ∈ args, N arg.form)
    (hb : ∀ b ∈ block, AllStated N b.body) : N (.send receiver name args block) := by
  refine hN.build _ (fun child hc => ?_) fun body hm => ?_
  · rcases List.mem_append.mp hc with hc | hc
    · exact hr child (Option.mem_toList.mp hc)
    · exact ha child hc
  · obtain ⟨b, hm', rfl⟩ := Option.map_eq_some_iff.mp (Option.mem_toList.mp hm)
    exact hb b hm'

theorem message {receiver : Option Node} {name : String} {args : List Node}
    (hr : ∀ node ∈ receiver, N node.form) (ha : ∀ arg ∈ args, N arg.form) :
    N (.message receiver name args) :=
  hN.send hr ha nofun

theorem negate {condition : Node} (h : N condition.form) : N (Parse.negate condition).form :=
  hN.message (by rintro _ ⟨⟩; exact h) nofun

theorem conditional {branches : List Branch} {otherwise : Option Body}
    (hb : ∀ b ∈ branches, N b.condition.form ∧ AllStated N b.body)
    (ho : ∀ body ∈ otherwise, AllStated N body) : N (.conditional branches otherwise) := by
  refine hN.build _ ?_ ?_
  · intro child hc
    obtain ⟨b, hm, rfl⟩ := List.mem_map.mp hc
    exact (hb b hm).1
  · intro body hm
    rcases List.mem_append.mp hm with hm | hm
    · obtain ⟨b, hm', rfl⟩ := List.mem_map.mp hm
      exact (hb b hm').2
    · exact ho body (Option.mem_toList.mp hm)

theorem loop {kind : LoopKind} {condition : Node} {body : Body} (hc : N condition.form)
    (hb : AllStated N body) : N (.loop kind condition body) :=
  hN.build _ (List.forall_mem_singleton.mpr hc) (List.forall_mem_singleton.mpr hb)

theorem asDirective {node : Node} (h : N node.form) : Stated N (asDirective node) := by
  rw [asDirective_eq]
  split
  · exact ⟨rfl, hN.plain rfl nofun⟩
  · next unnamed => exact ⟨unnamed, h⟩

theorem apply (m : Modifier) {condition statement : Node} (hc : N condition.form)
    (hs : Stated N statement) : NoDirective (m.apply condition statement)
      ∧ N (m.apply condition statement) := by
  have body : AllStated N [statement] := List.forall_mem_singleton.mpr hs
  rcases m with _ | _ | kind
  · exact ⟨rfl, hN.conditional (List.forall_mem_singleton.mpr ⟨hc, body⟩) nofun⟩
  · exact ⟨rfl, hN.conditional (List.forall_mem_singleton.mpr ⟨hN.negate hc, body⟩) nofun⟩
  · exact ⟨rfl, hN.loop hc body⟩

theorem sequence {statements : Body} (h : AllStated N statements) :
    NoDirective (sequence statements) ∧ N (sequence statements) := by
  match statements, h with
  | [], _ => exact ⟨rfl, hN.plain rfl nofun⟩
  | [node], h => exact h node (List.mem_singleton_self node)
  | _ :: _ :: _, h =>
    refine ⟨rfl, hN.conditional (List.forall_mem_singleton.mpr ⟨hN.plain rfl nofun, h⟩) nofun⟩

end Kept

section Expressions

variable (hN : Kept N) (he : Gives expression fun node => N node.form)

include hN he

theorem gives_statement : Gives (statement expression) (Stated N) := by
  unfold statement
  refine .after fun start => he.bind fun first hfirst => ?_
  refine Gives.bind (Q := Stated N)
    (.repeating (Q := Stated N) (fun stmt h => .after fun k => ?_) (hN.asDirective hfirst))
    fun whole h => .after fun k => ?_
  · split
    · exact .pure h
    · next m _ =>
      refine .after fun _ => he.bind fun condition hc => .after fun finish => ?_
      exact .pure (hN.apply m hc h)
  · split
    · exact .after fun _ => .unsupported
    · exact .pure h

theorem gives_body (ends : List Token.Kind) : Gives (body expression ends) (AllStated N) := by
  refine .repeating (Q := AllStated N) (fun done h => ?_) nofun
  have reversed : AllStated N done.reverse := fun node hn => h node (List.mem_reverse.mp hn)
  unfold bodyRound
  refine .after fun _ => .after fun k => .ite (.pure reversed) ?_
  refine .after fun full => .ite (.pure reversed) ?_
  refine (gives_statement hN he).attempt.bind fun r hr => ?_
  cases r with
  | none => exact .after fun _ => .pure h
  | some stmt =>
    have more : AllStated N (stmt :: done) := List.forall_mem_cons.mpr ⟨hr stmt rfl, h⟩
    refine .after fun k => .ite (.pure more) ?_
    exact .after fun _ => .after fun _ => .pure more

/-! ## Calls -/

omit hN in
theorem gives_argument : Gives (argument expression) fun node => N node.form := by
  unfold argument
  refine .after fun k => ?_
  split
  · exact .after fun _ => .unsupported
  · exact .after fun _ => .unsupported
  · refine he.bind fun arg h => .after fun arrow => .ite ?_ (.pure h)
    exact .after fun _ => .unsupported

omit hN in
theorem gives_commandArgs :
    Gives (commandArgs expression) fun args => ∀ arg ∈ args, N arg.form := by
  refine .withDoBlocks (.repeating (Q := fun done : List Node => ∀ arg ∈ done, N arg.form)
    (fun done h => ?_) nofun)
  refine (gives_argument he).bind fun arg harg => ?_
  have more : ∀ a ∈ arg :: done, N a.form := List.forall_mem_cons.mpr ⟨harg, h⟩
  refine .after fun _ => .ite (.after fun _ => .pure more) ?_
  exact .pure fun a ha => more a (List.mem_reverse.mp ha)

omit hN in
theorem gives_bracketedArgs (close : Punct) :
    Gives (bracketedArgs expression close) fun args => ∀ arg ∈ args, N arg.form := by
  refine .withDoBlocks (.after fun _ => Gives.bind (Q := fun args : List Node =>
    ∀ arg ∈ args, N arg.form) (.repeating (Q := fun done : List Node => ∀ arg ∈ done, N arg.form)
      (fun done h => ?_) nofun) fun args h => .after fun _ => .after fun _ => .pure h)
  refine .after fun _ => .ite (.pure fun a ha => h a (List.mem_reverse.mp ha)) ?_
  refine (gives_argument he).bind fun arg harg => ?_
  have more : ∀ a ∈ arg :: done, N a.form := List.forall_mem_cons.mpr ⟨harg, h⟩
  refine .after fun _ => .after fun _ => .ite (.after fun _ => .pure more) ?_
  exact .pure fun a ha => more a (List.mem_reverse.mp ha)

theorem gives_blockRest (close : Token.Kind) :
    Gives (blockRest expression close) fun b => AllStated N b.body := by
  refine .withDoBlocks (.inScope (.after fun _ => .after fun bars => ?_))
  extract_lets jp jp'
  have rest (names : List Param) : Gives (jp names) fun b => AllStated N b.body :=
    (gives_body hN he _).bind fun _ h => .after fun _ => .pure h
  have bar (names : List Param) : Gives (jp' names) fun b => AllStated N b.body :=
    .after fun _ => rest names
  refine .ite (.after fun _ => .ite (bar _) (.after fun _ => bar _)) ?_
  exact .after fun _ => rest _

theorem gives_callBlock (command : Bool) : Gives (callBlock expression command) fun b =>
    ∀ block ∈ b, AllStated N block.body := by
  have some_ (close : Token.Kind) :
      Gives (blockRest expression close >>= fun b => Pure.pure (some b))
        fun b => ∀ block ∈ b, AllStated N block.body :=
    (gives_blockRest hN he close).bind fun b h => .pure (by rintro _ ⟨⟩; exact h)
  unfold callBlock
  refine .after fun _ => .ite (.after fun _ => some_ _) (.after fun _ => .after fun _ => ?_)
  exact .ite (.after fun _ => some_ _) (.pure nofun)

theorem gives_call {receiver : Option Node} (name : String) (hr : ∀ node ∈ receiver, N node.form) :
    Gives (call expression receiver name) fun node => N node.form := by
  unfold call
  extract_lets jp
  have rest (start : Span) : Gives (jp start) fun node => N node.form := by
    refine .after fun paren => .after fun command => ?_
    extract_lets jp'
    have block (args : Bool × List Node) (ha : ∀ arg ∈ args.2, N arg.form) :
        Gives (jp' args) fun node => N node.form := by
      refine (gives_callBlock hN he _).bind fun block hb => .after fun _ => ?_
      exact .pure (hN.send hr ha hb)
    refine .ite ?_ (.ite ?_ (block (false, []) nofun))
    · exact .after fun _ => (gives_bracketedArgs he _).bind fun args ha => block (false, args) ha
    · exact (gives_commandArgs he).bind fun args ha => block (true, args) ha
  cases receiver with
  | none => exact .after fun start => rest start
  | some node => exact rest node.span

/-! ## Definitions and control flow -/

theorem gives_rescueClause : Gives (rescueClause expression) fun r =>
    ∀ clause ∈ r, AllStated N clause.2 := by
  unfold rescueClause
  refine .after fun _ => .ite (.after fun k => ?_) (.pure nofun)
  extract_lets jp jp'
  have handled (variable_ : Option String) :
      Gives (jp variable_) fun r => ∀ clause ∈ r, AllStated N clause.2 := by
    refine (gives_body hN he _).bind fun handler h => .after fun again => .ite ?_ ?_
    · exact .after fun _ => .after fun _ => .pure (by rintro _ ⟨⟩; exact h)
    · exact .pure (by rintro _ ⟨⟩; exact h)
  have rest : Gives (jp' ()) fun r => ∀ clause ∈ r, AllStated N clause.2 :=
    .after fun _ => .ite (.after fun name => .after fun _ => handled (some name)) (handled none)
  split
  · exact .after fun _ => .after fun _ => rest
  · exact rest

theorem gives_rescueTail {protected_ : Body} (hp : AllStated N protected_) :
    Gives (rescueTail expression protected_) fun form => NoDirective form ∧ N form := by
  unfold rescueTail
  refine (gives_rescueClause hN he).bind fun clause hc => .after fun _ => .after fun _ => ?_
  extract_lets jp
  have rest (otherwise : Option Body) (ho : ∀ body ∈ otherwise, AllStated N body) :
      Gives (jp otherwise) fun form => NoDirective form ∧ N form := by
    refine .after fun ensured => ?_
    extract_lets jp'
    have finish : Gives (jp' ()) fun form => NoDirective form ∧ N form := by
      -- without a clause the body is the expression, and its only statement may be all of it
      rcases clause with _ | ⟨variable_, handler⟩
      · exact .ite (.after fun _ => .failure) (.pure (hN.sequence hp))
      · refine .pure ⟨rfl, hN.build _ nofun fun body hm => ?_⟩
        rcases List.mem_cons.mp hm with rfl | hm
        · exact hp
        rcases List.mem_cons.mp hm with rfl | hm
        · exact hc _ rfl
        · exact ho body (Option.mem_toList.mp hm)
    exact .ite (.after fun _ => .after fun _ => finish) finish
  refine .ite ?_ (rest none nofun)
  exact (gives_body hN he _).bind fun body h => rest (some body) (by rintro _ ⟨⟩; exact h)

theorem gives_beginBlock : Gives (beginBlock expression) (Stated N) := by
  unfold beginBlock
  refine .after fun start => .after fun _ => (gives_body hN he _).bind fun statements h => ?_
  refine (gives_rescueTail hN he h).bind fun form hform => .after fun _ => .after fun _ => ?_
  exact .pure hform

theorem gives_elseClause : Gives (elseClause expression) fun r => ∀ body ∈ r, AllStated N body := by
  unfold elseClause
  refine .after fun _ => .ite ?_ (.pure nofun)
  exact (gives_body hN he _).bind fun body h => .pure (by rintro _ ⟨⟩; exact h)

theorem gives_branch :
    Gives (branch expression) fun b => N b.condition.form ∧ AllStated N b.body := by
  unfold branch
  refine he.bind fun condition hc => .after fun _ => ?_
  exact (gives_body hN he _).bind fun statements h => .pure ⟨hc, h⟩

theorem gives_ifBlock : Gives (ifBlock expression) fun node => N node.form := by
  unfold ifBlock
  refine .after fun start => .after fun _ => (gives_branch hN he).bind fun first hfirst => ?_
  refine Gives.bind (Q := fun branches : List Branch =>
    ∀ b ∈ branches, N b.condition.form ∧ AllStated N b.body)
    (.repeating (Q := fun done : List Branch =>
      ∀ b ∈ done, N b.condition.form ∧ AllStated N b.body) (fun done h => ?_)
      (List.forall_mem_singleton.mpr hfirst)) fun branches hb => ?_
  · refine .after fun _ => .ite ?_ (.pure fun b hb => h b (List.mem_reverse.mp hb))
    exact (gives_branch hN he).bind fun b hb => .pure (List.forall_mem_cons.mpr ⟨hb, h⟩)
  · refine (gives_elseClause hN he).bind fun otherwise ho => .after fun _ => .after fun _ => ?_
    exact .pure (hN.conditional hb ho)

theorem gives_unlessBlock : Gives (unlessBlock expression) fun node => N node.form := by
  unfold unlessBlock
  refine .after fun start => .after fun _ => he.bind fun condition hc => .after fun _ => ?_
  refine (gives_body hN he _).bind fun statements h => ?_
  refine (gives_elseClause hN he).bind fun otherwise ho => .after fun _ => .after fun _ => .pure ?_
  exact hN.conditional (List.forall_mem_singleton.mpr ⟨hN.negate hc, h⟩) ho

theorem gives_loopBlock (loop : LoopKind) :
    Gives (loopBlock expression loop) fun node => N node.form := by
  unfold loopBlock
  refine .after fun start => .after fun _ => he.withDoBlocks.bind fun condition hc => ?_
  refine .after fun _ => (gives_body hN he _).bind fun statements h => .after fun _ => ?_
  exact .after fun _ => .pure (hN.loop hc h)

theorem gives_namespaceBody : Gives (namespaceBody expression) (AllStated N) := by
  unfold namespaceBody
  exact (gives_body hN he _).inScope.bind fun statements h => .after fun _ => .pure h

theorem gives_classBlock : Gives (classBlock expression) fun node => N node.form := by
  unfold classBlock
  refine .after fun start => .after fun _ => .after fun shift => ?_
  extract_lets jp
  have rest : Gives (jp ()) fun node => N node.form := by
    refine .after fun name => .after fun _ => .after fun less => ?_
    extract_lets jp'
    have named (superclass : Option String) : Gives (jp' superclass) fun node => N node.form := by
      refine (gives_namespaceBody hN he).bind fun statements h => .after fun _ => .pure ?_
      exact hN.build _ nofun (List.forall_mem_singleton.mpr h)
    exact .ite (.after fun superclass => .after fun _ => named (some superclass)) (named none)
  exact .ite (.after fun _ => .after fun _ => rest) rest

theorem gives_moduleBlock : Gives (moduleBlock expression) fun node => N node.form := by
  unfold moduleBlock
  refine .after fun start => .after fun _ => .after fun name => .after fun _ => ?_
  refine (gives_namespaceBody hN he).bind fun statements h => .after fun _ => .pure ?_
  exact hN.build _ nofun (List.forall_mem_singleton.mpr h)

theorem gives_methodRest (start : Span) (owner : Option String) (name : String) :
    Gives (methodRest expression start owner name) fun node => N node.form := by
  unfold methodRest
  refine .after fun params => (gives_body hN he _).bind fun statements h => ?_
  refine .after fun _ => .after fun _ => ?_
  extract_lets jp
  have rest {statements : Body} (h : AllStated N statements) :
      Gives (jp statements) fun node => N node.form :=
    .after fun _ => .after fun _ => .pure (hN.build _ nofun (List.forall_mem_singleton.mpr h))
  refine .ite ((gives_rescueTail hN he h).bind fun form hform => .after fun _ => ?_) (rest h)
  -- the protected body is the only statement of the method
  exact rest (List.forall_mem_singleton.mpr hform)

theorem gives_methodBlock : Gives (methodBlock expression) fun node => N node.form := by
  unfold methodBlock
  refine .after fun start => .after fun _ => .after fun k => .after fun k' => ?_
  extract_lets owner jp
  have rest : Gives (jp ()) fun node => N node.form :=
    .after fun name => (gives_methodRest hN he start owner name).inScope
  exact .ite (.after fun _ => .after fun _ => rest) rest

/-! ## Expressions -/

theorem gives_parenthesized : Gives (parenthesized expression) (Stated N) := by
  unfold parenthesized
  refine .after fun start => .after fun _ => Gives.bind (Q := Stated N) (.withDoBlocks ?_) ?_
  · exact .after fun _ => gives_statement hN he
  · exact fun inner h => .after fun _ => .after fun _ => .after fun _ => .pure h

omit he in
theorem Kept.simple {k : Token.Kind} {form : Form} (h : simple? k = some form) : N form := by
  cases k with
  | keyword word => cases word <;> cases h <;> exact hN.plain rfl nofun
  | _ => cases h <;> exact hN.plain rfl nofun

theorem gives_primary : Gives (primary expression) fun node => N node.form := by
  unfold primary
  refine .after fun start => ?_
  extract_lets finish
  have finished {form : Form} (h : N form) : Gives (finish form) fun node => N node.form :=
    .after fun _ => .pure h
  have called (name : String) : Gives (call expression none name) fun node => N node.form :=
    gives_call hN he name nofun
  refine .after fun k => ?_
  split
  · next form hform => exact .after fun _ => finished (hN.simple hform)
  split
  · refine .after fun _ => .after fun _ => .after fun _ => .ite ?_ (called _)
    exact finished (hN.plain rfl nofun)
  · exact .after fun _ => .after fun _ => .ite (called _) (finished (hN.message nofun nofun))
  · exact .after fun _ => called _
  · exact .after fun _ => called _
  · refine .after fun _ => (gives_bracketedArgs he _).bind fun args ha => ?_
    exact finished (hN.plain rfl ha)
  · exact fun s a s' run => (gives_parenthesized hN he s a s' run).2
  · exact gives_ifBlock hN he
  · exact gives_unlessBlock hN he
  · exact gives_loopBlock hN he _
  · exact gives_loopBlock hN he _
  · exact fun s a s' run => (gives_beginBlock hN he s a s' run).2
  · exact gives_classBlock hN he
  · exact gives_moduleBlock hN he
  · exact gives_methodBlock hN he
  · exact .unsupported
  · exact .unsupported
  · exact .after fun _ => .failure

theorem gives_postfixOf {node : Node} (h : N node.form) :
    Gives (postfixOf expression node) fun node => N node.form := by
  unfold postfixOf
  refine .repeating (Q := fun node : Node => N node.form) (fun node h => ?_) h
  have receiver : ∀ r ∈ some node, N r.form := by rintro _ ⟨⟩; exact h
  unfold postfixRound
  extract_lets finish
  let known : Round Node Node → Prop :=
    Gives.Round (fun node => N node.form) fun node => N node.form
  have finished {form : Form} (h : N form) : Gives (finish form) known :=
    .after fun _ => .pure h
  have called (name : String) : Gives (do return .again (← call expression (some node) name) :
      Parser (Round Node Node)) known :=
    (gives_call hN he name receiver).bind fun _ h => .pure h
  refine .after fun k => ?_
  split
  · exact .after fun _ => .after fun name => called name
  · exact .after fun _ => .ite (.after fun _ => .pure h) (.pure h)
  · refine .after fun _ => .after fun name => .after fun _ => .ite ?_ (called name)
    exact finished (hN.message receiver nofun)
  · refine .after fun _ => .ite (.pure h) (.after fun _ => ?_)
    exact (gives_bracketedArgs he _).bind fun args ha => finished (hN.message receiver ha)
  · exact .pure h

omit he in
theorem Kept.binary {left right : Node} (op : String) (hl : N left.form) (hr : N right.form) :
    N (Parse.binary left op right).form :=
  hN.message (by rintro _ ⟨⟩; exact hl) (List.forall_mem_singleton.mpr hr)

omit he in
theorem Kept.applySigns {signs : List (String × Span)} {operand : Node} (h : N operand.form) :
    N (Parse.applySigns signs operand).form := by
  induction signs generalizing operand with
  | nil => exact h
  | cons sign signs ih => exact ih (hN.message (by rintro _ ⟨⟩; exact h) nofun)

theorem gives_unary : Gives (unary expression) fun node => N node.form := by
  unfold unary
  refine .repeating (Q := fun _ => True) (fun signs _ => ?_) trivial
  have signed {operand : Node} (h : N operand.form) :
      Gives (do return .done (applySigns signs (← postfixOf expression operand)) :
        Parser (Round (List (String × Span)) Node))
        (Gives.Round (fun _ => True) fun node => N node.form) :=
    (gives_postfixOf hN he h).bind fun _ h => .pure (hN.applySigns h)
  refine .after fun start => .after fun k => ?_
  split
  · refine .after fun _ => .after fun k' => ?_
    split
    · exact .after fun _ => .after fun _ => signed (hN.plain rfl nofun)
    · exact .pure trivial
  · exact .after fun _ => .pure trivial
  · exact .unsupported
  · exact (gives_primary hN he).bind fun operand h => signed h

omit he in
theorem gives_leftGrouped {operand : Parser Node} (ops : List Punct)
    (ho : Gives operand fun node => N node.form) :
    Gives (leftGrouped ops operand) fun node => N node.form := by
  unfold leftGrouped
  refine ho.bind fun left hl => .repeating (Q := fun node : Node => N node.form) ?_ hl
  refine fun left hl => .after fun k => ?_
  split
  · refine .ite (.after fun _ => ho.bind fun right hr => ?_) (.pure hl)
    exact .pure (hN.binary _ hl hr)
  · exact .pure hl

omit he in
theorem gives_foldl_leftGrouped (ranks : List (List Punct)) {operand : Parser Node}
    (ho : Gives operand fun node => N node.form) :
    Gives (ranks.foldl (fun operand ops => leftGrouped ops operand) operand)
      fun node => N node.form := by
  induction ranks generalizing operand with
  | nil => exact ho
  | cons ops ranks ih => exact ih (gives_leftGrouped hN ops ho)

theorem gives_logical : Gives (logical expression) fun node => N node.form := by
  unfold logical
  refine (gives_foldl_leftGrouped hN ranks (gives_unary hN he)).bind fun left hl => ?_
  exact .after fun _ => .ite (.after fun _ => .unsupported) (.pure hl)

theorem gives_assignTo {current : Node} (target : Target) (how : Assignment) (start : Span)
    (hc : N current.form) :
    Gives (assignTo expression target current how start) fun node => N node.form := by
  unfold assignTo
  refine .after fun _ => he.bind fun right hr => .after fun _ => .pure (hN.plain rfl ?_)
  refine List.forall_mem_singleton.mpr ?_
  cases how with
  | plain => exact hr
  | compound op => exact hN.binary op hc hr

omit he in
/-- A writer takes the receiver and the arguments of its reader. -/
theorem Kept.writer {form : Form} {receiver value : Node} {name : String} {args : List Node}
    (h : reader? form = some (receiver, name, args)) (hform : N form) (hv : N value.form)
    (writer : String) : N (.message (some receiver) writer (args ++ [value])) := by
  unfold reader? at h
  split at h
  · split at h
    · cases h
      have operands := hN.operand _ hform
      refine hN.message (fun r hr => operands r ?_) (List.forall_mem_append.mpr ⟨?_, ?_⟩)
      · cases hr
        exact List.mem_cons_self
      · exact fun a ha => operands a (List.mem_append_right _ ha)
      · exact List.forall_mem_singleton.mpr hv
    · cases h
  · cases h

theorem gives_assignExpression {start : Span} {left : Node} (how : Assignment)
    (hl : N left.form) :
    Gives (assignExpression expression start left how) fun node => N node.form := by
  unfold assignExpression
  refine .after fun opSpan => .after fun _ => ?_
  split
  · exact gives_assignTo hN he _ how start hl
  · split
    · next hr => exact he.bind fun value hv => .after fun _ => .pure (hN.writer hr hl hv _)
    · exact .ite .unsupported (.after fun _ => .failure)

theorem gives_assignment : Gives (assignment expression) fun node => N node.form := by
  unfold assignment
  refine .after fun start => .after fun k => .after fun k' => ?_
  split
  · refine .after fun _ => .after fun _ => .after fun _ => ?_
    exact gives_assignTo hN he _ _ start (hN.plain rfl nofun)
  · refine (gives_logical hN he).bind fun left hl => .after fun k => ?_
    split
    · exact gives_assignExpression hN he _ hl
    · exact .pure hl

end Expressions

/-- Expressions keep what the grammar keeps. -/
theorem gives_expression (hN : Kept N) (levels : Nat) :
    Gives (Parse.expression levels) fun node => N node.form := by
  induction levels with
  | zero => exact .after fun _ => .after fun _ => .failure
  | succ levels ih => exact gives_assignment hN ih

theorem gives_program (hN : Kept N) : Gives program (AllStated N) := by
  unfold program
  refine (gives_body hN (gives_expression hN _) _).bind fun statements h => ?_
  refine .after fun _ => .after fun _ => ?_
  exact .ite (.after fun _ => .pure h) (.pure h)

/-! ## Programs -/

/-- No statement of a body in the form, at any depth, is a call that names a directive. -/
inductive Converted : Form → Prop
  | build {form : Form} (operands : ∀ child ∈ form.operands, Converted child.form)
      (statements : ∀ body ∈ form.bodies, ∀ child ∈ body, NoDirective child.form)
      (inner : ∀ body ∈ form.bodies, ∀ child ∈ body, Converted child.form) : Converted form

theorem kept_converted : Kept Converted where
  build _ ho hb :=
    .build ho (fun body hm child hc => (hb body hm child hc).1)
      fun body hm child hc => (hb body hm child hc).2
  operand _ h := by
    cases h
    assumption

theorem Converted.inside {node inner : Node} (h : Converted node.form)
    (inside : inner.Inside node) : Converted inner.form := by
  induction inside with
  | refl => exact h
  | tail _ holds ih =>
    cases ih with
    | build operands _ bodies =>
      rcases Form.holds_cases holds with hc | ⟨body, hm, hc⟩
      · exact operands _ hc
      · exact bodies body hm _ hc

/-- The node of a statement's expression, as a directive if it names one, is in the statement, under
its modifiers. -/
theorem inside_statement {s s₁ s' : State} {first node : Node}
    (read : expression.run s = (some first, s₁))
    (run : (statement expression).run s = (some node, s')) : (asDirective first).Inside node := by
  unfold statement at run
  rw [run_currentSpan, run_bind, read] at run
  refine (?_ : Gives _ (asDirective first).Inside) s₁ node s' run
  refine .bind (Q := (asDirective first).Inside) (.repeating (Q := (asDirective first).Inside)
    (fun stmt h => .after fun k => ?_) (.refl _)) fun whole h => .after fun k => ?_
  · split
    · exact .pure h
    · next m _ =>
      refine .after fun _ => .after fun condition => .after fun _ => .pure (h.held ?_)
      rcases m with _ | _ | kind
      · exact .branchBody List.mem_cons_self List.mem_cons_self
      · exact .branchBody List.mem_cons_self List.mem_cons_self
      · exact .loopBody List.mem_cons_self
  · split
    · exact .after fun _ => .unsupported
    · exact .pure h

/-- The directives that are named by calls among the operands of the statements. -/
def operandCalls (program : Body) : List (DirectiveKind × String) :=
  program.flatMap fun node => node.form.operands.filterMap fun child => namedDirective? child.form

theorem exists_of_mem_operandCalls {program : Body} {named : DirectiveKind × String}
    (h : named ∈ operandCalls program) :
    ∃ node, program.Contains node ∧ namedDirective? node.form = some named := by
  obtain ⟨outer, hm, h⟩ := List.mem_flatMap.mp h
  obtain ⟨child, hc, h⟩ := List.mem_filterMap.mp h
  exact ⟨child, ⟨outer, hm, .single (Form.holds_of_mem_operands hc)⟩, h⟩

/-- **Calls that name directives.** In a program that was parsed, no statement is such a call, in
whichever body it stands; one that is left in it is an operand. Nothing that is read from
parentheses or from `begin` to `end` is such a call, and where the expression of a statement is one,
the directive of this kind and path stands in the statement. -/
theorem directives_of_parse {fileName source : String} {known : List String} {program : Body}
    (h : parse fileName source known = .ok program) :
    (∀ body, program.Nests body → ∀ node ∈ body, NoDirective node.form)
      ∧ (∀ node, program.Contains node → ¬ NoDirective node.form →
        ∃ outer, program.Contains outer ∧ node ∈ outer.form.operands)
      ∧ ∀ levels,
        Gives (parenthesized (Parse.expression levels)) (fun node => NoDirective node.form)
        ∧ Gives (beginBlock (Parse.expression levels)) (fun node => NoDirective node.form)
        ∧ ∀ s first s₁ node s' kind path, (Parse.expression levels).run s = (some first, s₁) →
          namedDirective? first.form = some (kind, path) →
          (statement (Parse.expression levels)).run s = (some node, s') →
          Node.Inside ⟨.directive kind path, first.span⟩ node := by
  obtain ⟨s', run, -⟩ := run_program_of_parse h
  have stated : AllStated Converted program := gives_program kept_converted _ _ _ run
  have bodies : ∀ body, program.Nests body → ∀ node ∈ body, NoDirective node.form := by
    rintro body (rfl | ⟨outer, ⟨top, hm, inside⟩, hb⟩) node hn
    · exact (stated node hn).1
    · cases (stated top hm).2.inside inside with
      | build _ statements _ => exact statements body hb node hn
  refine ⟨bodies, fun node hn named => ?_, fun levels => ?_⟩
  · rcases hn.cases with ⟨body, hb, hm⟩ | operand
    · exact absurd (bodies body hb node hm) named
    · exact operand
  · have he := gives_expression kept_converted levels
    refine ⟨fun s a s' run => (gives_parenthesized kept_converted he s a s' run).1,
      fun s a s' run => (gives_beginBlock kept_converted he s a s' run).1, ?_⟩
    intro s first s₁ node s' kind path read named run
    have inside := inside_statement read run
    rw [asDirective_eq, named] at inside
    exact inside

/-- Calls that name directives, at each place that a form has for an operand. -/
def operandText : String :=
  "x = require \"a\"\n[load \"b\"]\nputs require \"c\"\nrequire(\"d\").run\n" ++
    "if require_relative \"e\"\n  load \"f\"\nend\nwhile load \"g\"\nend\n"

theorem directives_of_parse_operandText :
    ∃ program, parse "main.rb" operandText [] = .ok program
      ∧ operandCalls program = [(.require, "a"), (.load, "b"), (.require, "c"), (.require, "d"),
        (.requireRelative, "e"), (.load, "g")]
      ∧ (∀ body, program.Nests body → ∀ node ∈ body, NoDirective node.form)
      ∧ (∀ node, program.Contains node → ¬ NoDirective node.form →
        ∃ outer, program.Contains outer ∧ node ∈ outer.form.operands) := by
  have calls : (parse "main.rb" operandText []).toOption.map operandCalls
      = some [(.require, "a"), (.load, "b"), (.require, "c"), (.require, "d"),
        (.requireRelative, "e"), (.load, "g")] := by
    decide +kernel
  cases h : parse "main.rb" operandText [] with
  | error failure =>
    rw [h] at calls
    cases calls
  | ok program =>
    rw [h] at calls
    obtain ⟨bodies, operands, -⟩ := directives_of_parse h
    exact ⟨program, rfl, Option.some.inj calls, bodies, operands⟩

/-- A file that is required where a variable is assigned. -/
def assignedText : String :=
  "x = require \"a\""

/-- The call is left in the program. -/
theorem call_left_assignedText :
    ∃ program, parse "main.rb" assignedText [] = .ok program
      ∧ ¬ ∀ node, program.Contains node → NoDirective node.form := by
  have calls : (parse "main.rb" assignedText []).toOption.map operandCalls
      = some [(.require, "a")] := by
    decide +kernel
  cases h : parse "main.rb" assignedText [] with
  | error failure =>
    rw [h] at calls
    cases calls
  | ok program =>
    rw [h] at calls
    have left : (.require, "a") ∈ operandCalls program := by
      rw [Option.some.inj calls]
      exact List.mem_singleton_self _
    obtain ⟨node, hn, named⟩ := exists_of_mem_operandCalls left
    refine ⟨program, rfl, fun all => ?_⟩
    rw [all node hn] at named
    cases named

end ScriptCompiler.Parse
