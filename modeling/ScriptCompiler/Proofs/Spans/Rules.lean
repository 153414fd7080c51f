import ScriptCompiler.Proofs.Parse.Outcome
import ScriptCompiler.Proofs.Syntax.Trees

/-!
# Where spans come from

A parser makes spans only by merging the spans of tokens. So what merging keeps, and what holds of
the span of every token, holds of the spans of the nodes that are parsed and of the faults that are
reported, and the log is what the reports add up to. The nodes themselves are of the forms that the
grammar builds, which no unknown kind is. The rules follow the steps that a parser is made of; they
ask nothing of the state but this.
-/

namespace ScriptCompiler

/-- Spans with the property are merged to a span with the property. -/
def Span.Merges (P : Span → Prop) : Prop :=
  ∀ {a b : Span}, P a → P b → P (a.merge b)

variable {P : Span → Prop}

/-! ## What the grammar builds -/

mutual

/-- The grammar builds such a node, and its span has the property. -/
inductive Node.Within (P : Span → Prop) : Node → Prop
  | mk {node : Node} (span : P node.span) (inner : Form.Within P node.form) : Node.Within P node

/-- The grammar builds such a form of nodes whose spans have the property. The condition of a
sequence is none of them, as it is not read from the text. -/
inductive Form.Within (P : Span → Prop) : Form → Prop
  | atom {form : Form} (h : form.isAtom = true) (known : form ≠ .unknown) : Form.Within P form
  | directive {kind : DirectiveKind} {path : String} : Form.Within P (.directive kind path)
  | array {elements : List Node} (h : ∀ node ∈ elements, Node.Within P node) :
      Form.Within P (.array elements)
  | assign {target : Target} {value : Node} (h : Node.Within P value) :
      Form.Within P (.assign target value)
  | classDef {name : String} {superclass : Option String} {body : Body}
      (h : ∀ node ∈ body, Node.Within P node) : Form.Within P (.classDef name superclass body)
  | moduleDef {name : String} {body : Body} (h : ∀ node ∈ body, Node.Within P node) :
      Form.Within P (.moduleDef name body)
  | methodDef {owner : Option String} {name : String} {params : List Param} {body : Body}
      (h : ∀ node ∈ body, Node.Within P node) : Form.Within P (.methodDef owner name params body)
  | send {receiver : Option Node} {name : String} {args : List Node} {block : Option Block}
      (hr : ∀ node ∈ receiver, Node.Within P node) (ha : ∀ node ∈ args, Node.Within P node)
      (hb : ∀ b ∈ block, ∀ node ∈ b.body, Node.Within P node) :
      Form.Within P (.send receiver name args block)
  | conditional {branches : List Branch} {otherwise : Option Body}
      (hb : ∀ branch ∈ branches, Branch.Within P branch)
      (ho : ∀ body ∈ otherwise, ∀ node ∈ body, Node.Within P node) :
      Form.Within P (.conditional branches otherwise)
  | sequence {statements : Body} (h : ∀ node ∈ statements, Node.Within P node) :
      Form.Within P (.conditional [⟨.synthetic (.localVar "true"), statements⟩] none)
  | loop {kind : LoopKind} {condition : Node} {body : Body} (hc : Node.Within P condition)
      (hb : ∀ node ∈ body, Node.Within P node) : Form.Within P (.loop kind condition body)
  | rescue {body handler : Body} {variable_ : Option String} {otherwise : Option Body}
      (hb : ∀ node ∈ body, Node.Within P node) (hh : ∀ node ∈ handler, Node.Within P node)
      (ho : ∀ body ∈ otherwise, ∀ node ∈ body, Node.Within P node) :
      Form.Within P (.rescue body variable_ handler otherwise)

/-- The nodes of a branch are built by the grammar, of spans with the property. -/
inductive Branch.Within (P : Span → Prop) : Branch → Prop
  | mk {branch : Branch} (condition : Node.Within P branch.condition)
      (body : ∀ node ∈ branch.body, Node.Within P node) : Branch.Within P branch

end

/-- The grammar builds such nodes, of spans with the property. -/
abbrev Body.Within (P : Span → Prop) (body : Body) : Prop :=
  ∀ node ∈ body, node.Within P

theorem Node.Within.span {node : Node} (h : node.Within P) : P node.span := by
  cases h
  assumption

theorem Node.Within.inner {node : Node} (h : node.Within P) : node.form.Within P := by
  cases h
  assumption

/-- A message without a block. -/
theorem Form.Within.message {receiver : Option Node} {name : String} {args : List Node}
    (hr : ∀ node ∈ receiver, node.Within P) (ha : Body.Within P args) :
    (Form.message receiver name args).Within P :=
  .send hr ha nofun

/-! ## Their spans -/

theorem Spans.ofForm_of_isAtom {form : Form} (h : form.isAtom = true) : ofForm form = [] := by
  cases form <;> simp_all [Form.isAtom, ofForm]

mutual

theorem Node.Within.ofNode {node : Node} (h : node.Within P) :
    ∀ s ∈ Spans.ofNode node, P s ∨ s = .synthetic := by
  match h with
  | .mk span inner =>
    rw [Spans.ofNode_eq, List.forall_mem_cons]
    exact ⟨.inl span, inner.ofForm⟩
termination_by structural h

/-- The spans inside a node have the property, unless they belong to nodes that were built. -/
theorem Form.Within.ofForm {form : Form} (h : form.Within P) :
    ∀ s ∈ Spans.ofForm form, P s ∨ s = .synthetic := by
  match h with
  | .atom atom _ =>
    rw [Spans.ofForm_of_isAtom atom]
    nofun
  | .directive =>
    rw [Spans.ofForm]
    nofun
  | .array h =>
    rw [Spans.ofForm]
    exact Spans.forall_ofNodes fun node hn => (h node hn).ofNode
  | .assign h =>
    rw [Spans.ofForm]
    exact h.ofNode
  | .classDef h =>
    rw [Spans.ofForm]
    exact Spans.forall_ofNodes fun node hn => (h node hn).ofNode
  | .moduleDef h =>
    rw [Spans.ofForm]
    exact Spans.forall_ofNodes fun node hn => (h node hn).ofNode
  | .methodDef h =>
    rw [Spans.ofForm]
    exact Spans.forall_ofNodes fun node hn => (h node hn).ofNode
  | .send hr ha hb =>
    simp only [Spans.ofForm, List.forall_mem_append]
    refine ⟨⟨Spans.forall_ofReceiver fun node hn => (hr node hn).ofNode, ?_⟩, ?_⟩
    · exact Spans.forall_ofNodes fun node hn => (ha node hn).ofNode
    · exact Spans.forall_ofBlock fun b hb' node hn => (hb b hb' node hn).ofNode
  | .conditional hb ho =>
    simp only [Spans.ofForm, List.forall_mem_append]
    refine ⟨Spans.forall_ofBranches fun branch hn => (hb branch hn).ofBranch, ?_⟩
    exact Spans.forall_ofOptional fun body hb' node hn => (ho body hb' node hn).ofNode
  | .sequence h =>
    have inner := Spans.forall_ofNodes fun node hn => (h node hn).ofNode
    have always : ∀ s ∈ Spans.ofNode (.synthetic (.localVar "true")), P s ∨ s = .synthetic :=
      fun s hs => .inr (List.mem_singleton.mp hs)
    simp only [Spans.ofForm, Spans.ofBranches, Spans.ofOptional, List.append_nil,
      List.forall_mem_append]
    exact ⟨always, inner⟩
  | .loop hc hb =>
    simp only [Spans.ofForm, List.forall_mem_append]
    exact ⟨hc.ofNode, Spans.forall_ofNodes fun node hn => (hb node hn).ofNode⟩
  | .rescue hb hh ho =>
    simp only [Spans.ofForm, List.forall_mem_append]
    refine ⟨⟨Spans.forall_ofNodes fun node hn => (hb node hn).ofNode, ?_⟩, ?_⟩
    · exact Spans.forall_ofNodes fun node hn => (hh node hn).ofNode
    · exact Spans.forall_ofOptional fun body hb' node hn => (ho body hb' node hn).ofNode
termination_by structural h

theorem Branch.Within.ofBranch {branch : Branch} (h : branch.Within P) :
    (∀ s ∈ Spans.ofNode branch.condition, P s ∨ s = .synthetic)
      ∧ ∀ node ∈ branch.body, ∀ s ∈ Spans.ofNode node, P s ∨ s = .synthetic := by
  match h with
  | .mk condition body => exact ⟨condition.ofNode, fun node hn => (body node hn).ofNode⟩
termination_by structural h

end

theorem Body.Within.ofNodes {body : Body} (h : body.Within P) :
    ∀ s ∈ Spans.ofNodes body, P s ∨ s = .synthetic :=
  Spans.forall_ofNodes fun node hn => (h node hn).ofNode

namespace Parse

variable {file : SourceFile}

/-- The spans at hand have the property: those of the tokens, and those of the reports that the log
is made of. -/
structure Sited (file : SourceFile) (P : Span → Prop) (s : State) : Prop where
  file_eq : s.file = file
  current : P s.current.span
  rest : ∀ t ∈ s.rest, P t.span
  previous : P s.previous
  log : ∃ reports : List Report,
    (∀ r ∈ reports, P r.span) ∧ s.log = Log.empty.pushAll (reports.map file.diagnose)

theorem Sited.next {s : State} (h : Sited file P s) : Sited file P s.next := by
  unfold State.next
  split
  · exact h
  · next t rest hr =>
    have tokens := h.rest
    rw [hr, List.forall_mem_cons] at tokens
    exact ⟨h.file_eq, tokens.1, tokens.2, h.current, h.log⟩

theorem Sited.bind {s : State} (h : Sited file P s) (name : String) :
    Sited file P (s.bind name) := by
  unfold State.bind
  split
  · exact h
  · exact ⟨h.file_eq, h.current, h.rest, h.previous, h.log⟩

theorem Sited.report {s : State} (h : Sited file P s) {r : Report} (hr : P r.span) :
    Sited file P (s.report r) := by
  obtain ⟨reports, all, log⟩ := h.log
  refine ⟨h.file_eq, h.current, h.rest, h.previous, reports ++ [r], ?_, ?_⟩
  · rw [List.forall_mem_append, List.forall_mem_singleton]
    exact ⟨all, hr⟩
  · simp [State.report, log, h.file_eq, Log.pushAll]

/-- Wherever the spans at hand have the property, they have it after the parser, and a result that
it gives satisfies the postcondition. -/
def Sites {α : Type} (file : SourceFile) (P : Span → Prop) (p : Parser α) (post : α → Prop) :
    Prop :=
  ∀ s, Sited file P s → Sited file P (p.run s).2 ∧ ∀ a, (p.run s).1 = some a → post a

/-- Nothing is known of a result. -/
abbrev Any {α : Type} (_ : α) : Prop :=
  True

namespace Sites

variable {α β : Type} {p q : Parser α} {f : α → Parser β} {Q post : α → Prop} {post' : β → Prop}

/-! ## Results and sequences -/

theorem mono (h : Sites file P p Q) (hp : ∀ a, Q a → post a) : Sites file P p post :=
  fun s hs => ⟨(h s hs).1, fun a ha => hp a ((h s hs).2 a ha)⟩

theorem any (h : Sites file P p Q) : Sites file P p Any :=
  h.mono fun _ _ => trivial

theorem pure {a : α} (h : post a) : Sites file P (Pure.pure a) post := by
  intro s hs
  refine ⟨hs, ?_⟩
  rintro _ ⟨⟩
  exact h

theorem failure : Sites file P failure post :=
  fun _ hs => ⟨hs, nofun⟩

theorem bind (hp : Sites file P p Q) (hf : ∀ a, Q a → Sites file P (f a) post') :
    Sites file P (p >>= f) post' := by
  intro s hs
  obtain ⟨sited, gives⟩ := hp s hs
  rw [run_bind]
  rcases h : p.run s with ⟨_ | a, s'⟩ <;> rw [h] at sited gives
  · exact ⟨sited, nofun⟩
  · exact hf a (gives a rfl) s' sited

theorem ite {c : Prop} [Decidable c] (yes : Sites file P p post) (no : Sites file P q post) :
    Sites file P (if c then p else q) post := by
  split
  · exact yes
  · exact no

/-! ## Looking -/

/-- A parser that only looks. -/
theorem looks (h : ∀ s, ∃ a, p.run s = (some a, s)) : Sites file P p Any := by
  intro s hs
  obtain ⟨a, run⟩ := h s
  rw [run]
  exact ⟨hs, fun _ _ => trivial⟩

theorem kind : Sites file P Parse.kind Any :=
  looks fun _ => ⟨_, rfl⟩

theorem followingKind : Sites file P Parse.followingKind Any :=
  looks fun _ => ⟨_, rfl⟩

theorem spaceBefore : Sites file P Parse.spaceBefore Any :=
  looks fun _ => ⟨_, rfl⟩

theorem isFull : Sites file P Parse.isFull Any :=
  looks fun _ => ⟨_, rfl⟩

theorem isLocal (name : String) : Sites file P (Parse.isLocal name) Any :=
  looks fun _ => ⟨_, rfl⟩

theorem get : Sites file P MonadState.get Any :=
  looks fun _ => ⟨_, rfl⟩

theorem at_ (k : Token.Kind) : Sites file P (Parse.at_ k) Any :=
  looks fun _ => ⟨_, rfl⟩

theorem atEnd : Sites file P Parse.atEnd Any :=
  at_ _

theorem atParenArgs : Sites file P Parse.atParenArgs Any :=
  looks fun _ => ⟨_, rfl⟩

theorem startsCommandArgs : Sites file P Parse.startsCommandArgs Any :=
  looks Goes.run_startsCommandArgs

theorem currentSpan : Sites file P Parse.currentSpan P := by
  intro s hs
  refine ⟨hs, ?_⟩
  rintro _ ⟨⟩
  exact hs.current

theorem previousSpan : Sites file P Parse.previousSpan P := by
  intro s hs
  refine ⟨hs, ?_⟩
  rintro _ ⟨⟩
  exact hs.previous

/-! ## Moving -/

theorem advance : Sites file P Parse.advance Any :=
  fun _ hs => ⟨hs.next, fun _ _ => trivial⟩

theorem eat (k : Token.Kind) : Sites file P (Parse.eat k) Any :=
  (at_ k).bind fun _ _ => ite (advance.bind fun _ _ => pure trivial) (pure trivial)

theorem declare (name : String) : Sites file P (Parse.declare name) Any :=
  fun _ hs => ⟨hs.bind name, fun _ _ => trivial⟩

/-! ## Reporting -/

theorem report {code : Code} {message : String} {span : Span} (h : P span) :
    Sites file P (Parse.report code message span) Any :=
  fun _ hs => ⟨hs.report h, fun _ _ => trivial⟩

theorem unsupported {message suggestion : String} {span : Span} (h : P span) :
    Sites file P (Parse.unsupported message span suggestion) post :=
  fun _ hs => ⟨hs.report h, nofun⟩

/-- A construct that the compiler does not take starts with the current token. -/
theorem unsupportedHere {message suggestion : String} :
    Sites file P (Parse.currentSpan >>= fun span => Parse.unsupported message span suggestion)
      post :=
  currentSpan.bind fun _ h => unsupported h

/-- Nothing comes after a construct that the compiler does not take. -/
theorem unsupportedThen {message suggestion : String} {f : α → Parser β} :
    Sites file P
      (Parse.currentSpan >>= fun span => Parse.unsupported message span suggestion >>= f) post' :=
  currentSpan.bind fun _ h => bind (Q := fun _ => False) (unsupported h) fun _ => False.elim

theorem rejectAs {code : Code} {message : String} {span : Span} (h : P span) :
    Sites file P
      (Parse.report code message span >>= fun _ => Alternative.failure (f := Parser)) post :=
  (report h).bind fun _ _ => failure

theorem unexpected (expected : String) : Sites file P (Parse.unexpected expected) Any :=
  kind.bind fun _ _ =>
    ite (currentSpan.bind fun _ h => report h) (currentSpan.bind fun _ h => report h)

theorem reject (expected : String) :
    Sites file P (Parse.unexpected expected >>= fun _ => Alternative.failure (f := Parser)) post :=
  (unexpected expected).bind fun _ _ => failure

/-! ## Tokens that must come -/

theorem expect (k : Token.Kind) : Sites file P (Parse.expect k) Any :=
  (at_ k).bind fun _ _ => ite advance (reject _)

theorem expectIdentifier : Sites file P Parse.expectIdentifier Any := by
  unfold Parse.expectIdentifier
  refine kind.bind fun _ _ => ?_
  split
  · exact advance.bind fun _ _ => pure trivial
  · exact reject _

theorem expectConstant : Sites file P Parse.expectConstant Any := by
  unfold Parse.expectConstant
  refine kind.bind fun _ _ => ?_
  split
  · exact advance.bind fun _ _ => pure trivial
  · exact reject _

/-! ## Control -/

theorem attempt (h : Sites file P p Q) :
    Sites file P (Parse.attempt p) fun r => ∀ a, r = some a → Q a := by
  intro s hs
  obtain ⟨sited, gives⟩ := h s hs
  refine ⟨sited, ?_⟩
  rintro _ ⟨⟩
  exact gives

theorem withDoBlocks {allowed : Bool} (h : Sites file P p post) :
    Sites file P (Parse.withDoBlocks allowed p) post := by
  intro s hs
  obtain ⟨sited, gives⟩ := h { s with doBlocks := allowed } ⟨hs.1, hs.2, hs.3, hs.4, hs.5⟩
  exact ⟨⟨sited.1, sited.2, sited.3, sited.4, sited.5⟩, gives⟩

theorem inScope {closed : Bool} (h : Sites file P p post) :
    Sites file P (Parse.inScope closed p) post := by
  intro s hs
  obtain ⟨sited, gives⟩ :=
    h { s with scopes := ⟨[], closed⟩ :: s.scopes } ⟨hs.1, hs.2, hs.3, hs.4, hs.5⟩
  exact ⟨⟨sited.1, sited.2, sited.3, sited.4, sited.5⟩, gives⟩

/-! ## Repetition -/

/-- What is known of the result of a round. -/
def Round (I : α → Prop) (post : β → Prop) : Parse.Round α β → Prop
  | .again a => I a
  | .done b => post b

theorem rounds {round : α → Parser (Parse.Round α β)} {I : α → Prop}
    (h : ∀ a, I a → Sites file P (round a) (Round I post')) (fuel : Nat) {a : α} (ha : I a) :
    Sites file P (Parse.rounds round fuel a) post' := by
  induction fuel generalizing a with
  | zero => exact failure
  | succ fuel ih =>
    unfold Parse.rounds
    refine (h a ha).bind fun r hr => ?_
    cases r with
    | again a => exact ih hr
    | done b => exact pure hr

theorem repeating {round : α → Parser (Parse.Round α β)} {I : α → Prop}
    (h : ∀ a, I a → Sites file P (round a) (Round I post')) {a : α} (ha : I a) :
    Sites file P (Parse.repeating round a) post' :=
  get.bind fun _ _ => rounds h _ ha

theorem skipNewlines : Sites file P Parse.skipNewlines Any := by
  refine repeating (I := Any) (fun _ _ => ?_) trivial
  exact (eat _).bind fun _ _ => ite (pure trivial) (pure trivial)

theorem synchronize : Sites file P Parse.synchronize Any := by
  refine advance.bind fun _ _ => repeating (I := Any) (fun _ _ => ?_) trivial
  refine atEnd.bind fun _ _ => ite (pure trivial) ?_
  refine (eat _).bind fun _ _ => ite (pure trivial) ?_
  exact kind.bind fun _ _ => ite (pure trivial) (advance.bind fun _ _ => pure trivial)

end Sites

end Parse

end ScriptCompiler
