import ScriptCompiler.Proofs.Parse.Walks
import ScriptCompiler.Proofs.Scanning.Places
import ScriptCompiler.Proofs.Syntax.Trees

/-!
# Spans inside spans

A node is nested if its span is in the text and covers the spans of the nodes inside it, the
statements of each body start one behind the other, and the nodes inside it are nested. A parser
comes to nested nodes because it walks forward: a node starts with the first token that was read for
it, and ends no later than the last one.
-/

namespace ScriptCompiler

/-! ## The order of places -/

namespace Span

variable {p q r : Nat × Nat} {a b : Span}

/-- What is not before a later place is not before an earlier one. -/
theorem not_noLater_of_le (h : noLater q p = false) (le : noLater q r = true) :
    noLater r p = false := by
  rw [← Bool.not_eq_true] at *
  exact fun h' => h (noLater_trans le h')

/-- The span starts before the other one. -/
def StartsBefore (a b : Span) : Prop :=
  noLater b.start a.start = false

/-- The span starts no later than the other one and ends no earlier. -/
structure Covers (outer inner : Span) : Prop where
  start : noLater outer.start inner.start = true
  finish : noLater inner.finish outer.finish = true

instance (a b : Span) : Decidable (a.StartsBefore b) :=
  inferInstanceAs (Decidable (_ = false))

section Merge

variable {text : List Char} (ha : a.InText text) (hb : b.InText text)

include ha hb

theorem start_merge (le : noLater a.start b.start = true) : (a.merge b).start = a.start := by
  simp only [merge, ha.not_isSynthetic, hb.not_isSynthetic, Bool.false_eq_true, if_false, le,
    if_true]
  rfl

theorem finish_merge :
    (a.merge b).finish = if noLater a.finish b.finish then b.finish else a.finish := by
  simp only [merge, ha.not_isSynthetic, hb.not_isSynthetic, Bool.false_eq_true, if_false]
  rfl

/-- Merged spans end no earlier than either of them. -/
theorem finish_le_merge :
    noLater a.finish (a.merge b).finish = true ∧ noLater b.finish (a.merge b).finish = true := by
  rw [finish_merge ha hb]
  split
  · next le => exact ⟨le, noLater_refl _⟩
  · next le => exact ⟨noLater_refl _, noLater_of_not (eq_false_of_ne_true le)⟩

theorem merge_finish_le (le : noLater a.finish p = true) (le' : noLater b.finish p = true) :
    noLater (a.merge b).finish p = true := by
  rw [finish_merge ha hb]
  split <;> assumption

end Merge

end Span

open ScriptCompiler.Span (noLater noLater_refl noLater_trans)

/-! ## Nested nodes -/

/-- The node is the condition that stands before several statements where one node is needed. It is
not read from the text. -/
def Form.MadeUp (form : Form) (child : Node) : Prop :=
  child = .synthetic (.localVar "true") ∧ ∃ statements : Body, 2 ≤ statements.length
    ∧ form = .conditional [⟨child, statements⟩] none

/-- The node is nested: its span is in the text and covers the spans of its operands and of the
statements of its bodies, which start one behind the other. They are nested in turn. -/
inductive Node.Nested (text : List Char) : Node → Prop
  | mk {node : Node} (span : node.span.InText text)
      (operands : ∀ child ∈ node.form.operands, ¬ node.form.MadeUp child →
        node.span.Covers child.span)
      (statements : ∀ body ∈ node.form.bodies, ∀ child ∈ body, node.span.Covers child.span)
      (increasing : ∀ body ∈ node.form.bodies,
        body.Pairwise fun child child' => child.span.StartsBefore child'.span)
      (inOperands : ∀ child ∈ node.form.operands, ¬ node.form.MadeUp child → child.Nested text)
      (inBodies : ∀ body ∈ node.form.bodies, ∀ child ∈ body, child.Nested text) :
      Node.Nested text node

/-- The node is nested and lies between two places. -/
structure Node.Lies (text : List Char) (first last : Nat × Nat) (node : Node) : Prop where
  nested : node.Nested text
  start : noLater first node.span.start = true
  finish : noLater node.span.finish last = true

/-- The statements of the body lie between two places, one behind the other. -/
structure Body.Lies (text : List Char) (first last : Nat × Nat) (body : Body) : Prop where
  statements : ∀ node ∈ body, node.Lies text first last
  increasing : body.Pairwise fun node node' => node.span.StartsBefore node'.span

/-- The nodes in the form lie between two places. -/
structure Form.Lies (text : List Char) (first last : Nat × Nat) (form : Form) : Prop where
  operands : ∀ child ∈ form.operands, ¬ form.MadeUp child → child.Lies text first last
  bodies : ∀ body ∈ form.bodies, Body.Lies text first last body

section Lies

variable {text : List Char} {first first' last last' : Nat × Nat} {node : Node} {body : Body}
  {form : Form} {span : Span}

theorem Node.Lies.mono (h : node.Lies text first last) (start : noLater first' first = true)
    (finish : noLater last last' = true) : node.Lies text first' last' :=
  ⟨h.nested, noLater_trans start h.start, noLater_trans h.finish finish⟩

theorem Body.Lies.mono (h : Body.Lies text first last body) (start : noLater first' first = true)
    (finish : noLater last last' = true) : Body.Lies text first' last' body :=
  ⟨fun node hn => (h.statements node hn).mono start finish, h.increasing⟩

theorem Form.Lies.mono (h : form.Lies text first last) (start : noLater first' first = true)
    (finish : noLater last last' = true) : form.Lies text first' last' :=
  ⟨fun child hc read => (h.operands child hc read).mono start finish,
    fun body hb => (h.bodies body hb).mono start finish⟩

/-- A node whose span covers what is in it is nested. -/
theorem Form.Lies.nested (h : form.Lies text span.start span.finish) (inText : span.InText text) :
    Node.Nested text ⟨form, span⟩ := by
  have operand {child : Node} (hc : child ∈ form.operands) (read : ¬ form.MadeUp child) :=
    h.operands child hc read
  have statement {body : Body} (hb : body ∈ form.bodies) {child : Node} (hc : child ∈ body) :=
    (h.bodies body hb).statements child hc
  exact .mk inText (fun _ hc read => ⟨(operand hc read).start, (operand hc read).finish⟩)
    (fun _ hb _ hc => ⟨(statement hb hc).start, (statement hb hc).finish⟩)
    (fun _ hb => (h.bodies _ hb).increasing) (fun _ hc read => (operand hc read).nested)
    fun _ hb _ hc => (statement hb hc).nested

theorem Node.Nested.inText (h : node.Nested text) : node.span.InText text := by
  cases h
  assumption

/-- The nodes in a nested node lie inside its span. -/
theorem Node.Nested.inner (h : node.Nested text) :
    node.form.Lies text node.span.start node.span.finish := by
  cases h with
  | mk span operands statements increasing inOperands inBodies =>
    refine ⟨fun child hc read => ?_, fun body hb => ⟨fun child hc => ?_, increasing body hb⟩⟩
    · exact ⟨inOperands child hc read, (operands child hc read).start,
        (operands child hc read).finish⟩
    · exact ⟨inBodies body hb child hc, (statements body hb child hc).start,
        (statements body hb child hc).finish⟩

theorem Node.Nested.lies (h : node.Nested text) :
    node.Lies text node.span.start node.span.finish :=
  ⟨h, noLater_refl _, noLater_refl _⟩

/-! ### Forms -/

namespace Form.Lies

theorem of_operands (operands : ∀ child ∈ form.operands, child.Lies text first last)
    (bodies : ∀ body ∈ form.bodies, Body.Lies text first last body) : form.Lies text first last :=
  ⟨fun child hc _ => operands child hc, bodies⟩

/-- A form that holds no nodes. -/
theorem leaf (operands : form.operands = []) (bodies : form.bodies = []) :
    form.Lies text first last :=
  of_operands (operands ▸ List.forall_mem_nil _) (bodies ▸ List.forall_mem_nil _)

theorem atom (h : form.isAtom = true) : form.Lies text first last := by
  cases form <;> first | exact leaf rfl rfl | cases h

theorem array {elements : List Node} (h : ∀ node ∈ elements, node.Lies text first last) :
    (Form.array elements).Lies text first last :=
  of_operands h (List.forall_mem_nil _)

theorem assign {target : Target} {value : Node} (h : value.Lies text first last) :
    (Form.assign target value).Lies text first last :=
  of_operands (List.forall_mem_singleton.mpr h) (List.forall_mem_nil _)

/-- A definition, with its body. -/
theorem definition (operands : form.operands = []) (bodies : form.bodies = [body])
    (h : Body.Lies text first last body) : form.Lies text first last :=
  of_operands (operands ▸ List.forall_mem_nil _) (bodies ▸ List.forall_mem_singleton.mpr h)

theorem send {receiver : Option Node} {name : String} {args : List Node} {block : Option Block}
    (hr : ∀ node ∈ receiver, node.Lies text first last)
    (ha : ∀ node ∈ args, node.Lies text first last)
    (hb : ∀ b ∈ block, Body.Lies text first last b.body) :
    (Form.send receiver name args block).Lies text first last := by
  refine of_operands (List.forall_mem_append.mpr ⟨fun node hn => ?_, ha⟩) fun body hm => ?_
  · exact hr node (Option.mem_toList.mp hn)
  · obtain ⟨b, found, rfl⟩ := Option.map_eq_some_iff.mp (Option.mem_toList.mp hm)
    exact hb b found

/-- A message without a block. -/
theorem message {receiver : Option Node} {name : String} {args : List Node}
    (hr : ∀ node ∈ receiver, node.Lies text first last)
    (ha : ∀ node ∈ args, node.Lies text first last) :
    (Form.message receiver name args).Lies text first last :=
  send hr ha nofun

theorem conditional {branches : List Branch} {otherwise : Option Body}
    (hb : ∀ branch ∈ branches, branch.condition.Lies text first last
      ∧ Body.Lies text first last branch.body)
    (ho : ∀ body ∈ otherwise, Body.Lies text first last body) :
    (Form.conditional branches otherwise).Lies text first last := by
  refine of_operands (fun child hc => ?_) (List.forall_mem_append.mpr ⟨fun body hm => ?_, ?_⟩)
  · obtain ⟨branch, hm, rfl⟩ := List.mem_map.mp hc
    exact (hb branch hm).1
  · obtain ⟨branch, found, rfl⟩ := List.mem_map.mp hm
    exact (hb branch found).2
  · exact fun body hm => ho body (Option.mem_toList.mp hm)

theorem loop {kind : LoopKind} {condition : Node} (hc : condition.Lies text first last)
    (hb : Body.Lies text first last body) : (Form.loop kind condition body).Lies text first last :=
  of_operands (List.forall_mem_singleton.mpr hc) (List.forall_mem_singleton.mpr hb)

theorem rescue {handler : Body} {variable_ : Option String} {otherwise : Option Body}
    (hb : Body.Lies text first last body) (hh : Body.Lies text first last handler)
    (ho : ∀ body ∈ otherwise, Body.Lies text first last body) :
    (Form.rescue body variable_ handler otherwise).Lies text first last := by
  refine of_operands (List.forall_mem_nil _) (List.forall_mem_cons.mpr ⟨hb, ?_⟩)
  exact List.forall_mem_cons.mpr ⟨hh, fun body hm => ho body (Option.mem_toList.mp hm)⟩

end Form.Lies

theorem Body.Lies.nil : Body.Lies text first last [] :=
  ⟨List.forall_mem_nil _, .nil⟩

theorem Body.Lies.single (h : node.Lies text first last) : Body.Lies text first last [node] :=
  ⟨List.forall_mem_singleton.mpr h, List.pairwise_singleton _ _⟩

end Lies

/-! ### What is in a nested body -/

/-- A node in a nested body is nested, or it is a condition that was made up. -/
theorem Body.Contains.nested {text : List Char} {body : Body} {node : Node}
    (h : ∀ top ∈ body, top.Nested text) (contains : body.Contains node) :
    node.Nested text ∨ ∃ outer, body.Contains outer ∧ outer.form.MadeUp node := by
  obtain ⟨top, hm, inside⟩ := contains
  induction inside with
  | refl => exact .inl (h top hm)
  | tail inside holds ih =>
    rename_i outer inner
    rcases ih with nested | ⟨_, -, rfl, -⟩
    · rcases Form.holds_cases holds with operand | ⟨statements, hb, hc⟩
      · by_cases made : outer.form.MadeUp inner
        · exact .inr ⟨outer, ⟨top, hm, inside⟩, made⟩
        · exact .inl (nested.inner.operands inner operand made).nested
      · exact .inl ((nested.inner.bodies statements hb).statements inner hc).nested
    · cases holds

/-- A nested node covers what it holds, unless that was made up. -/
theorem Node.Nested.covers {text : List Char} {node child : Node} (h : node.Nested text)
    (holds : node.form.Holds child) :
    node.span.Covers child.span ∨ node.form.MadeUp child := by
  rcases Form.holds_cases holds with operand | ⟨statements, hb, hc⟩
  · by_cases made : node.form.MadeUp child
    · exact .inr made
    · have lies := h.inner.operands child operand made
      exact .inl ⟨lies.start, lies.finish⟩
  · have lies := (h.inner.bodies statements hb).statements child hc
    exact .inl ⟨lies.start, lies.finish⟩

/-! ## Walking along a text -/

/-- The tokens of a text start and end one behind the other. -/
theorem Token.ordered_scan (name source : String) :
    (∀ t ∈ (scan (.ofText name source)).tokens, t.span.InText source.toList)
      ∧ (scan (.ofText name source)).tokens.Pairwise fun t t' =>
        t.span.StartsBefore t'.span ∧ noLater t.span.finish t'.span.finish = true := by
  have within : Cursor.Within source.toList (.start source.toList) := .start _
  have stream : Stream source.toList none ⟨1, 1⟩ (placed (.ofText name source)) :=
    stream_placedFrom _ within
  have starts := stream.pairwise
  rw [placed, map_token_placedFrom] at starts
  have finishes := (finishes_scanFrom (.ofText name source) none .empty within).2
  refine ⟨(inText_scanFrom (.ofText name source) none .empty within).1, ?_⟩
  refine (starts.and finishes).imp fun {t t'} ⟨before, finish⟩ => ⟨?_, finish⟩
  unfold Span.StartsBefore
  rw [← Bool.not_eq_true, Span.noLater_iff]
  unfold Position.Before at before
  simp only [start, Span.start] at *
  omega

namespace Parse

variable {text : List Char}

/-- The tokens at hand stand in the text, one behind the other, and the token before them is not
behind the first of them. -/
structure Lined (text : List Char) (s : State) : Prop where
  spans : ∀ t ∈ s.remaining, t.span.InText text
  order : s.remaining.Pairwise fun t t' =>
    t.span.StartsBefore t'.span ∧ noLater t.span.finish t'.span.finish = true
  ends : ∀ t ∈ s.remaining.getLast?, t.kind = .endOfInput
  previous : s.previous.InText text
  start : noLater s.previous.start s.current.span.start = true
  finish : noLater s.previous.finish s.current.span.finish = true

/-- The second state is not before the first one. -/
structure Onto (s s' : State) : Prop where
  current : noLater s.current.span.start s'.current.span.start = true
  start : noLater s.previous.start s'.previous.start = true
  finish : noLater s.previous.finish s'.previous.finish = true

namespace Lined

variable {s s' : State}

theorem current (h : Lined text s) : s.current.span.InText text :=
  h.spans _ List.mem_cons_self

theorem congr (h : Lined text s) (remaining : s'.remaining = s.remaining)
    (previous : s'.previous = s.previous) : Lined text s' ∧ Onto s s' := by
  have current : s'.current = s.current := (List.cons.inj remaining).1
  refine ⟨⟨?_, ?_, ?_, ?_, ?_, ?_⟩, ⟨?_, ?_, ?_⟩⟩
  · exact remaining ▸ h.spans
  · exact remaining ▸ h.order
  · exact remaining ▸ h.ends
  · exact previous ▸ h.previous
  · exact previous ▸ current ▸ h.start
  · exact previous ▸ current ▸ h.finish
  · exact current ▸ noLater_refl _
  · exact previous ▸ noLater_refl _
  · exact previous ▸ noLater_refl _

/-- Something comes behind a token that is not the end of the text. -/
theorem rest_ne_nil (h : Lined text s) (other : s.current.kind ≠ .endOfInput) : s.rest ≠ [] := by
  intro none_
  refine other (h.ends _ ?_)
  rw [State.remaining, none_]
  rfl

theorem order_next (h : Lined text s) (more : s.rest ≠ []) :
    s.current.span.StartsBefore s.next.current.span
      ∧ noLater s.current.span.finish s.next.current.span.finish = true := by
  refine (List.pairwise_cons.mp h.order).1 _ ?_
  rw [← State.remaining_next more]
  exact List.mem_cons_self

theorem next (h : Lined text s) : Lined text s.next ∧ Onto s s.next := by
  by_cases more : s.rest = []
  · rw [State.next_of_nil more]
    exact h.congr rfl rfl
  · have remaining := State.remaining_next more
    have previous := State.previous_next more
    obtain ⟨start, finish⟩ := h.order_next more
    refine ⟨⟨fun t ht => ?_, ?_, fun t ht => ?_, ?_, ?_, ?_⟩, ⟨?_, ?_, ?_⟩⟩
    · exact h.spans t (List.mem_cons_of_mem _ (remaining ▸ ht))
    · exact remaining ▸ (List.pairwise_cons.mp h.order).2
    · rw [remaining] at ht
      refine h.ends t ?_
      rw [State.remaining, List.getLast?_cons_of_ne_nil more]
      exact ht
    · exact previous ▸ h.current
    · exact previous ▸ Span.noLater_of_not start
    · exact previous ▸ finish
    · exact Span.noLater_of_not start
    · exact previous ▸ h.start
    · exact previous ▸ h.finish

end Lined

theorem Onto.trans {s s' s'' : State} (h : Onto s s') (h' : Onto s' s'') : Onto s s'' :=
  ⟨noLater_trans h.current h'.current, noLater_trans h.start h'.start,
    noLater_trans h.finish h'.finish⟩

namespace Onto

variable {s s' : State} {first : Nat × Nat}

theorem same (current : s'.current = s.current) (previous : s'.previous = s.previous) :
    Onto s s' :=
  ⟨current ▸ noLater_refl _, previous ▸ noLater_refl _, previous ▸ noLater_refl _⟩

/-! What lies before a state lies before later states. -/

theorem node {node : Node} (onto : Onto s s') (h : node.Lies text first s.previous.finish) :
    node.Lies text first s'.previous.finish :=
  h.mono (noLater_refl _) onto.finish

theorem nodes {nodes : List Node} (onto : Onto s s')
    (h : ∀ node ∈ nodes, node.Lies text first s.previous.finish) :
    ∀ node ∈ nodes, node.Lies text first s'.previous.finish :=
  fun node hn => onto.node (h node hn)

theorem body {body : Body} (onto : Onto s s') (h : Body.Lies text first s.previous.finish body) :
    Body.Lies text first s'.previous.finish body :=
  h.mono (noLater_refl _) onto.finish

theorem form {form : Form} (onto : Onto s s') (h : form.Lies text first s.previous.finish) :
    form.Lies text first s'.previous.finish :=
  h.mono (noLater_refl _) onto.finish

end Onto

/-- Parsers walk along the tokens of a text. -/
def along (text : List Char) : Walk where
  Stands := Lined text
  Leads := Onto
  same := Lined.congr
  next := Lined.next
  trans := Onto.trans

/-! ### What was begun -/

/-- Something that starts with the span was begun before the state: the tokens of the span are
passed. -/
structure Began (text : List Char) (start : Span) (s : State) : Prop where
  inText : start.InText text
  first : noLater start.start s.previous.start = true
  finish : noLater start.finish s.previous.finish = true
  passed : start.StartsBefore s.current.span

section Began

variable {s s' : State} {start : Span} {node : Node} {form : Form}

theorem Began.later (h : Began text start s) (onto : Onto s s') : Began text start s' where
  inText := h.inText
  first := noLater_trans h.first onto.start
  finish := noLater_trans h.finish onto.finish
  passed := Span.not_noLater_of_le h.passed onto.current

/-- What starts with a token was begun when it is passed. -/
theorem Lined.began (h : Lined text s) (other : s.current.kind ≠ .endOfInput) :
    Began text s.current.span s.next := by
  have more := h.rest_ne_nil other
  have previous := State.previous_next more
  exact ⟨h.current, previous ▸ noLater_refl _, previous ▸ noLater_refl _, (h.order_next more).1⟩

/-- It starts no later than what comes next. -/
theorem Began.start_le (h : Began text start s) :
    noLater start.start s.current.span.start = true :=
  Span.noLater_of_not h.passed

/-- A node that was read, from the token with the given span on. -/
structure Parsed (text : List Char) (start : Span) (node : Node) (s : State) : Prop where
  nested : node.Nested text
  began : Began text start s
  start : node.span.start = start.start
  finish : noLater node.span.finish s.previous.finish = true

/-- Something that was begun is finished with a span that comes later. -/
theorem Began.merged {finish : Span} (h : Began text start s) (inText : finish.InText text)
    (after : noLater start.start finish.start = true)
    (before : noLater finish.finish s.previous.finish = true)
    (inside : form.Lies text start.start (start.merge finish).finish) :
    Parsed text start ⟨form, start.merge finish⟩ s := by
  have first := Span.start_merge h.inText inText after
  refine ⟨Form.Lies.nested ?_ (h.inText.merge inText), h, first,
    Span.merge_finish_le h.inText inText h.finish before⟩
  rw [first]
  exact inside

/-- Something that was begun is finished with the token before the state. -/
theorem Began.parsed (h : Began text start s) (lined : Lined text s)
    (inside : form.Lies text start.start s.previous.finish) :
    Parsed text start ⟨form, start.merge s.previous⟩ s :=
  h.merged lined.previous h.first (noLater_refl _)
    (inside.mono (noLater_refl _) (Span.finish_le_merge h.inText lined.previous).2)

namespace Parsed

theorem later (h : Parsed text start node s) (onto : Onto s s') : Parsed text start node s' :=
  ⟨h.nested, h.began.later onto, h.start, noLater_trans h.finish onto.finish⟩

/-- What goes on with the node was begun when the node was. -/
theorem began_span (h : Parsed text start node s) : Began text node.span s where
  inText := h.nested.inText
  first := h.start ▸ h.began.first
  finish := h.finish
  passed := by
    unfold Span.StartsBefore
    rw [h.start]
    exact h.began.passed

/-- The node goes on with another one. -/
theorem onward {node' : Node} (h : Parsed text start node s) (onto : Onto s s')
    (h' : Parsed text node.span node' s') : Parsed text start node' s' :=
  ⟨h'.nested, h.began.later onto, h'.start.trans h.start, h'.finish⟩

/-- The node lies behind everything that was begun before it. -/
theorem lies {first : Nat × Nat} (h : Parsed text start node s)
    (le : noLater first start.start = true) : node.Lies text first s.previous.finish :=
  ⟨h.nested, h.start ▸ le, h.finish⟩

end Parsed

end Began

end Parse

end ScriptCompiler
