import ScriptCompiler.Proofs.Parse.Faults
import ScriptCompiler.Proofs.Spans.Nesting

/-!
# Nested programs

Every part of the grammar builds its nodes of those that were read since it began, and gives them a
span from its first token to its last one. So all programs are nested, whatever is wrapped, negated
or put in the place of something else on the way.
-/

namespace ScriptCompiler.Parse

open Walk
open ScriptCompiler.Span (noLater noLater_refl noLater_trans)

variable {text : List Char} {first last : Nat × Nat} {start : Span} {node : Node}
  {expression : Parser Node} {s s' : State}

/-- The nodes that the parser answers are nested, and each starts with the current token. -/
def Parses (text : List Char) (p : Parser Node) : Prop :=
  ∀ s, (along text).Takes p s (Parsed text s.current.span)

/-! ## Statements -/

theorem lies_negate (h : node.Lies text first last) : (negate node).Lies text first last := by
  refine ⟨Form.Lies.nested (.message ?_ nofun) h.nested.inText, h.start, h.finish⟩
  rintro _ ⟨⟩
  exact h.nested.lies

theorem parsed_asDirective (h : Parsed text start node s) :
    Parsed text start (asDirective node) s := by
  unfold asDirective
  split
  · split
    · exact ⟨Form.Lies.nested (.leaf rfl rfl) h.nested.inText, h.began, h.start, h.finish⟩
    · exact h
  · exact h

theorem lies_apply (m : Modifier) {condition statement : Node}
    (hc : condition.Lies text first last) (hs : statement.Lies text first last) :
    (m.apply condition statement).Lies text first last := by
  have body : Body.Lies text first last [statement] := .single hs
  rcases m with _ | _ | kind
  · exact .conditional (List.forall_mem_singleton.mpr ⟨hc, body⟩) nofun
  · exact .conditional (List.forall_mem_singleton.mpr ⟨lies_negate hc, body⟩) nofun
  · exact .loop hc body

/-- The statements of a body that were read, the last one first. -/
structure SoFar (text : List Char) (first : Nat × Nat) (done : List Node) (s : State) : Prop where
  start : noLater first s.current.span.start = true
  statements : ∀ node ∈ done, node.Lies text first s.previous.finish
  began : ∀ node ∈ done, Began text node.span s
  decreasing : done.Pairwise fun node node' => node'.span.StartsBefore node.span

/-- The statements of a body lie one behind the other, and they were begun before the state. -/
structure BodyRead (text : List Char) (first : Nat × Nat) (body : Body) (s : State) : Prop where
  lies : Body.Lies text first s.previous.finish body
  began : ∀ node ∈ body, Began text node.span s

namespace SoFar

variable {done : List Node}

theorem later (h : SoFar text first done s) (onto : Onto s s') : SoFar text first done s' :=
  ⟨noLater_trans h.start onto.current, onto.nodes h.statements,
    fun node hn => (h.began node hn).later onto, h.decreasing⟩

/-- One more statement starts behind the others. -/
theorem cons (h : SoFar text first done s) (onto : Onto s s')
    (hn : Parsed text s.current.span node s') : SoFar text first (node :: done) s' := by
  obtain ⟨start, statements, began, decreasing⟩ := h.later onto
  refine ⟨start, List.forall_mem_cons.mpr ⟨hn.lies h.start, statements⟩,
    List.forall_mem_cons.mpr ⟨hn.began_span, began⟩, decreasing.cons fun node' hm => ?_⟩
  unfold Span.StartsBefore
  rw [hn.start]
  exact (h.began node' hm).passed

theorem body (h : SoFar text first done s) : BodyRead text first done.reverse s where
  lies := ⟨fun node hn => h.statements node (List.mem_reverse.mp hn),
    List.pairwise_reverse.mpr h.decreasing⟩
  began node hn := h.began node (List.mem_reverse.mp hn)

end SoFar

/-! ## Nodes that were read -/

/-- Nodes that were read one after the other. -/
def NodesRead (text : List Char) (first : Nat × Nat) (nodes : List Node) (s : State) : Prop :=
  noLater first s.current.span.start = true ∧ ∀ node ∈ nodes, node.Lies text first s.previous.finish

theorem NodesRead.later {nodes : List Node} (h : NodesRead text first nodes s) (onto : Onto s s') :
    NodesRead text first nodes s' :=
  ⟨noLater_trans h.1 onto.current, onto.nodes h.2⟩

theorem NodesRead.cons {nodes : List Node} (h : NodesRead text first nodes s) (onto : Onto s s')
    (hn : Parsed text s.current.span node s') : NodesRead text first (node :: nodes) s' :=
  ⟨(h.later onto).1, List.forall_mem_cons.mpr ⟨hn.lies h.1, (h.later onto).2⟩⟩

theorem NodesRead.reverse {nodes : List Node} (h : NodesRead text first nodes s) :
    ∀ node ∈ nodes.reverse, node.Lies text first s.previous.finish :=
  fun node hn => h.2 node (List.mem_reverse.mp hn)

section Expressions

variable (he : Parses text expression)

include he

theorem parses_statement : Parses text (statement expression) := by
  intro s
  unfold statement
  refine .currentSpan ((he s).bind fun read s₁ _ _ h₁ => ?_)
  refine .bind (Q := Parsed text s.current.span) ?_ fun whole s₂ _ _ h₂ => .kind ?_
  · refine .repeating (I := Parsed text s.current.span) (fun stmt s' hs => .kind ?_)
      (parsed_asDirective h₁)
    split
    · exact .pure hs
    · next m _ =>
      refine Takes.advance.bind fun _ s₂ _ onto₂ hs₂ => (he s₂).bind ?_
      intro condition s₃ lined₃ onto₃ h₃
      have onto := Onto.trans onto₂ onto₃
      have began := hs.began.later onto₂
      exact .previousSpan (.pure ((hs.began.later onto).parsed lined₃
        (lies_apply m (h₃.lies began.start_le) (onto.node (hs.lies (noLater_refl _))))))
  · split
    · exact .currentSpan .unsupported
    · exact .pure h₂

theorem takes_body (ends : List Token.Kind) (le : noLater first s.current.span.start = true) :
    (along text).Takes (body expression ends) s (BodyRead text first) := by
  unfold body
  refine .repeating (I := SoFar text first) (fun done s hs => ?_) ⟨le, nofun, nofun, .nil⟩
  unfold bodyRound
  refine Takes.skipNewlines.bind fun _ s₁ _ onto₁ _ => ?_
  have hs₁ := hs.later onto₁
  refine .kind (.ite (.pure hs₁.body) (.isFull (.ite (.pure hs₁.body) ?_)))
  refine (Takes.attempt (parses_statement he s₁)).bind fun r s₂ _ onto₂ h₂ => ?_
  split
  · exact takes_synchronize.bind fun _ _ _ onto₃ _ => .pure (hs₁.later (onto₂.trans onto₃))
  · next stmt =>
    have more := hs₁.cons onto₂ (h₂ stmt rfl)
    refine .kind (.ite (.pure more) ((Takes.unexpected _).bind fun _ _ _ onto₃ _ => ?_))
    exact takes_synchronize.bind fun _ _ _ onto₄ _ => .pure (more.later (Onto.trans onto₃ onto₄))

/-! ## Calls -/

theorem parses_argument : Parses text (argument expression) := by
  intro s
  unfold argument
  refine .kind ?_
  split
  · exact .currentSpan .unsupported
  · exact .currentSpan .unsupported
  · refine (he s).bind fun arg s₁ _ _ h₁ => ?_
    exact .ifAt (fun _ => .currentSpan .unsupported) fun _ => .pure h₁

theorem takes_commandArgs (le : noLater first s.current.span.start = true) :
    (along text).Takes (commandArgs expression) s fun args s' =>
      ∀ node ∈ args, node.Lies text first s'.previous.finish := by
  unfold commandArgs
  refine .withDoBlocks (.repeating (I := NodesRead text first) (fun done s hs => ?_) ⟨le, nofun⟩)
  refine (parses_argument he s).bind fun arg s₁ _ onto₁ h₁ => ?_
  have more := hs.cons onto₁ h₁
  refine Takes.from_ fun lined => .ifEat (fun _ => ?_) fun _ => .pure more.reverse
  have onto := (Lined.next lined).2
  exact Takes.skipNewlines.bind fun _ _ _ onto₂ _ => .pure (more.later (onto.trans onto₂))

theorem takes_bracketedArgs (close : Punct) (le : noLater first s.current.span.start = true) :
    (along text).Takes (bracketedArgs expression close) s fun args s' =>
      ∀ node ∈ args, node.Lies text first s'.previous.finish := by
  unfold bracketedArgs
  refine .withDoBlocks (Takes.skipNewlines.bind fun _ s₁ _ onto₁ _ => ?_)
  refine .bind (Q := fun args s' => ∀ node ∈ args, node.Lies text first s'.previous.finish) ?_
    fun args s₂ _ _ h₂ => Takes.skipNewlines.bind fun _ s₃ _ onto₃ _ => ?_
  · refine .repeating (I := NodesRead text first) (fun done s hs => ?_)
      ⟨noLater_trans le onto₁.current, nofun⟩
    refine .ifAt (fun _ => .pure hs.reverse) fun _ => ?_
    refine (parses_argument he s).bind fun arg s₁ _ onto₁ h₁ => ?_
    refine Takes.skipNewlines.bind fun _ s₂ _ onto₂ _ => ?_
    have more := (hs.cons onto₁ h₁).later onto₂
    refine Takes.from_ fun lined => .ifEat (fun _ => ?_) fun _ => .pure more.reverse
    have onto := (Lined.next lined).2
    exact Takes.skipNewlines.bind fun _ _ _ onto₂ _ => .pure (more.later (onto.trans onto₂))
  · refine Takes.expect.bind fun _ _ _ onto₄ _ => ?_
    have read := Onto.nodes (Onto.trans onto₃ onto₄) h₂
    exact .pure read

theorem takes_blockRest (close : Token.Kind) (le : noLater first s.current.span.start = true) :
    (along text).Takes (blockRest expression close) s fun block s' =>
      Body.Lies text first s'.previous.finish block.body := by
  unfold blockRest
  refine .withDoBlocks (.inScope (Takes.skipNewlines.bind fun _ s₁ _ onto₁ _ => ?_))
  refine (Takes.eats _).bind fun bars s₂ _ onto₂ _ => ?_
  have le₂ := noLater_trans le (noLater_trans onto₁.current onto₂.current)
  extract_lets jp jp'
  have rest (names : List Param) {s' : State} (onto : Onto s₂ s') :
      (along text).Takes (jp names) s' fun block s' =>
        Body.Lies text first s'.previous.finish block.body := by
    refine (takes_body he _ (noLater_trans le₂ onto.current)).bind fun statements _ _ _ h => ?_
    exact Takes.expect.bind fun _ _ _ onto _ => .pure (Onto.body onto h.lies)
  have bar (names : List Param) {s' : State} (onto : Onto s₂ s') :
      (along text).Takes (jp' names) s' fun block s' =>
        Body.Lies text first s'.previous.finish block.body :=
    Takes.expect.bind fun _ _ _ onto' _ => rest names (onto.trans onto')
  refine .from_ fun lined => .ite (.at_ (.ite ?_ ?_)) ?_
  · exact bar [] ((along text).refl lined)
  · exact (takes_params _).bind fun names _ _ onto _ => bar names onto
  · exact (Takes.discardEat _).bind fun _ _ _ onto _ => rest [] onto

theorem takes_callBlock (command : Bool) (le : noLater first s.current.span.start = true) :
    (along text).Takes (callBlock expression command) s fun block s' =>
      ∀ b ∈ block, Body.Lies text first s'.previous.finish b.body := by
  unfold callBlock
  have block (close : Token.Kind) : (along text).Takes (do
      advance
      return some (← blockRest expression close) : Parser (Option Block)) s fun block s' =>
        ∀ b ∈ block, Body.Lies text first s'.previous.finish b.body := by
    refine Takes.advance.bind fun _ _ _ onto _ => ?_
    refine (takes_blockRest he close (noLater_trans le onto.current)).bind fun b _ _ _ h => .pure ?_
    rintro _ ⟨⟩
    exact h
  exact .at_ (.ite (block _) (.get (.at_ (.ite (block _) (.pure nofun)))))

/-- The rest of a call: its receiver lies before it, or its name does. -/
theorem parses_call {receiver : Option Node} (name : String)
    (hr : ∀ node ∈ receiver, Parsed text node.span node s)
    (hn : receiver = none → Began text s.previous s) :
    (along text).Takes (call expression receiver name) s
      (Parsed text ((receiver.map Node.span).getD s.previous)) := by
  unfold call
  extract_lets jp
  have rest {start : Span} (began : Began text start s)
      (hr : ∀ node ∈ receiver, node.Lies text start.start s.previous.finish) :
      (along text).Takes (jp start) s (Parsed text start) := by
    refine .atParenArgs fun paren _ => .startsCommandArgs fun command => ?_
    extract_lets jp'
    have block (args : Bool × List Node) {s' : State} (onto : Onto s s')
        (ha : ∀ node ∈ args.2, node.Lies text start.start s'.previous.finish) :
        (along text).Takes (jp' args) s' (Parsed text start) := by
      refine (takes_callBlock he _ (began.later onto).start_le).bind fun b s₂ lined onto₂ hb => ?_
      refine .previousSpan (.pure ((began.later (onto.trans onto₂)).parsed lined ?_))
      have before := fun node hn => Onto.node (onto.trans onto₂) (hr node hn)
      exact .send before (Onto.nodes onto₂ ha) hb
    refine .ite ?_ (.ite ?_ ?_)
    · refine Takes.advance.bind fun _ s₁ _ onto₁ _ => ?_
      refine (takes_bracketedArgs he _ (began.later onto₁).start_le).bind ?_
      exact fun args _ _ onto₂ ha => block (false, args) (Onto.trans onto₁ onto₂) ha
    · refine (takes_commandArgs he began.start_le).bind fun args _ _ onto ha => ?_
      exact block (true, args) onto ha
    · exact .from_ fun lined => block (false, []) ((along text).refl lined) nofun
  cases receiver with
  | none => exact .previousSpan (rest (hn rfl) nofun)
  | some node =>
    have parsed := hr node rfl
    refine rest parsed.began ?_
    rintro _ ⟨⟩
    exact parsed.lies (noLater_refl _)

/-! ## Protected bodies -/

omit he in
/-- Several statements lie behind a condition that was made up. -/
theorem lies_sequence {statements : Body} (h : Body.Lies text first last statements) :
    (sequence statements).Lies text first last := by
  match statements with
  | [] => exact .atom rfl
  | [node] =>
    obtain ⟨nested, start, finish⟩ := h.statements node List.mem_cons_self
    exact nested.inner.mono start finish
  | a :: b :: rest =>
    refine ⟨fun child hc read => ?_, List.forall_mem_singleton.mpr h⟩
    rw [List.mem_singleton.mp hc] at read
    exact absurd ⟨rfl, a :: b :: rest, Nat.le_add_left 2 _, rfl⟩ read

theorem takes_rescueClause (le : noLater first s.current.span.start = true) :
    (along text).Takes (rescueClause expression) s fun clause s' =>
      ∀ c ∈ clause, Body.Lies text first s'.previous.finish c.2 := by
  unfold rescueClause
  refine Takes.from_ fun lined => .ifEat (fun _ => .kind ?_) fun _ => .pure nofun
  have onto₁ := (Lined.next lined).2
  extract_lets jp jp'
  have handler (variable_ : Option String) {s' : State} (onto : Onto s.next s') :
      (along text).Takes (jp variable_) s' fun clause s' =>
        ∀ c ∈ clause, Body.Lies text first s'.previous.finish c.2 := by
    have le' := noLater_trans le (onto₁.trans onto).current
    refine (takes_body he _ le').bind fun handler _ _ _ h => ?_
    refine .ifAt (fun _ => .currentSpan .unsupportedThen) fun _ => .pure ?_
    rintro _ ⟨⟩
    exact h.lies
  have rest : (along text).Takes (jp' ()) s.next fun clause s' =>
      ∀ c ∈ clause, Body.Lies text first s'.previous.finish c.2 := by
    refine Takes.from_ fun lined => .ifEat (fun _ => ?_) fun _ =>
      handler none ((along text).refl lined)
    refine Takes.expectIdentifier.bind fun name _ _ onto₂ _ => ?_
    refine (Takes.declare name).bind fun _ _ _ onto₃ _ => handler (some name) ?_
    exact (Lined.next lined).2.trans (Onto.trans onto₂ onto₃)
  split
  · exact .currentSpan .unsupportedThen
  · exact rest

theorem takes_rescueTail {protected_ : Body} (le : noLater first s.current.span.start = true)
    (h : Body.Lies text first s.previous.finish protected_) :
    (along text).Takes (rescueTail expression protected_) s fun form s' =>
      form.Lies text first s'.previous.finish := by
  unfold rescueTail
  refine (takes_rescueClause he le).bind fun clause s₁ _ onto₁ hc => .currentSpan ?_
  have le₁ := noLater_trans le onto₁.current
  refine (Takes.eats _).bind fun others s₂ _ onto₂ _ => ?_
  extract_lets jp
  have rest {otherwise : Option Body} {s' : State} (onto : Onto s₁ s')
      (ho : ∀ body ∈ otherwise, Body.Lies text first s'.previous.finish body) :
      (along text).Takes (jp otherwise) s' fun form s' =>
        form.Lies text first s'.previous.finish := by
    refine .ifAt (fun _ => .currentSpan .unsupportedThen) fun _ => ?_
    have before := Onto.body (onto₁.trans onto) h
    cases clause with
    | some clause => exact .pure (.rescue before (onto.body (hc clause rfl)) ho)
    | none => exact .ite .rejectAs (.pure (lies_sequence before))
  refine .ite ?_ (rest onto₂ nofun)
  refine (takes_body he _ (noLater_trans le₁ onto₂.current)).bind fun otherwise _ _ onto₃ h₃ => ?_
  refine rest (Onto.trans onto₂ onto₃) ?_
  rintro _ ⟨⟩
  exact h₃.lies

/-! ## What a word closes -/

omit he in
/-- A construct ends with a token that closes it. -/
theorem parses_closed {form : Form} {close : Token.Kind} (began : Began text start s)
    (inside : form.Lies text start.start s.previous.finish) :
    (along text).Takes (do
      expect close
      return ⟨form, start.merge (← previousSpan)⟩ : Parser Node) s (Parsed text start) :=
  Takes.expect.bind fun _ _ lined onto _ =>
    .previousSpan (.pure ((began.later onto).parsed lined (Onto.form onto inside)))

theorem parses_beginBlock (other : s.current.kind ≠ .endOfInput) :
    (along text).Takes (beginBlock expression) s (Parsed text s.current.span) := by
  unfold beginBlock
  refine .from_ fun lined => .currentSpan (.pass ?_)
  have began := Lined.began lined other
  refine (takes_body he _ began.start_le).bind fun protected_ s₁ _ onto₁ h₁ => ?_
  have began₁ := began.later onto₁
  refine (takes_rescueTail he began₁.start_le h₁.lies).bind fun form s₂ _ onto₂ h₂ => ?_
  exact parses_closed (began₁.later onto₂) h₂

/-! ## Conditionals and loops -/

theorem takes_elseClause (le : noLater first s.current.span.start = true) :
    (along text).Takes (elseClause expression) s fun otherwise s' =>
      ∀ body ∈ otherwise, Body.Lies text first s'.previous.finish body := by
  unfold elseClause
  refine .from_ fun lined => .ifEat (fun _ => ?_) fun _ => .pure nofun
  have le₁ := noLater_trans le (Lined.next lined).2.current
  refine (takes_body he _ le₁).bind fun otherwise _ _ _ h => .pure ?_
  rintro _ ⟨⟩
  exact h.lies

/-- The nodes of a branch lie between two places. -/
def BranchLies (text : List Char) (first last : Nat × Nat) (branch : Branch) : Prop :=
  branch.condition.Lies text first last ∧ Body.Lies text first last branch.body

theorem takes_branch (le : noLater first s.current.span.start = true) :
    (along text).Takes (branch expression) s fun branch s' =>
      BranchLies text first s'.previous.finish branch := by
  unfold branch
  refine (he s).bind fun condition s₁ _ onto₁ h₁ => ?_
  refine takes_skipThen.bind fun _ s₂ _ onto₂ _ => ?_
  have onto := Onto.trans onto₁ onto₂
  refine (takes_body he _ (noLater_trans le onto.current)).bind fun statements _ _ onto₃ h₃ => ?_
  exact .pure ⟨Onto.node (onto₂.trans onto₃) (h₁.lies le), h₃.lies⟩

/-- Branches that were read since the construct with the span was begun. -/
def BranchesRead (text : List Char) (start : Span) (branches : List Branch) (s : State) : Prop :=
  Began text start s ∧ ∀ b ∈ branches, BranchLies text start.start s.previous.finish b

omit he in
theorem BranchesRead.later {branches : List Branch} (h : BranchesRead text start branches s)
    (onto : Onto s s') : BranchesRead text start branches s' :=
  ⟨h.1.later onto, fun b hb => ⟨onto.node (h.2 b hb).1, onto.body (h.2 b hb).2⟩⟩

theorem parses_ifBlock (other : s.current.kind ≠ .endOfInput) :
    (along text).Takes (ifBlock expression) s (Parsed text s.current.span) := by
  unfold ifBlock
  refine .from_ fun lined => .currentSpan (.pass ?_)
  have began := Lined.began lined other
  refine (takes_branch he began.start_le).bind fun b s₁ _ onto₁ h₁ => ?_
  refine .bind (Q := BranchesRead text s.current.span) ?_ fun branches s₂ _ _ h₂ => ?_
  · refine .repeating (I := BranchesRead text s.current.span) (fun done s hs => ?_)
      ⟨began.later onto₁, List.forall_mem_singleton.mpr h₁⟩
    refine .from_ fun lined => .ifEat (fun _ => ?_) fun _ => .pure ?_
    · have hs := hs.later (Lined.next lined).2
      refine (takes_branch he hs.1.start_le).bind fun b s' _ onto h => .pure ?_
      exact ⟨hs.1.later onto, List.forall_mem_cons.mpr ⟨h, (hs.later onto).2⟩⟩
    · exact ⟨hs.1, fun b hb => hs.2 b (List.mem_reverse.mp hb)⟩
  · refine (takes_elseClause he h₂.1.start_le).bind fun otherwise s₃ _ onto₃ h₃ => ?_
    obtain ⟨began₃, read⟩ := h₂.later onto₃
    exact parses_closed began₃ (.conditional read h₃)

theorem parses_unlessBlock (other : s.current.kind ≠ .endOfInput) :
    (along text).Takes (unlessBlock expression) s (Parsed text s.current.span) := by
  unfold unlessBlock
  refine .from_ fun lined => .currentSpan (.pass ?_)
  have began := Lined.began lined other
  refine (he _).bind fun condition s₁ _ onto₁ h₁ => ?_
  refine takes_skipThen.bind fun _ s₂ _ onto₂ _ => ?_
  have began₂ := began.later (Onto.trans onto₁ onto₂)
  refine (takes_body he _ began₂.start_le).bind fun statements s₃ _ onto₃ h₃ => ?_
  have began₃ := began₂.later onto₃
  refine (takes_elseClause he began₃.start_le).bind fun otherwise s₄ _ onto₄ h₄ => ?_
  have onto := Onto.trans onto₂ (Onto.trans onto₃ onto₄)
  have negated := lies_negate (onto.node (h₁.lies began.start_le))
  exact parses_closed (began₃.later onto₄)
    (.conditional (List.forall_mem_singleton.mpr ⟨negated, Onto.body onto₄ h₃.lies⟩) h₄)

theorem parses_loopBlock (loop : LoopKind) (other : s.current.kind ≠ .endOfInput) :
    (along text).Takes (loopBlock expression loop) s (Parsed text s.current.span) := by
  unfold loopBlock
  refine .from_ fun lined => .currentSpan (.pass ?_)
  have began := Lined.began lined other
  have condition : (along text).Takes (withDoBlocks false expression) s.next
      (Parsed text s.next.current.span) :=
    .withDoBlocks (Takes.mono (he _) fun _ _ _ _ h => h.later (.same rfl rfl))
  refine condition.bind fun condition s₁ _ onto₁ h₁ => ?_
  refine (Takes.discardEat _).bind fun _ s₂ _ onto₂ _ => ?_
  have began₂ := began.later (Onto.trans onto₁ onto₂)
  refine (takes_body he _ began₂.start_le).bind fun statements s₃ _ onto₃ h₃ => ?_
  have onto := Onto.trans onto₂ onto₃
  exact parses_closed (began₂.later onto₃)
    (.loop (onto.node (h₁.lies began.start_le)) h₃.lies)

/-! ## Definitions -/

theorem takes_namespaceBody (le : noLater first s.current.span.start = true) :
    (along text).Takes (namespaceBody expression) s fun statements s' =>
      Body.Lies text first s'.previous.finish statements := by
  unfold namespaceBody
  have inside : (along text).Takes (inScope true (body expression [.keyword .endKw])) s
      fun statements s' => Body.Lies text first s'.previous.finish statements :=
    .inScope (Takes.mono (takes_body he _ le) fun _ _ _ _ h => h.lies)
  exact inside.bind fun statements _ _ _ h =>
    Takes.expect.bind fun _ _ _ onto _ => .pure (Onto.body onto h)

theorem parses_classBlock (other : s.current.kind ≠ .endOfInput) :
    (along text).Takes (classBlock expression) s (Parsed text s.current.span) := by
  unfold classBlock
  refine .from_ fun lined => .currentSpan (.pass ?_)
  have began := Lined.began lined other
  refine .ifAt (fun _ => .currentSpan .unsupportedThen) fun _ => ?_
  refine Takes.expectConstant.bind fun name s₁ _ onto₁ _ => ?_
  refine takes_rejectScoped.bind fun _ s₂ _ onto₂ _ => ?_
  refine (Takes.eats _).bind fun inherits s₃ _ onto₃ _ => ?_
  have began₃ := began.later (Onto.trans onto₁ (Onto.trans onto₂ onto₃))
  extract_lets jp
  have rest (superclass : Option String) {s' : State} (onto : Onto s₃ s') :
      (along text).Takes (jp superclass) s' (Parsed text s.current.span) := by
    have began := began₃.later onto
    refine (takes_namespaceBody he began.start_le).bind fun statements _ lined onto h => ?_
    exact .previousSpan (.pure ((began.later onto).parsed lined (.definition rfl rfl h)))
  refine .from_ fun lined => .ite ?_ (rest none ((along text).refl lined))
  refine Takes.expectConstant.bind fun superclass _ _ onto₄ _ => ?_
  exact takes_rejectScoped.bind fun _ _ _ onto₅ _ =>
    rest (some superclass) (Onto.trans onto₄ onto₅)

theorem parses_moduleBlock (other : s.current.kind ≠ .endOfInput) :
    (along text).Takes (moduleBlock expression) s (Parsed text s.current.span) := by
  unfold moduleBlock
  refine .from_ fun lined => .currentSpan (.pass ?_)
  have began := Lined.began lined other
  refine Takes.expectConstant.bind fun name s₁ _ onto₁ _ => ?_
  refine takes_rejectScoped.bind fun _ s₂ _ onto₂ _ => ?_
  have began₂ := began.later (Onto.trans onto₁ onto₂)
  refine (takes_namespaceBody he began₂.start_le).bind fun statements _ lined onto h => ?_
  exact .previousSpan (.pure ((began₂.later onto).parsed lined (.definition rfl rfl h)))

/-- The rest of a method. A rescue clause makes one statement of its body, which starts where the
first statement does. -/
theorem parses_methodRest (began : Began text start s) (owner : Option String) (name : String) :
    (along text).Takes (methodRest expression start owner name) s (Parsed text start) := by
  unfold methodRest
  refine takes_methodParams.bind fun names s₁ _ onto₁ _ => ?_
  have began₁ := began.later onto₁
  refine (takes_body he _ began₁.start_le).bind fun statements s₂ _ onto₂ h₂ => .at_ (.at_ ?_)
  have began₂ := began₁.later onto₂
  extract_lets jp
  have rest {statements : Body} {s' : State} (began : Began text start s')
      (h : Body.Lies text start.start s'.previous.finish statements) :
      (along text).Takes (jp statements) s' (Parsed text start) :=
    parses_closed began (.definition rfl rfl h)
  refine .ite ?_ (rest began₂ h₂.lies)
  obtain ⟨le, opened, inside⟩ : let opening := (statements.head?.map Node.span).getD start
      noLater start.start opening.start = true ∧ Began text opening s₂
        ∧ Body.Lies text opening.start s₂.previous.finish statements := by
    cases statements with
    | nil => exact ⟨noLater_refl _, began₂, .nil⟩
    | cons node others =>
      refine ⟨(h₂.lies.statements node List.mem_cons_self).start,
        h₂.began node List.mem_cons_self, ⟨fun other hm => ?_, h₂.lies.increasing⟩⟩
      have lies := h₂.lies.statements other hm
      refine ⟨lies.nested, ?_, lies.finish⟩
      rcases List.mem_cons.mp hm with rfl | hm
      · exact noLater_refl _
      · exact Span.noLater_of_not ((List.pairwise_cons.mp h₂.lies.increasing).1 other hm)
  refine (takes_rescueTail he opened.start_le inside).bind fun form s₃ lined onto₃ h₃ => ?_
  have protected_ := (opened.later onto₃).parsed lined h₃
  exact .previousSpan (rest (began₂.later onto₃) (.single (protected_.lies le)))

theorem parses_methodBlock (other : s.current.kind ≠ .endOfInput) :
    (along text).Takes (methodBlock expression) s (Parsed text s.current.span) := by
  unfold methodBlock
  refine .from_ fun lined => .currentSpan (.pass (.kind (.followingKind ?_)))
  have began := Lined.began lined other
  extract_lets owner jp
  have rest {s' : State} (began : Began text s.current.span s') :
      (along text).Takes (jp ()) s' (Parsed text s.current.span) :=
    takes_definedName.bind fun name s₁ _ onto _ => by
      have began₁ : Began text s.current.span { s₁ with scopes := ⟨[], true⟩ :: s₁.scopes } :=
        (began.later onto).later (.same rfl rfl)
      exact .inScope (Takes.mono (parses_methodRest he began₁ owner name) fun _ _ _ _ h =>
        h.later (.same rfl rfl))
  refine .ite ?_ (rest began)
  refine Takes.advance.bind fun _ _ _ onto₁ _ => Takes.advance.bind fun _ _ _ onto₂ _ => ?_
  exact rest (began.later (Onto.trans onto₁ onto₂))

/-! ## Operands -/

theorem parses_parenthesized (other : s.current.kind ≠ .endOfInput) :
    (along text).Takes (parenthesized expression) s (Parsed text s.current.span) := by
  unfold parenthesized
  refine .from_ fun lined => .currentSpan (.pass ?_)
  have began := Lined.began lined other
  refine .bind (Q := fun inner s' => inner.Lies text s.current.span.start s'.previous.finish)
    (.withDoBlocks ?_) fun inner s₁ _ onto₁ h₁ => ?_
  · refine Takes.skipNewlines.bind fun _ s₁ _ onto₁ _ => ?_
    exact (parses_statement he s₁).mono fun _ _ _ _ h =>
      h.lies (noLater_trans began.start_le onto₁.current)
  · refine Takes.skipNewlines.bind fun _ s₂ _ onto₂ _ => ?_
    have inside := (h₁.nested.inner.mono h₁.start h₁.finish)
    exact parses_closed (began.later (Onto.trans onto₁ onto₂)) (Onto.form onto₂ inside)

omit he in
theorem isAtom_simple {k : Token.Kind} {form : Form} (h : simple? k = some form) :
    form.isAtom = true := by
  cases k with
  | keyword word => cases word <;> cases h <;> rfl
  | _ => cases h <;> rfl

theorem parses_primary : Parses text (primary expression) := by
  intro s
  unfold primary
  refine .from_ fun lined => .currentSpan ?_
  extract_lets finish
  have finished {form : Form} {s' : State} (began : Began text s.current.span s')
      (h : form.Lies text s.current.span.start s'.previous.finish) :
      (along text).Takes (finish form) s' (Parsed text s.current.span) :=
    .from_ fun lined' => .previousSpan (.pure (began.parsed lined' h))
  refine .kind ?_
  by_cases other : s.current.kind = .endOfInput
  · rw [other]
    exact .reject _
  have began := Lined.began lined other
  have previous := State.previous_next (Lined.rest_ne_nil lined other)
  have called (name : String) :
      (along text).Takes (call expression none name) s.next (Parsed text s.current.span) := by
    have rest : (along text).Takes (call expression none name) s.next
        (Parsed text s.next.previous) := parses_call he name nofun fun _ => previous.symm ▸ began
    exact previous ▸ rest
  split
  · next form hform => exact .pass (finished began (.atom (isAtom_simple hform)))
  split
  · refine .pass (.isLocal (.atParenArgs fun _ _ => .ite ?_ (called _)))
    exact finished began (.atom rfl)
  · refine .pass (.atParenArgs fun _ _ => .ite (called _) ?_)
    exact finished began (.message nofun nofun)
  · exact .pass (called _)
  · exact .pass (called _)
  · refine .pass ((takes_bracketedArgs he _ began.start_le).bind fun args _ _ onto ha => ?_)
    exact finished (began.later onto) (.array ha)
  · exact parses_parenthesized he other
  · exact parses_ifBlock he other
  · exact parses_unlessBlock he other
  · exact parses_loopBlock he _ other
  · exact parses_loopBlock he _ other
  · exact parses_beginBlock he other
  · exact parses_classBlock he other
  · exact parses_moduleBlock he other
  · exact parses_methodBlock he other
  · exact .unsupported
  · exact .unsupported
  · exact .reject _

/-! ## What follows an operand -/

theorem parses_postfixRound (h : Parsed text start node s) :
    (along text).Takes (postfixRound expression node) s
      (After (Parsed text start) (Parsed text start)) := by
  unfold postfixRound
  extract_lets finish
  have finished {form : Form} {s' : State} (onto : Onto s s')
      (inside : form.Lies text node.span.start s'.previous.finish) :
      (along text).Takes (finish form) s' (After (Parsed text start) (Parsed text start)) :=
    .from_ fun lined => .previousSpan (.pure
      (h.onward onto ((h.began_span.later onto).parsed lined inside)))
  have self {s' : State} (onto : Onto s s') : Parsed text node.span node s' :=
    ⟨h.nested, h.began_span.later onto, rfl, (h.later onto).finish⟩
  have receiver {s' : State} (onto : Onto s s') :
      ∀ r ∈ some node, r.Lies text node.span.start s'.previous.finish := by
    rintro _ ⟨⟩
    exact (self onto).lies (noLater_refl _)
  have called (name : String) {s' : State} (onto : Onto s s') :
      (along text).Takes (do return .again (← call expression (some node) name) :
        Parser (Round Node Node)) s' (After (Parsed text start) (Parsed text start)) := by
    have operand : ∀ r ∈ some node, Parsed text r.span r s' := by
      rintro _ ⟨⟩
      exact self onto
    refine (parses_call he name operand nofun).bind fun _ _ _ onto' h' => .pure ?_
    exact h.onward (Onto.trans onto onto') h'
  refine .kind ?_
  split
  · refine Takes.advance.bind fun _ _ _ onto₁ _ => ?_
    exact takes_calledName.bind fun name _ _ onto₂ _ => called name (Onto.trans onto₁ onto₂)
  · refine .followingKind (.ite ?_ (.pure h))
    exact Takes.advance.bind fun _ _ _ onto _ => .pure (h.later onto)
  · refine Takes.advance.bind fun _ _ _ onto₁ _ => takes_scopedName.bind fun name _ _ onto₂ _ => ?_
    have onto := Onto.trans onto₁ onto₂
    refine .atParenArgs fun _ _ => .ite ?_ (called name onto)
    exact finished onto (.message (receiver onto) nofun)
  · refine .spaceBefore (.ite (.pure h) (Takes.advance.bind fun _ _ _ onto₁ _ => ?_))
    refine (takes_bracketedArgs he _ (h.began_span.later onto₁).start_le).bind ?_
    intro args _ _ onto₂ ha
    have onto := Onto.trans onto₁ onto₂
    exact finished onto (.message (receiver onto) ha)
  · exact .pure h

theorem parses_postfixOf (h : Parsed text start node s) :
    (along text).Takes (postfixOf expression node) s (Parsed text start) :=
  .repeating (I := Parsed text start) (fun _ _ => parses_postfixRound he) h

/-! ## Operators -/

omit he in
/-- An operator between two operands. -/
theorem parsed_binary {left right : Node} {start' : Span} (op : String)
    (hl : Parsed text start left s) (onto : Onto s s')
    (le : noLater start.start start'.start = true) (hr : Parsed text start' right s') :
    Parsed text start (binary left op right) s' := by
  have after : noLater left.span.start right.span.start = true := by
    rw [hl.start, hr.start]
    exact le
  obtain ⟨leftEnds, rightEnds⟩ := Span.finish_le_merge hl.nested.inText hr.nested.inText
  refine hl.onward onto ((hl.began_span.later onto).merged hr.nested.inText after hr.finish ?_)
  refine .message ?_ (List.forall_mem_singleton.mpr ⟨hr.nested, after, rightEnds⟩)
  rintro _ ⟨⟩
  exact ⟨hl.nested, noLater_refl _, leftEnds⟩

/-- The signs before an operand that starts with the span, the last one first: they stand one before
the other, and the first one starts with the first span. -/
def Signed (text : List Char) (first : Span) (s : State) : List (String × Span) → Span → Prop
  | [], start => start = first
  | (_, sign) :: signs, start => Began text sign s ∧ noLater sign.start start.start = true
    ∧ Signed text first s signs sign

omit he in
theorem Signed.later {signs : List (String × Span)} {first start : Span} (onto : Onto s s')
    (h : Signed text first s signs start) : Signed text first s' signs start := by
  induction signs generalizing start with
  | nil => exact h
  | cons sign signs ih => exact ⟨h.1.later onto, h.2.1, ih h.2.2⟩

omit he in
theorem parsed_applySigns {signs : List (String × Span)} {first : Span}
    (h : Signed text first s signs start) (ho : Parsed text start node s) :
    Parsed text first (applySigns signs node) s := by
  induction signs generalizing start node with
  | nil =>
    obtain rfl : start = first := h
    exact ho
  | cons sign signs ih =>
    obtain ⟨began, le, before⟩ := h
    refine ih before (began.merged ho.nested.inText (ho.start ▸ le) ho.finish ?_)
    refine .message ?_ nofun
    rintro _ ⟨⟩
    exact ⟨ho.nested, ho.start ▸ le, (Span.finish_le_merge began.inText ho.nested.inText).2⟩

theorem parses_unary : Parses text (unary expression) := by
  intro s₀
  unfold unary
  refine .repeating (I := fun signs s => Signed text s₀.current.span s signs s.current.span)
    (fun signs s hs => ?_) rfl
  have signed {operand : Node} {s' : State} (onto : Onto s s')
      (h : Parsed text s.current.span operand s') :
      (along text).Takes (do return .done (applySigns signs (← postfixOf expression operand)) :
        Parser (Round (List (String × Span)) Node)) s'
        (After (fun signs s => Signed text s₀.current.span s signs s.current.span)
          (Parsed text s₀.current.span)) :=
    (parses_postfixOf he h).bind fun _ _ _ onto' hn =>
      .pure (parsed_applySigns (hs.later (Onto.trans onto onto')) hn)
  refine .from_ fun lined => .currentSpan (.kind ?_)
  have more (op : String) (other : s.current.kind ≠ .endOfInput) :
      Signed text s₀.current.span s.next ((op, s.current.span) :: signs) s.next.current.span := by
    have began := Lined.began lined other
    exact ⟨began, began.start_le, hs.later (Lined.next lined).2⟩
  split
  · next hk =>
    have other : s.current.kind ≠ .endOfInput := hk ▸ nofun
    refine Takes.advance.bind fun _ s₁ _ onto₁ hs₁ => .kind ?_
    have began : Began text s.current.span s₁ := hs₁ ▸ Lined.began lined other
    split
    · refine Takes.advance.bind fun _ s₂ lined₂ onto₂ _ => .previousSpan ?_
      exact signed (Onto.trans onto₁ onto₂) ((began.later onto₂).parsed lined₂ (.atom rfl))
    · exact .pure (hs₁ ▸ more "-@" other)
  · next hk => exact .pass (.pure (more "!" (hk ▸ nofun)))
  · exact .unsupported
  · exact (parses_primary he s).bind fun operand _ _ onto h => signed onto h

omit he in
theorem parses_leftGrouped {operand : Parser Node} (ops : List Punct)
    (ho : Parses text operand) : Parses text (leftGrouped ops operand) := by
  intro s₀
  unfold leftGrouped
  refine (ho s₀).bind fun left s₁ _ _ h₁ => ?_
  refine .repeating (I := Parsed text s₀.current.span) (fun left s hl => .kind ?_) h₁
  split
  · refine .ite (Takes.advance.bind fun _ s₁ _ onto₁ _ => ?_) (.pure hl)
    refine (ho s₁).bind fun right s₂ _ onto₂ hr => .pure ?_
    exact parsed_binary _ hl (Onto.trans onto₁ onto₂) (hl.began.later onto₁).start_le hr
  · exact .pure hl

omit he in
theorem parses_foldl_leftGrouped (ranks : List (List Punct)) {operand : Parser Node}
    (ho : Parses text operand) :
    Parses text (ranks.foldl (fun operand ops => leftGrouped ops operand) operand) := by
  induction ranks generalizing operand with
  | nil => exact ho
  | cons ops ranks ih => exact ih (parses_leftGrouped ops ho)

theorem parses_logical : Parses text (logical expression) := by
  intro s
  unfold logical
  refine (parses_foldl_leftGrouped ranks (parses_unary he) s).bind fun left _ _ _ hl => .kind ?_
  exact .ite (.currentSpan .unsupported) (.pure hl)

/-! ## Assignment -/

theorem parses_assignTo {current : Node} (hc : Parsed text start current s) (target : Target)
    (how : Assignment) :
    (along text).Takes (assignTo expression target current how start) s (Parsed text start) := by
  unfold assignTo
  refine Takes.skipNewlines.bind fun _ s₁ _ onto₁ _ => ?_
  refine (he s₁).bind fun right s₂ lined onto₂ hr => ?_
  have onto := Onto.trans onto₁ onto₂
  have le := (hc.began.later onto₁).start_le
  refine .previousSpan (.pure ((hc.began.later onto).parsed lined (.assign ?_)))
  cases how with
  | plain => exact hr.lies le
  | compound op => exact (parsed_binary op hc onto le hr).lies (noLater_refl _)

omit he in
/-- A writer takes the receiver and the arguments of its reader. -/
theorem lies_writer {form : Form} {receiver value : Node} {name : String} {args : List Node}
    (h : reader? form = some (receiver, name, args)) (hform : form.Lies text first last)
    (hv : value.Lies text first last) (writer : String) :
    (Form.message (some receiver) writer (args ++ [value])).Lies text first last := by
  unfold reader? at h
  split at h
  · split at h
    · cases h
      have operand (child : Node) (hc : child ∈ receiver :: args) :
          child.Lies text first last :=
        hform.operands child hc fun ⟨_, _, _, made⟩ => nomatch made
      refine .message ?_ (List.forall_mem_append.mpr ⟨fun node hn => ?_, ?_⟩)
      · rintro _ ⟨⟩
        exact operand receiver List.mem_cons_self
      · exact operand node (List.mem_cons_of_mem _ hn)
      · exact List.forall_mem_singleton.mpr hv
    · cases h
  · cases h

theorem parses_assignExpression {left : Node} (hl : Parsed text start left s) (how : Assignment) :
    (along text).Takes (assignExpression expression start left how) s (Parsed text start) := by
  unfold assignExpression
  refine .currentSpan (Takes.advance.bind fun _ s₁ _ onto₁ _ => ?_)
  have hl₁ := hl.later onto₁
  split
  · exact parses_assignTo he hl₁ _ _
  · split
    · next hr =>
      refine (he s₁).bind fun value s₂ lined onto₂ hv => .previousSpan (.pure ?_)
      have first : noLater start.start left.span.start = true := by
        rw [hl₁.start]
        exact noLater_refl _
      have inside := hl₁.nested.inner.mono first hl₁.finish
      refine (hl₁.began.later onto₂).parsed lined (lies_writer hr (Onto.form onto₂ inside) ?_ _)
      exact hv.lies hl₁.began.start_le
    · exact .ite .unsupported .rejectAs

theorem parses_assignment : Parses text (assignment expression) := by
  intro s
  unfold assignment
  refine .from_ fun lined => .currentSpan (.kind (.followingKind ?_))
  split
  · next name how found =>
    have other : s.current.kind ≠ .endOfInput := by
      intro isEnd
      rw [isEnd] at found
      cases found
    have began := Lined.began lined other
    refine .pass (Takes.advance.bind fun _ s₁ _ onto₁ _ => ?_)
    refine (Takes.declare _).bind fun _ s₂ _ onto₂ _ => parses_assignTo he ?_ _ _
    have began₂ := began.later (Onto.trans onto₁ onto₂)
    exact ⟨Form.Lies.nested (.atom rfl) began₂.inText, began₂, rfl, began₂.finish⟩
  · refine (parses_logical he s).bind fun left s₁ _ _ hl => .kind ?_
    split
    · exact parses_assignExpression he hl _
    · exact .pure hl

end Expressions

/-! ## Programs -/

theorem parses_expression (levels : Nat) : Parses text (Parse.expression levels) := by
  induction levels with
  | zero => exact fun _ => .currentSpan .rejectAs
  | succ levels ih => exact parses_assignment ih

theorem takes_program (le : noLater first s.current.span.start = true) :
    (along text).Takes program s (BodyRead text first) := by
  unfold program
  refine (takes_body (parses_expression _) _ le).bind fun statements _ _ _ h => .at_ (.isFull ?_)
  refine .ite ((Takes.unexpected _).bind fun _ _ _ onto _ => .pure ?_) (.pure h)
  exact ⟨Onto.body onto h.lies, fun node hn => (h.began node hn).later onto⟩

/-- The tokens of a text stand behind its first place. -/
theorem lined_start (name source : String) (known : List String) :
    Lined source.toList (.start (.ofText name source)
      (Token.scan (.ofText name source)).tokens known) := by
  let stream := Stream.ofFile (.ofText name source)
  let start := State.start (.ofText name source) stream.tokens known
  have remaining : start.remaining = stream.tokens := remaining_start stream _ known
  obtain ⟨spans, order⟩ := Token.ordered_scan name source
  obtain ⟨others, final, tokens, isEnd, -⟩ := stream.ends
  have current : start.current ∈ stream.tokens := remaining ▸ List.mem_cons_self
  have inText : start.current.span.InText source.toList := spans _ current
  have behind {place : Nat × Nat} (h : Text.HasPlace source.toList place) :
      noLater (1, 1) place = true := by
    obtain ⟨line, ⟨before, -, -, number, -⟩, column, -⟩ := h
    rw [Span.noLater_iff]
    omega
  refine ⟨remaining ▸ spans, remaining ▸ order, fun t ht => ?_,
    (Token.Cursor.Within.start source.toList).position.point, behind inText.start,
    behind inText.finish⟩
  have last : t ∈ stream.tokens.getLast? := remaining ▸ ht
  rw [tokens, List.getLast?_concat] at last
  cases last
  exact isEnd

variable {name source : String} {known : List String} {nodes : Body}

theorem nested_of_parse (h : parse name source known = .ok nodes) :
    ∃ last, Body.Lies source.toList (1, 1) last nodes := by
  have lined := lined_start name source known
  have first : noLater (1, 1) _ = true := lined.start
  obtain ⟨-, -, gives⟩ := takes_program first lined
  exact ⟨_, (gives nodes (ofText_of_parse h)).lies⟩

/-- **Spans nest.** The statements of a program start one behind the other. Each node of it, at any
depth, has a span in the text that does not end before it starts, unless it is the condition that
was made up for several statements in the place of one. The span of a node covers the spans of the
nodes inside it, but for that condition, and the statements of each of its bodies start one behind
the other. -/
theorem spans_nest (h : parse name source known = .ok nodes) :
    (nodes.Pairwise fun node node' => node.span.StartsBefore node'.span)
      ∧ ∀ node, nodes.Contains node →
        (node.span.InText source.toList
          ∨ ∃ outer, nodes.Contains outer ∧ outer.form.MadeUp node)
        ∧ (∀ child, node.form.Holds child →
          node.span.Covers child.span ∨ node.form.MadeUp child)
        ∧ ∀ body ∈ node.form.bodies,
          body.Pairwise fun child child' => child.span.StartsBefore child'.span := by
  obtain ⟨last, lies⟩ := nested_of_parse h
  refine ⟨lies.increasing, fun node contains => ?_⟩
  rcases contains.nested fun top hm => (lies.statements top hm).nested with nested | made
  · exact ⟨.inl nested.inText, fun child holds => nested.covers holds,
      fun body hb => (nested.inner.bodies body hb).increasing⟩
  · obtain ⟨_, -, rfl, -⟩ := id made
    exact ⟨.inr made, fun child holds => (by cases holds), nofun⟩

/-- Several statements in parentheses. -/
def groupText : String :=
  "(begin\n  x = 1\n  x += -2\nend)"

/-- The outcome is one conditional with a condition that was made up and two statements. -/
def isGroup : Except ParseFailure Body → Bool
  | .ok [⟨.conditional [⟨⟨.localVar word, made⟩, [_, _]⟩] none, span⟩] =>
    word = "true" && made = ⟨0, 0, 0, 0⟩ && span = ⟨1, 1, 4, 4⟩
  | _ => false

/-- The statements are inside the parentheses, behind a condition that was made up. -/
theorem spans_nest_groupText :
    ∃ node, parse "main" groupText [] = .ok [node] ∧ node.span = ⟨1, 1, 4, 4⟩
      ∧ (∃ child, node.form.Holds child ∧ node.form.MadeUp child)
      ∧ ∀ body ∈ node.form.bodies, body.length = 2
        ∧ ∀ child ∈ body, node.span.Covers child.span ∨ node.form.MadeUp child := by
  have shape : isGroup (parse "main" groupText []) = true := by decide +kernel
  unfold isGroup at shape
  split at shape
  · next word made first second span accepted =>
    simp only [Bool.and_eq_true, decide_eq_true_eq] at shape
    obtain ⟨⟨rfl, rfl⟩, rfl⟩ := shape
    refine ⟨_, accepted, rfl, ⟨_, .condition List.mem_cons_self, rfl, [first, second],
      Nat.le_refl 2, rfl⟩, ?_⟩
    refine List.forall_mem_singleton.mpr ⟨rfl, fun child hc => ?_⟩
    obtain ⟨-, covers, -⟩ := (spans_nest accepted).2 _ ⟨_, List.mem_cons_self, .refl _⟩
    exact covers child (.branchBody List.mem_cons_self hc)
  · cases shape

end ScriptCompiler.Parse
