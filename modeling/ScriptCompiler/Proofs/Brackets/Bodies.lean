import ScriptCompiler.Proofs.Brackets.Twins
import ScriptCompiler.Proofs.Parse.Directives

/-!
# Bodies and calls in two places

The parsers of statements, bodies and calls do the same in both places, if those of the expressions
inside them do.
-/

/-!
## Statements and bodies in two places

The parsers of statements and bodies give the same trees in both places, if those of the expressions
inside them do. A statement may end in front of a `do`; a body may not, so that there is a fault.
-/

namespace ScriptCompiler.Brackets

open Parse

/-! ### Trees without spans -/

/-- The nodes are the same, spans aside. -/
abbrev SameNode (a b : Node) : Prop :=
  a.bare = b.bare

/-- The bodies are the same, spans aside. -/
abbrev SameBody (a b : List Node) : Prop :=
  bareAll a = bareAll b

section Trees

variable {a b : Node} {as bs : List Node}

theorem sameNode_iff : SameNode a b ↔ a.form.bare = b.form.bare := by
  obtain ⟨form, span⟩ := a
  obtain ⟨form', span'⟩ := b
  constructor
  · intro h
    exact congrArg Node.form h
  · exact congrArg Node.synthetic

theorem sameBody_cons (h : SameNode a b) (hs : SameBody as bs) : SameBody (a :: as) (b :: bs) := by
  show a.bare :: bareAll as = b.bare :: bareAll bs
  rw [h, hs]

theorem bareAll_eq_map (nodes : List Node) : bareAll nodes = nodes.map Node.bare := by
  induction nodes with
  | nil => rfl
  | cons node nodes ih => exact congrArg (node.bare :: ·) ih

theorem sameBody_reverse (h : SameBody as bs) : SameBody as.reverse bs.reverse := by
  have h : bareAll as = bareAll bs := h
  rw [bareAll_eq_map, bareAll_eq_map] at h
  show bareAll _ = bareAll _
  rw [bareAll_eq_map, bareAll_eq_map, List.map_reverse, List.map_reverse, h]

theorem same_negate (h : SameNode a b) : SameNode (negate a) (negate b) :=
  congrArg (fun node => Node.synthetic (.message (some node) "!" [])) h

theorem same_apply (m : Modifier) {condition condition' : Node}
    (hc : SameNode condition condition') (h : SameNode a b) {span span' : Span} :
    SameNode ⟨m.apply condition a, span⟩ ⟨m.apply condition' b, span'⟩ := by
  have hc : condition.bare = condition'.bare := hc
  have h : a.bare = b.bare := h
  rcases m with _ | _ | kind <;> refine sameNode_iff.mpr ?_
  · show Form.conditional [⟨_, [_]⟩] none = .conditional [⟨_, [_]⟩] none
    rw [hc, h]
  · show Form.conditional [⟨(negate _).bare, [_]⟩] none = .conditional [⟨(negate _).bare, [_]⟩] none
    rw [same_negate hc, h]
  · show Form.loop kind _ [_] = .loop kind _ [_]
    rw [hc, h]

theorem namedDirective?_bare (form : Form) : namedDirective? form.bare = namedDirective? form := by
  cases form with
  | send receiver name args block =>
    match receiver, args with
    | none, [⟨form, _⟩] => rcases block with _ | ⟨_, _⟩ <;> cases form <;> rfl
    | none, [] => rfl
    | none, ⟨form, _⟩ :: _ :: _ => cases form <;> rfl
    | some _, _ => rfl
  | _ => rfl

theorem same_asDirective (h : SameNode a b) : SameNode (asDirective a) (asDirective b) := by
  have named : namedDirective? a.form = namedDirective? b.form := by
    rw [← namedDirective?_bare, sameNode_iff.mp h, namedDirective?_bare]
  rw [asDirective_eq, asDirective_eq, named]
  split
  · exact sameNode_iff.mpr rfl
  · exact h

end Trees

/-! ### Expressions inside -/

/-- Parsers of expressions that do the same in both places. Neither begins an expression in front of
a `do`. -/
structure Paired (c : Passage) (expression expression' : Parser Node) : Prop where
  twins {apart ok : Prop} : Twins c apart ok expression expression' SameNode Any
  goes : ∀ s, Goes c.stream 0 expression s (Ahead s)
  refuses : RefusesDo c expression'

section Statements

variable {c : Passage} {apart ok : Prop} {expression expression' : Parser Node}
  (he : Paired c expression expression')

include he

theorem twins_statement :
    Twins c apart ok (statement expression) (statement expression') SameNode Any := by
  unfold statement
  refine Twins.currentSpan.bindAny fun start start' => he.twins.bindAtDo (fun first first' => ?_) ?_
  · refine Twins.bindAtDo (R := SameNode) (W := Any) ?_ (fun whole whole' => ?_) fun whole => ?_
    · refine .repeatingHalting (I := SameNode) (J := Any) (fun stmt stmt' => ?_)
        (fun _ stmt _ _ => .kind (.pure ⟨stmt, rfl, trivial⟩)) fun hok => same_asDirective hok.2
      refine Twins.kind.bindEq fun k => ?_
      split
      · exact .pure fun hok => hok.2
      · next m _ =>
        refine Twins.advance.bindAny fun _ _ =>
          he.twins.bindHalting (fun condition condition' => ?_) ?_
        · refine Twins.previousSpan.bindAny fun _ _ => .pure fun hok => ?_
          exact same_apply m hok.2 hok.1.2
        · rintro - condition condition' - s₁ x s' ⟨⟩
          exact .inl (.previousSpan fun _ => .pure trivial)
    · refine Twins.kind.bindEq fun k => ?_
      split
      · exact .unsupportedHere
      · exact .pure fun hok => hok.2
    · exact .kind (.pure trivial)
  · intro first
    refine .bind (Q := fun _ => True) (.repeating (.kind (.pure ⟨_, rfl, trivial⟩))) fun _ _ => ?_
    exact .kind (.pure trivial)

omit he in
theorem refusesDo_statement (h : RefusesDo c expression') :
    RefusesDo c (statement expression') :=
  .currentSpan fun _ => h.bind

variable {ends : List Token.Kind}

theorem twins_bodyRound (noDo : .keyword .doKw ∉ ends) (done done' : List Node) :
    Twins c apart (ok ∧ SameBody done done') (bodyRound expression ends done)
      (bodyRound expression' ends done') (Twins.OfRounds SameBody SameBody) Never := by
  unfold bodyRound
  refine Twins.skipNewlines.bindAny fun _ _ => Twins.kind.bindEq fun k => ?_
  refine .ite (.pure fun hok => sameBody_reverse hok.2) ?_
  refine Twins.isFull.bindEq fun full => .ite (.pure fun hok => sameBody_reverse hok.2) ?_
  refine .attempt (twins_statement he) (fun s hs fails => ?_) .resume .resume
    (fun stmt stmt' => ?_) fun stmt => .kind ?_
  · exact (goes_statement he.goes hs (Nat.zero_le _)).fails fails
  · refine Twins.kind.bindEq fun next => .ite ?_ ?_
    · exact .pure fun hok => sameBody_cons hok.2 hok.1.2
    · refine .ofFault ?_ ?_ fun s _ => ?_
      · exact (GoesOn.unexpected _).bind fun _ => .resume
      · exact (GoesOn.unexpected _).bind fun _ => .resume
      · exact GoesOn.total_unexpected _ .resume s
  · rw [if_neg (by simp [endsStatement, noDo])]
    exact (FaultsAtDo.unexpected _).bind fun _ => .resume

theorem twins_body (noDo : .keyword .doKw ∉ ends) :
    Twins c apart ok (body expression ends) (body expression' ends) SameBody Never :=
  .repeating (twins_bodyRound he noDo) fun _ => rfl

/-- No statement begins with `do`. -/
theorem faultsAtDo_body (noDo : .keyword .doKw ∉ ends) :
    FaultsAtDo c (body expression' ends) := by
  have onward (done : List Node) : GoesOn (bodyRound expression' ends done) :=
    (twins_bodyRound he noDo done done : Twins c True (True ∧ _) _ _ _ _).right
  refine .repeating (fun t ht => ?_) onward
  unfold bodyRound
  rw [run_bind, run_skipNewlines_of_ne (by rw [ht.kind]; nofun)]
  dsimp only
  rw [run_kind, ht.kind, if_neg (by simp [noDo]), run_isFull, ht.clean]
  have refused := (refusesDo_statement he.refuses).faults.attempt
  refine refused.bind (fun r => ?_) t ht
  cases r with
  | none => exact .resume
  | some stmt =>
    refine GoesOn.bind (.looks fun _ => rfl) fun k => ?_
    split
    · exact .refl
    · exact (GoesOn.unexpected _).bind fun _ => .resume

end Statements

end ScriptCompiler.Brackets

/-!
## Calls in two places

Arguments and blocks stand in brackets or between words of their own, inside which `do` may start a
block, or may not, in both places alike. A call alone looks at where it stands: it takes the `do`
after it in one place and leaves it in the other one.
-/

namespace ScriptCompiler.Brackets

open Parse

section Parameters

variable {c : Passage} {apart ok : Prop}

theorem twins_param : Twins c apart ok param param Eq Never := by
  unfold param
  refine Twins.currentSpan.bindAny fun span span' => Twins.kind.bindEq fun k => ?_
  split
  · refine Twins.advance.bindAny fun _ _ => (Twins.at_ _).bindEq fun _ => .ite .unsupportedHere ?_
    exact (Twins.declare _).bindAny fun _ _ => .pure fun _ => rfl
  · refine Twins.advance.bindAny fun _ _ => Twins.expectIdentifier.bindEq fun name => ?_
    exact (Twins.declare _).bindAny fun _ _ => .pure fun _ => rfl
  · exact .unsupported (.unsupported _ _ _)
  · exact .unsupported (.unsupported _ _ _)
  · exact .reject _

theorem twins_params (close : Token.Kind) :
    Twins c apart ok (params close) (params close) Eq Never := by
  unfold params
  refine .repeatingEq (fun done => twins_param.bindEq fun p => ?_) []
  refine (Twins.at_ _).bindEq fun _ => .ite (.pure fun _ => rfl) ?_
  refine (Twins.eat _).bindEq fun _ => .ite ?_ (.pure fun _ => rfl)
  extract_lets jp
  have next : Twins c apart ok (jp ()) (jp ()) (Twins.OfRounds Eq Eq) Never := .pure fun _ => rfl
  exact .ite (Twins.skipNewlines.bindAny fun _ _ => next) next

end Parameters

section Calls

variable {c : Passage} {apart ok : Prop} {expression expression' : Parser Node}
  (he : Paired c expression expression')

include he

/-! ### Arguments -/

theorem twins_argument :
    Twins c apart ok (argument expression) (argument expression') SameNode Any := by
  unfold argument
  refine Twins.kind.bindEq fun k => ?_
  split
  · exact .unsupportedHere
  · exact .unsupportedHere
  · refine he.twins.bindAtDo (fun arg arg' => ?_) fun arg => ?_
    · exact (Twins.at_ _).bindEq fun _ => .ite .unsupportedHere (.pure And.right)
    · exact .at_ (by nofun) (.pure trivial)

theorem twins_commandArgs :
    Twins c apart ok (commandArgs expression) (commandArgs expression') SameBody Never := by
  unfold commandArgs
  refine .withDoBlocks (.repeating (I := SameBody) (fun done done' => ?_) fun _ => rfl)
  refine (twins_argument he).level.bind fun arg arg' => (Twins.eat _).bindEq fun _ => ?_
  refine .ite ?_ (.pure fun hok => ?_)
  · exact Twins.skipNewlines.bindAny fun _ _ => .pure fun hok => sameBody_cons hok.2 hok.1.2
  · exact sameBody_reverse (sameBody_cons hok.2 hok.1.2)

theorem twins_bracketedArgs (close : Punct) :
    Twins c apart ok (bracketedArgs expression close) (bracketedArgs expression' close) SameBody
      Never := by
  unfold bracketedArgs
  refine .withDoBlocks (Twins.skipNewlines.bindAny fun _ _ => Twins.bind (R := SameBody) ?_ ?_)
  · refine .repeating (I := SameBody) (fun done done' => ?_) fun _ => rfl
    refine (Twins.at_ _).bindEq fun _ => .ite (.pure fun hok => sameBody_reverse hok.2) ?_
    refine (twins_argument he).level.bind fun arg arg' => Twins.skipNewlines.bindAny fun _ _ => ?_
    refine (Twins.eat _).bindEq fun _ => .ite ?_ (.pure fun hok => ?_)
    · exact Twins.skipNewlines.bindAny fun _ _ => .pure fun hok => sameBody_cons hok.2 hok.1.2
    · exact sameBody_reverse (sameBody_cons hok.2 hok.1.2)
  · intro args args'
    refine Twins.skipNewlines.bindAny fun _ _ => (Twins.expect _).bindAny fun _ _ => ?_
    exact .pure And.right

/-! ### Blocks -/

/-- The blocks are the same, spans aside. -/
abbrev SameBlock (block block' : Option Block) : Prop :=
  bareBlock block = bareBlock block'

theorem twins_blockRest {close : Token.Kind} (noDo : close ≠ .keyword .doKw) :
    Twins c apart ok (blockRest expression close) (blockRest expression' close)
      (fun b b' => SameBlock (some b) (some b')) Never := by
  unfold blockRest
  refine .withDoBlocks (.inScope (Twins.skipNewlines.bindAny fun _ _ => ?_))
  refine (Twins.eat _).bindEq fun bar => ?_
  extract_lets rest closed rest' closed'
  have twins_rest (names : List Param) : Twins c False ok (rest names) (rest' names)
      (fun b b' => SameBlock (some b) (some b')) Never := by
    refine (twins_body he fun h => ?_).bind fun statements statements' => ?_
    · exact noDo (List.mem_singleton.mp h).symm
    refine (Twins.expect _).bindAny fun _ _ => .pure fun hok => ?_
    have same : bareAll statements = bareAll statements' := hok.2
    show some (Block.mk names _) = some (Block.mk names _)
    rw [same]
  have twins_closed (names : List Param) : Twins c False ok (closed names) (closed' names)
      (fun b b' => SameBlock (some b) (some b')) Never :=
    (Twins.expect _).bindAny fun _ _ => twins_rest names
  refine .ite ((Twins.at_ _).bindEq fun _ => ?_) ?_
  · exact .ite (twins_closed _) ((twins_params _).bindEq twins_closed)
  · exact (Twins.discardEat _).bindAny fun _ _ => twins_rest []

/-- In one place alone the call takes the `do` after it. -/
theorem twins_callBlock (command : Bool) :
    Twins c apart ok (callBlock expression command) (callBlock expression' command) SameBlock
      Any := by
  unfold callBlock
  have rest {close : Token.Kind} (noDo : close ≠ .keyword .doKw) :
      Twins c apart ok (do advance; return some (← blockRest expression close))
        (do advance; return some (← blockRest expression' close)) SameBlock Any :=
    Twins.advance.bindAny fun _ _ => (twins_blockRest he noDo).bind fun _ _ => .pure And.right
  exact (Twins.at_ _).bindEq fun _ =>
    .ite (rest nofun) (.ifDo (rest nofun) fun _ => rfl)

/-! ### Calls -/

omit he in
theorem same_send {receiver receiver' : Option Node} (name : String) {args args' : List Node}
    {block block' : Option Block} {span span' : Span}
    (hr : bareReceiver receiver = bareReceiver receiver') (ha : SameBody args args')
    (hb : SameBlock block block') :
    SameNode ⟨.send receiver name args block, span⟩ ⟨.send receiver' name args' block', span'⟩ := by
  refine sameNode_iff.mpr ?_
  show Form.send _ _ _ _ = .send _ _ _ _
  rw [hr, ha, hb]

theorem twins_call {receiver receiver' : Option Node} (name : String)
    (same : ok → bareReceiver receiver = bareReceiver receiver') :
    Twins c apart ok (call expression receiver name) (call expression' receiver' name) SameNode
      Any := by
  unfold call
  extract_lets rest rest'
  have twins_rest (start start' : Span) :
      Twins c apart ok (rest start) (rest' start') SameNode Any := by
    refine Twins.atParenArgs.bindEq fun _ => Twins.startsCommandArgs.bindEq fun _ => ?_
    extract_lets finish finish'
    have twins_finish (command : Bool) (args args' : List Node) :
        Twins c apart (ok ∧ SameBody args args') (finish (command, args)) (finish' (command, args'))
          SameNode Any := by
      refine (twins_callBlock he command).bindAtDo (fun block block' => ?_) fun block => ?_
      · refine Twins.previousSpan.bindAny fun _ _ => .pure fun hok => ?_
        exact same_send name (same hok.1.1) hok.1.2 hok.2
      · exact .previousSpan fun _ => .pure trivial
    refine .ite (Twins.advance.bindAny fun _ _ => ?_) (.ite ?_ ?_)
    · exact (twins_bracketedArgs he _).bind fun args args' => twins_finish false args args'
    · exact (twins_commandArgs he).bind fun args args' => twins_finish true args args'
    · exact (twins_finish false [] []).given fun hok => ⟨hok, rfl⟩
  have unreceived : Twins c apart ok (previousSpan >>= rest) (previousSpan >>= rest') SameNode
      Any :=
    Twins.previousSpan.bindAny twins_rest
  rcases receiver with _ | node <;> rcases receiver' with _ | node'
  · exact unreceived
  · exact ⟨unreceived.left, (twins_rest node'.span node'.span).right, fun hok => nomatch same hok⟩
  · exact ⟨(twins_rest node.span node.span).left, unreceived.right, fun hok => nomatch same hok⟩
  · exact twins_rest node.span node'.span

end Calls

end ScriptCompiler.Brackets
