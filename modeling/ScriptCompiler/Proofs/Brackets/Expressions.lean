import ScriptCompiler.Proofs.Brackets.Bodies

/-!
# Expressions in two places

Constructs that end with a word of their own, and with them the levels of expressions, do the same
in both places, if the second one has as many levels left as the first one.
-/

/-!
## Definitions and control flow in two places

What a reserved word opens and the word `end` closes goes on with its bodies as it would anywhere
else: none of these constructs lets `do` start blocks again inside it. A body that comes after a
`do` that was left reports it.
-/

namespace ScriptCompiler.Brackets

open Parse

/-! ### Parts of trees -/

/-- The forms are the same, spans aside. -/
abbrev SameForm (f g : Form) : Prop :=
  f.bare = g.bare

/-- The branches are the same, spans aside. -/
abbrev SameBranches (bs bs' : List Branch) : Prop :=
  bareBranches bs = bareBranches bs'

/-- The bodies are the same, spans aside, or both are missing. -/
abbrev SameOptional (x y : Option Body) : Prop :=
  bareOptional x = bareOptional y

/-- The rescue clauses are the same, spans aside, or both are missing. -/
abbrev SameClause : Option (Option String × Body) → Option (Option String × Body) → Prop :=
  Option.Rel fun p q => p.1 = q.1 ∧ SameBody p.2 q.2

section Trees

variable {a b : Node} {as bs : Body} {xs ys : List Branch}

theorem same_sequence (h : SameBody as bs) : SameForm (sequence as) (sequence bs) := by
  cases as with
  | nil =>
    cases bs with
    | nil => rfl
    | cons b bs => cases h
  | cons a as =>
    cases bs with
    | nil => cases h
    | cons b bs =>
      have heads : SameNode a b := (List.cons.inj h).1
      have tails : SameBody as bs := (List.cons.inj h).2
      cases as with
      | nil =>
        cases bs with
        | nil => exact sameNode_iff.mp heads
        | cons b' bs => cases tails
      | cons a' as =>
        cases bs with
        | nil => cases tails
        | cons b' bs =>
          show Form.conditional [⟨_, bareAll _⟩] none = .conditional [⟨_, bareAll _⟩] none
          rw [h]

theorem bareBranches_eq_map (xs : List Branch) :
    bareBranches xs = xs.map fun x => ⟨x.condition.bare, bareAll x.body⟩ := by
  induction xs with
  | nil => rfl
  | cons x xs ih =>
    obtain ⟨condition, body⟩ := x
    exact congrArg (Branch.mk condition.bare (bareAll body) :: ·) ih

theorem sameBranches_cons {x y : Branch} (h : SameBranches [x] [y]) (hs : SameBranches xs ys) :
    SameBranches (x :: xs) (y :: ys) := by
  obtain ⟨condition, body⟩ := x
  obtain ⟨condition', body'⟩ := y
  show _ :: bareBranches xs = _ :: bareBranches ys
  rw [hs, (List.cons.inj h).1]

theorem sameBranches_reverse (h : SameBranches xs ys) : SameBranches xs.reverse ys.reverse := by
  have h : bareBranches xs = bareBranches ys := h
  rw [bareBranches_eq_map, bareBranches_eq_map] at h
  show bareBranches _ = bareBranches _
  rw [bareBranches_eq_map, bareBranches_eq_map, List.map_reverse, List.map_reverse, h]

theorem sameBranches_singleton (h : SameNode a b) (hs : SameBody as bs) :
    SameBranches [⟨a, as⟩] [⟨b, bs⟩] := by
  show [Branch.mk a.bare (bareAll as)] = [Branch.mk b.bare (bareAll bs)]
  rw [h, hs]

theorem same_conditional {x y : Option Body} (h : SameBranches xs ys) (ho : SameOptional x y) :
    SameForm (.conditional xs x) (.conditional ys y) := by
  show Form.conditional _ _ = .conditional _ _
  rw [h, ho]

theorem isSome_eq {x y : Option Body} (h : SameOptional x y) : x.isSome = y.isSome := by
  cases x <;> cases y <;> first | rfl | cases h

end Trees

section Definitions

variable {c : Passage} {apart ok : Prop} {expression expression' : Parser Node}
  {W : Node → Node → Prop}
  (he : Paired c expression expression')

/-- A node from its first token up to the last one that was passed. -/
theorem twins_finish {f g : Form} {start start' : Span} (same : ok → SameForm f g) :
    Twins c apart ok (do return ⟨f, start.merge (← previousSpan)⟩)
      (do return ⟨g, start'.merge (← previousSpan)⟩) SameNode W :=
  Twins.previousSpan.bindAny fun _ _ => .pure fun hok => sameNode_iff.mpr (same hok)

/-- A node from its first token up to the word `end`. -/
theorem twins_end {f g : Form} {start start' : Span} (same : ok → SameForm f g) :
    Twins c apart ok (do expect (.keyword .endKw); return ⟨f, start.merge (← previousSpan)⟩)
      (do expect (.keyword .endKw); return ⟨g, start'.merge (← previousSpan)⟩) SameNode Any :=
  (Twins.expect _).bindAny fun _ _ => twins_finish same

include he

/-! ### Protected bodies -/

theorem twins_rescueClause :
    Twins c apart ok (rescueClause expression) (rescueClause expression') SameClause Never := by
  unfold rescueClause
  refine (Twins.eat _).bindEq fun _ => .ite ?_ (.pure fun _ => .none)
  refine Twins.kind.bindEq fun k => ?_
  extract_lets handler rest handler' rest'
  have twins_handler (name : Option String) :
      Twins c apart ok (handler name) (handler' name) SameClause Never := by
    refine (twins_body he (by decide)).bind fun body body' => ?_
    refine (Twins.at_ _).bindEq fun _ => .ite ?_ (.pure fun hok => .some ⟨rfl, hok.2⟩)
    exact .unsupportedThen (fun _ => .refl) fun _ => .refl
  have twins_rest : Twins c apart ok (rest ()) (rest' ()) SameClause Never := by
    refine (Twins.eat _).bindEq fun _ => .ite ?_ (twins_handler none)
    refine Twins.expectIdentifier.bindEq fun name => ?_
    exact (Twins.declare _).bindAny fun _ _ => twins_handler (some name)
  split
  · exact .unsupportedThen (fun _ => twins_rest.left) fun _ => twins_rest.right
  · exact twins_rest

theorem twins_rescueTail {protected_ protected' : Body}
    (same : ok → SameBody protected_ protected') :
    Twins c apart ok (rescueTail expression protected_) (rescueTail expression' protected') SameForm
      Never := by
  unfold rescueTail
  refine (twins_rescueClause he).bind fun clause clause' => ?_
  refine Twins.currentSpan.bindAny fun elseSpan elseSpan' => (Twins.eat _).bindEq fun _ => ?_
  extract_lets rest rest'
  have twins_rest (otherwise otherwise' : Option Body) :
      Twins c apart ((ok ∧ SameClause clause clause') ∧ SameOptional otherwise otherwise')
        (rest otherwise) (rest' otherwise') SameForm Never := by
    refine (Twins.at_ _).bindEq fun _ => ?_
    extract_lets finish finish'
    have sequenced : Twins c apart ((ok ∧ SameClause clause clause')
        ∧ SameOptional otherwise otherwise')
        (if otherwise.isSome then do
          report .unexpectedToken "'else' without 'rescue'" elseSpan
          failure
        else return sequence protected_)
        (if otherwise'.isSome then do
          report .unexpectedToken "'else' without 'rescue'" elseSpan'
          failure
        else return sequence protected') SameForm Never := by
      refine .iteEq (fun hok => isSome_eq hok.2) ?_ (.pure fun hok => same_sequence (same hok.1.1))
      exact .ofNone ((GoesOn.report _ _ _).bind fun _ => .refl)
        ((GoesOn.report _ _ _).bind fun _ => .refl) fun _ => rfl
    have twins_finish : Twins c apart ((ok ∧ SameClause clause clause')
        ∧ SameOptional otherwise otherwise') (finish ()) (finish' ()) SameForm Never := by
      rcases clause with _ | ⟨name, handler⟩ <;> rcases clause' with _ | ⟨name', handler'⟩
      · exact sequenced
      · exact ⟨sequenced.left, .refl, fun hok => nomatch hok.1.2⟩
      · exact ⟨.refl, sequenced.right, fun hok => nomatch hok.1.2⟩
      · refine .pure fun hok => ?_
        obtain ⟨⟨hok, ⟨rfl, handlers⟩⟩, others⟩ := hok
        show Form.rescue _ _ _ _ = .rescue _ _ _ _
        rw [same hok, handlers, others]
    refine .ite (.unsupportedThen ?_ ?_) twins_finish
    · exact fun _ => twins_finish.left
    · exact fun _ => twins_finish.right
  refine .ite ?_ ((twins_rest none none).given fun hok => ⟨hok, rfl⟩)
  refine (twins_body he (by decide)).bind fun body body' => ?_
  exact (twins_rest (some body) (some body')).given fun hok => ⟨hok.1, congrArg some hok.2⟩

/-- What stands between the words `begin` and `end`. -/
def blockInside (expression : Parser Node) : Parser Form := do
  let protected_ ← body expression
    [.keyword .endKw, .keyword .rescueKw, .keyword .elseKw, .keyword .ensureKw]
  rescueTail expression protected_

omit he in
theorem beginBlock_eq (expression : Parser Node) :
    beginBlock expression = do
      let start ← currentSpan
      advance
      let form ← blockInside expression
      expect (.keyword .endKw)
      return ⟨form, start.merge (← previousSpan)⟩ := by
  unfold beginBlock blockInside
  simp only [bind_assoc]

theorem twins_blockInside :
    Twins c apart ok (blockInside expression) (blockInside expression') SameForm Never :=
  (twins_body he (by decide)).bind fun _ _ => twins_rescueTail he And.right

theorem twins_beginBlock :
    Twins c apart ok (beginBlock expression) (beginBlock expression') SameNode Any := by
  rw [beginBlock_eq, beginBlock_eq]
  refine Twins.currentSpan.bindAny fun start start' => Twins.advance.bindAny fun _ _ => ?_
  exact (twins_blockInside he).bind fun form form' => twins_end And.right

/-! ### Conditionals and loops -/

omit he in
theorem twins_skipThen : Twins c apart ok skipThen skipThen Any Never := by
  unfold skipThen
  refine Twins.skipNewlines.bindAny fun _ _ => (Twins.eat _).bindEq fun _ => ?_
  exact .ite .skipNewlines (.pure fun _ => trivial)

theorem twins_elseClause :
    Twins c apart ok (elseClause expression) (elseClause expression') SameOptional Never := by
  unfold elseClause
  refine (Twins.eat _).bindEq fun _ => .ite ?_ (.pure fun _ => rfl)
  exact (twins_body he (by decide)).bind fun _ _ => .pure fun hok => congrArg some hok.2

/-- After a condition that stays in front of a `do` the body reports it. -/
theorem faultsAtDo_then {β : Type} {ends : List Token.Kind} (noDo : .keyword .doKw ∉ ends)
    {f : Body → Parser β} (onward : ∀ body, GoesOn (f body)) :
    FaultsAtDo c (skipThen >>= fun _ => body expression' ends >>= f) :=
  StaysAtDo.skipThen.bindFaults fun _ _ => (faultsAtDo_body he noDo).bind onward

theorem twins_branch :
    Twins c apart ok (branch expression) (branch expression')
      (fun b b' => SameBranches [b] [b']) Never := by
  unfold branch
  refine he.twins.bindFaults (fun condition condition' => ?_) fun condition => ?_
  · refine twins_skipThen.bindAny fun _ _ => (twins_body he (by decide)).bind fun _ _ => ?_
    exact .pure fun hok => sameBranches_singleton hok.1.2 hok.2
  · exact faultsAtDo_then he (by decide) fun _ => .refl

theorem twins_ifBlock :
    Twins c apart ok (ifBlock expression) (ifBlock expression') SameNode Any := by
  unfold ifBlock
  refine Twins.currentSpan.bindAny fun start start' => Twins.advance.bindAny fun _ _ => ?_
  refine (twins_branch he).bind fun first first' => Twins.bind (R := SameBranches) ?_ ?_
  · refine .repeating (I := SameBranches) (fun done done' => ?_) And.right
    refine (Twins.eat _).bindEq fun _ => .ite ?_ ?_
    · exact (twins_branch he).bind fun _ _ => .pure fun hok => sameBranches_cons hok.2 hok.1.2
    · exact .pure fun hok => sameBranches_reverse hok.2
  · intro branches branches'
    refine (twins_elseClause he).bind fun otherwise otherwise' => ?_
    exact twins_end fun hok => same_conditional hok.1.2 hok.2

theorem twins_unlessBlock :
    Twins c apart ok (unlessBlock expression) (unlessBlock expression') SameNode Any := by
  unfold unlessBlock
  refine Twins.currentSpan.bindAny fun start start' => Twins.advance.bindAny fun _ _ => ?_
  have rest (condition condition' : Node) (statements statements' : Body) :
      Twins c apart (((ok ∧ SameNode condition condition') ∧ SameBody statements statements'))
        (do
          let otherwise ← elseClause expression
          expect (.keyword .endKw)
          let span := start.merge (← previousSpan)
          return ⟨.conditional [⟨negate condition, statements⟩] otherwise, span⟩)
        (do
          let otherwise ← elseClause expression'
          expect (.keyword .endKw)
          let span := start'.merge (← previousSpan)
          return ⟨.conditional [⟨negate condition', statements'⟩] otherwise, span⟩)
        SameNode Any := by
    refine (twins_elseClause he).bind fun otherwise otherwise' => twins_end fun hok => ?_
    exact same_conditional (sameBranches_singleton (same_negate hok.1.1.2) hok.1.2) hok.2
  refine he.twins.bindFaults (fun condition condition' => ?_) fun condition' => ?_
  · refine twins_skipThen.bindAny fun _ _ => (twins_body he (by decide)).bind ?_
    exact rest condition condition'
  · exact faultsAtDo_then he (by decide) fun body => (rest condition' condition' body body).right

theorem twins_loopBlock (loop : LoopKind) :
    Twins c apart ok (loopBlock expression loop) (loopBlock expression' loop) SameNode Any := by
  unfold loopBlock
  refine Twins.currentSpan.bindAny fun start start' => Twins.advance.bindAny fun _ _ => ?_
  refine Twins.bind (R := SameNode) (.withDoBlocks he.twins.level) fun condition condition' => ?_
  refine (Twins.discardEat _).bindAny fun _ _ => ?_
  refine (twins_body he (by decide)).bind fun body body' => ?_
  refine twins_end fun hok => ?_
  show Form.loop _ _ _ = .loop _ _ _
  rw [hok.1.2, hok.2]

/-! ### Classes and modules -/

omit he in
theorem twins_rejectScoped : Twins c apart ok rejectScoped rejectScoped Any Never := by
  unfold rejectScoped
  exact (Twins.at_ _).bindEq fun _ => .ite .unsupportedHere (.pure fun _ => trivial)

theorem twins_namespaceBody :
    Twins c apart ok (namespaceBody expression) (namespaceBody expression') SameBody Never := by
  unfold namespaceBody
  refine Twins.bind (R := SameBody) (.inScope (twins_body he (by decide))) fun body body' => ?_
  exact (Twins.expect _).bindAny fun _ _ => .pure And.right

theorem twins_classBlock :
    Twins c apart ok (classBlock expression) (classBlock expression') SameNode Any := by
  unfold classBlock
  refine Twins.currentSpan.bindAny fun start start' => Twins.advance.bindAny fun _ _ => ?_
  refine (Twins.at_ _).bindEq fun _ => ?_
  extract_lets header header'
  have twins_header : Twins c apart ok (header ()) (header' ()) SameNode Any := by
    refine Twins.expectConstant.bindEq fun name => twins_rejectScoped.bindAny fun _ _ => ?_
    refine (Twins.eat _).bindEq fun _ => ?_
    extract_lets rest rest'
    have twins_rest (superclass : Option String) :
        Twins c apart ok (rest superclass) (rest' superclass) SameNode Any := by
      refine (twins_namespaceBody he).bind fun body body' => twins_finish fun hok => ?_
      exact congrArg (Form.classDef name superclass) hok.2
    refine .ite (Twins.expectConstant.bindEq fun superclass => ?_) (twins_rest none)
    exact twins_rejectScoped.bindAny fun _ _ => twins_rest (some superclass)
  refine .ite (.unsupportedThen ?_ ?_) twins_header
  · exact fun _ => twins_header.left
  · exact fun _ => twins_header.right

theorem twins_moduleBlock :
    Twins c apart ok (moduleBlock expression) (moduleBlock expression') SameNode Any := by
  unfold moduleBlock
  refine Twins.currentSpan.bindAny fun start start' => Twins.advance.bindAny fun _ _ => ?_
  refine Twins.expectConstant.bindEq fun name => twins_rejectScoped.bindAny fun _ _ => ?_
  refine (twins_namespaceBody he).bind fun body body' => twins_finish fun hok => ?_
  exact congrArg (Form.moduleDef name) hok.2

/-! ### Methods -/

omit he in
theorem twins_writerMark : Twins c apart ok writerMark writerMark Eq Never := by
  unfold writerMark
  refine (Twins.at_ _).bindEq fun _ => Twins.spaceBefore.bindEq fun _ => .ite ?_ ?_
  · exact Twins.advance.bindAny fun _ _ => .pure fun _ => rfl
  · exact .pure fun _ => rfl

omit he in
theorem twins_definedName : Twins c apart ok definedName definedName Eq Never := by
  unfold definedName
  have mark {name name' : String} : Twins c apart ok
      (do advance; return if ← writerMark then name else name')
      (do advance; return if ← writerMark then name else name') Eq Never :=
    Twins.advance.bindAny fun _ _ => twins_writerMark.bindEq fun _ => .pure fun _ => rfl
  refine .kinds (fun k l => ?_) fun l l' => ?_
  · split
    · exact mark
    · refine Twins.advance.bindAny fun _ _ => (Twins.expect _).bindAny fun _ _ => ?_
      exact twins_writerMark.bindEq fun _ => .pure fun _ => rfl
    · exact Twins.advance.bindAny fun _ _ => Twins.advance.bindAny fun _ _ => .pure fun _ => rfl
    · split
      · exact Twins.advance.bindAny fun _ _ => .pure fun _ => rfl
      · exact .reject _
  · exact Twins.advance.bindAny fun _ _ => .pure fun _ => rfl

omit he in
theorem twins_methodParams : Twins c apart ok methodParams methodParams Eq Never := by
  unfold methodParams
  refine (Twins.eat _).bindEq fun _ => .ite (Twins.skipNewlines.bindAny fun _ _ => ?_) ?_
  · refine (Twins.at_ _).bindEq fun _ => ?_
    extract_lets rest
    have twins_rest (names : List Param) : Twins c apart ok (rest names) (rest names) Eq Never := by
      refine Twins.skipNewlines.bindAny fun _ _ => (Twins.expect _).bindAny fun _ _ => ?_
      exact .pure fun _ => rfl
    exact .ite (twins_rest []) ((twins_params _).bindEq twins_rest)
  · refine (Twins.at_ _).bindEq fun _ => Twins.atEnd.bindEq fun _ => ?_
    exact .ite (.pure fun _ => rfl) (twins_params _)

theorem twins_methodRest (start start' : Span) (owner : Option String) (name : String) :
    Twins c apart ok (methodRest expression start owner name)
      (methodRest expression' start' owner name) SameNode Any := by
  unfold methodRest
  refine twins_methodParams.bindEq fun names => ?_
  refine (twins_body he (by decide)).bind fun statements statements' => ?_
  refine (Twins.at_ _).bindEq fun _ => (Twins.at_ _).bindEq fun _ => ?_
  extract_lets rest first rest' first'
  have twins_rest (statements statements' : Body) :
      Twins c apart (ok ∧ SameBody statements statements') (rest statements) (rest' statements')
        SameNode Any :=
    twins_end fun hok => congrArg (Form.methodDef owner name names) hok.2
  refine .ite ?_ (twins_rest statements statements')
  refine (twins_rescueTail he And.right).bind fun form form' => ?_
  refine Twins.previousSpan.bindAny fun finish finish' => (twins_rest _ _).given fun hok => ?_
  exact ⟨hok.1.1, sameBody_cons (sameNode_iff.mpr hok.2) rfl⟩

theorem twins_methodBlock :
    Twins c apart ok (methodBlock expression) (methodBlock expression') SameNode Any := by
  unfold methodBlock
  refine Twins.currentSpan.bindAny fun start start' => Twins.advance.bindAny fun _ _ => ?_
  have named (owner : Option String) : Twins c apart ok
      (do let name ← definedName; inScope true (methodRest expression start owner name))
      (do let name ← definedName; inScope true (methodRest expression' start' owner name))
      SameNode Any :=
    twins_definedName.bindEq fun name => .inScope (twins_methodRest he start start' owner name)
  refine .kinds (fun k l => ?_) fun l l' => named none
  refine .ite (Twins.advance.bindAny fun _ _ => Twins.advance.bindAny fun _ _ => ?_) ?_
  · exact named (owner? k l)
  · exact named (owner? k l)

end Definitions

end ScriptCompiler.Brackets

/-!
## Expressions in two places

The levels of expressions do the same in both places, if the second one has as many levels left as
the first one.
-/

namespace ScriptCompiler.Brackets

open Parse

/-! ### What an expression is -/

section Trees

variable {a b a' b' : Node}

theorem same_message (name : String) {args args' : List Node} (h : SameNode a b)
    (ha : SameBody args args') :
    SameForm (.message (some a) name args) (.message (some b) name args') := by
  show Form.send (some _) _ _ _ = .send (some _) _ _ _
  rw [h, ha]

theorem sameBody_append {as bs : List Node} (hs : SameBody as bs) (h : SameNode a b) :
    SameBody (as ++ [a]) (bs ++ [b]) := by
  have hs : bareAll as = bareAll bs := hs
  rw [bareAll_eq_map, bareAll_eq_map] at hs
  show bareAll _ = bareAll _
  rw [bareAll_eq_map, bareAll_eq_map, List.map_append, List.map_append, hs]
  exact congrArg (_ ++ [·]) h

theorem same_binary (op : String) (h : SameNode a b) (h' : SameNode a' b') :
    SameNode (binary a op a') (binary b op b') :=
  sameNode_iff.mpr (same_message op h (sameBody_cons h' rfl))

theorem same_applySigns {signs signs' : List (String × Span)}
    (hs : signs.map Prod.fst = signs'.map Prod.fst) (h : SameNode a b) :
    SameNode (applySigns signs a) (applySigns signs' b) := by
  induction signs generalizing signs' a b with
  | nil =>
    cases signs' with
    | nil => exact h
    | cons sign' signs' => cases hs
  | cons sign signs ih =>
    cases signs' with
    | nil => cases hs
    | cons sign' signs' =>
      obtain ⟨op, start⟩ := sign
      obtain ⟨op', start'⟩ := sign'
      have ops : op = op' := (List.cons.inj hs).1
      subst ops
      show SameNode (applySigns signs _) (applySigns signs' _)
      exact ih (List.cons.inj hs).2 (sameNode_iff.mpr (same_message op h rfl))

theorem isCommandHead_bare (form : Form) : isCommandHead form.bare = isCommandHead form := by
  cases form with
  | send receiver name args block =>
    rcases receiver with _ | _ <;> rcases args with _ | _ <;> rcases block with _ | ⟨_, _⟩ <;> rfl
  | _ => rfl

theorem isCommandHead_eq (h : SameNode a b) : isCommandHead a.form = isCommandHead b.form := by
  rw [← isCommandHead_bare, sameNode_iff.mp h, isCommandHead_bare]

theorem target?_bare (form : Form) : target? form.bare = target? form := by
  cases form with
  | send receiver name args block =>
    rcases receiver with _ | _ <;> rcases args with _ | _ <;> rcases block with _ | ⟨_, _⟩ <;> rfl
  | _ => rfl

theorem target?_eq (h : SameNode a b) : target? a.form = target? b.form := by
  rw [← target?_bare, sameNode_iff.mp h, target?_bare]

theorem hasReceiver_bare (form : Form) : hasReceiver form.bare = hasReceiver form := by
  cases form with
  | send receiver name args block => rcases receiver with _ | _ <;> rfl
  | _ => rfl

theorem hasReceiver_eq (h : SameNode a b) : hasReceiver a.form = hasReceiver b.form := by
  rw [← hasReceiver_bare, sameNode_iff.mp h, hasReceiver_bare]

theorem reader?_bare (form : Form) :
    reader? form.bare = (reader? form).map fun r => (r.1.bare, r.2.1, bareAll r.2.2) := by
  cases form with
  | send receiver name args block =>
    rcases receiver with _ | receiver <;> rcases block with _ | ⟨_, _⟩ <;> try rfl
    have isEmpty : (bareAll args).isEmpty = args.isEmpty := by cases args <;> rfl
    show (if name = "[]" || ((bareAll args).isEmpty && isAttribute name) then _ else _) =
      (if name = "[]" || (args.isEmpty && isAttribute name) then _ else _ : Option _).map _
    rw [isEmpty]
    split <;> rfl
  | _ => rfl

/-- The readers are the same, spans aside. -/
theorem sameReader (h : SameNode a b) :
    Option.Rel (fun r r' => SameNode r.1 r'.1 ∧ r.2.1 = r'.2.1 ∧ SameBody r.2.2 r'.2.2)
      (reader? a.form) (reader? b.form) := by
  have same := congrArg reader? (sameNode_iff.mp h)
  rw [reader?_bare, reader?_bare] at same
  revert same
  rcases reader? a.form with _ | r <;> rcases reader? b.form with _ | r'
  · exact fun _ => .none
  · nofun
  · nofun
  · intro same
    obtain ⟨receivers, same⟩ := Prod.mk.inj (Option.some.inj same)
    obtain ⟨names, args⟩ := Prod.mk.inj same
    exact .some ⟨receivers, names, args⟩

end Trees

section Expressions

variable {c : Passage} {apart ok : Prop} {expression expression' : Parser Node}
  (he : Paired c expression expression')

include he

/-! ### Operands -/

theorem twins_parenthesized :
    Twins c apart ok (parenthesized expression) (parenthesized expression') SameNode Any := by
  unfold parenthesized
  refine Twins.currentSpan.bindAny fun start start' => Twins.advance.bindAny fun _ _ => ?_
  refine Twins.bind (R := SameNode) (.withDoBlocks ?_) fun inner inner' => ?_
  · exact Twins.skipNewlines.bindAny fun _ _ => (twins_statement he).level
  · refine Twins.skipNewlines.bindAny fun _ _ => (Twins.expect _).bindAny fun _ _ => ?_
    exact twins_finish fun hok => sameNode_iff.mp hok.2

theorem twins_primary :
    Twins c apart ok (primary expression) (primary expression') SameNode Any := by
  unfold primary
  refine Twins.currentSpan.bindAny fun start start' => Twins.kind.bindEq fun first => ?_
  split
  · exact Twins.advance.bindAny fun _ _ => twins_finish fun _ => rfl
  split
  · next name _ =>
    refine Twins.advance.bindAny fun _ _ => (Twins.isLocal name).bindEq fun _ => ?_
    refine Twins.atParenArgs.bindEq fun _ => .ite (twins_finish fun _ => rfl) ?_
    exact twins_call he name fun _ => rfl
  · next name _ =>
    refine Twins.advance.bindAny fun _ _ => Twins.atParenArgs.bindEq fun _ => .ite ?_ ?_
    · exact twins_call he name fun _ => rfl
    · exact twins_finish fun _ => rfl
  · exact Twins.advance.bindAny fun _ _ => twins_call he _ fun _ => rfl
  · exact Twins.advance.bindAny fun _ _ => twins_call he _ fun _ => rfl
  · refine Twins.advance.bindAny fun _ _ => (twins_bracketedArgs he _).bind fun args args' => ?_
    exact twins_finish fun hok => congrArg Form.array hok.2
  · exact twins_parenthesized he
  · exact twins_ifBlock he
  · exact twins_unlessBlock he
  · exact twins_loopBlock he _
  · exact twins_loopBlock he _
  · exact twins_beginBlock he
  · exact twins_classBlock he
  · exact twins_moduleBlock he
  · exact twins_methodBlock he
  · exact .unsupported (.unsupported _ _ _)
  · exact .unsupported (.unsupported _ _ _)
  · exact .reject _

/-! ### What follows an operand -/

omit he in
theorem twins_scopedName : Twins c apart ok scopedName scopedName Eq Never := by
  unfold scopedName
  refine Twins.kind.bindEq fun k => ?_
  split
  · exact Twins.advance.bindAny fun _ _ => .pure fun _ => rfl
  · exact Twins.advance.bindAny fun _ _ => .pure fun _ => rfl
  · exact .reject _

omit he in
theorem twins_calledName : Twins c apart ok calledName calledName Eq Never := by
  unfold calledName
  refine Twins.kind.bindEq fun k => ?_
  split
  · exact Twins.advance.bindAny fun _ _ => .pure fun _ => rfl
  · exact .reject _

theorem twins_postfixRound (node node' : Node) :
    Twins c apart (ok ∧ SameNode node node') (postfixRound expression node)
      (postfixRound expression' node') (Twins.OfRounds SameNode SameNode)
      (Twins.OfRounds Any Any) := by
  have again {f g : Form} (same : (ok ∧ SameNode node node') → SameForm f g) :
      Twins c apart (ok ∧ SameNode node node')
        (do return Round.again ⟨f, node.span.merge (← previousSpan)⟩)
        (do return Round.again ⟨g, node'.span.merge (← previousSpan)⟩)
        (Twins.OfRounds SameNode SameNode (β := Node)) (Twins.OfRounds Any Any) :=
    Twins.previousSpan.bindAny fun _ _ => .pure fun hok => sameNode_iff.mpr (same hok)
  have same (hok : ok ∧ SameNode node node') :
      bareReceiver (some node) = bareReceiver (some node') :=
    congrArg some hok.2
  have call (name : String) : Twins c apart (ok ∧ SameNode node node')
      (do return Round.again (← Parse.call expression (some node) name))
      (do return Round.again (← Parse.call expression' (some node') name))
      (Twins.OfRounds SameNode SameNode (β := Node)) (Twins.OfRounds Any Any) :=
    (twins_call he name same).map (fun _ _ _ => id) fun _ _ _ => trivial
  unfold postfixRound
  refine .kindBefore .newline nofun rfl rfl (fun l => ?_) fun k hk => ?_
  · refine .ite (Twins.advance.bindAny fun _ _ => ?_) ?_
    · exact .pure And.right
    · exact .pure And.right
  · split
    · refine Twins.advance.bindAny fun _ _ => twins_calledName.bindEq fun name => call name
    · exact absurd rfl hk
    · refine Twins.advance.bindAny fun _ _ => twins_scopedName.bindEq fun name => ?_
      refine Twins.atParenArgs.bindEq fun _ => .ite (again fun hok => ?_) (call name)
      exact same_message name hok.2 rfl
    · refine Twins.spaceBefore.bindEq fun space => .iteEq (fun hok => ?_) (.pure And.right) ?_
      · rw [isCommandHead_eq hok.2]
      · refine Twins.advance.bindAny fun _ _ => (twins_bracketedArgs he _).bind fun args args' => ?_
        refine Twins.previousSpan.bindAny fun _ _ => .pure fun hok => sameNode_iff.mpr ?_
        exact same_message "[]" hok.1.2 hok.2
    · exact .pure And.right

omit he in
theorem staysAtDo_postfixOf (node : Node) :
    StaysAtDo c (postfixOf expression node) fun _ => True :=
  .repeating (.kind (.pure ⟨node, rfl, trivial⟩))

theorem twins_postfixOf {node node' : Node} (same : ok → SameNode node node') :
    Twins c apart ok (postfixOf expression node) (postfixOf expression' node') SameNode Any :=
  .repeatingHalting (twins_postfixRound he)
    (fun _ node _ _ => .kind (.pure ⟨node, rfl, trivial⟩)) same

/-! ### Operators -/

theorem twins_unary : Twins c apart ok (unary expression) (unary expression') SameNode Any := by
  unfold unary
  refine .repeatingHalting (I := fun signs signs' => signs.map Prod.fst = signs'.map Prod.fst)
    (J := Never) (fun signs signs' => ?_) (fun _ _ _ => False.elim) fun _ => rfl
  refine Twins.currentSpan.bindAny fun start start' => Twins.kind.bindEq fun k => ?_
  split
  · refine Twins.advance.bindAny fun _ _ => Twins.kind.bindEq fun l => ?_
    split
    · refine Twins.advance.bindAny fun _ _ => Twins.previousSpan.bindAny fun _ _ => ?_
      extract_lets literal literal'
      have same : SameNode literal literal' := rfl
      exact (twins_postfixOf he fun _ => same).map (fun hok _ _ => same_applySigns hok.2)
        fun _ _ => id
    · exact .pure fun hok => congrArg ("-@" :: ·) hok.2
  · exact Twins.advance.bindAny fun _ _ => .pure fun hok => congrArg ("!" :: ·) hok.2
  · exact .unsupported (.unsupported _ _ _)
  · rw [← bind_assoc, ← bind_assoc]
    refine Twins.map (W := Any) (R := SameNode) ?_ (fun hok _ _ => same_applySigns hok.2) ?_
    · exact (twins_primary he).bindAtDo (fun _ _ => twins_postfixOf he And.right)
        staysAtDo_postfixOf
    · exact fun _ _ => id

omit he in
theorem twins_leftGrouped {operand operand' : Parser Node} (ops : List Punct)
    (ho : ∀ {ok : Prop}, Twins c apart ok operand operand' SameNode Any) :
    Twins c apart ok (leftGrouped ops operand) (leftGrouped ops operand') SameNode Any := by
  unfold leftGrouped
  refine ho.bindAtDo (fun first first' => ?_) fun first => ?_
  · refine .repeatingHalting (I := SameNode) (J := Any) (fun left left' => ?_)
      (fun _ left _ _ => .kind (.pure ⟨left, rfl, trivial⟩)) And.right
    refine Twins.kind.bindEq fun k => ?_
    split
    · next mark =>
      refine .ite (Twins.advance.bindAny fun _ _ => ?_) (.pure And.right)
      exact ho.map (fun hok _ _ => same_binary mark.text hok.2) fun _ _ => id
    · exact .pure And.right
  · exact .repeating (.kind (.pure ⟨first, rfl, trivial⟩))

theorem twins_operators :
    Twins c apart ok (operators expression) (operators expression') SameNode Any := by
  have grouped (rs : List (List Punct)) {operand operand' : Parser Node}
      (ho : ∀ {ok : Prop}, Twins c apart ok operand operand' SameNode Any) :
      Twins c apart ok (rs.foldl (fun operand ops => leftGrouped ops operand) operand)
        (rs.foldl (fun operand ops => leftGrouped ops operand) operand') SameNode Any := by
    induction rs generalizing operand operand' with
    | nil => exact ho
    | cons ops rs ih => exact ih (twins_leftGrouped ops ho)
  exact grouped ranks (twins_unary he)

theorem twins_logical :
    Twins c apart ok (logical expression) (logical expression') SameNode Any := by
  unfold logical
  refine (twins_operators he).bindAtDo (fun left left' => ?_) fun left => .kind (.pure trivial)
  refine Twins.kind.bindEq fun next => .ite .unsupportedHere (.pure And.right)

/-! ### Assignment -/

/-- An expression goes on behind its left side if a sign of assignment comes there. -/
def assigned (expression : Parser Node) (start : Span) (left : Node) : Parser Node := do
  match assignment? (← kind) with
  | some how => assignExpression expression start left how
  | none => return left

theorem twins_assignTo (target : Target) {current current' : Node} (how : Parse.Assignment)
    (start start' : Span) (same : ok → SameNode current current') :
    Twins c apart ok (assignTo expression target current how start)
      (assignTo expression' target current' how start') SameNode Any := by
  unfold assignTo
  refine Twins.skipNewlines.bindAny fun _ _ => he.twins.bindAtDo (fun right right' => ?_) ?_
  · refine twins_finish fun hok => congrArg (Form.assign target) ?_
    cases how with
    | plain => exact hok.2
    | compound op => exact same_binary op (same hok.1) hok.2
  · exact fun _ => .previousSpan fun _ => .pure trivial

omit he in
theorem goesOn_assignExpression (onward : GoesOn expression)
    (onwardTo : ∀ target current how start, GoesOn (assignTo expression target current how start))
    (start : Span) (left : Node) (how : Parse.Assignment) :
    GoesOn (assignExpression expression start left how) := by
  unfold assignExpression
  refine .bind (.looks fun _ => rfl) fun opSpan => GoesOn.advance.bind fun _ => ?_
  split
  · exact onwardTo _ _ _ _
  split
  · exact onward.bind fun value => .bind (.looks fun _ => rfl) fun _ => .refl
  split
  · exact .unsupported _ _ _
  · exact (GoesOn.report _ _ _).bind fun _ => .refl

theorem twins_assignExpression {left left' : Node} (how : Parse.Assignment) (start start' : Span)
    (same : ok → SameNode left left') :
    Twins c apart ok (assignExpression expression start left how)
      (assignExpression expression' start' left' how) SameNode Any := by
  have twins_to (target : Target) (left left' : Node) (how : Parse.Assignment)
      (start start' : Span) :
      Twins c apart (SameNode left left') (assignTo expression target left how start)
        (assignTo expression' target left' how start') SameNode Any :=
    twins_assignTo he _ _ _ _ id
  have expressions : Twins c apart ok expression expression' SameNode Any := he.twins
  refine .assume ?_ ?_ fun hok => ?_
  · exact goesOn_assignExpression expressions.left
      (fun target current how start => (twins_to target current current how start start).left) _ _ _
  · exact goesOn_assignExpression expressions.right
      (fun target current how start => (twins_to target current current how start start).right)
      _ _ _
  have same := same hok
  unfold assignExpression
  refine Twins.currentSpan.bindAny fun opSpan opSpan' => Twins.advance.bindAny fun _ _ => ?_
  rw [target?_eq same]
  split
  · exact (twins_to _ _ _ _ _ _).given fun _ => same
  have failing : Twins c apart True
      (if how ≠ .plain && hasReceiver left.form then
        unsupported "compound assignment to an attribute or index is not supported" opSpan
          "assign to a local first: tmp = a.b + 1; a.b = tmp"
      else do
        report .invalidTarget ("cannot assign to " ++ left.form.kindName) left.span
        failure)
      (if how ≠ .plain && hasReceiver left'.form then
        unsupported "compound assignment to an attribute or index is not supported" opSpan'
          "assign to a local first: tmp = a.b + 1; a.b = tmp"
      else do
        report .invalidTarget ("cannot assign to " ++ left'.form.kindName) left'.span
        failure) SameNode Any := by
    refine .iteEq (fun _ => by rw [hasReceiver_eq same]) (.unsupported (.unsupported _ _ _)) ?_
    exact .ofNone ((GoesOn.report _ _ _).bind fun _ => .refl)
      ((GoesOn.report _ _ _).bind fun _ => .refl) fun _ => rfl
  have readers := sameReader same
  cases how with
  | compound op => exact failing
  | plain =>
    generalize reader? left.form = reader at readers ⊢
    generalize reader? left'.form = reader' at readers ⊢
    cases readers with
    | none => exact failing
    | @some r r' h =>
      obtain ⟨receiver, name, args⟩ := r
      obtain ⟨receiver', name', args'⟩ := r'
      obtain ⟨receivers, names, sameArgs⟩ := h
      cases names
      refine he.twins.bindAtDo (fun value value' => ?_)
        fun _ => .previousSpan fun _ => .pure trivial
      exact twins_finish fun hok => same_message _ receivers (sameBody_append sameArgs hok.2)

theorem twins_assignment :
    Twins c apart ok (assignment expression) (assignment expression') SameNode Any := by
  unfold assignment
  refine Twins.currentSpan.bindAny fun start start' => ?_
  have other : Twins c apart ok (logical expression >>= assigned expression start)
      (logical expression' >>= assigned expression' start') SameNode Any := by
    refine (twins_logical he).bindAtDo (fun left left' => ?_) fun left => .kind (.pure trivial)
    unfold assigned
    refine Twins.kind.bindEq fun k => ?_
    split
    · exact twins_assignExpression he _ _ _ And.right
    · exact .pure And.right
  refine .kinds (fun k l => ?_) fun l l' => other
  split
  · next name how _ =>
    refine Twins.advance.bindAny fun _ _ => Twins.advance.bindAny fun _ _ => ?_
    refine (Twins.declare _).bindAny fun _ _ => twins_assignTo he _ _ _ _ fun _ => rfl
  · exact other

/-! ### In front of a `do` -/

omit he in
/-- No expression begins with `do`. -/
theorem refusesDo_assignment : RefusesDo c (assignment expression) := by
  have primary_ : RefusesDo c (primary expression) :=
    .currentSpan fun _ => .kind (.reject _)
  have unary_ : RefusesDo c (unary expression) :=
    .repeating (.currentSpan fun _ => .kind primary_.bind)
  have grouped (rs : List (List Punct)) {operand : Parser Node} (ho : RefusesDo c operand) :
      RefusesDo c (rs.foldl (fun operand ops => leftGrouped ops operand) operand) := by
    induction rs generalizing operand with
    | nil => exact ho
    | cons ops rs ih => exact ih ho.bind
  have logical_ : RefusesDo c (logical expression) := (grouped ranks unary_).bind
  exact .currentSpan fun _ => .kind (.followingKind fun _ => logical_.bind)

omit he in
theorem refusesDo_expression (levels : Nat) : RefusesDo c (Parse.expression levels) := by
  cases levels with
  | zero =>
    intro t ht
    exact ⟨rfl, ht.report rfl⟩
  | succ levels => exact refusesDo_assignment

end Expressions

/-! ### All levels -/

variable {c : Passage}

theorem paired_succ {n m : Nat} (h : Paired c (expression n) (expression m)) :
    Paired c (expression (n + 1)) (expression (m + 1)) where
  twins := twins_assignment h
  goes := goes_expression (n + 1)
  refuses := refusesDo_expression (m + 1)

/-- The level below the lowest one has no result. -/
theorem paired_zero {m : Nat} (onward : GoesOn (expression m)) :
    Paired c (expression 0) (expression m) where
  twins := .ofNone (.bind (.looks fun _ => rfl) fun _ => (GoesOn.report _ _ _).bind fun _ => .refl)
    onward fun _ => rfl
  goes := goes_expression 0
  refuses := refusesDo_expression m

theorem paired_self (levels : Nat) : Paired c (expression levels) (expression levels) := by
  induction levels with
  | zero =>
    refine paired_zero (.bind (.looks fun _ => rfl) fun _ => ?_)
    exact (GoesOn.report _ _ _).bind fun _ => .refl
  | succ levels ih => exact paired_succ ih

/-- Where the second place has as many levels left as the first one, expressions do the same in
both. -/
theorem paired {n m : Nat} (h : n ≤ m) : Paired c (expression n) (expression m) := by
  induction n generalizing m with
  | zero =>
    have both : Twins c False True (expression m) (expression m) SameNode Any :=
      (paired_self m).twins
    exact paired_zero both.right
  | succ n ih =>
    obtain ⟨m, rfl⟩ := Nat.exists_eq_add_one.mpr (Nat.lt_of_lt_of_le (Nat.succ_pos n) h)
    exact paired_succ (ih (Nat.le_of_succ_le_succ h))

end ScriptCompiler.Brackets
