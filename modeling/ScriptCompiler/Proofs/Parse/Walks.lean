import ScriptCompiler.Proofs.Parse.Outcome

/-!
# Walks through a stream of tokens

What a parser does to its position, whatever else it does: where it may stand, and how the places
before and after a run are related. Only passing a token changes the position, so a property of
places that this step keeps is kept by every parser. The rules follow the steps that a parser is
made of.
-/

namespace ScriptCompiler.Parse

/-- Where parsers may stand, and which places are before which others. It depends on no more than
the tokens that are left and the span of the token before them. -/
structure Walk where
  Stands : State → Prop
  Leads : State → State → Prop
  same {s s' : State} : Stands s → s'.remaining = s.remaining → s'.previous = s.previous →
    Stands s' ∧ Leads s s'
  next {s : State} : Stands s → Stands s.next ∧ Leads s s.next
  trans {s s' s'' : State} : Leads s s' → Leads s' s'' → Leads s s''

namespace State

@[simp] theorem previous_bind (s : State) (name : String) :
    (s.bind name).previous = s.previous := by
  unfold bind
  split <;> rfl

end State

namespace Walk

variable {w : Walk}

theorem refl {s : State} (h : w.Stands s) : w.Leads s s :=
  (w.same h rfl rfl).2

/-- A parser that stands there walks on, and a result that it gives satisfies the postcondition. -/
def Takes {α : Type} (w : Walk) (p : Parser α) (s : State) (post : α → State → Prop) : Prop :=
  w.Stands s →
    w.Stands (p.run s).2 ∧ w.Leads s (p.run s).2 ∧ ∀ a, (p.run s).1 = some a → post a (p.run s).2

/-- What is known after a round of a repetition. -/
def After {α β : Type} (I : α → State → Prop) (post : β → State → Prop) : Round α β → State → Prop
  | .again a, s => I a s
  | .done b, s => post b s

namespace Takes

variable {α β : Type} {s : State} {p q : Parser α} {f : α → Parser β} {Q post : α → State → Prop}
  {post' : β → State → Prop} {k : Token.Kind}

/-! ## Results and sequences -/

/-- The parser stands there. -/
theorem from_ (h : w.Stands s → w.Takes p s post) : w.Takes p s post :=
  fun hs => h hs hs

theorem mono (h : w.Takes p s Q)
    (hp : ∀ a s', w.Stands s' → w.Leads s s' → Q a s' → post a s') : w.Takes p s post := by
  intro hs
  obtain ⟨stands, leads, gives⟩ := h hs
  exact ⟨stands, leads, fun a ha => hp a _ stands leads (gives a ha)⟩

theorem any (h : w.Takes p s Q) : w.Takes p s Anywhere :=
  h.mono fun _ _ _ _ _ => trivial

theorem pure {a : α} (h : post a s) : w.Takes (Pure.pure a) s post := by
  intro hs
  refine ⟨hs, w.refl hs, ?_⟩
  rintro _ ⟨⟩
  exact h

theorem failure : w.Takes failure s post :=
  fun hs => ⟨hs, w.refl hs, nofun⟩

theorem bind (hp : w.Takes p s Q)
    (hf : ∀ a s', w.Stands s' → w.Leads s s' → Q a s' → w.Takes (f a) s' post') :
    w.Takes (p >>= f) s post' := by
  intro hs
  obtain ⟨stands, leads, gives⟩ := hp hs
  rw [run_bind]
  rcases h : p.run s with ⟨_ | a, s'⟩ <;> rw [h] at stands leads gives
  · exact ⟨stands, leads, nofun⟩
  · obtain ⟨stands', leads', gives'⟩ := hf a s' stands leads (gives a rfl) stands
    exact ⟨stands', w.trans leads leads', gives'⟩

theorem ite {c : Prop} [Decidable c] (yes : w.Takes p s post) (no : w.Takes q s post) :
    w.Takes (if c then p else q) s post := by
  split
  · exact yes
  · exact no

/-! ## Looking -/

section Looking

theorem kind {f : Token.Kind → Parser β} (h : w.Takes (f s.current.kind) s post') :
    w.Takes (Parse.kind >>= f) s post' := h

theorem followingKind {f : Token.Kind → Parser β} (h : w.Takes (f s.following.kind) s post') :
    w.Takes (Parse.followingKind >>= f) s post' := h

theorem currentSpan {f : Span → Parser β} (h : w.Takes (f s.current.span) s post') :
    w.Takes (Parse.currentSpan >>= f) s post' := h

theorem previousSpan {f : Span → Parser β} (h : w.Takes (f s.previous) s post') :
    w.Takes (Parse.previousSpan >>= f) s post' := h

theorem spaceBefore {f : Bool → Parser β} (h : w.Takes (f s.current.spaceBefore) s post') :
    w.Takes (Parse.spaceBefore >>= f) s post' := h

theorem isFull {f : Bool → Parser β} (h : w.Takes (f s.log.isFull) s post') :
    w.Takes (Parse.isFull >>= f) s post' := h

theorem isLocal {f : Bool → Parser β} {name : String}
    (h : w.Takes (f (State.sees name s.scopes)) s post') :
    w.Takes (Parse.isLocal name >>= f) s post' := h

theorem get {f : State → Parser β} (h : w.Takes (f s) s post') :
    w.Takes (MonadState.get >>= f) s post' := h

theorem at_ {f : Bool → Parser β} (h : w.Takes (f (decide (s.current.kind = k))) s post') :
    w.Takes (Parse.at_ k >>= f) s post' := h

theorem atParenArgs {f : Bool → Parser β}
    (h : ∀ b, (b = true → s.current.kind = .punct .openParen) → w.Takes (f b) s post') :
    w.Takes (Parse.atParenArgs >>= f) s post' := by
  refine h (decide (s.current.kind = .punct .openParen) && !s.current.spaceBefore) fun hb => ?_
  rw [Bool.and_eq_true, decide_eq_true_eq] at hb
  exact hb.1

theorem startsCommandArgs {f : Bool → Parser β} (h : ∀ b, w.Takes (f b) s post') :
    w.Takes (Parse.startsCommandArgs >>= f) s post' := by
  intro hs
  obtain ⟨b, hb⟩ := Goes.run_startsCommandArgs s
  rw [run_bind, hb]
  exact h b hs

/-- A choice by the current token. -/
theorem ifAt (yes : s.current.kind = k → w.Takes p s post)
    (no : s.current.kind ≠ k → w.Takes q s post) :
    w.Takes (Parse.at_ k >>= fun b => if b = true then p else q) s post := by
  refine at_ ?_
  by_cases h : s.current.kind = k
  · rw [decide_eq_true h, if_pos rfl]
    exact yes h
  · rw [decide_eq_false h, if_neg Bool.false_ne_true]
    exact no h

end Looking

/-! ## Passing tokens -/

theorem advance : w.Takes Parse.advance s fun _ s' => s' = s.next :=
  fun hs => ⟨(w.next hs).1, (w.next hs).2, fun _ _ => rfl⟩

theorem pass {f : Unit → Parser β} (h : w.Takes (f ()) s.next post') :
    w.Takes (Parse.advance >>= f) s post' :=
  advance.bind fun _ _ _ _ hs => hs ▸ h

theorem eat {f : Bool → Parser β} (yes : s.current.kind = k → w.Takes (f true) s.next post')
    (no : s.current.kind ≠ k → w.Takes (f false) s post') :
    w.Takes (Parse.eat k >>= f) s post' := by
  by_cases h : s.current.kind = k
  · have eaten : (Parse.eat k >>= f).run s = (Parse.advance >>= fun _ => f true).run s := by
      rw [run_bind, Goes.run_eat_of_eq h]
      rfl
    intro hs
    rw [eaten]
    exact pass (yes h) hs
  · intro hs
    rw [run_bind, Goes.run_eat_of_ne h]
    exact no h hs

theorem ifEat (yes : s.current.kind = k → w.Takes p s.next post)
    (no : s.current.kind ≠ k → w.Takes q s post) :
    w.Takes (Parse.eat k >>= fun b => if b = true then p else q) s post := by
  refine eat (fun h => ?_) (fun h => ?_)
  · rw [if_pos rfl]
    exact yes h
  · rw [if_neg Bool.false_ne_true]
    exact no h

theorem eats (k : Token.Kind) : w.Takes (Parse.eat k) s Anywhere := by
  unfold Parse.eat
  exact at_ (ite (pass (pure trivial)) (pure trivial))

theorem discardEat (k : Token.Kind) : w.Takes (discard (Parse.eat k)) s Anywhere :=
  (eats k).bind fun _ _ _ _ _ => pure trivial

/-! ## Faults -/

theorem report {code : Code} {message : String} {span : Span} :
    w.Takes (Parse.report code message span) s Anywhere := by
  intro hs
  have stays : w.Stands (s.report ⟨code, message, span, none⟩) ∧ w.Leads s _ :=
    w.same hs rfl rfl
  exact ⟨stays.1, stays.2, fun _ _ => trivial⟩

theorem unexpected (expected : String) : w.Takes (Parse.unexpected expected) s Anywhere := by
  unfold Parse.unexpected
  refine kind ?_
  split <;> exact currentSpan report

theorem reject (expected : String) :
    w.Takes (Parse.unexpected expected >>= fun _ => Alternative.failure (f := Parser)) s post :=
  (unexpected expected).bind fun _ _ _ _ _ => failure

theorem rejectAs {code : Code} {message : String} {span : Span} :
    w.Takes (Parse.report code message span >>= fun _ => Alternative.failure (f := Parser)) s
      post :=
  report.bind fun _ _ _ _ _ => failure

theorem unsupported {message suggestion : String} {span : Span} :
    w.Takes (Parse.unsupported message span suggestion) s post := by
  intro hs
  have stays : w.Stands (s.report ⟨.unsupportedSyntax, message, span, some suggestion⟩)
      ∧ w.Leads s _ := w.same hs rfl rfl
  exact ⟨stays.1, stays.2, nofun⟩

theorem unsupportedThen {message suggestion : String} {span : Span} :
    w.Takes (Parse.unsupported message span suggestion >>= f) s post' :=
  bind (Q := fun _ _ => False) unsupported fun _ _ _ _ h => h.elim

/-! ## Tokens that must come -/

theorem expect : w.Takes (Parse.expect k) s fun _ s' => s.current.kind = k ∧ s' = s.next := by
  unfold Parse.expect
  refine ifAt (fun h => ?_) fun _ => reject _
  exact advance.mono fun _ _ _ _ hs => ⟨h, hs⟩

theorem expectIdentifier : w.Takes Parse.expectIdentifier s fun _ s' =>
    s.current.kind ≠ .endOfInput ∧ s' = s.next := by
  unfold Parse.expectIdentifier
  refine kind ?_
  split
  · next name h => exact pass (pure ⟨h ▸ nofun, rfl⟩)
  · exact reject _

theorem expectConstant : w.Takes Parse.expectConstant s fun _ s' =>
    s.current.kind ≠ .endOfInput ∧ s' = s.next := by
  unfold Parse.expectConstant
  refine kind ?_
  split
  · next name h => exact pass (pure ⟨h ▸ nofun, rfl⟩)
  · exact reject _

theorem declare (name : String) : w.Takes (Parse.declare name) s fun _ s' =>
    s'.remaining = s.remaining ∧ s'.previous = s.previous := by
  intro hs
  have stays := w.same hs (s.remaining_bind name) (s.previous_bind name)
  exact ⟨stays.1, stays.2, fun _ _ => ⟨s.remaining_bind name, s.previous_bind name⟩⟩

/-! ## Control -/

theorem attempt (hp : w.Takes p s Q) :
    w.Takes (Parse.attempt p) s fun r s' => ∀ a, r = some a → Q a s' := by
  intro hs
  obtain ⟨stands, leads, gives⟩ := hp hs
  refine ⟨stands, leads, ?_⟩
  rintro _ ⟨⟩
  exact gives

theorem withDoBlocks {allowed : Bool}
    (h : w.Takes p { s with doBlocks := allowed } fun a s' =>
      post a { s' with doBlocks := s.doBlocks }) :
    w.Takes (Parse.withDoBlocks allowed p) s post := by
  intro hs
  have inside : w.Stands { s with doBlocks := allowed } ∧ w.Leads s _ := w.same hs rfl rfl
  obtain ⟨stands, leads, gives⟩ := h inside.1
  have outside : w.Stands ((Parse.withDoBlocks allowed p).run s).2 ∧ w.Leads _ _ :=
    w.same stands rfl rfl
  exact ⟨outside.1, w.trans inside.2 (w.trans leads outside.2), gives⟩

theorem inScope {closed : Bool}
    (h : w.Takes p { s with scopes := ⟨[], closed⟩ :: s.scopes } fun a s' =>
      post a { s' with scopes := s'.scopes.tail }) :
    w.Takes (Parse.inScope closed p) s post := by
  intro hs
  have inside : w.Stands { s with scopes := ⟨[], closed⟩ :: s.scopes } ∧ w.Leads s _ :=
    w.same hs rfl rfl
  obtain ⟨stands, leads, gives⟩ := h inside.1
  have outside : w.Stands ((Parse.inScope closed p).run s).2 ∧ w.Leads _ _ :=
    w.same stands rfl rfl
  exact ⟨outside.1, w.trans inside.2 (w.trans leads outside.2), gives⟩

/-! ## Repetition -/

section Rounds

variable {round : α → Parser (Round α β)} {I : α → State → Prop}

theorem rounds (h : ∀ a s, I a s → w.Takes (round a) s (After I post')) (fuel : Nat) {a : α}
    (ha : I a s) : w.Takes (Parse.rounds round fuel a) s post' := by
  induction fuel generalizing a s with
  | zero => exact failure
  | succ fuel ih =>
    unfold Parse.rounds
    refine (h a s ha).bind fun r s' _ _ hr => ?_
    cases r with
    | again a => exact ih hr
    | done b => exact pure hr

/-- What each round keeps is kept by all of them. -/
theorem repeating (h : ∀ a s, I a s → w.Takes (round a) s (After I post')) {a : α} (ha : I a s) :
    w.Takes (Parse.repeating round a) s post' := by
  unfold Parse.repeating
  exact get (rounds h _ ha)

end Rounds

theorem skipNewlines : w.Takes Parse.skipNewlines s Anywhere := by
  unfold Parse.skipNewlines
  refine repeating (I := Anywhere) (fun _ s _ => ifEat (fun _ => pure ?_) fun _ => pure ?_) trivial
  all_goals trivial

end Takes

/-! ## Parsers without nodes -/

section Words

variable {s : State}

theorem takes_synchronize : w.Takes synchronize s Anywhere := by
  unfold synchronize
  refine .pass (.repeating (I := Anywhere) (fun _ s _ => ?_) trivial)
  refine .ifAt (fun _ => .pure trivial) fun _ => .ifEat (fun _ => .pure trivial) fun _ => .kind ?_
  exact .ite (.pure trivial) (.pass (.pure trivial))

theorem takes_param : w.Takes param s Anywhere := by
  unfold param
  refine .currentSpan (.kind ?_)
  split
  · refine .pass (.ifAt (fun _ => .currentSpan .unsupported) fun _ => ?_)
    exact (Takes.declare _).bind fun _ _ _ _ _ => .pure trivial
  · refine .pass (Takes.expectIdentifier.bind fun name _ _ _ _ => ?_)
    exact (Takes.declare _).bind fun _ _ _ _ _ => .pure trivial
  · exact .unsupported
  · exact .unsupported
  · exact .reject _

theorem takes_params (close : Token.Kind) : w.Takes (params close) s Anywhere := by
  unfold params
  refine .repeating (I := Anywhere) (fun done s _ => ?_) trivial
  refine takes_param.bind fun p s _ _ _ => .ifAt (fun _ => .pure trivial) fun _ => ?_
  refine .ifEat (fun _ => ?_) fun _ => .pure trivial
  extract_lets jp
  have next (s : State) : w.Takes (jp ()) s (After Anywhere Anywhere) := .pure trivial
  exact .ite (Takes.skipNewlines.bind fun _ _ _ _ _ => next _) (next _)

theorem takes_skipThen : w.Takes skipThen s Anywhere := by
  unfold skipThen
  refine Takes.skipNewlines.bind fun _ _ _ _ _ => ?_
  exact .ifEat (fun _ => Takes.skipNewlines) fun _ => .pure trivial

theorem takes_rejectScoped : w.Takes rejectScoped s Anywhere := by
  unfold rejectScoped
  exact .ifAt (fun _ => .currentSpan .unsupported) fun _ => .pure trivial

theorem takes_writerMark : w.Takes writerMark s Anywhere := by
  unfold writerMark
  exact .at_ (.spaceBefore (.ite (.pass (.pure trivial)) (.pure trivial)))

theorem takes_definedName : w.Takes definedName s Anywhere := by
  unfold definedName
  refine .kind (.followingKind ?_)
  split
  · exact .pass (takes_writerMark.bind fun _ _ _ _ _ => .pure trivial)
  · refine .pass (Takes.expect.bind fun _ _ _ _ _ => ?_)
    exact takes_writerMark.bind fun _ _ _ _ _ => .pure trivial
  · exact .pass (.pass (.pure trivial))
  · split
    · exact .pass (.pure trivial)
    · exact .reject _

theorem takes_methodParams : w.Takes methodParams s Anywhere := by
  unfold methodParams
  refine .ifEat (fun _ => ?_) fun _ => ?_
  · refine Takes.skipNewlines.bind fun _ s _ _ _ => .at_ ?_
    extract_lets jp
    have rest (names : List Param) (s : State) : w.Takes (jp names) s Anywhere :=
      Takes.skipNewlines.bind fun _ _ _ _ _ => Takes.expect.bind fun _ _ _ _ _ => .pure trivial
    exact .ite (rest [] _) ((takes_params _).bind fun names _ _ _ _ => rest names _)
  · exact .at_ (.at_ (.ite (.pure trivial) (takes_params _)))

theorem takes_scopedName : w.Takes scopedName s Anywhere := by
  unfold scopedName
  refine .kind ?_
  split
  · exact .pass (.pure trivial)
  · exact .pass (.pure trivial)
  · exact .reject _

theorem takes_calledName : w.Takes calledName s Anywhere := by
  unfold calledName
  refine .kind ?_
  split
  · exact .pass (.pure trivial)
  · exact .reject _

end Words

end Walk

end ScriptCompiler.Parse
