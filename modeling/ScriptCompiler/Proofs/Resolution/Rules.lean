import ScriptCompiler.Proofs.Parse.Calls
import ScriptCompiler.Proofs.Resolution.Traces

/-!
# What parsers meet

A parser that gives a result without a fault has met events on its way: the tokens it passed show
them, its scopes are what they make of the scopes before, and every identifier among them is read or
called as the scopes say. The rules follow the steps that a parser is made of; in the postcondition
stand the events of a result.
-/

namespace ScriptCompiler.Resolution

open Parse

/-! ## Events between two states -/

/-- On the way from one state to another these events were met. -/
structure Meets (s : State) (es : List Event) (s' : State) : Prop where
  marks : marks s.remaining = es.filterMap Event.mark? ++ marks s'.remaining
  scopes : s'.scopes = es.foldl Event.apply s.scopes
  resolved : Resolved s.scopes es
  nested : Nested es

/-- The current token, if it is an identifier of this name. -/
def mentionAt (s : State) (name : String) : Mention :=
  ⟨name, s.current.span, opensArgs s.rest⟩

/-- A token that shows nothing. -/
def isQuiet : Token.Kind → Bool
  | .identifier _ => false
  | .keyword word => !isLeading word
  | .punct .dot | .punct .scope => false
  | _ => true

theorem mark?_of_isQuiet {t : Token} (h : isQuiet t.kind = true) (after : List Token) :
    mark? t after = none := by
  unfold mark?
  split
  · next hk =>
    rw [hk] at h
    cases h
  · next word hk =>
    rw [hk] at h
    exact if_neg fun leading => by simp [isQuiet, leading] at h
  · next hk =>
    rw [hk] at h
    cases h
  · next hk =>
    rw [hk] at h
    cases h
  · rfl

namespace Meets

variable {stream : Stream} {s s' s'' : State} {es es' : List Event} {name : String}

theorem refl (s : State) : Meets s [] s :=
  ⟨rfl, rfl, trivial, .nil⟩

theorem trans (h : Meets s es s') (h' : Meets s' es' s'') : Meets s (es ++ es') s'' where
  marks := by rw [h.marks, h'.marks, List.filterMap_append, List.append_assoc]
  scopes := by rw [h'.scopes, h.scopes, List.foldl_append]
  resolved := h.resolved.append (h.scopes ▸ h'.resolved)
  nested := h.nested.append h'.nested

/-- A token is passed that shows nothing. -/
theorem quiet (h : isQuiet s.current.kind = true) : Meets s [] s.next := by
  by_cases hr : s.rest = []
  · rw [State.next_of_nil hr]
    exact .refl s
  · refine ⟨?_, State.scopes_next s, trivial, .nil⟩
    rw [State.remaining_next hr, State.remaining, Resolution.marks, mark?_of_isQuiet h]
    rfl

/-- A token is passed that shows an event. -/
theorem next {e : Event} {m : Mark} (hr : s.rest ≠ []) (shown : mark? s.current s.rest = some m)
    (he : e.mark? = some m) (same : Event.apply s.scopes e = s.scopes) (fits : e.Fits s.scopes)
    (nest : ∀ stack, e.nest stack = some stack) : Meets s [e] s.next where
  marks := by
    rw [State.remaining_next hr, State.remaining, Resolution.marks, shown]
    simp only [List.filterMap_cons, he, List.filterMap_nil]
    rfl
  scopes := by rw [State.scopes_next, List.foldl_cons, List.foldl_nil, same]
  resolved := ⟨fits, trivial⟩
  nested := fun stack => by
    rw [List.foldlM_cons, nest]
    rfl

theorem mark?_identifier (hk : s.current.kind = .identifier name) :
    mark? s.current s.rest = some (.mention (mentionAt s name)) := by
  unfold mark?
  rw [hk]
  rfl

theorem scopes_bind (s : State) (name : String) :
    (s.bind name).scopes = declare name s.scopes := by
  unfold State.bind
  split
  · next h =>
    rw [h]
    rfl
  · next h =>
    rw [h]
    rfl

/-- An identifier is passed that is bound then. -/
theorem bound (hr : s.rest ≠ []) (hk : s.current.kind = .identifier name) :
    Meets s [.mention (mentionAt s name) .bound] (s.next.bind name) where
  marks := by
    rw [State.remaining_bind, State.remaining_next hr, State.remaining, Resolution.marks,
      mark?_identifier hk]
    rfl
  scopes := by
    rw [scopes_bind, State.scopes_next]
    rfl
  resolved := ⟨trivial, trivial⟩
  nested := fun _ => rfl

/-- A scope is entered and left. -/
theorem inScope {closed : Bool} (h : Meets { s with scopes := ⟨[], closed⟩ :: s.scopes } es s') :
    Meets s (.enter closed :: (es ++ [.leave])) { s' with scopes := s'.scopes.tail } where
  marks := by
    have inner := h.marks
    simp only [List.filterMap_cons, List.filterMap_append, Event.mark?, List.filterMap_nil,
      List.append_nil]
    exact inner
  scopes := by
    rw [List.foldl_cons, List.foldl_append, List.foldl_cons, List.foldl_nil]
    exact congrArg List.tail h.scopes
  resolved := ⟨trivial, h.resolved.append ⟨trivial, trivial⟩⟩
  nested := h.nested.scope closed

end Meets

/-! ## Parsers -/

/-- What is known of the way to a result; its events are those that were met, unless there was a
fault. -/
structure Heard (s s' : State) (post : List Event → Prop) : Prop where
  moves : Moves s s'
  meets : ∃ es, post es ∧ (s'.log.total = s.log.total → Meets s es s')

/-- From a state in the stream the events of a result satisfy the postcondition. -/
def Hears {α : Type} (stream : Stream) (p : Parser α) (s : State) (post : α → List Event → Prop) :
    Prop :=
  s.In stream → ∀ a s', p.run s = (some a, s') → Heard s s' (post a)

/-- Nothing is met. -/
abbrev Nothing {α : Type} (_ : α) (es : List Event) : Prop :=
  es = []

theorem Heard.trans {s s' s'' : State} {es : List Event} {post : List Event → Prop}
    (moves : Moves s s') (meets : s'.log.total = s.log.total → Meets s es s')
    (h : Heard s' s'' fun es' => post (es ++ es')) : Heard s s'' post := by
  obtain ⟨moves', es', hp, meets'⟩ := h
  refine ⟨moves.trans moves', es ++ es', hp, fun clean => ?_⟩
  have le := moves.log
  have le' := moves'.log
  exact (meets (by omega)).trans (meets' (by omega))

namespace Hears

variable {stream : Stream} {α β : Type} {s s₁ : State} {p q : Parser α} {f : α → Parser β}
  {Q post : α → List Event → Prop} {post' : β → List Event → Prop} {k : Token.Kind}
  {name : String}

/-! ## Results and sequences -/

theorem from_ (h : s.In stream → Hears stream p s post) : Hears stream p s post :=
  fun hs => h hs hs

theorem mono (h : Hears stream p s Q) (hp : ∀ a es, Q a es → post a es) :
    Hears stream p s post := by
  intro hs a s' hr
  obtain ⟨moves, es, hQ, meets⟩ := h hs a s' hr
  exact ⟨moves, es, hp a es hQ, meets⟩

theorem pure {a : α} (h : post a []) : Hears stream (Pure.pure a) s post := by
  rintro _ _ _ ⟨⟩
  exact ⟨.refl s, [], h, fun _ => .refl s⟩

/-- A parser that never has a result. -/
theorem of_none (h : (p.run s).1 = none) : Hears stream p s post := by
  intro _ a s' hr
  rw [hr] at h
  cases h

/-- A fault is reported, and then the parser fails. -/
theorem reject (g : Parser β) :
    Hears stream (g >>= fun _ => Alternative.failure (f := Parser)) s post := by
  refine of_none ?_
  rw [run_bind]
  rcases g.run s with ⟨_ | b, s'⟩ <;> rfl

theorem unsupported (message : String) (span : Span) (suggestion : String) :
    Hears stream (Parse.unsupported message span suggestion) s post :=
  of_none rfl

/-- A parser that reports a fault. -/
theorem of_fault (es : List Event)
    (h : Goes stream s.log.total p s fun a s' => post a es ∧ s.log.total < s'.log.total) :
    Hears stream p s post := by
  intro hs a s' hr
  obtain ⟨moves, -, -, gives⟩ := h hs (Nat.le_refl _)
  rw [hr] at moves gives
  obtain ⟨hp, fault⟩ := gives a rfl
  exact ⟨moves, es, hp, fun clean => absurd clean (Nat.ne_of_gt fault)⟩

/-- The parser goes on from a later state. -/
theorem runs (es : List Event) (run : p.run s = q.run s₁) (moves : Moves s s₁)
    (meets : s.In stream → Meets s es s₁)
    (h : Hears stream q s₁ fun a es' => post a (es ++ es')) : Hears stream p s post := by
  intro hs a s' hr
  rw [run] at hr
  exact .trans moves (fun _ => meets hs) (h (moves.into hs) a s' hr)

/-- One parser after another. -/
theorem bind (hp : Hears stream p s Q)
    (hf : ∀ a es s₁, Q a es → Hears stream (f a) s₁ fun b es' => post' b (es ++ es')) :
    Hears stream (p >>= f) s post' := by
  intro hs b s' hr
  rw [run_bind] at hr
  rcases h : p.run s with ⟨_ | a, s₁⟩
  · rw [h] at hr
    cases hr
  rw [h] at hr
  obtain ⟨moves, es, hQ, meets⟩ := hp hs a s₁ h
  exact .trans moves meets (hf a es s₁ hQ (moves.into hs) b s' hr)

/-- After a parser that meets nothing. -/
theorem andThen (hp : Hears stream p s Nothing) (hf : ∀ a s₁, Hears stream (f a) s₁ post') :
    Hears stream (p >>= f) s post' := by
  refine hp.bind ?_
  rintro a _ s₁ rfl
  exact hf a s₁

/-! ## Looking -/

section Looking

theorem kind {f : Token.Kind → Parser β} (h : Hears stream (f s.current.kind) s post') :
    Hears stream (Parse.kind >>= f) s post' := h

theorem followingKind {f : Token.Kind → Parser β}
    (h : Hears stream (f s.following.kind) s post') :
    Hears stream (Parse.followingKind >>= f) s post' := h

theorem currentSpan {f : Span → Parser β} (h : Hears stream (f s.current.span) s post') :
    Hears stream (Parse.currentSpan >>= f) s post' := h

theorem previousSpan {f : Span → Parser β} (h : Hears stream (f s.previous) s post') :
    Hears stream (Parse.previousSpan >>= f) s post' := h

theorem spaceBefore {f : Bool → Parser β} (h : Hears stream (f s.current.spaceBefore) s post') :
    Hears stream (Parse.spaceBefore >>= f) s post' := h

theorem isFull {f : Bool → Parser β} (h : Hears stream (f s.log.isFull) s post') :
    Hears stream (Parse.isFull >>= f) s post' := h

theorem isLocal {f : Bool → Parser β}
    (h : Hears stream (f (State.sees name s.scopes)) s post') :
    Hears stream (Parse.isLocal name >>= f) s post' := h

theorem get {f : State → Parser β} (h : Hears stream (f s) s post') :
    Hears stream (MonadState.get >>= f) s post' := h

theorem at_ {f : Bool → Parser β} (h : Hears stream (f (decide (s.current.kind = k))) s post') :
    Hears stream (Parse.at_ k >>= f) s post' := h

theorem atParenArgs {f : Bool → Parser β} (h : Hears stream (f (opensArgs s.remaining)) s post') :
    Hears stream (Parse.atParenArgs >>= f) s post' := h

theorem startsCommandArgs {f : Bool → Parser β} (h : ∀ b, Hears stream (f b) s post') :
    Hears stream (Parse.startsCommandArgs >>= f) s post' := by
  obtain ⟨b, hb⟩ := Goes.run_startsCommandArgs s
  have run : (Parse.startsCommandArgs >>= f).run s = (f b).run s := by
    rw [run_bind, hb]
  intro hs a s' hr
  rw [run] at hr
  exact h b hs a s' hr

/-- A choice by the current token. -/
theorem ifAt (yes : s.current.kind = k → Hears stream p s post)
    (no : s.current.kind ≠ k → Hears stream q s post) :
    Hears stream (Parse.at_ k >>= fun b => if b = true then p else q) s post := by
  refine at_ ?_
  by_cases h : s.current.kind = k
  · rw [decide_eq_true h, if_pos rfl]
    exact yes h
  · rw [decide_eq_false h, if_neg Bool.false_ne_true]
    exact no h

end Looking

/-! ## Passing tokens -/

/-- A token that shows nothing. -/
theorem pass {f : Unit → Parser β} (hk : isQuiet s.current.kind = true)
    (h : Hears stream (f ()) s.next post') : Hears stream (Parse.advance >>= f) s post' :=
  runs [] (run_advance f s) (.next s) (fun _ => .quiet hk) h

/-- A word before a condition or the name of a method. -/
theorem word {f : Unit → Parser β} {word : Keyword} (hk : s.current.kind = .keyword word)
    (leading : isLeading word = true)
    (h : Hears stream (f ()) s.next fun b es => post' b (.word :: es)) :
    Hears stream (Parse.advance >>= f) s post' := by
  refine runs [.word] (run_advance f s) (.next s) (fun hs => ?_) h
  refine .next (hs.rest_ne_nil (hk ▸ nofun)) ?_ rfl rfl trivial fun _ => rfl
  unfold mark?
  rw [hk]
  exact if_pos leading

theorem point {f : Unit → Parser β}
    (hk : s.current.kind = .punct .dot ∨ s.current.kind = .punct .scope)
    (h : Hears stream (f ()) s.next fun b es => post' b (.point :: es)) :
    Hears stream (Parse.advance >>= f) s post' := by
  refine runs [.point] (run_advance f s) (.next s) (fun hs => ?_) h
  refine .next (hs.rest_ne_nil ?_) ?_ rfl rfl trivial fun _ => rfl
  · rcases hk with hk | hk <;> exact hk ▸ nofun
  · unfold mark?
    rcases hk with hk | hk <;> rw [hk]

/-- An identifier that binds nothing. -/
theorem mention {f : Unit → Parser β} (role : Role) (hk : s.current.kind = .identifier name)
    (hr : role ≠ .bound) (fits : Event.Fits s.scopes (.mention (mentionAt s name) role))
    (h : Hears stream (f ()) s.next fun b es => post' b (.mention (mentionAt s name) role :: es)) :
    Hears stream (Parse.advance >>= f) s post' := by
  refine runs [_] (run_advance f s) (.next s) (fun hs => ?_) h
  refine .next (hs.rest_ne_nil (hk ▸ nofun)) (Meets.mark?_identifier hk) rfl ?_ fits fun _ => ?_
  · cases role with
    | bound => exact absurd rfl hr
    | _ => rfl
  · cases role <;> rfl

/-- An identifier that is bound, after some more looking. -/
theorem bound (hk : s.current.kind = .identifier name)
    (run : p.run s = q.run (s.next.bind name))
    (h : Hears stream q (s.next.bind name) fun a es =>
      post a (.mention (mentionAt s name) .bound :: es)) : Hears stream p s post :=
  runs [_] run ((Moves.next s).trans (.bind _ name))
    (fun hs => .bound (hs.rest_ne_nil (hk ▸ nofun)) hk) h

/-- The name of a method that is no local variable. -/
theorem spelled {f : Unit → Parser β} (hk : methodName? s.current.kind = some name)
    (h : ∀ es, Spelled name es → Hears stream (f ()) s.next fun b es' => post' b (es ++ es')) :
    Hears stream (Parse.advance >>= f) s post' := by
  cases ht : s.current.kind with
  | identifier name' =>
    obtain rfl : name' = name := by
      rw [ht] at hk
      exact Option.some.inj hk
    exact mention .named ht nofun trivial (h _ (.name (mentionAt s name')))
  | keyword word =>
    rw [ht] at hk
    cases hk
    by_cases leading : isLeading word = true
    · exact Hears.word ht leading (h _ (.word leading))
    · exact pass (by rw [ht]; simp [isQuiet, leading]) (h [] .other)
  | punct mark =>
    refine pass ?_ (h [] .other)
    rw [ht] at hk ⊢
    cases mark <;> first | rfl | cases hk
  | _ => exact pass (by rw [ht]; rfl) (h [] .other)

/-- A token that is passed if it comes now. -/
theorem eat {f : Bool → Parser β}
    (yes : s.current.kind = k → Hears stream (Parse.advance >>= fun _ => f true) s post')
    (no : s.current.kind ≠ k → Hears stream (f false) s post') :
    Hears stream (Parse.eat k >>= f) s post' := by
  by_cases h : s.current.kind = k
  · have run : (Parse.eat k >>= f).run s = (Parse.advance >>= fun _ => f true).run s := by
      rw [run_bind, Goes.run_eat_of_eq h]
      rfl
    intro hs b s' hr
    exact yes h hs b s' (run ▸ hr)
  · have run : (Parse.eat k >>= f).run s = (f false).run s := by
      rw [run_bind, Goes.run_eat_of_ne h]
    intro hs b s' hr
    exact no h hs b s' (run ▸ hr)

theorem ifEat (hk : isQuiet k = true) (yes : s.current.kind = k → Hears stream p s.next post)
    (no : s.current.kind ≠ k → Hears stream q s post) :
    Hears stream (Parse.eat k >>= fun b => if b = true then p else q) s post := by
  refine eat (fun h => pass (h ▸ hk) ?_) fun h => ?_
  · rw [if_pos rfl]
    exact yes h
  · rw [if_neg Bool.false_ne_true]
    exact no h

/-! ## Tokens that must come -/

theorem expect {f : Unit → Parser β} (hk : isQuiet k = true)
    (h : ∀ s, Hears stream (f ()) s post') : Hears stream (Parse.expect k >>= f) s post' := by
  have passed : Hears stream (Parse.expect k) s Nothing := by
    unfold Parse.expect
    refine ifAt (fun hs => ?_) fun _ => reject _
    have last : Hears stream (Parse.advance >>= Pure.pure) s Nothing := pass (hs ▸ hk) (pure rfl)
    rwa [bind_pure] at last
  exact passed.andThen fun _ => h

theorem expectConstant {f : String → Parser β} (h : ∀ name s, Hears stream (f name) s post') :
    Hears stream (Parse.expectConstant >>= f) s post' := by
  have passed : Hears stream Parse.expectConstant s Nothing := by
    unfold Parse.expectConstant
    refine kind ?_
    split
    · next name hk => exact pass (by rw [hk]; rfl) (pure rfl)
    · exact reject _
  exact passed.andThen h

/-- An identifier that must come now and is bound. -/
theorem expectBound {f : String → Parser β}
    (h : ∀ m s, Hears stream (f m.name) s fun b es => post' b (.mention m .bound :: es)) :
    Hears stream (Parse.expectIdentifier >>= fun name => Parse.declare name >>= fun _ => f name) s
      post' := by
  by_cases hk : ∃ name, s.current.kind = .identifier name
  · obtain ⟨name, hk⟩ := hk
    refine bound hk (q := f name) ?_ (h (mentionAt s name) _)
    rw [run_bind, run_expectIdentifier hk]
    rfl
  · have none_ : Hears stream Parse.expectIdentifier s fun _ _ => False := by
      unfold Parse.expectIdentifier
      refine kind ?_
      split
      · next name h => exact absurd ⟨name, h⟩ hk
      · exact reject _
    exact none_.bind fun _ _ _ => False.elim

/-! ## Control -/

/-- A parser whose failure is an answer. -/
theorem attempt (es : List Event) {f : Option α → Parser β} {R : α → State → Prop}
    (hp : Hears stream p s Q) (goes : Goes stream s.log.total p s R)
    (no : ∀ s₁, s.log.total < s₁.log.total →
      Goes stream s.log.total (f none) s₁ fun b _ => post' b es)
    (yes : ∀ a es s₁, Q a es → Hears stream (f (some a)) s₁ fun b es' => post' b (es ++ es')) :
    Hears stream (Parse.attempt p >>= f) s post' := by
  intro hs b s' hr
  have outcome := goes hs (Nat.le_refl _)
  have split : (Parse.attempt p >>= f).run s = (f (p.run s).1).run (p.run s).2 := rfl
  rw [split] at hr
  rcases h : p.run s with ⟨_ | a, s₁⟩
  · rw [h] at outcome hr
    have fault : s.log.total < s₁.log.total := outcome.fails rfl
    obtain ⟨moves, -, -, gives⟩ := no s₁ fault (outcome.moves.into hs) (Nat.le_of_lt fault)
    rw [hr] at moves gives
    refine ⟨outcome.moves.trans moves, es, gives b rfl, fun clean => ?_⟩
    exact absurd clean (Nat.ne_of_gt (Nat.lt_of_lt_of_le fault moves.log))
  · rw [h] at hr
    obtain ⟨moves, es, hQ, meets⟩ := hp hs a s₁ h
    exact .trans moves meets (yes a es s₁ hQ (moves.into hs) b s' hr)

theorem withDoBlocks {allowed : Bool} (h : Hears stream p { s with doBlocks := allowed } post) :
    Hears stream (Parse.withDoBlocks allowed p) s post := by
  rintro hs a _ hr
  rcases hp : p.run { s with doBlocks := allowed } with ⟨r, s₁⟩
  rw [run_withDoBlocks hp] at hr
  cases hr
  obtain ⟨moves, es, post, meets⟩ := h hs a s₁ hp
  exact ⟨moves.withDoBlocks, es, post, fun clean => ⟨(meets clean).1, (meets clean).2,
    (meets clean).3, (meets clean).4⟩⟩

theorem inScope {closed : Bool}
    (h : Hears stream p { s with scopes := ⟨[], closed⟩ :: s.scopes } fun a es =>
      post a (.enter closed :: (es ++ [.leave]))) :
    Hears stream (Parse.inScope closed p) s post := by
  rintro hs a _ hr
  rcases hp : p.run { s with scopes := ⟨[], closed⟩ :: s.scopes } with ⟨r, s₁⟩
  rw [run_inScope hp] at hr
  cases hr
  obtain ⟨moves, es, post, meets⟩ := h hs a s₁ hp
  exact ⟨moves.inScope, _, post, fun clean => (meets clean).inScope⟩

/-! ## Repetition -/

/-- What is known after a round. -/
def Round {α β : Type} (I : α → List Event → Prop) (post : β → List Event → Prop) :
    Parse.Round α β → List Event → Prop
  | .again a, es => I a es
  | .done b, es => post b es

section Repetition

variable {round : α → Parser (Parse.Round α β)} {I : α → List Event → Prop} {a : α}
  {es : List Event}

theorem rounds
    (h : ∀ a es s, I a es → Hears stream (round a) s fun r es' => Round I post' r (es ++ es'))
    (fuel : Nat) (ha : I a es) :
    Hears stream (Parse.rounds round fuel a) s fun b es' => post' b (es ++ es') := by
  induction fuel generalizing a es s with
  | zero => exact of_none rfl
  | succ fuel ih =>
    unfold Parse.rounds
    refine (h a es s ha).bind fun r es₁ s₁ hr => ?_
    simp only [← List.append_assoc]
    cases r with
    | again a => exact ih hr
    | done b =>
      refine pure ?_
      rw [List.append_nil]
      exact hr

theorem repeating
    (h : ∀ a es s, I a es → Hears stream (round a) s fun r es' => Round I post' r (es ++ es'))
    (ha : I a es) :
    Hears stream (Parse.repeating round a) s fun b es' => post' b (es ++ es') :=
  get (rounds h _ ha)

theorem repeats
    (h : ∀ a es s, I a es → Hears stream (round a) s fun r es' => Round I post' r (es ++ es'))
    (ha : I a []) : Hears stream (Parse.repeating round a) s post' :=
  repeating h ha

end Repetition

theorem skipsNewlines : Hears stream Parse.skipNewlines s Nothing := by
  refine repeats (I := Nothing) ?_ rfl
  rintro _ _ s rfl
  exact ifEat rfl (fun _ => pure rfl) fun _ => pure rfl

theorem skipNewlines {f : Unit → Parser β} (h : ∀ s, Hears stream (f ()) s post') :
    Hears stream (Parse.skipNewlines >>= f) s post' :=
  skipsNewlines.andThen fun _ => h

end Hears

end ScriptCompiler.Resolution
