import ScriptCompiler.Proofs.Truncation.Ending

/-!
# Parsers on a stream and on a shortened one

Two parsers run side by side, one in front of a stream and one in front of the same stream cut
short. As long as the first one reports no fault, either both do the same and go on together, or the
second one has come to the end of what it reads. The rules follow the steps that a parser is made
of. At every step that may bring the second parser to the end, they also ask what it does from
there.
-/

namespace ScriptCompiler.Parse

/-- What a parser did that ran from a state. -/
structure Runs {α : Type} (s : State) (post : α → State → Prop) (x : Option α × State) : Prop where
  moves : Moves s x.2
  fails : x.1 = none → 0 < x.2.log.total
  gives : ∀ a, x.1 = some a → post a x.2

/-- How a parser on the whole stream and one on the shortened stream end: with the same result and
together, or the second one at its end. -/
inductive Joint {α : Type} (c : Cut) (K : α → State → Prop) :
    Option α × State → Option α × State → Prop
  | together {a : α} {s s' : State} (h : Together c s s') : Joint c K (some a, s) (some a, s')
  | ended {x x' : Option α × State} (h : Ending c.toStop K x') : Joint c K x x'

/-- From a state in the whole stream, the first parser runs to the postcondition; and if it reports
no fault, the second parser, together with it, does the same or comes to its end. -/
def Tracks {α : Type} (c : Cut) (p q : Parser α) (s : State) (post K : α → State → Prop) : Prop :=
  s.In c.stream → Runs s post (p.run s)
    ∧ ∀ s', Together c s s' → (p.run s).2.log.total = 0 → Joint c K (p.run s) (q.run s')

namespace Tracks

variable {c : Cut} {α β : Type} {s : State} {p q p' q' : Parser α} {f f' : α → Parser β}
  {Q post K L : α → State → Prop} {post' K' : β → State → Prop} {k : Token.Kind}

/-! ## Results and sequences -/

theorem from_ (h : s.In c.stream → Tracks c p q s post K) : Tracks c p q s post K :=
  fun hs => h hs hs

theorem mono (h : Tracks c p q s Q L) (hp : ∀ a s', Moves s s' → Q a s' → post a s')
    (hK : ∀ a s', L a s' → K a s') : Tracks c p q s post K := by
  intro hs
  obtain ⟨⟨moves, fails, gives⟩, joint⟩ := h hs
  refine ⟨⟨moves, fails, fun a ha => hp a _ moves (gives a ha)⟩, fun s' ht hclean => ?_⟩
  have hj := joint s' ht hclean
  generalize p.run s = x at hj
  generalize q.run s' = x' at hj
  cases hj with
  | together h => exact .together h
  | ended h =>
    cases h with
    | gives h => exact .ended (.gives (hK _ _ h))
    | fails h => exact .ended (.fails h)

theorem pureOf {a a' : α} (h : post a s) (ha : c.after.length < s.rest.length → a' = a) :
    Tracks c (pure a) (pure a') s post K := by
  intro _
  refine ⟨⟨.refl s, nofun, ?_⟩, fun s' ht _ => ?_⟩
  · rintro _ ⟨⟩
    exact h
  · rw [ha ht.after_lt]
    exact .together ht

theorem pure {a : α} (h : post a s) : Tracks c (pure a) (pure a) s post K :=
  pureOf h fun _ => rfl

/-- Once the first parser is past the cut, nothing is asked of the second one. -/
theorem past (h : Tracks c p q s post K) (hl : s.rest.length ≤ c.after.length) :
    Tracks c p q' s post K := by
  intro hs
  refine ⟨(h hs).1, fun s' ht _ => ?_⟩
  exact absurd ht.after_lt (Nat.not_lt.mpr hl)

/-- A span from where both parsers stood at the same token: it is the same for both, unless the
first one is past the cut. -/
theorem sameSpan {span span' : Span} {s₀ : State} {q : Span → Parser α}
    (hspan : c.after.length + 1 < s₀.rest.length → span' = span)
    (lt : s.rest.length < s₀.rest.length) (h : Tracks c p (q span) s post K) :
    Tracks c p (q span') s post K := by
  by_cases hl : s.rest.length ≤ c.after.length
  · exact h.past hl
  · rw [hspan (by omega)]
    exact h

/-- One parser after another. Where the second parser may have come to its end, it is known what the
first one gave and that it reports no fault afterwards. -/
theorem bindWith (hp : Tracks c p q s Q L)
    (hf : ∀ a s₁, p.run s = (some a, s₁) → Moves s s₁ → Q a s₁ →
      Tracks c (f a) (f' a) s₁ post' K')
    (hE : ∀ a s₁ a' s₁', Q a s₁ → ((f a).run s₁).2.log.total = 0 → L a' s₁' →
      Ends c.toStop K' (f' a') s₁') :
    Tracks c (p >>= f) (q >>= f') s post' K' := by
  intro hs
  obtain ⟨⟨moves, fails, gives⟩, joint⟩ := hp hs
  rw [run_bind]
  rcases h : p.run s with ⟨r, s₁⟩
  rw [h] at moves fails gives joint
  cases r with
  | none =>
    refine ⟨⟨moves, fun _ => fails rfl, nofun⟩, fun s' _ hclean => ?_⟩
    exact absurd hclean (Nat.ne_of_gt (fails rfl))
  | some a =>
    obtain ⟨⟨moves', fails', gives'⟩, joint'⟩ := hf a s₁ h moves (gives a rfl) (moves.into hs)
    refine ⟨⟨moves.trans moves', fails', gives'⟩, fun s' ht hclean => ?_⟩
    have hclean₁ : s₁.log.total = 0 := Nat.le_zero.mp (hclean ▸ moves'.log)
    have hj := joint s' ht hclean₁
    rw [run_bind]
    generalize q.run s' = x' at hj
    cases hj with
    | together ht' => exact joint' _ ht' hclean
    | ended h =>
      cases h with
      | gives hK => exact .ended (hE a s₁ _ _ (gives a rfl) hclean hK)
      | fails h => exact .ended (.fails h)

theorem bind (hp : Tracks c p q s Q L)
    (hf : ∀ a s₁, p.run s = (some a, s₁) → Moves s s₁ → Q a s₁ →
      Tracks c (f a) (f' a) s₁ post' K')
    (hE : ∀ a s', L a s' → Ends c.toStop K' (f' a) s') :
    Tracks c (p >>= f) (q >>= f') s post' K' :=
  hp.bindWith hf fun _ _ _ _ _ _ h => hE _ _ h

/-! ## Looking -/

section Looking

theorem kind {f f' : Token.Kind → Parser β} (same : ∀ k k', Alike k k' → f' k' = f' k)
    (h : Tracks c (f s.current.kind) (f' s.current.kind) s post' K') :
    Tracks c (Parse.kind >>= f) (Parse.kind >>= f') s post' K' := by
  intro hs
  obtain ⟨runs, joint⟩ := h hs
  refine ⟨runs, fun s' ht hclean => ?_⟩
  show Joint c K' _ ((f' s'.current.kind).run s')
  rw [same _ _ ht.alike]
  exact joint s' ht hclean

/-- The current token says the same, unless it is the last one. -/
theorem kindOf {f f' : Token.Kind → Parser β}
    (h : ∀ k', Alike s.current.kind k' →
      (c.after.length + 1 < s.rest.length → k' = s.current.kind) →
      Tracks c (f s.current.kind) (f' k') s post' K') :
    Tracks c (Parse.kind >>= f) (Parse.kind >>= f') s post' K' := by
  intro hs
  refine ⟨(h _ (.refl _) (fun _ => rfl) hs).1, fun s' ht hclean => ?_⟩
  exact (h s'.current.kind ht.alike ht.kind hs).2 s' ht hclean

/-- The token after the current one is the same, or the shortened stream has none. -/
theorem followingKind {f f' : Token.Kind → Parser β} (same : ∀ k k', Alike k k' → f' k' = f' k)
    (h : Tracks c (f s.following.kind) (f' s.following.kind) s post' K')
    (hE : ∀ t s', Alike s.current.kind t.kind → c.After [t] s' →
      Ends c.toStop K' (f' .endOfInput) s') :
    Tracks c (Parse.followingKind >>= f) (Parse.followingKind >>= f') s post' K' := by
  intro hs
  obtain ⟨runs, joint⟩ := h hs
  refine ⟨runs, fun s' ht hclean => ?_⟩
  rcases ht.following with hf | hlast
  · show Joint c K' _ ((f' s'.following.kind).run s')
    rw [same _ _ hf]
    exact joint s' ht hclean
  · have hk : s'.following.kind = .endOfInput := by
      rw [State.following, hlast.cons.2, List.nil_append, List.head?_cons, Option.getD_some,
        c.isEnd]
    have he : Ends c.toStop K' (f' s'.following.kind) s' := by
      rw [hk]
      exact hE _ s' ht.alike hlast
    exact .ended he

/-- It makes no difference whether the shortened stream has a token after the current one. -/
theorem followingKind_same {f f' : Token.Kind → Parser β}
    (same : ∀ k k', Alike k k' → f' k' = f' k) (last : f' .endOfInput = f' s.following.kind)
    (h : Tracks c (f s.following.kind) (f' s.following.kind) s post' K') :
    Tracks c (Parse.followingKind >>= f) (Parse.followingKind >>= f') s post' K' := by
  intro hs
  obtain ⟨runs, joint⟩ := h hs
  refine ⟨runs, fun s' ht hclean => ?_⟩
  show Joint c K' _ ((f' s'.following.kind).run s')
  rcases ht.following with hf | hlast
  · rw [same _ _ hf]
    exact joint s' ht hclean
  · have hk : s'.following.kind = .endOfInput := by
      rw [State.following, hlast.cons.2, List.nil_append, List.head?_cons, Option.getD_some,
        c.isEnd]
    rw [hk, last]
    exact joint s' ht hclean

/-- The spans of the current tokens are the same, unless the tokens are the last ones. -/
theorem currentSpan {f f' : Span → Parser β}
    (h : ∀ span', (c.after.length + 1 < s.rest.length → span' = s.current.span) →
      Tracks c (f s.current.span) (f' span') s post' K') :
    Tracks c (Parse.currentSpan >>= f) (Parse.currentSpan >>= f') s post' K' := by
  intro hs
  refine ⟨(h _ (fun _ => rfl) hs).1, fun s' ht hclean => ?_⟩
  exact (h s'.current.span ht.span hs).2 s' ht hclean

theorem previousSpan {f f' : Span → Parser β}
    (h : Tracks c (f s.previous) (f' s.previous) s post' K') :
    Tracks c (Parse.previousSpan >>= f) (Parse.previousSpan >>= f') s post' K' := by
  intro hs
  obtain ⟨runs, joint⟩ := h hs
  refine ⟨runs, fun s' ht hclean => ?_⟩
  show Joint c K' _ ((f' s'.previous).run s')
  rw [ht.previous]
  exact joint s' ht hclean

theorem spaceBefore {f f' : Bool → Parser β}
    (h : Tracks c (f s.current.spaceBefore) (f' s.current.spaceBefore) s post' K') :
    Tracks c (Parse.spaceBefore >>= f) (Parse.spaceBefore >>= f') s post' K' := by
  intro hs
  obtain ⟨runs, joint⟩ := h hs
  refine ⟨runs, fun s' ht hclean => ?_⟩
  show Joint c K' _ ((f' s'.current.spaceBefore).run s')
  rw [ht.spaceBefore]
  exact joint s' ht hclean

theorem isFull {f f' : Bool → Parser β}
    (h : Tracks c (f s.log.isFull) (f' s.log.isFull) s post' K') :
    Tracks c (Parse.isFull >>= f) (Parse.isFull >>= f') s post' K' := by
  intro hs
  obtain ⟨runs, joint⟩ := h hs
  refine ⟨runs, fun s' ht hclean => ?_⟩
  show Joint c K' _ ((f' s'.log.isFull).run s')
  rw [ht.log', ← ht.log]
  exact joint s' ht hclean

theorem isLocal {f f' : Bool → Parser β} {name : String}
    (h : Tracks c (f (State.sees name s.scopes)) (f' (State.sees name s.scopes)) s post' K') :
    Tracks c (Parse.isLocal name >>= f) (Parse.isLocal name >>= f') s post' K' := by
  intro hs
  obtain ⟨runs, joint⟩ := h hs
  refine ⟨runs, fun s' ht hclean => ?_⟩
  show Joint c K' _ ((f' (State.sees name s'.scopes)).run s')
  rw [ht.scopes]
  exact joint s' ht hclean

theorem get {f f' : State → Parser β}
    (h : ∀ s', s'.doBlocks = s.doBlocks → Tracks c (f s) (f' s') s post' K') :
    Tracks c (MonadState.get >>= f) (MonadState.get >>= f') s post' K' := by
  intro hs
  refine ⟨(h s rfl hs).1, fun s' ht hclean => ?_⟩
  exact (h s' ht.doBlocks hs).2 s' ht hclean

theorem at_ {f f' : Bool → Parser β} (hp : Plain k)
    (h : Tracks c (f (decide (s.current.kind = k))) (f' (decide (s.current.kind = k))) s post' K') :
    Tracks c (Parse.at_ k >>= f) (Parse.at_ k >>= f') s post' K' := by
  intro hs
  obtain ⟨runs, joint⟩ := h hs
  refine ⟨runs, fun s' ht hclean => ?_⟩
  show Joint c K' _ ((f' (decide (s'.current.kind = k))).run s')
  rw [decide_eq_decide.mpr (ht.alike.eq_iff hp)]
  exact joint s' ht hclean

/-- A choice by the current token. -/
theorem ifAt (hp : Plain k) (yes : s.current.kind = k → Tracks c p q s post K)
    (no : s.current.kind ≠ k → Tracks c p' q' s post K) :
    Tracks c (Parse.at_ k >>= fun b => if b = true then p else p')
      (Parse.at_ k >>= fun b => if b = true then q else q') s post K := by
  refine at_ hp ?_
  by_cases h : s.current.kind = k
  · rw [decide_eq_true h, if_pos rfl, if_pos rfl]
    exact yes h
  · rw [decide_eq_false h, if_neg Bool.false_ne_true, if_neg Bool.false_ne_true]
    exact no h

theorem atParenArgs {f f' : Bool → Parser β}
    (h : ∀ b, (b = true → s.current.kind = .punct .openParen) →
      Tracks c (f b) (f' b) s post' K') :
    Tracks c (Parse.atParenArgs >>= f) (Parse.atParenArgs >>= f') s post' K' := by
  have looked : Tracks c
      (Parse.at_ (.punct .openParen) >>= fun b =>
        Parse.spaceBefore >>= fun space => f (b && !space))
      (Parse.at_ (.punct .openParen) >>= fun b =>
        Parse.spaceBefore >>= fun space => f' (b && !space))
      s post' K' := by
    refine at_ trivial (spaceBefore (h _ fun hb => ?_))
    rw [Bool.and_eq_true, decide_eq_true_eq] at hb
    exact hb.1
  exact looked

theorem startsCommandArgs {f f' : Bool → Parser β} (h : ∀ b, Tracks c (f b) (f' b) s post' K')
    (hE : ∀ b s', c.AfterMinus s' ∨ b = true ∧ c.AfterSign s' → Ends c.toStop K' (f' b) s') :
    Tracks c (Parse.startsCommandArgs >>= f) (Parse.startsCommandArgs >>= f') s post' K' := by
  intro hs
  obtain ⟨b, hb⟩ := Goes.run_startsCommandArgs s
  obtain ⟨runs, joint⟩ := h b hs
  rw [run_bind, hb]
  refine ⟨runs, fun s' ht hclean => ?_⟩
  obtain ⟨b', hb'⟩ := Goes.run_startsCommandArgs s'
  rw [run_bind, hb']
  have same : b' = b ∨ c.AfterMinus s' ∨ b' = true ∧ c.AfterSign s' := by
    have hr := ht.startsCommandArgs
    rw [hb, hb'] at hr
    exact hr.imp Option.some.inj (.imp_right fun h => ⟨Option.some.inj h.1, h.2⟩)
  rcases same with rfl | hm
  · exact joint s' ht hclean
  · exact .ended (hE b' s' hm)

end Looking

/-! ## Passing tokens -/

theorem advance_ (hk : s.current.kind ≠ .endOfInput) :
    Tracks c Parse.advance Parse.advance s
      (fun _ s' => s' = s.next ∧ s.next.rest.length < s.rest.length) (fun _ => c.At) := by
  intro hs
  refine ⟨⟨.next s, nofun, fun _ _ => ⟨rfl, hs.lt_next hk⟩⟩, fun s' ht _ => ?_⟩
  rcases ht.next with ht | hE
  · exact .together ht
  · exact .ended (.gives hE)

/-- A token is passed; the shortened stream may end after it. -/
theorem advance {f f' : Unit → Parser β} (hk : s.current.kind ≠ .endOfInput)
    (h : s.next.rest.length < s.rest.length → Tracks c (f ()) (f' ()) s.next post' K')
    (hE : ∀ s', c.At s' → Ends c.toStop K' (f' ()) s') :
    Tracks c (Parse.advance >>= f) (Parse.advance >>= f') s post' K' := by
  refine (advance_ hk).bind ?_ fun _ => hE
  rintro _ _ - - ⟨rfl, lt⟩
  exact h lt

/-- A construct starts with a token that opens it. -/
theorem opening {f f' : Span → Parser β} (hk : s.current.kind ≠ .endOfInput)
    (h : s.next.rest.length < s.rest.length →
      Tracks c (f s.current.span) (f' s.current.span) s.next post' K')
    (hE : ∀ start s', c.At s' → Ends c.toStop K' (f' start) s') :
    Tracks c (do let start ← Parse.currentSpan; Parse.advance; f start)
      (do let start ← Parse.currentSpan; Parse.advance; f' start) s post' K' := by
  refine currentSpan fun start' hstart => advance hk (fun lt => ?_) fun s' h => hE start' s' h
  apply sameSpan hstart lt
  exact h lt

theorem eat {f f' : Bool → Parser β} (hp : Plain k) (he : k ≠ .endOfInput)
    (yes : s.current.kind = k → s.next.rest.length < s.rest.length →
      Tracks c (f true) (f' true) s.next post' K')
    (no : s.current.kind ≠ k → Tracks c (f false) (f' false) s post' K')
    (hE : s.current.kind = k → ∀ s', c.At s' → Ends c.toStop K' (f' true) s') :
    Tracks c (Parse.eat k >>= f) (Parse.eat k >>= f') s post' K' := by
  have eaten : Tracks c (Parse.eat k) (Parse.eat k) s
      (fun b s' => b = true ∧ s.current.kind = k ∧ s' = s.next
        ∧ s.next.rest.length < s.rest.length ∨ b = false ∧ s.current.kind ≠ k ∧ s' = s)
      (fun b s' => b = true ∧ s.current.kind = k ∧ c.At s') := by
    unfold Parse.eat
    refine ifAt hp (fun h => ?_) fun h => pure (.inr ⟨rfl, h, rfl⟩)
    refine advance (h ▸ he) (fun lt => pure (.inl ⟨rfl, h, rfl, lt⟩)) fun s' hE => ?_
    exact .pure ⟨rfl, h, hE⟩
  refine eaten.bind ?_ ?_
  · rintro _ _ - - (⟨rfl, h, rfl, lt⟩ | ⟨rfl, h, rfl⟩)
    · exact yes h lt
    · exact no h
  · rintro _ s' ⟨rfl, h, hs'⟩
    exact hE h s' hs'

/-- A choice by a token that is passed if it comes. -/
theorem ifEat (hp : Plain k) (he : k ≠ .endOfInput)
    (yes : s.current.kind = k → s.next.rest.length < s.rest.length → Tracks c p q s.next post K)
    (no : s.current.kind ≠ k → Tracks c p' q' s post K)
    (hE : ∀ s', c.At s' → Ends c.toStop K q s') :
    Tracks c (Parse.eat k >>= fun b => if b = true then p else p')
      (Parse.eat k >>= fun b => if b = true then q else q') s post K := by
  refine eat hp he ?_ ?_ fun _ s' h => ?_
  · rw [if_pos rfl, if_pos rfl]
    exact yes
  · rw [if_neg Bool.false_ne_true, if_neg Bool.false_ne_true]
    exact no
  · rw [if_pos rfl]
    exact hE s' h

theorem eats (hp : Plain k) (he : k ≠ .endOfInput) :
    Tracks c (Parse.eat k) (Parse.eat k) s (fun b s' => b = true → s'.rest.length < s.rest.length)
      (fun b s' => b = true ∧ c.At s') := by
  have last : Tracks c (Parse.eat k >>= Pure.pure) (Parse.eat k >>= Pure.pure) s
      (fun b s' => b = true → s'.rest.length < s.rest.length) (fun b s' => b = true ∧ c.At s') :=
    eat hp he (fun _ lt => pure fun _ => lt) (fun _ => pure nofun) fun _ _ h => .pure ⟨rfl, h⟩
  rwa [bind_pure] at last

theorem discardEat (hp : Plain k) (he : k ≠ .endOfInput) :
    Tracks c (discard (Parse.eat k)) (discard (Parse.eat k)) s Anywhere (fun _ => c.At) :=
  eat hp he (fun _ _ => pure trivial) (fun _ => pure trivial) fun _ _ h => .pure h

theorem declare (name : String) :
    Tracks c (Parse.declare name) (Parse.declare name) s
      (fun _ s' => s'.rest.length = s.rest.length) Never := by
  intro _
  refine ⟨⟨.bind s name, nofun, fun _ _ => ?_⟩, fun s' ht _ => .together (ht.declare name)⟩
  exact Nat.succ.inj (congrArg List.length (s.remaining_bind name))

/-! ## Faults -/

/-- After a fault of the first parser nothing is asked of the second one. -/
theorem ofFaulty (hn : 0 < s.log.total) (h : Goes c.stream 0 p s post) :
    Tracks c p q s post K := by
  intro hs
  obtain ⟨moves, fails, -, gives⟩ := h hs (Nat.zero_le _)
  refine ⟨⟨moves, fails, gives⟩, fun s' ht _ => ?_⟩
  rw [ht.log] at hn
  exact absurd hn (Nat.lt_irrefl 0)

/-- The first parser reports a fault, whether it fails or not. -/
theorem ofFault (h : Goes c.stream 0 p s fun a s' => post a s' ∧ 0 < s'.log.total) :
    Tracks c p q s post K := by
  intro hs
  obtain ⟨moves, fails, -, gives⟩ := h hs (Nat.zero_le _)
  refine ⟨⟨moves, fails, fun a ha => (gives a ha).1⟩, fun s' _ hclean => ?_⟩
  cases hr : (p.run s).1 with
  | none => exact absurd hclean (Nat.ne_of_gt (fails hr))
  | some a => exact absurd hclean (Nat.ne_of_gt (gives a hr).2)

theorem unsupported (message : String) (span : Span) (suggestion : String) :
    Tracks c (Parse.unsupported message span suggestion) q s post K :=
  ofFault (.unsupported _ _ _)

theorem reject (expected : String) :
    Tracks c (Parse.unexpected expected >>= fun _ => Alternative.failure (f := Parser)) q s
      post K :=
  ofFault (.reject _)

theorem rejectAs (code : Code) (message : String) (span : Span) :
    Tracks c (Parse.report code message span >>= fun _ => Alternative.failure (f := Parser)) q s
      post K :=
  ofFault (.rejectAs _ _ _)

/-! ## Tokens that must come -/

theorem expect (ho : Ordinary k) (hp : Plain k) :
    Tracks c (Parse.expect k) (Parse.expect k) s (Ahead s) (fun _ => c.At) := by
  unfold Parse.expect
  refine ifAt hp (fun hk => ?_) fun _ => reject _
  refine (advance_ (hk ▸ ho.1)).mono ?_ fun _ _ h => h
  rintro _ _ - ⟨rfl, lt⟩
  exact lt

theorem expectIdentifier :
    Tracks c Parse.expectIdentifier Parse.expectIdentifier s (Ahead s) (fun _ => c.At) := by
  unfold Parse.expectIdentifier
  refine kind (fun k k' h => by cases h <;> rfl) ?_
  split
  · next name hk => exact advance (by rw [hk]; nofun) (fun lt => pure lt) fun _ h => .pure h
  · exact reject _

theorem expectConstant :
    Tracks c Parse.expectConstant Parse.expectConstant s (Ahead s) (fun _ => c.At) := by
  unfold Parse.expectConstant
  refine kind (fun k k' h => by cases h <;> rfl) ?_
  split
  · next name hk => exact advance (by rw [hk]; nofun) (fun lt => pure lt) fun _ h => .pure h
  · exact reject _

/-! ## Control -/

/-- A parser whose failure is an answer. -/
theorem attempt {f f' : Option α → Parser β} (hp : Tracks c p q s Q L)
    (no : ∀ s₁, Moves s s₁ → 0 < s₁.log.total → Goes c.stream 0 (f none) s₁ post')
    (yes : ∀ a s₁, Q a s₁ → Tracks c (f (some a)) (f' (some a)) s₁ post' K')
    (noE : ∀ s', c.AfterBreaks s' → Ends c.toStop K' (f' none) s')
    (yesE : ∀ a s', L a s' → Ends c.toStop K' (f' (some a)) s') :
    Tracks c (Parse.attempt p >>= f) (Parse.attempt q >>= f') s post' K' := by
  have answer : Tracks c (Parse.attempt p) (Parse.attempt q) s
      (fun r s₁ => Moves s s₁ ∧ (∀ a, r = some a → Q a s₁) ∧ (r = none → 0 < s₁.log.total))
      (fun r s' => r.elim (c.AfterBreaks s') fun a => L a s') := by
    intro hs
    obtain ⟨⟨moves, fails, gives⟩, joint⟩ := hp hs
    refine ⟨⟨moves, nofun, ?_⟩, fun s' ht hclean => ?_⟩
    · rintro _ ⟨⟩
      exact ⟨moves, gives, fails⟩
    · show Joint c _ (some (p.run s).1, (p.run s).2) (some (q.run s').1, (q.run s').2)
      have hj := joint s' ht hclean
      generalize p.run s = x at hj
      generalize q.run s' = x' at hj
      cases hj with
      | together h => exact .together h
      | ended h =>
        cases h with
        | gives h => exact .ended (.gives h)
        | fails h => exact .ended (.gives h)
  refine answer.bind ?_ ?_
  · rintro r s₁ - - ⟨moves, gives, fails⟩
    cases r with
    | none => exact ofFaulty (fails rfl) (no s₁ moves (fails rfl))
    | some a => exact yes a s₁ (gives a rfl)
  · intro r s' h
    cases r with
    | none => exact noE s' h
    | some a => exact yesE a s' h

/-- The postcondition says nothing of scopes and of blocks. -/
def Settled (K : α → State → Prop) : Prop :=
  ∀ a s scopes doBlocks, K a s → K a { s with scopes := scopes, doBlocks := doBlocks }

theorem settled_at : Settled fun (_ : α) => c.At :=
  fun _ _ _ _ h => h.settled _ _

theorem settled_afterBreaks : Settled fun (_ : α) => c.AfterBreaks := by
  rintro _ _ _ _ ⟨breaks, hb, h⟩
  exact ⟨breaks, hb, h.settled _ _⟩

theorem withDoBlocks {allowed : Bool} (hK : Settled K)
    (h : Tracks c p q { s with doBlocks := allowed }
      (fun a s' => post a { s' with doBlocks := s.doBlocks }) K) :
    Tracks c (Parse.withDoBlocks allowed p) (Parse.withDoBlocks allowed q) s post K := by
  intro hs
  obtain ⟨⟨moves, fails, gives⟩, joint⟩ := h hs
  refine ⟨⟨moves.withDoBlocks, fails, gives⟩, fun s' ht hclean => ?_⟩
  have hj := joint _ (ht.withDoBlocks allowed) hclean
  show Joint c K ((p.run { s with doBlocks := allowed }).1,
      { (p.run { s with doBlocks := allowed }).2 with doBlocks := s.doBlocks })
    ((q.run { s' with doBlocks := allowed }).1,
      { (q.run { s' with doBlocks := allowed }).2 with doBlocks := s'.doBlocks })
  rw [ht.doBlocks]
  generalize p.run { s with doBlocks := allowed } = x at hj
  generalize q.run { s' with doBlocks := allowed } = x' at hj
  cases hj with
  | together h => exact .together (h.withDoBlocks _)
  | ended h =>
    cases h with
    | gives h => exact .ended (.gives (hK _ _ _ _ h))
    | fails h => exact .ended (.fails (settled_afterBreaks () _ _ _ h))

theorem inScope {closed : Bool} (hK : Settled K)
    (h : Tracks c p q { s with scopes := ⟨[], closed⟩ :: s.scopes }
      (fun a s' => post a { s' with scopes := s'.scopes.tail }) K) :
    Tracks c (Parse.inScope closed p) (Parse.inScope closed q) s post K := by
  intro hs
  obtain ⟨⟨moves, fails, gives⟩, joint⟩ := h hs
  refine ⟨⟨moves.inScope, fails, gives⟩, fun s' ht hclean => ?_⟩
  have scopes : (⟨[], closed⟩ :: s'.scopes : List Scope) = ⟨[], closed⟩ :: s.scopes := by
    rw [ht.scopes]
  have hj := joint _ (ht.withScopes scopes) hclean
  show Joint c K ((p.run { s with scopes := ⟨[], closed⟩ :: s.scopes }).1,
      { (p.run { s with scopes := ⟨[], closed⟩ :: s.scopes }).2 with
        scopes := (p.run { s with scopes := ⟨[], closed⟩ :: s.scopes }).2.scopes.tail })
    ((q.run { s' with scopes := ⟨[], closed⟩ :: s'.scopes }).1,
      { (q.run { s' with scopes := ⟨[], closed⟩ :: s'.scopes }).2 with
        scopes := (q.run { s' with scopes := ⟨[], closed⟩ :: s'.scopes }).2.scopes.tail })
  generalize p.run { s with scopes := ⟨[], closed⟩ :: s.scopes } = x at hj
  generalize q.run { s' with scopes := ⟨[], closed⟩ :: s'.scopes } = x' at hj
  cases hj with
  | together h => exact .together (h.withScopes (congrArg List.tail h.scopes))
  | ended h =>
    cases h with
    | gives h => exact .ended (.gives (hK _ _ _ _ h))
    | fails h => exact .ended (.fails (settled_afterBreaks () _ _ _ h))

/-! ## Repetition -/

section Repetition

variable {round round' : α → Parser (Round α β)} {I J : α → State → Prop}

theorem rounds
    (h : ∀ a s, I a s → Tracks c (round a) (round' a) s (Round.Post s I post')
      (Round.Either J K'))
    (hE : ∀ a s, J a s → Ends c.toStop (Round.Last K') (round' a) s) (fuel fuel' : Nat)
    {a : α} {s : State} (ha : I a s) (hf : s.rest.length < fuel)
    (hf' : s.rest.length < fuel' + c.after.length) :
    Tracks c (Parse.rounds round fuel a) (Parse.rounds round' (fuel' + 2) a) s post' K' := by
  induction fuel generalizing a s fuel' with
  | zero => exact absurd hf (Nat.not_lt_zero _)
  | succ fuel ih =>
    unfold Parse.rounds
    refine (h a s ha).bind (fun r s₁ _ _ hr => ?_) fun r s' hr => ?_
    · cases r with
      | again a =>
        have passed : s₁.rest.length < s.rest.length := hr.1
        have lt := Nat.lt_of_lt_of_le passed (Nat.le_of_lt_succ hf)
        by_cases hl : s₁.rest.length ≤ c.after.length
        · exact (ih s₁.rest.length.succ hr.2 lt (by omega)).past hl
        · obtain ⟨fuel', rfl⟩ : ∃ n, fuel' = n + 1 := ⟨fuel' - 1, by omega⟩
          exact ih fuel' hr.2 lt (by omega)
      | done b => exact pure hr
    · cases r with
      | again a => exact Ends.rounds_last (hE a s' hr) _
      | done b => exact Ends.pure hr

/-- Rounds are repeated until one stops, or until the shortened stream ends, after which there is
one more round. -/
theorem repeating
    (h : ∀ a s, I a s → Tracks c (round a) (round' a) s (Round.Post s I post')
      (Round.Either J K'))
    (hE : ∀ a s, J a s → Ends c.toStop (Round.Last K') (round' a) s) {a : α} {s : State}
    (ha : I a s) : Tracks c (Parse.repeating round a) (Parse.repeating round' a) s post' K' := by
  intro hs
  have all (fuel' : Nat) := rounds h hE (s.rest.length + 3) fuel' ha (by omega)
  refine ⟨(all (s.rest.length + 1) (by omega) hs).1, fun s' ht hclean => ?_⟩
  have := ht.length
  exact (all (s'.rest.length + 1) (by omega) hs).2 s' ht hclean

/-- The last round passes a token too. -/
theorem repeatingAhead
    (h : ∀ a s, Tracks c (round a) (round' a) s (Round.Post s Anywhere (Ahead s))
      (Round.Either J K'))
    (hE : ∀ a s, J a s → Ends c.toStop (Round.Last K') (round' a) s) {a : α} {s : State} :
    Tracks c (Parse.repeating round a) (Parse.repeating round' a) s (Ahead s) K' := by
  refine repeating (I := fun _ s' => s'.rest.length ≤ s.rest.length) ?_ hE (Nat.le_refl _)
  intro a s' hs'
  refine (h a s').mono (fun r s'' _ hr => ?_) fun _ _ h => h
  cases r with
  | again a => exact ⟨hr.1, Nat.le_trans (Nat.le_of_lt hr.1) hs'⟩
  | done b => exact Nat.lt_of_lt_of_le hr hs'

theorem repeatingKeeps
    (h : ∀ a s, Tracks c (round a) (round' a) s (Round.Post s Anywhere Anywhere)
      (Round.Either J K'))
    (hE : ∀ a s, J a s → Ends c.toStop (Round.Last K') (round' a) s) {a : α} {s : State} :
    Tracks c (Parse.repeating round a) (Parse.repeating round' a) s Anywhere K' :=
  repeating (fun a s _ => h a s) hE trivial

end Repetition

theorem skipNewlines :
    Tracks c Parse.skipNewlines Parse.skipNewlines s Anywhere (fun _ => c.At) := by
  unfold Parse.skipNewlines
  refine repeatingKeeps (J := fun _ => c.At) (fun _ s => ?_) fun _ s' h => ?_
  · refine ifEat trivial nofun (fun _ lt => pure ⟨lt, trivial⟩) (fun _ => pure trivial) ?_
    exact fun s' h => .pure h
  · exact .ifEat (h.ne nofun) (.pure h)

end Tracks

end ScriptCompiler.Parse
