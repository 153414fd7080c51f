import ScriptCompiler.Proofs.Continuation.Line

/-!
# Parsers in front of a text and a line after it

What is shown of every parser that gives a result without a fault: the innermost scope gained the
names that the result binds, and a second parser, in front of the text with a line after it, gives
the same result and goes on beside the first one. Where the first parser has come to the end of the
text, that holds of firm results only; the others ask for more. The rules follow the steps that a
parser is made of.
-/

namespace ScriptCompiler.Parse

/-- The end of a text is never left. -/
theorem Moves.stays {stream : Stream} {s s' : State} (h : Moves s s') (hs : s.In stream)
    (hk : s.current.kind = .endOfInput) : s'.current.kind = .endOfInput := by
  have last := h.le
  rw [hs.rest_eq_nil_iff.mpr hk] at last
  exact (h.into hs).rest_eq_nil_iff.mp (List.eq_nil_of_length_eq_zero (Nat.le_zero.mp last))

/-- What is known of a result of the first parser, if the second one does as `q` does. -/
structure Answer {α : Type} (c : Continuation) (firm : Prop) (q : Parser α) (s : State) (a : α)
    (s' : State) (post : Prop) : Prop where
  moves : Moves s s'
  gives : post
  again : s'.log.total = s.log.total → firm ∨ s'.current.kind ≠ .endOfInput →
    ∀ t, Continues c s t → ∃ t', q.run t = (some a, t') ∧ Continues c s' t'

/-- From a state in the text the results of the first parser satisfy the postcondition, and the firm
ones are those of the second parser. -/
def Joins {α : Type} (c : Continuation) (firm : α → Prop) (p q : Parser α) (s : State)
    (post : α → State → Prop) : Prop :=
  s.In c.stream → ∀ a s', p.run s = (some a, s') → Answer c (firm a) q s a s' (post a s')

/-- From a state in the text the results of the parser satisfy the postcondition, and the firm ones
do not depend on whether the text goes on. -/
def Reads {α : Type} (c : Continuation) (firm : α → Prop) (p : Parser α) (s : State)
    (post : α → State → Prop) : Prop :=
  Joins c firm p p s post

/-- The names that a result binds are known after it. -/
abbrev Binds {α : Type} (s : State) (of : α → List Binding) (a : α) (s' : State) : Prop :=
  Gained s (of a) s'

/-- Every result is firm. -/
abbrev Firm {α : Type} (_ : α) : Prop :=
  True

/-- No result is firm. -/
abbrev Loose {α : Type} (_ : α) : Prop :=
  False

/-- The last result of a repetition is firm. -/
def Round.Done {α β : Type} : Round α β → Prop
  | .again _ => False
  | .done _ => True

/-- A round after which another one comes is firm. -/
def Round.Again {α β : Type} : Round α β → Prop
  | .again _ => True
  | .done _ => False

/-- A token that may be the last one before the end or the break. -/
def Solid (k : Token.Kind) : Prop :=
  k ≠ .newline ∧ k ≠ .endOfInput

theorem solid_punct (mark : Punct) : Solid (.punct mark) :=
  ⟨nofun, nofun⟩

theorem solid_keyword (word : Keyword) : Solid (.keyword word) :=
  ⟨nofun, nofun⟩

/-- The parser asks for a token: at the end of the text it has no result. -/
def Asks {α : Type} (c : Continuation) (p : Parser α) (s : State) : Prop :=
  s.In c.stream → s.current.kind = .endOfInput → (p.run s).1 = none

namespace Asks

variable {c : Continuation} {n : Nat} {α β : Type} {s : State} {p : Parser α} {f : α → Parser β}

theorem bind (h : Asks c p s) : Asks c (p >>= f) s := by
  intro hs hk
  have none := h hs hk
  rw [run_bind]
  rcases hr : p.run s with ⟨_ | a, s'⟩
  · rfl
  · rw [hr] at none
    cases none

/-- What is done at the end asks for a token. -/
theorem kind {f : Token.Kind → Parser β} (h : Asks c (f .endOfInput) s) :
    Asks c (Parse.kind >>= f) s := by
  intro hs hk
  rw [run_kind, hk]
  exact h hs hk

/-- A parser that passes a token asks for one. -/
theorem of_ahead (h : Goes c.stream s.log.total p s (Ahead s)) : Asks c p s := by
  intro hs hk
  have gives := (h hs (Nat.le_refl _)).gives
  rcases hr : p.run s with ⟨_ | a, s'⟩
  · rfl
  · rw [hr] at gives
    have lt : s'.rest.length < s.rest.length := gives a rfl
    rw [hs.rest_eq_nil_iff.mpr hk] at lt
    exact absurd lt (Nat.not_lt_zero _)

end Asks

/-- One parser after another. If the second one can have a firm result where the first one has come
to the end, then the result of the first one must be firm. -/
theorem Joins.bindWith {c : Continuation} {α β : Type} {firm : α → Prop} {firm₂ : β → Prop}
    {s : State} {p q : Parser α} {f f' : α → Parser β} {Q : α → State → Prop}
    {post : β → State → Prop} (hp : Joins c firm p q s Q)
    (hf : ∀ a s₁, Q a s₁ → Joins c firm₂ (f a) (f' a) s₁ post)
    (side : ∀ a s₁, Q a s₁ → s₁.In c.stream → s₁.current.kind = .endOfInput → ∀ b s₂,
      (f a).run s₁ = (some b, s₂) → firm₂ b → firm a) :
    Joins c firm₂ (p >>= f) (q >>= f') s post := by
  intro hs b s₂ hr
  rw [run_bind] at hr
  rcases h : p.run s with ⟨_ | a, s₁⟩
  · rw [h] at hr
    cases hr
  rw [h] at hr
  dsimp only at hr
  obtain ⟨moves, gives, again⟩ := hp hs a s₁ h
  have in₁ := moves.into hs
  obtain ⟨moves', gives', again'⟩ := hf a s₁ gives in₁ b s₂ hr
  refine ⟨moves.trans moves', gives', fun clean hfirm t ht => ?_⟩
  have le := moves.log
  have le' := moves'.log
  -- between the two, either the text goes on or the first result is firm
  have hfirm₁ : firm a ∨ s₁.current.kind ≠ .endOfInput := by
    by_cases hk : s₁.current.kind = .endOfInput
    · left
      rcases hfirm with hb | hk₂
      · exact side a s₁ gives in₁ hk b s₂ hr hb
      · exact absurd (moves'.stays in₁ hk) hk₂
    · exact .inr hk
  obtain ⟨t₁, ht₁, hc₁⟩ := again (by omega) hfirm₁ t ht
  obtain ⟨t₂, ht₂, hc₂⟩ := again' (by omega) hfirm t₁ hc₁
  exact ⟨t₂, by rw [run_bind, ht₁]; exact ht₂, hc₂⟩

namespace Reads

variable {c : Continuation} {α β : Type} {firm firm' : α → Prop} {firm₂ : β → Prop} {s : State}
  {p q : Parser α} {f : α → Parser β} {Q post : α → State → Prop} {post' : β → State → Prop}
  {k : Token.Kind}

/-! ## Results and sequences -/

theorem from_ (h : s.In c.stream → Reads c firm p s post) : Reads c firm p s post :=
  fun hs => h hs hs

theorem mono (h : Reads c firm p s Q) (hf : ∀ a, firm' a → firm a)
    (hp : ∀ a s', Q a s' → post a s') : Reads c firm' p s post := by
  intro hs a s' hr
  obtain ⟨moves, gives, again⟩ := h hs a s' hr
  exact ⟨moves, hp a s' gives, fun clean he => again clean (he.imp_left (hf a))⟩

theorem loose (h : Reads c firm p s post) : Reads c Loose p s post :=
  h.mono (fun _ => False.elim) fun _ _ => id

/-- A result before the end is firm. -/
theorem going (h : Reads c Loose p s post)
    (before : ∀ a s', post a s' → s'.current.kind ≠ .endOfInput) : Reads c Firm p s post := by
  intro hs a s' hr
  obtain ⟨moves, gives, again⟩ := h hs a s' hr
  exact ⟨moves, gives, fun clean _ => again clean (.inr (before a s' gives))⟩

theorem pure {a : α} (h : post a s) : Reads c firm (pure a) s post := by
  rintro _ _ _ ⟨⟩
  exact ⟨.refl s, h, fun _ _ t ht => ⟨t, rfl, ht⟩⟩

/-- A parser that never has a result. -/
theorem of_none (h : (p.run s).1 = none) : Reads c firm p s post := by
  intro _ a s' hr
  rw [hr] at h
  cases h

/-- A fault is reported, and then the parser fails. -/
theorem reject (g : Parser β) :
    Reads c firm (g >>= fun _ => Alternative.failure (f := Parser)) s post := by
  refine of_none ?_
  rw [run_bind]
  rcases g.run s with ⟨_ | b, s'⟩ <;> rfl

/-- At the end of the text a result that is not firm depends on nothing. -/
theorem of_end {a : α} (hk : s.current.kind = .endOfInput) (run : p.run s = (some a, s))
    (hf : ¬ firm a) (h : post a s) : Reads c firm p s post := by
  intro _ b s' hr
  rw [run] at hr
  cases hr
  exact ⟨.refl s, h, fun _ hfirm => absurd hk (hfirm.resolve_left hf)⟩

theorem unsupported (message : String) (span : Span) (suggestion : String) :
    Reads c firm (Parse.unsupported message span suggestion) s post :=
  of_none rfl

/-- A parser that reports a fault. -/
theorem of_fault (h : Goes c.stream s.log.total p s fun a s' => post a s' ∧
    s.log.total < s'.log.total) : Reads c firm p s post := by
  intro hs a s' hr
  obtain ⟨moves, -, -, gives⟩ := h hs (Nat.le_refl _)
  rw [hr] at moves gives
  obtain ⟨hp, fault⟩ := gives a rfl
  exact ⟨moves, hp, fun clean => absurd clean (Nat.ne_of_gt fault)⟩

/-- One parser after another. If the second one can have a firm result where the first one has come
to the end, then the result of the first one must be firm. -/
theorem bindWith (hp : Reads c firm p s Q)
    (hf : ∀ a s₁, Q a s₁ → Reads c firm₂ (f a) s₁ post')
    (side : ∀ a s₁, Q a s₁ → s₁.In c.stream → s₁.current.kind = .endOfInput → ∀ b s₂,
      (f a).run s₁ = (some b, s₂) → firm₂ b → firm a) :
    Reads c firm₂ (p >>= f) s post' :=
  Joins.bindWith hp hf side

theorem bind (hp : Reads c Firm p s Q) (hf : ∀ a s₁, Q a s₁ → Reads c firm₂ (f a) s₁ post') :
    Reads c firm₂ (p >>= f) s post' :=
  hp.bindWith hf fun _ _ _ _ _ _ _ _ _ => trivial

theorem bindLoose (hp : Reads c firm p s Q) (hf : ∀ a s₁, Q a s₁ → Reads c Loose (f a) s₁ post') :
    Reads c Loose (p >>= f) s post' :=
  hp.bindWith hf fun _ _ _ _ _ _ _ _ h => h.elim

/-- The repetition goes on after a loose result. -/
theorem bindAgain {γ : Type} {g : α → γ} {post' : Round γ β → State → Prop}
    (hp : Reads c Loose p s Q) (h : ∀ a s₁, Q a s₁ → post' (.again (g a)) s₁) :
    Reads c Round.Done (p >>= fun a => Pure.pure (.again (g a))) s post' :=
  hp.bindWith (fun a s₁ hQ => pure (h a s₁ hQ)) fun a s₁ _ _ _ b s₂ hr hb => by
    cases hr
    exact hb

/-! ## Looking -/

section Looking

/-- What a parser does depends on a part of the state, which is the same for both, or which makes no
difference. -/
theorem look {γ : Type} (view : State → γ) {f : γ → Parser β} {g : Parser β}
    (run : ∀ t, g.run t = (f (view t)).run t)
    (same : s.In c.stream → ∀ t, Continues c s t → f (view t) = f (view s))
    (h : Reads c firm₂ (f (view s)) s post') : Reads c firm₂ g s post' := by
  intro hs b s' hr
  rw [run] at hr
  obtain ⟨moves, gives, again⟩ := h hs b s' hr
  refine ⟨moves, gives, fun clean hfirm t ht => ?_⟩
  rw [run, same hs t ht]
  exact again clean hfirm t ht

/-- Where no result is firm, only what comes before the end matters. -/
theorem lookLoose {γ : Type} (view : State → γ) {f : γ → Parser β} {g : Parser β}
    (run : ∀ t, g.run t = (f (view t)).run t)
    (same : s.current.kind ≠ .endOfInput → ∀ t, Continues c s t → f (view t) = f (view s))
    (h : Reads c Loose (f (view s)) s post') : Reads c Loose g s post' := by
  by_cases hk : s.current.kind = .endOfInput
  · intro hs b s' hr
    rw [run] at hr
    obtain ⟨moves, gives, -⟩ := h hs b s' hr
    exact ⟨moves, gives, fun _ hfirm => absurd (moves.stays hs hk) (hfirm.resolve_left id)⟩
  · exact look view run (fun _ => same hk) h

variable {f : Token.Kind → Parser β}

/-- Both parsers see the same, or the first one sees the end and the second one the break. -/
theorem kind (same : s.current.kind = .endOfInput → f .newline = f .endOfInput)
    (h : Reads c firm₂ (f s.current.kind) s post') :
    Reads c firm₂ (Parse.kind >>= f) s post' := by
  refine look (·.current.kind) (fun _ => rfl) (fun hs t ht => ?_) h
  by_cases hk : s.current.kind = .endOfInput
  · rw [ht.kind_of_end hs hk, hk, same hk]
  · rw [ht.current hk]

theorem kindLoose (h : Reads c Loose (f s.current.kind) s post') :
    Reads c Loose (Parse.kind >>= f) s post' :=
  lookLoose (·.current.kind) (fun _ => rfl) (fun hk _ ht => by rw [ht.current hk]) h

theorem followingKind (same : ∀ t, Continues c s t → f t.following.kind = f s.following.kind)
    (h : Reads c firm₂ (f s.following.kind) s post') :
    Reads c firm₂ (Parse.followingKind >>= f) s post' :=
  look (·.following.kind) (fun _ => rfl) (fun _ => same) h

theorem currentSpan {f : Span → Parser β} (hk : s.current.kind ≠ .endOfInput)
    (h : Reads c firm₂ (f s.current.span) s post') :
    Reads c firm₂ (Parse.currentSpan >>= f) s post' :=
  look (·.current.span) (fun _ => rfl) (fun _ _ ht => by rw [ht.current hk]) h

/-- At the end there is no result anyway. -/
theorem currentSpanAsks {f : Span → Parser β} (asks : ∀ span, Asks c (f span) s)
    (h : Reads c firm₂ (f s.current.span) s post') :
    Reads c firm₂ (Parse.currentSpan >>= f) s post' := by
  by_cases hk : s.current.kind = .endOfInput
  · exact from_ fun hs => of_none (asks s.current.span hs hk)
  · exact currentSpan hk h

theorem currentSpanLoose {f : Span → Parser β} (h : Reads c Loose (f s.current.span) s post') :
    Reads c Loose (Parse.currentSpan >>= f) s post' :=
  lookLoose (·.current.span) (fun _ => rfl) (fun hk _ ht => by rw [ht.current hk]) h

theorem previousSpan {f : Span → Parser β} (h : Reads c firm₂ (f s.previous) s post') :
    Reads c firm₂ (Parse.previousSpan >>= f) s post' :=
  look (·.previous) (fun _ => rfl) (fun _ _ ht => by rw [ht.previous]) h

theorem spaceBefore {f : Bool → Parser β} (h : Reads c firm₂ (f s.current.spaceBefore) s post') :
    Reads c firm₂ (Parse.spaceBefore >>= f) s post' :=
  look (·.current.spaceBefore) (fun _ => rfl) (fun _ _ ht => by rw [ht.spaceBefore]) h

theorem isFull {f : Bool → Parser β} (h : Reads c firm₂ (f s.log.isFull) s post') :
    Reads c firm₂ (Parse.isFull >>= f) s post' :=
  look (·.log.isFull) (fun _ => rfl) (fun _ _ ht => by rw [ht.log]) h

theorem isLocal {f : Bool → Parser β} {name : String}
    (h : Reads c firm₂ (f (State.sees name s.scopes)) s post') :
    Reads c firm₂ (Parse.isLocal name >>= f) s post' :=
  look (State.sees name ·.scopes) (fun _ => rfl) (fun _ _ ht => by rw [ht.scopes]) h

/-- Of the state itself only matters whether `do` may start a block. -/
theorem get {f : State → Parser β} (same : ∀ t : State, t.doBlocks = s.doBlocks → f t = f s)
    (h : Reads c firm₂ (f s) s post') : Reads c firm₂ (MonadState.get >>= f) s post' :=
  look id (fun _ => rfl) (fun _ t ht => same t ht.doBlocks) h

theorem at_ {f : Bool → Parser β} (hk : Solid k)
    (h : Reads c firm₂ (f (decide (s.current.kind = k))) s post') :
    Reads c firm₂ (Parse.at_ k >>= f) s post' := by
  refine look (decide <| ·.current.kind = k) (fun _ => rfl) (fun hs t ht => ?_) h
  by_cases he : s.current.kind = .endOfInput
  · rw [ht.kind_of_end hs he, he, decide_eq_false hk.1.symm, decide_eq_false hk.2.symm]
  · rw [ht.current he]

/-- A choice by the current token. -/
theorem ifAt (hk : Solid k) (yes : s.current.kind = k → Reads c firm p s post)
    (no : s.current.kind ≠ k → Reads c firm q s post) :
    Reads c firm (Parse.at_ k >>= fun b => if b = true then p else q) s post := by
  refine at_ hk ?_
  by_cases h : s.current.kind = k
  · rw [decide_eq_true h, if_pos rfl]
    exact yes h
  · rw [decide_eq_false h, if_neg Bool.false_ne_true]
    exact no h

theorem atParenArgs {f : Bool → Parser β}
    (h : ∀ b, (b = true → s.current.kind = .punct .openParen) → Reads c firm₂ (f b) s post') :
    Reads c firm₂ (Parse.atParenArgs >>= f) s post' := by
  have looked : Reads c firm₂ (Parse.at_ (.punct .openParen) >>= fun b =>
      Parse.spaceBefore >>= fun space => f (b && !space)) s post' := by
    refine at_ (solid_punct _) (spaceBefore (h _ fun hb => ?_))
    rw [Bool.and_eq_true, decide_eq_true_eq] at hb
    exact hb.1
  exact looked

theorem startsCommandArgs {f : Bool → Parser β} (h : ∀ b, Reads c firm₂ (f b) s post') :
    Reads c firm₂ (Parse.startsCommandArgs >>= f) s post' := by
  refine look (fun t => (Parse.startsCommandArgs.run t).1.getD false) (fun t => ?_)
    (fun hs t ht => by rw [ht.startsCommandArgs hs]) (h _)
  obtain ⟨b, hb⟩ := Goes.run_startsCommandArgs t
  rw [run_bind, hb]
  rfl

end Looking

/-! ## Passing tokens -/

theorem advance_ {firm : Unit → Prop} (hk : s.current.kind ≠ .endOfInput)
    (hn : ∀ a, firm a → s.current.kind ≠ .newline) :
    Reads c firm Parse.advance s fun _ s' => s' = s.next := by
  rintro hs _ _ ⟨⟩
  refine ⟨.next s, rfl, fun _ hfirm t ht => ⟨t.next, rfl, ht.next hk ?_⟩⟩
  exact hfirm.imp_left (hn ())

theorem pass {f : Unit → Parser β} (hk : Solid s.current.kind)
    (h : Reads c firm₂ (f ()) s.next post') : Reads c firm₂ (Parse.advance >>= f) s post' := by
  refine (advance_ hk.2 fun _ _ => hk.1).bind ?_
  rintro _ _ rfl
  exact h

theorem advance {f : Unit → Parser β} (hs : s.current.kind = k)
    (hk : Solid k) (h : Reads c firm₂ (f ()) s.next post') :
    Reads c firm₂ (Parse.advance >>= f) s post' :=
  pass (hs ▸ hk) h

theorem eat {f : Bool → Parser β} (hk : Solid k)
    (yes : s.current.kind = k → Reads c firm₂ (f true) s.next post')
    (no : s.current.kind ≠ k → Reads c firm₂ (f false) s post') :
    Reads c firm₂ (Parse.eat k >>= f) s post' := by
  have split : Reads c firm₂ (Parse.at_ k >>= fun b => if b = true then
      Parse.advance >>= fun _ => f true else f false) s post' :=
    ifAt hk (fun h => advance h hk (yes h)) no
  have same : ∀ s : State, (Parse.eat k >>= f).run s = (Parse.at_ k >>= fun b => if b = true then
      Parse.advance >>= fun _ => f true else f false).run s := by
    intro s
    rw [run_bind, run_bind]
    show _ = (if decide (s.current.kind = k) = true then
      Parse.advance >>= fun _ => f true else f false).run s
    by_cases h : s.current.kind = k
    · rw [Goes.run_eat_of_eq h, decide_eq_true h, if_pos rfl]
      rfl
    · rw [Goes.run_eat_of_ne h, decide_eq_false h, if_neg Bool.false_ne_true]
  intro hs b s' hr
  rw [same] at hr
  obtain ⟨moves, gives, again⟩ := split hs b s' hr
  exact ⟨moves, gives, fun clean hfirm t ht => same t ▸ again clean hfirm t ht⟩

theorem ifEat (hk : Solid k)
    (yes : s.current.kind = k → Reads c firm p s.next post)
    (no : s.current.kind ≠ k → Reads c firm q s post) :
    Reads c firm (Parse.eat k >>= fun b => if b = true then p else q) s post := by
  refine eat hk ?_ ?_
  · rw [if_pos rfl]
    exact yes
  · rw [if_neg Bool.false_ne_true]
    exact no

theorem eats (hk : Solid k) :
    Reads c Firm (Parse.eat k) s fun _ s' => Gained s [] s' := by
  have last : Reads c Firm (Parse.eat k >>= Pure.pure) s fun _ s' => Gained s [] s' :=
    eat hk (fun _ => pure (Gained.refl s).next) fun _ => pure (.refl s)
  rwa [bind_pure] at last

theorem atLoose {f : Bool → Parser β}
    (h : Reads c Loose (f (decide (s.current.kind = k))) s post') :
    Reads c Loose (Parse.at_ k >>= f) s post' :=
  lookLoose (decide <| ·.current.kind = k) (fun _ => rfl) (fun hk _ ht => by rw [ht.current hk]) h

theorem eatLoose (hk : k ≠ .endOfInput) :
    Reads c Loose (Parse.eat k) s fun b s' => b = true ∧ s.current.kind = k ∧ s' = s.next
      ∨ b = false ∧ s.current.kind ≠ k ∧ s' = s := by
  unfold Parse.eat
  refine atLoose ?_
  by_cases h : s.current.kind = k
  · rw [decide_eq_true h, if_pos rfl]
    have passed : Reads c Loose Parse.advance s fun _ s' => s' = s.next :=
      advance_ (h ▸ hk) fun _ => False.elim
    refine passed.bindLoose ?_
    rintro _ _ rfl
    exact pure (.inl ⟨rfl, h, rfl⟩)
  · rw [decide_eq_false h, if_neg Bool.false_ne_true]
    exact pure (.inr ⟨rfl, h, rfl⟩)

/-! ## Tokens that must come -/

theorem expect {f : Unit → Parser β} (hk : Solid k)
    (h : s.current.kind = k → Reads c firm₂ (f ()) s.next post') :
    Reads c firm₂ (Parse.expect k >>= f) s post' := by
  have passed : Reads c Firm (Parse.expect k) s fun _ s' => s.current.kind = k ∧ s' = s.next := by
    unfold Parse.expect
    refine ifAt hk (fun hs => ?_) fun _ => reject _
    refine (advance_ (hs ▸ hk.2) fun _ _ => hs ▸ hk.1).mono (fun _ => id) ?_
    rintro _ _ rfl
    exact ⟨hs, rfl⟩
  refine passed.bind ?_
  rintro _ _ ⟨hs, rfl⟩
  exact h hs

theorem expectIdentifier {f : String → Parser β}
    (h : ∀ name, Reads c firm₂ (f name) s.next post') :
    Reads c firm₂ (Parse.expectIdentifier >>= f) s post' := by
  have passed : Reads c Firm Parse.expectIdentifier s fun _ s' => s' = s.next := by
    unfold Parse.expectIdentifier
    refine kind (fun _ => rfl) ?_
    split
    · next name hs => exact advance hs ⟨nofun, nofun⟩ (pure rfl)
    · exact reject _
  refine passed.bind ?_
  rintro name _ rfl
  exact h name

theorem expectConstant {f : String → Parser β}
    (h : ∀ name, Reads c firm₂ (f name) s.next post') :
    Reads c firm₂ (Parse.expectConstant >>= f) s post' := by
  have passed : Reads c Firm Parse.expectConstant s fun _ s' => s' = s.next := by
    unfold Parse.expectConstant
    refine kind (fun _ => rfl) ?_
    split
    · next name hs => exact advance hs ⟨nofun, nofun⟩ (pure rfl)
    · exact reject _
  refine passed.bind ?_
  rintro name _ rfl
  exact h name

theorem declare {f : Unit → Parser β} {name : String}
    (h : Reads c firm₂ (f ()) (s.bind name) post') :
    Reads c firm₂ (Parse.declare name >>= f) s post' := by
  have bound : Reads c Firm (Parse.declare name) s fun _ s' => s' = s.bind name := by
    rintro _ _ _ ⟨⟩
    exact ⟨.bind s name, rfl, fun _ _ t ht => ⟨t.bind name, rfl, ht.bind name⟩⟩
  refine bound.bind ?_
  rintro _ _ rfl
  exact h

/-! ## Control -/

theorem run_attempt {f : Option α → Parser β} {b : β} {t t' : State}
    (h : (p >>= fun a => f (some a)).run t = (some b, t')) :
    (Parse.attempt p >>= f).run t = (some b, t') := by
  rw [run_bind] at h ⊢
  show (f (p.run t).1).run (p.run t).2 = _
  rcases hr : p.run t with ⟨_ | a, t₁⟩
  · rw [hr] at h
    cases h
  · rw [hr] at h
    exact h

/-- A parser whose failure is an answer. -/
theorem attempt {f : Option α → Parser β} {R : α → State → Prop} (hp : Reads c Firm p s Q)
    (goes : Goes c.stream s.log.total p s R)
    (no : ∀ s₁, Moves s s₁ → s.log.total < s₁.log.total →
      Goes c.stream s.log.total (f none) s₁ post')
    (yes : ∀ a s₁, Q a s₁ → Reads c firm₂ (f (some a)) s₁ post') :
    Reads c firm₂ (Parse.attempt p >>= f) s post' := by
  intro hs b s' hr
  have outcome := goes hs (Nat.le_refl _)
  rcases h : p.run s with ⟨_ | a, s₁⟩
  · rw [h] at outcome
    have fault : s.log.total < s₁.log.total := outcome.fails rfl
    have rest : (f none).run s₁ = (some b, s') := by
      rw [← hr, run_bind]
      show _ = (f (p.run s).1).run (p.run s).2
      rw [h]
    obtain ⟨moves, -, -, gives⟩ :=
      no s₁ outcome.moves fault (outcome.moves.into hs) (Nat.le_of_lt fault)
    rw [rest] at moves gives
    refine ⟨outcome.moves.trans moves, gives b rfl, fun clean => ?_⟩
    exact absurd clean (Nat.ne_of_gt (Nat.lt_of_lt_of_le fault moves.log))
  · have rest : (p >>= fun a => f (some a)).run s = (some b, s') := by
      rw [← hr, run_bind, run_bind, h]
      show _ = (f (p.run s).1).run (p.run s).2
      rw [h]
    obtain ⟨moves, gives, again⟩ := hp.bind yes hs b s' rest
    refine ⟨moves, gives, fun clean hfirm t ht => ?_⟩
    obtain ⟨t', ht', hc⟩ := again clean hfirm t ht
    exact ⟨t', run_attempt ht', hc⟩

theorem withDoBlocks {allowed : Bool} {of : α → List Binding}
    (h : Reads c firm p { s with doBlocks := allowed }
      (Binds { s with doBlocks := allowed } of)) :
    Reads c firm (Parse.withDoBlocks allowed p) s (Binds s of) := by
  rintro hs a _ hr
  rcases hp : p.run { s with doBlocks := allowed } with ⟨r, s₁⟩
  rw [run_withDoBlocks hp] at hr
  cases hr
  obtain ⟨moves, gives, again⟩ := h hs a s₁ hp
  refine ⟨moves.withDoBlocks, gives.withDoBlocks, fun clean hfirm t ht => ?_⟩
  have inner : Continues c { s with doBlocks := allowed } { t with doBlocks := allowed } :=
    ⟨ht.remaining, ht.previous, ht.log, ht.scopes, rfl⟩
  obtain ⟨t₁, ht₁, hc⟩ := again clean hfirm _ inner
  exact ⟨{ t₁ with doBlocks := t.doBlocks }, run_withDoBlocks ht₁,
    hc.remaining, hc.previous, hc.log, hc.scopes, ht.doBlocks⟩

/-- What is bound in a scope of its own is not known after it. -/
theorem inScope {closed : Bool} {of : α → List Binding}
    (h : Reads c firm p { s with scopes := ⟨[], closed⟩ :: s.scopes } fun a _ => of a = []) :
    Reads c firm (Parse.inScope closed p) s (Binds s of) := by
  rintro hs a _ hr
  rcases hp : p.run { s with scopes := ⟨[], closed⟩ :: s.scopes } with ⟨r, s₁⟩
  rw [run_inScope hp] at hr
  cases hr
  obtain ⟨moves, gives, again⟩ := h hs a s₁ hp
  have known : Gained s (of a) { s₁ with scopes := s₁.scopes.tail } := by
    rw [gives]
    exact .inScope moves
  refine ⟨moves.inScope, known, fun clean hfirm t ht => ?_⟩
  have inner : Continues c { s with scopes := ⟨[], closed⟩ :: s.scopes }
      { t with scopes := ⟨[], closed⟩ :: t.scopes } :=
    ⟨ht.remaining, ht.previous, ht.log, congrArg (⟨[], closed⟩ :: ·) ht.scopes, ht.doBlocks⟩
  obtain ⟨t₁, ht₁, hc⟩ := again clean hfirm _ inner
  exact ⟨{ t₁ with scopes := t₁.scopes.tail }, run_inScope ht₁,
    hc.remaining, hc.previous, hc.log, congrArg List.tail hc.scopes, hc.doBlocks⟩

end Reads

/-! ## Parsers that ask for a token -/

/-- At the end of the text the parser has no result, so that it may come after a loose one. -/
structure Shuts {α : Type} (c : Continuation) (firm : α → Prop) (p : Parser α) (s : State)
    (post : α → State → Prop) : Prop where
  reads : Reads c firm p s post
  asks : Asks c p s

namespace Shuts

variable {c : Continuation} {α β : Type} {firm : α → Prop} {firm₂ : β → Prop} {s : State}
  {p : Parser α} {f : α → Parser β} {Q post : α → State → Prop} {post' : β → State → Prop}
  {k : Token.Kind}

/-- After a loose result comes a parser that asks for a token. -/
theorem bindLoose (hp : Reads c Loose p s Q)
    (hf : ∀ a s₁, Q a s₁ → Shuts c firm₂ (f a) s₁ post') : Shuts c firm₂ (p >>= f) s post' := by
  constructor
  · refine hp.bindWith (fun a s₁ hQ => (hf a s₁ hQ).reads) fun a s₁ hQ hs hk b s₂ hr _ => ?_
    have none := (hf a s₁ hQ).asks hs hk
    rw [hr] at none
    cases none
  · intro hs hk
    rw [run_bind]
    rcases hr : p.run s with ⟨_ | a, s₁⟩
    · rfl
    · obtain ⟨moves, gives, -⟩ := hp hs a s₁ hr
      exact (hf a s₁ gives).asks (moves.into hs) (moves.stays hs hk)

theorem bind (hp : Shuts c Firm p s Q) (hf : ∀ a s₁, Q a s₁ → Reads c firm₂ (f a) s₁ post') :
    Shuts c firm₂ (p >>= f) s post' :=
  ⟨hp.reads.bind hf, hp.asks.bind⟩

theorem expect {f : Unit → Parser β} (hk : Solid k)
    (h : s.current.kind = k → Reads c firm₂ (f ()) s.next post') :
    Shuts c firm₂ (Parse.expect k >>= f) s post' := by
  refine ⟨.expect hk h, Asks.bind fun _ he => ?_⟩
  unfold Parse.expect
  rw [run_bind]
  show ((if decide (s.current.kind = k) = true then Parse.advance else _ : Parser Unit).run s).1 = _
  rw [decide_eq_false (he ▸ hk.2.symm), if_neg Bool.false_ne_true, run_bind]
  rcases (Parse.unexpected ("'" ++ k.text ++ "'")).run s with ⟨_ | b, s'⟩ <;> rfl

theorem at_ {f : Bool → Parser β} (hk : Solid k) (h : ∀ b, Shuts c firm₂ (f b) s post') :
    Shuts c firm₂ (Parse.at_ k >>= f) s post' :=
  ⟨.at_ hk (h _).reads, fun hs he => (h (decide (s.current.kind = k))).asks hs he⟩

/-- A parser that passes a token is not at the end before it. -/
theorem of_ahead (goes : Goes c.stream s.log.total p s (Ahead s))
    (h : s.current.kind ≠ .endOfInput → Reads c firm p s post) : Shuts c firm p s post := by
  have asks := Asks.of_ahead goes
  refine ⟨.from_ fun hs => ?_, asks⟩
  by_cases hk : s.current.kind = .endOfInput
  · exact .of_none (asks hs hk)
  · exact h hk

end Shuts

/-! ## Repetition -/

/-- What is known after a round. -/
def Round.Then {α β : Type} (I : α → State → Prop) (post : β → State → Prop) :
    Round α β → State → Prop
  | .again a, s => I a s
  | .done b, s => post b s

section Repetition

variable {c : Continuation} {α β : Type} {round : α → Parser (Round α β)} {I : α → State → Prop}
  {post : β → State → Prop} {firm : β → Prop} {firmRound : Round α β → Prop}

theorem Asks.rounds {a : α} {s : State} (h : Asks c (round a) s) (fuel : Nat) :
    Asks c (Parse.rounds round fuel a) s := by
  cases fuel with
  | zero => exact fun _ _ => rfl
  | succ fuel => exact h.bind

/-- As many rounds as the first parser needs are enough for the second one. -/
theorem Joins.rounds
    (h : ∀ a s, I a s → Reads c firmRound (round a) s (Round.Then I post))
    (done : ∀ b, firm b → firmRound (.done b))
    (side : ∀ a s, I a s → (∃ b, firm b) → firmRound (.again a) ∨ Asks c (round a) s)
    (fuel fuel' : Nat) (hle : fuel ≤ fuel') {a : α} {s : State} (ha : I a s) :
    Joins c firm (Parse.rounds round fuel a) (Parse.rounds round fuel' a) s post := by
  -- on the rounds of the first parser, which keep the invariant
  induction fuel generalizing fuel' a s with
  | zero => exact fun _ _ _ hr => by cases hr
  | succ fuel ih =>
    obtain ⟨fuel', rfl⟩ := Nat.exists_eq_add_of_le hle
    rw [Nat.add_right_comm]
    unfold Parse.rounds
    refine Joins.bindWith (h a s ha) (fun r s₁ hr => ?_) fun r s₁ hr hs hk b s₂ hb hfirm => ?_
    · cases r with
      | again a => exact ih _ (Nat.le_add_right _ _) hr
      | done b => exact Reads.pure hr
    · cases r with
      | again a =>
        refine (side a s₁ hr ⟨b, hfirm⟩).resolve_right fun asks => ?_
        have none := asks.rounds fuel hs hk
        rw [hb] at none
        cases none
      | done b' =>
        cases hb
        exact done b hfirm

namespace Reads

theorem repeatingWith
    (h : ∀ a s, I a s → Reads c firmRound (round a) s (Round.Then I post))
    (done : ∀ b, firm b → firmRound (.done b))
    (side : ∀ a s, I a s → (∃ b, firm b) → firmRound (.again a) ∨ Asks c (round a) s)
    {a : α} {s : State} (ha : I a s) : Reads c firm (Parse.repeating round a) s post := by
  intro hs b s' hr
  -- the second parser has more tokens left, and so more rounds
  have all (fuel' : Nat) (hle : s.rest.length + 3 ≤ fuel') :=
    Joins.rounds h done side _ fuel' hle ha hs b s' hr
  obtain ⟨moves, gives, -⟩ := all _ (Nat.le_refl _)
  refine ⟨moves, gives, fun clean hfirm t ht => ?_⟩
  have lt := ht.length_lt
  exact (all (t.rest.length + 3) (by omega)).again clean hfirm t ht

/-- Every round is firm. -/
theorem repeating (h : ∀ a s, I a s → Reads c Firm (round a) s (Round.Then I post)) {a : α}
    {s : State} (ha : I a s) : Reads c Firm (Parse.repeating round a) s post :=
  repeatingWith h (fun _ => id) (fun _ _ _ _ => .inl trivial) ha

/-- The last round is firm, and the others ask for a token. -/
theorem repeatingAsks (h : ∀ a s, I a s → Reads c Round.Done (round a) s (Round.Then I post))
    (asks : ∀ a s, Asks c (round a) s) {a : α} {s : State} (ha : I a s) :
    Reads c Firm (Parse.repeating round a) s post :=
  repeatingWith h (fun _ => id) (fun a s _ _ => .inr (asks a s)) ha

theorem repeatingLoose (h : ∀ a s, I a s → Reads c Loose (round a) s (Round.Then I post)) {a : α}
    {s : State} (ha : I a s) : Reads c Loose (Parse.repeating round a) s post :=
  repeatingWith h (fun _ => id) (fun _ _ _ hb => hb.elim fun _ => False.elim) ha

theorem skipNewlines {s : State} :
    Reads c Loose Parse.skipNewlines s fun _ s' => Gained s [] s' := by
  unfold Parse.skipNewlines
  refine repeatingLoose (I := fun _ => Gained s []) (fun _ s' g => ?_) (.refl s)
  refine (eatLoose (k := .newline) nofun).bindLoose ?_
  rintro _ _ (⟨rfl, -, rfl⟩ | ⟨rfl, -, rfl⟩)
  · exact pure g.next
  · exact pure g

end Reads

end Repetition

end ScriptCompiler.Parse
