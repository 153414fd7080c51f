import ScriptCompiler.Proofs.Brackets.Passage

/-!
# Parsers in two places

Two parsers run side by side, in front of the same words in two texts. The first one stands in a
text that holds nothing else, and reports no fault. Then either both do the same, or the second one
stays in front of a `do` that the first one takes, and that is where its first fault is. The rules
follow the steps that a parser is made of.
-/

namespace ScriptCompiler.Brackets

open Parse

/-! ## Two parsers -/

/-- What the second parser answers where the first one answered `a` and left the state `s'`: the
same, or it stays in front of a `do`, or its first fault is at one. -/
inductive Answers {α : Type} (c : Passage) (apart : Prop) (R W : α → α → Prop) (a : α)
    (s' : State) : Option α × State → Prop
  | same {b : α} {t' : State} (related : R a b) (beside : Beside c apart s' t') :
    Answers c apart R W a s' (some b, t')
  | atDo {b : α} {t' : State} (ha : apart) (related : W a b) (h : AtDo c t') :
    Answers c apart R W a s' (some b, t')
  | fault {x : Option α × State} (ha : apart) (h : FaultAtDo c.words x.2) :
    Answers c apart R W a s' x

/-- Where the first parser has a result in front of the words that are left, and no fault, the
second one answers it. Both may stay in front of a `do` where blocks may start in one place alone;
their results are related weakly then. -/
structure Twins {α : Type} (c : Passage) (apart ok : Prop) (p q : Parser α)
    (R W : α → α → Prop) : Prop where
  left : GoesOn p
  right : GoesOn q
  joint : ok → ∀ s t, Beside c apart s t → ∀ a s', p.run s = (some a, s') → s'.log.total = 0 →
    c.behind.length < s'.remaining.length → Answers c apart R W a s' (q.run t)

/-- Nothing is known of two results. -/
abbrev Any {α : Type} (_ _ : α) : Prop :=
  True

/-- There are no two results. -/
abbrev Never {α : Type} (_ _ : α) : Prop :=
  False

namespace Twins

variable {c : Passage} {apart ok ok' : Prop} {α β : Type} {p q : Parser α} {f g : α → Parser β}
  {R R₀ W W₀ : α → α → Prop} {S V : β → β → Prop} {k : Token.Kind}

/-! ## Results and sequences -/

theorem mono (h : Twins c apart ok' p q R₀ W₀) (ho : ok → ok')
    (hr : ok → ∀ a b, R₀ a b → R a b) (hw : ok → ∀ a b, W₀ a b → W a b) :
    Twins c apart ok p q R W := by
  refine ⟨h.left, h.right, fun hok s t hst a s' run clean inside => ?_⟩
  have answer := h.joint (ho hok) s t hst a s' run clean inside
  generalize q.run t = x at answer
  cases answer with
  | same related beside => exact .same (hr hok _ _ related) beside
  | atDo hp related h => exact .atDo hp (hw hok _ _ related) h
  | fault hp h => exact .fault hp h

theorem given (h : Twins c apart ok' p q R W) (ho : ok → ok') : Twins c apart ok p q R W :=
  ⟨h.left, h.right, fun hok => h.joint (ho hok)⟩

/-- What is known holds of all that the parsers depend on. -/
theorem assume (left : GoesOn p) (right : GoesOn q) (h : ok → Twins c apart True p q R W) :
    Twins c apart ok p q R W :=
  ⟨left, right, fun hok => (h hok).joint trivial⟩

theorem pure {a b : α} (h : ok → R a b) : Twins c apart ok (pure a) (pure b) R W := by
  refine ⟨.refl, .refl, fun hok s t hst a s' run clean _ => ?_⟩
  cases run
  exact .same (h hok) hst

/-- The first parser has no result. -/
theorem ofNone (hp : GoesOn p) (hq : GoesOn q) (h : ∀ s, (p.run s).1 = none) :
    Twins c apart ok p q R W := by
  refine ⟨hp, hq, fun _ s t _ a s' run => ?_⟩
  have := h s
  rw [run] at this
  cases this

/-- The first parser reports a fault. -/
theorem ofFault (hp : GoesOn p) (hq : GoesOn q)
    (h : ∀ s, s.In c.stream → 0 < (p.run s).2.log.total) : Twins c apart ok p q R W := by
  refine ⟨hp, hq, fun _ s t hst a s' run clean => ?_⟩
  have := h s hst.inStream
  rw [run, clean] at this
  exact absurd this (Nat.lt_irrefl 0)

/-- One parser after another. Where the second parser stays in front of a `do`, the one after it
does so too, or reports a fault there. -/
theorem bindHalting (hp : Twins c apart ok p q R W)
    (hf : ∀ a b, Twins c apart (ok ∧ R a b) (f a) (g b) S V)
    (halts : ok → ∀ a b, W a b → ∀ s₁ x s', (f a).run s₁ = (some x, s') →
      StaysAtDo c (g b) (V x) ∨ FaultsAtDo c (g b)) : Twins c apart ok (p >>= f) (q >>= g) S V := by
  refine ⟨hp.left.bind fun a => (hf a a).left, hp.right.bind fun b => (hf b b).right,
    fun hok s t hst x s' run clean inside => ?_⟩
  rw [run_bind] at run
  rcases h : p.run s with ⟨_ | a, s₁⟩ <;> rw [h] at run
  · cases run
  dsimp only at run
  have onward : Onward s₁ s' := by
    have := (hf a a).left s₁
    rwa [run] at this
  have first := hp.joint hok s t hst a s₁ h (Nat.le_zero.mp (clean ▸ onward.log))
    (Nat.lt_of_lt_of_le inside onward.suffix.length_le)
  rw [run_bind]
  generalize q.run t = y at first
  cases first with
  | same related beside => exact (hf _ _).joint ⟨hok, related⟩ _ _ beside x s' run clean inside
  | @atDo b t' hp' related h =>
    rcases halts hok _ _ related _ _ _ run with stays | faults
    · obtain ⟨z, hz, hw⟩ := stays _ h
      dsimp only
      rw [hz]
      exact .atDo hp' hw h
    · exact .fault hp' (faults _ h)
  | fault hp' h =>
    obtain ⟨_ | b, t'⟩ := y
    · exact .fault hp' h
    · exact .fault hp' (h.onward ((hf b b).right t'))

theorem bindAtDo (hp : Twins c apart ok p q R W)
    (hf : ∀ a b, Twins c apart (ok ∧ R a b) (f a) (g b) S Any)
    (stays : ∀ b, StaysAtDo c (g b) fun _ => True) : Twins c apart ok (p >>= f) (q >>= g) S Any :=
  hp.bindHalting hf fun _ _ b _ _ _ _ _ => .inl (stays b)

/-- Where the second parser stays in front of a `do`, the one after it reports a fault. -/
theorem bindFaults (hp : Twins c apart ok p q R W)
    (hf : ∀ a b, Twins c apart (ok ∧ R a b) (f a) (g b) S V)
    (faults : ∀ b, FaultsAtDo c (g b)) : Twins c apart ok (p >>= f) (q >>= g) S V :=
  hp.bindHalting hf fun _ _ b _ _ _ _ _ => .inr (faults b)

theorem bind (hp : Twins c apart ok p q R Never)
    (hf : ∀ a b, Twins c apart (ok ∧ R a b) (f a) (g b) S V) :
    Twins c apart ok (p >>= f) (q >>= g) S V :=
  hp.bindHalting hf fun _ _ _ h => h.elim

/-- One parser after another, whatever the first ones give. -/
theorem bindAny (hp : Twins c apart ok p q R Never) (hf : ∀ a b, Twins c apart ok (f a) (g b) S V) :
    Twins c apart ok (p >>= f) (q >>= g) S V :=
  hp.bind fun a b => (hf a b).given And.left

/-- The second parser answers just what the first one does. -/
theorem bindEq (hp : Twins c apart ok p q Eq Never) (hf : ∀ a, Twins c apart ok (f a) (g a) S V) :
    Twins c apart ok (p >>= f) (q >>= g) S V := by
  refine hp.bind fun a b => ⟨(hf a).left, (hf b).right, ?_⟩
  rintro ⟨hok, rfl⟩
  exact (hf a).joint hok

/-- Both results go into one more step. -/
theorem map {F G : α → β} (hp : Twins c apart ok p q R W)
    (hr : ok → ∀ a b, R a b → S (F a) (G b)) (hw : ∀ a b, W a b → V (F a) (G b)) :
    Twins c apart ok (do return F (← p)) (do return G (← q)) S V := by
  refine hp.bindHalting (fun a b => .pure fun hok => hr hok.1 a b hok.2) ?_
  rintro - a b related _ _ _ ⟨⟩
  exact .inl (.pure (hw a b related))

/-- Both parsers depend on something that is the same for both. -/
theorem congr {γ : Type} {x y : γ} {F G : γ → Parser α} (same : ok → x = y)
    (h : ∀ x, Twins c apart ok (F x) (G x) R W) : Twins c apart ok (F x) (G y) R W := by
  refine ⟨(h x).left, (h y).right, fun hok => ?_⟩
  obtain rfl := same hok
  exact (h x).joint hok

theorem ite {b : Prop} [Decidable b] {p' q' : Parser α} (yes : Twins c apart ok p q R W)
    (no : Twins c apart ok p' q' R W) :
    Twins c apart ok (if b then p else p') (if b then q else q') R W := by
  split
  · exact yes
  · exact no

/-- Both parsers decide on something that is the same for both. -/
theorem iteEq {b b' : Bool} {p' q' : Parser α} (same : ok → b = b') (yes : Twins c apart ok p q R W)
    (no : Twins c apart ok p' q' R W) :
    Twins c apart ok (if b then p else p') (if b' then q else q') R W := by
  cases b <;> cases b'
  · exact no
  · exact ⟨no.left, yes.right, fun hok => Bool.noConfusion (same hok)⟩
  · exact ⟨yes.left, no.right, fun hok => Bool.noConfusion (same hok)⟩
  · exact yes

/-! ## Looking -/

/-- A parser that only looks. -/
theorem looks (view : State → α) (run : ∀ s, p.run s = (some (view s), s))
    (same : ∀ s t, Beside c apart s t → R (view s) (view t)) : Twins c apart ok p p R W := by
  refine ⟨.looks run, .looks run, fun _ s t hst a s' hr _ _ => ?_⟩
  rw [run] at hr ⊢
  cases hr
  exact .same (same s t hst) hst

theorem kind : Twins c apart ok Parse.kind Parse.kind Eq Never :=
  looks _ (fun _ => rfl) fun _ _ h => h.current.kind.symm

/-- The kinds of the current token and of the one after it, which may not be the same if the current
one is `end`. -/
theorem kinds {F G : Token.Kind → Token.Kind → Parser β}
    (h : ∀ k l, Twins c apart ok (F k l) (G k l) S V)
    (last : ∀ l l', Twins c apart ok (F (.keyword .endKw) l) (G (.keyword .endKw) l') S V) :
    Twins c apart ok (Parse.kind >>= fun k => Parse.followingKind >>= F k)
      (Parse.kind >>= fun k => Parse.followingKind >>= G k) S V := by
  refine ⟨fun s => (h _ _).left s, fun t => (h _ _).right t, fun hok s t hst => ?_⟩
  show ∀ a s', (F s.current.kind s.following.kind).run s = _ → _ → _ →
    Answers c apart S V a s' ((G t.current.kind t.following.kind).run t)
  rw [hst.current.kind]
  by_cases hk : s.current.kind = .keyword .endKw
  · rw [hk]
    exact (last _ _).joint hok s t hst
  · rw [(hst.following hk).kind]
    exact (h _ _).joint hok s t hst

/-- The kind of the token after one that is not `end`. -/
theorem kindBefore {f g : Token.Kind → Parser β} {F G : Token.Kind → Parser β} (k : Token.Kind)
    (hk : k ≠ .keyword .endKw) (hf : f k = Parse.followingKind >>= F)
    (hg : g k = Parse.followingKind >>= G) (h : ∀ l, Twins c apart ok (F l) (G l) S V)
    (others : ∀ l, l ≠ k → Twins c apart ok (f l) (g l) S V) :
    Twins c apart ok (Parse.kind >>= f) (Parse.kind >>= g) S V := by
  have onward {f F : Token.Kind → Parser β} (hf : f k = Parse.followingKind >>= F)
      (hF : ∀ l, GoesOn (F l)) (hothers : ∀ l, l ≠ k → GoesOn (f l)) :
      GoesOn (Parse.kind >>= f) := by
    refine .bind (.looks fun _ => rfl) fun l => ?_
    by_cases hl : l = k
    · rw [hl, hf]
      exact .bind (.looks fun _ => rfl) hF
    · exact hothers l hl
  refine ⟨onward hf (fun l => (h l).left) fun l hl => (others l hl).left,
    onward hg (fun l => (h l).right) fun l hl => (others l hl).right, fun hok s t hst => ?_⟩
  show ∀ a s', (f s.current.kind).run s = _ → _ → _ →
    Answers c apart S V a s' ((g t.current.kind).run t)
  rw [hst.current.kind]
  by_cases hl : s.current.kind = k
  · rw [hl, hf, hg]
    show ∀ a s', (F s.following.kind).run s = _ → _ → _ →
      Answers c apart S V a s' ((G t.following.kind).run t)
    rw [(hst.following (hl ▸ hk)).kind]
    exact (h _).joint hok s t hst
  · exact (others _ hl).joint hok s t hst

theorem currentSpan : Twins c apart ok Parse.currentSpan Parse.currentSpan Any Never :=
  looks _ (fun _ => rfl) fun _ _ _ => trivial

theorem previousSpan : Twins c apart ok Parse.previousSpan Parse.previousSpan Any Never :=
  looks _ (fun _ => rfl) fun _ _ _ => trivial

theorem spaceBefore : Twins c apart ok Parse.spaceBefore Parse.spaceBefore Eq Never :=
  looks _ (fun _ => rfl) fun _ _ h => h.current.spaceBefore.symm

theorem isLocal (name : String) :
    Twins c apart ok (Parse.isLocal name) (Parse.isLocal name) Eq Never :=
  looks _ (fun _ => rfl) fun _ _ h => (h.sees name).symm

theorem isFull : Twins c apart ok Parse.isFull Parse.isFull Eq Never := by
  refine looks _ (fun _ => rfl) fun s t h => ?_
  rw [Log.isFull, Log.isFull, h.clean, h.clean']
  rfl

theorem at_ (k : Token.Kind) : Twins c apart ok (Parse.at_ k) (Parse.at_ k) Eq Never := by
  refine looks _ (fun _ => rfl) fun s t h => ?_
  rw [h.current.kind]

theorem atEnd : Twins c apart ok Parse.atEnd Parse.atEnd Eq Never :=
  at_ _

theorem atParenArgs : Twins c apart ok Parse.atParenArgs Parse.atParenArgs Eq Never := by
  refine looks (fun s => decide (s.current.kind = .punct .openParen)
    && !s.current.spaceBefore) (fun _ => rfl) fun s t h => ?_
  rw [h.current.kind, h.current.spaceBefore]

theorem startsCommandArgs :
    Twins c apart ok Parse.startsCommandArgs Parse.startsCommandArgs Eq Never := by
  refine looks (fun s => (Parse.startsCommandArgs.run s).1.getD false) (fun s => ?_)
    fun s t h => by rw [h.startsCommandArgs]
  obtain ⟨b, hb⟩ := Goes.run_startsCommandArgs s
  rw [hb]
  rfl

/-! ## Passing tokens -/

theorem advance : Twins c apart ok Parse.advance Parse.advance Any Never := by
  refine ⟨.advance, .advance, fun _ s t hst a s' run _ inside => ?_⟩
  cases run
  exact .same trivial (hst.next inside)

theorem declare (name : String) :
    Twins c apart ok (Parse.declare name) (Parse.declare name) Any Never := by
  refine ⟨fun s => .bind s name, fun s => .bind s name, fun _ s t hst a s' run _ _ => ?_⟩
  cases run
  exact .same trivial (hst.bind name)

theorem eat (k : Token.Kind) : Twins c apart ok (Parse.eat k) (Parse.eat k) Eq Never :=
  (at_ k).bindEq fun _ => ite (advance.bind fun _ _ => pure fun _ => rfl) (pure fun _ => rfl)

theorem discardEat (k : Token.Kind) :
    Twins c apart ok (discard (Parse.eat k)) (discard (Parse.eat k)) Any Never := by
  show Twins c apart ok (Parse.eat k >>= fun _ => Pure.pure ())
    (Parse.eat k >>= fun _ => Pure.pure ()) Any Never
  exact (eat k).bindAny fun _ _ => pure fun _ => trivial

/-! ## Faults -/

theorem unsupported {message suggestion : String} {span : Span} (hq : GoesOn q) :
    Twins c apart ok (Parse.unsupported message span suggestion) q R W :=
  ofNone (.unsupported _ _ _) hq fun _ => rfl

/-- A construct that the compiler does not take starts with the current token. -/
theorem unsupportedHere {message suggestion : String} :
    Twins c apart ok (Parse.currentSpan >>= fun span => Parse.unsupported message span suggestion)
      (Parse.currentSpan >>= fun span => Parse.unsupported message span suggestion) R W :=
  currentSpan.bind fun _ _ => unsupported (.unsupported _ _ _)

theorem unsupportedThen {message suggestion : String} {f g : α → Parser β}
    (left : ∀ a, GoesOn (f a)) (right : ∀ a, GoesOn (g a)) :
    Twins c apart ok
      (Parse.currentSpan >>= fun span => Parse.unsupported message span suggestion >>= f)
      (Parse.currentSpan >>= fun span => Parse.unsupported message span suggestion >>= g) S V :=
  currentSpan.bind fun _ _ => ofNone ((GoesOn.unsupported _ _ _).bind left)
    ((GoesOn.unsupported _ _ _).bind right) fun _ => rfl

theorem reject (expected : String) :
    Twins c apart ok (Parse.unexpected expected >>= fun _ => Alternative.failure (f := Parser))
      (Parse.unexpected expected >>= fun _ => Alternative.failure (f := Parser)) R W := by
  refine ofNone (.reject _) (.reject _) fun s => ?_
  rw [run_bind]
  rcases (Parse.unexpected expected).run s with ⟨_ | _, _⟩ <;> rfl

/-! ## Tokens that must come -/

theorem expect (k : Token.Kind) : Twins c apart ok (Parse.expect k) (Parse.expect k) Any Never :=
  (at_ k).bindEq fun _ => ite advance (reject _)

theorem expectIdentifier :
    Twins c apart ok Parse.expectIdentifier Parse.expectIdentifier Eq Never := by
  unfold Parse.expectIdentifier
  refine kind.bindEq fun k => ?_
  split
  · exact advance.bind fun _ _ => pure fun _ => rfl
  · exact reject _

theorem expectConstant : Twins c apart ok Parse.expectConstant Parse.expectConstant Eq Never := by
  unfold Parse.expectConstant
  refine kind.bindEq fun k => ?_
  split
  · exact advance.bind fun _ _ => pure fun _ => rfl
  · exact reject _

/-! ## Control -/

/-- Where both places are alike, no parser stays in front of a `do` alone. -/
theorem level (h : Twins c False ok p q R W₀) : Twins c False ok p q R W := by
  refine ⟨h.left, h.right, fun hok s t hst a s' run clean inside => ?_⟩
  have answer := h.joint hok s t hst a s' run clean inside
  generalize q.run t = x at answer
  cases answer with
  | same related beside => exact .same related beside
  | atDo ha => exact ha.elim
  | fault ha => exact ha.elim

/-- What is known of two answers: both are results. -/
def OfAttempt (R : α → α → Prop) : Option α → Option α → Prop
  | some a, some b => R a b
  | _, _ => False

/-- A parser whose failure is an answer. -/
theorem attempt {f g : Option α → Parser β} (hp : Twins c apart ok p q R W)
    (fails : ∀ s, s.In c.stream → (p.run s).1 = none → 0 < (p.run s).2.log.total)
    (left : GoesOn (f none)) (right : GoesOn (g none))
    (hf : ∀ a b, Twins c apart (ok ∧ R a b) (f (some a)) (g (some b)) S V)
    (faults : ∀ b, FaultsAtDo c (g (some b))) :
    Twins c apart ok (Parse.attempt p >>= f) (Parse.attempt q >>= g) S V := by
  have answer :
      Twins c apart ok (Parse.attempt p) (Parse.attempt q) (OfAttempt R) (OfAttempt W) := by
    refine ⟨hp.left, hp.right, fun hok s t hst r s' run clean inside => ?_⟩
    have run' : (some (p.run s).1, (p.run s).2) = (some r, s') := run
    have none_ := fails s hst.inStream
    rcases h : p.run s with ⟨_ | a, s₁⟩ <;> rw [h] at run' none_ <;> cases run'
    · exact absurd clean (Nat.ne_of_gt (none_ rfl))
    have answer := hp.joint hok s t hst a s₁ h clean inside
    show Answers c _ _ _ _ _ (some (q.run t).1, (q.run t).2)
    generalize q.run t = x at answer
    cases answer with
    | @same b _ related beside => exact .same (b := some b) related beside
    | @atDo b _ ha related h => exact .atDo (b := some b) ha related h
    | fault ha h => exact .fault ha h
  refine answer.bindHalting (fun r r' => ?_) fun _ r r' related _ _ _ _ => ?_
  · rcases r with _ | a <;> rcases r' with _ | b
    · exact ⟨left, right, fun hok => hok.2.elim⟩
    · exact ⟨left, (hf b b).right, fun hok => hok.2.elim⟩
    · exact ⟨(hf a a).left, right, fun hok => hok.2.elim⟩
    · exact hf a b
  · rcases r with _ | a <;> rcases r' with _ | b
    · exact related.elim
    · exact related.elim
    · exact related.elim
    · exact .inr (faults b)

/-- Where both parsers may start blocks with `do`, or neither may, they do the same. -/
theorem withDoBlocks {allowed : Bool} (h : Twins c False ok p q R Never) :
    Twins c apart ok (Parse.withDoBlocks allowed p) (Parse.withDoBlocks allowed q) R W := by
  refine ⟨h.left.withDoBlocks, h.right.withDoBlocks, fun hok s t hst a s' run clean inside => ?_⟩
  rcases hr : p.run { s with doBlocks := allowed } with ⟨r, s₁⟩
  rw [run_withDoBlocks hr] at run
  cases run
  have answer := h.joint hok _ _ (hst.withDoBlocks allowed) a s₁ hr clean inside
  rcases hr' : q.run { t with doBlocks := allowed } with ⟨r', t₁⟩
  rw [run_withDoBlocks hr']
  rw [hr'] at answer
  cases answer with
  | same related beside => exact .same related (hst.outside beside)
  | atDo ha => exact ha.elim
  | fault ha => exact ha.elim

theorem inScope {closed : Bool} (h : Twins c apart ok p q R W) :
    Twins c apart ok (Parse.inScope closed p) (Parse.inScope closed q) R W := by
  refine ⟨h.left.inScope, h.right.inScope, fun hok s t hst a s' run clean inside => ?_⟩
  rcases hr : p.run { s with scopes := ⟨[], closed⟩ :: s.scopes } with ⟨r, s₁⟩
  rw [run_inScope hr] at run
  cases run
  have answer := h.joint hok _ _ (hst.inScope closed) a s₁ hr clean inside
  have scopes := (h.left { s with scopes := ⟨[], closed⟩ :: s.scopes }).scopes.tail
  have scopes' := (h.right { t with scopes := ⟨[], closed⟩ :: t.scopes }).scopes.tail
  rcases hr' : q.run { t with scopes := ⟨[], closed⟩ :: t.scopes } with ⟨r', t₁⟩
  rw [run_inScope hr']
  rw [hr] at scopes
  rw [hr'] at answer scopes'
  cases answer with
  | same related beside =>
    refine .same related (beside.with_ rfl rfl rfl rfl ?_ ?_ beside.doBlocks)
    · show ∀ name, State.sees name t₁.scopes.tail = State.sees name s₁.scopes.tail
      rw [scopes, scopes']
      exact hst.sees
    · show s₁.scopes.tail ≠ [] ∧ t₁.scopes.tail ≠ []
      rw [scopes, scopes']
      exact hst.scopes
  | atDo ha related h => exact .atDo ha related ⟨h.kind, h.mem, h.clean⟩
  | fault ha h => exact .fault ha h

/-- A parser that takes a `do` where it may start a block. In one place alone it may be left. -/
theorem ifDo {a b : α} (block : Twins c apart ok p q R Any) (none_ : ok → R a b) :
    Twins c apart ok
      (do if (← get).doBlocks && (← Parse.at_ (.keyword .doKw)) then p else return a)
      (do if (← get).doBlocks && (← Parse.at_ (.keyword .doKw)) then q else return b) R Any := by
  have onward {p : Parser α} {a : α} (hp : GoesOn p) : GoesOn
      (do if (← get).doBlocks && (← Parse.at_ (.keyword .doKw)) then p else return a) := by
    refine .bind .get fun s => ?_
    refine .bind (.looks fun _ => rfl) fun _ => ?_
    split
    · exact hp
    · exact .refl
  have run (p : Parser α) (a : α) (s : State) :
      OptionT.run (do
          if (← get).doBlocks && (← Parse.at_ (.keyword .doKw)) then p else return a : Parser α) s
        = if s.doBlocks && decide (s.current.kind = .keyword .doKw) then p.run s
          else (some a, s) := by
    show ((if (s.doBlocks && decide (s.current.kind = .keyword .doKw)) = true then p
      else Pure.pure a : Parser α).run s) = _
    split <;> rfl
  refine ⟨onward block.left, onward block.right, fun hok s t hst x s' hr clean inside => ?_⟩
  rw [run] at hr ⊢
  rw [hst.current.kind]
  by_cases hk : s.current.kind = .keyword .doKw
  · rw [decide_eq_true hk, Bool.and_true] at hr ⊢
    rcases hst.doBlocks with same | ⟨ha, on⟩
    · rw [same]
      split
      · next on =>
        rw [if_pos on] at hr
        exact block.joint hok s t hst x s' hr clean inside
      · next off =>
        rw [if_neg off] at hr
        cases hr
        exact .same (none_ hok) hst
    · rw [if_pos on] at hr
      split
      · exact block.joint hok s t hst x s' hr clean inside
      · exact .atDo ha trivial ⟨hst.current.kind.trans hk, hst.current_mem, hst.clean'⟩
  · rw [decide_eq_false hk, Bool.and_false] at hr ⊢
    rw [if_neg Bool.false_ne_true] at hr ⊢
    cases hr
    exact .same (none_ hok) hst

/-! ## Repetition -/

section Repetition

variable {round round' : α → Parser (Round α β)} {I J : α → α → Prop}

/-- What is known of the results of two rounds: both go on, or both stop. -/
def OfRounds (I : α → α → Prop) (R : β → β → Prop) : Round α β → Round α β → Prop
  | .again a, .again b => I a b
  | .done a, .done b => R a b
  | _, _ => False

theorem rounds
    (h : ∀ a b, Twins c apart (ok ∧ I a b) (round a) (round' b) (OfRounds I S) (OfRounds J V))
    (stays : ∀ a b x, J a b → StaysAtDo c (round' b) fun r => ∃ y, r = .done y ∧ V x y)
    (fuel fuel' : Nat) (le : fuel ≤ fuel') (a b : α) :
    Twins c apart (ok ∧ I a b) (Parse.rounds round fuel a) (Parse.rounds round' fuel' b) S V := by
  induction fuel generalizing fuel' a b with
  | zero => exact ofNone .refl (.rounds (fun b => (h b b).right) _ b) fun _ => rfl
  | succ fuel ih =>
    obtain ⟨fuel', rfl⟩ := Nat.exists_eq_add_one.mpr (Nat.lt_of_lt_of_le (Nat.succ_pos _) le)
    have le := Nat.le_of_succ_le_succ le
    refine (h a b).bindHalting (fun r r' => ?_) fun hok r r' related s₁ x s' run => ?_
    · cases r with
      | again a =>
        cases r' with
        | again b => exact (ih fuel' le a b).given fun hok => ⟨hok.1.1, hok.2⟩
        | done b => exact ⟨.rounds (fun a => (h a a).left) _ a, .refl, fun hok => hok.2.elim⟩
      | done a =>
        cases r' with
        | again b => exact ⟨.refl, .rounds (fun b => (h b b).right) _ b, fun hok => hok.2.elim⟩
        | done b => exact pure fun hok => hok.2
    · cases r with
      | again a =>
        cases r' with
        | again b =>
          -- the first parser had rounds left, so the second one has one, which is its last
          cases fuel with
          | zero => cases run
          | succ fuel =>
            obtain ⟨fuel', rfl⟩ :=
              Nat.exists_eq_add_one.mpr (Nat.lt_of_lt_of_le (Nat.succ_pos _) le)
            left
            intro t ht
            obtain ⟨_, hr, y, rfl, hy⟩ := stays a b x related t ht
            exact ⟨y, run_rounds_done hr, hy⟩
        | done b => exact related.elim
      | done a =>
        cases r' with
        | again b => exact related.elim
        | done b =>
          cases run
          exact .inl (.pure related)

/-- Rounds are repeated until one stops. In front of a `do` the second parser stops. -/
theorem repeatingHalting
    (h : ∀ a b, Twins c apart (ok ∧ I a b) (round a) (round' b) (OfRounds I S) (OfRounds J V))
    (stays : ∀ a b x, J a b → StaysAtDo c (round' b) fun r => ∃ y, r = .done y ∧ V x y) {a b : α}
    (hab : ok → I a b) :
    Twins c apart ok (Parse.repeating round a) (Parse.repeating round' b) S V := by
  refine ⟨.repeating (fun a => (h a a).left) a, .repeating (fun b => (h b b).right) b,
    fun hok s t hst => ?_⟩
  have le : s.rest.length + 3 ≤ t.rest.length + 3 := Nat.add_le_add_right hst.length_le 3
  exact (rounds h stays _ _ le a b).joint ⟨hok, hab hok⟩ s t hst

theorem repeating
    (h : ∀ a b, Twins c apart (ok ∧ I a b) (round a) (round' b) (OfRounds I S) Never) {a b : α}
    (hab : ok → I a b) :
    Twins c apart ok (Parse.repeating round a) (Parse.repeating round' b) S Never :=
  repeatingHalting (J := Never)
    (fun a b => (h a b).mono id (fun _ _ _ => id) fun _ _ _ => False.elim)
    (fun _ _ _ => False.elim) hab

theorem repeatingEq (h : ∀ a, Twins c apart ok (round a) (round' a) (OfRounds Eq S) Never) (a : α) :
    Twins c apart ok (Parse.repeating round a) (Parse.repeating round' a) S Never :=
  repeating (I := Eq) (fun _ _ => congr And.right fun a => (h a).given And.left) fun _ => rfl

end Repetition

theorem skipNewlines : Twins c apart ok Parse.skipNewlines Parse.skipNewlines Any Never := by
  refine repeating (I := Any) (fun _ _ => ?_) fun _ => trivial
  refine (eat .newline).bindEq fun eaten => ?_
  split
  · exact pure fun _ => trivial
  · exact pure fun _ => trivial

end Twins

end ScriptCompiler.Brackets
