import ScriptCompiler.Proofs.Operators.Trees
import ScriptCompiler.Proofs.Parse.Programs

/-!
# The same words in two places

Two states stand in front of the same words, which end with `end`, in two texts. In one place `do`
may start a block, and in the other one it may not. A parser that leaves a `do` untaken there stays
in front of it, or it reports a fault there.
-/

namespace ScriptCompiler.Brackets

open Parse

/-! ## Going on -/

/-- What a parser may do to a state, whether it fails or not: the faults that are kept stay so. -/
structure Onward (s s' : State) : Prop extends Moves s s' where
  kept : s.log.kept <+: s'.log.kept

namespace Onward

variable {s s' s'' : State}

theorem refl (s : State) : Onward s s :=
  ⟨.refl s, List.prefix_refl _⟩

theorem trans (h : Onward s s') (h' : Onward s' s'') : Onward s s'' :=
  ⟨h.toMoves.trans h'.toMoves, h.kept.trans h'.kept⟩

theorem of_log_eq (moves : Moves s s') (same : s'.log = s.log) : Onward s s' :=
  ⟨moves, same ▸ List.prefix_refl s.log.kept⟩

theorem next (s : State) : Onward s s.next :=
  of_log_eq (.next s) s.log_next

theorem bind (s : State) (name : String) : Onward s (s.bind name) :=
  of_log_eq (.bind s name) (s.log_bind name)

theorem report (s : State) (r : Report) : Onward s (s.report r) := by
  refine ⟨.report s r, ?_⟩
  show _ <+: (s.log.push _).kept
  unfold Log.push
  split
  · exact List.prefix_append _ _
  · exact List.prefix_refl _

end Onward

/-- The parser goes on from every state. -/
def GoesOn {α : Type} (p : Parser α) : Prop :=
  ∀ s, Onward s (p.run s).2

namespace GoesOn

variable {α β : Type} {p : Parser α} {f : α → Parser β}

theorem looks {view : State → α} (run : ∀ s, p.run s = (some (view s), s)) : GoesOn p := by
  intro s
  rw [run]
  exact .refl s

theorem get : GoesOn (MonadState.get : Parser State) :=
  looks fun _ => rfl

theorem bind (hp : GoesOn p) (hf : ∀ a, GoesOn (f a)) : GoesOn (p >>= f) := by
  intro s
  have first := hp s
  rw [run_bind]
  rcases h : p.run s with ⟨_ | a, s'⟩ <;> rw [h] at first
  · exact first
  · exact first.trans (hf a s')

theorem advance : GoesOn Parse.advance :=
  Onward.next

theorem report (code : Code) (message : String) (span : Span) :
    GoesOn (Parse.report code message span) :=
  fun s => .report s _

theorem unsupported (message : String) (span : Span) (suggestion : String) :
    GoesOn (Parse.unsupported (α := α) message span suggestion) :=
  fun s => .report s _

theorem unexpected (expected : String) : GoesOn (Parse.unexpected expected) := by
  intro s
  obtain ⟨r, hr⟩ := run_unexpected expected s
  rw [hr]
  exact .report s r

theorem reject (expected : String) :
    GoesOn (Parse.unexpected expected >>= fun _ => Alternative.failure (f := Parser) (α := α)) :=
  (unexpected expected).bind fun _ => .refl

theorem expect (k : Token.Kind) : GoesOn (Parse.expect k) := by
  refine .bind (.looks fun _ => rfl) fun here => ?_
  split
  · exact advance
  · exact reject _

theorem rounds {round : α → Parser (Round α β)} (h : ∀ a, GoesOn (round a)) (fuel : Nat) (a : α) :
    GoesOn (Parse.rounds round fuel a) := by
  induction fuel generalizing a with
  | zero => exact .refl
  | succ fuel ih =>
    refine (h a).bind fun r => ?_
    cases r with
    | again a => exact ih a
    | done b => exact .refl

theorem repeating {round : α → Parser (Round α β)} (h : ∀ a, GoesOn (round a)) (a : α) :
    GoesOn (Parse.repeating round a) :=
  fun s => rounds h _ a s

theorem withDoBlocks {allowed : Bool} (hp : GoesOn p) :
    GoesOn (Parse.withDoBlocks allowed p) := by
  intro s
  obtain ⟨moves, kept⟩ := hp { s with doBlocks := allowed }
  exact ⟨moves.withDoBlocks, kept⟩

theorem inScope {closed : Bool} (hp : GoesOn p) : GoesOn (Parse.inScope closed p) := by
  intro s
  obtain ⟨moves, kept⟩ := hp { s with scopes := ⟨[], closed⟩ :: s.scopes }
  exact ⟨moves.inScope, kept⟩

theorem eat (k : Token.Kind) : GoesOn (Parse.eat k) := by
  intro s
  unfold Parse.eat
  rw [run_at]
  split
  · exact .next s
  · exact .refl s

theorem skipNewlines : GoesOn Parse.skipNewlines := by
  refine repeating (fun _ => (eat _).bind fun eaten => ?_) ()
  split <;> exact .refl

theorem synchronize : GoesOn Parse.synchronize := by
  refine advance.bind fun _ => repeating (fun _ => ?_) ()
  refine bind (looks fun _ => rfl) fun isEnd => ?_
  split
  · exact .refl
  refine (eat _).bind fun eaten => ?_
  split
  · exact .refl
  refine bind (looks fun _ => rfl) fun stops => ?_
  split
  · exact .refl
  · exact advance.bind fun _ => .refl

theorem resume {a : α} : GoesOn (Parse.synchronize >>= fun _ => pure a) :=
  synchronize.bind fun _ => .refl

/-- A fault that is reported stays in the log. -/
theorem total_unexpected (expected : String) {f : Unit → Parser β} (hf : GoesOn (f ()))
    (s : State) : 0 < ((Parse.unexpected expected >>= f).run s).2.log.total := by
  obtain ⟨r, hr⟩ := run_unexpected expected s
  rw [run_bind, hr]
  exact Nat.lt_of_lt_of_le (Nat.succ_pos s.log.total) (hf (s.report r)).log

end GoesOn

/-! ## The same tokens -/

/-- The tokens differ in their spans alone. -/
structure SameWord (t t' : Token) : Prop where
  kind : t'.kind = t.kind
  spaceBefore : t'.spaceBefore = t.spaceBefore

instance (t t' : Token) : Decidable (SameWord t t') :=
  decidable_of_iff (t'.kind = t.kind ∧ t'.spaceBefore = t.spaceBefore)
    ⟨fun h => ⟨h.1, h.2⟩, fun h => ⟨h.kind, h.spaceBefore⟩⟩

/-- The tokens are the same words, one by one, and the last one is `end`. -/
inductive SameWords : List Token → List Token → Prop
  | last {t t' : Token} (h : SameWord t t') (isEnd : t.kind = .keyword .endKw) : SameWords [t] [t']
  | cons {t t' : Token} {ts ts' : List Token} (h : SameWord t t') (hs : SameWords ts ts') :
    SameWords (t :: ts) (t' :: ts')

/-- The same words in two texts: the first text, the tokens behind the words in both of them, and
the words in the second text. -/
structure Passage where
  stream : Stream
  behind : List Token
  words : List Token
  behind' : List Token
  some_behind : behind ≠ []
  length_le : behind.length ≤ behind'.length

/-- No words, in front of the end of a text. -/
instance : Inhabited Passage :=
  let last : Token := ⟨.endOfInput, .synthetic, false⟩
  ⟨⟨.ofFile (.ofText "" ""), [last], [], [last], List.cons_ne_nil _ _, Nat.le_refl 1⟩⟩

/-- Two states in front of the same words, with the same local variables. Where they are not apart,
`do` may start a block in both places or in neither. -/
structure Beside (c : Passage) (apart : Prop) (s t : State) : Prop where
  inStream : s.In c.stream
  words : ∃ left right, s.remaining = left ++ c.behind ∧ t.remaining = right ++ c.behind'
    ∧ SameWords left right ∧ right <:+ c.words
  sees : ∀ name, State.sees name t.scopes = State.sees name s.scopes
  scopes : s.scopes ≠ [] ∧ t.scopes ≠ []
  clean : s.log.total = 0
  clean' : t.log = .empty
  doBlocks : t.doBlocks = s.doBlocks ∨ apart ∧ s.doBlocks = true

/-- The first fault is at a `do` among the words. -/
def FaultAtDo (words : List Token) (s : State) : Prop :=
  ∃ d, s.log.first? = some d ∧ ∃ t ∈ words, t.kind = .keyword .doKw ∧ d.span = t.span

/-- The state stands in front of a `do` of the passage, and there was no fault. -/
structure AtDo (c : Passage) (s : State) : Prop where
  kind : s.current.kind = .keyword .doKw
  mem : s.current ∈ c.words
  clean : s.log = .empty

theorem FaultAtDo.onward {words : List Token} {s s' : State} (h : FaultAtDo words s)
    (ho : Onward s s') : FaultAtDo words s' := by
  obtain ⟨d, first, t, ht⟩ := h
  refine ⟨d, ?_, t, ht⟩
  obtain ⟨more, kept⟩ := ho.kept
  unfold Log.first? at first ⊢
  obtain ⟨ds, hd⟩ := List.head?_eq_some_iff.mp first
  rw [← kept, hd]
  rfl

/-- A fault that is reported there is the first one. -/
theorem AtDo.report {c : Passage} {s : State} (h : AtDo c s) {r : Report}
    (span : r.span = s.current.span) : FaultAtDo c.words (s.report r) := by
  refine ⟨s.file.diagnose r, ?_, s.current, h.mem, h.kind, span⟩
  show (s.log.push _).first? = _
  rw [h.clean]
  rfl

namespace Beside

variable {c : Passage} {apart : Prop} {s t : State}

theorem current (h : Beside c apart s t) : SameWord s.current t.current := by
  obtain ⟨left, right, hs, ht, same, -⟩ := h.words
  cases same with
  | last same _ =>
    rw [(List.cons.inj hs).1, (List.cons.inj ht).1]
    exact same
  | cons same _ =>
    rw [(List.cons.inj hs).1, (List.cons.inj ht).1]
    exact same

theorem current_mem (h : Beside c apart s t) : t.current ∈ c.words := by
  obtain ⟨left, right, hs, ht, same, suffix⟩ := h.words
  refine suffix.subset ?_
  cases same with
  | last same _ =>
    rw [(List.cons.inj ht).1]
    exact List.mem_cons_self
  | cons same _ =>
    rw [(List.cons.inj ht).1]
    exact List.mem_cons_self

/-- The last word, which has none after it, is `end`. -/
theorem following (h : Beside c apart s t) (hk : s.current.kind ≠ .keyword .endKw) :
    SameWord s.following t.following := by
  obtain ⟨left, right, hs, ht, same, -⟩ := h.words
  cases same with
  | last same isEnd =>
    rw [(List.cons.inj hs).1] at hk
    exact absurd isEnd hk
  | cons same more =>
    have rest : s.rest = _ := (List.cons.inj hs).2
    have rest' : t.rest = _ := (List.cons.inj ht).2
    unfold State.following
    rw [rest, rest']
    cases more with
    | last same _ => exact same
    | cons same _ => exact same

theorem length_le (h : Beside c apart s t) : s.rest.length ≤ t.rest.length := by
  obtain ⟨left, right, hs, ht, same, -⟩ := h.words
  have words : left.length = right.length := by
    clear hs ht
    induction same with
    | last _ _ => rfl
    | cons _ _ ih => exact congrArg Nat.succ ih
  have hs := congrArg List.length hs
  have ht := congrArg List.length ht
  rw [State.length_remaining, List.length_append] at hs ht
  have := c.length_le
  omega

/-- The words end in both places at once. -/
theorem rest_eq (h : Beside c apart s t) (last : s.rest = c.behind) : t.rest = c.behind' := by
  obtain ⟨left, right, hs, ht, same, -⟩ := h.words
  cases same with
  | last _ _ => exact (List.cons.inj ht).2
  | cons _ more =>
    have rest : s.rest = _ := (List.cons.inj hs).2
    rw [last] at rest
    cases more <;> exact absurd (List.self_eq_append_left.mp rest) (List.cons_ne_nil _ _)

/-- Both pass a word, unless it is the last one. -/
theorem next (h : Beside c apart s t) (inside : c.behind.length < s.next.remaining.length) :
    Beside c apart s.next t.next := by
  obtain ⟨left, right, hs, ht, same, suffix⟩ := h.words
  have words : ∃ left right, s.next.remaining = left ++ c.behind
      ∧ t.next.remaining = right ++ c.behind' ∧ SameWords left right ∧ right <:+ c.words := by
    cases same with
    | last same _ =>
      -- nothing would be left of the words
      have rest : s.rest = c.behind := (List.cons.inj hs).2
      rw [State.remaining_next (rest ▸ c.some_behind), rest] at inside
      exact absurd inside (Nat.lt_irrefl _)
    | cons same more =>
      have rest : s.rest = _ := (List.cons.inj hs).2
      have rest' : t.rest = _ := (List.cons.inj ht).2
      refine ⟨_, _, ?_, ?_, more, (List.suffix_cons _ _).trans suffix⟩
      · refine (State.remaining_next fun hr => ?_).trans rest
        cases more <;> exact List.cons_ne_nil _ _ (rest.symm.trans hr)
      · refine (State.remaining_next fun hr => ?_).trans rest'
        cases more <;> exact List.cons_ne_nil _ _ (rest'.symm.trans hr)
  exact ⟨s.suffix_next.trans h.inStream, words, by simpa using h.sees, by simpa using h.scopes,
    by simpa using h.clean, by simpa using h.clean', by simpa using h.doBlocks⟩

/-- What both see is not changed by how they came there. -/
theorem with_ {s' t' : State} (h : Beside c apart s t) (words : s'.remaining = s.remaining)
    (words' : t'.remaining = t.remaining) (log : s'.log = s.log) (log' : t'.log = t.log)
    (sees : ∀ name, State.sees name t'.scopes = State.sees name s'.scopes)
    (scopes : s'.scopes ≠ [] ∧ t'.scopes ≠ [])
    (doBlocks : t'.doBlocks = s'.doBlocks ∨ apart ∧ s'.doBlocks = true) : Beside c apart s' t' where
  inStream := by
    rw [State.In, words]
    exact h.inStream
  words := by
    rw [words, words']
    exact h.words
  sees := sees
  scopes := scopes
  clean := log ▸ h.clean
  clean' := log' ▸ h.clean'
  doBlocks := doBlocks

theorem startsCommandArgs (h : Beside c apart s t) :
    (Parse.startsCommandArgs.run t).1 = (Parse.startsCommandArgs.run s).1 := by
  have following := h.following
  unfold Parse.startsCommandArgs
  rw [run_bind, run_bind]
  show ((if (!t.current.spaceBefore) = true then Pure.pure false else _ : Parser Bool).run t).1
    = ((if (!s.current.spaceBefore) = true then Pure.pure false else _ : Parser Bool).run s).1
  rw [h.current.kind, h.current.spaceBefore]
  split
  · rfl
  revert following
  generalize s.current.kind = k
  intro following
  cases k with
  | keyword word => cases word <;> rfl
  | punct mark =>
    cases mark with
    | minus | bang => exact congrArg (fun b => some !b) (following nofun).spaceBefore
    | _ => rfl
  | _ => rfl

theorem bind (h : Beside c apart s t) (name : String) :
    Beside c apart (s.bind name) (t.bind name) := by
  have sees {s : State} (hs : s.scopes ≠ []) (other : String) :
      State.sees other (s.bind name).scopes
        = (decide (other = name) || State.sees other s.scopes) := by
    unfold State.bind
    cases hc : s.scopes with
    | nil => exact absurd hc hs
    | cons scope outer => simp [State.sees, Bool.or_assoc]
  have some_scope {s : State} (hs : s.scopes ≠ []) : (s.bind name).scopes ≠ [] := by
    unfold State.bind
    cases hc : s.scopes with
    | nil => exact absurd hc hs
    | cons scope outer => exact List.cons_ne_nil _ _
  refine h.with_ (by simp) (by simp) (by simp) (by simp) (fun other => ?_)
    ⟨some_scope h.scopes.1, some_scope h.scopes.2⟩ (by simpa using h.doBlocks)
  rw [sees h.scopes.1, sees h.scopes.2, h.sees]

/-- Both places are alike for a while. -/
theorem withDoBlocks (h : Beside c apart s t) (allowed : Bool) :
    Beside c False { s with doBlocks := allowed } { t with doBlocks := allowed } where
  inStream := h.inStream
  words := h.words
  sees := h.sees
  scopes := h.scopes
  clean := h.clean
  clean' := h.clean'
  doBlocks := .inl rfl

/-- Both places are as before. -/
theorem outside {s' t' : State} (h : Beside c apart s t) (h' : Beside c False s' t') :
    Beside c apart { s' with doBlocks := s.doBlocks } { t' with doBlocks := t.doBlocks } where
  inStream := h'.inStream
  words := h'.words
  sees := h'.sees
  scopes := h'.scopes
  clean := h'.clean
  clean' := h'.clean'
  doBlocks := h.doBlocks

theorem inScope (h : Beside c apart s t) (closed : Bool) :
    Beside c apart { s with scopes := ⟨[], closed⟩ :: s.scopes }
      { t with scopes := ⟨[], closed⟩ :: t.scopes } := by
  refine h.with_ rfl rfl rfl rfl (fun name => ?_) ⟨List.cons_ne_nil _ _, List.cons_ne_nil _ _⟩
    h.doBlocks
  simp [State.sees, h.sees]

end Beside

/-! ## In front of a `do` -/

/-- In front of a `do` the parser gives a result without passing it. -/
def StaysAtDo {β : Type} (c : Passage) (g : Parser β) (post : β → Prop) : Prop :=
  ∀ t, AtDo c t → ∃ b, g.run t = (some b, t) ∧ post b

/-- In front of a `do` the parser reports a fault. -/
def FaultsAtDo {β : Type} (c : Passage) (g : Parser β) : Prop :=
  ∀ t, AtDo c t → FaultAtDo c.words (g.run t).2

/-- In front of a `do` the parser reports a fault and gives no result. -/
def RefusesDo {β : Type} (c : Passage) (g : Parser β) : Prop :=
  ∀ t, AtDo c t → (g.run t).1 = none ∧ FaultAtDo c.words (g.run t).2

section AtDo

variable {c : Passage} {α β : Type} {p : Parser α} {f : α → Parser β} {Q : α → Prop}
  {post : β → Prop}

namespace StaysAtDo

theorem pure {b : β} (h : post b) : StaysAtDo c (pure b) post :=
  fun _ _ => ⟨b, rfl, h⟩

theorem bind (hp : StaysAtDo c p Q) (hf : ∀ a, Q a → StaysAtDo c (f a) post) :
    StaysAtDo c (p >>= f) post := by
  intro t ht
  obtain ⟨a, ha, hq⟩ := hp t ht
  rw [run_bind, ha]
  exact hf a hq t ht

theorem kind {f : Token.Kind → Parser β} (h : StaysAtDo c (f (.keyword .doKw)) post) :
    StaysAtDo c (Parse.kind >>= f) post := by
  intro t ht
  rw [run_kind, ht.kind]
  exact h t ht

theorem at_ {k : Token.Kind} (hk : k ≠ .keyword .doKw) {f : Bool → Parser β}
    (h : StaysAtDo c (f false) post) : StaysAtDo c (Parse.at_ k >>= f) post := by
  intro t ht
  rw [run_at, ht.kind, decide_eq_false hk.symm]
  exact h t ht

theorem previousSpan {f : Span → Parser β} (h : ∀ span, StaysAtDo c (f span) post) :
    StaysAtDo c (Parse.previousSpan >>= f) post :=
  fun t ht => h t.previous t ht

/-- The first round is the last one. -/
theorem repeating {round : α → Parser (Round α β)} {a : α}
    (h : StaysAtDo c (round a) fun r => ∃ b, r = .done b ∧ post b) :
    StaysAtDo c (Parse.repeating round a) post := by
  intro t ht
  obtain ⟨_, hr, b, rfl, hb⟩ := h t ht
  exact ⟨b, run_repeating hr, hb⟩

theorem skipThen : StaysAtDo c Parse.skipThen fun _ => True := by
  intro t ht
  refine ⟨(), ?_, trivial⟩
  unfold Parse.skipThen
  rw [run_bind, run_skipNewlines_of_ne (by rw [ht.kind]; nofun)]
  dsimp only
  rw [run_bind, Goes.run_eat_of_ne (by rw [ht.kind]; nofun)]
  rfl

/-- A parser that reports a fault comes after one that does not. -/
theorem bindFaults (hp : StaysAtDo c p Q) (hf : ∀ a, Q a → FaultsAtDo c (f a)) :
    FaultsAtDo c (p >>= f) := by
  intro t ht
  obtain ⟨a, ha, hq⟩ := hp t ht
  rw [run_bind, ha]
  exact hf a hq t ht

end StaysAtDo

namespace FaultsAtDo

theorem bind (hp : FaultsAtDo c p) (onward : ∀ a, GoesOn (f a)) : FaultsAtDo c (p >>= f) := by
  intro t ht
  have first := hp t ht
  rw [run_bind]
  rcases h : p.run t with ⟨_ | a, t'⟩ <;> rw [h] at first
  · exact first
  · exact first.onward (onward a t')

theorem kind {f : Token.Kind → Parser β} (h : FaultsAtDo c (f (.keyword .doKw))) :
    FaultsAtDo c (Parse.kind >>= f) := by
  intro t ht
  rw [run_kind, ht.kind]
  exact h t ht

/-- The token is none that is expected. -/
theorem unexpected (expected : String) : FaultsAtDo c (Parse.unexpected expected) := by
  intro t ht
  unfold Parse.unexpected
  rw [run_kind, if_neg (by rw [ht.kind]; nofun)]
  exact ht.report rfl

theorem attempt (h : FaultsAtDo c p) : FaultsAtDo c (Parse.attempt p) :=
  h

theorem repeating {round : α → Parser (Round α β)} {a : α} (h : FaultsAtDo c (round a))
    (onward : ∀ a, GoesOn (round a)) : FaultsAtDo c (Parse.repeating round a) := by
  intro t ht
  rw [run_repeating_eq]
  refine (h.bind fun r => ?_) t ht
  cases r with
  | again a => exact .rounds onward _ a
  | done b => exact .refl

end FaultsAtDo

namespace RefusesDo

theorem faults (h : RefusesDo c p) : FaultsAtDo c p :=
  fun t ht => (h t ht).2

theorem bind (hp : RefusesDo c p) : RefusesDo c (p >>= f) := by
  intro t ht
  have first := hp t ht
  rw [run_bind]
  rcases h : p.run t with ⟨_ | a, t'⟩ <;> rw [h] at first
  · exact ⟨rfl, first.2⟩
  · cases first.1

theorem kind {f : Token.Kind → Parser β} (h : RefusesDo c (f (.keyword .doKw))) :
    RefusesDo c (Parse.kind >>= f) := by
  intro t ht
  rw [run_kind, ht.kind]
  exact h t ht

theorem followingKind {f : Token.Kind → Parser β} (h : ∀ k, RefusesDo c (f k)) :
    RefusesDo c (Parse.followingKind >>= f) :=
  fun t ht => h t.following.kind t ht

theorem currentSpan {f : Span → Parser β} (h : ∀ span, RefusesDo c (f span)) :
    RefusesDo c (Parse.currentSpan >>= f) :=
  fun t ht => h t.current.span t ht

/-- The first round fails. -/
theorem repeating {round : α → Parser (Round α β)} {a : α} (h : RefusesDo c (round a)) :
    RefusesDo c (Parse.repeating round a) :=
  fun t ht => bind h t ht

theorem reject (expected : String) :
    RefusesDo c (Parse.unexpected expected >>= fun _ => Alternative.failure (f := Parser)
      (α := β)) := by
  intro t ht
  have fault := FaultsAtDo.unexpected (c := c) expected t ht
  rw [run_bind]
  rcases h : (Parse.unexpected expected).run t with ⟨_ | a, t'⟩ <;> rw [h] at fault
  · exact ⟨rfl, fault⟩
  · exact ⟨rfl, fault⟩

end RefusesDo

end AtDo

end ScriptCompiler.Brackets
