import ScriptCompiler.Proofs.Parse.Programs
import ScriptCompiler.Proofs.Syntax.Bindings

/-!
# A line after a text

A text goes on with one more line. Two parsers, in front of the tokens of the text and of the tokens
with that line after them, stand at the same token until the text ends; there the second one stands
at the line break. What the first one has bound until then is what the program binds in its
outermost scope.
-/

namespace ScriptCompiler.Parse

/-! ## Names that a scope gains -/

/-- The innermost scope gained the names of the bindings. A name with a capital first letter is no
local variable but belongs to the environment, and nothing is said of it. -/
inductive Gains (xs : List Binding) : List Scope → List Scope → Prop
  | none : Gains xs [] []
  | inner {names names' : List String} {closed : Bool} {outer : List Scope} :
    (∀ n, Token.startsUpper n = false → (n ∈ names' ↔ n ∈ names ∨ ∃ b ∈ xs, b.name = n)) →
    Gains xs (⟨names, closed⟩ :: outer) (⟨names', closed⟩ :: outer)

namespace Gains

variable {xs ys : List Binding} {scopes scopes' scopes'' : List Scope}

theorem refl : (scopes : List Scope) → Gains [] scopes scopes
  | [] => .none
  | _ :: _ => .inner fun n _ => by simp

theorem trans (h : Gains xs scopes scopes') (h' : Gains ys scopes' scopes'') :
    Gains (xs ++ ys) scopes scopes'' := by
  cases h with
  | none =>
    cases h'
    exact .none
  | inner h =>
    cases h' with
    | inner h' =>
      refine .inner fun n hn => ?_
      rw [h' n hn, h n hn, or_assoc]
      simp only [List.mem_append, or_and_right, exists_or]

/-- The order of the bindings does not matter. -/
theorem congr (h : Gains xs scopes scopes') (same : ∀ b, b ∈ xs ↔ b ∈ ys) :
    Gains ys scopes scopes' := by
  cases h with
  | none => exact .none
  | inner h => exact .inner fun n hn => by simp only [h n hn, same]

/-- What a program sees that started in a closed scope. -/
theorem sees_iff {known : List String} {n : String} (h : Gains xs [⟨known, true⟩] scopes)
    (hn : Token.startsUpper n = false) :
    State.sees n scopes = true ↔ n ∈ known ∨ ∃ b ∈ xs, b.name = n := by
  cases h with
  | inner h => simp [State.sees, h n hn]

end Gains

/-- On the way from one state to another the innermost scope gained the names of the bindings, as
long as no fault was reported. -/
structure Gained (s : State) (xs : List Binding) (s' : State) : Prop where
  moves : Moves s s'
  gains : s'.log.total = s.log.total → Gains xs s.scopes s'.scopes

namespace Gained

variable {s s' s'' : State} {xs ys : List Binding}

theorem refl (s : State) : Gained s [] s :=
  ⟨.refl s, fun _ => .refl _⟩

theorem trans (h : Gained s xs s') (h' : Gained s' ys s'') : Gained s (xs ++ ys) s'' := by
  refine ⟨h.moves.trans h'.moves, fun clean => ?_⟩
  have le := h.moves.log
  have le' := h'.moves.log
  exact (h.gains (by omega)).trans (h'.gains (by omega))

theorem congr (h : Gained s xs s') (same : ∀ b, b ∈ xs ↔ b ∈ ys) : Gained s ys s' :=
  ⟨h.moves, fun clean => (h.gains clean).congr same⟩

/-- After a fault nothing is said of the scopes. -/
theorem of_fault (h : Gained s xs s') (moves : Moves s' s'')
    (fault : s'.log.total < s''.log.total) : Gained s ys s'' := by
  have before := h.moves.log
  exact ⟨h.moves.trans moves, fun clean => by omega⟩

theorem next (h : Gained s xs s') : Gained s xs s'.next :=
  ⟨h.moves.trans (.next s'), fun clean => by
    rw [State.scopes_next]
    exact h.gains (State.log_next s' ▸ clean)⟩

/-- A name is bound. -/
theorem bind (h : Gained s xs s') (b : Binding) : Gained s (xs ++ [b]) (s'.bind b.name) := by
  refine h.trans ⟨.bind s' b.name, fun _ => ?_⟩
  unfold State.bind
  split
  · next hs =>
    rw [hs]
    exact .none
  · next scope outer hs =>
    rw [hs]
    refine .inner fun n _ => ?_
    simp [or_comm, eq_comm]

/-- A name with a capital first letter is no local variable. -/
theorem capital (h : Gained s xs s') {name : String} (hn : Token.startsUpper name = true) :
    Gained s (xs ++ [.assigned name]) s' := by
  refine h.trans ⟨.refl s', fun _ => ?_⟩
  rcases s'.scopes with _ | ⟨scope, outer⟩
  · exact .none
  · refine .inner fun n lower => ?_
    have other : name ≠ n := fun same => by simp [← same, hn] at lower
    simp [Binding.name, other]

theorem withDoBlocks {allowed : Bool} (h : Gained { s with doBlocks := allowed } xs s') :
    Gained s xs { s' with doBlocks := s.doBlocks } :=
  ⟨h.moves.withDoBlocks, h.gains⟩

/-- Names that are bound in a scope of its own are gone after it. -/
theorem inScope {closed : Bool}
    (h : Moves { s with scopes := ⟨[], closed⟩ :: s.scopes } s') :
    Gained s [] { s' with scopes := s'.scopes.tail } := by
  refine ⟨h.inScope, fun _ => ?_⟩
  have outer : s'.scopes.tail = s.scopes := h.scopes.tail
  show Gains [] s.scopes s'.scopes.tail
  rw [outer]
  exact .refl _

end Gained

/-! ## Continuations -/

/-- A line that comes after a text, with the line break in front of it. The text ends at the break,
or after it if it has a line break at its end itself. -/
structure Continuation where
  /-- The text. -/
  stream : Stream
  stop : Token
  isEnd : stop.kind = .endOfInput
  lineBreak : Token
  isBreak : lineBreak.kind = .newline
  /-- The first token of the line, which no statement goes on with. -/
  first : Token
  starts : first.kind ≠ .newline ∧ first.kind ≠ .punct .dot
  /-- The tokens after it, the last of which is the end. -/
  others : List Token
  more : others ≠ []
  /-- The tokens of the text from the break on. -/
  ending : List Token
  ends : ending = [stop] ∧ lineBreak.spaceBefore = stop.spaceBefore ∨ ending = [lineBreak, stop]

/-- The line. -/
abbrev Continuation.line (c : Continuation) : List Token :=
  c.first :: c.others

theorem Continuation.append_ending_ne_nil (c : Continuation) (before : List Token) :
    before ++ c.ending ≠ [] := by
  refine List.append_ne_nil_of_right_ne_nil before ?_
  rcases c.ends with ⟨he, -⟩ | he <;> rw [he] <;> exact List.cons_ne_nil _ _

/-- The second parser, in front of the text and the line, stands where the first one does. -/
structure Continues (c : Continuation) (s t : State) : Prop where
  remaining : ∃ before, s.remaining = before ++ c.ending
    ∧ t.remaining = before ++ c.lineBreak :: c.line
  previous : t.previous = s.previous
  log : t.log = s.log
  scopes : t.scopes = s.scopes
  doBlocks : t.doBlocks = s.doBlocks

namespace Continues

variable {c : Continuation} {s t : State}

/-- They stand at the same token, or the first one at the end and the second one at the break. -/
theorem cases (h : Continues c s t) :
    (s.current = c.stop ∧ s.rest = [] ∧ t.current = c.lineBreak ∧ t.rest = c.line
        ∧ c.lineBreak.spaceBefore = c.stop.spaceBefore)
      ∨ (s.current = c.lineBreak ∧ s.rest = [c.stop] ∧ t.current = c.lineBreak ∧ t.rest = c.line)
      ∨ ∃ before, t.current = s.current ∧ s.rest = before ++ c.ending
        ∧ t.rest = before ++ c.lineBreak :: c.line := by
  obtain ⟨before, hs, ht⟩ := h.remaining
  cases before with
  | nil =>
    obtain ⟨htc, htr⟩ := List.cons.inj ht
    rcases c.ends with ⟨he, space⟩ | he
    · rw [he] at hs
      obtain ⟨hsc, hsr⟩ := List.cons.inj hs
      exact .inl ⟨hsc, hsr, htc, htr, space⟩
    · rw [he] at hs
      obtain ⟨hsc, hsr⟩ := List.cons.inj hs
      exact .inr (.inl ⟨hsc, hsr, htc, htr⟩)
  | cons token before =>
    obtain ⟨hsc, hsr⟩ := List.cons.inj hs
    obtain ⟨htc, htr⟩ := List.cons.inj ht
    exact .inr (.inr ⟨before, htc.trans hsc.symm, hsr, htr⟩)

theorem current (h : Continues c s t) (hk : s.current.kind ≠ .endOfInput) :
    t.current = s.current := by
  rcases h.cases with ⟨hs, -⟩ | ⟨hs, -, ht, -⟩ | ⟨_, ht, -⟩
  · rw [hs] at hk
    exact absurd c.isEnd hk
  · rw [hs, ht]
  · exact ht

/-- At the end of the text the second parser stands at the break, and behind it comes the line. -/
theorem of_end (h : Continues c s t) (hs : s.In c.stream) (hk : s.current.kind = .endOfInput) :
    t.current = c.lineBreak ∧ t.rest = c.line := by
  have last : s.rest = [] := hs.rest_eq_nil_iff.mpr hk
  rcases h.cases with ⟨-, -, hc, hr, -⟩ | ⟨-, hr, -⟩ | ⟨before, -, hr, -⟩
  · exact ⟨hc, hr⟩
  · rw [last] at hr
    cases hr
  · exact absurd (hr.symm.trans last) (c.append_ending_ne_nil before)

theorem kind_of_end (h : Continues c s t) (hs : s.In c.stream)
    (hk : s.current.kind = .endOfInput) : t.current.kind = .newline := by
  rw [(h.of_end hs hk).1]
  exact c.isBreak

theorem following_of_end (h : Continues c s t) (hs : s.In c.stream)
    (hk : s.current.kind = .endOfInput) : t.following = c.first := by
  unfold State.following
  rw [(h.of_end hs hk).2]
  rfl

theorem spaceBefore (h : Continues c s t) : t.current.spaceBefore = s.current.spaceBefore := by
  rcases h.cases with ⟨hs, -, ht, -, space⟩ | ⟨hs, -, ht, -⟩ | ⟨_, ht, -⟩
  · rw [hs, ht, space]
  · rw [hs, ht]
  · rw [ht]

/-- The second parser has more tokens left. -/
theorem length_lt (h : Continues c s t) : s.rest.length < t.rest.length := by
  have := List.length_pos_iff.mpr c.more
  rcases h.cases with ⟨-, hs, -, ht, -⟩ | ⟨-, hs, -, ht⟩ | ⟨before, -, hs, ht⟩
  · rw [hs, ht]
    exact Nat.succ_pos _
  · rw [hs, ht]
    exact Nat.succ_lt_succ this
  · rw [hs, ht, Continuation.line]
    rcases c.ends with ⟨he, -⟩ | he <;> rw [he] <;>
      simp only [List.length_append, List.length_cons, List.length_nil] <;> omega

/-- Behind a token that is no line break comes the same for both, or the end for the first and the
break for the second. -/
theorem following (h : Continues c s t) (hk : s.current.kind ≠ .endOfInput)
    (hn : s.current.kind ≠ .newline) :
    t.following.spaceBefore = s.following.spaceBefore
      ∧ (t.following.kind = s.following.kind
        ∨ s.following.kind = .endOfInput ∧ t.following.kind = .newline) := by
  rcases h.cases with ⟨hs, -⟩ | ⟨hs, -⟩ | ⟨before, -, hs, ht⟩
  · rw [hs] at hk
    exact absurd c.isEnd hk
  · rw [hs] at hn
    exact absurd c.isBreak hn
  · unfold State.following
    rw [hs, ht]
    cases before with
    | nil =>
      rcases c.ends with ⟨he, space⟩ | he <;> rw [he]
      · exact ⟨space, .inr ⟨c.isEnd, c.isBreak⟩⟩
      · exact ⟨rfl, .inl rfl⟩
    | cons token before => exact ⟨rfl, .inl rfl⟩

/-- What depends on the current token and the one behind it is the same for both, if it depends on
the second one only behind tokens that are no line break and not the end, and does not tell apart
there whether a line break or the end comes. -/
theorem ahead {γ : Type} {g : Token.Kind → Token.Kind → γ} (h : Continues c s t)
    (first : ∀ k k' k'', k = .newline ∨ k = .endOfInput → g k k' = g k k'')
    (last : ∀ k, g k .newline = g k .endOfInput) :
    g s.current.kind t.following.kind = g s.current.kind s.following.kind := by
  by_cases hk : s.current.kind = .newline ∨ s.current.kind = .endOfInput
  · exact first _ _ _ hk
  · rw [not_or] at hk
    rcases (h.following hk.2 hk.1).2 with same | ⟨hs, ht⟩
    · rw [same]
    · rw [hs, ht, last]

/-- Behind a line break a point comes for both or for neither. -/
theorem following_dot (h : Continues c s t) (hn : s.current.kind = .newline) :
    t.following.kind = .punct .dot ↔ s.following.kind = .punct .dot := by
  have other {k : Token.Kind} (hk : k = .endOfInput ∨ k = .newline) : k ≠ .punct .dot := by
    rcases hk with rfl | rfl <;> nofun
  rcases h.cases with ⟨hs, -⟩ | ⟨-, hs, -, ht⟩ | ⟨before, -, hs, ht⟩
  · rw [hs, c.isEnd] at hn
    cases hn
  · unfold State.following
    rw [hs, ht]
    exact iff_of_false c.starts.2 (other (.inl c.isEnd))
  · unfold State.following
    rw [hs, ht]
    cases before with
    | nil =>
      rcases c.ends with ⟨he, -⟩ | he <;> rw [he]
      · exact iff_of_false (other (.inr c.isBreak)) (other (.inl c.isEnd))
      · exact Iff.rfl
    | cons token before => exact Iff.rfl

/-- Both pass a token, or the first one comes to the end and the second one to the line. -/
theorem next_or (h : Continues c s t) (hk : s.current.kind ≠ .endOfInput) :
    Continues c s.next t.next
      ∨ s.current.kind = .newline ∧ s.next.current.kind = .endOfInput ∧ t.rest = c.line := by
  have same := h.current hk
  rcases h.cases with ⟨hs, -⟩ | ⟨hs, hr, -, ht⟩ | ⟨before, -, hsr, htr⟩
  · rw [hs] at hk
    exact absurd c.isEnd hk
  · -- the text has a line break at its end
    right
    refine ⟨hs ▸ c.isBreak, ?_, ht⟩
    unfold State.next
    rw [hr]
    exact c.isEnd
  · left
    have hs : s.rest ≠ [] := hsr ▸ c.append_ending_ne_nil before
    have ht : t.rest ≠ [] := by
      rw [htr]
      exact List.append_ne_nil_of_right_ne_nil _ (List.cons_ne_nil _ _)
    refine ⟨⟨before, (State.remaining_next hs).trans hsr, (State.remaining_next ht).trans htr⟩,
      ?_, ?_, ?_, ?_⟩
    · rw [State.previous_next hs, State.previous_next ht, same]
    · rw [s.log_next, t.log_next, h.log]
    · rw [s.scopes_next, t.scopes_next, h.scopes]
    · rw [s.doBlocks_next, t.doBlocks_next, h.doBlocks]

/-- Both pass a token, if the first one does not come to the end over a line break. -/
theorem next (h : Continues c s t) (hk : s.current.kind ≠ .endOfInput)
    (hn : s.current.kind ≠ .newline ∨ s.next.current.kind ≠ .endOfInput) :
    Continues c s.next t.next :=
  (h.next_or hk).resolve_right fun ⟨newline, last, _⟩ => hn.elim (· newline) (· last)

theorem bind (h : Continues c s t) (name : String) :
    Continues c (s.bind name) (t.bind name) := by
  obtain ⟨before, hs, ht⟩ := h.remaining
  refine ⟨⟨before, ?_, ?_⟩, ?_, ?_, ?_, ?_⟩
  · rw [s.remaining_bind, hs]
  · rw [t.remaining_bind, ht]
  · unfold State.bind
    rw [h.scopes]
    split <;> exact h.previous
  · rw [s.log_bind, t.log_bind, h.log]
  · unfold State.bind
    rw [h.scopes]
    split
    · next hn => rw [h.scopes, hn]
    · rfl
  · rw [s.doBlocks_bind, t.doBlocks_bind, h.doBlocks]

/-- Both stand at the first argument of a call or neither does. -/
theorem startsCommandArgs (h : Continues c s t) (hs : s.In c.stream) :
    (Parse.startsCommandArgs.run t).1 = (Parse.startsCommandArgs.run s).1 := by
  unfold Parse.startsCommandArgs
  rw [run_bind, run_bind]
  show ((if (!t.current.spaceBefore) = true then Pure.pure false else _ : Parser Bool).run t).1
    = ((if (!s.current.spaceBefore) = true then Pure.pure false else _ : Parser Bool).run s).1
  rw [h.spaceBefore]
  split
  · rfl
  by_cases hk : s.current.kind = .endOfInput
  · rw [hk, h.kind_of_end hs hk]
    rfl
  rw [h.current hk]
  by_cases hn : s.current.kind = .newline
  · rw [hn]
    rfl
  have space := (h.following hk hn).1
  cases s.current.kind with
  | keyword word => cases word <;> rfl
  | punct mark =>
    cases mark with
    | minus => exact congrArg (fun b => some !b) space
    | bang => exact congrArg (fun b => some !b) space
    | _ => rfl
  | _ => rfl

end Continues

end ScriptCompiler.Parse
