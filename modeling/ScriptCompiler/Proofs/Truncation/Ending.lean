import ScriptCompiler.Proofs.Truncation.Cut

/-!
# Parsers at the end of the text

What a parser does that starts where nothing, or next to nothing, is left. It reports no fault but
that the text stops there, and nothing but line breaks is left when it fails. What is left when it
gives a result depends on the parser.
-/

namespace ScriptCompiler.Parse

/-- How a parser ends where the text stops. -/
inductive Ending {α : Type} (e : Stop) (K : α → State → Prop) : Option α × State → Prop
  | gives {a : α} {s : State} (h : K a s) : Ending e K (some a, s)
  | fails {s : State} (h : e.AfterBreaks s) : Ending e K (none, s)

/-- The parser comes to an end where the text stops, and a result that it gives satisfies the
postcondition. -/
def Ends {α : Type} (e : Stop) (K : α → State → Prop) (p : Parser α) (s : State) : Prop :=
  Ending e K (p.run s)

/-- There is no result. -/
abbrev Never {α : Type} (_ : α) (_ : State) : Prop :=
  False

/-- What is left after a round: one thing if there is another round, another if it was the last. -/
def Round.Either {α β : Type} (J : α → State → Prop) (K : β → State → Prop) :
    Round α β → State → Prop
  | .again a, s => J a s
  | .done b, s => K b s

/-- A round that is the last one. -/
abbrev Round.Last {α β : Type} (K : β → State → Prop) : Round α β → State → Prop :=
  Round.Either Never K

namespace Ends

variable {e : Stop} {α β : Type} {s : State} {p q : Parser α} {f : α → Parser β}
  {K Q : α → State → Prop} {K' : β → State → Prop} {k : Token.Kind}

/-! ## Results and sequences -/

theorem mono (h : Ends e Q p s) (hK : ∀ a s', Q a s' → K a s') : Ends e K p s := by
  unfold Ends at h ⊢
  generalize p.run s = x at h ⊢
  cases h with
  | gives h => exact .gives (hK _ _ h)
  | fails h => exact .fails h

theorem fails (h : Ends e Never p s) : Ends e K p s :=
  h.mono fun _ _ h => h.elim

theorem pure {a : α} (h : K a s) : Ends e K (pure a) s :=
  Ending.gives h

theorem bind (hp : Ends e Q p s) (hf : ∀ a s', Q a s' → Ends e K' (f a) s') :
    Ends e K' (p >>= f) s := by
  unfold Ends at hp ⊢
  rw [run_bind]
  generalize p.run s = x at hp
  cases hp with
  | gives h => exact hf _ _ h
  | fails h => exact .fails h

/-- What follows a failure is skipped. -/
theorem abort (hp : Ends e Never p s) : Ends e K' (p >>= f) s :=
  hp.bind fun _ _ h => h.elim

/-! ## Looking -/

theorem kind {f : Token.Kind → Parser β} (h : Ends e K' (f s.current.kind) s) :
    Ends e K' (Parse.kind >>= f) s := h

theorem followingKind {f : Token.Kind → Parser β} (h : Ends e K' (f s.following.kind) s) :
    Ends e K' (Parse.followingKind >>= f) s := h

theorem currentSpan {f : Span → Parser β} (h : Ends e K' (f s.current.span) s) :
    Ends e K' (Parse.currentSpan >>= f) s := h

theorem previousSpan {f : Span → Parser β} (h : Ends e K' (f s.previous) s) :
    Ends e K' (Parse.previousSpan >>= f) s := h

theorem isLocal {f : Bool → Parser β} {name : String}
    (h : Ends e K' (f (State.sees name s.scopes)) s) :
    Ends e K' (Parse.isLocal name >>= f) s := h

theorem get {f : State → Parser β} (h : Ends e K' (f s) s) :
    Ends e K' (MonadState.get >>= f) s := h

theorem at_ {f : Bool → Parser β} (h : s.current.kind ≠ k) (no : Ends e K' (f false) s) :
    Ends e K' (Parse.at_ k >>= f) s := by
  have looked : Ends e K' (f (decide (s.current.kind = k))) s := by
    rw [decide_eq_false h]
    exact no
  exact looked

theorem ifAt (h : s.current.kind ≠ k) (no : Ends e K q s) :
    Ends e K (Parse.at_ k >>= fun b => if b = true then p else q) s :=
  at_ h no

theorem atEnd {f : Bool → Parser β} (h : s.current.kind = .endOfInput)
    (yes : Ends e K' (f true) s) : Ends e K' (Parse.atEnd >>= f) s := by
  have looked : Ends e K' (f (decide (s.current.kind = .endOfInput))) s := by
    rw [decide_eq_true h]
    exact yes
  exact looked

theorem spaceBefore {f : Bool → Parser β} (h : Ends e K' (f s.current.spaceBefore) s) :
    Ends e K' (Parse.spaceBefore >>= f) s := h

theorem atParenArgs {f : Bool → Parser β} (h : e.At s) (no : Ends e K' (f false) s) :
    Ends e K' (Parse.atParenArgs >>= f) s :=
  at_ (f := fun b => do let space ← Parse.spaceBefore; f (b && !space)) (h.ne nofun) no

theorem startsCommandArgs {f : Bool → Parser β} (h : e.At s) (no : Ends e K' (f false) s) :
    Ends e K' (Parse.startsCommandArgs >>= f) s := by
  have hr : Parse.startsCommandArgs.run s = (some false, s) := by
    unfold Parse.startsCommandArgs
    rw [run_bind]
    show (if (!s.current.spaceBefore) = true then Pure.pure false else _ : Parser Bool).run s
      = (some false, s)
    split
    · rfl
    · rw [h.kind]
      rfl
  unfold Ends
  rw [run_bind, hr]
  exact no

/-! ## Passing tokens -/

theorem advance {f : Unit → Parser β} (h : Ends e K' (f ()) s.next) :
    Ends e K' (Parse.advance >>= f) s := h

theorem eat {f : Bool → Parser β} (h : s.current.kind ≠ k) (no : Ends e K' (f false) s) :
    Ends e K' (Parse.eat k >>= f) s := by
  unfold Ends
  rw [run_bind, Goes.run_eat_of_ne h]
  exact no

theorem ifEat (h : s.current.kind ≠ k) (no : Ends e K q s) :
    Ends e K (Parse.eat k >>= fun b => if b = true then p else q) s :=
  eat h no

theorem discardEat (h : s.current.kind ≠ k) {Q : State → Prop} (hQ : Q s) :
    Ends e (fun _ => Q) (discard (Parse.eat k)) s :=
  eat h (pure (K := fun _ => Q) hQ)

theorem ifEatNewline (h : s.current.kind = .newline) (yes : Ends e K p s.next) :
    Ends e K (Parse.eat .newline >>= fun b => if b = true then p else q) s := by
  unfold Ends
  rw [run_bind, Goes.run_eat_of_eq h]
  exact yes

theorem declare (h : e.At s) (name : String) :
    Ends e (fun _ => e.At) (Parse.declare name) s := by
  refine Ending.gives ⟨?_, ?_, ?_⟩
  · exact (s.remaining_bind name).trans h.remaining
  · exact (s.file_bind name).trans h.file
  · exact (s.log_bind name).symm ▸ h.log

/-! ## Faults -/

theorem unexpected (h : e.At s) (expected : String) :
    Ends e (fun _ => e.At) (Parse.unexpected expected) s := by
  unfold Parse.unexpected
  refine kind ?_
  rw [if_pos h.kind]
  refine currentSpan (Ending.gives ⟨h.remaining, h.file, ?_⟩)
  show e.Only (s.log.push (s.file.diagnose _))
  rw [h.file, h.current]
  exact h.log.push _ _

/-- Something else was expected than the end. -/
theorem reject (h : e.At s) (expected : String) :
    Ends e K (Parse.unexpected expected >>= fun _ => Alternative.failure (f := Parser)) s :=
  (unexpected h expected).bind fun _ _ h => Ending.fails h.breaks

theorem expect (h : e.At s) (hk : k ≠ .endOfInput) : Ends e Never (Parse.expect k) s :=
  ifAt (h.ne hk) (reject h _)

theorem expectIdentifier (h : e.At s) : Ends e Never Parse.expectIdentifier s := by
  unfold Parse.expectIdentifier
  refine kind ?_
  rw [h.kind]
  exact reject h _

theorem expectConstant (h : e.At s) : Ends e Never Parse.expectConstant s := by
  unfold Parse.expectConstant
  refine kind ?_
  rw [h.kind]
  exact reject h _

/-! ## Control -/

theorem withDoBlocks {allowed : Bool}
    (h : Ends e (fun a s' => K a { s' with doBlocks := s.doBlocks }) p
      { s with doBlocks := allowed }) :
    Ends e K (Parse.withDoBlocks allowed p) s := by
  unfold Ends at h
  show Ending e K ((p.run { s with doBlocks := allowed }).1,
    { (p.run { s with doBlocks := allowed }).2 with doBlocks := s.doBlocks })
  generalize p.run { s with doBlocks := allowed } = x at h
  cases h with
  | gives h => exact .gives h
  | fails h =>
    obtain ⟨breaks, hb, h⟩ := h
    exact .fails ⟨breaks, hb, h.settled _ _⟩

theorem inScope {closed : Bool}
    (h : Ends e (fun a s' => K a { s' with scopes := s'.scopes.tail }) p
      { s with scopes := ⟨[], closed⟩ :: s.scopes }) :
    Ends e K (Parse.inScope closed p) s := by
  unfold Ends at h
  show Ending e K ((p.run { s with scopes := ⟨[], closed⟩ :: s.scopes }).1,
    { (p.run { s with scopes := ⟨[], closed⟩ :: s.scopes }).2 with
      scopes := (p.run { s with scopes := ⟨[], closed⟩ :: s.scopes }).2.scopes.tail })
  generalize p.run { s with scopes := ⟨[], closed⟩ :: s.scopes } = x at h
  cases h with
  | gives h => exact .gives h
  | fails h =>
    obtain ⟨breaks, hb, h⟩ := h
    exact .fails ⟨breaks, hb, h.settled _ _⟩

/-! ## Repetition -/

section Repetition

variable {round : α → Parser (Round α β)}

theorem rounds_last {a : α} (h : Ends e (Round.Last K') (round a) s) (fuel : Nat) :
    Ends e K' (Parse.rounds round (fuel + 1) a) s := by
  unfold Parse.rounds
  refine h.bind fun r s' hr => ?_
  cases r with
  | again a => exact hr.elim
  | done b => exact pure hr

/-- The first round is the last one. -/
theorem repeating {a : α} (h : Ends e (Round.Last K') (round a) s) :
    Ends e K' (Parse.repeating round a) s := by
  unfold Parse.repeating
  exact get (rounds_last h _)

/-- The first round or the second one is the last one. -/
theorem repeatingNext {a : α} {J : α → State → Prop} (h : Ends e (Round.Either J K') (round a) s)
    (hn : ∀ a s', J a s' → Ends e (Round.Last K') (round a) s') :
    Ends e K' (Parse.repeating round a) s := by
  unfold Parse.repeating
  refine get ?_
  unfold Parse.rounds
  refine h.bind fun r s' hr => ?_
  cases r with
  | again a => exact rounds_last (hn a s' hr) _
  | done b => exact pure hr

end Repetition

theorem skipNewlines (h : e.AfterBreaks s) : Ends e (fun _ => e.At) Parse.skipNewlines s := by
  unfold Parse.skipNewlines Parse.repeating
  refine get ?_
  obtain ⟨breaks, hb, h⟩ := h
  have hl : breaks.length < s.rest.length + 3 := by
    have := congrArg List.length h.remaining
    rw [State.length_remaining, List.length_append, List.length_singleton] at this
    omega
  generalize s.rest.length + 3 = fuel at hl
  induction breaks generalizing s fuel with
  | nil =>
    obtain ⟨fuel, rfl⟩ := Nat.exists_eq_succ_of_ne_zero (Nat.ne_of_gt hl)
    have hne : s.current.kind ≠ .newline := Stop.At.ne h nofun
    refine rounds_last (ifEat hne ?_) fuel
    exact pure (K := Round.Last _) h
  | cons t breaks ih =>
    obtain ⟨fuel, rfl⟩ := Nat.exists_eq_succ_of_ne_zero (Nat.ne_of_gt (Nat.zero_lt_of_lt hl))
    have hk : s.current.kind = .newline := h.cons.1 ▸ hb t List.mem_cons_self
    unfold Parse.rounds Ends
    rw [run_bind, run_bind, Goes.run_eat_of_eq hk]
    exact ih (fun u hu => hb u (List.mem_cons_of_mem _ hu)) h.next fuel
      (by rw [List.length_cons] at hl; omega)

/-- Recovery stops at the next line break or at the end. -/
theorem synchronize (h : e.AfterBreaks s) : Ends e (fun _ => e.AfterBreaks) synchronize s := by
  unfold Parse.synchronize
  refine advance (repeating ?_)
  have hn := h.next
  by_cases hk : s.next.current.kind = .endOfInput
  · exact atEnd hk (pure (K := Round.Last _) hn)
  · refine ifAt hk (ifEatNewline (hn.kind.resolve_right hk) ?_)
    exact pure (K := Round.Last _) hn.next

end Ends

end ScriptCompiler.Parse
