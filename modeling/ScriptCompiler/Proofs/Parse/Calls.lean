import ScriptCompiler.Proofs.Parse.Outcome

/-!
# Outcomes of bodies and calls

Statements, bodies, arguments and blocks go as they should if the expressions in them do.
-/

/-!
## Statements and bodies

A body passes complete statements as long as no fault is reported; with a fault it goes on with the
next statement, and every round of it passes a token.
-/

namespace ScriptCompiler.Parse

variable {stream : Stream} {n : Nat} {expression : Parser Node} {s : State}

theorem State.next_lt (h : s.rest ≠ []) : s.next.rest.length < s.rest.length := by
  have := congrArg List.length (s.remaining_next h)
  rw [State.length_remaining] at this
  omega

/-- Recovery passes a token, unless it is at the end of the text. -/
theorem goes_synchronize (h : n < s.log.total) :
    Goes stream n synchronize s fun _ s' =>
      s'.rest.length < s.rest.length ∨ s'.rest.length = 0 := by
  have faulty {s' : State} (h : n < s'.log.total) {p : Prop} : s'.log.total = n → p :=
    fun ht => absurd ht (Nat.ne_of_gt h)
  unfold synchronize
  refine (Goes.advance_ (faulty h)).bind ?_
  rintro _ _ - moves rfl
  have onward : Goes stream n (repeating (fun _ => do
      if ← atEnd then return .done ()
      else if ← eat .newline then return .done ()
      else if stopsRecovery (← kind) then return .done ()
      else
        advance
        return .again ()) ()) s.next fun _ s' => s'.rest.length ≤ s.next.rest.length := by
    refine Goes.repeating
      (I := fun _ s' => s'.rest.length ≤ s.next.rest.length ∧ n < s'.log.total) ?_
      ⟨Nat.le_refl _, by rwa [State.log_next]⟩
    rintro _ s' ⟨hle, hn⟩
    refine .ifAt (fun _ => .pure hle) fun he => ?_
    refine .ifEat ⟨nofun, nofun⟩ (fun _ lt => .pure ?_) fun _ => .kind ?_
    · exact Nat.le_trans (Nat.le_of_lt lt) hle
    split
    · exact .pure hle
    · refine .pass he (fun ht => faulty hn ht) fun lt => .pure ⟨lt, ?_, ?_⟩
      · exact Nat.le_trans (Nat.le_of_lt lt) hle
      · rwa [State.log_next]
  refine onward.mono fun _ s' _ hle => ?_
  by_cases hr : s.rest = []
  · rw [State.next_of_nil hr, hr] at hle
    exact .inr (Nat.le_zero.mp hle)
  · exact .inl (Nat.lt_of_le_of_lt hle (s.next_lt hr))

section Statements

variable (he : ∀ s, Goes stream n expression s (Ahead s))

include he

theorem goes_statement : Goes stream n (statement expression) s (Ahead s) := by
  unfold statement
  refine .currentSpan ((he s).bind fun first s₁ _ _ h₁ => ?_)
  refine Goes.bind (Q := Ahead s) ?_ fun whole s₂ _ _ h₂ => .kind ?_
  · refine Goes.repeating (I := fun _ s' => s'.rest.length < s.rest.length) ?_ h₁
    intro stmt s' hs'
    refine .kind ?_
    split
    · exact .pure hs'
    · next m hm =>
      have ho : Ordinary s'.current.kind := by
        constructor <;> intro hk <;> rw [hk] at hm <;> cases hm
      refine .advance rfl ho fun lt => (he _).bind fun condition s'' _ _ h => .previousSpan ?_
      exact .pure ⟨Nat.lt_trans h lt, Nat.lt_trans (Nat.lt_trans h lt) hs'⟩
  · split
    · exact .currentSpan (.unsupported _ _ _)
    · exact .pure h₂

/-- The statements of a body up to a state, as long as no fault is reported. -/
theorem goes_bodyRound {ends : List Token.Kind} {s₀ : State} (done : List Node)
    (hs : s.log.total = n → Statements expression ends s₀ s) :
    Goes stream n (bodyRound expression ends done) s
      (Round.Post s (fun _ s' => s'.log.total = n → Statements expression ends s₀ s')
        fun _ s' => s'.log.total = n → Statements expression ends s₀ s') := by
  unfold bodyRound
  refine (Goes.newlines
    (I := fun s' => s'.log.total = n → Statements expression ends s₀ s') ?_ hs).bind ?_
  · intro s' hs' hk ht
    rw [State.log_next] at ht
    exact .newline (hs' ht) hk
  intro _ s₁ _ m₁ hs₁
  have le₁ := m₁.le
  refine .from_ fun in₁ hn₁ => .kind ?_
  split
  · exact .pure hs₁
  next hk =>
  have hr₁ : s₁.rest.length ≠ 0 := by
    intro h
    rw [in₁.rest_eq_nil_iff.mp (List.length_eq_zero_iff.mp h)] at hk
    simp at hk
  refine .isFull ?_
  split
  · exact .pure hs₁
  -- a statement, perhaps with a fault in it
  refine .attempt (goes_statement he) ?_ ?_
  · intro s₂ m₂ hf
    have le₂ := m₂.le
    refine (goes_synchronize hf).bind fun _ s₃ _ m₃ h₃ => .pure ⟨by omega, fun ht => ?_⟩
    have := m₃.log
    omega
  · intro stmt s₂ hrun m₂ h₂
    refine .kind ?_
    split
    · next hends =>
      refine .pure ⟨Nat.lt_of_lt_of_le h₂ le₁, fun ht => ?_⟩
      have hn₂ := m₂.log
      exact .statement (hs₁ (by omega)) hrun (by omega) hends
    · refine (Goes.unexpected _).bind fun _ s₃ _ m₃ h₃ => ?_
      have le₃ := m₃.le
      refine (goes_synchronize h₃.2).bind fun _ s₄ _ m₄ h₄ => .pure ⟨by omega, fun ht => ?_⟩
      have := m₄.log
      omega

/-- **A body passes complete statements.** -/
theorem goes_body (ends : List Token.Kind) :
    Goes stream n (body expression ends) s fun _ s' =>
      s'.log.total = n → Statements expression ends s s' :=
  Goes.repeating (fun done _ hs => goes_bodyRound he done hs) fun _ => .none

theorem keeps_body (ends : List Token.Kind) :
    Goes stream n (body expression ends) s Anywhere :=
  (goes_body he ends).mono fun _ _ _ _ => trivial

end Statements

end ScriptCompiler.Parse

/-!
## Calls

Parameters, arguments, blocks and calls go as they should if the expressions in them do.
-/

namespace ScriptCompiler.Parse

variable {stream : Stream} {n : Nat} {expression : Parser Node} {s : State}

/-! ### Parameters -/

theorem goes_param : Goes stream n param s (Ahead s) := by
  unfold param
  refine .currentSpan (.kind ?_)
  split
  · next name hk =>
    refine .advance hk ⟨nofun, nofun⟩ fun lt => .ifAt (fun _ => ?_) fun _ => ?_
    · exact .currentSpan (.unsupported _ _ _)
    · exact (Goes.declare name).bind fun _ s' _ _ h => .pure (by omega)
  · next hk =>
    refine .advance hk ⟨nofun, nofun⟩ fun lt => Goes.expectIdentifier.bind fun name s₁ _ _ h₁ => ?_
    refine (Goes.declare name).bind fun _ s₂ _ _ h₂ => .pure ?_
    omega
  · exact .unsupported _ _ _
  · exact .unsupported _ _ _
  · exact .reject _

theorem goes_params (close : Token.Kind) : Goes stream n (params close) s (Ahead s) := by
  unfold params
  refine Goes.repeatingAhead fun done s => goes_param.bind fun p s₁ _ _ h₁ => ?_
  refine .ifAt (fun _ => .pure h₁) fun _ => ?_
  refine .ifEat ⟨nofun, nofun⟩ (fun _ lt => ?_) fun _ => .pure h₁
  extract_lets jp
  have next {s' : State} (h : s'.rest.length ≤ s₁.next.rest.length) :
      Goes stream n (jp ()) s' (Round.Post s Anywhere (Ahead s)) :=
    .pure ⟨by omega, trivial⟩
  split
  · exact Goes.skipNewlines.bind fun _ s₂ _ m₂ _ => next m₂.le
  · exact next (Nat.le_refl _)

section Expressions

variable (he : ∀ s, Goes stream n expression s (Ahead s))

include he

/-! ### Arguments -/

theorem goes_argument : Goes stream n (argument expression) s (Ahead s) := by
  unfold argument
  refine .kind ?_
  split
  · exact .currentSpan (.unsupported _ _ _)
  · exact .currentSpan (.unsupported _ _ _)
  · refine (he s).bind fun arg s₁ _ _ h₁ => ?_
    exact .ifAt (fun _ => .currentSpan (.unsupported _ _ _)) fun _ => .pure h₁

theorem goes_commandArgs : Goes stream n (commandArgs expression) s (Ahead s) := by
  unfold commandArgs
  refine .withDoBlocks (Goes.repeatingAhead fun done s => ?_)
  refine (goes_argument he).bind fun arg s₁ _ _ h₁ => ?_
  refine .ifEat ⟨nofun, nofun⟩ (fun _ lt => ?_) fun _ => .pure h₁
  exact Goes.skipNewlines.bind fun _ s₂ _ m₂ _ => .pure ⟨by have := m₂.le; omega, trivial⟩

theorem keeps_bracketedArgs {close : Punct} :
    Goes stream n (bracketedArgs expression close) s Anywhere := by
  have ho : Ordinary (.punct close) := ⟨nofun, nofun⟩
  unfold bracketedArgs
  refine .withDoBlocks (Goes.skipNewlines.bind fun _ s₁ _ _ _ => ?_)
  refine Goes.bind (Goes.repeatingKeeps fun done s => ?_) fun args s₂ _ _ _ => ?_
  · refine .ifAt (fun _ => .pure trivial) fun _ => ?_
    refine (goes_argument he).bind fun arg s₂ _ _ h₂ => Goes.skipNewlines.bind fun _ s₃ _ m₃ _ => ?_
    have le₃ := m₃.le
    refine .ifEat ⟨nofun, nofun⟩ (fun _ lt => ?_) fun _ => .pure trivial
    exact Goes.skipNewlines.bind fun _ s₄ _ m₄ _ => .pure ⟨by have := m₄.le; omega, trivial⟩
  · refine Goes.skipNewlines.bind fun _ s₃ _ _ _ => ?_
    exact (Goes.expect ho).bind fun _ _ _ _ _ => .pure trivial

/-! ### Blocks -/

theorem keeps_blockRest {close : Token.Kind} (ho : Ordinary close) :
    Goes stream n (blockRest expression close) s Anywhere := by
  unfold blockRest
  refine .withDoBlocks (.inScope (Goes.skipNewlines.bind fun _ s₁ _ _ _ => ?_))
  refine (Goes.eats (ordinary_punct _)).bind fun bars s₂ _ _ _ => ?_
  extract_lets jp jp'
  have rest (names : List Param) (s' : State) : Goes stream n (jp names) s' Anywhere :=
    (keeps_body he _).bind fun _ _ _ _ _ => (Goes.expect ho).bind fun _ _ _ _ _ => .pure trivial
  have bar (names : List Param) (s' : State) : Goes stream n (jp' names) s' Anywhere :=
    (Goes.expect (ordinary_punct _)).bind fun _ _ _ _ _ => rest _ _
  split
  · exact .ifAt (fun _ => bar _ _) fun _ => (goes_params _).bind fun _ _ _ _ _ => bar _ _
  · have both : Goes stream n (discard (eat (.punct .orOr))) s₂ Anywhere :=
      .eat (ordinary_punct _) (fun _ _ => .pure trivial) fun _ => .pure trivial
    exact both.bind fun _ _ _ _ _ => rest _ _

theorem keeps_callBlock (command : Bool) :
    Goes stream n (callBlock expression command) s Anywhere := by
  unfold callBlock
  refine .at_ ?_
  split
  · next h =>
    rw [Bool.and_eq_true, decide_eq_true_eq] at h
    refine .advance h.2 ⟨nofun, nofun⟩ fun _ => ?_
    exact (keeps_blockRest he (ordinary_punct _)).bind fun _ _ _ _ _ => .pure trivial
  · refine .get (.at_ ?_)
    split
    · next h =>
      rw [Bool.and_eq_true, decide_eq_true_eq] at h
      refine .advance h.2 ⟨nofun, nofun⟩ fun _ => ?_
      exact (keeps_blockRest he ordinary_end).bind fun _ _ _ _ _ => .pure trivial
    · exact .pure trivial

/-! ### Calls -/

theorem keeps_call (receiver : Option Node) (name : String) :
    Goes stream n (call expression receiver name) s Anywhere := by
  unfold call
  extract_lets jp
  have rest (start : Span) (s : State) : Goes stream n (jp start) s Anywhere := by
    refine .atParenArgs fun paren hp => .startsCommandArgs fun command => ?_
    extract_lets jp'
    have block (args : Bool × List Node) (s : State) : Goes stream n (jp' args) s Anywhere :=
      (keeps_callBlock he _).bind fun _ _ _ _ _ => .previousSpan (.pure trivial)
    split
    · next h =>
      refine .advance (hp h) (ordinary_punct _) fun _ => ?_
      exact (keeps_bracketedArgs he).bind fun args _ _ _ _ => block (false, args) _
    · split
      · exact (goes_commandArgs he).bind fun args _ _ _ _ => block (true, args) _
      · exact block (false, []) _
  cases receiver with
  | none => exact .previousSpan (rest _ _)
  | some node => exact rest _ _

end Expressions

end ScriptCompiler.Parse
