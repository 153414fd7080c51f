import ScriptCompiler.Proofs.Truncation.Tracking

/-!
# Bodies and calls cut short

What the parsers of bodies and calls do at the end of a stream that is cut short.
-/

/-!
## Statements and bodies cut short

A statement that is cut short is dropped, or it ends where the text does. A body goes on after it
and finds nothing more.
-/

namespace ScriptCompiler.Parse

/-- The parser of expressions fails where nothing, or only a sign, is left. -/
def Stop.Refuses (e : Stop) (expression : Parser Node) : Prop :=
  ∀ s, e.At s ∨ e.AfterSign s → Ends e Never expression s

/-- Parsers for a whole stream and for a shortened one. The second one leaves this where it comes to
the end. -/
structure Carries (c : Cut) (K : State → Prop) (expression expression' : Parser Node) : Prop where
  tracks : ∀ s, Tracks c expression expression' s (Ahead s) fun _ => K
  goes : ∀ s, Goes c.stream 0 expression s (Ahead s)
  refuses : c.Refuses expression'

/-! ### At the end -/

section End

variable {e : Stop} {expression : Parser Node} {s : State}

theorem Stop.AfterBreaks.modifier (h : e.AfterBreaks s) : modifier? s.current.kind = none := by
  rcases h.kind with hk | hk <;> rw [hk] <;> rfl

theorem Stop.AfterBreaks.joinWord (h : e.AfterBreaks s) : joinWord? s.current.kind = none := by
  rcases h.kind with hk | hk <;> rw [hk] <;> rfl

theorem Stop.AfterBreaks.endsStatement (h : e.AfterBreaks s) (terminators : List Token.Kind) :
    endsStatement terminators s.current.kind = true := by
  rcases h.kind with hk | hk <;> rw [hk] <;> rfl

theorem ends_statement (he : e.Refuses expression) (h : e.At s) :
    Ends e Never (statement expression) s := by
  unfold statement
  exact .currentSpan (.abort (he s (.inl h)))

theorem ends_bodyRound (h : e.AfterBreaks s) (terminators : List Token.Kind) (done : List Node) :
    Ends e (Round.Last fun _ => e.At) (bodyRound expression terminators done) s := by
  unfold bodyRound
  refine (Ends.skipNewlines h).bind fun _ s₁ h₁ => .kind ?_
  rw [h₁.kind]
  exact .pure h₁

theorem ends_body (h : e.AfterBreaks s) (terminators : List Token.Kind) :
    Ends e (fun _ => e.At) (body expression terminators) s :=
  .repeating (ends_bodyRound h terminators [])

end End

/-! ### Along the stream -/

section Along

variable {c : Cut} {expression expression' : Parser Node} {s : State}
  (he : Carries c c.AfterBreaks expression expression')

include he

theorem tracks_statement :
    Tracks c (statement expression) (statement expression') s (Ahead s)
      fun _ => c.AfterBreaks := by
  unfold statement
  refine .currentSpan fun start' hstart => (he.tracks s).bind (fun first s₁ _ _ h₁ => ?_) ?_
  · apply Tracks.sameSpan hstart h₁
    refine .bind (Q := Ahead s) (L := fun _ => c.AfterBreaks) ?_ (fun whole s₂ _ _ h₂ => ?_) ?_
    · refine .repeating (I := fun _ s' => s'.rest.length < s.rest.length)
        (J := fun _ => c.AfterBreaks) ?_ ?_ h₁
      · intro stmt s' hs'
        refine .kind (fun k k' h => by cases h <;> rfl) ?_
        split
        · exact .pure hs'
        · next m hm =>
          have ho : s'.current.kind ≠ .endOfInput := by
            intro hk
            rw [hk] at hm
            cases hm
          refine .advance ho (fun lt => ?_) fun s'' h => ?_
          · refine (he.tracks _).bind (fun condition s'' _ _ h => .previousSpan ?_) ?_
            · exact .pure ⟨Nat.lt_trans h lt, Nat.lt_trans (Nat.lt_trans h lt) hs'⟩
            · exact fun _ _ h => .previousSpan (.pure h)
          · exact .abort (he.refuses s'' (.inl h))
      · intro stmt s' h
        refine .kind ?_
        rw [h.modifier]
        exact .pure h
    · refine .kind (fun k k' h => by cases h <;> rfl) ?_
      split
      · exact .ofFault (.currentSpan (.unsupported _ _ _))
      · exact .pure h₂
    · intro whole s' h
      refine .kind ?_
      rw [h.joinWord]
      exact .pure h
  · intro first s' h
    refine .bind (Q := fun _ => c.AfterBreaks) (.repeating ?_) fun whole s'' h => ?_
    · refine .kind ?_
      rw [h.modifier]
      exact .pure h
    · refine .kind ?_
      rw [h.joinWord]
      exact .pure h

theorem tracks_bodyRound {terminators : List Token.Kind} (ht : ∀ t ∈ terminators, Plain t)
    (done : List Node) :
    Tracks c (bodyRound expression terminators done) (bodyRound expression' terminators done) s
      (Round.Post s Anywhere Anywhere)
      (Round.Either (fun _ => c.AfterBreaks) fun _ => c.At) := by
  have member {k k' : Token.Kind} (h : Alike k k') :
      terminators.contains k' = terminators.contains k := by
    rw [Bool.eq_iff_iff, List.contains_iff_mem, List.contains_iff_mem]
    constructor <;> intro hm
    · exact (h.eq_iff (ht _ hm)).mp rfl ▸ hm
    · exact (h.eq_iff (ht _ hm)).mpr rfl ▸ hm
  have ends {k k' : Token.Kind} (h : Alike k k') :
      endsStatement terminators k' = endsStatement terminators k := by
    unfold endsStatement
    rw [member h]
    cases h <;> rfl
  unfold bodyRound
  refine Tracks.skipNewlines.bind (fun _ s₁ _ m₁ _ => ?_) fun _ s' h => ?_
  · have le₁ := m₁.le
    refine .from_ fun in₁ => .kind (fun k k' h => ?_) ?_
    · rw [member h]
      cases h <;> rfl
    split
    · exact .pure trivial
    next hk =>
    have hr₁ : s₁.rest.length ≠ 0 := by
      intro h
      rw [in₁.rest_eq_nil_iff.mp (List.length_eq_zero_iff.mp h)] at hk
      simp at hk
    refine .isFull ?_
    split
    · exact .pure trivial
    refine .attempt (tracks_statement he) ?_ ?_ ?_ ?_
    · intro s₂ m₂ hf
      have le₂ := m₂.le
      refine (goes_synchronize hf).bind fun _ s₃ _ m₃ h₃ => .pure ⟨?_, trivial⟩
      omega
    · intro stmt s₂ h₂
      refine .kind (fun k k' h => ?_) ?_
      · rw [ends h]
      split
      · exact .pure ⟨Nat.lt_of_lt_of_le h₂ le₁, trivial⟩
      · refine .ofFault ((Goes.unexpected _).bind fun _ s₃ _ m₃ h₃ => ?_)
        have le₃ := m₃.le
        refine (goes_synchronize h₃.2).bind fun _ s₄ _ m₄ h₄ => .pure ⟨⟨?_, trivial⟩, ?_⟩
        · omega
        · exact Nat.lt_of_lt_of_le h₃.2 m₄.log
    · intro s' h
      exact (Ends.synchronize h).bind fun _ _ h => .pure h
    · intro stmt s' h
      refine .kind ?_
      rw [if_pos (h.endsStatement _)]
      exact .pure h
  · refine .kind ?_
    rw [h.kind]
    exact .pure h

/-- **A body that is cut short ends where the text does.** -/
theorem tracks_body {terminators : List Token.Kind} (ht : ∀ t ∈ terminators, Plain t) :
    Tracks c (body expression terminators) (body expression' terminators) s Anywhere
      fun _ => c.At :=
  .repeatingKeeps (fun done _ => tracks_bodyRound he ht done) fun done _ h =>
    ends_bodyRound h terminators done

end Along

end ScriptCompiler.Parse

/-!
## Calls cut short

Parameters, arguments, blocks and calls at the end of the text, and along a stream that is cut
short.
-/

namespace ScriptCompiler.Parse

/-! ### At the end -/

section End

variable {e : Stop} {expression : Parser Node} {s : State}

theorem ends_param (h : e.At s) : Ends e Never param s := by
  unfold param
  refine .currentSpan (.kind ?_)
  rw [h.kind]
  exact .reject h _

theorem ends_params (h : e.At s) (close : Token.Kind) : Ends e Never (params close) s :=
  .repeating (.abort (ends_param h))

theorem ends_argument (he : e.Refuses expression) (h : e.At s ∨ e.AfterSign s) :
    Ends e Never (argument expression) s := by
  unfold argument
  refine .kind ?_
  have hk : s.current.kind = .endOfInput ∨ s.current.kind = .punct .minus
      ∨ s.current.kind = .punct .bang :=
    h.imp Stop.At.kind Stop.AfterSign.kind
  rcases hk with hk | hk | hk <;> rw [hk] <;> exact .abort (he s h)

theorem ends_commandArgs (he : e.Refuses expression) (h : e.At s ∨ e.AfterSign s) :
    Ends e Never (commandArgs expression) s := by
  unfold commandArgs
  refine .withDoBlocks (.repeating (.abort (ends_argument he ?_)))
  rcases h with h | ⟨t, ht, h⟩
  · exact .inl (h.settled _ _)
  · exact .inr ⟨t, ht, h.settled _ _⟩

/-- Nothing but the closing bracket could come after the arguments. -/
theorem ends_bracketedArgs (he : e.Refuses expression) (h : e.At s) (close : Punct) :
    Ends e Never (bracketedArgs expression close) s := by
  unfold bracketedArgs
  have h' : e.At { s with doBlocks := true } := h.settled _ _
  refine .withDoBlocks ((Ends.skipNewlines h'.breaks).bind fun _ s₁ h₁ => .abort (.repeating ?_))
  exact .ifAt (h₁.ne nofun) (.abort (ends_argument he (.inl h₁)))

theorem ends_blockBody (h : e.At s) {close : Token.Kind} (hc : close ≠ .endOfInput)
    {names : List Param} :
    Ends e Never (do
      let statements ← body expression [close]
      expect close
      return (⟨names, statements⟩ : Block)) s :=
  (ends_body h.breaks _).bind fun _ _ h => .abort (.expect h hc)

theorem ends_blockRest (h : e.At s) {close : Token.Kind} (hc : close ≠ .endOfInput) :
    Ends e Never (blockRest expression close) s := by
  unfold blockRest
  refine .withDoBlocks (.inScope ?_)
  have h' : e.At { s with doBlocks := true, scopes := ⟨[], false⟩ :: s.scopes } :=
    h.settled _ _
  refine (Ends.skipNewlines h'.breaks).bind fun _ s₁ h₁ =>
    .eat (k := .punct .bar) (h₁.ne nofun) ?_
  rw [if_neg Bool.false_ne_true]
  refine (Ends.discardEat (k := .punct .orOr) (h₁.ne nofun) h₁).bind fun _ _ h => ?_
  exact ends_blockBody h hc

/-- No block follows where a line break, a minus sign or the end comes. -/
theorem ends_callBlock (h : e.AfterOperand s) (command : Bool) :
    Ends e (fun _ => e.AfterOperand) (callBlock expression command) s := by
  unfold callBlock
  refine .at_ (h.ne nofun nofun nofun) ?_
  rw [Bool.and_false, if_neg Bool.false_ne_true]
  refine .get (.at_ (h.ne nofun nofun nofun) ?_)
  rw [Bool.and_false, if_neg Bool.false_ne_true]
  exact .pure h

theorem ends_call (h : e.At s) (receiver : Option Node) (name : String) :
    Ends e (fun _ => e.AfterOperand) (call expression receiver name) s := by
  unfold call
  extract_lets jp
  have rest (start : Span) : Ends e (fun _ => e.AfterOperand) (jp start) s := by
    refine .atParenArgs h (.startsCommandArgs h ?_)
    refine (ends_callBlock (.inl h.breaks) false).bind fun _ _ h => .previousSpan (.pure h)
  cases receiver with
  | none => exact .previousSpan (rest _)
  | some node => exact rest _

end End

/-! ### Parameters -/

section Along

variable {c : Cut} {expression expression' : Parser Node} {s : State}

theorem tracks_param : Tracks c param param s (Ahead s) fun _ => c.At := by
  unfold param
  refine .currentSpan fun _ _ => .kind (fun k k' h => by cases h <;> rfl) ?_
  split
  · next name hk =>
    refine .advance (by rw [hk]; nofun) (fun lt => ?_) fun s' h => ?_
    · refine .ifAt trivial (fun _ => .ofFault (.currentSpan (.unsupported _ _ _))) fun _ => ?_
      refine (Tracks.declare name).bind (fun _ s' _ _ h => .pure ?_) fun _ _ h => h.elim
      omega
    · refine .ifAt (h.ne nofun) ?_
      exact (Ends.declare h name).bind fun _ _ h => .pure h
  · next hk =>
    refine .advance (by rw [hk]; nofun) (fun lt => ?_) fun s' h => .abort (.expectIdentifier h)
    refine Tracks.expectIdentifier.bind (fun name s₁ _ _ h₁ => ?_) fun name s' h => ?_
    · refine (Tracks.declare name).bind (fun _ s₂ _ _ h₂ => .pure ?_) fun _ _ h => h.elim
      omega
    · exact (Ends.declare h name).bind fun _ _ h => .pure h
  · exact .unsupported _ _ _
  · exact .unsupported _ _ _
  · exact .reject _

theorem tracks_params (close : Token.Kind) (hp : Plain close) (hc : close ≠ .endOfInput) :
    Tracks c (params close) (params close) s (Ahead s) fun _ => c.At := by
  unfold params
  refine .repeatingAhead (J := fun _ => c.At) (fun done s => ?_) fun done s' h => ?_
  · refine tracks_param.bind (fun p s₁ _ _ h₁ => ?_) fun p s' h => ?_
    · refine .ifAt hp (fun _ => .pure h₁) fun _ => ?_
      refine .ifEat trivial nofun (fun _ lt => ?_) (fun _ => .pure h₁) fun s' h => ?_
      · extract_lets jp
        have next {s' : State} (h : s'.rest.length ≤ s₁.next.rest.length) :
            Tracks c (jp ()) (jp ()) s' (Round.Post s Anywhere (Ahead s))
              (Round.Either (fun _ => c.At) fun _ => c.At) :=
          .pure ⟨by omega, trivial⟩
        split
        · refine Tracks.skipNewlines.bind (fun _ s₂ _ m₂ _ => next m₂.le) fun _ _ h => .pure h
        · exact next (Nat.le_refl _)
      · extract_lets jp
        split
        · exact (Ends.skipNewlines h.breaks).bind fun _ _ h => .pure h
        · exact .pure h
    · exact .ifAt (h.ne hc) (.ifEat (h.ne nofun) (.pure h))
  · exact .abort (ends_param h)

/-! ### Arguments -/

variable (he : Carries c c.AfterBreaks expression expression')

include he

theorem tracks_argument :
    Tracks c (argument expression) (argument expression') s (Ahead s)
      fun _ => c.AfterBreaks := by
  unfold argument
  refine .kind (fun k k' h => by cases h <;> rfl) ?_
  split
  · exact .ofFault (.currentSpan (.unsupported _ _ _))
  · exact .ofFault (.currentSpan (.unsupported _ _ _))
  · refine (he.tracks s).bind (fun arg s₁ _ _ h₁ => ?_) fun arg s' h => ?_
    · refine .ifAt trivial (fun _ => ?_) fun _ => .pure h₁
      exact .ofFault (.currentSpan (.unsupported _ _ _))
    · exact .ifAt (h.ne nofun nofun) (.pure h)

theorem tracks_commandArgs :
    Tracks c (commandArgs expression) (commandArgs expression') s (Ahead s)
      fun _ => c.AfterBreaks := by
  unfold commandArgs
  refine .withDoBlocks Tracks.settled_afterBreaks ?_
  refine .repeatingAhead (J := fun _ => c.At) (fun done s => ?_) fun done s' h => ?_
  · refine (tracks_argument he).bind (fun arg s₁ _ _ h₁ => ?_) fun arg s' h => ?_
    · refine .ifEat trivial nofun (fun _ lt => ?_) (fun _ => .pure h₁) fun s' h => ?_
      · refine Tracks.skipNewlines.bind (fun _ s₂ _ m₂ _ => .pure ⟨?_, trivial⟩)
          fun _ _ h => .pure h
        have le₂ := m₂.le
        omega
      · exact (Ends.skipNewlines h.breaks).bind fun _ _ h => .pure h
    · exact .ifEat (h.ne nofun nofun) (.pure h)
  · exact .abort (ends_argument he.refuses (.inl h))

theorem tracks_bracketedArgs {close : Punct} :
    Tracks c (bracketedArgs expression close) (bracketedArgs expression' close) s Anywhere
      fun _ => c.At := by
  have ho : Ordinary (.punct close) := ⟨nofun, nofun⟩
  unfold bracketedArgs
  refine .withDoBlocks Tracks.settled_at ?_
  have closed {s' : State} {args : List Node} (h : c.At s') :
      Ends c.toStop (fun _ => c.At) (do
        skipNewlines
        expect (.punct close)
        return args) s' :=
    (Ends.skipNewlines h.breaks).bind fun _ _ h => .abort (.expect h nofun)
  have nothing {s' : State} {done : List Node} {K : List Node → State → Prop} (h : c.At s') :
      Ends c.toStop (Round.Last K) (do
        if ← at_ (.punct close) then return .done done.reverse
        else
          let done := (← argument expression') :: done
          skipNewlines
          if ← eat (.punct .comma) then
            skipNewlines
            return .again done
          else return .done done.reverse) s' :=
    .ifAt (h.ne nofun) (.abort (ends_argument he.refuses (.inl h)))
  refine Tracks.skipNewlines.bind (fun _ s₁ _ _ _ => ?_) fun _ s' h => ?_
  · refine .bind (Q := Anywhere) (L := fun _ => c.At) ?_ (fun args s₂ _ _ _ => ?_) ?_
    · refine .repeatingKeeps (J := fun _ => c.At) (fun done s => ?_) fun done s' h => nothing h
      refine .ifAt trivial (fun _ => .pure trivial) fun _ => ?_
      refine (tracks_argument he).bind (fun arg s₂ _ _ h₂ => ?_) fun arg s' h => ?_
      · refine Tracks.skipNewlines.bind (fun _ s₃ _ m₃ _ => ?_) fun _ s' h => ?_
        · have le₃ := m₃.le
          refine .ifEat trivial nofun (fun _ lt => ?_) (fun _ => .pure trivial) fun s' h => ?_
          · refine Tracks.skipNewlines.bind (fun _ s₄ _ m₄ _ => ?_) fun _ _ h => .pure h
            exact .pure ⟨by have := m₄.le; omega, trivial⟩
          · exact (Ends.skipNewlines h.breaks).bind fun _ _ h => .pure h
        · exact .ifEat (h.ne nofun) (.pure h)
      · refine (Ends.skipNewlines h).bind fun _ s' h => ?_
        exact .ifEat (h.ne nofun) (.pure h)
    · refine Tracks.skipNewlines.bind (fun _ s₃ _ _ _ => ?_) fun _ s' h => .abort (.expect h nofun)
      exact (Tracks.expect ho trivial).bind (fun _ _ _ _ _ => .pure trivial) fun _ _ h => .pure h
    · exact fun args s' h => closed h
  · exact .abort (.repeating (nothing h))

/-! ### Blocks -/

theorem tracks_blockRest {close : Token.Kind} (ho : Ordinary close) (hp : Plain close) :
    Tracks c (blockRest expression close) (blockRest expression' close) s Anywhere
      fun _ => c.At := by
  have plain : ∀ t ∈ [close], Plain t := by
    rintro t ht
    rw [List.mem_singleton.mp ht]
    exact hp
  unfold blockRest
  refine .withDoBlocks Tracks.settled_at (.inScope Tracks.settled_at ?_)
  refine Tracks.skipNewlines.bind (fun _ s₁ _ _ _ => ?_) fun _ s' h => ?_
  · refine (Tracks.eats (k := .punct .bar) trivial nofun).bind (fun bars s₂ _ _ _ => ?_) ?_
    · extract_lets rest bar rest' bar'
      have body_ (names : List Param) (s' : State) :
          Tracks c (rest names) (rest' names) s' (fun _ _ => True) fun _ => c.At := by
        refine (tracks_body he plain).bind (fun _ _ _ _ _ => ?_)
          fun _ _ h => .abort (.expect h ho.1)
        exact (Tracks.expect ho hp).bind (fun _ _ _ _ _ => .pure trivial) fun _ _ h => .pure h
      have bars_ (names : List Param) (s' : State) :
          Tracks c (bar names) (bar' names) s' (fun _ _ => True) fun _ => c.At := by
        refine (Tracks.expect (ordinary_punct _) trivial).bind (fun _ _ _ _ _ => body_ _ _) ?_
        exact fun _ _ h => .fails (ends_blockBody h ho.1)
      split
      · refine .ifAt trivial (fun _ => bars_ _ _) fun _ => ?_
        refine (tracks_params (.punct .bar) trivial nofun).bind (fun _ _ _ _ _ => bars_ _ _)
          fun _ _ h => ?_
        exact .abort (.expect h nofun)
      · refine (Tracks.discardEat (k := .punct .orOr) trivial nofun).bind
          (fun _ _ _ _ _ => body_ _ _) fun _ _ h => ?_
        exact .fails (ends_blockBody h ho.1)
    · rintro _ s' ⟨rfl, h⟩
      rw [if_pos rfl]
      exact .ifAt (h.ne nofun) (.abort (ends_params h _))
  · refine .eat (k := .punct .bar) (h.ne nofun) ?_
    rw [if_neg Bool.false_ne_true]
    refine (Ends.discardEat (k := .punct .orOr) (h.ne nofun) h).bind fun _ _ h => ?_
    exact .fails (ends_blockBody h ho.1)

theorem tracks_callBlock (command : Bool) :
    Tracks c (callBlock expression command) (callBlock expression' command) s Anywhere
      fun _ => c.At := by
  unfold callBlock
  refine .at_ trivial ?_
  split
  · next h =>
    rw [Bool.and_eq_true, decide_eq_true_eq] at h
    refine .advance (by rw [h.2]; nofun) (fun _ => ?_) fun s' h => ?_
    · refine (tracks_blockRest he (ordinary_punct _) trivial).bind ?_ fun _ _ h => .pure h
      exact fun _ _ _ _ _ => .pure trivial
    · exact .abort (ends_blockRest h nofun)
  · refine .get fun s' hs' => ?_
    rw [hs']
    refine .at_ trivial ?_
    split
    · next h =>
      rw [Bool.and_eq_true, decide_eq_true_eq] at h
      refine .advance (by rw [h.2]; nofun) (fun _ => ?_) fun s' h => ?_
      · refine (tracks_blockRest he ordinary_end trivial).bind ?_ fun _ _ h => .pure h
        exact fun _ _ _ _ _ => .pure trivial
      · exact .abort (ends_blockRest h nofun)
    · exact .pure trivial

/-! ### Calls -/

theorem tracks_call (receiver : Option Node) (name : String) :
    Tracks c (call expression receiver name) (call expression' receiver name) s Anywhere
      fun _ => c.AfterOperand := by
  unfold call
  extract_lets jp jp'
  have rest (start : Span) (s : State) :
      Tracks c (jp start) (jp' start) s Anywhere fun _ => c.AfterOperand := by
    refine .atParenArgs fun paren hp => .startsCommandArgs (fun command => ?_) ?_
    · extract_lets block block'
      have block_ (args : Bool × List Node) (s : State) :
          Tracks c (block args) (block' args) s Anywhere fun _ => c.AfterOperand := by
        refine (tracks_callBlock he _).bind (fun _ _ _ _ _ => .previousSpan (.pure trivial)) ?_
        exact fun _ _ h => .previousSpan (.pure (.inl h.breaks))
      have ended (args : Bool × List Node) {s' : State} (h : c.AfterOperand s') :
          Ends c.toStop (fun _ => c.AfterOperand) (block' args) s' :=
        (ends_callBlock h _).bind fun _ _ h => .previousSpan (.pure h)
      split
      · next hparen =>
        refine .advance (by rw [hp hparen]; nofun) (fun _ => ?_) fun s' h => ?_
        · refine (tracks_bracketedArgs he).bind (fun args _ _ _ _ => block_ (false, args) _) ?_
          exact fun args s' h => ended (false, args) (.inl h.breaks)
        · exact .abort (ends_bracketedArgs he.refuses h _)
      · split
        · refine (tracks_commandArgs he).bind (fun args _ _ _ _ => block_ (true, args) _) ?_
          exact fun args s' h => ended (true, args) (.inl h)
        · exact block_ (false, []) _
    · intro command s' h
      extract_lets block
      split
      · have next : c.At s'.next := h.elim Stop.AfterMinus.next fun h => h.2.next
        exact .advance (.abort (ends_bracketedArgs he.refuses next _))
      · split
        · have sign : c.AfterSign s' := h.elim Stop.AfterMinus.sign And.right
          exact .abort (ends_commandArgs he.refuses (.inr sign))
        · next hb =>
          have minus : c.AfterMinus s' := h.resolve_right fun h => hb h.1
          exact (ends_callBlock (.inr minus) false).bind fun _ _ h => .previousSpan (.pure h)
  cases receiver with
  | none => exact .previousSpan (rest _ _)
  | some node => exact rest _ _

end Along

end ScriptCompiler.Parse
