import ScriptCompiler.Proofs.Continuation.Reads

/-!
# Statements and calls

What statements, bodies, arguments and blocks bind, if the expressions in them bind what they
should.
-/

namespace ScriptCompiler.Parse

variable {c : Continuation} {levels : Nat} {s s' : State}

open Bindings

theorem ofNode_asDirective (node : Node) : ofNode (asDirective node) = ofNode node := by
  unfold asDirective
  split
  · next name path span hform =>
    split
    · next kind hk =>
      obtain ⟨form, span'⟩ := node
      obtain rfl : form = _ := hform
      rfl
    · rfl
  · rfl

theorem mem_ofForm_apply (m : Modifier) (condition stmt : Node) (b : Binding) :
    b ∈ ofForm (m.apply condition stmt) ↔ b ∈ ofNode stmt ∨ b ∈ ofNode condition := by
  cases m <;> simp [Modifier.apply, negate, or_comm]

section Expressions

variable (he : ∀ s, Reads c Firm (expression levels) s (Binds s ofNode))

include he

/-! ## Statements -/

theorem reads_statement : Reads c Firm (statement (expression levels)) s (Binds s ofNode) := by
  refine (Shuts.of_ahead (goes_statement (goes_expression levels)) fun hk => ?_).reads
  unfold statement
  refine .currentSpan hk ((he s).bind fun first s₁ g₁ => ?_)
  refine Reads.bind (Q := Binds s ofNode) ?_ fun whole s₂ g₂ => .kind (fun _ => rfl) ?_
  · refine Reads.repeating (I := fun stmt s' => Gained s (ofNode stmt) s') (fun stmt s' g => ?_) ?_
    · refine .kind (fun _ => rfl) ?_
      split
      · exact .pure g
      · next m hm =>
        refine .pass ?_ ((he _).bind fun condition s'' g' => .previousSpan (.pure ?_))
        · constructor <;> intro h <;> rw [h] at hm <;> cases hm
        · exact (g.next.trans g').congr fun b => by simp [mem_ofForm_apply]
    · exact (ofNode_asDirective first).symm ▸ g₁
  · split
    · exact .of_none rfl
    · exact .pure g₂

/-- A round of a body that gives a statement does not depend on what comes after the text. -/
theorem reads_bodyRound (terminators : List Token.Kind) (done : List Node) {s₀ : State}
    (g : Gained s₀ (ofNodes done) s) :
    Reads c Round.Again (bodyRound (expression levels) terminators done) s
      (Round.Then (fun done => Gained s₀ (ofNodes done)) (Binds s₀ ofNodes)) := by
  have reversed {s' : State} (g : Gained s₀ (ofNodes done) s') :
      Gained s₀ (ofNodes done.reverse) s' :=
    g.congr fun b => by simp [mem_ofNodes]
  -- at the end the body is over
  have ended {s' : State} {p : Parser (Round (List Node) Body)}
      (hk : s'.current.kind = .endOfInput) :
      (Parse.kind >>= fun k =>
        if (k = .endOfInput || terminators.contains k) = true then
          Pure.pure (.done done.reverse)
        else p).run s' = (some (.done done.reverse), s') := by
    show (if (decide (s'.current.kind = .endOfInput) || terminators.contains s'.current.kind) = true
      then Pure.pure (.done done.reverse) else p : Parser (Round (List Node) Body)).run s' = _
    rw [hk, if_pos (by simp)]
    rfl
  unfold bodyRound
  refine Reads.skipNewlines.bindWith (fun _ s₁ g₁ => ?_) fun _ s₁ _ _ hk b s₂ hr hb => ?_
  · replace g : Gained s₀ (ofNodes done) s₁ := (g.trans g₁).congr fun b => by simp
    by_cases hk : s₁.current.kind = .endOfInput
    · exact .of_end hk (ended hk) id (reversed g)
    refine .kind (fun h => absurd h hk) ?_
    split
    · exact .pure (reversed g)
    refine .isFull ?_
    split
    · exact .pure (reversed g)
    refine .attempt (reads_statement he) (goes_statement (goes_expression levels)) ?_ ?_
    · intro s₂ m₂ fault
      refine (goes_synchronize fault).bind fun _ s₃ _ m₃ _ => .pure ?_
      exact g.of_fault (m₂.trans m₃) (Nat.lt_of_lt_of_le fault m₃.log)
    · intro stmt s₂ g₂
      have known : Gained s₀ (ofNodes (stmt :: done)) s₂ :=
        (g.trans g₂).congr fun b => by simp [or_comm]
      refine .kind (fun _ => by simp [endsStatement]) ?_
      split
      · exact .pure known
      · refine .of_fault ((Goes.unexpected _).bind fun _ s₃ _ m₃ h₃ => ?_)
        refine (goes_synchronize h₃.2).bind fun _ s₄ _ m₄ _ => .pure ?_
        have fault := Nat.lt_of_lt_of_le h₃.2 m₄.log
        exact ⟨known.of_fault (m₃.trans m₄) fault, fault⟩
  · rw [ended hk] at hr
    cases hr
    exact hb

/-- A body asks for the word that ends it. -/
theorem reads_body (terminators : List Token.Kind) :
    Reads c Loose (body (expression levels) terminators) s (Binds s ofNodes) :=
  .repeatingLoose (fun done _ g => (reads_bodyRound he terminators done g).loose) (.refl s)

end Expressions

/-! ## Parameters -/

/-- Nothing is said of the names of parameters, which belong to the scope of a block or a method. -/
theorem reads_param : Reads c Firm param s Anywhere := by
  refine (Shuts.of_ahead goes_param fun hk => ?_).reads
  unfold param
  refine .currentSpan hk (.kind (fun h => absurd h hk) ?_)
  split
  · next name hs =>
    refine .advance hs ⟨nofun, nofun⟩ (.ifAt (solid_punct _) (fun _ => .of_none rfl) fun _ => ?_)
    exact .declare (.pure trivial)
  · next hs =>
    exact .advance hs (solid_punct _) (.expectIdentifier fun name => .declare (.pure trivial))
  · exact .unsupported _ _ _
  · exact .unsupported _ _ _
  · exact .reject _

theorem reads_params (close : Token.Kind) : Reads c Loose (params close) s Anywhere := by
  unfold params
  refine .repeatingLoose (I := Anywhere) (fun done s _ => ?_) trivial
  refine reads_param.bind fun p s₁ _ => .atLoose ?_
  split
  · exact .pure trivial
  refine .ifEat (solid_punct _) (fun _ => ?_) fun _ => .pure trivial
  extract_lets jp
  split
  · exact Reads.skipNewlines.bindLoose fun _ _ _ => .pure trivial
  · exact .pure trivial

section Expressions

variable (he : ∀ s, Reads c Firm (expression levels) s (Binds s ofNode))

/-! ## Arguments -/

theorem asks_argument : Asks c (argument (expression levels)) s :=
  .of_ahead (goes_argument (goes_expression levels))

include he

theorem reads_argument : Reads c Firm (argument (expression levels)) s (Binds s ofNode) := by
  unfold argument
  refine .kind (fun _ => rfl) ?_
  split
  · exact .of_none rfl
  · exact .of_none rfl
  · refine (he s).bind fun arg s₁ g₁ => ?_
    exact .ifAt (solid_punct _) (fun _ => .of_none rfl) fun _ => .pure g₁

theorem reads_commandArgs :
    Reads c Firm (commandArgs (expression levels)) s (Binds s ofNodes) := by
  unfold commandArgs
  refine .withDoBlocks ?_
  generalize ({ s with doBlocks := false } : State) = s₀
  refine .repeatingAsks (I := fun done => Gained s₀ (ofNodes done)) (fun done s g => ?_)
    (fun _ _ => asks_argument.bind) (.refl _)
  refine (reads_argument he).bind fun arg s₁ g₁ => ?_
  replace g := g.trans g₁
  refine .ifEat (solid_punct _) (fun _ => ?_) fun _ => .pure ?_
  · refine Reads.skipNewlines.bindAgain fun _ s₂ g₂ => ?_
    exact (g.next.trans g₂).congr fun b => by simp [or_comm]
  · exact g.congr fun b => by simp [mem_ofNodes, or_comm]

/-- Arguments in brackets. -/
theorem reads_bracketedArgs (close : Punct) :
    Reads c Firm (bracketedArgs (expression levels) close) s (Binds s ofNodes) := by
  unfold bracketedArgs
  refine .withDoBlocks ?_
  generalize ({ s with doBlocks := true } : State) = s₀
  refine (Shuts.bindLoose .skipNewlines fun _ s₁ g₁ => ?_).reads
  refine .bindLoose (Q := Binds s₀ ofNodes)
    (.repeatingLoose (I := fun done => Gained s₀ (ofNodes done)) (fun done s g => ?_) g₁)
    fun args s₂ g₂ => ?_
  · refine .ifAt (solid_punct _) (fun _ => .pure ?_) fun _ => ?_
    · exact g.congr fun b => by simp [mem_ofNodes]
    refine (reads_argument he).bind fun arg s₂ g₂ => Reads.skipNewlines.bindLoose fun _ s₃ g₃ => ?_
    replace g := (g.trans g₂).trans g₃
    refine .ifEat (solid_punct _) (fun _ => ?_) fun _ => .pure ?_
    · refine Reads.skipNewlines.bindLoose fun _ s₄ g₄ => .pure ?_
      exact (g.next.trans g₄).congr fun b => by simp [or_comm]
    · exact g.congr fun b => by simp [mem_ofNodes, or_comm]
  · refine .bindLoose .skipNewlines fun _ s₃ g₃ => .expect (solid_punct _) fun _ => .pure ?_
    exact (g₂.trans g₃).next.congr fun b => by simp

/-! ## Blocks -/

/-- What a block binds is not known after it. -/
theorem reads_blockRest {close : Token.Kind} (hk : Solid close) :
    Reads c Firm (blockRest (expression levels) close) s fun _ => Gained s [] := by
  unfold blockRest
  show Reads c Firm _ s (Binds s fun _ => [])
  refine .withDoBlocks (.inScope ?_)
  refine (Shuts.bindLoose .skipNewlines fun _ s₁ _ => ?_).reads
  refine .bindLoose (Reads.eats (solid_punct _)).loose fun bars s₂ _ => ?_
  extract_lets jp jp'
  have rest (names : List Param) (s' : State) : Shuts c Firm (jp names) s' fun _ _ =>
        ([] : List Binding) = [] :=
    .bindLoose (reads_body he _) fun _ _ _ => .expect hk fun _ => .pure rfl
  have bar (names : List Param) (s' : State) : Shuts c Firm (jp' names) s' fun _ _ =>
        ([] : List Binding) = [] :=
    .expect (solid_punct _) fun _ => (rest _ _).reads
  split
  · refine .at_ (solid_punct _) fun none => ?_
    split
    · exact bar _ _
    · exact .bindLoose (reads_params _) fun _ _ _ => bar _ _
  · refine .bindLoose (Q := Anywhere) ?_ fun _ _ _ => rest _ _
    exact .eat (solid_punct _) (fun _ => .pure trivial) fun _ => .pure trivial

theorem reads_callBlock (command : Bool) :
    Reads c Firm (callBlock (expression levels) command) s fun _ => Gained s [] := by
  unfold callBlock
  refine .at_ (solid_punct _) ?_
  split
  · next h =>
    rw [Bool.and_eq_true, decide_eq_true_eq] at h
    refine .advance h.2 (solid_punct _) ((reads_blockRest he (solid_punct _)).bind ?_)
    exact fun _ _ g => .pure ((Gained.refl s).next.trans g)
  · refine .get (fun t ht => by rw [ht]) (.at_ (solid_keyword _) ?_)
    split
    · next h =>
      rw [Bool.and_eq_true, decide_eq_true_eq] at h
      refine .advance h.2 (solid_keyword _) ((reads_blockRest he (solid_keyword _)).bind ?_)
      exact fun _ _ g => .pure ((Gained.refl s).next.trans g)
    · exact .pure (.refl s)

/-! ## Calls -/

theorem reads_call (receiver : Option Node) (name : String) {s₀ : State}
    (g : Gained s₀ (ofReceiver receiver) s) :
    Reads c Firm (call (expression levels) receiver name) s (Binds s₀ ofNode) := by
  unfold call
  extract_lets jp
  have rest (start : Span) : Reads c Firm (jp start) s (Binds s₀ ofNode) := by
    refine .atParenArgs fun paren hp => .startsCommandArgs fun command => ?_
    extract_lets jp'
    have block (args : Bool × List Node) (s' : State)
        (g : Gained s₀ (ofReceiver receiver ++ ofNodes args.2) s') :
        Reads c Firm (jp' args) s' (Binds s₀ ofNode) := by
      refine (reads_callBlock he _).bind fun block s₂ g₂ => .previousSpan (.pure ?_)
      exact (g.trans g₂).congr fun b => by simp
    split
    · next h =>
      refine .advance (hp h) (solid_punct _) ((reads_bracketedArgs he _).bind fun args s' g' => ?_)
      exact block (false, args) _ (g.next.trans g')
    · split
      · exact (reads_commandArgs he).bind fun args s' g' => block (true, args) _ (g.trans g')
      · exact block (false, []) _ (g.congr fun b => by simp)
  cases receiver with
  | none => exact .previousSpan (rest _)
  | some node => exact rest _

end Expressions

end ScriptCompiler.Parse
