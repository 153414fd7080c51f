import ScriptCompiler.Proofs.Truncation.Definitions

/-!
# Expressions and programs cut short

What expressions and whole programs give where their tokens are cut short.
-/

/-!
## Expressions cut short

An expression that is cut short fails at the end of the text, or it ends there. Two things are seen
only by the token after the current one: a point in the next line, which goes on with the
expression, and an assignment after a name. Where the text ends in between, the expression is over,
or the name is a call of that name.
-/

namespace ScriptCompiler.Parse

/-- An operator and an operand after it, or the end of a group. -/
def groupRound (ops : List Punct) (operand : Parser Node) (left : Node) :
    Parser (Round Node Node) := do
  match ← kind with
  | .punct mark =>
    if ops.contains mark then
      advance
      return .again (binary left mark.text (← operand))
    else return .done left
  | _ => return .done left

theorem leftGrouped_eq (ops : List Punct) (operand : Parser Node) :
    leftGrouped ops operand = (do repeating (groupRound ops operand) (← operand)) :=
  rfl

/-- Products, sums, and the looser ranks. -/
theorem operators_eq (expression : Parser Node) :
    operators expression =
      [[.shift], [.less, .greater, .lessEqual, .greaterEqual], [.equal, .notEqual]].foldl
        (fun operand ops => leftGrouped ops operand)
        (leftGrouped [.plus, .minus] (leftGrouped [.star, .slash, .percent] (unary expression))) :=
  rfl

/-- Before the end no local variable is assigned. -/
theorem localAssignment_end (k : Token.Kind) : localAssignment? k .endOfInput = none := by
  unfold localAssignment?
  split
  · exact ite_self _
  · rfl

theorem localAssignment_alike {k k₁ k₂ : Token.Kind} (h : Alike k₁ k₂) :
    localAssignment? k k₂ = localAssignment? k k₁ := by
  cases h with
  | refl => rfl
  | str value value' => cases k <;> rfl
  | symbol name name' => cases k <;> rfl

theorem localAssignment_identifier {k k' : Token.Kind} {name : String} {how : Assignment}
    (h : localAssignment? k k' = some (name, how)) : k = .identifier name := by
  unfold localAssignment? at h
  split at h
  · split at h
    · cases h
    · obtain ⟨_, -, he⟩ := Option.map_eq_some_iff.mp h
      rw [(Prod.mk.inj he).1]
  · cases h

/-! ### At the end -/

section End

variable {e : Stop} {expression : Parser Node} {s : State}

theorem ends_primary (h : e.At s) : Ends e Never (primary expression) s := by
  unfold primary
  refine .currentSpan (.kind ?_)
  rw [h.kind]
  exact .reject h _

/-- A name with nothing after it is a variable or a call. -/
theorem ends_primary_identifier {t : Token} {name : String} (h : e.After [t] s)
    (ht : t.kind = .identifier name) :
    Ends e (fun _ => e.AfterOperand) (primary expression) s := by
  have h' : e.At s.next := h.next
  unfold primary
  refine .currentSpan (.kind ?_)
  rw [h.cons.1, ht]
  refine .advance (.isLocal (.atParenArgs h' ?_))
  split
  · exact .previousSpan (.pure h'.operand)
  · exact ends_call h' _ _

/-- After a line break comes no point where the text ends. -/
theorem ends_postfixRound (h : e.AfterOperand s) (node : Node) :
    Ends e (Round.Last fun _ => e.AfterOperand) (postfixRound expression node) s := by
  unfold postfixRound
  refine .kind ?_
  rcases h with h | h
  · rcases h.kind with hk | hk
    · rw [hk]
      refine .followingKind ?_
      rw [if_neg h.following]
      exact .pure (.inl h)
    · rw [hk]
      exact .pure (.inl h)
  · rw [h.kind]
    exact .pure (.inr h)

theorem ends_postfixOf (h : e.AfterOperand s) (node : Node) :
    Ends e (fun _ => e.AfterOperand) (postfixOf expression node) s :=
  .repeating (ends_postfixRound h node)

theorem ends_unary (h : e.At s ∨ e.AfterSign s) : Ends e Never (unary expression) s := by
  unfold unary
  refine .repeatingNext (J := fun _ => e.At) (.currentSpan (.kind ?_)) fun signs s' h' => ?_
  · rcases h with h | h
    · rw [h.kind]
      exact .abort (ends_primary h)
    · rcases h.kind with hk | hk
      · rw [hk]
        refine .advance (.kind ?_)
        rw [h.next.kind]
        exact .pure h.next
      · rw [hk]
        exact .advance (.pure h.next)
  · refine .currentSpan (.kind ?_)
    rw [h'.kind]
    exact .abort (ends_primary h')

theorem ends_unary_identifier {t : Token} {name : String} (h : e.After [t] s)
    (ht : t.kind = .identifier name) :
    Ends e (fun _ => e.AfterOperand) (unary expression) s := by
  refine .repeating (.currentSpan (.kind ?_))
  rw [h.cons.1, ht]
  refine (ends_primary_identifier h ht).bind fun operand s' h => ?_
  exact (ends_postfixOf h operand).bind fun _ _ h => .pure h

/-- No operator follows where a line break or the end comes. -/
theorem ends_groupRound (h : e.AfterBreaks s) (ops : List Punct) (operand : Parser Node)
    (left : Node) :
    Ends e (Round.Last fun _ => e.AfterBreaks) (groupRound ops operand left) s := by
  refine .kind ?_
  rcases h.kind with hk | hk <;> rw [hk] <;> exact .pure h

/-- A minus sign is an operator of another rank. -/
theorem ends_groupRound_operand (h : e.AfterOperand s) {ops : List Punct}
    (hops : ops.contains .minus = false) (operand : Parser Node) (left : Node) :
    Ends e (Round.Last fun _ => e.AfterOperand) (groupRound ops operand left) s := by
  refine .kind ?_
  rcases h.kind with hk | hk | hk
  · rw [hk]
    exact .pure h
  · rw [hk]
    exact .pure h
  · rw [hk]
    show Ends e _ (if ops.contains .minus = true then _ else _) s
    rw [hops, if_neg Bool.false_ne_true]
    exact .pure h

/-- A minus sign is an operator of this rank, and no operand follows it. -/
theorem ends_groupRound_minus (h : e.AfterOperand s) {ops : List Punct}
    (hops : ops.contains .minus = true) {operand : Parser Node} (ho : e.Refuses operand)
    (left : Node) :
    Ends e (Round.Last fun _ => e.AfterBreaks) (groupRound ops operand left) s := by
  rcases h with h | h
  · exact ends_groupRound h ops operand left
  · refine .kind ?_
    rw [h.kind]
    show Ends e _ (if ops.contains .minus = true then _ else _) s
    rw [hops, if_pos rfl]
    exact .advance (.abort (ho _ (.inl h.next)))

theorem ends_leftGrouped {K K' : State → Prop} (ops : List Punct) {operand : Parser Node}
    (h : Ends e (fun _ => K) operand s)
    (hr : ∀ left s', K s' → Ends e (Round.Last fun _ => K') (groupRound ops operand left) s') :
    Ends e (fun _ => K') (leftGrouped ops operand) s :=
  h.bind fun left s' h => .repeating (hr left s' h)

theorem ends_foldl_leftGrouped (ranks : List (List Punct)) {operand : Parser Node}
    (h : Ends e (fun _ => e.AfterBreaks) operand s) :
    Ends e (fun _ => e.AfterBreaks)
      (ranks.foldl (fun operand ops => leftGrouped ops operand) operand) s := by
  induction ranks generalizing operand with
  | nil => exact h
  | cons ops ranks ih =>
    exact ih (ends_leftGrouped ops h fun left s' h => ends_groupRound h ops operand left)

theorem Stop.Refuses.leftGrouped {operand : Parser Node} (h : e.Refuses operand)
    (ops : List Punct) : e.Refuses (leftGrouped ops operand) :=
  fun s hs => .abort (h s hs)

theorem Stop.Refuses.foldl_leftGrouped (ranks : List (List Punct)) {operand : Parser Node}
    (h : e.Refuses operand) :
    e.Refuses (ranks.foldl (fun operand ops => Parse.leftGrouped ops operand) operand) := by
  induction ranks generalizing operand with
  | nil => exact h
  | cons ops ranks ih => exact ih (h.leftGrouped ops)

theorem refuses_operators : e.Refuses (operators expression) :=
  Stop.Refuses.foldl_leftGrouped ranks fun _ h => ends_unary h

/-- A name with nothing after it is an expression. -/
theorem ends_operators_identifier {t : Token} {name : String} (h : e.After [t] s)
    (ht : t.kind = .identifier name) :
    Ends e (fun _ => e.AfterBreaks) (operators expression) s := by
  have unaries : e.Refuses (unary expression) := fun _ h => ends_unary h
  have signed : Ends e (fun _ => e.AfterOperand) (unary expression) s := ends_unary_identifier h ht
  have products := ends_leftGrouped [.star, .slash, .percent] signed
    fun left s' h => ends_groupRound_operand h (by decide) _ left
  have sums := ends_leftGrouped [.plus, .minus] products
    fun left s' h => ends_groupRound_minus h (by decide) (unaries.leftGrouped _) left
  rw [operators_eq]
  exact ends_foldl_leftGrouped _ sums

/-- No logical operator follows where a line break or the end comes. -/
theorem ends_noLogical (h : e.AfterBreaks s) (left : Node) :
    Ends e (fun _ => e.AfterBreaks) (do
      let next ← kind
      if isLogical next then
        unsupported ("the '" ++ next.text ++ "' operator is not supported") (← currentSpan)
          "use nested if statements instead"
      else return left) s := by
  refine .kind ?_
  rcases h.kind with hk | hk <;> rw [hk] <;> exact .pure h

theorem ends_logical_identifier {t : Token} {name : String} (h : e.After [t] s)
    (ht : t.kind = .identifier name) :
    Ends e (fun _ => e.AfterBreaks) (logical expression) s :=
  (ends_operators_identifier h ht).bind fun left _ h => ends_noLogical h left

theorem ends_assignTo (he : e.Refuses expression) (h : e.At s) (target : Target) (current : Node)
    (how : Assignment) (start : Span) :
    Ends e Never (assignTo expression target current how start) s := by
  unfold assignTo
  exact (Ends.skipNewlines h.breaks).bind fun _ s' h => .abort (he s' (.inl h))

theorem Stop.AfterBreaks.assignment (h : e.AfterBreaks s) :
    assignment? s.current.kind = none := by
  rcases h.kind with hk | hk <;> rw [hk] <;> rfl

theorem refuses_assignment : e.Refuses (assignment expression) := by
  intro s h
  have none_ : localAssignment? s.current.kind s.following.kind = none := by
    rcases h with h | h
    · rw [h.kind]
      rfl
    · rcases h.kind with hk | hk <;> rw [hk] <;> rfl
  unfold assignment
  refine .currentSpan (.kind (.followingKind ?_))
  rw [none_]
  exact .abort (.abort (refuses_operators s h))

end End

section Along

variable {c : Cut} {expression expression' : Parser Node} {s : State}

/-! ### Operands -/

/-- What ends with the word `end`, or with a bracket, leaves nothing. -/
theorem Tracks.closed {α : Type} {p q : Parser α} {post : α → State → Prop}
    (h : Tracks c p q s post fun _ => c.At) : Tracks c p q s post fun _ => c.AfterOperand :=
  h.mono (fun _ _ _ h => h) fun _ _ h => h.operand

section Operands

variable (he : Carries c c.AfterBreaks expression expression')

include he

theorem tracks_parenthesized (hk : s.current.kind = .punct .openParen) :
    Tracks c (parenthesized expression) (parenthesized expression') s (Ahead s)
      fun _ => c.At := by
  unfold parenthesized
  refine .opening (by rw [hk]; nofun) (fun lt => ?_) fun start s' h => .abort (.withDoBlocks ?_)
  · refine .bind (Q := Anywhere) (L := fun _ => c.AfterBreaks)
      (.withDoBlocks Tracks.settled_afterBreaks ?_) (fun inner s₁ _ m₁ _ => ?_) fun inner s' h => ?_
    · refine Tracks.skipNewlines.bind (fun _ _ _ _ _ => ?_) fun _ s' h => ?_
      · exact (tracks_statement he).mono (fun _ _ _ _ => trivial) fun _ _ h => h
      · exact .fails (ends_statement he.refuses h)
    · refine Tracks.skipNewlines.bind (fun _ s₂ _ m₂ _ => ?_) fun _ _ h => .abort (.expect h nofun)
      refine (Tracks.expect (ordinary_punct _) trivial).bind (fun _ s₃ _ m₃ _ => ?_) fun _ _ h => ?_
      · have le₁ := m₁.le
        have le₂ := m₂.le
        have le₃ := m₃.le
        exact .previousSpan (.pure (by omega))
      · exact .previousSpan (.pure h)
    · exact (Ends.skipNewlines h).bind fun _ _ h => .abort (.expect h nofun)
  · have h' : c.At { s' with doBlocks := true } := h.settled _ _
    exact (Ends.skipNewlines h'.breaks).bind fun _ _ h => ends_statement he.refuses h

theorem tracks_primary :
    Tracks c (primary expression) (primary expression') s (Ahead s)
      fun _ => c.AfterOperand := by
  unfold primary
  refine .currentSpan fun start' hstart => ?_
  extract_lets finish finish'
  have finished {s' : State} (form : Form) (h : s'.rest.length < s.rest.length) :
      Tracks c (finish form) (finish' form) s' (Ahead s) fun _ => c.AfterOperand :=
    .previousSpan (.pureOf h fun hl => by rw [hstart (by omega)])
  have ended {s' : State} (form : Form) (h : c.At s') :
      Ends c.toStop (fun _ => c.AfterOperand) (finish' form) s' :=
    .previousSpan (.pure h.operand)
  have called {s' : State} (receiver : Option Node) (name : String)
      (h : s'.rest.length < s.rest.length) :
      Tracks c (call expression receiver name) (call expression' receiver name) s' (Ahead s)
        fun _ => c.AfterOperand :=
    (tracks_call he receiver name).mono (fun _ _ m _ => Nat.lt_of_le_of_lt m.le h) fun _ _ h => h
  refine .kindOf fun k' ha hk' => ?_
  generalize hk : s.current.kind = k at ha hk'
  cases ha with
  | str value value' =>
    refine .advance (by rw [hk]; nofun) (fun lt => ?_) fun s' h => ended _ h
    refine .previousSpan (.pureOf lt fun hl => ?_)
    rw [hstart (by omega), Token.Kind.str.inj (hk' (by omega))]
  | symbol name name' =>
    refine .advance (by rw [hk]; nofun) (fun lt => ?_) fun s' h => ended _ h
    refine .previousSpan (.pureOf lt fun hl => ?_)
    rw [hstart (by omega), Token.Kind.symbol.inj (hk' (by omega))]
  | refl =>
  split
  · next form hf =>
    refine .advance ?_ (fun lt => finished form lt) fun s' h => ended form h
    exact hk ▸ (ordinary_simple hf).1
  next hf =>
  split
  · next name =>
    refine .advance (by rw [hk]; nofun) (fun lt => .isLocal (.atParenArgs fun paren _ => ?_)) ?_
    · split
      · exact finished _ lt
      · exact called none name lt
    · refine fun s' h => .isLocal (.atParenArgs h ?_)
      split
      · exact ended _ h
      · exact ends_call h none name
  · next name =>
    refine .advance (by rw [hk]; nofun) (fun lt => .atParenArgs fun paren _ => ?_) fun s' h => ?_
    · split
      · exact called none name lt
      · exact finished _ lt
    · exact .atParenArgs h (ended _ h)
  · exact .advance (by rw [hk]; nofun) (fun lt => called none _ lt) fun s' h => ends_call h none _
  · exact .advance (by rw [hk]; nofun) (fun lt => called none _ lt) fun s' h => ends_call h none _
  · refine .advance (by rw [hk]; nofun) (fun lt => ?_) fun s' h =>
      .abort (ends_bracketedArgs he.refuses h _)
    refine (tracks_bracketedArgs he).bind (fun args s₁ _ m₁ _ => ?_) fun args s' h => ended _ h
    exact finished _ (Nat.lt_of_le_of_lt m₁.le lt)
  · exact (tracks_parenthesized he hk).closed
  · exact (tracks_ifBlock he hk).closed
  · exact (tracks_unlessBlock he hk).closed
  · exact (tracks_loopBlock he hk).closed
  · exact (tracks_loopBlock he hk).closed
  · exact (tracks_beginBlock he hk).closed
  · exact (tracks_classBlock he hk).closed
  · exact (tracks_moduleBlock he hk).closed
  · exact (tracks_methodBlock he hk).closed
  · exact .unsupported _ _ _
  · exact .unsupported _ _ _
  · exact .reject _

end Operands

/-! ### What follows an operand -/

theorem tracks_scopedName : Tracks c scopedName scopedName s Anywhere fun _ => c.At := by
  unfold scopedName
  refine .kind (fun k k' h => by cases h <;> rfl) ?_
  split
  · next name hk => exact .advance (by rw [hk]; nofun) (fun _ => .pure trivial) fun _ h => .pure h
  · next name hk => exact .advance (by rw [hk]; nofun) (fun _ => .pure trivial) fun _ h => .pure h
  · exact .reject _

theorem tracks_calledName : Tracks c calledName calledName s Anywhere fun _ => c.At := by
  unfold calledName
  refine .kind (fun k k' h => by cases h <;> rfl) ?_
  split
  · next name hm =>
    refine .advance ?_ (fun _ => .pure trivial) fun _ h => .pure h
    intro hk
    rw [hk] at hm
    cases hm
  · exact .reject _

theorem ends_calledName {e : Stop} (h : e.At s) : Ends e Never calledName s := by
  unfold calledName
  refine .kind ?_
  rw [h.kind]
  exact .reject h _

theorem ends_scopedName {e : Stop} (h : e.At s) : Ends e Never scopedName s := by
  unfold scopedName
  refine .kind ?_
  rw [h.kind]
  exact .reject h _

section Postfix

variable (he : Carries c c.AfterBreaks expression expression')

include he

theorem tracks_postfixRound (node : Node) :
    Tracks c (postfixRound expression node) (postfixRound expression' node) s
      (Round.Post s Anywhere Anywhere)
      (Round.Either (fun _ => c.AfterOperand) fun _ => c.AfterOperand) := by
  unfold postfixRound
  extract_lets finish
  have finished {s' : State} (form : Form) (h : s'.rest.length < s.rest.length) :
      Tracks c (finish form) (finish form) s' (Round.Post s Anywhere Anywhere)
        (Round.Either (fun _ => c.AfterOperand) fun _ => c.AfterOperand) :=
    .previousSpan (.pure ⟨h, trivial⟩)
  have called {s' : State} (name : String) (h : s'.rest.length < s.rest.length) :
      Tracks c (do return .again (← call expression (some node) name) : Parser (Round Node Node))
        (do return .again (← call expression' (some node) name)) s'
        (Round.Post s Anywhere Anywhere)
        (Round.Either (fun _ => c.AfterOperand) fun _ => c.AfterOperand) := by
    refine (tracks_call he _ name).bind (fun _ _ _ m _ => .pure ⟨?_, trivial⟩) fun _ _ h => .pure h
    exact Nat.lt_of_le_of_lt m.le h
  have ended {s' : State} (name : String) (h : c.At s') :
      Ends c.toStop (Round.Either (fun _ => c.AfterOperand) fun (_ : Node) => c.AfterOperand)
        (do return .again (← call expression' (some node) name)) s' :=
    (ends_call h _ name).bind fun _ _ h => .pure h
  refine .kind (fun k k' h => by cases h <;> rfl) ?_
  split
  · next hk =>
    refine .advance (by rw [hk]; nofun) (fun lt => ?_) fun s' h => .abort (ends_calledName h)
    refine tracks_calledName.bind (fun name _ _ m _ => ?_) fun name s' h => ended name h
    exact called name (Nat.lt_of_le_of_lt m.le lt)
  · next hk =>
    by_cases hf : s.following.kind = .punct .dot
    · refine .followingKind (fun k k' h => ?_) ?_ fun t s' ha h => ?_
      · rw [if_congr (h.eq_iff (show Plain (.punct .dot) from trivial)) rfl rfl]
      · rw [if_pos hf]
        exact .advance (by rw [hk]; nofun) (fun lt => .pure ⟨lt, trivial⟩)
          fun _ h => .pure h.operand
      · rw [if_neg nofun]
        refine .pure (.inl ⟨[t], fun u hu => ?_, h⟩)
        rw [List.mem_singleton.mp hu]
        exact (ha.eq_iff (show Plain .newline from trivial)).mpr hk
    · refine .followingKind_same (fun k k' h => ?_) ?_ ?_
      · rw [if_congr (h.eq_iff (show Plain (.punct .dot) from trivial)) rfl rfl]
      · rw [if_neg nofun, if_neg hf]
      · rw [if_neg hf]
        exact .pure trivial
  · next hk =>
    refine .advance (by rw [hk]; nofun) (fun lt => ?_) fun s' h => .abort (ends_scopedName h)
    refine tracks_scopedName.bind (fun name _ _ m _ => ?_) fun name s' h => ?_
    · refine .atParenArgs fun paren _ => ?_
      split
      · exact finished _ (Nat.lt_of_le_of_lt m.le lt)
      · exact called name (Nat.lt_of_le_of_lt m.le lt)
    · refine .atParenArgs h ?_
      split
      · exact .previousSpan (.pure h.operand)
      · exact ended name h
  · next hk =>
    refine .spaceBefore ?_
    split
    · exact .pure trivial
    · refine .advance (by rw [hk]; nofun) (fun lt => ?_) fun s' h =>
        .abort (ends_bracketedArgs he.refuses h _)
      refine (tracks_bracketedArgs he).bind (fun args _ _ m _ => ?_) fun args s' h => ?_
      · exact finished _ (Nat.lt_of_le_of_lt m.le lt)
      · exact .previousSpan (.pure h.operand)
  · exact .pure trivial

theorem tracks_postfixOf (node : Node) :
    Tracks c (postfixOf expression node) (postfixOf expression' node) s Anywhere
      fun _ => c.AfterOperand := by
  refine .repeatingKeeps (J := fun _ => c.AfterOperand) ?_ ?_
  · exact fun node _ => tracks_postfixRound he node
  · exact fun node s' h => ends_postfixRound h node

end Postfix

/-! ### Operators -/

section Operators

variable {levels levels' : Nat}
  (he : Carries c c.AfterBreaks (Parse.expression levels) (Parse.expression levels'))

include he

theorem carries_unary :
    Carries c c.AfterOperand (unary (Parse.expression levels))
      (unary (Parse.expression levels')) := by
  refine ⟨fun s => ?_, fun s => goes_unary he.goes, fun s h => ends_unary h⟩
  unfold unary
  refine .repeatingAhead (J := fun _ => c.At) (fun signs s => ?_) fun signs s' h => ?_
  · refine .currentSpan fun start' hstart => .kind (fun k k' h => by cases h <;> rfl) ?_
    split
    · next hk =>
      refine .advance (by rw [hk]; nofun) (fun lt => ?_) fun s' h => .kind ?_
      · refine .kind (fun k k' h => by cases h <;> rfl) ?_
        split
        · next value hv =>
          refine .advance (by rw [hv]; nofun) (fun lt' => .previousSpan ?_) fun s' h => ?_
          · apply Tracks.sameSpan hstart (Nat.lt_trans lt' lt)
            refine (tracks_postfixOf he _).bind (fun _ _ _ m _ => .pure ?_) fun _ _ h => .pure h
            exact Nat.lt_of_le_of_lt m.le (Nat.lt_trans lt' lt)
          · exact .previousSpan ((ends_postfixOf h.operand _).bind fun _ _ h => .pure h)
        · apply Tracks.sameSpan hstart lt
          exact .pure ⟨lt, trivial⟩
      · rw [h.kind]
        exact .pure h
    · next hk =>
      refine .advance (by rw [hk]; nofun) (fun lt => ?_) fun s' h => .pure h
      apply Tracks.sameSpan hstart lt
      exact .pure ⟨lt, trivial⟩
    · exact .unsupported _ _ _
    · refine (tracks_primary he).bind (fun operand _ _ _ h => ?_) fun operand s' h => ?_
      · refine (tracks_postfixOf he operand).bind (fun _ _ _ m _ => .pure ?_) fun _ _ h => .pure h
        exact Nat.lt_of_le_of_lt m.le h
      · exact (ends_postfixOf h operand).bind fun _ _ h => .pure h
  · refine .currentSpan (.kind ?_)
    rw [h.kind]
    exact .abort (ends_primary h)

omit he in
/-- Operators of a rank keep what is known of their operands. -/
theorem Carries.leftGrouped {operand operand' : Parser Node} {K K' : State → Prop}
    (ho : Carries c K operand operand') (ops : List Punct)
    (hr : ∀ left s', K s' →
      Ends c.toStop (Round.Last fun _ => K') (groupRound ops operand' left) s') :
    Carries c K' (leftGrouped ops operand) (leftGrouped ops operand') := by
  refine ⟨fun s => ?_, fun s => goes_leftGrouped ops ho.goes, fun s h => .abort (ho.refuses s h)⟩
  rw [leftGrouped_eq, leftGrouped_eq]
  refine (ho.tracks s).bind (fun left s₁ _ _ h₁ => ?_) fun left s' h => .repeating (hr left s' h)
  refine .repeating (I := fun _ s' => s'.rest.length < s.rest.length) (J := fun _ => K)
    (fun left s' hs' => ?_) (fun left s' h => hr left s' h) h₁
  unfold groupRound
  refine .kind (fun k k' h => by cases h <;> rfl) ?_
  split
  · next mark hk =>
    split
    · refine .advance (by rw [hk]; nofun) (fun lt => ?_)
        fun s'' h => .abort (ho.refuses s'' (.inl h))
      refine (ho.tracks _).bind (fun right s'' _ _ h => .pure ?_) fun _ _ h => .pure h
      exact ⟨Nat.lt_trans h lt, Nat.lt_trans (Nat.lt_trans h lt) hs'⟩
    · exact .pure hs'
  · exact .pure hs'

omit he in
theorem Carries.foldl_leftGrouped (ranks : List (List Punct)) {operand operand' : Parser Node}
    (ho : Carries c c.AfterBreaks operand operand') :
    Carries c c.AfterBreaks (ranks.foldl (fun operand ops => Parse.leftGrouped ops operand) operand)
      (ranks.foldl (fun operand ops => Parse.leftGrouped ops operand) operand') := by
  induction ranks generalizing operand operand' with
  | nil => exact ho
  | cons ops ranks ih => exact ih (ho.leftGrouped ops fun left s' h => ends_groupRound h ops _ left)

theorem carries_operators :
    Carries c c.AfterBreaks (operators (Parse.expression levels))
      (operators (Parse.expression levels')) := by
  have products := (carries_unary he).leftGrouped [.star, .slash, .percent]
    fun left s' h => ends_groupRound_operand h (by decide) _ left
  have sums := products.leftGrouped [.plus, .minus]
    fun left s' h => ends_groupRound_minus h (by decide) products.refuses left
  rw [operators_eq, operators_eq]
  exact sums.foldl_leftGrouped _

theorem tracks_logical :
    Tracks c (logical (Parse.expression levels)) (logical (Parse.expression levels')) s (Ahead s)
      fun _ => c.AfterBreaks := by
  unfold logical
  refine ((carries_operators he).tracks s).bind (fun left s₁ _ _ h₁ => ?_) fun left s' h => ?_
  · refine .kind (fun k k' h => ?_) ?_
    · cases h with
      | refl => rfl
      | str value value' => exact (if_neg Bool.false_ne_true).trans (if_neg Bool.false_ne_true).symm
      | symbol name name' =>
        exact (if_neg Bool.false_ne_true).trans (if_neg Bool.false_ne_true).symm
    split
    · exact .ofFault (.currentSpan (.unsupported _ _ _))
    · exact .pure h₁
  · exact ends_noLogical h left

/-! ### Assignment -/

theorem tracks_assignTo {s₀ : State} (hs : s.rest.length < s₀.rest.length) (target : Target)
    (current : Node) (how : Assignment) (start : Span) :
    Tracks c (assignTo (Parse.expression levels) target current how start)
      (assignTo (Parse.expression levels') target current how start) s (Ahead s₀)
      fun _ => c.AfterBreaks := by
  unfold assignTo
  refine Tracks.skipNewlines.bind (fun _ s₁ _ m₁ _ => ?_) fun _ s' h =>
    .abort (he.refuses s' (.inl h))
  refine (he.tracks _).bind (fun right s₂ _ _ h₂ => ?_) fun right s' h => ?_
  · have le₁ := m₁.le
    cases how with
    | plain => exact .previousSpan (.pure (by omega))
    | compound op => exact .previousSpan (.pure (by omega))
  · cases how with
    | plain => exact .previousSpan (.pure h)
    | compound op => exact .previousSpan (.pure h)

theorem tracks_assignExpression {s₀ : State} (hs : s.rest.length < s₀.rest.length)
    {how : Assignment} (hk : assignment? s.current.kind = some how) (start : Span) (left : Node) :
    Tracks c (assignExpression (Parse.expression levels) start left how)
      (assignExpression (Parse.expression levels') start left how) s (Ahead s₀)
      fun _ => c.AfterBreaks := by
  have ho := (ordinary_assignment hk).1
  unfold assignExpression
  refine .currentSpan fun opSpan' _ => ?_
  cases ht : target? left.form with
  | some target =>
    refine .advance ho (fun lt => tracks_assignTo he (Nat.lt_trans lt hs) _ _ _ _) fun s' h => ?_
    exact .fails (ends_assignTo he.refuses h _ _ _ _)
  | none =>
    dsimp only
    split
    · next receiver name args hr =>
      refine .advance ho (fun lt => ?_) fun s' h => .abort (he.refuses s' (.inl h))
      refine (he.tracks _).bind (fun value s₁ _ _ h₁ => .previousSpan (.pure ?_)) fun _ _ h => ?_
      · exact Nat.lt_trans h₁ (Nat.lt_trans lt hs)
      · exact .previousSpan (.pure h)
    · refine .ofFault (.advance rfl (ordinary_assignment hk) fun lt => ?_)
      split
      · exact .unsupported _ _ _
      · exact .rejectAs _ _ _

theorem tracks_assignment :
    Tracks c (assignment (Parse.expression levels)) (assignment (Parse.expression levels')) s
      (Ahead s) fun _ => c.AfterBreaks := by
  unfold assignment
  refine .from_ fun hs => .currentSpan fun start' hstart =>
    .kind (fun k k' h => by cases h <;> rfl) ?_
  cases ha : localAssignment? s.current.kind s.following.kind with
  | some both =>
    obtain ⟨name, how⟩ := both
    obtain ⟨hk, hk'⟩ := ordinary_localAssignment ha
    refine .followingKind (fun k k' h => ?_) ?_ fun t s' hat h => ?_
    · rw [localAssignment_alike h]
    · rw [ha]
      refine .advance hk.1 (fun lt => ?_) fun s' h => ?_
      · refine .advance (hs.current_next hk.1 ▸ hk'.1) (fun lt' => ?_) fun s' h => ?_
        · refine (Tracks.declare name).bind (fun _ s₁ _ _ h₁ => ?_) fun _ _ h => h.elim
          apply Tracks.sameSpan hstart (by omega)
          exact tracks_assignTo he (by omega) _ _ _ _
        · refine (Ends.declare h name).bind fun _ s' h => ?_
          exact .fails (ends_assignTo he.refuses h _ _ _ _)
      · refine .advance ((Ends.declare h.next name).bind fun _ s' h => ?_)
        exact .fails (ends_assignTo he.refuses h _ _ _ _)
    · rw [localAssignment_end]
      have ht : t.kind = .identifier name := by
        rw [localAssignment_identifier ha] at hat
        cases hat' : t.kind <;> rw [hat'] at hat <;> cases hat
        rfl
      refine (ends_logical_identifier h ht).bind fun left s' h => .kind ?_
      rw [h.assignment]
      exact .pure h
  | none =>
    refine .followingKind_same (fun k k' h => ?_) ?_ ?_
    · rw [localAssignment_alike h]
    · rw [localAssignment_end, ha]
    · rw [ha]
      refine (tracks_logical he).bind (fun left s₁ _ _ h₁ => ?_) fun left s' h => ?_
      · refine .kind (fun k k' h => by cases h <;> rfl) ?_
        split
        · next how hk =>
          apply Tracks.sameSpan hstart h₁
          exact tracks_assignExpression he h₁ hk _ _
        · exact .pure h₁
      · refine .kind ?_
        rw [h.assignment]
        exact .pure h

theorem carries_assignment :
    Carries c c.AfterBreaks (assignment (Parse.expression levels))
      (assignment (Parse.expression levels')) := by
  exact ⟨fun s => tracks_assignment he, fun s => goes_assignment he.goes, refuses_assignment⟩

end Operators

/-- **Expressions that are cut short end where the text does**, if the shortened text may nest them
deeper than the whole one. -/
theorem carries_expression {levels levels' : Nat} (hl : levels < levels') :
    Carries c c.AfterBreaks (Parse.expression levels) (Parse.expression levels') := by
  obtain ⟨levels', rfl⟩ : ∃ n, levels' = n + 1 := ⟨levels' - 1, by omega⟩
  induction levels generalizing levels' with
  | zero =>
    refine ⟨fun s => ?_, goes_expression 0, refuses_assignment⟩
    exact .ofFault (.currentSpan (.rejectAs _ _ _))
  | succ levels ih =>
    obtain ⟨levels', rfl⟩ : ∃ n, levels' = n + 1 := ⟨levels' - 1, by omega⟩
    exact carries_assignment (ih levels' (by omega))

end Along

end ScriptCompiler.Parse

/-!
## Programs cut short

Where a program is cut between two tokens, the only faults in what is left are that the text ends
there. The program must not nest its expressions as deep as a program may: what is left can nest one
expression deeper, as after a bracket that opens an empty list.
-/

namespace ScriptCompiler.Parse

/-- A whole program whose expressions nest at most so deep. -/
def programWithin (levels : Nat) : Parser Body := do
  let statements ← body (expression levels) []
  if !(← atEnd) && !(← isFull) then unexpected "end of file"
  return statements

theorem programWithin_maxDepth : programWithin maxDepth = program :=
  rfl

/-- What a parser with so many levels makes of the tokens of a file. -/
def ofTokensWithin (levels : Nat) (file : SourceFile) (tokens : List Token) (known : List String) :
    Option Body × Log :=
  let (result, after) := (programWithin levels).run (.start file tokens known)
  (result, after.log)

/-- The expressions in the tokens nest at most so deep: a parser without further levels finds the
same faults in them. -/
def NestsWithin (levels : Nat) (file : SourceFile) (tokens : List Token) (known : List String) :
    Prop :=
  (ofTokensWithin levels file tokens known).2 = (ofTokens file tokens known).2

instance (levels : Nat) (file : SourceFile) (tokens : List Token) (known : List String) :
    Decidable (NestsWithin levels file tokens known) :=
  inferInstanceAs (Decidable (_ = _))

theorem Ending.only {α : Type} {e : Stop} {x : Option α × State}
    (h : Ending e (fun _ => e.At) x) : e.Only x.2.log := by
  cases h with
  | gives h => exact h.log
  | fails h =>
    obtain ⟨breaks, -, h⟩ := h
    exact h.log

theorem ends_programWithin {e : Stop} {s : State} (h : e.At s) (levels : Nat) :
    Ends e (fun _ => e.At) (programWithin levels) s := by
  unfold programWithin
  refine (ends_body h.breaks []).bind fun statements s' h => .atEnd h.kind ?_
  exact .pure h

theorem tracks_programWithin {c : Cut} {levels levels' : Nat} (hl : levels < levels') {s : State} :
    Tracks c (programWithin levels) (programWithin levels') s Anywhere fun _ => c.At := by
  unfold programWithin
  refine (tracks_body (carries_expression hl) (plain_keywords rfl)).bind
    (fun statements s₁ _ _ _ => ?_) ?_
  · refine .at_ (k := .endOfInput) trivial (.isFull ?_)
    extract_lets jp
    split
    · refine .ofFault ((Goes.unexpected _).bind fun _ s₂ _ _ h₂ => ?_)
      exact .pure ⟨trivial, h₂.2⟩
    · exact .pure trivial
  · intro statements s' h
    exact .atEnd h.kind (.pure h)

theorem remaining_start_append (tokens : List Token) (last : Token) (file : SourceFile)
    (known : List String) :
    (State.start file (tokens ++ [last]) known).remaining = tokens ++ [last] := by
  cases tokens <;> rfl

/-- Parsers at the start of a stream and of the shortened one go together. -/
theorem together_start (c : Cut) {others : List Token}
    (h : c.stream.tokens = others ++ c.last :: c.first :: c.after) (file : SourceFile)
    (known : List String) :
    Together c (.start file c.stream.tokens known)
      (.start c.file (others ++ [c.last', c.token]) known) := by
  refine ⟨⟨others, ?_, ?_⟩, rfl, rfl, rfl, rfl, rfl, rfl⟩
  · rw [remaining_start, h]
  · have := remaining_start_append (others ++ [c.last']) c.token c.file known
    rwa [List.append_assoc] at this

/-- Where a program is cut after a token, the only faults are that it ends there. -/
theorem Cut.only_ofTokens (c : Cut) {others : List Token}
    (h : c.stream.tokens = others ++ c.last :: c.first :: c.after) {file : SourceFile}
    {known : List String} {levels levels' : Nat} (hl : levels < levels')
    (accepted : (ofTokensWithin levels file c.stream.tokens known).2.total = 0) :
    c.Only (ofTokensWithin levels' c.file (others ++ [c.last', c.token]) known).2 := by
  have start : (State.start file c.stream.tokens known).In c.stream :=
    ⟨[], remaining_start c.stream file known⟩
  have joint := (tracks_programWithin hl start).2 _ (together_start c h file known) accepted
  unfold ofTokensWithin at accepted ⊢
  generalize (programWithin levels).run (.start file c.stream.tokens known) = x at joint
  generalize (programWithin levels').run
    (.start c.file (others ++ [c.last', c.token]) known) = x' at joint
  cases joint with
  | together h =>
    show c.Only (_ : State).log
    rw [h.log']
    exact c.only_empty
  | ended h => exact h.only

/-- The tokens of a whole text and of what is left of it, which ends at `stop`; before them comes a
token of kind `last`, if any. -/
inductive Shortened (stop : Token) (last : Option Token.Kind) : List Token → List Token → Prop
  | nothing {first : Token} {after : List Token}
      (gap : last = some (.punct .bang) → first.spaceBefore = false → stop.spaceBefore = false) :
    Shortened stop last (first :: after) [stop]
  | cut {others after : List Token} {t t' first : Token} (alike : Alike t.kind t'.kind)
      (space : t'.spaceBefore = t.spaceBefore)
      (gap : t.kind = .punct .bang → first.spaceBefore = false → stop.spaceBefore = false) :
    Shortened stop last (others ++ t :: first :: after) (others ++ [t', stop])

theorem Shortened.cons {stop t : Token} {whole left : List Token}
    (h : Shortened stop (some t.kind) whole left) (last : Option Token.Kind) :
    Shortened stop last (t :: whole) (t :: left) := by
  cases h with
  | nothing gap =>
    show Shortened stop last ([] ++ t :: _) ([] ++ [t, stop])
    exact .cut (.refl _) rfl fun hk => gap (congrArg some hk)
  | cut alike space gap =>
    rw [← List.cons_append, ← List.cons_append]
    exact .cut alike space gap

/-- What is left of a program has no faults but that the text ends there. -/
theorem Shortened.only {file file' : SourceFile} {stream : Stream} {known : List String}
    {levels levels' : Nat} {left : List Token} {stop : Token}
    (h : Shortened stop none stream.tokens left) (hstop : stop.kind = .endOfInput)
    (hl : levels < levels')
    (accepted : (ofTokensWithin levels file stream.tokens known).2.total = 0) :
    Stop.Only ⟨file', stop, hstop⟩ (ofTokensWithin levels' file' left known).2 := by
  generalize ht : stream.tokens = whole at h accepted
  cases h with
  | nothing =>
    have start : Stop.At ⟨file', stop, hstop⟩ (.start file' [stop] known) :=
      ⟨rfl, rfl, Stop.only_empty _⟩
    exact (ends_programWithin start levels').only
  | @cut others after t t' first alike space gap =>
    let c : Cut := {
      file := file', token := stop, isEnd := hstop, stream := stream, last := t, last' := t',
      first := first, after := after, alike := alike, space := space, gap := gap }
    exact c.only_ofTokens ht hl (ht.symm ▸ accepted)

/-- **A program that is cut between two tokens** has no faults but that the text ends there, if its
expressions do not nest as deep as they may. -/
theorem only_end_of_cut {file : SourceFile} {stream : Stream} {known : List String}
    {before after : List Token} {t stop : Token} (hcut : stream.tokens = before ++ t :: after)
    (accepted : (ofTokens file stream.tokens known).2.hasErrors = false)
    (shallow : NestsWithin (maxDepth - 1) file stream.tokens known)
    (hstop : stop.kind = .endOfInput) (hspace : stop.spaceBefore = t.spaceBefore) :
    Stop.Only ⟨file, stop, hstop⟩ (ofTokens file (before ++ [stop]) known).2 := by
  have clean : (ofTokensWithin (maxDepth - 1) file stream.tokens known).2.total = 0 := by
    rw [shallow]
    exact Nat.eq_zero_of_not_pos (of_decide_eq_false accepted)
  have shortened : Shortened stop none stream.tokens (before ++ [stop]) := by
    rcases List.eq_nil_or_concat before with rfl | ⟨others, last, rfl⟩
    · -- nothing is left before the end
      rw [hcut]
      exact .nothing nofun
    · rw [hcut, List.concat_eq_append, List.append_assoc, List.append_assoc]
      exact .cut (.refl _) rfl fun _ => hspace.trans
  exact shortened.only hstop (Nat.sub_lt (by decide) Nat.one_pos) clean

/-- A method with a list, a block and a sign in it. -/
def rowsText : String :=
  "def rows(w)\n  [w, 2].each do |r|\n    r * -w\n  end\nend"

/-- The text is cut after the sign, where three things are missing. -/
theorem only_end_of_cut_rowsText :
    ∃ before t after, (Stream.ofFile (.ofText "t.rb" rowsText)).tokens = before ++ t :: after
      ∧ before.getLast?.map (·.kind) = some (.punct .minus)
      ∧ ∃ stop hstop,
        (ofTokens (.ofText "t.rb" rowsText) (before ++ [stop]) []).2.total = 3
          ∧ Stop.Only ⟨.ofText "t.rb" rowsText, stop, hstop⟩
            (ofTokens (.ofText "t.rb" rowsText) (before ++ [stop]) []).2 := by
  let file := SourceFile.ofText "t.rb" rowsText
  have accepted : (ofTokens file (Stream.ofFile file).tokens []).2.hasErrors = false := by
    decide +kernel
  have shallow : NestsWithin (maxDepth - 1) file (Stream.ofFile file).tokens [] := by
    decide +kernel
  have next : ((Stream.ofFile file).tokens[21]?).map (·.spaceBefore) = some false := by
    decide +kernel
  obtain ⟨t, ht, space⟩ := Option.map_eq_some_iff.mp next
  obtain ⟨hlt, rfl⟩ := List.getElem?_eq_some_iff.mp ht
  have split := List.take_append_drop 21 (Stream.ofFile file).tokens
  rw [List.drop_eq_getElem_cons hlt] at split
  exact ⟨_, _, _, split.symm, by decide +kernel, ⟨.endOfInput, .point 3 10, false⟩, rfl,
    by decide +kernel, only_end_of_cut split.symm accepted shallow rfl space.symm⟩

end ScriptCompiler.Parse
