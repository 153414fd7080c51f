import ScriptCompiler.Proofs.Truncation.Calls

/-!
# Definitions and control flow cut short

What a reserved word opens is not closed any more where the text ends, and so it fails there. A
clause or a branch that is optional is not there.
-/

namespace ScriptCompiler.Parse

/-- Words that end a body. -/
theorem plain_keywords {words : List Token.Kind}
    (h : words.all (fun k => match k with | .keyword _ => true | _ => false) = true) :
    ∀ t ∈ words, Plain t := by
  intro t ht
  have hk := List.all_eq_true.mp h t ht
  cases t with
  | keyword word => trivial
  | _ => cases hk

/-- Only a point after a name makes it an owner. -/
theorem owner_of_ne (k k' : Token.Kind) (h : k' ≠ .punct .dot) : owner? k k' = none := by
  unfold owner?
  split
  · exact absurd rfl h
  · exact absurd rfl h
  · exact absurd rfl h
  · rfl

theorem owner_alike {k k₁ k₂ : Token.Kind} (h : Alike k₁ k₂) : owner? k k₂ = owner? k k₁ := by
  cases h with
  | refl => rfl
  | str value value' =>
    rw [owner_of_ne k (.str value') nofun, owner_of_ne k (.str value) nofun]
  | symbol name name' =>
    rw [owner_of_ne k (.symbol name') nofun, owner_of_ne k (.symbol name) nofun]

/-! ## At the end -/

section End

variable {e : Stop} {expression : Parser Node} {s : State}

/-- The word `end` is missing. -/
theorem ends_end {α : Type} {K : α → State → Prop} (h : e.At s) {make : Span → α} :
    Ends e K (do expect (.keyword .endKw); return make (← previousSpan)) s :=
  .abort (.expect h nofun)

theorem ends_skipThen (h : e.AfterBreaks s) : Ends e (fun _ => e.At) skipThen s := by
  unfold skipThen
  refine (Ends.skipNewlines h).bind fun _ _ h => ?_
  exact .ifEat (k := .keyword .thenKw) (h.ne nofun) (.pure h)

theorem ends_rejectScoped (h : e.At s) : Ends e (fun _ => e.At) rejectScoped s :=
  .ifAt (h.ne nofun) (.pure h)

theorem ends_rescueClause (h : e.At s) :
    Ends e (fun clause s' => clause = none ∧ e.At s') (rescueClause expression) s :=
  .ifEat (k := .keyword .rescueKw) (h.ne nofun) (.pure ⟨rfl, h⟩)

theorem ends_rescueTail (h : e.At s) (protected_ : Body) :
    Ends e (fun _ => e.At) (rescueTail expression protected_) s := by
  unfold rescueTail
  refine (ends_rescueClause h).bind ?_
  rintro _ s₁ ⟨rfl, h₁⟩
  refine .currentSpan (.eat (k := .keyword .elseKw) (h₁.ne nofun) ?_)
  rw [if_neg Bool.false_ne_true]
  exact .ifAt (h₁.ne nofun) (.pure h₁)

theorem ends_elseClause (h : e.At s) :
    Ends e (fun _ => e.At) (elseClause expression) s :=
  .ifEat (k := .keyword .elseKw) (h.ne nofun) (.pure h)

theorem ends_branch (he : e.Refuses expression) (h : e.At s) :
    Ends e Never (branch expression) s :=
  .abort (he s (.inl h))

theorem ends_namespaceBody (h : e.At s) : Ends e Never (namespaceBody expression) s := by
  unfold namespaceBody
  refine .bind (Q := fun _ => e.At) ?_ fun _ _ h => .abort (.expect h nofun)
  have h' : e.At { s with scopes := ⟨[], true⟩ :: s.scopes } := h.settled _ _
  refine .inScope ((ends_body h'.breaks _).mono fun _ _ h => ?_)
  exact h.settled _ _

theorem ends_writerMark (h : e.At s) : Ends e (fun _ => e.At) writerMark s := by
  unfold writerMark
  exact .at_ (h.ne nofun) (.spaceBefore (.pure h))

/-- A name that may own a method is the name of the method where nothing follows. -/
theorem ends_definedName {t : Token} (h : e.After [t] s)
    (ht : (owner? t.kind (.punct .dot)).isSome = true) :
    Ends e (fun _ => e.At) definedName s := by
  unfold definedName
  refine .kind (.followingKind ?_)
  rw [h.cons.1]
  cases hk : t.kind with
  | identifier name => exact .advance ((ends_writerMark h.next).bind fun _ _ h => .pure h)
  | constant name => exact .advance (.pure h.next)
  | keyword word => exact .advance (.pure h.next)
  | _ =>
    rw [hk] at ht
    cases ht

theorem ends_methodParams (h : e.At s) : Ends e (fun _ => e.At) methodParams s := by
  unfold methodParams
  refine .ifEat (k := .punct .openParen) (h.ne nofun) (.at_ (h.ne nofun) ?_)
  exact .atEnd h.kind (.pure h)

theorem ends_methodRest (h : e.At s) (start : Span) (owner : Option String) (name : String) :
    Ends e Never (methodRest expression start owner name) s := by
  unfold methodRest
  refine (ends_methodParams h).bind fun names s₁ h₁ => ?_
  refine (ends_body h₁.breaks _).bind fun statements s₂ h₂ => ?_
  refine .at_ (h₂.ne nofun) (.at_ (h₂.ne nofun) ?_)
  exact ends_end h₂

theorem ends_scopedRest (h : e.At s) (start : Span) (owner : Option String) (name : String) :
    Ends e Never (inScope true (methodRest expression start owner name)) s := by
  have h' : e.At { s with scopes := ⟨[], true⟩ :: s.scopes } := h.settled _ _
  exact .inScope (ends_methodRest h' _ _ _)

theorem ends_noName (h : e.At s) : Ends e Never definedName s := by
  unfold definedName
  refine .kind (.followingKind ?_)
  rw [h.kind]
  exact .reject h _

end End

section Along

variable {c : Cut} {expression expression' : Parser Node} {s : State}

theorem tracks_skipThen : Tracks c skipThen skipThen s Anywhere fun _ => c.At := by
  unfold skipThen
  refine Tracks.skipNewlines.bind (fun _ _ _ _ _ => ?_) fun _ s' h => ?_
  · refine .ifEat (k := .keyword .thenKw) trivial nofun (fun _ _ => .skipNewlines)
      (fun _ => .pure trivial) fun s' h => .skipNewlines h.breaks
  · exact .ifEat (k := .keyword .thenKw) (h.ne nofun) (.pure h)

theorem tracks_rejectScoped : Tracks c rejectScoped rejectScoped s Anywhere Never := by
  unfold rejectScoped
  exact .ifAt trivial (fun _ => .ofFault (.currentSpan (.unsupported _ _ _))) fun _ => .pure trivial

/-- What a conditional or a loop ends with. -/
theorem tracks_end {α : Type} {s₀ : State} (h : s.rest.length ≤ s₀.rest.length) {make : Span → α} :
    Tracks c (do expect (.keyword .endKw); return make (← previousSpan))
      (do expect (.keyword .endKw); return make (← previousSpan)) s (Ahead s₀) fun _ => c.At := by
  refine (Tracks.expect ordinary_end trivial).bind (fun _ _ _ _ h' => ?_) fun _ _ h => ?_
  · exact .previousSpan (.pure (Nat.lt_of_lt_of_le h' h))
  · exact .previousSpan (.pure h)

variable (he : Carries c c.AfterBreaks expression expression')

include he

/-! ## Protected bodies -/

theorem tracks_rescueClause :
    Tracks c (rescueClause expression) (rescueClause expression') s Anywhere fun _ => c.At := by
  unfold rescueClause
  refine .ifEat (k := .keyword .rescueKw) trivial nofun (fun _ _ => ?_) (fun _ => .pure trivial) ?_
  · refine .kind (fun k k' h => by cases h <;> rfl) ?_
    extract_lets handle clause handle' clause'
    have handled (variable_ : Option String) (s : State) :
        Tracks c (handle variable_) (handle' variable_) s Anywhere fun _ => c.At := by
      refine (tracks_body he (plain_keywords rfl)).bind (fun _ s₁ _ _ _ => ?_) fun _ s' h => ?_
      · exact .ifAt trivial (fun _ => .ofFault (.currentSpan (.unsupportedThen _ _ _))) fun _ =>
          .pure trivial
      · exact .ifAt (h.ne nofun) (.pure h)
    split
    · exact .ofFault (.currentSpan (.unsupportedThen _ _ _))
    · refine .ifEat (k := .punct .arrow) trivial nofun (fun _ _ => ?_) (fun _ => handled none _)
        fun s' h => .abort (.expectIdentifier h)
      refine Tracks.expectIdentifier.bind (fun name _ _ _ _ => ?_) fun name s' h => ?_
      · refine (Tracks.declare name).bind (fun _ _ _ _ _ => handled (some name) _) ?_
        exact fun _ _ h => h.elim
      · exact (Ends.declare h name).bind fun _ _ h => (ends_body h.breaks _).bind fun _ _ h =>
          .ifAt (h.ne nofun) (.pure h)
  · intro s' h
    refine .kind ?_
    rw [h.kind]
    refine .ifEat (k := .punct .arrow) (h.ne nofun) ?_
    exact (ends_body h.breaks _).bind fun _ _ h => .ifAt (h.ne nofun) (.pure h)

theorem tracks_rescueTail (protected_ : Body) :
    Tracks c (rescueTail expression protected_) (rescueTail expression' protected_) s Anywhere
      fun _ => c.At := by
  unfold rescueTail
  refine (tracks_rescueClause he).bind (fun clause s₁ _ _ _ => ?_) ?_
  · refine .currentSpan fun elseSpan' _ => ?_
    extract_lets rest rest'
    have rest_ (otherwise : Option Body) (s : State) :
        Tracks c (rest otherwise) (rest' otherwise) s Anywhere fun _ => c.At := by
      refine .ifAt trivial (fun _ => .ofFault (.currentSpan (.unsupportedThen _ _ _))) fun _ => ?_
      split
      · exact .pure trivial
      · split
        · exact .rejectAs _ _ _
        · exact .pure trivial
    cases hc : clause with
    | some both =>
      refine .eat trivial nofun (fun _ _ => ?_) (fun _ => rest_ none _) fun _ s' h => ?_
      · refine (tracks_body he (plain_keywords rfl)).bind ?_ fun otherwise s' h => ?_
        · exact fun otherwise _ _ _ _ => rest_ (some otherwise) _
        · refine .ifAt (h.ne nofun) ?_
          rw [hc]
          exact .pure h
      · refine (ends_body h.breaks _).bind fun otherwise s' h => .ifAt (h.ne nofun) ?_
        rw [hc]
        exact .pure h
    | none =>
      -- the first parser does not take the word `else` here
      have refused (otherwise : Body) (s : State) :
          Goes c.stream 0 (rest (some otherwise)) s fun _ _ => False := by
        refine .ifAt (fun _ => .currentSpan (.unsupportedThen _ _ _)) fun _ => ?_
        rw [hc]
        exact .rejectAs _ _ _
      by_cases hk : s₁.current.kind = .keyword .elseKw
      · refine .ofFault (.eat (ordinary_keyword (by decide)) (fun _ _ => ?_) (absurd hk))
        refine (keeps_body he.goes _).bind fun otherwise _ _ _ _ => (refused otherwise _).mono ?_
        exact fun _ _ _ h => h.elim
      · exact .eat trivial nofun (fun h => absurd h hk) (fun _ => rest_ none _) fun h => absurd h hk
  · intro clause s' h
    refine .currentSpan (.eat (k := .keyword .elseKw) (h.ne nofun) ?_)
    refine .ifAt (h.ne nofun) ?_
    cases clause <;> exact .pure h

theorem tracks_beginBlock (hk : s.current.kind = .keyword .beginKw) :
    Tracks c (beginBlock expression) (beginBlock expression') s (Ahead s) fun _ => c.At := by
  unfold beginBlock
  refine .opening (by rw [hk]; nofun) (fun lt => ?_) fun start s' h => ?_
  · refine (tracks_body he (plain_keywords rfl)).bind (fun _ s₁ _ m₁ _ => ?_) fun _ s' h => ?_
    · have le₁ := m₁.le
      refine (tracks_rescueTail he _).bind (fun _ s₂ _ m₂ _ => ?_) fun _ s' h => ends_end h
      have le₂ := m₂.le
      exact tracks_end (by omega)
    · exact (ends_rescueTail h _).bind fun _ _ h => ends_end h
  · refine (ends_body h.breaks _).bind fun _ _ h => ?_
    exact (ends_rescueTail h _).bind fun _ _ h => ends_end h

/-! ## Conditionals and loops -/

theorem tracks_elseClause :
    Tracks c (elseClause expression) (elseClause expression') s Anywhere fun _ => c.At := by
  unfold elseClause
  refine .ifEat (k := .keyword .elseKw) trivial nofun (fun _ _ => ?_) (fun _ => .pure trivial) ?_
  · refine (tracks_body he (plain_keywords rfl)).bind ?_ fun _ _ h => .pure h
    exact fun _ _ _ _ _ => .pure trivial
  · exact fun s' h => (ends_body h.breaks _).bind fun _ _ h => .pure h

theorem tracks_branch :
    Tracks c (branch expression) (branch expression') s (Ahead s) fun _ => c.At := by
  unfold branch
  refine (he.tracks s).bind (fun condition s₁ _ _ h₁ => ?_) fun condition s' h => ?_
  · refine tracks_skipThen.bind (fun _ s₂ _ m₂ _ => ?_) fun _ s' h => ?_
    · refine (tracks_body he (plain_keywords rfl)).bind (fun _ s₃ _ m₃ _ => .pure ?_) ?_
      · have le₂ := m₂.le
        have le₃ := m₃.le
        omega
      · exact fun _ _ h => .pure h
    · exact (ends_body h.breaks _).bind fun _ _ h => .pure h
  · refine (ends_skipThen h).bind fun _ s' h => ?_
    exact (ends_body h.breaks _).bind fun _ _ h => .pure h

theorem tracks_ifBlock (hk : s.current.kind = .keyword .ifKw) :
    Tracks c (ifBlock expression) (ifBlock expression') s (Ahead s) fun _ => c.At := by
  have closed {branches : List Branch} {start : Span} {s' : State} (h : c.At s') :
      Ends c.toStop (fun _ => c.At) (do
        let otherwise ← elseClause expression'
        expect (.keyword .endKw)
        return (⟨.conditional branches otherwise, start.merge (← previousSpan)⟩ : Node)) s' :=
    (ends_elseClause h).bind fun _ _ h => ends_end h
  unfold ifBlock
  refine .opening (by rw [hk]; nofun) (fun lt => ?_) fun start s' h =>
    .abort (ends_branch he.refuses h)
  refine (tracks_branch he).bind (fun first s₁ _ m₁ _ => ?_) fun first s' h => ?_
  · refine .bind (Q := Anywhere) (L := fun _ => c.At) ?_ (fun branches s₂ _ m₂ _ => ?_) ?_
    · refine .repeatingKeeps (J := fun _ => c.At) (fun done s => ?_) fun done s' h => ?_
      · refine .ifEat (k := .keyword .elsifKw) trivial nofun (fun _ lt => ?_)
          (fun _ => .pure trivial) fun s' h => .abort (ends_branch he.refuses h)
        refine (tracks_branch he).bind (fun _ _ _ _ h => ?_) fun _ _ h => .pure h
        exact .pure ⟨Nat.lt_trans h lt, trivial⟩
      · exact .ifEat (k := .keyword .elsifKw) (h.ne nofun) (.pure h)
    · refine (tracks_elseClause he).bind (fun otherwise s₃ _ m₃ _ => ?_) fun _ _ h => ends_end h
      have le₁ := m₁.le
      have le₂ := m₂.le
      have le₃ := m₃.le
      exact tracks_end (by omega)
    · exact fun branches s' h => closed h
  · refine .bind (Q := fun _ => c.At) (.repeating ?_) fun branches s' h => closed h
    exact .ifEat (k := .keyword .elsifKw) (h.ne nofun) (.pure h)

theorem tracks_unlessBlock (hk : s.current.kind = .keyword .unlessKw) :
    Tracks c (unlessBlock expression) (unlessBlock expression') s (Ahead s) fun _ => c.At := by
  unfold unlessBlock
  refine .opening (by rw [hk]; nofun) (fun lt => ?_) fun start s' h =>
    .abort (he.refuses s' (.inl h))
  refine (he.tracks _).bind (fun _ s₁ _ _ h₁ => ?_) fun condition s' h => ?_
  · refine tracks_skipThen.bind (fun _ s₂ _ m₂ _ => ?_) fun _ s' h => ?_
    · refine (tracks_body he (plain_keywords rfl)).bind (fun _ s₃ _ m₃ _ => ?_) fun _ s' h => ?_
      · refine (tracks_elseClause he).bind (fun _ s₄ _ m₄ _ => ?_) fun _ _ h => ends_end h
        have le₂ := m₂.le
        have le₃ := m₃.le
        have le₄ := m₄.le
        exact tracks_end (by omega)
      · exact (ends_elseClause h).bind fun _ _ h => ends_end h
    · refine (ends_body h.breaks _).bind fun _ _ h => ?_
      exact (ends_elseClause h).bind fun _ _ h => ends_end h
  · refine (ends_skipThen h).bind fun _ _ h => (ends_body h.breaks _).bind fun _ _ h => ?_
    exact (ends_elseClause h).bind fun _ _ h => ends_end h

theorem tracks_loopBlock {loop : LoopKind} {word : Keyword}
    (hk : s.current.kind = .keyword word) :
    Tracks c (loopBlock expression loop) (loopBlock expression' loop) s (Ahead s)
      fun _ => c.At := by
  have condition : Tracks c (withDoBlocks false expression) (withDoBlocks false expression') s.next
      Anywhere fun _ => c.AfterBreaks :=
    .withDoBlocks Tracks.settled_afterBreaks
      ((he.tracks _).mono (fun _ _ _ _ => trivial) fun _ _ h => h)
  unfold loopBlock
  refine .opening (by rw [hk]; nofun) (fun lt => ?_) fun start s' h => .abort (.withDoBlocks ?_)
  · refine condition.bind (fun _ s₁ _ m₁ _ => ?_) fun _ s' h => ?_
    · refine (Tracks.discardEat (k := .keyword .doKw) trivial nofun).bind
        (fun _ s₂ _ m₂ _ => ?_) fun _ s' h => ?_
      · refine (tracks_body he (plain_keywords rfl)).bind (fun _ s₃ _ m₃ _ => ?_) fun _ _ h =>
          ends_end h
        have le₁ := m₁.le
        have le₂ := m₂.le
        have le₃ := m₃.le
        exact tracks_end (by omega)
      · exact (ends_body h.breaks _).bind fun _ _ h => ends_end h
    · refine (Ends.discardEat (k := .keyword .doKw) (h.ne nofun nofun) h).bind fun _ _ h => ?_
      exact (ends_body h _).bind fun _ _ h => ends_end h
  · exact he.refuses _ (.inl (h.settled _ _))

/-! ## Classes and modules -/

theorem tracks_namespaceBody :
    Tracks c (namespaceBody expression) (namespaceBody expression') s Anywhere fun _ => c.At := by
  unfold namespaceBody
  refine .bind (Q := Anywhere) (L := fun _ => c.At)
    (.inScope Tracks.settled_at (tracks_body he (plain_keywords rfl))) (fun _ _ _ _ _ => ?_) ?_
  · refine (Tracks.expect ordinary_end trivial).bind ?_ fun _ _ h => .pure h
    exact fun _ _ _ _ _ => .pure trivial
  · exact fun _ _ h => .abort (.expect h nofun)

theorem tracks_classBlock (hk : s.current.kind = .keyword .classKw) :
    Tracks c (classBlock expression) (classBlock expression') s (Ahead s) fun _ => c.At := by
  have closed {start : Span} {name : String} {superclass : Option String} {s' : State}
      (h : c.At s') : Ends c.toStop (fun _ => c.At) (do
        let statements ← namespaceBody expression'
        return (⟨.classDef name superclass statements, start.merge (← previousSpan)⟩ : Node)) s' :=
    .abort (ends_namespaceBody h)
  unfold classBlock
  refine .opening (by rw [hk]; nofun) (fun lt => ?_) fun start s' h => ?_
  · refine .ifAt trivial (fun _ => .ofFault (.currentSpan (.unsupportedThen _ _ _))) fun _ => ?_
    refine Tracks.expectConstant.bind (fun name s₁ _ m₁ _ => ?_) fun name s' h => ?_
    · refine tracks_rejectScoped.bind (fun _ s₂ _ m₂ _ => ?_) fun _ _ h => h.elim
      have le₂ := Nat.le_trans m₂.le m₁.le
      refine (Tracks.eats (k := .punct .less) trivial nofun).bind (fun less s₃ _ m₃ _ => ?_) ?_
      · have le₃ := m₃.le
        extract_lets rest rest'
        have rest_ (superclass : Option String) (s' : State) (h : s'.rest.length < s.rest.length) :
            Tracks c (rest superclass) (rest' superclass) s' (Ahead s) fun _ => c.At := by
          refine (tracks_namespaceBody he).bind (fun _ s₄ _ m₄ _ => .previousSpan (.pure ?_)) ?_
          · exact Nat.lt_of_le_of_lt m₄.le h
          · exact fun _ _ h => .previousSpan (.pure h)
        split
        · refine Tracks.expectConstant.bind (fun superclass s₄ _ m₄ _ => ?_) fun _ s' h => ?_
          · refine tracks_rejectScoped.bind (fun _ s₅ _ m₅ _ => ?_) fun _ _ h => h.elim
            have le₅ := Nat.le_trans m₅.le m₄.le
            exact rest_ (some superclass) _ (by omega)
          · exact (ends_rejectScoped h).bind fun _ _ h => closed h
        · exact rest_ none _ (by omega)
      · rintro _ s' ⟨rfl, h⟩
        exact .abort (.expectConstant h)
    · refine (ends_rejectScoped h).bind fun _ s' h => ?_
      exact .eat (k := .punct .less) (h.ne nofun) (closed h)
  · exact .ifAt (h.ne nofun) (.abort (.expectConstant h))

theorem tracks_moduleBlock (hk : s.current.kind = .keyword .moduleKw) :
    Tracks c (moduleBlock expression) (moduleBlock expression') s (Ahead s) fun _ => c.At := by
  unfold moduleBlock
  refine .opening (by rw [hk]; nofun) (fun lt => ?_) fun start s' h => .abort (.expectConstant h)
  refine Tracks.expectConstant.bind (fun name s₁ _ m₁ _ => ?_) fun name s' h => ?_
  · refine tracks_rejectScoped.bind (fun _ s₂ _ m₂ _ => ?_) fun _ _ h => h.elim
    refine (tracks_namespaceBody he).bind (fun _ s₃ _ m₃ _ => .previousSpan (.pure ?_)) ?_
    · have le₁ := m₁.le
      have le₂ := m₂.le
      have le₃ := m₃.le
      omega
    · exact fun _ _ h => .previousSpan (.pure h)
  · exact (ends_rejectScoped h).bind fun _ _ h => .abort (ends_namespaceBody h)

/-! ## Methods -/

omit he in
theorem tracks_writerMark : Tracks c writerMark writerMark s Anywhere fun _ => c.At := by
  unfold writerMark
  refine .at_ trivial (.spaceBefore ?_)
  split
  · next h =>
    rw [Bool.and_eq_true, decide_eq_true_eq] at h
    exact .advance (by rw [h.1]; nofun) (fun _ => .pure trivial) fun _ h => .pure h
  · exact .pure trivial

/-- The name of a method that one token spells. -/
def spelledName (k : Token.Kind) : Parser String :=
  (methodName? k).elim (do unexpected "method name"; failure) fun name => do
    advance
    return name

omit he in
theorem tracks_spelledName {k : Token.Kind} (hk : s.current.kind = k) :
    Tracks c (spelledName k) (spelledName k) s Anywhere fun _ => c.At := by
  unfold spelledName
  cases hm : methodName? k with
  | some name =>
    refine .advance ?_ (fun _ => .pure trivial) fun _ h => .pure h
    intro he
    rw [← hk, he] at hm
    cases hm
  | none => exact .reject _

omit he in
theorem tracks_definedName : Tracks c definedName definedName s Anywhere fun _ => c.At := by
  unfold definedName
  refine .from_ fun hs => .kind (fun k k' h => by cases h <;> rfl) ?_
  cases hk : s.current.kind with
  | identifier name =>
    refine .followingKind_same (fun _ _ _ => rfl) rfl ?_
    refine .advance (by rw [hk]; nofun) (fun _ => ?_) fun s' h => ?_
    · exact tracks_writerMark.bind (fun _ _ _ _ _ => .pure trivial) fun _ _ h => .pure h
    · exact (ends_writerMark h).bind fun _ _ h => .pure h
  | punct mark =>
    cases mark with
    | openBracket =>
      refine .followingKind_same (fun _ _ _ => rfl) rfl ?_
      refine .advance (by rw [hk]; nofun) (fun _ => ?_) fun s' h => .abort (.expect h nofun)
      refine (Tracks.expect (ordinary_punct _) trivial).bind (fun _ _ _ _ _ => ?_) fun _ s' h => ?_
      · exact tracks_writerMark.bind (fun _ _ _ _ _ => .pure trivial) fun _ _ h => .pure h
      · exact (ends_writerMark h).bind fun _ _ h => .pure h
    | lessEqual =>
      refine .followingKind (fun k k' h => by cases h <;> rfl) ?_ fun t s' _ h => ?_
      · split
        · next h => cases h
        · next h => cases h
        · next hf =>
          refine .advance (by rw [hk]; nofun) (fun _ => ?_) fun s' h => .advance (.pure h.next)
          refine .advance ?_ (fun _ => .pure trivial) fun _ h => .pure h
          rw [hs.current_next (by rw [hk]; nofun), hf]
          nofun
        · exact tracks_spelledName hk
      · exact .advance (.pure h.next)
    | _ => exact .followingKind_same (fun _ _ _ => rfl) rfl (tracks_spelledName hk)
  | _ => exact .followingKind_same (fun _ _ _ => rfl) rfl (tracks_spelledName hk)

omit he in
theorem tracks_methodParams : Tracks c methodParams methodParams s Anywhere fun _ => c.At := by
  unfold methodParams
  refine .ifEat (k := .punct .openParen) trivial nofun (fun _ _ => ?_) (fun _ => ?_) fun s' h => ?_
  · refine Tracks.skipNewlines.bind (fun _ s₁ _ _ _ => .at_ (k := .punct .closeParen) trivial ?_) ?_
    · extract_lets rest
      have rest_ (names : List Param) (s : State) :
          Tracks c (rest names) (rest names) s Anywhere fun _ => c.At := by
        refine Tracks.skipNewlines.bind (fun _ _ _ _ _ => ?_) fun _ _ h => .abort (.expect h nofun)
        refine (Tracks.expect (ordinary_punct _) trivial).bind ?_ fun _ _ h => .pure h
        exact fun _ _ _ _ _ => .pure trivial
      split
      · exact rest_ [] _
      · refine (tracks_params (.punct .closeParen) trivial nofun).bind ?_ fun _ _ h => ?_
        · exact fun names _ _ _ _ => rest_ names _
        · exact (Ends.skipNewlines h.breaks).bind fun _ _ h => .abort (.expect h nofun)
    · exact fun _ s' h => .at_ (h.ne nofun) (.abort (ends_params h _))
  · refine .at_ (k := .newline) trivial (.at_ (k := .endOfInput) trivial ?_)
    split
    · exact .pure trivial
    · exact (tracks_params .newline trivial nofun).mono (fun _ _ _ _ => trivial) fun _ _ h => h
  · refine (Ends.skipNewlines h.breaks).bind fun _ s' h => ?_
    exact .at_ (h.ne nofun) (.abort (ends_params h _))

theorem tracks_methodRest (start : Span) (owner : Option String) (name : String) :
    Tracks c (methodRest expression start owner name) (methodRest expression' start owner name) s
      Anywhere fun _ => c.At := by
  unfold methodRest
  refine tracks_methodParams.bind (fun params s₁ _ _ _ => ?_) fun _ s' h => ?_
  · refine (tracks_body he (plain_keywords rfl)).bind (fun statements s₂ _ _ _ => ?_)
      fun _ s' h => ?_
    · refine .at_ trivial (.at_ trivial ?_)
      extract_lets rest first
      have rest_ (statements : List Node) (s : State) :
          Tracks c (rest statements) (rest statements) s Anywhere fun _ => c.At := by
        refine (Tracks.expect ordinary_end trivial).bind (fun _ _ _ _ _ => ?_) fun _ _ h => ?_
        · exact .previousSpan (.pure trivial)
        · exact .previousSpan (.pure h)
      split
      · refine (tracks_rescueTail he _).bind (fun _ _ _ _ _ => .previousSpan (rest_ _ _)) ?_
        exact fun _ _ h => .previousSpan (ends_end h)
      · exact rest_ statements _
    · exact .at_ (h.ne nofun) (.at_ (h.ne nofun) (ends_end h))
  · refine (ends_body h.breaks _).bind fun _ s' h => ?_
    exact .at_ (h.ne nofun) (.at_ (h.ne nofun) (ends_end h))

theorem tracks_methodBlock (hk : s.current.kind = .keyword .defKw) :
    Tracks c (methodBlock expression) (methodBlock expression') s (Ahead s) fun _ => c.At := by
  unfold methodBlock
  refine .opening (by rw [hk]; nofun) (fun lt => ?_) fun start s' h => ?_
  · have rest (owner : Option String) (s' : State) (h : s'.rest.length < s.rest.length) :
        Tracks c
          (do
            let name ← definedName
            inScope true (methodRest expression s.current.span owner name))
          (do
            let name ← definedName
            inScope true (methodRest expression' s.current.span owner name)) s' (Ahead s)
          fun _ => c.At := by
      refine tracks_definedName.bind (fun name s₁ _ m₁ _ => ?_) fun name s' h => ?_
      · have le₁ := m₁.le
        refine .inScope Tracks.settled_at ((tracks_methodRest he _ _ _).mono ?_ fun _ _ h => h)
        exact fun _ s₂ m₂ _ => Nat.lt_of_le_of_lt m₂.le (Nat.lt_of_le_of_lt le₁ h)
      · exact .fails (ends_scopedRest h _ _ _)
    refine .from_ fun hs => .kind (fun k k' h => by cases h <;> rfl) ?_
    by_cases ho : (owner? s.next.current.kind s.next.following.kind).isSome = true
    · obtain ⟨hk', hdot⟩ := ordinary_owner ho
      refine .followingKind (fun k k' h => ?_) ?_ fun t s' ha h => ?_
      · rw [owner_alike h]
      · rw [if_pos ho, if_pos ho]
        refine .advance hk'.1 (fun lt' => ?_) fun s' h => ?_
        · have dot : s.next.next.current.kind = .punct .dot := by
            rw [hs.current_next hk'.1]
            exact hdot
          refine .advance (by rw [dot]; nofun) (fun lt'' => rest _ _ (by omega)) fun s' h => ?_
          exact .abort (ends_noName h)
        · exact .advance (.abort (ends_noName h.next))
      · rw [owner_of_ne _ .endOfInput nofun]
        have named : (owner? t.kind (.punct .dot)).isSome = true := by
          rw [hdot] at ho
          generalize s.next.current.kind = k at ho ha
          generalize t.kind = k' at ha ⊢
          cases ha <;> exact ho
        exact (ends_definedName h named).bind fun _ _ h => .fails (ends_scopedRest h _ _ _)
    · refine .followingKind_same (fun k k' h => ?_) ?_ ?_
      · rw [owner_alike h]
      · rw [Option.not_isSome_iff_eq_none.mp ho, owner_of_ne _ .endOfInput nofun]
      · rw [if_neg ho, if_neg ho]
        exact rest _ _ lt
  · refine .kind (.followingKind ?_)
    rw [h.kind]
    exact .abort (ends_noName h)

end Along

end ScriptCompiler.Parse
