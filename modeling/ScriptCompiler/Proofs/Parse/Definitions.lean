import ScriptCompiler.Proofs.Parse.Calls

/-!
# Definitions and control flow

What a reserved word opens goes as it should if the expressions in it do. A rescue clause is only
parsed where a protected body ends, and so the word that opens it is placed.
-/

namespace ScriptCompiler.Parse

variable {stream : Stream} {n : Nat} {expression : Parser Node} {s : State}

theorem keeps_skipThen : Goes stream n skipThen s Anywhere := by
  unfold skipThen
  refine Goes.skipNewlines.bind fun _ _ _ _ _ => ?_
  exact .ifEat (ordinary_keyword (by decide)) (fun _ _ => Goes.skipNewlines) fun _ => .pure trivial

theorem keeps_rejectScoped : Goes stream n rejectScoped s Anywhere := by
  unfold rejectScoped
  exact .ifAt (fun _ => .currentSpan (.unsupported _ _ _)) fun _ => .pure trivial

/-- What a conditional or a loop ends with. -/
theorem goes_end {α : Type} {s₀ : State} (h : s.rest.length ≤ s₀.rest.length) {make : Span → α} :
    Goes stream n (do expect (.keyword .endKw); return make (← previousSpan)) s (Ahead s₀) :=
  (Goes.expect ordinary_end).bind fun _ _ _ _ h' => .previousSpan (.pure (Nat.lt_of_lt_of_le h' h))

section Expressions

variable (he : ∀ s, Goes stream n expression s (Ahead s))

/-! ## Protected bodies -/

section Protected

variable (hr : s.log.total = n → s.current.kind = .keyword .rescueKw →
  Placed stream s.remaining)

include he hr

theorem keeps_rescueClause : Goes stream n (rescueClause expression) s Anywhere := by
  unfold rescueClause
  refine .passIf (by nofun) hr (fun _ _ => ?_) fun _ => ?_
  · rw [if_pos rfl]
    refine .kind ?_
    extract_lets jp jp'
    have handler (variable_ : Option String) (s : State) :
        Goes stream n (jp variable_) s Anywhere := by
      refine (keeps_body he _).bind fun _ s₁ _ _ _ => ?_
      exact .ifAt (fun _ => .currentSpan (.unsupportedThen _ _ _)) fun _ => .pure trivial
    have rest : Goes stream n (jp' ()) s.next Anywhere := by
      refine .ifEat (ordinary_punct _) (fun _ _ => ?_) fun _ => handler none _
      refine Goes.expectIdentifier.bind fun name _ _ _ _ => ?_
      exact (Goes.declare name).bind fun _ _ _ _ _ => handler (some name) _
    split
    · exact .currentSpan (.unsupportedThen _ _ _)
    · exact rest
  · exact .pure trivial

theorem keeps_rescueTail (protected_ : Body) :
    Goes stream n (rescueTail expression protected_) s Anywhere := by
  unfold rescueTail
  refine (keeps_rescueClause he hr).bind fun clause s₁ _ _ _ => .currentSpan ?_
  refine (Goes.eats (ordinary_keyword (by decide))).bind fun others s₂ _ _ _ => ?_
  extract_lets jp
  have rest (otherwise : Option Body) (s : State) : Goes stream n (jp otherwise) s Anywhere := by
    refine .ifAt (fun _ => .currentSpan (.unsupportedThen _ _ _)) fun _ => ?_
    split
    · exact .pure trivial
    · split
      · exact .rejectAs _ _ _
      · exact .pure trivial
  split
  · exact (keeps_body he _).bind fun otherwise _ _ _ _ => rest (some otherwise) _
  · exact rest none _

end Protected

/-- A `begin` block: the word `rescue` after its statements is placed. -/
theorem goes_beginBlock {levels : Nat}
    (he : ∀ s, Goes stream n (Parse.expression levels) s (Ahead s))
    (hk : s.current.kind = .keyword .beginKw) :
    Goes stream n (beginBlock (Parse.expression levels)) s (Ahead s) := by
  unfold beginBlock
  refine .from_ fun hs _ => .currentSpan (.advance hk (ordinary_keyword (by decide)) fun lt => ?_)
  have opened : Opened stream beginEnds s.next := by
    refine .begin_ (hk ▸ hs.follows_next ?_)
    rw [hk]
    nofun
  refine (goes_body he beginEnds).bind fun protected_ s₁ _ m₁ h₁ => ?_
  have le₁ := m₁.le
  have tail : Goes stream n (rescueTail (Parse.expression levels) protected_) s₁ Anywhere :=
    keeps_rescueTail he (fun ht _ => .inr (.inr ⟨levels, beginEnds, _, s₁, opened, h₁ ht, rfl⟩)) _
  refine tail.bind fun form s₂ _ m₂ _ => (Goes.expect ordinary_end).bind fun _ s₃ _ _ h₃ => ?_
  have le₂ := m₂.le
  exact .previousSpan (.pure (by omega))

include he

/-! ## Conditionals and loops -/

theorem keeps_elseClause : Goes stream n (elseClause expression) s Anywhere := by
  unfold elseClause
  refine .ifEat (ordinary_keyword (by decide)) (fun _ _ => ?_) fun _ => .pure trivial
  exact (keeps_body he _).bind fun _ _ _ _ _ => .pure trivial

theorem goes_branch : Goes stream n (branch expression) s (Ahead s) := by
  unfold branch
  refine (he s).bind fun _ s₁ _ _ h₁ => keeps_skipThen.bind fun _ s₂ _ m₂ _ => ?_
  refine (keeps_body he _).bind fun _ s₃ _ m₃ _ => .pure ?_
  have le₂ := m₂.le
  have le₃ := m₃.le
  omega

theorem goes_ifBlock (hk : s.current.kind = .keyword .ifKw) :
    Goes stream n (ifBlock expression) s (Ahead s) := by
  unfold ifBlock
  refine .currentSpan (.advance hk (ordinary_keyword (by decide)) fun lt => ?_)
  refine (goes_branch he).bind fun first s₁ _ m₁ _ => ?_
  refine Goes.bind (Goes.repeatingKeeps fun done s => ?_) fun branches s₂ _ m₂ _ => ?_
  · refine .ifEat (ordinary_keyword (by decide)) (fun _ lt => ?_) fun _ => .pure trivial
    exact (goes_branch he).bind fun _ _ _ _ h => .pure ⟨Nat.lt_trans h lt, trivial⟩
  · refine (keeps_elseClause he).bind fun otherwise s₃ _ m₃ _ => ?_
    have le₁ := m₁.le
    have le₂ := m₂.le
    have le₃ := m₃.le
    exact goes_end (by omega)

theorem goes_unlessBlock (hk : s.current.kind = .keyword .unlessKw) :
    Goes stream n (unlessBlock expression) s (Ahead s) := by
  unfold unlessBlock
  refine .currentSpan (.advance hk (ordinary_keyword (by decide)) fun lt => ?_)
  refine (he _).bind fun _ s₁ _ _ h₁ => keeps_skipThen.bind fun _ s₂ _ m₂ _ => ?_
  refine (keeps_body he _).bind fun _ s₃ _ m₃ _ => ?_
  refine (keeps_elseClause he).bind fun _ s₄ _ m₄ _ => ?_
  have le₂ := m₂.le
  have le₃ := m₃.le
  have le₄ := m₄.le
  exact goes_end (by omega)

theorem goes_loopBlock {loop : LoopKind} {word : Keyword} (hk : s.current.kind = .keyword word)
    (hw : word ≠ .rescueKw) : Goes stream n (loopBlock expression loop) s (Ahead s) := by
  unfold loopBlock
  refine .currentSpan (.advance hk (ordinary_keyword hw) fun lt => ?_)
  have condition : Goes stream n (withDoBlocks false expression) s.next Anywhere :=
    .withDoBlocks ((he _).mono fun _ _ _ _ => trivial)
  have do_ (s : State) : Goes stream n (discard (eat (.keyword .doKw))) s Anywhere :=
    .eat (ordinary_keyword (by decide)) (fun _ _ => .pure trivial) fun _ => .pure trivial
  refine condition.bind fun _ s₁ _ m₁ _ => (do_ s₁).bind fun _ s₂ _ m₂ _ => ?_
  refine (keeps_body he _).bind fun _ s₃ _ m₃ _ => ?_
  have le₁ := m₁.le
  have le₂ := m₂.le
  have le₃ := m₃.le
  exact goes_end (by omega)

/-! ## Classes and modules -/

theorem keeps_namespaceBody : Goes stream n (namespaceBody expression) s Anywhere := by
  unfold namespaceBody
  refine Goes.bind (Q := Anywhere) (.inScope (keeps_body he _)) fun _ _ _ _ _ => ?_
  exact (Goes.expect ordinary_end).bind fun _ _ _ _ _ => .pure trivial

theorem goes_classBlock (hk : s.current.kind = .keyword .classKw) :
    Goes stream n (classBlock expression) s (Ahead s) := by
  unfold classBlock
  refine .currentSpan (.advance hk (ordinary_keyword (by decide)) fun lt => ?_)
  refine .ifAt (fun _ => .currentSpan (.unsupportedThen _ _ _)) fun _ => ?_
  refine Goes.expectConstant.bind fun name s₁ _ m₁ _ => ?_
  refine keeps_rejectScoped.bind fun _ s₂ _ m₂ _ => ?_
  have le₂ := Nat.le_trans m₂.le m₁.le
  refine (Goes.eats (ordinary_punct _)).bind fun less s₃ _ m₃ _ => ?_
  have le₃ := m₃.le
  extract_lets jp
  have rest (superclass : Option String) (s' : State) (h : s'.rest.length < s.rest.length) :
      Goes stream n (jp superclass) s' (Ahead s) := by
    refine (keeps_namespaceBody he).bind fun _ s₄ _ m₄ _ => .previousSpan (.pure ?_)
    exact Nat.lt_of_le_of_lt m₄.le h
  split
  · refine Goes.expectConstant.bind fun superclass s₄ _ m₄ _ => ?_
    refine keeps_rejectScoped.bind fun _ s₅ _ m₅ _ => rest (some superclass) _ ?_
    have le₅ := Nat.le_trans m₅.le m₄.le
    omega
  · exact rest none _ (by omega)

theorem goes_moduleBlock (hk : s.current.kind = .keyword .moduleKw) :
    Goes stream n (moduleBlock expression) s (Ahead s) := by
  unfold moduleBlock
  refine .currentSpan (.advance hk (ordinary_keyword (by decide)) fun lt => ?_)
  refine Goes.expectConstant.bind fun name s₁ _ m₁ _ => ?_
  refine keeps_rejectScoped.bind fun _ s₂ _ m₂ _ => ?_
  refine (keeps_namespaceBody he).bind fun _ s₃ _ m₃ _ => .previousSpan (.pure ?_)
  have le₁ := m₁.le
  have le₂ := m₂.le
  have le₃ := m₃.le
  omega

end Expressions

/-! ## Methods -/

theorem keeps_writerMark : Goes stream n writerMark s Anywhere := by
  unfold writerMark
  refine .at_ (.spaceBefore ?_)
  split
  · next h =>
    rw [Bool.and_eq_true, decide_eq_true_eq] at h
    exact .advance h.1 (ordinary_punct _) fun _ => .pure trivial
  · exact .pure trivial

/-- The name in a definition may be the word `rescue`. -/
theorem keeps_definedName
    (hp : s.current.kind = .keyword .rescueKw → Placed stream s.remaining) :
    Goes stream n definedName s Anywhere := by
  unfold definedName
  refine .from_ fun hs _ => .kind (.followingKind ?_)
  split
  · next name hk =>
    refine .advance hk ⟨nofun, nofun⟩ fun _ => ?_
    exact keeps_writerMark.bind fun _ _ _ _ _ => .pure trivial
  · next hk =>
    refine .advance hk (ordinary_punct _) fun _ => ?_
    refine (Goes.expect (ordinary_punct _)).bind fun _ _ _ _ _ => ?_
    exact keeps_writerMark.bind fun _ _ _ _ _ => .pure trivial
  · next hk hf =>
    refine .advance hk (ordinary_punct _) fun _ => ?_
    have hn : s.next.current.kind = .punct .greater := by
      rw [hs.current_next (by rw [hk]; nofun)]
      exact hf
    exact .advance hn (ordinary_punct _) fun _ => .pure trivial
  · split
    · next name hm =>
      refine .pass ?_ (fun _ => hp) fun _ => .pure trivial
      intro hk
      rw [hk] at hm
      cases hm
    · exact .reject _

theorem keeps_methodParams : Goes stream n methodParams s Anywhere := by
  unfold methodParams
  refine .ifEat (ordinary_punct _) (fun _ _ => ?_) fun _ => ?_
  · refine Goes.skipNewlines.bind fun _ s₁ _ _ _ => .at_ ?_
    extract_lets jp
    have rest (names : List Param) (s : State) : Goes stream n (jp names) s Anywhere := by
      refine Goes.skipNewlines.bind fun _ _ _ _ _ => ?_
      exact (Goes.expect (ordinary_punct _)).bind fun _ _ _ _ _ => .pure trivial
    split
    · exact rest [] _
    · exact (goes_params _).bind fun names _ _ _ _ => rest names _
  · refine .at_ (.at_ ?_)
    split
    · exact .pure trivial
    · exact (goes_params _).mono fun _ _ _ _ => trivial

/-- An owner is a name or `self` with a point after it. -/
theorem ordinary_owner {k k' : Token.Kind} (h : (owner? k k').isSome = true) :
    Ordinary k ∧ k' = .punct .dot := by
  unfold owner? at h
  split at h
  · exact ⟨ordinary_keyword (by decide), rfl⟩
  · exact ⟨⟨nofun, nofun⟩, rfl⟩
  · exact ⟨⟨nofun, nofun⟩, rfl⟩
  · cases h

section Methods

variable {levels : Nat} (he : ∀ s, Goes stream n (Parse.expression levels) s (Ahead s))

include he

/-- The word `rescue` after the statements of a method is placed. -/
theorem keeps_methodRest (start : Span) (owner : Option String) (name : String)
    (opens : ∀ params s', methodParams.run s = (some params, s') →
      Opened stream methodEnds s') :
    Goes stream n (methodRest (Parse.expression levels) start owner name) s Anywhere := by
  unfold methodRest
  refine keeps_methodParams.bind fun params s₁ hrun _ _ => ?_
  refine (goes_body he methodEnds).bind fun statements s₂ _ _ h₂ => .at_ (.at_ ?_)
  extract_lets jp
  have rest (statements : List Node) (s : State) : Goes stream n (jp statements) s Anywhere :=
    (Goes.expect ordinary_end).bind fun _ _ _ _ _ => .previousSpan (.pure trivial)
  split
  · have placed (ht : s₂.log.total = n) (_ : s₂.current.kind = .keyword .rescueKw) :
        Placed stream s₂.remaining :=
      .inr (.inr ⟨levels, methodEnds, s₁, s₂, opens params s₁ hrun, h₂ ht, rfl⟩)
    exact (keeps_rescueTail he placed _).bind fun _ _ _ _ _ => .previousSpan (rest _ _)
  · exact rest statements _

theorem goes_methodBlock (hk : s.current.kind = .keyword .defKw) :
    Goes stream n (methodBlock (Parse.expression levels)) s (Ahead s) := by
  unfold methodBlock
  refine .from_ fun hs _ => .currentSpan (.advance hk (ordinary_keyword (by decide)) fun lt => ?_)
  have follows : stream.Follows (.keyword .defKw) s.next.remaining := by
    refine hk ▸ hs.follows_next ?_
    rw [hk]
    nofun
  refine .kind (.followingKind ?_)
  extract_lets owner jp
  have rest (s' : State) (ha : s' = s.next.afterOwner) (hl : s'.rest.length < s.rest.length)
      (hp : s'.current.kind = .keyword .rescueKw → Placed stream s'.remaining) :
      Goes stream n (jp ()) s' (Ahead s) := by
    refine (keeps_definedName hp).bind fun name s₁ hrun m₁ _ => ?_
    have le₁ := m₁.le
    refine .inScope ((keeps_methodRest he _ _ _ fun params s₂ h => ?_).mono fun _ s₂ m₂ _ => ?_)
    · exact .method follows (ha ▸ hrun) h
    · exact Nat.lt_of_le_of_lt m₂.le (Nat.lt_of_le_of_lt le₁ hl)
  have after : s.next.afterOwner = if owner.isSome then s.next.next.next else s.next := rfl
  split
  · next ho =>
    obtain ⟨hk', hdot⟩ := ordinary_owner ho
    refine .from_ fun hs' _ => .advance rfl hk' fun lt' => .from_ fun hs'' _ => ?_
    have dot : s.next.next.current.kind = .punct .dot := by
      rw [hs'.current_next hk'.1]
      exact hdot
    refine .advance dot (ordinary_punct _) fun lt'' => rest _ ?_ (by omega) fun _ => .inl ?_
    · rw [after, if_pos ho]
    · refine dot ▸ hs''.follows_next ?_
      rw [dot]
      nofun
  · next ho =>
    rw [if_neg ho] at after
    exact rest _ after.symm lt fun _ => .inr (.inl follows)

end Methods

end ScriptCompiler.Parse
