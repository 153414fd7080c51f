import ScriptCompiler.Proofs.Continuation.Calls

/-!
# Definitions and control flow

What reserved words open binds what the nodes say, if the expressions in it do. The bodies of
classes, modules and methods bind nothing outside.
-/

namespace ScriptCompiler.Parse

open Bindings

variable {c : Continuation} {levels : Nat} {s : State}

theorem reads_skipThen : Reads c Loose skipThen s fun _ => Gained s [] := by
  unfold skipThen
  refine Reads.skipNewlines.bindLoose fun _ s₁ g₁ => ?_
  refine .ifEat (solid_keyword _) (fun _ => ?_) fun _ => ?_
  · exact Reads.skipNewlines.mono (fun _ => id) fun _ s₂ g₂ => g₁.next.trans g₂
  · exact .pure g₁

theorem reads_rejectScoped : Reads c Firm rejectScoped s fun _ s' => s' = s := by
  unfold rejectScoped
  exact .ifAt (solid_punct _) (fun _ => .of_none rfl) fun _ => .pure rfl

theorem mem_ofForm_sequence (body : Body) (b : Binding) :
    b ∈ ofForm (sequence body) ↔ b ∈ ofNodes body := by
  match body with
  | [] => simp [sequence]
  | [⟨form, span⟩] => simp [sequence]
  | _ :: _ :: _ => simp [sequence, Node.synthetic]

/-- The bindings of a clause that handles an exception. -/
def ofClause : Option (Option String × Body) → List Binding
  | none => []
  | some (variable_, handler) => variable_.toList.map .caught ++ ofNodes handler

section Expressions

variable (he : ∀ s, Reads c Firm (expression levels) s (Binds s ofNode))

include he

/-! ## Protected bodies -/

theorem reads_rescueClause :
    Reads c Loose (rescueClause (expression levels)) s (Binds s ofClause) := by
  unfold rescueClause
  refine .ifEat (solid_keyword _) (fun _ => ?_) fun _ => .pure (.refl s)
  refine .kindLoose ?_
  extract_lets jp jp'
  have handler (variable_ : Option String) (s₁ : State)
      (g : Gained s (variable_.toList.map .caught) s₁) :
      Reads c Loose (jp variable_) s₁ (Binds s ofClause) := by
    refine (reads_body he _).bindLoose fun handler s₂ g₂ => ?_
    refine .ifAt (solid_keyword _) (fun _ => .of_none rfl) fun _ => .pure (g.trans g₂)
  have rest : Reads c Loose (jp' ()) s.next (Binds s ofClause) := by
    have start : Gained s [] s.next := (Gained.refl s).next
    refine .ifEat (solid_punct _) (fun _ => ?_) fun _ => handler none _ start
    refine .expectIdentifier fun name => .declare (handler (some name) _ ?_)
    exact start.next.next.bind (.caught name)
  split
  · exact .of_none rfl
  · exact rest

theorem reads_rescueTail (protected_ : Body) {s₀ : State} (g : Gained s₀ (ofNodes protected_) s) :
    Reads c Loose (rescueTail (expression levels) protected_) s (Binds s₀ ofForm) := by
  unfold rescueTail
  refine (reads_rescueClause he).bindLoose fun clause s₁ g₁ => .currentSpanLoose ?_
  refine (Reads.eats (solid_keyword _)).loose.bindLoose fun others s₂ g₂ => ?_
  replace g := (g.trans g₁).trans g₂
  extract_lets jp
  have rest (otherwise : Option Body) (s₃ : State) (g₃ : Gained s₂ (ofOptional otherwise) s₃) :
      Reads c Loose (jp otherwise) s₃ (Binds s₀ ofForm) := by
    replace g := g.trans g₃
    refine .ifAt (solid_keyword _) (fun _ => .of_none rfl) fun _ => ?_
    split
    · exact .pure (g.congr fun b => by simp [ofClause])
    · split
      · exact .reject _
      · next h =>
        obtain rfl : otherwise = none := by simpa using h
        exact .pure (g.congr fun b => by simp [ofClause, mem_ofForm_sequence])
  split
  · exact (reads_body he _).bindLoose fun otherwise s₃ g₃ => rest (some otherwise) _ g₃
  · exact rest none _ (.refl s₂)

omit he in
/-- The word that ends a construct. -/
theorem reads_end {s₀ : State} {form : Form} {make : Span → Span} (g : Gained s₀ (ofForm form) s) :
    Shuts c Firm (do expect (.keyword .endKw); return (⟨form, make (← previousSpan)⟩ : Node)) s
      (Binds s₀ ofNode) :=
  .expect (solid_keyword _) fun _ => .previousSpan (.pure g.next)

theorem reads_beginBlock (hk : s.current.kind = .keyword .beginKw) :
    Reads c Firm (beginBlock (expression levels)) s (Binds s ofNode) := by
  unfold beginBlock
  refine .currentSpan (by rw [hk]; nofun) (.advance hk (solid_keyword _) ?_)
  refine (Shuts.bindLoose (reads_body he _) fun protected_ s₁ g₁ => ?_).reads
  have g : Gained s (ofNodes protected_) s₁ := (Gained.refl s).next.trans g₁
  exact .bindLoose (reads_rescueTail he protected_ g) fun form s₂ g₂ => reads_end g₂

/-! ## Conditionals and loops -/

theorem reads_elseClause :
    Reads c Loose (elseClause (expression levels)) s (Binds s ofOptional) := by
  unfold elseClause
  refine .ifEat (solid_keyword _) (fun _ => ?_) fun _ => .pure (.refl s)
  exact (reads_body he _).bindLoose fun _ _ g => .pure ((Gained.refl s).next.trans g)

theorem reads_branch :
    Reads c Loose (branch (expression levels)) s (Binds s fun b => ofBranches [b]) := by
  unfold branch
  refine (he s).loose.bindLoose fun condition s₁ g₁ => reads_skipThen.bindLoose fun _ s₂ g₂ => ?_
  refine (reads_body he _).bindLoose fun statements s₃ g₃ => .pure ?_
  exact ((g₁.trans g₂).trans g₃).congr fun b => by simp

theorem reads_ifBlock (hk : s.current.kind = .keyword .ifKw) :
    Reads c Firm (ifBlock (expression levels)) s (Binds s ofNode) := by
  unfold ifBlock
  refine .currentSpan (by rw [hk]; nofun) (.advance hk (solid_keyword _) ?_)
  refine (Shuts.bindLoose (reads_branch he) fun first s₁ g₁ => ?_).reads
  have start : Gained s (ofBranches [first]) s₁ := (Gained.refl s).next.trans g₁
  refine .bindLoose (Q := Binds s ofBranches) (.repeatingLoose
    (I := fun done => Gained s (ofBranches done)) (fun done s' g => ?_) start)
    fun branches s₂ g₂ => ?_
  · refine .ifEat (solid_keyword _) (fun _ => ?_) fun _ => .pure ?_
    · refine (reads_branch he).bindLoose fun b s'' g'' => .pure ?_
      exact (g.next.trans g'').congr fun b => by simp [mem_ofBranches, or_comm]
    · exact g.congr fun b => by simp [mem_ofBranches]
  · refine .bindLoose (reads_elseClause he) fun otherwise s₃ g₃ => reads_end ?_
    exact g₂.trans g₃

theorem reads_unlessBlock (hk : s.current.kind = .keyword .unlessKw) :
    Reads c Firm (unlessBlock (expression levels)) s (Binds s ofNode) := by
  unfold unlessBlock
  refine .currentSpan (by rw [hk]; nofun) (.advance hk (solid_keyword _) ?_)
  refine (Shuts.bindLoose (he _).loose fun condition s₁ g₁ => ?_).reads
  refine .bindLoose reads_skipThen fun _ s₂ g₂ => ?_
  refine .bindLoose (reads_body he _) fun statements s₃ g₃ => ?_
  refine .bindLoose (reads_elseClause he) fun otherwise s₄ g₄ => ?_
  refine .expect (solid_keyword _) fun _ => .previousSpan (.pure ?_)
  have g := (((((Gained.refl s).next.trans g₁).trans g₂).trans g₃).trans g₄).next
  exact g.congr fun b => by simp [negate]

theorem reads_loopBlock {loop : LoopKind} {word : Keyword} (hk : s.current.kind = .keyword word) :
    Reads c Firm (loopBlock (expression levels) loop) s (Binds s ofNode) := by
  unfold loopBlock
  refine .currentSpan (by rw [hk]; nofun) (.advance hk (solid_keyword _) ?_)
  refine (Shuts.bindLoose (.withDoBlocks (he _).loose) fun condition s₁ g₁ => ?_).reads
  have do_ : Reads c Loose (discard (eat (.keyword .doKw))) s₁ fun _ => Gained s₁ [] :=
    .eat (solid_keyword _) (fun _ => .pure (Gained.refl _).next) fun _ => .pure (.refl _)
  refine .bindLoose do_ fun _ s₂ g₂ => .bindLoose (reads_body he _) fun statements s₃ g₃ => ?_
  refine reads_end ?_
  have g := (((Gained.refl s).next.trans g₁).trans g₂).trans g₃
  exact g.congr fun b => by simp [or_comm]

/-! ## Classes and modules -/

theorem reads_namespaceBody :
    Reads c Firm (namespaceBody (expression levels)) s fun _ => Gained s [] := by
  unfold namespaceBody
  have inside (s' : State) :
      Reads c Loose (body (expression levels) [.keyword .endKw]) s' fun _ _ =>
        ([] : List Binding) = [] :=
    (reads_body he _).mono (fun _ => id) fun _ _ _ => rfl
  refine (Shuts.bindLoose (.inScope (inside _)) fun _ s₁ g₁ => ?_).reads
  exact .expect (solid_keyword _) fun _ => .pure g₁.next

theorem reads_classBlock (hk : s.current.kind = .keyword .classKw) :
    Reads c Firm (classBlock (expression levels)) s (Binds s ofNode) := by
  unfold classBlock
  refine .currentSpan (by rw [hk]; nofun) (.advance hk (solid_keyword _) ?_)
  refine .ifAt (solid_punct _) (fun _ => .of_none rfl) fun _ => ?_
  refine .expectConstant fun name => reads_rejectScoped.bind ?_
  rintro _ _ rfl
  refine (Reads.eats (solid_punct _)).bind fun less s₁ g₁ => ?_
  replace g₁ : Gained s [] s₁ := (Gained.refl s).next.next.trans g₁
  extract_lets jp
  have rest (superclass : Option String) (s' : State) (g : Gained s [] s') :
      Reads c Firm (jp superclass) s' (Binds s ofNode) :=
    (reads_namespaceBody he).bind fun _ s₂ g₂ => .previousSpan (.pure (g.trans g₂))
  split
  · refine .expectConstant fun superclass => reads_rejectScoped.bind ?_
    rintro _ _ rfl
    exact rest (some superclass) _ g₁.next
  · exact rest none _ g₁

theorem reads_moduleBlock (hk : s.current.kind = .keyword .moduleKw) :
    Reads c Firm (moduleBlock (expression levels)) s (Binds s ofNode) := by
  unfold moduleBlock
  refine .currentSpan (by rw [hk]; nofun) (.advance hk (solid_keyword _) ?_)
  refine .expectConstant fun name => reads_rejectScoped.bind ?_
  rintro _ _ rfl
  refine (reads_namespaceBody he).bind fun _ s₁ g₁ => .previousSpan (.pure ?_)
  exact (Gained.refl s).next.next.trans g₁

end Expressions

/-! ## Methods -/

theorem reads_writerMark : Reads c Firm writerMark s fun _ => Gained s [] := by
  unfold writerMark
  refine .at_ (solid_punct _) (.spaceBefore ?_)
  split
  · next h =>
    rw [Bool.and_eq_true, decide_eq_true_eq] at h
    exact .advance h.1 (solid_punct _) (.pure (Gained.refl s).next)
  · exact .pure (.refl s)

theorem reads_definedName : Reads c Firm definedName s fun _ => Gained s [] := by
  unfold definedName
  refine .from_ fun hs => .kind (fun _ => rfl) (.followingKind (fun t ht => ?_) ?_)
  · by_cases hk : s.current.kind = .punct .lessEqual
    · rcases (ht.following (by rw [hk]; nofun) (by rw [hk]; nofun)).2 with same | ⟨hs, ht⟩
      · rw [same]
      · rw [hk, hs, ht]
    · -- only behind that mark it matters what comes next
      generalize s.current.kind = k at hk ⊢
      cases k with
      | punct mark => cases mark <;> first | rfl | exact absurd rfl hk
      | _ => rfl
  · have start : Gained s [] s.next := (Gained.refl s).next
    split
    · next name hk =>
      exact .advance hk ⟨nofun, nofun⟩ (reads_writerMark.bind fun _ _ g => .pure (start.trans g))
    · next hk =>
      refine .advance hk (solid_punct _) (.expect (solid_punct _) fun _ => ?_)
      exact reads_writerMark.bind fun _ _ g => .pure (start.next.trans g)
    · next hk hf =>
      have hn : s.next.current.kind = .punct .greater := by
        rw [hs.current_next (by rw [hk]; nofun)]
        exact hf
      exact .advance hk (solid_punct _) (.advance hn (solid_punct _) (.pure start.next))
    · split
      · next name hm =>
        refine .pass ?_ (.pure start)
        constructor <;> intro hk <;> rw [hk] at hm <;> cases hm
      · exact .reject _

theorem reads_methodParams : Reads c Loose methodParams s Anywhere := by
  unfold methodParams atEnd
  refine .ifEat (solid_punct _) (fun _ => ?_) fun _ => ?_
  · refine Reads.skipNewlines.bindLoose fun _ s₁ _ => .at_ (solid_punct _) ?_
    extract_lets jp
    have rest (names : List Param) (s' : State) : Reads c Loose (jp names) s' Anywhere :=
      Reads.skipNewlines.bindLoose fun _ _ _ => .expect (solid_punct _) fun _ => .pure trivial
    split
    · exact rest [] _
    · exact (reads_params _).bindLoose fun names _ _ => rest names _
  · refine .atLoose (.atLoose ?_)
    split
    · exact .pure trivial
    · exact reads_params _

theorem solid_owner {k k' : Token.Kind} (h : (owner? k k').isSome = true) :
    Solid k ∧ k' = .punct .dot := by
  obtain ⟨hk, hdot⟩ := ordinary_owner h
  refine ⟨⟨?_, hk.1⟩, hdot⟩
  rintro rfl
  cases h

section Methods

variable (he : ∀ s, Reads c Firm (expression levels) s (Binds s ofNode))

include he

theorem reads_methodRest (start : Span) (owner : Option String) (name : String) :
    Reads c Firm (methodRest (expression levels) start owner name) s fun node _ =>
      ofNode node = [] := by
  unfold methodRest
  refine (Shuts.bindLoose reads_methodParams fun params s₁ _ => ?_).reads
  refine .bindLoose (reads_body he _) fun statements s₂ g₂ => ?_
  refine .at_ (solid_keyword _) fun _ => .at_ (solid_keyword _) fun _ => ?_
  extract_lets jp
  have rest (statements : List Node) (s' : State) :
      Shuts c Firm (jp statements) s' fun node _ => ofNode node = [] :=
    .expect (solid_keyword _) fun _ => .previousSpan (.pure rfl)
  split
  · refine .bindLoose (reads_rescueTail he statements g₂) fun form s₃ _ => ?_
    exact ⟨.previousSpan (rest _ _).reads, (rest _ _).asks⟩
  · exact rest statements _

theorem reads_methodBlock (hk : s.current.kind = .keyword .defKw) :
    Reads c Firm (methodBlock (expression levels)) s (Binds s ofNode) := by
  unfold methodBlock
  refine .currentSpan (by rw [hk]; nofun) (.advance hk (solid_keyword _) ?_)
  refine .from_ fun hs => .kind (fun _ => rfl) (.followingKind (fun t ht => ?_) ?_)
  · have same := ht.ahead (g := owner?) (by rintro _ _ _ (rfl | rfl) <;> rfl) fun _ => by
      unfold owner?
      split <;> simp_all
    rw [same]
  extract_lets owner jp
  have rest (s' : State) (g : Gained s [] s') : Reads c Firm (jp ()) s' (Binds s ofNode) := by
    refine reads_definedName.bind fun name s₁ g₁ => ?_
    refine (Reads.inScope (reads_methodRest he _ _ _)).mono (fun _ => id) fun _ s₂ g₂ => ?_
    exact (g.trans g₁).trans g₂
  have start : Gained s [] s.next := (Gained.refl s).next
  split
  · next ho =>
    -- the owner and the point
    obtain ⟨solid, hdot⟩ := solid_owner ho
    have dot : s.next.next.current.kind = .punct .dot := by
      rw [hs.current_next solid.2]
      exact hdot
    exact .pass solid (.advance dot (solid_punct _) (rest _ start.next.next))
  · exact rest _ start

end Methods

end ScriptCompiler.Parse
