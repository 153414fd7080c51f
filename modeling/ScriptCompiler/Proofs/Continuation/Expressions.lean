import ScriptCompiler.Proofs.Continuation.Definitions

/-!
# Expressions

Expressions bind what their nodes say, at every level of nesting: what an expression holds is parsed
one level below.
-/

namespace ScriptCompiler.Parse

open Bindings

variable {c : Continuation} {levels : Nat} {s : State}

/-! ## Operands -/

theorem solid_simple {k : Token.Kind} {form : Form} (h : simple? k = some form) : Solid k := by
  constructor <;> rintro rfl <;> cases h

theorem ofForm_simple {k : Token.Kind} {form : Form} (h : simple? k = some form) :
    ofForm form = [] := by
  cases k with
  | keyword word => cases word <;> cases h <;> rfl
  | _ => cases h <;> rfl

section Operands

variable (he : ∀ s, Reads c Firm (expression levels) s (Binds s ofNode))

include he

theorem reads_parenthesized (hk : s.current.kind = .punct .openParen) :
    Reads c Firm (parenthesized (expression levels)) s (Binds s ofNode) := by
  unfold parenthesized
  refine .currentSpan (by rw [hk]; nofun) (.advance hk (solid_punct _) ?_)
  refine (Shuts.bindLoose (Q := Binds s.next ofNode) (.withDoBlocks ?_) fun inner s₁ g₁ => ?_).reads
  · refine Reads.skipNewlines.bindLoose fun _ s₁ g₁ => ?_
    exact (reads_statement he).mono (fun _ => False.elim) fun _ s₂ g₂ => g₁.trans g₂
  · refine .bindLoose .skipNewlines fun _ s₂ g₂ => .expect (solid_punct _) fun _ => ?_
    have g := (((Gained.refl s).next.trans g₁).trans g₂).next
    obtain ⟨form, span⟩ := inner
    exact .previousSpan (.pure (g.congr fun b => by simp))

theorem reads_primary : Reads c Firm (primary (expression levels)) s (Binds s ofNode) := by
  refine (Shuts.of_ahead (goes_primary (goes_expression levels)) fun hk => ?_).reads
  unfold primary
  refine .currentSpan hk ?_
  extract_lets finish
  have finished {s' : State} (form : Form) (g : Gained s (ofForm form) s') :
      Reads c Firm (finish form) s' (Binds s ofNode) :=
    .previousSpan (.pure g)
  have start : Gained s [] s.next := (Gained.refl s).next
  refine .kind (fun h => absurd h hk) ?_
  split
  · next form hf =>
    exact .pass (solid_simple hf) (finished form ((ofForm_simple hf).symm ▸ start))
  split
  · next name hk =>
    refine .advance hk ⟨nofun, nofun⟩ (.isLocal (.atParenArgs fun paren _ => ?_))
    split
    · exact finished _ start
    · exact reads_call he none name start
  · next name hk =>
    refine .advance hk ⟨nofun, nofun⟩ (.atParenArgs fun paren _ => ?_)
    split
    · exact reads_call he none name start
    · exact finished _ start
  · next hk => exact .advance hk (solid_keyword _) (reads_call he none _ start)
  · next hk => exact .advance hk (solid_keyword _) (reads_call he none _ start)
  · next hk =>
    refine .advance hk (solid_punct _) ((reads_bracketedArgs he _).bind fun args s₁ g₁ => ?_)
    exact finished _ (start.trans g₁)
  · next hk => exact reads_parenthesized he hk
  · next hk => exact reads_ifBlock he hk
  · next hk => exact reads_unlessBlock he hk
  · next hk => exact reads_loopBlock he hk
  · next hk => exact reads_loopBlock he hk
  · next hk => exact reads_beginBlock he hk
  · next hk => exact reads_classBlock he hk
  · next hk => exact reads_moduleBlock he hk
  · next hk => exact reads_methodBlock he hk
  · exact .unsupported _ _ _
  · exact .unsupported _ _ _
  · exact .reject _

end Operands

/-! ## What follows an operand -/

theorem reads_scopedName : Reads c Firm scopedName s fun _ => Gained s [] := by
  unfold scopedName
  refine .kind (fun _ => rfl) ?_
  split
  · next name hk => exact .advance hk ⟨nofun, nofun⟩ (.pure (Gained.refl s).next)
  · next name hk => exact .advance hk ⟨nofun, nofun⟩ (.pure (Gained.refl s).next)
  · exact .reject _

theorem reads_calledName : Reads c Firm calledName s fun _ => Gained s [] := by
  unfold calledName
  refine .kind (fun _ => rfl) ?_
  split
  · next name hm =>
    refine .pass ?_ (.pure (Gained.refl s).next)
    constructor <;> intro hk <;> rw [hk] at hm <;> cases hm
  · exact .reject _

theorem run_postfixRound_end {expression : Parser Node} (node : Node)
    (hk : s.current.kind = .endOfInput) :
    (postfixRound expression node).run s = (some (.done node), s) := by
  unfold postfixRound
  extract_lets finish
  rw [run_kind, hk]
  rfl

/-- At the end of the text the second parser sees the break, and behind it no point. -/
theorem reads_lastRound (node : Node) (hk : s.current.kind = .endOfInput) {s₀ : State}
    (g : Gained s₀ (ofNode node) s) :
    Reads c Firm (postfixRound (expression levels) node) s
      (Round.Then (fun node => Gained s₀ (ofNode node)) (Binds s₀ ofNode)) := by
  intro hs _ _ hr
  cases (run_postfixRound_end node hk).symm.trans hr
  refine ⟨.refl s, g, fun _ _ t ht => ⟨t, ?_, ht⟩⟩
  unfold postfixRound
  extract_lets finish
  rw [run_kind, ht.kind_of_end hs hk]
  show ((if t.following.kind = .punct .dot then _ else _ : Parser (Round Node Node)).run t) = _
  rw [ht.following_of_end hs hk, if_neg c.starts.2]
  rfl

/-- A call goes on over a line break if a point comes behind it. -/
theorem reads_newlineRound (node : Node) (hn : s.current.kind = .newline) {s₀ : State}
    (g : Gained s₀ (ofNode node) s) :
    Reads c Firm (postfixRound (expression levels) node) s
      (Round.Then (fun node => Gained s₀ (ofNode node)) (Binds s₀ ofNode)) := by
  unfold postfixRound
  refine .from_ fun hs => .kind (fun hk => by rw [hn] at hk; cases hk) ?_
  rw [hn]
  refine .followingKind (fun t ht => by simp only [ht.following_dot hn]) ?_
  split
  · next hf =>
    have passed : Reads c Firm advance s fun _ s' => s' = s.next := by
      refine Reads.going (.advance_ (by rw [hn]; nofun) fun _ => False.elim) ?_
      rintro _ _ rfl
      rw [hs.current_next (by rw [hn]; nofun), hf]
      nofun
    refine passed.bind ?_
    rintro _ _ rfl
    exact .pure g.next
  · exact .pure g

section Expressions

variable (he : ∀ s, Reads c Firm (expression levels) s (Binds s ofNode))

include he

theorem reads_postfixRound (node : Node) {s₀ : State} (g : Gained s₀ (ofNode node) s) :
    Reads c Firm (postfixRound (expression levels) node) s
      (Round.Then (fun node => Gained s₀ (ofNode node)) (Binds s₀ ofNode)) := by
  by_cases hk : s.current.kind = .endOfInput
  · exact reads_lastRound node hk g
  by_cases hn : s.current.kind = .newline
  · exact reads_newlineRound node hn g
  unfold postfixRound
  extract_lets finish
  have finished {s' : State} (form : Form) (g : Gained s₀ (ofForm form) s') :
      Reads c Firm (finish form) s'
        (Round.Then (fun node => Gained s₀ (ofNode node)) (Binds s₀ ofNode)) :=
    .previousSpan (.pure g)
  have called {s' : State} (name : String) (g : Gained s₀ (ofNode node) s') :
      Reads c Firm (do return .again (← call (expression levels) (some node) name) :
        Parser (Round Node Node)) s'
        (Round.Then (fun node => Gained s₀ (ofNode node)) (Binds s₀ ofNode)) :=
    (reads_call he (some node) name g).bind fun _ _ g => .pure g
  refine .kind (fun h => absurd h hk) ?_
  split
  · next hk =>
    refine .advance hk (solid_punct _) (reads_calledName.bind fun name s₁ g₁ => called name ?_)
    exact (g.next.trans g₁).congr fun b => by simp
  · next h => exact absurd h hn
  · next hk =>
    refine .advance hk (solid_punct _) (reads_scopedName.bind fun name s₁ g₁ => ?_)
    replace g := g.next.trans g₁
    refine .atParenArgs fun paren _ => ?_
    split
    · exact finished _ (g.congr fun b => by simp)
    · exact called name (g.congr fun b => by simp)
  · next hk =>
    refine .spaceBefore ?_
    split
    · exact .pure g
    · refine .advance hk (solid_punct _) ((reads_bracketedArgs he _).bind fun args s₁ g₁ => ?_)
      exact finished _ (g.next.trans g₁)
  · exact .pure g

theorem reads_postfixOf (node : Node) {s₀ : State} (g : Gained s₀ (ofNode node) s) :
    Reads c Firm (postfixOf (expression levels) node) s (Binds s₀ ofNode) :=
  .repeating (fun node _ g => reads_postfixRound he node g) g

/-! ## Operators -/

omit he in
theorem ofNode_applySigns (signs : List (String × Span)) (operand : Node) :
    ofNode (applySigns signs operand) = ofNode operand := by
  induction signs generalizing operand with
  | nil => rfl
  | cons sign signs ih => simp [applySigns, ih]

theorem reads_unary : Reads c Firm (unary (expression levels)) s (Binds s ofNode) := by
  unfold unary
  refine .repeating (I := fun _ => Gained s []) (fun signs s' g => ?_) (.refl s)
  refine .currentSpanAsks (fun _ => ?_) (.kind (fun _ => rfl) ?_)
  · exact Asks.kind (Asks.of_ahead (goes_primary (goes_expression levels))).bind
  split
  · next hk =>
    refine .advance hk (solid_punct _) (.kind (fun _ => rfl) ?_)
    split
    · next value hv =>
      refine .advance hv ⟨nofun, nofun⟩ (.previousSpan ?_)
      have literal {span : Span} : Gained s (ofNode ⟨.integer (-value), span⟩) s'.next.next :=
        g.next.next
      refine (reads_postfixOf he _ literal).bind fun node s₁ g₁ => .pure ?_
      exact g₁.congr fun b => by rw [ofNode_applySigns]
    · exact .pure g.next
  · next hk => exact .advance hk (solid_punct _) (.pure g.next)
  · exact .unsupported _ _ _
  · refine (reads_primary he).bind fun operand s₁ g₁ => ?_
    refine (reads_postfixOf he operand (g.trans g₁)).bind fun node s₂ g₂ => .pure ?_
    exact g₂.congr fun b => by rw [ofNode_applySigns]

omit he in
theorem reads_leftGrouped {operand : Parser Node} (ops : List Punct)
    (ho : ∀ s, Reads c Firm operand s (Binds s ofNode)) :
    Reads c Firm (leftGrouped ops operand) s (Binds s ofNode) := by
  unfold leftGrouped
  refine (ho s).bind fun left s₁ g₁ => ?_
  refine .repeating (I := fun left => Gained s (ofNode left)) (fun left s' g => ?_) g₁
  refine .kind (fun _ => rfl) ?_
  split
  · next mark hk =>
    split
    · refine .advance hk (solid_punct _) ((ho _).bind fun right s₂ g₂ => .pure ?_)
      exact (g.next.trans g₂).congr fun b => by simp [binary]
    · exact .pure g
  · exact .pure g

omit he in
/-- Operators of several ranks, from the tightest to the loosest. -/
theorem reads_foldl_leftGrouped (ranks : List (List Punct)) {operand : Parser Node}
    (ho : ∀ s, Reads c Firm operand s (Binds s ofNode)) :
    Reads c Firm (ranks.foldl (fun operand ops => leftGrouped ops operand) operand) s
      (Binds s ofNode) := by
  induction ranks generalizing operand with
  | nil => exact ho s
  | cons ops ranks ih => exact ih fun _ => reads_leftGrouped ops ho

theorem reads_logical : Reads c Firm (logical (expression levels)) s (Binds s ofNode) := by
  unfold logical
  refine (reads_foldl_leftGrouped ranks fun _ => reads_unary he).bind fun left s₁ g₁ => ?_
  refine .kind (fun _ => by simp [isLogical]) ?_
  split
  · next hl =>
    refine .currentSpan (fun hk => ?_) (.unsupported _ _ _)
    rw [hk] at hl
    cases hl
  · exact .pure g₁

/-! ## Assignment -/

theorem shuts_assignTo (target : Target) {current : Node} (hc : ofNode current = [])
    (how : Assignment) (start : Span) {s₀ : State} (g : Gained s₀ (ofTarget target) s) :
    Shuts c Firm (assignTo (expression levels) target current how start) s (Binds s₀ ofNode) := by
  unfold assignTo
  refine .bindLoose .skipNewlines fun _ s₁ g₁ => ?_
  refine .bind ⟨he s₁, .of_ahead (goes_expression levels s₁)⟩ fun right s₂ g₂ => ?_
  replace g := (g.trans g₁).trans g₂
  cases how with
  | plain => exact .previousSpan (.pure (g.congr fun b => by simp [or_comm]))
  | compound op => exact .previousSpan (.pure (g.congr fun b => by simp [binary, hc, or_comm]))

omit he in
theorem solid_assignment {k : Token.Kind} {how : Assignment} (h : assignment? k = some how) :
    Solid k := by
  constructor <;> rintro rfl <;> cases h

omit he in
/-- An expression that names a variable binds nothing itself, and of the variables that it may name
only those with a capital first letter are no part of a receiver. -/
theorem target_names {form : Form} {target : Target} (h : target? form = some target) :
    ofForm form = [] ∧ (ofTarget target = [] ∨
      ∃ name, target = .localVar name ∧ Token.startsUpper name = true) := by
  unfold target? at h
  split at h
  · cases h
    exact ⟨rfl, .inl rfl⟩
  · cases h
    exact ⟨rfl, .inl rfl⟩
  · split at h
    · next upper =>
      cases h
      exact ⟨rfl, .inr ⟨_, rfl, upper⟩⟩
    · cases h
  · cases h

omit he in
theorem reader_binds {form : Form} {receiver : Node} {name : String} {args : List Node}
    (h : reader? form = some (receiver, name, args)) :
    ofForm form = ofNode receiver ++ ofNodes args := by
  unfold reader? at h
  split at h
  · split at h
    · cases h
      rfl
    · cases h
  · cases h

theorem reads_assignExpression {how : Assignment} (hk : assignment? s.current.kind = some how)
    (start : Span) (left : Node) {s₀ : State} (g : Gained s₀ (ofNode left) s) :
    Reads c Firm (assignExpression (expression levels) start left how) s (Binds s₀ ofNode) := by
  have solid := solid_assignment hk
  obtain ⟨form, span⟩ := left
  unfold assignExpression
  refine .currentSpan solid.2 (.pass solid ?_)
  split
  · next target ht =>
    obtain ⟨none, named⟩ := target_names ht
    refine (shuts_assignTo he target (by simpa using none) how start ?_).reads
    have unbound : Gained s₀ [] s.next := (g.congr fun b => by simp [none]).next
    rcases named with plain | ⟨name, rfl, upper⟩
    · exact plain.symm ▸ unbound
    · exact unbound.capital upper
  · split
    · next receiver name args hr =>
      refine (he _).bind fun value s₁ g₁ => .previousSpan (.pure ?_)
      exact (g.next.trans g₁).congr fun b => by
        simp [reader_binds hr, mem_ofNodes, or_and_right, exists_or]
    · split
      · exact .unsupported _ _ _
      · exact .reject _

omit he in
/-- A local variable is assigned where an identifier comes before a mark of assignment. -/
theorem solid_localAssignment {k k' : Token.Kind} {name : String} {how : Assignment}
    (h : localAssignment? k k' = some (name, how)) : Solid k ∧ Solid k' := by
  unfold localAssignment? at h
  split at h
  · split at h
    · cases h
    · obtain ⟨_, ha, -⟩ := Option.map_eq_some_iff.mp h
      exact ⟨⟨nofun, nofun⟩, solid_assignment ha⟩
  · cases h

theorem reads_assignment : Reads c Firm (assignment (expression levels)) s (Binds s ofNode) := by
  refine (Shuts.of_ahead (goes_assignment (goes_expression levels)) fun hk => ?_).reads
  unfold assignment
  refine .from_ fun hs => .currentSpan hk (.kind (fun h => absurd h hk) ?_)
  refine .followingKind (fun t ht => ?_) ?_
  · have same := ht.ahead (g := localAssignment?) (by rintro _ _ _ (rfl | rfl) <;> rfl) fun k => by
      cases k <;> rfl
    rw [same]
  split
  · next name how ha =>
    obtain ⟨solid, solid'⟩ := solid_localAssignment ha
    refine .pass solid (.pass (hs.current_next solid.2 ▸ solid') (.declare ?_))
    refine (shuts_assignTo he (.localVar name) rfl how _ ?_).reads
    exact (Gained.refl s).next.next.bind (.assigned name)
  · refine (reads_logical he).bind fun left s₁ g₁ => .kind (fun _ => rfl) ?_
    split
    · next how ha => exact reads_assignExpression he ha _ _ g₁
    · exact .pure g₁

end Expressions

/-- **An expression binds what its node says**, and does not depend on the line after the text. -/
theorem reads_expression (levels : Nat) (s : State) :
    Reads c Firm (expression levels) s (Binds s ofNode) := by
  induction levels generalizing s with
  | zero => exact .from_ fun _ => .of_none rfl
  | succ levels ih => exact reads_assignment ih

end ScriptCompiler.Parse
