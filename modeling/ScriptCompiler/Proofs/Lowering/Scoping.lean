import ScriptCompiler.Proofs.Lowering.Neat

/-!
# Scoping of generated code

Lowering makes neat code, whatever is nested in what: along a derivation every fragment is neat
where the receiver is visible, and the variable with the value of its node is visible after it.
-/

namespace ScriptCompiler.Lowering

open C

theorem mem_left {x : String} {visible : List String} {a b : Code}
    (h : x ∈ visible ++ bindsOf a.stmts) : x ∈ visible ++ bindsOf (a ++ b).stmts := by
  rw [Code.stmts_append, bindsOf_append, ← List.append_assoc]
  exact List.mem_append_left _ h

theorem mem_right {x : String} {visible : List String} {a b : Code}
    (h : x ∈ visible ++ bindsOf a.stmts ++ bindsOf b.stmts) :
    x ∈ visible ++ bindsOf (a ++ b).stmts := by
  rwa [Code.stmts_append, bindsOf_append, ← List.append_assoc]

/-- The functions of two pieces of code, each well scoped among its own. -/
theorem wellScoped_append {a b : List Function} (ha : ∀ f ∈ a, f.WellScoped a)
    (hb : ∀ f ∈ b, f.WellScoped b) : ∀ f ∈ a ++ b, f.WellScoped (a ++ b) := by
  intro f hf
  rcases List.mem_append.mp hf with hf | hf
  · exact (ha f hf).mono (List.subset_append_left a b)
  · exact (hb f hf).mono (List.subset_append_right a b)

/-- One more function beside well-scoped ones. -/
theorem wellScoped_concat {a : List Function} {f : Function} (ha : ∀ f ∈ a, f.WellScoped a)
    (hf : f.WellScoped (a ++ [f])) : ∀ g ∈ a ++ [f], g.WellScoped (a ++ [f]) := by
  intro g hg
  rcases List.mem_append.mp hg with hg | hg
  · exact (ha g hg).mono (List.subset_append_left a [f])
  · rwa [List.mem_singleton.mp hg]

theorem Code.append_assoc (a b c : Code) : a ++ b ++ c = a ++ (b ++ c) :=
  congrArg₂ Code.mk (List.append_assoc _ _ _) (List.append_assoc _ _ _)

mutual

/-- **A lowered node is neat**, and its variable is visible after it. -/
theorem Lowers.neat {ctx ctx' : Context} {node : Node} {frag : Fragment}
    (h : Lowers ctx node frag ctx') {visible : List String} (hs : "self" ∈ visible) :
    NeatCode ctx ctx' visible frag.code
      ∧ frag.result.text ∈ visible ++ bindsOf frag.code.stmts := by
  match h with
  | .leaf h =>
    obtain ⟨hu, hc⟩ := uses_leaf h hs
    refine ⟨.ofStmts (.declare (plainBase_of_leaf h) hu (by rw [hc]; nofun)), ?_⟩
    exact List.mem_append_right _ List.mem_cons_self
  | .selfRef => exact ⟨.ofStmts (.nil (.refl ctx)), List.mem_append_left _ hs⟩
  | .array elements =>
    have hb : plainBase "arr" = true := by decide
    have array : NeatCode ctx ctx.next visible
        (.ofStmts [.declare (ctx.variable_ "arr") .emptyArray]) :=
      .ofStmts (.declare hb (List.nil_subset _) nofun)
    have hv : (ctx.variable_ "arr").text ∈ visible ++ [(ctx.variable_ "arr").text] :=
      List.mem_append_right _ List.mem_cons_self
    exact ⟨array.append (elements.neat (List.mem_append_left _ hs) hv), mem_left hv⟩
  | .assign value =>
    obtain ⟨hn, hr⟩ := value.neat hs
    refine ⟨.imp (hn.append (.ofStmts (neat_storeStmt (List.mem_append_left _ hs) hr _)))
      fun _ hx => ?_, mem_left hr⟩
    exact hx.right (Context.lead_record _ _) (Context.counter_record _ _)
  | .namespace_ h body =>
    obtain ⟨hf, hp⟩ := (body.neat List.mem_cons_self).hoist (.nil .scoped) (ctx.name _) rfl
    refine ⟨.of hf (.after body.numbered.scope.skipped (neat_namespace h hp)), ?_⟩
    exact List.mem_append_right _ (List.mem_cons_of_mem _ List.mem_cons_self)
  | .methodDef placed body =>
    have hb : plainBase "sym" = true := by decide
    obtain ⟨hf, hp⟩ :=
      (body.neat List.mem_cons_self).hoist (opening_methodEntry _ _) (ctx.name _) rfl
    refine ⟨.of hf (.after body.numbered.scope.skipped ?_), ?_⟩
    · exact (neat_defineOn hs hp _ _).append (.declare hb (List.nil_subset _) nofun)
    · exact mem_right (List.mem_append_right _ List.mem_cons_self)
  | @Lowers.send _ _ _ _ _ _ _ _ _ _ before code passing rv vars stmts argv bn receiver args marshal
      block =>
    have hc : plainBase "call" = true := by decide
    obtain ⟨hr, hrv⟩ := receiver.neat hs
    have hs₁ := List.mem_append_left (bindsOf before.stmts) hs
    obtain ⟨ha, hav⟩ := args.neat hs₁
    have hs₂ := List.mem_append_left (bindsOf code.stmts) hs₁
    obtain ⟨hm, hmv⟩ := neat_marshal marshal hav
    have hs₃ := List.mem_append_left (bindsOf stmts) hs₂
    obtain ⟨hb, hbv⟩ := block.neat hs₃
    refine ⟨?_, mem_right (List.mem_append_right _ List.mem_cons_self)⟩
    simp only [Code.append_assoc]
    refine hr.append (ha.append (.append (.ofStmts hm) (hb.append (.ofStmts (.declare hc ?_ ?_)))))
    · refine uses_callOf (List.mem_append_left _ hs₃) ?_ ?_ _
      · intro v hv
        exact List.mem_append_left _ (List.mem_append_left _ (List.mem_append_left _ (hrv v hv)))
      · refine List.append_subset.mpr ⟨List.subset_append_of_subset_left _ hmv, ?_⟩
        cases bn with
        | none => exact List.nil_subset _
        | some n => exact List.cons_subset.mpr ⟨hbv n rfl, List.nil_subset _⟩
    · rw [calls_callOf]
      nofun
  | .conditional branches =>
    have hb : plainBase "if_result" = true := by decide
    have hv : (ctx.variable_ "if_result").text ∈ visible ++ [(ctx.variable_ "if_result").text] :=
      List.mem_append_right _ List.mem_cons_self
    refine ⟨.append (.ofStmts (.declare hb (List.nil_subset _) nofun)) ?_, mem_left hv⟩
    exact branches.neat (List.mem_append_left _ hs) hv
  | .loop body condition =>
    have hb : plainBase "nil" = true := by decide
    obtain ⟨hf, hp⟩ := (body.neat List.mem_cons_self).hoist (.nil .scoped) (ctx.name _) rfl
    obtain ⟨ht, hr⟩ := condition.neat hs
    refine ⟨.of (wellScoped_append hf ht.functions) (.after body.numbered.skipped ?_),
      mem_right (List.mem_append_right _ List.mem_cons_self)⟩
    refine .append (.forever (.append (ht.stmts.mono (List.subset_append_right _ _)) ?_))
      (.declare hb (List.nil_subset _) nofun)
    refine .append (a := [_]) (.line rfl rfl (List.cons_subset.mpr ⟨hr, List.nil_subset _⟩) nofun)
      (.line rfl rfl ?_ (calls_callHere (hp.mono (List.subset_append_left _ _))))
    exact List.cons_subset.mpr
      ⟨List.mem_append_left _ (List.mem_append_left _ hs), List.nil_subset _⟩
  | @Lowers.rescue _ ctx₁ _ _ _ _ _ _ _ _ _ _ _ body handler otherwise =>
    have hr : plainBase "begin_result" = true := by decide
    obtain ⟨hf, hp⟩ := (body.neat List.mem_cons_self).hoist (.nil .scoped) (ctx.name _) rfl
    obtain ⟨hf', hp'⟩ := (handler.neat List.mem_cons_self).hoist (.nil .scoped) (ctx₁.name _) rfl
    obtain ⟨hf'', hp''⟩ := otherwise.neat
    have numbered := ((body.numbered.skipped.trans handler.numbered.skipped).trans
      otherwise.numbered).skip
    refine ⟨.of (wellScoped_concat (wellScoped_append (wellScoped_append hf hf') hf'') ?_)
      (.after numbered (.declare hr ?_ (calls_callHere ?_))),
      mem_right (List.mem_append_right _ List.mem_cons_self)⟩
    · refine wellScoped_rescueWrapper ?_ ?_ ?_ _ _
      · exact hp.mono (List.subset_append_of_subset_left _ (List.subset_append_of_subset_left _
          (List.subset_append_left _ _)))
      · exact hp'.mono (List.subset_append_of_subset_left _ (List.subset_append_of_subset_left _
          (List.subset_append_right _ _)))
      · exact fun n hn => (hp'' n hn).mono (List.subset_append_of_subset_left _
          (List.subset_append_right _ _))
    · exact List.cons_subset.mpr ⟨hs, List.nil_subset _⟩
    · exact ⟨_, List.mem_append_right _ List.mem_cons_self, rfl, rfl⟩

theorem LowersBody.neat {ctx ctx' : Context} {nodes : Body} {code : Code}
    (h : LowersBody ctx nodes code ctx') {visible : List String} (hs : "self" ∈ visible) :
    NeatCode ctx ctx' visible code := by
  match h with
  | .nil => exact .ofStmts (.line rfl rfl (List.nil_subset _) nofun)
  | .last last =>
    obtain ⟨hn, hr⟩ := last.neat hs
    refine hn.append (.ofStmts (.line rfl rfl ?_ nofun))
    exact List.cons_subset.mpr ⟨hr, List.nil_subset _⟩
  | .cons first others =>
    obtain ⟨hn, hr⟩ := first.neat hs
    refine .append (hn.append (.ofStmts (.line rfl rfl ?_ nofun)))
      (others.neat (List.mem_append_left _ hs))
    exact List.cons_subset.mpr ⟨hr, List.nil_subset _⟩

theorem LowersElements.neat {ctx ctx' : Context} {array : Variable} {nodes : List Node}
    {code : Code} (h : LowersElements ctx array nodes code ctx') {visible : List String}
    (hs : "self" ∈ visible) (ha : array.text ∈ visible) : NeatCode ctx ctx' visible code := by
  match h with
  | .nil => exact .ofStmts (.nil (.refl ctx))
  | .cons first others =>
    obtain ⟨hn, hr⟩ := first.neat hs
    refine .append (hn.append (.ofStmts (.line rfl rfl ?_ nofun)))
      (others.neat (List.mem_append_left _ hs) (List.mem_append_left _ ha))
    exact List.cons_subset.mpr
      ⟨List.mem_append_left _ ha, List.cons_subset.mpr ⟨hr, List.nil_subset _⟩⟩

theorem LowersReceiver.neat {ctx ctx' : Context} {receiver : Option Node} {code : Code}
    {rv : Option Variable} (h : LowersReceiver ctx receiver code rv ctx') {visible : List String}
    (hs : "self" ∈ visible) :
    NeatCode ctx ctx' visible code
      ∧ ∀ v, rv = some v → v.text ∈ visible ++ bindsOf code.stmts := by
  match h with
  | .none => exact ⟨.ofStmts (.nil (.refl ctx)), nofun⟩
  | .some receiver =>
    obtain ⟨hn, hr⟩ := receiver.neat hs
    refine ⟨hn, ?_⟩
    rintro _ ⟨⟩
    exact hr

theorem LowersArgs.neat {ctx ctx' : Context} {nodes : List Node} {code : Code}
    {vars : List Variable} (h : LowersArgs ctx nodes code vars ctx') {visible : List String}
    (hs : "self" ∈ visible) :
    NeatCode ctx ctx' visible code ∧ ∀ v ∈ vars, v.text ∈ visible ++ bindsOf code.stmts := by
  match h with
  | .nil => exact ⟨.ofStmts (.nil (.refl ctx)), nofun⟩
  | .cons first others =>
    obtain ⟨hn, hr⟩ := first.neat hs
    obtain ⟨hns, hrs⟩ := others.neat (List.mem_append_left (bindsOf _) hs)
    refine ⟨hn.append hns, ?_⟩
    intro v hv
    rcases List.mem_cons.mp hv with rfl | hv
    · exact mem_left hr
    · exact mem_right (hrs v hv)

theorem LowersBlock.neat {ctx ctx' : Context} {block : Option Block} {code : Code}
    {bn : Option Name} (h : LowersBlock ctx block code bn ctx') {visible : List String}
    (hs : "self" ∈ visible) :
    NeatCode ctx ctx' visible code
      ∧ ∀ n, bn = some n → n.text ∈ visible ++ bindsOf code.stmts := by
  match h with
  | .none => exact ⟨.ofStmts (.nil (.refl ctx)), nofun⟩
  | .some placed body =>
    have hb : plainBase "blk" = true := by decide
    obtain ⟨hf, hp⟩ := (body.neat List.mem_cons_self).hoist (opening_blockEntry _) (ctx.name _) rfl
    refine ⟨⟨.after body.numbered.scope.skipped (.binding hb rfl rfl ?_ ?_), hf⟩, ?_⟩
    · exact List.cons_subset.mpr ⟨hs, List.nil_subset _⟩
    · intro ref hr
      rw [List.mem_singleton.mp hr]
      exact hp
    · rintro _ ⟨⟩
      exact List.mem_append_right _ List.mem_cons_self

theorem LowersBranches.neat {ctx ctx' : Context} {result : Variable}
    {otherwise : Option (List Node)} {branches : List Branch} {code : Code}
    (h : LowersBranches ctx result otherwise branches code ctx') {visible : List String}
    (hs : "self" ∈ visible) (hr : result.text ∈ visible) : NeatCode ctx ctx' visible code := by
  match h with
  | .nil otherwise => exact otherwise.neat hs hr
  | @LowersBranches.cons _ ctx₁ _ _ _ _ _ _ _ test _ _ condition body others =>
    obtain ⟨ht, hv⟩ := condition.neat hs
    obtain ⟨hf, hp⟩ := (body.neat List.mem_cons_self).hoist (.nil .scoped) (ctx₁.name _) rfl
    have hs' := List.mem_append_left (bindsOf test.code.stmts) hs
    have hr' := List.mem_append_left (bindsOf test.code.stmts) hr
    have ho := others.neat hs' hr'
    refine ⟨?_, wellScoped_append (wellScoped_append ht.functions hf) ho.functions⟩
    refine .append (ht.stmts.mono ?_) (.branch ?_ (.assignCall hs' hr' (hp.mono ?_))
      (.after body.numbered.skipped (ho.stmts.mono (List.subset_append_right _ _))))
    · exact List.subset_append_of_subset_left _ (List.subset_append_left _ _)
    · exact List.cons_subset.mpr ⟨hv, List.nil_subset _⟩
    · exact List.subset_append_of_subset_left _ (List.subset_append_right _ _)

theorem LowersOtherwise.neat {ctx ctx' : Context} {result : Variable}
    {otherwise : Option (List Node)} {code : Code}
    (h : LowersOtherwise ctx result otherwise code ctx') {visible : List String}
    (hs : "self" ∈ visible) (hr : result.text ∈ visible) : NeatCode ctx ctx' visible code := by
  match h with
  | .none => exact .ofStmts (.nil (.refl ctx))
  | .some body =>
    obtain ⟨hf, hp⟩ := (body.neat List.mem_cons_self).hoist (.nil .scoped) (ctx.name _) rfl
    exact ⟨.after body.numbered.skipped (.assignCall hs hr hp), hf⟩

theorem LowersElse.neat {ctx ctx' : Context} {otherwise : Option (List Node)}
    {functions : List Function} {name : Option Name}
    (h : LowersElse ctx otherwise functions name ctx') :
    (∀ f ∈ functions, f.WellScoped functions)
      ∧ ∀ n, name = some n → Provided functions (n, .scoped) := by
  match h with
  | .none => exact ⟨nofun, nofun⟩
  | .some body =>
    obtain ⟨hf, hp⟩ := (body.neat List.mem_cons_self).hoist (.nil .scoped) (ctx.name _) rfl
    refine ⟨hf, ?_⟩
    rintro _ ⟨⟩
    exact hp

end

end ScriptCompiler.Lowering
