import ScriptCompiler.Proofs.Resolution.Traces
import ScriptCompiler.Proofs.Syntax.Trees

/-!
# Where identifiers stand in a tree

An identifier that a tree is read from as a local variable is a node of it, and so is one that is a
message without a receiver.
-/

namespace ScriptCompiler.Resolution

open Parse

/-- The form is what an identifier becomes that is read or called. A directive is a call that names
a file. -/
def Shows (form : Form) (m : Mention) : Role → Prop
  | .read => form = .localVar m.name
  | .called => (∃ args block, form = .send none m.name args block)
      ∨ ∃ kind path, m.name = kind.text ∧ form = .directive kind path
  | .bound | .named => True

/-- Somewhere in the node stands what an identifier becomes. -/
def ShownInside (node : Node) (m : Mention) (role : Role) : Prop :=
  ∃ inner : Node, inner.Inside node ∧ Shows inner.form m role

/-- The same for the form of a node. -/
def ShownIn (form : Form) (m : Mention) (role : Role) : Prop :=
  Shows form m role ∨ ∃ child, form.Holds child ∧ ShownInside child m role

section Uses

variable {form : Form} {node child : Node} {name : String} {names : List String}
  {es : List Event} {m : Mention} {role : Role}

theorem ShownIn.inside (h : ShownIn node.form m role) : ShownInside node m role := by
  rcases h with shows_ | ⟨child, holds, inner, inside, shows_⟩
  · exact ⟨node, .refl node, shows_⟩
  · exact ⟨inner, Relation.ReflTransGen.head holds inside, shows_⟩

theorem ShownIn.held (holds : form.Holds child) (h : ShownIn child.form m role) :
    ShownIn form m role :=
  .inr ⟨child, holds, h.inside⟩

theorem ShownIn.of_bound (h : role = .bound) : ShownIn form m role :=
  .inl (h ▸ trivial)

theorem ShownIn.of_named (h : role = .named) : ShownIn form m role :=
  .inl (h ▸ trivial)

/-- Nothing is read or called in a name that is bound or that names something. -/
theorem Bound.eq_bound (h : Bound names es) (hm : .mention m role ∈ es) : role = .bound := by
  induction h with
  | nil => cases hm
  | cons m' _ ih =>
    rcases List.mem_cons.mp hm with same | hm
    · cases same
      rfl
    · exact ih hm

theorem Spelled.eq_named (h : Spelled name es) (hm : .mention m role ∈ es) : role = .named := by
  induction h with
  | name m' =>
    cases List.mem_singleton.mp hm
    rfl
  | word _ => cases List.mem_singleton.mp hm
  | other => cases hm
  | writer _ ih => exact ih hm

theorem Selected.eq_named (h : Selected name es) (hm : .mention m role ∈ es) : role = .named := by
  cases h with
  | name h =>
    rcases List.mem_cons.mp hm with same | hm
    · cases same
    · exact h.eq_named hm
  | operator => cases hm

theorem Owned.eq_named {owner : Option String} (h : Owned owner es) (hm : .mention m role ∈ es) :
    role = .named := by
  cases h with
  | nobody => cases hm
  | name m' =>
    rcases List.mem_cons.mp hm with same | hm
    · cases same
      rfl
    · cases List.mem_singleton.mp hm
  | other => cases List.mem_singleton.mp hm

theorem Called.shows {args : List Node} {block : Option Block} (h : Called name es)
    (hm : .mention m role ∈ es) : Shows (.send none name args block) m role := by
  cases h with
  | name _ =>
    cases List.mem_singleton.mp hm
    exact .inl ⟨args, block, rfl⟩
  | fixed _ => cases hm

mutual

/-- What is read or called stands in the node. -/
theorem Traced.shownIn {form : Form} {es : List Event} (h : Traced form es) {m : Mention}
    {role : Role} (hm : .mention m role ∈ es) : ShownIn form m role := by
  match h with
  | .simple _ => cases hm
  | .read _ =>
    cases List.mem_singleton.mp hm
    exact .inl rfl
  | .array h =>
    obtain ⟨child, hc, shown⟩ := h.shownIn hm
    exact .held (.element hc) shown
  | .assign _ h =>
    rcases List.mem_cons.mp hm with same | hm
    · cases same
      exact .of_bound rfl
    · exact .held .value (h.shownIn hm)
  | .update _ h =>
    rcases List.mem_cons.mp hm with same | hm
    · cases same
      exact .of_bound rfl
    · exact .held .value (.held (.argument List.mem_cons_self) (h.shownIn hm))
  | .store h _ => exact .held .value (h.shownIn hm)
  | .directive text =>
    cases List.mem_singleton.mp hm
    exact .inl (.inr ⟨_, _, text, rfl⟩)
  | .call hn ha hb =>
    simp only [List.mem_append] at hm
    rcases hm with hm | hm | hm
    · exact .inl (hn.shows hm)
    · obtain ⟨child, hc, shown⟩ := ha.shownIn hm
      exact .held (.argument hc) shown
    · exact hb.shownIn hm
  | .message hr hn ha hb =>
    simp only [List.mem_append] at hm
    rcases hm with hm | hm | hm | hm
    · exact .held .receiver (hr.shownIn hm)
    · exact .of_named (hn.eq_named hm)
    · obtain ⟨child, hc, shown⟩ := ha.shownIn hm
      exact .held (.argument hc) shown
    · exact hb.shownIn hm
  | .conditional hb ho =>
    rcases List.mem_append.mp hm with hm | hm
    · obtain ⟨⟨condition, body⟩, mem, shown | ⟨child, hc, shown⟩⟩ := hb.shownIn hm
      · exact .held (.condition mem) shown
      · exact .held (.branchBody mem hc) shown
    · obtain ⟨body, rfl, child, hc, shown⟩ := ho.shownIn hm
      exact .held (.noBranch hc) shown
  | .conditionalAfter hs hc =>
    simp only [List.mem_append, List.mem_cons] at hm
    rcases hm with hm | same | hm
    · exact .held (.branchBody List.mem_cons_self List.mem_cons_self) (hs.shownIn hm)
    · cases same
    · exact .held (.condition List.mem_cons_self) (hc.shownIn hm)
  | .sequence h =>
    obtain ⟨child, hc, shown⟩ := h.shownIn hm
    exact .held (.branchBody List.mem_cons_self hc) shown
  | .loop hc hb =>
    simp only [List.mem_cons, List.mem_append] at hm
    rcases hm with same | hm | hm
    · cases same
    · exact .held .loopCondition (hc.shownIn hm)
    · obtain ⟨child, hc, shown⟩ := hb.shownIn hm
      exact .held (.loopBody hc) shown
  | .loopAfter hs hc =>
    simp only [List.mem_append, List.mem_cons] at hm
    rcases hm with hm | same | hm
    · exact .held (.loopBody List.mem_cons_self) (hs.shownIn hm)
    · cases same
    · exact .held .loopCondition (hc.shownIn hm)
  | .rescue hb hv hh ho =>
    simp only [List.mem_append] at hm
    rcases hm with hm | hm | hm | hm
    · obtain ⟨child, hc, shown⟩ := hb.shownIn hm
      exact .held (.protected_ hc) shown
    · exact .of_bound (hv.eq_bound hm)
    · obtain ⟨child, hc, shown⟩ := hh.shownIn hm
      exact .held (.handler hc) shown
    · obtain ⟨body, rfl, child, hc, shown⟩ := ho.shownIn hm
      exact .held (.elseBody hc) shown
  | .classDef h =>
    simp only [List.mem_cons, List.mem_append, List.not_mem_nil, or_false] at hm
    rcases hm with same | hm | same
    · cases same
    · obtain ⟨child, hc, shown⟩ := h.shownIn hm
      exact .held (.classBody hc) shown
    · cases same
  | .moduleDef h =>
    simp only [List.mem_cons, List.mem_append, List.not_mem_nil, or_false] at hm
    rcases hm with same | hm | same
    · cases same
    · obtain ⟨child, hc, shown⟩ := h.shownIn hm
      exact .held (.moduleBody hc) shown
    · cases same
  | .methodDef ho hn hp hb =>
    simp only [List.mem_cons, List.mem_append, List.not_mem_nil, or_false] at hm
    rcases hm with same | hm | hm | same | (hm | hm) | same
    · cases same
    · exact .of_named (ho.eq_named hm)
    · exact .of_named (hn.eq_named hm)
    · cases same
    · exact .of_bound (hp.eq_bound hm)
    · obtain ⟨child, hc, shown⟩ := hb.shownIn hm
      exact .held (.methodBody hc) shown
    · cases same
termination_by structural h

theorem TracedAll.shownIn {nodes : List Node} {es : List Event} (h : TracedAll nodes es)
    {m : Mention} {role : Role} (hm : .mention m role ∈ es) :
    ∃ child ∈ nodes, ShownIn child.form m role := by
  match h with
  | .nil => cases hm
  | .cons h hs =>
    rcases List.mem_append.mp hm with hm | hm
    · exact ⟨_, List.mem_cons_self, h.shownIn hm⟩
    · obtain ⟨child, hc, shown⟩ := hs.shownIn hm
      exact ⟨child, List.mem_cons_of_mem _ hc, shown⟩
termination_by structural h

theorem TracedBranch.shownIn {branch : Branch} {es : List Event} (h : TracedBranch branch es)
    {m : Mention} {role : Role} (hm : .mention m role ∈ es) :
    ShownIn branch.condition.form m role ∨ ∃ child ∈ branch.body, ShownIn child.form m role := by
  match h with
  | .mk hc hb =>
    rcases List.mem_append.mp hm with hm | hm
    · exact .inl (hc.shownIn hm)
    · exact .inr (hb.shownIn hm)
termination_by structural h

theorem TracedBranches.shownIn {branches : List Branch} {es : List Event}
    (h : TracedBranches branches es) {m : Mention} {role : Role} (hm : .mention m role ∈ es) :
    ∃ branch ∈ branches,
      ShownIn branch.condition.form m role ∨ ∃ child ∈ branch.body, ShownIn child.form m role := by
  match h with
  | .nil => cases hm
  | .cons h hs =>
    simp only [List.mem_cons, List.mem_append] at hm
    rcases hm with same | hm | hm
    · cases same
    · exact ⟨_, List.mem_cons_self, h.shownIn hm⟩
    · obtain ⟨branch, mem, shown⟩ := hs.shownIn hm
      exact ⟨branch, List.mem_cons_of_mem _ mem, shown⟩
termination_by structural h

theorem TracedOptional.shownIn {optional : Option (List Node)} {es : List Event}
    (h : TracedOptional optional es) {m : Mention} {role : Role} (hm : .mention m role ∈ es) :
    ∃ body, optional = some body ∧ ∃ child ∈ body, ShownIn child.form m role := by
  match h with
  | .none => cases hm
  | .some h => exact ⟨_, rfl, h.shownIn hm⟩
termination_by structural h

theorem TracedBlock.shownIn {block : Option Block} {es : List Event} (h : TracedBlock block es)
    {m : Mention} {role : Role} (hm : .mention m role ∈ es) {receiver : Option Node}
    {name : String} {args : List Node} :
    ShownIn (.send receiver name args block) m role := by
  match h with
  | .none => cases hm
  | .some hp hb =>
    simp only [List.mem_cons, List.mem_append, List.not_mem_nil, or_false] at hm
    rcases hm with same | (hm | hm) | same
    · cases same
    · exact .of_bound (hp.eq_bound hm)
    · obtain ⟨child, hc, shown⟩ := hb.shownIn hm
      exact .held (.blockBody hc) shown
    · cases same
termination_by structural h

end

end Uses

end ScriptCompiler.Resolution
