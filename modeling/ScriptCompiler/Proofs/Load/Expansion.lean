import ScriptCompiler.Proofs.Load.Traversal

/-!
# Expansion leaves no directive

An expansion that succeeds is an expansion by the rules, and no directive is left in its result,
however deep the directives stood and through however many files they led. A tree without directives
is expanded to itself, whatever is known of files, so that no file is read and nothing new is
remembered.
-/

namespace ScriptCompiler.Load

variable {replace : Replace} {contents : Contents}

/-! ## No directive is left -/

section Left

set_option linter.unusedSectionVars false

variable (hc : ∀ {kind path span t inner t'},
  contents kind path span t inner t' → Directives.ofNodes inner = [])

include hc

mutual

theorem ExpandsBody.directives_eq {t t' : Tracker} {nodes nodes' : Body}
    (h : ExpandsBody contents t nodes nodes' t') : Directives.ofNodes nodes' = [] := by
  match h with
  | .nil => rw [Directives.ofNodes]
  | .splice replaced others =>
    rw [Directives.ofNodes_append, hc replaced, others.directives_eq, List.append_nil]
  | .keep _ first others =>
    rw [Directives.ofNodes, first.directives_eq, others.directives_eq, List.append_nil]
termination_by structural h

theorem ExpandsNode.directives_eq {t t' : Tracker} {node node' : Node}
    (h : ExpandsNode contents t node node' t') : Directives.ofNode node' = [] := by
  match h with
  | .atom h => rw [Directives.ofNode, Directives.ofForm_of_isAtom h]
  | .directive replaced =>
    rw [Directives.ofNode, Directives.ofForm, Directives.ofBranches, Directives.ofOptional,
      hc replaced, List.append_nil]
  | .array elements => rw [Directives.ofNode, Directives.ofForm, elements.directives_eq]
  | .assign value => rw [Directives.ofNode, Directives.ofForm, value.directives_eq]
  | .classDef body => rw [Directives.ofNode, Directives.ofForm, body.directives_eq]
  | .moduleDef body => rw [Directives.ofNode, Directives.ofForm, body.directives_eq]
  | .methodDef body => rw [Directives.ofNode, Directives.ofForm, body.directives_eq]
  | .send receiver args block =>
    rw [Directives.ofNode, Directives.ofForm, receiver.directives_eq, args.directives_eq,
      block.directives_eq, List.append_nil, List.append_nil]
  | .conditional branches otherwise =>
    rw [Directives.ofNode, Directives.ofForm, branches.directives_eq, otherwise.directives_eq,
      List.append_nil]
  | .loop condition body =>
    rw [Directives.ofNode, Directives.ofForm, condition.directives_eq, body.directives_eq,
      List.append_nil]
  | .rescue body handler otherwise =>
    rw [Directives.ofNode, Directives.ofForm, body.directives_eq, handler.directives_eq,
      otherwise.directives_eq, List.append_nil, List.append_nil]
termination_by structural h

theorem ExpandsEach.directives_eq {t t' : Tracker} {nodes nodes' : List Node}
    (h : ExpandsEach contents t nodes nodes' t') : Directives.ofNodes nodes' = [] := by
  match h with
  | .nil => rw [Directives.ofNodes]
  | .cons first others =>
    rw [Directives.ofNodes, first.directives_eq, others.directives_eq, List.append_nil]
termination_by structural h

theorem ExpandsReceiver.directives_eq {t t' : Tracker} {receiver receiver' : Option Node}
    (h : ExpandsReceiver contents t receiver receiver' t') :
    Directives.ofReceiver receiver' = [] := by
  match h with
  | .none => rw [Directives.ofReceiver]
  | .some receiver => rw [Directives.ofReceiver, receiver.directives_eq]
termination_by structural h

theorem ExpandsOptional.directives_eq {t t' : Tracker} {body body' : Option Body}
    (h : ExpandsOptional contents t body body' t') : Directives.ofOptional body' = [] := by
  match h with
  | .none => rw [Directives.ofOptional]
  | .some body => rw [Directives.ofOptional, body.directives_eq]
termination_by structural h

theorem ExpandsBlock.directives_eq {t t' : Tracker} {block block' : Option Block}
    (h : ExpandsBlock contents t block block' t') : Directives.ofBlock block' = [] := by
  match h with
  | .none => rw [Directives.ofBlock]
  | .some body => rw [Directives.ofBlock, body.directives_eq]
termination_by structural h

theorem ExpandsBranches.directives_eq {t t' : Tracker} {branches branches' : List Branch}
    (h : ExpandsBranches contents t branches branches' t') :
    Directives.ofBranches branches' = [] := by
  match h with
  | .nil => rw [Directives.ofBranches]
  | .cons condition body others =>
    rw [Directives.ofBranches, condition.directives_eq, body.directives_eq, others.directives_eq,
      List.append_nil, List.append_nil]
termination_by structural h

end

end Left

/-! ## A tree without directives stays as it is -/

theorem isDirective_of_directives_eq {node : Node} (h : Directives.ofNode node = []) :
    node.form.isDirective = false := by
  obtain ⟨form, span⟩ := node
  cases form with
  | directive kind path =>
    rw [Directives.ofNode, Directives.ofForm] at h
    cases h
  | _ => rfl

section Unchanged

variable (replace : Replace)

mutual

theorem expandBody_eq_pure {nodes : Body} (h : Directives.ofNodes nodes = []) :
    expandBody replace nodes = pure nodes := by
  match nodes, h with
  | [], _ => rw [expandBody]
  | node :: nodes, h =>
    rw [Directives.ofNodes] at h
    obtain ⟨h₁, h₂⟩ := List.append_eq_nil_iff.1 h
    rw [expandBody_cons (isDirective_of_directives_eq h₁), expandNode_eq_pure h₁,
      expandBody_eq_pure h₂]
    rfl
termination_by structural nodes

theorem expandNode_eq_pure {node : Node} (h : Directives.ofNode node = []) :
    expandNode replace node = pure node := by
  match node, h with
  | ⟨form, span⟩, h =>
    rw [Directives.ofNode] at h
    rw [expandNode, expandForm_eq_pure h]
    rfl
termination_by structural node

theorem expandForm_eq_pure {span : Span} {form : Form} (h : Directives.ofForm span form = []) :
    expandForm replace span form = pure form := by
  cases form with
  | directive kind path =>
    rw [Directives.ofForm] at h
    cases h
  | array elements =>
    rw [Directives.ofForm] at h
    rw [expandForm, expandEach_eq_pure h]
    rfl
  | assign target value =>
    rw [Directives.ofForm] at h
    rw [expandForm, expandNode_eq_pure h]
    rfl
  | classDef name superclass body =>
    rw [Directives.ofForm] at h
    rw [expandForm, expandBody_eq_pure h]
    rfl
  | moduleDef name body =>
    rw [Directives.ofForm] at h
    rw [expandForm, expandBody_eq_pure h]
    rfl
  | methodDef owner name params body =>
    rw [Directives.ofForm] at h
    rw [expandForm, expandBody_eq_pure h]
    rfl
  | send receiver name args block =>
    rw [Directives.ofForm] at h
    obtain ⟨h₁₂, h₃⟩ := List.append_eq_nil_iff.1 h
    obtain ⟨h₁, h₂⟩ := List.append_eq_nil_iff.1 h₁₂
    rw [expandForm, expandReceiver_eq_pure h₁, expandEach_eq_pure h₂, expandBlock_eq_pure h₃]
    rfl
  | conditional branches otherwise =>
    rw [Directives.ofForm] at h
    obtain ⟨h₁, h₂⟩ := List.append_eq_nil_iff.1 h
    rw [expandForm, expandBranches_eq_pure h₁, expandOptional_eq_pure h₂]
    rfl
  | loop kind condition body =>
    rw [Directives.ofForm] at h
    obtain ⟨h₁, h₂⟩ := List.append_eq_nil_iff.1 h
    rw [expandForm, expandNode_eq_pure h₁, expandBody_eq_pure h₂]
    rfl
  | rescue body variable_ handler otherwise =>
    rw [Directives.ofForm] at h
    obtain ⟨h₁₂, h₃⟩ := List.append_eq_nil_iff.1 h
    obtain ⟨h₁, h₂⟩ := List.append_eq_nil_iff.1 h₁₂
    rw [expandForm, expandBody_eq_pure h₁, expandBody_eq_pure h₂, expandOptional_eq_pure h₃]
    rfl
  | _ => rw [expandForm]
termination_by structural form

theorem expandEach_eq_pure {nodes : List Node} (h : Directives.ofNodes nodes = []) :
    expandEach replace nodes = pure nodes := by
  match nodes, h with
  | [], _ => rw [expandEach]
  | node :: nodes, h =>
    rw [Directives.ofNodes] at h
    obtain ⟨h₁, h₂⟩ := List.append_eq_nil_iff.1 h
    rw [expandEach, expandNode_eq_pure h₁, expandEach_eq_pure h₂]
    rfl
termination_by structural nodes

theorem expandReceiver_eq_pure {receiver : Option Node} (h : Directives.ofReceiver receiver = []) :
    expandReceiver replace receiver = pure receiver := by
  match receiver, h with
  | none, _ => rw [expandReceiver]
  | some node, h =>
    rw [Directives.ofReceiver] at h
    rw [expandReceiver, expandNode_eq_pure h]
    rfl
termination_by structural receiver

theorem expandOptional_eq_pure {body : Option Body} (h : Directives.ofOptional body = []) :
    expandOptional replace body = pure body := by
  match body, h with
  | none, _ => rw [expandOptional]
  | some nodes, h =>
    rw [Directives.ofOptional] at h
    rw [expandOptional, expandBody_eq_pure h]
    rfl
termination_by structural body

theorem expandBlock_eq_pure {block : Option Block} (h : Directives.ofBlock block = []) :
    expandBlock replace block = pure block := by
  match block, h with
  | none, _ => rw [expandBlock]
  | some ⟨params, body⟩, h =>
    rw [Directives.ofBlock] at h
    rw [expandBlock, expandBody_eq_pure h]
    rfl
termination_by structural block

theorem expandBranches_eq_pure {branches : List Branch} (h : Directives.ofBranches branches = []) :
    expandBranches replace branches = pure branches := by
  match branches, h with
  | [], _ => rw [expandBranches]
  | ⟨condition, body⟩ :: branches, h =>
    rw [Directives.ofBranches] at h
    obtain ⟨h₁₂, h₃⟩ := List.append_eq_nil_iff.1 h
    obtain ⟨h₁, h₂⟩ := List.append_eq_nil_iff.1 h₁₂
    rw [expandBranches, expandNode_eq_pure h₁, expandBody_eq_pure h₂, expandBranches_eq_pure h₃]
    rfl
termination_by structural branches

end

end Unchanged

/-! ## Files -/

theorem canonical_ok {s : Settings} {found path : Path} {t t' : Tracker}
    (h : canonical s found t = (.ok path, t')) : s.files.canonical found = .ok path ∧ t = t' := by
  rw [canonical] at h
  cases hp : s.files.canonical found with
  | ok p =>
    rw [hp] at h
    obtain ⟨rfl, rfl⟩ := pure_ok h
    exact ⟨rfl, rfl⟩
  | error e =>
    rw [hp] at h
    exact (throw_ok h).elim

theorem programOf_ok {s : Settings} {path : Path} {program : Body} {t t' : Tracker}
    (h : programOf s path t = (.ok program, t')) :
    (∃ text, s.files.readText path = .ok text ∧ parse path.text text [] = .ok program)
      ∧ t = t' := by
  rw [programOf] at h
  cases ht : s.files.readText path with
  | error e =>
    rw [ht] at h
    exact (throw_ok h).elim
  | ok text =>
    simp only [ht] at h
    cases hp : parse path.text text [] with
    | error failure =>
      rw [hp] at h
      exact (throw_ok h).elim
    | ok p =>
      rw [hp] at h
      obtain ⟨rfl, rfl⟩ := pure_ok h
      exact ⟨⟨text, rfl, hp⟩, rfl⟩

theorem Tracker.insert_eq_self {t : Tracker} {path : Path} (h : t.contains path = true) :
    t.insert path = t := by
  rw [Tracker.insert, if_pos h]

/-- The contents of a file that is wanted, with so many levels of files left. -/
def contentsOfFile (s : Settings) (levels : Nat) (name : String) (path : Path) : Step Body :=
  match levels with
  | 0 => throw (.nestingTooDeep name)
  | levels + 1 => do
    let program ← programOf s path
    expandBody (runDirective s levels path) program

theorem contentsOfFile_ok {s : Settings} {levels : Nat} {name : String} {path : Path}
    {inner : Body} {t t' : Tracker} (h : contentsOfFile s levels name path t = (.ok inner, t')) :
    ∃ below text program, levels = below + 1 ∧ s.files.readText path = .ok text
      ∧ parse path.text text [] = .ok program
      ∧ expandBody (runDirective s below path) program t = (.ok inner, t') := by
  cases levels with
  | zero => exact (throw_ok h).elim
  | succ below =>
    obtain ⟨program, _, h₁, h⟩ := bind_ok h
    obtain ⟨⟨text, ht, hprogram⟩, rfl⟩ := programOf_ok h₁
    exact ⟨below, text, program, rfl, ht, hprogram, h⟩

/-- What a directive runs, for a file that is loaded and for one that is required. -/
theorem runDirective_eq {s : Settings} {levels : Nat} {current found : Path} {kind : DirectiveKind}
    {name : String} {span : Span} (hf : s.find current kind name = some found) :
    runDirective s levels current kind name span = do
      let path ← canonical s found
      if kind = .load then contentsOfFile s levels name path
      else
        if ← remember path then contentsOfFile s levels name path else return [] := by
  rw [runDirective]
  simp only [hf]
  refine bind_congr fun path => ?_
  by_cases hk : kind = .load
  · rw [if_pos hk, if_pos hk, pure_bind, if_pos rfl]
    rfl
  · rw [if_neg hk, if_neg hk]
    rfl

/-- What replaces a directive are its contents. -/
theorem contentsOf_of_runDirective {s : Settings} {levels : Nat} {current : Path}
    {kind : DirectiveKind} {name : String} {span : Span} {t t' : Tracker} {inner : Body}
    (h : runDirective s levels current kind name span t = (.ok inner, t')) :
    contentsOf s levels current kind name span t inner t' := by
  induction levels using Nat.strongRecOn generalizing current kind name span t t' inner with
  | _ levels ih =>
    cases hf : s.find current kind name with
    | none =>
      rw [runDirective] at h
      simp only [hf] at h
      exact (throw_ok h).elim
    | some found =>
      rw [runDirective_eq hf] at h
      obtain ⟨path, _, h₁, h⟩ := bind_ok h
      obtain ⟨hp, rfl⟩ := canonical_ok h₁
      rw [contentsOf.eq_def]
      refine ⟨found, path, hf, hp, ?_⟩
      by_cases hk : kind = .load
      · rw [if_pos hk] at h
        obtain ⟨below, text, program, rfl, ht, hprogram, h⟩ := contentsOfFile_ok h
        rw [if_neg fun hw => hw.1 hk, if_pos hk]
        exact ⟨text, program, ht, hprogram, expandsBody_of_expandBody
          (fun d t₀ inner t₁ _ => ih below (Nat.lt_succ_self below)) h⟩
      · rw [if_neg hk] at h
        rw [if_neg hk]
        obtain ⟨new, _, h₂, h⟩ := bind_ok h
        cases h₂
        by_cases hc : t.contains path = true
        · rw [if_neg (by simp [hc])] at h
          obtain ⟨rfl, ht⟩ := pure_ok h
          rw [if_pos ⟨hk, hc⟩]
          exact ⟨rfl, ht.symm.trans (Tracker.insert_eq_self hc)⟩
        · rw [if_pos (by simp [hc])] at h
          obtain ⟨below, text, program, rfl, ht, hprogram, h⟩ := contentsOfFile_ok h
          rw [if_neg fun hw => hc hw.2]
          exact ⟨text, program, ht, hprogram, expandsBody_of_expandBody
            (fun d t₀ inner t₁ _ => ih below (Nat.lt_succ_self below)) h⟩

theorem directives_of_contentsOf {s : Settings} {levels : Nat} {current : Path}
    {kind : DirectiveKind} {name : String} {span : Span} {t t' : Tracker} {inner : Body}
    (h : contentsOf s levels current kind name span t inner t') :
    Directives.ofNodes inner = [] := by
  induction levels generalizing current kind name span t t' inner with
  | zero =>
    obtain ⟨found, path, -, -, h⟩ := h
    split at h
    · rw [h.1, Directives.ofNodes]
    · exact h.elim
  | succ levels ih =>
    obtain ⟨found, path, -, -, h⟩ := h
    split at h
    · rw [h.1, Directives.ofNodes]
    · obtain ⟨text, program, -, -, h⟩ := h
      exact h.directives_eq ih

/-- An expansion that succeeds leaves no directive in its result, at any depth. The result comes
about by the rules: every node but the directives keeps its place, kind, fields and span, and every
directive gives way to the contents of its file. Expanding the result again, from wherever and with
whatever files there are, gives the result and remembers nothing. -/
theorem expand_ok {s : Settings} {current : Path} {program result : Body} {t t' : Tracker}
    (h : expand s current program t = (.ok result, t')) :
    Directives.ofNodes result = []
      ∧ ExpandsBody (contentsOf s maxDepth current) t program result t'
      ∧ ∀ (s' : Settings) (current' : Path) (t'' : Tracker),
          expand s' current' result t'' = (.ok result, t'') := by
  have he : ExpandsBody (contentsOf s maxDepth current) t program result t' :=
    expandsBody_of_expandBody (fun _ _ _ _ _ => contentsOf_of_runDirective) h
  have hd : Directives.ofNodes result = [] := he.directives_eq directives_of_contentsOf
  refine ⟨hd, he, fun s' current' t'' => ?_⟩
  rw [expand, expandBody_eq_pure _ hd]
  rfl

/-- Two files, of which the first requires the second. -/
def pointFiles : Settings where
  files := .ofFiles ["app"]
    [("point.gn", some "require 'b'\nx".toUTF8.toList), ("b.gn", some "1".toUTF8.toList)]
  loadPath := []
  workingDir := ⟨"/app"⟩

/-- A file that is required in a body and loaded where a value stands. -/
def pointProgram : Body :=
  [⟨.directive .require "point", .synthetic⟩,
    ⟨.assign (.localVar "x") ⟨.directive .load "./point.gn", .synthetic⟩, .synthetic⟩]

theorem expand_ok_pointProgram :
    Directives.ofNodes pointProgram ≠ []
      ∧ ∃ result t', expand pointFiles ⟨"main.gn"⟩ pointProgram .empty = (.ok result, t')
        ∧ Directives.ofNodes result = []
        ∧ ExpandsBody (contentsOf pointFiles maxDepth ⟨"main.gn"⟩) .empty pointProgram result t'
        ∧ ∀ (s' : Settings) (current' : Path) (t'' : Tracker),
            expand s' current' result t'' = (.ok result, t'') := by
  have accepted : (expand pointFiles ⟨"main.gn"⟩ pointProgram .empty).1.toOption.isSome = true := by
    decide +kernel
  refine ⟨by decide, ?_⟩
  cases h : expand pointFiles ⟨"main.gn"⟩ pointProgram .empty with
  | mk outcome t' =>
    cases outcome with
    | error e =>
      rw [h] at accepted
      cases accepted
    | ok result => exact ⟨result, t', rfl, expand_ok h⟩

end ScriptCompiler.Load
