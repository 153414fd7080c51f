import Mathlib.Data.List.Basic
import Mathlib.Data.List.Perm.Basic
import ScriptCompiler.Proofs.Lowering.Recorded

/-!
# Indexes of variables

The index of a recorded variable says how many variables were recorded before it. Lowering meets
assignments in the order in which they are evaluated, with one exception: the body of a loop is
lowered before the condition, which is evaluated first. So indexes follow the order of evaluation,
except between a variable of a loop's condition and one of its body.
-/

namespace ScriptCompiler

/-! ## The order of evaluation -/

/-- The local variable that is the target. -/
def Target.local? : Target → Option String
  | .localVar name => some name
  | .instanceVar _ => none
  | .globalVar _ => none

namespace Evaluated

mutual

/-- The local variables of the outermost scope that a node assigns, in the order of evaluation:
a receiver before the arguments, a value before its assignment, a condition before what it
decides. Where only one of several bodies runs, they come in the order in which they are written. -/
def ofNode : Node → List String
  | ⟨form, _⟩ => ofForm form

/-- Those of a node of a form. -/
def ofForm : Form → List String
  | .array elements => ofNodes elements
  | .assign target value => ofNode value ++ target.local?.toList
  | .send receiver _ args _ => ofReceiver receiver ++ ofNodes args
  | .conditional branches otherwise => ofBranches branches ++ ofOptional otherwise
  | .loop _ condition body => ofNode condition ++ ofNodes body
  | .rescue body _ handler otherwise => ofNodes body ++ ofNodes handler ++ ofOptional otherwise
  | _ => []

/-- Those of nodes one after the other. -/
def ofNodes : List Node → List String
  | [] => []
  | node :: nodes => ofNode node ++ ofNodes nodes

/-- Those of a receiver. -/
def ofReceiver : Option Node → List String
  | none => []
  | some node => ofNode node

/-- Those of branches. -/
def ofBranches : List Branch → List String
  | [] => []
  | ⟨condition, body⟩ :: branches => ofNode condition ++ ofNodes body ++ ofBranches branches

/-- Those of a body that may be missing. -/
def ofOptional : Option (List Node) → List String
  | none => []
  | some body => ofNodes body

end

theorem ofNodes_append (xs ys : List Node) : ofNodes (xs ++ ys) = ofNodes xs ++ ofNodes ys := by
  induction xs with
  | nil => rfl
  | cons x xs ih => rw [List.cons_append, ofNodes, ofNodes, ih, List.append_assoc]

end Evaluated

/-- The local variables of the outermost scope that a program assigns, in the order of
evaluation. -/
def evaluatedNames (program : Body) : List String :=
  Evaluated.ofNodes program

/-! ## The order of lowering -/

namespace Bindings

/-- The variables that are assigned, in the order of lowering. -/
abbrev assigned (xs : List Binding) : List String :=
  xs.filterMap Binding.assigned?

theorem assigned_append (xs ys : List Binding) :
    assigned (xs ++ ys) = assigned xs ++ assigned ys :=
  List.filterMap_append

theorem assigned_ofTarget (target : Target) :
    assigned (ofTarget target) = target.local?.toList := by
  cases target <;> rfl

theorem assigned_rescue (body handler : Body) (variable_ : Option String)
    (otherwise : Option Body) :
    assigned (ofForm (.rescue body variable_ handler otherwise))
      = assigned (ofNodes body) ++ assigned (ofNodes handler)
        ++ assigned (ofOptional otherwise) := by
  rw [ofForm, assigned_append, assigned_append, assigned_append]
  congr 2
  rw [assigned, filterMap_caught, List.nil_append]

theorem ofNodes_append (xs ys : List Node) : ofNodes (xs ++ ys) = ofNodes xs ++ ofNodes ys := by
  induction xs with
  | nil => rfl
  | cons x xs ih => rw [List.cons_append, ofNodes, ofNodes, ih, List.append_assoc]

end Bindings

open Bindings (assigned assigned_append)

/-! ### The same variables -/

mutual

/-- What is evaluated is lowered. -/
theorem perm_ofNode : (node : Node) →
    (Evaluated.ofNode node).Perm (assigned (Bindings.ofNode node))
  | ⟨form, _⟩ => perm_ofForm form

theorem perm_ofForm : (form : Form) →
    (Evaluated.ofForm form).Perm (assigned (Bindings.ofForm form))
  | .array elements => perm_ofNodes elements
  | .assign target value => by
    rw [Evaluated.ofForm, Bindings.ofForm, assigned_append, Bindings.assigned_ofTarget]
    exact (perm_ofNode value).append_right _
  | .send receiver _ args _ => by
    rw [Evaluated.ofForm, Bindings.ofForm, assigned_append]
    exact (perm_ofReceiver receiver).append (perm_ofNodes args)
  | .conditional branches otherwise => by
    rw [Evaluated.ofForm, Bindings.ofForm, assigned_append]
    exact (perm_ofBranches branches).append (perm_ofOptional otherwise)
  | .loop _ condition body => by
    rw [Evaluated.ofForm, Bindings.ofForm, assigned_append]
    exact ((perm_ofNode condition).append (perm_ofNodes body)).trans List.perm_append_comm
  | .rescue body variable_ handler otherwise => by
    rw [Evaluated.ofForm, Bindings.assigned_rescue]
    exact ((perm_ofNodes body).append (perm_ofNodes handler)).append (perm_ofOptional otherwise)
  | .integer _ | .str _ | .symbol _ | .selfRef | .localVar _ | .instanceVar _ | .globalVar _
  | .classDef _ _ _ | .moduleDef _ _ | .methodDef _ _ _ _ | .directive _ _ | .unknown => .nil

theorem perm_ofNodes : (nodes : List Node) →
    (Evaluated.ofNodes nodes).Perm (assigned (Bindings.ofNodes nodes))
  | [] => .nil
  | node :: nodes => by
    rw [Evaluated.ofNodes, Bindings.ofNodes, assigned_append]
    exact (perm_ofNode node).append (perm_ofNodes nodes)

theorem perm_ofReceiver : (receiver : Option Node) →
    (Evaluated.ofReceiver receiver).Perm (assigned (Bindings.ofReceiver receiver))
  | none => .nil
  | some node => perm_ofNode node

theorem perm_ofBranches : (branches : List Branch) →
    (Evaluated.ofBranches branches).Perm (assigned (Bindings.ofBranches branches))
  | [] => .nil
  | ⟨condition, body⟩ :: branches => by
    rw [Evaluated.ofBranches, Bindings.ofBranches, assigned_append, assigned_append]
    exact ((perm_ofNode condition).append (perm_ofNodes body)).append (perm_ofBranches branches)

theorem perm_ofOptional : (optional : Option (List Node)) →
    (Evaluated.ofOptional optional).Perm (assigned (Bindings.ofOptional optional))
  | none => .nil
  | some body => perm_ofNodes body

end

section Members

variable {x : String} {node : Node} {body : Body}

theorem mem_evaluated_node : x ∈ Evaluated.ofNode node ↔ node.Assigns x := by
  rw [(perm_ofNode node).mem_iff, assigned, List.mem_filterMap]
  constructor
  · rintro ⟨_ | _, hb, same⟩ <;> cases same
    exact Bindings.assigns_of_mem node hb
  · exact fun h => ⟨_, Bindings.mem_of_assigns h, rfl⟩

theorem mem_evaluatedNames : x ∈ evaluatedNames body ↔ body.Assigns x :=
  (perm_ofNodes body).mem_iff.trans mem_assignedNames

end Members

/-! ## Variables in another order -/

/-- Of two variables the first one comes first in one list and last in the other one. -/
structure Swapped (x y : String) (evaluated lowered : List String) : Prop where
  evaluated : evaluated.idxOf x < evaluated.idxOf y
  lowered : lowered.idxOf y < lowered.idxOf x

namespace Swapped

variable {x y : String} {e e' l l' : List String}

/-- Two variables that are assigned in the first part are in the order of the first part; a
variable that is assigned there is before one that is not. -/
theorem idxOf_append_lt (h : (e ++ e').idxOf x < (e ++ e').idxOf y) :
    e.idxOf x < e.idxOf y ∨ (x ∉ e ∧ y ∉ e ∧ e'.idxOf x < e'.idxOf y) := by
  by_cases hx : x ∈ e <;> by_cases hy : y ∈ e
  · rw [List.idxOf_append_of_mem hx, List.idxOf_append_of_mem hy] at h
    exact .inl h
  · have := List.idxOf_lt_length_of_mem hx
    exact .inl (by rwa [List.idxOf_eq_length_iff.mpr hy])
  · rw [List.idxOf_append_of_notMem hx, List.idxOf_append_of_mem hy] at h
    have := List.idxOf_lt_length_of_mem hy
    omega
  · rw [List.idxOf_append_of_notMem hx, List.idxOf_append_of_notMem hy] at h
    exact .inr ⟨hx, hy, by omega⟩

theorem mem (h : Swapped x y e l) : x ∈ e ∧ y ∈ l :=
  ⟨List.idxOf_lt_length_iff.mp (Nat.lt_of_lt_of_le h.evaluated List.idxOf_le_length),
    List.idxOf_lt_length_iff.mp (Nat.lt_of_lt_of_le h.lowered List.idxOf_le_length)⟩

/-- Of parts that are lowered in the order of their evaluation, one has the variables in another
order. -/
theorem append_cases (same : e.Perm l) (h : Swapped x y (e ++ e') (l ++ l')) :
    Swapped x y e l ∨ Swapped x y e' l' := by
  have mem {l : List String} {x y : String} (lt : l.idxOf x < l.idxOf y) : x ∈ l :=
    List.idxOf_lt_length_iff.mp (Nat.lt_of_lt_of_le lt List.idxOf_le_length)
  rcases idxOf_append_lt h.evaluated with he | ⟨hx, hy, he⟩ <;>
    rcases idxOf_append_lt h.lowered with hl | ⟨hy', hx', hl⟩
  · exact .inl ⟨he, hl⟩
  · exact absurd (same.mem_iff.mp (mem he)) hx'
  · exact absurd (same.mem_iff.mpr (mem hl)) hy
  · exact .inr ⟨he, hl⟩

/-- Of a part that is evaluated first and lowered last and one that is lowered first, one has the
variables in another order, or one of them is assigned in each part. -/
theorem loop_cases (same : e.Perm l) (h : Swapped x y (e ++ e') (l' ++ l)) :
    (x ∈ e ∧ y ∈ l') ∨ Swapped x y e l ∨ Swapped x y e' l' := by
  have mem {l : List String} {x y : String} (lt : l.idxOf x < l.idxOf y) : x ∈ l :=
    List.idxOf_lt_length_iff.mp (Nat.lt_of_lt_of_le lt List.idxOf_le_length)
  rcases idxOf_append_lt h.evaluated with he | ⟨hx, hy, he⟩ <;>
    rcases idxOf_append_lt h.lowered with hl | ⟨hy', hx', hl⟩
  · exact .inl ⟨mem he, mem hl⟩
  · exact .inr (.inl ⟨he, hl⟩)
  · exact .inr (.inr ⟨he, hl⟩)
  · exact absurd (same.mem_iff.mpr (mem hl)) hy

end Swapped

/-! ## Loops -/

/-- A loop that assigns the first variable in its condition and the second one in its body stands
in the node, in the scope of the node. -/
inductive Node.Crosses (x y : String) : Node → Prop
  | here {kind : LoopKind} {condition : Node} {body : Body} {span : Span}
      (hx : condition.Assigns x) (hy : body.Assigns y) :
      Crosses x y ⟨.loop kind condition body, span⟩
  | inside {node child : Node} (h : node.form.SameScope child) (hc : Crosses x y child) :
      Crosses x y node

/-- Such a loop stands in a statement of the program. -/
def Body.Crosses (program : Body) (x y : String) : Prop :=
  ∃ node ∈ program, node.Crosses x y

namespace Swapped

variable {x y : String}

mutual

/-- **Where variables change places.** If a variable is evaluated before another one and lowered
after it, some loop assigns the first one in its condition and the second one in its body. -/
theorem crosses_ofNode : (node : Node) →
    Swapped x y (Evaluated.ofNode node) (assigned (Bindings.ofNode node)) → node.Crosses x y
  | ⟨form, span⟩, h => crosses_ofForm span form h

theorem crosses_ofForm (span : Span) : (form : Form) →
    Swapped x y (Evaluated.ofForm form) (assigned (Bindings.ofForm form)) →
      Node.Crosses x y ⟨form, span⟩
  | .array elements, h => by
    obtain ⟨child, hm, hc⟩ := crosses_ofNodes elements h
    exact .inside (.element hm) hc
  | .assign target value, h => by
    rw [Evaluated.ofForm, Bindings.ofForm, assigned_append, Bindings.assigned_ofTarget] at h
    rcases h.append_cases (perm_ofNode value) with h | h
    · exact .inside .value (crosses_ofNode value h)
    · exact absurd (Nat.lt_trans h.evaluated h.lowered) (Nat.lt_irrefl _)
  | .send receiver _ args _, h => by
    rw [Evaluated.ofForm, Bindings.ofForm, assigned_append] at h
    rcases h.append_cases (perm_ofReceiver receiver) with h | h
    · obtain ⟨child, rfl, hc⟩ := crosses_ofReceiver receiver h
      exact .inside .receiver hc
    · obtain ⟨child, hm, hc⟩ := crosses_ofNodes args h
      exact .inside (.argument hm) hc
  | .conditional branches otherwise, h => by
    rw [Evaluated.ofForm, Bindings.ofForm, assigned_append] at h
    rcases h.append_cases (perm_ofBranches branches) with h | h
    · obtain ⟨branch, hm, hc | ⟨child, hb, hc⟩⟩ := crosses_ofBranches branches h
      · exact .inside (.condition hm) hc
      · exact .inside (.branchBody hm hb) hc
    · obtain ⟨body, rfl, child, hm, hc⟩ := crosses_ofOptional otherwise h
      exact .inside (.noBranch hm) hc
  | .loop _ condition body, h => by
    rw [Evaluated.ofForm, Bindings.ofForm, assigned_append] at h
    rcases h.loop_cases (perm_ofNode condition) with ⟨hx, hy⟩ | h | h
    · exact .here (mem_evaluated_node.mp hx) (mem_assignedNames.mp hy)
    · exact .inside .loopCondition (crosses_ofNode condition h)
    · obtain ⟨child, hm, hc⟩ := crosses_ofNodes body h
      exact .inside (.loopBody hm) hc
  | .rescue body variable_ handler otherwise, h => by
    rw [Evaluated.ofForm, Bindings.assigned_rescue] at h
    rcases h.append_cases ((perm_ofNodes body).append (perm_ofNodes handler)) with h | h
    · rcases h.append_cases (perm_ofNodes body) with h | h
      · obtain ⟨child, hm, hc⟩ := crosses_ofNodes body h
        exact .inside (.protected_ hm) hc
      · obtain ⟨child, hm, hc⟩ := crosses_ofNodes handler h
        exact .inside (.handler hm) hc
    · obtain ⟨body, rfl, child, hm, hc⟩ := crosses_ofOptional otherwise h
      exact .inside (.elseBody hm) hc
  | .integer _, h | .str _, h | .symbol _, h | .selfRef, h | .localVar _, h | .instanceVar _, h
  | .globalVar _, h | .classDef _ _ _, h | .moduleDef _ _, h | .methodDef _ _ _ _, h
  | .directive _ _, h | .unknown, h => absurd h.mem.1 List.not_mem_nil

theorem crosses_ofNodes : (nodes : List Node) →
    Swapped x y (Evaluated.ofNodes nodes) (assigned (Bindings.ofNodes nodes)) →
      ∃ child ∈ nodes, child.Crosses x y
  | [], h => absurd h.mem.1 List.not_mem_nil
  | node :: nodes, h => by
    rw [Evaluated.ofNodes, Bindings.ofNodes, assigned_append] at h
    rcases h.append_cases (perm_ofNode node) with h | h
    · exact ⟨node, List.mem_cons_self, crosses_ofNode node h⟩
    · obtain ⟨child, hm, hc⟩ := crosses_ofNodes nodes h
      exact ⟨child, List.mem_cons_of_mem _ hm, hc⟩

theorem crosses_ofReceiver : (receiver : Option Node) →
    Swapped x y (Evaluated.ofReceiver receiver) (assigned (Bindings.ofReceiver receiver)) →
      ∃ child, receiver = some child ∧ child.Crosses x y
  | none, h => absurd h.mem.1 List.not_mem_nil
  | some node, h => ⟨node, rfl, crosses_ofNode node h⟩

theorem crosses_ofBranches : (branches : List Branch) →
    Swapped x y (Evaluated.ofBranches branches) (assigned (Bindings.ofBranches branches)) →
      ∃ branch ∈ branches,
        branch.condition.Crosses x y ∨ ∃ child ∈ branch.body, child.Crosses x y
  | [], h => absurd h.mem.1 List.not_mem_nil
  | ⟨condition, body⟩ :: branches, h => by
    rw [Evaluated.ofBranches, Bindings.ofBranches, assigned_append, assigned_append] at h
    rcases h.append_cases ((perm_ofNode condition).append (perm_ofNodes body)) with h | h
    · rcases h.append_cases (perm_ofNode condition) with h | h
      · exact ⟨_, List.mem_cons_self, .inl (crosses_ofNode condition h)⟩
      · exact ⟨_, List.mem_cons_self, .inr (crosses_ofNodes body h)⟩
    · obtain ⟨branch, hm, hc⟩ := crosses_ofBranches branches h
      exact ⟨branch, List.mem_cons_of_mem _ hm, hc⟩

theorem crosses_ofOptional : (optional : Option (List Node)) →
    Swapped x y (Evaluated.ofOptional optional) (assigned (Bindings.ofOptional optional)) →
      ∃ body, optional = some body ∧ ∃ child ∈ body, child.Crosses x y
  | none, h => absurd h.mem.1 List.not_mem_nil
  | some body, h => ⟨body, rfl, crosses_ofNodes body h⟩

end

/-- A loop whose condition assigns one variable and whose body assigns another one, where neither
was assigned before, makes them change places. -/
theorem of_loop {before after body : Body} {kind : LoopKind} {condition : Node} {span : Span}
    (hx : condition.Assigns x ∧ ¬ body.Assigns x) (hy : body.Assigns y ∧ ¬ condition.Assigns y)
    (new : ¬ before.Assigns x ∧ ¬ before.Assigns y) :
    Swapped x y (evaluatedNames (before ++ ⟨.loop kind condition body, span⟩ :: after))
      (assignedNames (before ++ ⟨.loop kind condition body, span⟩ :: after)) := by
  have first {l l' : List String} {x y : String} (hx : x ∈ l) (hy : y ∉ l) :
      (l ++ l').idxOf x < (l ++ l').idxOf y := by
    have := List.idxOf_lt_length_of_mem hx
    rw [List.idxOf_append_of_mem hx, List.idxOf_append_of_notMem hy]
    omega
  have later {l l' : List String} {x y : String} (hx : x ∉ l) (hy : y ∉ l)
      (lt : l'.idxOf x < l'.idxOf y) : (l ++ l').idxOf x < (l ++ l').idxOf y := by
    rw [List.idxOf_append_of_notMem hx, List.idxOf_append_of_notMem hy]
    omega
  rw [← mem_evaluated_node, ← mem_assignedNames] at hx
  rw [← mem_assignedNames, ← mem_evaluated_node] at hy
  constructor
  · rw [← mem_evaluatedNames, ← mem_evaluatedNames] at new
    rw [evaluatedNames, Evaluated.ofNodes_append]
    refine later new.1 new.2 ?_
    show (Evaluated.ofNode condition ++ Evaluated.ofNodes body ++ Evaluated.ofNodes after).idxOf x
      < (Evaluated.ofNode condition ++ Evaluated.ofNodes body ++ Evaluated.ofNodes after).idxOf y
    rw [List.append_assoc]
    exact first hx.1 hy.2
  · rw [← mem_assignedNames, ← mem_assignedNames] at new
    show (assigned (Bindings.ofNodes _)).idxOf y < (assigned (Bindings.ofNodes _)).idxOf x
    rw [Bindings.ofNodes_append, assigned_append]
    refine later new.2 new.1 ?_
    rw [Bindings.ofNodes, Bindings.ofNode, Bindings.ofForm, assigned_append, assigned_append,
      List.append_assoc]
    exact first hy.1 hx.2

end Swapped

/-! ## Indexes -/

theorem lookup_zipIdx {names : List String} {k i : Nat} {x : String}
    (h : (names.zipIdx k).lookup x = some i) : x ∈ names ∧ i = k + names.idxOf x := by
  induction names generalizing k with
  | nil => cases h
  | cons name names ih =>
    rw [List.zipIdx_cons, List.lookup_cons] at h
    by_cases same : x = name
    · subst same
      rw [beq_self_eq_true] at h
      cases h
      exact ⟨List.mem_cons_self, by rw [List.idxOf_cons_self]; rfl⟩
    · rw [beq_eq_false_iff_ne.mpr same] at h
      obtain ⟨mem, rfl⟩ := ih h
      refine ⟨List.mem_cons_of_mem _ mem, ?_⟩
      rw [List.idxOf_cons_ne _ (Ne.symm same)]
      omega

namespace VarMap

variable {xs : List String} {x y : String} {i j : Nat}

/-- Variables are kept in the order of their first occurrences. -/
theorem idxOf_names_foldl (hx : x ∈ xs) (hy : y ∈ xs) :
    ((xs.foldl declare empty).names.idxOf x < (xs.foldl declare empty).names.idxOf y
      ↔ xs.idxOf x < xs.idxOf y) := by
  have mem (xs : List String) (n : String) : n ∈ (xs.foldl declare empty).names ↔ n ∈ xs := by
    rw [mem_names_foldl]
    exact or_iff_right List.not_mem_nil
  induction xs using List.reverseRecOn with
  | nil => cases hx
  | append_singleton xs z ih =>
    rw [List.foldl_concat]
    rw [List.mem_append, List.mem_singleton] at hx hy
    by_cases known : z ∈ xs
    · have hx : x ∈ xs := hx.elim id (· ▸ known)
      have hy : y ∈ xs := hy.elim id (· ▸ known)
      rw [declare_of_known ((mem xs z).mpr known), List.idxOf_append_of_mem hx,
        List.idxOf_append_of_mem hy]
      exact ih hx hy
    · rw [names_declare_of_new fun h => known ((mem xs z).mp h)]
      have new : z ∉ (xs.foldl declare empty).names := fun h => known ((mem xs z).mp h)
      rcases hx with hx | rfl <;> rcases hy with hy | rfl
      · rw [List.idxOf_append_of_mem hx, List.idxOf_append_of_mem hy,
          List.idxOf_append_of_mem ((mem xs x).mpr hx),
          List.idxOf_append_of_mem ((mem xs y).mpr hy)]
        exact ih hx hy
      · have := List.idxOf_lt_length_of_mem hx
        have := List.idxOf_lt_length_of_mem ((mem xs x).mpr hx)
        rw [List.idxOf_append_of_mem hx, List.idxOf_append_of_notMem known,
          List.idxOf_append_of_mem ((mem xs x).mpr hx), List.idxOf_append_of_notMem new]
        omega
      · have := List.idxOf_lt_length_of_mem hy
        have := List.idxOf_lt_length_of_mem ((mem xs y).mpr hy)
        rw [List.idxOf_append_of_mem hy, List.idxOf_append_of_notMem known,
          List.idxOf_append_of_mem ((mem xs y).mpr hy), List.idxOf_append_of_notMem new]
        omega
      · exact iff_of_false (Nat.lt_irrefl _) (Nat.lt_irrefl _)

/-- The indexes of variables are in the order of their first occurrences. -/
theorem index_lt_iff (hi : (xs.foldl declare empty).get? x = some i)
    (hj : (xs.foldl declare empty).get? y = some j) :
    i < j ↔ xs.idxOf x < xs.idxOf y := by
  obtain ⟨added, -, -, entries⟩ := extends_foldl empty xs
  have names : (xs.foldl declare empty).names = added := by
    rw [names, entries]
    exact List.zipIdx_map_fst 0 added
  have mem {n : String} (h : n ∈ added) : n ∈ xs := by
    rw [← names, mem_names_foldl] at h
    exact h.resolve_left List.not_mem_nil
  rw [get?, entries] at hi hj
  obtain ⟨hx, rfl⟩ := lookup_zipIdx hi
  obtain ⟨hy, rfl⟩ := lookup_zipIdx hj
  rw [← idxOf_names_foldl (mem hx) (mem hy), names]
  exact Nat.add_lt_add_iff_left

end VarMap

namespace Lowering

open C

/-- What is recorded from an empty map. -/
theorem vars_of_lowerBody {program : Body} {lead : String} {code : Code} {ctx' : Context}
    (h : lowerBody program (.start lead .empty) = (.ok code, ctx')) :
    ctx'.vars = (assignedNames program).foldl VarMap.declare .empty := by
  have vars := ((lowers_of_lowerBody h).records false).vars
  have outer : (Context.start lead .empty).depth = 0 := rfl
  rwa [if_pos outer, ← Bindings.assigned_ofNodes] at vars

/-- **Indexes and the order of evaluation.** In a body that is lowered from an empty map, the
indexes of two variables are in the order in which lowering meets their first assignments. The one
that is evaluated first has the smaller index, unless some loop assigns it in its condition and the
other one in its body. Every loop that is the first to assign two variables, one in its condition
and one in its body, does give the second one the smaller index. -/
theorem index_lt_of_lowerBody {program : Body} {lead : String} {code : Code} {ctx' : Context}
    (h : lowerBody program (.start lead .empty) = (.ok code, ctx')) :
    (∀ x y i j, ctx'.vars.get? x = some i → ctx'.vars.get? y = some j →
      (i < j ↔ (assignedNames program).idxOf x < (assignedNames program).idxOf y)
        ∧ ((evaluatedNames program).idxOf x < (evaluatedNames program).idxOf y →
          i < j ∨ program.Crosses x y))
      ∧ ∀ before kind condition body span after x y,
        program = before ++ ⟨.loop kind condition body, span⟩ :: after →
          condition.Assigns x ∧ ¬ Body.Assigns body x →
          Body.Assigns body y ∧ ¬ condition.Assigns y →
          ¬ Body.Assigns before x ∧ ¬ Body.Assigns before y →
            (evaluatedNames program).idxOf x < (evaluatedNames program).idxOf y
              ∧ ∃ i j, ctx'.vars.get? x = some i ∧ ctx'.vars.get? y = some j ∧ j < i := by
  rw [vars_of_lowerBody h]
  refine ⟨fun x y i j hi hj => ⟨VarMap.index_lt_iff hi hj, fun evaluated => ?_⟩, ?_⟩
  · by_contra other
    rw [not_or, VarMap.index_lt_iff hi hj] at other
    have lowered : (assignedNames program).idxOf y < (assignedNames program).idxOf x := by
      have hx : x ∈ assignedNames program := by
        have known := VarMap.isSome_get?_iff.mp (Option.isSome_of_eq_some hi)
        rw [VarMap.mem_names_foldl] at known
        exact known.resolve_left List.not_mem_nil
      have apart : (assignedNames program).idxOf x ≠ (assignedNames program).idxOf y := by
        intro same
        rw [(List.idxOf_inj hx).mp same] at evaluated
        exact Nat.lt_irrefl _ evaluated
      omega
    exact other.2 (Swapped.crosses_ofNodes program ⟨evaluated, lowered⟩)
  · rintro before kind condition body span after x y rfl hx hy new
    have swapped : Swapped x y
        (evaluatedNames (before ++ ⟨.loop kind condition body, span⟩ :: after))
        (assignedNames (before ++ ⟨.loop kind condition body, span⟩ :: after)) :=
      Swapped.of_loop hx hy new
    have recorded {n : String}
        (hn : n ∈ assignedNames (before ++ ⟨.loop kind condition body, span⟩ :: after)) :
        ∃ i, (((assignedNames (before ++ ⟨.loop kind condition body, span⟩ :: after)).foldl
          VarMap.declare .empty).get? n) = some i := by
      rw [← Option.isSome_iff_exists, VarMap.isSome_get?_iff, VarMap.mem_names_foldl]
      exact .inr hn
    obtain ⟨mem, mem'⟩ := swapped.mem
    obtain ⟨i, hi⟩ := recorded ((perm_ofNodes _).mem_iff.mp mem)
    obtain ⟨j, hj⟩ := recorded mem'
    exact ⟨swapped.evaluated, i, j, hi, hj, (VarMap.index_lt_iff hj hi).mpr swapped.lowered⟩

/-- The condition of a loop assigns `x`, its body assigns `y`. -/
def crossedProgram : Body :=
  let bind (name : String) : Node := ⟨.assign (.localVar name) ⟨.integer 1, default⟩, default⟩
  [⟨.loop .whileTruthy (bind "x") [bind "y"], default⟩]

theorem index_lt_of_lowerBody_crossedProgram :
    ∃ code ctx', lowerBody crossedProgram (.start "" .empty) = (.ok code, ctx')
      ∧ evaluatedNames crossedProgram = ["x", "y"] ∧ Body.Crosses crossedProgram "x" "y"
      ∧ ctx'.vars.get? "x" = some 1 ∧ ctx'.vars.get? "y" = some 0 := by
  have ok : (lowerBody crossedProgram (.start "" .empty)).1.isOk = true := by decide
  have entries : (lowerBody crossedProgram (.start "" .empty)).2.vars.entries
      = [("y", 0), ("x", 1)] := by decide
  have evaluated : evaluatedNames crossedProgram = ["x", "y"] := by decide
  rcases h : lowerBody crossedProgram (.start "" .empty) with ⟨_ | code, ctx'⟩
  · rw [h] at ok
    cases ok
  · rw [h] at entries
    have hx : ctx'.vars.get? "x" = some 1 := by
      rw [VarMap.get?, entries]
      rfl
    have hy : ctx'.vars.get? "y" = some 0 := by
      rw [VarMap.get?, entries]
      rfl
    obtain ⟨-, crossed⟩ := (index_lt_of_lowerBody h).1 "x" "y" 1 0 hx hy
    rw [evaluated] at crossed
    exact ⟨code, ctx', rfl, evaluated, (crossed (by decide)).resolve_left (by decide), hx, hy⟩

end Lowering

end ScriptCompiler
