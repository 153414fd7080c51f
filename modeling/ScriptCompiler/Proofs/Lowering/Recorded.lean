import Mathlib.Data.List.Induction
import Mathlib.Data.List.Nodup
import Mathlib.Tactic.Tauto
import ScriptCompiler.Proofs.Lowering.Derivation
import ScriptCompiler.Proofs.Syntax.Bindings

/-!
# Recorded variables

A compilation records the local variables of its outermost scope. They are the names of the
outermost assignments, in the order of their first occurrences. Whether a lowering succeeds or
fails, it leaves every scope that it enters, so that the next one records its variables too.
-/

namespace ScriptCompiler

/-! ## Maps of variables -/

namespace VarMap

/-- Every variable has its place in the list as its index, and no variable stands there twice. -/
structure Indexed (m : VarMap) : Prop where
  indexes : m.entries.map Prod.snd = List.range m.size
  names : m.names.Nodup

theorem Indexed.empty : Indexed .empty :=
  ⟨rfl, .nil⟩

theorem entries_declare_of_new {m : VarMap} {name : String} (h : name ∉ m.names) :
    (m.declare name).entries = m.entries ++ [(name, m.size)] := by
  simp [declare, h]

theorem names_declare_of_new {m : VarMap} {name : String} (h : name ∉ m.names) :
    (m.declare name).names = m.names ++ [name] := by
  rw [names, entries_declare_of_new h, List.map_append]
  rfl

theorem Indexed.declare {m : VarMap} (h : m.Indexed) (name : String) :
    (m.declare name).Indexed := by
  by_cases known : name ∈ m.names
  · rwa [declare_of_known known]
  · constructor
    · rw [size_declare_of_new known, entries_declare_of_new known, List.map_append, h.indexes,
        List.range_succ]
      rfl
    · rw [names_declare_of_new known]
      exact List.nodup_append.mpr ⟨h.names, List.nodup_singleton _, by grind⟩

/-- Recording a variable keeps those that are known, in their places. -/
theorem prefix_declare (m : VarMap) (name : String) :
    m.entries <+: (m.declare name).entries := by
  unfold declare
  split
  · exact List.prefix_rfl
  · exact List.prefix_append _ _

theorem mem_names_declare {m : VarMap} {name n : String} :
    n ∈ (m.declare name).names ↔ n ∈ m.names ∨ n = name := by
  by_cases known : name ∈ m.names
  · rw [declare_of_known known]
    exact ⟨.inl, fun h => h.elim id (· ▸ known)⟩
  · rw [names_declare_of_new known, List.mem_append, List.mem_singleton]

section Several

variable (m : VarMap) (xs : List String)

theorem Indexed.foldl {m : VarMap} (h : m.Indexed) (xs : List String) :
    (xs.foldl VarMap.declare m).Indexed := by
  induction xs generalizing m with
  | nil => exact h
  | cons x xs ih => exact ih (h.declare x)

theorem prefix_foldl : m.entries <+: (xs.foldl declare m).entries := by
  induction xs generalizing m with
  | nil => exact List.prefix_rfl
  | cons x xs ih => exact (prefix_declare m x).trans (ih _)

theorem mem_names_foldl {n : String} :
    n ∈ (xs.foldl declare m).names ↔ n ∈ m.names ∨ n ∈ xs := by
  induction xs generalizing m with
  | nil => simp
  | cons x xs ih =>
    rw [List.foldl_cons, ih, mem_names_declare, List.mem_cons]
    tauto

end Several

/-- The second map has the entries of the first one as they are. Behind them it has one for each new
name of some, with the indexes that follow. -/
def Extends (m m' : VarMap) (isAssigned : String → Prop) : Prop :=
  ∃ added : List String, added.Nodup ∧ (∀ n, n ∈ added ↔ isAssigned n ∧ n ∉ m.names)
    ∧ m'.entries = m.entries ++ added.zipIdx m.size

theorem extends_foldl (m : VarMap) (xs : List String) :
    m.Extends (xs.foldl declare m) (· ∈ xs) := by
  induction xs using List.reverseRecOn with
  | nil => exact ⟨[], List.nodup_nil, by simp, (List.append_nil _).symm⟩
  | append_singleton xs x ih =>
    obtain ⟨added, nodup, mem, entries⟩ := ih
    rw [List.foldl_concat]
    by_cases known : x ∈ (xs.foldl declare m).names
    · refine ⟨added, nodup, fun n => ?_, by rw [declare_of_known known, entries]⟩
      rw [mem_names_foldl] at known
      simp only [mem, List.mem_append, List.mem_singleton]
      grind
    · refine ⟨added ++ [x], ?_, fun n => ?_, ?_⟩
      · have new : x ∉ added := by
          rw [mem_names_foldl] at known
          grind
        exact List.nodup_append.mpr ⟨nodup, List.nodup_singleton x, by grind⟩
      · rw [mem_names_foldl] at known
        simp only [mem, List.mem_append, List.mem_singleton]
        grind
      · have size : (xs.foldl declare m).size = m.size + added.length := by
          rw [VarMap.size, entries, List.length_append, List.length_zipIdx, VarMap.size]
        rw [entries_declare_of_new known, entries, size, List.zipIdx_append, List.append_assoc]
        rfl

end VarMap

end ScriptCompiler

/-! ## Outermost assignments are recorded -/

namespace ScriptCompiler.Lowering

open C Outermost

/-- Between two states of a compilation, some local variables are recorded, unless an inner scope is
open. -/
structure Records (ctx ctx' : Context) (names : List String) : Prop where
  depth : ctx'.depth = ctx.depth
  vars : ctx'.vars = (if ctx.depth = 0 then names else []).foldl VarMap.declare ctx.vars

namespace Records

variable {ctx ctx₁ ctx₂ ctx₃ : Context} {xs ys : List String}

theorem refl (ctx : Context) : Records ctx ctx [] :=
  ⟨rfl, by rw [ite_self]; rfl⟩

theorem trans (h : Records ctx₁ ctx₂ xs) (h' : Records ctx₂ ctx₃ ys) :
    Records ctx₁ ctx₃ (xs ++ ys) := by
  refine ⟨h'.depth.trans h.depth, ?_⟩
  rw [h'.vars, h.vars, h.depth]
  split
  · rw [List.foldl_append]
  · rfl

/-- Numbers do not count. -/
theorem next (h : Records ctx₁ ctx₂ xs) : Records ctx₁ ctx₂.next xs :=
  ⟨h.depth, h.vars⟩

theorem skipped (h : Records ctx₁.next ctx₂ xs) : Records ctx₁ ctx₂ xs :=
  ⟨h.depth, h.vars⟩

/-- Nothing is recorded in an inner scope. -/
theorem scope (h : Records ctx₁.opened ctx₂ xs) : Records ctx₁ ctx₂.closed [] := by
  refine ⟨?_, ?_⟩
  · show ctx₂.depth - 1 = ctx₁.depth
    rw [h.depth]
    rfl
  · rw [ite_self]
    show ctx₂.vars = ctx₁.vars
    have hd : ctx₁.opened.depth ≠ 0 := Nat.succ_ne_zero _
    rw [h.vars, if_neg hd]
    rfl

theorem assign (ctx : Context) (name : String) : Records ctx (ctx.declare name) [name] := by
  unfold Context.declare
  split
  · next h => exact ⟨rfl, by rw [if_pos h]; rfl⟩
  · next h => exact ⟨rfl, by rw [if_neg h]; rfl⟩

end Records

theorem Records.marshal {ctx ctx' : Context} {vars : List Variable} {stmts : List Stmt}
    {argv : ArgVector} (h : marshal vars ctx = (.ok (stmts, argv), ctx')) :
    Records ctx ctx' [] := by
  rcases marshal_ok h with ⟨-, -, -, rfl⟩ | ⟨_, -, -, -, rfl⟩ | ⟨-, -, -, rfl⟩
  · exact .refl _
  · exact .refl _
  · exact (Records.refl _).next

theorem ofForm_leaf {form : Form} {base : String} {e : Expr} (h : leaf? form = some (base, e))
    (inside : Bool) : ofForm inside form = [] := by
  cases form <;> cases h <;> rfl

theorem ofForm_namespace {form : Form} {ns : Namespace} (h : namespace? form = some ns)
    (inside : Bool) : ofForm inside form = [] := by
  cases form with
  | classDef name superclass body => rfl
  | moduleDef name body => rfl
  | _ => cases h

mutual

/-- **A lowering records the outermost assignments**, each at its first occurrence. -/
theorem Lowers.records {ctx ctx' : Context} {node : Node} {frag : Fragment}
    (h : Lowers ctx node frag ctx') (inside : Bool) :
    Records ctx ctx' ((ofNode inside node).map (·.name)) := by
  match h with
  | .leaf h =>
    rw [ofNode, ofForm_leaf h]
    exact (Records.refl _).next
  | .selfRef => exact .refl _
  | .array elements => exact (elements.records inside).skipped
  | @Lowers.assign _ _ _ target _ _ value =>
    cases target with
    | localVar name =>
      rw [ofNode, ofForm, List.map_append]
      exact (value.records inside).trans (.assign _ name)
    | instanceVar name => exact value.records inside
    | globalVar name => exact value.records inside
  | .namespace_ h body =>
    rw [ofNode, ofForm_namespace h]
    exact ((body.records inside).scope.skipped).next.next
  | .methodDef placed body => exact ((body.records inside).scope.skipped).next
  | .send receiver args marshal block =>
    rw [ofNode, ofForm, List.map_append]
    have := (((receiver.records inside).trans (args.records inside)).trans
      (.marshal marshal)).trans block.records
    rw [List.append_nil, List.append_nil] at this
    exact this.next
  | .conditional branches => exact (branches.records inside).skipped
  | .loop body condition =>
    rw [ofNode, ofForm, List.map_append]
    exact ((body.records inside).skipped.trans (condition.records inside)).next
  | .rescue body handler otherwise =>
    rw [ofNode, ofForm, List.map_append, List.map_append, map_name_handled]
    exact (((body.records true).skipped.trans (handler.records true).skipped).trans
      (otherwise.records true)).next.next

theorem LowersBody.records {ctx ctx' : Context} {nodes : Body} {code : Code}
    (h : LowersBody ctx nodes code ctx') (inside : Bool) :
    Records ctx ctx' ((ofNodes inside nodes).map (·.name)) := by
  match h with
  | .nil => exact .refl _
  | .last last =>
    rw [ofNodes, ofNodes, List.append_nil]
    exact last.records inside
  | .cons first others =>
    rw [ofNodes, List.map_append]
    exact (first.records inside).trans (others.records inside)

theorem LowersElements.records {ctx ctx' : Context} {v : Variable} {nodes : List Node}
    {code : Code} (h : LowersElements ctx v nodes code ctx') (inside : Bool) :
    Records ctx ctx' ((ofNodes inside nodes).map (·.name)) := by
  match h with
  | .nil => exact .refl _
  | .cons first others =>
    rw [ofNodes, List.map_append]
    exact (first.records inside).trans (others.records inside)

theorem LowersReceiver.records {ctx ctx' : Context} {receiver : Option Node} {code : Code}
    {rv : Option Variable} (h : LowersReceiver ctx receiver code rv ctx') (inside : Bool) :
    Records ctx ctx' ((ofReceiver inside receiver).map (·.name)) := by
  match h with
  | .none => exact .refl _
  | .some receiver => exact receiver.records inside

theorem LowersArgs.records {ctx ctx' : Context} {nodes : List Node} {code : Code}
    {vars : List Variable} (h : LowersArgs ctx nodes code vars ctx') (inside : Bool) :
    Records ctx ctx' ((ofNodes inside nodes).map (·.name)) := by
  match h with
  | .nil => exact .refl _
  | .cons first others =>
    rw [ofNodes, List.map_append]
    exact (first.records inside).trans (others.records inside)

theorem LowersBlock.records {ctx ctx' : Context} {block : Option Block} {code : Code}
    {bn : Option Name} (h : LowersBlock ctx block code bn ctx') : Records ctx ctx' [] := by
  match h with
  | .none => exact .refl _
  | .some placed body => exact ((body.records false).scope.skipped).next

theorem LowersBranches.records {ctx ctx' : Context} {result : Variable}
    {otherwise : Option (List Node)} {branches : List Branch} {code : Code}
    (h : LowersBranches ctx result otherwise branches code ctx') (inside : Bool) :
    Records ctx ctx'
      ((ofBranches inside branches ++ ofOtherwise inside otherwise).map (·.name)) := by
  match h with
  | .nil otherwise => exact otherwise.records inside
  | .cons condition body others =>
    rw [ofBranches, List.append_assoc, List.map_append, List.map_append]
    exact ((condition.records inside).trans (body.records inside).skipped).trans
      (others.records inside)

theorem LowersOtherwise.records {ctx ctx' : Context} {result : Variable}
    {otherwise : Option (List Node)} {code : Code}
    (h : LowersOtherwise ctx result otherwise code ctx') (inside : Bool) :
    Records ctx ctx' ((ofOtherwise inside otherwise).map (·.name)) := by
  match h with
  | .none => exact .refl _
  | .some body => exact (body.records inside).skipped

theorem LowersElse.records {ctx ctx' : Context} {otherwise : Option (List Node)}
    {functions : List Function} {name : Option Name}
    (h : LowersElse ctx otherwise functions name ctx') (inside : Bool) :
    Records ctx ctx' ((ofOtherwise inside otherwise).map (·.name)) := by
  match h with
  | .none => exact .refl _
  | .some body => exact (body.records inside).skipped

end

/-! ## States after steps

A step that fails keeps the state that it reached, wherever in a tree that was. So what relates the
states before and after every single step relates those before and after a lowering, too.
-/

/-- The relation goes with the steps of lowering: it holds where nothing changes, along steps one
after the other, where a name is given out and where a variable is recorded, and around a scope. -/
structure Accompanies (R : Context → Context → Prop) : Prop where
  refl : ∀ ctx, R ctx ctx
  trans : ∀ {ctx₁ ctx₂ ctx₃}, R ctx₁ ctx₂ → R ctx₂ ctx₃ → R ctx₁ ctx₃
  next : ∀ ctx, R ctx ctx.next
  declare : ∀ ctx name, R ctx (ctx.declare name)
  scope : ∀ {ctx ctx'}, R ctx.opened ctx' → R ctx ctx'.closed

/-- The relation holds between the states before and after the step, whether it succeeds or not. -/
def Along {α : Type} (R : Context → Context → Prop) (step : Step α) : Prop :=
  ∀ ctx, R ctx (step ctx).2

section Along

set_option linter.unusedSectionVars false

variable {α β : Type} {R : Context → Context → Prop} {step : Step α} {f : α → Step β}
  (hR : Accompanies R)

include hR

namespace Along

theorem pure (a : α) : Along R (Pure.pure a : Step α) :=
  hR.refl

theorem throw (e : Failure) : Along R (throwThe Failure e : Step α) :=
  hR.refl

theorem bind (h : Along R step) (hf : ∀ a, Along R (f a)) : Along R (step >>= f) := by
  intro ctx
  have first := h ctx
  rcases hs : step ctx with ⟨e | a, mid⟩ <;> rw [hs] at first
  · rwa [bind_of_error hs]
  · rw [bind_of_ok hs]
    exact hR.trans first (hf a mid)

theorem inScope (h : Along R step) : Along R (Lowering.inScope step) :=
  fun ctx => hR.scope (h ctx.opened)

theorem fresh (base : String) : Along R (Lowering.fresh base) :=
  hR.next

theorem freshVariable (base : String) : Along R (Lowering.freshVariable base) :=
  hR.next

theorem bindFresh (base : String) (value : Expr) : Along R (Lowering.bindFresh base value) :=
  hR.next

theorem store (target : Target) (value : Variable) : Along R (Lowering.store target value) := by
  cases target with
  | localVar name => exact fun ctx => hR.declare ctx name
  | instanceVar name => exact hR.refl
  | globalVar name => exact hR.refl

theorem openNamespace (base name : String) (create : Expr) (function : Name) :
    Along R (Lowering.openNamespace base name create function) :=
  fun ctx => hR.trans (hR.next ctx) (hR.next ctx.next)

theorem marshal (args : List Variable) : Along R (Lowering.marshal args) := by
  match args with
  | [] | [_] => exact hR.refl
  | _ :: _ :: _ => exact hR.next

theorem checkParams (owner : ParamOwner) (params : List Param) :
    Along R (Lowering.checkParams owner params) := by
  unfold Lowering.checkParams
  cases misplacedBlock? params with
  | none => exact .pure hR ()
  | some p => exact .throw hR _

end Along

mutual

/-- **Every lowering goes along**, also one that fails. -/
theorem along_lower (node : Node) : Along R (lower node) := by
  match node with
  | ⟨form, span⟩ =>
    rw [lower]
    exact along_lowerForm span form
termination_by structural node

theorem along_lowerForm (span : Span) (form : Form) : Along R (lowerForm span form) := by
  cases form with
  | integer | str | symbol | localVar | instanceVar | globalVar =>
    rw [lowerForm]
    exact .bindFresh hR _ _
  | selfRef =>
    rw [lowerForm]
    exact .pure hR _
  | array elements =>
    rw [lowerForm]
    refine .bind hR (.freshVariable hR _) fun array => ?_
    exact .bind hR (along_lowerElements array elements) fun _ => .pure hR _
  | assign target value =>
    rw [lowerForm]
    refine .bind hR (along_lower value) fun _ => ?_
    exact .bind hR (.store hR _ _) fun _ => .pure hR _
  | classDef name superclass body =>
    rw [lowerForm]
    refine .bind hR (.fresh hR _) fun function => ?_
    refine .bind hR (.inScope hR (along_lowerBody body)) fun _ => ?_
    exact .bind hR (.openNamespace hR _ _ _ _) fun _ => .pure hR _
  | moduleDef name body =>
    rw [lowerForm]
    refine .bind hR (.fresh hR _) fun function => ?_
    refine .bind hR (.inScope hR (along_lowerBody body)) fun _ => ?_
    exact .bind hR (.openNamespace hR _ _ _ _) fun _ => .pure hR _
  | methodDef owner name params body =>
    rw [lowerForm]
    refine .bind hR (.checkParams hR _ _) fun _ => .bind hR (.fresh hR _) fun function => ?_
    refine .bind hR (.inScope hR (along_lowerBody body)) fun _ => ?_
    exact .bind hR (.bindFresh hR _ _) fun _ => .pure hR _
  | send receiver name args block =>
    rw [lowerForm]
    refine .bind hR (along_lowerReceiver receiver) fun _ => ?_
    refine .bind hR (along_lowerArgs args) fun _ => .bind hR (.marshal hR _) fun _ => ?_
    refine .bind hR (along_lowerBlock name block) fun _ => ?_
    exact .bind hR (.bindFresh hR _ _) fun _ => .pure hR _
  | conditional branches otherwise =>
    rw [lowerForm]
    refine .bind hR (.freshVariable hR _) fun result => ?_
    exact .bind hR (along_lowerBranches result (along_lowerOtherwise result otherwise) branches)
      fun _ => .pure hR _
  | loop kind condition body =>
    rw [lowerForm]
    refine .bind hR (.fresh hR _) fun function => .bind hR (along_lowerBody body) fun _ => ?_
    refine .bind hR (along_lower condition) fun _ => ?_
    exact .bind hR (.bindFresh hR _ _) fun _ => .pure hR _
  | rescue body variable_ handler otherwise =>
    rw [lowerForm]
    refine .bind hR (.fresh hR _) fun function => .bind hR (along_lowerBody body) fun _ => ?_
    refine .bind hR (.fresh hR _) fun _ => .bind hR (along_lowerBody handler) fun _ => ?_
    refine .bind hR (along_lowerElseBody otherwise) fun _ => .bind hR (.fresh hR _) fun _ => ?_
    exact .bind hR (.bindFresh hR _ _) fun _ => .pure hR _
  | directive kind path =>
    rw [lowerForm]
    exact .throw hR _
  | unknown =>
    rw [lowerForm]
    exact .throw hR _
termination_by structural form

theorem along_lowerBody (nodes : Body) : Along R (lowerBody nodes) := by
  match nodes with
  | [] =>
    rw [lowerBody]
    exact .pure hR _
  | [node] =>
    rw [lowerBody]
    exact .bind hR (along_lower node) fun _ => .pure hR _
  | node :: next :: nodes =>
    rw [lowerBody]
    · refine .bind hR (along_lower node) fun _ => ?_
      exact .bind hR (along_lowerBody (next :: nodes)) fun _ => .pure hR _
    · simp
termination_by structural nodes

theorem along_lowerElements (array : Variable) (nodes : List Node) :
    Along R (lowerElements array nodes) := by
  match nodes with
  | [] =>
    rw [lowerElements]
    exact .pure hR _
  | node :: nodes =>
    rw [lowerElements]
    refine .bind hR (along_lower node) fun _ => ?_
    exact .bind hR (along_lowerElements array nodes) fun _ => .pure hR _
termination_by structural nodes

theorem along_lowerReceiver (receiver : Option Node) : Along R (lowerReceiver receiver) := by
  match receiver with
  | none =>
    rw [lowerReceiver]
    exact .pure hR _
  | some node =>
    rw [lowerReceiver]
    exact .bind hR (along_lower node) fun _ => .pure hR _
termination_by structural receiver

theorem along_lowerArgs (nodes : List Node) : Along R (lowerArgs nodes) := by
  match nodes with
  | [] =>
    rw [lowerArgs]
    exact .pure hR _
  | node :: nodes =>
    rw [lowerArgs]
    refine .bind hR (along_lower node) fun _ => ?_
    exact .bind hR (along_lowerArgs nodes) fun _ => .pure hR _
termination_by structural nodes

theorem along_lowerBlock (message : String) (block : Option Block) :
    Along R (lowerBlock message block) := by
  match block with
  | none =>
    rw [lowerBlock]
    exact .pure hR _
  | some ⟨params, body⟩ =>
    rw [lowerBlock]
    refine .bind hR (.checkParams hR _ _) fun _ => .bind hR (.fresh hR _) fun function => ?_
    refine .bind hR (.inScope hR (along_lowerBody body)) fun _ => ?_
    exact .bind hR (.fresh hR _) fun _ => .pure hR _
termination_by structural block

theorem along_lowerBranches (result : Variable) {otherwise : Step Code}
    (ho : Along R otherwise) (branches : List Branch) :
    Along R (lowerBranches result otherwise branches) := by
  match branches with
  | [] =>
    rw [lowerBranches]
    exact ho
  | ⟨condition, body⟩ :: branches =>
    rw [lowerBranches]
    refine .bind hR (along_lower condition) fun _ => .bind hR (.fresh hR _) fun function => ?_
    refine .bind hR (along_lowerBody body) fun _ => ?_
    exact .bind hR (along_lowerBranches result ho branches) fun _ => .pure hR _
termination_by structural branches

theorem along_lowerOtherwise (result : Variable) (otherwise : Option (List Node)) :
    Along R (lowerOtherwise result otherwise) := by
  match otherwise with
  | none =>
    rw [lowerOtherwise]
    exact .pure hR _
  | some body =>
    rw [lowerOtherwise]
    refine .bind hR (.fresh hR _) fun function => ?_
    exact .bind hR (along_lowerBody body) fun _ => .pure hR _
termination_by structural otherwise

theorem along_lowerElseBody (otherwise : Option (List Node)) :
    Along R (lowerElseBody otherwise) := by
  match otherwise with
  | none =>
    rw [lowerElseBody]
    exact .pure hR _
  | some body =>
    rw [lowerElseBody]
    refine .bind hR (.fresh hR _) fun function => ?_
    exact .bind hR (along_lowerBody body) fun _ => .pure hR _
termination_by structural otherwise

end

end Along

/-- A scope that is entered is left, and nothing else changes how many are open. -/
theorem accompanies_depth : Accompanies fun ctx ctx' => ctx'.depth = ctx.depth where
  refl _ := rfl
  trans h h' := h'.trans h
  next _ := rfl
  declare ctx name := by
    unfold Context.declare
    split <;> rfl
  scope {ctx ctx'} h := by
    show ctx'.depth - 1 = ctx.depth
    rw [h]
    rfl

/-! ## Variables of the outermost scope -/

/-- A body that is lowered in the outermost scope adds the variables that it assigns there. -/
theorem extends_of_lowerBody {program : Body} {ctx ctx' : Context} {code : Code}
    (outer : ctx.depth = 0) (h : lowerBody program ctx = (.ok code, ctx')) :
    ctx.vars.Extends ctx'.vars program.Assigns := by
  have vars := ((lowers_of_lowerBody h).records false).vars
  rw [if_pos outer, ← Bindings.assigned_ofNodes] at vars
  obtain ⟨added, nodup, mem, entries⟩ := VarMap.extends_foldl ctx.vars (assignedNames program)
  refine ⟨added, nodup, fun n => ?_, vars ▸ entries⟩
  simp only [mem, mem_assignedNames]

/-- **The variables of the outermost scope.** A body that is lowered in the outermost scope adds
those that it assigns there to the map, in which all others stay, with the indexes that follow.
After every lowering of a body or a node, also after one that failed somewhere inside of it, no
inner scope is open. So what is lowered next adds its variables just so. -/
theorem recorded_of_lowerBody (program : Body) (ctx : Context) (outer : ctx.depth = 0) :
    (∀ code ctx', lowerBody program ctx = (.ok code, ctx') →
        ctx.vars.Extends ctx'.vars program.Assigns)
      ∧ (lowerBody program ctx).2.depth = 0
      ∧ (∀ node, (lower node ctx).2.depth = 0)
      ∧ ∀ (next : Body) code ctx', lowerBody next (lowerBody program ctx).2 = (.ok code, ctx') →
        (lowerBody program ctx).2.vars.Extends ctx'.vars next.Assigns := by
  have left : (lowerBody program ctx).2.depth = 0 :=
    (along_lowerBody accompanies_depth program ctx).trans outer
  refine ⟨fun _ _ => extends_of_lowerBody outer, left, fun node => ?_, fun _ _ _ => ?_⟩
  · exact (along_lower accompanies_depth node ctx).trans outer
  · exact extends_of_lowerBody left

/-- The carried variable `x` is assigned again, others in an argument, in a condition, in a handler
and in a method. -/
def rebindingProgram : Body :=
  let bind (name : String) : Node := ⟨.assign (.localVar name) ⟨.integer 1, default⟩, default⟩
  [⟨.send none "p" [bind "y"] (some ⟨[.positional "b"], [bind "z"]⟩), default⟩,
    ⟨.loop .whileTruthy (bind "w") [bind "x"], default⟩,
    ⟨.methodDef none "m" [.positional "a"] [bind "v"], default⟩,
    ⟨.rescue [] (some "e") [bind "u", bind "y"] none, default⟩]

/-- A class with a method that holds a directive. -/
def refusedNode : Node :=
  ⟨.classDef "K" none [⟨.methodDef none "m" [] [⟨.directive .load "f", default⟩], default⟩],
    default⟩

theorem recorded_of_lowerBody_rebindingProgram :
    ∃ code ctx', lowerBody rebindingProgram (.start "" (.declare .empty "x")) = (.ok code, ctx')
      ∧ VarMap.Extends (.declare .empty "x") ctx'.vars (Body.Assigns rebindingProgram)
      ∧ ctx'.vars.entries = [("x", 0), ("y", 1), ("w", 2), ("u", 3)]
      ∧ (lower refusedNode ctx').1.isOk = false ∧ (lower refusedNode ctx').2.depth = 0 := by
  obtain ⟨recorded, left, -⟩ :=
    recorded_of_lowerBody rebindingProgram (.start "" (.declare .empty "x")) rfl
  have refused : (lower refusedNode
      (lowerBody rebindingProgram (.start "" (.declare .empty "x"))).2).1.isOk = false := by
    decide
  have entries : (lowerBody rebindingProgram (.start "" (.declare .empty "x"))).2.vars.entries
      = [("x", 0), ("y", 1), ("w", 2), ("u", 3)] := by decide +kernel
  have ok : (lowerBody rebindingProgram (.start "" (.declare .empty "x"))).1.isOk = true := by
    decide +kernel
  rcases h : lowerBody rebindingProgram (.start "" (.declare .empty "x")) with ⟨_ | code, ctx'⟩
  · rw [h] at ok
    cases ok
  · rw [h] at left entries refused
    exact ⟨code, ctx', rfl, recorded code ctx' h, entries, refused,
      (recorded_of_lowerBody [] ctx' left).2.2.1 refusedNode⟩

end ScriptCompiler.Lowering
