import Mathlib.Data.List.Basic
import Mathlib.Data.List.Nodup
import ScriptCompiler.Proofs.C.Naming
import ScriptCompiler.Proofs.Lowering.Derivation

/-!
# Numbers of generated names

Every generated name has a number of its own, above those given out before. So the functions that a
lowering makes have pairwise distinct names, and no later lowering makes a name that one of them or
a variable of the same compilation has.
-/

namespace ScriptCompiler.Lowering

open C

/-- Names given out between two states of a compilation: they have its lead and plain bases, and
each a number of its own, above those of the first state and not above those of the second. -/
structure Numbered (ctx ctx' : Context) (names : List Name) : Prop where
  lead : ctx'.lead = ctx.lead
  le : ctx.counter ≤ ctx'.counter
  leads : ∀ n ∈ names, n.lead = ctx.lead
  plain : ∀ n ∈ names, plainBase n.base = true
  above : ∀ n ∈ names, ctx.counter < n.number
  below : ∀ n ∈ names, n.number ≤ ctx'.counter
  nodup : names.Nodup

namespace Numbered

variable {ctx ctx₁ ctx₂ ctx₃ : Context} {xs ys : List Name}

theorem refl (ctx : Context) : Numbered ctx ctx [] where
  lead := rfl
  le := Nat.le_refl _
  leads _ hn := absurd hn List.not_mem_nil
  plain _ hn := absurd hn List.not_mem_nil
  above _ hn := absurd hn List.not_mem_nil
  below _ hn := absurd hn List.not_mem_nil
  nodup := List.nodup_nil

/-- Names given out one after the other. -/
theorem trans (h : Numbered ctx₁ ctx₂ xs) (h' : Numbered ctx₂ ctx₃ ys) :
    Numbered ctx₁ ctx₃ (xs ++ ys) where
  lead := h'.lead.trans h.lead
  le := Nat.le_trans h.le h'.le
  leads n hn := by
    rcases List.mem_append.mp hn with hn | hn
    · exact h.leads n hn
    · exact (h'.leads n hn).trans h.lead
  plain n hn := by
    rcases List.mem_append.mp hn with hn | hn
    · exact h.plain n hn
    · exact h'.plain n hn
  above n hn := by
    rcases List.mem_append.mp hn with hn | hn
    · exact h.above n hn
    · exact Nat.lt_of_le_of_lt h.le (h'.above n hn)
  below n hn := by
    rcases List.mem_append.mp hn with hn | hn
    · exact Nat.le_trans (h.below n hn) h'.le
    · exact h'.below n hn
  nodup := by
    rw [List.nodup_append']
    refine ⟨h.nodup, h'.nodup, ?_⟩
    intro n hx hy
    exact absurd (h.below n hx) (Nat.not_le.mpr (h'.above n hy))

theorem perm (h : Numbered ctx₁ ctx₂ xs) (hp : xs.Perm ys) : Numbered ctx₁ ctx₂ ys where
  lead := h.lead
  le := h.le
  leads n hn := h.leads n (hp.mem_iff.mpr hn)
  plain n hn := h.plain n (hp.mem_iff.mpr hn)
  above n hn := h.above n (hp.mem_iff.mpr hn)
  below n hn := h.below n (hp.mem_iff.mpr hn)
  nodup := hp.nodup_iff.mp h.nodup

/-- Some of the names. -/
theorem sublist (h : Numbered ctx₁ ctx₂ xs) (hs : ys.Sublist xs) : Numbered ctx₁ ctx₂ ys where
  lead := h.lead
  le := h.le
  leads n hn := h.leads n (hs.subset hn)
  plain n hn := h.plain n (hs.subset hn)
  above n hn := h.above n (hs.subset hn)
  below n hn := h.below n (hs.subset hn)
  nodup := h.nodup.sublist hs

/-- A name that is given out. -/
theorem name {base : String} (hb : plainBase base = true) :
    Numbered ctx ctx.next [ctx.name base] where
  lead := rfl
  le := Nat.le_succ _
  leads n hn := by rw [List.mem_singleton.mp hn]; rfl
  plain n hn := by rw [List.mem_singleton.mp hn]; exact hb
  above n hn := by rw [List.mem_singleton.mp hn]; exact Nat.lt_succ_self _
  below n hn := by rw [List.mem_singleton.mp hn]; exact Nat.le_refl _
  nodup := List.nodup_singleton _

/-- The last state may differ in what is not counted. -/
theorem right (h : Numbered ctx₁ ctx₂ xs) (hl : ctx₃.lead = ctx₂.lead)
    (hc : ctx₃.counter = ctx₂.counter) : Numbered ctx₁ ctx₃ xs :=
  ⟨hl.trans h.lead, hc.symm ▸ h.le, h.leads, h.plain, h.above, hc.symm ▸ h.below, h.nodup⟩

/-- The first state may differ in what is not counted. -/
theorem left (h : Numbered ctx₂ ctx₃ xs) (hl : ctx₁.lead = ctx₂.lead)
    (hc : ctx₁.counter = ctx₂.counter) : Numbered ctx₁ ctx₃ xs :=
  ⟨h.lead.trans hl.symm, hc.symm ▸ h.le, hl.symm ▸ h.leads, h.plain, hc.symm ▸ h.above, h.below,
    h.nodup⟩

/-- The body of a scope. -/
theorem scope (h : Numbered ctx₁.opened ctx₂ xs) : Numbered ctx₁ ctx₂.closed xs := by
  have hl : Numbered ctx₁ ctx₂ xs := h.left rfl rfl
  exact hl.right rfl rfl

/-- A number that is passed over. -/
theorem skip (h : Numbered ctx₁ ctx₂ xs) : Numbered ctx₁ ctx₂.next xs :=
  ⟨h.lead, Nat.le_succ_of_le h.le, h.leads, h.plain, h.above,
    fun n hn => Nat.le_succ_of_le (h.below n hn), h.nodup⟩

/-- A number that was passed over. -/
theorem skipped (h : Numbered ctx₁.next ctx₂ xs) : Numbered ctx₁ ctx₂ xs :=
  ⟨h.lead, Nat.le_of_succ_le h.le, h.leads, h.plain,
    fun n hn => Nat.lt_of_succ_lt (h.above n hn), h.below, h.nodup⟩

/-- The spellings of the names are pairwise distinct too. -/
theorem nodup_texts (h : Numbered ctx₁ ctx₂ xs) : (xs.map Name.text).Nodup := by
  refine h.nodup.map_on ?_
  intro a ha b hb hab
  exact Name.text_injective ((h.leads a ha).trans (h.leads b hb).symm) (h.plain a ha)
    (h.plain b hb) hab

end Numbered

/-! ## Lowerings -/

/-- The names of functions. -/
def namesOf (functions : List Function) : List Name :=
  functions.map (·.name)

theorem namesOf_append (a b : List Function) : namesOf (a ++ b) = namesOf a ++ namesOf b :=
  List.map_append

theorem plainBase_of_leaf {form : Form} {base : String} {value : Expr}
    (h : leaf? form = some (base, value)) : plainBase base = true := by
  cases form <;> cases h <;> rfl

theorem plainBase_of_namespace {form : Form} {ns : Namespace} (h : namespace? form = some ns) :
    plainBase ns.base = true ∧ plainBase ns.bodyBase = true
      ∧ plainBase (ns.base ++ "_result") = true := by
  cases form with
  | classDef name superclass body =>
    have hb : plainBase "class" = true := by decide
    have hf : plainBase "class_body" = true := by decide
    have hr : plainBase ("class" ++ "_result") = true := by decide
    cases h
    exact ⟨hb, hf, hr⟩
  | moduleDef name body =>
    have hb : plainBase "module" = true := by decide
    have hf : plainBase "module_body" = true := by decide
    have hr : plainBase ("module" ++ "_result") = true := by decide
    cases h
    exact ⟨hb, hf, hr⟩
  | _ => cases h

theorem plainBase_loopBase (kind : LoopKind) : plainBase (loopBase kind) = true := by
  cases kind <;> rfl

/-- The functions of a body that becomes a function of its own. -/
theorem Numbered.hoist {ctx ctx' : Context} {base : String} {signature : Signature}
    {before : List Stmt} {code : Code} (hb : plainBase base = true)
    (h : Numbered ctx.next ctx' (namesOf code.functions)) :
    Numbered ctx ctx' (namesOf (Lowering.hoist (ctx.name base) signature before code)) := by
  unfold Lowering.hoist
  rw [namesOf_append]
  exact ((Numbered.name hb).trans h).perm List.perm_append_comm

theorem Numbered.marshal {ctx ctx' : Context} {args : List Variable} {stmts : List Stmt}
    {argv : ArgVector} (h : Lowering.marshal args ctx = (.ok (stmts, argv), ctx')) :
    Numbered ctx ctx' [] := by
  rcases marshal_ok h with ⟨-, -, -, rfl⟩ | ⟨_, -, -, -, rfl⟩ | ⟨-, -, -, rfl⟩
  · exact .refl ctx'
  · exact .refl ctx'
  · exact (Numbered.refl ctx).skip

@[simp] theorem functions_ofStmts (stmts : List Stmt) : (Code.ofStmts stmts).functions = [] := rfl

@[simp] theorem namesOf_nil : namesOf [] = [] := rfl

mutual

/-- **The functions that a node is lowered to have numbers of their own.** -/
theorem Lowers.numbered {ctx ctx' : Context} {node : Node} {frag : Fragment}
    (h : Lowers ctx node frag ctx') : Numbered ctx ctx' (namesOf frag.code.functions) := by
  match h with
  | .leaf h => exact (Numbered.refl ctx).skip
  | .selfRef => exact .refl ctx
  | .array elements => exact elements.numbered.skipped
  | .assign value =>
    rw [Code.functions_append, functions_ofStmts, List.append_nil]
    exact value.numbered.right (Context.lead_record _ _) (Context.counter_record _ _)
  | .namespace_ h body =>
    rw [Code.functions_append, functions_ofStmts, List.append_nil]
    exact (body.numbered.scope.hoist (plainBase_of_namespace h).2.1).skip.skip
  | .methodDef placed body =>
    rw [Code.functions_append, functions_ofStmts, List.append_nil]
    exact (body.numbered.scope.hoist rfl).skip
  | .send receiver args marshal block =>
    simp only [Code.functions_append, functions_ofStmts, List.append_nil, namesOf_append]
    have hm := receiver.numbered.trans (args.numbered.trans (Numbered.marshal marshal))
    rw [List.append_nil] at hm
    exact (hm.trans block.numbered).skip
  | .conditional branches => exact branches.numbered.skipped
  | .loop body condition =>
    rw [Code.functions_append, functions_ofStmts, List.append_nil, namesOf_append]
    exact ((body.numbered.hoist (plainBase_loopBase _)).trans condition.numbered).skip
  | .rescue body handler otherwise =>
    rw [Code.functions_append, functions_ofStmts, List.append_nil]
    simp only [namesOf_append]
    have hb : Numbered ctx _ (namesOf (hoist (ctx.name "begin_body") .scoped [] _)) :=
      body.numbered.hoist rfl
    have hh : Numbered _ _ (namesOf (hoist (Context.name _ "rescue_body") .scoped [] _)) :=
      handler.numbered.hoist rfl
    exact (((hb.trans hh).trans otherwise.numbered).trans (Numbered.name rfl)).skip

theorem LowersBody.numbered {ctx ctx' : Context} {nodes : Body} {code : Code}
    (h : LowersBody ctx nodes code ctx') : Numbered ctx ctx' (namesOf code.functions) := by
  match h with
  | .nil => exact .refl ctx
  | .last last =>
    rw [Code.functions_append, functions_ofStmts, List.append_nil]
    exact last.numbered
  | .cons first others =>
    rw [Code.functions_append, Code.functions_append, functions_ofStmts, List.append_nil,
      namesOf_append]
    exact first.numbered.trans others.numbered

theorem LowersElements.numbered {ctx ctx' : Context} {array : Variable} {nodes : List Node}
    {code : Code} (h : LowersElements ctx array nodes code ctx') :
    Numbered ctx ctx' (namesOf code.functions) := by
  match h with
  | .nil => exact .refl ctx
  | .cons first others =>
    rw [Code.functions_append, Code.functions_append, functions_ofStmts, List.append_nil,
      namesOf_append]
    exact first.numbered.trans others.numbered

theorem LowersReceiver.numbered {ctx ctx' : Context} {receiver : Option Node} {code : Code}
    {rv : Option Variable} (h : LowersReceiver ctx receiver code rv ctx') :
    Numbered ctx ctx' (namesOf code.functions) := by
  match h with
  | .none => exact .refl ctx
  | .some receiver => exact receiver.numbered

theorem LowersArgs.numbered {ctx ctx' : Context} {nodes : List Node} {code : Code}
    {vars : List Variable} (h : LowersArgs ctx nodes code vars ctx') :
    Numbered ctx ctx' (namesOf code.functions) := by
  match h with
  | .nil => exact .refl ctx
  | .cons first others =>
    rw [Code.functions_append, namesOf_append]
    exact first.numbered.trans others.numbered

theorem LowersBlock.numbered {ctx ctx' : Context} {block : Option Block} {code : Code}
    {bn : Option Name} (h : LowersBlock ctx block code bn ctx') :
    Numbered ctx ctx' (namesOf code.functions) := by
  match h with
  | .none => exact .refl ctx
  | .some placed body => exact (body.numbered.scope.hoist rfl).skip

theorem LowersBranches.numbered {ctx ctx' : Context} {result : Variable}
    {otherwise : Option (List Node)} {branches : List Branch} {code : Code}
    (h : LowersBranches ctx result otherwise branches code ctx') :
    Numbered ctx ctx' (namesOf code.functions) := by
  match h with
  | .nil otherwise => exact otherwise.numbered
  | .cons condition body others =>
    rw [namesOf_append, namesOf_append]
    exact (condition.numbered.trans (body.numbered.hoist rfl)).trans others.numbered

theorem LowersOtherwise.numbered {ctx ctx' : Context} {result : Variable}
    {otherwise : Option (List Node)} {code : Code}
    (h : LowersOtherwise ctx result otherwise code ctx') :
    Numbered ctx ctx' (namesOf code.functions) := by
  match h with
  | .none => exact .refl ctx
  | .some body => exact body.numbered.hoist rfl

theorem LowersElse.numbered {ctx ctx' : Context} {otherwise : Option (List Node)}
    {functions : List Function} {name : Option Name}
    (h : LowersElse ctx otherwise functions name ctx') :
    Numbered ctx ctx' (namesOf functions) := by
  match h with
  | .none => exact .refl ctx
  | .some body => exact body.numbered.hoist rfl

end

end ScriptCompiler.Lowering
