import Mathlib.Data.List.Infix
import ScriptCompiler.Proofs.Lowering.Files

/-!
# Linking units

Units that are linked together share one set of function names. The functions that a unit makes of
inner scopes are named after the unit, and those of two units are never named alike. Entry functions
are named by a rule of their own, so that a unit whose name begins like theirs may make a function
that has the name of another unit's entry.
-/

namespace ScriptCompiler

namespace C

/-- A line opens a definition of a function of the name. -/
def Defines (lines : List String) (name : String) : Prop :=
  ∃ line ∈ lines, definesFunction name line = true

/-- A file of a unit defines its functions and its entry. -/
theorem defines_fileLines_unit {u name : String} {functions : List FunctionText}
    {statements last : List String} (hn : name.toList.all identifierChar = true)
    (hu : isIdentifier u = true) (hp : Plain functions) (hs : Quiet statements)
    (hl : Quiet last) :
    Defines (fileLines (.unit u) functions statements last) name
      ↔ name ∈ functions.map (·.name) ∨ name = (FileKind.unit u).entryName := by
  have named : (FileKind.unit u).Named := by
    rintro _ ⟨⟩
    exact hu
  have count := countP_defines_fileLines hn (nofun : FileKind.unit u = .snippet → name ≠ "EVAL")
    named.all hp hs hl
  rw [Defines, ← List.countP_pos_iff, count, ← List.count_pos_iff]
  split <;> rename_i h <;> simp [h]

end C

namespace Lowering

open C

/-! ## Functions of inner scopes -/

/-- What functions of inner scopes are called. -/
def functionBases : List String :=
  ["class_body", "module_body", "method", "block_fn", "while_body", "until_body", "begin_body",
    "rescue_body", "else_body", "begin", "if_branch", "if_else"]

/-- The functions are called as functions of inner scopes. -/
def Hoisted (functions : List Function) : Prop :=
  ∀ f ∈ functions, f.name.base ∈ functionBases

namespace Hoisted

theorem nil : Hoisted [] :=
  fun _ hf => absurd hf List.not_mem_nil

theorem append {a b : List Function} (ha : Hoisted a) (hb : Hoisted b) : Hoisted (a ++ b) :=
  List.forall_mem_append.mpr ⟨ha, hb⟩

theorem single {f : Function} (h : f.name.base ∈ functionBases) : Hoisted [f] :=
  List.forall_mem_singleton.mpr h

theorem hoist {ctx : Context} {base : String} (signature : Signature) (before : List Stmt)
    {code : Code} (hb : base ∈ functionBases) (h : Hoisted code.functions) :
    Hoisted (Lowering.hoist (ctx.name base) signature before code) :=
  h.append (single hb)

end Hoisted

theorem bodyBase_mem {form : Form} {ns : Namespace} (h : namespace? form = some ns) :
    ns.bodyBase ∈ functionBases := by
  have hc : "class_body" ∈ functionBases := by decide
  have hm : "module_body" ∈ functionBases := by decide
  cases form <;> cases h
  · exact hc
  · exact hm

theorem loopBase_mem (kind : LoopKind) : loopBase kind ∈ functionBases := by
  cases kind <;> decide

mutual

/-- **The functions that a node is lowered to are called as functions of inner scopes.** -/
theorem Lowers.hoisted {ctx ctx' : Context} {node : Node} {frag : Fragment}
    (h : Lowers ctx node frag ctx') : Hoisted frag.code.functions := by
  match h with
  | .leaf _ => exact .nil
  | .selfRef => exact .nil
  | .array elements => exact elements.hoisted
  | .assign value => exact value.hoisted.append .nil
  | .namespace_ h body => exact (body.hoisted.hoist _ _ (bodyBase_mem h)).append .nil
  | .methodDef _ body => exact (body.hoisted.hoist _ _ (by decide)).append .nil
  | .send receiver args _ block =>
    exact (((receiver.hoisted.append args.hoisted).append .nil).append block.hoisted).append .nil
  | .conditional branches => exact branches.hoisted
  | .loop body condition =>
    exact ((body.hoisted.hoist _ _ (loopBase_mem _)).append condition.hoisted).append .nil
  | .rescue body handler otherwise =>
    have hb : "begin_body" ∈ functionBases := by decide
    have hh : "rescue_body" ∈ functionBases := by decide
    have hw : "begin" ∈ functionBases := by decide
    exact ((((body.hoisted.hoist _ _ hb).append (handler.hoisted.hoist _ _ hh)).append
      otherwise.hoisted).append (.single hw)).append .nil

theorem LowersBody.hoisted {ctx ctx' : Context} {nodes : Body} {code : Code}
    (h : LowersBody ctx nodes code ctx') : Hoisted code.functions := by
  match h with
  | .nil => exact .nil
  | .last last => exact last.hoisted.append .nil
  | .cons first others => exact (first.hoisted.append .nil).append others.hoisted

theorem LowersElements.hoisted {ctx ctx' : Context} {array : Variable} {nodes : List Node}
    {code : Code} (h : LowersElements ctx array nodes code ctx') : Hoisted code.functions := by
  match h with
  | .nil => exact .nil
  | .cons first others => exact (first.hoisted.append .nil).append others.hoisted

theorem LowersReceiver.hoisted {ctx ctx' : Context} {receiver : Option Node} {code : Code}
    {rv : Option Variable} (h : LowersReceiver ctx receiver code rv ctx') :
    Hoisted code.functions := by
  match h with
  | .none => exact .nil
  | .some receiver => exact receiver.hoisted

theorem LowersArgs.hoisted {ctx ctx' : Context} {nodes : List Node} {code : Code}
    {vars : List Variable} (h : LowersArgs ctx nodes code vars ctx') :
    Hoisted code.functions := by
  match h with
  | .nil => exact .nil
  | .cons first others => exact first.hoisted.append others.hoisted

theorem LowersBlock.hoisted {ctx ctx' : Context} {block : Option Block} {code : Code}
    {bn : Option Name} (h : LowersBlock ctx block code bn ctx') : Hoisted code.functions := by
  match h with
  | .none => exact .nil
  | .some _ body => exact body.hoisted.hoist _ _ (by decide)

theorem LowersBranches.hoisted {ctx ctx' : Context} {result : Variable}
    {otherwise : Option (List Node)} {branches : List Branch} {code : Code}
    (h : LowersBranches ctx result otherwise branches code ctx') : Hoisted code.functions := by
  match h with
  | .nil otherwise => exact otherwise.hoisted
  | .cons condition body others =>
    exact (condition.hoisted.append (body.hoisted.hoist _ _ (by decide))).append others.hoisted

theorem LowersOtherwise.hoisted {ctx ctx' : Context} {result : Variable}
    {otherwise : Option (List Node)} {code : Code}
    (h : LowersOtherwise ctx result otherwise code ctx') : Hoisted code.functions := by
  match h with
  | .none => exact .nil
  | .some body => exact body.hoisted.hoist _ _ (by decide)

theorem LowersElse.hoisted {ctx ctx' : Context} {otherwise : Option (List Node)}
    {functions : List Function} {name : Option Name}
    (h : LowersElse ctx otherwise functions name ctx') : Hoisted functions := by
  match h with
  | .none => exact .nil
  | .some body => exact body.hoisted.hoist _ _ (by decide)

end

/-! ## Names of different units -/

/-- The name of a function that a unit makes of an inner scope. -/
structure OfUnit (u : String) (n : Name) : Prop where
  lead : n.lead = unitLead u
  base : n.base ∈ functionBases

theorem toList_unitLead (u : String) : (unitLead u).toList = u.toList ++ ['_'] :=
  String.toList_append

/-- A base and the underscore before it are never the end of another base, so that no part of a
base can be taken for the end of a unit's name. -/
theorem not_suffix_functionBases :
    ∀ a ∈ functionBases, ∀ b ∈ functionBases, ¬ '_' :: a.toList <:+ b.toList := by
  decide

theorem plain_functionBases : ∀ b ∈ functionBases, plainBase b = true := by
  decide

theorem ne_nil_functionBases : ∀ b ∈ functionBases, b.toList ≠ [] := by
  decide

/-- Where a base stands after a unit's name, the name is as long as it can be. -/
theorem unit_eq_of_stem {u v : List Char} {a b : String} (ha : a ∈ functionBases)
    (hb : b ∈ functionBases) (h : u ++ '_' :: a.toList = v ++ '_' :: b.toList) : u = v := by
  have longer : ∀ {w : List Char} {a b : String}, a ∈ functionBases → b ∈ functionBases →
      '_' :: a.toList = w ++ '_' :: b.toList → w = [] := by
    intro w a b ha hb h
    cases w with
    | nil => rfl
    | cons c w =>
      rw [List.cons_append, List.cons.injEq] at h
      exact absurd ⟨w, h.2.symm⟩ (not_suffix_functionBases b hb a ha)
  rcases List.append_eq_append_iff.mp h with ⟨w, hv, hw⟩ | ⟨w, hu, hw⟩
  · rw [hv, longer ha hb hw, List.append_nil]
  · rw [hu, longer hb ha hw, List.append_nil]

/-- **The functions of inner scopes of two units are never named alike.** -/
theorem OfUnit.unit_eq {u v : String} {n m : Name} (hn : OfUnit u n) (hm : OfUnit v m)
    (h : n.text = m.text) : u = v := by
  have stem : ∀ {u : String} {n : Name}, OfUnit u n → n.text.toList
      = (u.toList ++ '_' :: n.base.toList) ++ (toString n.number).toList
      ∧ ∀ c ∈ (u.toList ++ '_' :: n.base.toList).getLast?, c.isDigit = false := by
    intro u n hn
    constructor
    · rw [Name.toList_text, hn.lead, toList_unitLead]
      simp
    · intro c hc
      have tail : n.base.toList.getLast? = some c := by
        rw [← hc, List.append_cons, List.getLast?_append_of_ne_nil _
          (ne_nil_functionBases _ hn.base)]
      exact not_isDigit_getLast? (plain_functionBases _ hn.base) c tail
  have text := congrArg String.toList h
  rw [(stem hn).1, (stem hm).1] at text
  obtain ⟨same, -⟩ := append_number_injective (stem hn).2 (stem hm).2 text
  exact String.toList_injective (unit_eq_of_stem hn.base hm.base same)

theorem entryName_injective {u v : String}
    (h : (FileKind.unit u).entryName = (FileKind.unit v).entryName) : u = v := by
  have text := congrArg String.toList h
  rw [FileKind.entryName, FileKind.entryName, String.toList_append, String.toList_append] at text
  exact String.toList_injective (List.append_cancel_left text)

/-- What the names of entry functions begin with. -/
def entryLead : String := "obj_"

/-- The names of the unit's functions begin as those of entry functions do. -/
def NamedAsEntry (u : String) : Prop :=
  entryLead.toList <+: (unitLead u).toList

instance (u : String) : Decidable (NamedAsEntry u) :=
  inferInstanceAs (Decidable (_ <+: _))

/-- Only a unit that is named so makes a function that has the name of an entry. -/
theorem OfUnit.namedAsEntry {u v : String} {n : Name} (hn : OfUnit u n)
    (h : n.text = (FileKind.unit v).entryName) : NamedAsEntry u := by
  have lead : (unitLead u).toList <+: n.text.toList := by
    rw [Name.toList_text, hn.lead]
    exact List.prefix_append _ _
  have entry : entryLead.toList <+: n.text.toList := by
    rw [h]
    exact ⟨v.toList, String.toList_append.symm⟩
  rcases List.prefix_or_prefix_of_prefix entry lead with hp | hp
  · exact hp
  · have ends : ∀ l ∈ entryLead.toList.inits, l.getLast? = some '_' → l = entryLead.toList := by
      decide
    have last : (unitLead u).toList.getLast? = some '_' := by
      rw [toList_unitLead, List.getLast?_concat]
    have whole := ends _ ((List.mem_inits _ _).mpr hp) last
    rw [NamedAsEntry, whole]

/-! ## Compiled units -/

/-- The lines of the file of a unit. -/
def unitLines (u : String) (code : Code) : List String :=
  fileLines (.unit u) (code.functions.map Function.toText) code.splitReturn.1 code.splitReturn.2

/-- The unit that a program is compiled to defines a function of the name. -/
def UnitDefines (u : String) (program : Body) (name : String) : Prop :=
  ∃ code ctx', lowerBody program (.start (unitLead u) .empty) = (.ok code, ctx')
    ∧ Defines (unitLines u code) name

section Units

variable {u v t t' name : String} {p q : Body}

/-- What is compiled to a unit has a file of the unit's lines, and the name of the unit is an
identifier. -/
theorem unit_of_compile (h : compile (.unit u) p = .ok t) :
    isIdentifier u = true ∧ ∃ code ctx', lowerBody p (.start (unitLead u) .empty) = (.ok code, ctx')
      ∧ t = indent ("\n".intercalate (unitLines u code)) := by
  have hc : compileFrom (.start (unitLead u) .empty) (.unit u) p = (.ok t, _) :=
    Prod.ext h rfl
  obtain ⟨code, hb, ha⟩ := lowerBody_of_compileFrom hc
  have hu : isIdentifier u = true := by
    rw [assemble] at ha
    split at ha
    · assumption
    · cases ha
  have named : (FileKind.unit u).Named := by
    rintro _ ⟨⟩
    exact hu
  rw [assemble_of_named named] at ha
  exact ⟨hu, code, _, hb, (Except.ok.inj ha).symm⟩

theorem isIdentifier_unitLead (hu : isIdentifier u = true) : isIdentifier (unitLead u) = true := by
  unfold isIdentifier at hu ⊢
  rw [toList_unitLead]
  split at hu
  · cases hu
  · rename_i c rest hs
    rw [hs, List.cons_append]
    simp_all [startsIdentifier]

/-- **A unit defines its entry function and functions of inner scopes**, and nothing else. -/
theorem defines_unitLines_iff {code : Code} {ctx' : Context} (hu : isIdentifier u = true)
    (hn : name.toList.all identifierChar = true)
    (h : lowerBody p (.start (unitLead u) .empty) = (.ok code, ctx')) :
    Defines (unitLines u code) name
      ↔ (∃ f ∈ code.functions, f.name.text = name) ∨ name = (FileKind.unit u).entryName := by
  have lowers := lowers_of_lowerBody h
  have neat : NeatCode _ ctx' ["self"] code := lowers.neat List.mem_cons_self
  have lead : PlainLead (unitLead u) := .inr (isIdentifier_unitLead hu)
  obtain ⟨statements, last⟩ := neat.quiet_splitReturn lead
  rw [unitLines, defines_fileLines_unit hn hu (neat.plain_functions lowers.numbered lead) statements
    last, text_toText, List.mem_map]

theorem UnitDefines.cases (hu : isIdentifier u = true) (hn : isIdentifier name = true)
    (h : UnitDefines u p name) :
    (∃ n, OfUnit u n ∧ n.text = name) ∨ name = (FileKind.unit u).entryName := by
  obtain ⟨code, ctx', hl, hd⟩ := h
  rcases (defines_unitLines_iff hu (all_of_isIdentifier hn) hl).mp hd with ⟨f, hf, he⟩ | he
  · have lowers := lowers_of_lowerBody hl
    exact .inl ⟨f.name, ⟨lowers.numbered.leads _ (List.mem_map_of_mem hf), lowers.hoisted f hf⟩, he⟩
  · exact .inr he

/-- Every unit defines its entry function. -/
theorem unitDefines_entryName (h : compile (.unit u) p = .ok t) :
    UnitDefines u p (FileKind.unit u).entryName := by
  obtain ⟨hu, code, ctx', hl, -⟩ := unit_of_compile h
  have named : (FileKind.unit u).Named := by
    rintro _ ⟨⟩
    exact hu
  exact ⟨code, ctx', hl, (defines_unitLines_iff hu named.all hl).mpr (.inr rfl)⟩

/-- **Linked units.** Two units with different names define a function of the same name exactly if
one of them makes a function of an inner scope that has the name of the other's entry; and this
takes a unit whose name begins like those of entries. -/
theorem shared_function_iff (different : u ≠ v) (hp : compile (.unit u) p = .ok t)
    (hq : compile (.unit v) q = .ok t') (hn : isIdentifier name = true) :
    UnitDefines u p name ∧ UnitDefines v q name ↔
      (name = (FileKind.unit v).entryName ∧ UnitDefines u p name ∧ NamedAsEntry u)
        ∨ (name = (FileKind.unit u).entryName ∧ UnitDefines v q name ∧ NamedAsEntry v) := by
  constructor
  · rintro ⟨du, dv⟩
    rcases du.cases (unit_of_compile hp).1 hn with ⟨n, ofU, hu⟩ | hu
    · rcases dv.cases (unit_of_compile hq).1 hn with ⟨m, ofV, hv⟩ | hv
      · exact absurd (ofU.unit_eq ofV (hu.trans hv.symm)) different
      · exact .inl ⟨hv, du, ofU.namedAsEntry (hu.trans hv)⟩
    · rcases dv.cases (unit_of_compile hq).1 hn with ⟨m, ofV, hv⟩ | hv
      · exact .inr ⟨hu, dv, ofV.namedAsEntry (hv.trans hu)⟩
      · exact absurd (entryName_injective (hu.symm.trans hv)) different
  · rintro (⟨rfl, du, -⟩ | ⟨rfl, dv, -⟩)
    · exact ⟨du, unitDefines_entryName hq⟩
    · exact ⟨unitDefines_entryName hp, dv⟩

end Units

/-- The function of a branch in the unit `obj` has the name of the entry of the unit `if_branch3`.
-/
theorem shared_function_branchProgram :
    UnitDefines "obj" branchProgram "obj_if_branch3"
      ∧ UnitDefines "if_branch3" [] "obj_if_branch3" := by
  have branch : UnitDefines "obj" branchProgram "obj_if_branch3" := by
    refine ⟨_, _, rfl, ?_⟩
    unfold Defines
    decide
  exact (shared_function_iff (by decide) rfl rfl (by decide)).mpr (.inl ⟨rfl, branch, by decide⟩)

end Lowering

end ScriptCompiler
