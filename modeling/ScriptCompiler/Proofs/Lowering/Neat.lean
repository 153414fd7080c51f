import ScriptCompiler.Proofs.C.Scoping
import ScriptCompiler.Proofs.Lowering.Numbering

/-!
# Neat code

Code is neat when every function declares each of its names once, uses a name only where it is
visible and refers only to functions that were made with it. The rules say how neat code is put
together: one for each kind of statement, and one for a body that becomes a function.
-/

namespace ScriptCompiler.C

/-- The parameters of a function with the signature. -/
def Signature.names : Signature → List String
  | .method => ["env", "self", "argc", "args", "kwargs", "block"]
  | .scoped => ["env", "self"]

/-- The parameters that only methods and blocks have. -/
def formalNames : List String := ["argc", "args", "kwargs", "block"]

/-- The function is there, with the signature that a reference needs. -/
def Provided (functions : List Function) (ref : Name × Signature) : Prop :=
  ∃ f ∈ functions, f.name = ref.1 ∧ f.signature = ref.2

/-- A name that a function declares: that of the value of a protected body, or a generated one with
the lead of the compilation. -/
def Spelled (lead x : String) : Prop :=
  x = "result" ∨ ∃ n : Name, n.lead = lead ∧ plainBase n.base = true ∧ n.text = x

/-- The body of a function among others is well scoped: no name is declared twice, neither in it nor
beside a parameter; what it uses is visible; the functions that it refers to are there; and only the
signature of methods gives it the parameters of a method. Names that it declares have the lead. -/
structure WellScoped (functions : List Function) (lead : String) (signature : Signature)
    (body : List Stmt) : Prop where
  distinct : (signature.names ++ declaredIn body).Nodup
  spelled : ∀ x ∈ declaredIn body, Spelled lead x
  inScope : ScopedIn signature.names body
  closed : ∀ ref ∈ callsIn body, Provided functions ref
  formal : (∃ x ∈ usedIn body, x ∈ formalNames) → signature = .method

/-- The function is well scoped, and its names have the lead of its own name. -/
abbrev Function.WellScoped (functions : List Function) (f : Function) : Prop :=
  C.WellScoped functions f.name.lead f.signature f.body

theorem Provided.mono {functions functions' : List Function} (hs : functions ⊆ functions')
    {ref : Name × Signature} (h : Provided functions ref) : Provided functions' ref := by
  obtain ⟨f, hf, h⟩ := h
  exact ⟨f, hs hf, h⟩

theorem WellScoped.mono {functions functions' : List Function} (hs : functions ⊆ functions')
    {lead : String} {signature : Signature} {body : List Stmt}
    (h : WellScoped functions lead signature body) : WellScoped functions' lead signature body :=
  ⟨h.distinct, h.spelled, h.inScope, fun ref hr => (h.closed ref hr).mono hs, h.formal⟩

end ScriptCompiler.C

namespace ScriptCompiler.Lowering

open C

/-! ## Neat code -/

/-- Statements made between two states are neat where the given names are visible and the given
functions are there. -/
structure Neat (ctx ctx' : Context) (visible : List String) (functions : List Function)
    (stmts : List Stmt) : Prop where
  names : ∃ names, Numbered ctx ctx' names ∧ declaredIn stmts = names.map Name.text
  inScope : ScopedIn visible stmts
  closed : ∀ ref ∈ callsIn stmts, Provided functions ref

namespace Neat

variable {ctx ctx₁ ctx₂ ctx₃ : Context} {visible visible' : List String}
  {functions functions' : List Function} {a b : List Stmt}

theorem append (ha : Neat ctx₁ ctx₂ visible functions a)
    (hb : Neat ctx₂ ctx₃ (visible ++ bindsOf a) functions b) :
    Neat ctx₁ ctx₃ visible functions (a ++ b) := by
  obtain ⟨xs, hx, hxs⟩ := ha.names
  obtain ⟨ys, hy, hys⟩ := hb.names
  refine ⟨⟨xs ++ ys, hx.trans hy, ?_⟩, scopedIn_append.mpr ⟨ha.inScope, hb.inScope⟩, ?_⟩
  · rw [declaredIn_append, hxs, hys, List.map_append]
  · intro ref hr
    rw [callsIn_append] at hr
    rcases List.mem_append.mp hr with hr | hr
    · exact ha.closed ref hr
    · exact hb.closed ref hr

theorem mono (h : Neat ctx₁ ctx₂ visible functions a) (hf : functions ⊆ functions') :
    Neat ctx₁ ctx₂ visible functions' a :=
  ⟨h.names, h.inScope, fun ref hr => (h.closed ref hr).mono hf⟩

/-- The states may differ in what the numbers of names do not depend on. -/
theorem imp {ctx₄ : Context} (h : Neat ctx₁ ctx₂ visible functions a)
    (hn : ∀ names, Numbered ctx₁ ctx₂ names → Numbered ctx₃ ctx₄ names) :
    Neat ctx₃ ctx₄ visible functions a := by
  obtain ⟨names, hx, hxs⟩ := h.names
  exact ⟨⟨names, hn names hx, hxs⟩, h.inScope, h.closed⟩

/-- No statements, while names were given out for something else. -/
theorem nil {names : List Name} (h : Numbered ctx₁ ctx₂ names) :
    Neat ctx₁ ctx₂ visible functions [] :=
  ⟨⟨[], h.sublist (List.nil_sublist _), rfl⟩, trivial, nofun⟩

/-- A statement that declares nothing and has no braces. -/
theorem line {s : Stmt} (ha : s.all = [s]) (hb : s.binds = []) (hs : s.Scoped visible)
    (hc : ∀ ref ∈ s.calls, Provided functions ref) : Neat ctx ctx visible functions [s] := by
  refine ⟨⟨[], .refl ctx, ?_⟩, ⟨hs, trivial⟩, ?_⟩
  · simp only [declaredIn, allOf, ha, List.append_nil, List.flatMap_singleton, hb, List.map_nil]
  · simpa only [callsIn, allOf, ha, List.append_nil, List.flatMap_singleton] using hc

/-- A statement that declares the next name and has no braces. -/
theorem binding {s : Stmt} {base : String} (hp : plainBase base = true) (ha : s.all = [s])
    (hb : s.binds = [(ctx.name base).text]) (hs : s.Scoped visible)
    (hc : ∀ ref ∈ s.calls, Provided functions ref) : Neat ctx ctx.next visible functions [s] := by
  refine ⟨⟨[ctx.name base], .name hp, ?_⟩, ⟨hs, trivial⟩, ?_⟩
  · simp only [declaredIn, allOf, ha, List.append_nil, List.flatMap_singleton, hb, List.map_cons,
      List.map_nil]
  · simpa only [callsIn, allOf, ha, List.append_nil, List.flatMap_singleton] using hc

/-- The declaration of the next variable. -/
theorem declare {base : String} {value : Expr} (hp : plainBase base = true)
    (hu : value.uses ⊆ visible) (hc : ∀ ref ∈ value.calls, Provided functions ref) :
    Neat ctx ctx.next visible functions [.declare (ctx.variable_ base) value] :=
  binding hp rfl rfl hu hc

theorem branch {condition : Condition} (hc : condition.uses ⊆ visible)
    (ha : Neat ctx₁ ctx₂ visible functions a) (hb : Neat ctx₂ ctx₃ visible functions b) :
    Neat ctx₁ ctx₃ visible functions [.branch condition a b] := by
  obtain ⟨xs, hx, hxs⟩ := ha.names
  obtain ⟨ys, hy, hys⟩ := hb.names
  refine ⟨⟨xs ++ ys, hx.trans hy, ?_⟩, ⟨⟨hc, ha.inScope, hb.inScope⟩, trivial⟩, ?_⟩
  · rw [declaredIn_branch, hxs, hys, List.map_append]
  · intro ref hr
    rw [callsIn_branch] at hr
    rcases List.mem_append.mp hr with hr | hr
    · exact ha.closed ref hr
    · exact hb.closed ref hr

theorem forever (h : Neat ctx₁ ctx₂ visible functions a) :
    Neat ctx₁ ctx₂ visible functions [.forever a] := by
  obtain ⟨xs, hx, hxs⟩ := h.names
  refine ⟨⟨xs, hx, by rw [declaredIn_forever, hxs]⟩, ⟨h.inScope, trivial⟩, ?_⟩
  rw [callsIn_forever]
  exact h.closed

end Neat

/-- Neat statements, with the functions that were made with them. -/
structure NeatCode (ctx ctx' : Context) (visible : List String) (code : Code) : Prop where
  stmts : Neat ctx ctx' visible code.functions code.stmts
  functions : ∀ f ∈ code.functions, f.WellScoped code.functions

namespace NeatCode

variable {ctx ctx₁ ctx₂ ctx₃ : Context} {visible : List String} {a b code : Code}

theorem append (ha : NeatCode ctx₁ ctx₂ visible a)
    (hb : NeatCode ctx₂ ctx₃ (visible ++ bindsOf a.stmts) b) :
    NeatCode ctx₁ ctx₃ visible (a ++ b) := by
  have hl := List.subset_append_left a.functions b.functions
  have hr := List.subset_append_right a.functions b.functions
  refine ⟨(ha.stmts.mono hl).append (hb.stmts.mono hr), ?_⟩
  intro f hf
  rcases List.mem_append.mp hf with hf | hf
  · exact (ha.functions f hf).mono hl
  · exact (hb.functions f hf).mono hr

/-- Statements alone. -/
theorem ofStmts {stmts : List Stmt} (h : Neat ctx₁ ctx₂ visible [] stmts) :
    NeatCode ctx₁ ctx₂ visible (.ofStmts stmts) :=
  ⟨h, nofun⟩

theorem imp {ctx₄ : Context} (h : NeatCode ctx₁ ctx₂ visible code)
    (hn : ∀ names, Numbered ctx₁ ctx₂ names → Numbered ctx₃ ctx₄ names) :
    NeatCode ctx₃ ctx₄ visible code :=
  ⟨h.stmts.imp hn, h.functions⟩

end NeatCode

/-! ## Functions -/

/-- Statements before a body that declare nothing and refer to no function. -/
structure Opening (signature : Signature) (before : List Stmt) : Prop where
  declares : declaredIn before = []
  calls : callsIn before = []
  inScope : ScopedIn signature.names before
  formal : (∃ x ∈ usedIn before, x ∈ formalNames) → signature = .method

theorem Opening.nil (signature : Signature) : Opening signature [] :=
  ⟨rfl, rfl, trivial, nofun⟩

theorem plainBase_of_mem_names {signature : Signature} {x : String} (h : x ∈ signature.names) :
    plainBase x = true := by
  have all : ∀ x ∈ signature.names, plainBase x = true := by
    cases signature <;> decide
  exact all x h

/-- Parameters and generated names are distinct. -/
theorem nodup_names {ctx ctx' : Context} {names : List Name} (signature : Signature)
    (h : Numbered ctx ctx' names) : (signature.names ++ names.map Name.text).Nodup := by
  rw [List.nodup_append']
  refine ⟨by cases signature <;> decide, h.nodup_texts, ?_⟩
  intro x hx hn
  obtain ⟨n, -, rfl⟩ := List.mem_map.mp hn
  exact n.text_ne (plainBase_of_mem_names hx) rfl

/-- Code in which only the receiver is given uses no parameter of a method. -/
theorem Neat.not_formal {ctx ctx' : Context} {functions : List Function} {stmts : List Stmt}
    (h : Neat ctx ctx' ["self"] functions stmts) : ¬ ∃ x ∈ usedIn stmts, x ∈ formalNames := by
  rintro ⟨x, hx, hf⟩
  obtain ⟨names, -, hd⟩ := h.names
  have hp : plainBase x = true := by
    have all : ∀ x ∈ formalNames, plainBase x = true := by decide
    exact all x hf
  rcases List.mem_append.mp (h.inScope.used_subset _ hx) with hs | hs
  · rw [List.mem_singleton.mp hs] at hf
    exact absurd hf (by decide)
  · rw [hd] at hs
    obtain ⟨n, -, rfl⟩ := List.mem_map.mp hs
    exact n.text_ne hp rfl

theorem mem_names_self (signature : Signature) : "self" ∈ signature.names := by
  cases signature <;> decide

theorem Neat.spelled {ctx ctx' : Context} {visible : List String} {functions : List Function}
    {stmts : List Stmt} (h : Neat ctx ctx' visible functions stmts) :
    ∀ x ∈ declaredIn stmts, Spelled ctx.lead x := by
  obtain ⟨names, hn, hd⟩ := h.names
  intro x hx
  rw [hd] at hx
  obtain ⟨n, hm, rfl⟩ := List.mem_map.mp hx
  exact .inr ⟨n, hn.leads n hm, hn.plain n hm, rfl⟩

/-- A neat body is the body of a well-scoped function. -/
theorem NeatCode.wellScoped {ctx ctx' : Context} {code : Code} {before : List Stmt}
    {signature : Signature} (h : NeatCode ctx ctx' ["self"] code)
    (hb : Opening signature before) :
    WellScoped code.functions ctx.lead signature (before ++ code.stmts) := by
  have hs : ["self"] ⊆ signature.names ++ bindsOf before := by
    simp [mem_names_self]
  have declared : declaredIn (before ++ code.stmts) = declaredIn code.stmts := by
    rw [declaredIn_append, hb.declares, List.nil_append]
  refine ⟨?_, ?_, ?_, ?_, ?_⟩
  · obtain ⟨names, hn, hd⟩ := h.stmts.names
    rw [declared, hd]
    exact nodup_names signature hn
  · rw [declared]
    exact h.stmts.spelled
  · exact scopedIn_append.mpr ⟨hb.inScope, h.stmts.inScope.mono hs _⟩
  · rw [callsIn_append, hb.calls, List.nil_append]
    exact h.stmts.closed
  · rintro ⟨x, hx, hf⟩
    rw [usedIn_append, List.mem_append] at hx
    rcases hx with hx | hx
    · exact hb.formal ⟨x, hx, hf⟩
    · exact absurd ⟨x, hx, hf⟩ h.stmts.not_formal

/-- A neat body becomes a well-scoped function. -/
theorem NeatCode.hoist {ctx ctx' : Context} {code : Code} {before : List Stmt}
    {signature : Signature} (h : NeatCode ctx ctx' ["self"] code)
    (hb : Opening signature before) (name : Name) (hl : name.lead = ctx.lead) :
    (∀ f ∈ Lowering.hoist name signature before code,
      f.WellScoped (Lowering.hoist name signature before code))
      ∧ Provided (Lowering.hoist name signature before code) (name, signature) := by
  have hf := List.subset_append_left code.functions [⟨name, signature, before ++ code.stmts⟩]
  refine ⟨?_, ⟨_, List.mem_append_right _ List.mem_cons_self, rfl, rfl⟩⟩
  intro f hm
  rcases List.mem_append.mp hm with hm | hm
  · exact (h.functions f hm).mono hf
  · rw [List.mem_singleton.mp hm, Function.WellScoped, hl]
    exact (h.wellScoped hb).mono hf

/-! ## Openings -/

theorem bindParams_quiet (argument : Nat → Expr) (hc : ∀ i, (argument i).calls = [])
    (params : List Param) (index : Nat) :
    declaredIn (bindParams argument index params) = []
      ∧ callsIn (bindParams argument index params) = [] := by
  induction params generalizing index with
  | nil => exact ⟨rfl, rfl⟩
  | cons p params ih =>
    cases p with
    | positional name =>
      rw [bindParams, declaredIn_cons, callsIn_cons, (ih _).1, (ih _).2]
      refine ⟨rfl, ?_⟩
      simp only [callsIn, allOf, Stmt.all, Stmt.calls, List.append_nil, List.flatMap_singleton, hc]
    | block name =>
      rw [bindParams, declaredIn_cons, callsIn_cons, (ih _).1, (ih _).2]
      exact ⟨rfl, rfl⟩

theorem bindParams_inScope {argument : Nat → Expr} {visible : List String}
    (hu : ∀ i, (argument i).uses ⊆ visible) (hb : "block" ∈ visible) (params : List Param)
    (index : Nat) : ScopedIn visible (bindParams argument index params) := by
  induction params generalizing index with
  | nil => trivial
  | cons p params ih =>
    cases p with
    | positional name =>
      refine ⟨hu index, ?_⟩
      show ScopedIn (visible ++ []) _
      rw [List.append_nil]
      exact ih _
    | block name =>
      refine ⟨List.cons_subset.mpr ⟨hb, List.nil_subset _⟩, ?_⟩
      show ScopedIn (visible ++ []) _
      rw [List.append_nil]
      exact ih _

theorem opening_methodEntry (name : String) (params : List Param) :
    Opening .method (methodEntry name params) := by
  obtain ⟨hd, hc⟩ := bindParams_quiet .argument (fun _ => rfl) params 0
  have hs (visible : List String) (hv : Signature.method.names ⊆ visible) :
      ScopedIn visible (bindParams .argument 0 params) :=
    bindParams_inScope (fun _ => by simp_all [Expr.uses, Signature.names])
      (hv (by decide)) params 0
  unfold methodEntry
  refine ⟨?_, ?_, ?_, fun _ => rfl⟩
  · simp only [declaredIn_append, hd, List.append_nil]
    split <;> rfl
  · simp only [callsIn_append, hc, List.append_nil]
    split <;> rfl
  · refine scopedIn_append.mpr ⟨?_, hs _ (List.subset_append_left _ _)⟩
    split <;> simp [ScopedIn, Stmt.Scoped, Stmt.uses, Stmt.binds, Expr.uses, Signature.names,
      Formal.text]

theorem opening_blockEntry (params : List Param) : Opening .method (blockEntry params) := by
  obtain ⟨hd, hc⟩ := bindParams_quiet .argumentOrNil (fun _ => rfl) params 0
  have hs (visible : List String) (hv : Signature.method.names ⊆ visible) :
      ScopedIn visible (bindParams .argumentOrNil 0 params) :=
    bindParams_inScope (fun _ => by simp_all [Expr.uses, Signature.names])
      (hv (by decide)) params 0
  unfold blockEntry
  refine ⟨?_, ?_, ?_, fun _ => rfl⟩
  · simp only [declaredIn_append, hd, List.append_nil]
    split <;> rfl
  · simp only [callsIn_append, hc, List.append_nil]
    split <;> rfl
  · refine scopedIn_append.mpr ⟨?_, hs _ (List.subset_append_left _ _)⟩
    split <;> simp [ScopedIn, Stmt.Scoped, Stmt.uses, Stmt.binds, Signature.names, Formal.text]

/-- The function around a protected body is well scoped where the functions that it calls are. -/
theorem wellScoped_rescueWrapper {functions : List Function} {protected_ onError : Name}
    {otherwise : Option Name} (hp : Provided functions (protected_, .scoped))
    (hh : Provided functions (onError, .scoped))
    (ho : ∀ n, otherwise = some n → Provided functions (n, .scoped)) (name : Name)
    (variable_ : Option String) :
    Function.WellScoped functions
      ⟨name, .scoped, rescueWrapper protected_ onError otherwise variable_⟩ := by
  have declared : declaredIn (rescueWrapper protected_ onError otherwise variable_)
      = if otherwise.isSome then [] else ["result"] := by
    cases otherwise <;> cases variable_ <;> rfl
  have used : usedIn (rescueWrapper protected_ onError otherwise variable_)
      ⊆ ["self", "result"] := by
    cases otherwise <;> cases variable_ <;>
      simp [rescueWrapper, usedIn, allOf, Stmt.all, Stmt.uses, Expr.uses, Condition.uses,
        Variable.text]
  refine ⟨?_, ?_, ?_, ?_, ?_⟩
  · simp only [declared]
    split <;> decide
  · intro x hx
    rw [declared] at hx
    split at hx
    · cases hx
    · exact .inl (List.mem_singleton.mp hx)
  · cases otherwise <;> cases variable_ <;>
      simp [rescueWrapper, ScopedIn, Stmt.Scoped, Stmt.uses, Stmt.binds, Expr.uses,
        Condition.uses, Signature.names, Variable.text]
  · cases otherwise <;> cases variable_ <;>
      simp_all [rescueWrapper, callsIn, allOf, Stmt.all, Stmt.calls, Expr.calls]
  · rintro ⟨x, hx, hf⟩
    have all : ∀ x ∈ ["self", "result"], x ∉ formalNames := by decide
    exact absurd hf (all x (used hx))

/-! ## Parts of lowered nodes -/

theorem uses_callOf {visible : List String} {rv : Option Variable} {passed : Passed}
    (hs : "self" ∈ visible) (hr : ∀ v, rv = some v → v.text ∈ visible)
    (hp : passed.uses ⊆ visible) (name : String) : (callOf rv name passed).uses ⊆ visible := by
  cases rv with
  | none =>
    unfold callOf
    dsimp only
    split
    · exact List.cons_subset.mpr ⟨hs, hp⟩
    · split
      · exact hp
      · exact List.cons_subset.mpr ⟨hs, hp⟩
  | some v =>
    unfold callOf
    dsimp only
    split <;> exact List.cons_subset.mpr ⟨hr v rfl, hp⟩

theorem calls_callOf (rv : Option Variable) (name : String) (passed : Passed) :
    (callOf rv name passed).calls = [] := by
  cases rv with
  | none =>
    unfold callOf
    dsimp only
    split
    · rfl
    · split <;> rfl
  | some v =>
    unfold callOf
    dsimp only
    split <;> rfl

theorem uses_leaf {form : Form} {base : String} {value : Expr} (h : leaf? form = some (base, value))
    {visible : List String} (hs : "self" ∈ visible) : value.uses ⊆ visible ∧ value.calls = [] := by
  cases form <;> cases h <;> simp [Expr.uses, Expr.calls, hs]

theorem neat_storeArgs {ctx : Context} {visible : List String} {functions : List Function}
    {array : Name} {vars : List Variable} (ha : array.text ∈ visible)
    (hv : ∀ v ∈ vars, v.text ∈ visible) (index : Nat) :
    Neat ctx ctx visible functions (storeArgs array index vars) := by
  induction vars generalizing index with
  | nil => exact .nil (.refl ctx)
  | cons v vars ih =>
    have first : Neat ctx ctx visible functions [.storeArg array index v] :=
      .line rfl rfl (by simp [Stmt.Scoped, Stmt.uses, ha, hv]) nofun
    have others := ih (fun v hm => hv v (List.mem_cons_of_mem _ hm)) (index + 1)
    have nothing : bindsOf [Stmt.storeArg array index v] = [] := rfl
    refine first.append ?_
    rwa [nothing, List.append_nil]

theorem neat_marshal {ctx ctx' : Context} {visible : List String} {functions : List Function}
    {vars : List Variable} {stmts : List Stmt} {argv : ArgVector}
    (h : marshal vars ctx = (.ok (stmts, argv), ctx')) (hv : ∀ v ∈ vars, v.text ∈ visible) :
    Neat ctx ctx' visible functions stmts ∧ argv.uses ⊆ visible ++ bindsOf stmts := by
  rcases marshal_ok h with ⟨rfl, rfl, rfl, rfl⟩ | ⟨arg, rfl, rfl, rfl, rfl⟩ | ⟨-, rfl, rfl, rfl⟩
  · exact ⟨.nil (.refl _), List.nil_subset _⟩
  · refine ⟨.nil (.refl _), ?_⟩
    exact List.cons_subset.mpr ⟨List.mem_append_left _ (hv arg List.mem_cons_self),
      List.nil_subset _⟩
  · have array : Neat ctx ctx.next visible functions [.declareArgs (ctx.name "args") vars.length] :=
      .binding (by decide) rfl rfl (List.nil_subset _) nofun
    refine ⟨array.append (a := [_]) (neat_storeArgs ?_ ?_ 0), ?_⟩
    · exact List.mem_append_right _ List.mem_cons_self
    · exact fun v hm => List.mem_append_left _ (hv v hm)
    · refine List.cons_subset.mpr ⟨List.mem_append_right _ List.mem_cons_self, List.nil_subset _⟩

theorem neat_defineOn {ctx : Context} {visible : List String} {functions : List Function}
    {function : Name} (hs : "self" ∈ visible) (hp : Provided functions (function, .method))
    (owner : Option String) (name : String) :
    Neat ctx ctx visible functions [defineOn owner name function] := by
  cases owner with
  | none =>
    refine .line rfl rfl (List.cons_subset.mpr ⟨hs, List.nil_subset _⟩) ?_
    rintro ref hr
    rw [List.mem_singleton.mp hr]
    exact hp
  | some owner =>
    refine .line rfl rfl ?_ ?_
    · show Expr.uses _ ⊆ _
      split
      · exact List.cons_subset.mpr ⟨hs, List.nil_subset _⟩
      · exact List.nil_subset _
    · have hc : (if owner = "self" then Expr.variable_ .self else .getLocal owner).calls = [] := by
        split <;> rfl
      intro ref hr
      rw [defineOn, Stmt.calls, hc, List.nil_append] at hr
      rw [List.mem_singleton.mp hr]
      exact hp

theorem neat_storeStmt {ctx : Context} {visible : List String} {functions : List Function}
    {value : Variable} (hs : "self" ∈ visible) (hv : value.text ∈ visible) (target : Target) :
    Neat ctx ctx visible functions [storeStmt value target] := by
  cases target with
  | localVar name => exact .line rfl rfl (List.cons_subset.mpr ⟨hv, List.nil_subset _⟩) nofun
  | instanceVar name =>
    exact .line rfl rfl (List.cons_subset.mpr ⟨hs, List.cons_subset.mpr ⟨hv, List.nil_subset _⟩⟩)
      nofun
  | globalVar name => exact .line rfl rfl (List.cons_subset.mpr ⟨hv, List.nil_subset _⟩) nofun

theorem calls_callHere {functions : List Function} {function : Name}
    (hp : Provided functions (function, .scoped)) :
    ∀ ref ∈ (Expr.callHere function).calls, Provided functions ref := by
  intro ref hr
  rw [List.mem_singleton.mp hr]
  exact hp

theorem neat_namespace {ctx : Context} {visible : List String} {functions : List Function}
    {form : Form} {ns : Namespace} {function : Name} (h : namespace? form = some ns)
    (hp : Provided functions (function, .scoped)) :
    Neat ctx ctx.next.next visible functions (ns.stmts function (ctx.variable_ ns.base)
      (ctx.next.variable_ (ns.base ++ "_result"))) := by
  obtain ⟨hb, -, hr⟩ := plainBase_of_namespace h
  have create : ns.create.uses = [] ∧ ns.create.calls = [] := by
    cases form with
    | classDef name superclass body => cases h; exact ⟨rfl, rfl⟩
    | moduleDef name body => cases h; exact ⟨rfl, rfl⟩
    | _ => cases h
  have hv : (ctx.variable_ ns.base).text ∈ visible ++ [(ctx.variable_ ns.base).text] :=
    List.mem_append_right _ List.mem_cons_self
  have one : [(ctx.variable_ ns.base).text] ⊆ visible ++ [(ctx.variable_ ns.base).text] :=
    List.cons_subset.mpr ⟨hv, List.nil_subset _⟩
  have object : Neat ctx ctx.next visible functions
      [.declare (ctx.variable_ ns.base) (.lookup ns.name)] :=
    .declare hb (List.nil_subset _) (List.forall_mem_nil _)
  have assign : Neat ctx.next ctx.next (visible ++ [(ctx.variable_ ns.base).text]) functions
      [.assign (ctx.variable_ ns.base) ns.create] := by
    refine .line rfl rfl ?_ ?_
    · show (ctx.variable_ ns.base).text :: ns.create.uses ⊆ _
      rw [create.1]
      exact one
    · rw [Stmt.calls, create.2]
      exact List.forall_mem_nil _
  have bind : Neat ctx.next ctx.next (visible ++ [(ctx.variable_ ns.base).text] ++ []) functions
      [.setLocal ns.name (.variable_ (ctx.variable_ ns.base))] := by
    rw [List.append_nil]
    exact .line rfl rfl one (List.forall_mem_nil _)
  have created : Neat ctx.next ctx.next (visible ++ [(ctx.variable_ ns.base).text]) functions
      [.branch (.isNull (ctx.variable_ ns.base)) _ []] :=
    .branch one (assign.append bind) (.nil (.refl ctx.next))
  have result : Neat ctx.next ctx.next.next
      (visible ++ [(ctx.variable_ ns.base).text] ++ []) functions
      [.declare (ctx.next.variable_ (ns.base ++ "_result"))
        (.callInside function (ctx.variable_ ns.base))] := by
    rw [List.append_nil]
    exact .declare hr one (calls_callHere hp)
  exact object.append (created.append result)

namespace Neat

variable {ctx ctx₁ ctx₂ ctx₃ : Context} {visible : List String} {functions : List Function}
  {a b : List Stmt}

/-- Names were given out for something else before the statements. -/
theorem after {names : List Name} (hn : Numbered ctx₁ ctx₂ names)
    (h : Neat ctx₂ ctx₃ visible functions a) : Neat ctx₁ ctx₃ visible functions a :=
  h.imp fun _ hx => (hn.sublist (List.nil_sublist _)).trans hx

/-- A function is called to give an assigned variable its value. -/
theorem assignCall {result : Variable} {function : Name} (hs : "self" ∈ visible)
    (hr : result.text ∈ visible) (hp : Provided functions (function, .scoped)) :
    Neat ctx ctx visible functions [Lowering.assignCall result function] :=
  .line rfl rfl (List.cons_subset.mpr ⟨hr, List.cons_subset.mpr ⟨hs, List.nil_subset _⟩⟩)
    (calls_callHere hp)

end Neat

namespace NeatCode

variable {ctx ctx' : Context} {visible : List String} {functions : List Function}
  {a b : List Stmt}

/-- Well-scoped functions with statements that refer to them. -/
theorem of (hf : ∀ f ∈ functions, f.WellScoped functions)
    (hs : Neat ctx ctx' visible functions (a ++ b)) :
    NeatCode ctx ctx' visible (⟨functions, a⟩ ++ .ofStmts b) := by
  have he : (⟨functions, a⟩ ++ Code.ofStmts b : Code).functions = functions :=
    List.append_nil functions
  exact ⟨he.symm ▸ hs, he.symm ▸ hf⟩

end NeatCode

end ScriptCompiler.Lowering
