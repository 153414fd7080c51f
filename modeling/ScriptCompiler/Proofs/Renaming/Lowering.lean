import ScriptCompiler.Lowering.Program
import ScriptCompiler.Proofs.Lowering.Files
import ScriptCompiler.Proofs.Renaming.Lines

/-!
# Lowering under another lead

The lead of generated names goes into the names and nowhere else: what lowering does never depends
on it. So two lowerings of one program from states that differ in the lead alone go side by side.
They fail for the same reason, or they give out the same numbers, record the same variables and make
the same code but for the lead.
-/

namespace ScriptCompiler.Lowering

open C

/-! ## Parts of fragments -/

section

variable (p q : String)

/-- Code, and the same under the second lead. -/
structure Code.Renamed (code code' : Code) : Prop where
  functions : List.Forall₂ (Function.Renamed p q) code.functions code'.functions
  stmts : RenamedAll p q code.stmts code'.stmts

/-- A fragment, and the same under the second lead. -/
structure Fragment.Renamed (frag frag' : Fragment) : Prop where
  code : frag.code.Renamed p q frag'.code
  result : frag.result.Renamed p q frag'.result

end

variable {p q : String}

namespace Code.Renamed

variable {a a' b b' : Code}

theorem append (ha : a.Renamed p q a') (hb : b.Renamed p q b') :
    (a ++ b).Renamed p q (a' ++ b') :=
  ⟨List.rel_append ha.functions hb.functions, ha.stmts.append hb.stmts⟩

theorem ofStmts {stmts stmts' : List Stmt} (h : RenamedAll p q stmts stmts') :
    (Code.ofStmts stmts).Renamed p q (.ofStmts stmts') :=
  ⟨.nil, h⟩

theorem stmt {s s' : Stmt} (h : s.Renamed p q s') :
    (Code.ofStmts [s]).Renamed p q (.ofStmts [s']) :=
  ofStmts (.single h)

/-- The body of a scope that becomes a function of its own. -/
theorem hoist (body : a.Renamed p q a') {f f' : Name} (name : f.Renamed p q f')
    (signature : Signature) {before : List Stmt} (fixed : before.all Stmt.isFixed = true) :
    List.Forall₂ (Function.Renamed p q) (Lowering.hoist f signature before a)
      (Lowering.hoist f' signature before a') :=
  List.rel_append body.functions
    (.cons ⟨name, rfl, (RenamedAll.of_isFixed fixed).append body.stmts⟩ .nil)

end Code.Renamed

theorem storeArgs_renamed {n n' : Name} (array : n.Renamed p q n') {vs vs' : List Variable}
    (h : List.Forall₂ (Variable.Renamed p q) vs vs') (index : Nat) :
    RenamedAll p q (storeArgs n index vs) (storeArgs n' index vs') := by
  induction h generalizing index with
  | nil => exact .nil
  | cons value others ih => exact .cons (.storeArg array index value) (ih (index + 1))

theorem callOf_renamed {r r' : Option Variable} (receiver : Option.Rel (Variable.Renamed p q) r r')
    (name : String) {passed passed' : Passed} (h : passed.Renamed p q passed') :
    (callOf r name passed).Renamed p q (callOf r' name passed') := by
  unfold callOf
  cases receiver with
  | none =>
    dsimp only
    split_ifs
    · exact .callSuper h
    · exact .runBlock h
    · exact .lookupOrSend name .self h
  | some receiver =>
    dsimp only
    split_ifs
    · exact .lookupOrSend name receiver h
    · exact .send name receiver h

theorem defineOn_renamed (owner : Option String) (name : String) {f f' : Name}
    (function : f.Renamed p q f') :
    (defineOn owner name f).Renamed p q (defineOn owner name f') := by
  cases owner with
  | none => exact .defineMethod name function
  | some owner =>
    unfold defineOn
    dsimp only
    split_ifs
    · exact .defineSingleton name (.variable_ .self) function
    · exact .defineSingleton name (.fixed rfl) function

/-! ### What functions do before their bodies -/

theorem isFixed_bindParams (argument : Nat → Expr) (h : ∀ i, (argument i).isFixed = true) :
    ∀ (index : Nat) (params : List Param),
      (bindParams argument index params).all Stmt.isFixed = true
  | _, [] => rfl
  | index, .positional name :: params => by
    rw [bindParams, List.all_cons, isFixed_bindParams argument h, Stmt.isFixed, h]
    rfl
  | index, .block name :: params => by
    rw [bindParams, List.all_cons, isFixed_bindParams argument h]
    rfl

theorem isFixed_methodEntry (name : String) (params : List Param) :
    (methodEntry name params).all Stmt.isFixed = true := by
  have params_ := isFixed_bindParams .argument (fun _ => rfl) 0 params
  simp only [methodEntry, List.all_append, params_]
  split <;> rfl

theorem isFixed_blockEntry (params : List Param) :
    (blockEntry params).all Stmt.isFixed = true := by
  have params_ := isFixed_bindParams .argumentOrNil (fun _ => rfl) 0 params
  simp only [blockEntry, List.all_append, params_]
  split <;> rfl

/-! ## Steps side by side -/

/-- The state under another lead. -/
def Context.relead (q : String) (ctx : Context) : Context :=
  { ctx with lead := q }

/-- Two results: both are failures for one reason, or both are values, which are related. -/
inductive Results {α β : Type} (R : α → β → Prop) : Except Failure α → Except Failure β → Prop
  | ok {a : α} {b : β} (h : R a b) : Results R (.ok a) (.ok b)
  | error (failure : Failure) : Results R (.error failure) (.error failure)

/-- From states that differ in the lead alone, the two steps give related results and states that
differ in the lead alone. -/
def Renames {α β : Type} (p q : String) (R : α → β → Prop) (step : Step α) (step' : Step β) :
    Prop :=
  ∀ ctx, ctx.lead = p → ∃ result result' after, step ctx = (result, after)
    ∧ step' (ctx.relead q) = (result', after.relead q) ∧ after.lead = p ∧ Results R result result'

namespace Renames

variable {α β γ δ : Type} {R : α → β → Prop} {S : γ → δ → Prop} {step : Step α} {step' : Step β}

theorem pure {a : α} {b : β} (h : R a b) : Renames p q R (Pure.pure a) (Pure.pure b) :=
  fun ctx lead => ⟨_, _, ctx, rfl, rfl, lead, .ok h⟩

theorem throw (failure : Failure) :
    Renames p q R (throwThe Failure failure) (throwThe Failure failure) :=
  fun ctx lead => ⟨_, _, ctx, rfl, rfl, lead, .error failure⟩

/-- Steps one after the other. -/
theorem bind {f : α → Step γ} {f' : β → Step δ} (h : Renames p q R step step')
    (hf : ∀ a b, R a b → Renames p q S (f a) (f' b)) :
    Renames p q S (step >>= f) (step' >>= f') := by
  intro ctx lead
  obtain ⟨result, result', mid, first, first', kept, related⟩ := h ctx lead
  cases related with
  | error failure =>
    exact ⟨_, _, mid, bind_of_error first, bind_of_error first', kept, .error failure⟩
  | ok related =>
    obtain ⟨last, last', after, second, second', lead, both⟩ := hf _ _ related mid kept
    exact ⟨last, last', after, (bind_of_ok first).trans second, (bind_of_ok first').trans second',
      lead, both⟩

theorem inScope (h : Renames p q R step step') :
    Renames p q R (Lowering.inScope step) (Lowering.inScope step') := by
  intro ctx lead
  obtain ⟨result, result', after, first, first', kept, related⟩ := h ctx.opened lead
  refine ⟨result, result', after.closed, ?_, ?_, kept, related⟩
  · rw [inScope_eq, first]
  · have opened : (ctx.relead q).opened = ctx.opened.relead q := rfl
    rw [inScope_eq, opened, first']
    rfl

theorem fresh {base : String} (known : base ∈ generatedBases) :
    Renames p q (Name.Renamed p q) (Lowering.fresh base) (Lowering.fresh base) := by
  rintro ctx rfl
  exact ⟨_, _, ctx.next, rfl, rfl, rfl, .ok (.intro known (ctx.counter + 1))⟩

theorem freshVariable {base : String} (known : base ∈ generatedBases) :
    Renames p q (Variable.Renamed p q) (Lowering.freshVariable base)
      (Lowering.freshVariable base) :=
  (fresh known).bind fun _ _ name => .pure (.generated name)

theorem bindFresh {base : String} (known : base ∈ generatedBases) {value value' : Expr}
    (h : value.Renamed p q value') :
    Renames p q (Fragment.Renamed p q) (Lowering.bindFresh base value)
      (Lowering.bindFresh base value') :=
  (freshVariable known).bind fun _ _ v => .pure ⟨.stmt (.declare v h), v⟩

/-- The variables of the program do not depend on the lead. -/
theorem declare (name : String) :
    Renames p q (fun _ _ => True) (Lowering.declare name) (Lowering.declare name) := by
  intro ctx lead
  have same : (ctx.relead q).declare name = (ctx.declare name).relead q := by
    unfold Context.declare Context.relead
    split <;> rfl
  exact ⟨.ok (), .ok (), ctx.declare name, rfl, congrArg (Prod.mk _) same,
    (Context.lead_declare ctx name).trans lead, .ok trivial⟩

theorem store (target : Target) {v v' : Variable} (h : v.Renamed p q v') :
    Renames p q (Stmt.Renamed p q) (Lowering.store target v) (Lowering.store target v') := by
  cases target with
  | localVar name => exact (declare name).bind fun _ _ _ => .pure (.setLocal name (.variable_ h))
  | instanceVar name => exact .pure (.setInstance name h)
  | globalVar name => exact .pure (.setGlobal name h)

theorem checkParams (owner : ParamOwner) (params : List Param) :
    Renames p q (fun _ _ => True) (Lowering.checkParams owner params)
      (Lowering.checkParams owner params) := by
  unfold Lowering.checkParams
  cases misplacedBlock? params with
  | none => exact .pure trivial
  | some p => exact .throw _

theorem marshal {vs vs' : List Variable} (h : List.Forall₂ (Variable.Renamed p q) vs vs') :
    Renames p q (fun a b => RenamedAll p q a.1 b.1 ∧ a.2.Renamed p q b.2) (Lowering.marshal vs)
      (Lowering.marshal vs') := by
  match h with
  | .nil => exact .pure ⟨.nil, .none⟩
  | .cons arg .nil => exact .pure ⟨.nil, .single arg⟩
  | .cons first (.cons second others) =>
    refine (fresh (by decide)).bind fun array array' name => .pure ⟨?_, .array name⟩
    have size := (List.Forall₂.cons first (.cons second others)).length_eq
    rw [size]
    exact .cons (.declareArgs name _) (storeArgs_renamed name (.cons first (.cons second others)) 0)

theorem openNamespace {base : String} (known : base ∈ generatedBases)
    (result : base ++ "_result" ∈ generatedBases) (name : String) {create : Expr}
    (fixed : create.isFixed = true) {f f' : Name} (function : f.Renamed p q f') :
    Renames p q (Fragment.Renamed p q) (Lowering.openNamespace base name create f)
      (Lowering.openNamespace base name create f') := by
  refine (freshVariable known).bind fun _ _ object => (freshVariable result).bind fun _ _ result =>
    .pure ⟨.ofStmts ?_, result⟩
  have made : RenamedAll p q _ _ :=
    .cons (.assign object (.fixed fixed)) (.single (.setLocal name (.variable_ object)))
  exact .cons (.declare object (.fixed rfl)) (.cons (.branch (.isNull object) made .nil)
    (.single (.declare result (.callInside function object))))

/-- A class or a module, which is opened after its body was lowered. -/
theorem namespace_ {base bodyBase : String} (known : base ∈ generatedBases)
    (result : base ++ "_result" ∈ generatedBases) (inner : bodyBase ∈ generatedBases)
    (name : String) {create : Expr} (fixed : create.isFixed = true) {body : Step Code}
    (h : Renames p q (Code.Renamed p q) body body) :
    let step : Step Fragment := do
      let function ← Lowering.fresh bodyBase
      let body ← Lowering.inScope body
      let opened ← Lowering.openNamespace base name create function
      return ⟨⟨hoist function .scoped [] body, []⟩ ++ opened.code, opened.result⟩
    Renames p q (Fragment.Renamed p q) step step := by
  refine Renames.bind (.fresh inner) fun _ _ function => h.inScope.bind fun _ _ body => ?_
  refine (openNamespace known result name fixed function).bind fun _ _ opened =>
    .pure ⟨?_, opened.result⟩
  exact Code.Renamed.append ⟨body.hoist function .scoped rfl, .nil⟩ opened.code

end Renames

/-! ## Lowering -/

/-- What surrounds a protected body. -/
theorem rescueWrapper_renamed {b b' h h' : Name} (body : b.Renamed p q b')
    (handler : h.Renamed p q h') {o o' : Option Name}
    (otherwise : Option.Rel (Name.Renamed p q) o o') (variable_ : Option String) :
    RenamedAll p q (rescueWrapper b h o variable_) (rescueWrapper b' h' o' variable_) := by
  have close : RenamedAll p q [.closeRescue] [.closeRescue] := .single (.fixed rfl)
  have last : RenamedAll p q [.return_ (.callHere h)] [.return_ (.callHere h')] :=
    .single (.return_ (.callHere handler))
  unfold rescueWrapper
  refine RenamedAll.append (.append (.cons (.fixed rfl) (.cons (.branch .rescueOpens ?normally .nil)
    close)) ?caught) last
  case normally =>
    cases otherwise with
    | none =>
      exact .cons (.declare .outcome (.callHere body))
        (close.append (.single (.return_ (.variable_ .outcome))))
    | some otherwise =>
      exact .cons (.discard (.callHere body))
        (close.append (.single (.return_ (.callHere otherwise))))
  case caught =>
    cases variable_ with
    | none => exact .nil
    | some name => exact .single (.setLocal name (.fixed rfl))

mutual

/-- **A node is lowered in the same way under every lead.** -/
theorem renames_lower (node : Node) :
    Renames p q (Fragment.Renamed p q) (lower node) (lower node) := by
  match node with
  | ⟨form, span⟩ =>
    rw [lower]
    exact renames_lowerForm span form
termination_by structural node

theorem renames_lowerForm (span : Span) (form : Form) :
    Renames p q (Fragment.Renamed p q) (lowerForm span form) (lowerForm span form) := by
  cases form with
  | integer | str | symbol | localVar | instanceVar | globalVar =>
    rw [lowerForm]
    exact .bindFresh (by decide) (.fixed rfl)
  | selfRef =>
    rw [lowerForm]
    exact .pure ⟨.ofStmts .nil, .self⟩
  | array elements =>
    rw [lowerForm]
    refine Renames.bind (.freshVariable (by decide)) fun _ _ array => ?_
    refine (renames_lowerElements array elements).bind fun _ _ code => .pure ⟨?_, array⟩
    exact (Code.Renamed.stmt (.declare array (.fixed rfl))).append code
  | assign target value =>
    rw [lowerForm]
    refine (renames_lower value).bind fun _ _ value => ?_
    exact (Renames.store target value.result).bind fun _ _ stmt =>
      .pure ⟨value.code.append (.stmt stmt), value.result⟩
  | classDef name superclass body =>
    rw [lowerForm]
    exact .namespace_ (by decide) (by decide) (by decide) name rfl (renames_lowerBody body)
  | moduleDef name body =>
    rw [lowerForm]
    exact .namespace_ (by decide) (by decide) (by decide) name rfl (renames_lowerBody body)
  | methodDef owner name params body =>
    rw [lowerForm]
    refine Renames.bind (.checkParams _ _) fun _ _ _ => ?_
    refine Renames.bind (.fresh (by decide)) fun _ _ function => ?_
    refine (renames_lowerBody body).inScope.bind fun _ _ body => ?_
    refine Renames.bind (.bindFresh (by decide) (.fixed rfl)) fun _ _ symbol =>
      .pure ⟨?_, symbol.result⟩
    exact Code.Renamed.append ⟨body.hoist function .method (isFixed_methodEntry name params),
      .single (defineOn_renamed owner name function)⟩ symbol.code
  | send receiver name args block =>
    rw [lowerForm]
    refine (renames_lowerReceiver receiver).bind fun _ _ ⟨before, receiver⟩ => ?_
    refine (renames_lowerArgs args).bind fun _ _ ⟨code, args⟩ => ?_
    refine (Renames.marshal args).bind fun _ _ ⟨stmts, argv⟩ => ?_
    refine (renames_lowerBlock name block).bind fun _ _ ⟨passing, block⟩ => ?_
    have passed : Passed.Renamed p q ⟨_, _, _⟩ ⟨_, _, _⟩ := ⟨args.length_eq, argv, block⟩
    have call := callOf_renamed receiver name passed
    refine Renames.bind (.bindFresh (by decide) call) fun _ _ sent => .pure ⟨?_, sent.result⟩
    exact (((before.append code).append (.ofStmts stmts)).append passing).append sent.code
  | conditional branches otherwise =>
    rw [lowerForm]
    refine Renames.bind (.freshVariable (by decide)) fun _ _ result => ?_
    refine (renames_lowerBranches result (renames_lowerOtherwise result otherwise) branches).bind
      fun _ _ code => .pure ⟨?_, result⟩
    exact (Code.Renamed.stmt (.declare result (.fixed rfl))).append code
  | loop kind condition body =>
    rw [lowerForm]
    refine Renames.bind (.fresh (by cases kind <;> decide)) fun _ _ function => ?_
    refine (renames_lowerBody body).bind fun _ _ body => ?_
    refine (renames_lower condition).bind fun _ _ test => ?_
    refine Renames.bind (.bindFresh (by decide) (.fixed rfl)) fun _ _ result =>
      .pure ⟨?_, result.result⟩
    have round := test.code.stmts.append
      (.cons (.breakIf test.result (kind = .untilTruthy)) (.single (.discard (.callHere function))))
    exact Code.Renamed.append ⟨List.rel_append (body.hoist function .scoped rfl)
      test.code.functions, .single (.forever round)⟩ result.code
  | rescue body variable_ handler otherwise =>
    rw [lowerForm]
    refine Renames.bind (.fresh (by decide)) fun _ _ protected_ => ?_
    refine (renames_lowerBody body).bind fun _ _ body => ?_
    refine Renames.bind (.fresh (by decide)) fun _ _ onError => ?_
    refine (renames_lowerBody handler).bind fun _ _ handler => ?_
    refine (renames_lowerElseBody otherwise).bind fun _ _ ⟨others, otherwise⟩ => ?_
    refine Renames.bind (.fresh (by decide)) fun _ _ wrapper => ?_
    refine Renames.bind (.bindFresh (by decide) (.callHere wrapper)) fun _ _ result =>
      .pure ⟨?_, result.result⟩
    have around : Function.Renamed p q ⟨_, .scoped, _⟩ ⟨_, .scoped, _⟩ :=
      ⟨wrapper, rfl, rescueWrapper_renamed protected_ onError otherwise variable_⟩
    have fixed : ([] : List Stmt).all Stmt.isFixed = true := rfl
    have functions := List.rel_append (List.rel_append
      (List.rel_append (body.hoist protected_ .scoped fixed) (handler.hoist onError .scoped fixed))
      others) (.cons around .nil)
    exact Code.Renamed.append ⟨functions, .nil⟩ result.code
  | directive kind path =>
    rw [lowerForm]
    exact .throw _
  | unknown =>
    rw [lowerForm]
    exact .throw _
termination_by structural form

/-- **A body is lowered in the same way under every lead.** -/
theorem renames_lowerBody (nodes : Body) :
    Renames p q (Code.Renamed p q) (lowerBody nodes) (lowerBody nodes) := by
  match nodes with
  | [] =>
    rw [lowerBody]
    exact .pure (.stmt (.return_ (.fixed rfl)))
  | [node] =>
    rw [lowerBody]
    exact (renames_lower node).bind fun _ _ last =>
      .pure (last.code.append (.stmt (.return_ (.variable_ last.result))))
  | node :: next :: nodes =>
    rw [lowerBody]
    · refine (renames_lower node).bind fun _ _ first => ?_
      exact (renames_lowerBody (next :: nodes)).bind fun _ _ others =>
        .pure ((first.code.append (.stmt (.discard (.variable_ first.result)))).append others)
    · simp
termination_by structural nodes

theorem renames_lowerElements {array array' : Variable} (h : array.Renamed p q array')
    (nodes : List Node) :
    Renames p q (Code.Renamed p q) (lowerElements array nodes) (lowerElements array' nodes) := by
  match nodes with
  | [] =>
    rw [lowerElements, lowerElements]
    exact .pure (.ofStmts .nil)
  | node :: nodes =>
    rw [lowerElements, lowerElements]
    refine (renames_lower node).bind fun _ _ first => ?_
    exact (renames_lowerElements h nodes).bind fun _ _ others =>
      .pure ((first.code.append (.stmt (.push h first.result))).append others)
termination_by structural nodes

theorem renames_lowerReceiver (receiver : Option Node) :
    Renames p q (fun a b => a.1.Renamed p q b.1 ∧ Option.Rel (Variable.Renamed p q) a.2 b.2)
      (lowerReceiver receiver) (lowerReceiver receiver) := by
  match receiver with
  | none =>
    rw [lowerReceiver]
    exact .pure ⟨.ofStmts .nil, .none⟩
  | some node =>
    rw [lowerReceiver]
    exact (renames_lower node).bind fun _ _ receiver =>
      .pure ⟨receiver.code, .some receiver.result⟩
termination_by structural receiver

theorem renames_lowerArgs (nodes : List Node) :
    Renames p q (fun a b => a.1.Renamed p q b.1 ∧ List.Forall₂ (Variable.Renamed p q) a.2 b.2)
      (lowerArgs nodes) (lowerArgs nodes) := by
  match nodes with
  | [] =>
    rw [lowerArgs]
    exact .pure ⟨.ofStmts .nil, .nil⟩
  | node :: nodes =>
    rw [lowerArgs]
    refine (renames_lower node).bind fun _ _ first => ?_
    exact (renames_lowerArgs nodes).bind fun _ _ ⟨code, others⟩ =>
      .pure ⟨first.code.append code, .cons first.result others⟩
termination_by structural nodes

theorem renames_lowerBlock (message : String) (block : Option Block) :
    Renames p q (fun a b => a.1.Renamed p q b.1 ∧ Option.Rel (Name.Renamed p q) a.2 b.2)
      (lowerBlock message block) (lowerBlock message block) := by
  match block with
  | none =>
    rw [lowerBlock]
    exact .pure ⟨.ofStmts .nil, .none⟩
  | some ⟨params, body⟩ =>
    rw [lowerBlock]
    refine Renames.bind (.checkParams _ _) fun _ _ _ => ?_
    refine Renames.bind (.fresh (by decide)) fun _ _ function => ?_
    refine (renames_lowerBody body).inScope.bind fun _ _ body => ?_
    exact Renames.bind (.fresh (by decide)) fun _ _ name =>
      .pure ⟨⟨body.hoist function .method (isFixed_blockEntry params),
        .single (.declareBlock name function)⟩, .some name⟩
termination_by structural block

theorem renames_lowerBranches {result result' : Variable} (h : result.Renamed p q result')
    {otherwise otherwise' : Step Code}
    (ho : Renames p q (Code.Renamed p q) otherwise otherwise') (branches : List Branch) :
    Renames p q (Code.Renamed p q) (lowerBranches result otherwise branches)
      (lowerBranches result' otherwise' branches) := by
  match branches with
  | [] =>
    rw [lowerBranches, lowerBranches]
    exact ho
  | ⟨condition, body⟩ :: branches =>
    rw [lowerBranches, lowerBranches]
    refine (renames_lower condition).bind fun _ _ condition => ?_
    refine Renames.bind (.fresh (by decide)) fun _ _ function => ?_
    refine (renames_lowerBody body).bind fun _ _ body => ?_
    refine (renames_lowerBranches h ho branches).bind fun _ _ others => .pure ⟨?_, ?_⟩
    · exact List.rel_append (List.rel_append condition.code.functions
        (body.hoist function .scoped rfl)) others.functions
    · exact condition.code.stmts.append (.single (.branch (.truthy condition.result)
        (.single (.assign h (.callHere function))) others.stmts))
termination_by structural branches

theorem renames_lowerOtherwise {result result' : Variable} (h : result.Renamed p q result')
    (otherwise : Option (List Node)) :
    Renames p q (Code.Renamed p q) (lowerOtherwise result otherwise)
      (lowerOtherwise result' otherwise) := by
  match otherwise with
  | none =>
    rw [lowerOtherwise, lowerOtherwise]
    exact .pure (.ofStmts .nil)
  | some body =>
    rw [lowerOtherwise, lowerOtherwise]
    refine Renames.bind (.fresh (by decide)) fun _ _ function => ?_
    exact (renames_lowerBody body).bind fun _ _ body =>
      .pure ⟨body.hoist function .scoped rfl, .single (.assign h (.callHere function))⟩
termination_by structural otherwise

theorem renames_lowerElseBody (otherwise : Option (List Node)) :
    Renames p q (fun a b => List.Forall₂ (Function.Renamed p q) a.1 b.1
      ∧ Option.Rel (Name.Renamed p q) a.2 b.2) (lowerElseBody otherwise)
      (lowerElseBody otherwise) := by
  match otherwise with
  | none =>
    rw [lowerElseBody]
    exact .pure ⟨.nil, .none⟩
  | some body =>
    rw [lowerElseBody]
    refine Renames.bind (.fresh (by decide)) fun _ _ function => ?_
    exact (renames_lowerBody body).bind fun _ _ body =>
      .pure ⟨body.hoist function .scoped rfl, .some function⟩
termination_by structural otherwise

end

/-! ## Programs under another lead -/

/-- What a program is lowered to under one lead and under another: the code is put together in the
same way, and it is printed as the same functions and lines, with the second lead in the place of
the first one in all generated names. -/
structure Code.Respelled (p q : String) (code code' : Code) : Prop where
  renamed : code.Renamed p q code'
  count : code'.functions.length = code.functions.length
  functions : code'.functions.map Function.toText
    = code.functions.map fun f => f.toText.respell p q
  definitions : functionLines (code'.functions.map Function.toText)
    = (functionLines (code.functions.map Function.toText)).map (respell p q)
  lines : linesOf code'.stmts = (linesOf code.stmts).map (respell p q)

section

variable (hp : p.toList.all identifierChar = true)

include hp

theorem Code.Renamed.respelled {code code' : Code} (h : code.Renamed p q code') :
    code.Respelled p q code' where
  renamed := h
  count := h.functions.length_eq.symm
  functions := by
    have functions := h.functions
    generalize code.functions = fs, code'.functions = fs' at functions
    induction functions with
    | nil => rfl
    | cons first others ih => rw [List.map_cons, List.map_cons, first.toText_eq hp, ih]
  definitions := functionLines_renamed hp h.functions
  lines := h.stmts.lines hp

omit hp in
/-- The last line of a body is respelled as the last line. -/
theorem Code.Respelled.splitReturn {code code' : Code} (h : code.Respelled p q code') :
    code'.splitReturn
      = (code.splitReturn.1.map (respell p q), code.splitReturn.2.map (respell p q)) := by
  simp only [Code.splitReturn, h.lines, List.length_map, List.map_take, List.map_drop]

/-- **The lead only renames.** Whatever the program and the variables that are known, lowering it
under one lead and under another fails for the same reason, or gives out as many names, records the
same variables and makes the same functions and lines, where the second lead stands in the place of
the first one in all generated names that are not inside string literals. So the file of a unit or
of a turn is made of the functions and lines of the program, respelled. -/
theorem respelled_program (q : String) (program : Body) (vars : VarMap) :
    (lowerBody program (.start q vars)).2.counter = (lowerBody program (.start p vars)).2.counter
      ∧ (lowerBody program (.start q vars)).2.vars = (lowerBody program (.start p vars)).2.vars
      ∧ Results (Code.Respelled p q) (lowerBody program (.start p vars)).1
        (lowerBody program (.start q vars)).1
      ∧ ∀ kind, (compileFrom (.start q vars) kind program).1
        = (lowerBody program (.start p vars)).1.bind fun code =>
            assemble kind (code.functions.map fun f => f.toText.respell p q)
              (code.splitReturn.1.map (respell p q)) (code.splitReturn.2.map (respell p q)) := by
  obtain ⟨result, result', after, run, run', -, related⟩ :=
    renames_lowerBody (q := q) program (.start p vars) rfl
  have start : (Context.start p vars).relead q = .start q vars := rfl
  rw [start] at run'
  rw [run, run']
  refine ⟨rfl, rfl, ?_⟩
  cases related with
  | error failure => exact ⟨.error failure, fun kind => congrArg Prod.fst (bind_of_error run')⟩
  | ok same =>
    have respelled := same.respelled hp
    refine ⟨.ok respelled, fun kind => ?_⟩
    rw [compileFrom_of_ok kind run', respelled.functions, respelled.splitReturn]
    rfl

end

/-- A literal that is spelled as generated names, beside the names. -/
def lookalikeProgram : Body :=
  [⟨.assign (.localVar "int1var2") ⟨.str "int1str1 \" int1sym2", default⟩, default⟩,
    ⟨.send none "puts" [⟨.localVar "int1var2", default⟩, ⟨.integer (-1), default⟩] none, default⟩]

/-- The literal stays as it is, and the name that is spelled as its first word does not. -/
theorem respelled_program_lookalike :
    "int1".toList.all identifierChar = true
      ∧ ∃ code code', (lowerBody lookalikeProgram (.start "int1" .empty)).1 = .ok code
        ∧ (lowerBody lookalikeProgram (.start "" .empty)).1 = .ok code'
        ∧ code.Respelled "int1" "" code'
        ∧ (linesOf code.stmts).head?
          = some "GnObject *int1str1 = gn_string(env, \"int1str1 \\\" int1sym2\");"
        ∧ (linesOf code'.stmts).head?
          = some "GnObject *str1 = gn_string(env, \"int1str1 \\\" int1sym2\");" := by
  have word : "int1".toList.all identifierChar = true := by decide
  have first : (lowerBody lookalikeProgram (.start "int1" .empty)).1 = .ok _ := rfl
  have second : (lowerBody lookalikeProgram (.start "" .empty)).1 = .ok _ := rfl
  obtain ⟨-, -, results, -⟩ := respelled_program word "" lookalikeProgram .empty
  rw [first, second] at results
  cases results with
  | ok respelled => exact ⟨word, _, _, first, second, respelled, by decide, by decide⟩

end ScriptCompiler.Lowering
