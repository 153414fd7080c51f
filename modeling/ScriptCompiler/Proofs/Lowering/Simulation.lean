import ScriptCompiler.Proofs.Lowering.Functions

/-!
# Lowering preserves evaluation

Generated code asks the runtime library for exactly what the evaluation of the source asks for, in
the same order and with the same operands, whatever the library replies, and ends alike. The proof
goes along the derivation of the lowering: every fragment runs from a frame in which it can run to
one in which the code after it can, and its variable then holds the value of its node.
-/

namespace ScriptCompiler.Lowering

open C Evaluation ScriptCompiler.Runtime

variable {V : Type} {isNull : V → Bool} {rounds : Nat} {file : List Function}

theorem Ready.scope_eq {ctx : Context} {scope : Scope V} {fr : Frame V}
    (h : Ready ctx scope fr) : Scope.inner fr.env fr.self = scope := by
  obtain ⟨env, self, home⟩ := scope
  have hh : home = none := h.home
  have he : fr.env = env := h.env
  have hs : fr.self = self := h.self
  rw [Scope.inner, hh, he, hs]

/-- What is passed with a message that is sent. -/
theorem passed?_of_vector {fr : Frame V} {vars : List Variable} {xs : List V} {argv : ArgVector}
    {bn : Option Name} {block : Option V}
    (hv : List.Forall₂ (fun v x => fr.read? v = some x) vars xs)
    (ha : fr.vector? argv = some xs) (hb : Option.Rel (fun n x => fr.block? n = some x) bn block) :
    fr.passed? ⟨vars.length, argv, bn⟩ = some ⟨xs, block⟩ := by
  have hl := hv.length_eq.symm
  cases hb with
  | none => exact Frame.passed?_eq ha hl rfl
  | some hb => exact Frame.passed?_block_eq ha hl rfl hb

variable [DecidableEq V]

/-- A node whose value is that of one expression. -/
theorem runs_leaf {call : Name → Routine V} {ctx : Context} {scope : Scope V} {fr : Frame V}
    {form : Form} {base : String} {e : Expr} {y : Action V V} (ready : Ready ctx scope fr)
    (h : leaf? form = some (base, e)) (hv : HasValue call fr e y) :
    Runs isNull rounds call fr [.declare (ctx.variable_ base) e] y
      fun fr' x => Reached ctx.next scope fr fr' ∧ fr'.read? (ctx.variable_ base) = some x := by
  have hb := plainBase_of_leaf h
  refine (runs_declare hv (ready.variable_ hb)).mono ?_
  rintro _ x rfl
  exact Reached.declare ready hb x

theorem hasValue_leaf {call : Name → Routine V} {ctx : Context} {scope : Scope V} {fr : Frame V}
    {form : Form} {base : String} {e : Expr} (ready : Ready ctx scope fr)
    (h : leaf? form = some (base, e)) :
    HasValue call fr e (evalForm isNull rounds scope form) := by
  have he := ready.scope_eq
  subst he
  cases form <;> cases h <;> simp only [evalForm] <;> rfl

/-- What the evaluation of a class or module does. -/
theorem evalForm_namespace (isNull : V → Bool) (rounds : Nat) {form : Form} {ns : Namespace}
    (h : namespace? form = some ns) (scope : Scope V) :
    ∃ create : Action V V,
      evalForm isNull rounds scope form
          = (namespaceObject isNull scope ns.name create >>= fun object =>
            namespaceBody scope object fun scope => evalBody isNull rounds scope ns.body)
        ∧ ∀ (call : Name → Routine V) (fr : Frame V), fr.env = scope.env →
          HasValue call fr ns.create create := by
  cases form with
  | classDef name superclass body =>
    cases h
    refine ⟨_, by rw [evalForm], ?_⟩
    rintro call fr he
    rw [← he]
    exact hasValue_newClass _ name
  | moduleDef name body =>
    cases h
    refine ⟨_, by rw [evalForm], ?_⟩
    rintro call fr he
    rw [← he]
    exact hasValue_newModule name
  | _ => cases h

/-- A loop does what its rounds do: in each one the condition is evaluated anew, and then the body
if the loop goes on. -/
theorem runs_loopStmts {call : Name → Routine V} {ctx : Context} {scope : Scope V} {fr : Frame V}
    {kind : LoopKind} {test : Fragment} {function : Name} {condition body : Action V V}
    (hc : Runs isNull rounds call fr test.code.stmts condition fun fr' x =>
      Reached ctx scope fr fr' ∧ fr'.read? test.result = some x)
    (hb : ∀ fr', Ready ctx scope fr' → HasValue call fr' (.callHere function) body) :
    Runs isNull rounds call fr (loopStmts kind test function)
      (repeatRounds (loopRound scope kind condition body) rounds) fun fr' _ => fr' = fr := by
  refine runs_forever ?_
  refine hc.followed ?_
  rintro fr' x ⟨reached, hread⟩
  have hl := reached.extends_.leave_eq
  rw [← reached.ready.env]
  refine refines_breakIf hread (.pure ⟨rfl, hl⟩) ?_
  have h : Runs isNull rounds call fr' [.discard (.callHere function)]
        (body >>= fun _ => pure true)
      fun fr'' again => fr'' = fr' ∧ again = true :=
    (runs_discard (hb fr' reached.ready)).map fun _ _ h => ⟨h, rfl⟩
  refine Refines.mono h ?_
  rintro _ _ _ ⟨rfl, rfl, rfl⟩
  exact ⟨rfl, hl⟩

/-- The function of a scope, called where the scope stands. -/
theorem hasValue_hoisted {depth : Nat} {ctx : Context} {scope : Scope V} {fr : Frame V}
    {name : Name} (body : Scope V → Action V V) (ready : Ready ctx scope fr)
    (h : ∀ env self, enter isNull rounds file depth name ⟨env, self, none⟩
      = body (.inner env self)) :
    HasValue (enter isNull rounds file depth) fr (.callHere name) (body scope) := by
  rw [← ready.scope_eq, ← h]
  exact hasValue_callHere name

mutual

/-- **A lowered node does what its evaluation does**, and its variable then holds its value. -/
theorem Lowers.runs {ctx ctx' : Context} {node : Node} {frag : Fragment}
    (h : Lowers ctx node frag ctx') {depth : Nat} {scope : Scope V} {fr : Frame V}
    (linked : Linked file depth frag.code.functions) (ready : Ready ctx scope fr) :
    Runs isNull rounds (enter isNull rounds file depth) fr frag.code.stmts
      (eval isNull rounds scope node)
      fun fr' x => Reached ctx' scope fr fr' ∧ fr'.read? frag.result = some x := by
  match h with
  | .leaf h =>
    rw [eval]
    exact runs_leaf ready h (hasValue_leaf ready h)
  | .selfRef =>
    rw [eval, evalForm]
    exact .nil ⟨ready.reached, by rw [← ready.self]; rfl⟩
  | .array elements =>
    have hb : plainBase "arr" = true := by decide
    rw [eval, evalForm, ← ready.env]
    refine (runs_declare hasValue_emptyArray (ready.variable_ hb)).append (a := [_]) ?_
    rintro _ array rfl
    obtain ⟨reached, hread⟩ := Reached.declare ready hb array
    refine (elements.runs linked reached.ready hread).map ?_
    intro fr' _ hr
    exact ⟨reached.trans hr, hr.extends_.read? hread⟩
  | .assign value =>
    rw [eval, evalForm]
    refine (value.runs linked.left ready).append ?_
    rintro fr' x ⟨reached, hread⟩
    refine (runs_storeStmt reached.ready hread _).map ?_
    rintro _ _ rfl
    exact ⟨⟨reached.extends_, reached.ready.later (Context.lead_record _ _)
      (Nat.le_of_eq (Context.counter_record _ _).symm)⟩, hread⟩
  | .namespace_ h body =>
    obtain ⟨hb, -, hr⟩ := plainBase_of_namespace h
    obtain ⟨create, he, hc⟩ := evalForm_namespace isNull rounds h scope
    rw [eval, he]
    have hbody := call_hoisted isNull rounds
      (fun scope => evalBody isNull rounds scope _) linked.left
      fun d hd env self => body.returns hd (.start _ env self none)
    exact runs_namespace (ready.numbered body.numbered.scope.skipped) hb hr (hc _) hbody
  | .methodDef placed body =>
    have hm := enter_hoisted isNull rounds (openMethod _ _)
      (fun scope => evalBody isNull rounds scope _) linked.left
      (fun _ _ _ _ => runs_methodEntry _ _)
      fun d hd env self passed => body.returns hd (.start _ env self (some passed))
    rw [eval, evalForm, ← hm]
    refine (runs_defineOn ready _ _ _).append ?_
    rintro _ _ rfl
    have hb : plainBase "sym" = true := by decide
    have ready' := ready.numbered body.numbered.scope.skipped
    rw [← ready.env]
    refine (runs_declare (hasValue_symbol _) (ready'.variable_ hb)).mono ?_
    rintro _ x rfl
    exact Reached.declare ready' hb x
  | .send receiver args marshal block =>
    have hb : plainBase "call" = true := by decide
    rw [eval, evalForm]
    simp only [Code.stmts_append, List.append_assoc]
    refine (receiver.runs linked.left.left.left.left ready).append ?_
    rintro fr₁ object ⟨reached₁, hobject⟩
    refine (args.runs linked.left.left.left.right reached₁.ready).append ?_
    rintro fr₂ xs ⟨reached₂, hxs⟩
    refine (runs_marshal marshal reached₂.ready hxs).skip ?_
    rintro fr₃ _ ⟨reached₃, hvector⟩
    refine (block.runs linked.left.right reached₃.ready).append ?_
    rintro fr₄ b ⟨reached₄, hblock⟩
    have later := reached₃.trans reached₄
    have hpassed := passed?_of_vector (hxs.imp fun _ _ h => later.extends_.read? h)
      (reached₄.extends_.vector? hvector) hblock
    have hreceiver := rel_imp (fun _ _ h => (reached₂.trans later).extends_.read? h) hobject
    refine (runs_declare (hasValue_callOf hreceiver hpassed reached₄.ready.env
      reached₄.ready.self) (reached₄.ready.variable_ hb)).mono ?_
    rintro _ x rfl
    obtain ⟨reached₅, hread⟩ := Reached.declare reached₄.ready hb x
    exact ⟨((reached₁.trans reached₂).trans later).trans reached₅, hread⟩
  | .conditional branches =>
    have hb : plainBase "if_result" = true := by decide
    rw [eval, evalForm, ← ready.env]
    refine (runs_declare (hasValue_getLocal nilName) (ready.variable_ hb)).append (a := [_]) ?_
    rintro _ nil rfl
    obtain ⟨reached, hread⟩ := Reached.declare ready hb nil
    refine (branches.runs linked reached.ready (Frame.slots_put_self _ _)).mono ?_
    rintro fr' x hr
    rw [Frame.put_put] at hr
    obtain ⟨reached', hread'⟩ := Reached.declare ready hb x
    exact ⟨reached'.trans hr, hr.extends_.read? hread'⟩
  | .loop body condition =>
    have hb : plainBase "nil" = true := by decide
    have ready₁ := ready.numbered body.numbered.skipped
    have ready₂ := ready₁.numbered condition.numbered
    have hbody := call_hoisted isNull rounds (fun scope => evalBody isNull rounds scope _)
      linked.left.left fun d hd env self => body.returns hd (.start _ env self none)
    rw [eval, evalForm]
    refine (runs_loopStmts (condition.runs linked.left.right ready₁)
      fun _ ready' => hasValue_hoisted (fun scope => evalBody isNull rounds scope _) ready'
        hbody).append ?_
    rintro _ _ rfl
    rw [← ready.env]
    refine (runs_declare (hasValue_getLocal nilName) (ready₂.variable_ hb)).mono ?_
    rintro _ x rfl
    exact Reached.declare ready₂ hb x
  | .rescue body handler otherwise =>
    have hb : plainBase "begin_result" = true := by decide
    have ready₁ := (ready.numbered body.numbered.skipped).numbered handler.numbered.skipped
    have ready₂ := (ready₁.numbered otherwise.numbered).next
    obtain ⟨d, hd, he⟩ := linked.left.enter_last isNull rounds
    have hprotected := call_hoisted isNull rounds (fun scope => evalBody isNull rounds scope _)
      hd.left.left fun d hd env self => body.returns hd (.start _ env self none)
    have hhandler := call_hoisted isNull rounds (fun scope => evalBody isNull rounds scope _)
      hd.left.right fun d hd env self => handler.returns hd (.start _ env self none)
    have hwrapper := runStmts_rescueWrapper isNull rounds
      (fun scope => evalBody isNull rounds scope _) (fun scope => evalBody isNull rounds scope _)
      hprotected hhandler (otherwise.calls hd.right)
    have hv := hasValue_hoisted (fun scope => protectedBody scope _ _ _ _) ready
      fun env self => (congrFun he _).trans (hwrapper _ env self)
    rw [eval, evalForm]
    refine (runs_declare hv (ready₂.variable_ hb)).mono ?_
    rintro _ x rfl
    exact Reached.declare ready₂ hb x

theorem LowersBody.returns {ctx ctx' : Context} {nodes : Body} {code : Code}
    (h : LowersBody ctx nodes code ctx') {depth : Nat} {scope : Scope V} {fr : Frame V}
    (linked : Linked file depth code.functions) (ready : Ready ctx scope fr) :
    Returns isNull rounds (enter isNull rounds file depth) fr code.stmts
      (evalBody isNull rounds scope nodes) := by
  match h with
  | .nil =>
    rw [evalBody, ← ready.env]
    exact returns_return (hasValue_getLocal nilName)
  | .last last =>
    rw [evalBody, ← bind_pure (eval isNull rounds scope _)]
    refine (last.runs linked.left ready).returns ?_
    rintro fr' x ⟨-, hread⟩
    exact returns_return (hasValue_variable hread)
  | .cons first others =>
    simp only [evalBody]
    rw [Code.stmts_append, Code.stmts_append, List.append_assoc]
    refine (first.runs linked.left.left ready).returns ?_
    rintro fr' x ⟨reached, hread⟩
    refine (runs_discard (hasValue_variable hread)).skip_returns ?_
    rintro _ _ rfl
    exact others.returns linked.right reached.ready

theorem LowersElements.runs {ctx ctx' : Context} {array : Variable} {nodes : List Node}
    {code : Code} (h : LowersElements ctx array nodes code ctx') {depth : Nat} {scope : Scope V}
    {fr : Frame V} {a : V} (linked : Linked file depth code.functions)
    (ready : Ready ctx scope fr) (ha : fr.read? array = some a) :
    Runs isNull rounds (enter isNull rounds file depth) fr code.stmts
      (evalElements isNull rounds scope a nodes) fun fr' _ => Reached ctx' scope fr fr' := by
  match h with
  | .nil =>
    rw [evalElements]
    exact .nil ready.reached
  | .cons first others =>
    rw [evalElements, Code.stmts_append, Code.stmts_append, List.append_assoc]
    refine (first.runs linked.left.left ready).append ?_
    rintro fr' x ⟨reached, hread⟩
    rw [← reached.ready.env]
    refine (runs_push (reached.extends_.read? ha) hread).append ?_
    rintro _ _ rfl
    refine (others.runs linked.right reached.ready (reached.extends_.read? ha)).mono ?_
    intro fr'' _ hr
    exact reached.trans hr

theorem LowersReceiver.runs {ctx ctx' : Context} {receiver : Option Node} {code : Code}
    {rv : Option Variable} (h : LowersReceiver ctx receiver code rv ctx') {depth : Nat}
    {scope : Scope V} {fr : Frame V} (linked : Linked file depth code.functions)
    (ready : Ready ctx scope fr) :
    Runs isNull rounds (enter isNull rounds file depth) fr code.stmts
      (evalReceiver isNull rounds scope receiver) fun fr' object =>
        Reached ctx' scope fr fr' ∧ Option.Rel (fun v x => fr'.read? v = some x) rv object := by
  match h with
  | .none =>
    rw [evalReceiver]
    exact .nil ⟨ready.reached, .none⟩
  | .some receiver =>
    rw [evalReceiver]
    exact (receiver.runs linked ready).map fun _ _ hx => ⟨hx.1, .some hx.2⟩

theorem LowersArgs.runs {ctx ctx' : Context} {nodes : List Node} {code : Code}
    {vars : List Variable} (h : LowersArgs ctx nodes code vars ctx') {depth : Nat}
    {scope : Scope V} {fr : Frame V} (linked : Linked file depth code.functions)
    (ready : Ready ctx scope fr) :
    Runs isNull rounds (enter isNull rounds file depth) fr code.stmts
      (evalArgs isNull rounds scope nodes) fun fr' xs =>
        Reached ctx' scope fr fr' ∧ List.Forall₂ (fun v x => fr'.read? v = some x) vars xs := by
  match h with
  | .nil =>
    rw [evalArgs]
    exact .nil ⟨ready.reached, .nil⟩
  | .cons first others =>
    rw [evalArgs]
    refine (first.runs linked.left ready).append ?_
    rintro fr' x ⟨reached, hread⟩
    refine (others.runs linked.right reached.ready).map ?_
    rintro fr'' xs ⟨reached', hxs⟩
    exact ⟨reached.trans reached', .cons (reached'.extends_.read? hread) hxs⟩

theorem LowersBlock.runs {ctx ctx' : Context} {block : Option Block} {code : Code}
    {bn : Option Name} (h : LowersBlock ctx block code bn ctx') {depth : Nat} {scope : Scope V}
    {fr : Frame V} (linked : Linked file depth code.functions) (ready : Ready ctx scope fr) :
    Runs isNull rounds (enter isNull rounds file depth) fr code.stmts
      (evalBlock isNull rounds scope block) fun fr' b =>
        Reached ctx' scope fr fr' ∧ Option.Rel (fun n x => fr'.block? n = some x) bn b := by
  match h with
  | .none =>
    rw [evalBlock]
    exact .nil ⟨ready.reached, .none⟩
  | .some placed body =>
    have hb : plainBase "blk" = true := by decide
    have hm := enter_hoisted isNull rounds (openBlock _)
      (fun scope => evalBody isNull rounds scope _) linked (fun _ _ _ _ => runs_blockEntry _)
      fun d hd env self passed => body.returns hd (.start _ env self (some passed))
    have ready' := ready.numbered body.numbered.scope.skipped
    rw [evalBlock, ← hm, ← ready.env, ← ready.self]
    refine (runs_declareBlock (ready'.name hb)).map ?_
    rintro _ x rfl
    refine ⟨Reached.put ready' hb _, .some ?_⟩
    simp only [Frame.block?, Frame.slots_put_self]

theorem LowersBranches.runs {ctx ctx' : Context} {result : Variable}
    {otherwise : Option (List Node)} {branches : List Branch} {code : Code}
    (h : LowersBranches ctx result otherwise branches code ctx') {depth : Nat} {scope : Scope V}
    {fr : Frame V} {nil : V} (linked : Linked file depth code.functions)
    (ready : Ready ctx scope fr) (hr : fr.slots result.text = some (.object nil)) :
    Runs isNull rounds (enter isNull rounds file depth) fr code.stmts
      (evalBranches isNull rounds scope (evalOtherwise isNull rounds scope nil otherwise) branches)
      fun fr' x => Reached ctx' scope (fr.put result.text (.object x)) fr' := by
  match h with
  | .nil otherwise =>
    rw [evalBranches]
    exact otherwise.runs linked ready hr
  | .cons condition body others =>
    rw [evalBranches]
    refine (condition.runs linked.left.left ready).append ?_
    rintro fr₁ x ⟨reached, hread⟩
    have hs := reached.extends_.slots hr
    have hbody := call_hoisted isNull rounds (fun scope => evalBody isNull rounds scope _)
      linked.left.right fun d hd env self => body.returns hd (.start _ env self none)
    have hv := hasValue_hoisted (fun scope => evalBody isNull rounds scope _) reached.ready hbody
    have ready₂ := reached.ready.numbered body.numbered.skipped
    have yes : Runs isNull rounds (enter isNull rounds file depth) fr₁ [assignCall result _] _
        fun fr' x => (fr₁.put result.text (.object x)).Extends fr' :=
      (runs_assign hv hs).mono fun _ _ h => h ▸ .refl _
    have no : Runs isNull rounds (enter isNull rounds file depth) fr₁ _ _
        fun fr' x => (fr₁.put result.text (.object x)).Extends fr' :=
      (others.runs linked.right ready₂ hs).mono fun _ _ h => h.extends_
    rw [← reached.ready.env]
    refine (runs_branch_truthy hread yes no).mono ?_
    rintro _ y ⟨inner, hext, rfl⟩
    have hsome : (fr₁.slots result.text).isSome = true := by rw [hs]; rfl
    rw [hext.leave_put_eq hsome]
    exact ⟨reached.extends_.put_both _ _, (ready₂.numbered others.numbered).assign hsome _⟩

theorem LowersOtherwise.runs {ctx ctx' : Context} {result : Variable}
    {otherwise : Option (List Node)} {code : Code}
    (h : LowersOtherwise ctx result otherwise code ctx') {depth : Nat} {scope : Scope V}
    {fr : Frame V} {nil : V} (linked : Linked file depth code.functions)
    (ready : Ready ctx scope fr) (hr : fr.slots result.text = some (.object nil)) :
    Runs isNull rounds (enter isNull rounds file depth) fr code.stmts
      (evalOtherwise isNull rounds scope nil otherwise)
      fun fr' x => Reached ctx' scope (fr.put result.text (.object x)) fr' := by
  match h with
  | .none =>
    rw [evalOtherwise]
    refine .nil ?_
    rw [Frame.put_same hr]
    exact ready.reached
  | .some body =>
    have hbody := call_hoisted isNull rounds (fun scope => evalBody isNull rounds scope _) linked
      fun d hd env self => body.returns hd (.start _ env self none)
    have hv := hasValue_hoisted (fun scope => evalBody isNull rounds scope _) ready hbody
    rw [evalOtherwise]
    refine (runs_assign hv hr).mono ?_
    rintro _ x rfl
    have hsome : (fr.slots result.text).isSome = true := by rw [hr]; rfl
    exact ((ready.numbered body.numbered.skipped).assign hsome _).reached

theorem LowersElse.calls {ctx ctx' : Context} {otherwise : Option (List Node)}
    {functions : List Function} {name : Option Name}
    (h : LowersElse ctx otherwise functions name ctx') {depth : Nat}
    (linked : Linked file depth functions) :
    Option.Rel (fun name (f : Scope V → Action V V) => ∀ env self,
      enter isNull rounds file depth name ⟨env, self, none⟩ = f (.inner env self)) name
      (evalElse isNull rounds otherwise) := by
  match h with
  | .none => exact .none
  | .some body =>
    exact .some (call_hoisted isNull rounds (fun scope => evalBody isNull rounds scope _) linked
      fun d hd env self => body.returns hd (.start _ env self none))

end

/-! ## Bodies -/

universe u

/-- The lines of a lowered body, run in the file of its functions, do what the evaluation does. -/
theorem LowersBody.runStmts_eq {ctx ctx' : Context} {body : Body} {code : Code}
    (h : LowersBody ctx body code ctx') {depth : Nat} (hd : code.functions.length ≤ depth)
    (env self : V) :
    runStmts isNull rounds (enter isNull rounds code.functions depth) code.stmts ⟨env, self, none⟩
      = evalBody isNull rounds (.inner env self) body := by
  have linked := Linked.of_nodup h.numbered.nodup_texts hd
  exact C.runStmts_eq (h.returns linked (.start ctx env self none))

/-- **Lowering preserves evaluation.** On every machine and from every state, the lowered lines of a
body make the run that the evaluation of the body makes: the same is asked in the same order, the
ending is the same, and so is the state after it. -/
theorem run_lowerBody {σ : Type u} (m : Machine V σ) (s : σ) (isNull : V → Bool) (rounds : Nat)
    {ctx ctx' : Context} {body : Body} {code : Code} (h : lowerBody body ctx = (.ok code, ctx'))
    {depth : Nat} (hd : code.functions.length ≤ depth) (env self : V) :
    m.run (runStmts isNull rounds (enter isNull rounds code.functions depth) code.stmts
        ⟨env, self, none⟩).run s
      = m.run (evalBody isNull rounds (.inner env self) body).run s := by
  rw [(lowers_of_lowerBody h).runStmts_eq hd]

/-- A machine that replies with the number of what it was asked before and finds even values
truthy. -/
def counting : Machine Nat Nat where
  perform _ n := (some n, n + 1)
  test _ value n := (value % 2 == 0, n + 1)
  deliver _ _ n := (some n, n + 1)

/-- A call that is passed the value of a conditional. -/
def sampleBody : Body :=
  [⟨.send none "print" [⟨.conditional [⟨⟨.localVar "a", default⟩,
    [⟨.send none "b" [⟨.integer 1, default⟩] none, default⟩]⟩] none, default⟩] none, default⟩]

theorem run_lowerBody_counting :
    ∃ code ctx', lowerBody sampleBody (.start "" .empty) = (.ok code, ctx')
      ∧ code.functions.length ≤ 2
      ∧ counting.run (runStmts (· == 0) 3 (enter (· == 0) 3 code.functions 2) code.stmts
          ⟨0, 1, none⟩).run 5
        = counting.run (evalBody (· == 0) 3 (.inner 0 1) sampleBody).run 5 :=
  ⟨_, _, rfl, by decide, run_lowerBody counting 5 _ 3 rfl (by decide) 0 1⟩

end ScriptCompiler.Lowering
