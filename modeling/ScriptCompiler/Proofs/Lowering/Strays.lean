import ScriptCompiler.Proofs.Lowering.Recorded
import ScriptCompiler.Proofs.Lowering.Simulation
import ScriptCompiler.Proofs.Syntax.Ends

/-!
# Where recorded variables are assigned

The local variables that a compilation records are those of the outermost assignments. They are
assigned on the environment that the program gets exactly when no assignment strays, that is, when
none stands inside a protected construct, a handler that cannot run apart.
-/

namespace ScriptCompiler.Lowering

open C Evaluation Outermost ScriptCompiler.Runtime

/-- The environment of an evaluation, the home of the program, and an environment that is not the
home: inside a protected construct the evaluation is away from home. -/
structure Placed {V : Type} (inside : Bool) (env home away : V) : Prop where
  away_ne : away ≠ home
  env_ne : inside = true → env ≠ home
  env_eq : inside = false → env = home

theorem Placed.inner {V : Type} {inside : Bool} {env home away : V}
    (h : Placed inside env home away) : Placed true away home away :=
  ⟨h.away_ne, fun _ => h.away_ne, fun hi => absurd hi (by decide)⟩

variable {V : Type} [DecidableEq V] {isNull : V → Bool} {n : Nat}

theorem evalForm_leaf (isNull : V → Bool) (rounds : Nat) {form : Form} {base : String} {e : Expr}
    (h : leaf? form = some (base, e)) (scope : Scope V) :
    ∃ op, evalForm isNull rounds scope form = perform op := by
  cases form <;> cases h <;> exact ⟨_, by rw [evalForm]⟩

theorem completes_evalForm_namespace {form : Form} {ns : Namespace}
    (h : namespace? form = some ns) (scope : Scope V)
    (hb : ∀ env self, Completes (evalBody isNull n (.inner env self) ns.body)) :
    Completes (evalForm isNull n scope form) := by
  have body : ∀ object, Completes (namespaceBody scope object fun scope =>
      evalBody isNull n scope ns.body) := fun object =>
    .bind (.perform object _) fun env => hb env object
  cases form with
  | classDef name superclass body' =>
    cases h
    rw [evalForm]
    have create : Completes (perform (.getLocal scope.env (superclass.getD "Object")) >>= fun x =>
        perform (.newClass scope.env x name)) :=
      .bind (.perform scope.env _) fun _ => .perform scope.env _
    exact .bind (completes_namespaceObject scope name create) body
  | moduleDef name body' =>
    cases h
    rw [evalForm]
    exact .bind (completes_namespaceObject scope name (.perform scope.env _)) body
  | _ => cases h

/-! ## Lowered code can come to its end -/

mutual

/-- **The evaluation of a node that is lowered can come to a value**, if loops may have a round. -/
theorem Lowers.completes {ctx ctx' : Context} {node : Node} {frag : Fragment}
    (h : Lowers ctx node frag ctx') (env self : V) :
    Completes (eval isNull (n + 1) (.inner env self) node) := by
  match h with
  | .leaf h =>
    obtain ⟨op, he⟩ := evalForm_leaf isNull (n + 1) h (.inner env self)
    rw [eval, he]
    exact .perform env op
  | .selfRef =>
    rw [eval, evalForm]
    exact .pure _
  | .array elements =>
    rw [eval, evalForm]
    refine .bind (.perform env _) fun array => ?_
    exact .bind (elements.completes env self array) fun _ => .pure _
  | .assign value =>
    rw [eval, evalForm]
    exact .bind (value.completes env self) fun x =>
      .bind (completes_assignTo env self x _) fun _ => .pure _
  | .namespace_ h body =>
    rw [eval]
    exact completes_evalForm_namespace h _ fun env self => body.completes env self
  | .methodDef placed body =>
    rw [eval, evalForm]
    exact .bind (completes_defineRoutine _ _ _ _) fun _ => .perform env _
  | .send receiver args marshal block =>
    rw [eval, evalForm]
    exact .bind (receiver.completes env self) fun _ => .bind (args.completes env self) fun _ =>
      .bind (block.completes env self) fun _ => completes_sendMessage _ _ _ _
  | .conditional branches =>
    rw [eval, evalForm]
    exact .bind (.perform env _) fun nil => branches.completes env self nil
  | .loop body condition =>
    rw [eval, evalForm]
    exact .bind (completes_loop _ (condition.completes env self)) fun _ => .perform env _
  | .rescue body handler otherwise =>
    rw [eval, evalForm]
    exact completes_protectedBody _ (body.completes env self) (otherwise.completes env self)

theorem LowersBody.completes {ctx ctx' : Context} {nodes : Body} {code : Code}
    (h : LowersBody ctx nodes code ctx') (env self : V) :
    Completes (evalBody isNull (n + 1) (.inner env self) nodes) := by
  match h with
  | .nil =>
    rw [evalBody]
    exact .perform env _
  | .last last =>
    rw [evalBody]
    exact last.completes env self
  | .cons first others =>
    simp only [evalBody]
    exact .bind (first.completes env self) fun _ => others.completes env self

theorem LowersElements.completes {ctx ctx' : Context} {v : Variable} {nodes : List Node}
    {code : Code} (h : LowersElements ctx v nodes code ctx') (env self array : V) :
    Completes (evalElements isNull (n + 1) (.inner env self) array nodes) := by
  match h with
  | .nil =>
    rw [evalElements]
    exact .pure _
  | .cons first others =>
    rw [evalElements]
    exact .bind (first.completes env self) fun _ =>
      .bind (.perform env _) fun _ => others.completes env self array

theorem LowersReceiver.completes {ctx ctx' : Context} {receiver : Option Node} {code : Code}
    {rv : Option Variable} (h : LowersReceiver ctx receiver code rv ctx') (env self : V) :
    Completes (evalReceiver isNull (n + 1) (.inner env self) receiver) := by
  match h with
  | .none =>
    rw [evalReceiver]
    exact .pure _
  | .some receiver =>
    rw [evalReceiver]
    exact .bind (receiver.completes env self) fun _ => .pure _

theorem LowersArgs.completes {ctx ctx' : Context} {nodes : List Node} {code : Code}
    {vars : List Variable} (h : LowersArgs ctx nodes code vars ctx') (env self : V) :
    Completes (evalArgs isNull (n + 1) (.inner env self) nodes) := by
  match h with
  | .nil =>
    rw [evalArgs]
    exact .pure _
  | .cons first others =>
    rw [evalArgs]
    exact .bind (first.completes env self) fun _ => .bind (others.completes env self) fun _ =>
      .pure _

theorem LowersBlock.completes {ctx ctx' : Context} {block : Option Block} {code : Code}
    {bn : Option Name} (h : LowersBlock ctx block code bn ctx') (env self : V) :
    Completes (evalBlock isNull (n + 1) (.inner env self) block) := by
  match h with
  | .none =>
    rw [evalBlock]
    exact .pure _
  | .some placed body =>
    rw [evalBlock]
    exact .bind (.deliver env _ _) fun _ => .pure _

theorem LowersBranches.completes {ctx ctx' : Context} {result : Variable}
    {otherwise : Option (List Node)} {branches : List Branch} {code : Code}
    (h : LowersBranches ctx result otherwise branches code ctx') (env self nil : V) :
    Completes (evalBranches isNull (n + 1) (.inner env self)
      (evalOtherwise isNull (n + 1) (.inner env self) nil otherwise) branches) := by
  match h with
  | .nil otherwise =>
    rw [evalBranches]
    exact otherwise.completes env self nil
  | .cons condition body others =>
    rw [evalBranches]
    refine .bind (condition.completes env self) fun _ => .test_bind _ _ true ?_
    exact body.completes env self

theorem LowersOtherwise.completes {ctx ctx' : Context} {result : Variable}
    {otherwise : Option (List Node)} {code : Code}
    (h : LowersOtherwise ctx result otherwise code ctx') (env self nil : V) :
    Completes (evalOtherwise isNull (n + 1) (.inner env self) nil otherwise) := by
  match h with
  | .none =>
    rw [evalOtherwise]
    exact .pure _
  | .some body =>
    rw [evalOtherwise]
    exact body.completes env self

theorem LowersElse.completes {ctx ctx' : Context} {otherwise : Option (List Node)}
    {functions : List Function} {name : Option Name}
    (h : LowersElse ctx otherwise functions name ctx') (env self value : V) :
    Completes (afterwards (.inner env self) (evalElse isNull (n + 1) otherwise) value) := by
  match h with
  | .none =>
    rw [evalElse]
    exact .pure _
  | .some body =>
    rw [evalElse]
    exact body.completes env self

end

/-! ## Lowered code can raise an exception -/

theorem Lowers.raises {ctx ctx' : Context} {node : Node} {frag : Fragment}
    (h : Lowers ctx node frag ctx') (hs : node.isSelf = false) (env self : V) :
    Raises (eval isNull (n + 1) (.inner env self) node) := by
  cases h with
  | leaf h =>
    obtain ⟨op, he⟩ := evalForm_leaf isNull (n + 1) h (.inner env self)
    rw [eval, he]
    exact .perform op
  | selfRef => cases hs
  | array elements =>
    rw [eval, evalForm]
    exact .first (.perform _)
  | assign value =>
    rw [eval, evalForm]
    exact .second (value.completes env self) fun x => .first (raises_assignTo env self x _)
  | @namespace_ _ _ form _ _ _ h body =>
    rw [eval]
    cases form with
    | classDef name superclass body => exact .first (.first (.perform _))
    | moduleDef name body => exact .first (.first (.perform _))
    | _ => cases h
  | methodDef placed body =>
    rw [eval, evalForm]
    exact .first (raises_defineRoutine _ _ _ _)
  | send receiver args marshal block =>
    rw [eval, evalForm]
    exact .second (receiver.completes env self) fun _ => .second (args.completes env self) fun _ =>
      .second (block.completes env self) fun _ => raises_sendMessage _ _ _ _
  | conditional branches =>
    rw [eval, evalForm]
    exact .first (.perform _)
  | loop body condition =>
    rw [eval, evalForm]
    exact .second (completes_loop _ (condition.completes env self)) fun _ => .perform _
  | rescue body handler otherwise =>
    rw [eval, evalForm]
    exact .first (.perform _)

theorem LowersBody.raises {ctx ctx' : Context} {nodes : Body} {code : Code}
    (h : LowersBody ctx nodes code ctx') (hs : onlySelf nodes = false) (env self : V) :
    Raises (evalBody isNull (n + 1) (.inner env self) nodes) := by
  induction nodes generalizing ctx code with
  | nil =>
    cases h
    rw [evalBody]
    exact .perform _
  | cons node nodes ih =>
    cases h with
    | last only =>
      rw [evalBody]
      exact only.raises hs env self
    | cons first others =>
      simp only [evalBody]
      cases hf : node.isSelf with
      | true =>
        simp only [onlySelf, hf, Bool.true_and] at hs
        exact .second (first.completes env self) fun _ => ih others hs
      | false => exact .first (first.raises hf env self)

/-! ## Watched code that is stuck -/

section Parts

variable {self home away : V}

mutual

/-- **A watched evaluation can get stuck** at an assignment that strays. -/
theorem Lowers.parts {ctx ctx' : Context} {node : Node} {frag : Fragment}
    (h : Lowers ctx node frag ctx') {env : V} {inside : Bool} (place : Placed inside env home away)
    (hs : Strays (ofNode inside node)) :
    Runtime.Parts (eval isNull (n + 1) ⟨env, self, some home⟩ node)
      (eval isNull (n + 1) (.inner env self) node) := by
  match h with
  | .leaf h =>
    rw [ofNode, ofForm_leaf h] at hs
    exact absurd hs not_strays_nil
  | .selfRef => exact absurd hs not_strays_nil
  | .array elements =>
    rw [eval, evalForm, eval, evalForm]
    exact .second (.perform env _) fun array => .first (elements.parts place array hs)
  | @Lowers.assign _ _ _ target _ _ value =>
    rw [eval, evalForm, eval, evalForm]
    cases target with
    | localVar name =>
      rw [ofNode, ofForm, strays_append] at hs
      rcases strays_or hs with hv | ⟨hv, ha⟩
      · exact .first (value.parts place hv)
      · rw [strays_singleton] at ha
        rw [eval_home _ place.env_eq hv]
        exact .second (value.completes env self) fun x =>
          .first (parts_assignTo (place.env_ne ha.1) self x name)
    | instanceVar name => exact .first (value.parts place hs)
    | globalVar name => exact .first (value.parts place hs)
  | .namespace_ h body =>
    rw [ofNode, ofForm_namespace h] at hs
    exact absurd hs not_strays_nil
  | .methodDef placed body => exact absurd hs not_strays_nil
  | .send receiver args marshal block =>
    rw [ofNode, ofForm, strays_append] at hs
    rw [eval, evalForm, eval, evalForm]
    rcases strays_or hs with hr | ⟨hr, ha⟩
    · exact .first (receiver.parts place hr)
    · rw [evalReceiver_home _ place.env_eq hr]
      exact .second (receiver.completes env self) fun _ => .first (args.parts place ha)
  | .conditional branches =>
    rw [ofNode, ofForm] at hs
    rw [eval, evalForm, eval, evalForm]
    exact .second (.perform env _) fun nil => branches.parts place nil hs
  | .loop body condition =>
    rw [ofNode, ofForm, strays_append] at hs
    rw [eval, evalForm, eval, evalForm]
    rcases strays_or hs.symm with hc | ⟨hc, hb⟩
    · exact .first (parts_loop_condition _ (condition.parts place hc))
    · rw [eval_home _ place.env_eq hc]
      exact .first (parts_loop_body _ rfl (condition.completes env self) (body.parts place hb))
  | .rescue body handler otherwise =>
    rw [ofNode, ofForm, List.append_assoc, strays_append] at hs
    rw [eval, evalForm, eval, evalForm]
    rcases strays_or hs with hb | ⟨hb, hs⟩
    · exact parts_protectedBody _ rfl (body.parts place.inner hb)
    rcases strays_append.mp hs with hh | ho
    · rw [strays_handled] at hh
      exact parts_protectedBody_handler _ rfl (evalBody_home _ place.inner.env_eq hb)
        (body.raises hh.1 away self) (handler.parts place.inner hh.2)
    · exact parts_protectedBody_afterwards _ rfl (evalBody_home _ place.inner.env_eq hb)
        (body.completes away self) fun value => otherwise.parts place.inner value ho

theorem LowersBody.parts {ctx ctx' : Context} {nodes : Body} {code : Code}
    (h : LowersBody ctx nodes code ctx') {env : V} {inside : Bool}
    (place : Placed inside env home away) (hs : Strays (ofNodes inside nodes)) :
    Runtime.Parts (evalBody isNull (n + 1) ⟨env, self, some home⟩ nodes)
      (evalBody isNull (n + 1) (.inner env self) nodes) := by
  match h with
  | .nil => exact absurd hs not_strays_nil
  | .last last =>
    rw [ofNodes, strays_append] at hs
    rw [evalBody, evalBody]
    exact last.parts place (hs.resolve_right not_strays_nil)
  | .cons first others =>
    rw [ofNodes, strays_append] at hs
    simp only [evalBody]
    rcases strays_or hs with hf | ⟨hf, ho⟩
    · exact .first (first.parts place hf)
    · rw [eval_home _ place.env_eq hf]
      exact .second (first.completes env self) fun _ => others.parts place ho

theorem LowersElements.parts {ctx ctx' : Context} {v : Variable} {nodes : List Node}
    {code : Code} (h : LowersElements ctx v nodes code ctx') {env : V} {inside : Bool}
    (place : Placed inside env home away) (array : V) (hs : Strays (ofNodes inside nodes)) :
    Runtime.Parts (evalElements isNull (n + 1) ⟨env, self, some home⟩ array nodes)
      (evalElements isNull (n + 1) (.inner env self) array nodes) := by
  match h with
  | .nil => exact absurd hs not_strays_nil
  | .cons first others =>
    rw [ofNodes, strays_append] at hs
    rw [evalElements, evalElements]
    rcases strays_or hs with hf | ⟨hf, ho⟩
    · exact .first (first.parts place hf)
    · rw [eval_home _ place.env_eq hf]
      exact .second (first.completes env self) fun _ => .second (.perform env _) fun _ =>
        others.parts place array ho

theorem LowersReceiver.parts {ctx ctx' : Context} {receiver : Option Node} {code : Code}
    {rv : Option Variable} (h : LowersReceiver ctx receiver code rv ctx') {env : V}
    {inside : Bool} (place : Placed inside env home away)
    (hs : Strays (ofReceiver inside receiver)) :
    Runtime.Parts (evalReceiver isNull (n + 1) ⟨env, self, some home⟩ receiver)
      (evalReceiver isNull (n + 1) (.inner env self) receiver) := by
  match h with
  | .none => exact absurd hs not_strays_nil
  | .some receiver =>
    rw [evalReceiver, evalReceiver]
    exact .first (receiver.parts place hs)

theorem LowersArgs.parts {ctx ctx' : Context} {nodes : List Node} {code : Code}
    {vars : List Variable} (h : LowersArgs ctx nodes code vars ctx') {env : V} {inside : Bool}
    (place : Placed inside env home away) (hs : Strays (ofNodes inside nodes)) :
    Runtime.Parts (evalArgs isNull (n + 1) ⟨env, self, some home⟩ nodes)
      (evalArgs isNull (n + 1) (.inner env self) nodes) := by
  match h with
  | .nil => exact absurd hs not_strays_nil
  | .cons first others =>
    rw [ofNodes, strays_append] at hs
    rw [evalArgs, evalArgs]
    rcases strays_or hs with hf | ⟨hf, ho⟩
    · exact .first (first.parts place hf)
    · rw [eval_home _ place.env_eq hf]
      exact .second (first.completes env self) fun _ =>
        .first (others.parts place ho)

theorem LowersBranches.parts {ctx ctx' : Context} {result : Variable}
    {otherwise : Option (List Node)} {branches : List Branch} {code : Code}
    (h : LowersBranches ctx result otherwise branches code ctx') {env : V} {inside : Bool}
    (place : Placed inside env home away) (nil : V)
    (hs : Strays (ofBranches inside branches ++ ofOtherwise inside otherwise)) :
    Runtime.Parts (evalBranches isNull (n + 1) ⟨env, self, some home⟩
        (evalOtherwise isNull (n + 1) ⟨env, self, some home⟩ nil otherwise) branches)
      (evalBranches isNull (n + 1) (.inner env self)
        (evalOtherwise isNull (n + 1) (.inner env self) nil otherwise) branches) := by
  match h with
  | .nil otherwise =>
    rw [evalBranches, evalBranches]
    exact otherwise.parts place nil hs
  | .cons condition body others =>
    rw [ofBranches, List.append_assoc, List.append_assoc, strays_append] at hs
    rw [evalBranches, evalBranches]
    rcases strays_or hs with hc | ⟨hc, hs⟩
    · exact .first (condition.parts place hc)
    rw [eval_home _ place.env_eq hc]
    refine .second (condition.completes env self) fun _ => ?_
    rcases strays_append.mp hs with hb | ho
    · exact .test_bind _ _ true (body.parts place hb)
    · exact .test_bind _ _ false (others.parts place nil ho)

theorem LowersOtherwise.parts {ctx ctx' : Context} {result : Variable}
    {otherwise : Option (List Node)} {code : Code}
    (h : LowersOtherwise ctx result otherwise code ctx') {env : V} {inside : Bool}
    (place : Placed inside env home away) (nil : V)
    (hs : Strays (ofOtherwise inside otherwise)) :
    Runtime.Parts (evalOtherwise isNull (n + 1) ⟨env, self, some home⟩ nil otherwise)
      (evalOtherwise isNull (n + 1) (.inner env self) nil otherwise) := by
  match h with
  | .none => exact absurd hs not_strays_nil
  | .some body =>
    rw [evalOtherwise, evalOtherwise]
    exact body.parts place hs

theorem LowersElse.parts {ctx ctx' : Context} {otherwise : Option (List Node)}
    {functions : List Function} {name : Option Name}
    (h : LowersElse ctx otherwise functions name ctx') {env : V} {inside : Bool}
    (place : Placed inside env home away) (value : V)
    (hs : Strays (ofOtherwise inside otherwise)) :
    Runtime.Parts
      (afterwards ⟨env, self, some home⟩ (evalElse isNull (n + 1) otherwise) value)
      (afterwards (.inner env self) (evalElse isNull (n + 1) otherwise) value) := by
  match h with
  | .none => exact absurd hs not_strays_nil
  | .some body =>
    rw [evalElse]
    exact body.parts place hs

end

end Parts

/-! ## Programs -/

/-- Every outermost assignment of a program is made on the environment that the program gets: on no
machine can the lowered program be told from an evaluation that is stuck at any other assignment. -/
def AssignsAtHome (program : Body) (code : Code) : Prop :=
  ∀ (V σ : Type) [DecidableEq V] (m : Machine V σ) (s : σ) (isNull : V → Bool) (rounds : Nat)
    (env self : V),
    m.run (runStmts isNull rounds (enter isNull rounds code.functions code.functions.length)
        code.stmts ⟨env, self, none⟩).run s
      = m.run (evalBody isNull rounds ⟨env, self, some env⟩ program).run s

/-- **Recorded variables live in the environment of the program exactly when no assignment to them
strays.** The variables that a compilation records are the names of the outermost assignments. All
of these are made on the environment that the program gets if none stands inside a protected
construct; if one stands there, some machine sees it made on another environment. -/
theorem assignsAtHome_iff {ctx ctx' : Context} {program : Body} {code : Code}
    (h : lowerBody program ctx = (.ok code, ctx')) (hd : ctx.depth = 0) :
    ctx'.vars = ((Outermost.of program).map (·.name)).foldl VarMap.declare ctx.vars
      ∧ (AssignsAtHome program code ↔ ¬ Strays (Outermost.of program)) := by
  have lowers := lowers_of_lowerBody h
  refine ⟨?_, ?_, ?_⟩
  · have hv := (lowers.records false).vars
    rwa [if_pos hd] at hv
  · intro home strays
    -- two values are enough to tell the environment of the program from that of a construct
    have place : Placed false false false true :=
      ⟨by decide, fun hi => absurd hi (by decide), fun _ => rfl⟩
    have parts : Runtime.Parts (evalBody (fun _ => false) 1 ⟨false, false, some false⟩ program)
        (evalBody (fun _ => false) 1 (.inner false false) program) := lowers.parts place strays
    obtain ⟨script, hne⟩ := parts.exists_script
    have run := home Bool _ scripted script (fun _ => false) 1 false false
    rw [lowers.runStmts_eq (Nat.le_refl _)] at run
    exact hne (congrArg Record.events run.symm)
  · intro strays V σ _ m s isNull rounds env self
    rw [lowers.runStmts_eq (Nat.le_refl _), evalBody_home program (fun _ => rfl) strays]

/-- A variable that is assigned in a protected body and read after it. -/
def strayProgram : Body :=
  [⟨.rescue [⟨.assign (.localVar "x") ⟨.integer 1, default⟩, default⟩] none
    [⟨.localVar "nil", default⟩] none, default⟩, ⟨.localVar "x", default⟩]

theorem not_assignsAtHome_strayProgram :
    ∃ code ctx', lowerBody strayProgram (.start "" .empty) = (.ok code, ctx')
      ∧ ctx'.vars = VarMap.empty.declare "x" ∧ ¬ AssignsAtHome strayProgram code := by
  have h : lowerBody strayProgram (.start "" .empty) = (.ok _, _) := rfl
  obtain ⟨hv, hiff⟩ := assignsAtHome_iff h rfl
  exact ⟨_, _, h, hv, fun home => hiff.mp home (by decide)⟩

end ScriptCompiler.Lowering
