import ScriptCompiler.Proofs.Syntax.Evaluation

/-!
# Outermost assignments

The assignments to local variables that belong to the outermost scope of a program: those outside
the bodies of classes, modules, methods and blocks. An assignment inside a protected construct is
made on the environment of that construct, if it is made at all: a handler whose body cannot raise
an exception never runs.
-/

namespace ScriptCompiler

/-- An assignment to a local variable of the outermost scope. -/
structure Assignment where
  name : String
  /-- It stands inside a protected construct. -/
  inside : Bool
  /-- It does not stand in a handler that cannot run. -/
  live : Bool
  deriving DecidableEq, Repr

/-- The node is the receiver. -/
def Node.isSelf : Node → Bool
  | ⟨.selfRef, _⟩ => true
  | _ => false

theorem Node.form_of_isSelf {node : Node} (h : node.isSelf = true) : node.form = .selfRef := by
  obtain ⟨form, span⟩ := node
  cases form with
  | selfRef => rfl
  | _ => cases h

/-- The body names the receiver and does nothing else, so it cannot raise an exception. -/
def onlySelf : Body → Bool
  | [] => false
  | [last] => last.isSelf
  | node :: nodes => node.isSelf && onlySelf nodes

/-- One of the assignments is made on another environment than that of the program. -/
def Strays (assignments : List Assignment) : Prop :=
  ∃ a ∈ assignments, a.inside = true ∧ a.live = true

instance (assignments : List Assignment) : Decidable (Strays assignments) :=
  inferInstanceAs (Decidable (∃ a ∈ assignments, a.inside = true ∧ a.live = true))

@[simp] theorem not_strays_nil : ¬ Strays [] := by
  rintro ⟨_, ha, -⟩
  exact List.not_mem_nil ha

@[simp] theorem strays_append {xs ys : List Assignment} :
    Strays (xs ++ ys) ↔ Strays xs ∨ Strays ys := by
  simp only [Strays, List.mem_append, or_and_right, exists_or]

@[simp] theorem strays_singleton {a : Assignment} :
    Strays [a] ↔ a.inside = true ∧ a.live = true := by
  simp only [Strays, List.mem_singleton, exists_eq_left]

/-- Assignments of which one strays, the first ones or only the others. -/
theorem strays_or {xs ys : List Assignment} (h : Strays xs ∨ Strays ys) :
    Strays xs ∨ ¬ Strays xs ∧ Strays ys := by
  by_cases hx : Strays xs
  · exact .inl hx
  · exact .inr ⟨hx, h.resolve_left hx⟩

/-- The assignments of a handler, none of which is made if its body cannot raise an exception. -/
def handled (body : Body) (assignments : List Assignment) : List Assignment :=
  if onlySelf body then assignments.map fun a => { a with live := false } else assignments

theorem strays_handled {body : Body} {xs : List Assignment} :
    Strays (handled body xs) ↔ onlySelf body = false ∧ Strays xs := by
  unfold handled
  split
  · next h => simp [h, Strays]
  · next h => simp [h]

theorem map_name_handled (body : Body) (xs : List Assignment) :
    (handled body xs).map (·.name) = xs.map (·.name) := by
  unfold handled
  split
  · simp
  · rfl

namespace Outermost

mutual

/-- The outermost assignments of a node, in the order in which it is lowered. -/
def ofNode (inside : Bool) : Node → List Assignment
  | ⟨form, _⟩ => ofForm inside form

/-- The outermost assignments of a node of a form. -/
def ofForm (inside : Bool) : Form → List Assignment
  | .array elements => ofNodes inside elements
  | .assign (.localVar name) value => ofNode inside value ++ [⟨name, inside, true⟩]
  | .assign (.instanceVar _) value => ofNode inside value
  | .assign (.globalVar _) value => ofNode inside value
  | .send receiver _ args _ => ofReceiver inside receiver ++ ofNodes inside args
  | .conditional branches otherwise =>
    ofBranches inside branches ++ ofOtherwise inside otherwise
  | .loop _ condition body => ofNodes inside body ++ ofNode inside condition
  | .rescue body _ handler otherwise =>
    ofNodes true body ++ handled body (ofNodes true handler) ++ ofOtherwise true otherwise
  | _ => []

/-- The outermost assignments of nodes one after the other. -/
def ofNodes (inside : Bool) : List Node → List Assignment
  | [] => []
  | node :: nodes => ofNode inside node ++ ofNodes inside nodes

/-- The outermost assignments of a receiver. -/
def ofReceiver (inside : Bool) : Option Node → List Assignment
  | none => []
  | some node => ofNode inside node

/-- The outermost assignments of branches. -/
def ofBranches (inside : Bool) : List Branch → List Assignment
  | [] => []
  | ⟨condition, body⟩ :: branches =>
    ofNode inside condition ++ ofNodes inside body ++ ofBranches inside branches

/-- The outermost assignments of a body that may be missing. -/
def ofOtherwise (inside : Bool) : Option (List Node) → List Assignment
  | none => []
  | some body => ofNodes inside body

end

end Outermost

/-- The outermost assignments of a program. -/
def Outermost.of (program : Body) : List Assignment :=
  Outermost.ofNodes false program

end ScriptCompiler

namespace ScriptCompiler.Evaluation

open Outermost ScriptCompiler.Runtime

variable {V : Type} {isNull : V → Bool} {rounds : Nat} {self home : V}

/-! ## Watched evaluation -/

/-- Watching changes nothing about a protected body if it changes nothing about its parts; a handler
that cannot run does not count. -/
theorem protectedBody_home {env : V} {body handler : Scope V → Action V V}
    {otherwise : Option (Scope V → Action V V)} (variable_ : Option String)
    (hb : ∀ x, body ⟨x, self, some home⟩ = body (.inner x self))
    (hh : (∀ x, body (.inner x self) = pure self)
      ∨ ∀ x, handler ⟨x, self, some home⟩ = handler (.inner x self))
    (ho : ∀ f, otherwise = some f → ∀ x, f ⟨x, self, some home⟩ = f (.inner x self)) :
    protectedBody ⟨env, self, some home⟩ variable_ body handler otherwise
      = protectedBody (.inner env self) variable_ body handler otherwise := by
  unfold protectedBody
  refine bind_congr fun x => ?_
  show (signal _ >>= fun _ => protect (body ⟨x, self, some home⟩) _ _)
    = signal _ >>= fun _ => protect (body (.inner x self)) _ _
  refine bind_congr fun _ => ?_
  rw [hb x]
  have hn : ∀ value : V, (signal (.closeRescue x) >>= fun _ =>
        afterwards ⟨x, self, some home⟩ otherwise value)
      = signal (.closeRescue x) >>= fun _ => afterwards (.inner x self) otherwise value := by
    intro value
    cases otherwise with
    | none => rfl
    | some f => simp only [afterwards, ho f rfl x]
  rcases hh with hh | hh
  · rw [hh x]
    exact hn self
  · exact congr (congrArg (protect _) (funext hn)) (bind_congr fun _ => bind_congr fun _ => hh x)

variable [DecidableEq V]

theorem assignTo_home {env : V} (h : env = home) (value : V) (target : Target) :
    assignTo ⟨env, self, some home⟩ value target = assignTo (.inner env self) value target := by
  subst h
  cases target with
  | localVar name =>
    simp only [assignTo, Scope.inner, Option.any_some, Option.any_none, ne_eq, not_true_eq_false,
      decide_false, Bool.false_eq_true, if_false]
  | instanceVar name => rfl
  | globalVar name => rfl

theorem evalBody_onlySelf {scope : Scope V} {body : Body} (h : onlySelf body = true) :
    evalBody isNull rounds scope body = pure scope.self := by
  induction body with
  | nil => cases h
  | cons node nodes ih =>
    cases nodes with
    | nil =>
      obtain ⟨form, span⟩ := node
      obtain rfl : form = .selfRef := Node.form_of_isSelf h
      rw [evalBody, eval, evalForm]
    | cons next nodes =>
      simp only [onlySelf, Bool.and_eq_true] at h
      obtain ⟨form, span⟩ := node
      obtain rfl : form = .selfRef := Node.form_of_isSelf h.1
      simp only [evalBody]
      rw [eval, evalForm, pure_bind]
      exact ih h.2

mutual

/-- **Watching changes nothing** about the evaluation of a node none of whose assignments strays. -/
theorem eval_home {env : V} {inside : Bool} (node : Node) (he : inside = false → env = home)
    (hs : ¬ Strays (ofNode inside node)) :
    eval isNull rounds ⟨env, self, some home⟩ node = eval isNull rounds (.inner env self) node := by
  match node with
  | ⟨form, span⟩ =>
    rw [eval, eval]
    exact evalForm_home form he hs

theorem evalForm_home {env : V} {inside : Bool} (form : Form) (he : inside = false → env = home)
    (hs : ¬ Strays (ofForm inside form)) :
    evalForm isNull rounds ⟨env, self, some home⟩ form
      = evalForm isNull rounds (.inner env self) form := by
  match form with
  | .array elements =>
    rw [evalForm, evalForm]
    simp only [evalElements_home _ elements he hs]
    rfl
  | .assign (.localVar name) value =>
    rw [ofForm, strays_append, not_or, strays_singleton] at hs
    obtain ⟨hv, ha⟩ := hs
    have hi : inside = false := by simpa using ha
    rw [evalForm, evalForm, eval_home value he hv]
    simp only [assignTo_home (he hi)]
  | .assign (.instanceVar name) value =>
    rw [evalForm, evalForm, eval_home value he hs]
    rfl
  | .assign (.globalVar name) value =>
    rw [evalForm, evalForm, eval_home value he hs]
    rfl
  | .send receiver name args block =>
    rw [ofForm, strays_append, not_or] at hs
    rw [evalForm, evalForm, evalReceiver_home receiver he hs.1, evalArgs_home args he hs.2]
    cases block <;> rfl
  | .conditional branches otherwise =>
    rw [ofForm, strays_append, not_or] at hs
    rw [evalForm, evalForm]
    simp only [evalOtherwise_home _ otherwise he hs.2, evalBranches_home _ branches he hs.1]
    rfl
  | .loop kind condition body =>
    rw [ofForm, strays_append, not_or] at hs
    rw [evalForm, evalForm, eval_home condition he hs.2, evalBody_home body he hs.1]
    rfl
  | .rescue body variable_ handler otherwise =>
    rw [ofForm, strays_append, strays_append, not_or, not_or] at hs
    obtain ⟨⟨hb, hh⟩, ho⟩ := hs
    have hhandler : (∀ x, evalBody isNull rounds (.inner x self) body = pure self)
        ∨ ∀ x, evalBody isNull rounds ⟨x, self, some home⟩ handler
          = evalBody isNull rounds (.inner x self) handler := by
      cases hself : onlySelf body with
      | true => exact .inl fun x => evalBody_onlySelf hself
      | false =>
        rw [strays_handled, not_and] at hh
        exact .inr fun x => evalBody_home handler (by nofun) (hh hself)
    rw [evalForm, evalForm]
    refine protectedBody_home variable_ (fun x => evalBody_home body (by nofun) hb) hhandler ?_
    intro f hf x
    match otherwise, hf with
    | some body, rfl => exact evalBody_home body (by nofun) ho
  | .integer _ | .str _ | .symbol _ | .selfRef | .localVar _ | .instanceVar _ | .globalVar _
  | .directive _ _ | .unknown => rfl
  | .classDef _ _ _ => rfl
  | .moduleDef _ _ => rfl
  | .methodDef _ _ _ _ => rfl

theorem evalBody_home {env : V} {inside : Bool} (body : Body) (he : inside = false → env = home)
    (hs : ¬ Strays (ofNodes inside body)) :
    evalBody isNull rounds ⟨env, self, some home⟩ body
      = evalBody isNull rounds (.inner env self) body := by
  match body with
  | [] => rfl
  | [last] =>
    rw [ofNodes, strays_append, not_or] at hs
    rw [evalBody, evalBody, eval_home last he hs.1]
  | node :: next :: nodes =>
    rw [ofNodes, strays_append, not_or] at hs
    simp only [evalBody]
    rw [eval_home node he hs.1, evalBody_home (next :: nodes) he hs.2]

theorem evalElements_home {env : V} {inside : Bool} (array : V) (nodes : List Node)
    (he : inside = false → env = home) (hs : ¬ Strays (ofNodes inside nodes)) :
    evalElements isNull rounds ⟨env, self, some home⟩ array nodes
      = evalElements isNull rounds (.inner env self) array nodes := by
  match nodes with
  | [] => rfl
  | node :: nodes =>
    rw [ofNodes, strays_append, not_or] at hs
    rw [evalElements, evalElements, eval_home node he hs.1, evalElements_home array nodes he hs.2]
    rfl

theorem evalReceiver_home {env : V} {inside : Bool} (receiver : Option Node)
    (he : inside = false → env = home) (hs : ¬ Strays (ofReceiver inside receiver)) :
    evalReceiver isNull rounds ⟨env, self, some home⟩ receiver
      = evalReceiver isNull rounds (.inner env self) receiver := by
  match receiver with
  | none => rfl
  | some node => rw [evalReceiver, evalReceiver, eval_home node he hs]

theorem evalArgs_home {env : V} {inside : Bool} (nodes : List Node)
    (he : inside = false → env = home) (hs : ¬ Strays (ofNodes inside nodes)) :
    evalArgs isNull rounds ⟨env, self, some home⟩ nodes
      = evalArgs isNull rounds (.inner env self) nodes := by
  match nodes with
  | [] => rfl
  | node :: nodes =>
    rw [ofNodes, strays_append, not_or] at hs
    rw [evalArgs, evalArgs, eval_home node he hs.1, evalArgs_home nodes he hs.2]

theorem evalBranches_home {env : V} {inside : Bool} (otherwise : Action V V)
    (branches : List Branch) (he : inside = false → env = home)
    (hs : ¬ Strays (ofBranches inside branches)) :
    evalBranches isNull rounds ⟨env, self, some home⟩ otherwise branches
      = evalBranches isNull rounds (.inner env self) otherwise branches := by
  match branches with
  | [] => rfl
  | ⟨condition, body⟩ :: branches =>
    rw [ofBranches, strays_append, strays_append, not_or, not_or] at hs
    rw [evalBranches, evalBranches, eval_home condition he hs.1.1, evalBody_home body he hs.1.2,
      evalBranches_home otherwise branches he hs.2]
    rfl

theorem evalOtherwise_home {env : V} {inside : Bool} (nil : V) (otherwise : Option (List Node))
    (he : inside = false → env = home) (hs : ¬ Strays (ofOtherwise inside otherwise)) :
    evalOtherwise isNull rounds ⟨env, self, some home⟩ nil otherwise
      = evalOtherwise isNull rounds (.inner env self) nil otherwise := by
  match otherwise with
  | none => rfl
  | some body => rw [evalOtherwise, evalOtherwise, evalBody_home body he hs]

end

end ScriptCompiler.Evaluation
