import ScriptCompiler.Load.Expand
import ScriptCompiler.Proofs.Steps
import ScriptCompiler.Proofs.Syntax.Trees

/-!
# Trees that are expanded

The rules of an expansion, and the order in which it runs the directives of a tree.
-/

/-!
## What expansion does to a tree

An expansion is a relation between two trees and the files that are remembered before and after. It
has one rule for every form of node that holds others: the node stays, with its span and everything
in it that is no tree, and what is in it is expanded in the order in which it is written. A
directive in a body gives way to the contents of its file, in their place; one that stands for a
value becomes a conditional without branches around them.

The contents of a directive are those of a file that was remembered before, nothing, or the
expansion of the program in the file.
-/

namespace ScriptCompiler.Load

/-- What directives are replaced by: between the files that are remembered before and after. -/
abbrev Contents := DirectiveKind → String → Span → Tracker → Body → Tracker → Prop

/-! ### The rules -/

mutual

/-- The nodes of a body are expanded. -/
inductive ExpandsBody (contents : Contents) : Tracker → Body → Body → Tracker → Prop
  | nil {t : Tracker} : ExpandsBody contents t [] [] t
  | splice {t t₁ t₂ : Tracker} {kind : DirectiveKind} {path : String} {span : Span}
      {inner nodes nodes' : Body} (replaced : contents kind path span t inner t₁)
      (others : ExpandsBody contents t₁ nodes nodes' t₂) :
      ExpandsBody contents t (⟨.directive kind path, span⟩ :: nodes) (inner ++ nodes') t₂
  | keep {t t₁ t₂ : Tracker} {node node' : Node} {nodes nodes' : Body}
      (h : node.form.isDirective = false) (first : ExpandsNode contents t node node' t₁)
      (others : ExpandsBody contents t₁ nodes nodes' t₂) :
      ExpandsBody contents t (node :: nodes) (node' :: nodes') t₂

/-- A node is expanded where it stands for a value. -/
inductive ExpandsNode (contents : Contents) : Tracker → Node → Node → Tracker → Prop
  | atom {t : Tracker} {form : Form} {span : Span} (h : form.isAtom = true) :
      ExpandsNode contents t ⟨form, span⟩ ⟨form, span⟩ t
  | directive {t t' : Tracker} {kind : DirectiveKind} {path : String} {span : Span} {inner : Body}
      (replaced : contents kind path span t inner t') :
      ExpandsNode contents t ⟨.directive kind path, span⟩
        ⟨.conditional [] (some inner), span⟩ t'
  | array {t t' : Tracker} {span : Span} {elements elements' : List Node}
      (elements_ : ExpandsEach contents t elements elements' t') :
      ExpandsNode contents t ⟨.array elements, span⟩ ⟨.array elements', span⟩ t'
  | assign {t t' : Tracker} {span : Span} {target : Target} {value value' : Node}
      (value_ : ExpandsNode contents t value value' t') :
      ExpandsNode contents t ⟨.assign target value, span⟩ ⟨.assign target value', span⟩ t'
  | classDef {t t' : Tracker} {span : Span} {name : String} {superclass : Option String}
      {body body' : Body} (body_ : ExpandsBody contents t body body' t') :
      ExpandsNode contents t ⟨.classDef name superclass body, span⟩
        ⟨.classDef name superclass body', span⟩ t'
  | moduleDef {t t' : Tracker} {span : Span} {name : String} {body body' : Body}
      (body_ : ExpandsBody contents t body body' t') :
      ExpandsNode contents t ⟨.moduleDef name body, span⟩ ⟨.moduleDef name body', span⟩ t'
  | methodDef {t t' : Tracker} {span : Span} {owner : Option String} {name : String}
      {params : List Param} {body body' : Body} (body_ : ExpandsBody contents t body body' t') :
      ExpandsNode contents t ⟨.methodDef owner name params body, span⟩
        ⟨.methodDef owner name params body', span⟩ t'
  | send {t t₁ t₂ t₃ : Tracker} {span : Span} {name : String} {receiver receiver' : Option Node}
      {args args' : List Node} {block block' : Option Block}
      (receiver_ : ExpandsReceiver contents t receiver receiver' t₁)
      (args_ : ExpandsEach contents t₁ args args' t₂)
      (block_ : ExpandsBlock contents t₂ block block' t₃) :
      ExpandsNode contents t ⟨.send receiver name args block, span⟩
        ⟨.send receiver' name args' block', span⟩ t₃
  | conditional {t t₁ t₂ : Tracker} {span : Span} {branches branches' : List Branch}
      {otherwise otherwise' : Option Body}
      (branches_ : ExpandsBranches contents t branches branches' t₁)
      (otherwise_ : ExpandsOptional contents t₁ otherwise otherwise' t₂) :
      ExpandsNode contents t ⟨.conditional branches otherwise, span⟩
        ⟨.conditional branches' otherwise', span⟩ t₂
  | loop {t t₁ t₂ : Tracker} {span : Span} {kind : LoopKind} {condition condition' : Node}
      {body body' : Body} (condition_ : ExpandsNode contents t condition condition' t₁)
      (body_ : ExpandsBody contents t₁ body body' t₂) :
      ExpandsNode contents t ⟨.loop kind condition body, span⟩
        ⟨.loop kind condition' body', span⟩ t₂
  | rescue {t t₁ t₂ t₃ : Tracker} {span : Span} {variable_ : Option String}
      {body body' handler handler' : Body} {otherwise otherwise' : Option Body}
      (body_ : ExpandsBody contents t body body' t₁)
      (handler_ : ExpandsBody contents t₁ handler handler' t₂)
      (otherwise_ : ExpandsOptional contents t₂ otherwise otherwise' t₃) :
      ExpandsNode contents t ⟨.rescue body variable_ handler otherwise, span⟩
        ⟨.rescue body' variable_ handler' otherwise', span⟩ t₃

/-- Nodes that each stand for a value are expanded. -/
inductive ExpandsEach (contents : Contents) :
    Tracker → List Node → List Node → Tracker → Prop
  | nil {t : Tracker} : ExpandsEach contents t [] [] t
  | cons {t t₁ t₂ : Tracker} {node node' : Node} {nodes nodes' : List Node}
      (first : ExpandsNode contents t node node' t₁)
      (others : ExpandsEach contents t₁ nodes nodes' t₂) :
      ExpandsEach contents t (node :: nodes) (node' :: nodes') t₂

/-- The receiver of a message is expanded. -/
inductive ExpandsReceiver (contents : Contents) :
    Tracker → Option Node → Option Node → Tracker → Prop
  | none {t : Tracker} : ExpandsReceiver contents t none none t
  | some {t t' : Tracker} {node node' : Node} (receiver : ExpandsNode contents t node node' t') :
      ExpandsReceiver contents t (some node) (some node') t'

/-- A body that may be missing is expanded. -/
inductive ExpandsOptional (contents : Contents) :
    Tracker → Option Body → Option Body → Tracker → Prop
  | none {t : Tracker} : ExpandsOptional contents t none none t
  | some {t t' : Tracker} {body body' : Body} (body_ : ExpandsBody contents t body body' t') :
      ExpandsOptional contents t (some body) (some body') t'

/-- The block of a message is expanded. -/
inductive ExpandsBlock (contents : Contents) :
    Tracker → Option Block → Option Block → Tracker → Prop
  | none {t : Tracker} : ExpandsBlock contents t none none t
  | some {t t' : Tracker} {params : List Param} {body body' : Body}
      (body_ : ExpandsBody contents t body body' t') :
      ExpandsBlock contents t (some ⟨params, body⟩) (some ⟨params, body'⟩) t'

/-- The branches of a conditional are expanded. -/
inductive ExpandsBranches (contents : Contents) :
    Tracker → List Branch → List Branch → Tracker → Prop
  | nil {t : Tracker} : ExpandsBranches contents t [] [] t
  | cons {t t₁ t₂ t₃ : Tracker} {condition condition' : Node} {body body' : Body}
      {branches branches' : List Branch}
      (condition_ : ExpandsNode contents t condition condition' t₁)
      (body_ : ExpandsBody contents t₁ body body' t₂)
      (others : ExpandsBranches contents t₂ branches branches' t₃) :
      ExpandsBranches contents t (⟨condition, body⟩ :: branches) (⟨condition', body'⟩ :: branches')
        t₃

end

/-- The contents of a directive in a file, with so many levels of files left: nothing if the file is
required and was remembered before, else the expansion of the program in it. -/
def contentsOf (s : Settings) : Nat → Path → Contents
  | levels, current, kind, name, _, t, inner, t' =>
    ∃ found path, s.find current kind name = some found ∧ s.files.canonical found = .ok path
      ∧ if kind ≠ .load ∧ t.contains path = true then inner = [] ∧ t' = t
        else match levels with
          | 0 => False
          | levels + 1 => ∃ text program, s.files.readText path = .ok text
            ∧ parse path.text text [] = .ok program
            ∧ ExpandsBody (contentsOf s levels path) (if kind = .load then t else t.insert path)
              program inner t'

end ScriptCompiler.Load

/-!
## The order of directives

An expansion runs the directives of a tree one after the other, in the order in which they are
reached, until one fails. Nothing else in it fails or remembers anything, and what each directive
was replaced by stands in its place.
-/

namespace ScriptCompiler.Load

variable {replace : Replace} {contents : Contents}

/-- A node that is no directive keeps its place in the body. -/
theorem expandBody_cons {node : Node} (h : node.form.isDirective = false) (nodes : Body) :
    expandBody replace (node :: nodes) = do
      let first ← expandNode replace node
      let others ← expandBody replace nodes
      return first :: others := by
  rw [expandBody]
  rintro kind path span rfl
  cases h

/-! ### Runs of directives -/

/-- Runs directives one after the other. -/
def runEach (replace : Replace) : List Directive → Step Unit
  | [] => return ()
  | d :: ds => do
    let _ ← replace d.kind d.path d.span
    runEach replace ds

/-- The directives that are reached when some are run, with what is remembered when each is. -/
def turns (replace : Replace) : List Directive → Tracker → List (Directive × Tracker)
  | [], _ => []
  | d :: ds, t => (d, t) ::
    match replace d.kind d.path d.span t with
    | (.ok _, t') => turns replace ds t'
    | (.error _, _) => []

theorem runEach_singleton (replace : Replace) (d : Directive) :
    runEach replace [d] = do
      let _ ← replace d.kind d.path d.span
      return () :=
  rfl

theorem runEach_append (replace : Replace) (xs ys : List Directive) :
    runEach replace (xs ++ ys) = runEach replace xs >>= fun _ => runEach replace ys := by
  induction xs with
  | nil =>
    rw [List.nil_append, runEach, pure_bind]
  | cons d ds ih =>
    rw [List.cons_append, runEach, runEach, bind_assoc, ih]

theorem turns_append {xs ys : List Directive} {t t₁ : Tracker}
    (h : runEach replace xs t = (.ok (), t₁)) :
    turns replace (xs ++ ys) t = turns replace xs t ++ turns replace ys t₁ := by
  induction xs generalizing t with
  | nil =>
    obtain ⟨-, rfl⟩ := pure_ok h
    rfl
  | cons d ds ih =>
    obtain ⟨inner, mid, h₁, h⟩ := bind_ok h
    rw [List.cons_append, turns, turns, h₁]
    exact congrArg _ (ih h)

/-! ### Expansions run the directives of a tree -/

section Order

variable {α β : Type}

/-- A step whose result does not count, with another one after it. -/
theorem bind_of_silent {step : Step α} {run : Step Unit}
    (h : (do let _ ← step; return ()) = run) (k : Step β) :
    (step >>= fun _ => k) = run >>= fun _ => k := by
  rw [← h, bind_assoc]
  simp only [pure_bind]

variable (replace)

mutual

theorem silent_expandBody (nodes : Body) :
    (do let _ ← expandBody replace nodes; return ())
      = runEach replace (Directives.ofNodes nodes) := by
  match nodes with
  | [] =>
    rw [expandBody, pure_bind]
    rfl
  | ⟨form, span⟩ :: nodes =>
    rw [Directives.ofNodes, runEach_append, ← silent_expandBody nodes]
    cases hd : form.isDirective with
    | true =>
      cases form with
      | directive kind path =>
        rw [Directives.ofNode, Directives.ofForm, runEach_singleton, expandBody]
        simp only [bind_assoc, pure_bind]
      | _ => cases hd
    | false =>
      rw [expandBody_cons hd, ← bind_of_silent (silent_expandNode ⟨form, span⟩)]
      simp only [bind_assoc, pure_bind]
termination_by structural nodes

theorem silent_expandNode (node : Node) :
    (do let _ ← expandNode replace node; return ())
      = runEach replace (Directives.ofNode node) := by
  match node with
  | ⟨form, span⟩ =>
    rw [expandNode, Directives.ofNode, ← silent_expandForm span form]
    simp only [bind_assoc, pure_bind]
termination_by structural node

theorem silent_expandForm (span : Span) (form : Form) :
    (do let _ ← expandForm replace span form; return ())
      = runEach replace (Directives.ofForm span form) := by
  cases form with
  | directive kind path =>
    rw [expandForm, Directives.ofForm, runEach_singleton]
    simp only [bind_assoc, pure_bind]
  | array elements =>
    rw [expandForm, Directives.ofForm, ← silent_expandEach elements]
    simp only [bind_assoc, pure_bind]
  | assign target value =>
    rw [expandForm, Directives.ofForm, ← silent_expandNode value]
    simp only [bind_assoc, pure_bind]
  | classDef name superclass body =>
    rw [expandForm, Directives.ofForm, ← silent_expandBody body]
    simp only [bind_assoc, pure_bind]
  | moduleDef name body =>
    rw [expandForm, Directives.ofForm, ← silent_expandBody body]
    simp only [bind_assoc, pure_bind]
  | methodDef owner name params body =>
    rw [expandForm, Directives.ofForm, ← silent_expandBody body]
    simp only [bind_assoc, pure_bind]
  | send receiver name args block =>
    rw [expandForm, Directives.ofForm, runEach_append, runEach_append]
    simp only [bind_assoc, pure_bind]
    rw [bind_of_silent (silent_expandReceiver receiver), bind_of_silent (silent_expandEach args),
      silent_expandBlock block]
  | conditional branches otherwise =>
    rw [expandForm, Directives.ofForm, runEach_append]
    simp only [bind_assoc, pure_bind]
    rw [bind_of_silent (silent_expandBranches branches), silent_expandOptional otherwise]
  | loop kind condition body =>
    rw [expandForm, Directives.ofForm, runEach_append]
    simp only [bind_assoc, pure_bind]
    rw [bind_of_silent (silent_expandNode condition), silent_expandBody body]
  | rescue body variable_ handler otherwise =>
    rw [expandForm, Directives.ofForm, runEach_append, runEach_append]
    simp only [bind_assoc, pure_bind]
    rw [bind_of_silent (silent_expandBody body), bind_of_silent (silent_expandBody handler),
      silent_expandOptional otherwise]
  | _ =>
    rw [expandForm, Directives.ofForm, pure_bind]
    rfl
termination_by structural form

theorem silent_expandEach (nodes : List Node) :
    (do let _ ← expandEach replace nodes; return ())
      = runEach replace (Directives.ofNodes nodes) := by
  match nodes with
  | [] =>
    rw [expandEach, pure_bind]
    rfl
  | node :: nodes =>
    rw [expandEach, Directives.ofNodes, runEach_append]
    simp only [bind_assoc, pure_bind]
    rw [bind_of_silent (silent_expandNode node), silent_expandEach nodes]
termination_by structural nodes

theorem silent_expandReceiver (receiver : Option Node) :
    (do let _ ← expandReceiver replace receiver; return ())
      = runEach replace (Directives.ofReceiver receiver) := by
  match receiver with
  | none =>
    rw [expandReceiver, pure_bind]
    rfl
  | some node =>
    rw [expandReceiver, Directives.ofReceiver, ← silent_expandNode node]
    simp only [bind_assoc, pure_bind]
termination_by structural receiver

theorem silent_expandOptional (body : Option Body) :
    (do let _ ← expandOptional replace body; return ())
      = runEach replace (Directives.ofOptional body) := by
  match body with
  | none =>
    rw [expandOptional, pure_bind]
    rfl
  | some nodes =>
    rw [expandOptional, Directives.ofOptional, ← silent_expandBody nodes]
    simp only [bind_assoc, pure_bind]
termination_by structural body

theorem silent_expandBlock (block : Option Block) :
    (do let _ ← expandBlock replace block; return ())
      = runEach replace (Directives.ofBlock block) := by
  match block with
  | none =>
    rw [expandBlock, pure_bind]
    rfl
  | some ⟨params, body⟩ =>
    rw [expandBlock, Directives.ofBlock, ← silent_expandBody body]
    simp only [bind_assoc, pure_bind]
termination_by structural block

theorem silent_expandBranches (branches : List Branch) :
    (do let _ ← expandBranches replace branches; return ())
      = runEach replace (Directives.ofBranches branches) := by
  match branches with
  | [] =>
    rw [expandBranches, pure_bind]
    rfl
  | ⟨condition, body⟩ :: branches =>
    rw [expandBranches, Directives.ofBranches, runEach_append, runEach_append]
    simp only [bind_assoc, pure_bind]
    rw [bind_of_silent (silent_expandNode condition), bind_of_silent (silent_expandBody body),
      silent_expandBranches branches]
termination_by structural branches

end

end Order

/-! ### Expansions go by the rules -/

/-- The contents are those that the directives are replaced by when they are reached. -/
def Serves (replace : Replace) (contents : Contents) (ds : List Directive) (t : Tracker) : Prop :=
  ∀ d t₀ inner t₁, (d, t₀) ∈ turns replace ds t →
    replace d.kind d.path d.span t₀ = (.ok inner, t₁) →
    contents d.kind d.path d.span t₀ inner t₁

theorem Serves.head {d : Directive} {ds : List Directive} {t t' : Tracker} {inner : Body}
    (hs : Serves replace contents (d :: ds) t)
    (h : replace d.kind d.path d.span t = (.ok inner, t')) :
    contents d.kind d.path d.span t inner t' :=
  hs d t inner t' List.mem_cons_self h

theorem Serves.append {xs ys : List Directive} {t t₁ : Tracker}
    (hs : Serves replace contents (xs ++ ys) t) (h : runEach replace xs t = (.ok (), t₁)) :
    Serves replace contents xs t ∧ Serves replace contents ys t₁ := by
  unfold Serves at hs
  rw [turns_append h] at hs
  exact ⟨fun d t₀ inner t' hm => hs d t₀ inner t' (List.mem_append_left _ hm),
    fun d t₀ inner t' hm => hs d t₀ inner t' (List.mem_append_right _ hm)⟩

/-- A step that succeeds runs its directives. -/
theorem runEach_of_silent {α : Type} {step : Step α} {ds : List Directive} {a : α}
    {t t' : Tracker} (hsilent : (do let _ ← step; return ()) = runEach replace ds)
    (h : step t = (.ok a, t')) : runEach replace ds t = (.ok (), t') := by
  rw [← hsilent, bind_of_ok h]
  rfl

mutual

/-- **An expansion goes by the rules**, with the contents that its directives are replaced by when
they are reached. -/
theorem expandsBody_of_expandBody {t t' : Tracker} {nodes nodes' : Body}
    (hs : Serves replace contents (Directives.ofNodes nodes) t)
    (h : expandBody replace nodes t = (.ok nodes', t')) :
    ExpandsBody contents t nodes nodes' t' := by
  match nodes, hs, h with
  | [], hs, h =>
    rw [expandBody] at h
    obtain ⟨rfl, rfl⟩ := pure_ok h
    exact .nil
  | ⟨form, span⟩ :: nodes, hs, h =>
    rw [Directives.ofNodes] at hs
    cases hd : form.isDirective with
    | true =>
      cases form with
      | directive kind path =>
        rw [Directives.ofNode, Directives.ofForm] at hs
        rw [expandBody] at h
        obtain ⟨inner, _, h₁, h⟩ := bind_ok h
        obtain ⟨others, _, h₂, h⟩ := bind_ok h
        obtain ⟨rfl, rfl⟩ := pure_ok h
        obtain ⟨hs₁, hs₂⟩ := hs.append (bind_of_ok h₁)
        exact .splice (hs₁.head h₁) (expandsBody_of_expandBody hs₂ h₂)
      | _ => cases hd
    | false =>
      rw [expandBody_cons hd] at h
      obtain ⟨first, _, h₁, h⟩ := bind_ok h
      obtain ⟨others, _, h₂, h⟩ := bind_ok h
      obtain ⟨rfl, rfl⟩ := pure_ok h
      obtain ⟨hs₁, hs₂⟩ := hs.append (runEach_of_silent (silent_expandNode ..) h₁)
      exact .keep hd (expandsNode_of_expandNode hs₁ h₁) (expandsBody_of_expandBody hs₂ h₂)
termination_by structural nodes

theorem expandsNode_of_expandNode {t t' : Tracker} {node node' : Node}
    (hs : Serves replace contents (Directives.ofNode node) t)
    (h : expandNode replace node t = (.ok node', t')) :
    ExpandsNode contents t node node' t' := by
  match node, hs, h with
  | ⟨form, span⟩, hs, h =>
    rw [expandNode] at h
    obtain ⟨form', _, h₁, h⟩ := bind_ok h
    obtain ⟨rfl, rfl⟩ := pure_ok h
    exact expandsNode_of_expandForm hs h₁
termination_by structural node

theorem expandsNode_of_expandForm {t t' : Tracker} {form form' : Form} {span : Span}
    (hs : Serves replace contents (Directives.ofForm span form) t)
    (h : expandForm replace span form t = (.ok form', t')) :
    ExpandsNode contents t ⟨form, span⟩ ⟨form', span⟩ t' := by
  cases form with
  | directive kind path =>
    rw [expandForm] at h
    obtain ⟨inner, _, h₁, h⟩ := bind_ok h
    obtain ⟨rfl, rfl⟩ := pure_ok h
    rw [Directives.ofForm] at hs
    exact .directive (hs.head h₁)
  | array elements =>
    rw [expandForm] at h
    obtain ⟨elements', _, h₁, h⟩ := bind_ok h
    obtain ⟨rfl, rfl⟩ := pure_ok h
    exact .array (expandsEach_of_expandEach hs h₁)
  | assign target value =>
    rw [expandForm] at h
    obtain ⟨value', _, h₁, h⟩ := bind_ok h
    obtain ⟨rfl, rfl⟩ := pure_ok h
    exact .assign (expandsNode_of_expandNode hs h₁)
  | classDef name superclass body =>
    rw [expandForm] at h
    obtain ⟨body', _, h₁, h⟩ := bind_ok h
    obtain ⟨rfl, rfl⟩ := pure_ok h
    exact .classDef (expandsBody_of_expandBody hs h₁)
  | moduleDef name body =>
    rw [expandForm] at h
    obtain ⟨body', _, h₁, h⟩ := bind_ok h
    obtain ⟨rfl, rfl⟩ := pure_ok h
    exact .moduleDef (expandsBody_of_expandBody hs h₁)
  | methodDef owner name params body =>
    rw [expandForm] at h
    obtain ⟨body', _, h₁, h⟩ := bind_ok h
    obtain ⟨rfl, rfl⟩ := pure_ok h
    exact .methodDef (expandsBody_of_expandBody hs h₁)
  | send receiver name args block =>
    rw [expandForm] at h
    obtain ⟨receiver', _, h₁, h⟩ := bind_ok h
    obtain ⟨args', _, h₂, h⟩ := bind_ok h
    obtain ⟨block', _, h₃, h⟩ := bind_ok h
    obtain ⟨rfl, rfl⟩ := pure_ok h
    rw [Directives.ofForm, List.append_assoc] at hs
    obtain ⟨hs₁, hs⟩ := hs.append (runEach_of_silent (silent_expandReceiver ..) h₁)
    obtain ⟨hs₂, hs₃⟩ := hs.append (runEach_of_silent (silent_expandEach ..) h₂)
    exact .send (expandsReceiver_of_expandReceiver hs₁ h₁) (expandsEach_of_expandEach hs₂ h₂)
      (expandsBlock_of_expandBlock hs₃ h₃)
  | conditional branches otherwise =>
    rw [expandForm] at h
    obtain ⟨branches', _, h₁, h⟩ := bind_ok h
    obtain ⟨otherwise', _, h₂, h⟩ := bind_ok h
    obtain ⟨rfl, rfl⟩ := pure_ok h
    rw [Directives.ofForm] at hs
    obtain ⟨hs₁, hs₂⟩ := hs.append (runEach_of_silent (silent_expandBranches ..) h₁)
    exact .conditional (expandsBranches_of_expandBranches hs₁ h₁)
      (expandsOptional_of_expandOptional hs₂ h₂)
  | loop kind condition body =>
    rw [expandForm] at h
    obtain ⟨condition', _, h₁, h⟩ := bind_ok h
    obtain ⟨body', _, h₂, h⟩ := bind_ok h
    obtain ⟨rfl, rfl⟩ := pure_ok h
    rw [Directives.ofForm] at hs
    obtain ⟨hs₁, hs₂⟩ := hs.append (runEach_of_silent (silent_expandNode ..) h₁)
    exact .loop (expandsNode_of_expandNode hs₁ h₁) (expandsBody_of_expandBody hs₂ h₂)
  | rescue body variable_ handler otherwise =>
    rw [expandForm] at h
    obtain ⟨body', _, h₁, h⟩ := bind_ok h
    obtain ⟨handler', _, h₂, h⟩ := bind_ok h
    obtain ⟨otherwise', _, h₃, h⟩ := bind_ok h
    obtain ⟨rfl, rfl⟩ := pure_ok h
    rw [Directives.ofForm, List.append_assoc] at hs
    obtain ⟨hs₁, hs⟩ := hs.append (runEach_of_silent (silent_expandBody ..) h₁)
    obtain ⟨hs₂, hs₃⟩ := hs.append (runEach_of_silent (silent_expandBody ..) h₂)
    exact .rescue (expandsBody_of_expandBody hs₁ h₁) (expandsBody_of_expandBody hs₂ h₂)
      (expandsOptional_of_expandOptional hs₃ h₃)
  | _ =>
    rw [expandForm] at h
    obtain ⟨rfl, rfl⟩ := pure_ok h
    exact .atom rfl
termination_by structural form

theorem expandsEach_of_expandEach {t t' : Tracker} {nodes nodes' : List Node}
    (hs : Serves replace contents (Directives.ofNodes nodes) t)
    (h : expandEach replace nodes t = (.ok nodes', t')) :
    ExpandsEach contents t nodes nodes' t' := by
  match nodes, hs, h with
  | [], hs, h =>
    rw [expandEach] at h
    obtain ⟨rfl, rfl⟩ := pure_ok h
    exact .nil
  | node :: nodes, hs, h =>
    rw [expandEach] at h
    obtain ⟨first, _, h₁, h⟩ := bind_ok h
    obtain ⟨others, _, h₂, h⟩ := bind_ok h
    obtain ⟨rfl, rfl⟩ := pure_ok h
    rw [Directives.ofNodes] at hs
    obtain ⟨hs₁, hs₂⟩ := hs.append (runEach_of_silent (silent_expandNode ..) h₁)
    exact .cons (expandsNode_of_expandNode hs₁ h₁) (expandsEach_of_expandEach hs₂ h₂)
termination_by structural nodes

theorem expandsReceiver_of_expandReceiver {t t' : Tracker} {receiver receiver' : Option Node}
    (hs : Serves replace contents (Directives.ofReceiver receiver) t)
    (h : expandReceiver replace receiver t = (.ok receiver', t')) :
    ExpandsReceiver contents t receiver receiver' t' := by
  match receiver, hs, h with
  | none, hs, h =>
    rw [expandReceiver] at h
    obtain ⟨rfl, rfl⟩ := pure_ok h
    exact .none
  | some node, hs, h =>
    rw [expandReceiver] at h
    obtain ⟨node', _, h₁, h⟩ := bind_ok h
    obtain ⟨rfl, rfl⟩ := pure_ok h
    exact .some (expandsNode_of_expandNode hs h₁)
termination_by structural receiver

theorem expandsOptional_of_expandOptional {t t' : Tracker} {body body' : Option Body}
    (hs : Serves replace contents (Directives.ofOptional body) t)
    (h : expandOptional replace body t = (.ok body', t')) :
    ExpandsOptional contents t body body' t' := by
  match body, hs, h with
  | none, hs, h =>
    rw [expandOptional] at h
    obtain ⟨rfl, rfl⟩ := pure_ok h
    exact .none
  | some nodes, hs, h =>
    rw [expandOptional] at h
    obtain ⟨nodes', _, h₁, h⟩ := bind_ok h
    obtain ⟨rfl, rfl⟩ := pure_ok h
    exact .some (expandsBody_of_expandBody hs h₁)
termination_by structural body

theorem expandsBlock_of_expandBlock {t t' : Tracker} {block block' : Option Block}
    (hs : Serves replace contents (Directives.ofBlock block) t)
    (h : expandBlock replace block t = (.ok block', t')) :
    ExpandsBlock contents t block block' t' := by
  match block, hs, h with
  | none, hs, h =>
    rw [expandBlock] at h
    obtain ⟨rfl, rfl⟩ := pure_ok h
    exact .none
  | some ⟨params, body⟩, hs, h =>
    rw [expandBlock] at h
    obtain ⟨body', _, h₁, h⟩ := bind_ok h
    obtain ⟨rfl, rfl⟩ := pure_ok h
    exact .some (expandsBody_of_expandBody hs h₁)
termination_by structural block

theorem expandsBranches_of_expandBranches {t t' : Tracker} {branches branches' : List Branch}
    (hs : Serves replace contents (Directives.ofBranches branches) t)
    (h : expandBranches replace branches t = (.ok branches', t')) :
    ExpandsBranches contents t branches branches' t' := by
  match branches, hs, h with
  | [], hs, h =>
    rw [expandBranches] at h
    obtain ⟨rfl, rfl⟩ := pure_ok h
    exact .nil
  | ⟨condition, body⟩ :: branches, hs, h =>
    rw [expandBranches] at h
    obtain ⟨condition', _, h₁, h⟩ := bind_ok h
    obtain ⟨body', _, h₂, h⟩ := bind_ok h
    obtain ⟨others, _, h₃, h⟩ := bind_ok h
    obtain ⟨rfl, rfl⟩ := pure_ok h
    rw [Directives.ofBranches, List.append_assoc] at hs
    obtain ⟨hs₁, hs⟩ := hs.append (runEach_of_silent (silent_expandNode ..) h₁)
    obtain ⟨hs₂, hs₃⟩ := hs.append (runEach_of_silent (silent_expandBody ..) h₂)
    exact .cons (expandsNode_of_expandNode hs₁ h₁) (expandsBody_of_expandBody hs₂ h₂)
      (expandsBranches_of_expandBranches hs₃ h₃)
termination_by structural branches

end

end ScriptCompiler.Load
