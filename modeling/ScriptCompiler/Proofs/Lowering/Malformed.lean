import ScriptCompiler.Proofs.Lowering.Refusals
import ScriptCompiler.Proofs.Syntax.Trees

/-!
# Malformed trees

Lowering looks at every node of a tree and at every parameter list in it. It succeeds exactly if it
finds no node of an unknown kind, no directive, and no parameter that receives the block in front of
others, wherever these may stand. If there are some, it fails for the first one in the order in
which it goes through the tree.
-/

namespace ScriptCompiler.Lowering

/-! ## Sound trees -/

/-- The node is a method, or a message with a block, and these are the parameters. -/
inductive Takes : Node → ParamOwner → List Param → Prop
  | method {owner : Option String} {name : String} {params : List Param} {body : Body}
      {span : Span} : Takes ⟨.methodDef owner name params body, span⟩ (.method name) params
  | block {receiver : Option Node} {name : String} {args : List Node} {params : List Param}
      {body : Body} {span : Span} :
      Takes ⟨.send receiver name args (some ⟨params, body⟩), span⟩ (.block name) params

/-- A node of the tree is nothing that lowering refuses, and only the last one of its parameters
receives the block. -/
structure SoundNode (node : Node) : Prop where
  known : node.form ≠ .unknown
  expanded : node.form.isDirective = false
  params : ∀ owner before p after, Takes node owner (before ++ p :: after) → p.isBlock = true →
    after = []

/-- All nodes in a body, at any depth, are sound. -/
def Sound (body : Body) : Prop :=
  ∀ node, body.Contains node → SoundNode node

/-! ## Sites -/

/-- What lowering looks at: a node, or the parameters of a method or block. -/
inductive Site where
  | node (node : Node)
  | params (owner : ParamOwner) (params : List Param)

namespace Site

/-- Why lowering fails at a site, if it does: for the node itself, or for the first parameter that
receives the block and is not the last one. -/
def failure? : Site → Option Failure
  | .node ⟨.unknown, span⟩ => some (.unknownNode span)
  | .node ⟨.directive kind path, _⟩ => some (.unexpandedDirective kind path)
  | .node _ => none
  | .params owner ps =>
    (ps.dropLast.find? Param.isBlock).map fun p => .blockParamNotLast owner p.name

/-- The site is the node or its parameters. -/
inductive Of : Site → Node → Prop
  | self {node : Node} : Of (.node node) node
  | params {node : Node} {owner : ParamOwner} {ps : List Param} (h : Takes node owner ps) :
      Of (.params owner ps) node

end Site

namespace Sites

mutual

/-- The sites of a node, in the order of lowering. -/
def ofNode : Node → List Site
  | ⟨form, span⟩ => .node ⟨form, span⟩ :: ofForm form

/-- The sites inside a form, in the order of lowering: a receiver, then arguments, then a block;
parameters before the body that they belong to; a condition before the body of its branch, and the
body of a loop before its condition; a protected body, then its handler, then the body that runs
without an exception. -/
def ofForm : Form → List Site
  | .array elements => ofNodes elements
  | .assign _ value => ofNode value
  | .classDef _ _ body => ofNodes body
  | .moduleDef _ body => ofNodes body
  | .methodDef _ name params body => .params (.method name) params :: ofNodes body
  | .send receiver name args block => ofReceiver receiver ++ ofNodes args ++ ofBlock name block
  | .conditional branches otherwise => ofBranches branches ++ ofOptional otherwise
  | .loop _ condition body => ofNodes body ++ ofNode condition
  | .rescue body _ handler otherwise => ofNodes body ++ ofNodes handler ++ ofOptional otherwise
  | .integer _ | .str _ | .symbol _ | .selfRef | .localVar _ | .instanceVar _ | .globalVar _
  | .directive _ _ | .unknown => []

/-- The sites of nodes one after the other. -/
def ofNodes : List Node → List Site
  | [] => []
  | node :: nodes => ofNode node ++ ofNodes nodes

/-- The sites of a receiver. -/
def ofReceiver : Option Node → List Site
  | none => []
  | some node => ofNode node

/-- The sites of a body that may be missing. -/
def ofOptional : Option (List Node) → List Site
  | none => []
  | some body => ofNodes body

/-- The sites of the block of a message. -/
def ofBlock (message : String) : Option Block → List Site
  | none => []
  | some ⟨params, body⟩ => .params (.block message) params :: ofNodes body

/-- The sites of branches. -/
def ofBranches : List Branch → List Site
  | [] => []
  | ⟨condition, body⟩ :: branches => ofNode condition ++ ofNodes body ++ ofBranches branches

end

/-! ### All of them -/

theorem mem_ofNodes {nodes : List Node} {site : Site} :
    site ∈ ofNodes nodes ↔ ∃ node ∈ nodes, site ∈ ofNode node := by
  induction nodes with
  | nil => exact iff_of_false nofun fun ⟨_, hm, _⟩ => nomatch hm
  | cons node nodes ih =>
    show site ∈ ofNode node ++ ofNodes nodes ↔ _
    simp only [List.mem_append, ih, List.mem_cons, or_and_right, exists_or, exists_eq_left]

theorem mem_ofBranches {branches : List Branch} {site : Site} :
    site ∈ ofBranches branches ↔ ∃ condition body, Branch.mk condition body ∈ branches
      ∧ (site ∈ ofNode condition ∨ site ∈ ofNodes body) := by
  induction branches with
  | nil => exact iff_of_false nofun fun ⟨_, _, hm, _⟩ => nomatch hm
  | cons branch branches ih =>
    obtain ⟨condition, body⟩ := branch
    show site ∈ ofNode condition ++ ofNodes body ++ ofBranches branches ↔ _
    rw [List.mem_append, List.mem_append, ih]
    constructor
    · rintro (here | ⟨c, b, hm, h⟩)
      · exact ⟨condition, body, List.mem_cons_self, here⟩
      · exact ⟨c, b, List.mem_cons_of_mem _ hm, h⟩
    · rintro ⟨c, b, hm, h⟩
      rcases List.mem_cons.mp hm with he | hm
      · cases he
        exact .inl h
      · exact .inr ⟨c, b, hm, h⟩

theorem mem_ofNodes_of_mem {nodes : List Node} {child : Node} {site : Site} (hc : child ∈ nodes)
    (h : site ∈ ofNode child) : site ∈ ofNodes nodes := by
  rw [mem_ofNodes]
  exact ⟨child, hc, h⟩

/-- The sites of a child are among those of the node that holds it. -/
theorem mem_of_holds {node child : Node} {site : Site} (holds : node.form.Holds child)
    (h : site ∈ ofNode child) : site ∈ ofNode node := by
  obtain ⟨form, span⟩ := node
  refine List.mem_cons_of_mem _ (show site ∈ ofForm form from ?_)
  cases holds with
  | element hc | classBody hc | moduleBody hc => exact mem_ofNodes_of_mem hc h
  | value => exact h
  | methodBody hc => exact List.mem_cons_of_mem _ (mem_ofNodes_of_mem hc h)
  | receiver => exact List.mem_append_left _ (List.mem_append_left _ h)
  | argument hc =>
    exact List.mem_append_left _ (List.mem_append_right _ (mem_ofNodes_of_mem hc h))
  | blockBody hc =>
    exact List.mem_append_right _ (List.mem_cons_of_mem _ (mem_ofNodes_of_mem hc h))
  | condition hb =>
    refine List.mem_append_left _ ?_
    rw [mem_ofBranches]
    exact ⟨child, _, hb, .inl h⟩
  | branchBody hb hc =>
    refine List.mem_append_left _ ?_
    rw [mem_ofBranches]
    exact ⟨_, _, hb, .inr (mem_ofNodes_of_mem hc h)⟩
  | noBranch hc | elseBody hc => exact List.mem_append_right _ (mem_ofNodes_of_mem hc h)
  | loopCondition => exact List.mem_append_right _ h
  | loopBody hc => exact List.mem_append_left _ (mem_ofNodes_of_mem hc h)
  | protected_ hc =>
    exact List.mem_append_left _ (List.mem_append_left _ (mem_ofNodes_of_mem hc h))
  | handler hc =>
    exact List.mem_append_left _ (List.mem_append_right _ (mem_ofNodes_of_mem hc h))

theorem mem_of_site {node : Node} {site : Site} (h : site.Of node) : site ∈ ofNode node := by
  obtain ⟨form, span⟩ := node
  cases h with
  | self => exact List.mem_cons_self
  | params takes =>
    refine List.mem_cons_of_mem _ (show _ ∈ ofForm form from ?_)
    cases takes with
    | method => exact List.mem_cons_self
    | block => exact List.mem_append_right _ List.mem_cons_self

/-- A node inside the other one has the site. -/
def Held (site : Site) (outer : Node) : Prop :=
  ∃ node, node.Inside outer ∧ site.Of node

theorem Held.of_child {site : Site} {child : Node} {form : Form} {span : Span}
    (h : Held site child) (holds : form.Holds child) : Held site ⟨form, span⟩ := by
  obtain ⟨node, inside, of⟩ := h
  exact ⟨node, inside.held holds, of⟩

variable {site : Site}

mutual

theorem held_of_mem_ofNode (node : Node) (h : site ∈ ofNode node) : Held site node := by
  match node with
  | ⟨form, span⟩ =>
    rw [ofNode, List.mem_cons] at h
    rcases h with rfl | h
    · exact ⟨_, .refl _, .self⟩
    · exact held_of_mem_ofForm span form h
termination_by structural node

theorem held_of_mem_ofForm (span : Span) (form : Form) (h : site ∈ ofForm form) :
    Held site ⟨form, span⟩ := by
  cases form with
  | array elements =>
    rw [ofForm] at h
    obtain ⟨child, hc, held⟩ := held_of_mem_ofNodes elements h
    exact held.of_child (.element hc)
  | assign target value =>
    rw [ofForm] at h
    exact (held_of_mem_ofNode value h).of_child .value
  | classDef name superclass body =>
    rw [ofForm] at h
    obtain ⟨child, hc, held⟩ := held_of_mem_ofNodes body h
    exact held.of_child (.classBody hc)
  | moduleDef name body =>
    rw [ofForm] at h
    obtain ⟨child, hc, held⟩ := held_of_mem_ofNodes body h
    exact held.of_child (.moduleBody hc)
  | methodDef owner name params body =>
    rw [ofForm, List.mem_cons] at h
    rcases h with rfl | h
    · exact ⟨_, .refl _, .params .method⟩
    · obtain ⟨child, hc, held⟩ := held_of_mem_ofNodes body h
      exact held.of_child (.methodBody hc)
  | send receiver name args block =>
    rw [ofForm, List.mem_append, List.mem_append] at h
    rcases h with (h | h) | h
    · obtain ⟨child, rfl, held⟩ := held_of_mem_ofReceiver receiver h
      exact held.of_child .receiver
    · obtain ⟨child, hc, held⟩ := held_of_mem_ofNodes args h
      exact held.of_child (.argument hc)
    · rcases held_of_mem_ofBlock name block h with ⟨params, body, rfl, rfl | ⟨child, hc, held⟩⟩
      · exact ⟨_, .refl _, .params .block⟩
      · exact held.of_child (.blockBody hc)
  | conditional branches otherwise =>
    rw [ofForm, List.mem_append] at h
    rcases h with h | h
    · rcases held_of_mem_ofBranches branches h with
        ⟨condition, body, hb, held | ⟨child, hc, held⟩⟩
      · exact held.of_child (.condition hb)
      · exact held.of_child (.branchBody hb hc)
    · obtain ⟨body, rfl, child, hc, held⟩ := held_of_mem_ofOptional otherwise h
      exact held.of_child (.noBranch hc)
  | loop kind condition body =>
    rw [ofForm, List.mem_append] at h
    rcases h with h | h
    · obtain ⟨child, hc, held⟩ := held_of_mem_ofNodes body h
      exact held.of_child (.loopBody hc)
    · exact (held_of_mem_ofNode condition h).of_child .loopCondition
  | rescue body variable_ handler otherwise =>
    rw [ofForm, List.mem_append, List.mem_append] at h
    rcases h with (h | h) | h
    · obtain ⟨child, hc, held⟩ := held_of_mem_ofNodes body h
      exact held.of_child (.protected_ hc)
    · obtain ⟨child, hc, held⟩ := held_of_mem_ofNodes handler h
      exact held.of_child (.handler hc)
    · obtain ⟨body, rfl, child, hc, held⟩ := held_of_mem_ofOptional otherwise h
      exact held.of_child (.elseBody hc)
  | _ =>
    rw [ofForm] at h
    cases h
termination_by structural form

theorem held_of_mem_ofNodes (nodes : List Node) (h : site ∈ ofNodes nodes) :
    ∃ node ∈ nodes, Held site node := by
  match nodes with
  | [] =>
    rw [ofNodes] at h
    cases h
  | node :: nodes =>
    rw [ofNodes, List.mem_append] at h
    rcases h with h | h
    · exact ⟨node, List.mem_cons_self, held_of_mem_ofNode node h⟩
    · obtain ⟨other, ho, held⟩ := held_of_mem_ofNodes nodes h
      exact ⟨other, List.mem_cons_of_mem _ ho, held⟩
termination_by structural nodes

theorem held_of_mem_ofReceiver (receiver : Option Node) (h : site ∈ ofReceiver receiver) :
    ∃ node, receiver = some node ∧ Held site node := by
  match receiver with
  | none =>
    rw [ofReceiver] at h
    cases h
  | some node =>
    rw [ofReceiver] at h
    exact ⟨node, rfl, held_of_mem_ofNode node h⟩
termination_by structural receiver

theorem held_of_mem_ofOptional (body : Option Body) (h : site ∈ ofOptional body) :
    ∃ nodes, body = some nodes ∧ ∃ node ∈ nodes, Held site node := by
  match body with
  | none =>
    rw [ofOptional] at h
    cases h
  | some nodes =>
    rw [ofOptional] at h
    exact ⟨nodes, rfl, held_of_mem_ofNodes nodes h⟩
termination_by structural body

theorem held_of_mem_ofBlock (message : String) (block : Option Block)
    (h : site ∈ ofBlock message block) : ∃ params body, block = some ⟨params, body⟩
      ∧ (site = .params (.block message) params ∨ ∃ node ∈ body, Held site node) := by
  match block with
  | none =>
    rw [ofBlock] at h
    cases h
  | some ⟨params, body⟩ =>
    rw [ofBlock, List.mem_cons] at h
    exact ⟨params, body, rfl, h.imp_right (held_of_mem_ofNodes body)⟩
termination_by structural block

theorem held_of_mem_ofBranches (branches : List Branch) (h : site ∈ ofBranches branches) :
    ∃ condition body, Branch.mk condition body ∈ branches
      ∧ (Held site condition ∨ ∃ node ∈ body, Held site node) := by
  match branches with
  | [] =>
    rw [ofBranches] at h
    cases h
  | ⟨condition, body⟩ :: branches =>
    rw [ofBranches, List.mem_append, List.mem_append] at h
    rcases h with (h | h) | h
    · exact ⟨condition, body, List.mem_cons_self, .inl (held_of_mem_ofNode condition h)⟩
    · exact ⟨condition, body, List.mem_cons_self, .inr (held_of_mem_ofNodes body h)⟩
    · obtain ⟨c, b, hb, held⟩ := held_of_mem_ofBranches branches h
      exact ⟨c, b, List.mem_cons_of_mem _ hb, held⟩
termination_by structural branches

end

theorem mem_of_inside {node outer : Node} (inside : node.Inside outer) (of : site.Of node) :
    site ∈ ofNode outer := by
  -- from the node that has the site outward
  induction inside using Relation.ReflTransGen.head_induction_on with
  | refl => exact mem_of_site of
  | head holds _ ih => exact mem_of_holds holds ih

/-- Lowering looks at every node of a body and at all parameters in it, and at nothing else. -/
theorem mem_ofNodes_iff {body : Body} :
    site ∈ ofNodes body ↔ ∃ node, body.Contains node ∧ site.Of node := by
  constructor
  · intro h
    obtain ⟨top, ht, node, inside, of⟩ := held_of_mem_ofNodes body h
    exact ⟨node, ⟨top, ht, inside⟩, of⟩
  · rintro ⟨node, ⟨top, ht, inside⟩, of⟩
    exact mem_ofNodes.mpr ⟨top, ht, mem_of_inside inside of⟩

end Sites

/-! ## Refusals at sites -/

theorem misplacedBlock?_eq (ps : List Param) :
    misplacedBlock? ps = ps.dropLast.find? Param.isBlock := by
  induction ps with
  | nil => rfl
  | cons p ps ih =>
    cases ps with
    | nil => rfl
    | cons next ps =>
      rw [misplacedBlock?, ih, List.dropLast_cons_cons, List.find?_cons]
      · cases p.isBlock <;> rfl
      · simp

theorem failure?_params (owner : ParamOwner) (ps : List Param) :
    Refusals.ofParams owner ps = (Site.failure? (.params owner ps)).toList := by
  rw [Refusals.ofParams, Site.failure?, misplacedBlock?_eq]

theorem filterMap_params (owner : ParamOwner) (ps : List Param) (sites : List Site) :
    (Site.params owner ps :: sites).filterMap Site.failure?
      = Refusals.ofParams owner ps ++ sites.filterMap Site.failure? := by
  rw [failure?_params, List.filterMap_cons]
  cases Site.failure? (.params owner ps) <;> rfl

mutual

theorem filterMap_ofNode (node : Node) :
    (Sites.ofNode node).filterMap Site.failure? = Refusals.ofNode node := by
  match node with
  | ⟨form, span⟩ =>
    rw [Sites.ofNode, Refusals.ofNode]
    exact filterMap_ofForm span form
termination_by structural node

/-- What a form is refused for, if it is refused at its sites. -/
theorem filterMap_ofForm (span : Span) (form : Form) :
    (Site.node ⟨form, span⟩ :: Sites.ofForm form).filterMap Site.failure?
      = Refusals.ofForm span form := by
  cases form with
  | array elements =>
    rw [Sites.ofForm, Refusals.ofForm]
    exact filterMap_ofNodes elements
  | assign target value =>
    rw [Sites.ofForm, Refusals.ofForm]
    exact filterMap_ofNode value
  | classDef name superclass body =>
    rw [Sites.ofForm, Refusals.ofForm]
    exact filterMap_ofNodes body
  | moduleDef name body =>
    rw [Sites.ofForm, Refusals.ofForm]
    exact filterMap_ofNodes body
  | methodDef owner name params body =>
    rw [Sites.ofForm, Refusals.ofForm, ← filterMap_ofNodes body]
    exact filterMap_params _ _ _
  | send receiver name args block =>
    rw [Sites.ofForm, Refusals.ofForm, ← filterMap_ofReceiver receiver, ← filterMap_ofNodes args,
      ← filterMap_ofBlock name block, ← List.filterMap_append, ← List.filterMap_append]
    rfl
  | conditional branches otherwise =>
    rw [Sites.ofForm, Refusals.ofForm, ← filterMap_ofBranches branches,
      ← filterMap_ofOptional otherwise, ← List.filterMap_append]
    rfl
  | loop kind condition body =>
    rw [Sites.ofForm, Refusals.ofForm, ← filterMap_ofNode condition, ← filterMap_ofNodes body,
      ← List.filterMap_append]
    rfl
  | rescue body variable_ handler otherwise =>
    rw [Sites.ofForm, Refusals.ofForm, ← filterMap_ofNodes body, ← filterMap_ofNodes handler,
      ← filterMap_ofOptional otherwise, ← List.filterMap_append, ← List.filterMap_append]
    rfl
  | _ =>
    rw [Sites.ofForm, Refusals.ofForm]
    rfl
termination_by structural form

theorem filterMap_ofNodes (nodes : List Node) :
    (Sites.ofNodes nodes).filterMap Site.failure? = Refusals.ofNodes nodes := by
  match nodes with
  | [] =>
    rw [Sites.ofNodes, Refusals.ofNodes]
    rfl
  | node :: nodes =>
    rw [Sites.ofNodes, Refusals.ofNodes, List.filterMap_append, filterMap_ofNode node,
      filterMap_ofNodes nodes]
termination_by structural nodes

theorem filterMap_ofReceiver (receiver : Option Node) :
    (Sites.ofReceiver receiver).filterMap Site.failure? = Refusals.ofReceiver receiver := by
  match receiver with
  | none =>
    rw [Sites.ofReceiver, Refusals.ofReceiver]
    rfl
  | some node =>
    rw [Sites.ofReceiver, Refusals.ofReceiver, filterMap_ofNode node]
termination_by structural receiver

theorem filterMap_ofOptional (body : Option Body) :
    (Sites.ofOptional body).filterMap Site.failure? = Refusals.ofOptional body := by
  match body with
  | none =>
    rw [Sites.ofOptional, Refusals.ofOptional]
    rfl
  | some nodes =>
    rw [Sites.ofOptional, Refusals.ofOptional, filterMap_ofNodes nodes]
termination_by structural body

theorem filterMap_ofBlock (message : String) (block : Option Block) :
    (Sites.ofBlock message block).filterMap Site.failure? = Refusals.ofBlock message block := by
  match block with
  | none =>
    rw [Sites.ofBlock, Refusals.ofBlock]
    rfl
  | some ⟨params, body⟩ =>
    rw [Sites.ofBlock, Refusals.ofBlock, filterMap_params, filterMap_ofNodes body]
termination_by structural block

theorem filterMap_ofBranches (branches : List Branch) :
    (Sites.ofBranches branches).filterMap Site.failure? = Refusals.ofBranches branches := by
  match branches with
  | [] =>
    rw [Sites.ofBranches, Refusals.ofBranches]
    rfl
  | ⟨condition, body⟩ :: branches =>
    rw [Sites.ofBranches, Refusals.ofBranches, List.filterMap_append, List.filterMap_append,
      filterMap_ofNode condition, filterMap_ofNodes body, filterMap_ofBranches branches]
termination_by structural branches

end

/-! ## What a body is lowered to -/

theorem failure?_node_eq_none {node : Node} :
    Site.failure? (.node node) = none
      ↔ node.form ≠ .unknown ∧ node.form.isDirective = false := by
  obtain ⟨form, span⟩ := node
  cases form <;> simp [Site.failure?, Form.isDirective]

theorem failure?_params_eq_none {owner : ParamOwner} {ps : List Param} :
    Site.failure? (.params owner ps) = none
      ↔ ∀ before p after, ps = before ++ p :: after → p.isBlock = true → after = [] := by
  rw [Site.failure?, Option.map_eq_none_iff, List.find?_eq_none]
  constructor
  · rintro none before p after rfl block
    refine Classical.byContradiction fun more => none p ?_ block
    rw [List.dropLast_append_of_ne_nil (List.cons_ne_nil p after),
      List.dropLast_cons_of_ne_nil more]
    exact List.mem_append_right _ List.mem_cons_self
  · intro last p hp block
    obtain ⟨before, after, h⟩ := List.append_of_mem hp
    have more : ps ≠ [] := by
      rintro rfl
      cases hp
    have whole := last before p (after ++ [ps.getLast more])
      (by rw [← List.cons_append, ← List.append_assoc, ← h, List.dropLast_concat_getLast]) block
    exact List.append_ne_nil_of_right_ne_nil _ (List.cons_ne_nil _ _) whole

/-- A body is sound if lowering fails at none of its sites. -/
theorem sound_iff {body : Body} :
    Sound body ↔ ∀ site ∈ Sites.ofNodes body, site.failure? = none := by
  constructor
  · intro sound site hs
    obtain ⟨node, inside, of⟩ := Sites.mem_ofNodes_iff.mp hs
    obtain ⟨known, expanded, params⟩ := sound node inside
    cases of with
    | self =>
      rw [failure?_node_eq_none]
      exact ⟨known, expanded⟩
    | params takes =>
      rw [failure?_params_eq_none]
      rintro before p after rfl
      exact params _ before p after takes
  · intro none node inside
    have looked {site : Site} (of : site.Of node) : site.failure? = .none :=
      none site (Sites.mem_ofNodes_iff.mpr ⟨node, inside, of⟩)
    have own := looked .self
    rw [failure?_node_eq_none] at own
    refine ⟨own.1, own.2, fun owner before p after takes => ?_⟩
    have params := looked (.params takes)
    rw [failure?_params_eq_none] at params
    exact params before p after rfl

/-- **What a body is lowered to.** Whatever the state, lowering a body succeeds exactly if it is
sound, and otherwise fails for the first of its sites at which it fails, in the order of
lowering. -/
theorem lowerBody_ok_iff_sound (body : Body) (ctx : Context) :
    ((∃ code, (lowerBody body ctx).1 = .ok code) ↔ Sound body)
      ∧ ∀ f, (lowerBody body ctx).1 = .error f
        ↔ (Sites.ofNodes body).findSome? Site.failure? = some f := by
  have first : failure? (lowerBody body ctx).1 = (Sites.ofNodes body).findSome? Site.failure? := by
    rw [refuses_lowerBody body ctx, ← filterMap_ofNodes, List.head?_filterMap]
  rw [sound_iff, ← List.findSome?_eq_none_iff, ← first]
  cases (lowerBody body ctx).1 with
  | ok code => simp [failure?]
  | error f => simp [failure?]

/-- The condition of a loop is lowered after its body, and a parameter list before the body. -/
example : (Sites.ofNodes [⟨.loop .whileTruthy ⟨.unknown, .point 1 7⟩
      [⟨.methodDef none "m" [.block "b", .positional "x"] [⟨.directive .load "a.gn", .point 3 5⟩],
        .point 2 3⟩], .point 1 1⟩]).filterMap Site.failure?
    = [.blockParamNotLast (.method "m") "b", .unexpandedDirective .load "a.gn",
      .unknownNode (.point 1 7)] := by
  decide

end ScriptCompiler.Lowering
