import ScriptCompiler.Compile.Program
import ScriptCompiler.Proofs.Load.Expansion
import ScriptCompiler.Proofs.Lowering.Files
import ScriptCompiler.Proofs.Lowering.Regions
import ScriptCompiler.Proofs.Resolution.Programs

/-!
# Names of variables

Compiled code reads some names from environments for itself. A program cannot write three of them,
since they are reserved words, so that its variables have other names, and so have those of the
files that it includes. The fourth one is like any other identifier.
-/

/-! ## Identifiers are no reserved words -/

namespace ScriptCompiler

namespace Token

/-- An identifier is no reserved word. -/
def Kind.IsFree : Kind → Prop
  | .identifier name => Keyword.ofText? name = none
  | _ => True

namespace Lexeme

variable {start : Position} {c : Char} {rest : List Char}

theorem isFree_either (single : Punct) (longer : List (Char × Punct)) :
    (either single rest longer).Says Kind.IsFree := by
  unfold either
  split <;> trivial

theorem isFree_sigilName {sigil : Char} {what : String} {make : String → Kind}
    (h : ∀ name, (make name).IsFree) :
    (sigilName start sigil what make rest).Says Kind.IsFree := by
  unfold sigilName
  dsimp only
  split <;> exact h _

theorem isFree_number : (number start c rest).Says Kind.IsFree := by
  unfold number
  dsimp only
  split <;> trivial

theorem isFree_lowerName : (lowerName c rest).Says Kind.IsFree := by
  unfold lowerName
  dsimp only
  split
  · trivial
  · next plain => exact plain

/-- Reserved words start with small letters. -/
theorem classes_keyword (word : Keyword) :
    word.text.toList.head?.any isWide = false ∧ startsUpper word.text = false := by
  cases word <;> decide

theorem isFree_wideName (h : isWide c = true) : (wideName c rest).Says Kind.IsFree := by
  refine List.find?_eq_none.mpr fun word _ same => ?_
  have first := (classes_keyword word).1
  rw [of_decide_eq_true same, String.toList_ofList, List.head?_cons, Option.any_some, h] at first
  cases first

theorem isFree_ofChar : (ofChar start c rest).Says Kind.IsFree := by
  unfold ofChar
  split
  all_goals try first | exact isFree_either _ _ | trivial
  case h_5 =>
    unfold instanceName
    split
    · trivial
    · exact isFree_sigilName fun _ => trivial
  case h_6 => exact isFree_sigilName fun _ => trivial
  case h_7 =>
    unfold colon
    dsimp only
    repeat' split
    all_goals trivial
  case h_10 =>
    split
    · trivial
    · exact isFree_either _ _
  case h_27 =>
    split
    · exact isFree_number
    split
    · exact isFree_lowerName
    split
    · trivial
    split
    · next wide => exact isFree_wideName wide
    · trivial

end Lexeme

end Token

namespace Resolution

open Parse

variable {form : Form} {node child : Node} {nodes : Body} {es : List Event} {name : String}

/-- An identifier that is met is a token. -/
theorem isFree_of_mem_marks {m : Mention} {tokens : List Token}
    (free : ∀ t ∈ tokens, t.kind.IsFree) (h : .mention m ∈ marks tokens) :
    Keyword.ofText? m.name = none := by
  induction tokens with
  | nil => cases h
  | cons t tokens ih =>
    rw [List.forall_mem_cons] at free
    rcases List.mem_append.mp h with h | h
    · have first := free.1
      unfold mark? at h
      split at h
      · next kind =>
        rw [kind] at first
        cases Option.mem_toList.mp h
        exact first
      · split at h <;> cases Option.mem_toList.mp h
      all_goals cases Option.mem_toList.mp h
    · exact ih free.2 h

/-- The node was read from events whose bound names are among these. -/
def TracedIn (es : List Event) (node : Node) : Prop :=
  ∃ es', Traced node.form es' ∧ ∀ m, .mention m .bound ∈ es' → .mention m .bound ∈ es

theorem Traced.within {es' : List Event} (h : Traced node.form es) (hs : es ⊆ es') :
    TracedIn es' node :=
  ⟨es, h, fun _ hm => hs hm⟩

theorem TracedAll.within {nodes : List Node} {es es' : List Event} (h : TracedAll nodes es)
    (hs : es ⊆ es') {child : Node} (hm : child ∈ nodes) : TracedIn es' child := by
  match h with
  | .cons h hs' =>
    rw [List.append_subset] at hs
    rcases List.mem_cons.mp hm with rfl | hm
    · exact h.within hs.1
    · exact hs'.within hs.2 hm
termination_by structural h

theorem TracedBranches.within {branches : List Branch} {es es' : List Event}
    (h : TracedBranches branches es) (hs : es ⊆ es') {condition : Node} {body : Body}
    (hm : ⟨condition, body⟩ ∈ branches) :
    TracedIn es' condition ∧ ∀ child ∈ body, TracedIn es' child := by
  match h with
  | .cons (.mk hc hb) others =>
    rw [List.cons_subset, List.append_subset, List.append_subset] at hs
    rcases List.mem_cons.mp hm with same | hm
    · cases same
      exact ⟨hc.within hs.2.1.1, fun child => hb.within hs.2.1.2⟩
    · exact others.within hs.2.2 hm
termination_by structural h

theorem TracedOptional.within {body : Body} {es' : List Event}
    (h : TracedOptional (Option.some body) es) (hs : es ⊆ es') (hm : child ∈ body) :
    TracedIn es' child := by
  cases h with
  | some h => exact h.within hs hm

theorem TracedBlock.within {params : List Param} {body : Body} {es' : List Event}
    (h : TracedBlock (Option.some ⟨params, body⟩) es) (hs : es ⊆ es') (hm : child ∈ body) :
    TracedIn es' child := by
  cases h with
  | some hp hb =>
    simp only [List.cons_subset, List.append_subset] at hs
    exact hb.within hs.2.1.2 hm

/-- **Nodes in a tree that was read are read themselves.** -/
theorem Traced.held (h : Traced form es) (holds : form.Holds child) : TracedIn es child := by
  have all := List.Subset.refl es
  cases h with
  | simple h =>
    have atom := isAtom_of_simple h
    cases holds <;> cases atom
  | read => cases holds
  | array h =>
    cases holds with
    | element hm => exact h.within all hm
  | assign m h =>
    cases holds
    exact h.within (List.subset_cons_self _ _)
  | update m h =>
    cases holds
    -- the message of the operator is built; it reads the variable, which the assignment binds
    refine ⟨_, .message (.read m) .operator (.one h) .none, fun m' hm => ?_⟩
    exact List.mem_cons_of_mem _ (by simpa using hm)
  | store h =>
    cases holds
    exact h.within all
  | directive => cases holds
  | call hn ha hb =>
    simp only [List.append_subset] at all
    cases holds with
    | argument hm => exact ha.within all.2.1 hm
    | blockBody hm => exact hb.within all.2.2 hm
  | message hr hn ha hb =>
    simp only [List.append_subset] at all
    cases holds with
    | receiver => exact hr.within all.1
    | argument hm => exact ha.within all.2.2.1 hm
    | blockBody hm => exact hb.within all.2.2.2 hm
  | conditional hb ho =>
    simp only [List.append_subset] at all
    cases holds with
    | condition hm => exact (hb.within all.1 hm).1
    | branchBody hm hc => exact (hb.within all.1 hm).2 _ hc
    | noBranch hm => exact ho.within all.2 hm
  | conditionalAfter hs hc =>
    simp only [List.append_subset, List.cons_subset] at all
    cases holds with
    | condition hm =>
      cases List.mem_singleton.mp hm
      exact hc.within all.2.2
    | branchBody hm hm' =>
      cases List.mem_singleton.mp hm
      cases List.mem_singleton.mp hm'
      exact hs.within all.1
  | sequence h =>
    cases holds with
    | condition hm =>
      -- the condition was not read, but it is like a word that binds nothing
      cases List.mem_singleton.mp hm
      exact ⟨[], .simple (k := .keyword .trueKw) rfl, nofun⟩
    | branchBody hm hc =>
      cases List.mem_singleton.mp hm
      exact h.within all hc
  | loop hc hb =>
    simp only [List.append_subset, List.cons_subset] at all
    cases holds with
    | loopCondition => exact hc.within all.2.1
    | loopBody hm => exact hb.within all.2.2 hm
  | loopAfter hs hc =>
    simp only [List.append_subset, List.cons_subset] at all
    cases holds with
    | loopCondition => exact hc.within all.2.2
    | loopBody hm =>
      cases List.mem_singleton.mp hm
      exact hs.within all.1
  | rescue hb hv hh ho =>
    simp only [List.append_subset] at all
    cases holds with
    | protected_ hm => exact hb.within all.1 hm
    | handler hm => exact hh.within all.2.2.1 hm
    | elseBody hm => exact ho.within all.2.2.2 hm
  | classDef h =>
    simp only [List.append_subset, List.cons_subset] at all
    cases holds with
    | classBody hm => exact h.within all.2.1 hm
  | moduleDef h =>
    simp only [List.append_subset, List.cons_subset] at all
    cases holds with
    | moduleBody hm => exact h.within all.2.1 hm
  | methodDef ho hn hp hb =>
    simp only [List.append_subset, List.cons_subset] at all
    cases holds with
    | methodBody hm => exact hb.within all.2.2.2.2.1.2 hm

theorem Bound.mem {names : List String} (h : Bound names es) (hm : name ∈ names) :
    ∃ m, .mention m .bound ∈ es ∧ m.name = name := by
  induction h with
  | nil => cases hm
  | cons m _ ih =>
    rcases List.mem_cons.mp hm with rfl | hm
    · exact ⟨m, List.mem_cons_self, rfl⟩
    · obtain ⟨m', hm', same⟩ := ih hm
      exact ⟨m', List.mem_cons_of_mem _ hm', same⟩

/-- What a tree that was read binds is an identifier, unless it starts with a capital letter. -/
theorem Traced.bound (h : Traced form es) (hb : .variable_ name ∈ form.binders) :
    Token.startsUpper name = true ∨ ∃ m, .mention m .bound ∈ es ∧ m.name = name := by
  have params {ps : List Param} (hm : Binder.variable_ name ∈ Binder.ofParams ps) :
      name ∈ ps.map Param.name := by
    obtain ⟨p, hp, same⟩ := List.mem_map.mp hm
    cases same
    exact List.mem_map_of_mem hp
  cases h with
  | simple h =>
    rw [Form.binders_of_isAtom (isAtom_of_simple h)] at hb
    cases hb
  | assign m h | update m h =>
    cases List.mem_singleton.mp hb
    exact .inr ⟨m, List.mem_cons_self, rfl⟩
  | @store target _ _ h other =>
    cases target with
    | localVar n =>
      cases List.mem_singleton.mp hb
      exact .inl (other name rfl)
    | instanceVar n => cases hb
    | globalVar n => cases hb
  | call hn ha block | message hr hn ha block =>
    cases block with
    | none => cases hb
    | some hp _ =>
      obtain ⟨m, hm, same⟩ := hp.mem (params hb)
      exact .inr ⟨m, by simp [hm], same⟩
  | @rescue _ _ variable_ _ _ _ _ _ _ hv =>
    cases variable_ with
    | none => cases hb
    | some n =>
      cases List.mem_singleton.mp hb
      obtain ⟨m, hm, same⟩ := hv.mem List.mem_cons_self
      exact .inr ⟨m, by simp [hm], same⟩
  | classDef | moduleDef => cases List.mem_singleton.mp hb
  | methodDef ho hn hp _ =>
    rcases List.mem_cons.mp hb with same | hb
    · cases same
    · obtain ⟨m, hm, same⟩ := hp.mem (params hb)
      exact .inr ⟨m, by simp [hm], same⟩
  | read | array | directive | conditional | conditionalAfter | sequence | loop | loopAfter =>
    cases hb

theorem TracedIn.inside (h : TracedIn es node) (inside : child.Inside node) :
    TracedIn es child := by
  induction inside with
  | refl => exact h
  | tail _ holds ih =>
    obtain ⟨es₁, traced, bound⟩ := ih
    obtain ⟨es₂, traced', bound'⟩ := traced.held holds
    exact ⟨es₂, traced', fun m hm => bound m (bound' m hm)⟩

/-- **Variables of a program.** No reserved word is a variable of a program that was parsed. -/
theorem plain_of_parse {fileName source : String} {known : List String}
    (h : parse fileName source known = .ok nodes) (hb : Body.Binds nodes (.variable_ name)) :
    Keyword.ofText? name = none := by
  let stream : Stream := .ofFile (.ofText fileName source)
  have free : ∀ t ∈ stream.tokens, t.kind.IsFree :=
    Token.says_scanFrom trivial (fun _ _ _ => Token.Lexeme.isFree_ofChar) _ none .empty _
  obtain ⟨s', hr, clean⟩ := run_program_of_parse h
  have start : (State.start (.ofText fileName source) stream.tokens known).remaining
      = stream.tokens := remaining_start stream _ known
  have hs : (State.start (.ofText fileName source) stream.tokens known).In stream := ⟨[], start⟩
  obtain ⟨-, events, traced, meets⟩ := hears_program (cased_ofFile _) hs nodes s' hr
  obtain ⟨shown, -⟩ := meets clean
  rw [start] at shown
  obtain ⟨node, ⟨top, mem, inside⟩, hb⟩ := hb
  obtain ⟨es, within, bound⟩ := (traced.within (List.Subset.refl events) mem).inside inside
  rcases within.bound hb with upper | ⟨m, hm, rfl⟩
  · cases word : Keyword.ofText? name with
    | none => rfl
    | some k =>
      have same : k.text = name := of_decide_eq_true (List.find?_some word :)
      rw [← same, (Token.Lexeme.classes_keyword k).2] at upper
      cases upper
  · refine isFree_of_mem_marks free (shown ▸ List.mem_append_left _ ?_)
    exact List.mem_filterMap.mpr ⟨_, bound m hm, rfl⟩

end Resolution

/-! ## Variables of expanded programs -/

/-- No variable of the program is a reserved word. -/
def Body.Plain (body : Body) : Prop :=
  ∀ name, body.Binds (.variable_ name) → Keyword.ofText? name = none

namespace Load

variable {contents : Contents} {t t' : Tracker} {node node' child' : Node}

/-- The node is the expansion of one of these, or it came with the contents of a directive. -/
def From (contents : Contents) (held : Node → Prop) (node' : Node) : Prop :=
  (∃ node t t', held node ∧ ExpandsNode contents t node node' t')
    ∨ ∃ kind path span t inner t', contents kind path span t inner t' ∧ node' ∈ inner

theorem From.mono {held held' : Node → Prop} (h : From contents held node')
    (all : ∀ node, held node → held' node) : From contents held' node' :=
  h.imp_left fun ⟨node, t, t', hn, expands⟩ => ⟨node, t, t', all node hn, expands⟩

theorem ExpandsNode.from_ {held : Node → Prop} (h : ExpandsNode contents t node node' t')
    (hn : held node) : From contents held node' :=
  .inl ⟨node, t, t', hn, h⟩

theorem ExpandsBody.from_ {t t' : Tracker} {nodes nodes' : Body}
    (h : ExpandsBody contents t nodes nodes' t') (hm : child' ∈ nodes') :
    From contents (· ∈ nodes) child' := by
  match h with
  | .splice replaced others =>
    rcases List.mem_append.mp hm with hm | hm
    · exact .inr ⟨_, _, _, _, _, _, replaced, hm⟩
    · exact (others.from_ hm).mono fun _ => List.mem_cons_of_mem _
  | .keep _ first others =>
    rcases List.mem_cons.mp hm with rfl | hm
    · exact first.from_ List.mem_cons_self
    · exact (others.from_ hm).mono fun _ => List.mem_cons_of_mem _
termination_by structural h

theorem ExpandsEach.from_ {t t' : Tracker} {nodes nodes' : List Node}
    (h : ExpandsEach contents t nodes nodes' t') (hm : child' ∈ nodes') :
    From contents (· ∈ nodes) child' := by
  match h with
  | .cons first others =>
    rcases List.mem_cons.mp hm with rfl | hm
    · exact first.from_ List.mem_cons_self
    · exact (others.from_ hm).mono fun _ => List.mem_cons_of_mem _
termination_by structural h

theorem ExpandsBranches.from_ {t t' : Tracker} {branches branches' : List Branch}
    (h : ExpandsBranches contents t branches branches' t') {condition' : Node} {body' : Body}
    (hm : ⟨condition', body'⟩ ∈ branches') :
    From contents (fun node => ∃ body, ⟨node, body⟩ ∈ branches) condition'
      ∧ ∀ child' ∈ body',
        From contents (fun node => ∃ branch ∈ branches, node ∈ branch.body) child' := by
  match h with
  | .cons condition body others =>
    rcases List.mem_cons.mp hm with same | hm
    · cases same
      refine ⟨condition.from_ ⟨_, List.mem_cons_self⟩, fun child' hc => ?_⟩
      exact (body.from_ hc).mono fun _ hn => ⟨_, List.mem_cons_self, hn⟩
    · obtain ⟨hc, hb⟩ := others.from_ hm
      refine ⟨hc.mono fun _ ⟨body, hn⟩ => ⟨body, List.mem_cons_of_mem _ hn⟩, fun child' hc => ?_⟩
      exact (hb child' hc).mono fun _ ⟨branch, hn, hb⟩ => ⟨branch, List.mem_cons_of_mem _ hn, hb⟩
termination_by structural h

/-- **Nodes in an expanded node.** -/
theorem ExpandsNode.held (h : ExpandsNode contents t node node' t')
    (holds : node'.form.Holds child') : From contents node.form.Holds child' := by
  cases h with
  | atom atom => cases holds <;> cases atom
  | directive replaced =>
    cases holds with
    | condition hm => cases hm
    | branchBody hm => cases hm
    | noBranch hm => exact .inr ⟨_, _, _, _, _, _, replaced, hm⟩
  | array elements =>
    cases holds with
    | element hm => exact (elements.from_ hm).mono fun _ => .element
  | assign value =>
    cases holds
    exact value.from_ .value
  | classDef body =>
    cases holds with
    | classBody hm => exact (body.from_ hm).mono fun _ => .classBody
  | moduleDef body =>
    cases holds with
    | moduleBody hm => exact (body.from_ hm).mono fun _ => .moduleBody
  | methodDef body =>
    cases holds with
    | methodBody hm => exact (body.from_ hm).mono fun _ => .methodBody
  | send receiver args block =>
    cases holds with
    | receiver =>
      cases receiver with
      | some receiver => exact receiver.from_ .receiver
    | argument hm => exact (args.from_ hm).mono fun _ => .argument
    | blockBody hm =>
      cases block with
      | some body => exact (body.from_ hm).mono fun _ => .blockBody
  | conditional branches otherwise =>
    cases holds with
    | condition hm => exact (branches.from_ hm).1.mono fun _ ⟨_, hn⟩ => .condition hn
    | branchBody hm hc =>
      exact ((branches.from_ hm).2 _ hc).mono fun _ ⟨⟨_, _⟩, hn, hb⟩ => .branchBody hn hb
    | noBranch hm =>
      cases otherwise with
      | some body => exact (body.from_ hm).mono fun _ => .noBranch
  | loop condition body =>
    cases holds with
    | loopCondition => exact condition.from_ .loopCondition
    | loopBody hm => exact (body.from_ hm).mono fun _ => .loopBody
  | rescue body handler otherwise =>
    cases holds with
    | protected_ hm => exact (body.from_ hm).mono fun _ => .protected_
    | handler hm => exact (handler.from_ hm).mono fun _ => .handler
    | elseBody hm =>
      cases otherwise with
      | some body => exact (body.from_ hm).mono fun _ => .elseBody

/-- An expanded node binds what the node did. -/
theorem ExpandsNode.binders_eq (h : ExpandsNode contents t node node' t') :
    node'.form.binders = node.form.binders := by
  cases h with
  | assign value => rename_i target _ _; cases target <;> rfl
  | send _ _ block => cases block <;> rfl
  | rescue => rename_i variable_ _ _ _ _ _ _ _ _ _; cases variable_ <;> rfl
  | _ => rfl

/-- What is bound somewhere in an expanded node is bound in the node, or in the contents of a
directive. -/
theorem ExpandsNode.binds {b : Binder} (h : ExpandsNode contents t node node' t')
    (hb : node'.Binds b) : node.Binds b ∨ ∃ kind path span t inner t',
      contents kind path span t inner t' ∧ Body.Binds inner b := by
  obtain ⟨inner, inside, hb⟩ := hb
  -- from the outer node inward: what came with a directive is not looked into any further
  induction inside using Relation.ReflTransGen.head_induction_on generalizing node t t' with
  | refl => exact .inl ⟨node, .refl node, h.binders_eq ▸ hb⟩
  | head holds inside ih =>
    rcases h.held holds with ⟨child, t, t', hc, expands⟩ | ⟨_, _, _, _, _, _, replaced, hm⟩
    · refine (ih expands).imp_left fun ⟨inner', inside', hb'⟩ => ?_
      exact ⟨inner', Relation.ReflTransGen.head hc inside', hb'⟩
    · exact .inr ⟨_, _, _, _, _, _, replaced, inner, ⟨_, hm, inside⟩, hb⟩

theorem ExpandsBody.plain {nodes nodes' : Body}
    (hc : ∀ {kind path span t inner t'}, contents kind path span t inner t' → Body.Plain inner)
    (h : ExpandsBody contents t nodes nodes' t') (hp : Body.Plain nodes) : Body.Plain nodes' := by
  rintro name ⟨inner, ⟨top, hm, inside⟩, hb⟩
  rcases h.from_ hm with ⟨node, t, t', hn, expands⟩ | ⟨_, _, _, _, _, _, replaced, hm⟩
  · rcases expands.binds ⟨inner, inside, hb⟩ with
      ⟨inner', inside', hb'⟩ | ⟨_, _, _, _, _, _, replaced, hb'⟩
    · exact hp name ⟨inner', ⟨node, hn, inside'⟩, hb'⟩
    · exact hc replaced name hb'
  · exact hc replaced name ⟨inner, ⟨top, hm, inside⟩, hb⟩

theorem plain_of_contentsOf {s : Settings} {levels : Nat} {current : Path} {kind : DirectiveKind}
    {name : String} {span : Span} {t t' : Tracker} {inner : Body}
    (h : contentsOf s levels current kind name span t inner t') : Body.Plain inner := by
  have none_ : Body.Plain [] := fun _ ⟨_, ⟨_, hm, _⟩, _⟩ => absurd hm List.not_mem_nil
  induction levels generalizing current kind name span t t' inner with
  | zero =>
    obtain ⟨found, path, -, -, h⟩ := h
    split at h
    · exact h.1 ▸ none_
    · exact h.elim
  | succ levels ih =>
    obtain ⟨found, path, -, -, h⟩ := h
    split at h
    · exact h.1 ▸ none_
    · obtain ⟨text, program, -, parsed, h⟩ := h
      exact h.plain ih fun _ => Resolution.plain_of_parse parsed

end Load

/-! ## Variables of compiled programs -/

/-- The names that generated code reads from environments for itself. -/
def C.ownNames : List String :=
  [nilName, Keyword.trueKw.text, Keyword.falseKw.text, methodNameKey]

theorem C.mem_ownNames_iff {name : String} (h : Keyword.ofText? name = none) :
    name ∈ ownNames ↔ name = methodNameKey := by
  have other (word : Keyword) : name ≠ word.text := by
    rintro rfl
    rw [Keyword.ofText?_text] at h
    cases h
  have noNil : name ≠ nilName := other .nilKw
  simp [ownNames, other, noNil]

namespace Lowering

/-- The bodies of the functions, behind the code of the program itself. -/
def Code.bodies (code : Code) : List (List C.Stmt) :=
  code.stmts :: code.functions.map (·.body)

/-- What the regions of a program bind, behind what the program binds outside of them. -/
def bindersOf (program : Body) : List (List Binder) :=
  Binders.ofNodes program :: (Regions.ofNodes program).map Region.binders

/-- The code of a program binds what its regions bind. -/
theorem boundNames_of_lowerBody {program : Body} {ctx ctx' : Context} {code : Code}
    (h : lowerBody program ctx = (.ok code, ctx')) :
    code.bodies.map C.boundNames = (bindersOf program).map fun bs => bs.map Binder.name := by
  have lowers := lowers_of_lowerBody h
  have regions {rs : List Region} {fs : List C.Function} (made : List.Forall₂ Makes rs fs) :
      (fs.map (·.body)).map C.boundNames
        = (rs.map Region.binders).map fun bs => bs.map Binder.name := by
    induction made with
    | nil => rfl
    | cons first _ ih =>
      rw [List.map_cons, List.map_cons, List.map_cons, List.map_cons, ih, first.boundNames_eq]
  rw [Code.bodies, bindersOf, List.map_cons, List.map_cons, lowers.boundNames_eq,
    regions lowers.makes]

/-- What the regions of a program bind stands in it. -/
theorem binds_of_mem_bindersOf {program : Body} {bs : List Binder} {b : Binder}
    (hs : bs ∈ bindersOf program) (hb : b ∈ bs) : program.Binds b := by
  have inside (h : ∃ child ∈ program, child.Binds b) : program.Binds b := by
    obtain ⟨child, hm, inner, inside, hb⟩ := h
    exact ⟨inner, ⟨child, hm, inside⟩, hb⟩
  rcases List.mem_cons.mp hs with rfl | hs
  · exact inside (binds_of_mem_ofNodes program hb)
  · obtain ⟨region, hr, rfl⟩ := List.mem_map.mp hs
    exact inside (binds_of_region_ofNodes hb program hr)

end Lowering

open Lowering

/-- **Names that are overwritten.** A text that compiles was parsed, expanded and lowered to the
code that its file is made of. Every function of this code binds what one region of the program
does, in environments. Of the names of variables among this, the name that methods record for
themselves is the only one that the code reads for itself. -/
theorem overwritten_iff_of_compileSource {fs : FileSystem} {o : Options} {path : Path}
    {source text : String} (h : compileSource fs o path source = .ok text) :
    ∃ program expanded code ctx, parse path.text source [] = .ok program
      ∧ (Load.expand (o.settings fs) path program
        (Load.markLoaded (o.settings fs) .empty path)).1 = .ok expanded
      ∧ lowerBody expanded (.start (leadOf (o.kindOf fs path)) .empty) = (.ok code, ctx)
      ∧ assemble (o.kindOf fs path) (code.functions.map C.Function.toText) code.splitReturn.1
        code.splitReturn.2 = .ok text
      ∧ code.bodies.map C.boundNames = (bindersOf expanded).map (fun bs => bs.map Binder.name)
      ∧ ∀ bs ∈ bindersOf expanded, ∀ name, .variable_ name ∈ bs →
        (name ∈ C.ownNames ↔ name = C.methodNameKey) := by
  unfold compileSource at h
  cases parsed : parse path.text source [] with
  | error failure =>
    rw [parsed] at h
    cases h
  | ok program =>
    rw [parsed] at h
    dsimp only [Except.mapError, bind, Except.bind] at h
    rcases expands : Load.expand (o.settings fs) path program
      (Load.markLoaded (o.settings fs) .empty path) with ⟨e | expanded, tracker⟩ <;>
      rw [expands] at h
    · cases h
    · dsimp only at h
      rcases compiles : compile (o.kindOf fs path) expanded with f | text' <;> rw [compiles] at h
      · cases h
      · cases h
        obtain ⟨code, lowered, assembled⟩ := lowerBody_of_compileFrom
          (Prod.ext compiles rfl : compileFrom _ _ _ = (.ok text, _))
        have expansion := Load.expandsBody_of_expandBody
          (fun _ _ _ _ _ => Load.contentsOf_of_runDirective) expands
        have plain : Body.Plain expanded :=
          expansion.plain Load.plain_of_contentsOf fun _ => Resolution.plain_of_parse parsed
        exact ⟨program, expanded, code, _, rfl, congrArg Prod.fst expands, lowered, assembled,
          boundNames_of_lowerBody lowered,
          fun bs hs name hb => C.mem_ownNames_iff (plain name (binds_of_mem_bindersOf hs hb))⟩

/-- A method that assigns to the name that it records for itself, before it calls the method of the
superclass. -/
def renamingText : String :=
  "def m\n  __method__ = 1\n  super\nend\n"

/-- The method records its name and overwrites it. -/
theorem overwritten_renamingText :
    ∃ text, compileSource ⟨[], []⟩ .default ⟨"main.rb"⟩ renamingText = .ok text
      ∧ ∃ program expanded code ctx, parse "main.rb" renamingText [] = .ok program
        ∧ (Load.expand (Options.default.settings ⟨[], []⟩) ⟨"main.rb"⟩ program
          (Load.markLoaded (Options.default.settings ⟨[], []⟩) .empty ⟨"main.rb"⟩)).1
            = .ok expanded
        ∧ lowerBody expanded (.start (leadOf .program) .empty) = (.ok code, ctx)
        ∧ assemble .program (code.functions.map C.Function.toText) code.splitReturn.1
          code.splitReturn.2 = .ok text
        ∧ code.bodies.map C.boundNames = [[], [C.methodNameKey, C.methodNameKey]]
        ∧ bindersOf expanded = [[], [.ownName, .variable_ C.methodNameKey]]
        ∧ C.methodNameKey ∈ C.ownNames := by
  have compiles : (compileSource ⟨[], []⟩ .default ⟨"main.rb"⟩ renamingText).toOption.isSome
      = true := by
    decide +kernel
  have binders : (parse "main.rb" renamingText []).toOption.bind (fun program =>
      (Load.expand (Options.default.settings ⟨[], []⟩) ⟨"main.rb"⟩ program
        (Load.markLoaded (Options.default.settings ⟨[], []⟩) .empty ⟨"main.rb"⟩)).1.toOption.map
          bindersOf) = some [[], [.ownName, .variable_ C.methodNameKey]] := by
    decide +kernel
  cases h : compileSource ⟨[], []⟩ .default ⟨"main.rb"⟩ renamingText with
  | error e =>
    rw [h] at compiles
    cases compiles
  | ok text =>
    obtain ⟨program, expanded, code, ctx, parsed, expands, lowered, assembled, names, own⟩ :=
      overwritten_iff_of_compileSource h
    rw [show parse "main.rb" renamingText [] = .ok program from parsed] at binders
    have bound : bindersOf expanded = [[], [.ownName, .variable_ C.methodNameKey]] :=
      Option.some.inj ((congrArg (fun r => r.toOption.map bindersOf) expands).symm.trans binders)
    refine ⟨text, rfl, program, expanded, code, ctx, parsed, expands, lowered, assembled, ?_, bound,
      ?_⟩
    · rw [names, bound]
      rfl
    · exact (own [.ownName, .variable_ C.methodNameKey] (by simp [bound]) _ (by simp)).mpr rfl

end ScriptCompiler
