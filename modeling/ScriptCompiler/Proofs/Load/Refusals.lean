import ScriptCompiler.Proofs.Load.Expansion
import ScriptCompiler.Proofs.Lowering.Refusals
import ScriptCompiler.Proofs.Parse.Faults

/-!
# What expansion leaves to refuse

The grammar builds no node of an unknown kind, so that a program that was parsed is refused for its
directives and its parameter lists only. An expansion replaces the directives by what was parsed of
their files, so that parameter lists are all that its result is refused for.
-/

namespace ScriptCompiler

namespace Lowering

/-- A parameter list is refused. -/
def Failure.isParam : Failure → Bool
  | .blockParamNotLast _ _ => true
  | _ => false

/-- A directive is refused. -/
def Failure.isDirective : Failure → Bool
  | .unexpandedDirective _ _ => true
  | _ => false

/-- Parameter lists are all that is refused. -/
def OnlyParams (refusals : List Failure) : Prop :=
  ∀ f ∈ refusals, f.isParam = true

/-- Parameter lists and directives are all that is refused. -/
def Expandable (refusals : List Failure) : Prop :=
  ∀ f ∈ refusals, f.isParam = true ∨ f.isDirective = true

theorem OnlyParams.nil : OnlyParams [] :=
  nofun

theorem onlyParams_append {xs ys : List Failure} :
    OnlyParams (xs ++ ys) ↔ OnlyParams xs ∧ OnlyParams ys :=
  List.forall_mem_append

theorem expandable_append {xs ys : List Failure} :
    Expandable (xs ++ ys) ↔ Expandable xs ∧ Expandable ys :=
  List.forall_mem_append

theorem onlyParams_ofParams (owner : ParamOwner) (params : List Param) :
    OnlyParams (Refusals.ofParams owner params) := by
  unfold Refusals.ofParams
  cases misplacedBlock? params with
  | none => exact .nil
  | some p => exact List.forall_mem_singleton.mpr rfl

theorem expandable_ofParams (owner : ParamOwner) (params : List Param) :
    Expandable (Refusals.ofParams owner params) :=
  fun f hf => .inl (onlyParams_ofParams owner params f hf)

/-- A node that holds no other one is refused for its kind only. -/
theorem Expandable.onlyParams_of_isAtom {form : Form} {span : Span}
    (he : Expandable (Refusals.ofForm span form)) (h : form.isAtom = true) :
    OnlyParams (Refusals.ofForm span form) := by
  have known : form ≠ .unknown := by
    rintro rfl
    rw [Refusals.ofForm] at he
    rcases he _ (List.mem_singleton_self _) with h | h <;> cases h
  rw [Refusals.ofForm_of_isAtom h known]
  exact .nil

end Lowering

open Lowering

/-! ## Parsed programs -/

section Built

variable {P : Span → Prop}

mutual

theorem Node.Within.expandable {node : Node} (h : node.Within P) :
    Expandable (Refusals.ofNode node) := by
  match h with
  | .mk _ inner =>
    rw [Refusals.ofNode_eq]
    exact inner.expandable node.span
termination_by structural h

/-- The grammar builds no node of an unknown kind. -/
theorem Form.Within.expandable {form : Form} (h : form.Within P) (span : Span) :
    Expandable (Refusals.ofForm span form) := by
  match h with
  | .atom atom known =>
    rw [Refusals.ofForm_of_isAtom atom known]
    nofun
  | .directive =>
    rw [Refusals.ofForm]
    exact List.forall_mem_singleton.mpr (.inr rfl)
  | .array h =>
    rw [Refusals.ofForm]
    exact Refusals.forall_ofNodes fun node hn => (h node hn).expandable
  | .assign h =>
    rw [Refusals.ofForm]
    exact h.expandable
  | .classDef h =>
    rw [Refusals.ofForm]
    exact Refusals.forall_ofNodes fun node hn => (h node hn).expandable
  | .moduleDef h =>
    rw [Refusals.ofForm]
    exact Refusals.forall_ofNodes fun node hn => (h node hn).expandable
  | .methodDef h =>
    rw [Refusals.ofForm, expandable_append]
    refine ⟨expandable_ofParams _ _, ?_⟩
    exact Refusals.forall_ofNodes fun node hn => (h node hn).expandable
  | .send hr ha hb =>
    rw [Refusals.ofForm, expandable_append, expandable_append]
    refine ⟨⟨Refusals.forall_ofReceiver fun node hn => (hr node hn).expandable, ?_⟩, ?_⟩
    · exact Refusals.forall_ofNodes fun node hn => (ha node hn).expandable
    · exact Refusals.forall_ofBlock (fun b _ => expandable_ofParams _ b.params)
        fun b hb' node hn => (hb b hb' node hn).expandable
  | .conditional hb ho =>
    rw [Refusals.ofForm, expandable_append]
    refine ⟨Refusals.forall_ofBranches fun branch hn => (hb branch hn).expandable, ?_⟩
    exact Refusals.forall_ofOptional fun body hb' node hn => (ho body hb' node hn).expandable
  | .sequence h =>
    have inner : Expandable (Refusals.ofNodes _) :=
      Refusals.forall_ofNodes fun node hn => (h node hn).expandable
    simpa [Refusals.ofForm, Refusals.ofBranches, Refusals.ofOptional, Refusals.ofNode,
      Node.synthetic] using inner
  | .loop hc hb =>
    rw [Refusals.ofForm, expandable_append]
    exact ⟨Refusals.forall_ofNodes fun node hn => (hb node hn).expandable, hc.expandable⟩
  | .rescue hb hh ho =>
    rw [Refusals.ofForm, expandable_append, expandable_append]
    refine ⟨⟨Refusals.forall_ofNodes fun node hn => (hb node hn).expandable, ?_⟩, ?_⟩
    · exact Refusals.forall_ofNodes fun node hn => (hh node hn).expandable
    · exact Refusals.forall_ofOptional fun body hb' node hn => (ho body hb' node hn).expandable
termination_by structural h

theorem Branch.Within.expandable {branch : Branch} (h : branch.Within P) :
    Expandable (Refusals.ofNode branch.condition)
      ∧ ∀ node ∈ branch.body, Expandable (Refusals.ofNode node) := by
  match h with
  | .mk condition body => exact ⟨condition.expandable, fun node hn => (body node hn).expandable⟩
termination_by structural h

end

end Built

/-- Directives and parameter lists are all that a parsed program is refused for. -/
theorem expandable_of_parse {name source : String} {known : List String} {program : Body}
    (h : parse name source known = .ok program) : Expandable (Refusals.ofNodes program) := by
  have built : Body.Within (fun _ => True) program :=
    Parse.within_of_parse (fun _ _ => trivial) (fun _ _ => trivial) trivial h
  exact Refusals.forall_ofNodes fun node hn => (built node hn).expandable

/-! ## Expanded programs -/

namespace Load

variable {contents : Contents}

section Left

set_option linter.unusedSectionVars false

variable (hc : ∀ {kind path span t inner t'},
  contents kind path span t inner t' → OnlyParams (Refusals.ofNodes inner))

include hc

mutual

theorem ExpandsBody.onlyParams {t t' : Tracker} {nodes nodes' : Body}
    (h : ExpandsBody contents t nodes nodes' t') (he : Expandable (Refusals.ofNodes nodes)) :
    OnlyParams (Refusals.ofNodes nodes') := by
  match h with
  | .nil => rw [Refusals.ofNodes]; exact .nil
  | .splice replaced others =>
    rw [Refusals.ofNodes, expandable_append] at he
    rw [Refusals.ofNodes_append, onlyParams_append]
    exact ⟨hc replaced, others.onlyParams he.2⟩
  | .keep _ first others =>
    rw [Refusals.ofNodes, expandable_append] at he
    rw [Refusals.ofNodes, onlyParams_append]
    exact ⟨first.onlyParams he.1, others.onlyParams he.2⟩
termination_by structural h

theorem ExpandsNode.onlyParams {t t' : Tracker} {node node' : Node}
    (h : ExpandsNode contents t node node' t') (he : Expandable (Refusals.ofNode node)) :
    OnlyParams (Refusals.ofNode node') := by
  match h with
  | .atom atom =>
    rw [Refusals.ofNode] at he ⊢
    exact he.onlyParams_of_isAtom atom
  | .directive replaced =>
    rw [Refusals.ofNode, Refusals.ofForm, Refusals.ofBranches, Refusals.ofOptional]
    exact hc replaced
  | .array elements =>
    rw [Refusals.ofNode, Refusals.ofForm] at he ⊢
    exact elements.onlyParams he
  | .assign value =>
    rw [Refusals.ofNode, Refusals.ofForm] at he ⊢
    exact value.onlyParams he
  | .classDef body =>
    rw [Refusals.ofNode, Refusals.ofForm] at he ⊢
    exact body.onlyParams he
  | .moduleDef body =>
    rw [Refusals.ofNode, Refusals.ofForm] at he ⊢
    exact body.onlyParams he
  | .methodDef body =>
    rw [Refusals.ofNode, Refusals.ofForm, expandable_append] at he
    rw [Refusals.ofNode, Refusals.ofForm, onlyParams_append]
    exact ⟨onlyParams_ofParams _ _, body.onlyParams he.2⟩
  | .send receiver args block =>
    rw [Refusals.ofNode, Refusals.ofForm, expandable_append, expandable_append] at he
    rw [Refusals.ofNode, Refusals.ofForm, onlyParams_append, onlyParams_append]
    exact ⟨⟨receiver.onlyParams he.1.1, args.onlyParams he.1.2⟩, block.onlyParams he.2⟩
  | .conditional branches otherwise =>
    rw [Refusals.ofNode, Refusals.ofForm, expandable_append] at he
    rw [Refusals.ofNode, Refusals.ofForm, onlyParams_append]
    exact ⟨branches.onlyParams he.1, otherwise.onlyParams he.2⟩
  | .loop condition body =>
    rw [Refusals.ofNode, Refusals.ofForm, expandable_append] at he
    rw [Refusals.ofNode, Refusals.ofForm, onlyParams_append]
    exact ⟨body.onlyParams he.1, condition.onlyParams he.2⟩
  | .rescue body handler otherwise =>
    rw [Refusals.ofNode, Refusals.ofForm, expandable_append, expandable_append] at he
    rw [Refusals.ofNode, Refusals.ofForm, onlyParams_append, onlyParams_append]
    exact ⟨⟨body.onlyParams he.1.1, handler.onlyParams he.1.2⟩, otherwise.onlyParams he.2⟩
termination_by structural h

theorem ExpandsEach.onlyParams {t t' : Tracker} {nodes nodes' : List Node}
    (h : ExpandsEach contents t nodes nodes' t') (he : Expandable (Refusals.ofNodes nodes)) :
    OnlyParams (Refusals.ofNodes nodes') := by
  match h with
  | .nil => rw [Refusals.ofNodes]; exact .nil
  | .cons first others =>
    rw [Refusals.ofNodes, expandable_append] at he
    rw [Refusals.ofNodes, onlyParams_append]
    exact ⟨first.onlyParams he.1, others.onlyParams he.2⟩
termination_by structural h

theorem ExpandsReceiver.onlyParams {t t' : Tracker} {receiver receiver' : Option Node}
    (h : ExpandsReceiver contents t receiver receiver' t')
    (he : Expandable (Refusals.ofReceiver receiver)) :
    OnlyParams (Refusals.ofReceiver receiver') := by
  match h with
  | .none => rw [Refusals.ofReceiver]; exact .nil
  | .some receiver =>
    rw [Refusals.ofReceiver] at he ⊢
    exact receiver.onlyParams he
termination_by structural h

theorem ExpandsOptional.onlyParams {t t' : Tracker} {body body' : Option Body}
    (h : ExpandsOptional contents t body body' t') (he : Expandable (Refusals.ofOptional body)) :
    OnlyParams (Refusals.ofOptional body') := by
  match h with
  | .none => rw [Refusals.ofOptional]; exact .nil
  | .some body =>
    rw [Refusals.ofOptional] at he ⊢
    exact body.onlyParams he
termination_by structural h

theorem ExpandsBlock.onlyParams {t t' : Tracker} {message : String} {block block' : Option Block}
    (h : ExpandsBlock contents t block block' t')
    (he : Expandable (Refusals.ofBlock message block)) :
    OnlyParams (Refusals.ofBlock message block') := by
  match h with
  | .none => rw [Refusals.ofBlock]; exact .nil
  | .some body =>
    rw [Refusals.ofBlock, expandable_append] at he
    rw [Refusals.ofBlock, onlyParams_append]
    exact ⟨onlyParams_ofParams _ _, body.onlyParams he.2⟩
termination_by structural h

theorem ExpandsBranches.onlyParams {t t' : Tracker} {branches branches' : List Branch}
    (h : ExpandsBranches contents t branches branches' t')
    (he : Expandable (Refusals.ofBranches branches)) :
    OnlyParams (Refusals.ofBranches branches') := by
  match h with
  | .nil => rw [Refusals.ofBranches]; exact .nil
  | .cons condition body others =>
    rw [Refusals.ofBranches, expandable_append, expandable_append] at he
    rw [Refusals.ofBranches, onlyParams_append, onlyParams_append]
    exact ⟨⟨condition.onlyParams he.1.1, body.onlyParams he.1.2⟩, others.onlyParams he.2⟩
termination_by structural h

end

end Left

/-- The contents of a directive are parsed and expanded themselves. -/
theorem onlyParams_of_contentsOf {s : Settings} {levels : Nat} {current : Path}
    {kind : DirectiveKind} {name : String} {span : Span} {t t' : Tracker} {inner : Body}
    (h : contentsOf s levels current kind name span t inner t') :
    OnlyParams (Refusals.ofNodes inner) := by
  induction levels generalizing current kind name span t t' inner with
  | zero =>
    obtain ⟨found, path, -, -, h⟩ := h
    split at h
    · rw [h.1, Refusals.ofNodes]
      exact .nil
    · exact h.elim
  | succ levels ih =>
    obtain ⟨found, path, -, -, h⟩ := h
    split at h
    · rw [h.1, Refusals.ofNodes]
      exact .nil
    · obtain ⟨text, program, -, parsed, h⟩ := h
      exact h.onlyParams ih (expandable_of_parse parsed)

/-- **What an expansion leaves to refuse.** Parameter lists are all that the result of an expansion
is refused for, if the program is refused for them and for directives only. -/
theorem onlyParams_of_expand {s : Settings} {current : Path} {program result : Body}
    {t t' : Tracker} (he : Expandable (Refusals.ofNodes program))
    (h : expand s current program t = (.ok result, t')) : OnlyParams (Refusals.ofNodes result) :=
  (expand_ok h).2.1.onlyParams onlyParams_of_contentsOf he

end Load

end ScriptCompiler
