import ScriptCompiler.Parse.Program
import ScriptCompiler.Proofs.Resolution.Events
import ScriptCompiler.Proofs.Syntax.Trees

/-!
# What a syntax tree is read from

A tree says what was met in the text that it was read from, and in which order: an operand comes
before the operator, a receiver before the point and the name, a condition before the branch that it
decides on, but after the statement if the word stands there. So a read of a local variable in the
tree is an identifier of the text, and so is a message without a receiver, unless the name is a
constant or a reserved word.

What does not show in a tree is not fixed by it: the parentheses, and whether a name was read from
an identifier or from an operator.
-/

namespace ScriptCompiler.Resolution

open Parse

/-! ## Names -/

/-- What a name was read from that is no local variable. The name of a writer ends in an equals sign
that the text has apart from it. -/
inductive Spelled : String → List Event → Prop
  | name (m : Mention) : Spelled m.name [.mention m .named]
  | word {word : Keyword} (h : isLeading word = true) : Spelled word.text [.word]
  | other {name : String} : Spelled name []
  | writer {name : String} {es : List Event} (h : Spelled name es) : Spelled (name ++ "=") es

/-- The name of a message to a receiver comes after a point, or is an operator. -/
inductive Selected : String → List Event → Prop
  | name {name : String} {es : List Event} (h : Spelled name es) : Selected name (.point :: es)
  | operator {name : String} : Selected name []

theorem Selected.writer {name : String} {es : List Event} (h : Selected name es) :
    Selected (name ++ "=") es := by
  cases h with
  | name h => exact .name h.writer
  | operator => exact .operator

/-- The name is a constant or a reserved word. -/
def IsFixed (name : String) : Prop :=
  Token.startsUpper name = true ∨ name = Keyword.yieldKw.text ∨ name = Keyword.superKw.text

/-- The name of a message without a receiver. -/
inductive Called : String → List Event → Prop
  | name {m : Mention} (h : Token.startsUpper m.name = false) : Called m.name [.mention m .called]
  | fixed {name : String} (h : IsFixed name) : Called name []

/-- The owner of a method, and the point after it. -/
inductive Owned : Option String → List Event → Prop
  | nobody : Owned none []
  | name (m : Mention) : Owned (some m.name) [.mention m .named, .point]
  | other {name : String} : Owned (some name) [.point]

/-- Names that are bound one after the other. -/
inductive Bound : List String → List Event → Prop
  | nil : Bound [] []
  | cons (m : Mention) {names : List String} {es : List Event} (h : Bound names es) :
    Bound (m.name :: names) (.mention m .bound :: es)

theorem Bound.append {names names' : List String} {es es' : List Event} (h : Bound names es)
    (h' : Bound names' es') : Bound (names ++ names') (es ++ es') := by
  induction h with
  | nil => exact h'
  | cons m _ ih => exact ih.cons m

/-! ## Trees -/

mutual

/-- A form was read from a text with these events. -/
inductive Traced : Form → List Event → Prop
  /-- A literal, a variable with a sigil, or a reserved word. -/
  | simple {k : Token.Kind} {form : Form} (h : simple? k = some form) : Traced form []
  | read (m : Mention) : Traced (.localVar m.name) [.mention m .read]
  | array {elements : List Node} {es : List Event} (h : TracedAll elements es) :
    Traced (.array elements) es
  | assign (m : Mention) {value : Node} {es : List Event} (h : Traced value.form es) :
    Traced (.assign (.localVar m.name) value) (.mention m .bound :: es)
  /-- The old value of the variable is no part of the text. -/
  | update (m : Mention) {op : String} {start span : Span} {right : Node} {es : List Event}
    (h : Traced right.form es) :
    Traced (.assign (.localVar m.name) ⟨.message (some ⟨.localVar m.name, start⟩) op [right], span⟩)
      (.mention m .bound :: es)
  /-- Nothing but a local variable is bound. -/
  | store {target : Target} {value : Node} {es : List Event} (h : Traced value.form es)
    (other : ∀ name, target = .localVar name → Token.startsUpper name = true) :
    Traced (.assign target value) es
  | directive {m : Mention} {kind : DirectiveKind} {path : String} (h : m.name = kind.text) :
    Traced (.directive kind path) [.mention m .called]
  | call {name : String} {args : List Node} {block : Option Block} {es es' es'' : List Event}
    (hn : Called name es) (ha : TracedAll args es') (hb : TracedBlock block es'') :
    Traced (.send none name args block) (es ++ (es' ++ es''))
  | message {receiver : Node} {name : String} {args : List Node} {block : Option Block}
    {es es' es'' es''' : List Event} (hr : Traced receiver.form es) (hn : Selected name es')
    (ha : TracedAll args es'') (hb : TracedBlock block es''') :
    Traced (.send (some receiver) name args block) (es ++ (es' ++ (es'' ++ es''')))
  | conditional {branches : List Branch} {otherwise : Option (List Node)} {es es' : List Event}
    (hb : TracedBranches branches es) (ho : TracedOptional otherwise es') :
    Traced (.conditional branches otherwise) (es ++ es')
  /-- The condition comes after the statement. -/
  | conditionalAfter {condition statement : Node} {es es' : List Event}
    (hs : Traced statement.form es) (hc : Traced condition.form es') :
    Traced (.conditional [⟨condition, [statement]⟩] none) (es ++ .word :: es')
  /-- The condition of a sequence is no part of the text. -/
  | sequence {statements : List Node} {es : List Event} (h : TracedAll statements es) :
    Traced (.conditional [⟨.synthetic (.localVar "true"), statements⟩] none) es
  | loop {kind : LoopKind} {condition : Node} {body : List Node} {es es' : List Event}
    (hc : Traced condition.form es) (hb : TracedAll body es') :
    Traced (.loop kind condition body) (.word :: (es ++ es'))
  /-- The condition comes after the statement. -/
  | loopAfter {kind : LoopKind} {condition statement : Node} {es es' : List Event}
    (hs : Traced statement.form es) (hc : Traced condition.form es') :
    Traced (.loop kind condition [statement]) (es ++ .word :: es')
  | rescue {body handler : List Node} {variable_ : Option String} {otherwise : Option (List Node)}
    {es es' es'' es''' : List Event} (hb : TracedAll body es) (hv : Bound variable_.toList es')
    (hh : TracedAll handler es'') (ho : TracedOptional otherwise es''') :
    Traced (.rescue body variable_ handler otherwise) (es ++ (es' ++ (es'' ++ es''')))
  | classDef {name : String} {superclass : Option String} {body : List Node} {es : List Event}
    (h : TracedAll body es) :
    Traced (.classDef name superclass body) (.enter true :: (es ++ [.leave]))
  | moduleDef {name : String} {body : List Node} {es : List Event} (h : TracedAll body es) :
    Traced (.moduleDef name body) (.enter true :: (es ++ [.leave]))
  | methodDef {owner : Option String} {name : String} {params : List Param} {body : List Node}
    {es es' es'' es''' : List Event} (ho : Owned owner es) (hn : Spelled name es')
    (hp : Bound (params.map Param.name) es'') (hb : TracedAll body es''') :
    Traced (.methodDef owner name params body)
      (.word :: (es ++ (es' ++ (.enter true :: ((es'' ++ es''') ++ [.leave])))))

/-- Nodes were read one after the other. -/
inductive TracedAll : List Node → List Event → Prop
  | nil : TracedAll [] []
  | cons {node : Node} {nodes : List Node} {es es' : List Event} (h : Traced node.form es)
    (hs : TracedAll nodes es') : TracedAll (node :: nodes) (es ++ es')

/-- A condition was read, and then what it decides on. -/
inductive TracedBranch : Branch → List Event → Prop
  | mk {condition : Node} {body : List Node} {es es' : List Event} (hc : Traced condition.form es)
    (hb : TracedAll body es') : TracedBranch ⟨condition, body⟩ (es ++ es')

/-- Branches were read, each with a word before its condition. -/
inductive TracedBranches : List Branch → List Event → Prop
  | nil : TracedBranches [] []
  | cons {branch : Branch} {branches : List Branch} {es es' : List Event}
    (h : TracedBranch branch es) (hs : TracedBranches branches es') :
    TracedBranches (branch :: branches) (.word :: (es ++ es'))

/-- A body was read that may be missing. -/
inductive TracedOptional : Option (List Node) → List Event → Prop
  | none : TracedOptional none []
  | some {body : List Node} {es : List Event} (h : TracedAll body es) :
    TracedOptional (some body) es

/-- A block was read that may be missing. -/
inductive TracedBlock : Option Block → List Event → Prop
  | none : TracedBlock none []
  | some {params : List Param} {body : List Node} {es es' : List Event}
    (hp : Bound (params.map Param.name) es) (hb : TracedAll body es') :
    TracedBlock (some ⟨params, body⟩) (.enter false :: ((es ++ es') ++ [.leave]))

end

/-- A message was read whose name and receiver come before these events. -/
inductive TracedRest (receiver : Option Node) (name : String) : Node → List Event → Prop
  | mk {args : List Node} {block : Option Block} {span : Span} {es es' : List Event}
    (ha : TracedAll args es) (hb : TracedBlock block es') :
    TracedRest receiver name ⟨.send receiver name args block, span⟩ (es ++ es')

theorem TracedRest.call {name : String} {node : Node} {es es' : List Event}
    (h : TracedRest none name node es') (hn : Called name es) : Traced node.form (es ++ es') := by
  cases h with
  | mk ha hb => exact .call hn ha hb

theorem TracedRest.message {receiver node : Node} {name : String} {es es' es'' : List Event}
    (h : TracedRest (some receiver) name node es'') (hr : Traced receiver.form es)
    (hn : Selected name es') : Traced node.form (es ++ (es' ++ es'')) := by
  cases h with
  | mk ha hb => exact .message hr hn ha hb

section Trees

variable {form : Form} {node left right : Node} {nodes : List Node} {branches : List Branch}
  {es es' es'' : List Event}

theorem TracedAll.concat (hs : TracedAll nodes es) (h : Traced node.form es') :
    TracedAll (nodes ++ [node]) (es ++ es') := by
  induction nodes generalizing es with
  | nil =>
    cases hs
    rw [← List.append_nil ([] ++ es')]
    exact .cons h .nil
  | cons node' nodes ih =>
    cases hs with
    | cons h' hs =>
      rw [List.append_assoc]
      exact .cons h' (ih hs)

theorem TracedAll.one (h : Traced node.form es) : TracedAll [node] es :=
  TracedAll.concat .nil h

theorem TracedBranches.concat {branch : Branch} (hs : TracedBranches branches es)
    (h : TracedBranch branch es') : TracedBranches (branches ++ [branch]) (es ++ .word :: es') := by
  induction branches generalizing es with
  | nil =>
    cases hs
    rw [← List.append_nil es']
    exact .cons h .nil
  | cons branch' branches ih =>
    cases hs with
    | cons h' hs =>
      rw [List.cons_append, List.cons_append, List.append_assoc]
      exact .cons h' (ih hs)

/-- A message without a point, arguments and a block. -/
theorem Traced.operator (op : String) (h : Traced node.form es) :
    Traced (.message (some node) op []) es := by
  rw [← List.append_nil es]
  exact .message h .operator .nil .none

theorem Traced.binary (op : String) (hl : Traced left.form es) (hr : Traced right.form es') :
    Traced (binary left op right).form (es ++ es') := by
  rw [← List.append_nil es']
  exact .message hl .operator (.one hr) .none

/-! ## What parsers make of trees -/

theorem isAtom_of_simple {k : Token.Kind} (h : simple? k = some form) : form.isAtom = true := by
  cases k with
  | keyword word => cases word <;> cases h <;> rfl
  | _ => cases h <;> rfl

theorem Traced.negate (h : Traced node.form es) : Traced (negate node).form es :=
  h.operator _

theorem Traced.applySigns {signs : List (String × Span)} (h : Traced node.form es) :
    Traced (applySigns signs node).form es := by
  induction signs generalizing node with
  | nil => exact h
  | cons sign signs ih => exact ih (h.operator _)

/-- The name of a directive is no constant and no reserved word. -/
theorem not_isFixed_text (kind : DirectiveKind) : ¬ IsFixed kind.text := by
  unfold IsFixed
  cases kind <;> decide

theorem Traced.asDirective (h : Traced node.form es) : Traced (asDirective node).form es := by
  unfold Parse.asDirective
  split
  · next name path span hform =>
    rw [hform] at h
    split
    · next kind hk =>
      have text : kind.text = name := of_decide_eq_true (List.find?_some hk :)
      cases h with
      | simple h => cases isAtom_of_simple h
      | call hn ha hb =>
        cases hb
        cases ha with
        | cons hstr hs =>
          cases hs
          cases hstr
          cases hn with
          | name _ => exact .directive text.symm
          | fixed h => exact absurd (text ▸ h) (not_isFixed_text kind)
    · rwa [hform]
  · exact h

theorem Traced.apply (m : Modifier) (hs : Traced left.form es) (hc : Traced right.form es') :
    Traced (m.apply right left) (es ++ .word :: es') := by
  rcases m with _ | _ | kind
  · exact .conditionalAfter hs hc
  · exact .conditionalAfter hs hc.negate
  · exact .loopAfter hs hc

theorem TracedAll.sequence (h : TracedAll nodes es) : Traced (sequence nodes) es := by
  unfold Parse.sequence
  split
  · cases h
    exact .simple (k := .keyword .nilKw) rfl
  · cases h with
    | cons h hs =>
      cases hs
      rwa [List.append_nil]
  · exact .sequence h

/-- Nothing is met in a target that is no plain identifier. -/
theorem Traced.target {target : Target} (ht : target? form = some target) (h : Traced form es) :
    es = [] ∧ ∀ name, target = .localVar name → Token.startsUpper name = true := by
  unfold target? at ht
  split at ht
  · cases ht
    cases h
    exact ⟨rfl, nofun⟩
  · cases ht
    cases h
    exact ⟨rfl, nofun⟩
  · split at ht
    · next name upper =>
      cases ht
      have capital : ∀ name', Target.localVar name = .localVar name' →
          Token.startsUpper name' = true := by
        rintro _ ⟨⟩
        exact upper
      cases h with
      | simple h => cases isAtom_of_simple h
      | call hn ha hb =>
        cases ha
        cases hb
        cases hn with
        | name lower =>
          rw [lower] at upper
          cases upper
        | fixed _ => exact ⟨rfl, capital⟩
    · cases ht
  · cases ht

/-- A writer takes the receiver and the arguments of its reader. -/
theorem Traced.writer {receiver value : Node} {name : String} {args : List Node}
    (hr : reader? form = some (receiver, name, args)) (h : Traced form es)
    (hv : Traced value.form es') :
    Traced (.message (some receiver) (name ++ "=") (args ++ [value])) (es ++ es') := by
  unfold reader? at hr
  split at hr
  · split at hr
    · cases hr
      cases h with
      | simple h => cases isAtom_of_simple h
      | message hr hn ha hb =>
        cases hb
        have written := Traced.message hr hn.writer (ha.concat hv) .none
        simp only [List.append_assoc, List.append_nil] at written ⊢
        exact written
    · cases hr
  · cases hr

end Trees

end ScriptCompiler.Resolution
