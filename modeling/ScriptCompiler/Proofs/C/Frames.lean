import ScriptCompiler.Proofs.C.Meaning

/-!
# Frames and refinement

The variables of a frame, and pieces of C that do what an action does.
-/

/-!
## Frames

How the variables of a frame are read after one of them changed, after more of them were declared,
and after braces closed.
-/

namespace ScriptCompiler.C

open ScriptCompiler.Runtime

variable {V : Type}

namespace Frame

variable {fr fr' fr'' : Frame V}

/-! ### Variables -/

theorem slots_put_self (name : String) (slot : Slot V) :
    (fr.put name slot).slots name = some slot := by
  show (if name = name then some slot else _) = _
  rw [if_pos rfl]

theorem slots_put_of_ne {name other : String} (slot : Slot V) (h : other ≠ name) :
    (fr.put name slot).slots other = fr.slots other := by
  show (if other = name then some slot else _) = _
  rw [if_neg h]

theorem read?_object {v : Variable} {value : V} (hv : v ≠ .self)
    (h : fr.slots v.text = some (.object value)) : fr.read? v = some value := by
  cases v with
  | self => exact absurd rfl hv
  | outcome => simp only [read?, h]
  | generated name => simp only [read?, h]

theorem read?_put_self {v : Variable} (hv : v ≠ .self) (value : V) :
    (fr.put v.text (.object value)).read? v = some value :=
  read?_object hv (slots_put_self _ _)

/-- A vector of the length that is announced is passed, with the block that there is. -/
theorem passed?_of_length {p : Passed} {args : List V} (ha : fr.vector? p.argv = some args)
    (hn : args.length = p.argc) : fr.passed? p = match p.block with
      | none => some ⟨args, none⟩
      | some name => (fr.block? name).bind fun block => some ⟨args, some block⟩ := by
  have hg : (guard (args.length = p.argc) : Option Unit) = some () := if_pos hn
  rw [passed?, ha, Option.bind_eq_bind, Option.bind_some, hg]
  rfl

theorem passed?_eq {p : Passed} {args : List V} (ha : fr.vector? p.argv = some args)
    (hn : args.length = p.argc) (hb : p.block = none) : fr.passed? p = some ⟨args, none⟩ := by
  rw [passed?_of_length ha hn, hb]

theorem passed?_block_eq {p : Passed} {args : List V} {name : Name} {block : V}
    (ha : fr.vector? p.argv = some args) (hn : args.length = p.argc) (hb : p.block = some name)
    (hs : fr.block? name = some block) : fr.passed? p = some ⟨args, some block⟩ := by
  simp [passed?_of_length ha hn, hb, hs]

theorem put_put (name : String) (a b : Slot V) : (fr.put name a).put name b = fr.put name b := by
  unfold put
  congr 1
  funext n
  by_cases hn : n = name
  · rw [if_pos hn, if_pos hn]
  · rw [if_neg hn, if_neg hn]
    exact if_neg hn

theorem put_same {name : String} {slot : Slot V} (h : fr.slots name = some slot) :
    fr.put name slot = fr := by
  have hs : (fr.put name slot).slots = fr.slots := by
    funext n
    by_cases hn : n = name
    · rw [hn, slots_put_self, h]
    · rw [slots_put_of_ne _ hn]
  show Frame.mk fr.env fr.self fr.passed (fr.put name slot).slots fr.opened = fr
  rw [hs]

/-- A vector that changes is not the variable that is read. -/
theorem read?_put_vector {array : String} {old new : List (Option V)} {v : Variable} {x : V}
    (ha : fr.slots array = some (.vector old)) (hv : fr.read? v = some x) :
    (fr.put array (.vector new)).read? v = some x := by
  cases v with
  | self => exact hv
  | outcome =>
    have hne : Variable.text .outcome ≠ array := by
      rintro rfl
      simp [read?, ha] at hv
    simpa only [read?, slots_put_of_ne _ hne] using hv
  | generated name =>
    have hne : Variable.text (.generated name) ≠ array := by
      rintro rfl
      simp [read?, ha] at hv
    simpa only [read?, slots_put_of_ne _ hne] using hv

/-! ### More variables -/

/-- The second frame is the first one with more variables. -/
structure Extends (fr fr' : Frame V) : Prop where
  env : fr'.env = fr.env
  self : fr'.self = fr.self
  passed : fr'.passed = fr.passed
  opened : fr'.opened = fr.opened
  slots : ∀ {name slot}, fr.slots name = some slot → fr'.slots name = some slot

namespace Extends

theorem refl (fr : Frame V) : fr.Extends fr := ⟨rfl, rfl, rfl, rfl, id⟩

theorem trans (h : fr.Extends fr') (h' : fr'.Extends fr'') : fr.Extends fr'' :=
  ⟨h'.env.trans h.env, h'.self.trans h.self, h'.passed.trans h.passed,
    h'.opened.trans h.opened, fun hs => h'.slots (h.slots hs)⟩

/-- A variable that was not there. -/
theorem put {name : String} (hn : fr.slots name = none) (slot : Slot V) :
    fr.Extends (fr.put name slot) where
  env := rfl
  self := rfl
  passed := rfl
  opened := rfl
  slots {n s} hs := by
    have hne : n ≠ name := by
      rintro rfl
      rw [hn] at hs
      cases hs
    rw [slots_put_of_ne _ hne]
    exact hs

theorem read? (h : fr.Extends fr') {v : Variable} {x : V} (hv : fr.read? v = some x) :
    fr'.read? v = some x := by
  cases v with
  | self =>
    rw [← hv]
    exact congrArg some h.self
  | outcome =>
    cases hs : fr.slots (Variable.text .outcome) with
    | none => simp [Frame.read?, hs] at hv
    | some slot =>
      simp only [Frame.read?, hs] at hv
      simpa only [Frame.read?, h.slots hs] using hv
  | generated name =>
    cases hs : fr.slots (Variable.text (.generated name)) with
    | none => simp [Frame.read?, hs] at hv
    | some slot =>
      simp only [Frame.read?, hs] at hv
      simpa only [Frame.read?, h.slots hs] using hv

theorem vector? (h : fr.Extends fr') {argv : ArgVector} {xs : List V}
    (hv : fr.vector? argv = some xs) : fr'.vector? argv = some xs := by
  cases argv with
  | none => exact hv
  | single arg =>
    cases hr : fr.read? arg with
    | none => simp [Frame.vector?, hr] at hv
    | some x =>
      simp only [Frame.vector?, hr] at hv
      simpa only [Frame.vector?, h.read? hr] using hv
  | array name =>
    cases hs : fr.slots name.text with
    | none => simp [Frame.vector?, hs] at hv
    | some slot =>
      simp only [Frame.vector?, hs] at hv
      simpa only [Frame.vector?, h.slots hs] using hv

/-- One more variable, or another value of one, in both frames. -/
theorem put_both (h : fr.Extends fr') (name : String) (slot : Slot V) :
    (fr.put name slot).Extends (fr'.put name slot) where
  env := h.env
  self := h.self
  passed := h.passed
  opened := h.opened
  slots {n s} hs := by
    by_cases hn : n = name
    · rw [hn, slots_put_self] at hs ⊢
      exact hs
    · rw [slots_put_of_ne _ hn] at hs ⊢
      exact h.slots hs

/-- When braces close, the variables declared inside them are gone, and nothing else is. -/
theorem leave_eq (h : fr.Extends fr') : fr'.leave fr = fr := by
  have hs : (fr'.leave fr).slots = fr.slots := by
    funext n
    show (if (fr.slots n).isSome then fr'.slots n else none) = fr.slots n
    cases hn : fr.slots n with
    | none => rfl
    | some slot =>
      rw [h.slots hn]
      rfl
  show Frame.mk fr'.env fr'.self fr'.passed (fr'.leave fr).slots fr'.opened = fr
  rw [h.env, h.self, h.passed, h.opened, hs]

/-- An assignment inside braces to a variable outside of them stays. -/
theorem leave_put_eq {name : String} {slot : Slot V} (hn : (fr.slots name).isSome = true)
    (h : (fr.put name slot).Extends fr') : fr'.leave fr = fr.put name slot := by
  have hl : fr'.leave fr = fr'.leave (fr.put name slot) := by
    unfold leave
    congr 1
    funext n
    by_cases he : n = name
    · rw [he, hn, slots_put_self]
      rfl
    · rw [slots_put_of_ne _ he]
  rw [hl, h.leave_eq]

end Extends

theorem leave_self (fr : Frame V) : fr.leave fr = fr :=
  (Extends.refl fr).leave_eq

end Frame

end ScriptCompiler.C

/-!
## C that does what an action does

A piece of C refines an action when both ask the runtime library the same, whatever it replies, and
end alike. The rules here put refinements of parts together; the scopes that a function has open are
the same before and after each part, also when an exception leaves it.
-/

namespace ScriptCompiler.C

open ScriptCompiler.Runtime

variable {V α β γ δ : Type}

/-! ### Running steps in a frame -/

/-- A step from a frame. -/
def Exec.at (x : Exec V α) (fr : Frame V) : Tree V (Except Stop α × Frame V) :=
  x.run.run fr

namespace Exec

variable {fr : Frame V}

@[simp] theorem at_pure (a : α) : (pure a : Exec V α).at fr = pure (.ok a, fr) := rfl

theorem at_bind (x : Exec V α) (f : α → Exec V β) :
    (x >>= f).at fr = x.at fr >>= fun
      | (.ok a, fr') => (f a).at fr'
      | (.error stop, fr') => pure (.error stop, fr') := by
  show (x.at fr >>= fun r => ExceptT.bindCont f r.1 r.2) = _
  refine bind_congr fun r => ?_
  obtain ⟨r, fr'⟩ := r
  cases r with
  | ok a => rfl
  | error stop => rfl

@[simp] theorem at_get_bind (f : Frame V → Exec V β) : (get >>= f).at fr = (f fr).at fr := rfl

@[simp] theorem at_set_bind (fr' : Frame V) (f : PUnit → Exec V β) :
    (set fr' >>= f).at fr = (f ⟨⟩).at fr' := rfl

@[simp] theorem at_modify_bind (g : Frame V → Frame V) (f : PUnit → Exec V β) :
    (modify g >>= f).at fr = (f ⟨⟩).at (g fr) := rfl

@[simp] theorem at_set (fr' : Frame V) : (set fr' : Exec V PUnit).at fr = pure (.ok ⟨⟩, fr') := rfl

theorem at_lift (y : Action V α) :
    (liftM y : Exec V α).at fr = y.run >>= fun r => pure (r, fr) := rfl

@[simp] theorem at_throw (stop : Stop) :
    (throw stop : Exec V α).at fr = pure (.error stop, fr) := rfl

end Exec

@[simp] theorem need_some (a : α) : (need (some a) : Exec V α) = pure a := rfl

theorem run_bind (y : Action V α) (f : α → Action V β) :
    (y >>= f).run = y.run >>= fun
      | .ok a => (f a).run
      | .error stop => pure (.error stop) := by
  show (y.run >>= ExceptT.bindCont f) = _
  refine bind_congr fun r => ?_
  cases r with
  | ok a => rfl
  | error stop => rfl

/-- Actions one after the other are one action. -/
theorem Exec.at_lift_seq {fr : Frame V} (y : Action V α) (f : α → Action V β) :
    (liftM (y >>= f) : Exec V β).at fr
      = ((liftM y : Exec V α) >>= fun a => (liftM (f a) : Exec V β)).at fr := by
  rw [at_bind, at_lift, at_lift, run_bind, bind_assoc, bind_assoc]
  refine bind_congr fun r => ?_
  cases r with
  | ok a => rfl
  | error stop => rfl

/-! ### Refinement -/

/-- How a step of C and an action end alike: the step's value is related to the action's, or both
stop for one reason. The open scopes are the given ones unless the code cannot go on at all. -/
inductive EndsAlike (opened : List V) (Q : Frame V → α → β → Prop) :
    Except Stop α × Frame V → Except Stop β → Prop
  | ok {fr : Frame V} {a : α} {b : β} (h : fr.opened = opened) (hq : Q fr a b) :
      EndsAlike opened Q (.ok a, fr) (.ok b)
  | error {fr : Frame V} {stop : Stop} (h : stop = .raised → fr.opened = opened) :
      EndsAlike opened Q (.error stop, fr) (.error stop)

/-- From a frame, a step of C does what an action does. -/
def Refines (fr : Frame V) (x : Exec V α) (y : Action V β) (Q : Frame V → α → β → Prop) : Prop :=
  Tree.Rel (EndsAlike fr.opened Q) (x.at fr) y.run

namespace Refines

variable {fr : Frame V} {Q : Frame V → α → β → Prop} {R : Frame V → γ → δ → Prop}

theorem pure {a : α} {b : β} (h : Q fr a b) : Refines fr (pure a) (pure b) Q :=
  .done (.ok rfl h)

theorem throw {stop : Stop} : Refines fr (throw stop) (throw stop) Q :=
  .done (.error fun _ => rfl)

theorem mono {Q' : Frame V → α → β → Prop} {x : Exec V α} {y : Action V β}
    (h : Refines fr x y Q) (hq : ∀ fr' a b, Q fr' a b → Q' fr' a b) : Refines fr x y Q' := by
  refine Tree.Rel.mono h ?_
  intro r o hr
  cases hr with
  | ok ho h => exact .ok ho (hq _ _ _ h)
  | error ho => exact .error ho

/-- Refinements one after the other. -/
theorem bind {x : Exec V α} {y : Action V β} {f : α → Exec V γ} {g : β → Action V δ}
    (h : Refines fr x y Q)
    (hf : ∀ fr' a b, Q fr' a b → Refines fr' (f a) (g b) R) :
    Refines fr (x >>= f) (y >>= g) R := by
  unfold Refines
  rw [Exec.at_bind, run_bind]
  refine Tree.Rel.bind h ?_
  intro r o hr
  cases hr with
  | ok ho h =>
    have := hf _ _ _ h
    unfold Refines at this
    rw [ho] at this
    exact this
  | error ho => exact .done (.error ho)

/-- The same action on both sides. -/
theorem lift_bind {y : Action V α} {f : α → Exec V γ} {g : α → Action V δ}
    (hf : ∀ a, Refines fr (f a) (g a) R) : Refines fr (liftM y >>= f) (y >>= g) R := by
  refine bind (Q := fun fr' a b => fr' = fr ∧ a = b) ?_ ?_
  · have h : Tree.Rel (fun r o => r = o) y.run y.run := Tree.Rel.refl (fun _ => rfl) y.run
    have hb : Tree.Rel (EndsAlike fr.opened fun fr' a b => fr' = fr ∧ a = b)
        (y.run.bind fun r => .done (r, fr)) (y.run.bind .done) := by
      refine h.bind ?_
      intro r o hr
      subst hr
      cases r with
      | ok a => exact .done (.ok rfl ⟨rfl, rfl⟩)
      | error stop => exact .done (.error fun _ => rfl)
    rw [Tree.bind_done] at hb
    exact hb
  · intro fr' a b h
    obtain ⟨rfl, rfl⟩ := h
    exact hf a

/-- A step of C that asks for nothing. -/
theorem step_bind {x : Exec V α} {f : α → Exec V γ} {y : Action V δ} (fr' : Frame V) (a : α)
    (hx : x.at fr = Pure.pure (.ok a, fr')) (ho : fr'.opened = fr.opened)
    (hf : Refines fr' (f a) y R) : Refines fr (x >>= f) y R := by
  unfold Refines at hf ⊢
  rw [Exec.at_bind, hx, pure_bind, ← ho]
  exact hf

theorem get_bind {f : Frame V → Exec V γ} {y : Action V δ} (hf : Refines fr (f fr) y R) :
    Refines fr (get >>= f) y R :=
  step_bind fr fr rfl rfl hf

theorem need_bind {o : Option α} {a : α} {f : α → Exec V γ} {y : Action V δ} (ho : o = some a)
    (hf : Refines fr (f a) y R) : Refines fr (need o >>= f) y R := by
  rw [ho, need_some, pure_bind]
  exact hf

end Refines

end ScriptCompiler.C
