import ScriptCompiler.Proofs.Runtime.Action

/-!
# Rescue scopes that are opened and closed

Rescue scopes stand inside one another: only the innermost one that is open can be closed, on the
environment that it was opened on. Code is balanced when it never closes another one, whatever the
library replies, and when it has closed the scopes that it opened, and no others, whenever it ends
with a value or by an exception; code that it hands over is balanced too.
-/

namespace ScriptCompiler.Runtime

universe u

variable {V α β : Type} [DecidableEq V]

/-! ## Open scopes -/

/-- The environments of the scopes that are open after an operation, the innermost one first.
Nothing can close a scope that is not the innermost one. -/
def scopesAfter : Operation V → List V → Option (List V)
  | .openRescue env, opened => some (env :: opened)
  | .closeRescue env, scope :: opened => if scope = env then some opened else none
  | .closeRescue _, [] => none
  | _, opened => some opened

/-- The scopes that are open after an event. -/
def Event.scopesAfter : Event V → List V → Option (List V)
  | .perform op, opened => Runtime.scopesAfter op opened
  | .test _ _, opened => some opened
  | .deliver _ _, opened => some opened

/-- The scopes that are open after events. -/
def openScopes (opened : List V) : List (Event V) → Option (List V)
  | [] => some opened
  | event :: events =>
    match event.scopesAfter opened with
    | some opened => openScopes opened events
    | none => none

/-- Code that ends with a value or by an exception leaves the outer scopes open and no others. -/
def LeavesOpen (outer opened : List V) : Except Stop α → Prop
  | .ok _ => opened = outer
  | .error .raised => opened = outer
  | .error .unfinished => True
  | .error .stuck => True

/-! ## Balanced code -/

/-- From open scopes on, a tree closes none but the innermost ones, and the scopes that are open at
its end are as they should be. -/
def Tree.Scoped : {α : Type} → Tree V α → (List V → α → Prop) → List V → Prop
  | _, .done value, ends, opened => ends opened value
  | _, .perform op next, ends, opened =>
    ∃ after, scopesAfter op opened = some after ∧ ∀ reply, (next reply).Scoped ends after
  | _, .test _ _ next, ends, opened => ∀ reply, (next reply).Scoped ends opened
  | _, .deliver _ code next, ends, opened =>
    (∀ entry outer, (code entry).Scoped (LeavesOpen outer) outer)
      ∧ ∀ reply, (next reply).Scoped ends opened

namespace Tree.Scoped

variable {ends : List V → α → Prop} {ends' : List V → β → Prop} {opened : List V} {t : Tree V α}

theorem bind {f : α → Tree V β} (h : t.Scoped ends opened)
    (hf : ∀ opened a, ends opened a → (f a).Scoped ends' opened) :
    (t.bind f).Scoped ends' opened := by
  induction t generalizing opened with
  | done value => exact hf opened value h
  | perform op next ih =>
    obtain ⟨after, ho, h⟩ := h
    exact ⟨after, ho, fun reply => ih reply (h reply) hf⟩
  | test env value next ih => exact fun reply => ih reply (h reply) hf
  | deliver op code next _ ih => exact ⟨h.1, fun reply => ih reply (h.2 reply) hf⟩

/-- On every machine, a run closes none but the innermost scopes, and those that are open after it
are as they should be. -/
theorem run {σ : Type u} (h : t.Scoped ends opened) (m : Machine V σ) (s : σ) :
    ∃ left, openScopes opened (m.run t s).events = some left ∧ ends left (m.run t s).ending := by
  induction t generalizing opened s with
  | done value => exact ⟨opened, rfl, h⟩
  | perform op next ih =>
    obtain ⟨after, ho, h⟩ := h
    obtain ⟨left, hl, he⟩ := ih (m.perform op s).1 (h _) (m.perform op s).2
    refine ⟨left, ?_, he⟩
    rw [Machine.run, Record.after, openScopes, Event.scopesAfter, ho]
    exact hl
  | test env value next ih => exact ih (m.test env value s).1 (h _) (m.test env value s).2
  | deliver op code next _ ih => exact ih (m.deliver op code s).1 (h.2 _) (m.deliver op code s).2

end Tree.Scoped

/-- An action closes the scopes that it opens, and no others, on every way out. -/
def Balanced (x : Action V α) : Prop :=
  ∀ outer, x.run.Scoped (LeavesOpen outer) outer

namespace Balanced

variable {x : Action V α} {f : α → Action V β}

theorem pure (a : α) : Balanced (pure a : Action V α) :=
  fun _ => rfl

theorem throw (stop : Stop) : Balanced (throw stop : Action V α) := by
  intro outer
  cases stop with
  | raised => exact rfl
  | unfinished => exact trivial
  | stuck => exact trivial

theorem bind (h : Balanced x) (hf : ∀ a, Balanced (f a)) : Balanced (x >>= f) := by
  intro outer
  refine (h outer).bind ?_
  intro opened r hr
  match r, hr with
  | .ok a, hr =>
    obtain rfl : opened = outer := hr
    exact hf a opened
  | .error .raised, hr => exact hr
  | .error .unfinished, _ => exact trivial
  | .error .stuck, _ => exact trivial

/-- An operation that neither opens nor closes a scope. -/
theorem perform {op : Operation V} (h : ∀ opened, scopesAfter op opened = some opened) :
    Balanced (perform op) := by
  intro outer
  refine ⟨outer, h outer, fun reply => ?_⟩
  cases reply with
  | none => exact rfl
  | some value => exact rfl

theorem test (env value : V) : Balanced (test env value) :=
  fun _ _ => rfl

theorem deliver {op : Handover V} {code : Routine V} (h : ∀ entry, Balanced (code entry)) :
    Balanced (deliver op code) := by
  intro outer
  refine ⟨h, fun reply => ?_⟩
  cases reply with
  | none => exact rfl
  | some value => exact rfl

theorem expectCount (env : V) (got expected : Nat) : Balanced (expectCount env got expected) := by
  unfold Runtime.expectCount
  split
  · exact .pure ()
  · exact (Balanced.perform fun _ => rfl).bind fun _ => .throw .raised

/-- **A rescue scope** around a balanced body is closed before what comes after it, whether the body
gives a value or an exception leaves it. -/
theorem rescueScope {normally : α → Action V β} {onRaise : Action V β} (env : V) (h : Balanced x)
    (hn : ∀ a, Balanced (normally a)) (hr : Balanced onRaise) :
    Balanced (signal (.openRescue env) >>= fun _ =>
      protect x (fun a => signal (.closeRescue env) >>= fun _ => normally a)
        (signal (.closeRescue env) >>= fun _ => onRaise)) := by
  intro outer
  have closes : scopesAfter (.closeRescue env) (env :: outer) = some outer := if_pos rfl
  refine ⟨env :: outer, rfl, fun _ => ?_⟩
  show (x.run.bind _).Scoped (LeavesOpen outer) (env :: outer)
  refine (h (env :: outer)).bind ?_
  intro opened r hl
  match r, hl with
  | .ok a, hl =>
    obtain rfl : opened = env :: outer := hl
    exact ⟨outer, closes, fun _ => hn a outer⟩
  | .error .raised, hl =>
    obtain rfl : opened = env :: outer := hl
    exact ⟨outer, closes, fun _ => hr outer⟩
  | .error .unfinished, _ => exact trivial
  | .error .stuck, _ => exact trivial

theorem repeatRounds {round : Action V Bool} (h : Balanced round) (n : Nat) :
    Balanced (repeatRounds round n) := by
  induction n with
  | zero => exact .throw .unfinished
  | succ n ih =>
    refine h.bind fun again => ?_
    cases again with
    | true => exact ih
    | false => exact .pure ()

end Balanced

end ScriptCompiler.Runtime
