import Mathlib.Init

/-!
# Steps that succeed

A step may fail and keeps its state either way. What is known when steps one after the other
succeed: each of them did, between two states. The first one that fails is the last.
-/

namespace ScriptCompiler

variable {ε σ α β : Type} {s s' : σ}

theorem bind_ok {step : ExceptT ε (StateM σ) α} {f : α → ExceptT ε (StateM σ) β} {b : β}
    (h : (step >>= f) s = (.ok b, s')) :
    ∃ a mid, step s = (.ok a, mid) ∧ f a mid = (.ok b, s') := by
  cases hs : step s with
  | mk r mid =>
    have hb : (step >>= f) s = ExceptT.bindCont f r mid := by
      show ExceptT.bindCont f (step s).1 (step s).2 = _
      rw [hs]
    rw [hb] at h
    cases r with
    | ok a => exact ⟨a, mid, rfl, h⟩
    | error e => cases h

theorem bind_of_ok {step : ExceptT ε (StateM σ) α} {f : α → ExceptT ε (StateM σ) β} {a : α}
    {mid : σ} (h : step s = (.ok a, mid)) : (step >>= f) s = f a mid := by
  show ExceptT.bindCont f (step s).1 (step s).2 = _
  rw [h]
  rfl

theorem bind_of_error {step : ExceptT ε (StateM σ) α} {f : α → ExceptT ε (StateM σ) β} {e : ε}
    {mid : σ} (h : step s = (.error e, mid)) : (step >>= f) s = (.error e, mid) := by
  show ExceptT.bindCont f (step s).1 (step s).2 = _
  rw [h]
  rfl

theorem pure_ok {a b : α} (h : (pure a : ExceptT ε (StateM σ) α) s = (.ok b, s')) :
    a = b ∧ s = s' := by
  cases h
  exact ⟨rfl, rfl⟩

theorem throw_ok {e : ε} {b : β} (h : (throw e : ExceptT ε (StateM σ) β) s = (.ok b, s')) :
    False := by
  cases h

end ScriptCompiler
