import ScriptCompiler.Interchange.Session
import ScriptCompiler.Proofs.Json.Values
import ScriptCompiler.Proofs.Session.History

/-!
# Sessions that go on later

A state that is written as JSON is read back as it was, whatever its variables are called, as long
as their indexes are words of 64 bits. Besides its state a session between two snippets has only its
options, which no step changes. So one that is resumed from what was written goes on as the one that
wrote it.
-/

namespace ScriptCompiler

open Json

theorem Json.word64?_natCast {n : Nat} (h : n < UInt64.size) : word64? (.integer n) = some n := by
  simp [word64?, natBelow?, h]

/-! ## Variable maps that are read back -/

namespace VarMap

/-- The map can be written: no variable stands there twice, and the indexes are words of 64 bits. -/
structure Storable (m : VarMap) : Prop where
  names : m.names.Nodup
  indexes : ∀ entry ∈ m.entries, entry.2 < UInt64.size

theorem Storable.empty : Storable .empty :=
  ⟨.nil, nofun⟩

theorem insert_of_new {m : VarMap} {name : String} (h : name ∉ m.names) (index : Nat) :
    m.insert name index = ⟨m.entries ++ [(name, index)]⟩ := by
  have kept : m.entries.filter (·.1 ≠ name) = m.entries := by
    rw [List.filter_eq_self]
    intro entry he
    exact decide_eq_true fun same => h (same ▸ List.mem_map_of_mem he)
  rw [insert, kept]

theorem index?_toJson {index : Nat} (h : index < UInt64.size) :
    index? (.object [("index", .integer index)]) = some index := by
  simp [index?, record?, field?, word64?_natCast h]

/-- The records of variables are added after those that were read before. -/
theorem foldlM_insert (done todo : List (String × Nat)) (h : Storable ⟨done ++ todo⟩) :
    (todo.map fun (name, index) => (name, Value.object [("index", .integer index)])).foldlM
      (fun m (name, v) => do return insert m name (← index? v)) ⟨done⟩ = some ⟨done ++ todo⟩ := by
  induction todo generalizing done with
  | nil => rw [List.append_nil]; rfl
  | cons entry todo ih =>
    obtain ⟨name, index⟩ := entry
    have new : name ∉ names ⟨done⟩ := by
      have nodup := h.names
      simp only [names, List.map_append, List.map_cons] at nodup
      exact fun known => (List.nodup_append.mp nodup).2.2 _ known _ List.mem_cons_self rfl
    have word : index < UInt64.size := h.indexes (name, index) (by simp)
    rw [List.append_cons] at h ⊢
    rw [← ih _ h, List.map_cons, List.foldlM_cons]
    dsimp only
    rw [index?_toJson word, ← insert_of_new new]
    rfl

theorem Storable.ofJson?_toJson {m : VarMap} (h : m.Storable) : ofJson? m.toJson = some m :=
  foldlM_insert [] m.entries h

theorem Storable.whole_toJson {m : VarMap} (h : m.Storable) : m.toJson.Whole := by
  rw [toJson, Value.Whole, wholeFields_iff]
  simp only [List.forall_mem_map]
  intro entry he
  simpa [Value.Whole, WholeFields] using h.indexes entry he

/-- A map stays one that can be written while it has no more variables than there are words. -/
theorem Storable.declare {m : VarMap} (h : m.Storable) {name : String}
    (fits : (m.declare name).size ≤ UInt64.size) : (m.declare name).Storable := by
  by_cases known : name ∈ m.names
  · rwa [declare_of_known known]
  · rw [size_declare_of_new known] at fits
    constructor
    · rw [names_declare_of_new known]
      exact List.nodup_append.mpr ⟨h.names, List.nodup_singleton _, by grind⟩
    · rw [entries_declare_of_new known]
      exact List.forall_mem_append.mpr ⟨h.indexes, List.forall_mem_singleton.mpr fits⟩

theorem Storable.foldl {m : VarMap} (h : m.Storable) (xs : List String)
    (fits : (xs.foldl VarMap.declare m).size ≤ UInt64.size) :
    (xs.foldl VarMap.declare m).Storable := by
  induction xs generalizing m with
  | nil => exact h
  | cons x xs ih =>
    exact ih (h.declare (Nat.le_trans (prefix_foldl (m.declare x) xs).length_le fits)) fits

end VarMap

namespace Session

/-- What the steps from one session to another one leave as it is. -/
structure Continues (s s' : Session) : Prop where
  options : s'.options = s.options
  echo : s'.echo = s.echo
  grown : s.state.vars.entries <+: s'.state.vars.entries
  storable : s.state.vars.Storable → s'.state.vars.size ≤ UInt64.size → s'.state.vars.Storable

theorem Continues.refl (s : Session) : Continues s s :=
  ⟨rfl, rfl, List.prefix_rfl, fun h _ => h⟩

theorem Continues.trans {s₁ s₂ s₃ : Session} (h : Continues s₁ s₂) (h' : Continues s₂ s₃) :
    Continues s₁ s₃ where
  options := h'.options.trans h.options
  echo := h'.echo.trans h.echo
  grown := h.grown.trans h'.grown
  storable stored fits :=
    h'.storable (h.storable stored (Nat.le_trans h'.grown.length_le fits)) fits

end Session

end ScriptCompiler
