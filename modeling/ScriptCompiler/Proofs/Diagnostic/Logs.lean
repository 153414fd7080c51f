import Mathlib.Init
import ScriptCompiler.Diagnostic.Basic

/-!
# Logs and the lists they stand for

A log keeps the first diagnostics it is given and counts the others. So it stands for the list of
all of them, cut at its capacity, and goes on to do so when it is put together from other logs that
have dropped some of theirs: the ones that are missing come too late to be kept. Its count takes
nothing away that is not there, and is too great for a machine only if the list is too long.
-/

namespace ScriptCompiler.Log

variable {l l' other : Log} {ds ds' : List Diagnostic}

/-- A log that keeps no more than it counts brings all that it counts. -/
theorem total_append (le : other.kept.length ≤ other.total) :
    (l.append other).total = l.total + other.total := by
  show (l.pushAll other.kept).total + (other.total - other.kept.length) = _
  rw [total_pushAll, Nat.add_assoc, Nat.add_sub_of_le le]

/-! ## What a log has of a list -/

/-- The log stands for these diagnostics: it has the first ones, and their number. -/
structure Records (l : Log) (ds : List Diagnostic) : Prop where
  kept : l.kept = ds.take capacity
  total : l.total = ds.length

namespace Records

theorem nil : Records .empty [] :=
  ⟨List.take_nil.symm, rfl⟩

/-- A list leaves one log. -/
theorem unique (h : Records l ds) (h' : Records l' ds) : l = l' := by
  cases l
  cases l'
  exact congr (congrArg Log.mk (h.kept.trans h'.kept.symm)) (h.total.trans h'.total.symm)

theorem push (h : Records l ds) (d : Diagnostic) : Records (l.push d) (ds ++ [d]) where
  kept := by
    show (if l.kept.length < capacity then l.kept ++ [d] else l.kept) = _
    rw [h.kept, List.length_take]
    by_cases room : ds.length < capacity
    · rw [if_pos (by omega), List.take_of_length_le (Nat.le_of_lt room),
        List.take_of_length_le (by rw [List.length_append]; exact room)]
    · rw [if_neg (by omega), List.take_append_of_le_length (Nat.le_of_not_lt room)]
  total := by
    rw [total_push, h.total, List.length_append, List.length_singleton]

theorem pushAll (h : Records l ds) (ds' : List Diagnostic) :
    Records (l.pushAll ds') (ds ++ ds') := by
  induction ds' generalizing l ds with
  | nil => exact (List.append_nil ds).symm ▸ h
  | cons d ds' ih =>
    have rest : Records ((l.push d).pushAll ds') (ds ++ [d] ++ ds') := ih (h.push d)
    rwa [List.append_assoc] at rest

theorem length_kept (h : Records l ds) : l.kept.length = min capacity ds.length := by
  rw [h.kept, List.length_take]

/-- What a log keeps it has counted, so the difference of the two is not cut off at zero. -/
theorem length_kept_le (h : Records l ds) : l.kept.length ≤ l.total := by
  rw [h.length_kept, h.total]
  exact Nat.min_le_right _ _

/-- A log that is appended has dropped only what would find no room. -/
theorem append (h : Records l ds) (h' : Records other ds') :
    Records (l.append other) (ds ++ ds') where
  kept := by
    have pushed : (l.pushAll other.kept).kept = (ds ++ other.kept).take capacity :=
      (h.pushAll other.kept).kept
    show (l.pushAll other.kept).kept = _
    rw [pushed, h'.kept, List.take_append, List.take_append, List.take_take,
      Nat.min_eq_left (Nat.sub_le _ _)]
  total := by
    rw [total_append h'.length_kept_le, h.total, h'.total, List.length_append]

theorem isFull_iff (h : Records l ds) : l.isFull = true ↔ capacity ≤ ds.length := by
  rw [isFull, decide_eq_true_iff, h.total]

theorem dropped (h : Records l ds) : l.dropped = (ds.drop capacity).length := by
  rw [Log.dropped, h.total, h.length_kept, List.length_drop]
  omega

/-- The lines of a log are those of the first diagnostics and, if there are more, how many more. -/
theorem text (h : Records l ds) :
    l.text = "\n".intercalate ((ds.take capacity).map Diagnostic.text)
      ++ (if ds.length ≤ capacity then ""
        else "\n... and " ++ toString (ds.length - capacity) ++ " more") := by
  have more : l.dropped = ds.length - capacity := h.dropped.trans List.length_drop
  simp only [Log.text, h.kept, more, Nat.sub_eq_zero_iff_le]

end Records

theorem records_pushAll (ds : List Diagnostic) : Records (Log.empty.pushAll ds) ds :=
  Records.nil.pushAll ds

/-- What a log without diagnostics keeps of some. -/
theorem kept_empty_pushAll (ds : List Diagnostic) :
    (Log.empty.pushAll ds).kept = ds.take capacity :=
  (records_pushAll ds).kept

theorem append_pushAll (ds ds' : List Diagnostic) :
    (Log.empty.pushAll ds).append (Log.empty.pushAll ds') = Log.empty.pushAll (ds ++ ds') :=
  ((records_pushAll ds).append (records_pushAll ds')).unique (records_pushAll _)

/-! ## Ways to put a log together -/

/-- A way to put a log together: from none on, by single diagnostics and by logs that were put
together in some way themselves. -/
inductive Build where
  | empty
  | push (b : Build) (d : Diagnostic)
  | append (b other : Build)

namespace Build

/-- The log that is put together. -/
def log : Build → Log
  | empty => .empty
  | push b d => b.log.push d
  | append b other => b.log.append other.log

/-- The diagnostics that are pushed anywhere on the way, in order. -/
def reported : Build → List Diagnostic
  | empty => []
  | push b d => b.reported ++ [d]
  | append b other => b.reported ++ other.reported

/-- Pushes diagnostics one after the other. -/
def ofList (ds : List Diagnostic) : Build :=
  ds.foldl push empty

/-- However a log is put together, it stands for what was reported. -/
theorem records (b : Build) : Records b.log b.reported := by
  induction b with
  | empty => exact .nil
  | push b d ih => exact ih.push d
  | append b other ih ih' => exact ih.append ih'

theorem reported_foldl_push (b : Build) (ds : List Diagnostic) :
    (ds.foldl push b).reported = b.reported ++ ds := by
  induction ds generalizing b with
  | nil => exact (List.append_nil _).symm
  | cons d ds ih => exact (ih (b.push d)).trans (List.append_assoc _ _ _)

@[simp] theorem reported_ofList (ds : List Diagnostic) : (ofList ds).reported = ds :=
  reported_foldl_push empty ds

end Build

/-- A log that keeps as many diagnostics as it counts, up to its capacity, stands for some. -/
theorem exists_records (size : l.kept.length = min capacity l.total) : ∃ ds, Records l ds := by
  cases first : l.kept with
  | nil =>
    have none : l.total = 0 := by
      rw [first, List.length_nil, capacity] at size
      omega
    exact ⟨[], first, none⟩
  | cons d _ =>
    -- what was dropped may have been anything
    refine ⟨l.kept ++ List.replicate (l.total - l.kept.length) d, ?_, ?_⟩
    · by_cases room : l.total ≤ capacity
      · have all : l.total - l.kept.length = 0 := by omega
        rw [all, List.replicate_zero, List.append_nil, List.take_of_length_le (by omega)]
      · rw [List.take_left' (by omega)]
    · rw [List.length_append, List.length_replicate]
      omega

/-- **Logs that can be put together** are those that keep as many diagnostics as they count, up to
their capacity. -/
theorem exists_build_iff :
    (∃ b : Build, b.log = l) ↔ l.kept.length = min capacity l.total := by
  constructor
  · rintro ⟨b, rfl⟩
    rw [b.records.length_kept, b.records.total]
  · intro size
    obtain ⟨ds, standsFor⟩ := exists_records size
    have pushed := (Build.ofList ds).records
    rw [Build.reported_ofList] at pushed
    exact ⟨_, pushed.unique standsFor⟩

/-! ## Counts of a machine

A machine counts up to a greatest number and not below zero. It stops where a sum is greater, and
where more is to be taken away than there is.
-/

/-- Why a machine stops when it counts. -/
inductive CountFault where
  | overflow
  | underflow
  deriving DecidableEq, Repr

section Within

variable {α β : Type} (most : Nat)

/-- What comes of counting to `n` on a machine that counts up to `most`. -/
def countTo (n : Nat) (a : α) : Except CountFault α :=
  if n ≤ most then .ok a else .error .overflow

/-- Counts a diagnostic. -/
def pushWithin (l : Log) (d : Diagnostic) : Except CountFault Log :=
  countTo most (l.total + 1) (l.push d)

/-- Counts what another log counted: how many it dropped, those it kept, and all together. -/
def appendWithin (l other : Log) : Except CountFault Log := do
  let dropped ← if other.kept.length ≤ other.total
    then .ok (other.total - other.kept.length) else .error .underflow
  let both ← other.kept.foldlM (pushWithin most) l
  countTo most (both.total + dropped) { both with total := both.total + dropped }

/-- The log that is put together, unless the machine stops. -/
def Build.within : Build → Except CountFault Log
  | empty => .ok .empty
  | push b d => do pushWithin most (← b.within) d
  | append b other => do appendWithin most (← b.within) (← other.within)

variable {most : Nat}

/-- Counting on from a number that the machine reaches, or stops before, is counting to the end. -/
theorem countTo_bind {n m : Nat} {a : α} {b : β} {f : α → Except CountFault β} (le : n ≤ m)
    (next : n ≤ most → f a = countTo most m b) : countTo most n a >>= f = countTo most m b := by
  by_cases fits : n ≤ most
  · rw [countTo, if_pos fits]
    exact next fits
  · rw [countTo, countTo, if_neg fits, if_neg fun h => fits (Nat.le_trans le h)]
    rfl

theorem foldlM_pushWithin (fits : l.total ≤ most) (ds : List Diagnostic) :
    ds.foldlM (pushWithin most) l = countTo most (l.total + ds.length) (l.pushAll ds) := by
  induction ds generalizing l with
  | nil => exact (if_pos fits).symm
  | cons d ds ih =>
    have total : (l.push d).total + ds.length = l.total + (d :: ds).length :=
      Nat.succ_add_eq_add_succ _ _
    rw [List.foldlM_cons]
    refine countTo_bind (Nat.add_le_add_left (Nat.le_add_left 1 _) _) fun fits => ?_
    rw [ih fits, total]
    rfl

/-- A log that keeps no more than it counts is appended if the counts together are not too great. -/
theorem appendWithin_eq (fits : l.total ≤ most) (le : other.kept.length ≤ other.total) :
    appendWithin most l other = countTo most (l.total + other.total) (l.append other) := by
  rw [appendWithin, if_pos le, foldlM_pushWithin fits]
  refine countTo_bind (Nat.add_le_add_left le _) fun _ => ?_
  rw [← total_append le]
  rfl

-- A log that keeps more than it counts can be read from a file, not put together.
example (most : Nat) (d : Diagnostic) :
    appendWithin most .empty ⟨[d], 0⟩ = .error .underflow := rfl

/-- A machine stops exactly if more diagnostics are reported than it counts. -/
theorem Build.within_eq (b : Build) :
    b.within most = countTo most b.reported.length b.log := by
  induction b with
  | empty => exact (if_pos (Nat.zero_le _)).symm
  | push b d ih =>
    have longer : (b.push d).reported.length = b.reported.length + 1 := List.length_append
    rw [Build.within, ih, longer]
    refine countTo_bind (Nat.le_succ _) fun _ => ?_
    rw [pushWithin, b.records.total]
    rfl
  | append b other ih ih' =>
    have longer : (b.append other).reported.length = b.reported.length + other.reported.length :=
      List.length_append
    rw [Build.within, ih, ih', longer]
    refine countTo_bind (Nat.le_add_right _ _) fun fits => ?_
    refine countTo_bind (Nat.le_add_left _ _) fun _ => ?_
    rw [← b.records.total] at fits ⊢
    rw [appendWithin_eq fits other.records.length_kept_le, other.records.total]
    rfl

end Within

/-- **Logs stand for full lists.** However a log is put together, it keeps the first diagnostics
that were reported, up to its capacity, and counts all of them; whether it is full, how many it
dropped and what it says of them follow. A machine never has to take away more than there is, and
stops only if the diagnostics are more than it can count. -/
theorem first_of_reported (b : Build) :
    b.log.kept = b.reported.take capacity
      ∧ b.log.total = b.reported.length
      ∧ (b.log.isFull = true ↔ capacity ≤ b.reported.length)
      ∧ b.log.dropped = (b.reported.drop capacity).length
      ∧ b.log.text = "\n".intercalate ((b.reported.take capacity).map Diagnostic.text)
        ++ (if b.reported.length ≤ capacity then ""
          else "\n... and " ++ toString (b.reported.length - capacity) ++ " more")
      ∧ ∀ most : Nat, b.within most
        = if b.reported.length ≤ most then .ok b.log else .error .overflow :=
  have records : Records b.log b.reported := b.records
  ⟨records.kept, records.total, records.isFull_iff, records.dropped, records.text,
    fun _ => b.within_eq⟩

end ScriptCompiler.Log
