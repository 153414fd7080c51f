import Mathlib.Data.List.Basic
import ScriptCompiler.Text.Lines

/-!
# Joined lines

Lines without line breaks are read back from the text that they are joined to, and a line break at
the end of the text adds no line.
-/

namespace ScriptCompiler.Text

/-- A separator ends a piece. -/
theorem splitAt_append (separator : Char) (cs ds : List Char) :
    splitAt separator (cs ++ separator :: ds) = splitAt separator cs ++ splitAt separator ds := by
  induction cs with
  | nil => simp [splitAt, cut]
  | cons c cs ih =>
    simp only [splitAt, List.cons_append, List.cons.injEq, cut] at ih ⊢
    split <;> simp [ih]

theorem splitAt_of_not_mem {separator : Char} {cs : List Char} (h : separator ∉ cs) :
    splitAt separator cs = [cs] := by
  induction cs with
  | nil => rfl
  | cons c cs ih =>
    rw [List.mem_cons, not_or] at h
    have rest := ih h.2
    simp only [splitAt, List.cons.injEq] at rest
    simp [splitAt, cut, rest, Ne.symm h.1]

/-- No piece holds the separator. -/
theorem not_mem_of_mem_splitAt {separator : Char} {piece cs : List Char}
    (h : piece ∈ splitAt separator cs) : separator ∉ piece := by
  induction cs generalizing piece with
  | nil =>
    rw [List.mem_singleton.mp h]
    exact List.not_mem_nil
  | cons c cs ih =>
    simp only [splitAt, List.mem_cons, cut] at h ih
    split at h
    · rcases h with rfl | h
      · exact List.not_mem_nil
      · exact ih (List.mem_cons.mp h)
    · next other =>
      rcases h with rfl | h
      · exact fun hm => (List.mem_cons.mp hm).elim (fun he => other he.symm) (ih (.inl rfl))
      · exact ih (.inr h)

/-- What is joined with line feeds is split at them. -/
theorem split_intercalate {xs : List (List Char)} (hne : xs ≠ []) (h : ∀ x ∈ xs, '\n' ∉ x) :
    split (['\n'].intercalate xs) = xs := by
  induction xs with
  | nil => exact absurd rfl hne
  | cons x xs ih =>
    rw [List.forall_mem_cons] at h
    cases xs with
    | nil => simpa [split, List.intercalate] using splitAt_of_not_mem h.1
    | cons y xs =>
      have joined : ['\n'].intercalate (x :: y :: xs)
          = x ++ '\n' :: ['\n'].intercalate (y :: xs) := by
        simp [List.intercalate]
      rw [joined, split, splitAt_append, splitAt_of_not_mem h.1, List.singleton_append]
      exact congrArg (x :: ·) (ih (List.cons_ne_nil _ _) h.2)

theorem linesOfPieces_concat (pieces : List (List Char)) (last : List Char) :
    linesOfPieces (pieces ++ [last])
      = pieces.map dropReturn ++ if last.isEmpty then [] else [last] := by
  induction pieces with
  | nil => rfl
  | cons piece pieces ih =>
    rw [List.cons_append, List.map_cons, List.cons_append, ← ih]
    cases pieces <;> rfl

theorem dropReturn_of_ne {cs : List Char} (h : cs.getLast? ≠ some '\r') : dropReturn cs = cs :=
  if_neg h

/-- The last piece ends as the text does. -/
theorem splitAt_concat {separator c : Char} (h : c ≠ separator) (cs : List Char) :
    ∃ pieces last, splitAt separator (cs ++ [c]) = pieces ++ [last ++ [c]] := by
  induction cs with
  | nil => exact ⟨[], [], by simp [splitAt, cut, h]⟩
  | cons d cs ih =>
    obtain ⟨pieces, last, hp⟩ := ih
    rw [splitAt] at hp
    by_cases hd : d = separator
    · exact ⟨[] :: pieces, last, by simp [splitAt, cut, hd, hp]⟩
    · cases pieces with
      | nil =>
        obtain ⟨first, others⟩ := List.cons.inj hp
        exact ⟨[], d :: last, by simp [splitAt, cut, hd, first, others]⟩
      | cons piece pieces =>
        obtain ⟨first, others⟩ := List.cons.inj hp
        exact ⟨(d :: piece) :: pieces, last, by simp [splitAt, cut, hd, first, others]⟩

/-- A line feed at the end of a text adds no line, and takes nothing from the last one unless a
carriage return stands there. -/
theorem lines_concat {c : Char} (hn : c ≠ '\n') (hr : c ≠ '\r') (cs : List Char) :
    lines (cs ++ [c] ++ ['\n']) = lines (cs ++ [c]) := by
  obtain ⟨pieces, last, pieces_eq⟩ := splitAt_concat hn cs
  have whole : dropReturn (last ++ [c]) = last ++ [c] :=
    dropReturn_of_ne (by simpa using hr)
  have broken : split (cs ++ [c] ++ ['\n']) = pieces ++ [last ++ [c]] ++ [[]] := by
    rw [split, splitAt_append, pieces_eq]
    rfl
  rw [lines, lines, broken, linesOfPieces_concat, split, pieces_eq, linesOfPieces_concat]
  simp [whole]

/-- Joined lines are read back if none has a line break in it and the last one is not empty. -/
theorem lines_intercalate {xs : List (List Char)} (h : ∀ x ∈ xs, '\n' ∉ x)
    (hr : ∀ x ∈ xs, x.getLast? ≠ some '\r') (hl : xs.getLast? ≠ some []) :
    lines (['\n'].intercalate xs) = xs := by
  rcases List.eq_nil_or_concat xs with rfl | ⟨pieces, last, rfl⟩
  · rfl
  · rw [List.concat_eq_append] at h hr hl ⊢
    have kept : pieces.map dropReturn = pieces :=
      (List.map_congr_left fun x hx => dropReturn_of_ne (hr x (List.mem_append_left _ hx))).trans
        (List.map_id pieces)
    have some_ : last.isEmpty = false := by simpa using hl
    rw [lines, split_intercalate (by simp) h, linesOfPieces_concat, kept, some_]
    rfl

/-- Lines with a line feed after each are read back. -/
theorem lines_flatMap {xs : List (List Char)} (h : ∀ x ∈ xs, '\n' ∉ x)
    (hr : ∀ x ∈ xs, x.getLast? ≠ some '\r') : lines (xs.flatMap (· ++ ['\n'])) = xs := by
  have pieces : split (xs.flatMap (· ++ ['\n'])) = xs ++ [[]] := by
    induction xs with
    | nil => rfl
    | cons x xs ih =>
      rw [List.forall_mem_cons] at h hr
      have rest := ih h.2 hr.2
      rw [split] at rest ⊢
      rw [List.flatMap_cons, List.append_assoc, List.singleton_append, splitAt_append,
        splitAt_of_not_mem h.1, rest]
      rfl
  have kept : xs.map dropReturn = xs :=
    (List.map_congr_left fun x hx => dropReturn_of_ne (hr x hx)).trans (List.map_id xs)
  rw [lines, pieces, linesOfPieces_concat, kept]
  simp

end ScriptCompiler.Text
