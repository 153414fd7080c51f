import Mathlib.Data.List.DropRight
import ScriptCompiler.Proofs.C.Indentation

/-!
# Indenting once more

An indented line is its text behind some blanks, and its text has no blanks at its ends. So layout
finds in an indented text what it found in the first one: the same written lines at the same depths.
Of the blank lines it kept those outside all braces that come after a written line, and these it
keeps again.
-/

namespace ScriptCompiler.Text

/-! ## Texts without blanks at their ends -/

/-- No blank stands at the start of the text or at its end. -/
structure Trimmed (cs : List Char) : Prop where
  first : ∀ c ∈ cs.head?, isBlank c = false
  last : ∀ c ∈ cs.getLast?, isBlank c = false

theorem trimStart_of_first {cs : List Char} (h : ∀ c ∈ cs.head?, isBlank c = false) :
    trimStart cs = cs := by
  cases cs with
  | nil => rfl
  | cons c cs => exact List.dropWhile_cons_of_neg (by simp [h c rfl])

theorem trimEnd_of_last {cs : List Char} (h : ∀ c ∈ cs.getLast?, isBlank c = false) :
    trimEnd cs = cs := by
  refine List.rdropWhile_eq_self_iff.mpr fun some_ => ?_
  rw [h _ (List.getLast?_eq_some_getLast some_)]
  exact Bool.false_ne_true

/-- What is left of a text is trimmed. -/
theorem trimmed_trim (cs : List Char) : Trimmed (trim cs) := by
  constructor
  · intro c hc
    -- the text starts as it did before the blanks at its end were taken away
    obtain ⟨more, start⟩ : trim cs <+: trimStart cs := List.rdropWhile_prefix isBlank _
    have first : (trimStart cs).head? = some c := by
      rw [← start, List.head?_append, hc]
      rfl
    have stops := List.head?_dropWhile_not isBlank cs
    rw [trimStart] at first
    rw [first] at stops
    simpa using stops
  · intro c hc
    have some_ : trim cs ≠ [] := by
      rintro h
      rw [h] at hc
      cases hc
    have last : (trim cs).getLast some_ = c :=
      Option.some.inj ((List.getLast?_eq_some_getLast some_).symm.trans hc)
    rw [← last]
    exact eq_false_of_ne_true (List.rdropWhile_last_not isBlank (trimStart cs) some_)

/-- Blanks before a trimmed text are taken away. -/
theorem trim_append {before cs : List Char} (blanks : ∀ c ∈ before, isBlank c = true)
    (h : Trimmed cs) : trim (before ++ cs) = cs := by
  rw [trim, trimStart, List.dropWhile_append_of_pos blanks]
  exact (congrArg trimEnd (trimStart_of_first h.first)).trans (trimEnd_of_last h.last)

/-- Nothing is left of a text of blanks, and of no other one. -/
theorem trim_eq_nil_iff {cs : List Char} : trim cs = [] ↔ cs.all isBlank = true := by
  have ends : trim cs = [] ↔ ∀ c ∈ trimStart cs, isBlank c = true := List.rdropWhile_eq_nil_iff
  rw [ends, List.all_eq_true]
  constructor
  · intro rest c hc
    rw [← List.takeWhile_append_dropWhile (p := isBlank) (l := cs), List.mem_append] at hc
    exact hc.elim List.mem_takeWhile_imp (rest c)
  · exact fun h c hc => h c ((List.dropWhile_sublist _).subset hc)

/-! ## Lines of a text -/

theorem mem_of_mem_dropReturn {c : Char} {cs : List Char} (h : c ∈ dropReturn cs) : c ∈ cs := by
  unfold dropReturn at h
  split at h
  · exact (List.dropLast_sublist _).subset h
  · exact h

/-- A line has no line feed in it. -/
theorem not_mem_of_mem_lines {line cs : List Char} (h : line ∈ lines cs) : '\n' ∉ line := by
  rw [lines] at h
  rcases List.eq_nil_or_concat (split cs) with none | ⟨pieces, last, whole⟩
  · rw [none] at h
    cases h
  · have pieces_ : ∀ piece ∈ pieces ++ [last], '\n' ∉ piece := by
      intro piece hp
      rw [← List.concat_eq_append, ← whole] at hp
      exact not_mem_of_mem_splitAt hp
    rw [whole, List.concat_eq_append, linesOfPieces_concat, List.mem_append, List.mem_map] at h
    rcases h with ⟨piece, hp, rfl⟩ | hl
    · exact fun hm => pieces_ piece (by simp [hp]) (mem_of_mem_dropReturn hm)
    · split at hl
      · cases hl
      · rw [List.mem_singleton.mp hl]
        exact pieces_ last (by simp)

end ScriptCompiler.Text

namespace ScriptCompiler.C

/-! ## One line -/

section Line

variable {line : List Char}

/-- A blank line goes, unless it is the first of its kind outside all braces. -/
theorem indentFrom_blank (h : isBlankLine line = true) (depth : Nat) (blank : Bool)
    (rest : List (List Char)) :
    indentFrom depth blank (line :: rest)
      = (if blank = false ∧ depth = 0 then [[]] else []) ++ indentFrom depth true rest := by
  have nothing : (Text.trim line).isEmpty = true :=
    List.isEmpty_iff.mpr (Text.trim_eq_nil_iff.mpr h)
  rw [indentFrom, if_pos nothing]
  split <;> rfl

/-- A written line stays, as its text at its depth. -/
theorem indentFrom_written (h : isBlankLine line = false) (depth : Nat) (blank : Bool)
    (rest : List (List Char)) :
    indentFrom depth blank (line :: rest)
      = (List.replicate (4 * (depth - closes (Text.trim line))) ' ' ++ Text.trim line)
        :: indentFrom (depth - closes (Text.trim line) + opens (Text.trim line)) false rest := by
  have some_ : (Text.trim line).isEmpty = false :=
    eq_false_of_ne_true fun he => Bool.false_ne_true
      (h.symm.trans (Text.trim_eq_nil_iff.mp (List.isEmpty_iff.mp he)))
  have here : (if (Text.trim line).head? = some '\x7d' then depth - 1 else depth)
      = depth - closes (Text.trim line) := by
    unfold closes
    split <;> rfl
  have inside (d : Nat) : (if (Text.trim line).getLast? = some '\x7b' then d + 1 else d)
      = d + opens (Text.trim line) := by
    unfold opens
    split <;> rfl
  rw [indentFrom]
  simp only [some_, Bool.false_eq_true, if_false, here, inside, flatten_replicate_indentation]

theorem isBlank_of_mem_replicate {n : Nat} : ∀ c ∈ List.replicate n ' ', Text.isBlank c = true := by
  intro c hc
  rw [List.eq_of_mem_replicate hc]
  decide

/-- The text of an indented line is what it was. -/
theorem trim_indented (n : Nat) (line : List Char) :
    Text.trim (List.replicate n ' ' ++ Text.trim line) = Text.trim line :=
  Text.trim_append isBlank_of_mem_replicate (Text.trimmed_trim line)

/-- A line that is indented is written if it was written. -/
theorem isBlankLine_indented (n : Nat) (line : List Char) :
    isBlankLine (List.replicate n ' ' ++ Text.trim line) = isBlankLine line := by
  rw [Bool.eq_iff_iff]
  show List.all _ _ = true ↔ List.all _ _ = true
  rw [← Text.trim_eq_nil_iff, ← Text.trim_eq_nil_iff, trim_indented]

end Line

/-! ## All lines -/

/-- Layout of what was laid out, by induction on the lines. The second pass goes through the same
depths. It may have seen fewer blank lines, as the first one has dropped some inside braces, but not
more. -/
theorem indentFrom_indentFrom (lines : List (List Char)) (depth : Nat) {blank blank' : Bool}
    (fewer : blank = false → blank' = false) :
    indentFrom depth blank' (indentFrom depth blank lines) = indentFrom depth blank lines := by
  induction lines generalizing depth blank blank' with
  | nil => rfl
  | cons line lines ih =>
    cases h : isBlankLine line with
    | true =>
      rw [indentFrom_blank h]
      by_cases kept : blank = false ∧ depth = 0
      · have again : blank' = false ∧ depth = 0 := ⟨fewer kept.1, kept.2⟩
        rw [if_pos kept, List.singleton_append, indentFrom_blank rfl, if_pos again, ih depth id]
        rfl
      · rw [if_neg kept, List.nil_append]
        exact ih depth Bool.noConfusion
    | false =>
      have written : isBlankLine (List.replicate (4 * (depth - closes (Text.trim line))) ' '
          ++ Text.trim line) = false := (isBlankLine_indented _ line).trans h
      rw [indentFrom_written h, indentFrom_written written, trim_indented, ih _ id]

/-- The written lines keep their texts and their order. -/
theorem map_trim_indentFrom (lines : List (List Char)) (depth : Nat) (blank : Bool) :
    ((indentFrom depth blank lines).filter (!isBlankLine ·)).map Text.trim
      = (lines.filter (!isBlankLine ·)).map Text.trim := by
  induction lines generalizing depth blank with
  | nil => rfl
  | cons line lines ih =>
    cases h : isBlankLine line with
    | true =>
      have dropped : (if blank = false ∧ depth = 0 then [[]] else []).filter (!isBlankLine ·)
          = [] := by
        split <;> rfl
      rw [indentFrom_blank h, List.filter_append, dropped, List.nil_append, ih,
        List.filter_cons_of_neg (by simp [h])]
    | false =>
      rw [indentFrom_written h, List.filter_cons_of_pos (by simp [isBlankLine_indented, h]),
        List.filter_cons_of_pos (by simp [h]), List.map_cons, List.map_cons, trim_indented, ih]

/-- An indented line is empty, or it is the text of a line behind some spaces. -/
theorem cases_of_mem_indentFrom {lines : List (List Char)} {depth : Nat} {blank : Bool} :
    ∀ line ∈ indentFrom depth blank lines,
      line = [] ∨ ∃ n, ∃ source ∈ lines, line = List.replicate n ' ' ++ Text.trim source
        ∧ Text.trim source ≠ [] := by
  induction lines generalizing depth blank with
  | nil => exact List.forall_mem_nil _
  | cons source lines ih =>
    intro line hm
    have later {depth : Nat} {blank : Bool} (hm : line ∈ indentFrom depth blank lines) :
        line = [] ∨ ∃ n, ∃ source' ∈ source :: lines,
          line = List.replicate n ' ' ++ Text.trim source' ∧ Text.trim source' ≠ [] :=
      (ih line hm).imp_right fun ⟨n, source', hs, h⟩ => ⟨n, source', List.mem_cons_of_mem _ hs, h⟩
    cases h : isBlankLine source with
    | true =>
      rw [indentFrom_blank h, List.mem_append] at hm
      rcases hm with hm | hm
      · split at hm
        · exact .inl (List.mem_singleton.mp hm)
        · cases hm
      · exact later hm
    | false =>
      rw [indentFrom_written h, List.mem_cons] at hm
      rcases hm with rfl | hm
      · refine .inr ⟨_, source, List.mem_cons_self, rfl, fun none => ?_⟩
        exact Bool.false_ne_true (h.symm.trans (Text.trim_eq_nil_iff.mp none))
      · exact later hm

/-! ## Texts -/

/-- The lines of an indented text are the indented lines of the text. -/
theorem lines_toList_indent (text : String) :
    Text.lines (indent text).toList = indentFrom 0 true (Text.lines text.toList) := by
  rw [indent, String.toList_ofList]
  refine Text.lines_flatMap (fun line hm => ?_) (fun line hm => ?_)
  · rcases cases_of_mem_indentFrom line hm with rfl | ⟨n, source, hs, rfl, -⟩
    · exact List.not_mem_nil
    · have inside : '\n' ∉ Text.trim source := fun h => Text.not_mem_of_mem_lines hs
        ((List.dropWhile_sublist _).subset ((List.rdropWhile_prefix _ _).subset h))
      simp [inside]
  · rcases cases_of_mem_indentFrom line hm with rfl | ⟨n, source, hs, rfl, some_⟩
    · exact Option.not_mem_none _
    · rw [List.getLast?_append_of_ne_nil _ some_]
      intro return_
      exact absurd ((Text.trimmed_trim source).last _ return_) (by decide)

/-- **Indenting once more.** An indented text is left as it is, and the texts of the written lines
are those of the first text, in their order. -/
theorem indent_indent (text : String) :
    indent (indent text) = indent text
      ∧ (writtenLines (indent text)).map Text.trim = (writtenLines text).map Text.trim := by
  constructor
  · rw [indent, lines_toList_indent, indentFrom_indentFrom _ 0 id]
    rfl
  · rw [writtenLines, lines_toList_indent]
    exact map_trim_indentFrom _ 0 true

/-- Braces that are not balanced, a carriage return and a wide blank. -/
example : indent "\x7d\n \u3000f() \x7b\r\n\n\nx;" = "\x7d\nf() \x7b\n    x;\n" := by
  decide

end ScriptCompiler.C
