import ScriptCompiler.Proofs.C.Templates

/-!
# Indented lines

Layout looks at the two ends of a line: a closing brace at its start, an opening brace at its end,
and blanks at both, which it drops. A tidy line has printable characters only and no blanks at its
ends, so that it survives as it is. Lines are nested when no brace is closed that was not opened;
nested lines are indented by the number of the braces that are open.
-/

namespace ScriptCompiler.C

/-! ## Tidy lines -/

/-- A character of printable ASCII. -/
def isPrintable (c : Char) : Bool :=
  0x20 ≤ c.toNat && c.toNat ≤ 0x7e

/-- The line is there, in printable ASCII, with no blanks at its ends. -/
def isTidy (line : List Char) : Bool :=
  line.all isPrintable && line.head?.any (· ≠ ' ') && line.getLast?.any (· ≠ ' ')

/-- The space is the only blank that is printable. -/
theorem isBlank_eq_false {c : Char} (hp : isPrintable c = true) (hs : c ≠ ' ') :
    Text.isBlank c = false := by
  simp only [isPrintable, Bool.and_eq_true, decide_eq_true_eq] at hp
  have code : c.toNat ≠ 0x20 := fun h => hs (Char.toNat_inj.mp h)
  rw [Bool.eq_false_iff]
  intro blank
  rw [Text.isBlank, Text.inRanges_iff] at blank
  simp only [Text.blankRanges, List.mem_cons, List.not_mem_nil, or_false] at blank
  grind

theorem not_mem_of_not_printable {c : Char} {line : List Char} (h : line.all isPrintable = true)
    (hc : isPrintable c = false) : c ∉ line :=
  fun hm => absurd (List.all_eq_true.mp h c hm) (by rw [hc]; decide)

section Tidy

variable {line : List Char} (h : isTidy line = true)

include h

theorem printable_of_isTidy : line.all isPrintable = true := by
  simp only [isTidy, Bool.and_eq_true] at h
  exact h.1.1

theorem head_of_isTidy : ∃ c rest, line = c :: rest ∧ Text.isBlank c = false := by
  cases line with
  | nil => cases h
  | cons c rest =>
    have printable := printable_of_isTidy h
    simp only [isTidy, Bool.and_eq_true, List.head?_cons, Option.any_some,
      decide_eq_true_eq] at h
    rw [List.all_cons, Bool.and_eq_true] at printable
    exact ⟨c, rest, rfl, isBlank_eq_false printable.1 h.1.2⟩

theorem last_of_isTidy : ∃ before c, line = before ++ [c] ∧ Text.isBlank c = false := by
  rcases List.eq_nil_or_concat line with rfl | ⟨before, c, rfl⟩
  · cases h
  · have printable := printable_of_isTidy h
    simp only [isTidy, Bool.and_eq_true, List.concat_eq_append, List.getLast?_concat,
      Option.any_some, decide_eq_true_eq] at h
    rw [List.all_eq_true] at printable
    exact ⟨before, c, by simp, isBlank_eq_false (printable c (by simp)) h.2⟩

/-- The indentation of a tidy line can be taken away. -/
theorem trimStart_of_isTidy (spaces : Nat) :
    Text.trimStart (List.replicate spaces ' ' ++ line) = line := by
  obtain ⟨c, rest, start, hc⟩ := head_of_isTidy h
  rw [Text.trimStart, List.dropWhile_append_of_pos]
  · rw [start, List.dropWhile_cons, hc]
    rfl
  · intro x hx
    rw [List.eq_of_mem_replicate hx]
    decide

/-- A tidy line is left as it is. -/
theorem trim_of_isTidy : Text.trim line = line := by
  obtain ⟨before, d, finish, hd⟩ := last_of_isTidy h
  have start : Text.trimStart line = line := trimStart_of_isTidy h 0
  rw [Text.trim, start, Text.trimEnd, finish, List.reverse_append, List.reverse_singleton,
    List.singleton_append, List.dropWhile_cons, hd]
  simp

end Tidy

/-! ## Depth of braces -/

/-- How many braces the line closes at its start. -/
def closes (line : List Char) : Nat :=
  if line.head? = some '\x7d' then 1 else 0

/-- How many braces the line opens at its end. -/
def opens (line : List Char) : Nat :=
  if line.getLast? = some '\x7b' then 1 else 0

/-- The lines take one depth to another, and none closes a brace outside all. -/
def Nested : Nat → List (List Char) → Nat → Prop
  | depth, [], depth' => depth = depth'
  | depth, line :: lines, depth' =>
    closes line ≤ depth ∧ Nested (depth - closes line + opens line) lines depth'

/-- The lines, each moved to the right by four spaces for each brace that is open around it. -/
def indented : Nat → List (List Char) → List (List Char)
  | _, [] => []
  | depth, line :: lines =>
    (List.replicate (4 * (depth - closes line)) ' ' ++ line)
      :: indented (depth - closes line + opens line) lines

theorem Nested.append {d₁ d₂ d₃ : Nat} {a b : List (List Char)} (ha : Nested d₁ a d₂)
    (hb : Nested d₂ b d₃) : Nested d₁ (a ++ b) d₃ := by
  induction a generalizing d₁ with
  | nil => exact (show d₁ = d₂ from ha) ▸ hb
  | cons line a ih => exact ⟨ha.1, ih ha.2⟩

/-- A line that neither closes nor opens a brace. -/
theorem Nested.level {line : List Char} (hc : closes line = 0) (ho : opens line = 0)
    (depth : Nat) : Nested depth [line] depth := by
  refine ⟨hc ▸ Nat.zero_le _, ?_⟩
  rw [hc, ho]
  rfl

/-- A line that opens a brace. -/
theorem Nested.opening {line : List Char} (hc : closes line = 0) (ho : opens line = 1)
    (depth : Nat) : Nested depth [line] (depth + 1) := by
  refine ⟨hc ▸ Nat.zero_le _, ?_⟩
  rw [hc, ho]
  rfl

/-- A line that closes a brace. -/
theorem Nested.ending {line : List Char} (hc : closes line = 1) (ho : opens line = 0)
    (depth : Nat) : Nested (depth + 1) [line] depth := by
  refine ⟨hc ▸ Nat.le_add_left _ _, ?_⟩
  rw [hc, ho]
  rfl

/-- A line that closes a brace and opens another one. -/
theorem Nested.between {line : List Char} (hc : closes line = 1) (ho : opens line = 1)
    (depth : Nat) : Nested (depth + 1) [line] (depth + 1) := by
  refine ⟨hc ▸ Nat.le_add_left _ _, ?_⟩
  rw [hc, ho]
  rfl

/-! ## Laying out -/

theorem flatten_replicate_indentation (depth : Nat) :
    (List.replicate depth indentation).flatten = List.replicate (4 * depth) ' ' := by
  induction depth with
  | zero => rfl
  | succ depth ih =>
    rw [List.replicate_succ, List.flatten_cons, ih, Nat.mul_succ, Nat.add_comm,
      ← List.replicate_append_replicate]
    rfl

/-- Nothing but blanks stands in the line. -/
def isBlankLine (line : List Char) : Bool :=
  line.all Text.isBlank

/-- The lines of a text that are not blank. -/
def writtenLines (text : String) : List (List Char) :=
  (Text.lines text.toList).filter (!isBlankLine ·)

/-- The text has the lines, in this order, and blank lines between them: each is there as it is,
after four spaces for each brace that is open around it, and the lines close the braces that they
open. -/
structure LaidOut (text : String) (lines : List String) : Prop where
  verbatim : (writtenLines text).map Text.trimStart = lines.map String.toList
  indentation : writtenLines text = indented 0 (lines.map String.toList)
  balanced : Nested 0 (lines.map String.toList) 0

theorem not_isBlankLine {line : List Char} (h : isTidy line = true) (before : List Char) :
    isBlankLine (before ++ line) = false := by
  obtain ⟨c, rest, rfl, hc⟩ := head_of_isTidy h
  simp [isBlankLine, hc]

/-- What layout makes of blank and tidy lines: the tidy ones, each at its depth, with blank lines
between them. -/
theorem filter_indentFrom {lines : List (List Char)}
    (h : ∀ line ∈ lines, line = [] ∨ isTidy line = true) (depth : Nat) (blank : Bool) :
    (indentFrom depth blank lines).filter (!isBlankLine ·)
      = indented depth (lines.filter (· ≠ [])) := by
  induction lines generalizing depth blank with
  | nil => rfl
  | cons line lines ih =>
    rw [List.forall_mem_cons] at h
    rcases h.1 with rfl | tidy
    · rw [indentFrom]
      have nothing : (Text.trim []).isEmpty = true := rfl
      rw [if_pos nothing, List.filter_cons_of_neg (a := []) (by simp), ← ih h.2 depth true]
      split
      · exact List.filter_cons_of_neg (by simp [isBlankLine])
      · rfl
    · have kept : Text.trim line = line := trim_of_isTidy tidy
      obtain ⟨c, rest, rfl, -⟩ := head_of_isTidy tidy
      have here : (if (c :: rest).head? = some '\x7d' then depth - 1 else depth)
          = depth - closes (c :: rest) := by
        unfold closes
        split <;> rfl
      have inside (d : Nat) : (if (c :: rest).getLast? = some '\x7b' then d + 1 else d)
          = d + opens (c :: rest) := by
        unfold opens
        split <;> rfl
      rw [indentFrom]
      simp only [kept, List.isEmpty_cons, Bool.false_eq_true, if_false, here, inside]
      rw [List.filter_cons_of_pos (by simp [not_isBlankLine tidy]), ih h.2,
        List.filter_cons_of_pos (by simp), indented, flatten_replicate_indentation]

/-- Without their indentation, indented tidy lines are what they were. -/
theorem map_trimStart_indented {lines : List (List Char)} (h : ∀ line ∈ lines, isTidy line = true)
    (depth : Nat) : (indented depth lines).map Text.trimStart = lines := by
  induction lines generalizing depth with
  | nil => rfl
  | cons line lines ih =>
    rw [List.forall_mem_cons] at h
    rw [indented, List.map_cons, trimStart_of_isTidy h.1, ih h.2]

/-- What layout makes of blank and tidy lines is printable. -/
theorem printable_indentFrom {lines : List (List Char)}
    (h : ∀ line ∈ lines, line = [] ∨ isTidy line = true) (depth : Nat) (blank : Bool) :
    ∀ line ∈ indentFrom depth blank lines, line.all isPrintable = true := by
  have none_ : ([] : List Char).all isPrintable = true := rfl
  induction lines generalizing depth blank with
  | nil => nofun
  | cons line lines ih =>
    rw [List.forall_mem_cons] at h
    rcases h.1 with rfl | tidy
    · rw [indentFrom]
      have nothing : (Text.trim []).isEmpty = true := rfl
      rw [if_pos nothing]
      split
      · exact List.forall_mem_cons.mpr ⟨none_, ih h.2 _ _⟩
      · exact ih h.2 _ _
    · have kept : Text.trim line = line := trim_of_isTidy tidy
      have spaces (n : Nat) : (List.replicate n ' ').all isPrintable = true := by
        rw [List.all_replicate]
        split <;> decide
      obtain ⟨c, rest, rfl, -⟩ := head_of_isTidy tidy
      rw [indentFrom]
      simp only [kept, List.isEmpty_cons, Bool.false_eq_true, if_false]
      refine List.forall_mem_cons.mpr ⟨?_, ih h.2 _ _⟩
      rw [flatten_replicate_indentation, List.all_append, spaces, printable_of_isTidy tidy]
      rfl

theorem not_mem_of_printable {line : List Char} (h : line.all isPrintable = true) :
    '\n' ∉ line ∧ line.getLast? ≠ some '\r' :=
  ⟨not_mem_of_not_printable h (by decide),
    fun hl => not_mem_of_not_printable h (by decide) (List.mem_of_getLast? hl)⟩

section Layout

variable {lines : List String} (h : ∀ line ∈ lines, line = "" ∨ isTidy line.toList = true)

include h

theorem blank_or_tidy : ∀ line ∈ lines.map String.toList, line = [] ∨ isTidy line = true := by
  rw [List.forall_mem_map]
  exact fun line hm => (h line hm).imp_left fun he => by rw [he]; rfl

/-- The text of blank and tidy lines is laid out line by line. -/
theorem lines_indent (hl : lines.getLast? ≠ some "") :
    Text.lines (indent ("\n".intercalate lines)).toList
      = indentFrom 0 true (lines.map String.toList) := by
  have inner := blank_or_tidy h
  have printable : ∀ line ∈ lines.map String.toList, line.all isPrintable = true := by
    intro line hm
    rcases inner line hm with rfl | tidy
    · rfl
    · exact printable_of_isTidy tidy
  have last : (lines.map String.toList).getLast? ≠ some [] := by
    rw [List.getLast?_map]
    intro he
    obtain ⟨line, hm, hn⟩ := Option.map_eq_some_iff.mp he
    exact hl (hm.trans (congrArg some (String.toList_eq_nil_iff.mp hn)))
  have read : Text.lines (joined lines) = lines.map String.toList :=
    Text.lines_intercalate (fun line hm => (not_mem_of_printable (printable line hm)).1)
      (fun line hm => (not_mem_of_printable (printable line hm)).2) last
  have written := printable_indentFrom inner 0 true
  rw [indent, String.toList_ofList, toList_intercalate, read]
  exact Text.lines_flatMap (fun line hm => (not_mem_of_printable (written line hm)).1)
    (fun line hm => (not_mem_of_printable (written line hm)).2)

/-- **Laid out lines.** Blank and tidy lines are laid out as the tidy ones, if these are nested. -/
theorem laidOut_indent (hl : lines.getLast? ≠ some "")
    (hn : Nested 0 ((lines.filter (· ≠ "")).map String.toList) 0) :
    LaidOut (indent ("\n".intercalate lines)) (lines.filter (· ≠ "")) := by
  have parts : (lines.map String.toList).filter (· ≠ [])
      = (lines.filter (· ≠ "")).map String.toList := by
    rw [List.filter_map]
    refine congrArg (List.map String.toList) (List.filter_congr fun line _ => ?_)
    simp
  have indentation : writtenLines (indent ("\n".intercalate lines))
      = indented 0 ((lines.filter (· ≠ "")).map String.toList) := by
    rw [writtenLines, lines_indent h hl, filter_indentFrom (blank_or_tidy h), parts]
  refine ⟨?_, indentation, hn⟩
  rw [indentation]
  refine map_trimStart_indented ?_ 0
  rw [List.forall_mem_map]
  intro line hm
  rw [List.mem_filter, decide_eq_true_eq] at hm
  exact (h line hm.1).resolve_left hm.2

end Layout

end ScriptCompiler.C
