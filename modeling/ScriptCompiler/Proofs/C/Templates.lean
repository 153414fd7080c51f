import Mathlib.Data.List.Basic
import ScriptCompiler.C.Layout
import ScriptCompiler.Proofs.Text.Lines

/-!
# Filled templates

A place starts with a character that no line of a template has before it, so each place is found
where it stands, whatever is put into the places before it. So a file is the text of its lines.
-/

namespace ScriptCompiler.C

/-- Lines that stand together; a blank line stands for none. -/
def paragraph (lines : List String) : List String :=
  if lines.isEmpty then [""] else lines

/-- The lines of a whole file. The statements of the entry function come in two paragraphs: those
before the last one, and the last one, which returns. -/
def fileLines (kind : FileKind) (functions : List FunctionText) (statements last : List String) :
    List String :=
  [includeLine, ""] ++ functionLines functions ++ [""] ++ kind.opening ++ paragraph statements
    ++ paragraph last ++ kind.closing

/-! ## Places -/

/-- A place is found after a text without the character that the place starts with. -/
theorem around?_append {c : Char} {place before : List Char} (h : c ∉ before) (after : List Char) :
    around? (c :: place) (before ++ (c :: place) ++ after) = some (before, after) := by
  induction before with
  | nil =>
    have found : (c :: place).isPrefixOf ((c :: place) ++ after) = true :=
      List.isPrefixOf_iff_prefix.mpr (List.prefix_append _ _)
    rw [List.nil_append, List.cons_append, around?, ← List.cons_append, if_pos found,
      List.drop_left]
  | cons d before ih =>
    have other : ¬ (c :: place).isPrefixOf (d :: (before ++ (c :: place) ++ after)) = true := by
      rw [List.isPrefixOf_iff_prefix, List.cons_prefix_cons]
      exact fun hp => h (hp.1 ▸ List.mem_cons_self)
    rw [List.cons_append, List.cons_append, around?, if_neg other,
      ih fun hm => h (List.mem_cons_of_mem _ hm)]
    rfl

/-- A place is filled where it stands. -/
theorem fill_append {c : Char} {place before : List Char} {name text : String}
    (hn : name.toList = c :: place) (h : c ∉ before) (after : List Char)
    (others : List (String × String)) :
    fill (before ++ name.toList ++ after) ((name, text) :: others)
      = before ++ text.toList ++ fill after others := by
  rw [fill, hn, around?_append h]

/-! ## Joined lines -/

/-- Lines with a line feed between each two. -/
def joined (lines : List String) : List Char :=
  ['\n'].intercalate (lines.map String.toList)

theorem toList_intercalate (lines : List String) :
    ("\n".intercalate lines).toList = joined lines :=
  String.toList_intercalate

theorem joined_append {a b : List String} (ha : a ≠ []) (hb : b ≠ []) :
    joined (a ++ b) = joined a ++ '\n' :: joined b := by
  induction a with
  | nil => exact absurd rfl ha
  | cons x a ih =>
    cases a with
    | nil =>
      obtain ⟨y, b, rfl⟩ := List.exists_cons_of_ne_nil hb
      simp [joined, List.intercalate]
    | cons y a =>
      have rest := ih (List.cons_ne_nil _ _)
      simp only [joined, List.intercalate, List.map_append, List.cons_append, List.map_cons,
        List.intersperse_cons_cons, List.flatten_cons, List.append_assoc] at rest ⊢
      rw [rest]

theorem joined_singleton (line : String) : joined [line] = line.toList := by
  simp [joined, List.intercalate]

theorem joined_paragraph (lines : List String) : joined (paragraph lines) = joined lines := by
  unfold paragraph
  split
  · next h =>
    rw [List.isEmpty_iff.mp h]
    rfl
  · rfl

theorem paragraph_ne_nil (lines : List String) : paragraph lines ≠ [] := by
  unfold paragraph
  split
  · exact List.cons_ne_nil _ _
  · next h => exact fun hn => h (List.isEmpty_iff.mpr hn)

theorem opening_ne_nil (kind : FileKind) : kind.opening ≠ [] := by
  cases kind <;> exact List.cons_ne_nil _ _

/-- A file ends with the line of a closing brace. -/
theorem closing_eq (kind : FileKind) : ∃ before, kind.closing = before ++ ["\x7d"] :=
  ⟨kind.closing.dropLast, by cases kind <;> rfl⟩

/-! ## Files -/

theorem toList_template (kind : FileKind) :
    kind.template.toList
      = joined [includeLine, ""] ++ ['\n'] ++ functionsPlace.toList
        ++ ('\n' :: joined kind.opening ++ ['\n'] ++ statementsPlace.toList
          ++ (['\n'] ++ lastPlace.toList ++ '\n' :: joined (kind.closing ++ [""]))) := by
  have parts : [includeLine, "", functionsPlace] ++ kind.opening ++ [statementsPlace, lastPlace]
        ++ kind.closing ++ [""]
      = [includeLine, ""] ++ ([functionsPlace] ++ (kind.opening ++ ([statementsPlace]
        ++ ([lastPlace] ++ (kind.closing ++ [""]))))) := by
    simp
  rw [FileKind.template, toList_intercalate, parts, joined_append (by simp) (by simp),
    joined_append (by simp) (by simp), joined_append (opening_ne_nil kind) (by simp),
    joined_append (by simp) (by simp), joined_append (by simp) (by simp)]
  simp [joined_singleton]

theorem joined_fileLines (kind : FileKind) (functions : List FunctionText)
    (statements last : List String) :
    joined (fileLines kind functions statements last ++ [""])
      = joined [includeLine, ""] ++ '\n' :: joined (functionLines functions ++ [""])
        ++ '\n' :: joined kind.opening ++ '\n' :: joined statements ++ '\n' :: joined last
        ++ '\n' :: joined (kind.closing ++ [""]) := by
  have parts : fileLines kind functions statements last ++ [""]
      = [includeLine, ""] ++ ((functionLines functions ++ [""]) ++ (kind.opening
        ++ (paragraph statements ++ (paragraph last ++ (kind.closing ++ [""]))))) := by
    simp [fileLines]
  rw [parts, joined_append (by simp) (by simp), joined_append (by simp) (by simp),
    joined_append (opening_ne_nil kind) (by simp),
    joined_append (paragraph_ne_nil _) (by simp), joined_append (paragraph_ne_nil _) (by simp),
    joined_paragraph, joined_paragraph]
  simp

/-- The blank line after the functions is there if there are functions; else the place of the
functions leaves a blank line. -/
theorem joined_before (functions : List FunctionText) :
    joined (functionLines functions ++ if functions.isEmpty then [] else [""])
      = joined (functionLines functions ++ [""]) := by
  cases functions <;> rfl

/-- What the places of a template are filled with, as lines. -/
theorem fill_template {kind : FileKind} (h : '/' ∉ joined kind.opening)
    (functions : List FunctionText) (statements last : List String) :
    fill kind.template.toList
      [(functionsPlace,
          "\n".intercalate (functionLines functions ++ if functions.isEmpty then [] else [""])),
        (statementsPlace, "\n".intercalate statements), (lastPlace, "\n".intercalate last)]
      = joined (fileLines kind functions statements last ++ [""]) := by
  have first : '/' ∉ joined [includeLine, ""] ++ ['\n'] := by decide
  have second : '/' ∉ '\n' :: joined kind.opening ++ ['\n'] := by simpa using h
  have third : '/' ∉ ['\n'] := by decide
  rw [toList_template, fill_append rfl first, fill_append rfl second, fill_append rfl third, fill,
    joined_fileLines, toList_intercalate, toList_intercalate, toList_intercalate, joined_before]
  simp

/-- **A file is the text of its lines**, indented: each place of its template is found, whatever the
functions and statements say. -/
theorem file_eq {kind : FileKind} (h : '/' ∉ joined kind.opening) (functions : List FunctionText)
    (statements last : List String) :
    file kind functions statements last
      = indent ("\n".intercalate (fileLines kind functions statements last)) := by
  obtain ⟨text, ht⟩ : ∃ text,
      joined (fileLines kind functions statements last) = text ++ ['\x7d'] := by
    obtain ⟨before, hb⟩ := closing_eq kind
    rw [fileLines, hb, ← List.append_assoc, joined_append (by simp) (by simp), joined_singleton]
    exact ⟨_, (List.append_assoc _ ['\n'] ['\x7d']).symm⟩
  have broken : joined (fileLines kind functions statements last ++ [""])
      = text ++ ['\x7d'] ++ ['\n'] := by
    rw [joined_append (by simp [fileLines]) (by simp), ht, joined_singleton]
    rfl
  have whole : ("\n".intercalate (fileLines kind functions statements last)).toList
      = text ++ ['\x7d'] :=
    (toList_intercalate _).trans ht
  rw [file, fill_template h, broken, indent, indent, String.toList_ofList, whole,
    Text.lines_concat (by decide) (by decide)]

end ScriptCompiler.C
