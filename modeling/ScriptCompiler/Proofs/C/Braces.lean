import ScriptCompiler.Proofs.C.FileLines
import ScriptCompiler.Proofs.C.Printable

/-!
# Balanced lines

Lines are balanced when they are tidy and leave every depth of braces as they find it. Each
statement is written as balanced lines: a line that ends in a semicolon, or balanced lines between
braces. So are the functions of a file and the whole file, and layout shows their depths.
-/

namespace ScriptCompiler.C

/-- Tidy lines that close the braces that they open, and no other ones. -/
structure Balanced (lines : List String) : Prop where
  tidy : ∀ line ∈ lines, isTidy line.toList = true
  nested : ∀ depth, Nested depth (lines.map String.toList) depth

/-! ## Lines that start as an identifier does -/

theorem ne_of_identifierChar {c : Char} (h : identifierChar c = true) :
    c ≠ ' ' ∧ c ≠ '\x7d' := by
  constructor <;>
  · rintro rfl
    cases h

theorem Phrase.isTidy {line : String} (h : Phrase line)
    (hl : line.toList.getLast?.any (· ≠ ' ') = true) : isTidy line.toList = true := by
  obtain ⟨c, hc, hi⟩ := (Option.any_eq_true _ _).mp h.2
  have printable : line.toList.all isPrintable = true := h.1
  rw [C.isTidy, printable, hc, hl, Option.any_some, decide_eq_true (ne_of_identifierChar hi).1]
  rfl

theorem Phrase.closes {line : String} (h : Phrase line) : closes line.toList = 0 := by
  obtain ⟨c, hc, hi⟩ := (Option.any_eq_true _ _).mp h.2
  refine if_neg ?_
  rw [hc]
  exact fun he => (ne_of_identifierChar hi).2 (Option.some.inj he)

theorem getLast?_toList_append (a : String) {b : String} {c : Char}
    (h : b.toList.getLast? = some c) : (a ++ b).toList.getLast? = some c := by
  rw [String.toList_append, List.getLast?_append, h]
  rfl

namespace Balanced

theorem nil : Balanced [] :=
  ⟨nofun, fun _ => rfl⟩

theorem append {a b : List String} (ha : Balanced a) (hb : Balanced b) : Balanced (a ++ b) := by
  refine ⟨List.forall_mem_append.mpr ⟨ha.tidy, hb.tidy⟩, fun depth => ?_⟩
  rw [List.map_append]
  exact (ha.nested depth).append (hb.nested depth)

theorem flatMap {α : Type} {xs : List α} {f : α → List String} (h : ∀ x ∈ xs, Balanced (f x)) :
    Balanced (xs.flatMap f) := by
  induction xs with
  | nil => exact nil
  | cons x xs ih =>
    rw [List.forall_mem_cons] at h
    rw [List.flatMap_cons]
    exact h.1.append (ih h.2)

/-- One line without braces at its ends. -/
theorem line {line : String} (ht : isTidy line.toList = true) (hc : closes line.toList = 0)
    (ho : opens line.toList = 0) : Balanced [line] :=
  ⟨List.forall_mem_singleton.mpr ht, .level hc ho⟩

/-- A phrase, and what ends in a semicolon. -/
theorem statement {t ending : String} (h : Phrase t) (hp : Printable ending)
    (he : ending.toList.getLast? = some ';') : Balanced [t ++ ending] := by
  have phrase : Phrase (t ++ ending) := h.append hp
  have last := getLast?_toList_append t he
  refine line (phrase.isTidy ?_) phrase.closes ?_
  · rw [last]
    decide
  · rw [opens, last]
    decide

section Blocks

variable {t ending : String} (h : Phrase t) (hp : Printable ending)
  (he : ending.toList.getLast? = some '\x7b')

include h hp he

/-- A phrase, and what ends in an opening brace. -/
theorem header : isTidy (t ++ ending).toList = true
    ∧ ∀ depth, Nested depth [(t ++ ending).toList] (depth + 1) := by
  have phrase : Phrase (t ++ ending) := h.append hp
  have last := getLast?_toList_append t he
  constructor
  · refine phrase.isTidy ?_
    rw [last]
    decide
  · refine .opening phrase.closes ?_
    rw [opens, last]
    decide

/-- Lines in braces. -/
theorem block {body : List String} (hb : Balanced body) :
    Balanced ((t ++ ending) :: body ++ ["\x7d"]) := by
  obtain ⟨tidy, opening⟩ := header h hp he
  constructor
  · exact List.forall_mem_append.mpr ⟨List.forall_mem_cons.mpr ⟨tidy, hb.tidy⟩, by decide⟩
  · intro depth
    have ending := Nested.ending (rfl : closes ['\x7d'] = 1) rfl depth
    simpa using (opening depth).append ((hb.nested (depth + 1)).append ending)

/-- Lines in braces, and others for the case that the first ones are not run. -/
theorem alternatives {yes no : List String} (hy : Balanced yes) (hn : Balanced no) :
    Balanced ((t ++ ending) :: yes ++ "\x7d else \x7b" :: no ++ ["\x7d"]) := by
  obtain ⟨tidy, opening⟩ := header h hp he
  constructor
  · refine List.forall_mem_append.mpr ⟨List.forall_mem_append.mpr ⟨?_, ?_⟩, by decide⟩
    · exact List.forall_mem_cons.mpr ⟨tidy, hy.tidy⟩
    · exact List.forall_mem_cons.mpr ⟨by decide, hn.tidy⟩
  · intro depth
    have between := Nested.between (rfl : closes "\x7d else \x7b".toList = 1) rfl depth
    have ending := Nested.ending (rfl : closes ['\x7d'] = 1) rfl depth
    simpa using (opening depth).append ((hy.nested (depth + 1)).append
      (between.append ((hn.nested (depth + 1)).append ending)))

end Blocks

end Balanced

/-! ## Statements -/

/-- The functions that a body refers to have printable names. -/
def WordedCalls (body : List Stmt) : Prop :=
  ∀ ref ∈ callsIn body, Printable ref.1.text

theorem wordedCalls_append {a b : List Stmt} :
    WordedCalls (a ++ b) ↔ WordedCalls a ∧ WordedCalls b := by
  simp only [WordedCalls, callsIn_append, List.forall_mem_append]

/-- The statement has no braces. -/
def Stmt.isSimple : Stmt → Bool
  | .branch _ _ _ | .forever _ => false
  | _ => true

theorem Stmt.mem_allOf (s : Stmt) : s ∈ allOf [s] := by
  refine List.mem_append_left _ ?_
  cases s <;> exact List.mem_cons_self

section Names

variable {s : Stmt} (hw : Worded [s])

include hw

theorem Worded.all_of_binds : ∀ x ∈ s.binds, x.toList.all identifierChar = true :=
  fun _ hx => hw _ (List.mem_append_left _ (List.mem_flatMap_of_mem s.mem_allOf hx))

theorem Worded.all_of_uses : ∀ x ∈ s.uses, x.toList.all identifierChar = true :=
  fun _ hx => hw _ (List.mem_append_right _ (List.mem_flatMap_of_mem s.mem_allOf hx))

/-- A statement without braces is a phrase and a semicolon. -/
theorem Stmt.balanced_of_isSimple (hc : WordedCalls [s]) (hs : s.isSimple = true) :
    Balanced s.lines := by
  have uses : ∀ x ∈ s.uses, Printable x := fun x hx => printable_of_all (hw.all_of_uses x hx)
  have binds : ∀ x ∈ s.binds, Printable x := fun x hx => printable_of_all (hw.all_of_binds x hx)
  have calls : ∀ ref ∈ s.calls, Printable ref.1.text :=
    fun ref hr => hc ref (List.mem_flatMap_of_mem s.mem_allOf hr)
  have literal := printable_stringLiteral
  have number := printable_toString
  have self : Printable "self" := by decide
  cases s with
  | branch condition yes no => cases hs
  | forever body => cases hs
  | declare v value =>
    have start : Phrase ("GnObject *" ++ v.text) :=
      .append (by decide) (binds _ List.mem_cons_self)
    have text := Expr.printable_text uses calls
    exact .statement ((start.append (by decide)).append text) (by decide) rfl
  | assign v value =>
    have word : Word v.text := ⟨v.text_ne_nil, hw.all_of_uses _ List.mem_cons_self⟩
    have text := Expr.printable_text (List.forall_mem_cons.mp uses).2 calls
    exact .statement ((word.phrase.append (by decide)).append text) (by decide) rfl
  | discard value =>
    have text := Expr.printable_text uses calls
    exact .statement (.append (by decide) text) (by decide) rfl
  | unused formal =>
    have text : Printable formal.text := uses _ List.mem_cons_self
    exact .statement (.append (by decide) text) (by decide) rfl
  | push array value =>
    exact .statement (phrase_call (by decide) (by simpa [Stmt.uses] using uses)) (by decide) rfl
  | setLocal name value | declareLocal name value =>
    have text := Expr.printable_text uses calls
    exact .statement (phrase_call (by decide) (by simpa using ⟨literal name, text⟩)) (by decide) rfl
  | setInstance name value =>
    have text : Printable value.text := uses _ (by simp [Stmt.uses])
    exact .statement (phrase_call (by decide) (by simpa using ⟨self, literal name, text⟩))
      (by decide) rfl
  | setGlobal name value =>
    have text : Printable value.text := uses _ List.mem_cons_self
    exact .statement (phrase_call (by decide) (by simpa using ⟨literal name, text⟩)) (by decide) rfl
  | declareArgs array size =>
    have start : Phrase ("GnObject **" ++ array.text) :=
      .append (by decide) (binds _ List.mem_cons_self)
    exact .statement ((start.append (by decide)).append (number size)) (by decide) rfl
  | storeArg array index value =>
    have word : Word array.text := ⟨array.text_ne_nil, hw.all_of_uses _ List.mem_cons_self⟩
    have text : Printable value.text := uses _ (by simp [Stmt.uses])
    have place := (word.phrase.append (by decide : Printable "[")).append (number index)
    exact .statement ((place.append (by decide)).append text) (by decide) rfl
  | declareBlock name function =>
    have start : Phrase ("GnBlock *" ++ name.text) :=
      .append (by decide) (binds _ List.mem_cons_self)
    have code : Printable function.text := calls (function, .method) List.mem_cons_self
    have value : Printable (call "gn_block" ["self", function.text]) :=
      printable_call (by decide) (by simpa using ⟨self, code⟩)
    exact .statement ((start.append (by decide)).append value) (by decide) rfl
  | defineMethod name function =>
    have code : Printable function.text := calls (function, .method) List.mem_cons_self
    exact .statement (phrase_call (by decide) (by simpa using ⟨self, literal name, code⟩))
      (by decide) rfl
  | defineSingleton owner name function =>
    have text := Expr.printable_text uses fun ref hr => calls ref (List.mem_append_left _ hr)
    have code : Printable function.text :=
      calls (function, .method) (List.mem_append_right _ List.mem_cons_self)
    exact .statement (phrase_call (by decide) (by simpa using ⟨text, literal name, code⟩))
      (by decide) rfl
  | assertArgc count => exact .statement (.append (by decide) (number count)) (by decide) rfl
  | enterEnv | enterBlockEnv =>
    exact .statement (.append (by decide) (printable_call (by decide) nofun)) (by decide) rfl
  | setBlock =>
    exact .statement (phrase_call (by decide) (List.forall_mem_singleton.mpr (by decide)))
      (by decide) rfl
  | closeRescue => exact .statement (phrase_call (by decide) nofun) (by decide) rfl
  | breakIf v truthy =>
    have text := printable_truthyText (uses _ List.mem_cons_self : Printable v.text)
    have sign : Printable (if truthy then "" else "!") := by cases truthy <;> decide
    exact .statement ((Phrase.append (by decide) sign).append text) (by decide) rfl
  | return_ value =>
    have text := Expr.printable_text uses calls
    exact .statement (.append (by decide) text) (by decide) rfl

end Names

mutual

theorem Stmt.balanced : (s : Stmt) → Worded [s] → WordedCalls [s] → Balanced s.lines
  | .branch condition yes no, hw, hc => by
    have phrase : Phrase ("if (" ++ condition.text) :=
      .append (by decide)
        (condition.printable_text fun x hx => printable_of_all (hw.all_of_uses x hx))
    obtain ⟨wy, wn⟩ := worded_branch hw
    rw [WordedCalls, callsIn_branch, List.forall_mem_append] at hc
    have yes_ := balanced_linesOf yes wy hc.1
    have no_ := balanced_linesOf no wn hc.2
    rw [Stmt.lines]
    split
    · simpa using Balanced.block phrase (by decide : Printable ") \x7b") rfl yes_
    · simpa using Balanced.alternatives phrase (by decide : Printable ") \x7b") rfl yes_ no_
  | .forever body, hw, hc => by
    have inner := balanced_linesOf body
      (by simpa only [Worded, declaredIn_forever, usedIn_forever] using hw)
      (by simpa only [WordedCalls, callsIn_forever] using hc)
    exact Balanced.block (by decide : Phrase "while (1)") (by decide : Printable " \x7b") rfl inner
  | .declare _ _, hw, hc | .assign _ _, hw, hc | .discard _, hw, hc | .unused _, hw, hc
  | .push _ _, hw, hc | .setLocal _ _, hw, hc | .declareLocal _ _, hw, hc
  | .setInstance _ _, hw, hc | .setGlobal _ _, hw, hc | .declareArgs _ _, hw, hc
  | .storeArg _ _ _, hw, hc | .declareBlock _ _, hw, hc | .defineMethod _ _, hw, hc
  | .defineSingleton _ _ _, hw, hc | .assertArgc _, hw, hc | .enterEnv, hw, hc
  | .enterBlockEnv, hw, hc | .setBlock, hw, hc | .closeRescue, hw, hc | .breakIf _ _, hw, hc
  | .return_ _, hw, hc => by
    exact Stmt.balanced_of_isSimple hw hc rfl

theorem balanced_linesOf : (body : List Stmt) → Worded body → WordedCalls body →
    Balanced (linesOf body)
  | [], _, _ => .nil
  | s :: ss, hw, hc => by
    obtain ⟨hs, hss⟩ := worded_append (a := [s]).mp hw
    obtain ⟨cs, css⟩ := wordedCalls_append (a := [s]).mp hc
    exact (Stmt.balanced s hs cs).append (balanced_linesOf ss hss css)

end

/-! ## Files -/

/-- The parts of a file, in the order in which they stand in it: the line that includes the runtime
library, the prototypes, the definitions, and the lines of the template around the statements of the
entry function. -/
def fileParts (kind : FileKind) (functions : List FunctionText) (body : List String) :
    List String :=
  includeLine :: functions.map FunctionText.prototype
    ++ functions.flatMap FunctionText.definition
    ++ (kind.opening ++ body ++ kind.closing.filter (· ≠ ""))

theorem FunctionText.phrase_header {f : FunctionText} (h : Printable f.name) : Phrase f.header := by
  have params : Printable f.signature.params := by cases f.signature <;> decide
  have start : Phrase ("GnObject *" ++ f.name) := .append (by decide) h
  exact ((start.append (by decide)).append params).append (by decide)

theorem balanced_prototype {f : FunctionText} (h : Printable f.name) : Balanced [f.prototype] :=
  .statement (FunctionText.phrase_header h) (by decide) rfl

theorem balanced_definition {f : FunctionText} (h : Printable f.name) (hb : Balanced f.body) :
    Balanced f.definition :=
  .block (FunctionText.phrase_header h) (by decide) rfl hb

/-- The statements of the entry function between the lines of its template. -/
theorem balanced_entry {kind : FileKind} (hk : Printable kind.entryName) {body : List String}
    (hb : Balanced body) :
    Balanced (kind.opening ++ body ++ kind.closing.filter (· ≠ "")) := by
  have receiver : Balanced ["GnObject *self = gn_main_object(env);"] :=
    .line (by decide) rfl rfl
  cases kind with
  | program =>
    have entry := Balanced.block (by decide : Phrase "GnObject *EVAL(GnEnv *env, GnObject *self)")
      (by decide : Printable " \x7b") rfl hb
    have steps : Balanced (["GnEnv *env = gn_build_top_env();"]
        ++ ["GnObject *self = gn_main_object(env);"] ++ ["EVAL(env, self);"] ++ ["return 0;"]) :=
      (((Balanced.line (by decide) rfl rfl).append receiver).append
        (.line (by decide) rfl rfl)).append (.line (by decide) rfl rfl)
    have main := Balanced.block (by decide : Phrase "int main(void)")
      (by decide : Printable " \x7b") rfl steps
    have closing : FileKind.program.closing.filter (· ≠ "")
        = ["\x7d"] ++ (("int main(void)" ++ " \x7b") :: (["GnEnv *env = gn_build_top_env();"]
          ++ ["GnObject *self = gn_main_object(env);"] ++ ["EVAL(env, self);"] ++ ["return 0;"])
            ++ ["\x7d"]) := by
      decide
    rw [closing, ← List.append_assoc]
    exact entry.append main
  | unit name =>
    have start : Phrase ("GnObject *obj_" ++ name) :=
      .append (by decide) (printable_append.mp hk).2
    exact .block start (by decide) rfl hb
  | snippet =>
    have entry := Balanced.block (by decide : Phrase "GnObject *EVAL(GnEnv *env)")
      (by decide : Printable " \x7b") rfl (receiver.append hb)
    exact entry

theorem filter_of_tidy {lines : List String} (h : ∀ line ∈ lines, isTidy line.toList = true) :
    lines.filter (· ≠ "") = lines := by
  rw [List.filter_eq_self]
  intro line hm
  rw [decide_eq_true_eq]
  rintro rfl
  exact absurd (h _ hm) (by decide)

theorem filter_paragraph {lines : List String} (h : ∀ line ∈ lines, isTidy line.toList = true) :
    (paragraph lines).filter (· ≠ "") = lines := by
  unfold paragraph
  split
  · next hn =>
    rw [List.isEmpty_iff.mp hn]
    rfl
  · exact filter_of_tidy h

section Parts

variable {kind : FileKind} (hk : Printable kind.entryName) {functions : List FunctionText}
  (hf : ∀ f ∈ functions, Printable f.name ∧ Balanced f.body)

include hf

theorem balanced_prototypes : Balanced (functions.map FunctionText.prototype) := by
  rw [List.map_eq_flatMap]
  exact .flatMap fun f hm => balanced_prototype (hf f hm).1

theorem balanced_definitions : Balanced (functions.flatMap FunctionText.definition) :=
  .flatMap fun f hm => balanced_definition (hf f hm).1 (hf f hm).2

include hk

theorem balanced_fileParts {body : List String} (hb : Balanced body) :
    Balanced (fileParts kind functions body) := by
  have first : Balanced [includeLine] := .line (by decide) rfl rfl
  exact ((first.append (balanced_prototypes hf)).append (balanced_definitions hf)).append
    (balanced_entry hk hb)

/-- The lines of a file that are not blank are its parts. -/
theorem filter_fileLines {statements last : List String} (hb : Balanced (statements ++ last)) :
    (fileLines kind functions statements last).filter (· ≠ "")
      = fileParts kind functions (statements ++ last) := by
  have tidy := List.forall_mem_append.mp hb.tidy
  have first : [includeLine, ""].filter (· ≠ "") = [includeLine] := by decide
  have blank : [""].filter (· ≠ "") = [] := by decide
  have definitions : (functions.flatMap fun f => "" :: f.definition).filter (· ≠ "")
      = functions.flatMap FunctionText.definition := by
    rw [List.filter_flatMap]
    refine List.flatMap_congr fun f hm => ?_
    exact (List.filter_cons_of_neg (by simp)).trans
      (filter_of_tidy (balanced_definition (hf f hm).1 (hf f hm).2).tidy)
  have opening : kind.opening.filter (· ≠ "") = kind.opening := by
    refine filter_of_tidy fun line hm => (balanced_entry hk .nil).tidy line ?_
    exact List.mem_append_left _ (List.mem_append_left _ hm)
  simp only [fileLines, functionLines, fileParts, List.filter_append, first, blank, opening,
    definitions, filter_paragraph tidy.1, filter_paragraph tidy.2,
    filter_of_tidy (balanced_prototypes hf).tidy]
  simp only [List.append_assoc, List.cons_append, List.nil_append]

/-- **A laid out file.** A file is laid out as its parts, each as it is and in its place, if the
functions and statements are balanced. -/
theorem laidOut_fileLines {statements last : List String} (hb : Balanced (statements ++ last)) :
    LaidOut (indent ("\n".intercalate (fileLines kind functions statements last)))
      (fileParts kind functions (statements ++ last)) := by
  have parts := filter_fileLines hk hf hb
  have balanced := balanced_fileParts hk hf hb
  rw [← parts] at balanced ⊢
  refine laidOut_indent ?_ ?_ (balanced.nested 0)
  · intro line hm
    by_cases hn : line = ""
    · exact .inl hn
    · exact .inr (balanced.tidy line (List.mem_filter.mpr ⟨hm, decide_eq_true hn⟩))
  · obtain ⟨before, hc⟩ := closing_eq kind
    rw [fileLines, hc, ← List.append_assoc, List.getLast?_concat]
    decide

end Parts

end ScriptCompiler.C
