import ScriptCompiler.C.Print
import ScriptCompiler.Proofs.C.Indentation
import ScriptCompiler.Proofs.C.Scoping
import ScriptCompiler.Proofs.C.Naming

/-!
# Printable code

Emitted code is printable ASCII, whatever the compiled program says: its names and texts are written
as string literals, which escape what is not printable, and all other names are C identifiers. A
phrase is the text of a statement before its semicolon, or of a line before its brace: it starts as
an identifier does, so that the line neither starts with a blank nor closes a brace.
-/

namespace ScriptCompiler.C

/-! ## Texts -/

/-- The text is in printable ASCII. -/
def Printable (s : String) : Prop :=
  s.toList.all isPrintable = true

instance : DecidablePred Printable :=
  fun _ => inferInstanceAs (Decidable (_ = true))

/-- The text is a word of characters of identifiers. -/
def Word (s : String) : Prop :=
  s ≠ "" ∧ s.toList.all identifierChar = true

/-- The text is in printable ASCII and starts with a character of an identifier. -/
def Phrase (s : String) : Prop :=
  Printable s ∧ s.toList.head?.any identifierChar = true

instance : DecidablePred Phrase :=
  fun _ => inferInstanceAs (Decidable (_ ∧ _))

@[simp] theorem printable_append {a b : String} :
    Printable (a ++ b) ↔ Printable a ∧ Printable b := by
  simp only [Printable, String.toList_append, List.all_append, Bool.and_eq_true]

theorem isPrintable_of_identifierChar {c : Char} (h : identifierChar c = true) :
    isPrintable c = true := by
  simp only [identifierChar, startsIdentifier, Bool.or_eq_true, Bool.and_eq_true,
    decide_eq_true_eq, Char.le_def, UInt32.le_iff_toNat_le] at h
  simp only [isPrintable, Bool.and_eq_true, decide_eq_true_eq]
  have code : c.toNat = c.val.toNat := rfl
  rcases h with ((h | h) | rfl) | h
  · have least : 'a'.val.toNat = 97 := rfl
    have greatest : 'z'.val.toNat = 122 := rfl
    omega
  · have least : 'A'.val.toNat = 65 := rfl
    have greatest : 'Z'.val.toNat = 90 := rfl
    omega
  · decide
  · have least : '0'.val.toNat = 48 := rfl
    have greatest : '9'.val.toNat = 57 := rfl
    omega

theorem printable_of_all {s : String} (h : s.toList.all identifierChar = true) : Printable s :=
  List.all_eq_true.mpr fun c hc => isPrintable_of_identifierChar (List.all_eq_true.mp h c hc)

theorem Word.printable {s : String} (h : Word s) : Printable s :=
  printable_of_all h.2

theorem Word.phrase {s : String} (h : Word s) : Phrase s := by
  refine ⟨h.printable, ?_⟩
  obtain ⟨c, rest, hs⟩ := List.exists_cons_of_ne_nil (mt String.toList_eq_nil_iff.mp h.1)
  have all := h.2
  rw [hs, List.all_cons, Bool.and_eq_true] at all
  rw [hs]
  exact all.1

theorem Phrase.append {a b : String} (ha : Phrase a) (hb : Printable b) : Phrase (a ++ b) := by
  refine ⟨printable_append.mpr ⟨ha.1, hb⟩, ?_⟩
  rw [String.toList_append, List.head?_append]
  obtain ⟨c, hc, hi⟩ := (Option.any_eq_true _ _).mp ha.2
  rw [hc]
  exact hi

theorem printable_intercalate {separator : String} (hs : Printable separator)
    {texts : List String} (h : ∀ t ∈ texts, Printable t) :
    Printable (separator.intercalate texts) := by
  rw [Printable, String.toList_intercalate]
  induction texts with
  | nil => rfl
  | cons t texts ih =>
    rw [List.forall_mem_cons] at h
    cases texts with
    | nil => simpa [Printable] using h.1
    | cons u texts =>
      rw [List.map_cons, List.map_cons, List.intercalate_cons_cons, List.all_append,
        List.all_append, h.1, hs]
      exact ih h.2

/-! ## Names -/

theorem Name.text_ne_nil (n : Name) : n.text ≠ "" :=
  Name.text_ne rfl n

theorem Variable.text_ne_nil : (v : Variable) → v.text ≠ ""
  | .self | .outcome => by decide
  | .generated n => n.text_ne_nil

/-! ## Literals -/

theorem isPrintable_ofNat {n : Nat} (hl : 0x20 ≤ n) (hg : n ≤ 0x7e) :
    isPrintable (Char.ofNat n) = true := by
  have valid : n.isValidChar := .inl (by omega)
  have code : (Char.ofNat n).toNat = n := by
    rw [Char.ofNat, dif_pos valid]
    rfl
  simp only [isPrintable, code, Bool.and_eq_true, decide_eq_true_eq]
  exact ⟨hl, hg⟩

theorem isPrintable_digitChar {n : Nat} (h : n < 10) : isPrintable (Nat.digitChar n) = true := by
  revert n
  decide

theorem printable_octal (n : Nat) : (octal n).all isPrintable = true := by
  have digit (k : Nat) : isPrintable (Nat.digitChar (k % 8)) = true :=
    isPrintable_digitChar (Nat.lt_of_lt_of_le (Nat.mod_lt k (by decide : 8 > 0)) (by decide))
  simp [octal, digit]

/-- A byte is escaped unless it is printable. -/
theorem printable_literalByte (b : UInt8) : (literalByte b).all isPrintable = true := by
  unfold literalByte
  split_ifs with _ _ _ _ _ _ h
  · decide
  · decide
  · decide
  · decide
  · decide
  · decide
  · have code := isPrintable_ofNat (UInt8.le_iff_toNat_le.mp h.1) (UInt8.le_iff_toNat_le.mp h.2)
    rw [List.all_cons, code]
    rfl
  · rw [List.all_cons, printable_octal]
    rfl

/-- A string literal is printable, whatever the string is. -/
theorem printable_stringLiteral (s : String) : Printable (stringLiteral s) := by
  have bytes : ((Text.Utf8.bytes s).flatMap literalByte).all isPrintable = true := by
    rw [List.all_flatMap]
    exact List.all_eq_true.mpr fun b _ => printable_literalByte b
  have quote : isPrintable '"' = true := by decide
  rw [Printable, stringLiteral, String.toList_ofList, List.cons_append, List.all_cons,
    List.all_append, bytes, List.all_cons, quote]
  rfl

theorem printable_toString (n : Nat) : Printable (toString n) :=
  printable_of_all (all_toString n)

theorem printable_integerLiteral (value : Int64) : Printable (integerLiteral value) := by
  unfold integerLiteral
  split
  · rfl
  · refine printable_append.mpr ⟨?_, rfl⟩
    cases value.toInt with
    | ofNat n => exact printable_toString n
    | negSucc n => exact printable_append.mpr ⟨rfl, printable_toString (n + 1)⟩

/-! ## Expressions -/

theorem printable_call {function : String} {args : List String} (hf : Printable function)
    (ha : ∀ a ∈ args, Printable a) : Printable (call function args) := by
  have env : Printable "env" := by decide
  simp only [call, printable_append]
  exact ⟨⟨⟨hf, by decide⟩, printable_intercalate (by decide) (List.forall_mem_cons.mpr ⟨env, ha⟩)⟩,
    by decide⟩

theorem phrase_call {function : String} {args : List String} (hf : Phrase function)
    (ha : ∀ a ∈ args, Printable a) : Phrase (call function args) := by
  have env : Printable "env" := by decide
  have list := printable_intercalate (by decide : Printable ", ")
    (List.forall_mem_cons.mpr ⟨env, ha⟩)
  exact ((hf.append (by decide)).append list).append (by decide)

/-- The environment's value of a name. -/
theorem printable_getLocal (name : String) :
    Printable (call "gn_env_get" [stringLiteral name]) :=
  printable_call (by decide) (List.forall_mem_singleton.mpr (printable_stringLiteral name))

theorem ArgVector.printable_text : {v : ArgVector} → (∀ x ∈ v.uses, Printable x) → Printable v.text
  | .none, _ => by decide
  | .single _, h => printable_append.mpr ⟨by decide, h _ List.mem_cons_self⟩
  | .array _, h => h _ List.mem_cons_self

theorem Passed.printable_texts {p : Passed} (h : ∀ x ∈ p.uses, Printable x) :
    ∀ t ∈ p.texts, Printable t := by
  obtain ⟨argc, argv, block⟩ := p
  simp only [uses, List.forall_mem_append] at h
  have passed : Printable ((block.map Name.text).getD "NULL") := by
    cases block with
    | none => decide
    | some name => exact h.2 _ List.mem_cons_self
  simpa [texts] using ⟨printable_toString argc, argv.printable_text h.1, passed⟩

/-- An expression is printable if the names in it are. -/
theorem Expr.printable_text {e : Expr} (hu : ∀ x ∈ e.uses, Printable x)
    (hc : ∀ ref ∈ e.calls, Printable ref.1.text) : Printable e.text := by
  have self : Printable "self" := by decide
  have literal := printable_stringLiteral
  cases e with
  | variable_ v => exact hu _ List.mem_cons_self
  | integer value =>
    have written := printable_integerLiteral value
    exact printable_call (by decide) (List.forall_mem_singleton.mpr written)
  | str name | symbol name | getLocal name | lookup name | getGlobal name | newModule name =>
    exact printable_call (by decide) (List.forall_mem_singleton.mpr (literal name))
  | emptyArray | exception => exact printable_call (by decide) nofun
  | getInstance name => exact printable_call (by decide) (by simpa using ⟨self, literal name⟩)
  | newClass superclass name =>
    exact printable_call (by decide) (by simpa using ⟨printable_getLocal superclass, literal name⟩)
  | send receiver name passed | lookupOrSend receiver name passed =>
    simp only [uses, List.forall_mem_cons] at hu
    exact printable_call (by decide)
      (by simpa using ⟨hu.1, literal name, Passed.printable_texts hu.2⟩)
  | callSuper passed =>
    simp only [uses, List.forall_mem_cons] at hu
    exact printable_call (by decide)
      (by simpa using ⟨self, printable_getLocal methodNameKey, Passed.printable_texts hu.2⟩)
  | runBlock passed =>
    have block : Printable (call "gn_env_get_block" []) := printable_call (by decide) nofun
    exact printable_call (by decide)
      (List.forall_mem_cons.mpr ⟨block, Passed.printable_texts hu⟩)
  | callHere function =>
    have here : Printable function.text := hc (function, .scoped) List.mem_cons_self
    exact printable_call here (List.forall_mem_singleton.mpr self)
  | callInside function receiver =>
    have here : Printable function.text := hc (function, .scoped) List.mem_cons_self
    have inside : Printable receiver.text := hu _ List.mem_cons_self
    simp only [text, printable_append]
    exact ⟨⟨⟨⟨⟨here, by decide⟩, by decide⟩, by decide⟩, inside⟩, by decide⟩
  | passedBlock =>
    exact printable_call (by decide) (List.forall_mem_singleton.mpr (by decide))
  | argument index =>
    simp only [text, printable_append]
    exact ⟨⟨by decide, printable_toString index⟩, by decide⟩
  | argumentOrNil index =>
    have number := printable_toString index
    simp only [text, printable_append]
    exact ⟨⟨⟨⟨⟨by decide, number⟩, by decide⟩, number⟩, by decide⟩, printable_getLocal nilName⟩

theorem printable_truthyText {v : Variable} (h : Printable v.text) : Printable (truthyText v) :=
  printable_call (by decide) (List.forall_mem_singleton.mpr h)

theorem Condition.printable_text {c : Condition} (h : ∀ x ∈ c.uses, Printable x) :
    Printable c.text := by
  cases c with
  | truthy v => exact printable_truthyText (h _ List.mem_cons_self)
  | isNull v => exact printable_append.mpr ⟨by decide, h _ List.mem_cons_self⟩
  | rescueOpens => decide

end ScriptCompiler.C
