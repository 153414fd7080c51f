import Mathlib.Data.List.Basic
import Std.Data.String.ToNat
import ScriptCompiler.C.Layout

/-!
# Generated names as text

A generated name is spelled as its lead, its base and its number, with nothing between them. As long
as there is no digit in a base, two names with one lead are spelled alike only if they are the same;
and a generated name ends in a digit, so that it is none of the names that are fixed.
-/

namespace ScriptCompiler.C

/-- The base has only letters and underscores, so that the number after it can be read off. -/
def plainBase (base : String) : Bool :=
  base.toList.all startsIdentifier

/-- A character of an identifier. -/
def identifierChar (c : Char) : Bool :=
  startsIdentifier c || ('0' ≤ c && c ≤ '9')

theorem not_isDigit_of_startsIdentifier {c : Char} (h : startsIdentifier c = true) :
    c.isDigit = false := by
  simp only [startsIdentifier, Bool.or_eq_true, Bool.and_eq_true, decide_eq_true_eq,
    Char.le_def] at h
  rw [Bool.eq_false_iff]
  intro hd
  simp only [Char.isDigit, Bool.and_eq_true, decide_eq_true_eq] at hd
  rcases h with (h | h) | h
  · have ha : 'a'.val = 97 := rfl
    grind
  · have ha : 'A'.val = 65 := rfl
    grind
  · subst h
    exact absurd hd (by decide)

theorem isDigit_of_mem_toString {n : Nat} {c : Char} (h : c ∈ (toString n).toList) :
    c.isDigit = true := by
  have hn : (toString n : String) = Nat.repr n := rfl
  rw [hn, Nat.toList_repr] at h
  exact Nat.isDigit_of_mem_toDigits (by decide) (by decide) h

theorem all_toString (n : Nat) : (toString n).toList.all identifierChar = true := by
  refine List.all_eq_true.mpr fun c hc => ?_
  have hd := isDigit_of_mem_toString hc
  simp only [Char.isDigit, Bool.and_eq_true, decide_eq_true_eq] at hd
  simp only [identifierChar, Bool.or_eq_true, Bool.and_eq_true, decide_eq_true_eq]
  exact .inr hd

/-- The digits at the end of a text with a number are those of the number, unless the text ends in a
digit itself. -/
theorem takeWhile_reverse_of_stem {stem : List Char}
    (hs : ∀ c ∈ stem.getLast?, c.isDigit = false) (n : Nat) :
    (stem ++ (toString n).toList).reverse.takeWhile Char.isDigit = (toString n).toList.reverse := by
  rw [List.reverse_append, List.takeWhile_append_of_pos]
  · have hnil : stem.reverse.takeWhile Char.isDigit = [] := by
      rw [← List.head?_reverse] at hs
      cases hr : stem.reverse with
      | nil => rfl
      | cons c cs =>
        rw [hr] at hs
        rw [List.takeWhile_cons, hs c rfl]
        rfl
    rw [hnil, List.append_nil]
  · intro c hc
    exact isDigit_of_mem_toString (List.mem_reverse.mp hc)

/-- Numbers after texts that end in no digit can be read off. -/
theorem append_number_injective {stem stem' : List Char}
    (hs : ∀ c ∈ stem.getLast?, c.isDigit = false) (hs' : ∀ c ∈ stem'.getLast?, c.isDigit = false)
    {n m : Nat} (h : stem ++ (toString n).toList = stem' ++ (toString m).toList) :
    stem = stem' ∧ n = m := by
  have hd : (toString n).toList = (toString m).toList := by
    have := congrArg (fun l => l.reverse.takeWhile Char.isDigit) h
    rw [takeWhile_reverse_of_stem hs, takeWhile_reverse_of_stem hs'] at this
    exact List.reverse_injective this
  rw [hd] at h
  exact ⟨List.append_cancel_right h, Nat.repr_injective (String.toList_injective hd)⟩

/-- A plain base ends in no digit. -/
theorem not_isDigit_getLast? {base : String} (hb : plainBase base = true) :
    ∀ c ∈ base.toList.getLast?, c.isDigit = false :=
  fun c hc => not_isDigit_of_startsIdentifier
    (List.all_eq_true.mp hb c (List.mem_of_mem_getLast? hc))

namespace Name

theorem toList_text (n : Name) :
    n.text.toList = n.lead.toList ++ (n.base.toList ++ (toString n.number).toList) := by
  unfold text
  rw [String.toList_append, String.toList_append, List.append_assoc]

/-- **Spelling is injective.** Names with one lead and plain bases are spelled alike only if they
are the same name. -/
theorem text_injective {a b : Name} (hl : a.lead = b.lead) (ha : plainBase a.base = true)
    (hb : plainBase b.base = true) (h : a.text = b.text) : a = b := by
  obtain ⟨lead, base, n⟩ := a
  obtain ⟨lead', base', m⟩ := b
  have hl' : lead = lead' := hl
  subst hl'
  have ht : base.toList ++ (toString n).toList = base'.toList ++ (toString m).toList := by
    have := congrArg String.toList h
    rw [toList_text, toList_text] at this
    exact List.append_cancel_left this
  obtain ⟨hbase, rfl⟩ :=
    append_number_injective (not_isDigit_getLast? ha) (not_isDigit_getLast? hb) ht
  have hbase : base = base' := String.toList_injective hbase
  rw [hbase]

/-- A generated name ends in a digit. -/
theorem text_ne {s : String} (h : plainBase s = true) (n : Name) : n.text ≠ s := by
  rintro rfl
  have hne : (toString n.number).toList ≠ [] := by
    have hn : (toString n.number : String) = Nat.repr n.number := rfl
    rw [hn, Nat.toList_repr]
    exact Nat.toDigits_ne_nil
  have hm : (toString n.number).toList.getLast hne ∈ n.text.toList := by
    rw [toList_text]
    exact List.mem_append_right _ (List.mem_append_right _ (List.getLast_mem hne))
  have hd := isDigit_of_mem_toString (List.getLast_mem hne)
  rw [not_isDigit_of_startsIdentifier (List.all_eq_true.mp h _ hm)] at hd
  cases hd

/-- A generated name is spelled with characters of identifiers if its lead is. -/
theorem all_text {n : Name} (hl : n.lead.toList.all identifierChar = true)
    (hb : plainBase n.base = true) : n.text.toList.all identifierChar = true := by
  have hbase : n.base.toList.all identifierChar = true := by
    refine List.all_eq_true.mpr fun c hc => ?_
    rw [identifierChar, List.all_eq_true.mp hb c hc, Bool.true_or]
  rw [toList_text, List.all_append, List.all_append, hl, hbase, all_toString]
  rfl

end Name

end ScriptCompiler.C
