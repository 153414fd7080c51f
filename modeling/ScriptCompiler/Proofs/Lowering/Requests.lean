import ScriptCompiler.Proofs.C.Naming
import ScriptCompiler.Proofs.Lowering.Derivation

/-!
# Names on request

Whatever is asked of a compilation, in whatever scopes, the names that it gives out have its lead,
the bases that were asked for, and numbers one after the other. Two of them are spelled alike
exactly if one *runs into* a later one: its base goes on with digits where the base of the later one
ends, and these digits stand before its number in the number of the later one. So names are pairwise
distinct as long as no base ends in a digit, but not for all bases.
-/

namespace ScriptCompiler

namespace C.Name

/-- The name is spelled as a later one, whose number takes up digits at the end of its base. -/
def RunsInto (a b : Name) : Prop :=
  ∃ digits : List Char, a.base.toList = b.base.toList ++ digits
    ∧ (toString b.number).toList = digits ++ (toString a.number).toList

/-- Digits before a number make it no smaller. -/
theorem le_of_toString_suffix {n m : Nat} {digits : List Char}
    (h : (toString n).toList = digits ++ (toString m).toList) : m ≤ n := by
  have value : ∀ k : Nat, Nat.ofDigitChars 10 (toString k).toList 0 = k := by
    intro k
    rw [Nat.toString_eq_ofList_toDigits, String.toList_ofList, Nat.ofDigitChars_ten_toDigits]
  have read := congrArg (Nat.ofDigitChars 10 · 0) h
  simp only [value, Nat.ofDigitChars_eq_foldl, List.foldl_append] at read
  rw [← Nat.ofDigitChars_eq_foldl, Nat.ofDigitChars_eq_ofDigitChars_zero, value] at read
  omega

/-- **Names that are spelled alike.** Of two names with one lead, the one with the smaller number is
spelled as the other exactly if it runs into it. -/
theorem text_eq_iff {a b : Name} (hl : a.lead = b.lead) (hn : a.number ≤ b.number) :
    a.text = b.text ↔ a.RunsInto b := by
  rw [← String.toList_inj, toList_text, toList_text, hl, List.append_right_inj]
  constructor
  · intro h
    rcases List.append_eq_append_iff.mp h with ⟨digits, longer, number⟩ | ⟨digits, base, number⟩
    · -- The base of the later name cannot be the longer one, as its number is not the smaller one.
      have same : a.number = b.number := Nat.le_antisymm hn (le_of_toString_suffix number)
      rw [same, List.self_eq_append_left] at number
      rw [number, List.append_nil] at longer
      exact ⟨[], by rw [longer, List.append_nil], by rw [same, List.nil_append]⟩
    · exact ⟨digits, base, number⟩
  · rintro ⟨digits, base, number⟩
    rw [base, number, List.append_assoc]

end C.Name

namespace Lowering

open C

/-! ## Requests -/

/-- What is asked of a compilation. -/
inductive Request where
  /-- A name with a base. -/
  | name (base : String)
  /-- That an assignment to a local variable is recorded. -/
  | assign (variable_ : String)
  /-- Something else, in an inner scope. -/
  | scope (requests : List Request)

namespace Request

mutual

/-- Answers a request with the names that it asks for. -/
def answer : Request → Step (List Name)
  | .name base => do return [← fresh base]
  | .assign variable_ => do
    declare variable_
    return []
  | .scope requests => inScope (answerAll requests)

/-- Answers requests one after the other. -/
def answerAll : List Request → Step (List Name)
  | [] => return []
  | request :: requests => do
    let first ← request.answer
    let others ← answerAll requests
    return first ++ others

end

mutual

/-- The bases of the names that a request asks for. -/
def bases : Request → List String
  | .name base => [base]
  | .assign _ => []
  | .scope requests => basesOf requests

/-- The bases of the names that requests ask for. -/
def basesOf : List Request → List String
  | [] => []
  | request :: requests => request.bases ++ basesOf requests

end

end Request

/-! ## Names one after the other -/

/-- The names with the bases that are given out after so many others. -/
def namesFrom (lead : String) (counter : Nat) : List String → List Name
  | [] => []
  | base :: bases => ⟨lead, base, counter + 1⟩ :: namesFrom lead (counter + 1) bases

theorem namesFrom_append (lead : String) (counter : Nat) (xs ys : List String) :
    namesFrom lead counter (xs ++ ys)
      = namesFrom lead counter xs ++ namesFrom lead (counter + xs.length) ys := by
  induction xs generalizing counter with
  | nil => rfl
  | cons x xs ih =>
    rw [List.cons_append, namesFrom, namesFrom, ih, List.length_cons, List.cons_append,
      Nat.add_assoc, Nat.add_comm 1]

section NamesFrom

variable {lead : String} {counter : Nat} {bases : List String}

theorem of_mem_namesFrom {n : Name} (h : n ∈ namesFrom lead counter bases) :
    n.lead = lead ∧ n.base ∈ bases ∧ counter < n.number := by
  induction bases generalizing counter with
  | nil => cases h
  | cons base bases ih =>
    rcases List.mem_cons.mp h with rfl | h
    · exact ⟨rfl, List.mem_cons_self, Nat.lt_succ_self _⟩
    · obtain ⟨hl, hb, hn⟩ := ih h
      exact ⟨hl, List.mem_cons_of_mem _ hb, Nat.lt_of_succ_lt hn⟩

variable (lead counter bases) in
/-- Later names have greater numbers. -/
theorem pairwise_namesFrom :
    (namesFrom lead counter bases).Pairwise fun a b => a.number < b.number := by
  induction bases generalizing counter with
  | nil => exact .nil
  | cons base bases ih => exact .cons (fun n hn => (of_mem_namesFrom hn).2.2) (ih _)

/-- The names are distinct exactly if none runs into a later one. -/
theorem nodup_texts_iff :
    ((namesFrom lead counter bases).map Name.text).Nodup
      ↔ (namesFrom lead counter bases).Pairwise fun a b => ¬ a.RunsInto b := by
  rw [List.Nodup, List.pairwise_map]
  have ordered := pairwise_namesFrom lead counter bases
  have alike : ∀ a ∈ namesFrom lead counter bases, ∀ b ∈ namesFrom lead counter bases,
      a.number < b.number → (a.text ≠ b.text ↔ ¬ a.RunsInto b) := by
    intro a ha b hb hn
    have hl : a.lead = b.lead := (of_mem_namesFrom ha).1.trans (of_mem_namesFrom hb).1.symm
    rw [ne_eq, Name.text_eq_iff hl (Nat.le_of_lt hn)]
  constructor
  · intro h
    refine (h.and ordered).imp_of_mem fun ha hb => ?_
    exact fun ⟨differ, hn⟩ => (alike _ ha _ hb hn).mp differ
  · intro h
    refine (h.and ordered).imp_of_mem fun ha hb => ?_
    exact fun ⟨apart, hn⟩ => (alike _ ha _ hb hn).mpr apart

/-- A name runs into another one only with a digit at the end of its base. -/
theorem not_runsInto {a b : Name} (hn : a.number < b.number)
    (ends : ∀ c ∈ a.base.toList.getLast?, c.isDigit = false) : ¬ a.RunsInto b := by
  rintro ⟨digits, base, number⟩
  rcases List.eq_nil_or_concat digits with rfl | ⟨init, c, rfl⟩
  · have same : toString b.number = toString a.number := String.toList_injective number
    exact absurd (Nat.repr_injective same) (Nat.ne_of_gt hn)
  · have digit : c.isDigit = true := by
      refine isDigit_of_mem_toString (n := b.number) ?_
      rw [number]
      simp
    have last : c ∈ a.base.toList.getLast? := by simp [base]
    rw [ends c last] at digit
    cases digit

end NamesFrom

/-! ## Answers -/

namespace Request

mutual

theorem answer_eq (ctx : Context) (request : Request) :
    ∃ ctx', request.answer ctx = (.ok (namesFrom ctx.lead ctx.counter request.bases), ctx')
      ∧ ctx'.lead = ctx.lead ∧ ctx'.counter = ctx.counter + request.bases.length := by
  cases request with
  | name base => exact ⟨_, rfl, rfl, rfl⟩
  | assign variable_ =>
    refine ⟨_, rfl, ?_, ?_⟩ <;> simp only [Context.declare, bases] <;> split <;> rfl
  | scope requests =>
    obtain ⟨ctx', answered, hl, hc⟩ := answerAll_eq ctx.opened requests
    refine ⟨ctx'.closed, ?_, hl, hc⟩
    rw [answer, bases, inScope_eq, answered]
    rfl

theorem answerAll_eq (ctx : Context) (requests : List Request) :
    ∃ ctx', answerAll requests ctx = (.ok (namesFrom ctx.lead ctx.counter (basesOf requests)), ctx')
      ∧ ctx'.lead = ctx.lead ∧ ctx'.counter = ctx.counter + (basesOf requests).length := by
  cases requests with
  | nil => exact ⟨ctx, rfl, rfl, rfl⟩
  | cons request requests =>
    obtain ⟨mid, first, hl, hc⟩ := answer_eq ctx request
    obtain ⟨ctx', others, hl', hc'⟩ := answerAll_eq mid requests
    refine ⟨ctx', ?_, hl'.trans hl, ?_⟩
    · rw [answerAll, bind_of_ok first, bind_of_ok others, basesOf, namesFrom_append, hl, hc]
      rfl
    · rw [hc', hc, basesOf, List.length_append, Nat.add_assoc]

end

/-- **Names on request.** Requests are answered with the names of the bases that they ask for, with
numbers one after the other, also across scopes. The names are pairwise distinct exactly if none of
them runs into a later one, as none does if no base ends in a digit. -/
theorem nodup_answerAll (ctx : Context) (requests : List Request) :
    ∃ names ctx', answerAll requests ctx = (.ok names, ctx')
      ∧ names = namesFrom ctx.lead ctx.counter (basesOf requests)
      ∧ ((names.map Name.text).Nodup ↔ names.Pairwise fun a b => ¬ a.RunsInto b)
      ∧ ((∀ base ∈ basesOf requests, ∀ c ∈ base.toList.getLast?, c.isDigit = false) →
          (names.map Name.text).Nodup) := by
  obtain ⟨ctx', answered, -⟩ := answerAll_eq ctx requests
  refine ⟨_, ctx', answered, rfl, nodup_texts_iff, fun plain => nodup_texts_iff.mpr ?_⟩
  refine (pairwise_namesFrom _ _ _).imp_of_mem fun ha _ hn => not_runsInto hn ?_
  exact plain _ (of_mem_namesFrom ha).2.1

/-- A base that ends in a digit, and then ten times the base without it. -/
def countedBases : List Request :=
  .name "int1" :: List.replicate 10 (.name "int")

/-- The first name, `int` and 1 and 1, is spelled as the last one, `int` and 11. -/
theorem repeats_countedBases : ∃ names ctx',
    answerAll countedBases (.start "" .empty) = (.ok names, ctx')
      ∧ ¬ (names.map Name.text).Nodup := by
  obtain ⟨names, ctx', answered, given, distinct, -⟩ :=
    nodup_answerAll (.start "" .empty) countedBases
  refine ⟨names, ctx', answered, fun nodup => ?_⟩
  have apart := distinct.mp nodup
  rw [given, List.pairwise_iff_getElem] at apart
  exact apart 0 10 (by decide) (by decide) (by decide) ⟨['1'], by decide, by decide⟩

end Request

end Lowering

end ScriptCompiler
