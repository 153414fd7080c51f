import Mathlib.Data.Nat.ModEq
import ScriptCompiler.Proofs.Session.History

/-!
# Generated names of a session

All names that a turn generates have its number after their first letters, with a character behind
it that is no digit. So the number can be read off, and two turns share a name only if they have the
same number, as no two have until the numbers begin again.
-/

namespace ScriptCompiler

/-! ## Names in code -/

namespace C

/-- The generated name that the line of a statement declares. -/
def Stmt.generates : Stmt → List Name
  | .declare (.generated name) _ => [name]
  | .declareArgs array _ => [array]
  | .declareBlock name _ => [name]
  | _ => []

/-- The generated names that a body declares, at any depth of braces. -/
def generatedIn (body : List Stmt) : List Name :=
  (allOf body).flatMap Stmt.generates

/-- The text is spelled as a name that a compilation with the lead gives out. -/
def GivenOut (lead x : String) : Prop :=
  ∃ n : Name, n.lead = lead ∧ plainBase n.base = true ∧ n.text = x

theorem text_mem_binds {s : Stmt} {n : Name} (h : n ∈ s.generates) : n.text ∈ s.binds := by
  cases s with
  | declare v value =>
    cases v with
    | generated name => rw [List.mem_singleton.mp h]; exact List.mem_cons_self
    | _ => cases h
  | declareArgs array size => rw [List.mem_singleton.mp h]; exact List.mem_cons_self
  | declareBlock name function => rw [List.mem_singleton.mp h]; exact List.mem_cons_self
  | _ => cases h

theorem text_mem_declaredIn {body : List Stmt} {n : Name} (h : n ∈ generatedIn body) :
    n.text ∈ declaredIn body := by
  obtain ⟨s, hs, hn⟩ := List.mem_flatMap.mp h
  exact List.mem_flatMap.mpr ⟨s, hs, text_mem_binds hn⟩

/-- Only the value of a protected body has a name that is not given out. -/
theorem Spelled.givenOut {lead : String} {n : Name} (h : Spelled lead n.text) :
    GivenOut lead n.text :=
  h.resolve_left (Name.text_ne (by decide) n)

end C

namespace Lowering

open C

/-- The names that were generated for code: those of its functions, and the variables, vectors of
arguments and block objects that are declared in their bodies and in its own statements. -/
def Code.generated (code : Code) : List Name :=
  namesOf code.functions ++ code.functions.flatMap (generatedIn ·.body) ++ generatedIn code.stmts

/-- The names that are generated for a body are given out by its compilation. -/
theorem givenOut_of_lowerBody {program : Body} {ctx ctx' : Context} {code : Code}
    (h : lowerBody program ctx = (.ok code, ctx')) :
    ∀ n ∈ code.generated, GivenOut ctx.lead n.text := by
  have lowers := lowers_of_lowerBody h
  have neat : NeatCode ctx ctx' ["self"] code := lowers.neat List.mem_cons_self
  have functions := lowers.numbered
  intro n hn
  rw [Code.generated, List.mem_append, List.mem_append, List.mem_flatMap] at hn
  obtain (hn | ⟨f, hf, hn⟩) | hn := hn
  · exact ⟨n, functions.leads n hn, functions.plain n hn, rfl⟩
  · rw [← functions.leads _ (List.mem_map_of_mem hf)]
    exact ((neat.functions f hf).spelled _ (text_mem_declaredIn hn)).givenOut
  · obtain ⟨names, numbered, declared⟩ := neat.stmts.names
    have hm := text_mem_declaredIn hn
    rw [declared] at hm
    obtain ⟨m, hm, same⟩ := List.mem_map.mp hm
    exact ⟨m, numbered.leads m hm, numbered.plain m hm, same⟩

end Lowering

namespace Session

open C Lowering

/-! ## The number of a turn -/

/-- The digits after the first letters of a name that was generated for a turn. -/
def numberDigits (text : String) : List Char :=
  (text.toList.drop "repl".length).takeWhile Char.isDigit

theorem numberDigits_text {turn : UInt64} {n : Name} (h : n.lead = lead turn) :
    numberDigits n.text = (toString turn.toNat).toList := by
  have split : n.text.toList = "repl".toList ++ ((toString turn.toNat).toList
      ++ '_' :: (n.base.toList ++ (toString n.number).toList)) := by
    simp [Name.toList_text, h, lead]
  rw [numberDigits, split, ← String.length_toList, List.drop_left,
    List.takeWhile_append_of_pos fun c => isDigit_of_mem_toString]
  exact List.append_nil _

/-- **The number of a turn can be read off.** Only turns with the same number share a name. -/
theorem turn_eq_of_givenOut {turn turn' : UInt64} {x : String} (h : GivenOut (lead turn) x)
    (h' : GivenOut (lead turn') x) : turn = turn' := by
  obtain ⟨n, hl, -, rfl⟩ := h
  obtain ⟨m, hl', -, same⟩ := h'
  have digits := numberDigits_text hl
  rw [← same, numberDigits_text hl'] at digits
  exact (UInt64.toNat_inj.mp (Nat.repr_injective (String.toList_injective digits))).symm

/-! ## The code of a turn -/

/-- The code that is made of a snippet, if its turn succeeds. -/
def codeOf? (fs : FileSystem) (s : Session) (source : String) : Option Lowering.Code := do
  let program ← (parse fileName source s.state.vars.names).toOption
  let expanded ← (Load.expand (s.options.settings fs) ⟨fileName⟩ program .empty).1.toOption
  (lowerBody (s.shown expanded) (.start (lead (s.state.turn + 1)) s.state.vars)).1.toOption

/-- The file that a turn makes of its code. -/
def fileOf (code : Lowering.Code) : String :=
  C.file .snippet (code.functions.map Function.toText) code.splitReturn.1 code.splitReturn.2

/-- A snippet is compiled exactly if its body can be lowered. -/
theorem toOption_compileFrom (ctx : Context) (program : Body) :
    (compileFrom ctx .snippet program).1.toOption
      = (lowerBody program ctx).1.toOption.map fileOf := by
  rcases h : lowerBody program ctx with ⟨e | code, ctx'⟩
  · rw [compileFrom, compileStep, bind_of_error h]
    rfl
  · rw [compileFrom_of_ok .snippet h]
    rfl

section Turns

variable (fs : FileSystem) (s : Session) (source : String)

/-- **The code of a turn.** A turn gives the file that is made of its code, and fails if there is
none. -/
theorem toOption_turn :
    (s.turn fs source).toOption.map Prod.fst = (s.codeOf? fs source).map fileOf := by
  unfold turn codeOf?
  cases parse fileName source s.state.vars.names with
  | error e => rfl
  | ok program =>
    dsimp only [Except.mapError, Except.toOption, bind, Except.bind, Option.bind]
    rcases Load.expand (s.options.settings fs) ⟨fileName⟩ program .empty with
      ⟨_ | expanded, tracker⟩
    · rfl
    · have made := toOption_compileFrom (.start (lead (s.state.turn + 1)) s.state.vars)
        (s.shown expanded)
      dsimp only
      refine Eq.trans ?_ made
      rw [shown]
      rcases compileFrom (.start (lead (s.state.turn + 1)) s.state.vars) .snippet
        (if s.echo then echoLast expanded else expanded) with ⟨_ | text, ctx⟩ <;> rfl

variable {fs s source}

/-- The names of a turn are given out with its number. -/
theorem givenOut_of_codeOf? {code : Lowering.Code} (h : s.codeOf? fs source = some code) :
    ∀ n ∈ code.generated, GivenOut (lead (s.state.turn + 1)) n.text := by
  obtain ⟨program, -, h⟩ := Option.bind_eq_some_iff.mp h
  obtain ⟨expanded, -, h⟩ := Option.bind_eq_some_iff.mp h
  rcases hb : lowerBody (s.shown expanded) (.start (lead (s.state.turn + 1)) s.state.vars) with
    ⟨_ | made, ctx⟩ <;> rw [hb] at h <;> cases h
  exact givenOut_of_lowerBody hb

end Turns

/-! ## The code of steps -/

/-- The file that a step answers, if it compiles a snippet. -/
def Answer.text? : Answer → Option String
  | .turn (.ok text) => some text
  | .line (.ok (.compiled text)) => some text
  | _ => none

/-- The code that a step makes of a snippet, if it compiles one. -/
def Step.code? : Step → Session → Option Lowering.Code
  | .turn fs source, s => s.codeOf? fs source
  | .line fs text, s =>
    let source := "\n".intercalate (s.pending ++ [text])
    if source.toList.all Text.isBlank then none else s.codeOf? fs source
  | .discard, _ => none

/-- The codes of the snippets that steps compile. -/
def codes : List Step → Session → List Lowering.Code
  | [], _ => []
  | step :: steps, s => (step.code? s).toList ++ codes steps (step.take s).2

theorem compiled_eq_isSome (answer : Answer) : answer.compiled = answer.text?.isSome := by
  rcases answer with (_ | _) | (_ | _ | _ | _) | _ <;> rfl

theorem text?_take (step : Step) (s : Session) :
    (step.take s).1.text? = (step.code? s).map fileOf := by
  cases step with
  | turn fs source =>
    rw [Step.take, Step.code?, ← toOption_turn, compileTurn]
    cases s.turn fs source <;> rfl
  | line fs text =>
    rw [Step.take, Step.code?, pushLine]
    split
    · rfl
    · rw [← toOption_turn]
      cases s.turn fs ("\n".intercalate (s.pending ++ [text])) with
      | ok made => rfl
      | error e =>
        dsimp only
        split <;> rfl
  | discard => rfl

/-- A step that makes code counts, and one that makes none does not. -/
theorem turn_take (step : Step) (s : Session) :
    (step.take s).2.state.turn = s.state.turn + .ofNat (step.code? s).toList.length := by
  have made : (step.take s).1.compiled = (step.code? s).isSome := by
    rw [compiled_eq_isSome, text?_take, Option.isSome_map]
  obtain ⟨hc, fs, source, text, ht⟩ | ⟨hc, hs⟩ := take_cases step s
  · rw [made, Option.isSome_iff_exists] at hc
    obtain ⟨code, hc⟩ := hc
    rw [(state_of_turn ht).1, hc]
    rfl
  · rw [made, Option.isSome_eq_false_iff, Option.isNone_iff_eq_none] at hc
    rw [hs, hc]
    exact (UInt64.add_zero _).symm

theorem givenOut_of_code? {step : Step} {s : Session} {code : Lowering.Code}
    (h : step.code? s = some code) :
    ∀ n ∈ code.generated, GivenOut (lead (s.state.turn + 1)) n.text := by
  cases step with
  | turn fs source => exact givenOut_of_codeOf? h
  | line fs text =>
    rw [Step.code?] at h
    split at h
    · cases h
    · exact givenOut_of_codeOf? h
  | discard => cases h

/-- The snippets that are compiled are numbered one after the other. -/
theorem givenOut_of_codes {steps : List Step} {s : Session} {i : Nat} {code : Lowering.Code}
    (h : (codes steps s)[i]? = some code) :
    ∀ n ∈ code.generated, GivenOut (lead (s.state.turn + .ofNat (i + 1))) n.text := by
  induction steps generalizing s i with
  | nil => cases h
  | cons step steps ih =>
    rw [codes] at h
    cases hc : step.code? s with
    | none =>
      have later := @ih (step.take s).2 i (by simpa [hc] using h)
      have same : (step.take s).2.state.turn = s.state.turn := by simp [turn_take, hc]
      rwa [same] at later
    | some first =>
      rw [hc] at h
      cases i with
      | zero =>
        cases h
        exact givenOut_of_code? hc
      | succ i =>
        have later := @ih (step.take s).2 i h
        have next : (step.take s).2.state.turn + .ofNat (i + 1)
            = s.state.turn + .ofNat (i + 1 + 1) := by
          rw [turn_take, hc, UInt64.add_assoc, ← UInt64.ofNat_add, Nat.add_comm _ (i + 1)]
          rfl
        rwa [next] at later

/-- What steps answer are the files for their codes. -/
theorem filterMap_text?_play (steps : List Step) (s : Session) :
    (play steps s).1.filterMap Answer.text? = (codes steps s).map fileOf := by
  induction steps generalizing s with
  | nil => rfl
  | cons step steps ih =>
    rw [play, codes, List.map_append, ← ih]
    dsimp only
    rw [List.filterMap_cons, text?_take]
    cases step.code? s <;> rfl

/-- **Names of different turns.** What a session from its start answers to any steps are the files
for codes. The generated names of a code are none of the fixed names, and those of two codes are
distinct, unless there are as many turns from one to the other as there are numbers of turns, which
are words of 64 bits, or a multiple of that. -/
theorem distinct_names (options : Options) (echo : Bool) (steps : List Step) :
    let made := codes steps (start options echo)
    (play steps (start options echo)).1.filterMap Answer.text? = made.map fileOf
      ∧ (∀ code ∈ made, ∀ n ∈ code.generated,
        n.text ≠ "EVAL" ∧ n.text ≠ "env" ∧ n.text ≠ "self")
      ∧ ∀ i j a b, made[i]? = some a → made[j]? = some b → ¬ i ≡ j [MOD UInt64.size] →
        (a.generated.map Name.text).Disjoint (b.generated.map Name.text) := by
  refine ⟨filterMap_text?_play _ _, fun code _ n _ => ?_, ?_⟩
  · exact ⟨n.text_ne (by decide), n.text_ne (by decide), n.text_ne (by decide)⟩
  · intro i j a b ha hb apart x hx hx'
    obtain ⟨n, hn, rfl⟩ := List.mem_map.mp hx
    obtain ⟨m, hm, same⟩ := List.mem_map.mp hx'
    have first := givenOut_of_codes ha n hn
    have second := givenOut_of_codes hb m hm
    rw [same] at second
    have equal := congrArg UInt64.toNat (turn_eq_of_givenOut first second)
    have numbers : i + 1 ≡ j + 1 [MOD UInt64.size] := by
      simpa [start, resume, State.start, Nat.ModEq] using equal
    exact apart (Nat.ModEq.add_right_cancel' 1 numbers)

/-- Two snippets that compile, and one between them that does not. -/
def valueSteps : List Step :=
  [.turn ⟨[], []⟩ "1", .turn ⟨[], []⟩ "y = )", .turn ⟨[], []⟩ "2"]

theorem distinct_names_valueSteps :
    ∃ a b, codes valueSteps (start .default false) = [a, b]
      ∧ a.generated.map Name.text = ["repl1_int1"]
      ∧ (a.generated.map Name.text).Disjoint (b.generated.map Name.text) := by
  have two : (codes valueSteps (start .default false)).map (·.generated.map Name.text)
      = [["repl1_int1"], ["repl2_int1"]] := by decide +kernel
  obtain ⟨a, rest, made, first, two⟩ := List.map_eq_cons_iff.mp two
  obtain ⟨b, rest, rfl, -, two⟩ := List.map_eq_cons_iff.mp two
  rw [List.map_eq_nil_iff.mp two] at made
  refine ⟨a, b, made, first, ?_⟩
  have disjoint := (distinct_names .default false valueSteps).2.2 0 1 a b
  rw [made] at disjoint
  exact disjoint rfl rfl (by decide)

end Session

end ScriptCompiler
