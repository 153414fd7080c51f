import ScriptCompiler.Compile.Program
import ScriptCompiler.Compile.UnitName
import ScriptCompiler.Proofs.C.Naming
import ScriptCompiler.Proofs.Load.Refusals
import ScriptCompiler.Proofs.Lowering.Files

/-!
# What compiling a text comes to

A text that is compiled to a file with a name that C allows does not parse, or leads to a file that
cannot be loaded, or has a parameter list with the block in a wrong place, or becomes the file. The
other reasons that lowering has to fail are ruled out by what comes before it: the grammar builds no
unknown node, expansion leaves no directive, and a unit without a name gets one from its file.
-/

namespace ScriptCompiler

open C

/-! ## Names of units are identifiers

Whatever path a unit is read from, and whatever files there are, the name that the unit gets from
its file is a C identifier: of a stem only letters and digits are kept, with no digit in front, and
the digits of a digest are hexadecimal.
-/

/-! ## Digits of a digest -/

namespace Digest

theorem identifierChar_hexDigit : ∀ {n : Nat}, n < 16 → identifierChar (hexDigit n) = true := by
  decide

theorem all_hexDigits (count n : Nat) : (hexDigits count n).all identifierChar = true := by
  induction count with
  | zero => rfl
  | succ count ih =>
    have digit := identifierChar_hexDigit (Nat.mod_lt (n >>> (4 * count)) (by decide : 0 < 16))
    rw [hexDigits, List.all_cons, digit, ih]
    rfl

theorem all_sha256 (message : List UInt8) : (sha256 message).all identifierChar = true := by
  rw [sha256, List.all_flatMap, List.all_eq_true]
  exact fun w _ => all_hexDigits 8 w.toNat

end Digest

namespace UnitName

/-! ## Stems -/

theorem identifierChar_of_isPlain {c : Char} (h : isPlain c = true) : identifierChar c = true := by
  simp only [isPlain, identifierChar, startsIdentifier, Bool.or_eq_true] at h ⊢
  tauto

/-- A character of an identifier that may not stand at its start is a digit. -/
theorem startsIdentifier_of_not_digit {c : Char} (h : identifierChar c = true)
    (hd : ('0' ≤ c && c ≤ '9') = false) : startsIdentifier c = true := by
  rwa [identifierChar, hd, Bool.or_false] at h

/-- The characters open an identifier. -/
def Opens (cs : List Char) : Prop :=
  ∃ c rest, cs = c :: rest ∧ startsIdentifier c = true ∧ rest.all identifierChar = true

theorem opens_clean {stem : List Char} (h : clean stem ≠ []) : Opens (clean stem) := by
  have plain : (stem.map fun c => if isPlain c then c else '_').all identifierChar = true := by
    rw [List.all_map, List.all_eq_true]
    intro c _
    rw [Function.comp_apply]
    split
    · exact identifierChar_of_isPlain ‹_›
    · rfl
  unfold clean at h ⊢
  dsimp only at h ⊢
  split
  · next c rest text =>
    split
    · exact ⟨'_', _, rfl, rfl, plain⟩
    · next nodigit =>
      rw [text, List.all_cons, Bool.and_eq_true] at plain
      exact ⟨c, rest, text,
        startsIdentifier_of_not_digit plain.1 (Bool.eq_false_iff.mpr nodigit), plain.2⟩
  · next text =>
    rw [text] at h
    exact absurd rfl h

theorem opens_stem (path : Path) : Opens (stem path) := by
  unfold stem
  split
  · exact ⟨'u', "nit".toList, rfl, rfl, rfl⟩
  · next some_ => exact opens_clean some_

/-! ## Names -/

theorem all_hash (place : Path) : (hash place).all identifierChar = true := by
  rw [List.all_eq_true]
  intro c hc
  exact List.all_eq_true.mp (Digest.all_sha256 _) c (List.mem_of_mem_take hc)

/-- **Names of units.** The name that a unit gets from its file is a C identifier. -/
theorem isIdentifier_ofFile (fs : FileSystem) (path : Path) :
    isIdentifier (ofFile fs path) = true := by
  obtain ⟨c, rest, hs, first, others⟩ := opens_stem path
  have all : (rest ++ '_' :: hash (place fs path)).all identifierChar = true := by
    rw [List.all_append, List.all_cons, others, all_hash]
    rfl
  rw [ofFile, hs, isIdentifier, String.toList_ofList, List.cons_append]
  exact Bool.and_eq_true_iff.mpr ⟨first, all⟩

end UnitName

open Lowering

/-! ## Lowering to a file -/

namespace Lowering

/-- A program is refused for what is refused in its body, if its file is named as C allows. -/
theorem refuses_compileStep {kind : FileKind} (hk : kind.Named) (program : Body) :
    Refuses (compileStep kind program) (Refusals.ofNodes program) := by
  refine (refuses_lowerBody program).last fun code => ?_
  dsimp only
  rw [assemble_of_named hk]
  exact .pure _

theorem failure?_compile {kind : FileKind} (hk : kind.Named) (program : Body) :
    failure? (compile kind program) = (Refusals.ofNodes program).head? :=
  refuses_compileStep hk program _

end Lowering

/-- The options name no unit, or leave its name out, or give it one that C allows. -/
def Options.Named (o : Options) : Prop :=
  ∀ name, o.output = .unit name → name = "" ∨ isIdentifier name = true

theorem Options.Named.kindOf {o : Options} (h : o.Named) (fs : FileSystem) (path : Path) :
    (o.kindOf fs path).Named := by
  intro name hk
  unfold Options.kindOf at hk
  split at hk
  · next given output =>
    cases hk
    split
    · exact UnitName.isIdentifier_ofFile fs path
    · next some_ => exact (h given output).resolve_left fun none_ => some_ (by rw [none_]; rfl)
  · next other => exact absurd hk (other name)

/-! ## Outcomes -/

/-- What compiling a text comes to: a fault of the text, a directive that fails, the first parameter
list that is refused in the expanded program, or the file. -/
inductive CompileOutcome (fs : FileSystem) (o : Options) (path : Path) (source : String) :
    Except CompileError String → Prop
  | parse {failure : ParseFailure} (h : parse path.text source [] = .error failure) :
      CompileOutcome fs o path source (.error (.parse failure))
  | load {program : Body} {e : LoadError} (parsed : parse path.text source [] = .ok program)
      (h : (Load.expand (o.settings fs) path program
        (Load.markLoaded (o.settings fs) .empty path)).1 = .error e) :
      CompileOutcome fs o path source (.error (.load e))
  | param {program expanded : Body} {owner : ParamOwner} {param : String}
      (parsed : parse path.text source [] = .ok program)
      (loaded : (Load.expand (o.settings fs) path program
        (Load.markLoaded (o.settings fs) .empty path)).1 = .ok expanded)
      (h : (Refusals.ofNodes expanded).head? = some (.blockParamNotLast owner param)) :
      CompileOutcome fs o path source (.error (.lowering (.blockParamNotLast owner param)))
  | compiled {program expanded : Body} {text : String}
      (parsed : parse path.text source [] = .ok program)
      (loaded : (Load.expand (o.settings fs) path program
        (Load.markLoaded (o.settings fs) .empty path)).1 = .ok expanded)
      (plain : Refusals.ofNodes expanded = [])
      (h : compile (o.kindOf fs path) expanded = .ok text) :
      CompileOutcome fs o path source (.ok text)

/-- **What compiling a text comes to.** Whatever the text, its path, the files and the options are,
as long as a unit that the options name is named as C allows, the text is compiled, or does not
parse, or cannot be loaded, or has a parameter list that is refused. A unit without a name gets one
that C allows. -/
theorem outcome_compileSource (fs : FileSystem) (o : Options) (path : Path) (source : String)
    (named : o.Named) :
    CompileOutcome fs o path source (compileSource fs o path source)
      ∧ isIdentifier (UnitName.ofFile fs path) = true := by
  refine ⟨?_, UnitName.isIdentifier_ofFile fs path⟩
  unfold compileSource
  cases parsed : parse path.text source [] with
  | error failure => exact .parse parsed
  | ok program =>
    dsimp only [Except.mapError, bind, Except.bind]
    rcases expands : Load.expand (o.settings fs) path program
      (Load.markLoaded (o.settings fs) .empty path) with ⟨e | expanded, tracker⟩
    · exact .load parsed (congrArg Prod.fst expands)
    · have loaded := congrArg Prod.fst expands
      have only := Load.onlyParams_of_expand (expandable_of_parse parsed) expands
      have reason := failure?_compile (named.kindOf fs path) expanded
      dsimp only
      rcases compiles : compile (o.kindOf fs path) expanded with f | text <;>
        rw [compiles] at reason
      · have refused := only f (List.mem_of_mem_head? reason.symm)
        cases f with
        | blockParamNotLast owner param => exact .param parsed loaded reason.symm
        | _ => cases refused
      · exact .compiled parsed loaded (List.head?_eq_none_iff.mp reason.symm) compiles

/-- A method whose first parameter receives the block. -/
def misplacedText : String := "def m(&b, x)\nend"

/-- The file of a unit without a name is called as no identifier may start. -/
theorem outcome_misplacedText :
    compileSource ⟨[], []⟩ ⟨[], .unit "", none⟩ ⟨"2fast.gn"⟩ misplacedText
        = .error (.lowering (.blockParamNotLast (.method "m") "b"))
      ∧ CompileOutcome ⟨[], []⟩ ⟨[], .unit "", none⟩ ⟨"2fast.gn"⟩ misplacedText
        (.error (.lowering (.blockParamNotLast (.method "m") "b")))
      ∧ isIdentifier (UnitName.ofFile ⟨[], []⟩ ⟨"2fast.gn"⟩) = true := by
  have fails : compileSource ⟨[], []⟩ ⟨[], .unit "", none⟩ ⟨"2fast.gn"⟩ misplacedText
      = .error (.lowering (.blockParamNotLast (.method "m") "b")) := by
    decide +kernel
  have outcome := outcome_compileSource ⟨[], []⟩ ⟨[], .unit "", none⟩ ⟨"2fast.gn"⟩ misplacedText
    (by rintro _ ⟨⟩; exact .inl rfl)
  rw [fails] at outcome
  exact ⟨fails, outcome⟩

end ScriptCompiler
