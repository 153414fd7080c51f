import ScriptCompiler.Lowering.Program
import ScriptCompiler.Proofs.C.Braces
import ScriptCompiler.Proofs.C.FileLines
import ScriptCompiler.Proofs.Lowering.Scoping

/-!
# Files of lowered programs

The file of a lowered program is closed, well scoped and laid out by its braces.
-/

/-!
## Compiled files

The file that a program is compiled to is closed and well scoped: every function has one prototype,
ahead of all definitions, and one definition, unless the file is a unit that is named so that its
entry function has the name of another one.
-/

namespace ScriptCompiler

namespace C

/-! ### Spelling -/

/-- The lead of generated names is nothing or an identifier. -/
def PlainLead (lead : String) : Prop :=
  lead = "" ∨ isIdentifier lead = true

/-- A unit is named as an identifier. -/
def FileKind.Named (kind : FileKind) : Prop :=
  ∀ name, kind = .unit name → isIdentifier name = true

theorem all_of_isIdentifier {s : String} (h : isIdentifier s = true) :
    s.toList.all identifierChar = true := by
  unfold isIdentifier at h
  split at h
  · cases h
  · rename_i c rest hs
    rw [Bool.and_eq_true] at h
    rw [hs, List.all_cons, identifierChar, h.1, Bool.true_or, Bool.true_and]
    exact h.2

theorem PlainLead.all {lead : String} (h : PlainLead lead) :
    lead.toList.all identifierChar = true := by
  rcases h with rfl | h
  · rfl
  · exact all_of_isIdentifier h

theorem FileKind.Named.all {kind : FileKind} (h : kind.Named) :
    kind.entryName.toList.all identifierChar = true := by
  cases kind with
  | unit name =>
    rw [FileKind.entryName, String.toList_append, List.all_append,
      all_of_isIdentifier (h name rfl)]
    decide
  | _ => decide

/-- A unit that is named as an identifier has slashes in the places of its template only. -/
theorem FileKind.Named.slash_not_mem_opening {kind : FileKind} (h : kind.Named) :
    '/' ∉ joined kind.opening := by
  cases kind with
  | unit name =>
    have word : '/' ∉ name.toList := fun hm =>
      absurd (List.all_eq_true.mp (all_of_isIdentifier (h name rfl)) _ hm) (by decide)
    simp only [FileKind.opening, joined_singleton, String.toList_append, List.mem_append, not_or]
    exact ⟨⟨by decide, word⟩, by decide⟩
  | _ => decide

theorem Spelled.all {lead x : String} (hl : PlainLead lead) (h : Spelled lead x) :
    x.toList.all identifierChar = true := by
  rcases h with rfl | ⟨n, hn, hb, rfl⟩
  · decide
  · exact Name.all_text (hn ▸ hl.all) hb

/-- All names in a well-scoped body are spelled with characters of identifiers. -/
theorem WellScoped.worded {functions : List Function} {lead : String} {signature : Signature}
    {body : List Stmt} (h : WellScoped functions lead signature body) (hl : PlainLead lead) :
    Worded body := by
  have declared : ∀ x ∈ declaredIn body, x.toList.all identifierChar = true :=
    fun x hx => (h.spelled x hx).all hl
  have given : ∀ x ∈ signature.names, x.toList.all identifierChar = true := by
    cases signature <;> decide
  intro x hx
  rcases List.mem_append.mp hx with hx | hx
  · exact declared x hx
  · rcases List.mem_append.mp (h.inScope.used_subset _ hx) with hx | hx
    · exact given x hx
    · exact declared x hx

/-! ### Well-scoped files -/

/-- A file is closed and well scoped. Its functions have distinct names, and each has one prototype
and one definition, or two if it has the name of the entry function; no line before a definition of
any function is a prototype; and all bodies are well scoped. -/
structure WellScopedFile (kind : FileKind) (lead : String) (functions : List Function)
    (entry : List Stmt) (lines : List String) : Prop where
  distinct : (functions.map fun f => f.name.text).Nodup
  prototypes : ∀ f ∈ functions, lines.countP (declaresFunction f.name.text) = 1
  definitions : ∀ f ∈ functions, lines.countP (definesFunction f.name.text)
    = if f.name.text = kind.entryName then 2 else 1
  ahead : ∃ before after, lines = before ++ after
    ∧ (∀ name line, line ∈ before → definesFunction name line = false)
    ∧ ∀ f ∈ functions, ∀ line ∈ after, declaresFunction f.name.text line = false
  bodies : ∀ f ∈ functions, f.WellScoped functions
  entry : WellScoped functions lead .scoped entry

end C

namespace Lowering

open C

theorem text_toText (functions : List Function) :
    (functions.map Function.toText).map (·.name) = functions.map fun f => f.name.text :=
  List.map_map

section Parts

variable {ctx ctx' : Context} {code : Code} (h : NeatCode ctx ctx' ["self"] code)
  (numbered : Numbered ctx ctx' (namesOf code.functions)) (hl : PlainLead ctx.lead)

include numbered hl in
/-- Functions are spelled with characters of identifiers. -/
theorem all_text_of_numbered :
    ∀ f ∈ code.functions, f.name.text.toList.all identifierChar = true := by
  intro f hf
  have hn : f.name ∈ namesOf code.functions := List.mem_map_of_mem hf
  exact Name.all_text (numbered.leads _ hn ▸ hl.all) (numbered.plain _ hn)

include h numbered hl

/-- The functions of a neat body as text. -/
theorem NeatCode.plain_functions : Plain (code.functions.map Function.toText) := by
  constructor <;> intro f hf <;> obtain ⟨g, hg, rfl⟩ := List.mem_map.mp hf
  · exact all_text_of_numbered numbered hl g hg
  · have lead := numbered.leads _ (List.mem_map_of_mem hg)
    exact quiet_linesOf ((h.functions g hg).worded (lead ▸ hl))

omit numbered in
/-- The statements of a neat body introduce no function. -/
theorem NeatCode.quiet_splitReturn : Quiet code.splitReturn.1 ∧ Quiet code.splitReturn.2 := by
  have entry : WellScoped code.functions ctx.lead .scoped code.stmts :=
    h.wellScoped (.nil .scoped)
  have body := quiet_linesOf (entry.worded hl)
  exact ⟨quiet_sublist (List.take_sublist _ _) body, quiet_sublist (List.drop_sublist _ _) body⟩

/-- A neat body makes a file that is closed and well scoped. -/
theorem NeatCode.wellScopedFile {kind : FileKind} (hk : kind.Named) :
    WellScopedFile kind ctx.lead code.functions code.stmts
      (fileLines kind (code.functions.map Function.toText) code.splitReturn.1
        code.splitReturn.2) := by
  have distinct : (code.functions.map fun f => f.name.text).Nodup := by
    have := numbered.nodup_texts
    rwa [namesOf, List.map_map] at this
  have spelled := all_text_of_numbered numbered hl
  have plain := h.plain_functions numbered hl
  obtain ⟨statements, last⟩ := h.quiet_splitReturn hl
  have once : ∀ f ∈ code.functions,
      ((code.functions.map Function.toText).map (·.name)).count f.name.text = 1 := by
    intro f hf
    rw [text_toText]
    exact List.count_eq_one_of_mem distinct (List.mem_map_of_mem hf)
  refine ⟨distinct, ?_, ?_, ?_, h.functions, h.wellScoped (.nil .scoped)⟩
  · intro f hf
    rw [countP_declares_fileLines (spelled f hf) plain statements last]
    exact once f hf
  · intro f hf
    have he : f.name.text ≠ "EVAL" := Name.text_ne (by decide) _
    rw [countP_defines_fileLines (spelled f hf) (fun _ => he) hk.all plain statements last,
      once f hf]
    split <;> rfl
  · refine ⟨_, _, fileLines_eq _ _ _ _, ?_, ?_⟩
    · exact fun name => not_defines_headLines name _
    · exact fun f hf => not_declares_restLines (spelled f hf) plain statements last

end Parts

/-- A file that is named as C allows is made of its lines. -/
theorem assemble_of_named {kind : FileKind} (hk : kind.Named) (functions : List FunctionText)
    (statements last : List String) :
    assemble kind functions statements last
      = .ok (indent ("\n".intercalate (fileLines kind functions statements last))) := by
  rw [← file_eq hk.slash_not_mem_opening]
  cases kind with
  | unit name => exact if_pos (hk name rfl)
  | _ => rfl

/-- A body that can be lowered is compiled to the file made of its functions and statements. -/
theorem compileFrom_of_ok {ctx ctx' : Context} {program : Body} {code : Code} (kind : FileKind)
    (h : lowerBody program ctx = (.ok code, ctx')) :
    compileFrom ctx kind program = (assemble kind (code.functions.map Function.toText)
      code.splitReturn.1 code.splitReturn.2, ctx') := by
  refine (bind_of_ok h).trans ?_
  dsimp only
  cases assemble kind (code.functions.map Function.toText) code.splitReturn.1
    code.splitReturn.2 <;> rfl

/-- Only a body that can be lowered is compiled. -/
theorem lowerBody_of_compileFrom {ctx ctx' : Context} {kind : FileKind} {program : Body}
    {text : String} (h : compileFrom ctx kind program = (.ok text, ctx')) :
    ∃ code, lowerBody program ctx = (.ok code, ctx') ∧ assemble kind
      (code.functions.map Function.toText) code.splitReturn.1 code.splitReturn.2 = .ok text := by
  obtain ⟨code, mid, hb, -⟩ := bind_ok h
  rw [compileFrom_of_ok kind hb, Prod.mk.injEq] at h
  obtain ⟨ha, rfl⟩ := h
  exact ⟨code, hb, ha⟩

/-- **Compiled files are closed and well scoped.** A body that can be lowered compiles to the file
made of its functions and statements, whatever the file is for, and with any lead that C allows. -/
theorem wellScopedFile_compileFrom {ctx ctx' : Context} {kind : FileKind} {program : Body}
    {code : Code} (h : lowerBody program ctx = (.ok code, ctx')) (hl : PlainLead ctx.lead)
    (hk : kind.Named) :
    ∃ lines, compileFrom ctx kind program = (.ok (indent ("\n".intercalate lines)), ctx')
      ∧ WellScopedFile kind ctx.lead code.functions code.stmts lines := by
  have lowers := lowers_of_lowerBody h
  refine ⟨_, ?_, (lowers.neat List.mem_cons_self).wellScopedFile lowers.numbered hl hk⟩
  rw [compileFrom_of_ok kind h, assemble_of_named hk]

/-- A conditional with a branch. -/
def branchProgram : Body :=
  [⟨.conditional [⟨⟨.localVar "a", default⟩, [⟨.integer 1, default⟩]⟩] none, default⟩]

theorem wellScopedFile_branchProgram :
    ∃ code ctx' lines, lowerBody branchProgram (.start "main_" .empty) = (.ok code, ctx')
      ∧ code.functions.length = 1
      ∧ compileFrom (.start "main_" .empty) (.unit "main") branchProgram
        = (.ok (indent ("\n".intercalate lines)), ctx')
      ∧ WellScopedFile (.unit "main") "main_" code.functions code.stmts lines := by
  have h : lowerBody branchProgram (.start "main_" .empty) = (.ok _, _) := rfl
  have hk : (FileKind.unit "main").Named := by
    rintro _ ⟨⟩
    decide
  obtain ⟨lines, hc, hw⟩ := wellScopedFile_compileFrom h (.inr (by decide)) hk
  exact ⟨_, _, lines, h, rfl, hc, hw⟩

/-- A unit may be named so that the function of a branch is defined twice. -/
theorem defined_twice_branchProgram :
    ∃ code ctx' lines, lowerBody branchProgram (.start "obj_" .empty) = (.ok code, ctx')
      ∧ isIdentifier "obj_" = true ∧ isIdentifier "if_branch3" = true
      ∧ compileFrom (.start "obj_" .empty) (.unit "if_branch3") branchProgram
        = (.ok (indent ("\n".intercalate lines)), ctx')
      ∧ ¬ ∀ f ∈ code.functions, lines.countP (definesFunction f.name.text) = 1 := by
  have named : (FileKind.unit "if_branch3").Named := by
    rintro _ ⟨⟩
    decide
  have lowered : lowerBody branchProgram (.start "obj_" .empty) = (.ok _, _) := rfl
  have compiled := (compileFrom_of_ok (.unit "if_branch3") lowered).trans
    (congrArg (·, _) (assemble_of_named named _ _ _))
  refine ⟨_, _, _, lowered, by decide, by decide, compiled, ?_⟩
  intro h
  have := h _ List.mem_cons_self
  revert this
  decide

end Lowering

end ScriptCompiler

/-!
## Laid out programs

The file that a program is compiled to has all lines that the program was lowered to, each as it is
and in its place, between the lines of the template; it is indented by its braces, which are
balanced. Names and texts of the program change nothing of this, even where they look like braces,
line breaks or places of the template.
-/

namespace ScriptCompiler.Lowering

open C

section Parts

variable {ctx ctx' : Context} {code : Code} (h : NeatCode ctx ctx' ["self"] code)
  (numbered : Numbered ctx ctx' (namesOf code.functions)) (hl : PlainLead ctx.lead)

include numbered hl

/-- Calls of functions that are there have printable names. -/
theorem wordedCalls_of_provided {body : List Stmt}
    (hc : ∀ ref ∈ callsIn body, Provided code.functions ref) : WordedCalls body := by
  intro ref hr
  obtain ⟨f, hf, name, -⟩ := hc ref hr
  exact name ▸ printable_of_all (all_text_of_numbered numbered hl f hf)

include h

/-- The functions of a neat body are balanced. -/
theorem NeatCode.balanced_functions :
    ∀ f ∈ code.functions.map Function.toText, Printable f.name ∧ Balanced f.body := by
  rw [List.forall_mem_map]
  intro f hf
  have lead := numbered.leads _ (List.mem_map_of_mem hf)
  have inner := h.functions f hf
  have calls := wordedCalls_of_provided numbered hl inner.closed
  exact ⟨printable_of_all (all_text_of_numbered numbered hl f hf),
    balanced_linesOf _ (inner.worded (lead ▸ hl)) calls⟩

/-- The statements of a neat body are balanced. -/
theorem NeatCode.balanced_stmts : Balanced (linesOf code.stmts) := by
  have entry : WellScoped code.functions ctx.lead .scoped code.stmts :=
    h.wellScoped (.nil .scoped)
  exact balanced_linesOf _ (entry.worded hl) (wordedCalls_of_provided numbered hl entry.closed)

end Parts

/-- **Compiled files are laid out as their parts.** A body that can be lowered compiles to a text
with the prototypes and definitions of its functions and with its statements, whatever the file is
for, and with any lead that C allows. -/
theorem laidOut_compileFrom {ctx ctx' : Context} {kind : FileKind} {program : Body} {code : Code}
    (h : lowerBody program ctx = (.ok code, ctx')) (hl : PlainLead ctx.lead) (hk : kind.Named) :
    ∃ text, compileFrom ctx kind program = (.ok text, ctx')
      ∧ LaidOut text
        (fileParts kind (code.functions.map Function.toText) (linesOf code.stmts)) := by
  have lowers := lowers_of_lowerBody h
  have neat : NeatCode ctx ctx' ["self"] code := lowers.neat List.mem_cons_self
  have whole : code.splitReturn.1 ++ code.splitReturn.2 = linesOf code.stmts :=
    List.take_append_drop _ _
  have statements := whole ▸ neat.balanced_stmts lowers.numbered hl
  refine ⟨_, (compileFrom_of_ok kind h).trans (by rw [assemble_of_named hk]), ?_⟩
  rw [← whole]
  exact laidOut_fileLines (printable_of_all hk.all) (neat.balanced_functions lowers.numbered hl)
    statements

/-- Texts and names that look like places of a template, braces, quotes and line breaks. -/
def placesProgram : Body :=
  [⟨.methodDef none " /*TOP*/\x7d" []
      [⟨.globalVar "$\n\x7d", default⟩, ⟨.str "/*BODY*/\r\n\x7b \"/*DECL*/\\ ", default⟩], default⟩,
    ⟨.conditional [⟨⟨.symbol "\x7b\n", default⟩, []⟩] none, default⟩]

theorem laidOut_placesProgram :
    ∃ code ctx' text, lowerBody placesProgram (.start "u_" .empty) = (.ok code, ctx')
      ∧ code.functions.length = 2
      ∧ compileFrom (.start "u_" .empty) (.unit "u") placesProgram = (.ok text, ctx')
      ∧ LaidOut text
        (fileParts (.unit "u") (code.functions.map Function.toText) (linesOf code.stmts)) := by
  have h : lowerBody placesProgram (.start "u_" .empty) = (.ok _, _) := rfl
  have hk : (FileKind.unit "u").Named := by
    rintro _ ⟨⟩
    decide
  obtain ⟨text, compiled, laidOut⟩ := laidOut_compileFrom h (.inr (by decide)) hk
  exact ⟨_, _, text, h, rfl, compiled, laidOut⟩

end ScriptCompiler.Lowering
