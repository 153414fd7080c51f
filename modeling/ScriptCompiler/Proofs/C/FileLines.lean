import Mathlib.Data.List.Basic
import ScriptCompiler.Proofs.C.Naming
import ScriptCompiler.Proofs.C.Scoping
import ScriptCompiler.Proofs.C.Templates

/-!
# Functions in the lines of a file

Which lines introduce a function, and how many of them a file of emitted C has for each function.
-/

/-!
## Lines that introduce functions

In a file of emitted C, the lines that introduce a function are its prototype and the first line of
its definition. No line of a body looks like one: it begins with another word, or what it declares
is not followed by a parenthesis.
-/

namespace ScriptCompiler.C

/-- The line is a prototype of a function of the name. -/
def declaresFunction (name line : String) : Bool :=
  [Signature.method, .scoped].any fun s => line = FunctionText.prototype ⟨name, s, []⟩

/-- The line opens a definition of a function of the name. -/
def definesFunction (name line : String) : Bool :=
  [Signature.method, .scoped].any fun s => line = FunctionText.header ⟨name, s, []⟩ ++ " \x7b"

/-- The line begins with the type of values, the name and a parenthesis. -/
def Introduces (name line : String) : Prop :=
  ∃ rest, line.toList = "GnObject".toList ++ ' ' :: '*' :: (name.toList ++ '(' :: rest)

theorem introduces_header (name : String) (signature : Signature) (body : List String)
    (ending : String) :
    Introduces name ((⟨name, signature, body⟩ : FunctionText).header ++ ending) := by
  simp [Introduces, FunctionText.header, String.toList_append]

theorem introduces_of_declaresFunction {name line : String}
    (h : declaresFunction name line = true) : Introduces name line := by
  simp only [declaresFunction, List.any_cons, List.any_nil, Bool.or_false, Bool.or_eq_true,
    decide_eq_true_eq] at h
  rcases h with rfl | rfl <;> exact introduces_header _ _ _ _

theorem introduces_of_definesFunction {name line : String}
    (h : definesFunction name line = true) : Introduces name line := by
  simp only [definesFunction, List.any_cons, List.any_nil, Bool.or_false, Bool.or_eq_true,
    decide_eq_true_eq] at h
  rcases h with rfl | rfl <;> exact introduces_header _ _ _ _

/-! ### First words -/

/-- Texts that begin with a word and a character after it agree on both. -/
theorem eq_of_append_cons {p : Char → Bool} {a b u w : List Char} {x y : Char}
    (ha : a.all p = true) (hb : b.all p = true) (hx : p x = false) (hy : p y = false)
    (h : a ++ x :: u = b ++ y :: w) : a = b ∧ x = y ∧ u = w := by
  have take : ∀ {a u : List Char} {x : Char}, a.all p = true → p x = false →
      (a ++ x :: u).takeWhile p = a := by
    intro a u x ha hx
    rw [List.takeWhile_append_of_pos (fun c hc => List.all_eq_true.mp ha c hc),
      List.takeWhile_cons, hx]
    simp
  have hab : a = b := by
    have := congrArg (List.takeWhile p) h
    rwa [take ha hx, take hb hy] at this
  subst hab
  have := List.append_cancel_left h
  rw [List.cons.injEq] at this
  exact ⟨rfl, this⟩

/-- A line with another first word, or with another character after it, introduces nothing. -/
theorem not_introduces_of_word {name line : String} (a : List Char) (x : Char)
    (hl : ∃ rest, line.toList = a ++ x :: rest) (ha : a.all identifierChar = true)
    (hx : identifierChar x = false) (hne : a ≠ "GnObject".toList ∨ x ≠ ' ') :
    ¬ Introduces name line := by
  rintro ⟨rest, hi⟩
  obtain ⟨rest', hl⟩ := hl
  obtain ⟨rfl, rfl, -⟩ := eq_of_append_cons ha (by decide) hx (by decide) (hl.symm.trans hi)
  rcases hne with hne | hne
  · exact hne rfl
  · exact hne rfl

/-- A declaration with a value introduces no function. -/
theorem not_introduces_of_value {name line : String} (v : List Char)
    (hl : ∃ rest, line.toList = "GnObject".toList ++ ' ' :: '*' :: (v ++ ' ' :: rest))
    (hv : v.all identifierChar = true) (hn : name.toList.all identifierChar = true) :
    ¬ Introduces name line := by
  rintro ⟨rest, hi⟩
  obtain ⟨rest', hl⟩ := hl
  obtain ⟨-, -, h⟩ := eq_of_append_cons (p := identifierChar) (by decide) (by decide) (by decide)
    (by decide) (hl.symm.trans hi)
  rw [List.cons.injEq] at h
  obtain ⟨-, hc, -⟩ := eq_of_append_cons hv hn (by decide) (by decide) h.2
  exact absurd hc (by decide)

/-- An assignment introduces nothing, even if its variable has the name of the type. -/
theorem not_introduces_of_assignment {name line : String} (v : List Char)
    (hl : ∃ rest, line.toList = v ++ ' ' :: '=' :: rest) (hv : v.all identifierChar = true) :
    ¬ Introduces name line := by
  rintro ⟨rest, hi⟩
  obtain ⟨rest', hl⟩ := hl
  obtain ⟨-, -, h⟩ := eq_of_append_cons hv (by decide) (by decide) (by decide) (hl.symm.trans hi)
  exact absurd (List.cons.inj h).1 (by decide)

/-- A declaration of a vector introduces no function. -/
theorem not_introduces_of_vector {name line : String}
    (hl : ∃ rest, line.toList = "GnObject".toList ++ ' ' :: '*' :: '*' :: rest)
    (hn : name.toList.all identifierChar = true) : ¬ Introduces name line := by
  rintro ⟨rest, hi⟩
  obtain ⟨rest', hl⟩ := hl
  obtain ⟨-, -, h⟩ := eq_of_append_cons (p := identifierChar) (by decide) (by decide) (by decide)
    (by decide) (hl.symm.trans hi)
  have h' : [] ++ '*' :: rest' = name.toList ++ '(' :: rest := (List.cons.inj h).2
  obtain ⟨-, hc, -⟩ := eq_of_append_cons rfl hn (by decide) (by decide) h'
  exact absurd hc (by decide)

/-- A line introduces one function only. -/
theorem Introduces.unique {a b line : String} (ha : a.toList.all identifierChar = true)
    (hb : b.toList.all identifierChar = true) (h : Introduces a line) (h' : Introduces b line) :
    a = b := by
  obtain ⟨rest, h⟩ := h
  obtain ⟨rest', h'⟩ := h'
  obtain ⟨-, -, h⟩ := eq_of_append_cons (p := identifierChar) (by decide) (by decide) (by decide)
    (by decide) (h.symm.trans h')
  rw [List.cons.injEq] at h
  obtain ⟨hab, -⟩ := eq_of_append_cons ha hb (by decide) (by decide) h.2
  exact String.toList_injective hab

/-! ### Statements -/

/-- The names of a body are spelled with characters of identifiers. -/
def Worded (body : List Stmt) : Prop :=
  ∀ x ∈ declaredIn body ++ usedIn body, x.toList.all identifierChar = true

theorem worded_append {a b : List Stmt} : Worded (a ++ b) ↔ Worded a ∧ Worded b := by
  simp only [Worded, declaredIn_append, usedIn_append, List.mem_append]
  grind

theorem worded_branch {condition : Condition} {yes no : List Stmt}
    (h : Worded [.branch condition yes no]) : Worded yes ∧ Worded no := by
  simp only [Worded, declaredIn_branch, usedIn_branch, List.mem_append] at h ⊢
  grind

variable {name : String}

theorem not_introduces_call {function : String} {args : List String} {ending : String}
    (hf : function.toList.all identifierChar = true) :
    ¬ Introduces name (call function args ++ ending) :=
  not_introduces_of_word function.toList '('
    (by simp [call, String.toList_append]) hf (by decide) (.inr (by decide))

mutual

theorem Stmt.not_introduces (hn : name.toList.all identifierChar = true) :
    (s : Stmt) → Worded [s] → ∀ line ∈ s.lines, ¬ Introduces name line
  | .declare v value, hw => by
    have hv : v.text.toList.all identifierChar = true :=
      hw _ (by simp [declaredIn, allOf, Stmt.all, Stmt.binds])
    simp only [Stmt.lines, List.mem_singleton, forall_eq]
    exact not_introduces_of_value v.text.toList (by simp [String.toList_append]) hv hn
  | .assign v value, hw => by
    have hv : v.text.toList.all identifierChar = true :=
      hw _ (by simp [usedIn, allOf, Stmt.all, Stmt.uses])
    simp only [Stmt.lines, List.mem_singleton, forall_eq]
    exact not_introduces_of_assignment v.text.toList (by simp [String.toList_append]) hv
  | .discard value, _ => by
    simp only [Stmt.lines, List.mem_singleton, forall_eq]
    exact not_introduces_of_word "GN_UNUSED".toList '(' (by simp [String.toList_append]) (by decide)
      (by decide) (.inl (by decide))
  | .unused formal, _ => by
    simp only [Stmt.lines, List.mem_singleton, forall_eq]
    exact not_introduces_of_word "GN_UNUSED".toList '(' (by simp [String.toList_append]) (by decide)
      (by decide) (.inl (by decide))
  | .push array value, _ => by
    simp only [Stmt.lines, List.mem_singleton, forall_eq]
    exact not_introduces_call (by decide)
  | .setLocal _ _, _ | .declareLocal _ _, _ | .setInstance _ _, _ | .setGlobal _ _, _
  | .defineMethod _ _, _ | .defineSingleton _ _ _, _ | .setBlock, _ | .closeRescue, _ => by
    simp only [Stmt.lines, List.mem_singleton, forall_eq]
    exact not_introduces_call (by decide)
  | .declareArgs array size, _ => by
    simp only [Stmt.lines, List.mem_singleton, forall_eq]
    exact not_introduces_of_vector (by simp [String.toList_append]) hn
  | .storeArg array index value, hw => by
    have ha : array.text.toList.all identifierChar = true :=
      hw _ (by simp [usedIn, allOf, Stmt.all, Stmt.uses])
    simp only [Stmt.lines, List.mem_singleton, forall_eq]
    exact not_introduces_of_word array.text.toList '[' (by simp [String.toList_append]) ha
      (by decide) (.inr (by decide))
  | .declareBlock name function, _ => by
    simp only [Stmt.lines, List.mem_singleton, forall_eq]
    exact not_introduces_of_word "GnBlock".toList ' ' (by simp [String.toList_append]) (by decide)
      (by decide) (.inl (by decide))
  | .assertArgc count, _ => by
    simp only [Stmt.lines, List.mem_singleton, forall_eq]
    exact not_introduces_of_word "GN_ASSERT_ARGC".toList '(' (by simp [String.toList_append])
      (by decide) (by decide) (.inl (by decide))
  | .enterEnv, _ | .enterBlockEnv, _ => by
    simp only [Stmt.lines, List.mem_singleton, forall_eq]
    exact not_introduces_of_word "env".toList ' ' (by simp [String.toList_append]) (by decide)
      (by decide) (.inl (by decide))
  | .branch condition yes no, hw => by
    obtain ⟨hy, hno⟩ := worded_branch hw
    intro line hl
    simp only [Stmt.lines, List.mem_append, List.mem_cons, List.not_mem_nil, or_false] at hl
    rcases hl with ((rfl | hl) | hl) | rfl
    · exact not_introduces_of_word "if".toList ' ' (by simp [String.toList_append]) (by decide)
        (by decide) (.inl (by decide))
    · exact linesOf_not_introduces hn yes hy line hl
    · split at hl
      · cases hl
      · rcases List.mem_cons.mp hl with rfl | hl
        · exact not_introduces_of_word [] '\x7d' (by simp) rfl (by decide) (.inl (by decide))
        · exact linesOf_not_introduces hn no hno line hl
    · exact not_introduces_of_word [] '\x7d' (by simp) rfl (by decide) (.inl (by decide))
  | .forever body, hw => by
    have hb : Worded body := by
      simpa only [Worded, declaredIn_forever, usedIn_forever] using hw
    intro line hl
    simp only [Stmt.lines, List.mem_append, List.mem_cons, List.not_mem_nil, or_false] at hl
    rcases hl with (rfl | hl) | rfl
    · exact not_introduces_of_word "while".toList ' ' (by simp) (by decide) (by decide)
        (.inl (by decide))
    · exact linesOf_not_introduces hn body hb line hl
    · exact not_introduces_of_word [] '\x7d' (by simp) rfl (by decide) (.inl (by decide))
  | .breakIf v truthy, _ => by
    simp only [Stmt.lines, List.mem_singleton, forall_eq]
    exact not_introduces_of_word "if".toList ' ' (by simp [String.toList_append]) (by decide)
      (by decide) (.inl (by decide))
  | .return_ value, _ => by
    simp only [Stmt.lines, List.mem_singleton, forall_eq]
    exact not_introduces_of_word "return".toList ' ' (by simp [String.toList_append]) (by decide)
      (by decide) (.inl (by decide))

theorem linesOf_not_introduces (hn : name.toList.all identifierChar = true) :
    (body : List Stmt) → Worded body → ∀ line ∈ linesOf body, ¬ Introduces name line
  | [], _ => nofun
  | s :: ss, hw => by
    obtain ⟨hs, hss⟩ := worded_append (a := [s]).mp hw
    intro line hl
    rw [linesOf] at hl
    rcases List.mem_append.mp hl with hl | hl
    · exact Stmt.not_introduces hn s hs line hl
    · exact linesOf_not_introduces hn ss hss line hl

end

end ScriptCompiler.C

/-!
## Functions of a file

A file has one prototype and one definition of each of its functions if their names are distinct,
and no prototype after the first definition. Only the entry function is defined beside them, without
a prototype.
-/

namespace ScriptCompiler.C

/-- The name of the entry function. -/
def FileKind.entryName : FileKind → String
  | .program | .snippet => "EVAL"
  | .unit name => "obj_" ++ name

/-- Lines that introduce no function. -/
def Quiet (lines : List String) : Prop :=
  ∀ name : String, name.toList.all identifierChar = true → ∀ line ∈ lines, ¬ Introduces name line

theorem quiet_append {a b : List String} : Quiet (a ++ b) ↔ Quiet a ∧ Quiet b := by
  simp only [Quiet, List.mem_append]
  grind

theorem Quiet.cons {line : String} {lines : List String} (first : Quiet [line])
    (others : Quiet lines) : Quiet (line :: lines) := by
  intro name hn line' hl
  rcases List.mem_cons.mp hl with rfl | hl
  · exact first name hn line' (List.mem_singleton_self line')
  · exact others name hn line' hl

theorem quiet_line {line : String}
    (h : ∀ name : String, name.toList.all identifierChar = true → ¬ Introduces name line) :
    Quiet [line] := by
  intro name hn line' hl
  obtain rfl := List.mem_singleton.mp hl
  exact h name hn

theorem quiet_word {line : String} (a : List Char) (x : Char)
    (hl : ∃ rest, line.toList = a ++ x :: rest) (ha : a.all identifierChar = true)
    (hx : identifierChar x = false) (hne : a ≠ "GnObject".toList ∨ x ≠ ' ') : Quiet [line] :=
  quiet_line fun _ _ => not_introduces_of_word a x hl ha hx hne

theorem quiet_blank : Quiet [""] := by
  refine quiet_line ?_
  rintro name - ⟨rest, h⟩
  simp at h

theorem quiet_linesOf {body : List Stmt} (h : Worded body) : Quiet (linesOf body) :=
  fun _ hn => linesOf_not_introduces hn body h

theorem quiet_sublist {a b : List String} (hs : a.Sublist b) (h : Quiet b) : Quiet a :=
  fun name hn line hl => h name hn line (hs.subset hl)

theorem quiet_paragraph {lines : List String} (h : Quiet lines) : Quiet (paragraph lines) := by
  unfold paragraph
  split
  · exact quiet_blank
  · exact h

theorem quiet_receiver : Quiet ["GnObject *self = gn_main_object(env);"] :=
  quiet_line fun _ hn =>
    not_introduces_of_value "self".toList ⟨"= gn_main_object(env);".toList, rfl⟩ (by decide) hn

theorem quiet_closing (kind : FileKind) : Quiet kind.closing := by
  have brace : Quiet ["\x7d"] := quiet_word [] '\x7d' ⟨_, rfl⟩ rfl (by decide) (.inl (by decide))
  cases kind with
  | unit name => exact brace
  | snippet => exact brace
  | program =>
    refine .cons brace (.cons quiet_blank (.cons ?_ ?_))
    · exact quiet_word "int".toList ' ' ⟨_, rfl⟩ (by decide) (by decide) (.inl (by decide))
    refine .cons ?_ (.cons quiet_receiver (.cons ?_ (.cons ?_ brace)))
    · exact quiet_word "GnEnv".toList ' ' ⟨_, rfl⟩ (by decide) (by decide) (.inl (by decide))
    · exact quiet_word "EVAL".toList '(' ⟨_, rfl⟩ (by decide) (by decide) (.inl (by decide))
    · exact quiet_word "return".toList ' ' ⟨_, rfl⟩ (by decide) (by decide) (.inl (by decide))

/-! ### Prototypes and first lines of definitions -/

variable {name : String}

theorem Quiet.not_declares {lines : List String} (h : Quiet lines)
    (hn : name.toList.all identifierChar = true) :
    ∀ line ∈ lines, declaresFunction name line = false := by
  intro line hl
  rw [Bool.eq_false_iff]
  exact fun hd => h name hn line hl (introduces_of_declaresFunction hd)

theorem Quiet.not_defines {lines : List String} (h : Quiet lines)
    (hn : name.toList.all identifierChar = true) :
    ∀ line ∈ lines, definesFunction name line = false := by
  intro line hl
  rw [Bool.eq_false_iff]
  exact fun hd => h name hn line hl (introduces_of_definesFunction hd)

/-- A prototype ends in a semicolon. -/
theorem not_defines_prototype (name : String) (f : FunctionText) :
    definesFunction name f.prototype = false := by
  rw [Bool.eq_false_iff]
  intro h
  simp only [definesFunction, List.any_cons, List.any_nil, Bool.or_false, Bool.or_eq_true,
    decide_eq_true_eq] at h
  rcases h with h | h <;>
  · have := congrArg (fun line => line.toList.getLast?) h
    simp [FunctionText.prototype, String.toList_append] at this

/-- The first line of a definition ends in a brace. -/
theorem not_declares_brace (name line : String) :
    declaresFunction name (line ++ " \x7b") = false := by
  rw [Bool.eq_false_iff]
  intro h
  simp only [declaresFunction, List.any_cons, List.any_nil, Bool.or_false, Bool.or_eq_true,
    decide_eq_true_eq] at h
  rcases h with h | h <;>
  · have := congrArg (fun line => line.toList.getLast?) h
    simp [FunctionText.prototype, String.toList_append] at this

theorem declares_prototype (hn : name.toList.all identifierChar = true) {f : FunctionText}
    (hf : f.name.toList.all identifierChar = true) :
    declaresFunction name f.prototype = decide (f.name = name) := by
  rw [Bool.eq_iff_iff, decide_eq_true_eq]
  constructor
  · exact fun h =>
      Introduces.unique hf hn (introduces_header _ _ _ _) (introduces_of_declaresFunction h)
  · rintro rfl
    obtain ⟨name, signature, body⟩ := f
    cases signature <;> simp [declaresFunction, FunctionText.prototype, FunctionText.header]

theorem defines_header (hn : name.toList.all identifierChar = true) {f : FunctionText}
    (hf : f.name.toList.all identifierChar = true) :
    definesFunction name (f.header ++ " \x7b") = decide (f.name = name) := by
  rw [Bool.eq_iff_iff, decide_eq_true_eq]
  constructor
  · exact fun h =>
      Introduces.unique hf hn (introduces_header _ _ _ _) (introduces_of_definesFunction h)
  · rintro rfl
    obtain ⟨name, signature, body⟩ := f
    cases signature <;> simp [definesFunction, FunctionText.header]

/-! ### Parts of a file -/

/-- The functions have names of identifiers, and no line of a body introduces another one. -/
structure Plain (functions : List FunctionText) : Prop where
  names : ∀ f ∈ functions, f.name.toList.all identifierChar = true
  bodies : ∀ f ∈ functions, Quiet f.body

theorem countP_prototypes (hn : name.toList.all identifierChar = true)
    {functions : List FunctionText} (hp : Plain functions) :
    (functions.map FunctionText.prototype).countP (declaresFunction name)
      = (functions.map (·.name)).count name := by
  rw [List.countP_map, List.count, List.countP_map]
  refine List.countP_congr fun f hf => ?_
  simp only [Function.comp_apply, declares_prototype hn (hp.names f hf), decide_eq_true_eq,
    beq_iff_eq]

/-- The lines of a definition, with the blank line before it. -/
theorem quiet_definition {f : FunctionText} (hb : Quiet f.body) : Quiet (f.body ++ ["\x7d"]) :=
  quiet_append.mpr ⟨hb, quiet_closing .snippet⟩

theorem not_declares_definitions (hn : name.toList.all identifierChar = true)
    {functions : List FunctionText} (hp : Plain functions) :
    ∀ line ∈ functions.flatMap (fun f => "" :: f.definition),
      declaresFunction name line = false := by
  intro line hl
  obtain ⟨f, hf, hl⟩ := List.mem_flatMap.mp hl
  rcases List.mem_cons.mp hl with rfl | hl
  · exact quiet_blank.not_declares hn _ List.mem_cons_self
  rcases List.mem_cons.mp hl with rfl | hl
  · exact not_declares_brace _ _
  · exact (quiet_definition (hp.bodies f hf)).not_declares hn line hl

theorem countP_definitions (hn : name.toList.all identifierChar = true)
    {functions : List FunctionText} (hp : Plain functions) :
    (functions.flatMap fun f => "" :: f.definition).countP (definesFunction name)
      = (functions.map (·.name)).count name := by
  induction functions with
  | nil => rfl
  | cons f functions ih =>
    have hf := hp.names f List.mem_cons_self
    have hb := quiet_definition (hp.bodies f List.mem_cons_self)
    have tail : (f.body ++ ["\x7d"]).countP (definesFunction name) = 0 :=
      List.countP_eq_zero.mpr fun line hl => by simp [hb.not_defines hn line hl]
    have blank : definesFunction name "" = false :=
      quiet_blank.not_defines hn _ List.mem_cons_self
    have others := ih ⟨fun g hg => hp.names g (List.mem_cons_of_mem _ hg),
      fun g hg => hp.bodies g (List.mem_cons_of_mem _ hg)⟩
    rw [List.flatMap_cons, List.countP_append, others, List.map_cons, List.count_cons,
      FunctionText.definition, List.cons_append, List.countP_cons, List.countP_cons, tail, blank,
      defines_header hn hf]
    simp only [decide_eq_true_eq, beq_iff_eq, Bool.false_eq_true, if_false]
    omega

/-- The entry function of a unit begins as a function with the signature of scopes does. -/
theorem opening_unit (u : String) :
    (FileKind.unit u).opening
      = [(⟨"obj_" ++ u, .scoped, []⟩ : FunctionText).header ++ " \x7b"] := by
  have line : "GnObject *obj_" ++ u ++ "(GnEnv *env, GnObject *self) \x7b"
      = (⟨"obj_" ++ u, .scoped, []⟩ : FunctionText).header ++ " \x7b" := by
    have lead : "GnObject *obj_" = "GnObject *" ++ "obj_" := by decide
    have params : "(GnEnv *env, GnObject *self) \x7b"
        = "(" ++ "GnEnv *env, GnObject *self" ++ ")" ++ " \x7b" := by decide
    unfold FunctionText.header Signature.params
    dsimp only
    rw [lead, params]
    simp only [String.append_assoc]
  rw [FileKind.opening, line]

/-- The entry function has no prototype. -/
theorem not_declares_opening (hn : name.toList.all identifierChar = true) (kind : FileKind) :
    ∀ line ∈ kind.opening, declaresFunction name line = false := by
  intro line hl
  cases kind with
  | program =>
    rw [List.mem_singleton.mp hl]
    exact not_declares_brace name "GnObject *EVAL(GnEnv *env, GnObject *self)"
  | unit u =>
    rw [opening_unit] at hl
    rw [List.mem_singleton.mp hl]
    exact not_declares_brace _ _
  | snippet =>
    rcases List.mem_cons.mp hl with rfl | hl
    · exact not_declares_brace name "GnObject *EVAL(GnEnv *env)"
    · exact quiet_receiver.not_declares hn line hl

/-- Beside other functions a file defines its entry function only. That of a snippet has parameters
of its own. -/
theorem countP_opening (hn : name.toList.all identifierChar = true) {kind : FileKind}
    (he : kind = .snippet → name ≠ "EVAL") (hk : kind.entryName.toList.all identifierChar = true) :
    kind.opening.countP (definesFunction name) = if name = kind.entryName then 1 else 0 := by
  cases kind with
  | program =>
    have line : definesFunction name "GnObject *EVAL(GnEnv *env, GnObject *self) \x7b"
        = decide ("EVAL" = name) := defines_header hn (f := ⟨"EVAL", .scoped, []⟩) hk
    rw [FileKind.opening, List.countP_singleton, line]
    simp only [FileKind.entryName, decide_eq_true_eq, eq_comm (b := name)]
    congr
  | unit u =>
    rw [opening_unit, List.countP_singleton, defines_header hn hk]
    simp only [FileKind.entryName, decide_eq_true_eq, eq_comm (b := name)]
    congr
  | snippet =>
    have line : ¬ Introduces name "GnObject *EVAL(GnEnv *env) \x7b" := fun h =>
      he rfl (Introduces.unique hn hk h ⟨"GnEnv *env) \x7b".toList, rfl⟩)
    rw [FileKind.entryName, if_neg (he rfl), List.countP_eq_zero]
    intro l hl hd
    rcases List.mem_cons.mp hl with rfl | hl
    · exact line (introduces_of_definesFunction hd)
    · rw [quiet_receiver.not_defines hn l hl] at hd
      cases hd

/-! ### Whole files -/

/-- The lines up to the last prototype. -/
def headLines (functions : List FunctionText) : List String :=
  [includeLine, ""] ++ functions.map FunctionText.prototype

/-- The lines from the first definition on. -/
def restLines (kind : FileKind) (functions : List FunctionText) (statements last : List String) :
    List String :=
  functions.flatMap (fun f => "" :: f.definition)
    ++ ([""] ++ (kind.opening ++ (paragraph statements ++ (paragraph last ++ kind.closing))))

theorem fileLines_eq (kind : FileKind) (functions : List FunctionText)
    (statements last : List String) :
    fileLines kind functions statements last
      = headLines functions ++ restLines kind functions statements last := by
  simp only [fileLines, functionLines, headLines, restLines, List.append_assoc]

/-- Nothing is defined ahead of the last prototype. -/
theorem not_defines_headLines (name : String) (functions : List FunctionText) :
    ∀ line ∈ headLines functions, definesFunction name line = false := by
  intro line hl
  rcases List.mem_append.mp hl with hl | hl
  · have other : ∀ line ∈ [includeLine, ""], line.toList.head? ≠ some 'G' := by decide
    rw [Bool.eq_false_iff]
    intro hd
    obtain ⟨rest, h⟩ := introduces_of_definesFunction hd
    exact other line hl (by rw [h]; rfl)
  · obtain ⟨f, -, rfl⟩ := List.mem_map.mp hl
    exact not_defines_prototype name f

section Counts

variable {kind : FileKind} {functions : List FunctionText} {statements last : List String}

/-- What stands after the entry function is opened introduces nothing. -/
theorem quiet_entry (hs : Quiet statements) (hl : Quiet last) :
    Quiet (paragraph statements ++ (paragraph last ++ kind.closing)) :=
  quiet_append.mpr ⟨quiet_paragraph hs, quiet_append.mpr ⟨quiet_paragraph hl, quiet_closing kind⟩⟩

theorem not_declares_restLines (hn : name.toList.all identifierChar = true)
    (hp : Plain functions) (hs : Quiet statements) (hl : Quiet last) :
    ∀ line ∈ restLines kind functions statements last, declaresFunction name line = false := by
  intro line h
  rcases List.mem_append.mp h with h | h
  · exact not_declares_definitions hn hp line h
  rcases List.mem_append.mp h with h | h
  · exact quiet_blank.not_declares hn line h
  rcases List.mem_append.mp h with h | h
  · exact not_declares_opening hn kind line h
  · exact (quiet_entry hs hl).not_declares hn line h

theorem countP_declares_fileLines (hn : name.toList.all identifierChar = true)
    (hp : Plain functions) (hs : Quiet statements) (hl : Quiet last) :
    (fileLines kind functions statements last).countP (declaresFunction name)
      = (functions.map (·.name)).count name := by
  have first : [includeLine, ""].countP (declaresFunction name) = 0 := by
    rw [List.countP_eq_zero]
    intro line h hd
    have other : ∀ line ∈ [includeLine, ""], line.toList.head? ≠ some 'G' := by decide
    obtain ⟨rest, h'⟩ := introduces_of_declaresFunction hd
    exact other line h (by rw [h']; rfl)
  have rest : (restLines kind functions statements last).countP (declaresFunction name) = 0 :=
    List.countP_eq_zero.mpr fun line h => by simp [not_declares_restLines hn hp hs hl line h]
  rw [fileLines_eq, List.countP_append, headLines, List.countP_append, first, rest,
    countP_prototypes hn hp]
  omega

theorem countP_defines_fileLines (hn : name.toList.all identifierChar = true)
    (he : kind = .snippet → name ≠ "EVAL") (hk : kind.entryName.toList.all identifierChar = true)
    (hp : Plain functions) (hs : Quiet statements) (hl : Quiet last) :
    (fileLines kind functions statements last).countP (definesFunction name)
      = (functions.map (·.name)).count name + if name = kind.entryName then 1 else 0 := by
  have head : (headLines functions).countP (definesFunction name) = 0 :=
    List.countP_eq_zero.mpr fun line h => by simp [not_defines_headLines name functions line h]
  have blank : [""].countP (definesFunction name) = 0 :=
    List.countP_eq_zero.mpr fun line h => by simp [quiet_blank.not_defines hn line h]
  have entry : (paragraph statements ++ (paragraph last ++ kind.closing)).countP
      (definesFunction name) = 0 :=
    List.countP_eq_zero.mpr fun line h => by simp [(quiet_entry hs hl).not_defines hn line h]
  rw [fileLines_eq, List.countP_append, head, restLines, List.countP_append,
    countP_definitions hn hp, List.countP_append, blank, List.countP_append, entry,
    countP_opening hn he hk]
  omega

end Counts

end ScriptCompiler.C
