import Mathlib.Data.List.Forall2
import ScriptCompiler.C.Code
import ScriptCompiler.C.Layout
import ScriptCompiler.Lowering.Program
import ScriptCompiler.Proofs.C.Naming
import ScriptCompiler.Proofs.C.Reading

/-!
# Code and lines under another lead

Emitted code that is the same but for the lead of its generated names, and the lines that it is
printed as.
-/

/-!
## Code under another lead

Two pieces of emitted code are the same but for the lead of their generated names if they are put
together in the same way, and wherever one has a generated name, the other has the name with the
same base and the same number under the other lead. Names and texts of the compiled program, which
stand in the code as data, are the same in both.
-/

namespace ScriptCompiler.C

/-- What generated names are for. -/
def generatedBases : List String :=
  ["int", "str", "sym", "arr", "var", "ivar", "gvar", "nil", "call", "args", "method", "block_fn",
    "blk", "class", "class_result", "class_body", "module", "module_result", "module_body",
    "if_result", "if_branch", "if_else", "while_body", "until_body", "begin", "begin_result",
    "begin_body", "rescue_body", "else_body"]

/-! ### Parts without names -/

/-- No generated name is in the expression. -/
def Expr.isFixed : Expr → Bool
  | .variable_ _ | .send _ _ _ | .lookupOrSend _ _ _ | .callSuper _ | .runBlock _ | .callHere _
  | .callInside _ _ => false
  | _ => true

/-- No generated name is in the statement. -/
def Stmt.isFixed : Stmt → Bool
  | .unused _ | .assertArgc _ | .enterEnv | .enterBlockEnv | .setBlock | .closeRescue => true
  | .declareLocal _ value => value.isFixed
  | _ => false

/-! ### Two leads -/

section

variable (p q : String)

/-- A generated name under the first lead, and the same under the second one. -/
inductive Name.Renamed : Name → Name → Prop
  | intro {base : String} (known : base ∈ generatedBases) (number : Nat) :
    Renamed ⟨p, base, number⟩ ⟨q, base, number⟩

/-- A variable, and the same under the second lead. -/
inductive Variable.Renamed : Variable → Variable → Prop
  | self : Renamed .self .self
  | outcome : Renamed .outcome .outcome
  | generated {n n' : Name} (name : n.Renamed p q n') : Renamed (.generated n) (.generated n')

/-- A vector of arguments, and the same under the second lead. -/
inductive ArgVector.Renamed : ArgVector → ArgVector → Prop
  | none : Renamed .none .none
  | single {v v' : Variable} (arg : v.Renamed p q v') : Renamed (.single v) (.single v')
  | array {n n' : Name} (name : n.Renamed p q n') : Renamed (.array n) (.array n')

/-- What is passed with a message, and the same under the second lead. -/
structure Passed.Renamed (passed passed' : Passed) : Prop where
  argc : passed.argc = passed'.argc
  argv : passed.argv.Renamed p q passed'.argv
  block : Option.Rel (Name.Renamed p q) passed.block passed'.block

/-- An expression, and the same under the second lead. -/
inductive Expr.Renamed : Expr → Expr → Prop
  | fixed {e : Expr} (h : e.isFixed = true) : Renamed e e
  | variable_ {v v' : Variable} (hv : v.Renamed p q v') : Renamed (.variable_ v) (.variable_ v')
  | send {r r' : Variable} (name : String) {args args' : Passed} (receiver : r.Renamed p q r')
    (passed : args.Renamed p q args') : Renamed (.send r name args) (.send r' name args')
  | lookupOrSend {r r' : Variable} (name : String) {args args' : Passed}
    (receiver : r.Renamed p q r') (passed : args.Renamed p q args') :
    Renamed (.lookupOrSend r name args) (.lookupOrSend r' name args')
  | callSuper {args args' : Passed} (passed : args.Renamed p q args') :
    Renamed (.callSuper args) (.callSuper args')
  | runBlock {args args' : Passed} (passed : args.Renamed p q args') :
    Renamed (.runBlock args) (.runBlock args')
  | callHere {f f' : Name} (function : f.Renamed p q f') : Renamed (.callHere f) (.callHere f')
  | callInside {f f' : Name} {r r' : Variable} (function : f.Renamed p q f')
    (receiver : r.Renamed p q r') : Renamed (.callInside f r) (.callInside f' r')

/-- A condition, and the same under the second lead. -/
inductive Condition.Renamed : Condition → Condition → Prop
  | truthy {v v' : Variable} (hv : v.Renamed p q v') : Renamed (.truthy v) (.truthy v')
  | isNull {v v' : Variable} (hv : v.Renamed p q v') : Renamed (.isNull v) (.isNull v')
  | rescueOpens : Renamed .rescueOpens .rescueOpens

mutual

/-- A statement, and the same under the second lead. -/
inductive Stmt.Renamed : Stmt → Stmt → Prop
  | fixed {s : Stmt} (h : s.isFixed = true) : Stmt.Renamed s s
  | declare {v v' : Variable} {e e' : Expr} (hv : v.Renamed p q v') (value : e.Renamed p q e') :
    Stmt.Renamed (.declare v e) (.declare v' e')
  | assign {v v' : Variable} {e e' : Expr} (hv : v.Renamed p q v') (value : e.Renamed p q e') :
    Stmt.Renamed (.assign v e) (.assign v' e')
  | discard {e e' : Expr} (value : e.Renamed p q e') : Stmt.Renamed (.discard e) (.discard e')
  | push {a a' v v' : Variable} (array : a.Renamed p q a') (value : v.Renamed p q v') :
    Stmt.Renamed (.push a v) (.push a' v')
  | setLocal (name : String) {e e' : Expr} (value : e.Renamed p q e') :
    Stmt.Renamed (.setLocal name e) (.setLocal name e')
  | declareLocal (name : String) {e e' : Expr} (value : e.Renamed p q e') :
    Stmt.Renamed (.declareLocal name e) (.declareLocal name e')
  | setInstance (name : String) {v v' : Variable} (value : v.Renamed p q v') :
    Stmt.Renamed (.setInstance name v) (.setInstance name v')
  | setGlobal (name : String) {v v' : Variable} (value : v.Renamed p q v') :
    Stmt.Renamed (.setGlobal name v) (.setGlobal name v')
  | declareArgs {n n' : Name} (array : n.Renamed p q n') (size : Nat) :
    Stmt.Renamed (.declareArgs n size) (.declareArgs n' size)
  | storeArg {n n' : Name} {v v' : Variable} (array : n.Renamed p q n') (index : Nat)
    (value : v.Renamed p q v') : Stmt.Renamed (.storeArg n index v) (.storeArg n' index v')
  | declareBlock {n n' f f' : Name} (name : n.Renamed p q n') (function : f.Renamed p q f') :
    Stmt.Renamed (.declareBlock n f) (.declareBlock n' f')
  | defineMethod (name : String) {f f' : Name} (function : f.Renamed p q f') :
    Stmt.Renamed (.defineMethod name f) (.defineMethod name f')
  | defineSingleton {e e' : Expr} (name : String) {f f' : Name} (owner : e.Renamed p q e')
    (function : f.Renamed p q f') :
    Stmt.Renamed (.defineSingleton e name f) (.defineSingleton e' name f')
  | branch {c c' : Condition} {yes yes' no no' : List Stmt} (condition : c.Renamed p q c')
    (hy : RenamedAll yes yes') (hn : RenamedAll no no') :
    Stmt.Renamed (.branch c yes no) (.branch c' yes' no')
  | forever {body body' : List Stmt} (h : RenamedAll body body') :
    Stmt.Renamed (.forever body) (.forever body')
  | breakIf {v v' : Variable} (hv : v.Renamed p q v') (truthy : Bool) :
    Stmt.Renamed (.breakIf v truthy) (.breakIf v' truthy)
  | return_ {e e' : Expr} (value : e.Renamed p q e') : Stmt.Renamed (.return_ e) (.return_ e')

/-- Statements, and the same under the second lead. -/
inductive RenamedAll : List Stmt → List Stmt → Prop
  | nil : RenamedAll [] []
  | cons {s s' : Stmt} {ss ss' : List Stmt} (first : Stmt.Renamed s s')
    (others : RenamedAll ss ss') : RenamedAll (s :: ss) (s' :: ss')

end

/-- A function, and the same under the second lead. -/
structure Function.Renamed (f f' : Function) : Prop where
  name : f.name.Renamed p q f'.name
  signature : f.signature = f'.signature
  body : RenamedAll p q f.body f'.body

end

variable {p q : String}

namespace RenamedAll

theorem append {a a' b b' : List Stmt} (ha : RenamedAll p q a a') (hb : RenamedAll p q b b') :
    RenamedAll p q (a ++ b) (a' ++ b') := by
  match ha with
  | .nil => exact hb
  | .cons first others => exact .cons first (others.append hb)

theorem single {s s' : Stmt} (h : s.Renamed p q s') : RenamedAll p q [s] [s'] :=
  .cons h .nil

theorem isEmpty_eq {ss ss' : List Stmt} (h : RenamedAll p q ss ss') : ss'.isEmpty = ss.isEmpty := by
  cases h <;> rfl

/-- Code without generated names is its own copy. -/
theorem of_isFixed : {ss : List Stmt} → ss.all Stmt.isFixed = true → RenamedAll p q ss ss
  | [], _ => .nil
  | s :: ss, h => by
    rw [List.all_cons, Bool.and_eq_true] at h
    exact .cons (.fixed h.1) (of_isFixed h.2)

end RenamedAll

end ScriptCompiler.C

/-!
## Lines of C under another lead

A line of C under another lead: every word outside string literals that is spelled as a generated
name gets the other lead, and all else is left as it is. Code that is the same under two leads is
printed as lines of which those under the second lead are the respelled ones under the first,
whatever its literals say: they may well be spelled as generated names. The first lead has only
characters of identifiers, so that a generated name is one word of the line that it stands in.
-/

namespace ScriptCompiler.C

/-! ### Words -/

/-- Digits, and at least one. -/
def isNumeral (cs : List Char) : Bool :=
  !cs.isEmpty && cs.all Char.isDigit

/-- The word is spelled as a generated name: a lead, a base and a number. -/
def isGenerated (lead : String) (word : List Char) : Bool :=
  generatedBases.any fun base =>
    (lead ++ base).toList.isPrefixOf word && isNumeral (word.drop (lead ++ base).toList.length)

/-- A word with the second lead in the place of the first one, if it is spelled as a generated name
with the first one. -/
def respellWord (p q : String) (word : List Char) : List Char :=
  if isGenerated p word then q.toList ++ word.drop p.toList.length else word

theorem plainBase_of_generated : ∀ {base : String}, base ∈ generatedBases →
    plainBase base = true ∧ base ≠ "" := by
  decide

theorem isNumeral_toString (n : Nat) : isNumeral (toString n).toList = true := by
  have digits : (toString n).toList.all Char.isDigit = true :=
    List.all_eq_true.mpr fun c hc => isDigit_of_mem_toString hc
  have some_ : (toString n).toList ≠ [] := by
    have hn : (toString n : String) = Nat.repr n := rfl
    rw [hn, Nat.toList_repr]
    exact Nat.toDigits_ne_nil
  rw [isNumeral, digits, List.isEmpty_eq_false_iff.mpr some_]
  rfl

theorem isGenerated_iff {lead : String} {word : List Char} :
    isGenerated lead word = true ↔ ∃ base ∈ generatedBases, ∃ digits, isNumeral digits = true
      ∧ word = lead.toList ++ (base.toList ++ digits) := by
  simp only [isGenerated, List.any_eq_true, Bool.and_eq_true, List.isPrefixOf_iff_prefix,
    String.toList_append]
  constructor
  · rintro ⟨base, known, ⟨digits, rfl⟩, numeral⟩
    rw [List.drop_left] at numeral
    exact ⟨base, known, digits, numeral, List.append_assoc _ _ _⟩
  · rintro ⟨base, known, digits, numeral, rfl⟩
    rw [← List.append_assoc]
    exact ⟨base, known, ⟨digits, rfl⟩, by rwa [List.drop_left]⟩

section

variable {p q : String}

/-- Generated names end in a digit. -/
theorem respellWord_of_last {word : List Char} (h : ∀ c ∈ word.getLast?, c.isDigit = false) :
    respellWord p q word = word := by
  refine if_neg fun generated => ?_
  rw [isGenerated_iff] at generated
  obtain ⟨base, -, digits, numeral, rfl⟩ := generated
  rw [isNumeral, Bool.and_eq_true, Bool.not_eq_true', List.isEmpty_eq_false_iff] at numeral
  have last : digits.getLast numeral.1 ∈ (p.toList ++ (base.toList ++ digits)).getLast? := by
    rw [← List.append_assoc, List.getLast?_append, List.getLast?_eq_some_getLast numeral.1]
    rfl
  have digit := List.all_eq_true.mp numeral.2 _ (List.getLast_mem numeral.1)
  rw [h _ last] at digit
  cases digit

/-- Generated names have letters. -/
theorem respellWord_of_digits {word : List Char} (h : word.all Char.isDigit = true) :
    respellWord p q word = word := by
  refine if_neg fun generated => ?_
  rw [isGenerated_iff] at generated
  obtain ⟨base, known, digits, -, rfl⟩ := generated
  obtain ⟨plain, some_⟩ := plainBase_of_generated known
  obtain ⟨c, cs, hb⟩ := List.exists_cons_of_ne_nil (mt String.toList_eq_nil_iff.mp some_)
  rw [plainBase, hb, List.all_cons, Bool.and_eq_true] at plain
  have digit := List.all_eq_true.mp h c (by simp [hb])
  rw [not_isDigit_of_startsIdentifier plain.1] at digit
  cases digit

@[simp] theorem respellWord_nil : respellWord p q [] = [] :=
  respellWord_of_last nofun

theorem respellWord_name {n n' : Name} (h : n.Renamed p q n') :
    respellWord p q n.text.toList = n'.text.toList := by
  obtain ⟨known, number⟩ := h
  rw [Name.toList_text, Name.toList_text, respellWord, if_pos, List.drop_left]
  rw [isGenerated_iff]
  exact ⟨_, known, _, isNumeral_toString number, rfl⟩

end

/-! ### Respelling -/

/-- Where one is in a line of C that is read from left to right. -/
inductive Reading where
  /-- Outside string literals, behind the given characters of a word. -/
  | word (before : List Char)
  /-- Inside a string literal. -/
  | literal
  /-- Inside a string literal, behind a backslash. -/
  | escape

/-- The rest of a line with the second lead in the place of the first one. -/
def respellFrom (p q : String) : Reading → List Char → List Char
  | .word before, [] => respellWord p q before
  | .word before, c :: rest =>
    if identifierChar c then respellFrom p q (.word (before ++ [c])) rest
    else respellWord p q before
      ++ c :: respellFrom p q (if c = '"' then .literal else .word []) rest
  | .literal, [] | .escape, [] => []
  | .literal, c :: rest =>
    c :: respellFrom p q (if c = '"' then .word [] else if c = '\\' then .escape else .literal) rest
  | .escape, c :: rest => c :: respellFrom p q .literal rest

/-- A line with the second lead in the place of the first one in all generated names. -/
def respell (p q line : String) : String :=
  String.ofList (respellFrom p q (.word []) line.toList)

variable {p q : String}

/-! #### Character by character -/

theorem respellFrom_within {c : Char} (h : identifierChar c = true) (before rest : List Char) :
    respellFrom p q (.word before) (c :: rest) = respellFrom p q (.word (before ++ [c])) rest :=
  if_pos h

/-- A word is over, and a literal may start. -/
theorem respellFrom_boundary {c : Char} (h : identifierChar c = false) (before rest : List Char) :
    respellFrom p q (.word before) (c :: rest) = respellWord p q before
      ++ c :: respellFrom p q (if c = '"' then .literal else .word []) rest :=
  if_neg (Bool.eq_false_iff.mp h)

theorem respellFrom_literal {c : Char} (quote : c ≠ '"') (backslash : c ≠ '\\')
    (rest : List Char) :
    respellFrom p q .literal (c :: rest) = c :: respellFrom p q .literal rest := by
  show c :: respellFrom p q (if c = '"' then _ else if c = '\\' then _ else _) rest = _
  rw [if_neg quote, if_neg backslash]

/-! #### Words -/

theorem respellFrom_identifier {word : List Char} (h : word.all identifierChar = true)
    (before rest : List Char) :
    respellFrom p q (.word before) (word ++ rest)
      = respellFrom p q (.word (before ++ word)) rest := by
  induction word generalizing before with
  | nil => rw [List.nil_append, List.append_nil]
  | cons c word ih =>
    rw [List.all_cons, Bool.and_eq_true] at h
    rw [List.cons_append, respellFrom_within h.1, ih h.2, List.append_assoc]
    rfl

/-- A text does not go on with the word before it. -/
def Apart (rest : List Char) : Prop :=
  ∀ c ∈ rest.head?, identifierChar c = false

/-- A word that is over. -/
theorem respellFrom_of_apart {rest : List Char} (h : Apart rest) (before : List Char) :
    respellFrom p q (.word before) rest
      = respellWord p q before ++ respellFrom p q (.word []) rest := by
  cases rest with
  | nil =>
    show respellWord p q before = respellWord p q before ++ respellWord p q []
    rw [respellWord_nil, List.append_nil]
  | cons c rest =>
    have ended := h c rfl
    rw [respellFrom_boundary ended, respellFrom_boundary ended, respellWord_nil, List.nil_append]

/-! #### Respelled texts -/

/-- The first text is respelled as the second one, where no word goes on behind it. -/
def Respells (p q a b : String) : Prop :=
  ∀ rest, Apart rest → respellFrom p q (.word []) (a.toList ++ rest)
    = b.toList ++ respellFrom p q (.word []) rest

/-- The first text is respelled as the second one, whatever comes behind it. -/
def Settles (p q a b : String) : Prop :=
  ∀ rest, respellFrom p q (.word []) (a.toList ++ rest)
    = b.toList ++ respellFrom p q (.word []) rest

theorem Settles.respells {a b : String} (h : Settles p q a b) : Respells p q a b :=
  fun rest _ => h rest

theorem Respells.eq {a b : String} (h : Respells p q a b) : respell p q a = b := by
  have whole := h [] nofun
  have nothing : respellFrom p q (.word []) [] = [] := respellWord_nil
  rw [List.append_nil, nothing, List.append_nil] at whole
  rw [respell, whole, String.ofList_toList]

theorem Settles.append {a a' b b' : String} (ha : Settles p q a a') (hb : Respells p q b b') :
    Respells p q (a ++ b) (a' ++ b') := by
  intro rest apart
  rw [String.toList_append, String.toList_append, List.append_assoc, ha, hb rest apart,
    List.append_assoc]

/-- A word is respelled by itself. -/
theorem respells_identifier {a b : String} (h : a.toList.all identifierChar = true)
    (hw : respellWord p q a.toList = b.toList) : Respells p q a b := by
  intro rest apart
  rw [respellFrom_identifier h, List.nil_append, respellFrom_of_apart apart, hw]

/-! #### Fixed texts -/

/-- No literal starts in the text, and no digit is in it. -/
def isBare (text : List Char) : Bool :=
  text.all fun c => c ≠ '"' && !c.isDigit

theorem not_isDigit_last_of_isBare {text : List Char} (h : isBare text = true) :
    ∀ c ∈ text.getLast?, c.isDigit = false := by
  intro c hc
  have bare := List.all_eq_true.mp h c (List.mem_of_mem_getLast? hc)
  rw [Bool.and_eq_true, Bool.not_eq_true'] at bare
  exact bare.2

theorem respellFrom_of_isBare {text before rest : List Char} (h : isBare text = true)
    (hb : isBare before = true) (apart : Apart rest) :
    respellFrom p q (.word before) (text ++ rest)
      = before ++ (text ++ respellFrom p q (.word []) rest) := by
  induction text generalizing before with
  | nil =>
    rw [List.nil_append, respellFrom_of_apart apart,
      respellWord_of_last (not_isDigit_last_of_isBare hb)]
    rfl
  | cons c text ih =>
    rw [isBare, List.all_cons, Bool.and_eq_true, Bool.and_eq_true, decide_eq_true_eq] at h
    rw [List.cons_append]
    cases inside : identifierChar c with
    | true =>
      have longer : isBare (before ++ [c]) = true := by
        rw [isBare, List.all_append, Bool.and_eq_true]
        exact ⟨hb, by simpa using h.1⟩
      rw [respellFrom_within inside, ih h.2 longer, List.append_assoc]
      rfl
    | false =>
      rw [respellFrom_boundary inside, respellWord_of_last (not_isDigit_last_of_isBare hb),
        if_neg h.1.1, ih h.2 rfl]
      rfl

theorem respells_of_isBare {a : String} (h : isBare a.toList = true) : Respells p q a a :=
  fun _ apart => respellFrom_of_isBare h rfl apart

/-- The text ends at a boundary of words. -/
def isClosed (text : List Char) : Bool :=
  isBare text && text.getLast?.any (!identifierChar ·)

theorem settles_of_isClosed {a : String} (h : isClosed a.toList = true) : Settles p q a a := by
  intro rest
  rw [isClosed, Bool.and_eq_true] at h
  obtain ⟨bare, closed⟩ := h
  obtain ⟨c, hc, ended⟩ := (Option.any_eq_true _ _).mp closed
  rw [Bool.not_eq_true'] at ended
  obtain ⟨before, ha⟩ := List.getLast?_eq_some_iff.mp hc
  rw [ha] at bare ⊢
  rw [isBare, List.all_append, Bool.and_eq_true] at bare
  have apart : Apart (c :: rest) := by
    rintro _ ⟨⟩
    exact ended
  have other : c ≠ '"' := by
    have last := bare.2
    rw [List.all_cons, Bool.and_eq_true, Bool.and_eq_true, decide_eq_true_eq] at last
    exact last.1.1
  rw [List.append_assoc, List.singleton_append, respellFrom_of_isBare bare.1 rfl apart,
    respellFrom_boundary ended, if_neg other, respellWord_nil, List.append_assoc]
  rfl

/-- The text is apart from words before it and behind it. -/
def isMark (text : List Char) : Bool :=
  isClosed text && text.head?.any (!identifierChar ·)

/-- A mark behind another text: the last word of the text is over there. -/
theorem Respells.mark {a a' : String} (h : Respells p q a a') (mark : String)
    (hm : isMark mark.toList = true) : Settles p q (a ++ mark) (a' ++ mark) := by
  rw [isMark, Bool.and_eq_true] at hm
  obtain ⟨c, hc, ended⟩ := (Option.any_eq_true _ _).mp hm.2
  intro rest
  have apart : Apart (mark.toList ++ rest) := by
    rw [Apart, List.head?_append, hc]
    rintro _ ⟨⟩
    rwa [Bool.not_eq_true'] at ended
  rw [String.toList_append, String.toList_append, List.append_assoc, h _ apart,
    settles_of_isClosed hm.1, List.append_assoc]

/-- A text behind a fixed one and before another. -/
theorem Respells.between {a a' : String} (h : Respells p q a a') (before after : String)
    (hb : isClosed before.toList = true) (ha : isMark after.toList = true) :
    Settles p q (before ++ a ++ after) (before ++ a' ++ after) :=
  ((settles_of_isClosed hb).append h).mark after ha

/-! #### Literals -/

theorem respells_toString (n : Nat) : Respells p q (toString n) (toString n) :=
  respells_identifier (all_toString n)
    (respellWord_of_digits (List.all_eq_true.mpr fun _ hc => isDigit_of_mem_toString hc))

/-- Digits of a long number. -/
theorem respells_long {digits : String} (h : digits.toList.all identifierChar = true) :
    Respells p q (digits ++ "LL") (digits ++ "LL") := by
  refine respells_identifier ?_ (respellWord_of_last ?_)
  · rw [String.toList_append, List.all_append, h]
    rfl
  · rw [String.toList_append, List.getLast?_append]
    rintro _ ⟨⟩
    rfl

theorem respells_integerLiteral (value : Int64) :
    Respells p q (integerLiteral value) (integerLiteral value) := by
  unfold integerLiteral
  split
  · have digits : Respells p q "9223372036854775807LL" "9223372036854775807LL" :=
      respells_long (show "9223372036854775807".toList.all identifierChar = true by decide)
    have first : Settles p q ("(-" ++ "9223372036854775807LL" ++ " - ") _ :=
      ((settles_of_isClosed (a := "(-") (by decide)).append digits).mark " - " (by decide)
    exact ((first.append (respells_toString 1)).mark ")" (by decide)).respells
  · cases value.toInt with
    | ofNat n => exact respells_long (all_toString n)
    | negSucc n =>
      have digits := respells_long (p := p) (q := q) (all_toString (n + 1))
      have sign : Settles p q "-" "-" := settles_of_isClosed (by decide)
      have whole := sign.append digits
      rwa [← String.append_assoc] at whole

theorem respellFrom_literalByte (b : UInt8) (rest : List Char) :
    respellFrom p q .literal (literalByte b ++ rest)
      = literalByte b ++ respellFrom p q .literal rest := by
  rcases literalByte_cases b with ⟨letter, h, -⟩ | ⟨c, h, -, quote, -, backslash, -⟩ | h
  · rw [h]
    rfl
  · rw [h, List.singleton_append, respellFrom_literal quote backslash]
    rfl
  · have digit (k : Nat) (rest : List Char) :
        respellFrom p q .literal (Nat.digitChar (k % 8) :: rest)
          = Nat.digitChar (k % 8) :: respellFrom p q .literal rest := by
      obtain ⟨value, -, backslash, -⟩ := digitChar_octal (Nat.mod_lt k (by decide : 8 > 0))
      have quote : Nat.digitChar (k % 8) ≠ '"' := by
        intro he
        rw [he] at value
        cases value
      exact respellFrom_literal quote backslash rest
    have escape : respellFrom p q .literal ('\\' :: (octal b.toNat ++ rest))
        = '\\' :: respellFrom p q .escape (octal b.toNat ++ rest) := rfl
    have skip (c : Char) (rest : List Char) :
        respellFrom p q .escape (c :: rest) = c :: respellFrom p q .literal rest := rfl
    rw [h, List.cons_append, escape, octal, List.cons_append, skip]
    simp only [List.cons_append, List.nil_append, digit]

/-- **Literals are not respelled.** -/
theorem settles_stringLiteral (s : String) :
    Settles p q (stringLiteral s) (stringLiteral s) := by
  intro rest
  have inside (bs : List UInt8) :
      respellFrom p q .literal (bs.flatMap literalByte ++ '"' :: rest)
        = bs.flatMap literalByte ++ '"' :: respellFrom p q (.word []) rest := by
    induction bs with
    | nil => rfl
    | cons b bs ih =>
      rw [List.flatMap_cons, List.append_assoc, respellFrom_literalByte, ih, List.append_assoc]
  have start (cs : List Char) : respellFrom p q (.word []) ('"' :: cs)
      = '"' :: respellFrom p q .literal cs := by
    rw [respellFrom_boundary (by decide), respellWord_nil]
    rfl
  rw [stringLiteral, String.toList_ofList, List.cons_append, List.cons_append, start,
    List.append_assoc, List.singleton_append, inside, List.cons_append, List.append_assoc]
  rfl

/-- Generated names inside literals are text, and numbers are no names. -/
example : respell "u_" "" "u_int1 = gn_send(env, u_var12, \"u_int1 \\\"u_int1\", 1, &u_sym3, NULL);"
    = "int1 = gn_send(env, var12, \"u_int1 \\\"u_int1\", 1, &sym3, NULL);" := by
  decide

/-! #### Calls -/

theorem respells_commas {first first' : String} (h : Respells p q first first')
    {texts texts' : List String} (ht : List.Forall₂ (Respells p q) texts texts') :
    Respells p q (", ".intercalate (first :: texts)) (", ".intercalate (first' :: texts')) := by
  induction ht generalizing first first' with
  | nil => exact h
  | cons next others ih =>
    have before := h.mark ", " (by decide)
    simpa only [String.intercalate_cons_cons] using before.append (ih next)

theorem settles_call {function function' : String} (hf : Respells p q function function')
    {args args' : List String} (ha : List.Forall₂ (Respells p q) args args') :
    Settles p q (call function args) (call function' args') := by
  have env : Respells p q "env" "env" := respells_of_isBare (by decide)
  have opened := hf.mark "(" (by decide)
  exact (opened.append (respells_commas env ha)).mark ")" (by decide)

/-- A call of a function of the runtime library. -/
theorem settles_library {function : String} (hf : isBare function.toList = true)
    {args args' : List String} (ha : List.Forall₂ (Respells p q) args args') :
    Settles p q (call function args) (call function args') :=
  settles_call (respells_of_isBare hf) ha

/-! ### Expressions -/

section

variable (hp : p.toList.all identifierChar = true)

include hp

theorem Name.Renamed.respells {n n' : Name} (h : n.Renamed p q n') :
    Respells p q n.text n'.text := by
  have word : n.text.toList.all identifierChar = true := by
    obtain ⟨known, number⟩ := h
    exact Name.all_text hp (plainBase_of_generated known).1
  exact respells_identifier word (respellWord_name h)

theorem Variable.Renamed.respells {v v' : Variable} (h : v.Renamed p q v') :
    Respells p q v.text v'.text := by
  cases h with
  | self | outcome => exact respells_of_isBare (by decide)
  | generated name => exact name.respells hp

theorem ArgVector.Renamed.respells {v v' : ArgVector} (h : v.Renamed p q v') :
    Respells p q v.text v'.text := by
  cases h with
  | none => exact respells_of_isBare (by decide)
  | single arg =>
    have address : Settles p q "&" "&" := settles_of_isClosed (by decide)
    exact address.append (arg.respells hp)
  | array name => exact name.respells hp

theorem Passed.Renamed.respells {passed passed' : Passed} (h : passed.Renamed p q passed') :
    List.Forall₂ (Respells p q) passed.texts passed'.texts := by
  obtain ⟨argc, argv, block⟩ := passed
  obtain ⟨argc', argv', block'⟩ := passed'
  obtain ⟨rfl, vector, handed⟩ := h
  have last : Respells p q ((block.map Name.text).getD "NULL")
      ((block'.map Name.text).getD "NULL") := by
    cases handed with
    | none => exact respells_of_isBare (by decide)
    | some name => exact name.respells hp
  exact .cons (respells_toString argc) (.cons (vector.respells hp) (.cons last .nil))

end

/-- A string literal as the only argument. -/
theorem respells_literal (s : String) :
    List.Forall₂ (Respells p q) [stringLiteral s] [stringLiteral s] :=
  .cons (settles_stringLiteral s).respells .nil

/-- The environment's value of a name. -/
theorem settles_getLocal (name : String) :
    Settles p q (call "gn_env_get" [stringLiteral name]) (call "gn_env_get" [stringLiteral name]) :=
  settles_library (by decide) (respells_literal name)

/-- An expression without generated names is not respelled. -/
theorem Expr.respells_of_isFixed {e : Expr} (h : e.isFixed = true) :
    Respells p q e.text e.text := by
  have self : Respells p q "self" "self" := respells_of_isBare (by decide)
  cases e with
  | integer value =>
    exact (settles_library (by decide) (.cons (respells_integerLiteral value) .nil)).respells
  | str name | symbol name | getLocal name | lookup name | getGlobal name | newModule name =>
    exact (settles_library (by decide) (respells_literal name)).respells
  | emptyArray | exception => exact (settles_library (by decide) .nil).respells
  | getInstance name =>
    exact (settles_library (by decide) (.cons self (respells_literal name))).respells
  | newClass superclass name =>
    have super := (settles_getLocal (p := p) (q := q) superclass).respells
    exact (settles_library (by decide) (.cons super (respells_literal name))).respells
  | passedBlock =>
    have block : Respells p q "block" "block" := respells_of_isBare (by decide)
    exact (settles_library (by decide) (.cons block .nil)).respells
  | argument index =>
    exact ((respells_toString index).between "args[" "]" (by decide) (by decide)).respells
  | argumentOrNil index =>
    have number : Respells p q (toString index) (toString index) := respells_toString index
    have question := number.between "argc > " " ? args[" (by decide) (by decide)
    have colon := (question.append number).mark "] : " (by decide)
    exact colon.append (settles_getLocal nilName).respells
  | variable_ | send | lookupOrSend | callSuper | runBlock | callHere | callInside => cases h

section

variable (hp : p.toList.all identifierChar = true)

include hp

/-- **Expressions** under the second lead are respelled ones under the first. -/
theorem Expr.Renamed.respells {e e' : Expr} (h : e.Renamed p q e') :
    Respells p q e.text e'.text := by
  have self : Respells p q "self" "self" := respells_of_isBare (by decide)
  cases h with
  | fixed h => exact Expr.respells_of_isFixed h
  | variable_ v => exact v.respells hp
  | send name receiver passed | lookupOrSend name receiver passed =>
    have literal := (settles_stringLiteral (p := p) (q := q) name).respells
    exact (settles_library (by decide)
      (.cons (receiver.respells hp) (.cons literal (passed.respells hp)))).respells
  | callSuper passed =>
    have key := (settles_getLocal (p := p) (q := q) methodNameKey).respells
    exact (settles_library (by decide) (.cons self (.cons key (passed.respells hp)))).respells
  | runBlock passed =>
    have block : Settles p q (call "gn_env_get_block" []) (call "gn_env_get_block" []) :=
      settles_library (by decide) .nil
    exact (settles_library (by decide) (.cons block.respells (passed.respells hp))).respells
  | callHere function => exact (settles_call (function.respells hp) (.cons self .nil)).respells
  | callInside function receiver =>
    have env : Settles p q (call "gn_build_env" []) (call "gn_build_env" []) :=
      settles_library (by decide) .nil
    have opened := (function.respells hp).mark "(" (by decide)
    have comma := (opened.append env.respells).mark ", " (by decide)
    exact ((comma.append (receiver.respells hp)).mark ")" (by decide)).respells

theorem Variable.Renamed.settles_truthyText {v v' : Variable} (h : v.Renamed p q v') :
    Settles p q (truthyText v) (truthyText v') :=
  settles_library (by decide) (.cons (h.respells hp) .nil)

theorem Condition.Renamed.respells {c c' : Condition} (h : c.Renamed p q c') :
    Respells p q c.text c'.text := by
  cases h with
  | truthy v => exact (v.settles_truthyText hp).respells
  | isNull v =>
    have not_ : Settles p q "!" "!" := settles_of_isClosed (by decide)
    exact not_.append (v.respells hp)
  | rescueOpens => exact respells_of_isBare (by decide)

end

/-! ### Statements -/

/-- A line of its own. -/
theorem Settles.line {a a' : String} (h : Settles p q a a') : [a'] = [a].map (respell p q) :=
  congrArg ([·]) h.respells.eq.symm

/-- A text before a semicolon. -/
theorem Respells.statement {a a' : String} (h : Respells p q a a') :
    [a' ++ ";"] = [a ++ ";"].map (respell p q) :=
  (h.mark ";" (by decide)).line

/-- A line without digits and quotes is not respelled. -/
theorem respell_of_isBare {a : String} (h : isBare a.toList = true) : respell p q a = a :=
  (respells_of_isBare h).eq

/-- A statement without generated names is not respelled. -/
theorem Stmt.lines_of_isFixed {s : Stmt} (h : s.isFixed = true) :
    s.lines = s.lines.map (respell p q) := by
  cases s with
  | unused formal =>
    have text : Respells p q formal.text formal.text :=
      respells_of_isBare (by cases formal <;> decide)
    exact (text.between "GN_UNUSED(" ");" (by decide) (by decide)).line
  | assertArgc count =>
    exact ((respells_toString count).between "GN_ASSERT_ARGC(" ");" (by decide) (by decide)).line
  | enterEnv | enterBlockEnv | setBlock | closeRescue =>
    exact (settles_of_isClosed (by decide)).line
  | declareLocal name value =>
    have literal := (settles_stringLiteral (p := p) (q := q) name).respells
    exact (settles_library (by decide)
      (.cons literal (.cons (Expr.respells_of_isFixed h) .nil))).respells.statement
  | _ => cases h

mutual

/-- **Statements** under the second lead are printed as the respelled lines of those under the
first. -/
theorem Stmt.Renamed.lines (hp : p.toList.all identifierChar = true) {s s' : Stmt}
    (h : s.Renamed p q s') :
    s'.lines = s.lines.map (respell p q) := by
  have self : Respells p q "self" "self" := respells_of_isBare (by decide)
  have literal (name : String) := (settles_stringLiteral (p := p) (q := q) name).respells
  match h with
  | .fixed h => exact Stmt.lines_of_isFixed h
  | .declare v value =>
    have equals := (v.respells hp).between "GnObject *" " = " (by decide) (by decide)
    exact (equals.append (value.respells hp)).statement
  | .assign v value =>
    have equals := (v.respells hp).mark " = " (by decide)
    exact (equals.append (value.respells hp)).statement
  | .discard value =>
    exact ((value.respells hp).between "GN_UNUSED(" ");" (by decide) (by decide)).line
  | .push array value =>
    exact (settles_library (by decide)
      (.cons (array.respells hp) (.cons (value.respells hp) .nil))).respells.statement
  | .setLocal name value | .declareLocal name value | .setGlobal name value =>
    exact (settles_library (by decide)
      (.cons (literal name) (.cons (value.respells hp) .nil))).respells.statement
  | .setInstance name value =>
    exact (settles_library (by decide)
      (.cons self (.cons (literal name) (.cons (value.respells hp) .nil)))).respells.statement
  | .declareArgs array size =>
    have opened := (array.respells hp).between "GnObject **" " = calloc(" (by decide) (by decide)
    have sized := opened.append (respells_toString size)
    exact (sized.mark ", sizeof(GnObject *));" (by decide)).line
  | .storeArg array index value =>
    have opened := (array.respells hp).mark "[" (by decide)
    have equals := (opened.append (respells_toString index)).mark "] = " (by decide)
    exact (equals.append (value.respells hp)).statement
  | .declareBlock name function =>
    have equals := (name.respells hp).between "GnBlock *" " = " (by decide) (by decide)
    exact (equals.append (settles_library (by decide)
      (.cons self (.cons (function.respells hp) .nil))).respells).statement
  | .defineMethod name function =>
    exact (settles_library (by decide)
      (.cons self (.cons (literal name) (.cons (function.respells hp) .nil)))).respells.statement
  | .defineSingleton name owner function =>
    exact (settles_library (by decide) (.cons (owner.respells hp)
      (.cons (literal name) (.cons (function.respells hp) .nil)))).respells.statement
  | .branch condition hy hn =>
    have first := ((condition.respells hp).between "if (" ") \x7b" (by decide)
      (by decide)).respells.eq
    have middle : respell p q "\x7d else \x7b" = "\x7d else \x7b" := respell_of_isBare (by decide)
    have last : respell p q "\x7d" = "\x7d" := respell_of_isBare (by decide)
    rw [Stmt.lines, Stmt.lines, hy.lines hp, hn.lines hp, hn.isEmpty_eq, List.map_append,
      List.map_append, List.map_cons, first, List.map_singleton, last]
    split
    · rfl
    · rw [List.map_cons, middle]
  | .forever h =>
    have one : Respells p q (toString 1) (toString 1) := respells_toString 1
    have first := (one.between "while (" ") \x7b" (by decide) (by decide)).respells.eq
    have last : respell p q "\x7d" = "\x7d" := respell_of_isBare (by decide)
    rw [Stmt.lines, Stmt.lines, h.lines hp, List.map_append, List.map_cons, List.map_singleton,
      last]
    exact congrArg (· :: _ ++ ["\x7d"]) first.symm
  | .breakIf v truthy =>
    have start : Settles p q ("if (" ++ if truthy then "" else "!")
        ("if (" ++ if truthy then "" else "!") := by
      cases truthy <;> exact settles_of_isClosed (by decide)
    exact ((start.append (v.settles_truthyText hp).respells).mark ") break;" (by decide)).line
  | .return_ value =>
    have start : Settles p q "return " "return " := settles_of_isClosed (by decide)
    exact (start.append (value.respells hp)).statement
termination_by structural h

theorem RenamedAll.lines (hp : p.toList.all identifierChar = true) {ss ss' : List Stmt}
    (h : RenamedAll p q ss ss') : linesOf ss' = (linesOf ss).map (respell p q) := by
  match h with
  | .nil => rfl
  | .cons first others => rw [linesOf, linesOf, first.lines hp, others.lines hp, List.map_append]
termination_by structural h

end

/-! ### Functions -/

/-- A function as text, respelled. -/
def FunctionText.respell (p q : String) (f : FunctionText) : FunctionText :=
  ⟨C.respell p q f.name, f.signature, f.body.map (C.respell p q)⟩

section

variable (hp : p.toList.all identifierChar = true)

include hp

/-- **Functions** under the second lead are the respelled ones under the first. -/
theorem Function.Renamed.toText_eq {f f' : Function} (h : f.Renamed p q f') :
    f'.toText = f.toText.respell p q := by
  obtain ⟨name, signature, body⟩ := h
  rw [Function.toText, Function.toText, FunctionText.respell, body.lines hp, signature,
    (name.respells hp).eq]

/-- The header of a function is respelled with its name. -/
theorem Function.Renamed.respells_header {f f' : Function} (h : f.Renamed p q f') :
    Respells p q f.toText.header f'.toText.header := by
  have params : Respells p q f.signature.params f.signature.params :=
    respells_of_isBare (by cases f.signature <;> decide)
  have opened := (h.name.respells hp).between "GnObject *" "(" (by decide) (by decide)
  have header : f'.toText.header
      = "GnObject *" ++ f'.name.text ++ "(" ++ f.signature.params ++ ")" := by
    rw [h.signature]
    rfl
  rw [header]
  exact ((opened.append params).mark ")" (by decide)).respells

theorem Function.Renamed.prototype_eq {f f' : Function} (h : f.Renamed p q f') :
    f'.toText.prototype = respell p q f.toText.prototype :=
  ((h.respells_header hp).mark ";" (by decide)).respells.eq.symm

theorem Function.Renamed.definition_eq {f f' : Function} (h : f.Renamed p q f') :
    f'.toText.definition = f.toText.definition.map (respell p q) := by
  have header := ((h.respells_header hp).mark " \x7b" (by decide)).respells.eq
  have body : f'.toText.body = f.toText.body.map (respell p q) := h.body.lines hp
  have last : respell p q "\x7d" = "\x7d" := respell_of_isBare (by decide)
  rw [FunctionText.definition, FunctionText.definition, List.map_append, List.map_cons, header,
    body, List.map_singleton, last]

/-- **Prototypes and definitions** under the second lead are the respelled ones under the first. -/
theorem functionLines_renamed {fs fs' : List Function}
    (h : List.Forall₂ (Function.Renamed p q) fs fs') :
    functionLines (fs'.map Function.toText)
      = (functionLines (fs.map Function.toText)).map (respell p q) := by
  have blank : respell p q "" = "" := respell_of_isBare (by decide)
  have prototypes : (fs'.map Function.toText).map FunctionText.prototype
      = ((fs.map Function.toText).map FunctionText.prototype).map (respell p q) := by
    induction h with
    | nil => rfl
    | cons first others ih => simp only [List.map_cons, first.prototype_eq hp, ih]
  have definitions : (fs'.map Function.toText).flatMap (fun f => "" :: f.definition)
      = ((fs.map Function.toText).flatMap fun f => "" :: f.definition).map (respell p q) := by
    clear prototypes
    induction h with
    | nil => rfl
    | cons first others ih =>
      simp only [List.map_cons, List.flatMap_cons, List.map_append, first.definition_eq hp, ih,
        blank]
  rw [functionLines, functionLines, List.map_append, prototypes, definitions]

end

end ScriptCompiler.C
