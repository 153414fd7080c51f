import ScriptCompiler.Compile.Program
import ScriptCompiler.Proofs.C.Reading
import ScriptCompiler.Proofs.Lowering.Files
import ScriptCompiler.Proofs.Operators.Parsing
import ScriptCompiler.Proofs.Text.Utf8

/-!
# What the runtime library sees of a literal

A string or a symbol is passed to the runtime library as a pointer to its bytes, without their
number. So the library sees the bytes before the first null byte. Every string has a literal, also
one with null characters, and two literals are seen as the same if they agree up to these.
-/

namespace ScriptCompiler

open Operators (Operand Plain Spells Undirected parse_of_grouped triviaLength_of_not_mem)
open Token (Kind Lexeme Piece Position doubleQuoted)

/-! ## Literals in a source text -/

/-- How a character is written between double quotes. -/
def escapedChar (c : Char) : List Char :=
  if c = '\x00' then ['\\', '0'] else if c ∈ ['"', '\\', '#'] then ['\\', c] else [c]

/-- How a text is written between double quotes. -/
def escaped (cs : List Char) : List Char :=
  cs.flatMap escapedChar

/-- What a text in double quotes is. -/
inductive Quoting where
  | string
  | symbol
  deriving DecidableEq, Repr

namespace Quoting

/-- What stands before the first quote. -/
def mark : Quoting → List Char
  | string => []
  | symbol => [':']

/-- The literal as it is written. -/
def chars (q : Quoting) (s : String) : List Char :=
  q.mark ++ '"' :: (escaped s.toList ++ ['"'])

/-- A program that is a literal. -/
def source (q : Quoting) (s : String) : String :=
  String.ofList (q.chars s)

/-- The token of the literal. -/
def kind (s : String) : Quoting → Kind
  | string => .str s
  | symbol => .symbol s

/-- The node of the literal. -/
def form (s : String) : Quoting → Form
  | string => .str s
  | symbol => .symbol s

/-- The expression that the literal is compiled to. -/
def expr (s : String) : Quoting → C.Expr
  | string => .str s
  | symbol => .symbol s

/-- The function of the runtime library that gets the text. -/
def function : Quoting → String
  | string => "gn_string"
  | symbol => "gn_symbol"

/-- What the name of a variable for the value starts with. -/
def base : Quoting → String
  | string => "str"
  | symbol => "sym"

end Quoting

/-! ## Scanning -/

theorem doubleQuoted_escapedChar (start here : Position) (c : Char) (rest : List Char) :
    ∃ there, doubleQuoted start here (escapedChar c ++ rest)
      = (Piece.mk (String.utf8EncodeChar c) (escapedChar c).length []).append
        (doubleQuoted start there rest) := by
  unfold escapedChar
  split_ifs with null mark
  · rw [null, List.cons_append, List.singleton_append, doubleQuoted]
    exact ⟨_, rfl⟩
  · rw [List.cons_append, List.singleton_append, doubleQuoted]
    simp only [List.mem_cons, List.not_mem_nil, or_false] at mark
    rcases mark with rfl | rfl | rfl <;> exact ⟨_, rfl⟩
  · simp only [List.mem_cons, List.not_mem_nil, or_false, not_or] at mark
    rw [List.singleton_append, doubleQuoted]
    · exact ⟨_, rfl⟩
    · exact mark.1
    · exact mark.2.1
    · exact mark.2.2

/-- A text between double quotes spells its bytes. -/
theorem doubleQuoted_escaped (start here : Position) (cs rest : List Char) :
    doubleQuoted start here (escaped cs ++ '"' :: rest)
      = ⟨Text.Utf8.encode cs, (escaped cs).length + 1, []⟩ := by
  induction cs generalizing here with
  | nil =>
    rw [escaped, List.flatMap_nil, List.nil_append, doubleQuoted]
    rfl
  | cons c cs ih =>
    obtain ⟨there, read⟩ := doubleQuoted_escapedChar start here c (escaped cs ++ '"' :: rest)
    rw [escaped, List.flatMap_cons, List.append_assoc, ← escaped, read, ih]
    simp [Piece.append, Text.Utf8.encode, Nat.add_assoc]

/-- What is read between double quotes as the bytes of a text makes one token. -/
theorem Quoting.spells_of_read (q : Quoting) {s : String} {inner : List Char}
    (read : ∀ start here rest, doubleQuoted start here (inner ++ '"' :: rest)
      = ⟨Text.Utf8.encode s.toList, inner.length + 1, []⟩) :
    Spells (fun _ => True) (q.mark ++ '"' :: (inner ++ ['"'])) [q.kind s] := by
  have read (start here : Position) (rest : List Char) :
      doubleQuoted start here (inner ++ ['"'] ++ rest)
        = ⟨Text.Utf8.encode s.toList, inner.length + 1, []⟩ := by
    rw [List.append_assoc, List.singleton_append, read]
  have text : Text.Utf8.decodeLossy (Text.Utf8.encode s.toList) = s := by
    rw [Text.Utf8.decodeLossy_encode, String.ofList_toList]
  cases q with
  | string =>
    refine .token (triviaLength_of_not_mem (by decide)) ⟨nofun, nofun⟩ fun start rest _ => ?_
    simp only [Lexeme.ofChar, read, Piece.text, text, List.length_append, List.length_singleton]
    rfl
  | symbol =>
    have chars : symbol.mark ++ '"' :: (inner ++ ['"']) = ':' :: '"' :: (inner ++ ['"']) := rfl
    rw [chars]
    refine .token (triviaLength_of_not_mem (by decide)) ⟨nofun, nofun⟩ fun start rest _ => ?_
    simp only [Lexeme.ofChar, Lexeme.colon, List.cons_append, read, Piece.text, text,
      List.length_cons, List.length_append, Nat.add_comm 1]
    rfl

/-- A literal is one token. -/
theorem Quoting.spells (q : Quoting) (s : String) :
    Spells (fun _ => True) (q.chars s) [q.kind s] :=
  q.spells_of_read fun start here rest => doubleQuoted_escaped start here s.toList rest

/-! ## Programs -/

namespace Quoting

variable (q : Quoting) (s : String)

theorem operand (known : List String) (expression : Parse.Parser Node) :
    Operand known expression [q.kind s] (.synthetic (q.form s)) := by
  refine .of_primary ?_ ?_ ?_ fun state before => ?_
  · cases q <;> nofun
  · cases q <;> nofun
  · cases q <;> nofun
  refine ⟨⟨q.form s, state.current.span.merge state.next.previous⟩, state.next, ?_, ?_,
    before.passes⟩
  · unfold Parse.primary
    rw [Parse.run_currentSpan]
    extract_lets finish
    rw [Parse.run_kind, before.current]
    cases q <;> rfl
  · cases q <;> rfl

theorem plain : Plain [q.kind s] where
  some_kind := List.cons_ne_nil _ _
  quiet := List.forall_mem_singleton.mpr (by cases q <;> exact ⟨rfl, nofun, nofun⟩)

theorem form_of_bare {node : Node} (h : node.bare = .synthetic (q.form s)) :
    node.form = q.form s := by
  obtain ⟨form, span⟩ := node
  cases q <;> cases form <;> cases h <;> rfl

theorem undirected : Undirected (.synthetic (q.form s)) := by
  intro node h
  unfold Parse.asDirective
  rw [q.form_of_bare s h]
  cases q <;> rfl

/-- Every text is that of a literal in a program. -/
theorem parse_source (name : String) :
    ∃ span, parse name (q.source s) [] = .ok [⟨q.form s, span⟩] := by
  obtain ⟨kinds, log⟩ := (q.spells s).scan trivial name
  have operand := q.operand s [] (Parse.expression (Parse.maxDepth - 1))
  obtain ⟨⟨form, span⟩, parsed, same⟩ :=
    parse_of_grouped (q.plain s) (q.undirected s) kinds log (operand.grouped.mono (Nat.zero_le 5))
  obtain rfl : form = q.form s := q.form_of_bare s same
  exact ⟨span, parsed⟩

/-! ## Emitted code -/

open C Lowering

/-- The variable that a program keeps its literal in. -/
def variable_ : Variable :=
  .generated ⟨"", q.base, 1⟩

/-- The statements that a program is compiled to. -/
def stmts : List Stmt :=
  [.declare q.variable_ (q.expr s), .return_ (.variable_ q.variable_)]

theorem lowerBody_form (span : Span) :
    ∃ ctx, lowerBody [⟨q.form s, span⟩] (.start "" .empty) = (.ok (.ofStmts (q.stmts s)), ctx) := by
  cases q <;> exact ⟨_, rfl⟩

theorem laidOut_stmts (span : Span) : ∃ text, compile .program [⟨q.form s, span⟩] = .ok text
    ∧ LaidOut text (fileParts .program [] (linesOf (q.stmts s))) := by
  obtain ⟨ctx, lowered⟩ := q.lowerBody_form s span
  have named : FileKind.program.Named := nofun
  have lowers := lowers_of_lowerBody lowered
  have neat : NeatCode _ _ ["self"] (Code.ofStmts (q.stmts s)) := lowers.neat List.mem_cons_self
  have whole : (Code.ofStmts (q.stmts s)).splitReturn.1 ++ (Code.ofStmts (q.stmts s)).splitReturn.2
      = linesOf (q.stmts s) := List.take_append_drop _ _
  have balanced : Balanced (linesOf (q.stmts s)) := neat.balanced_stmts lowers.numbered (.inl rfl)
  rw [← whole] at balanced ⊢
  have compiled := compileFrom_of_ok .program lowered
  rw [assemble_of_named named] at compiled
  exact ⟨_, congrArg Prod.fst compiled,
    laidOut_fileLines (printable_of_all named.all) (List.forall_mem_nil _) balanced⟩

end Quoting

/-! ## What is passed -/

namespace C

/-- What a function of the runtime library sees that gets a string as C text. -/
def seen (s : String) : List UInt8 :=
  upToNull (Text.Utf8.bytes s)

/-- What a line passes that declares a variable with the result of a function, if it passes a
literal after the environment: the function, and what it sees of the literal. -/
def seenIn? (line : List Char) : Option (String × List UInt8) :=
  let value := (line.dropWhile (· ≠ '=')).drop 2
  let function := value.takeWhile identifierChar
  let args := value.drop function.length
  if "(env, ".toList.isPrefixOf args then
    (readLiteral? (args.drop 6)).map fun (bs, _) => (String.ofList function, upToNull bs)
  else none

/-- What is passed in a text, line by line. -/
def passed (text : String) : List (String × List UInt8) :=
  ((writtenLines text).map Text.trimStart).filterMap seenIn?

variable (q : Quoting) (s : String)

theorem toList_text_expr : (q.expr s).text.toList
    = q.function.toList ++ ("(env, ".toList ++ ((stringLiteral s).toList ++ [')'])) := by
  have args (a : String) : (", ".intercalate ["env", a]).toList = "env, ".toList ++ a.toList := by
    rw [String.toList_intercalate]
    simp [List.intercalate]
  cases q <;>
  · simp only [Quoting.expr, Expr.text, call, String.toList_append, args]
    simp [Quoting.function]

/-- A literal is passed up to its first null byte, wherever it is declared. -/
theorem seenIn?_declare {before : List Char} (h : '=' ∉ before) (after : List Char) :
    seenIn? (before ++ '=' :: ' ' :: ((q.expr s).text.toList ++ after))
      = some (q.function, seen s) := by
  have skipped : ∀ c ∈ before, decide (c ≠ '=') = true :=
    fun c hc => decide_eq_true fun he => h (he ▸ hc)
  have value (rest : List Char) :
      ((before ++ '=' :: ' ' :: rest).dropWhile (· ≠ '=')).drop 2 = rest := by
    rw [List.dropWhile_append_of_pos skipped]
    rfl
  have word : ∀ c ∈ q.function.toList, identifierChar c = true := by
    apply List.all_eq_true.mp
    cases q <;> rfl
  have function (rest : List Char) :
      (q.function.toList ++ ("(env, ".toList ++ rest)).takeWhile identifierChar
        = q.function.toList := by
    rw [List.takeWhile_append_of_pos word]
    exact List.append_nil _
  have start (rest : List Char) : "(env, ".toList.isPrefixOf ("(env, ".toList ++ rest) = true :=
    List.isPrefixOf_iff_prefix.mpr (List.prefix_append _ _)
  have args (rest : List Char) : ("(env, ".toList ++ rest).drop 6 = rest := rfl
  have read := readLiteral?_stringLiteral s (')' :: after)
  rw [toList_text_expr]
  simp only [List.append_assoc, seenIn?, value, function, List.drop_left, start, if_true, args]
  rw [List.singleton_append, read, String.ofList_toList]
  rfl

theorem passed_of_laidOut {text : String}
    (h : LaidOut text (fileParts .program [] (linesOf (q.stmts s)))) :
    passed text = [(q.function, seen s)] := by
  let before := "GnObject *" ++ q.variable_.text ++ " "
  have declared : (before.toList ++ '=' :: ' ' :: ((q.expr s).text.toList ++ [';']))
      = ("GnObject *" ++ q.variable_.text ++ " = " ++ (q.expr s).text ++ ";").toList := by
    simp [before]
  have separate : '=' ∉ before.toList := by cases q <;> decide
  have literal := seenIn?_declare q s separate [';']
  rw [declared] at literal
  have parts : fileParts .program [] (linesOf (q.stmts s))
      = [includeLine, "GnObject *EVAL(GnEnv *env, GnObject *self) \x7b"]
        ++ ("GnObject *" ++ q.variable_.text ++ " = " ++ (q.expr s).text ++ ";")
        :: (["return " ++ q.variable_.text ++ ";"]
          ++ FileKind.program.closing.filter (· ≠ "")) := rfl
  have head : ([includeLine, "GnObject *EVAL(GnEnv *env, GnObject *self) \x7b"].map
      String.toList).filterMap seenIn? = [] := by
    decide
  have tail : ((["return " ++ q.variable_.text ++ ";"]
      ++ FileKind.program.closing.filter (· ≠ "")).map String.toList).filterMap seenIn? = [] := by
    cases q <;> decide
  rw [passed, h.verbatim, parts, List.map_append, List.filterMap_append, head, List.map_cons,
    List.filterMap_cons_some literal, tail]
  rfl

end C

/-- Two strings are seen as the same if they agree up to their first null characters. -/
theorem seen_eq_iff (s t : String) : C.seen s = C.seen t
    ↔ s.toList.takeWhile (· ≠ '\x00') = t.toList.takeWhile (· ≠ '\x00') := by
  rw [C.seen, C.seen, C.upToNull, C.upToNull, Text.Utf8.bytes, Text.Utf8.bytes,
    Text.Utf8.takeWhile_encode, Text.Utf8.takeWhile_encode]
  exact ⟨Text.Utf8.encode_injective, congrArg _⟩

/-- A program that is a literal compiles, and passes the literal up to its first null byte. -/
theorem passed_compileSource (fs : FileSystem) (path : Path) (q : Quoting) (s : String) :
    ∃ text, compileSource fs .default path (q.source s) = .ok text
      ∧ C.passed text = [(q.function, C.seen s)] := by
  obtain ⟨span, parsed⟩ := q.parse_source s path.text
  obtain ⟨text, compiled, laidOut⟩ := q.laidOut_stmts s span
  refine ⟨text, ?_, C.passed_of_laidOut q s laidOut⟩
  have expanded (settings : Load.Settings) (tracker : Load.Tracker) :
      (Load.expand settings path [⟨q.form s, span⟩] tracker).1 = .ok [⟨q.form s, span⟩] := by
    cases q <;> rfl
  have program : Options.default.kindOf fs path = .program := rfl
  rw [compileSource, parsed]
  dsimp only [Except.mapError, bind, Except.bind]
  rw [expanded, program]
  dsimp only
  rw [compiled]

/-- **Literals stay different if they differ before their first null characters.** Every two strings
are texts of literals in programs that compile; what the runtime library sees of them is the same
exactly if they agree up to their first null characters. -/
theorem passed_eq_iff (fs : FileSystem) (path : Path) (q r : Quoting) (s t : String) :
    ∃ text text' seen seen', compileSource fs .default path (q.source s) = .ok text
      ∧ compileSource fs .default path (r.source t) = .ok text'
      ∧ C.passed text = [(q.function, seen)] ∧ C.passed text' = [(r.function, seen')]
      ∧ (seen = seen'
        ↔ s.toList.takeWhile (· ≠ '\x00') = t.toList.takeWhile (· ≠ '\x00')) := by
  obtain ⟨text, compiled, passed⟩ := passed_compileSource fs path q s
  obtain ⟨text', compiled', passed'⟩ := passed_compileSource fs path r t
  exact ⟨text, text', _, _, compiled, compiled', passed, passed', seen_eq_iff s t⟩

/-- Two strings that differ behind a null character become one. -/
theorem passed_eq_of_null : ∃ text text',
    compileSource ⟨[], []⟩ .default ⟨"t.rb"⟩ (Quoting.string.source "a\x00b") = .ok text
      ∧ compileSource ⟨[], []⟩ .default ⟨"t.rb"⟩ (Quoting.string.source "a\x00c") = .ok text'
      ∧ "a\x00b" ≠ "a\x00c" ∧ C.passed text = C.passed text' := by
  obtain ⟨text, text', _, _, compiled, compiled', passed, passed', same⟩ :=
    passed_eq_iff ⟨[], []⟩ ⟨"t.rb"⟩ .string .string "a\x00b" "a\x00c"
  refine ⟨text, text', compiled, compiled', by decide, ?_⟩
  rw [passed, passed', same.mpr (by decide)]

end ScriptCompiler
