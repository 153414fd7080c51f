import ScriptCompiler.Diagnostic.Basic
import ScriptCompiler.Token.Basic
import ScriptCompiler.Token.Literal

/-!
# Scanning

A source text as tokens. Blanks, escaped line breaks and comments are skipped; the token after them
knows that something was. A line break is dropped where no statement can end: at the start of the
text and after a token that asks for more. Scanning goes on after a fault and stops between two
tokens once the log is full.
-/

namespace ScriptCompiler.Token

/-! ## Lexemes

The token that a given first character starts. What a lexeme consists of depends on its first
character alone: a quote starts a string, a digit a number, a small letter a name or a reserved
word, and so on. Two characters start none by themselves: one outside the language, and a colon
that stands alone; the scanner reports them and reads on.
-/

/-- What a first character starts. -/
inductive Lexeme where
  /-- A token that takes so many characters after the first one. -/
  | complete (kind : Kind) (extra : Nat) (reports : List Report)
  /-- A character outside the language. -/
  | unknown (report : Report)
  /-- A colon that starts no symbol. -/
  | strayColon (report : Report)

namespace Lexeme

/-- A token without faults. -/
def clean (kind : Kind) (extra : Nat) : Lexeme :=
  .complete kind extra []

/-- An operator, perhaps with a mark after it that makes it another one. -/
def either (single : Punct) (rest : List Char) (longer : List (Char × Punct)) : Lexeme :=
  match rest.head?.bind fun c => longer.lookup c with
  | some p => clean (.punct p) 1
  | none => clean (.punct single) 0

/-! ## Names -/

/-- A name with a small first letter: a reserved word, or an identifier. -/
def lowerName (c : Char) (rest : List Char) : Lexeme :=
  let extra := methodLength rest
  let name := String.ofList (c :: rest.take extra)
  match Keyword.ofText? name with
  | some word => clean (.keyword word) extra
  | none => clean (.identifier name) extra

/-- A constant. -/
def upperName (c : Char) (rest : List Char) : Lexeme :=
  let extra := wordLength rest
  clean (.constant (String.ofList (c :: rest.take extra))) extra

/-- A name that starts beyond ASCII. -/
def wideName (c : Char) (rest : List Char) : Lexeme :=
  let extra := wordLength rest
  clean (.identifier (String.ofList (c :: rest.take extra))) extra

/-- A name after a sigil, which is part of it. -/
def sigilName (start : Position) (sigil : Char) (what : String) (make : String → Kind)
    (rest : List Char) : Lexeme :=
  let extra := wordLength rest
  let name := String.ofList (sigil :: rest.take extra)
  if extra = 0 then
    .complete (make name) 0
      [⟨.invalidCharacter,
        "expected a name after '" ++ String.singleton sigil ++ "' in " ++ what,
        start.spanTo (start.step sigil), none⟩]
  else clean (make name) extra

/-- An instance variable. Two sigils are one too many: they stand for a class variable. -/
def instanceName (start : Position) : List Char → Lexeme
  | '@' :: rest =>
    let extra := wordLength rest
    .complete (.instanceVar (String.ofList ('@' :: rest.take extra))) (extra + 1)
      [⟨.unsupportedSyntax, "class variables are not supported",
        start.spanTo (start.past ('@' :: '@' :: rest.take extra)),
        some "use an instance variable on the class object instead"⟩]
  | rest => sigilName start '@' "instance variable" .instanceVar rest

/-! ## Numbers -/

/-- An integer. Its digits may be parted by underscores. A fraction is skipped with a report. -/
def number (start : Position) (c : Char) (rest : List Char) : Lexeme :=
  let run := rest.takeWhile fun d => isDigit d || d = '_'
  let digits := (c :: run).filter (· ≠ '_')
  let fraction := fractionLength (rest.drop run.length)
  let extra := run.length + fraction
  let span := start.spanTo (start.past (c :: rest.take extra))
  let onFraction : List Report :=
    if fraction = 0 then []
    else [⟨.unsupportedLiteral, "floating-point literals are not supported", span,
      some "use integer arithmetic"⟩]
  match int64OfNat? (decimal digits) with
  | some value => .complete (.integer value) extra onFraction
  | none =>
    .complete (.integer 0) extra (onFraction ++
      [⟨.integerOverflow,
        "integer literal " ++ String.ofList digits ++ " does not fit in 64 bits", span, none⟩])

/-! ## Symbols -/

/-- The operators that a symbol may name; of two that fit, the one listed first is meant. -/
def operatorNames : List String :=
  ["[]=", "[]", "<=>", "===", "==", "!=", "<=", ">=", "<<", "+", "-", "*", "/", "%", "<", ">", "!"]

/-- How many characters of a writer's mark follow a symbol's name: an equals sign that belongs to
no operator. -/
def writerLength : List Char → Nat
  | '=' :: rest =>
    if rest.head? = some '=' || rest.head? = some '>' || rest.head? = some '~' then 0 else 1
  | _ => 0

/-- What a colon starts. -/
def colon (start : Position) (rest : List Char) : Lexeme :=
  let stray : Lexeme :=
    .strayColon ⟨.unsupportedSyntax,
      "unexpected ':' (ternaries and hash literals are not supported)",
      start.spanTo (start.step ':'), some "use if/else instead of a ternary"⟩
  match rest with
  | [] => stray
  | ':' :: _ => clean (.punct .scope) 1
  | '"' :: inner =>
    let piece := doubleQuoted start ((start.step ':').step '"') inner
    .complete (.symbol piece.text) (1 + piece.length) piece.reports
  | c :: _ =>
    if isLower c || isUpper c || c = '_' || isWide c then
      let name := methodLength rest
      let extra := name + writerLength (rest.drop name)
      clean (.symbol (String.ofList (rest.take extra))) extra
    else
      match operatorNames.find? fun name => name.toList.isPrefixOf rest with
      | some name => clean (.symbol name) name.length
      | none => stray

/-! ## All lexemes -/

/-- The token that the character at `start` starts. -/
def ofChar (start : Position) (c : Char) (rest : List Char) : Lexeme :=
  match c with
  | '\n' | ';' => clean .newline 0
  | '"' =>
    let piece := doubleQuoted start (start.step '"') rest
    .complete (.str piece.text) piece.length piece.reports
  | '\'' =>
    let piece := singleQuoted start (start.step '\'') rest
    .complete (.str piece.text) piece.length piece.reports
  | '@' => instanceName start rest
  | '$' => sigilName start '$' "global variable" .globalVar rest
  | ':' => colon start rest
  | '+' => either .plus rest [('=', .plusAssign)]
  | '-' => either .minus rest [('=', .minusAssign)]
  | '*' =>
    if rest.head? = some '*' then
      .complete (.punct .star) 1
        [⟨.unsupportedSyntax, "the '**' operator is not supported",
          start.spanTo ((start.step '*').step '*'),
          some "call the method explicitly: a.send(:**, b)"⟩]
    else either .star rest [('=', .starAssign)]
  | '/' => clean (.punct .slash) 0
  | '%' => clean (.punct .percent) 0
  | '=' => either .assign rest [('=', .equal), ('>', .arrow)]
  | '!' => either .bang rest [('=', .notEqual)]
  | '<' => either .less rest [('=', .lessEqual), ('<', .shift)]
  | '>' => either .greater rest [('=', .greaterEqual)]
  | '&' => either .ampersand rest [('&', .andAnd)]
  | '|' => either .bar rest [('|', .orOr)]
  | '(' => clean (.punct .openParen) 0
  | ')' => clean (.punct .closeParen) 0
  | '[' => clean (.punct .openBracket) 0
  | ']' => clean (.punct .closeBracket) 0
  | '\x7b' => clean (.punct .openBrace) 0
  | '\x7d' => clean (.punct .closeBrace) 0
  | ',' => clean (.punct .comma) 0
  | '.' => clean (.punct .dot) 0
  | c =>
    if isDigit c then number start c rest
    else if isLower c || c = '_' then lowerName c rest
    else if isUpper c then upperName c rest
    else if isWide c then wideName c rest
    else
      .unknown ⟨.invalidCharacter, "unexpected character '" ++ String.singleton c ++ "'",
        start.spanTo (start.step c), none⟩

end Lexeme

/-! ## Texts -/

/-- How many characters to skip before a token: blanks, escaped line breaks and comments up to the
end of their line. -/
def triviaLength : List Char → Nat
  | '\\' :: '\n' :: rest => triviaLength rest + 2
  | '#' :: rest => (rest.takeWhile (· ≠ '\n')).length + 1
  | c :: rest => if c = ' ' || c = '\t' || c = '\r' then triviaLength rest + 1 else 0
  | [] => 0

/-- A token, the place after it, and the faults on the way to it. -/
structure Found where
  token : Token
  after : Cursor
  reports : List Report

/-- The next token of a text. A character outside the language is reported and the token after it
is taken; so is a colon that stands alone, except that the span of the token then starts at the
colon. -/
def next (cursor : Cursor) : Found :=
  let skipped := triviaLength cursor.rest
  let here := cursor.skip skipped
  let space : Bool := skipped ≠ 0
  match _h : cursor.rest.drop skipped with
  | [] => ⟨⟨.endOfInput, here.position.point, space⟩, here, []⟩
  | c :: rest =>
    match Lexeme.ofChar here.position c rest with
    | .complete kind extra reports =>
      let after := here.skip (extra + 1)
      ⟨⟨kind, here.position.spanTo after.position, space⟩, after, reports⟩
    | .unknown report =>
      let found := next ⟨here.position.step c, rest⟩
      { found with
        token := { found.token with spaceBefore := space }
        reports := report :: found.reports }
    | .strayColon report =>
      let found := next ⟨here.position.step c, rest⟩
      { found with
        token := ⟨found.token.kind, here.position.spanTo found.after.position, space⟩
        reports := report :: found.reports }
termination_by cursor.rest.length
decreasing_by
  all_goals
    have := congrArg List.length _h
    simp only [List.length_drop, List.length_cons] at this
    omega

/-- Every token but the end of the text takes a character of it. -/
theorem length_after_next (cursor : Cursor) :
    (next cursor).token.kind = .endOfInput ∨
      (next cursor).after.rest.length < cursor.rest.length := by
  fun_induction next cursor with
  | case1 => exact .inl rfl
  | case2 cursor skipped here space c rest h kind extra reports _ after =>
    right
    have := congrArg List.length h
    simp only [List.length_drop, List.length_cons] at this
    simp only [after, here, Cursor.length_rest_skip]
    omega
  | case3 cursor skipped here space c rest h report _ found ih =>
    have := congrArg List.length h
    simp only [List.length_drop, List.length_cons] at this
    exact ih.imp id fun lt => Nat.lt_trans lt (show rest.length < cursor.rest.length by omega)
  | case4 cursor skipped here space c rest h report _ found ih =>
    have := congrArg List.length h
    simp only [List.length_drop, List.length_cons] at this
    exact ih.imp id fun lt => Nat.lt_trans lt (show rest.length < cursor.rest.length by omega)

/-- A line break after this token, or at the start of the text, ends no statement. -/
def dropsNewline : Option Kind → Bool
  | none => true
  | some kind => kind.continuesLine

/-- The tokens of a text and the faults found in it. -/
structure Scanned where
  tokens : List Token
  log : Log

/-- The tokens from a place on, after a token of the given kind. -/
def scanFrom (file : SourceFile) (last : Option Kind) (log : Log) (cursor : Cursor) : Scanned :=
  if log.isFull then ⟨[⟨.endOfInput, cursor.position.point, false⟩], log⟩
  else
    let found := next cursor
    let log := log.pushAll (found.reports.map file.diagnose)
    if _h : found.token.kind = .endOfInput then ⟨[found.token], log⟩
    else if found.token.kind = .newline && dropsNewline last then
      scanFrom file last log found.after
    else
      let others := scanFrom file (some found.token.kind) log found.after
      { others with tokens := found.token :: others.tokens }
termination_by cursor.rest.length
decreasing_by all_goals exact (length_after_next cursor).resolve_left _h

/-- The tokens of a source file; the last one is the end of the text. -/
def scan (file : SourceFile) : Scanned :=
  scanFrom file none .empty (.start file.text.toList)

end ScriptCompiler.Token
