import ScriptCompiler.Proofs.Compile.Payloads
import ScriptCompiler.Proofs.Literals.Pieces

/-!
# Values of literals

The value of a literal in double quotes as the text that its pieces spell, and the spellings from
which a string is read back.
-/

/-!
## Values of literals in double quotes

A string or a symbol in double quotes is cut into pieces that spell bytes, and its value is the text
that the bytes say. A byte that is written by its number may be part of no character. Then no text
has the bytes that are spelled, and the value has others; no fault is reported. If there is a text
that has them, it is the value.
-/

namespace ScriptCompiler.Literals

open Token (Lexeme Piece Position doubleQuoted next)
open Text (Utf8.bytes Utf8.decodeLossy)

/-- The next token of a text that starts with it. -/
theorem next_start {place : Position} {c : Char} {more : List Char} {kind : Token.Kind}
    {extra : Nat} {reports : List Report} (starts : Token.triviaLength (c :: more) = 0)
    (h : Lexeme.ofChar place c more = .complete kind extra reports) :
    (next ⟨place, c :: more⟩).token.kind = kind
      ∧ (next ⟨place, c :: more⟩).after.rest = more.drop extra
      ∧ (next ⟨place, c :: more⟩).reports = reports := by
  have here : Token.tokenPlace place (c :: more) = place := by
    rw [Token.tokenPlace, starts]
    rfl
  have found : next ⟨place, c :: more⟩ = _ :=
    Token.next_complete (by rw [starts, List.drop_zero]) (by rw [here]; exact h)
  rw [found]
  exact ⟨rfl, rfl, rfl⟩

/-- A literal is the next token of a text that starts with it. -/
theorem next_quoting (q : Quoting) (place : Position) (text : List Char) :
    ∃ here, (next ⟨place, q.mark ++ '"' :: text⟩).token.kind
        = q.kind (doubleQuoted place here text).text
      ∧ (next ⟨place, q.mark ++ '"' :: text⟩).after.rest
        = text.drop (doubleQuoted place here text).length
      ∧ (next ⟨place, q.mark ++ '"' :: text⟩).reports = (doubleQuoted place here text).reports := by
  cases q with
  | string =>
    exact ⟨place.step '"', next_start (Operators.triviaLength_of_not_mem (by decide) _) rfl⟩
  | symbol =>
    let here := (place.step ':').step '"'
    have lexeme : Lexeme.ofChar place ':' ('"' :: text) = .complete
        (.symbol (doubleQuoted place here text).text) ((doubleQuoted place here text).length + 1)
        (doubleQuoted place here text).reports := by
      rw [Nat.add_comm]
      rfl
    exact ⟨here, next_start (Operators.triviaLength_of_not_mem (by decide) _) lexeme⟩

/-- The text that bytes say has these bytes, if any text has them. -/
theorem bytes_decodeLossy_iff (bs : List UInt8) :
    Utf8.bytes (Utf8.decodeLossy bs) = bs ↔ ∃ t, Utf8.bytes t = bs := by
  refine ⟨fun h => ⟨_, h⟩, ?_⟩
  rintro ⟨t, rfl⟩
  exact congrArg Utf8.bytes ((Text.Utf8.decodeLossy_encode t.toList).trans String.ofList_toList)

/-- **A literal denotes its bytes exactly if a text has them.** A string or a symbol in double
quotes in which no fault is found is a sequence of pieces between its quotes. The bytes of its value
are those that the pieces spell one after the other, exactly if these are the bytes of a text at
all. -/
theorem bytes_value_iff (q : Quoting) (place : Position) {text : List Char}
    (clean : (next ⟨place, q.mark ++ '"' :: text⟩).reports = []) :
    ∃ value parts, (next ⟨place, q.mark ++ '"' :: text⟩).token.kind = q.kind value
      ∧ parts.IsChain Part.Apart
      ∧ text = charsOf parts ++ '"' :: (next ⟨place, q.mark ++ '"' :: text⟩).after.rest
      ∧ (Utf8.bytes value = bytesOf parts ↔ ∃ t, Utf8.bytes t = bytesOf parts) := by
  obtain ⟨here, kind, after, reports⟩ := next_quoting q place text
  rw [reports] at clean
  obtain ⟨parts, rest, apart, whole⟩ := exists_parts clean
  have read := doubleQuoted_parts apart place here rest
  rw [← whole] at read
  refine ⟨_, parts, kind, apart, ?_, ?_⟩
  · rw [after, read, whole, List.drop_length_add_append]
    rfl
  · rw [read]
    exact bytes_decodeLossy_iff _

/-- A byte that is part of no character. -/
def loneByte : Part :=
  ⟨"\\xff".toList, [0xff], .escaped (.byte (n := 0xff) rfl rfl)⟩

/-- The literal of such a byte is accepted, and its value has other bytes. -/
theorem bytes_value_ne_loneByte :
    (next ⟨⟨1, 1⟩, Quoting.string.mark ++ '"' :: (charsOf [loneByte] ++ ['"'])⟩).reports = []
      ∧ ∃ value parts,
        (next ⟨⟨1, 1⟩, Quoting.string.mark ++ '"' :: (charsOf [loneByte] ++ ['"'])⟩).token.kind
          = .str value
        ∧ bytesOf parts = [0xff] ∧ Utf8.bytes value ≠ bytesOf parts := by
  obtain ⟨here, -, -, reports⟩ :=
    next_quoting .string ⟨1, 1⟩ (charsOf [loneByte] ++ ['"'])
  have alone : [loneByte].IsChain Part.Apart := .singleton _
  have clean := reports.trans (congrArg Piece.reports (doubleQuoted_parts alone ⟨1, 1⟩ here []))
  obtain ⟨value, parts, kind, apart, whole, iff⟩ := bytes_value_iff .string ⟨1, 1⟩ clean
  have bytes : bytesOf parts = [0xff] := bytesOf_eq apart alone whole.symm
  refine ⟨clean, value, parts, kind, bytes, fun same => ?_⟩
  obtain ⟨t, ht⟩ := iff.mp same
  have decoded := Text.Utf8.decodeAll_encode t.toList
  rw [← Utf8.bytes, ht, bytes, Text.Utf8.decodeAll] at decoded
  cases hl : t.toList with
  | nil =>
    rw [hl] at decoded
    cases decoded
  | cons c cs =>
    rw [hl] at decoded
    cases decoded

end ScriptCompiler.Literals

/-!
## Strings that are read back

Every string is read back from single quotes, if a backslash comes before each backslash and each
single quote of it. It is also read back from its display form, the text in double quotes that
messages show, unless an interpolation stands in it; with a colon before the quotes it is read as a
symbol.
-/

namespace ScriptCompiler.Literals

open Operators (Spells kindsOf triviaLength_of_not_mem)
open Token (Kind Lexeme Piece Position doubleQuoted singleQuoted)

/-- The text is scanned as tokens of these kinds and the end, without a fault. -/
def ScannedAs (name text : String) (kinds : List Kind) : Prop :=
  kindsOf (Token.scan (.ofText name text)) = kinds ++ [.endOfInput]
    ∧ (Token.scan (.ofText name text)).log = .empty

theorem scannedAs_of_spells {chars : List Char} {kinds : List Kind}
    (h : Spells (fun _ => True) chars kinds) (name : String) :
    ScannedAs name (String.ofList chars) kinds :=
  h.scan trivial name

/-! ### Single quotes -/

/-- How a character is written between single quotes. -/
def singleChar (c : Char) : List Char :=
  if c = '\\' ∨ c = '\'' then ['\\', c] else [c]

/-- A string between single quotes. -/
def singleQuotes (s : String) : String :=
  String.ofList ('\'' :: (s.toList.flatMap singleChar ++ ['\'']))

theorem singleQuoted_singleChar (start here : Position) (c : Char) (rest : List Char) :
    ∃ there, singleQuoted start here (singleChar c ++ rest)
      = (Piece.mk (String.utf8EncodeChar c) (singleChar c).length []).append
        (singleQuoted start there rest) := by
  unfold singleChar
  split
  · next mark =>
    rw [List.cons_append, List.singleton_append]
    rcases mark with rfl | rfl <;> exact ⟨_, rfl⟩
  · next plain =>
    obtain ⟨backslash, quote⟩ := not_or.mp plain
    rw [List.singleton_append, singleQuoted]
    · exact ⟨_, rfl⟩
    · exact quote
    · exact fun _ h => absurd h backslash
    · exact fun _ h => absurd h backslash

theorem singleQuoted_flatMap (start here : Position) (cs rest : List Char) :
    singleQuoted start here (cs.flatMap singleChar ++ '\'' :: rest)
      = ⟨Text.Utf8.encode cs, (cs.flatMap singleChar).length + 1, []⟩ := by
  induction cs generalizing here with
  | nil =>
    rw [List.flatMap_nil, List.nil_append, singleQuoted]
    rfl
  | cons c cs ih =>
    obtain ⟨there, read⟩ := singleQuoted_singleChar start here c
      (cs.flatMap singleChar ++ '\'' :: rest)
    rw [List.flatMap_cons, List.append_assoc, read, ih]
    simp [Piece.append, Text.Utf8.encode, Nat.add_assoc]

theorem spells_singleQuotes (s : String) :
    Spells (fun _ => True) ('\'' :: (s.toList.flatMap singleChar ++ ['\''])) [.str s] := by
  refine .token (triviaLength_of_not_mem (by decide)) ⟨nofun, nofun⟩ fun start rest _ => ?_
  have text : Text.Utf8.decodeLossy (Text.Utf8.encode s.toList) = s := by
    rw [Text.Utf8.decodeLossy_encode, String.ofList_toList]
  rw [List.append_assoc, List.singleton_append]
  simp only [Lexeme.ofChar, singleQuoted_flatMap, Piece.text, text, List.length_append,
    List.length_singleton]

/-! ### The display form -/

/-- The value of a digit in base sixteen. -/
theorem hexValue?_digitChar : ∀ {d : Nat}, d < 16 → Token.hexValue? (Nat.digitChar d) = some d := by
  decide

theorem hexNumber?_append (value : Nat) (cs : List Char) (c : Char) :
    hexNumber? value (cs ++ [c])
      = (hexNumber? value cs).bind fun n => (Token.hexValue? c).map (n * 16 + ·) := by
  induction cs generalizing value with
  | nil =>
    rw [List.nil_append, hexNumber?, hexNumber?, Option.bind_some]
    cases Token.hexValue? c <;> rfl
  | cons d cs ih =>
    rw [List.cons_append, hexNumber?, hexNumber?]
    cases Token.hexValue? d with
    | none => rfl
    | some k => exact ih _

/-- The digits of a number spell the number. -/
theorem hexNumber?_toDigits (n : Nat) : hexNumber? 0 (Nat.toDigits 16 n) = some n := by
  induction n using Nat.strongRecOn with
  | _ n ih =>
    by_cases small : n < 16
    · rw [Nat.toDigits_of_lt_base small, hexNumber?, hexValue?_digitChar small, Option.bind_some,
        hexNumber?, Nat.zero_mul, Nat.zero_add]
    · rw [Nat.toDigits_of_base_le (by decide) (Nat.le_of_not_lt small), hexNumber?_append,
        ih (n / 16) (by omega), Option.bind_some, hexValue?_digitChar (Nat.mod_lt _ (by decide))]
      exact congrArg some (Nat.div_add_mod' n 16)

/-- A code point that is written by its number is an escape sequence. -/
theorem escape_byNumber (c : Char) :
    Escape ('u' :: '\x7b' :: (Text.hexDigits c.toNat ++ ['\x7d'])) (String.utf8EncodeChar c) := by
  have small : c.toNat < 16 ^ 6 := by
    have := c.valid
    show c.val.toNat < 16 ^ 6
    rcases this with h | h <;> omega
  exact .braced Nat.length_toDigits_pos
    ((Nat.length_toDigits_le_iff (by decide) (by decide)).mpr small) (hexNumber?_toDigits _)

/-- A character of the display form is a piece that spells the character. -/
theorem spelling_quotedChar (c : Char) :
    Spelling (Text.quotedChar c) (String.utf8EncodeChar c) := by
  unfold Text.quotedChar
  split_ifs with null tab feed carriage quote backslash number
  · exact null ▸ .escaped (.letter rfl)
  · exact tab ▸ .escaped (.letter rfl)
  · exact feed ▸ .escaped (.letter rfl)
  · exact carriage ▸ .escaped (.letter rfl)
  · rw [quote]
    exact .escaped (.other rfl (by decide))
  · rw [backslash]
    exact .escaped (.other rfl (by decide))
  · exact .escaped (escape_byNumber c)
  · exact .plain quote backslash

/-- The piece that a character is displayed as. -/
def displayed (c : Char) : Part :=
  ⟨Text.quotedChar c, String.utf8EncodeChar c, spelling_quotedChar c⟩

theorem eq_of_quotedChar {c d : Char} (h : Text.quotedChar c = [d]) : c = d := by
  unfold Text.quotedChar at h
  split_ifs at h
  case neg => exact (List.cons.inj h).1
  all_goals nomatch h

/-- An interpolation stands in the display form only if it stands in the string. -/
theorem apart_displayed {cs : List Char} (h : ¬ ['#', '\x7b'] <:+: cs) :
    (cs.map displayed).IsChain Part.Apart := by
  rw [List.isChain_map]
  refine (List.isChain_isInfix cs).imp fun c d both sign brace => h ?_
  rwa [eq_of_quotedChar sign, eq_of_quotedChar brace] at both

theorem spells_display (q : Quoting) {s : String} (h : ¬ ['#', '\x7b'] <:+: s.toList) :
    Spells (fun _ => True) (q.mark ++ (Text.quoted s).toList) [q.kind s] := by
  have chars : charsOf (s.toList.map displayed) = s.toList.flatMap Text.quotedChar :=
    List.flatMap_map _ _ _
  have bytes : bytesOf (s.toList.map displayed) = Text.Utf8.encode s.toList :=
    List.flatMap_map _ _ _
  rw [Text.quoted, String.toList_ofList]
  refine q.spells_of_read fun start here rest => ?_
  rw [← chars, ← bytes, doubleQuoted_parts (apart_displayed h)]

/-! ### Read back -/

/-- **Strings are read back.** Every string is the one token of its text in single quotes. One in
which no number sign comes directly before an opening brace is also the one token of its display
form, and with a colon before it the symbol of this name. -/
theorem scan_literals (name s : String) :
    ScannedAs name (singleQuotes s) [.str s]
      ∧ (¬ ['#', '\x7b'] <:+: s.toList →
        ScannedAs name (Kind.text (.str s)) [.str s]
          ∧ ScannedAs name (":" ++ Kind.text (.str s)) [.symbol s]) := by
  refine ⟨scannedAs_of_spells (spells_singleQuotes s) name, fun h => ?_⟩
  have text : Kind.text (.str s)
      = String.ofList (Quoting.string.mark ++ (Text.quoted s).toList) := by
    rw [Quoting.mark, List.nil_append, String.ofList_toList]
    rfl
  have colon : ":" ++ Kind.text (.str s)
      = String.ofList (Quoting.symbol.mark ++ (Text.quoted s).toList) := by
    rw [Quoting.mark, String.ofList_append, String.ofList_toList]
    rfl
  rw [colon, text]
  exact ⟨scannedAs_of_spells (spells_display .string h) name,
    scannedAs_of_spells (spells_display .symbol h) name⟩

/-- A text in which characters of every display form stand. -/
def mixedText : String :=
  String.ofList ['#', ' ', '\x7b', 'é', '\u0301', '"', '\'', '\n', '\x7d', '\\']

theorem scan_literals_mixedText :
    ¬ ['#', '\x7b'] <:+: mixedText.toList
      ∧ ScannedAs "t.rb" (singleQuotes mixedText) [.str mixedText]
      ∧ ScannedAs "t.rb" (Kind.text (.str mixedText)) [.str mixedText]
      ∧ ScannedAs "t.rb" (":" ++ Kind.text (.str mixedText)) [.symbol mixedText] := by
  have apart : ¬ ['#', '\x7b'] <:+: mixedText.toList := by
    rw [mixedText, String.toList_ofList]
    decide
  obtain ⟨single, display⟩ := scan_literals "t.rb" mixedText
  exact ⟨apart, single, display apart⟩

end ScriptCompiler.Literals
