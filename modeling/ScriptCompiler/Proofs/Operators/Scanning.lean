import Mathlib.Data.List.TakeWhile
import ScriptCompiler.Proofs.Operators.Trees

/-!
# Scanning trees of operators

Characters spell tokens if they are scanned as these tokens, whatever comes before them and whatever
comes after them that they are not read on into. A tree spells its tokens where a blank, a closing
parenthesis or the end of the text comes after it.
-/

namespace ScriptCompiler.Operators

open Token (triviaLength isDigit isWord isLower isWide methodLength wordLength suffixLength
  scanFrom Lexeme)

/-- What the scanned tokens say. -/
def kindsOf (s : Token.Scanned) : List Token.Kind :=
  s.tokens.map (·.kind)

/-- The characters are scanned as tokens of these kinds, without a fault, where something of the
given sort comes after them. -/
def Spells (ok : List Char → Prop) (chars : List Char) (kinds : List Token.Kind) : Prop :=
  ∀ file last place rest, ok rest → ∃ last' place',
    kindsOf (scanFrom file last .empty ⟨place, chars ++ rest⟩)
        = kinds ++ kindsOf (scanFrom file last' .empty ⟨place', rest⟩)
      ∧ (scanFrom file last .empty ⟨place, chars ++ rest⟩).log
        = (scanFrom file last' .empty ⟨place', rest⟩).log

/-- A blank, a closing parenthesis or nothing comes. -/
def Ends (rest : List Char) : Prop :=
  ∀ c ∈ rest.head?, c = ' ' ∨ c = ')'

theorem ends_nil : Ends [] := nofun

theorem ends_blank (rest : List Char) : Ends (' ' :: rest) := by
  rintro _ ⟨⟩
  exact .inl rfl

theorem ends_closing (rest : List Char) : Ends (')' :: rest) := by
  rintro _ ⟨⟩
  exact .inr rfl

theorem Ends.not_head {rest : List Char} (h : Ends rest) {c : Char} (hb : c ≠ ' ')
    (hc : c ≠ ')') : rest.head? ≠ some c :=
  fun hr => (h c hr).elim hb hc

namespace Spells

variable {ok ok' : List Char → Prop} {chars chars' : List Char} {kinds kinds' : List Token.Kind}

theorem mono (h : Spells ok chars kinds) (hk : ∀ rest, ok' rest → ok rest) :
    Spells ok' chars kinds :=
  fun file last place rest hr => h file last place rest (hk rest hr)

theorem append (h : Spells ok chars kinds) (h' : Spells ok' chars' kinds')
    (hk : ∀ rest, ok' rest → ok (chars' ++ rest)) :
    Spells ok' (chars ++ chars') (kinds ++ kinds') := by
  intro file last place rest hr
  obtain ⟨last₁, place₁, hs, hl⟩ := h file last place (chars' ++ rest) (hk rest hr)
  obtain ⟨last₂, place₂, hs', hl'⟩ := h' file last₁ place₁ rest hr
  refine ⟨last₂, place₂, ?_, ?_⟩
  · rw [List.append_assoc, hs, hs', List.append_assoc]
  · rw [List.append_assoc, hl, hl']

/-- What spells tokens up to the end of a text is scanned to these tokens. -/
theorem scan (h : Spells ok chars kinds) (ends : ok []) (name : String) :
    kindsOf (Token.scan (.ofText name (String.ofList chars))) = kinds ++ [.endOfInput]
      ∧ (Token.scan (.ofText name (String.ofList chars))).log = .empty := by
  have start : (SourceFile.ofText name (String.ofList chars)).text.toList = chars ++ [] := by
    rw [List.append_nil]
    exact String.toList_ofList
  rw [Token.scan, Token.Cursor.start, start]
  obtain ⟨last, place, kinds_, log⟩ :=
    h (.ofText name (String.ofList chars)) none ⟨1, 1⟩ [] ends
  obtain ⟨stop, isEnd, hs⟩ :=
    Token.scanFrom_nil (.ofText name (String.ofList chars)) last .empty place
  rw [kinds_, log, hs]
  refine ⟨?_, rfl⟩
  rw [kindsOf, List.map_singleton, isEnd]

/-- A lexeme is one token. -/
theorem token {c : Char} {more : List Char} {kind : Token.Kind}
    (blank : ∀ rest, triviaLength (c :: rest) = 0)
    (word : kind ≠ .endOfInput ∧ kind ≠ .newline)
    (h : ∀ start rest, ok rest →
      Lexeme.ofChar start c (more ++ rest) = .complete kind more.length []) :
    Spells ok (c :: more) [kind] := by
  intro file last place rest hr
  have start : (c :: (more ++ rest)).drop (triviaLength (c :: (more ++ rest)))
      = c :: (more ++ rest) := by rw [blank, List.drop_zero]
  have found : Token.next ⟨place, _⟩ = _ := Token.next_complete start (h _ rest hr)
  rw [List.drop_left] at found
  generalize Token.Position.past _ _ = after at found
  have scanned : scanFrom file last .empty ⟨place, c :: (more ++ rest)⟩ = _ :=
    Token.scanFrom_token (by rw [found]; exact word.1)
      (by rw [found]; exact fun hk => absurd hk word.2)
  rw [found] at scanned
  refine ⟨some kind, after, ?_, ?_⟩
  all_goals
    rw [List.cons_append, scanned]
    rfl

end Spells

/-! ## Blanks -/

/-- A blank before a token only changes that something was skipped. -/
theorem next_blank (place : Token.Position) (text : List Char) :
    ∃ space, Token.next ⟨place, ' ' :: text⟩ = { Token.next ⟨place.step ' ', text⟩ with
      token := { (Token.next ⟨place.step ' ', text⟩).token with spaceBefore := space } } := by
  have skipped : triviaLength (' ' :: text) = triviaLength text + 1 :=
    Token.triviaLength_cons (by decide) (fun h => absurd h (by decide))
  have here : Token.tokenPlace place (' ' :: text) = Token.tokenPlace (place.step ' ') text := by
    rw [Token.tokenPlace, skipped, List.take_succ_cons]
    rfl
  have left : (' ' :: text).drop (triviaLength (' ' :: text)) = text.drop (triviaLength text) := by
    rw [skipped, List.drop_succ_cons]
  cases hd : text.drop (triviaLength text) with
  | nil =>
    rw [Token.next_nil (left.trans hd), Token.next_nil hd, here]
    exact ⟨_, rfl⟩
  | cons c rest =>
    rw [Token.next_cons (left.trans hd), Token.next_cons hd, here]
    split <;> exact ⟨_, rfl⟩

theorem scanFrom_blank (file : SourceFile) (last : Option Token.Kind) (place : Token.Position)
    (text : List Char) :
    kindsOf (scanFrom file last .empty ⟨place, ' ' :: text⟩)
        = kindsOf (scanFrom file last .empty ⟨place.step ' ', text⟩)
      ∧ (scanFrom file last .empty ⟨place, ' ' :: text⟩).log
        = (scanFrom file last .empty ⟨place.step ' ', text⟩).log := by
  obtain ⟨space, found⟩ := next_blank place text
  have kind : (Token.next ⟨place, ' ' :: text⟩).token.kind
      = (Token.next ⟨place.step ' ', text⟩).token.kind := by rw [found]
  rcases Token.token_cases (Token.next ⟨place.step ' ', text⟩).token.kind last with
    stops | ⟨hk, drops⟩ | ⟨stops, keeps⟩
  · rw [Token.scanFrom_stop stops, Token.scanFrom_stop (kind ▸ stops), found]
    exact ⟨rfl, rfl⟩
  · rw [Token.scanFrom_dropped hk drops, Token.scanFrom_dropped (kind ▸ hk) drops, found]
    exact ⟨rfl, rfl⟩
  · rw [Token.scanFrom_token stops keeps, Token.scanFrom_token (kind ▸ stops) (kind ▸ keeps), found]
    exact ⟨rfl, rfl⟩

theorem Spells.blank {ok : List Char → Prop} {chars : List Char} {kinds : List Token.Kind}
    (h : Spells ok chars kinds) : Spells ok (' ' :: chars) kinds := by
  intro file last place rest hr
  obtain ⟨last', place', hs, hl⟩ := h file last (place.step ' ') rest hr
  obtain ⟨same, log⟩ := scanFrom_blank file last place (chars ++ rest)
  exact ⟨last', place', same.trans hs, log.trans hl⟩

/-! ## Lexemes -/

/-- The characters that may start something that is skipped. -/
def skips : List Char :=
  ['\\', '#', ' ', '\t', '\r']

theorem triviaLength_of_not_mem {c : Char} (h : c ∉ skips) (rest : List Char) :
    triviaLength (c :: rest) = 0 := by
  simp only [skips, List.mem_cons, List.not_mem_nil, or_false, not_or] at h
  obtain ⟨backslash, comment, blank, tab, feed⟩ := h
  rw [Token.triviaLength_cons comment fun hc => absurd hc backslash]
  simp [blank, tab, feed]

theorem not_mem_skips {p : Char → Bool} (hp : skips.any p = false) {c : Char}
    (h : p c = true) : c ∉ skips :=
  fun hm => List.any_eq_false.mp hp c hm h

section Lengths

variable (text : List Char) {rest : List Char} (hr : Ends rest)

include hr

theorem takeWhile_ends {p : Char → Bool} (blank : p ' ' = false) (closing : p ')' = false) :
    (text ++ rest).takeWhile p = text.takeWhile p :=
  Token.takeWhile_stop (fun c hc => (hr c hc).elim (· ▸ blank) (· ▸ closing)) text

theorem wordLength_ends : wordLength (text ++ rest) = wordLength text := by
  unfold wordLength
  rw [takeWhile_ends text hr (by decide) (by decide)]

theorem suffixLength_ends : suffixLength (text ++ rest) = suffixLength text := by
  match text with
  | [] =>
    cases rest with
    | nil => rfl
    | cons c rest => rcases hr c rfl with rfl | rfl <;> rfl
  | [c] => simp [suffixLength, hr.not_head]
  | c :: d :: text => rfl

theorem methodLength_ends : methodLength (text ++ rest) = methodLength text := by
  simp only [methodLength]
  rw [wordLength_ends text hr, List.drop_append_of_le_length (Token.wordLength_le text),
    suffixLength_ends _ hr]

end Lengths

theorem ofChar_digit {c : Char} (h : isDigit c = true) (start : Token.Position)
    (rest : List Char) : Lexeme.ofChar start c rest = Lexeme.number start c rest := by
  unfold Lexeme.ofChar
  split
  case h_27 => rw [if_pos h]
  all_goals exact absurd h (by decide)

theorem int64OfNat?_eq {n : Nat} (h : n < 0x8000000000000000) :
    Token.int64OfNat? n = some (Int64.ofNat n) := by
  rw [Token.int64OfNat?, if_pos]
  show (n : Int) ≤ 0x7fffffffffffffff
  omega

theorem spells_numeral (n : Numeral) :
    Spells Ends n.chars [.integer (Int64.ofNat n.value)] := by
  refine .token (triviaLength_of_not_mem (not_mem_skips (by decide) n.isDigit_first))
    ⟨nofun, nofun⟩ fun start rest hr => ?_
  have run : (n.others ++ rest).takeWhile (fun d => isDigit d || d = '_') = n.others :=
    (takeWhile_ends n.others hr (by decide) (by decide)).trans <|
      List.takeWhile_eq_self_iff.mpr fun c hc => by simpa using n.isDigit_others c hc
  have whole : Token.fractionLength rest = 0 := by
    unfold Token.fractionLength
    split
    · exact absurd rfl (hr.not_head (by decide) (by decide))
    · rfl
  rw [ofChar_digit n.isDigit_first, Lexeme.number]
  simp only [run, List.drop_left, whole, if_true, Nat.add_zero]
  rw [int64OfNat?_eq n.fits]
  rfl

theorem spells_name {name : String} (h : Token.isName name = true) :
    Spells Ends name.toList [.identifier name] := by
  obtain ⟨c, word, ht, classes⟩ := Token.isName_cases h
  rw [ht]
  refine .token (fun rest => Token.triviaLength_name ?_ rest) ⟨nofun, nofun⟩ fun start rest hr => ?_
  · exact classes.imp And.left And.left
  have text : String.ofList (c :: (word ++ rest).take word.length) = name := by
    rw [List.take_left, ← ht, String.ofList_toList]
  rcases classes with ⟨lower, all, plain⟩ | ⟨wide, all⟩
  · rw [Token.ofChar_lower lower, Lexeme.lowerName, methodLength_ends word hr, all, text, plain]
    rfl
  · rw [Token.ofChar_wide wide, Lexeme.wideName, wordLength_ends word hr, all, text]
    rfl

/-- Nothing is read on into a mark that stands alone. -/
theorem either_alone {single : Punct} {rest : List Char} {longer : List (Char × Punct)}
    (h : ∀ c ∈ rest.head?, longer.lookup c = none) :
    Lexeme.either single rest longer = .complete (.punct single) 0 [] := by
  unfold Lexeme.either
  cases hr : rest.head? with
  | none => rfl
  | some c =>
    rw [Option.bind_some, h c hr]
    rfl

theorem word_punct (mark : Punct) :
    Token.Kind.punct mark ≠ .endOfInput ∧ Token.Kind.punct mark ≠ .newline :=
  ⟨nofun, nofun⟩

theorem spells_operator (op : Operator) : Spells Ends op.mark.text.toList [.punct op.mark] := by
  have alone {single : Punct} {rest : List Char} {longer : List (Char × Punct)} (hr : Ends rest)
      (blank : longer.lookup ' ' = none) (closing : longer.lookup ')' = none) :
      Lexeme.either single rest longer = .complete (.punct single) 0 [] :=
    either_alone fun c hc => by
      rcases hr c hc with rfl | rfl
      · exact blank
      · exact closing
  cases op
  all_goals
    refine .token (triviaLength_of_not_mem (by decide)) (word_punct _) fun start rest hr => ?_
  case star =>
    refine (if_neg ?_).trans (alone hr rfl rfl)
    exact hr.not_head (by decide) (by decide)
  all_goals first
    | rfl
    | exact alone hr rfl rfl

/-- A sign is not read on into what comes after it. -/
theorem spells_sign (sign : Sign) :
    Spells (·.head? ≠ some '=') sign.mark.text.toList [.punct sign.mark] := by
  cases sign
  all_goals
    refine .token (triviaLength_of_not_mem (by decide)) (word_punct _) fun start rest hr => ?_
    refine either_alone fun c hc => ?_
    have other : (c == '=') = false := beq_false_of_ne fun h => hr (h ▸ hc)
    rw [List.lookup_cons, other]
    rfl

theorem spells_opening : Spells (fun _ => True) ['('] [.punct .openParen] :=
  .token (triviaLength_of_not_mem (by decide)) (word_punct _) fun _ _ _ => rfl

theorem spells_closing : Spells (fun _ => True) [')'] [.punct .closeParen] :=
  .token (triviaLength_of_not_mem (by decide)) (word_punct _) fun _ _ _ => rfl

/-! ## Trees -/

namespace Tree

variable {known : List String} {t : Tree}

theorem spells_enclose {chars : List Char} {kinds : List Token.Kind} (h : Spells Ends chars kinds)
    (needed : Bool) : Spells Ends (enclose '(' ')' needed chars)
      (enclose (.punct .openParen) (.punct .closeParen) needed kinds) := by
  cases needed with
  | false => exact h
  | true =>
    have inner := h.append spells_closing fun rest _ => ends_closing rest
    exact (spells_opening.append inner fun _ _ => trivial).mono fun _ _ => trivial

theorem head?_enclose {chars : List Char} (h : ∀ rest, (chars ++ rest).head? ≠ some '=')
    (needed : Bool) (rest : List Char) :
    (enclose '(' ')' needed chars ++ rest).head? ≠ some '=' := by
  cases needed with
  | false => exact h rest
  | true => simp [enclose]

/-- A tree does not start with an equals sign. -/
theorem head?_chars (h : t.Proper known) (rest : List Char) :
    (t.chars ++ rest).head? ≠ some '=' := by
  induction t generalizing rest with
  | numeral n =>
    intro he
    have digit := n.isDigit_first
    rw [Option.some.inj he] at digit
    exact absurd digit (by decide)
  | localVar name =>
    obtain ⟨c, word, ht, classes⟩ := Token.isName_cases h.1
    rw [chars, ht]
    intro he
    obtain rfl : c = '=' := Option.some.inj he
    exact classes.elim (fun lower => absurd lower.1 (by decide))
      fun wide => absurd wide.1 (by decide)
  | binary op left right hl _ =>
    rw [chars, List.append_assoc, List.append_assoc]
    exact head?_enclose (hl h.1) _ _
  | signed sign operand _ => cases sign <;> simp [chars, Sign.mark, Punct.text]

/-- **A tree spells its tokens.** -/
theorem spells (h : t.Proper known) : Spells Ends t.chars t.kinds := by
  induction t with
  | numeral n => exact spells_numeral n
  | localVar name => exact spells_name h.1
  | binary op left right hl hr =>
    have first := spells_enclose (hl h.1) (left.looser op.rank)
    have second := (spells_enclose (hr h.2) (right.looser (op.rank - 1))).blank
    have marked := (spells_operator op).blank.append second fun rest _ => ends_blank _
    rw [chars, List.append_assoc]
    exact first.append marked fun rest _ => ends_blank _
  | signed sign operand ih =>
    exact (spells_sign sign).append (spells_enclose (ih h.2) _) fun rest _ =>
      head?_enclose (head?_chars h.2) _ rest

end Tree

end ScriptCompiler.Operators
