import Mathlib.Data.List.Chain
import ScriptCompiler.Proofs.Truncation.Lexemes

/-!
# Pieces of a text in double quotes

What stands between double quotes is cut into pieces, each with the bytes that it spells: a plain
character, or a backslash and what it escapes. A text that is accepted is a sequence of pieces up to
a quote, in which no number sign comes directly before an opening brace, and it spells the bytes of
its pieces one after the other.
-/

namespace ScriptCompiler.Literals

open Token (Piece Position hexRun hexValue? charOfNumber? escape doubleQuoted)

/-! ## Numbers in base sixteen -/

/-- The number that digits in base sixteen spell after a number. -/
def hexNumber? (value : Nat) : List Char → Option Nat
  | [] => some value
  | c :: cs => (hexValue? c).bind fun d => hexNumber? (value * 16 + d) cs

/-- Digits are read up to a character that is none, or as many as there may be. -/
theorem hexRun_append {cs rest : List Char} {most value n : Nat} (h : hexNumber? value cs = some n)
    (le : cs.length ≤ most) (stops : cs.length < most → ∀ c ∈ rest.head?, hexValue? c = none) :
    hexRun most value (cs ++ rest) = (n, cs.length) := by
  induction cs generalizing most value with
  | nil =>
    obtain rfl : value = n := Option.some.inj h
    cases most with
    | zero => rfl
    | succ most =>
      cases rest with
      | nil => rfl
      | cons c rest =>
        rw [List.nil_append, hexRun, stops (Nat.succ_pos _) c rfl]
        rfl
  | cons c cs ih =>
    obtain ⟨d, hd, hn⟩ := Option.bind_eq_some_iff.mp h
    obtain ⟨most, rfl⟩ := Nat.exists_eq_add_one.mpr (Nat.lt_of_lt_of_le (Nat.succ_pos _) le)
    rw [List.cons_append, hexRun, hd]
    dsimp only
    rw [ih hn (Nat.le_of_succ_le_succ le) fun lt => stops (Nat.succ_lt_succ lt)]
    rfl

/-- What is read are digits. -/
theorem hexNumber?_take (most value : Nat) (cs : List Char) :
    hexNumber? value (cs.take (hexRun most value cs).2) = some (hexRun most value cs).1
      ∧ (hexRun most value cs).2 ≤ most := by
  induction most generalizing value cs with
  | zero => exact ⟨rfl, Nat.le_refl _⟩
  | succ most ih =>
    cases cs with
    | nil => exact ⟨rfl, Nat.zero_le _⟩
    | cons c cs =>
      rw [hexRun]
      cases hd : hexValue? c with
      | none => exact ⟨rfl, Nat.zero_le _⟩
      | some d =>
        obtain ⟨number, le⟩ := ih (value * 16 + d) cs
        refine ⟨?_, Nat.succ_le_succ le⟩
        dsimp only
        rw [List.take_succ_cons, hexNumber?, hd, Option.bind_some, number]

theorem charOfNumber?_eq_some {n : Nat} {c : Char} : charOfNumber? n = some c ↔ c.toNat = n := by
  unfold charOfNumber?
  constructor
  · intro h
    split at h
    · next valid =>
      rw [← Option.some.inj h, Char.ofNat, dif_pos valid]
      rfl
    · cases h
  · rintro rfl
    rw [Char.ofNat_toNat]
    exact if_pos c.valid

/-! ## Pieces -/

/-- The byte that a letter after a backslash stands for. -/
def letterByte? : Char → Option UInt8
  | 'n' => some 0x0a
  | 't' => some 0x09
  | 'r' => some 0x0d
  | '0' => some 0x00
  | 's' => some 0x20
  | 'e' => some 0x1b
  | 'a' => some 0x07
  | 'b' => some 0x08
  | _ => none

/-- The characters that may come after a backslash, and the bytes that they spell with it. -/
inductive Escape : List Char → List UInt8 → Prop
  /-- A letter stands for one byte. -/
  | letter {c : Char} {b : UInt8} (h : letterByte? c = some b) : Escape [c] [b]
  /-- A line break is left out. -/
  | lineBreak : Escape ['\n'] []
  /-- One byte in two digits. -/
  | byte {cs : List Char} {n : Nat} (two : cs.length = 2) (h : hexNumber? 0 cs = some n) :
    Escape ('x' :: cs) [UInt8.ofNat n]
  /-- A code point in four digits. -/
  | codePoint {cs : List Char} {c : Char} (four : cs.length = 4)
      (h : hexNumber? 0 cs = some c.toNat) :
    Escape ('u' :: cs) (String.utf8EncodeChar c)
  /-- A code point in braces. -/
  | braced {cs : List Char} {c : Char} (one : 1 ≤ cs.length) (six : cs.length ≤ 6)
      (h : hexNumber? 0 cs = some c.toNat) :
    Escape ('u' :: '\x7b' :: (cs ++ ['\x7d'])) (String.utf8EncodeChar c)
  /-- Any other character stands for itself. -/
  | other {c : Char} (h : letterByte? c = none) (none : c ∉ ['\n', 'x', 'u']) :
    Escape [c] (String.utf8EncodeChar c)

/-- The characters of a piece, and the bytes that they spell. -/
inductive Spelling : List Char → List UInt8 → Prop
  | plain {c : Char} (quote : c ≠ '"') (backslash : c ≠ '\\') :
    Spelling [c] (String.utf8EncodeChar c)
  | escaped {cs : List Char} {bs : List UInt8} (h : Escape cs bs) : Spelling ('\\' :: cs) bs

/-- A piece of a text in double quotes. -/
structure Part where
  chars : List Char
  bytes : List UInt8
  spells : Spelling chars bytes

/-- The two pieces do not start an interpolation. -/
def Part.Apart (p q : Part) : Prop :=
  p.chars = ['#'] → q.chars ≠ ['\x7b']

/-- The characters of pieces. -/
abbrev charsOf (parts : List Part) : List Char :=
  parts.flatMap (·.chars)

/-- The bytes that pieces spell. -/
abbrev bytesOf (parts : List Part) : List UInt8 :=
  parts.flatMap (·.bytes)

/-! ## Escape sequences -/

section Escapes

variable {cs text : List Char} {bs : List UInt8}

/-- Digits do not start with a brace. -/
theorem head?_of_hexNumber? {value n : Nat} {rest : List Char} (h : hexNumber? value cs = some n)
    (some_digit : cs ≠ []) (inner : List Char) : cs ++ rest ≠ '\x7b' :: inner := by
  cases cs with
  | nil => exact absurd rfl some_digit
  | cons c cs =>
    rintro hc
    rw [hexNumber?, (List.cons.inj hc).1] at h
    cases h

/-- An escape sequence spells its bytes, whatever comes after it. -/
theorem escape_append (h : Escape cs bs) (start : Position) (rest : List Char) :
    escape start (cs ++ rest) = ⟨bs, cs.length, []⟩ := by
  cases h with
  | letter h =>
    unfold letterByte? at h
    split at h
    all_goals first
      | cases h; rfl
      | cases h
  | lineBreak => rfl
  | @byte cs n two h =>
    have run : hexRun 2 0 (cs ++ rest) = (n, cs.length) :=
      hexRun_append h (Nat.le_of_eq two) fun lt => absurd two (Nat.ne_of_lt lt)
    show Token.byteEscape _ _ (cs ++ rest) = _
    unfold Token.byteEscape
    rw [run]
    dsimp only
    rw [if_pos two, Nat.add_comm]
    rfl
  | @codePoint cs c four h =>
    have run : hexRun 4 0 (cs ++ rest) = (c.toNat, cs.length) :=
      hexRun_append h (Nat.le_of_eq four) fun lt => absurd four (Nat.ne_of_lt lt)
    have some_digit : cs ≠ [] := by
      rintro rfl
      cases four
    show Token.codePointEscape _ _ (cs ++ rest) = _
    rw [Token.codePointEscape]
    · simp only [run]
      rw [if_pos (Nat.le_of_eq four.symm), charOfNumber?_eq_some.mpr rfl, Nat.add_comm]
      rfl
    · exact head?_of_hexNumber? h some_digit
  | @braced cs c one six h =>
    have run : hexRun 6 0 (cs ++ '\x7d' :: rest) = (c.toNat, cs.length) :=
      hexRun_append h six fun _ => by
        rintro _ ⟨⟩
        rfl
    have closed : (cs ++ '\x7d' :: rest)[cs.length]? = some '\x7d' := by
      rw [List.getElem?_append_right (Nat.le_refl _), Nat.sub_self]
      rfl
    show Token.codePointEscape _ _ ('\x7b' :: (cs ++ ['\x7d'] ++ rest)) = _
    rw [List.append_assoc, List.singleton_append, Token.codePointEscape]
    simp only [run]
    rw [if_pos closed, if_pos one, charOfNumber?_eq_some.mpr rfl]
    simp only [List.length_cons, List.length_append, List.length_nil]
    congr 1
    omega
  | @other c h none =>
    simp only [List.mem_cons, List.not_mem_nil, or_false, not_or] at none
    rw [List.singleton_append, escape]
    · rfl
    all_goals
      rintro rfl
      first
        | exact Option.some_ne_none _ h
        | exact absurd rfl none.1
        | exact absurd rfl none.2.1
        | exact absurd rfl none.2.2

/-- What a parser of escapes read is one, if it found no fault. -/
def Read (text : List Char) (piece : Piece) : Prop :=
  piece.reports = [] →
    ∃ cs rest, text = cs ++ rest ∧ Escape cs piece.bytes ∧ piece.length = cs.length

theorem read_byteEscape (start letter : Position) (text : List Char) :
    Read ('x' :: text) (Token.byteEscape start letter text) := by
  obtain ⟨number, -⟩ := hexNumber?_take 2 0 text
  have le := Token.hexRun_le text 2 0
  unfold Token.byteEscape
  generalize hexRun 2 0 text = digits at number le
  obtain ⟨value, count⟩ := digits
  dsimp only at number le ⊢
  split
  · next two =>
    have length : (text.take count).length = count := List.length_take_of_le le
    refine fun _ => ⟨'x' :: text.take count, text.drop count, ?_,
      .byte (length.trans two) number, ?_⟩
    · rw [List.cons_append, List.take_append_drop]
    · rw [List.length_cons, length, Nat.add_comm]
  · intro clean
    cases clean

theorem read_codePointEscape (start letter : Position) (text : List Char) :
    Read ('u' :: text) (Token.codePointEscape start letter text) := by
  unfold Token.codePointEscape
  extract_lets after finish
  -- a code point with enough digits, which spell the number of one
  have finished {value least count length : Nat}
      (h : (finish value least count length).reports = []) :
      ∃ c : Char, least ≤ count ∧ c.toNat = value
        ∧ finish value least count length = ⟨String.utf8EncodeChar c, 1 + length, []⟩ := by
    unfold finish at h ⊢
    split at h
    · next c hc =>
      split at hc
      · next enough => exact ⟨c, enough, charOfNumber?_eq_some.mp hc, rfl⟩
      · cases hc
    · cases h
  split
  · next inner =>
    obtain ⟨number, six⟩ := hexNumber?_take 6 0 inner
    generalize hexRun 6 0 inner = digits at number six
    obtain ⟨value, count⟩ := digits
    dsimp only at number six ⊢
    split
    · next closed =>
      intro clean
      obtain ⟨c, one, rfl, read⟩ := finished clean
      obtain ⟨lt, brace⟩ := List.getElem?_eq_some_iff.mp closed
      have length : (inner.take count).length = count := List.length_take_of_le (Nat.le_of_lt lt)
      have whole : inner = inner.take count ++ '\x7d' :: inner.drop (count + 1) := by
        rw [← brace, ← List.drop_eq_getElem_cons lt, List.take_append_drop]
      refine ⟨'u' :: '\x7b' :: (inner.take count ++ ['\x7d']), inner.drop (count + 1), ?_, ?_, ?_⟩
      · simp only [List.cons_append, List.append_assoc, List.nil_append]
        rw [← whole]
      · rw [read]
        exact .braced (length.symm ▸ one) (length.symm ▸ six) number
      · rw [read]
        simp only [List.length_cons, List.length_append, List.length_nil, length]
        omega
    · intro clean
      cases clean
  · obtain ⟨number, most⟩ := hexNumber?_take 4 0 text
    have le := Token.hexRun_le text 4 0
    generalize hexRun 4 0 text = digits at number le most
    obtain ⟨value, count⟩ := digits
    dsimp only at number le most ⊢
    intro clean
    obtain ⟨c, four, rfl, read⟩ := finished clean
    have length : (text.take count).length = count := List.length_take_of_le le
    refine ⟨'u' :: text.take count, text.drop count, ?_, ?_, ?_⟩
    · rw [List.cons_append, List.take_append_drop]
    · rw [read]
      exact .codePoint (length.trans (Nat.le_antisymm most four)) number
    · rw [read, List.length_cons, length, Nat.add_comm]

theorem read_escape (start : Position) (text : List Char) : Read text (escape start text) := by
  cases text with
  | nil =>
    intro clean
    cases clean
  | cons c rest =>
    have letter {b : UInt8} (h : letterByte? c = some b) : Read (c :: rest) ⟨[b], 1, []⟩ :=
      fun _ => ⟨[c], rest, rfl, .letter h, rfl⟩
    unfold escape
    dsimp only
    split
    case h_9 => exact fun _ => ⟨['\n'], rest, rfl, .lineBreak, rfl⟩
    case h_10 => exact read_byteEscape _ _ rest
    case h_11 => exact read_codePointEscape _ _ rest
    case h_12 =>
      refine fun _ => ⟨[c], rest, rfl, .other ?_ ?_, rfl⟩
      · unfold letterByte?
        split <;> first | contradiction | rfl
      · simp only [List.mem_cons, List.not_mem_nil, or_false, not_or]
        refine ⟨?_, ?_, ?_⟩ <;> assumption
    all_goals exact letter rfl

end Escapes

/-! ## Texts -/

section Texts

variable {start here : Position} {text rest : List Char} {p q : Part} {parts : List Part}

/-- Only a brace starts with one. -/
theorem Part.eq_brace (h : (q.chars ++ rest).head? = some '\x7b') : q.chars = ['\x7b'] := by
  obtain ⟨chars, bytes, spells⟩ := q
  cases spells with
  | plain => exact congrArg (fun c => [c]) (Option.some.inj h)
  | escaped => cases h

theorem head?_of_apart (apart : (p :: parts).IsChain Part.Apart) (hp : p.chars = ['#']) :
    (charsOf parts ++ '"' :: rest).head? ≠ some '\x7b' := by
  intro h
  cases parts with
  | nil => cases h
  | cons q parts =>
    rw [charsOf, List.flatMap_cons, List.append_assoc] at h
    exact (List.isChain_cons_cons.mp apart).1 hp (Part.eq_brace h)

/-- A piece is read first, and then what comes after it. -/
theorem doubleQuoted_part (apart : p.chars = ['#'] → rest.head? ≠ some '\x7b')
    (start here : Position) : ∃ there, doubleQuoted start here (p.chars ++ rest)
      = (Piece.mk p.bytes p.chars.length []).append (doubleQuoted start there rest) := by
  obtain ⟨chars, bytes, spells⟩ := p
  cases spells with
  | @plain c quote backslash =>
    by_cases sign : c = '#'
    · subst sign
      rw [List.singleton_append, doubleQuoted, if_neg (apart rfl)]
      exact ⟨_, rfl⟩
    · rw [List.singleton_append, doubleQuoted]
      · exact ⟨_, rfl⟩
      all_goals assumption
  | escaped h =>
    rw [List.cons_append, doubleQuoted]
    simp only [escape_append h, List.drop_left]
    exact ⟨_, rfl⟩

/-- **A sequence of pieces is read as the bytes that it spells.** -/
theorem doubleQuoted_parts (apart : parts.IsChain Part.Apart) (start here : Position)
    (rest : List Char) : doubleQuoted start here (charsOf parts ++ '"' :: rest)
      = ⟨bytesOf parts, (charsOf parts).length + 1, []⟩ := by
  induction parts generalizing here with
  | nil =>
    rw [charsOf, List.flatMap_nil, List.nil_append, doubleQuoted]
    rfl
  | cons p parts ih =>
    have next : p.chars = ['#'] → (charsOf parts ++ '"' :: rest).head? ≠ some '\x7b' :=
      head?_of_apart apart
    obtain ⟨there, read⟩ := doubleQuoted_part next start here
    rw [charsOf, List.flatMap_cons, List.append_assoc, read, ih apart.tail]
    simp [Piece.append, Nat.add_assoc]

/-- The characters alone say which bytes are spelled. -/
theorem bytesOf_eq {others : List Part} {rest' : List Char} (apart : parts.IsChain Part.Apart)
    (apart' : others.IsChain Part.Apart)
    (h : charsOf parts ++ '"' :: rest = charsOf others ++ '"' :: rest') :
    bytesOf parts = bytesOf others := by
  have read := doubleQuoted_parts apart ⟨1, 1⟩ ⟨1, 1⟩ rest
  rw [h, doubleQuoted_parts apart'] at read
  exact (Piece.mk.inj read).1.symm

/-- **What is accepted is a sequence of pieces**, up to a quote. -/
theorem exists_parts (clean : (doubleQuoted start here text).reports = []) :
    ∃ parts rest, parts.IsChain Part.Apart ∧ text = charsOf parts ++ '"' :: rest := by
  fun_induction doubleQuoted start here text with
  | case1 here => cases clean
  | case2 here rest => exact ⟨[], rest, .nil, rfl⟩
  | case3 here rest piece length ih =>
    obtain ⟨first, later⟩ := List.append_eq_nil_iff.mp clean
    obtain ⟨cs, after, rfl, escape, long⟩ := read_escape here rest first
    obtain ⟨parts, left, apart, whole⟩ := ih later
    have drop : (cs ++ after).drop length = after := by
      rw [show length = cs.length from long, List.drop_left]
    refine ⟨⟨_, _, .escaped escape⟩ :: parts, left, List.isChain_cons.mpr ⟨?_, apart⟩, ?_⟩
    · exact fun q _ hs => absurd (List.cons.inj hs).1 (by decide)
    · rw [charsOf, List.flatMap_cons, List.append_assoc, ← whole, drop, List.cons_append]
  | case4 here rest reports ih =>
    obtain ⟨first, later⟩ := List.append_eq_nil_iff.mp clean
    obtain ⟨parts, left, apart, whole⟩ := ih later
    refine ⟨⟨_, _, .plain (c := '#') (by decide) (by decide)⟩ :: parts, left,
      List.isChain_cons.mpr ⟨?_, apart⟩, ?_⟩
    · rintro q hq - brace
      obtain ⟨others, rfl⟩ := List.head?_eq_some_iff.mp hq
      have next : rest.head? = some '\x7b' := by
        rw [whole, charsOf, List.flatMap_cons, brace]
        rfl
      have report : reports ≠ [] := by
        simp only [reports, next]
        exact List.cons_ne_nil _ _
      exact report first
    · rw [charsOf, List.flatMap_cons, List.append_assoc, ← whole]
      rfl
  | case5 here c rest quote backslash sign ih =>
    obtain ⟨parts, left, apart, whole⟩ := ih (List.append_eq_nil_iff.mp clean).2
    refine ⟨⟨_, _, .plain quote backslash⟩ :: parts, left, List.isChain_cons.mpr ⟨?_, apart⟩, ?_⟩
    · exact fun q _ hs => absurd (List.cons.inj hs).1 sign
    · rw [charsOf, List.flatMap_cons, List.append_assoc, ← whole]
      rfl

end Texts

end ScriptCompiler.Literals
