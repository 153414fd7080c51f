import ScriptCompiler.Json.Basic
import ScriptCompiler.Json.Read
import ScriptCompiler.Json.Write
import ScriptCompiler.Proofs.Json.Words

/-!
# Values that were written

A value whose numbers are whole and of the size of a word is read back from its text. Its text
splits into the words it was put together from, and each list and object closes with what it was
opened for.
-/

namespace ScriptCompiler.Json

open Token (isDigit)

/-! ## Values of whole numbers -/

mutual

/-- Every number in the value is whole and of the size of a word, and nothing is unreadable. -/
def Value.Whole : Value → Prop
  | .null | .bool _ | .string _ => True
  | .integer n => n.natAbs < UInt64.size
  | .decimal _ _ | .unreadable => False
  | .list items => WholeItems items
  | .object fields => WholeFields fields

/-- Each of the values is whole. -/
def WholeItems : List Value → Prop
  | [] => True
  | v :: vs => v.Whole ∧ WholeItems vs

/-- The value of each field is whole. -/
def WholeFields : List (String × Value) → Prop
  | [] => True
  | (_, v) :: fields => v.Whole ∧ WholeFields fields

end

theorem wholeItems_iff {vs : List Value} : WholeItems vs ↔ ∀ v ∈ vs, v.Whole := by
  induction vs with
  | nil => simp [WholeItems]
  | cons v vs ih => simp [WholeItems, ih]

theorem wholeFields_iff {fields : Fields} : WholeFields fields ↔ ∀ f ∈ fields, f.2.Whole := by
  induction fields with
  | nil => simp [WholeFields]
  | cons f fields ih => simp [WholeFields, ih]

mutual

/-- A whole value fits where it is not too deep. -/
theorem Value.Whole.fits {levels : Nat} {v : Value} (h : v.Whole) (hd : v.depth ≤ levels) :
    v.fits levels = true := by
  cases v with
  | list items =>
    cases levels with
    | zero => simp [Value.depth] at hd
    | succ levels =>
      exact WholeItems.fit (by simpa [Value.Whole] using h) (by simpa [Value.depth] using hd)
  | object fields =>
    cases levels with
    | zero => simp [Value.depth] at hd
    | succ levels =>
      exact WholeFields.fit (by simpa [Value.Whole] using h) (by simpa [Value.depth] using hd)
  | decimal => exact absurd h (by simp [Value.Whole])
  | unreadable => exact absurd h (by simp [Value.Whole])
  | _ => simp [Value.fits]

theorem WholeItems.fit {levels : Nat} {vs : List Value} (h : WholeItems vs)
    (hd : depthItems vs ≤ levels) : itemsFit levels vs = true := by
  cases vs with
  | nil => rfl
  | cons v vs =>
    simp only [depthItems, Nat.max_le] at hd
    simp only [WholeItems] at h
    simp only [itemsFit, h.1.fits hd.1, h.2.fit hd.2, Bool.and_self]

theorem WholeFields.fit {levels : Nat} {fields : Fields} (h : WholeFields fields)
    (hd : depthFields fields ≤ levels) : fieldsFit levels fields = true := by
  cases fields with
  | nil => rfl
  | cons field fields =>
    obtain ⟨key, v⟩ := field
    simp only [depthFields, Nat.max_le] at hd
    simp only [WholeFields] at h
    simp only [fieldsFit, h.1.fits hd.1, h.2.fit hd.2, Bool.and_self]

end

/-! ## The words of a value -/

mutual

/-- The words that a value is written with. -/
def Value.words : Value → List Lexeme
  | .string s => [.string (some s)]
  | .list items => .openList :: itemWords items ++ [.closeList]
  | .object fields => .openObject :: fieldWords fields ++ [.closeObject]
  | .null => [.scalar .null]
  | .bool b => [.scalar (.bool b)]
  | .integer n => [.scalar (.integer n)]
  | .decimal digits exponent => [.scalar (.decimal digits exponent)]
  | .unreadable => [.scalar .unreadable]

/-- The words of the items of a list. -/
def itemWords : List Value → List Lexeme
  | [] => []
  | [v] => v.words
  | v :: vs => v.words ++ .comma :: itemWords vs

/-- The words of the fields of an object. -/
def fieldWords : Fields → List Lexeme
  | [] => []
  | [(key, v)] => .string (some key) :: .colon :: v.words
  | (key, v) :: fields => .string (some key) :: .colon :: v.words ++ .comma :: fieldWords fields

end

theorem writeItems_cons (v w : Value) (vs : List Value) :
    writeItems (v :: w :: vs) = v.write ++ ',' :: writeItems (w :: vs) := by
  simp [writeItems]

theorem itemWords_cons (v w : Value) (vs : List Value) :
    itemWords (v :: w :: vs) = v.words ++ .comma :: itemWords (w :: vs) := by
  simp [itemWords]

theorem writeFields_cons (key : String) (v : Value) (f : String × Value) (fields : Fields) :
    writeFields ((key, v) :: f :: fields)
      = writeString key ++ ':' :: v.write ++ ',' :: writeFields (f :: fields) := by
  simp [writeFields]

theorem fieldWords_cons (key : String) (v : Value) (f : String × Value) (fields : Fields) :
    fieldWords ((key, v) :: f :: fields)
      = .string (some key) :: .colon :: v.words ++ .comma :: fieldWords (f :: fields) := by
  simp [fieldWords]

/-! ### Splitting the text -/

/-- A mark that is a word by itself. -/
theorem lexemes?_mark {c : Char} {word : Lexeme} (rest : List Char) (gap : isGap c = false)
    (h : lexeme? (c :: rest) = some (word, rest)) :
    lexemes? (c :: rest) = (lexemes? rest).map (word :: ·) :=
  lexemes?_cons gap h (Nat.le_refl _)

theorem lexemes?_openList (rest : List Char) :
    lexemes? ('[' :: rest) = (lexemes? rest).map (.openList :: ·) :=
  lexemes?_mark rest (by decide) rfl

theorem lexemes?_closeList (rest : List Char) :
    lexemes? (']' :: rest) = (lexemes? rest).map (.closeList :: ·) :=
  lexemes?_mark rest (by decide) rfl

theorem lexemes?_openObject (rest : List Char) :
    lexemes? ('\x7b' :: rest) = (lexemes? rest).map (.openObject :: ·) :=
  lexemes?_mark rest (by decide) rfl

theorem lexemes?_closeObject (rest : List Char) :
    lexemes? ('\x7d' :: rest) = (lexemes? rest).map (.closeObject :: ·) :=
  lexemes?_mark rest (by decide) rfl

theorem lexemes?_comma (rest : List Char) :
    lexemes? (',' :: rest) = (lexemes? rest).map (.comma :: ·) :=
  lexemes?_mark rest (by decide) rfl

theorem lexemes?_colon (rest : List Char) :
    lexemes? (':' :: rest) = (lexemes? rest).map (.colon :: ·) :=
  lexemes?_mark rest (by decide) rfl

/-- A name is one word, whatever follows it. -/
theorem lexemes?_null (rest : List Char) :
    lexemes? ("null".toList ++ rest) = (lexemes? rest).map (.scalar .null :: ·) :=
  lexemes?_cons (by decide) rfl (Nat.le_add_right _ 3)

theorem lexemes?_bool (b : Bool) (rest : List Char) :
    lexemes? ((Value.bool b).write ++ rest) = (lexemes? rest).map (.scalar (.bool b) :: ·) := by
  cases b
  · exact lexemes?_cons (by decide) rfl (Nat.le_add_right _ 4)
  · exact lexemes?_cons (by decide) rfl (Nat.le_add_right _ 3)

theorem stops_cons {c : Char} (h : isDigit c = false ∧ c ≠ '.' ∧ c ≠ 'e' ∧ c ≠ 'E')
    (rest : List Char) : Stops (c :: rest) := by
  rintro d hd
  cases hd
  exact h

mutual

/-- The text of a value splits into the words of the value. -/
theorem lexemes?_write {v : Value} {rest : List Char} (h : v.Whole) (hr : Stops rest) :
    lexemes? (v.write ++ rest) = (lexemes? rest).map (v.words ++ ·) := by
  cases v with
  | null => exact lexemes?_null rest
  | bool b => exact lexemes?_bool b rest
  | integer n => exact lexemes?_integer (by simpa [Value.Whole] using h) hr
  | decimal => exact absurd h (by simp [Value.Whole])
  | string s => exact lexemes?_string s rest
  | list items =>
    have inner := lexemes?_items rest (by simpa [Value.Whole] using h)
    simp [Value.write, Value.words, lexemes?_openList, inner, Function.comp_def]
  | object fields =>
    have inner := lexemes?_fields rest (by simpa [Value.Whole] using h)
    simp [Value.write, Value.words, lexemes?_openObject, inner, Function.comp_def]
  | unreadable => exact absurd h (by simp [Value.Whole])

theorem lexemes?_items {vs : List Value} (rest : List Char) (h : WholeItems vs) :
    lexemes? (writeItems vs ++ ']' :: rest)
      = (lexemes? rest).map (itemWords vs ++ .closeList :: ·) := by
  cases vs with
  | nil => exact lexemes?_closeList rest
  | cons v vs =>
    simp only [WholeItems] at h
    cases vs with
    | nil =>
      rw [writeItems, lexemes?_write h.1 (stops_cons (by decide) rest), lexemes?_closeList]
      simp [itemWords, Function.comp_def]
    | cons w vs =>
      have others := lexemes?_items rest h.2
      rw [writeItems_cons, List.append_assoc, List.cons_append,
        lexemes?_write h.1 (stops_cons (by decide) _), lexemes?_comma, others]
      simp [itemWords_cons, Function.comp_def]

theorem lexemes?_fields {fields : Fields} (rest : List Char) (h : WholeFields fields) :
    lexemes? (writeFields fields ++ '\x7d' :: rest)
      = (lexemes? rest).map (fieldWords fields ++ .closeObject :: ·) := by
  cases fields with
  | nil => exact lexemes?_closeObject rest
  | cons field fields =>
    obtain ⟨key, v⟩ := field
    simp only [WholeFields] at h
    cases fields with
    | nil =>
      rw [writeFields, List.append_assoc, lexemes?_string, List.cons_append, lexemes?_colon,
        lexemes?_write h.1 (stops_cons (by decide) rest), lexemes?_closeObject]
      simp [fieldWords, Function.comp_def]
    | cons next fields =>
      have others := lexemes?_fields rest h.2
      rw [writeFields_cons]
      simp only [List.append_assoc, List.cons_append]
      rw [lexemes?_string, lexemes?_colon, lexemes?_write h.1 (stops_cons (by decide) _),
        lexemes?_comma, others]
      simp [fieldWords_cons, Function.comp_def]

end

/-! ### Putting the value together -/

theorem mapM_keys (fields : Fields) :
    (fields.map fun f => (some f.1, f.2)).mapM (fun (key, v) => key.map (·, v)) = some fields := by
  induction fields with
  | nil => rfl
  | cons f fields ih => simp [ih]

theorem objectValue_reverse (fields : Fields) :
    objectValue (fields.map fun f => (some f.1, f.2)).reverse = .object fields := by
  rw [objectValue, List.reverse_reverse, mapM_keys]

mutual

/-- The words of a value are read as the value. -/
theorem readFrom_words (v : Value) (first : Bool) (open_ : List Frame) (rest : List Lexeme) :
    readFrom (.value first) open_ (v.words ++ rest) = readFrom (.more v) open_ rest := by
  cases v with
  | list items =>
    by_cases none_ : items = []
    · subst none_
      simp [Value.words, itemWords, readFrom]
    · have inner := readFrom_items items none_ true [] open_ rest
      simpa [Value.words, readFrom] using inner
  | object fields =>
    by_cases none_ : fields = []
    · subst none_
      simp [Value.words, fieldWords, readFrom, objectValue]
    · have inner := readFrom_fields fields none_ true [] open_ rest
      rw [List.append_nil, objectValue_reverse] at inner
      simpa [Value.words, readFrom] using inner
  | _ => simp [Value.words, readFrom, stringValue]

/-- The items after those that are read already. -/
theorem readFrom_items (vs : List Value) (some_ : vs ≠ []) (first : Bool) (done : List Value)
    (outer : List Frame) (rest : List Lexeme) :
    readFrom (.value first) (.list done :: outer) (itemWords vs ++ .closeList :: rest)
      = readFrom (.more (.list (done.reverse ++ vs))) outer rest := by
  match vs with
  | [] => exact absurd rfl some_
  | [v] =>
    rw [itemWords, readFrom_words v]
    simp [readFrom]
  | v :: w :: vs =>
    have others := readFrom_items (w :: vs) (List.cons_ne_nil _ _) false (v :: done) outer rest
    rw [itemWords_cons, List.append_assoc, readFrom_words v]
    simpa [readFrom] using others

/-- The fields after those that are read already. -/
theorem readFrom_fields (fields : Fields) (some_ : fields ≠ []) (first : Bool)
    (done : List (Option String × Value)) (outer : List Frame) (rest : List Lexeme) :
    readFrom (.key done first) outer (fieldWords fields ++ .closeObject :: rest)
      = readFrom (.more (objectValue ((fields.map fun f => (some f.1, f.2)).reverse ++ done)))
          outer rest := by
  match fields with
  | [] => exact absurd rfl some_
  | [(key, v)] => simp [fieldWords, readFrom, readFrom_words v]
  | (key, v) :: f :: fields =>
    have others := readFrom_fields (f :: fields) (List.cons_ne_nil _ _) false
      ((some key, v) :: done) outer rest
    simp only [fieldWords_cons, List.cons_append, List.append_assoc, readFrom, readFrom_words v]
    simpa using others

end

/-- **Reading what was written.** A value of whole numbers is the value that its text says. -/
theorem read?_text {v : Value} (h : v.Whole) : read? v.text = some v := by
  have words : lexemes? v.write = some v.words := by
    have split := lexemes?_write h stops_nil
    have none_left : lexemes? [] = some [] := by rw [lexemes?]; rfl
    rwa [List.append_nil, none_left, Option.map_some, List.append_nil] at split
  have read := readFrom_words v false [] []
  rw [List.append_nil] at read
  rw [read?, Value.text, String.toList_ofList, words, Option.bind_some, read, readFrom]

end ScriptCompiler.Json
