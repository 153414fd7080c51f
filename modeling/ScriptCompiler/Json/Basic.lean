/-!
# JSON values

A JSON value keeps the fields of an object in written order, repeated ones too: what a repeated
field means is for the reader of the object to say. An integer is a number without fraction and
exponent; every other number, and the zero with a minus sign, is a decimal.

Some texts are spelled as JSON asks and yet say nothing: a string with half a surrogate pair in it,
an object with such a key, a number that is too great for a float. They are *unreadable*, and may
stand only where a reader skips them. A reader that keeps a value for later takes only one that is
readable all through and does not nest too deep; `Value.fits` says which ones are.
-/

namespace ScriptCompiler.Json

/-- A JSON value. -/
inductive Value where
  | null
  | bool (b : Bool)
  | integer (n : Int)
  /-- The number `digits` times ten to the power `exponent`. -/
  | decimal (digits : Int) (exponent : Int)
  | string (s : String)
  | list (items : List Value)
  | object (fields : List (String × Value))
  /-- What is spelled as a value and says none. -/
  | unreadable
  deriving Inhabited

/-- Values that are kept inside one another may not reach this many levels. -/
def depthLimit : Nat := 128

mutual

/-- Everything in the value can be read, and it has so many levels of lists and objects at most. -/
def Value.fits : Nat → Value → Bool
  | _, .unreadable => false
  | 0, .list _ => false
  | 0, .object _ => false
  | levels + 1, .list items => itemsFit levels items
  | levels + 1, .object fields => fieldsFit levels fields
  | _, .null => true
  | _, .bool _ => true
  | _, .integer _ => true
  | _, .decimal _ _ => true
  | _, .string _ => true

/-- Each of the values fits. -/
def itemsFit : Nat → List Value → Bool
  | _, [] => true
  | levels, v :: vs => v.fits levels && itemsFit levels vs

/-- The value of each field fits. -/
def fieldsFit : Nat → List (String × Value) → Bool
  | _, [] => true
  | levels, (_, v) :: fields => v.fits levels && fieldsFit levels fields

end

mutual

/-- How many levels of lists and objects the value has. -/
def Value.depth : Value → Nat
  | .list items => depthItems items + 1
  | .object fields => depthFields fields + 1
  | .null | .bool _ | .integer _ | .decimal _ _ | .string _ | .unreadable => 0

/-- How many levels the deepest of the values has. -/
def depthItems : List Value → Nat
  | [] => 0
  | v :: vs => max v.depth (depthItems vs)

/-- How many levels the deepest of the fields has. -/
def depthFields : List (String × Value) → Nat
  | [] => 0
  | (_, v) :: fields => max v.depth (depthFields fields)

end

mutual

theorem Value.depth_le_of_fits {levels : Nat} {v : Value} (h : v.fits levels = true) :
    v.depth ≤ levels := by
  cases v with
  | list items =>
    cases levels with
    | zero => simp [Value.fits] at h
    | succ levels =>
      have below : depthItems items ≤ levels :=
        depthItems_le_of_fit (by simpa [Value.fits] using h)
      simp only [Value.depth]
      omega
  | object fields =>
    cases levels with
    | zero => simp [Value.fits] at h
    | succ levels =>
      have below : depthFields fields ≤ levels :=
        depthFields_le_of_fit (by simpa [Value.fits] using h)
      simp only [Value.depth]
      omega
  | _ => simp [Value.depth]

theorem depthItems_le_of_fit {levels : Nat} {vs : List Value} (h : itemsFit levels vs = true) :
    depthItems vs ≤ levels := by
  cases vs with
  | nil => simp [depthItems]
  | cons v vs =>
    simp only [itemsFit, Bool.and_eq_true] at h
    have first := Value.depth_le_of_fits h.1
    have others := depthItems_le_of_fit h.2
    simp only [depthItems]
    omega

theorem depthFields_le_of_fit {levels : Nat} {fields : List (String × Value)}
    (h : fieldsFit levels fields = true) : depthFields fields ≤ levels := by
  cases fields with
  | nil => simp [depthFields]
  | cons field fields =>
    obtain ⟨_, v⟩ := field
    simp only [fieldsFit, Bool.and_eq_true] at h
    have first := Value.depth_le_of_fits h.1
    have others := depthFields_le_of_fit h.2
    simp only [depthFields]
    omega

end

/-! ## Decoding JSON values

Rules that every decoder shares. A field that a decoder asks for may be written once at most; fields
that nobody asks for are ignored. A record may be written as an object or as the list of its fields
in order.
-/

/-- The fields of an object. -/
abbrev Fields := List (String × Value)

/-- The value of a field, if it is written; a repeated field is refused. -/
def field? (name : String) (fields : Fields) : Option (Option Value) :=
  match fields.filter (·.1 = name) with
  | [] => some none
  | [(_, v)] => some (some v)
  | _ => none

/-- Decodes a field that must be written. -/
def required {α : Type} (name : String) (decode : Value → Option α) (fields : Fields) :
    Option α := do
  (← field? name fields).bind decode

/-- Decodes a value that may be null. -/
def nullable {α : Type} (decode : Value → Option α) : Value → Option (Option α)
  | .null => some none
  | v => (decode v).map some

/-- Decodes a field that may be left out or null. -/
def optional {α : Type} (name : String) (decode : Value → Option α) (fields : Fields) :
    Option (Option α) := do
  match ← field? name fields with
  | none => some none
  | some v => nullable decode v

/-- A string. -/
def string? : Value → Option String
  | .string s => some s
  | _ => none

/-- A list of values that decode. -/
def listOf? {α : Type} (decode : Value → Option α) : Value → Option (List α)
  | .list items => items.mapM decode
  | _ => none

/-- The fields of an object. -/
def object? : Value → Option Fields
  | .object fields => some fields
  | _ => none

/-- A whole number below a bound. -/
def natBelow? (bound : Nat) : Value → Option Nat
  | .integer n => if 0 ≤ n ∧ n.toNat < bound then some n.toNat else none
  | _ => none

/-- A whole number of 16 bits. -/
def word16? : Value → Option Nat := natBelow? UInt16.size

/-- A whole number of 32 bits. -/
def word32? : Value → Option Nat := natBelow? UInt32.size

/-- A whole number of 64 bits. -/
def word64? : Value → Option Nat := natBelow? UInt64.size

/-- A signed integer of 64 bits. -/
def int64? : Value → Option Int64
  | .integer n =>
    if Int64.minValue.toInt ≤ n ∧ n ≤ Int64.maxValue.toInt then some (Int64.ofInt n) else none
  | _ => none

/-- The fields of a record in order: from an object, or from the list of all of them. -/
def record? (names : List String) : Value → Option (List (Option Value))
  | .object fields => names.mapM fun name => field? name fields
  | .list items => if items.length = names.length then some (items.map some) else none
  | _ => none

end ScriptCompiler.Json
