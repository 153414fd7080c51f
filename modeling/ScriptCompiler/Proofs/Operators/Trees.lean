import ScriptCompiler.Proofs.Continuation.Scanning
import ScriptCompiler.Proofs.Json.Words
import ScriptCompiler.Syntax.Basic

/-!
# Trees of operators

What may be put together from numbers, local variables, the binary operators and the signs, how it
is written, and what it means. A tree is written with one blank on both sides of a binary operator,
and with parentheses around an operand only where it would otherwise be read as something else: an
operator binds its operands the tighter the smaller its rank is, and operators of one rank group to
the left.
-/

namespace ScriptCompiler

/-! ## Trees without spans

What two programs have in common that were read from different places of a text: their trees, when
every span is forgotten.
-/

mutual

/-- The node without its spans. -/
def Node.bare : Node → Node
  | ⟨form, _⟩ => .synthetic form.bare

/-- The form without the spans of the nodes in it. -/
def Form.bare : Form → Form
  | .array elements => .array (bareAll elements)
  | .assign target value => .assign target value.bare
  | .classDef name superclass body => .classDef name superclass (bareAll body)
  | .moduleDef name body => .moduleDef name (bareAll body)
  | .methodDef owner name params body => .methodDef owner name params (bareAll body)
  | .send receiver name args block =>
    .send (bareReceiver receiver) name (bareAll args) (bareBlock block)
  | .conditional branches otherwise =>
    .conditional (bareBranches branches) (bareOptional otherwise)
  | .loop kind condition body => .loop kind condition.bare (bareAll body)
  | .rescue body variable_ handler otherwise =>
    .rescue (bareAll body) variable_ (bareAll handler) (bareOptional otherwise)
  | .integer value => .integer value
  | .str value => .str value
  | .symbol name => .symbol name
  | .selfRef => .selfRef
  | .localVar name => .localVar name
  | .instanceVar name => .instanceVar name
  | .globalVar name => .globalVar name
  | .directive kind path => .directive kind path
  | .unknown => .unknown

/-- A sequence without its spans. -/
def bareAll : List Node → List Node
  | [] => []
  | node :: nodes => node.bare :: bareAll nodes

/-- The receiver of a message without its spans. -/
def bareReceiver : Option Node → Option Node
  | none => none
  | some node => some node.bare

/-- A body that may be missing, without its spans. -/
def bareOptional : Option (List Node) → Option (List Node)
  | none => none
  | some body => some (bareAll body)

/-- The block of a message without its spans. -/
def bareBlock : Option Block → Option Block
  | none => none
  | some ⟨params, body⟩ => some ⟨params, bareAll body⟩

/-- The branches of a conditional without their spans. -/
def bareBranches : List Branch → List Branch
  | [] => []
  | ⟨condition, body⟩ :: branches => ⟨condition.bare, bareAll body⟩ :: bareBranches branches

end

/-- The sequence of statements without its spans. -/
abbrev Body.bare (body : Body) : Body :=
  bareAll body

theorem Node.bare_message (receiver : Node) (name : String) (args : List Node) (span : Span) :
    Node.bare ⟨.message (some receiver) name args, span⟩
      = .synthetic (.message (some receiver.bare) name (bareAll args)) := rfl

namespace Operators

/-! ## Operators -/

/-- A binary operator. -/
inductive Operator where
  | equal | notEqual
  | less | greater | lessEqual | greaterEqual
  | shift
  | plus | minus
  | star | slash | percent
  deriving DecidableEq, Repr

namespace Operator

/-- How tightly the operator binds; the smaller, the tighter. The signs have rank one. -/
def rank : Operator → Nat
  | .equal | .notEqual => 6
  | .less | .greater | .lessEqual | .greaterEqual => 5
  | .shift => 4
  | .plus | .minus => 3
  | .star | .slash | .percent => 2

theorem rank_mem (op : Operator) : 2 ≤ op.rank ∧ op.rank ≤ 6 := by
  cases op <;> decide

/-- The token of the operator. -/
def mark : Operator → Punct
  | .equal => .equal
  | .notEqual => .notEqual
  | .less => .less
  | .greater => .greater
  | .lessEqual => .lessEqual
  | .greaterEqual => .greaterEqual
  | .shift => .shift
  | .plus => .plus
  | .minus => .minus
  | .star => .star
  | .slash => .slash
  | .percent => .percent

end Operator

/-- An operator before its operand. -/
inductive Sign where
  | minus
  | bang
  deriving DecidableEq, Repr

namespace Sign

/-- The token of the sign. -/
def mark : Sign → Punct
  | .minus => .minus
  | .bang => .bang

/-- The message that the sign stands for. -/
def message : Sign → String
  | .minus => "-@"
  | .bang => "!"

end Sign

/-! ## Numbers -/

/-- A number as it is written: digits, parted by underscores, of a number that fits its type. -/
structure Numeral where
  first : Char
  others : List Char
  isDigit_first : Token.isDigit first = true
  isDigit_others : ∀ c ∈ others, Token.isDigit c = true ∨ c = '_'
  fits : Token.decimal ((first :: others).filter (· ≠ '_')) < 0x8000000000000000

namespace Numeral

/-- The characters of the number. -/
def chars (n : Numeral) : List Char :=
  n.first :: n.others

/-- The number that is meant. -/
def value (n : Numeral) : Nat :=
  Token.decimal (n.chars.filter (· ≠ '_'))

/-- A number written in digits alone. -/
theorem filter_toDigits (n : Nat) :
    (Nat.toDigits 10 n).filter (· ≠ '_') = Nat.toDigits 10 n := by
  refine List.filter_eq_self.mpr fun c hc => decide_eq_true ?_
  rintro rfl
  exact absurd (Json.isDigit_of_mem_toDigits hc) (by decide)

/-- The number `n` in digits alone. -/
def ofNat (n : Nat) (h : n < 0x8000000000000000) : Numeral where
  first := (Nat.toDigits 10 n).head Nat.toDigits_ne_nil
  others := (Nat.toDigits 10 n).tail
  isDigit_first := Json.isDigit_of_mem_toDigits (List.head_mem _)
  isDigit_others _ hc := .inl (Json.isDigit_of_mem_toDigits (List.mem_of_mem_tail hc))
  fits := by
    rw [List.cons_head_tail, filter_toDigits, Json.decimal_toDigits]
    exact h

variable {n : Nat} (h : n < 0x8000000000000000)

theorem chars_ofNat : (ofNat n h).chars = (toString n).toList :=
  (List.cons_head_tail _).trans (Nat.toList_repr (n := n)).symm

theorem value_ofNat : (ofNat n h).value = n := by
  rw [value, chars, ofNat, List.cons_head_tail, filter_toDigits, Json.decimal_toDigits]

end Numeral

/-! ## Trees -/

/-- Operators applied to numbers and local variables. -/
inductive Tree where
  | numeral (n : Numeral)
  | localVar (name : String)
  | binary (op : Operator) (left right : Tree)
  | signed (sign : Sign) (operand : Tree)

namespace Tree

/-- The rank of the outermost operator. -/
def rank : Tree → Nat
  | numeral _ | localVar _ => 0
  | signed _ _ => 1
  | binary op _ _ => op.rank

theorem rank_le (t : Tree) : t.rank ≤ 6 := by
  cases t with
  | numeral _ | localVar _ => exact Nat.zero_le 6
  | signed _ _ => exact Nat.le_of_ble_eq_true rfl
  | binary op _ _ => exact op.rank_mem.2

/-- The tree is a number. -/
def isNumeral : Tree → Bool
  | numeral _ => true
  | _ => false

/-- The local variables are names that are known, and no minus stands directly before a number,
which would make it another number. -/
def Proper (known : List String) : Tree → Prop
  | numeral _ => True
  | localVar name => Token.isName name = true ∧ name ∈ known
  | binary _ left right => left.Proper known ∧ right.Proper known
  | signed sign operand => (sign = .minus → operand.isNumeral = false) ∧ operand.Proper known

/-- The tree binds too loosely to stand where operators up to this rank may. -/
def looser (t : Tree) (limit : Nat) : Bool :=
  limit < t.rank

/-- A sequence between parentheses, if they are needed. -/
def enclose {α : Type} (opening closing : α) (needed : Bool) (inner : List α) : List α :=
  if needed then opening :: (inner ++ [closing]) else inner

/-- The characters of the tree. -/
def chars : Tree → List Char
  | numeral n => n.chars
  | localVar name => name.toList
  | binary op left right =>
    enclose '(' ')' (left.looser op.rank) left.chars
      ++ ' ' :: op.mark.text.toList
      ++ ' ' :: enclose '(' ')' (right.looser (op.rank - 1)) right.chars
  | signed sign operand =>
    sign.mark.text.toList ++ enclose '(' ')' (operand.looser 1) operand.chars

/-- The tree as it is written. -/
def text (t : Tree) : String :=
  String.ofList t.chars

/-- How deep parentheses stand inside one another where the tree is written. -/
def nesting : Tree → Nat
  | numeral _ | localVar _ => 0
  | binary op left right =>
    max (left.nesting + (left.looser op.rank).toNat)
      (right.nesting + (right.looser (op.rank - 1)).toNat)
  | signed _ operand => operand.nesting + (operand.looser 1).toNat

/-- What the tree means: an operator is a message to its left operand, or its only one. -/
def node : Tree → Node
  | numeral n => .synthetic (.integer (Int64.ofNat n.value))
  | localVar name => .synthetic (.localVar name)
  | binary op left right =>
    .synthetic (.message (some left.node) op.mark.text [right.node])
  | signed sign operand => .synthetic (.message (some operand.node) sign.message [])

/-- The tokens of the tree. -/
def kinds : Tree → List Token.Kind
  | numeral n => [.integer (Int64.ofNat n.value)]
  | localVar name => [.identifier name]
  | binary op left right =>
    enclose (.punct .openParen) (.punct .closeParen) (left.looser op.rank) left.kinds
      ++ .punct op.mark
      :: enclose (.punct .openParen) (.punct .closeParen) (right.looser (op.rank - 1)) right.kinds
  | signed sign operand =>
    .punct sign.mark
      :: enclose (.punct .openParen) (.punct .closeParen) (operand.looser 1) operand.kinds

end Tree

end Operators

end ScriptCompiler
