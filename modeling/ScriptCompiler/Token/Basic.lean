import ScriptCompiler.Source.Span
import ScriptCompiler.Text.Quoted

/-!
# Tokens

The words of the source language: literals, names, reserved words, operators and the ends of
statements. A line break ends a statement unless the token before it asks for more.
-/

namespace ScriptCompiler

/-- The reserved words. -/
inductive Keyword where
  | classKw | moduleKw | defKw | endKw
  | ifKw | elsifKw | elseKw | unlessKw | whileKw | untilKw | doKw | thenKw | beginKw | rescueKw
  | ensureKw | returnKw
  | selfKw | nilKw | trueKw | falseKw | yieldKw | superKw
  | andKw | orKw | notKw
  deriving DecidableEq, Repr

namespace Keyword

/-- All reserved words. -/
def all : List Keyword :=
  [.classKw, .moduleKw, .defKw, .endKw, .ifKw, .elsifKw, .elseKw, .unlessKw, .whileKw, .untilKw,
    .doKw, .thenKw, .beginKw, .rescueKw, .ensureKw, .returnKw, .selfKw, .nilKw, .trueKw, .falseKw,
    .yieldKw, .superKw, .andKw, .orKw, .notKw]

/-- The spelling of a reserved word. -/
def text : Keyword → String
  | .classKw => "class"
  | .moduleKw => "module"
  | .defKw => "def"
  | .endKw => "end"
  | .ifKw => "if"
  | .elsifKw => "elsif"
  | .elseKw => "else"
  | .unlessKw => "unless"
  | .whileKw => "while"
  | .untilKw => "until"
  | .doKw => "do"
  | .thenKw => "then"
  | .beginKw => "begin"
  | .rescueKw => "rescue"
  | .ensureKw => "ensure"
  | .returnKw => "return"
  | .selfKw => "self"
  | .nilKw => "nil"
  | .trueKw => "true"
  | .falseKw => "false"
  | .yieldKw => "yield"
  | .superKw => "super"
  | .andKw => "and"
  | .orKw => "or"
  | .notKw => "not"

/-- The reserved word with this spelling. -/
def ofText? (s : String) : Option Keyword :=
  all.find? fun k => k.text = s

theorem ofText?_text (k : Keyword) : ofText? k.text = some k := by
  cases k <;> decide

end Keyword

/-- Operators and punctuation. -/
inductive Punct where
  | plus | minus | star | slash | percent
  | equal | notEqual | less | greater | lessEqual | greaterEqual | shift | bang
  | andAnd | orOr | assign | plusAssign | minusAssign | starAssign
  | openParen | closeParen | openBracket | closeBracket | openBrace | closeBrace
  | comma | dot | scope | arrow | bar | ampersand
  deriving DecidableEq, Repr

/-- The spelling of an operator. -/
def Punct.text : Punct → String
  | .plus => "+"
  | .minus => "-"
  | .star => "*"
  | .slash => "/"
  | .percent => "%"
  | .equal => "=="
  | .notEqual => "!="
  | .less => "<"
  | .greater => ">"
  | .lessEqual => "<="
  | .greaterEqual => ">="
  | .shift => "<<"
  | .bang => "!"
  | .andAnd => "&&"
  | .orOr => "||"
  | .assign => "="
  | .plusAssign => "+="
  | .minusAssign => "-="
  | .starAssign => "*="
  | .openParen => "("
  | .closeParen => ")"
  | .openBracket => "["
  | .closeBracket => "]"
  | .openBrace => "\x7b"
  | .closeBrace => "\x7d"
  | .comma => ","
  | .dot => "."
  | .scope => "::"
  | .arrow => "=>"
  | .bar => "|"
  | .ampersand => "&"

/-- A line break after this operator does not end the statement. -/
def Punct.continuesLine : Punct → Bool
  | .plus | .minus | .star | .slash | .percent | .equal | .notEqual | .less | .greater
  | .lessEqual | .greaterEqual | .shift | .assign | .plusAssign | .minusAssign | .starAssign
  | .openParen | .openBracket | .comma | .dot | .arrow => true
  | _ => false

namespace Token

/-- What a token says. Names keep their sigils; strings have their escapes resolved. -/
inductive Kind where
  | integer (value : Int64)
  | str (value : String)
  | symbol (name : String)
  /-- A name with a small first letter, perhaps with a question or exclamation mark at its end. -/
  | identifier (name : String)
  /-- A name with a capital first letter. -/
  | constant (name : String)
  | instanceVar (name : String)
  | globalVar (name : String)
  | keyword (word : Keyword)
  | punct (mark : Punct)
  /-- A line break or a semicolon. -/
  | newline
  | endOfInput
  deriving DecidableEq, Repr

namespace Kind

/-- A line break after this token does not end the statement. -/
def continuesLine : Kind → Bool
  | .punct mark => mark.continuesLine
  | .newline => true
  | _ => false

end Kind

end Token

/-- A token, where it stands, and whether something was skipped before it. -/
structure Token where
  kind : Token.Kind
  span : Span
  spaceBefore : Bool
  deriving DecidableEq, Repr

/-! ## The display form of tokens

How messages show a token.
-/

namespace Token

/-- The token as messages show it. -/
def Kind.text : Kind → String
  | .integer value => toString value.toInt
  | .str value => Text.quoted value
  | .symbol name => ":" ++ name
  | .identifier name => name
  | .constant name => name
  | .instanceVar name => name
  | .globalVar name => name
  | .keyword word => word.text
  | .punct mark => mark.text
  | .newline => "newline"
  | .endOfInput => "end of file"

end Token

end ScriptCompiler
