import ScriptCompiler.C.Code
import ScriptCompiler.Text.Utf8

/-!
# Printing emitted code

Emitted code as lines of C. Blocks open at the end of a line and close on a line of their own;
indentation is added when a whole file is laid out.
-/

namespace ScriptCompiler.C

/-! ## C literals

Strings and integers as C source. A string is written byte by byte in printable ASCII: a byte that
is not printable becomes an escape of three octal digits, which no digit after it can lengthen, and
question marks are escaped so that no trigraph forms. The least 64-bit integer has no literal of its
own, because its digits without the sign do not fit.
-/

/-- Three octal digits. -/
def octal (n : Nat) : List Char :=
  [Nat.digitChar (n / 64 % 8), Nat.digitChar (n / 8 % 8), Nat.digitChar (n % 8)]

/-- A byte inside a string literal. -/
def literalByte (b : UInt8) : List Char :=
  if b = 0x22 then ['\\', '"']
  else if b = 0x5c then ['\\', '\\']
  else if b = 0x3f then ['\\', '?']
  else if b = 0x0a then ['\\', 'n']
  else if b = 0x09 then ['\\', 't']
  else if b = 0x0d then ['\\', 'r']
  else if 0x20 ≤ b ∧ b ≤ 0x7e then [Char.ofNat b.toNat]
  else '\\' :: octal b.toNat

/-- A string literal. -/
def stringLiteral (s : String) : String :=
  String.ofList ('"' :: (Text.Utf8.bytes s).flatMap literalByte ++ ['"'])

/-- The least 64-bit integer. -/
def leastInt64 : Int64 := Int64.minValue

/-- An expression for a 64-bit integer. -/
def integerLiteral (v : Int64) : String :=
  if v = leastInt64 then "(-9223372036854775807LL - 1)"
  else toString v.toInt ++ "LL"

/-! ## Expressions -/

/-- A call of a runtime function on the current environment. -/
def call (function : String) (args : List String) : String :=
  function ++ "(" ++ ", ".intercalate ("env" :: args) ++ ")"

/-- A variable. -/
def Variable.text : Variable → String
  | .self => "self"
  | .outcome => "result"
  | .generated name => name.text

/-- A formal parameter. -/
def Formal.text : Formal → String
  | .argc => "argc"
  | .args => "args"
  | .kwargs => "kwargs"

/-- A vector of arguments. -/
def ArgVector.text : ArgVector → String
  | .none => "NULL"
  | .single arg => "&" ++ arg.text
  | .array name => name.text

/-- What is passed with a message: the count, the vector and the block. -/
def Passed.texts (p : Passed) : List String :=
  [toString p.argc, p.argv.text, (p.block.map Name.text).getD "NULL"]

/-- An expression. -/
def Expr.text : Expr → String
  | .variable_ v => v.text
  | .integer value => call "gn_integer" [integerLiteral value]
  | .str value => call "gn_string" [stringLiteral value]
  | .symbol name => call "gn_symbol" [stringLiteral name]
  | .emptyArray => call "gn_array" []
  | .getLocal name => call "gn_env_get" [stringLiteral name]
  | .lookup name => call "gn_env_lookup" [stringLiteral name]
  | .getInstance name => call "gn_ivar_get" ["self", stringLiteral name]
  | .getGlobal name => call "gn_global_get" [stringLiteral name]
  | .newClass superclass name =>
    call "gn_subclass" [call "gn_env_get" [stringLiteral superclass], stringLiteral name]
  | .newModule name => call "gn_module" [stringLiteral name]
  | .send receiver name passed =>
    call "gn_send" (receiver.text :: stringLiteral name :: passed.texts)
  | .lookupOrSend receiver name passed =>
    call "gn_lookup_or_send" (receiver.text :: stringLiteral name :: passed.texts)
  | .callSuper passed =>
    call "gn_call_super"
      ("self" :: call "gn_env_get" [stringLiteral methodNameKey] :: passed.texts)
  | .runBlock passed => call "gn_run_block" (call "gn_env_get_block" [] :: passed.texts)
  | .callHere function => call function.text ["self"]
  | .callInside function receiver =>
    function.text ++ "(" ++ call "gn_build_env" [] ++ ", " ++ receiver.text ++ ")"
  | .exception => call "gn_env_exception" []
  | .passedBlock => call "gn_proc" ["block"]
  | .argument index => "args[" ++ toString index ++ "]"
  | .argumentOrNil index =>
    "argc > " ++ toString index ++ " ? args[" ++ toString index ++ "] : "
      ++ call "gn_env_get" [stringLiteral nilName]

/-- The truth of a variable. -/
def truthyText (v : Variable) : String :=
  call "gn_truthy" [v.text]

/-- A condition. -/
def Condition.text : Condition → String
  | .truthy v => truthyText v
  | .isNull v => "!" ++ v.text
  | .rescueOpens => "!GN_RESCUE(env)"

/-! ## Statements -/

mutual

/-- A statement. -/
def Stmt.lines : Stmt → List String
  | .declare v value => ["GnObject *" ++ v.text ++ " = " ++ value.text ++ ";"]
  | .assign v value => [v.text ++ " = " ++ value.text ++ ";"]
  | .discard value => ["GN_UNUSED(" ++ value.text ++ ");"]
  | .unused formal => ["GN_UNUSED(" ++ formal.text ++ ");"]
  | .push array value => [call "gn_array_push" [array.text, value.text] ++ ";"]
  | .setLocal name value => [call "gn_env_set" [stringLiteral name, value.text] ++ ";"]
  | .declareLocal name value => [call "gn_env_declare" [stringLiteral name, value.text] ++ ";"]
  | .setInstance name value =>
    [call "gn_ivar_set" ["self", stringLiteral name, value.text] ++ ";"]
  | .setGlobal name value => [call "gn_global_set" [stringLiteral name, value.text] ++ ";"]
  | .declareArgs array size =>
    ["GnObject **" ++ array.text ++ " = calloc(" ++ toString size ++ ", sizeof(GnObject *));"]
  | .storeArg array index value =>
    [array.text ++ "[" ++ toString index ++ "] = " ++ value.text ++ ";"]
  | .declareBlock name function =>
    ["GnBlock *" ++ name.text ++ " = " ++ call "gn_block" ["self", function.text] ++ ";"]
  | .defineMethod name function =>
    [call "gn_define_method" ["self", stringLiteral name, function.text] ++ ";"]
  | .defineSingleton owner name function =>
    [call "gn_define_singleton_method" [owner.text, stringLiteral name, function.text] ++ ";"]
  | .assertArgc count => ["GN_ASSERT_ARGC(" ++ toString count ++ ");"]
  | .enterEnv => ["env = " ++ call "gn_build_env" [] ++ ";"]
  | .enterBlockEnv => ["env = " ++ call "gn_build_block_env" [] ++ ";"]
  | .setBlock => [call "gn_env_set_block" ["block"] ++ ";"]
  | .closeRescue => [call "gn_clear_rescue" [] ++ ";"]
  | .branch condition yes no =>
    ("if (" ++ condition.text ++ ") \x7b") :: linesOf yes
      ++ (if no.isEmpty then [] else "\x7d else \x7b" :: linesOf no) ++ ["\x7d"]
  | .forever body => "while (1) \x7b" :: linesOf body ++ ["\x7d"]
  | .breakIf v truthy =>
    ["if (" ++ (if truthy then "" else "!") ++ truthyText v ++ ") break;"]
  | .return_ value => ["return " ++ value.text ++ ";"]

/-- Statements, one after the other. -/
def linesOf : List Stmt → List String
  | [] => []
  | s :: ss => s.lines ++ linesOf ss

end

end ScriptCompiler.C
