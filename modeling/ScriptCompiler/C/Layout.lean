import ScriptCompiler.C.Code
import ScriptCompiler.Text.Blank
import ScriptCompiler.Text.Lines

/-!
# Files of C

A whole C file: the header, prototypes of all functions, their definitions, and the entry point that
the kind of file asks for. Every function has a prototype before the first definition, so that
functions may call one another in any order. Each kind of file has a template that functions and
statements are put into; the text is then indented by the depth of its braces.
-/

namespace ScriptCompiler.C

/-! ## Indentation -/

/-- How far a level of braces moves a line to the right. -/
def indentation : List Char := "    ".toList

/-- Lines from a place on, at a depth of braces; `blank` says that the line before was blank or that
there was none. A line that starts with a closing brace goes one level to the left, but never beyond
the margin; lines after one that ends with an opening brace go one level to the right. A blank line
stays where it is the first of its kind outside all braces. -/
def indentFrom : Nat → Bool → List (List Char) → List (List Char)
  | _, _, [] => []
  | depth, blank, line :: rest =>
    let text := Text.trim line
    if text.isEmpty then
      if blank = false ∧ depth = 0 then [] :: indentFrom depth true rest
      else indentFrom depth true rest
    else
      let here := if text.head? = some '\x7d' then depth - 1 else depth
      let inside := if text.getLast? = some '\x7b' then here + 1 else here
      ((List.replicate here indentation).flatten ++ text) :: indentFrom inside false rest

/-- A text indented by the depth of its braces, each line with a line feed after it. -/
def indent (text : String) : String :=
  String.ofList ((indentFrom 0 true (Text.lines text.toList)).flatMap (· ++ ['\n']))

/-! ## Functions as text -/

/-- A function at file level, as text. -/
structure FunctionText where
  name : String
  signature : Signature
  body : List String
  deriving DecidableEq, Repr

/-- The parameters of a function. -/
def Signature.params : Signature → String
  | .method =>
    "GnEnv *env, GnObject *self, size_t argc, GnObject **args, struct hashmap *kwargs, "
      ++ "GnBlock *block"
  | .scoped => "GnEnv *env, GnObject *self"

namespace FunctionText

/-- The function without its body. -/
def header (f : FunctionText) : String :=
  "GnObject *" ++ f.name ++ "(" ++ f.signature.params ++ ")"

/-- The declaration of the function. -/
def prototype (f : FunctionText) : String :=
  f.header ++ ";"

/-- The lines of the definition. -/
def definition (f : FunctionText) : List String :=
  (f.header ++ " \x7b") :: f.body ++ ["\x7d"]

end FunctionText

/-! ## Kinds of files -/

/-- What a C file is for. -/
inductive FileKind where
  /-- A program with a main function. -/
  | program
  /-- A unit that is linked to others and exports one function, named after it. -/
  | unit (name : String)
  /-- A snippet for an interactive session. -/
  | snippet
  deriving DecidableEq, Repr

/-- A character that a C identifier may start with. -/
def startsIdentifier (c : Char) : Bool :=
  ('a' ≤ c && c ≤ 'z') || ('A' ≤ c && c ≤ 'Z') || c = '_'

/-- The text is a C identifier. -/
def isIdentifier (s : String) : Bool :=
  match s.toList with
  | [] => false
  | c :: rest =>
    startsIdentifier c && rest.all fun c => startsIdentifier c || ('0' ≤ c && c ≤ '9')

/-- The line that includes the runtime library. -/
def includeLine : String := "#include \"garnet.h\""

/-- The lines before the statements of the entry function, which starts with its header. -/
def FileKind.opening : FileKind → List String
  | .program => ["GnObject *EVAL(GnEnv *env, GnObject *self) \x7b"]
  | .unit name => ["GnObject *obj_" ++ name ++ "(GnEnv *env, GnObject *self) \x7b"]
  | .snippet =>
    ["GnObject *EVAL(GnEnv *env) \x7b", "GnObject *self = gn_main_object(env);"]

/-- The lines after the statements of the entry function, from its closing brace on. -/
def FileKind.closing : FileKind → List String
  | .program =>
    ["\x7d", "", "int main(void) \x7b", "GnEnv *env = gn_build_top_env();",
      "GnObject *self = gn_main_object(env);", "EVAL(env, self);", "return 0;", "\x7d"]
  | .unit _ | .snippet => ["\x7d"]

/-! ## Templates -/

/-- The place of the functions in a template. -/
def functionsPlace : String := "/*TOP*/"

/-- The place of the statements of the entry function before the last one. -/
def statementsPlace : String := "/*DECL*/"

/-- The place of the last statement of the entry function, which returns. -/
def lastPlace : String := "/*BODY*/"

/-- A file with places for what is put into it. -/
def FileKind.template (kind : FileKind) : String :=
  "\n".intercalate ([includeLine, "", functionsPlace] ++ kind.opening
    ++ [statementsPlace, lastPlace] ++ kind.closing ++ [""])

/-- What stands before and after a place, where it occurs first in a text. -/
def around? (place : List Char) : List Char → Option (List Char × List Char)
  | [] => if place = [] then some ([], []) else none
  | c :: rest =>
    if place.isPrefixOf (c :: rest) then some ([], (c :: rest).drop place.length)
    else (around? place rest).map fun (before, after) => (c :: before, after)

/-- A template with the texts put into their places. The places are looked for in order, and never
in what was put in. -/
def fill : List Char → List (String × String) → List Char
  | rest, [] => rest
  | rest, (place, text) :: others =>
    match around? place.toList rest with
    | some (before, after) => before ++ text.toList ++ fill after others
    | none => fill rest others

/-! ## Whole files -/

/-- The prototypes of functions and then their definitions, each after a blank line. -/
def functionLines (functions : List FunctionText) : List String :=
  functions.map FunctionText.prototype ++ functions.flatMap fun f => "" :: f.definition

/-- A whole file: its template with the functions, with a blank line after them if there are any,
and with the statements of the entry function. -/
def file (kind : FileKind) (functions : List FunctionText) (statements last : List String) :
    String :=
  let before := functionLines functions ++ if functions.isEmpty then [] else [""]
  indent (String.ofList (fill kind.template.toList
    [(functionsPlace, "\n".intercalate before), (statementsPlace, "\n".intercalate statements),
      (lastPlace, "\n".intercalate last)]))

end ScriptCompiler.C
