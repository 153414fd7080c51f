import ScriptCompiler.Interchange.Span
import ScriptCompiler.Json.Read
import ScriptCompiler.Json.Write
import ScriptCompiler.Syntax.Basic

/-!
# Syntax trees as JSON

A program can be handed over as JSON text. A node is an object with its kind, the fields of that
kind and, unless it starts on line zero, its span. A kind is written by its name and read by its
name or its number. A node of an unknown kind is read as such, whatever fields it has.
-/

namespace ScriptCompiler

open Json (Value Fields)

/-! ## Writing -/

namespace Target

/-- The target as an object with one field. -/
def toJson : Target → Value
  | .localVar name => .object [("local", .string name)]
  | .instanceVar name => .object [("instance_var", .string name)]
  | .globalVar name => .object [("global", .string name)]

/-- The target that a value says. -/
def ofJson? : Value → Option Target
  | .object [("local", .string name)] => some (.localVar name)
  | .object [("instance_var", .string name)] => some (.instanceVar name)
  | .object [("global", .string name)] => some (.globalVar name)
  | _ => none

end Target

namespace Param

/-- The parameter as an object with one field. -/
def toJson : Param → Value
  | .positional name => .object [("positional", .string name)]
  | .block name => .object [("block", .string name)]

/-- The parameter that a value says. -/
def ofJson? : Value → Option Param
  | .object [("positional", .string name)] => some (.positional name)
  | .object [("block", .string name)] => some (.block name)
  | _ => none

end Param

/-- A string, or null. -/
def nameToJson : Option String → Value
  | some name => .string name
  | none => .null

/-- The kind that a loop is written with. -/
def LoopKind.tag : LoopKind → String
  | .whileTruthy => "while"
  | .untilTruthy => "until"

mutual

/-- The node as an object. -/
def Node.toJson : Node → Value
  | ⟨form, span⟩ =>
    .object (form.toFields ++ if span.isSynthetic then [] else [("span", .object span.toFields)])

/-- The kind of a node and the fields of that kind. -/
def Form.toFields : Form → Fields
  | .integer value => [("kind", .string "integer"), ("value", .integer value.toInt)]
  | .str value => [("kind", .string "str"), ("value", .string value)]
  | .symbol name => [("kind", .string "symbol"), ("name", .string name)]
  | .array elements => [("kind", .string "array"), ("elements", .list (nodesToJson elements))]
  | .selfRef => [("kind", .string "self_ref")]
  | .localVar name => [("kind", .string "local_var"), ("name", .string name)]
  | .instanceVar name => [("kind", .string "instance_var"), ("name", .string name)]
  | .globalVar name => [("kind", .string "global_var"), ("name", .string name)]
  | .assign target value =>
    [("kind", .string "assign"), ("target", target.toJson), ("value", value.toJson)]
  | .classDef name superclass body =>
    [("kind", .string "class_def"), ("name", .string name), ("superclass", nameToJson superclass),
      ("body", .list (nodesToJson body))]
  | .moduleDef name body =>
    [("kind", .string "module_def"), ("name", .string name), ("body", .list (nodesToJson body))]
  | .methodDef owner name params body =>
    [("kind", .string "method_def"), ("owner", nameToJson owner), ("name", .string name),
      ("params", .list (params.map Param.toJson)), ("body", .list (nodesToJson body))]
  | .send receiver name args block =>
    [("kind", .string "send"), ("receiver", receiverToJson receiver), ("name", .string name),
      ("args", .list (nodesToJson args)), ("block", blockToJson block)]
  | .conditional branches otherwise =>
    [("kind", .string "if"), ("branches", .list (branchesToJson branches)),
      ("else_body", bodyToJson otherwise)]
  | .loop kind condition body =>
    [("kind", .string kind.tag), ("condition", condition.toJson),
      ("body", .list (nodesToJson body))]
  | .rescue body variable_ handler otherwise =>
    [("kind", .string "begin"), ("body", .list (nodesToJson body)),
      ("rescue_var", nameToJson variable_), ("rescue_body", .list (nodesToJson handler)),
      ("else_body", bodyToJson otherwise)]
  | .directive kind path => [("kind", .string kind.text), ("path", .string path)]
  | .unknown => [("kind", .string "unknown")]

/-- The nodes as objects. -/
def nodesToJson : List Node → List Value
  | [] => []
  | node :: nodes => node.toJson :: nodesToJson nodes

/-- A receiver as an object, or null. -/
def receiverToJson : Option Node → Value
  | none => .null
  | some node => node.toJson

/-- A body as a list, or null. -/
def bodyToJson : Option (List Node) → Value
  | none => .null
  | some body => .list (nodesToJson body)

/-- A block as an object, or null. -/
def blockToJson : Option Block → Value
  | none => .null
  | some ⟨params, body⟩ =>
    .object [("params", .list (params.map Param.toJson)), ("body", .list (nodesToJson body))]

/-- Branches as objects. -/
def branchesToJson : List Branch → List Value
  | [] => []
  | ⟨condition, body⟩ :: branches =>
    .object [("condition", condition.toJson), ("body", .list (nodesToJson body))]
      :: branchesToJson branches

end

/-! ## Reading -/

namespace Interchange

open Json

/-- A block, given how its nodes are read. -/
def block? (node? : Value → Option Node) (v : Value) : Option Block := do
  match ← record? ["params", "body"] v with
  | [some params, some body] =>
    some ⟨← listOf? Param.ofJson? params, ← listOf? node? body⟩
  | _ => none

/-- A branch, given how its nodes are read. -/
def branch? (node? : Value → Option Node) (v : Value) : Option Branch := do
  match ← record? ["condition", "body"] v with
  | [some condition, some body] => some ⟨← node? condition, ← listOf? node? body⟩
  | _ => none

/-- The form of a node of a kind, given how the nodes inside it are read. -/
def form? (node? : Value → Option Node) (kind : String) (fields : Fields) : Option Form := do
  let body := required "body" (listOf? node?) fields
  let name := required "name" string? fields
  let condition := required "condition" node? fields
  let otherwise := optional "else_body" (listOf? node?) fields
  let path := required "path" string? fields
  match kind with
  | "integer" => some (.integer (← required "value" int64? fields))
  | "str" => some (.str (← required "value" string? fields))
  | "symbol" => some (.symbol (← name))
  | "array" => some (.array (← required "elements" (listOf? node?) fields))
  | "self_ref" => some .selfRef
  | "local_var" => some (.localVar (← name))
  | "instance_var" => some (.instanceVar (← name))
  | "global_var" => some (.globalVar (← name))
  | "assign" =>
    some (.assign (← required "target" Target.ofJson? fields) (← required "value" node? fields))
  | "class_def" => some (.classDef (← name) (← optional "superclass" string? fields) (← body))
  | "module_def" => some (.moduleDef (← name) (← body))
  | "method_def" =>
    some (.methodDef (← optional "owner" string? fields) (← name)
      (← required "params" (listOf? Param.ofJson?) fields) (← body))
  | "send" =>
    some (.send (← optional "receiver" node? fields) (← name)
      (← required "args" (listOf? node?) fields) (← optional "block" (block? node?) fields))
  | "if" =>
    some (.conditional (← required "branches" (listOf? (branch? node?)) fields) (← otherwise))
  | "while" => some (.loop .whileTruthy (← condition) (← body))
  | "until" => some (.loop .untilTruthy (← condition) (← body))
  | "begin" =>
    some (.rescue (← body) (← optional "rescue_var" string? fields)
      (← required "rescue_body" (listOf? node?) fields) (← otherwise))
  | "require" => some (.directive .require (← path))
  | "require_relative" => some (.directive .requireRelative (← path))
  | "load" => some (.directive .load (← path))
  | _ => some .unknown

/-- The names of the kinds that are known, in the order of their numbers. -/
def kindNames : List String :=
  ["integer", "str", "symbol", "array", "self_ref", "local_var", "instance_var", "global_var",
    "assign", "class_def", "module_def", "method_def", "send", "if", "while", "until", "begin",
    "require", "require_relative", "load"]

/-- The kind that a name or a number stands for. -/
def kind? : Value → Option String
  | .string name => some name
  | v => (word64? v).map fun number => kindNames.getD number "unknown"

/-- A node with at most so many levels of nodes. -/
def node? : Nat → Value → Option Node
  | 0, _ => none
  | levels + 1, v => do
    let fields ← object? v
    let span ←
      match ← field? "span" fields with
      | none => some Span.synthetic
      | some span => Span.ofJson? span
    let kind ← required "kind" kind? fields
    some ⟨← form? (node? levels) kind fields, span⟩

/-- A node in the list of a program. Its fields are kept until its kind is known; its span is
not. -/
def topNode? (v : Value) : Option Node := do
  guard (fieldsFit (depthLimit - 3) ((← object? v).filter (·.1 ≠ "span")))
  node? depthLimit v

end Interchange

namespace Body

/-- The program as a list of objects. -/
def toJson (body : Body) : Value :=
  .list (nodesToJson body)

/-- The program that a value says. Each level of nodes is a level of the value, so that a node has
fewer levels of nodes than the limit. -/
def ofJson? (v : Value) : Option Body :=
  Json.listOf? Interchange.topNode? v

/-- The program that a JSON text says. -/
def ofJsonText? (text : String) : Option Body := do
  ofJson? (← Json.read? text)

end Body

end ScriptCompiler
