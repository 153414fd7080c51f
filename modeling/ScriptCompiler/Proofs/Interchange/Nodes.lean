import ScriptCompiler.Interchange.Node
import ScriptCompiler.Proofs.Json.Values
import ScriptCompiler.Proofs.Parse.Faults
import ScriptCompiler.Proofs.Syntax.Trees

/-!
# Programs as JSON

A program is read back from the text that was written for it if it does not nest too deep, and
parsed programs are handed over so.
-/

/-!
## Programs that are handed over

The fields of a node decode to its form, whether its span stands beside them or not, and the span
decodes to itself. So a program is read back from the text that was written for it, as long as its
lists and objects nest less deep than the limit; from there on nothing is read.
-/

namespace ScriptCompiler

open Json

/-- The numbers of the span have the size of a word. -/
structure Span.IsWord (s : Span) : Prop where
  startLine : s.startLine < UInt32.size
  startColumn : s.startColumn < UInt32.size
  endLine : s.endLine < UInt32.size
  endColumn : s.endColumn < UInt32.size

/-- The span can be handed over: it belongs to a source text, or to a node that was built. -/
structure Span.Portable (s : Span) : Prop where
  word : s.IsWord
  sourced : s = .synthetic ∨ 1 ≤ s.startLine

instance (s : Span) : Decidable s.IsWord :=
  decidable_of_iff (s.startLine < UInt32.size ∧ s.startColumn < UInt32.size
      ∧ s.endLine < UInt32.size ∧ s.endColumn < UInt32.size)
    ⟨fun ⟨a, b, c, d⟩ => ⟨a, b, c, d⟩, fun ⟨a, b, c, d⟩ => ⟨a, b, c, d⟩⟩

instance (s : Span) : Decidable s.Portable :=
  decidable_of_iff (s.IsWord ∧ (s = .synthetic ∨ 1 ≤ s.startLine))
    ⟨fun ⟨a, b⟩ => ⟨a, b⟩, fun ⟨a, b⟩ => ⟨a, b⟩⟩

namespace Json

theorem word32?_natCast {n : Nat} (h : n < UInt32.size) : word32? (.integer n) = some n := by
  simp [word32?, natBelow?, h]

theorem int64?_toInt (n : Int64) : int64? (.integer n.toInt) = some n := by
  have bounds : Int64.minValue.toInt ≤ n.toInt ∧ n.toInt ≤ Int64.maxValue.toInt :=
    ⟨Int64.le_toInt n, Int64.toInt_le n⟩
  rw [int64?, if_pos bounds, Int64.ofInt_toInt]

theorem depthFields_append (xs ys : Fields) :
    depthFields (xs ++ ys) = max (depthFields xs) (depthFields ys) := by
  induction xs with
  | nil => simp [depthFields]
  | cons f xs ih => simp [depthFields, ih, Nat.max_assoc]

end Json

/-! ### Spans -/

theorem Span.ofJson?_toFields {s : Span} (h : s.IsWord) :
    Span.ofJson? (.object s.toFields) = some s := by
  simp [Span.ofJson?, record?, fieldNames, field?, Span.toFields, ofRecord?, word32?_natCast,
    h.startLine, h.startColumn, h.endLine, h.endColumn]

theorem Target.ofJson?_toJson (target : Target) : Target.ofJson? target.toJson = some target := by
  cases target <;> rfl

theorem Param.ofJson?_toJson (param : Param) : Param.ofJson? param.toJson = some param := by
  cases param <;> rfl

theorem listOf?_params (params : List Param) :
    listOf? Param.ofJson? (.list (params.map Param.toJson)) = some params := by
  simp only [listOf?]
  induction params with
  | nil => rfl
  | cons param params ih => simp [Param.ofJson?_toJson, ih]

theorem nullable_name (name : Option String) : nullable string? (nameToJson name) = some name := by
  cases name <;> rfl

/-- The kind that a node is written with. -/
def Form.tag : Form → String
  | .integer _ => "integer"
  | .str _ => "str"
  | .symbol _ => "symbol"
  | .array _ => "array"
  | .selfRef => "self_ref"
  | .localVar _ => "local_var"
  | .instanceVar _ => "instance_var"
  | .globalVar _ => "global_var"
  | .assign _ _ => "assign"
  | .classDef _ _ _ => "class_def"
  | .moduleDef _ _ => "module_def"
  | .methodDef _ _ _ _ => "method_def"
  | .send _ _ _ _ => "send"
  | .conditional _ _ => "if"
  | .loop kind _ _ => kind.tag
  | .rescue _ _ _ _ => "begin"
  | .directive kind _ => kind.text
  | .unknown => "unknown"

namespace Interchange

variable {tail : Fields}

/-- The fields hold nothing but a span. -/
def OnlySpan (tail : Fields) : Prop :=
  ∀ f ∈ tail, f.1 = "span"

theorem onlySpan_span (s : Span) :
    OnlySpan (if s.isSynthetic then [] else [("span", .object s.toFields)]) := by
  intro f
  split <;> simp +contextual

theorem field?_append {name : String} (ht : OnlySpan tail) (h : name ≠ "span") (fields : Fields) :
    field? name (fields ++ tail) = field? name fields := by
  have none_ : tail.filter (·.1 = name) = [] := by
    rw [List.filter_eq_nil_iff]
    intro f hf
    rw [decide_eq_true_eq, ht f hf]
    exact h.symm
  rw [field?, field?, List.filter_append, none_, List.append_nil]

theorem required_append {α : Type} {name : String} {decode : Value → Option α} (ht : OnlySpan tail)
    (h : name ≠ "span") (fields : Fields) :
    required name decode (fields ++ tail) = required name decode fields := by
  rw [required, required, field?_append ht h]

theorem optional_append {α : Type} {name : String} {decode : Value → Option α} (ht : OnlySpan tail)
    (h : name ≠ "span") (fields : Fields) :
    Json.optional name decode (fields ++ tail) = Json.optional name decode fields := by
  rw [Json.optional, Json.optional, field?_append ht h]

/-- The form of a node does not depend on its span. -/
theorem form?_append {node? : Value → Option Node} {kind : String} (ht : OnlySpan tail)
    (fields : Fields) : form? node? kind (fields ++ tail) = form? node? kind fields := by
  have required_ {α : Type} {name : String} {decode : Value → Option α} (h : name ≠ "span") :
      required name decode (fields ++ tail) = required name decode fields :=
    required_append ht h fields
  have optional_ {α : Type} {name : String} {decode : Value → Option α} (h : name ≠ "span") :
      Json.optional name decode (fields ++ tail) = Json.optional name decode fields :=
    optional_append ht h fields
  simp [form?, required_, optional_]

theorem kind?_toFields (form : Form) : required "kind" kind? form.toFields = some form.tag := by
  cases form with
  | loop kind => cases kind <;> simp [Form.toFields, required, field?, kind?, Form.tag]
  | directive kind => cases kind <;> simp [Form.toFields, required, field?, kind?, Form.tag]
  | _ => simp [Form.toFields, required, field?, kind?, Form.tag]

/-! ### Nodes -/

theorem nullable_of_some {α : Type} {decode : Value → Option α} {v : Value} {a : α}
    (hv : v ≠ .null) (h : decode v = some a) : nullable decode v = some (some a) := by
  unfold nullable
  split
  · exact absurd rfl hv
  · rw [h, Option.map_some]

theorem toJson_ne_null (node : Node) : node.toJson ≠ .null := by
  obtain ⟨form, span⟩ := node
  simp [Node.toJson]

/-- The span of a node stands beside the fields of its form, unless the node was built. -/
theorem field?_span (form : Form) {s : Span} (h : s.Portable) :
    s = .synthetic ∧ field? "span" (form.toFields
        ++ if s.isSynthetic then [] else [("span", .object s.toFields)]) = some none
      ∨ field? "span" (form.toFields
          ++ if s.isSynthetic then [] else [("span", .object s.toFields)])
        = some (some (.object s.toFields)) := by
  have none_ : form.toFields.filter (·.1 = "span") = [] := by
    cases form <;> simp [Form.toFields]
  simp only [field?, List.filter_append, none_, List.nil_append]
  rcases h.sourced with rfl | sourced
  · exact .inl ⟨rfl, rfl⟩
  · have written : ¬ s.isSynthetic = true := by
      rw [Span.isSynthetic, decide_eq_true_eq]
      omega
    rw [if_neg written]
    exact .inr rfl

mutual

/-- A node is read back where it is not too deep. -/
theorem node?_toJson (levels : Nat) (node : Node) (hs : ∀ s ∈ Spans.ofNode node, s.Portable)
    (hd : node.toJson.depth ≤ levels) : node? levels node.toJson = some node := by
  match node, levels with
  | ⟨form, span⟩, 0 => simp [Node.toJson, Value.depth] at hd
  | ⟨form, span⟩, levels + 1 =>
    simp only [Spans.ofNode, List.forall_mem_cons] at hs
    simp only [Node.toJson, Value.depth, Nat.add_le_add_iff_right, depthFields_append,
      Nat.max_le] at hd
    have tail := onlySpan_span span
    have inner := form?_toFields form hs.2 hd.1
    simp only [node?, Node.toJson, object?, Option.bind_eq_bind, Option.bind_some,
      required_append tail (show "kind" ≠ "span" by decide), kind?_toFields, form?_append tail,
      inner]
    rcases field?_span form hs.1 with ⟨built, left_out⟩ | written
    · rw [left_out, Option.bind_some, built]
    · simp only [written, Option.bind_some, Span.ofJson?_toFields hs.1.word]

/-- The form of a node is read back from its fields. -/
theorem form?_toFields {levels : Nat} (form : Form) (hs : ∀ s ∈ Spans.ofForm form, s.Portable)
    (hd : depthFields form.toFields ≤ levels) :
    form? (node? levels) form.tag form.toFields = some form := by
  cases form with
  | array elements =>
    simp only [Spans.ofForm] at hs
    simp only [Form.toFields, depthFields, Value.depth] at hd
    have inner := nodes?_toJson levels elements hs (by omega)
    simp [form?, Form.tag, Form.toFields, required, field?, inner]
  | assign target value =>
    simp only [Spans.ofForm] at hs
    simp only [Form.toFields, depthFields, Value.depth] at hd
    have inner := node?_toJson levels value hs (by omega)
    simp [form?, Form.tag, Form.toFields, required, field?, inner, Target.ofJson?_toJson]
  | classDef name superclass body =>
    simp only [Spans.ofForm] at hs
    simp only [Form.toFields, depthFields, Value.depth] at hd
    have inner := nodes?_toJson levels body hs (by omega)
    simp [form?, Form.tag, Form.toFields, required, Json.optional, field?, inner, string?,
      nullable_name]
  | moduleDef name body =>
    simp only [Spans.ofForm] at hs
    simp only [Form.toFields, depthFields, Value.depth] at hd
    have inner := nodes?_toJson levels body hs (by omega)
    simp [form?, Form.tag, Form.toFields, required, field?, inner, string?]
  | methodDef owner name params body =>
    simp only [Spans.ofForm] at hs
    simp only [Form.toFields, depthFields, Value.depth] at hd
    have inner := nodes?_toJson levels body hs (by omega)
    simp [form?, Form.tag, Form.toFields, required, Json.optional, field?, inner, string?,
      nullable_name, listOf?_params]
  | send receiver name args block =>
    simp only [Spans.ofForm, List.forall_mem_append] at hs
    simp only [Form.toFields, depthFields, Value.depth] at hd
    have first := receiver?_toJson levels receiver hs.1.1 (by omega)
    have others := nodes?_toJson levels args hs.1.2 (by omega)
    have last := block?_toJson levels block hs.2 (by omega)
    simp [form?, Form.tag, Form.toFields, required, Json.optional, field?, string?, first, others,
      last]
  | conditional branches otherwise =>
    simp only [Spans.ofForm, List.forall_mem_append] at hs
    simp only [Form.toFields, depthFields, Value.depth] at hd
    have inner := branches?_toJson levels branches hs.1 (by omega)
    have last := body?_toJson levels otherwise hs.2 (by omega)
    simp [form?, Form.tag, Form.toFields, required, Json.optional, field?, inner, last]
  | loop kind condition body =>
    simp only [Spans.ofForm, List.forall_mem_append] at hs
    simp only [Form.toFields, depthFields, Value.depth] at hd
    have test := node?_toJson levels condition hs.1 (by omega)
    have inner := nodes?_toJson levels body hs.2 (by omega)
    cases kind <;>
      simp [form?, Form.tag, LoopKind.tag, Form.toFields, required, field?, test, inner]
  | rescue body variable_ handler otherwise =>
    simp only [Spans.ofForm, List.forall_mem_append] at hs
    simp only [Form.toFields, depthFields, Value.depth] at hd
    have inner := nodes?_toJson levels body hs.1.1 (by omega)
    have handling := nodes?_toJson levels handler hs.1.2 (by omega)
    have last := body?_toJson levels otherwise hs.2 (by omega)
    simp [form?, Form.tag, Form.toFields, required, Json.optional, field?, inner, handling, last,
      nullable_name]
  | directive kind path =>
    cases kind <;>
      simp [form?, Form.tag, DirectiveKind.text, Form.toFields, required, field?, string?]
  | integer | str | symbol | selfRef | localVar | instanceVar | globalVar | unknown =>
    simp [form?, Form.tag, Form.toFields, required, field?, string?, int64?_toInt]

theorem nodes?_toJson (levels : Nat) (nodes : List Node)
    (hs : ∀ s ∈ Spans.ofNodes nodes, s.Portable) (hd : depthItems (nodesToJson nodes) ≤ levels) :
    listOf? (node? levels) (.list (nodesToJson nodes)) = some nodes := by
  match nodes with
  | [] => rfl
  | node :: nodes =>
    simp only [Spans.ofNodes, List.forall_mem_append] at hs
    simp only [nodesToJson, depthItems, Nat.max_le] at hd
    have first := node?_toJson levels node hs.1 hd.1
    have others := nodes?_toJson levels nodes hs.2 hd.2
    simp only [listOf?] at others
    simp [listOf?, nodesToJson, first, others]

theorem receiver?_toJson (levels : Nat) (receiver : Option Node)
    (hs : ∀ s ∈ Spans.ofReceiver receiver, s.Portable)
    (hd : (receiverToJson receiver).depth ≤ levels) :
    nullable (node? levels) (receiverToJson receiver) = some receiver := by
  match receiver with
  | none => rfl
  | some node =>
    simp only [Spans.ofReceiver] at hs
    simp only [receiverToJson] at hd ⊢
    exact nullable_of_some (toJson_ne_null node) (node?_toJson levels node hs hd)

theorem body?_toJson (levels : Nat) (body : Option (List Node))
    (hs : ∀ s ∈ Spans.ofOptional body, s.Portable) (hd : (bodyToJson body).depth ≤ levels) :
    nullable (listOf? (node? levels)) (bodyToJson body) = some body := by
  match body with
  | none => rfl
  | some body =>
    simp only [Spans.ofOptional] at hs
    simp only [bodyToJson, Value.depth] at hd ⊢
    exact nullable_of_some nofun (nodes?_toJson levels body hs (by omega))

theorem block?_toJson (levels : Nat) (block : Option Block)
    (hs : ∀ s ∈ Spans.ofBlock block, s.Portable) (hd : (blockToJson block).depth ≤ levels) :
    nullable (block? (node? levels)) (blockToJson block) = some block := by
  match block with
  | none => rfl
  | some ⟨params, body⟩ =>
    simp only [Spans.ofBlock] at hs
    simp only [blockToJson, depthFields, Value.depth] at hd ⊢
    have inner := nodes?_toJson levels body hs (by omega)
    exact nullable_of_some nofun (by simp [block?, record?, field?, listOf?_params, inner])

theorem branches?_toJson (levels : Nat) (branches : List Branch)
    (hs : ∀ s ∈ Spans.ofBranches branches, s.Portable)
    (hd : depthItems (branchesToJson branches) ≤ levels) :
    listOf? (branch? (node? levels)) (.list (branchesToJson branches)) = some branches := by
  match branches with
  | [] => rfl
  | ⟨condition, body⟩ :: branches =>
    simp only [Spans.ofBranches, List.forall_mem_append] at hs
    simp only [branchesToJson, depthItems, depthFields, Value.depth, Nat.max_le] at hd
    have test := node?_toJson levels condition hs.1.1 (by omega)
    have inner := nodes?_toJson levels body hs.1.2 (by omega)
    have others := branches?_toJson levels branches hs.2 hd.2
    simp only [listOf?] at others
    have first : branch? (node? levels) (.object [("condition", condition.toJson),
        ("body", .list (nodesToJson body))]) = some ⟨condition, body⟩ := by
      simp [branch?, record?, field?, test, inner]
    simp [listOf?, branchesToJson, first, others]

end

end Interchange

/-! ### Values of nodes -/

theorem Span.whole_toFields {s : Span} (h : s.IsWord) : WholeFields s.toFields := by
  have word : UInt32.size ≤ UInt64.size := by decide
  simp only [Span.toFields, WholeFields, Value.Whole, Int.natAbs_natCast, and_true]
  exact ⟨Nat.lt_of_lt_of_le h.startLine word, Nat.lt_of_lt_of_le h.startColumn word,
    Nat.lt_of_lt_of_le h.endLine word, Nat.lt_of_lt_of_le h.endColumn word⟩

theorem whole_name (name : Option String) : (nameToJson name).Whole := by
  cases name <;> simp [nameToJson, Value.Whole]

theorem wholeItems_params (params : List Param) : WholeItems (params.map Param.toJson) := by
  rw [wholeItems_iff]
  simp only [List.forall_mem_map]
  rintro (name | name) - <;> simp [Param.toJson, Value.Whole, WholeFields]

theorem whole_target (target : Target) : target.toJson.Whole := by
  cases target <;> simp [Target.toJson, Value.Whole, WholeFields]

theorem natAbs_toInt_lt (n : Int64) : n.toInt.natAbs < UInt64.size := by
  have least := Int64.le_toInt n
  have greatest := Int64.toInt_le n
  have bounds : Int64.minValue.toInt = -2 ^ 63 ∧ Int64.maxValue.toInt = 2 ^ 63 - 1 := by decide
  have size : UInt64.size = 2 ^ 64 := rfl
  omega

mutual

theorem whole_toJson (node : Node) (hs : ∀ s ∈ Spans.ofNode node, s.IsWord) :
    node.toJson.Whole := by
  match node with
  | ⟨form, span⟩ =>
    simp only [Spans.ofNode, List.forall_mem_cons] at hs
    have fields := whole_toFields form hs.2
    have last := Span.whole_toFields hs.1
    simp only [Node.toJson, Value.Whole, wholeFields_iff, List.forall_mem_append]
    refine ⟨wholeFields_iff.mp fields, ?_⟩
    split <;> simp [Value.Whole, last]

theorem whole_toFields (form : Form) (hs : ∀ s ∈ Spans.ofForm form, s.IsWord) :
    WholeFields form.toFields := by
  cases form with
  | array elements => simpa [Form.toFields, WholeFields, Value.Whole] using whole_nodes elements hs
  | assign target value =>
    simpa [Form.toFields, WholeFields, Value.Whole, whole_target] using whole_toJson value hs
  | classDef name superclass body =>
    simpa [Form.toFields, WholeFields, Value.Whole, whole_name] using whole_nodes body hs
  | moduleDef name body =>
    simpa [Form.toFields, WholeFields, Value.Whole] using whole_nodes body hs
  | methodDef owner name params body =>
    simpa [Form.toFields, WholeFields, Value.Whole, whole_name, wholeItems_params]
      using whole_nodes body hs
  | send receiver name args block =>
    simp only [Spans.ofForm, List.forall_mem_append] at hs
    simp [Form.toFields, WholeFields, Value.Whole, whole_receiver receiver hs.1.1,
      whole_nodes args hs.1.2, whole_block block hs.2]
  | conditional branches otherwise =>
    simp only [Spans.ofForm, List.forall_mem_append] at hs
    simp [Form.toFields, WholeFields, Value.Whole, whole_branches branches hs.1,
      whole_body otherwise hs.2]
  | loop kind condition body =>
    simp only [Spans.ofForm, List.forall_mem_append] at hs
    simp [Form.toFields, WholeFields, Value.Whole, whole_toJson condition hs.1,
      whole_nodes body hs.2]
  | rescue body variable_ handler otherwise =>
    simp only [Spans.ofForm, List.forall_mem_append] at hs
    simp [Form.toFields, WholeFields, Value.Whole, whole_nodes body hs.1.1, whole_name,
      whole_nodes handler hs.1.2, whole_body otherwise hs.2]
  | integer value => simpa [Form.toFields, WholeFields, Value.Whole] using natAbs_toInt_lt value
  | str | symbol | selfRef | localVar | instanceVar | globalVar | directive | unknown =>
    simp [Form.toFields, WholeFields, Value.Whole]

theorem whole_nodes (nodes : List Node) (hs : ∀ s ∈ Spans.ofNodes nodes, s.IsWord) :
    WholeItems (nodesToJson nodes) := by
  match nodes with
  | [] => trivial
  | node :: nodes =>
    simp only [Spans.ofNodes, List.forall_mem_append] at hs
    exact ⟨whole_toJson node hs.1, whole_nodes nodes hs.2⟩

theorem whole_receiver (receiver : Option Node)
    (hs : ∀ s ∈ Spans.ofReceiver receiver, s.IsWord) : (receiverToJson receiver).Whole := by
  match receiver with
  | none => trivial
  | some node => exact whole_toJson node hs

theorem whole_body (body : Option (List Node)) (hs : ∀ s ∈ Spans.ofOptional body, s.IsWord) :
    (bodyToJson body).Whole := by
  match body with
  | none => trivial
  | some body => exact whole_nodes body hs

theorem whole_block (block : Option Block) (hs : ∀ s ∈ Spans.ofBlock block, s.IsWord) :
    (blockToJson block).Whole := by
  match block with
  | none => trivial
  | some ⟨params, body⟩ => exact ⟨wholeItems_params params, whole_nodes body hs, trivial⟩

theorem whole_branches (branches : List Branch)
    (hs : ∀ s ∈ Spans.ofBranches branches, s.IsWord) : WholeItems (branchesToJson branches) := by
  match branches with
  | [] => trivial
  | ⟨condition, body⟩ :: branches =>
    simp only [Spans.ofBranches, List.forall_mem_append] at hs
    exact ⟨⟨whole_toJson condition hs.1.1, whole_nodes body hs.1.2, trivial⟩,
      whole_branches branches hs.2⟩

end

/-! ### Programs -/

namespace Interchange

/-- What the fields of a node are without its span. -/
theorem filter_toFields (form : Form) {tail : Fields} (ht : OnlySpan tail) :
    (form.toFields ++ tail).filter (·.1 ≠ "span") = form.toFields := by
  have all : form.toFields.filter (·.1 ≠ "span") = form.toFields := by
    cases form <;> simp [Form.toFields]
  have none_ : tail.filter (·.1 ≠ "span") = [] := by
    rw [List.filter_eq_nil_iff]
    intro f hf
    simp [ht f hf]
  rw [List.filter_append, all, none_, List.append_nil]

/-- A node of a program is read back if it does not nest too deep inside the program. -/
theorem topNode?_toJson {node : Node} (hs : ∀ s ∈ Spans.ofNode node, s.Portable)
    (hd : node.toJson.depth < depthLimit - 1) : topNode? node.toJson = some node := by
  have read := node?_toJson depthLimit node hs (by omega)
  obtain ⟨form, span⟩ := node
  simp only [Spans.ofNode, List.forall_mem_cons] at hs
  have whole := whole_toFields form fun s hs' => (hs.2 s hs').word
  have fits : fieldsFit (depthLimit - 3) form.toFields = true := by
    refine whole.fit ?_
    simp only [Node.toJson, Value.depth, depthFields_append] at hd
    omega
  rw [Node.toJson] at read ⊢
  rw [topNode?, object?, Option.bind_eq_bind, Option.bind_some,
    filter_toFields form (onlySpan_span span), fits]
  exact read

/-- A node of a program is not read if it nests too deep inside the program. -/
theorem topNode?_of_deep {node : Node} (hd : depthLimit - 1 ≤ node.toJson.depth) :
    topNode? node.toJson = none := by
  obtain ⟨form, span⟩ := node
  have tail :
      depthFields (if span.isSynthetic then [] else [("span", .object span.toFields)]) ≤ 1 := by
    split <;> simp [depthFields, Value.depth, Span.toFields]
  have deep : ¬ fieldsFit (depthLimit - 3) form.toFields = true := by
    intro fits
    have below := depthFields_le_of_fit fits
    simp only [Node.toJson, Value.depth, depthFields_append, depthLimit] at hd below
    omega
  have refused : guard (fieldsFit (depthLimit - 3) form.toFields = true) = (none : Option Unit) :=
    if_neg deep
  rw [Node.toJson, topNode?, object?, Option.bind_eq_bind, Option.bind_some,
    filter_toFields form (onlySpan_span span), refused]
  rfl

theorem mapM_topNode? (nodes : List Node) (hs : ∀ s ∈ Spans.ofNodes nodes, s.Portable)
    (hd : depthItems (nodesToJson nodes) < depthLimit - 1) :
    (nodesToJson nodes).mapM topNode? = some nodes := by
  induction nodes with
  | nil => rfl
  | cons node nodes ih =>
    simp only [Spans.ofNodes, List.forall_mem_append] at hs
    simp only [nodesToJson, depthItems, Nat.max_lt] at hd
    simp [nodesToJson, topNode?_toJson hs.1 hd.1, ih hs.2 hd.2]

theorem mapM_topNode?_of_deep (nodes : List Node)
    (hd : depthLimit - 1 ≤ depthItems (nodesToJson nodes)) :
    (nodesToJson nodes).mapM topNode? = none := by
  induction nodes with
  | nil => exact absurd hd (by decide)
  | cons node nodes ih =>
    simp only [nodesToJson, depthItems] at hd
    rw [nodesToJson, List.mapM_cons]
    by_cases deep : depthLimit - 1 ≤ node.toJson.depth
    · rw [topNode?_of_deep deep]
      rfl
    · rw [ih (by omega)]
      cases topNode? node.toJson <;> rfl

end Interchange

namespace Body

theorem read?_text {body : Body} (hs : ∀ s ∈ Spans.ofNodes body, s.IsWord) :
    Json.read? body.toJson.text = some body.toJson :=
  Json.read?_text (whole_nodes body hs)

/-- The program that a JSON text was written for is what the text says, or else the program nests
as deep as the limit, and the text says nothing. -/
theorem ofJsonText?_eq {body : Body} (hs : ∀ s ∈ Spans.ofNodes body, s.Portable) :
    ofJsonText? body.toJson.text = if body.toJson.depth < depthLimit then some body else none := by
  have depth : body.toJson.depth = depthItems (nodesToJson body) + 1 := rfl
  have nodes : ofJsonText? body.toJson.text
      = (nodesToJson body).mapM Interchange.topNode? := by
    rw [ofJsonText?, read?_text fun s h => (hs s h).word]
    rfl
  rw [nodes]
  split
  · next shallow => exact Interchange.mapM_topNode? body hs (by omega)
  · next deep => exact Interchange.mapM_topNode?_of_deep body (by omega)

/-- **Handing a program over.** The program that a JSON text was written for is the one that the
text says, if it does not nest as deep as the limit. -/
theorem ofJsonText?_text {body : Body} (hs : ∀ s ∈ Spans.ofNodes body, s.Portable)
    (hd : body.toJson.depth < depthLimit) : ofJsonText? body.toJson.text = some body := by
  rw [ofJsonText?_eq hs, if_pos hd]

/-- A program with a node of every kind, some read from a text and some built, and names and
strings that JSON must escape. -/
def mixedProgram : Body :=
  let read (form : Form) : Node := ⟨form, ⟨1, 1, 4294967295, 7⟩⟩
  let built (form : Form) : Node := .synthetic form
  [read (.classDef "C" none [built .unknown, read (.integer Int64.minValue)]),
    read (.classDef "D" (some "C") []),
    built (.moduleDef "M" [read (.methodDef (some "self") "m" [.positional "x", .block "b"] [])]),
    read (.methodDef none "\"=\\" [] [read (.str "\x01\t\n\u20ac"), built (.str "")]),
    built (.assign (.localVar "a") (read (.array [built (.localVar "nil"), read .selfRef]))),
    built (.assign (.instanceVar "@a") (read (.instanceVar "@a"))),
    built (.assign (.globalVar "$a") (read (.globalVar "$a"))),
    read (.send (some (built (.symbol "s"))) "t" [read (.integer Int64.maxValue)]
      (some ⟨[.positional "y"], [read (.localVar "y")]⟩)),
    read (.send none "u" [] none),
    built (.conditional [⟨built .selfRef, [read .selfRef]⟩, ⟨read .selfRef, []⟩] (some [])),
    built (.conditional [] none),
    read (.loop .whileTruthy (built .selfRef) [built .selfRef]),
    read (.loop .untilTruthy (built .selfRef) []),
    built (.rescue [read .selfRef] (some "e") [] (some [built .selfRef])),
    built (.rescue [] none [] none),
    read (.directive .require "p"), read (.directive .requireRelative "q"),
    read (.directive .load "")]

theorem ofJsonText?_mixedProgram :
    (∀ s ∈ Spans.ofNodes mixedProgram, s.Portable) ∧ mixedProgram.toJson.depth < depthLimit
      ∧ ofJsonText? mixedProgram.toJson.text = some mixedProgram := by
  have portable : ∀ s ∈ Spans.ofNodes mixedProgram, s.Portable := by decide
  have shallow : mixedProgram.toJson.depth < depthLimit := by decide
  exact ⟨portable, shallow, ofJsonText?_text portable shallow⟩

end Body

end ScriptCompiler

/-!
## Programs that were parsed

The spans of a parsed program can be handed over, as its text has no more than the lines and bytes
that a word counts. Its nodes can nest deeper than JSON may: an expression that stands inside
another takes a level of nodes for itself and one for the list that holds it, and the messages,
conditions and signs around an expression take more without counting as expressions inside one
another. So a parsed program is read back exactly if it does not nest as deep as the limit.
-/

namespace ScriptCompiler

open Json

theorem Span.Below.portable {bound : Nat} {s : Span} (h : s.Below bound)
    (hb : bound ≤ UInt32.size) : s.Portable where
  word := ⟨Nat.lt_of_lt_of_le h.startLine hb, Nat.lt_of_lt_of_le h.startColumn hb,
    Nat.lt_of_lt_of_le h.endLine hb, Nat.lt_of_lt_of_le h.endColumn hb⟩
  sourced := .inr h.sourced

theorem Span.portable_synthetic : Span.synthetic.Portable := by
  decide

namespace Parse

variable {name source : String} {known : List String} {program : Body}

/-- The spans of a parsed program are in its text, but for those of nodes that were built. -/
theorem below_of_parse (h : parse name source known = .ok program) :
    ∀ s ∈ Spans.ofNodes program, s.Below (source.utf8ByteSize + 2) ∨ s = .synthetic := by
  have first : (Span.point 1 1).Below (source.utf8ByteSize + 2) := by
    constructor <;> simp only [Span.point] <;> omega
  exact (within_of_parse (fun ha hb => ha.merge hb) (Token.below_scan name source) first h).ofNodes

theorem portable_of_parse (h : parse name source known = .ok program)
    (word : ∀ s ∈ Spans.ofNodes program, s.IsWord) :
    ∀ s ∈ Spans.ofNodes program, s.Portable :=
  fun s hs => ⟨word s hs, (below_of_parse h s hs).symm.imp id Span.Below.sourced⟩

theorem isWord_of_parse (h : parse name source known = .ok program)
    (small : source.utf8ByteSize + 1 < UInt32.size) : ∀ s ∈ Spans.ofNodes program, s.IsWord := by
  intro s hs
  rcases below_of_parse h s hs with inText | rfl
  · exact (inText.portable (by omega)).word
  · exact Span.portable_synthetic.word

/-- **Handing parsed programs over.** -/
theorem ofJsonText?_of_parse (h : parse name source known = .ok program) :
    (source.utf8ByteSize + 1 < UInt32.size → ∀ s ∈ Spans.ofNodes program, s.IsWord)
      ∧ ((∀ s ∈ Spans.ofNodes program, s.IsWord) →
        Body.ofJsonText? program.toJson.text
          = if program.toJson.depth < depthLimit then some program else none) :=
  ⟨isWord_of_parse h, fun word => Body.ofJsonText?_eq (portable_of_parse h word)⟩

/-- Arrays that stand inside one another. -/
def nestedText (levels : Nat) : String :=
  String.ofList (List.replicate levels '[' ++ List.replicate levels ']')

/-- What a text is as a program, as far as the depth of its JSON goes. -/
def depth? (source : String) : Option Nat :=
  match parse "main" source [] with
  | .ok program => some (Body.toJson program).depth
  | .error _ => none

theorem parse_of_depth? {levels : Nat} (h : depth? source = some levels) :
    ∃ program, parse "main" source [] = .ok program ∧ (Body.toJson program).depth = levels := by
  unfold depth? at h
  split at h
  · next program hp => exact ⟨program, hp, Option.some.inj h⟩
  · cases h

/-- One array less than may stand inside one another is a program that is read back. -/
theorem ofJsonText?_nestedText : ∃ program,
    parse "main" (nestedText (maxDepth - 1)) [] = .ok program ∧ program.toJson.depth = 127
      ∧ Body.ofJsonText? program.toJson.text = some program := by
  have depth : depth? (nestedText (maxDepth - 1)) = some 127 := by decide +kernel
  obtain ⟨program, parsed, levels⟩ := parse_of_depth? depth
  obtain ⟨word, read⟩ := ofJsonText?_of_parse parsed
  refine ⟨program, parsed, levels, ?_⟩
  rw [read (word (by decide +kernel)), levels]
  rfl

/-- As many arrays as may stand inside one another are a program that is not read back. -/
theorem refused_nestedText : ∃ program, parse "main" (nestedText maxDepth) [] = .ok program
    ∧ Body.ofJsonText? program.toJson.text = none := by
  have depth : depth? (nestedText maxDepth) = some 129 := by decide +kernel
  obtain ⟨program, parsed, levels⟩ := parse_of_depth? depth
  have portable := portable_of_parse parsed (isWord_of_parse parsed (by decide +kernel))
  refine ⟨program, parsed, ?_⟩
  rw [Body.ofJsonText?_eq portable, levels]
  rfl

end Parse

end ScriptCompiler
