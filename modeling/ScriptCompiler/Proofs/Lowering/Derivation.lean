import Mathlib.Init
import ScriptCompiler.Lowering.Node
import ScriptCompiler.Proofs.Steps

/-!
# Lowerings as derivations

What it takes for a node to be lowered: for every form of node one rule says which nodes inside it
are lowered, from which states, and what their fragments are put together to. Facts about generated
code are proved by induction on these rules. Every lowering that succeeds has a derivation, and
every derivation is one of a lowering.
-/

namespace ScriptCompiler.Lowering

open C

/-! ## States -/

namespace Context

/-- The name that is given out next. -/
def name (ctx : Context) (base : String) : Name :=
  ⟨ctx.lead, base, ctx.counter + 1⟩

/-- The variable that is given out next. -/
def variable_ (ctx : Context) (base : String) : Variable :=
  .generated (ctx.name base)

/-- The state after a name was given out. -/
def next (ctx : Context) : Context :=
  { ctx with counter := ctx.counter + 1 }

/-- The state inside a scope. -/
def opened (ctx : Context) : Context :=
  { ctx with depth := ctx.depth + 1 }

/-- The state after a scope. -/
def closed (ctx : Context) : Context :=
  { ctx with depth := ctx.depth - 1 }

/-- The state after an assignment. -/
def record (ctx : Context) : Target → Context
  | .localVar name => ctx.declare name
  | .instanceVar _ => ctx
  | .globalVar _ => ctx

@[simp] theorem lead_next (ctx : Context) : ctx.next.lead = ctx.lead := rfl

@[simp] theorem lead_opened (ctx : Context) : ctx.opened.lead = ctx.lead := rfl

@[simp] theorem lead_closed (ctx : Context) : ctx.closed.lead = ctx.lead := rfl

@[simp] theorem counter_next (ctx : Context) : ctx.next.counter = ctx.counter + 1 := rfl

@[simp] theorem counter_opened (ctx : Context) : ctx.opened.counter = ctx.counter := rfl

@[simp] theorem counter_closed (ctx : Context) : ctx.closed.counter = ctx.counter := rfl

theorem lead_declare (ctx : Context) (name : String) : (ctx.declare name).lead = ctx.lead := by
  unfold declare
  split <;> rfl

theorem counter_declare (ctx : Context) (name : String) :
    (ctx.declare name).counter = ctx.counter := by
  unfold declare
  split <;> rfl

@[simp] theorem lead_record (ctx : Context) (target : Target) :
    (ctx.record target).lead = ctx.lead := by
  cases target with
  | localVar name => exact lead_declare ctx name
  | instanceVar name => rfl
  | globalVar name => rfl

@[simp] theorem counter_record (ctx : Context) (target : Target) :
    (ctx.record target).counter = ctx.counter := by
  cases target with
  | localVar name => exact counter_declare ctx name
  | instanceVar name => rfl
  | globalVar name => rfl

end Context

/-! ## Parts of fragments -/

/-- The base and the value of a form whose value is that of one expression. -/
def leaf? : Form → Option (String × Expr)
  | .integer value => some ("int", .integer value)
  | .str value => some ("str", .str value)
  | .symbol name => some ("sym", .symbol name)
  | .localVar name => some ("var", .getLocal name)
  | .instanceVar name => some ("ivar", .getInstance name)
  | .globalVar name => some ("gvar", .getGlobal name)
  | _ => none

/-- A class or module: what its names are based on, its own name, how it is created, its body. -/
structure Namespace where
  base : String
  bodyBase : String
  name : String
  create : Expr
  body : Body

/-- What a form defines, if that is a class or module. -/
def namespace? : Form → Option Namespace
  | .classDef name superclass body =>
    some ⟨"class", "class_body", name, .newClass (superclass.getD "Object") name, body⟩
  | .moduleDef name body => some ⟨"module", "module_body", name, .newModule name, body⟩
  | _ => none

/-- The statements that open a class or module. -/
def Namespace.stmts (ns : Namespace) (function : Name) (object result : Variable) : List Stmt :=
  [.declare object (.lookup ns.name),
    .branch (.isNull object)
      [.assign object ns.create, .setLocal ns.name (.variable_ object)] [],
    .declare result (.callInside function object)]

/-- The assignment to a target. -/
def storeStmt (value : Variable) : Target → Stmt
  | .localVar name => .setLocal name (.variable_ value)
  | .instanceVar name => .setInstance name value
  | .globalVar name => .setGlobal name value

/-- The statements of a loop. -/
def loopStmts (kind : LoopKind) (test : Fragment) (function : Name) : List Stmt :=
  [.forever (test.code.stmts
    ++ [.breakIf test.result (kind = .untilTruthy), .discard (.callHere function)])]

/-! ## Steps that succeed -/

section Steps

variable {α : Type} {ctx ctx' : Context}

theorem fresh_ok {base : String} {n : Name} (h : fresh base ctx = (.ok n, ctx')) :
    n = ctx.name base ∧ ctx' = ctx.next := by
  cases h
  exact ⟨rfl, rfl⟩

theorem freshVariable_ok {base : String} {v : Variable}
    (h : freshVariable base ctx = (.ok v, ctx')) :
    v = ctx.variable_ base ∧ ctx' = ctx.next := by
  cases h
  exact ⟨rfl, rfl⟩

theorem bindFresh_ok {base : String} {value : Expr} {frag : Fragment}
    (h : bindFresh base value ctx = (.ok frag, ctx')) :
    frag = ⟨.ofStmts [.declare (ctx.variable_ base) value], ctx.variable_ base⟩
      ∧ ctx' = ctx.next := by
  cases h
  exact ⟨rfl, rfl⟩

theorem inScope_eq (step : Step α) (ctx : Context) :
    inScope step ctx = ((step ctx.opened).1, (step ctx.opened).2.closed) :=
  rfl

theorem inScope_ok {step : Step α} {a : α} (h : inScope step ctx = (.ok a, ctx')) :
    ∃ mid, step ctx.opened = (.ok a, mid) ∧ ctx' = mid.closed := by
  rw [inScope_eq] at h
  rcases hs : step ctx.opened with ⟨r, mid⟩
  rw [hs] at h
  cases h
  exact ⟨mid, rfl, rfl⟩

theorem checkParams_ok {owner : ParamOwner} {params : List Param} {u : Unit}
    (h : checkParams owner params ctx = (.ok u, ctx')) :
    misplacedBlock? params = none ∧ ctx = ctx' := by
  unfold checkParams at h
  cases hm : misplacedBlock? params with
  | none =>
    rw [hm] at h
    exact ⟨rfl, (pure_ok h).2⟩
  | some p =>
    rw [hm] at h
    exact (throw_ok h).elim

theorem store_ok {target : Target} {value : Variable} {stmt : Stmt}
    (h : store target value ctx = (.ok stmt, ctx')) :
    stmt = storeStmt value target ∧ ctx' = ctx.record target := by
  cases target with
  | localVar name => cases h; exact ⟨rfl, rfl⟩
  | instanceVar name => cases h; exact ⟨rfl, rfl⟩
  | globalVar name => cases h; exact ⟨rfl, rfl⟩

theorem openNamespace_ok (ns : Namespace) {function : Name} {frag : Fragment}
    (h : openNamespace ns.base ns.name ns.create function ctx = (.ok frag, ctx')) :
    frag = ⟨.ofStmts (ns.stmts function (ctx.variable_ ns.base)
        (ctx.next.variable_ (ns.base ++ "_result"))), ctx.next.variable_ (ns.base ++ "_result")⟩
      ∧ ctx' = ctx.next.next := by
  cases h
  exact ⟨rfl, rfl⟩

/-- How arguments are handed over: none, one by its address, more in a vector that is filled. -/
theorem marshal_ok {args : List Variable} {stmts : List Stmt} {argv : ArgVector}
    (h : marshal args ctx = (.ok (stmts, argv), ctx')) :
    (args = [] ∧ stmts = [] ∧ argv = .none ∧ ctx' = ctx)
      ∨ (∃ arg, args = [arg] ∧ stmts = [] ∧ argv = .single arg ∧ ctx' = ctx)
      ∨ (2 ≤ args.length
        ∧ stmts = .declareArgs (ctx.name "args") args.length :: storeArgs (ctx.name "args") 0 args
        ∧ argv = .array (ctx.name "args") ∧ ctx' = ctx.next) := by
  match args, h with
  | [], h => cases h; exact .inl ⟨rfl, rfl, rfl, rfl⟩
  | [arg], h => cases h; exact .inr (.inl ⟨arg, rfl, rfl, rfl, rfl⟩)
  | _ :: _ :: _, h =>
    cases h
    exact .inr (.inr ⟨by simp, rfl, rfl, rfl⟩)

end Steps

/-! ## The rules -/

mutual

/-- A node is lowered to a fragment between two states. -/
inductive Lowers : Context → Node → Fragment → Context → Prop
  | leaf {ctx : Context} {form : Form} {span : Span} {base : String} {value : Expr}
      (h : leaf? form = some (base, value)) :
      Lowers ctx ⟨form, span⟩ ⟨.ofStmts [.declare (ctx.variable_ base) value], ctx.variable_ base⟩
        ctx.next
  | selfRef {ctx : Context} {span : Span} : Lowers ctx ⟨.selfRef, span⟩ ⟨.ofStmts [], .self⟩ ctx
  | array {ctx ctx' : Context} {span : Span} {nodes : List Node} {code : Code}
      (elements : LowersElements ctx.next (ctx.variable_ "arr") nodes code ctx') :
      Lowers ctx ⟨.array nodes, span⟩
        ⟨.ofStmts [.declare (ctx.variable_ "arr") .emptyArray] ++ code, ctx.variable_ "arr"⟩ ctx'
  | assign {ctx ctx' : Context} {span : Span} {target : Target} {node : Node} {frag : Fragment}
      (value : Lowers ctx node frag ctx') :
      Lowers ctx ⟨.assign target node, span⟩
        ⟨frag.code ++ .ofStmts [storeStmt frag.result target], frag.result⟩ (ctx'.record target)
  | namespace_ {ctx ctx' : Context} {form : Form} {span : Span} {ns : Namespace} {code : Code}
      (h : namespace? form = some ns) (body : LowersBody ctx.next.opened ns.body code ctx') :
      Lowers ctx ⟨form, span⟩
        ⟨⟨hoist (ctx.name ns.bodyBase) .scoped [] code, []⟩
          ++ .ofStmts (ns.stmts (ctx.name ns.bodyBase) (ctx'.closed.variable_ ns.base)
            (ctx'.closed.next.variable_ (ns.base ++ "_result"))),
          ctx'.closed.next.variable_ (ns.base ++ "_result")⟩
        ctx'.closed.next.next
  | methodDef {ctx ctx' : Context} {span : Span} {owner : Option String} {name : String}
      {params : List Param} {body : Body} {code : Code}
      (placed : misplacedBlock? params = none)
      (body_ : LowersBody ctx.next.opened body code ctx') :
      Lowers ctx ⟨.methodDef owner name params body, span⟩
        ⟨⟨hoist (ctx.name "method") .method (methodEntry name params) code,
          [defineOn owner name (ctx.name "method")]⟩
          ++ .ofStmts [.declare (ctx'.closed.variable_ "sym") (.symbol name)],
          ctx'.closed.variable_ "sym"⟩
        ctx'.closed.next
  | send {ctx ctx₁ ctx₂ ctx₃ ctx₄ : Context} {span : Span} {receiver : Option Node}
      {name : String} {args : List Node} {block : Option Block} {before code passing : Code}
      {rv : Option Variable} {vars : List Variable} {stmts : List Stmt} {argv : ArgVector}
      {bn : Option Name}
      (receiver_ : LowersReceiver ctx receiver before rv ctx₁)
      (args_ : LowersArgs ctx₁ args code vars ctx₂)
      (marshal_ : marshal vars ctx₂ = (.ok (stmts, argv), ctx₃))
      (block_ : LowersBlock ctx₃ block passing bn ctx₄) :
      Lowers ctx ⟨.send receiver name args block, span⟩
        ⟨before ++ code ++ .ofStmts stmts ++ passing
          ++ .ofStmts [.declare (ctx₄.variable_ "call") (callOf rv name ⟨vars.length, argv, bn⟩)],
          ctx₄.variable_ "call"⟩
        ctx₄.next
  | conditional {ctx ctx' : Context} {span : Span} {branches : List Branch}
      {otherwise : Option (List Node)} {code : Code}
      (branches_ : LowersBranches ctx.next (ctx.variable_ "if_result") otherwise branches code
        ctx') :
      Lowers ctx ⟨.conditional branches otherwise, span⟩
        ⟨.ofStmts [.declare (ctx.variable_ "if_result") .nil] ++ code, ctx.variable_ "if_result"⟩
        ctx'
  | loop {ctx ctx₁ ctx₂ : Context} {span : Span} {kind : LoopKind} {condition : Node}
      {body : Body} {code : Code} {test : Fragment}
      (body_ : LowersBody ctx.next body code ctx₁) (condition_ : Lowers ctx₁ condition test ctx₂) :
      Lowers ctx ⟨.loop kind condition body, span⟩
        ⟨⟨hoist (ctx.name (loopBase kind)) .scoped [] code ++ test.code.functions,
          loopStmts kind test (ctx.name (loopBase kind))⟩
          ++ .ofStmts [.declare (ctx₂.variable_ "nil") .nil],
          ctx₂.variable_ "nil"⟩
        ctx₂.next
  | rescue {ctx ctx₁ ctx₂ ctx₃ : Context} {span : Span} {body handler : Body}
      {variable_ : Option String} {otherwise : Option (List Node)} {code caught : Code}
      {others : List Function} {after : Option Name}
      (body_ : LowersBody ctx.next body code ctx₁)
      (handler_ : LowersBody ctx₁.next handler caught ctx₂)
      (otherwise_ : LowersElse ctx₂ otherwise others after ctx₃) :
      Lowers ctx ⟨.rescue body variable_ handler otherwise, span⟩
        ⟨⟨hoist (ctx.name "begin_body") .scoped [] code
          ++ hoist (ctx₁.name "rescue_body") .scoped [] caught ++ others
          ++ [⟨ctx₃.name "begin", .scoped, rescueWrapper (ctx.name "begin_body")
            (ctx₁.name "rescue_body") after variable_⟩], []⟩
          ++ .ofStmts [.declare (ctx₃.next.variable_ "begin_result")
            (.callHere (ctx₃.name "begin"))],
          ctx₃.next.variable_ "begin_result"⟩
        ctx₃.next.next

/-- The statements of a scope are lowered. -/
inductive LowersBody : Context → Body → Code → Context → Prop
  | nil {ctx : Context} : LowersBody ctx [] (.ofStmts [.return_ .nil]) ctx
  | last {ctx ctx' : Context} {node : Node} {frag : Fragment} (last_ : Lowers ctx node frag ctx') :
      LowersBody ctx [node] (frag.code ++ .ofStmts [.return_ (.variable_ frag.result)]) ctx'
  | cons {ctx ctx₁ ctx₂ : Context} {node next : Node} {nodes : List Node} {frag : Fragment}
      {code : Code} (first : Lowers ctx node frag ctx₁)
      (others : LowersBody ctx₁ (next :: nodes) code ctx₂) :
      LowersBody ctx (node :: next :: nodes)
        (frag.code ++ .ofStmts [.discard (.variable_ frag.result)] ++ code) ctx₂

/-- The elements of an array are lowered. -/
inductive LowersElements : Context → Variable → List Node → Code → Context → Prop
  | nil {ctx : Context} {array : Variable} : LowersElements ctx array [] (.ofStmts []) ctx
  | cons {ctx ctx₁ ctx₂ : Context} {array : Variable} {node : Node} {nodes : List Node}
      {frag : Fragment} {code : Code} (first : Lowers ctx node frag ctx₁)
      (others : LowersElements ctx₁ array nodes code ctx₂) :
      LowersElements ctx array (node :: nodes)
        (frag.code ++ .ofStmts [.push array frag.result] ++ code) ctx₂

/-- The receiver of a message is lowered. -/
inductive LowersReceiver : Context → Option Node → Code → Option Variable → Context → Prop
  | none {ctx : Context} : LowersReceiver ctx none (.ofStmts []) none ctx
  | some {ctx ctx' : Context} {node : Node} {frag : Fragment}
      (receiver : Lowers ctx node frag ctx') :
      LowersReceiver ctx (some node) frag.code (some frag.result) ctx'

/-- The arguments of a message are lowered. -/
inductive LowersArgs : Context → List Node → Code → List Variable → Context → Prop
  | nil {ctx : Context} : LowersArgs ctx [] (.ofStmts []) [] ctx
  | cons {ctx ctx₁ ctx₂ : Context} {node : Node} {nodes : List Node} {frag : Fragment}
      {code : Code} {vars : List Variable} (first : Lowers ctx node frag ctx₁)
      (others : LowersArgs ctx₁ nodes code vars ctx₂) :
      LowersArgs ctx (node :: nodes) (frag.code ++ code) (frag.result :: vars) ctx₂

/-- The block of a message is lowered. -/
inductive LowersBlock : Context → Option Block → Code → Option Name → Context → Prop
  | none {ctx : Context} : LowersBlock ctx none (.ofStmts []) none ctx
  | some {ctx ctx' : Context} {params : List Param} {body : Body} {code : Code}
      (placed : misplacedBlock? params = none)
      (body_ : LowersBody ctx.next.opened body code ctx') :
      LowersBlock ctx (some ⟨params, body⟩)
        ⟨hoist (ctx.name "block_fn") .method (blockEntry params) code,
          [.declareBlock (ctx'.closed.name "blk") (ctx.name "block_fn")]⟩
        (some (ctx'.closed.name "blk")) ctx'.closed.next

/-- The branches of a conditional are lowered, and what runs when none of them does. -/
inductive LowersBranches :
    Context → Variable → Option (List Node) → List Branch → Code → Context → Prop
  | nil {ctx ctx' : Context} {result : Variable} {otherwise : Option (List Node)} {code : Code}
      (otherwise_ : LowersOtherwise ctx result otherwise code ctx') :
      LowersBranches ctx result otherwise [] code ctx'
  | cons {ctx ctx₁ ctx₂ ctx₃ : Context} {result : Variable} {otherwise : Option (List Node)}
      {condition : Node} {body : Body} {branches : List Branch} {test : Fragment}
      {code others : Code} (condition_ : Lowers ctx condition test ctx₁)
      (body_ : LowersBody ctx₁.next body code ctx₂)
      (others_ : LowersBranches ctx₂ result otherwise branches others ctx₃) :
      LowersBranches ctx result otherwise (⟨condition, body⟩ :: branches)
        ⟨test.code.functions ++ hoist (ctx₁.name "if_branch") .scoped [] code ++ others.functions,
          test.code.stmts ++ [.branch (.truthy test.result)
            [assignCall result (ctx₁.name "if_branch")] others.stmts]⟩ ctx₃

/-- The body that runs when no branch does is lowered. -/
inductive LowersOtherwise :
    Context → Variable → Option (List Node) → Code → Context → Prop
  | none {ctx : Context} {result : Variable} : LowersOtherwise ctx result none (.ofStmts []) ctx
  | some {ctx ctx' : Context} {result : Variable} {body : Body} {code : Code}
      (body_ : LowersBody ctx.next body code ctx') :
      LowersOtherwise ctx result (some body)
        ⟨hoist (ctx.name "if_else") .scoped [] code, [assignCall result (ctx.name "if_else")]⟩ ctx'

/-- The body that runs after a protected body without an exception is lowered. -/
inductive LowersElse : Context → Option (List Node) → List Function → Option Name → Context → Prop
  | none {ctx : Context} : LowersElse ctx none [] none ctx
  | some {ctx ctx' : Context} {body : Body} {code : Code}
      (body_ : LowersBody ctx.next body code ctx') :
      LowersElse ctx (some body) (hoist (ctx.name "else_body") .scoped [] code)
        (some (ctx.name "else_body")) ctx'

end

/-! ## Lowerings follow the rules -/

mutual

/-- **Every lowering has a derivation.** -/
theorem lowers_of_lower {node : Node} {ctx ctx' : Context} {frag : Fragment}
    (h : lower node ctx = (.ok frag, ctx')) : Lowers ctx node frag ctx' := by
  obtain ⟨form, span⟩ := node
  rw [lower] at h
  exact lowers_of_lowerForm h

theorem lowers_of_lowerForm {form : Form} {span : Span} {ctx ctx' : Context} {frag : Fragment}
    (h : lowerForm span form ctx = (.ok frag, ctx')) : Lowers ctx ⟨form, span⟩ frag ctx' := by
  cases form with
  | integer value => rw [lowerForm] at h; obtain ⟨rfl, rfl⟩ := bindFresh_ok h; exact .leaf rfl
  | str value => rw [lowerForm] at h; obtain ⟨rfl, rfl⟩ := bindFresh_ok h; exact .leaf rfl
  | symbol name => rw [lowerForm] at h; obtain ⟨rfl, rfl⟩ := bindFresh_ok h; exact .leaf rfl
  | localVar name => rw [lowerForm] at h; obtain ⟨rfl, rfl⟩ := bindFresh_ok h; exact .leaf rfl
  | instanceVar name => rw [lowerForm] at h; obtain ⟨rfl, rfl⟩ := bindFresh_ok h; exact .leaf rfl
  | globalVar name => rw [lowerForm] at h; obtain ⟨rfl, rfl⟩ := bindFresh_ok h; exact .leaf rfl
  | selfRef => rw [lowerForm] at h; obtain ⟨rfl, rfl⟩ := pure_ok h; exact .selfRef
  | array elements =>
    rw [lowerForm] at h
    obtain ⟨_, _, h₁, h⟩ := bind_ok h
    obtain ⟨rfl, rfl⟩ := freshVariable_ok h₁
    obtain ⟨code, _, h₂, h⟩ := bind_ok h
    obtain ⟨rfl, rfl⟩ := pure_ok h
    exact .array (lowers_of_lowerElements h₂)
  | assign target value =>
    rw [lowerForm] at h
    obtain ⟨frag, _, h₁, h⟩ := bind_ok h
    obtain ⟨_, _, h₂, h⟩ := bind_ok h
    obtain ⟨rfl, rfl⟩ := store_ok h₂
    obtain ⟨rfl, rfl⟩ := pure_ok h
    exact .assign (lowers_of_lower h₁)
  | classDef name superclass body =>
    rw [lowerForm] at h
    obtain ⟨_, _, h₁, h⟩ := bind_ok h
    obtain ⟨rfl, rfl⟩ := fresh_ok h₁
    obtain ⟨_, _, h₂, h⟩ := bind_ok h
    obtain ⟨mid, hb, rfl⟩ := inScope_ok h₂
    obtain ⟨_, _, h₃, h⟩ := bind_ok h
    obtain ⟨rfl, rfl⟩ := openNamespace_ok
      ⟨"class", "class_body", name, .newClass (superclass.getD "Object") name, body⟩ h₃
    obtain ⟨rfl, rfl⟩ := pure_ok h
    have hn : namespace? (.classDef name superclass body) = some
        ⟨"class", "class_body", name, .newClass (superclass.getD "Object") name, body⟩ := rfl
    exact .namespace_ hn (lowers_of_lowerBody hb)
  | moduleDef name body =>
    rw [lowerForm] at h
    obtain ⟨_, _, h₁, h⟩ := bind_ok h
    obtain ⟨rfl, rfl⟩ := fresh_ok h₁
    obtain ⟨_, _, h₂, h⟩ := bind_ok h
    obtain ⟨mid, hb, rfl⟩ := inScope_ok h₂
    obtain ⟨_, _, h₃, h⟩ := bind_ok h
    obtain ⟨rfl, rfl⟩ := openNamespace_ok ⟨"module", "module_body", name, .newModule name, body⟩ h₃
    obtain ⟨rfl, rfl⟩ := pure_ok h
    have hn : namespace? (.moduleDef name body) = some
        ⟨"module", "module_body", name, .newModule name, body⟩ := rfl
    exact .namespace_ hn (lowers_of_lowerBody hb)
  | methodDef owner name params body =>
    rw [lowerForm] at h
    obtain ⟨_, _, h₀, h⟩ := bind_ok h
    obtain ⟨placed, rfl⟩ := checkParams_ok h₀
    obtain ⟨_, _, h₁, h⟩ := bind_ok h
    obtain ⟨rfl, rfl⟩ := fresh_ok h₁
    obtain ⟨_, _, h₂, h⟩ := bind_ok h
    obtain ⟨mid, hb, rfl⟩ := inScope_ok h₂
    obtain ⟨_, _, h₃, h⟩ := bind_ok h
    obtain ⟨rfl, rfl⟩ := bindFresh_ok h₃
    obtain ⟨rfl, rfl⟩ := pure_ok h
    exact .methodDef placed (lowers_of_lowerBody hb)
  | send receiver name args block =>
    rw [lowerForm] at h
    obtain ⟨⟨before, rv⟩, _, h₁, h⟩ := bind_ok h
    obtain ⟨⟨code, vars⟩, _, h₂, h⟩ := bind_ok h
    obtain ⟨⟨stmts, argv⟩, _, h₃, h⟩ := bind_ok h
    obtain ⟨⟨passing, bn⟩, _, h₄, h⟩ := bind_ok h
    obtain ⟨_, _, h₅, h⟩ := bind_ok h
    obtain ⟨rfl, rfl⟩ := bindFresh_ok h₅
    obtain ⟨rfl, rfl⟩ := pure_ok h
    exact .send (lowers_of_lowerReceiver h₁) (lowers_of_lowerArgs h₂) h₃
      (lowers_of_lowerBlock h₄)
  | conditional branches otherwise =>
    rw [lowerForm] at h
    obtain ⟨_, _, h₁, h⟩ := bind_ok h
    obtain ⟨rfl, rfl⟩ := freshVariable_ok h₁
    obtain ⟨code, _, h₂, h⟩ := bind_ok h
    obtain ⟨rfl, rfl⟩ := pure_ok h
    exact .conditional (lowers_of_lowerBranches lowers_of_lowerOtherwise h₂)
  | loop kind condition body =>
    rw [lowerForm] at h
    obtain ⟨_, _, h₁, h⟩ := bind_ok h
    obtain ⟨rfl, rfl⟩ := fresh_ok h₁
    obtain ⟨code, _, h₂, h⟩ := bind_ok h
    obtain ⟨test, _, h₃, h⟩ := bind_ok h
    obtain ⟨_, _, h₄, h⟩ := bind_ok h
    obtain ⟨rfl, rfl⟩ := bindFresh_ok h₄
    obtain ⟨rfl, rfl⟩ := pure_ok h
    exact .loop (lowers_of_lowerBody h₂) (lowers_of_lower h₃)
  | rescue body variable_ handler otherwise =>
    rw [lowerForm] at h
    obtain ⟨_, _, h₁, h⟩ := bind_ok h
    obtain ⟨rfl, rfl⟩ := fresh_ok h₁
    obtain ⟨code, _, h₂, h⟩ := bind_ok h
    obtain ⟨_, _, h₃, h⟩ := bind_ok h
    obtain ⟨rfl, rfl⟩ := fresh_ok h₃
    obtain ⟨caught, _, h₄, h⟩ := bind_ok h
    obtain ⟨⟨others, after⟩, _, h₅, h⟩ := bind_ok h
    obtain ⟨_, _, h₆, h⟩ := bind_ok h
    obtain ⟨rfl, rfl⟩ := fresh_ok h₆
    obtain ⟨_, _, h₇, h⟩ := bind_ok h
    obtain ⟨rfl, rfl⟩ := bindFresh_ok h₇
    obtain ⟨rfl, rfl⟩ := pure_ok h
    exact .rescue (lowers_of_lowerBody h₂) (lowers_of_lowerBody h₄) (lowers_of_lowerElseBody h₅)
  | directive kind path => rw [lowerForm] at h; exact (throw_ok h).elim
  | unknown => rw [lowerForm] at h; exact (throw_ok h).elim

theorem lowers_of_lowerBody {nodes : Body} {ctx ctx' : Context} {code : Code}
    (h : lowerBody nodes ctx = (.ok code, ctx')) : LowersBody ctx nodes code ctx' := by
  match nodes, h with
  | [], h => rw [lowerBody] at h; obtain ⟨rfl, rfl⟩ := pure_ok h; exact .nil
  | [last], h =>
    rw [lowerBody] at h
    obtain ⟨frag, _, h₁, h⟩ := bind_ok h
    obtain ⟨rfl, rfl⟩ := pure_ok h
    exact .last (lowers_of_lower h₁)
  | node :: next :: nodes, h =>
    simp only [lowerBody] at h
    obtain ⟨frag, _, h₁, h⟩ := bind_ok h
    obtain ⟨code, _, h₂, h⟩ := bind_ok h
    obtain ⟨rfl, rfl⟩ := pure_ok h
    exact .cons (lowers_of_lower h₁) (lowers_of_lowerBody h₂)

theorem lowers_of_lowerElements {array : Variable} {nodes : List Node} {ctx ctx' : Context}
    {code : Code} (h : lowerElements array nodes ctx = (.ok code, ctx')) :
    LowersElements ctx array nodes code ctx' := by
  match nodes, h with
  | [], h => rw [lowerElements] at h; obtain ⟨rfl, rfl⟩ := pure_ok h; exact .nil
  | node :: nodes, h =>
    rw [lowerElements] at h
    obtain ⟨frag, _, h₁, h⟩ := bind_ok h
    obtain ⟨code, _, h₂, h⟩ := bind_ok h
    obtain ⟨rfl, rfl⟩ := pure_ok h
    exact .cons (lowers_of_lower h₁) (lowers_of_lowerElements h₂)

theorem lowers_of_lowerReceiver {receiver : Option Node} {ctx ctx' : Context} {code : Code}
    {rv : Option Variable} (h : lowerReceiver receiver ctx = (.ok (code, rv), ctx')) :
    LowersReceiver ctx receiver code rv ctx' := by
  match receiver, h with
  | none, h => rw [lowerReceiver] at h; cases h; exact .none
  | some node, h =>
    rw [lowerReceiver] at h
    obtain ⟨frag, _, h₁, h⟩ := bind_ok h
    cases h
    exact .some (lowers_of_lower h₁)

theorem lowers_of_lowerArgs {nodes : List Node} {ctx ctx' : Context} {code : Code}
    {vars : List Variable} (h : lowerArgs nodes ctx = (.ok (code, vars), ctx')) :
    LowersArgs ctx nodes code vars ctx' := by
  match nodes, h with
  | [], h => rw [lowerArgs] at h; cases h; exact .nil
  | node :: nodes, h =>
    rw [lowerArgs] at h
    obtain ⟨frag, _, h₁, h⟩ := bind_ok h
    obtain ⟨⟨code, vars⟩, _, h₂, h⟩ := bind_ok h
    cases h
    exact .cons (lowers_of_lower h₁) (lowers_of_lowerArgs h₂)

theorem lowers_of_lowerBlock {message : String} {block : Option Block} {ctx ctx' : Context}
    {code : Code} {bn : Option Name}
    (h : lowerBlock message block ctx = (.ok (code, bn), ctx')) :
    LowersBlock ctx block code bn ctx' := by
  match block, h with
  | none, h => rw [lowerBlock] at h; cases h; exact .none
  | some ⟨params, body⟩, h =>
    rw [lowerBlock] at h
    obtain ⟨_, _, h₀, h⟩ := bind_ok h
    obtain ⟨placed, rfl⟩ := checkParams_ok h₀
    obtain ⟨_, _, h₁, h⟩ := bind_ok h
    obtain ⟨rfl, rfl⟩ := fresh_ok h₁
    obtain ⟨_, _, h₂, h⟩ := bind_ok h
    obtain ⟨mid, hb, rfl⟩ := inScope_ok h₂
    obtain ⟨_, _, h₃, h⟩ := bind_ok h
    obtain ⟨rfl, rfl⟩ := fresh_ok h₃
    cases h
    exact .some placed (lowers_of_lowerBody hb)

theorem lowers_of_lowerBranches {result : Variable} {otherwise : Option (List Node)}
    (ho : ∀ {ctx ctx' : Context} {code : Code},
      lowerOtherwise result otherwise ctx = (.ok code, ctx') →
        LowersOtherwise ctx result otherwise code ctx')
    {branches : List Branch} {ctx ctx' : Context} {code : Code}
    (h : lowerBranches result (lowerOtherwise result otherwise) branches ctx = (.ok code, ctx')) :
    LowersBranches ctx result otherwise branches code ctx' := by
  match branches, h with
  | [], h => rw [lowerBranches] at h; exact .nil (ho h)
  | ⟨condition, body⟩ :: branches, h =>
    rw [lowerBranches] at h
    obtain ⟨test, _, h₁, h⟩ := bind_ok h
    obtain ⟨_, _, h₂, h⟩ := bind_ok h
    obtain ⟨rfl, rfl⟩ := fresh_ok h₂
    obtain ⟨code, _, h₃, h⟩ := bind_ok h
    obtain ⟨others, _, h₄, h⟩ := bind_ok h
    obtain ⟨rfl, rfl⟩ := pure_ok h
    exact .cons (lowers_of_lower h₁) (lowers_of_lowerBody h₃) (lowers_of_lowerBranches ho h₄)

theorem lowers_of_lowerOtherwise {result : Variable} {otherwise : Option (List Node)}
    {ctx ctx' : Context} {code : Code}
    (h : lowerOtherwise result otherwise ctx = (.ok code, ctx')) :
    LowersOtherwise ctx result otherwise code ctx' := by
  match otherwise, h with
  | none, h => rw [lowerOtherwise] at h; cases h; exact .none
  | some body, h =>
    rw [lowerOtherwise] at h
    obtain ⟨_, _, h₁, h⟩ := bind_ok h
    obtain ⟨rfl, rfl⟩ := fresh_ok h₁
    obtain ⟨code, _, h₂, h⟩ := bind_ok h
    obtain ⟨rfl, rfl⟩ := pure_ok h
    exact .some (lowers_of_lowerBody h₂)

theorem lowers_of_lowerElseBody {otherwise : Option (List Node)} {ctx ctx' : Context}
    {functions : List Function} {name : Option Name}
    (h : lowerElseBody otherwise ctx = (.ok (functions, name), ctx')) :
    LowersElse ctx otherwise functions name ctx' := by
  match otherwise, h with
  | none, h => rw [lowerElseBody] at h; cases h; exact .none
  | some body, h =>
    rw [lowerElseBody] at h
    obtain ⟨_, _, h₁, h⟩ := bind_ok h
    obtain ⟨rfl, rfl⟩ := fresh_ok h₁
    obtain ⟨code, _, h₂, h⟩ := bind_ok h
    cases h
    exact .some (lowers_of_lowerBody h₂)

end

/-! ## The rules are those of lowering -/

theorem inScope_of_ok {α : Type} {step : Step α} {ctx ctx' : Context} {a : α}
    (h : step ctx.opened = (.ok a, ctx')) : inScope step ctx = (.ok a, ctx'.closed) := by
  rw [inScope_eq, h]

theorem checkParams_of_placed {owner : ParamOwner} {params : List Param} {ctx : Context}
    (placed : misplacedBlock? params = none) :
    checkParams owner params ctx = (.ok (), ctx) := by
  unfold checkParams
  rw [placed]
  rfl

theorem store_eq (target : Target) (value : Variable) (ctx : Context) :
    store target value ctx = (.ok (storeStmt value target), ctx.record target) := by
  cases target <;> rfl

mutual

/-- **Every derivation is a lowering.** -/
theorem Lowers.lower_eq {ctx ctx' : Context} {node : Node} {frag : Fragment}
    (h : Lowers ctx node frag ctx') : lower node ctx = (.ok frag, ctx') := by
  match h with
  | @Lowers.leaf ctx form span base value h =>
    rw [lower]
    cases form <;> cases h <;> rw [lowerForm] <;> rfl
  | .selfRef =>
    rw [lower, lowerForm]
    rfl
  | .array elements =>
    rw [lower, lowerForm]
    exact (bind_of_ok elements.lower_eq).trans rfl
  | .assign value =>
    rw [lower, lowerForm]
    exact (bind_of_ok value.lower_eq).trans (bind_of_ok (store_eq _ _ _))
  | @Lowers.namespace_ ctx ctx' form span ns code h body =>
    rw [lower]
    have scope := inScope_of_ok body.lower_eq
    cases form with
    | classDef name superclass nodes =>
      cases h
      rw [lowerForm]
      exact (bind_of_ok scope).trans rfl
    | moduleDef name nodes =>
      cases h
      rw [lowerForm]
      exact (bind_of_ok scope).trans rfl
    | _ => cases h
  | .methodDef placed body =>
    rw [lower, lowerForm]
    refine (bind_of_ok (checkParams_of_placed placed)).trans ?_
    exact (bind_of_ok (inScope_of_ok body.lower_eq)).trans rfl
  | .send receiver args marshal block =>
    rw [lower, lowerForm]
    refine (bind_of_ok receiver.lower_eq).trans ((bind_of_ok args.lower_eq).trans ?_)
    exact (bind_of_ok marshal).trans ((bind_of_ok (block.lower_eq _)).trans rfl)
  | .conditional branches =>
    rw [lower, lowerForm]
    exact (bind_of_ok branches.lower_eq).trans rfl
  | .loop body condition =>
    rw [lower, lowerForm]
    exact (bind_of_ok body.lower_eq).trans ((bind_of_ok condition.lower_eq).trans rfl)
  | .rescue body handler otherwise =>
    rw [lower, lowerForm]
    refine (bind_of_ok body.lower_eq).trans ((bind_of_ok handler.lower_eq).trans ?_)
    exact (bind_of_ok otherwise.lower_eq).trans rfl

theorem LowersBody.lower_eq {ctx ctx' : Context} {nodes : Body} {code : Code}
    (h : LowersBody ctx nodes code ctx') : lowerBody nodes ctx = (.ok code, ctx') := by
  match h with
  | .nil =>
    rw [lowerBody]
    rfl
  | .last last =>
    rw [lowerBody]
    exact (bind_of_ok last.lower_eq).trans rfl
  | .cons first others =>
    rw [lowerBody]
    · exact (bind_of_ok first.lower_eq).trans (bind_of_ok others.lower_eq)
    · simp

theorem LowersElements.lower_eq {ctx ctx' : Context} {v : Variable} {nodes : List Node}
    {code : Code} (h : LowersElements ctx v nodes code ctx') :
    lowerElements v nodes ctx = (.ok code, ctx') := by
  match h with
  | .nil =>
    rw [lowerElements]
    rfl
  | .cons first others =>
    rw [lowerElements]
    exact (bind_of_ok first.lower_eq).trans (bind_of_ok others.lower_eq)

theorem LowersReceiver.lower_eq {ctx ctx' : Context} {receiver : Option Node} {code : Code}
    {rv : Option Variable} (h : LowersReceiver ctx receiver code rv ctx') :
    lowerReceiver receiver ctx = (.ok (code, rv), ctx') := by
  match h with
  | .none =>
    rw [lowerReceiver]
    rfl
  | .some receiver =>
    rw [lowerReceiver]
    exact bind_of_ok receiver.lower_eq

theorem LowersArgs.lower_eq {ctx ctx' : Context} {nodes : List Node} {code : Code}
    {vars : List Variable} (h : LowersArgs ctx nodes code vars ctx') :
    lowerArgs nodes ctx = (.ok (code, vars), ctx') := by
  match h with
  | .nil =>
    rw [lowerArgs]
    rfl
  | .cons first others =>
    rw [lowerArgs]
    exact (bind_of_ok first.lower_eq).trans (bind_of_ok others.lower_eq)

theorem LowersBlock.lower_eq {ctx ctx' : Context} {block : Option Block} {code : Code}
    {bn : Option Name} (h : LowersBlock ctx block code bn ctx') (message : String) :
    lowerBlock message block ctx = (.ok (code, bn), ctx') := by
  match h with
  | .none =>
    rw [lowerBlock]
    rfl
  | .some placed body =>
    rw [lowerBlock]
    refine (bind_of_ok (checkParams_of_placed placed)).trans ?_
    exact (bind_of_ok (inScope_of_ok body.lower_eq)).trans rfl

theorem LowersBranches.lower_eq {ctx ctx' : Context} {result : Variable}
    {otherwise : Option (List Node)} {branches : List Branch} {code : Code}
    (h : LowersBranches ctx result otherwise branches code ctx') :
    lowerBranches result (lowerOtherwise result otherwise) branches ctx = (.ok code, ctx') := by
  match h with
  | .nil otherwise =>
    rw [lowerBranches]
    exact otherwise.lower_eq
  | .cons condition body others =>
    rw [lowerBranches]
    refine (bind_of_ok condition.lower_eq).trans ((bind_of_ok body.lower_eq).trans ?_)
    exact bind_of_ok others.lower_eq

theorem LowersOtherwise.lower_eq {ctx ctx' : Context} {result : Variable}
    {otherwise : Option (List Node)} {code : Code}
    (h : LowersOtherwise ctx result otherwise code ctx') :
    lowerOtherwise result otherwise ctx = (.ok code, ctx') := by
  match h with
  | .none =>
    rw [lowerOtherwise]
    rfl
  | .some body =>
    rw [lowerOtherwise]
    exact bind_of_ok body.lower_eq

theorem LowersElse.lower_eq {ctx ctx' : Context} {otherwise : Option (List Node)}
    {functions : List Function} {name : Option Name}
    (h : LowersElse ctx otherwise functions name ctx') :
    lowerElseBody otherwise ctx = (.ok (functions, name), ctx') := by
  match h with
  | .none =>
    rw [lowerElseBody]
    rfl
  | .some body =>
    rw [lowerElseBody]
    exact bind_of_ok body.lower_eq

end

end ScriptCompiler.Lowering
