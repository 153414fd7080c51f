import ScriptCompiler.Proofs.C.Scoping
import ScriptCompiler.Proofs.Lowering.Numbering
import ScriptCompiler.Proofs.Lowering.Regions

/-!
# Arguments within bounds

Callers and callees agree about arguments. A call passes as many as its message has, one after the
other in a vector of that size that is made for this call alone. A method reads them after it has
checked how many there are, a block only those that there are.
-/

/-! ## Calls and reads in emitted code -/

namespace ScriptCompiler.C

/-- The message that an expression sends, and what is passed with it. -/
def Expr.message? : Expr → Option (String × Passed)
  | .send _ name passed => some (name, passed)
  | .lookupOrSend _ name passed => some (name, passed)
  | .callSuper passed => some ("super", passed)
  | .runBlock passed => some ("yield", passed)
  | _ => none

/-- The expression reads an argument. -/
def Expr.isArgument : Expr → Bool
  | .argument _ => true
  | .argumentOrNil _ => true
  | _ => false

namespace Stmt

/-- The expressions in the line of a statement. -/
def values : Stmt → List Expr
  | .declare _ value => [value]
  | .assign _ value => [value]
  | .discard value => [value]
  | .setLocal _ value => [value]
  | .declareLocal _ value => [value]
  | .defineSingleton owner _ _ => [owner]
  | .return_ value => [value]
  | _ => []

/-- The statement declares a vector of arguments or fills a slot of it. -/
def fills (array : Name) : Stmt → Bool
  | .declareArgs a _ => a = array
  | .storeArg a _ _ => a = array
  | _ => false

/-- The statement reads an argument. -/
def reads (s : Stmt) : Bool :=
  s.values.any Expr.isArgument

/-- The statement declares or fills a vector of arguments. -/
def isFilling : Stmt → Bool
  | .declareArgs _ _ => true
  | .storeArg _ _ _ => true
  | _ => false

/-- The statement has nothing inside braces and sends no message. -/
def silent : Stmt → Bool
  | .branch _ _ _ => false
  | .forever _ => false
  | s => s.values.all (·.message?.isNone)

/-- The statement has nothing inside braces and nothing to do with arguments. -/
def plain (s : Stmt) : Bool :=
  s.silent && !s.reads && !s.isFilling

theorem silent_of_plain {s : Stmt} (h : s.plain = true) : s.silent = true := by
  simp_all [plain]

theorem reads_of_plain {s : Stmt} (h : s.plain = true) : s.reads = false := by
  simp_all [plain]

theorem fills_of_isFilling {s : Stmt} (h : s.isFilling = false) (a : Name) :
    s.fills a = false := by
  cases s with
  | declareArgs | storeArg => cases h
  | _ => rfl

theorem fills_of_plain {s : Stmt} (h : s.plain = true) (a : Name) : s.fills a = false :=
  fills_of_isFilling (by simp_all [plain]) a

end Stmt

/-- A statement in a function, with those that stand before it inside the same braces. -/
structure Place where
  before : List Stmt
  stmt : Stmt

mutual

/-- The places of a statement and of those inside its braces. -/
def Stmt.places (before : List Stmt) : Stmt → List Place
  | .branch condition yes no =>
    ⟨before, .branch condition yes no⟩ :: (placesIn [] yes ++ placesIn [] no)
  | .forever body => ⟨before, .forever body⟩ :: placesIn [] body
  | s => [⟨before, s⟩]

/-- The places of statements behind others, in order. -/
def placesIn (before : List Stmt) : List Stmt → List Place
  | [] => []
  | s :: ss => s.places before ++ placesIn (before ++ [s]) ss

end

/-- A call in a function, with the statements before it inside the same braces. -/
structure CallSite where
  before : List Stmt
  name : String
  passed : Passed

/-- The calls in the line of a place. -/
def Place.calls (p : Place) : List CallSite :=
  p.stmt.values.filterMap fun e => e.message?.map fun m => ⟨p.before, m.1, m.2⟩

/-- The calls in a body behind other statements. -/
def callsAfter (before body : List Stmt) : List CallSite :=
  (placesIn before body).flatMap Place.calls

/-- The places in a body behind other statements where an argument is read. -/
def readsAfter (before body : List Stmt) : List Place :=
  (placesIn before body).filter (·.stmt.reads)

theorem placesIn_singleton (before : List Stmt) (s : Stmt) : placesIn before [s] = s.places before :=
  List.append_nil _

theorem placesIn_append (before xs ys : List Stmt) :
    placesIn before (xs ++ ys) = placesIn before xs ++ placesIn (before ++ xs) ys := by
  induction xs generalizing before with
  | nil => rw [List.nil_append, placesIn, List.append_nil, List.nil_append]
  | cons x xs ih =>
    rw [List.cons_append, placesIn, placesIn, ih, List.append_assoc, List.append_assoc,
      List.singleton_append]

mutual

theorem Stmt.map_places (before : List Stmt) : (s : Stmt) → (s.places before).map (·.stmt) = s.all
  | .branch condition yes no => by
    rw [Stmt.places, Stmt.all, List.map_cons, List.map_append, map_placesIn [] yes,
      map_placesIn [] no]
  | .forever body => by rw [Stmt.places, Stmt.all, List.map_cons, map_placesIn [] body]
  | .declare _ _ | .assign _ _ | .discard _ | .unused _ | .push _ _ | .setLocal _ _
  | .declareLocal _ _ | .setInstance _ _ | .setGlobal _ _ | .declareArgs _ _ | .storeArg _ _ _
  | .declareBlock _ _ | .defineMethod _ _ | .defineSingleton _ _ _ | .assertArgc _ | .enterEnv
  | .enterBlockEnv | .setBlock | .closeRescue | .breakIf _ _ | .return_ _ => rfl

/-- The places are those of all statements, inside braces too. -/
theorem map_placesIn (before : List Stmt) : (body : List Stmt) →
    (placesIn before body).map (·.stmt) = allOf body
  | [] => rfl
  | s :: ss => by
    rw [placesIn, allOf, List.map_append, Stmt.map_places before s, map_placesIn _ ss]

end

theorem callsAfter_append (before xs ys : List Stmt) :
    callsAfter before (xs ++ ys) = callsAfter before xs ++ callsAfter (before ++ xs) ys := by
  rw [callsAfter, placesIn_append, List.flatMap_append]
  rfl

theorem readsAfter_append (before xs ys : List Stmt) :
    readsAfter before (xs ++ ys) = readsAfter before xs ++ readsAfter (before ++ xs) ys := by
  rw [readsAfter, placesIn_append, List.filter_append]
  rfl

theorem readsAfter_cons (before : List Stmt) (s : Stmt) (ss : List Stmt) :
    readsAfter before (s :: ss) = readsAfter before [s] ++ readsAfter (before ++ [s]) ss :=
  readsAfter_append before [s] ss

theorem callsAfter_branch (before : List Stmt) (condition : Condition) (yes no : List Stmt) :
    callsAfter before [.branch condition yes no] = callsAfter [] yes ++ callsAfter [] no := by
  rw [callsAfter, placesIn_singleton]
  exact List.flatMap_append

theorem callsAfter_forever (before body : List Stmt) :
    callsAfter before [.forever body] = callsAfter [] body := by
  rw [callsAfter, placesIn_singleton]
  rfl

/-- No argument is read where no statement reads one. -/
theorem readsAfter_eq_nil {body : List Stmt} (h : ∀ s ∈ allOf body, s.reads = false)
    (before : List Stmt) : readsAfter before body = [] := by
  refine List.filter_eq_nil_iff.mpr fun p hp => ?_
  rw [h p.stmt (map_placesIn before body ▸ List.mem_map_of_mem hp)]
  exact Bool.false_ne_true

theorem Stmt.all_of_silent {s : Stmt} (h : s.silent = true) : s.all = [s] := by
  cases s with
  | branch | forever => cases h
  | _ => rfl

theorem Stmt.places_of_silent {s : Stmt} (h : s.silent = true) (before : List Stmt) :
    s.places before = [⟨before, s⟩] := by
  cases s with
  | branch | forever => cases h
  | _ => rfl

theorem Stmt.message?_of_silent {s : Stmt} (h : s.silent = true) :
    ∀ e ∈ s.values, e.message? = none := by
  intro e he
  have none_ : s.values.all (·.message?.isNone) = true := by
    cases s with
    | branch | forever => cases h
    | _ => exact h
  exact Option.isNone_iff_eq_none.mp (List.all_eq_true.mp none_ e he)

theorem Stmt.callsAfter_of_silent {s : Stmt} (h : s.silent = true) (before : List Stmt) :
    callsAfter before [s] = [] := by
  rw [callsAfter, placesIn_singleton, s.places_of_silent h, List.flatMap_singleton]
  refine List.filterMap_eq_nil_iff.mpr fun e he => ?_
  rw [s.message?_of_silent h e he]
  rfl

/-- No call is in statements that send no message. -/
theorem callsAfter_of_silent {body : List Stmt} (h : ∀ s ∈ body, s.silent = true)
    (before : List Stmt) : callsAfter before body = [] := by
  induction body generalizing before with
  | nil => rfl
  | cons s ss ih =>
    rw [List.forall_mem_cons] at h
    rw [← List.singleton_append, callsAfter_append, s.callsAfter_of_silent h.1, ih h.2]
    rfl

theorem allOf_of_silent {body : List Stmt} (h : ∀ s ∈ body, s.silent = true) :
    allOf body = body := by
  induction body with
  | nil => rfl
  | cons s ss ih =>
    rw [List.forall_mem_cons] at h
    rw [allOf, s.all_of_silent h.1, ih h.2]
    rfl

end ScriptCompiler.C

/-! ## How a call gets its arguments -/

namespace ScriptCompiler.Lowering

open C

/-- A message with its arguments. -/
structure Message where
  name : String
  args : List Node

namespace Messages

mutual

/-- The messages inside a node that are sent by the function that it is in, in order. -/
def ofNode : Node → List Message
  | ⟨form, _⟩ => ofForm form

def ofForm : Form → List Message
  | .array elements => ofNodes elements
  | .assign _ value => ofNode value
  | .send receiver name args _ => ofReceiver receiver ++ ofNodes args ++ [⟨name, args⟩]
  | .conditional branches _ => ofConditions branches
  | .loop _ condition _ => ofNode condition
  | _ => []

def ofNodes : List Node → List Message
  | [] => []
  | node :: nodes => ofNode node ++ ofNodes nodes

def ofReceiver : Option Node → List Message
  | none => []
  | some node => ofNode node

def ofConditions : List Branch → List Message
  | [] => []
  | ⟨condition, _⟩ :: branches => ofNode condition ++ ofConditions branches

end

theorem ofForm_leaf {form : Form} {base : String} {e : Expr} (h : leaf? form = some (base, e)) :
    ofForm form = [] := by
  cases form <;> cases h <;> rfl

theorem ofForm_namespace {form : Form} {ns : Namespace} (h : namespace? form = some ns) :
    ofForm form = [] := by
  cases form with
  | classDef name superclass body => rfl
  | moduleDef name body => rfl
  | _ => cases h

end Messages

/-- How variables are handed to a call: no vector for none, the address of the only one, or else a
vector with a slot for each. It is declared with their number, slot after slot is filled, and
nothing else in the function has to do with it. -/
inductive Handed (body : List Stmt) : List Variable → List Stmt → ArgVector → Prop
  | none : Handed body [] [] .none
  | single {arg : Variable} : Handed body [arg] [] (.single arg)
  | array {array : Name} {args : List Variable} {fill : List Stmt} (several : 2 ≤ args.length)
      (slots : fill = .declareArgs array args.length :: args.mapIdx (.storeArg array))
      (only : (allOf body).filter (Stmt.fills array) = fill) : Handed body args fill (.array array)

/-- A call in a function passes the arguments of a message, as many as there are. Before it, inside
the same braces, each of them is evaluated in turn, and then their variables are handed over. -/
inductive Passes (body : List Stmt) (message : Message) : CallSite → Prop
  | intro {frags : List Fragment} {first fill last : List Stmt} {argv : ArgVector}
      {block : Option Name}
      (args : List.Forall₂ (fun arg frag => ∃ ctx ctx', lower arg ctx = (.ok frag, ctx'))
        message.args frags)
      (handed : Handed body (frags.map (·.result)) fill argv) :
      Passes body message ⟨first ++ frags.flatMap (·.code.stmts) ++ fill ++ last, message.name,
        ⟨message.args.length, argv, block⟩⟩

section Widen

variable {xs ys : List Stmt}
  (same : ∀ a, (∃ s ∈ allOf xs, s.fills a = true) →
    (allOf ys).filter (Stmt.fills a) = (allOf xs).filter (Stmt.fills a))

include same

/-- More code has nothing to do with a vector of its part. -/
theorem Handed.widen {args : List Variable} {fill : List Stmt} {argv : ArgVector}
    (h : Handed xs args fill argv) : Handed ys args fill argv := by
  cases h with
  | none => exact .none
  | single => exact .single
  | @array array args fill several slots only =>
    refine .array several slots ((same array ⟨.declareArgs array args.length, ?_⟩).trans only)
    have mem : Stmt.declareArgs array args.length ∈ (allOf xs).filter (Stmt.fills array) := by
      rw [only, slots]
      exact List.mem_cons_self
    exact List.mem_filter.mp mem

theorem Passes.widen {message : Message} {site : CallSite} (h : Passes xs message site) :
    Passes ys message site := by
  cases h with
  | intro args handed => exact .intro args (handed.widen same)

end Widen

/-! ## Code that passes its arguments -/

/-- Code with the numbers between two bounds: its calls pass the arguments of messages, its vectors
have such numbers, and it reads none of the arguments that its function got. -/
structure Hands (lo hi : Nat) (messages : List Message) (body : List Stmt) : Prop where
  le : lo ≤ hi
  within : ∀ s ∈ allOf body, ∀ a, s.fills a = true → lo < a.number ∧ a.number ≤ hi
  calls : ∀ before, List.Forall₂ (Passes body) messages (callsAfter before body)
  unread : ∀ s ∈ allOf body, s.reads = false

namespace Hands

variable {lo mid hi lo' hi' : Nat} {ms ms' : List Message} {xs ys body : List Stmt}

/-- The same code between wider bounds. -/
theorem mono (h : Hands lo hi ms body) (hl : lo' ≤ lo) (hh : hi ≤ hi') : Hands lo' hi' ms body where
  le := Nat.le_trans hl (Nat.le_trans h.le hh)
  within s hs a ha := by
    have := h.within s hs a ha
    omega
  calls := h.calls
  unread := h.unread

theorem next (h : Hands lo hi ms body) : Hands lo (hi + 1) ms body :=
  h.mono (Nat.le_refl lo) (Nat.le_succ hi)

/-- Statements that send no message. -/
theorem of_silent (le : lo ≤ hi) (h : ∀ s ∈ body, s.silent = true)
    (within : ∀ s ∈ body, ∀ a, s.fills a = true → lo < a.number ∧ a.number ≤ hi)
    (unread : ∀ s ∈ body, s.reads = false) : Hands lo hi [] body where
  le := le
  within := by rwa [allOf_of_silent h]
  calls before := by
    rw [callsAfter_of_silent h]
    exact .nil
  unread := by rwa [allOf_of_silent h]

theorem nil (le : lo ≤ hi) : Hands lo hi [] [] :=
  of_silent le nofun nofun nofun

/-- Statements that have nothing to do with arguments. -/
theorem plain (le : lo ≤ hi) (h : body.all Stmt.plain = true) : Hands lo hi [] body := by
  rw [List.all_eq_true] at h
  refine of_silent le (fun s hs => s.silent_of_plain (h s hs)) (fun s hs a ha => ?_)
    fun s hs => s.reads_of_plain (h s hs)
  exact absurd ((s.fills_of_plain (h s hs) a).symm.trans ha) Bool.false_ne_true

theorem single (le : lo ≤ hi) {s : Stmt} (h : s.plain = true) : Hands lo hi [] [s] :=
  plain le ((Bool.and_true _).trans h)

section Append

variable (hx : Hands lo mid ms xs) (hy : Hands mid hi ms' ys)

include hx hy

theorem filter_left (a : Name) (h : ∃ s ∈ allOf xs, s.fills a = true) :
    (allOf (xs ++ ys)).filter (Stmt.fills a) = (allOf xs).filter (Stmt.fills a) := by
  obtain ⟨s, hs, ha⟩ := h
  have other : (allOf ys).filter (Stmt.fills a) = [] := by
    refine List.filter_eq_nil_iff.mpr fun t ht hb => ?_
    exact absurd (hx.within s hs a ha).2 (Nat.not_le.mpr (hy.within t ht a hb).1)
  rw [allOf_append, List.filter_append, other, List.append_nil]

theorem filter_right (a : Name) (h : ∃ s ∈ allOf ys, s.fills a = true) :
    (allOf (xs ++ ys)).filter (Stmt.fills a) = (allOf ys).filter (Stmt.fills a) := by
  obtain ⟨s, hs, ha⟩ := h
  have other : (allOf xs).filter (Stmt.fills a) = [] := by
    refine List.filter_eq_nil_iff.mpr fun t ht hb => ?_
    exact absurd (hx.within t ht a hb).2 (Nat.not_le.mpr (hy.within s hs a ha).1)
  rw [allOf_append, List.filter_append, other, List.nil_append]

/-- Code behind code. -/
theorem append : Hands lo hi (ms ++ ms') (xs ++ ys) where
  le := Nat.le_trans hx.le hy.le
  within s hs a ha := by
    have lower := hx.le
    have upper := hy.le
    rw [allOf_append, List.mem_append] at hs
    rcases hs with hs | hs
    · have := hx.within s hs a ha
      omega
    · have := hy.within s hs a ha
      omega
  calls before := by
    rw [callsAfter_append]
    exact List.rel_append ((hx.calls before).imp fun _ _ p => p.widen (filter_left hx hy))
      ((hy.calls (before ++ xs)).imp fun _ _ p => p.widen (filter_right hx hy))
  unread s hs := by
    rw [allOf_append, List.mem_append] at hs
    exact hs.elim (hx.unread s) (hy.unread s)

/-- The two sides of a branch. -/
theorem branch (condition : Condition) : Hands lo hi (ms ++ ms') [.branch condition xs ys] := by
  have both := append hx hy
  have inner : allOf [.branch condition xs ys]
      = .branch condition xs ys :: allOf (xs ++ ys) := by
    rw [allOf_singleton, Stmt.all, allOf_append]
  have same (a : Name) : (allOf [.branch condition xs ys]).filter (Stmt.fills a)
      = (allOf (xs ++ ys)).filter (Stmt.fills a) := by
    rw [inner]
    rfl
  refine ⟨both.le, ?_, fun before => ?_, ?_⟩
  · rw [inner, List.forall_mem_cons]
    exact ⟨fun _ h => absurd h Bool.false_ne_true, both.within⟩
  · rw [callsAfter_branch]
    refine List.rel_append ((hx.calls []).imp fun _ _ p => p.widen fun a ha => ?_)
      ((hy.calls []).imp fun _ _ p => p.widen fun a ha => ?_)
    · rw [same, filter_left hx hy a ha]
    · rw [same, filter_right hx hy a ha]
  · rw [inner, List.forall_mem_cons]
    exact ⟨rfl, both.unread⟩

end Append

theorem behind (h : Hands lo hi ms body) {s : Stmt} (hs : s.plain = true) :
    Hands lo hi ms (body ++ [s]) :=
  List.append_nil ms ▸ h.append (single (Nat.le_refl hi) hs)

theorem forever (h : Hands lo hi ms body) : Hands lo hi ms [.forever body] := by
  have inner : allOf [.forever body] = .forever body :: allOf body := by
    rw [allOf_singleton, Stmt.all]
  refine ⟨h.le, ?_, fun before => ?_, ?_⟩
  · rw [inner, List.forall_mem_cons]
    exact ⟨fun _ h => absurd h Bool.false_ne_true, h.within⟩
  · rw [callsAfter_forever]
    refine (h.calls []).imp fun _ _ p => p.widen fun a _ => ?_
    rw [inner]
    rfl
  · rw [inner, List.forall_mem_cons]
    exact ⟨rfl, h.unread⟩

/-- A call behind the code that evaluates its arguments and hands them over. -/
theorem call (h : Hands lo hi ms body) {message : Message} {v : Variable} {e : Expr}
    {passed : Passed} (he : e.message? = some (message.name, passed))
    (passes : ∀ before, Passes body message ⟨before ++ body, message.name, passed⟩) :
    Hands lo (hi + 1) (ms ++ [message]) (body ++ [.declare v e]) := by
  have inner : allOf (body ++ [.declare v e]) = allOf body ++ [.declare v e] :=
    allOf_append _ _
  have same (a : Name) : (allOf (body ++ [.declare v e])).filter (Stmt.fills a)
      = (allOf body).filter (Stmt.fills a) := by
    rw [inner, List.filter_append]
    exact List.append_nil _
  refine ⟨Nat.le_succ_of_le h.le, ?_, fun before => ?_, ?_⟩
  · rw [inner, List.forall_mem_append, List.forall_mem_singleton]
    exact ⟨h.next.within, fun _ h => absurd h Bool.false_ne_true⟩
  · have site : callsAfter (before ++ body) [.declare v e]
        = [⟨before ++ body, message.name, passed⟩] := by
      simp [callsAfter, placesIn, Stmt.places, Place.calls, Stmt.values, he]
    rw [callsAfter_append, site]
    exact List.rel_append ((h.calls before).imp fun _ _ p => p.widen fun a _ => same a)
      (.cons ((passes before).widen fun a _ => same a) .nil)
  · rw [inner, List.forall_mem_append, List.forall_mem_singleton]
    refine ⟨h.unread, ?_⟩
    cases e with
    | send | lookupOrSend | callSuper | runBlock => rfl
    | _ => cases he

end Hands

/-! ## Lowered code passes its arguments -/

theorem storeArgs_eq (array : Name) (index : Nat) (args : List Variable) :
    storeArgs array index args = args.mapIdx fun i arg => .storeArg array (index + i) arg := by
  induction args generalizing index with
  | nil => rfl
  | cons arg args ih =>
    rw [storeArgs, ih, List.mapIdx_cons]
    simp only [Nat.add_zero, Nat.add_assoc, Nat.add_comm 1]

/-- The statements that make a vector have to do with it only. -/
theorem fill_vector (array : Name) (size : Nat) (args : List Variable) :
    ∀ s ∈ Stmt.declareArgs array size :: args.mapIdx (.storeArg array),
      s.silent = true ∧ s.reads = false ∧ ∀ a, s.fills a = true ↔ array = a := by
  rw [List.forall_mem_cons]
  refine ⟨⟨rfl, rfl, fun a => decide_eq_true_iff⟩, fun s hs => ?_⟩
  obtain ⟨i, hi, rfl⟩ := List.mem_mapIdx.mp hs
  exact ⟨rfl, rfl, fun a => decide_eq_true_iff⟩

/-- A vector is made for one call. -/
theorem Hands.marshal {ctx ctx' : Context} {args : List Variable} {stmts : List Stmt}
    {argv : ArgVector} (h : marshal args ctx = (.ok (stmts, argv), ctx')) :
    Hands ctx.counter ctx'.counter [] stmts ∧ Handed stmts args stmts argv := by
  rcases marshal_ok h with ⟨rfl, rfl, rfl, rfl⟩ | ⟨arg, rfl, rfl, rfl, rfl⟩
    | ⟨several, rfl, rfl, rfl⟩
  · exact ⟨.nil (Nat.le_refl _), .none⟩
  · exact ⟨.nil (Nat.le_refl _), .single⟩
  · have slots : storeArgs (ctx.name "args") 0 args
        = args.mapIdx (Stmt.storeArg (ctx.name "args")) := by
      simp only [storeArgs_eq, Nat.zero_add]
    rw [slots]
    have fill := fill_vector (ctx.name "args") args.length args
    have silent := fun s hs => (fill s hs).1
    refine ⟨.of_silent (Nat.le_succ _) silent (fun s hs a ha => ?_) fun s hs => (fill s hs).2.1,
      .array several rfl ?_⟩
    · rw [← ((fill s hs).2.2 a).mp ha]
      exact ⟨Nat.lt_succ_self _, Nat.le_refl _⟩
    · rw [allOf_of_silent silent]
      exact List.filter_eq_self.mpr fun s hs => ((fill s hs).2.2 _).mpr rfl

theorem plain_leaf {form : Form} {base : String} {e : Expr} (h : leaf? form = some (base, e))
    (v : Variable) : (Stmt.declare v e).plain = true := by
  cases form <;> cases h <;> rfl

theorem plain_storeStmt (value : Variable) (target : Target) :
    (storeStmt value target).plain = true := by
  cases target <;> rfl

theorem plain_defineOn (owner : Option String) (name : String) (function : Name) :
    (defineOn owner name function).plain = true := by
  cases owner with
  | none => rfl
  | some owner =>
    simp only [defineOn]
    split <;> rfl

theorem Hands.namespace_ {form : Form} {ns : Namespace} (h : namespace? form = some ns)
    (function : Name) (object result : Variable) {lo hi : Nat} (le : lo ≤ hi) :
    Hands lo hi [] (ns.stmts function object result) := by
  have create : (Stmt.assign object ns.create).plain = true := by
    cases form with
    | classDef name superclass body => cases h; rfl
    | moduleDef name body => cases h; rfl
    | _ => cases h
  have opened : Hands lo lo [] [.assign object ns.create, .setLocal ns.name (.variable_ object)] :=
    (single (Nat.le_refl lo) create).behind rfl
  exact append (append (single (Nat.le_refl lo) rfl) (branch opened (nil (Nat.le_refl lo)) _))
    (single le rfl)

theorem Hands.loop {lo hi : Nat} {ms : List Message} {test : Fragment}
    (h : Hands lo hi ms test.code.stmts) (kind : LoopKind) (function : Name) :
    Hands lo hi ms (loopStmts kind test function) := by
  have round := (h.behind (s := .breakIf test.result (kind = .untilTruthy)) rfl).behind
    (s := .discard (.callHere function)) rfl
  rw [List.append_assoc] at round
  exact round.forever

/-- The fragments of arguments, with their values. -/
theorem LowersArgs.frags {ctx ctx' : Context} {nodes : List Node} {code : Code}
    {vars : List Variable} (h : LowersArgs ctx nodes code vars ctx') :
    ∃ frags : List Fragment,
      List.Forall₂ (fun node frag => ∃ ctx ctx', lower node ctx = (.ok frag, ctx')) nodes frags
        ∧ code.stmts = frags.flatMap (·.code.stmts) ∧ vars = frags.map (·.result) := by
  induction nodes generalizing ctx code vars with
  | nil =>
    cases h
    exact ⟨[], .nil, rfl, rfl⟩
  | cons node nodes ih =>
    cases h with
    | @cons _ _ _ _ _ frag _ _ first others =>
      obtain ⟨frags, lowered, stmts, vars⟩ := ih others
      refine ⟨frag :: frags, .cons ⟨_, _, first.lower_eq⟩ lowered, ?_, ?_⟩
      · rw [Code.stmts_append, stmts, List.flatMap_cons]
      · rw [vars, List.map_cons]

theorem message?_callOf (receiver : Option Variable) (name : String) (passed : Passed) :
    (callOf receiver name passed).message? = some (name, passed) := by
  cases receiver with
  | none =>
    simp only [callOf]
    split
    · next same => rw [same]; rfl
    · split
      · next same => rw [same]; rfl
      · rfl
  | some receiver =>
    simp only [callOf]
    split <;> rfl

open Messages

mutual

/-- **Lowered code passes the arguments of its messages.** -/
theorem Lowers.hands {ctx ctx' : Context} {node : Node} {frag : Fragment}
    (h : Lowers ctx node frag ctx') :
    Hands ctx.counter ctx'.counter (ofNode node) frag.code.stmts := by
  match h with
  | .leaf h =>
    rw [ofNode, ofForm_leaf h]
    exact .single (Nat.le_succ _) (plain_leaf h _)
  | .selfRef => exact .nil (Nat.le_refl _)
  | .array elements => exact .append (.single (Nat.le_succ _) rfl) elements.hands
  | @Lowers.assign _ _ _ target _ _ value =>
    rw [Context.counter_record]
    exact value.hands.behind (plain_storeStmt _ _)
  | .namespace_ h body =>
    rw [ofNode, ofForm_namespace h]
    have le := Nat.le_of_succ_le body.numbered.le
    exact .namespace_ h _ _ _ (Nat.le_succ_of_le (Nat.le_succ_of_le le))
  | @Lowers.methodDef ctx ctx' _ owner name _ _ _ placed body =>
    have defined : Hands ctx.counter ctx'.counter [] [defineOn owner name (ctx.name "method")] :=
      .single (Nat.le_of_succ_le body.numbered.le) (plain_defineOn _ _ _)
    exact defined.append (.single (Nat.le_succ _) rfl)
  | @Lowers.send ctx ctx₁ ctx₂ ctx₃ ctx₄ _ _ name args _ before code passing _ vars stmts argv bn
      receiver_ args_ marshal_ block_ =>
    obtain ⟨frags, lowered, evaluated, rfl⟩ := args_.frags
    obtain ⟨filled, handed⟩ := Hands.marshal marshal_
    have evaluating := receiver_.hands.append args_.hands
    have whole := (evaluating.append filled).append block_.hands
    rw [List.append_nil, List.append_nil] at whole
    -- numbers keep the vector apart from the code before it and from the block behind it
    have vector : Handed (before.stmts ++ code.stmts ++ stmts ++ passing.stmts)
        (frags.map (·.result)) stmts argv :=
      (handed.widen (evaluating.filter_right filled)).widen
        ((evaluating.append filled).filter_left block_.hands)
    refine @Hands.call _ _ _ _ whole ⟨name, args⟩ _ _ _ (message?_callOf _ _ _) fun above => ?_
    have length : (frags.map (·.result)).length = args.length := by
      rw [List.length_map, lowered.length_eq]
    rw [length]
    have passes : Passes (before.stmts ++ code.stmts ++ stmts ++ passing.stmts) ⟨name, args⟩
        ⟨above ++ before.stmts ++ frags.flatMap (·.code.stmts) ++ stmts ++ passing.stmts, name,
          ⟨args.length, argv, bn⟩⟩ := .intro lowered vector
    rw [← evaluated] at passes
    simpa only [List.append_assoc] using passes
  | .conditional branches =>
    exact .append (.single (Nat.le_succ _) rfl) branches.hands
  | .loop body condition =>
    exact ((condition.hands.loop _ _).behind rfl).mono (Nat.le_of_succ_le body.numbered.le)
      (Nat.le_succ _)
  | .rescue body handler otherwise =>
    have le := Nat.le_trans body.numbered.le (Nat.le_of_succ_le handler.numbered.le)
    have le' := Nat.le_trans (Nat.le_of_succ_le le) otherwise.numbered.le
    exact .single (Nat.le_succ_of_le (Nat.le_succ_of_le le')) rfl

theorem LowersBody.hands {ctx ctx' : Context} {nodes : Body} {code : Code}
    (h : LowersBody ctx nodes code ctx') :
    Hands ctx.counter ctx'.counter (ofNodes nodes) code.stmts := by
  match h with
  | .nil => exact .single (Nat.le_refl _) rfl
  | .last last =>
    rw [ofNodes, ofNodes, List.append_nil]
    exact last.hands.behind rfl
  | .cons first others =>
    exact (first.hands.behind rfl).append others.hands

theorem LowersElements.hands {ctx ctx' : Context} {v : Variable} {nodes : List Node} {code : Code}
    (h : LowersElements ctx v nodes code ctx') :
    Hands ctx.counter ctx'.counter (ofNodes nodes) code.stmts := by
  match h with
  | .nil => exact .nil (Nat.le_refl _)
  | .cons first others =>
    exact (first.hands.behind rfl).append others.hands

theorem LowersReceiver.hands {ctx ctx' : Context} {receiver : Option Node} {code : Code}
    {rv : Option Variable} (h : LowersReceiver ctx receiver code rv ctx') :
    Hands ctx.counter ctx'.counter (ofReceiver receiver) code.stmts := by
  match h with
  | .none => exact .nil (Nat.le_refl _)
  | .some receiver => exact receiver.hands

theorem LowersArgs.hands {ctx ctx' : Context} {nodes : List Node} {code : Code}
    {vars : List Variable} (h : LowersArgs ctx nodes code vars ctx') :
    Hands ctx.counter ctx'.counter (ofNodes nodes) code.stmts := by
  match h with
  | .nil => exact .nil (Nat.le_refl _)
  | .cons first others => exact first.hands.append others.hands

theorem LowersBlock.hands {ctx ctx' : Context} {block : Option Block} {code : Code}
    {bn : Option Name} (h : LowersBlock ctx block code bn ctx') :
    Hands ctx.counter ctx'.counter [] code.stmts := by
  match h with
  | .none => exact .nil (Nat.le_refl _)
  | .some placed body =>
    exact .single (Nat.le_add_right_of_le (Nat.le_of_succ_le body.numbered.le)) rfl

theorem LowersBranches.hands {ctx ctx' : Context} {result : Variable}
    {otherwise : Option (List Node)} {branches : List Branch} {code : Code}
    (h : LowersBranches ctx result otherwise branches code ctx') :
    Hands ctx.counter ctx'.counter (ofConditions branches) code.stmts := by
  match h with
  | .nil otherwise => exact otherwise.hands
  | .cons condition body others =>
    have le := Nat.le_of_succ_le body.numbered.le
    exact condition.hands.append (.branch (.single le rfl) others.hands _)

theorem LowersOtherwise.hands {ctx ctx' : Context} {result : Variable}
    {otherwise : Option (List Node)} {code : Code}
    (h : LowersOtherwise ctx result otherwise code ctx') :
    Hands ctx.counter ctx'.counter [] code.stmts := by
  match h with
  | .none => exact .nil (Nat.le_refl _)
  | .some body => exact .single (Nat.le_of_succ_le body.numbered.le) rfl

end

/-! ## How a function reads its arguments -/

/-- A parameter is bound to the argument at its index: behind a check that there are as many
arguments as parameters, or only if there is one at the index. -/
inductive Bound (count : Nat) : String × Nat → Place → Prop
  | checked {name : String} {index : Nat} {before : List Stmt} (lt : index < count)
      (check : .assertArgc count ∈ before) :
      Bound count (name, index) ⟨before, .declareLocal name (.argument index)⟩
  | guarded {name : String} {index : Nat} {before : List Stmt} :
      Bound count (name, index) ⟨before, .declareLocal name (.argumentOrNil index)⟩

/-- The calls in a body pass the arguments of messages. It reads arguments for positional parameters
only, once for each, in order. -/
structure WithinBounds (messages : List Message) (positional : List String) (body : List Stmt) :
    Prop where
  calls : List.Forall₂ (Passes body) messages (callsAfter [] body)
  reads : List.Forall₂ (Bound positional.length) positional.zipIdx (readsAfter [] body)

/-- The names of the parameters that are not for the block. -/
def positionalNames (params : List Param) : List String :=
  (params.filter fun p => !p.isBlock).map Param.name

theorem length_positionalNames (params : List Param) :
    (positionalNames params).length = positionalCount params :=
  List.length_map _

namespace Region

/-- The messages that the function of a region sends. -/
def messages : Region → List Message
  | method _ _ body => ofNodes body
  | block _ body => ofNodes body
  | inline body => ofNodes body
  | protection _ => []

/-- The parameters of a region that arguments are for. -/
def positional : Region → List String
  | method _ params _ => positionalNames params
  | block params _ => positionalNames params
  | inline _ => []
  | protection _ => []

/-- The function of the region gets arguments. -/
def isCalled : Region → Bool
  | method _ _ _ => true
  | block _ _ => true
  | inline _ => false
  | protection _ => false

end Region

section Entry

variable {lo hi : Nat} {ms : List Message} {entry body : List Stmt} {positional : List String}

/-- A function that starts with the reads of its arguments, and goes on with lowered code. -/
theorem Hands.withinBounds (h : Hands lo hi ms body)
    (quiet : ∀ s ∈ entry, s.silent = true ∧ s.isFilling = false)
    (reads : List.Forall₂ (Bound positional.length) positional.zipIdx (readsAfter [] entry)) :
    WithinBounds ms positional (entry ++ body) := by
  have silent := fun s hs => (quiet s hs).1
  constructor
  · rw [callsAfter_append, callsAfter_of_silent silent]
    refine (h.calls entry).imp fun _ _ p => p.widen fun a _ => ?_
    have other : entry.filter (Stmt.fills a) = [] := by
      refine List.filter_eq_nil_iff.mpr fun s hs => ?_
      rw [Stmt.fills_of_isFilling (quiet s hs).2]
      exact Bool.false_ne_true
    rw [allOf_append, List.filter_append, allOf_of_silent silent, other, List.nil_append]
  · rwa [readsAfter_append, readsAfter_eq_nil h.unread, List.append_nil]

variable {setup : List Stmt} {argument : Nat → Expr} {count : Nat}

theorem silent_bindParams (hm : ∀ i, (argument i).message? = none) (params : List Param)
    (index : Nat) : ∀ s ∈ bindParams argument index params,
      s.silent = true ∧ s.isFilling = false := by
  induction params generalizing index with
  | nil => exact nofun
  | cons p params ih =>
    cases p with
    | positional name =>
      refine List.forall_mem_cons.mpr ⟨⟨?_, rfl⟩, ih _⟩
      simp [Stmt.silent, Stmt.values, hm]
    | block name => exact List.forall_mem_cons.mpr ⟨⟨rfl, rfl⟩, ih _⟩

/-- Parameters are bound one after the other to the arguments at their indexes. -/
theorem reads_bindParams (ha : ∀ i, (argument i).isArgument = true)
    (hb : ∀ name i before, i < count → setup ⊆ before →
      Bound count (name, i) ⟨before, .declareLocal name (argument i)⟩)
    (params : List Param) (index : Nat) (hc : index + positionalCount params ≤ count)
    (before : List Stmt) (hs : setup ⊆ before) :
    List.Forall₂ (Bound count) ((positionalNames params).zipIdx index)
      (readsAfter before (bindParams argument index params)) := by
  induction params generalizing index before with
  | nil => exact .nil
  | cons p params ih =>
    cases p with
    | positional name =>
      have read : readsAfter before [.declareLocal name (argument index)]
          = [⟨before, .declareLocal name (argument index)⟩] := by
        simp [readsAfter, placesIn, Stmt.places, Stmt.reads, Stmt.values, ha]
      have more : positionalCount (.positional name :: params) = positionalCount params + 1 := rfl
      rw [bindParams, readsAfter_cons, read]
      refine .cons (hb name index before (by omega) hs) (ih _ (by omega) _ ?_)
      exact List.subset_append_of_subset_left _ hs
    | block name =>
      have read : readsAfter before [.declareLocal name .passedBlock] = [] := rfl
      rw [bindParams, readsAfter_cons, read]
      exact ih _ hc _ (List.subset_append_of_subset_left _ hs)

/-- A function that does something before it binds its parameters. -/
theorem Hands.withinBounds_bind (h : Hands lo hi ms body) (all : setup.all Stmt.plain = true)
    (hm : ∀ i, (argument i).message? = none) (ha : ∀ i, (argument i).isArgument = true)
    (params : List Param)
    (hb : ∀ name i before, i < positionalCount params → setup ⊆ before →
      Bound (positionalCount params) (name, i) ⟨before, .declareLocal name (argument i)⟩) :
    WithinBounds ms (positionalNames params)
      (setup ++ bindParams argument 0 params ++ body) := by
  have plain := List.all_eq_true.mp all
  have silent : ∀ s ∈ setup, s.silent = true := fun s hs => s.silent_of_plain (plain s hs)
  refine h.withinBounds ?_ ?_
  · rw [List.forall_mem_append]
    refine ⟨fun s hs => ⟨silent s hs, ?_⟩, silent_bindParams hm params 0⟩
    have := plain s hs
    simp_all [Stmt.plain]
  · have unread : readsAfter [] setup = [] := by
      refine readsAfter_eq_nil ?_ []
      rw [allOf_of_silent silent]
      exact fun s hs => s.reads_of_plain (plain s hs)
    rw [readsAfter_append, unread, length_positionalNames]
    exact reads_bindParams ha hb params 0 (by omega) _ (List.Subset.refl _)

end Entry

theorem Hands.method {lo hi : Nat} {ms : List Message} {body : List Stmt}
    (h : Hands lo hi ms body) (name : String) (params : List Param) :
    WithinBounds ms (positionalNames params) (methodEntry name params ++ body) := by
  refine h.withinBounds_bind ?_ (fun _ => rfl) (fun _ => rfl) params
    fun _ _ _ lt hs => .checked lt (hs ?_)
  · split <;> rfl
  · exact List.mem_append_right _ List.mem_cons_self

theorem Hands.block {lo hi : Nat} {ms : List Message} {body : List Stmt}
    (h : Hands lo hi ms body) (params : List Param) :
    WithinBounds ms (positionalNames params) (blockEntry params ++ body) := by
  refine h.withinBounds_bind ?_ (fun _ => rfl) (fun _ => rfl) params fun _ _ _ _ _ => .guarded
  split <;> rfl

/-- Code that gets no arguments. -/
theorem Hands.inline {lo hi : Nat} {ms : List Message} {body : List Stmt}
    (h : Hands lo hi ms body) : WithinBounds ms [] body := by
  refine ⟨h.calls [], ?_⟩
  rw [readsAfter_eq_nil h.unread]
  exact .nil

theorem withinBounds_rescueWrapper (protected_ handler : Name) (otherwise : Option Name)
    (variable_ : Option String) :
    WithinBounds [] [] (rescueWrapper protected_ handler otherwise variable_) := by
  have opened {normally : List Stmt} (h : normally.all Stmt.plain = true) :
      Hands 0 0 [] [.enterBlockEnv, .branch .rescueOpens normally []] :=
    .append (.single (Nat.le_refl 0) rfl)
      (.branch (.plain (Nat.le_refl 0) h) (.nil (Nat.le_refl 0)) _)
  refine Hands.inline ((opened ?_).append (.plain (Nat.le_refl 0) ?_))
  · cases otherwise <;> rfl
  · cases variable_ <;> rfl

/-- The function of a region. It gets arguments if it is that of a method or block. -/
theorem Makes.withinBounds {region : Region} {f : Function} (h : Makes region f) :
    (f.signature = .method ↔ region.isCalled = true)
      ∧ WithinBounds region.messages region.positional f.body := by
  cases h with
  | method lowered => exact ⟨iff_of_true rfl rfl, lowered.hands.method _ _⟩
  | block lowered => exact ⟨iff_of_true rfl rfl, lowered.hands.block _⟩
  | inline lowered => exact ⟨by simp [Region.isCalled], lowered.hands.inline⟩
  | protection => exact ⟨by simp [Region.isCalled], withinBounds_rescueWrapper _ _ _ _⟩

/-- **Arguments within bounds.** In the code of a program and in each of its functions, those of its
regions, every call passes the arguments of a message, as many as it has. The functions of methods
and blocks read the arguments of their positional parameters and no others, behind a check or if
there are so many. All others read none. -/
theorem withinBounds_of_lowerBody {program : Body} {ctx ctx' : Context} {code : Code}
    (h : lowerBody program ctx = (.ok code, ctx')) :
    WithinBounds (ofNodes program) [] code.stmts
      ∧ List.Forall₂ (fun region f => (f.signature = .method ↔ region.isCalled = true)
          ∧ WithinBounds region.messages region.positional f.body)
        (Regions.ofNodes program) code.functions := by
  have lowers := lowers_of_lowerBody h
  exact ⟨lowers.hands.inline, lowers.makes.imp fun _ _ made => made.withinBounds⟩

/-- A method hands on its two arguments and the receiver, one inside the other, and a block takes
what it may get. -/
def relayProgram : Body :=
  let local_ (name : String) : Node := ⟨.localVar name, default⟩
  let inner : Node := ⟨.send none "q" [local_ "b", ⟨.selfRef, default⟩] none, default⟩
  [⟨.methodDef none "m" [.positional "a", .positional "b", .block "c"]
      [⟨.send none "p" [local_ "a", inner, local_ "c"] none, default⟩], default⟩,
    ⟨.send (some ⟨.send none "r" [] none, default⟩) "each" [⟨.integer 1, default⟩]
      (some ⟨[.positional "x"], [⟨.send none "yield" [local_ "x", local_ "x"] none, default⟩]⟩),
      default⟩]

theorem withinBounds_relayProgram :
    ∃ code ctx', lowerBody relayProgram (.start "" .empty) = (.ok code, ctx')
      ∧ (callsAfter [] code.stmts).map (·.passed.argc) = [0, 1]
      ∧ code.functions.map (fun f => (callsAfter [] f.body).map (·.passed.argc)) = [[2, 3], [2]]
      ∧ code.functions.map (fun f => (readsAfter [] f.body).length) = [2, 1]
      ∧ WithinBounds (ofNodes relayProgram) [] code.stmts
      ∧ List.Forall₂ (fun region f => (f.signature = .method ↔ region.isCalled = true)
          ∧ WithinBounds region.messages region.positional f.body)
        (Regions.ofNodes relayProgram) code.functions := by
  have counts : (lowerBody relayProgram (.start "" .empty)).1.toOption.map (fun code =>
      ((callsAfter [] code.stmts).map (·.passed.argc),
        code.functions.map (fun f => (callsAfter [] f.body).map (·.passed.argc)),
        code.functions.map (fun f => (readsAfter [] f.body).length)))
      = some ([0, 1], [[2, 3], [2]], [2, 1]) := by decide +kernel
  rcases h : lowerBody relayProgram (.start "" .empty) with ⟨_ | code, ctx'⟩ <;> rw [h] at counts
  · cases counts
  · obtain ⟨main, calls, reads⟩ : _ ∧ _ ∧ _ := by
      simpa only [Prod.mk.injEq] using Option.some.inj counts
    exact ⟨code, ctx', rfl, main, calls, reads, withinBounds_of_lowerBody h⟩

end ScriptCompiler.Lowering
