import Mathlib.Data.List.Nodup
import ScriptCompiler.C.Print

/-!
# Names in emitted code

Which names a statement declares, which ones it uses and which functions it refers to, with the
signature that it needs them to have. Code is scoped when every name that a line uses is a parameter
or was declared on an earlier line of the same function, inside braces that are still open.
-/

namespace ScriptCompiler.C

/-! ## What expressions and statements name -/

/-- The variables of a vector of arguments. -/
def ArgVector.uses : ArgVector → List String
  | .none => []
  | .single arg => [arg.text]
  | .array name => [name.text]

/-- The variables of what is passed with a message. -/
def Passed.uses (p : Passed) : List String :=
  p.argv.uses ++ (p.block.map Name.text).toList

/-- The variables and parameters that an expression uses, apart from the environment. -/
def Expr.uses : Expr → List String
  | .variable_ v => [v.text]
  | .getInstance _ => ["self"]
  | .send receiver _ passed => receiver.text :: passed.uses
  | .lookupOrSend receiver _ passed => receiver.text :: passed.uses
  | .callSuper passed => "self" :: passed.uses
  | .runBlock passed => passed.uses
  | .callHere _ => ["self"]
  | .callInside _ receiver => [receiver.text]
  | .passedBlock => ["block"]
  | .argument _ => ["args"]
  | .argumentOrNil _ => ["argc", "args"]
  | _ => []

/-- The functions that an expression calls. -/
def Expr.calls : Expr → List (Name × Signature)
  | .callHere function => [(function, .scoped)]
  | .callInside function _ => [(function, .scoped)]
  | _ => []

/-- The variables that a condition uses. -/
def Condition.uses : Condition → List String
  | .truthy v => [v.text]
  | .isNull v => [v.text]
  | .rescueOpens => []

namespace Stmt

/-- The variables and parameters that the line of a statement uses. -/
def uses : Stmt → List String
  | .declare _ value => value.uses
  | .assign v value => v.text :: value.uses
  | .discard value => value.uses
  | .unused formal => [formal.text]
  | .push array value => [array.text, value.text]
  | .setLocal _ value => value.uses
  | .declareLocal _ value => value.uses
  | .setInstance _ value => ["self", value.text]
  | .setGlobal _ value => [value.text]
  | .declareArgs _ _ => []
  | .storeArg array _ value => [array.text, value.text]
  | .declareBlock _ _ => ["self"]
  | .defineMethod _ _ => ["self"]
  | .defineSingleton owner _ _ => owner.uses
  | .assertArgc _ => ["argc"]
  | .enterEnv => []
  | .enterBlockEnv => []
  | .setBlock => ["block"]
  | .closeRescue => []
  | .branch condition _ _ => condition.uses
  | .forever _ => []
  | .breakIf v _ => [v.text]
  | .return_ value => value.uses

/-- The name that the line of a statement declares. -/
def binds : Stmt → List String
  | .declare v _ => [v.text]
  | .declareArgs array _ => [array.text]
  | .declareBlock name _ => [name.text]
  | _ => []

/-- The functions that the line of a statement refers to: those that it calls, and those that it
hands over. -/
def calls : Stmt → List (Name × Signature)
  | .declare _ value => value.calls
  | .assign _ value => value.calls
  | .discard value => value.calls
  | .setLocal _ value => value.calls
  | .declareLocal _ value => value.calls
  | .declareBlock _ function => [(function, .method)]
  | .defineMethod _ function => [(function, .method)]
  | .defineSingleton owner _ function => owner.calls ++ [(function, .method)]
  | .return_ value => value.calls
  | _ => []

end Stmt

/-! ## Whole bodies -/

mutual

/-- A statement and those inside its braces. -/
def Stmt.all : Stmt → List Stmt
  | .branch condition yes no => .branch condition yes no :: (allOf yes ++ allOf no)
  | .forever body => .forever body :: allOf body
  | s => [s]

/-- Statements and those inside their braces. -/
def allOf : List Stmt → List Stmt
  | [] => []
  | s :: ss => s.all ++ allOf ss

end

/-- The names that a body declares, at any depth of braces. -/
def declaredIn (body : List Stmt) : List String :=
  (allOf body).flatMap Stmt.binds

/-- The variables and parameters that a body uses. -/
def usedIn (body : List Stmt) : List String :=
  (allOf body).flatMap Stmt.uses

/-- The functions that a body refers to. -/
def callsIn (body : List Stmt) : List (Name × Signature) :=
  (allOf body).flatMap Stmt.calls

/-- The names that are visible after statements and were not before. -/
def bindsOf (body : List Stmt) : List String :=
  body.flatMap Stmt.binds

mutual

/-- The names that a statement uses are visible, also inside its braces. -/
def Stmt.Scoped (visible : List String) : Stmt → Prop
  | .branch condition yes no =>
    condition.uses ⊆ visible ∧ ScopedIn visible yes ∧ ScopedIn visible no
  | .forever body => ScopedIn visible body
  | s => s.uses ⊆ visible

/-- Every name that a line uses is visible there: it is one of the given names, or an earlier line
inside the same braces or braces around them declares it. -/
def ScopedIn (visible : List String) : List Stmt → Prop
  | [] => True
  | s :: ss => s.Scoped visible ∧ ScopedIn (visible ++ s.binds) ss

end

theorem allOf_append (a b : List Stmt) : allOf (a ++ b) = allOf a ++ allOf b := by
  induction a with
  | nil => rfl
  | cons s a ih => rw [List.cons_append, allOf, allOf, ih, List.append_assoc]

@[simp] theorem declaredIn_append (a b : List Stmt) :
    declaredIn (a ++ b) = declaredIn a ++ declaredIn b := by
  rw [declaredIn, allOf_append, List.flatMap_append]
  rfl

@[simp] theorem usedIn_append (a b : List Stmt) : usedIn (a ++ b) = usedIn a ++ usedIn b := by
  rw [usedIn, allOf_append, List.flatMap_append]
  rfl

@[simp] theorem callsIn_append (a b : List Stmt) : callsIn (a ++ b) = callsIn a ++ callsIn b := by
  rw [callsIn, allOf_append, List.flatMap_append]
  rfl

@[simp] theorem bindsOf_append (a b : List Stmt) : bindsOf (a ++ b) = bindsOf a ++ bindsOf b :=
  List.flatMap_append

@[simp] theorem bindsOf_cons (s : Stmt) (ss : List Stmt) :
    bindsOf (s :: ss) = s.binds ++ bindsOf ss :=
  List.flatMap_cons

@[simp] theorem bindsOf_nil : bindsOf [] = [] := rfl

@[simp] theorem declaredIn_nil : declaredIn [] = [] := rfl

@[simp] theorem callsIn_nil : callsIn [] = [] := rfl

theorem allOf_singleton (s : Stmt) : allOf [s] = s.all :=
  List.append_nil _

section Braces

variable (condition : Condition) (yes no body : List Stmt) {α : Type} (collect : Stmt → List α)

/-- What is collected from a branch is what is collected from its line and from both its bodies. -/
theorem flatMap_allOf_branch :
    (allOf [.branch condition yes no]).flatMap collect
      = collect (.branch condition yes no)
        ++ ((allOf yes).flatMap collect ++ (allOf no).flatMap collect) := by
  rw [allOf_singleton]
  show collect _ ++ (allOf yes ++ allOf no).flatMap collect = _
  rw [List.flatMap_append]

theorem flatMap_allOf_forever :
    (allOf [.forever body]).flatMap collect
      = collect (.forever body) ++ (allOf body).flatMap collect := by
  rw [allOf_singleton]
  rfl

@[simp] theorem declaredIn_branch :
    declaredIn [.branch condition yes no] = declaredIn yes ++ declaredIn no :=
  flatMap_allOf_branch condition yes no Stmt.binds

@[simp] theorem callsIn_branch :
    callsIn [.branch condition yes no] = callsIn yes ++ callsIn no :=
  flatMap_allOf_branch condition yes no Stmt.calls

@[simp] theorem usedIn_branch :
    usedIn [.branch condition yes no] = condition.uses ++ (usedIn yes ++ usedIn no) :=
  flatMap_allOf_branch condition yes no Stmt.uses

@[simp] theorem declaredIn_forever : declaredIn [.forever body] = declaredIn body :=
  flatMap_allOf_forever body Stmt.binds

@[simp] theorem callsIn_forever : callsIn [.forever body] = callsIn body :=
  flatMap_allOf_forever body Stmt.calls

@[simp] theorem usedIn_forever : usedIn [.forever body] = usedIn body :=
  flatMap_allOf_forever body Stmt.uses

end Braces

/-- Statements one after the other. -/
theorem declaredIn_cons (s : Stmt) (ss : List Stmt) :
    declaredIn (s :: ss) = declaredIn [s] ++ declaredIn ss :=
  declaredIn_append [s] ss

theorem usedIn_cons (s : Stmt) (ss : List Stmt) : usedIn (s :: ss) = usedIn [s] ++ usedIn ss :=
  usedIn_append [s] ss

theorem callsIn_cons (s : Stmt) (ss : List Stmt) : callsIn (s :: ss) = callsIn [s] ++ callsIn ss :=
  callsIn_append [s] ss

mutual

theorem Stmt.Scoped.mono {visible visible' : List String} (hv : visible ⊆ visible') :
    (s : Stmt) → s.Scoped visible → s.Scoped visible'
  | .branch _ yes no, h =>
    ⟨List.Subset.trans h.1 hv, ScopedIn.mono hv yes h.2.1, ScopedIn.mono hv no h.2.2⟩
  | .forever body, h => ScopedIn.mono hv body h
  | .declare _ _, h | .assign _ _, h | .discard _, h | .unused _, h | .push _ _, h
  | .setLocal _ _, h | .declareLocal _ _, h | .setInstance _ _, h | .setGlobal _ _, h
  | .declareArgs _ _, h | .storeArg _ _ _, h | .declareBlock _ _, h | .defineMethod _ _, h
  | .defineSingleton _ _ _, h | .assertArgc _, h | .enterEnv, h | .enterBlockEnv, h | .setBlock, h
  | .closeRescue, h | .breakIf _ _, h | .return_ _, h => List.Subset.trans h hv

theorem ScopedIn.mono {visible visible' : List String} (hv : visible ⊆ visible') :
    (body : List Stmt) → ScopedIn visible body → ScopedIn visible' body
  | [], _ => trivial
  | s :: ss, h => by
    refine ⟨Stmt.Scoped.mono hv s h.1, ScopedIn.mono ?_ ss h.2⟩
    exact List.append_subset.mpr
      ⟨List.subset_append_of_subset_left _ hv, List.subset_append_right _ _⟩

end

theorem scopedIn_append {visible : List String} {a b : List Stmt} :
    ScopedIn visible (a ++ b) ↔ ScopedIn visible a ∧ ScopedIn (visible ++ bindsOf a) b := by
  induction a generalizing visible with
  | nil => simp [ScopedIn, bindsOf]
  | cons s a ih =>
    rw [List.cons_append, ScopedIn, ScopedIn, ih, bindsOf_cons, List.append_assoc, and_assoc]

theorem Stmt.binds_subset (s : Stmt) : s.binds ⊆ declaredIn [s] := by
  cases s with
  | branch condition yes no => exact List.nil_subset _
  | forever body => exact List.nil_subset _
  | _ => simp [declaredIn, allOf, Stmt.all]

mutual

/-- In scoped code everything that is used is given or declared. -/
theorem Stmt.Scoped.used_subset {visible : List String} :
    (s : Stmt) → s.Scoped visible → usedIn [s] ⊆ visible ++ declaredIn [s]
  | .branch condition yes no, h => by
    rw [usedIn_branch, declaredIn_branch]
    have hc := List.subset_append_of_subset_left (declaredIn yes ++ declaredIn no) h.1
    have hy := ScopedIn.used_subset yes h.2.1
    have hn := ScopedIn.used_subset no h.2.2
    intro x hx
    grind
  | .forever body, h => by
    rw [usedIn_forever, declaredIn_forever]
    exact ScopedIn.used_subset body h
  | .declare _ _, h | .assign _ _, h | .discard _, h | .unused _, h | .push _ _, h
  | .setLocal _ _, h | .declareLocal _ _, h | .setInstance _ _, h | .setGlobal _ _, h
  | .declareArgs _ _, h | .storeArg _ _ _, h | .declareBlock _ _, h | .defineMethod _ _, h
  | .defineSingleton _ _ _, h | .assertArgc _, h | .enterEnv, h | .enterBlockEnv, h | .setBlock, h
  | .closeRescue, h | .breakIf _ _, h | .return_ _, h => by
    simp only [usedIn, allOf, Stmt.all, List.append_nil, List.flatMap_singleton]
    exact List.subset_append_of_subset_left _ h

theorem ScopedIn.used_subset {visible : List String} :
    (body : List Stmt) → ScopedIn visible body → usedIn body ⊆ visible ++ declaredIn body
  | [], _ => List.nil_subset _
  | s :: ss, h => by
    rw [usedIn_cons, declaredIn_cons]
    have hs := Stmt.Scoped.used_subset s h.1
    have hss := ScopedIn.used_subset ss h.2
    have hb := s.binds_subset
    intro x hx
    grind

end

end ScriptCompiler.C
