import ScriptCompiler.Proofs.Runtime.Action

/-!
# Runs that can be reached

Which ends a tree can come to when the runtime library replies as it likes, and trees that some
replies lead through the same questions to a place where one of them is stuck and the other one asks
on. A machine that reads its replies from a script tells such trees apart.
-/

namespace ScriptCompiler.Runtime

variable {V α β : Type}

namespace Tree

/-- Some replies lead the tree to this end. -/
inductive Reaches : Tree V α → α → Prop where
  | done (value : α) : Reaches (.done value) value
  | perform {op : Operation V} {next : Option V → Tree V α} {value : α} (reply : Option V)
      (h : Reaches (next reply) value) : Reaches (.perform op next) value
  | test {env object : V} {next : Bool → Tree V α} {value : α} (reply : Bool)
      (h : Reaches (next reply) value) : Reaches (.test env object next) value
  | deliver {op : Handover V} {code : Invocation V → Tree V (Ending V)} {next : Option V → Tree V α}
      {value : α} (reply : Option V) (h : Reaches (next reply) value) :
      Reaches (.deliver op code next) value

theorem Reaches.bind {t : Tree V α} {f : α → Tree V β} {a : α} {b : β} (h : t.Reaches a)
    (hf : (f a).Reaches b) : (t.bind f).Reaches b := by
  induction h with
  | done value => exact hf
  | perform reply _ ih => exact .perform reply (ih hf)
  | test reply _ ih => exact .test reply (ih hf)
  | deliver reply _ ih => exact .deliver reply (ih hf)

/-- Some replies lead both trees, through the same questions, to a place where the first one is
stuck and the second one performs an operation. -/
inductive Parts : Tree V (Except Stop α) → Tree V (Except Stop α) → Prop where
  | here {op : Operation V} {next : Option V → Tree V (Except Stop α)} :
      Parts (.done (.error .stuck)) (.perform op next)
  | perform {op : Operation V} {next next' : Option V → Tree V (Except Stop α)}
      (reply : Option V) (h : Parts (next reply) (next' reply)) :
      Parts (.perform op next) (.perform op next')
  | test {env object : V} {next next' : Bool → Tree V (Except Stop α)} (reply : Bool)
      (h : Parts (next reply) (next' reply)) :
      Parts (.test env object next) (.test env object next')
  | deliver {op : Handover V} {code : Invocation V → Tree V (Ending V)}
      {next next' : Option V → Tree V (Except Stop α)} (reply : Option V)
      (h : Parts (next reply) (next' reply)) :
      Parts (.deliver op code next) (.deliver op code next')

namespace Parts

variable {t t' : Tree V (Except Stop α)} {f f' : Except Stop α → Tree V (Except Stop β)}

/-- Trees that part go on parting when code follows that is skipped by those that are stuck. -/
theorem bind (h : Parts t t') (hf : f (.error .stuck) = .done (.error .stuck)) :
    Parts (t.bind f) (t'.bind f') := by
  induction h with
  | here =>
    rw [Tree.bind, hf]
    exact .here
  | perform reply _ ih => exact .perform reply ih
  | test reply _ ih => exact .test reply ih
  | deliver reply _ ih => exact .deliver reply ih

/-- Trees part after a common beginning. -/
theorem after {r : Except Stop α} (h : t.Reaches r) (hf : Parts (f r) (f' r)) :
    Parts (t.bind f) (t.bind f') := by
  induction h with
  | done value => exact hf
  | perform reply _ ih => exact .perform reply (ih hf)
  | test reply _ ih => exact .test reply (ih hf)
  | deliver reply _ ih => exact .deliver reply (ih hf)

end Parts

end Tree

/-! ## Scripts -/

/-- What a machine replies. -/
inductive Reply (V : Type) where
  | value (reply : Option V)
  | truth (reply : Bool)

/-- A machine that reads its replies from a script; at the end of the script it raises exceptions
and finds nothing truthy. -/
def scripted : Machine V (List (Reply V)) where
  perform _
    | .value reply :: script => (reply, script)
    | script => (none, script)
  test _ _
    | .truth reply :: script => (reply, script)
    | script => (false, script)
  deliver _ _
    | .value reply :: script => (reply, script)
    | script => (none, script)

/-- **A script tells trees that part from one another.** -/
theorem Tree.Parts.exists_script {t t' : Tree V (Except Stop α)} (h : Tree.Parts t t') :
    ∃ script, (scripted.run t script).events ≠ (scripted.run t' script).events := by
  induction h with
  | here => exact ⟨[], by simp [Machine.run, Record.after]⟩
  | perform reply _ ih =>
    obtain ⟨script, hs⟩ := ih
    refine ⟨.value reply :: script, ?_⟩
    simpa [Machine.run, scripted, Record.after] using hs
  | test reply _ ih =>
    obtain ⟨script, hs⟩ := ih
    refine ⟨.truth reply :: script, ?_⟩
    simpa [Machine.run, scripted, Record.after] using hs
  | deliver reply _ ih =>
    obtain ⟨script, hs⟩ := ih
    refine ⟨.value reply :: script, ?_⟩
    simpa [Machine.run, scripted, Record.after] using hs

/-! ## Actions -/

variable {x x' : Action V α} {f f' : α → Action V β}

/-- Some replies lead the action to a value. -/
def Completes (x : Action V α) : Prop :=
  ∃ a, x.run.Reaches (.ok a)

/-- Some replies lead the action to an exception. -/
def Raises (x : Action V α) : Prop :=
  x.run.Reaches (.error .raised)

/-- Some replies lead the first action to a place where it is stuck while the second one goes on. -/
def Parts (x x' : Action V α) : Prop :=
  x.run.Parts x'.run

theorem Completes.pure (a : α) : Completes (pure a : Action V α) :=
  ⟨a, .done _⟩

theorem Completes.bind (h : Completes x) (hf : ∀ a, Completes (f a)) : Completes (x >>= f) := by
  obtain ⟨a, ha⟩ := h
  obtain ⟨b, hb⟩ := hf a
  exact ⟨b, Tree.Reaches.bind ha hb⟩

/-- An operation replies with a given value. -/
theorem Completes.perform_bind {f : V → Action V β} (op : Operation V) (value : V)
    (hf : Completes (f value)) : Completes (perform op >>= f) := by
  obtain ⟨b, hb⟩ := hf
  exact ⟨b, .perform (some value) hb⟩

theorem Completes.perform (value : V) (op : Operation V) : Completes (perform op) :=
  ⟨value, .perform (some value) (.done _)⟩

theorem Completes.signal (op : Operation V) : Completes (signal op) :=
  ⟨(), .perform none (.done _)⟩

theorem Completes.test_bind {f : Bool → Action V β} (env object : V) (reply : Bool)
    (hf : Completes (f reply)) : Completes (test env object >>= f) := by
  obtain ⟨b, hb⟩ := hf
  exact ⟨b, .test reply hb⟩

theorem Completes.deliver (value : V) (op : Handover V) (code : Routine V) :
    Completes (deliver op code) :=
  ⟨value, .deliver (some value) (.done _)⟩

/-- A protected body that ends normally. -/
theorem Completes.protect {normally : α → Action V β} {onRaise : Action V β} (h : Completes x)
    (hn : ∀ a, Completes (normally a)) : Completes (protect x normally onRaise) := by
  obtain ⟨a, ha⟩ := h
  obtain ⟨b, hb⟩ := hn a
  exact ⟨b, Tree.Reaches.bind ha hb⟩

theorem Raises.perform (op : Operation V) : Raises (perform op) :=
  Tree.Reaches.perform none (.done _)

theorem Raises.deliver (op : Handover V) (code : Routine V) : Raises (deliver op code) :=
  Tree.Reaches.deliver none (.done _)

/-- What follows an exception is skipped. -/
theorem Raises.first (h : Raises x) : Raises (x >>= f) :=
  Tree.Reaches.bind h (.done _)

theorem Raises.second (h : Completes x) (hf : ∀ a, Raises (f a)) : Raises (x >>= f) := by
  obtain ⟨a, ha⟩ := h
  exact Tree.Reaches.bind ha (hf a)

theorem Parts.first (h : Parts x x') : Parts (x >>= f) (x' >>= f') :=
  Tree.Parts.bind h rfl

theorem Parts.second (h : Completes x) (hf : ∀ a, Parts (f a) (f' a)) :
    Parts (x >>= f) (x >>= f') := by
  obtain ⟨a, ha⟩ := h
  exact Tree.Parts.after ha (hf a)

theorem Parts.perform_bind {f f' : V → Action V β} (op : Operation V) (value : V)
    (hf : Parts (f value) (f' value)) : Parts (perform op >>= f) (perform op >>= f') :=
  .perform (some value) hf

theorem Parts.test_bind {f f' : Bool → Action V β} (env object : V) (reply : Bool)
    (hf : Parts (f reply) (f' reply)) : Parts (test env object >>= f) (test env object >>= f') :=
  .test reply hf

section Protect

variable {normally normally' : α → Action V β} {onRaise onRaise' : Action V β}

theorem Parts.protect_body (h : Parts x x') :
    Parts (protect x normally onRaise) (protect x' normally' onRaise') :=
  Tree.Parts.bind h rfl

theorem Parts.protect_normally (h : Completes x) (hn : ∀ a, Parts (normally a) (normally' a)) :
    Parts (protect x normally onRaise) (protect x normally' onRaise') := by
  obtain ⟨a, ha⟩ := h
  exact Tree.Parts.after ha (hn a)

theorem Parts.protect_onRaise (h : Raises x) (hr : Parts onRaise onRaise') :
    Parts (protect x normally onRaise) (protect x normally' onRaise') :=
  Tree.Parts.after h hr

end Protect

end ScriptCompiler.Runtime
