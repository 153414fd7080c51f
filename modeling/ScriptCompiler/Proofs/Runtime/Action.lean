import Mathlib.Init

/-!
# Running code

Code that runs as a tree of what it asks of the runtime library, and machines that it runs on.
-/

/-!
## What running code asks of the runtime library

Code that runs is a tree: it performs an operation of the runtime library and goes on with the
reply, or tests the truth of a value, or hands over code of its own that the library may run later.
Nothing is said about what the library replies. Two trees are equal when they ask the same, in the
same order, whatever the replies are, and end alike.
-/

namespace ScriptCompiler.Runtime

/-! ### Operations -/

/-- What is passed with a message: values, and a block if there is one. -/
structure Passed (V : Type) where
  args : List V
  block : Option V

/-- The call of a function: the environment and the receiver that it gets, and what the library
passes to a method or a block. -/
structure Invocation (V : Type) where
  env : V
  self : V
  passed : Option (Passed V)

/-- An operation of the runtime library. Its first operand is always an environment. -/
inductive Operation (V : Type) where
  | integer (env : V) (value : Int64)
  | str (env : V) (value : String)
  | symbol (env : V) (name : String)
  | array (env : V)
  | push (env array value : V)
  | getLocal (env : V) (name : String)
  | lookup (env : V) (name : String)
  | setLocal (env : V) (name : String) (value : V)
  | declareLocal (env : V) (name : String) (value : V)
  | getInstance (env self : V) (name : String)
  | setInstance (env self : V) (name : String) (value : V)
  | getGlobal (env : V) (name : String)
  | setGlobal (env : V) (name : String) (value : V)
  | newClass (env superclass : V) (name : String)
  | newModule (env : V) (name : String)
  | send (env receiver : V) (name : String) (passed : Passed V)
  | lookupOrSend (env receiver : V) (name : String) (passed : Passed V)
  | callSuper (env self method : V) (passed : Passed V)
  | currentBlock (env : V)
  | runBlock (env block : V) (passed : Passed V)
  /-- A child environment for the body of a class, module or method. -/
  | childEnv (env : V)
  /-- A child environment that leaves outer names visible. -/
  | childBlockEnv (env : V)
  | setBlock (env : V) (block : Option V)
  | proc (env : V) (block : Option V)
  | openRescue (env : V)
  | closeRescue (env : V)
  | exception (env : V)
  /-- The error of a method that got another number of arguments than it takes. -/
  | wrongCount (env : V) (got expected : Nat)

/-- An operation that hands over code. -/
inductive Handover (V : Type) where
  | defineMethod (env self : V) (name : String)
  | defineSingleton (env owner : V) (name : String)
  | block (env self : V)

/-- Why code ends without a value. -/
inductive Stop where
  /-- An exception was raised. -/
  | raised
  /-- A loop went on for as many rounds as it may, or calls nested as deeply as they may. -/
  | unfinished
  /-- The code has no meaning from here on. -/
  | stuck
  deriving DecidableEq, Repr

/-- How a function ends. -/
abbrev Ending (V : Type) := Except Stop V

/-! ### Trees -/

/-- Code that runs. A reply that is missing is an exception. -/
inductive Tree (V : Type) : Type → Type 1 where
  | done {α : Type} (value : α) : Tree V α
  | perform {α : Type} (op : Operation V) (next : Option V → Tree V α) : Tree V α
  /-- Tests the truth of a value. -/
  | test {α : Type} (env value : V) (next : Bool → Tree V α) : Tree V α
  /-- Hands over code that can be entered any number of times. -/
  | deliver {α : Type} (op : Handover V) (code : Invocation V → Tree V (Ending V))
      (next : Option V → Tree V α) : Tree V α

namespace Tree

variable {V α β γ δ : Type}

/-- Code followed by other code. -/
def bind : Tree V α → (α → Tree V β) → Tree V β
  | .done value, f => f value
  | .perform op next, f => .perform op fun reply => (next reply).bind f
  | .test env value next, f => .test env value fun reply => (next reply).bind f
  | .deliver op code next, f => .deliver op code fun reply => (next reply).bind f

instance : Monad (Tree V) where
  pure := .done
  bind := bind

theorem bind_done (t : Tree V α) : t.bind .done = t := by
  induction t with
  | done value => rfl
  | perform op next ih =>
    rw [bind]
    exact congrArg _ (funext ih)
  | test env value next ih =>
    rw [bind]
    exact congrArg _ (funext ih)
  | deliver op code next _ ih =>
    rw [bind]
    exact congrArg _ (funext ih)

theorem bind_assoc (t : Tree V α) (f : α → Tree V β) (g : β → Tree V γ) :
    (t.bind f).bind g = t.bind fun value => (f value).bind g := by
  induction t with
  | done value => rfl
  | perform op next ih =>
    rw [bind, bind, bind]
    exact congrArg _ (funext fun reply => ih reply f)
  | test env value next ih =>
    rw [bind, bind, bind]
    exact congrArg _ (funext fun reply => ih reply f)
  | deliver op code next _ ih =>
    rw [bind, bind, bind]
    exact congrArg _ (funext fun reply => ih reply f)

instance : LawfulMonad (Tree V) :=
  LawfulMonad.mk' (Tree V) bind_done (fun _ _ => rfl) bind_assoc

/-! ### Trees that ask the same -/

/-- The trees ask the same, whatever the replies are, and end with related values. -/
inductive Rel (R : α → β → Prop) : Tree V α → Tree V β → Prop where
  | done {a : α} {b : β} (h : R a b) : Rel R (.done a) (.done b)
  | perform (op : Operation V) {next : Option V → Tree V α} {next' : Option V → Tree V β}
      (h : ∀ reply, Rel R (next reply) (next' reply)) :
      Rel R (.perform op next) (.perform op next')
  | test (env value : V) {next : Bool → Tree V α} {next' : Bool → Tree V β}
      (h : ∀ reply, Rel R (next reply) (next' reply)) :
      Rel R (.test env value next) (.test env value next')
  | deliver (op : Handover V) (code : Invocation V → Tree V (Ending V))
      {next : Option V → Tree V α} {next' : Option V → Tree V β}
      (h : ∀ reply, Rel R (next reply) (next' reply)) :
      Rel R (.deliver op code next) (.deliver op code next')

namespace Rel

variable {R : α → β → Prop}

theorem bind {S : γ → δ → Prop} {t : Tree V α} {t' : Tree V β} {f : α → Tree V γ}
    {f' : β → Tree V δ} (h : Rel R t t') (hf : ∀ a b, R a b → Rel S (f a) (f' b)) :
    Rel S (t.bind f) (t'.bind f') := by
  induction h with
  | done h => exact hf _ _ h
  | perform op _ ih => exact .perform op ih
  | test env value _ ih => exact .test env value ih
  | deliver op code _ ih => exact .deliver op code ih

theorem mono {S : α → β → Prop} {t : Tree V α} {t' : Tree V β} (h : Rel R t t')
    (hRS : ∀ a b, R a b → S a b) : Rel S t t' := by
  induction h with
  | done h => exact .done (hRS _ _ h)
  | perform op _ ih => exact .perform op ih
  | test env value _ ih => exact .test env value ih
  | deliver op code _ ih => exact .deliver op code ih

/-- Trees that ask the same and end with equal values are equal. -/
theorem eq {t t' : Tree V α} (h : Rel Eq t t') : t = t' := by
  induction h with
  | done h => rw [h]
  | perform op _ ih => rw [funext ih]
  | test env value _ ih => rw [funext ih]
  | deliver op code _ ih => rw [funext ih]

theorem refl {R : α → α → Prop} (hR : ∀ a, R a a) (t : Tree V α) : Rel R t t := by
  induction t with
  | done value => exact .done (hR value)
  | perform op _ ih => exact .perform op fun reply => ih reply hR
  | test env value _ ih => exact .test env value fun reply => ih reply hR
  | deliver op code _ _ ih => exact .deliver op code fun reply => ih reply hR

end Rel

end Tree

end ScriptCompiler.Runtime

/-!
## Actions and machines

An action is a tree that ends with a value or without one. Running it on a machine, which is a
runtime library that keeps a state and decides every reply, gives the list of what was asked, the
ending and the last state.
-/

namespace ScriptCompiler.Runtime

variable {V α β : Type}

/-! ### Actions -/

/-- Code that gives a value unless it stops. -/
abbrev Action (V α : Type) := ExceptT Stop (Tree V) α

/-- Code that runs when it is entered. -/
abbrev Routine (V : Type) := Invocation V → Action V V

/-- How an action goes on with a reply. -/
def afterReply : Option V → Except Stop V
  | some value => .ok value
  | none => .error .raised

/-- Performs an operation; it may raise an exception. -/
def perform (op : Operation V) : Action V V :=
  ExceptT.mk (.perform op fun reply => .done (afterReply reply))

/-- Performs an operation that has no value and cannot raise an exception. -/
def signal (op : Operation V) : Action V Unit :=
  ExceptT.mk (.perform op fun _ => .done (.ok ()))

/-- Tests the truth of a value. -/
def test (env value : V) : Action V Bool :=
  ExceptT.mk (.test env value fun reply => .done (.ok reply))

/-- Hands over code. -/
def deliver (op : Handover V) (code : Routine V) : Action V V :=
  ExceptT.mk (.deliver op code fun reply => .done (afterReply reply))

/-- Raises the error of a method that gets another number of arguments than it takes. -/
def expectCount (env : V) (got expected : Nat) : Action V Unit :=
  if got = expected then return
  else do
    let _ ← perform (.wrongCount env got expected)
    throw .raised

/-- Runs a body and then, depending on how it ended, one of two actions. -/
def protect (body : Action V α) (normally : α → Action V β) (onRaise : Action V β) : Action V β :=
  ExceptT.mk (body.run >>= fun
    | .ok value => (normally value).run
    | .error .raised => onRaise.run
    | .error stop => pure (.error stop))

/-- Runs rounds until one says that it was the last, but not more than there may be. -/
def repeatRounds (round : Action V Bool) : Nat → Action V Unit
  | 0 => throw .unfinished
  | n + 1 => do
    if ← round then repeatRounds round n

/-! ### Machines -/

universe u

/-- Something that code asked of the runtime library. -/
inductive Event (V : Type) where
  | perform (op : Operation V)
  | test (env value : V)
  | deliver (op : Handover V) (code : Routine V)

/-- A runtime library with a state, which may keep the code that it was handed. -/
structure Machine (V : Type) (σ : Type u) where
  perform : Operation V → σ → Option V × σ
  test : V → V → σ → Bool × σ
  deliver : Handover V → Routine V → σ → Option V × σ

/-- What a run asked, how it ended, and the state after it. -/
structure Record (V : Type) (σ : Type u) (α : Type) where
  events : List (Event V)
  ending : α
  state : σ

/-- The record of a run with an event before it. -/
def Record.after {σ : Type u} (event : Event V) (r : Record V σ α) : Record V σ α :=
  { r with events := event :: r.events }

/-- The record of a run that goes on with another one. -/
def Record.andThen {σ : Type u} (r : Record V σ α) (r' : Record V σ β) : Record V σ β :=
  ⟨r.events ++ r'.events, r'.ending, r'.state⟩

theorem Record.andThen_end {σ : Type u} (events : List (Event V)) (ending : α) (s : σ) :
    (Record.mk events ending s).andThen ⟨[], ending, s⟩ = ⟨events, ending, s⟩ := by
  rw [andThen, List.append_nil]

/-- Runs a tree from a state. -/
def Machine.run {σ : Type u} (m : Machine V σ) : Tree V α → σ → Record V σ α
  | .done value, s => ⟨[], value, s⟩
  | .perform op next, s =>
    let reply := m.perform op s
    (m.run (next reply.1) reply.2).after (.perform op)
  | .test env value next, s =>
    let reply := m.test env value s
    (m.run (next reply.1) reply.2).after (.test env value)
  | .deliver op code next, s =>
    let reply := m.deliver op code s
    (m.run (next reply.1) reply.2).after (.deliver op code)

theorem Machine.run_bind {σ : Type u} (m : Machine V σ) (t : Tree V α) (f : α → Tree V β) (s : σ) :
    m.run (t.bind f) s
      = (m.run t s).andThen (m.run (f (m.run t s).ending) (m.run t s).state) := by
  induction t generalizing s with
  | done value => rfl
  | perform op next ih =>
    rw [Tree.bind, Machine.run, Machine.run, ih]
    rfl
  | test env value next ih =>
    rw [Tree.bind, Machine.run, Machine.run, ih]
    rfl
  | deliver op code next _ ih =>
    rw [Tree.bind, Machine.run, Machine.run, ih]
    rfl

/-- An operation and what follows it: nothing does if the reply is an exception. -/
theorem Machine.run_perform_bind {σ : Type u} (m : Machine V σ) (op : Operation V)
    (f : V → Action V β) (s : σ) :
    m.run (Runtime.perform op >>= f).run s = match m.perform op s with
      | (some value, s') => (m.run (f value).run s').after (.perform op)
      | (none, s') => ⟨[.perform op], .error .raised, s'⟩ := by
  show (m.run (((fun reply => Tree.done (afterReply reply)) (m.perform op s).1).bind _)
    (m.perform op s).2).after _ = _
  obtain ⟨reply, s'⟩ := m.perform op s
  cases reply with
  | some value => rfl
  | none => rfl

end ScriptCompiler.Runtime
