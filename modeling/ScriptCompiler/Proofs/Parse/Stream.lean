import Mathlib.Data.List.Basic
import ScriptCompiler.Parse.State
import ScriptCompiler.Token.Scan

/-!
# Positions in a token stream

A parser stands in front of a suffix of a stream of tokens and never goes back. What it may change
besides its position is little: the log grows, and the innermost scope may gain names.
-/

namespace ScriptCompiler.Parse

/-! ## Streams -/

/-- Tokens of which the last one, and no other, is the end of the text. -/
structure Stream where
  tokens : List Token
  ends : ∃ others last, tokens = others ++ [last] ∧ last.kind = .endOfInput
    ∧ ∀ t ∈ others, t.kind ≠ .endOfInput

/-- The token right before the given ones says this. -/
def Stream.Follows (stream : Stream) (k : Token.Kind) (remaining : List Token) : Prop :=
  ∃ before t, stream.tokens = before ++ t :: remaining ∧ t.kind = k

namespace State

/-- The current token and those after it. -/
def remaining (s : State) : List Token :=
  s.current :: s.rest

/-- The state stands in the stream. -/
def In (stream : Stream) (s : State) : Prop :=
  s.remaining <:+ stream.tokens

variable {stream : Stream} {s : State}

theorem length_remaining (s : State) : s.remaining.length = s.rest.length + 1 := rfl

/-- Only the end of the text has no token after it. -/
theorem In.rest_eq_nil_iff (hs : s.In stream) :
    s.rest = [] ↔ s.current.kind = .endOfInput := by
  obtain ⟨others, last, htokens, hlast, hothers⟩ := stream.ends
  obtain ⟨before, h⟩ := hs
  rw [htokens, remaining] at h
  constructor
  · intro hr
    rw [hr] at h
    obtain ⟨-, h⟩ := List.append_inj' h rfl
    rw [List.singleton_inj.mp h]
    exact hlast
  · intro hk
    by_contra hr
    rw [← List.dropLast_append_getLast hr, ← List.cons_append, ← List.append_assoc] at h
    obtain ⟨h, -⟩ := List.append_inj' h rfl
    exact hothers s.current (h ▸ by simp) hk

theorem In.rest_ne_nil (hs : s.In stream) (hk : s.current.kind ≠ .endOfInput) : s.rest ≠ [] :=
  fun h => hk (hs.rest_eq_nil_iff.mp h)

theorem next_of_nil (h : s.rest = []) : s.next = s := by
  unfold next
  rw [h]

theorem remaining_next (h : s.rest ≠ []) : s.next.remaining = s.rest := by
  unfold next
  split
  · next hr => exact absurd hr h
  · next t rest hr => rw [hr]; rfl

theorem suffix_next (s : State) : s.next.remaining <:+ s.remaining := by
  by_cases h : s.rest = []
  · exact ⟨[], congrArg remaining (next_of_nil h)⟩
  · rw [remaining_next h]
    exact List.suffix_cons _ _

/-- A token that is passed is not there any more. -/
theorem In.lt_next (hs : s.In stream) (hk : s.current.kind ≠ .endOfInput) :
    s.next.rest.length < s.rest.length := by
  have hr : s.rest ≠ [] := hs.rest_ne_nil hk
  have := congrArg List.length (remaining_next hr)
  rw [length_remaining] at this
  omega

theorem In.follows_next (hs : s.In stream) (hk : s.current.kind ≠ .endOfInput) :
    stream.Follows s.current.kind s.next.remaining := by
  have hr : s.rest ≠ [] := hs.rest_ne_nil hk
  obtain ⟨before, h⟩ := hs
  exact ⟨before, s.current, by rw [remaining_next hr]; exact h.symm, rfl⟩

theorem In.current_next (hs : s.In stream) (hk : s.current.kind ≠ .endOfInput) :
    s.next.current = s.following := by
  have hr : s.rest ≠ [] := hs.rest_ne_nil hk
  unfold next following
  split
  · next h => exact absurd h hr
  · next t rest h => rw [h]; rfl

theorem previous_next (h : s.rest ≠ []) : s.next.previous = s.current.span := by
  unfold next
  split
  · next hr => exact absurd hr h
  · rfl

@[simp] theorem log_next (s : State) : s.next.log = s.log := by
  unfold next
  split <;> rfl

@[simp] theorem file_next (s : State) : s.next.file = s.file := by
  unfold next
  split <;> rfl

@[simp] theorem doBlocks_next (s : State) : s.next.doBlocks = s.doBlocks := by
  unfold next
  split <;> rfl

@[simp] theorem scopes_next (s : State) : s.next.scopes = s.scopes := by
  unfold next
  split <;> rfl

@[simp] theorem remaining_bind (s : State) (name : String) :
    (s.bind name).remaining = s.remaining := by
  unfold bind
  split <;> rfl

@[simp] theorem log_bind (s : State) (name : String) : (s.bind name).log = s.log := by
  unfold bind
  split <;> rfl

@[simp] theorem file_bind (s : State) (name : String) : (s.bind name).file = s.file := by
  unfold bind
  split <;> rfl

@[simp] theorem doBlocks_bind (s : State) (name : String) :
    (s.bind name).doBlocks = s.doBlocks := by
  unfold bind
  split <;> rfl

theorem next_bind (s : State) (name : String) : (s.bind name).next = s.next.bind name := by
  obtain ⟨file, current, rest, previous, log, scopes, doBlocks⟩ := s
  cases scopes <;> cases rest <;> rfl

@[simp] theorem current_bind (s : State) (name : String) :
    (s.bind name).current = s.current := by
  unfold bind
  split <;> rfl

@[simp] theorem remaining_report (s : State) (r : Report) :
    (s.report r).remaining = s.remaining := rfl

@[simp] theorem total_report (s : State) (r : Report) :
    (s.report r).log.total = s.log.total + 1 := rfl

end State

/-! ## Moves -/

/-- Scopes of which the innermost one may have gained names. -/
inductive Widens : List Scope → List Scope → Prop
  | none : Widens [] []
  | inner {names names' : List String} {closed : Bool} {outer : List Scope} :
    names <:+ names' → Widens (⟨names, closed⟩ :: outer) (⟨names', closed⟩ :: outer)

namespace Widens

theorem refl : (scopes : List Scope) → Widens scopes scopes
  | [] => .none
  | _ :: _ => .inner (List.suffix_refl _)

theorem trans {a b c : List Scope} (h : Widens a b) (h' : Widens b c) : Widens a c := by
  cases h with
  | none => exact h'
  | inner h =>
    cases h' with
    | inner h' => exact .inner (h.trans h')

/-- The scopes around the innermost one are as they were. -/
theorem tail {a b : List Scope} (h : Widens a b) : b.tail = a.tail := by
  cases h <;> rfl

end Widens

/-- What a parser may do to a state, whether it fails or not. -/
structure Moves (s s' : State) : Prop where
  suffix : s'.remaining <:+ s.remaining
  log : s.log.total ≤ s'.log.total
  file : s'.file = s.file
  doBlocks : s'.doBlocks = s.doBlocks
  scopes : Widens s.scopes s'.scopes

namespace Moves

variable {stream : Stream} {s s' s'' : State}

theorem refl (s : State) : Moves s s :=
  ⟨List.suffix_refl _, Nat.le_refl _, rfl, rfl, .refl _⟩

theorem trans (h : Moves s s') (h' : Moves s' s'') : Moves s s'' :=
  ⟨h'.suffix.trans h.suffix, Nat.le_trans h.log h'.log, h'.file.trans h.file,
    h'.doBlocks.trans h.doBlocks, h.scopes.trans h'.scopes⟩

theorem le (h : Moves s s') : s'.rest.length ≤ s.rest.length := by
  have := h.suffix.length_le
  rw [State.length_remaining, State.length_remaining] at this
  omega

theorem into (h : Moves s s') (hs : s.In stream) : s'.In stream :=
  h.suffix.trans hs

theorem next (s : State) : Moves s s.next :=
  ⟨s.suffix_next, by simp, s.file_next, s.doBlocks_next,
    by rw [State.scopes_next]; exact .refl _⟩

theorem bind (s : State) (name : String) : Moves s (s.bind name) := by
  refine ⟨by simp, by simp, s.file_bind name, s.doBlocks_bind name, ?_⟩
  unfold State.bind
  split
  · exact .refl _
  · next scope outer h =>
    rw [h]
    exact .inner (List.suffix_cons _ _)

theorem report (s : State) (r : Report) : Moves s (s.report r) :=
  ⟨List.suffix_refl _, Nat.le_succ _, rfl, rfl, .refl _⟩

/-- A move where `do` may or may not start a block. -/
theorem withDoBlocks {allowed : Bool} (h : Moves { s with doBlocks := allowed } s') :
    Moves s { s' with doBlocks := s.doBlocks } :=
  ⟨h.suffix, h.log, h.file, rfl, h.scopes⟩

/-- A move inside a scope that is left after it. -/
theorem inScope {closed : Bool} (h : Moves { s with scopes := ⟨[], closed⟩ :: s.scopes } s') :
    Moves s { s' with scopes := s'.scopes.tail } := by
  refine ⟨h.suffix, h.log, h.file, h.doBlocks, ?_⟩
  show Widens s.scopes s'.scopes.tail
  rw [h.scopes.tail]
  exact .refl _

end Moves

/-! ## Scanned streams -/

/-- The tokens of a text end where the text does. -/
theorem scanFrom_ends (file : SourceFile) (last : Option Token.Kind) (log : Log)
    (cursor : Token.Cursor) :
    ∃ others final, (Token.scanFrom file last log cursor).tokens = others ++ [final]
      ∧ final.kind = .endOfInput ∧ ∀ t ∈ others, t.kind ≠ .endOfInput := by
  fun_induction Token.scanFrom file last log cursor with
  | case1 => exact ⟨[], _, rfl, rfl, nofun⟩
  | case2 last log cursor _ found _ h => exact ⟨[], _, rfl, h, nofun⟩
  | case3 last log cursor _ found _ h _ ih => exact ih
  | case4 last log cursor _ found _ h _ others ih =>
    obtain ⟨ts, final, ht, hf, hts⟩ := ih
    refine ⟨found.token :: ts, final, congrArg (found.token :: ·) ht, hf, ?_⟩
    intro t hm
    rcases List.mem_cons.mp hm with rfl | hm
    · exact h
    · exact hts t hm

/-- The tokens of a source file. -/
def Stream.ofFile (file : SourceFile) : Stream :=
  ⟨(Token.scan file).tokens, scanFrom_ends file none .empty _⟩

/-- A parser starts in front of the whole stream. -/
theorem remaining_start (stream : Stream) (file : SourceFile) (known : List String) :
    (State.start file stream.tokens known).remaining = stream.tokens := by
  obtain ⟨others, last, h, -⟩ := stream.ends
  cases ht : stream.tokens with
  | nil =>
    rw [ht] at h
    exact absurd h.symm (List.append_ne_nil_of_right_ne_nil _ (List.cons_ne_nil _ _))
  | cons t ts => rfl

end ScriptCompiler.Parse
