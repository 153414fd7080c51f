import ScriptCompiler.Parse.Expression
import ScriptCompiler.Parse.Statement
import ScriptCompiler.Proofs.Parse.Stream

/-!
# Outcomes of parsers

What single steps of a parser give; what a run of a parser does to its state, as a relation with one
rule for each step that parsers are made of; and where it may pass the word `rescue`.
-/

/-!
## Runs of single steps

What one step of a parser gives and which state it leaves, as equations about the runs that start
with it.
-/

namespace ScriptCompiler.Parse

variable {α β : Type} {s s' : State} {p : Parser α} {k : Token.Kind}

theorem run_bind {α β : Type} (p : Parser α) (f : α → Parser β) (s : State) :
    (p >>= f).run s = match p.run s with
      | (some a, s') => (f a).run s'
      | (none, s') => (none, s') := by
  rw [OptionT.run_bind]
  show ((p.run s).1.elim (Pure.pure none) fun a => (f a).run : StateM State _) (p.run s).2 = _
  rcases p.run s with ⟨_ | a, s'⟩ <;> rfl

/-! ### Looking -/

theorem run_kind (f : Token.Kind → Parser β) (s : State) :
    (kind >>= f).run s = (f s.current.kind).run s := rfl

theorem run_followingKind (f : Token.Kind → Parser β) (s : State) :
    (followingKind >>= f).run s = (f s.following.kind).run s := rfl

theorem run_currentSpan (f : Span → Parser β) (s : State) :
    (currentSpan >>= f).run s = (f s.current.span).run s := rfl

theorem run_previousSpan (f : Span → Parser β) (s : State) :
    (previousSpan >>= f).run s = (f s.previous).run s := rfl

theorem run_isLocal (name : String) (f : Bool → Parser β) (s : State) :
    (isLocal name >>= f).run s = (f (State.sees name s.scopes)).run s := rfl

theorem run_isFull (f : Bool → Parser β) (s : State) :
    (isFull >>= f).run s = (f s.log.isFull).run s := rfl

theorem run_at (k : Token.Kind) (f : Bool → Parser β) (s : State) :
    (at_ k >>= f).run s = (f (decide (s.current.kind = k))).run s := rfl

theorem run_at_of_ne (h : s.current.kind ≠ k) (f : Bool → Parser β) :
    (at_ k >>= f).run s = (f false).run s := by
  rw [run_at, decide_eq_false h]

theorem run_atEnd (f : Bool → Parser β) (s : State) :
    (atEnd >>= f).run s = (f (decide (s.current.kind = .endOfInput))).run s := rfl

/-! ### Passing tokens -/

theorem run_advance (f : Unit → Parser β) (s : State) :
    (advance >>= f).run s = (f ()).run s.next := rfl

theorem run_expect (h : s.current.kind = k) : (expect k).run s = (some (), s.next) := by
  unfold expect
  rw [run_at, decide_eq_true h]
  rfl

theorem run_expectIdentifier {name : String} (h : s.current.kind = .identifier name) :
    expectIdentifier.run s = (some name, s.next) := by
  unfold expectIdentifier
  rw [run_kind, h]
  rfl

theorem run_unexpected (expected : String) (s : State) :
    ∃ r, (unexpected expected).run s = (some (), s.report r) := by
  unfold unexpected
  rw [run_kind]
  split <;> exact ⟨_, rfl⟩

/-! ### Control -/

theorem run_withDoBlocks {allowed : Bool} {r : Option α}
    (h : p.run { s with doBlocks := allowed } = (r, s')) :
    (withDoBlocks allowed p).run s = (r, { s' with doBlocks := s.doBlocks }) := by
  have run : (withDoBlocks allowed p).run s = ((p.run { s with doBlocks := allowed }).1,
      { (p.run { s with doBlocks := allowed }).2 with doBlocks := s.doBlocks }) := rfl
  rw [run, h]

theorem run_inScope {closed : Bool} {r : Option α}
    (h : p.run { s with scopes := ⟨[], closed⟩ :: s.scopes } = (r, s')) :
    (inScope closed p).run s = (r, { s' with scopes := s'.scopes.tail }) := by
  have run : (inScope closed p).run s
      = ((p.run { s with scopes := ⟨[], closed⟩ :: s.scopes }).1,
        { (p.run { s with scopes := ⟨[], closed⟩ :: s.scopes }).2 with
          scopes := (p.run { s with scopes := ⟨[], closed⟩ :: s.scopes }).2.scopes.tail }) := rfl
  rw [run, h]

/-! ### Rounds -/

section Rounds

variable {round : α → Parser (Round α β)} {a a' : α} {b : β} {n : Nat}

theorem run_rounds_done (h : (round a).run s = (some (.done b), s')) :
    (rounds round (n + 1) a).run s = (some b, s') := by
  rw [rounds, run_bind, h]
  rfl

theorem run_rounds_again (h : (round a).run s = (some (.again a'), s')) :
    (rounds round (n + 1) a).run s = (rounds round n a').run s' := by
  rw [rounds, run_bind, h]

/-- The first round comes before the others. -/
theorem run_repeating_eq (round : α → Parser (Round α β)) (a : α) (s : State) :
    (repeating round a).run s = (do
      match ← round a with
      | .again a => rounds round (s.rest.length + 2) a
      | .done b => return b : Parser β).run s := rfl

theorem run_repeating (h : (round a).run s = (some (.done b), s')) :
    (repeating round a).run s = (some b, s') :=
  run_rounds_done h

theorem run_repeating_again (h : (round a).run s = (some (.again a'), s'))
    (hl : s.rest.length = s'.rest.length + 1) :
    (repeating round a).run s = (repeating round a').run s' := by
  show (rounds round (s.rest.length + 3) a).run s = (rounds round (s'.rest.length + 3) a').run s'
  rw [hl, Nat.add_right_comm, run_rounds_again h]

end Rounds

end ScriptCompiler.Parse

/-!
## Where rescue clauses open

The word `rescue` is the name of a method after a point or after `def`. Anywhere else it opens the
clause of a protected body: complete statements stand between the start of the body and the word.
-/

namespace ScriptCompiler.Parse

/-- The words that end the statements of a `begin` block. -/
def beginEnds : List Token.Kind :=
  [.keyword .endKw, .keyword .rescueKw, .keyword .elseKw, .keyword .ensureKw]

/-- The words that end the statements of a method. -/
def methodEnds : List Token.Kind :=
  [.keyword .endKw, .keyword .rescueKw, .keyword .ensureKw]

/-- The parser passes complete statements of a body: each is parsed without a fault, and after it
comes a line break, the end of the text or a word that ends the body. -/
inductive Statements (expression : Parser Node) (ends : List Token.Kind) (s : State) :
    State → Prop
  | none : Statements expression ends s s
  | newline {s' : State} : Statements expression ends s s' → s'.current.kind = .newline →
    Statements expression ends s s'.next
  | statement {s' s'' : State} {node : Node} : Statements expression ends s s' →
    (statement expression).run s' = (some node, s'') → s''.log.total = s'.log.total →
    endsStatement ends s''.current.kind = true → Statements expression ends s s''

/-- The state after the owner in the definition of a method, if there is one. -/
def State.afterOwner (s : State) : State :=
  if (owner? s.current.kind s.following.kind).isSome then s.next.next else s

/-- A protected body starts at the state: it is right after the word `begin`, or right after the
name and the parameters in the definition of a method. -/
inductive Opened (stream : Stream) : List Token.Kind → State → Prop
  | begin_ {s : State} : stream.Follows (.keyword .beginKw) s.remaining →
    Opened stream beginEnds s
  | method {s s' s'' : State} {name : String} {params : List Param} :
    stream.Follows (.keyword .defKw) s.remaining →
    definedName.run s.afterOwner = (some name, s') →
    methodParams.run { s' with scopes := ⟨[], true⟩ :: s'.scopes } = (some params, s'') →
    Opened stream methodEnds s''

/-- A clause may open in front of the tokens: they come after complete statements of a protected
body. -/
def OpensClause (stream : Stream) (remaining : List Token) : Prop :=
  ∃ levels ends s s', Opened stream ends s ∧ Statements (expression levels) ends s s'
    ∧ s'.remaining = remaining

/-- The word `rescue`, the first of the tokens, is a name or opens a clause. -/
def Placed (stream : Stream) (remaining : List Token) : Prop :=
  stream.Follows (.punct .dot) remaining ∨ stream.Follows (.keyword .defKw) remaining
    ∨ OpensClause stream remaining

/-- Between two states every word `rescue` that was passed is placed. -/
def Passed (stream : Stream) (s s' : State) : Prop :=
  ∀ t after, t :: after <:+ s.remaining → s'.remaining.length ≤ after.length →
    t.kind = .keyword .rescueKw → Placed stream (t :: after)

namespace Passed

variable {stream : Stream} {s s' s'' : State}

theorem of_remaining_eq (h : s'.remaining = s.remaining) : Passed stream s s' := by
  intro t after hs hl
  have := hs.length_le
  rw [h] at hl
  rw [List.length_cons] at this
  omega

theorem trans (hs : s'.remaining <:+ s.remaining) (h : Passed stream s s')
    (h' : Passed stream s' s'') : Passed stream s s'' := by
  intro t after ha hl
  by_cases hle : s'.remaining.length ≤ after.length
  · exact h t after ha hle
  · refine h' t after (List.suffix_of_suffix_length_le ha hs ?_) hl
    rw [List.length_cons]
    omega

/-- A single token is passed. -/
theorem next (h : s.current.kind = .keyword .rescueKw → Placed stream s.remaining) :
    Passed stream s s.next := by
  by_cases hr : s.rest = []
  · rw [State.next_of_nil hr]
    exact of_remaining_eq rfl
  · intro t after hs hl hk
    rw [State.remaining_next hr] at hl
    have he : t :: after = s.remaining := hs.eq_of_length_le (by
      rw [State.length_remaining, List.length_cons]
      omega)
    have ht : t = s.current := (List.cons.inj he).1
    rw [he]
    exact h (ht ▸ hk)

end Passed

end ScriptCompiler.Parse

/-!
## Outcomes of parsers

What is shown of every parser: it moves forward; if it fails, it has reported a fault; and as long
as no fault is reported, it passes no word `rescue` that is not placed. The rules follow the steps
that a parser is made of.
-/

namespace ScriptCompiler.Parse

/-- What a parser did that ran from a state, when `n` faults were known at the start of the whole
run. -/
structure Outcome {α : Type} (stream : Stream) (n : Nat) (s : State) (post : α → State → Prop)
    (result : Option α) (s' : State) : Prop where
  moves : Moves s s'
  fails : result = none → n < s'.log.total
  passed : s'.log.total = n → Passed stream s s'
  gives : ∀ a, result = some a → post a s'

/-- From a state in the stream, with at least `n` faults, the parser goes as it should, and a result
that it gives satisfies the postcondition. -/
def Goes {α : Type} (stream : Stream) (n : Nat) (p : Parser α) (s : State)
    (post : α → State → Prop) : Prop :=
  s.In stream → n ≤ s.log.total → Outcome stream n s post (p.run s).1 (p.run s).2

/-- A parser with a result passed at least one token. -/
abbrev Ahead {α : Type} (s : State) (_ : α) (s' : State) : Prop :=
  s'.rest.length < s.rest.length

/-- Nothing more is known of a result. -/
abbrev Anywhere {α : Type} (_ : α) (_ : State) : Prop :=
  True

/-- A token that may be passed anywhere. -/
def Ordinary (k : Token.Kind) : Prop :=
  k ≠ .endOfInput ∧ k ≠ .keyword .rescueKw

theorem ordinary_punct (mark : Punct) : Ordinary (.punct mark) :=
  ⟨nofun, nofun⟩

theorem ordinary_keyword {word : Keyword} (h : word ≠ .rescueKw) : Ordinary (.keyword word) :=
  ⟨nofun, fun hk => h (Token.Kind.keyword.inj hk)⟩

theorem ordinary_end : Ordinary (.keyword .endKw) :=
  ordinary_keyword (by decide)

namespace Goes

variable {stream : Stream} {n : Nat} {α β : Type} {s : State} {p q : Parser α}
  {f : α → Parser β} {Q post : α → State → Prop} {post' : β → State → Prop}

/-! ### Results and sequences -/

/-- The state is in the stream. -/
theorem from_ (h : s.In stream → n ≤ s.log.total → Goes stream n p s post) :
    Goes stream n p s post :=
  fun hs hn => h hs hn hs hn

theorem mono (h : Goes stream n p s Q) (hp : ∀ a s', Moves s s' → Q a s' → post a s') :
    Goes stream n p s post := by
  intro hs hn
  obtain ⟨moves, fails, passed, gives⟩ := h hs hn
  exact ⟨moves, fails, passed, fun a ha => hp a _ moves (gives a ha)⟩

theorem pure {a : α} (h : post a s) : Goes stream n (pure a) s post := by
  intro hs hn
  refine ⟨.refl s, nofun, fun _ => .of_remaining_eq rfl, ?_⟩
  rintro _ ⟨⟩
  exact h

theorem failure (h : n < s.log.total) : Goes stream n failure s post :=
  fun _ _ => ⟨.refl s, fun _ => h, fun _ => .of_remaining_eq rfl, nofun⟩

/-- One parser after another. -/
theorem bind (hp : Goes stream n p s Q)
    (hf : ∀ a s', p.run s = (some a, s') → Moves s s' → Q a s' →
      Goes stream n (f a) s' post') : Goes stream n (p >>= f) s post' := by
  intro hs hn
  obtain ⟨moves, fails, passed, gives⟩ := hp hs hn
  rw [run_bind]
  rcases h : p.run s with ⟨r, s'⟩
  rw [h] at moves fails passed gives
  cases r with
  | none => exact ⟨moves, fun _ => fails rfl, passed, nofun⟩
  | some a =>
    have hn' := Nat.le_trans hn moves.log
    obtain ⟨moves', fails', passed', gives'⟩ :=
      hf a s' h moves (gives a rfl) (moves.into hs) hn'
    refine ⟨moves.trans moves', fails', ?_, gives'⟩
    intro ht
    have ht' : s'.log.total = n :=
      Nat.le_antisymm (ht ▸ moves'.log) hn'
    exact (passed ht').trans moves.suffix (passed' ht)

/-- A parser with a known result, after which nothing comes. -/
theorem abort (hp : Goes stream n p s fun _ _ => False) : Goes stream n (p >>= f) s post' :=
  hp.bind fun _ _ _ _ h => h.elim

/-! ### Looking -/

section Looking

theorem kind {f : Token.Kind → Parser β} (h : Goes stream n (f s.current.kind) s post') :
    Goes stream n (Parse.kind >>= f) s post' := h

theorem followingKind {f : Token.Kind → Parser β}
    (h : Goes stream n (f s.following.kind) s post') :
    Goes stream n (Parse.followingKind >>= f) s post' := h

theorem currentSpan {f : Span → Parser β} (h : Goes stream n (f s.current.span) s post') :
    Goes stream n (Parse.currentSpan >>= f) s post' := h

theorem previousSpan {f : Span → Parser β} (h : Goes stream n (f s.previous) s post') :
    Goes stream n (Parse.previousSpan >>= f) s post' := h

theorem spaceBefore {f : Bool → Parser β} (h : Goes stream n (f s.current.spaceBefore) s post') :
    Goes stream n (Parse.spaceBefore >>= f) s post' := h

theorem isFull {f : Bool → Parser β} (h : Goes stream n (f s.log.isFull) s post') :
    Goes stream n (Parse.isFull >>= f) s post' := h

theorem isLocal {f : Bool → Parser β} {name : String}
    (h : Goes stream n (f (State.sees name s.scopes)) s post') :
    Goes stream n (Parse.isLocal name >>= f) s post' := h

theorem get {f : State → Parser β} (h : Goes stream n (f s) s post') :
    Goes stream n (MonadState.get >>= f) s post' := h

theorem at_ {f : Bool → Parser β} {k : Token.Kind}
    (h : Goes stream n (f (decide (s.current.kind = k))) s post') :
    Goes stream n (Parse.at_ k >>= f) s post' := h

theorem atParenArgs {f : Bool → Parser β}
    (h : ∀ b, (b = true → s.current.kind = .punct .openParen) → Goes stream n (f b) s post') :
    Goes stream n (Parse.atParenArgs >>= f) s post' := by
  refine h (decide (s.current.kind = .punct .openParen) && !s.current.spaceBefore) fun hb => ?_
  rw [Bool.and_eq_true, decide_eq_true_eq] at hb
  exact hb.1

theorem run_startsCommandArgs (s : State) :
    ∃ b, Parse.startsCommandArgs.run s = (some b, s) := by
  unfold Parse.startsCommandArgs
  rw [run_bind]
  show ∃ b, (if (!s.current.spaceBefore) = true then Pure.pure false else _ : Parser Bool).run s
    = (some b, s)
  split
  · exact ⟨false, rfl⟩
  · cases s.current.kind with
    | keyword w => cases w <;> exact ⟨_, rfl⟩
    | punct p => cases p <;> exact ⟨_, rfl⟩
    | _ => exact ⟨_, rfl⟩

theorem startsCommandArgs {f : Bool → Parser β} (h : ∀ b, Goes stream n (f b) s post') :
    Goes stream n (Parse.startsCommandArgs >>= f) s post' := by
  intro hs hn
  obtain ⟨b, hb⟩ := run_startsCommandArgs s
  rw [run_bind, hb]
  exact h b hs hn

/-- A choice by the current token. -/
theorem ifAt {k : Token.Kind} (yes : s.current.kind = k → Goes stream n p s post)
    (no : s.current.kind ≠ k → Goes stream n q s post) :
    Goes stream n (Parse.at_ k >>= fun b => if b = true then p else q) s post := by
  refine at_ ?_
  by_cases h : s.current.kind = k
  · rw [decide_eq_true h, if_pos rfl]
    exact yes h
  · rw [decide_eq_false h, if_neg Bool.false_ne_true]
    exact no h

end Looking

/-! ### Passing tokens -/

theorem advance_
    (hr : s.log.total = n → s.current.kind = .keyword .rescueKw → Placed stream s.remaining) :
    Goes stream n Parse.advance s fun _ s' => s' = s.next := by
  intro hs hn
  refine ⟨.next s, nofun, fun ht => .next (hr ?_), fun _ _ => rfl⟩
  exact (congrArg Log.total s.log_next).symm.trans ht

/-- A token is passed; the word `rescue` must be placed for it, unless a fault is known. -/
theorem pass {f : Unit → Parser β} (he : s.current.kind ≠ .endOfInput)
    (hr : s.log.total = n → s.current.kind = .keyword .rescueKw → Placed stream s.remaining)
    (h : s.next.rest.length < s.rest.length → Goes stream n (f ()) s.next post') :
    Goes stream n (Parse.advance >>= f) s post' := by
  intro hs hn
  refine (advance_ hr).bind ?_ hs hn
  rintro _ _ - - rfl
  exact h (hs.lt_next he)

theorem advance {f : Unit → Parser β} {k : Token.Kind} (hk : s.current.kind = k)
    (ho : Ordinary k) (h : s.next.rest.length < s.rest.length → Goes stream n (f ()) s.next post') :
    Goes stream n (Parse.advance >>= f) s post' :=
  pass (hk ▸ ho.1) (fun _ hr => absurd (hk.symm.trans hr) ho.2) h

theorem run_eat_of_eq {k : Token.Kind} (h : s.current.kind = k) :
    (Parse.eat k).run s = (some true, s.next) := by
  have looked : (Parse.at_ k).run s = (some (decide (s.current.kind = k)), s) := rfl
  rw [Parse.eat, run_bind, looked, decide_eq_true h]
  rfl

theorem run_eat_of_ne {k : Token.Kind} (h : s.current.kind ≠ k) :
    (Parse.eat k).run s = (some false, s) := by
  have looked : (Parse.at_ k).run s = (some (decide (s.current.kind = k)), s) := rfl
  rw [Parse.eat, run_bind, looked, decide_eq_false h]
  rfl

/-- Something depends on whether a token comes next, which is passed then. -/
theorem passIf {f : Bool → Parser β} {k : Token.Kind} (he : k ≠ .endOfInput)
    (hr : s.log.total = n → s.current.kind = .keyword .rescueKw → Placed stream s.remaining)
    (yes : s.current.kind = k → s.next.rest.length < s.rest.length →
      Goes stream n (f true) s.next post')
    (no : s.current.kind ≠ k → Goes stream n (f false) s post') :
    Goes stream n (Parse.eat k >>= f) s post' := by
  intro hs hn
  by_cases h : s.current.kind = k
  · have eaten : (Parse.eat k >>= f).run s = (Parse.advance >>= fun _ => f true).run s := by
      rw [run_bind, run_eat_of_eq h]
      rfl
    rw [eaten]
    exact pass (h ▸ he) hr (yes h) hs hn
  · have left : (Parse.eat k >>= f).run s = (f false).run s := by
      rw [run_bind, run_eat_of_ne h]
    rw [left]
    exact no h hs hn

theorem eat {f : Bool → Parser β} {k : Token.Kind} (ho : Ordinary k)
    (yes : s.current.kind = k → s.next.rest.length < s.rest.length →
      Goes stream n (f true) s.next post')
    (no : s.current.kind ≠ k → Goes stream n (f false) s post') :
    Goes stream n (Parse.eat k >>= f) s post' := by
  by_cases h : s.current.kind = k
  · exact passIf ho.1 (fun _ hr => absurd (h.symm.trans hr) ho.2) yes no
  · intro hs hn
    rw [run_bind, run_eat_of_ne h]
    exact no h hs hn

theorem eats {k : Token.Kind} (ho : Ordinary k) :
    Goes stream n (Parse.eat k) s fun b s' => b = true → s'.rest.length < s.rest.length := by
  have last : Goes stream n (Parse.eat k >>= Pure.pure) s fun b s' =>
      b = true → s'.rest.length < s.rest.length :=
    eat ho (fun _ lt => pure fun _ => lt) fun _ => pure nofun
  intro hs hn
  have h := last hs hn
  rw [run_bind] at h
  rcases hr : (Parse.eat k).run s with ⟨_ | b, s'⟩ <;> rw [hr] at h <;> exact h

theorem ifEat {k : Token.Kind} (ho : Ordinary k)
    (yes : s.current.kind = k → s.next.rest.length < s.rest.length →
      Goes stream n p s.next post)
    (no : s.current.kind ≠ k → Goes stream n q s post) :
    Goes stream n (Parse.eat k >>= fun b => if b = true then p else q) s post := by
  refine eat ho ?_ ?_
  · rw [if_pos rfl]
    exact yes
  · rw [if_neg Bool.false_ne_true]
    exact no

/-! ### Faults -/

/-- A fault is reported; the position stays. -/
theorem report_ (code : Code) (message : String) (span : Span) :
    Goes stream n (Parse.report code message span) s fun _ s' =>
      s'.remaining = s.remaining ∧ n < s'.log.total := by
  intro hs hn
  have hlt : n < s.log.total + 1 := Nat.lt_succ_of_le hn
  refine ⟨.report s _, nofun, fun ht => absurd ht (Nat.ne_of_gt hlt), ?_⟩
  rintro _ -
  exact ⟨rfl, hlt⟩

theorem unexpected (expected : String) :
    Goes stream n (Parse.unexpected expected) s fun _ s' =>
      s'.remaining = s.remaining ∧ n < s'.log.total := by
  unfold Parse.unexpected
  refine kind ?_
  split <;> exact currentSpan (report_ _ _ _)

/-- Something else was expected. -/
theorem reject (expected : String) :
    Goes stream n (Parse.unexpected expected >>= fun _ => Alternative.failure (f := Parser)) s
      post :=
  (unexpected expected).bind fun _ _ _ _ h => failure h.2

theorem rejectAs (code : Code) (message : String) (span : Span) :
    Goes stream n (Parse.report code message span >>= fun _ => Alternative.failure (f := Parser))
      s post :=
  (report_ code message span).bind fun _ _ _ _ h => failure h.2

theorem unsupported (message : String) (span : Span) (suggestion : String) :
    Goes stream n (Parse.unsupported message span suggestion) s post := by
  intro hs hn
  have hlt : n < s.log.total + 1 := Nat.lt_succ_of_le hn
  exact ⟨.report s _, fun _ => hlt, fun ht => absurd ht (Nat.ne_of_gt hlt), nofun⟩

theorem unsupportedThen (message : String) (span : Span) (suggestion : String) :
    Goes stream n (Parse.unsupported message span suggestion >>= f) s post' :=
  abort (unsupported _ _ _)

/-! ### Tokens that must come -/

theorem expect {k : Token.Kind} (ho : Ordinary k) :
    Goes stream n (Parse.expect k) s (Ahead s) := by
  unfold Parse.expect
  refine ifAt (fun hk => ?_) (fun _ => reject _)
  refine from_ fun hs _ => ?_
  refine (advance_ fun _ hr => absurd (hk.symm.trans hr) ho.2).mono ?_
  rintro _ _ - rfl
  exact hs.lt_next (hk ▸ ho.1)

theorem expectIdentifier : Goes stream n Parse.expectIdentifier s (Ahead s) := by
  unfold Parse.expectIdentifier
  refine kind ?_
  split
  · next name hk => exact advance hk ⟨nofun, nofun⟩ fun lt => pure lt
  · exact reject _

theorem expectConstant : Goes stream n Parse.expectConstant s (Ahead s) := by
  unfold Parse.expectConstant
  refine kind ?_
  split
  · next name hk => exact advance hk ⟨nofun, nofun⟩ fun lt => pure lt
  · exact reject _

theorem declare (name : String) :
    Goes stream n (Parse.declare name) s fun _ s' => s'.rest.length = s.rest.length := by
  intro hs hn
  have hr : (s.bind name).rest.length = s.rest.length :=
    Nat.succ.inj (congrArg List.length (s.remaining_bind name))
  exact ⟨.bind s name, nofun, fun _ => .of_remaining_eq (s.remaining_bind name), fun _ _ => hr⟩

/-! ### Control -/

/-- A parser whose failure is an answer. -/
theorem attempt {f : Option α → Parser β} (hp : Goes stream n p s Q)
    (no : ∀ s', Moves s s' → n < s'.log.total → Goes stream n (f none) s' post')
    (yes : ∀ a s', p.run s = (some a, s') → Moves s s' → Q a s' →
      Goes stream n (f (some a)) s' post') :
    Goes stream n (Parse.attempt p >>= f) s post' := by
  have answer : Goes stream n (Parse.attempt p) s fun r s' =>
      p.run s = (r, s') ∧ (∀ a, r = some a → Q a s') ∧ (r = none → n < s'.log.total) := by
    intro hs hn
    obtain ⟨moves, fails, passed, gives⟩ := hp hs hn
    refine ⟨moves, nofun, passed, ?_⟩
    rintro _ ⟨⟩
    exact ⟨rfl, gives, fails⟩
  refine answer.bind ?_
  rintro r s' - moves ⟨hrun, hmid, hfail⟩
  cases r with
  | none => exact no s' moves (hfail rfl)
  | some a => exact yes a s' hrun moves (hmid a rfl)

theorem withDoBlocks {allowed : Bool}
    (h : Goes stream n p { s with doBlocks := allowed } fun a s' =>
      post a { s' with doBlocks := s.doBlocks }) :
    Goes stream n (Parse.withDoBlocks allowed p) s post := by
  intro hs hn
  obtain ⟨moves, fails, passed, gives⟩ := h hs hn
  exact ⟨moves.withDoBlocks, fails, passed, gives⟩

theorem inScope {closed : Bool}
    (h : Goes stream n p { s with scopes := ⟨[], closed⟩ :: s.scopes } fun a s' =>
      post a { s' with scopes := s'.scopes.tail }) :
    Goes stream n (Parse.inScope closed p) s post := by
  intro hs hn
  obtain ⟨moves, fails, passed, gives⟩ := h hs hn
  exact ⟨moves.inScope, fails, passed, gives⟩

end Goes

/-! ### Repetition -/

/-- What is known after a round: it passed a token if there is another one. -/
def Round.Post {α β : Type} (s : State) (I : α → State → Prop) (post : β → State → Prop) :
    Round α β → State → Prop
  | .again a, s' => s'.rest.length < s.rest.length ∧ I a s'
  | .done b, s' => post b s'

namespace Goes

variable {stream : Stream} {n : Nat} {α β : Type} {round : α → Parser (Round α β)}
  {I : α → State → Prop} {post : β → State → Prop}

theorem rounds
    (h : ∀ a s, I a s → Goes stream n (round a) s (Round.Post s I post)) (fuel : Nat)
    {a : α} {s : State} (ha : I a s) (hf : s.rest.length < fuel) :
    Goes stream n (Parse.rounds round fuel a) s post := by
  induction fuel generalizing a s with
  | zero => exact absurd hf (Nat.not_lt_zero _)
  | succ fuel ih =>
    unfold Parse.rounds
    refine (h a s ha).bind fun r s' _ _ hr => ?_
    cases r with
    | again a => exact ih hr.2 (Nat.lt_of_lt_of_le hr.1 (Nat.le_of_lt_succ hf))
    | done b => exact pure hr

/-- There are as many rounds as a repetition needs. -/
theorem repeating
    (h : ∀ a s, I a s → Goes stream n (round a) s (Round.Post s I post)) {a : α} {s : State}
    (ha : I a s) : Goes stream n (Parse.repeating round a) s post := by
  unfold Parse.repeating
  exact get (rounds h _ ha (by omega))

/-- The last round passes a token too. -/
theorem repeatingAhead
    (h : ∀ a s, Goes stream n (round a) s (Round.Post s Anywhere (Ahead s))) {a : α} {s : State} :
    Goes stream n (Parse.repeating round a) s (Ahead s) := by
  refine repeating (I := fun _ s' => s'.rest.length ≤ s.rest.length) ?_ (Nat.le_refl _)
  intro a s' hs'
  refine (h a s').mono fun r s'' _ hr => ?_
  cases r with
  | again a => exact ⟨hr.1, Nat.le_trans (Nat.le_of_lt hr.1) hs'⟩
  | done b => exact Nat.lt_of_lt_of_le hr hs'

theorem repeatingKeeps
    (h : ∀ a s, Goes stream n (round a) s (Round.Post s Anywhere Anywhere)) {a : α} {s : State} :
    Goes stream n (Parse.repeating round a) s Anywhere :=
  repeating (fun a s _ => h a s) trivial

/-- Line breaks are passed. -/
theorem newlines {I : State → Prop}
    (h : ∀ s, I s → s.current.kind = .newline → I s.next) {s : State} (hs : I s) :
    Goes stream n Parse.skipNewlines s fun _ s' => I s' := by
  unfold Parse.skipNewlines
  refine repeating (I := fun _ s => I s) ?_ hs
  intro _ s hs
  refine ifEat ⟨nofun, nofun⟩ (fun hk lt => ?_) (fun _ => pure hs)
  exact pure ⟨lt, h s hs hk⟩

theorem skipNewlines {s : State} : Goes stream n Parse.skipNewlines s Anywhere :=
  newlines (I := fun _ => True) (fun _ _ _ => trivial) trivial

end Goes

theorem run_skipNewlines_of_ne {s : State} (h : s.current.kind ≠ .newline) :
    skipNewlines.run s = (some (), s) := by
  refine run_repeating ?_
  rw [run_bind, Goes.run_eat_of_ne h]
  rfl

end ScriptCompiler.Parse
