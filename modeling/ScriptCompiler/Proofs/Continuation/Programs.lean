import ScriptCompiler.Proofs.Continuation.Expressions
import ScriptCompiler.Proofs.Continuation.Scanning
import ScriptCompiler.Proofs.Truncation.Lines

/-!
# One more line

Programs with a line after them, and the names that are known there.
-/

/-!
## Programs with a line after them

A bare name is read as a local variable where it is known as one, and as a call elsewhere. In a line
after a program it is one more statement, and the names that are known there are those that were
known at the start and those that the program binds in its outermost scope.
-/

namespace ScriptCompiler

/-- A log that adds nothing is empty. -/
theorem Log.eq_empty_of_append {l l' : Log} (h : (l.append l').total = 0) : l' = .empty := by
  obtain ⟨kept, total⟩ := l'
  unfold append at h
  simp only [total_pushAll] at h
  have none : kept = [] := List.eq_nil_of_length_eq_zero (by omega)
  obtain rfl : total = 0 := by
    rw [none] at h
    exact Nat.eq_zero_of_add_eq_zero_left h
  rw [none]
  rfl

namespace Parse

open Bindings

/-- How a bare name is read. -/
def bareName (isLocal : Bool) (name : String) : Form :=
  if isLocal then .localVar name else .send none name [] none

theorem asDirective_bareName (isLocal : Bool) (name : String) (span : Span) :
    asDirective ⟨bareName isLocal name, span⟩ = ⟨bareName isLocal name, span⟩ := by
  cases isLocal <;> rfl

variable {s s' : State} {name : String} {levels : Nat}

/-! ### Single steps -/

section Steps

variable {α β : Type}

theorem run_atParenArgs_of_ne (h : s.current.kind ≠ .punct .openParen) (f : Bool → Parser β) :
    (atParenArgs >>= f).run s = (f false).run s := by
  show (f (decide (s.current.kind = .punct .openParen) && !s.current.spaceBefore)).run s = _
  rw [decide_eq_false h]
  rfl

end Steps

/-! ### At the end of the text -/

section End

variable (hk : s.current.kind = .endOfInput)

include hk

theorem run_postfixOf_end (expression : Parser Node) (node : Node) :
    (postfixOf expression node).run s = (some node, s) :=
  run_repeating (run_postfixRound_end node hk)

/-- A name alone is called without arguments. -/
theorem run_call_end (expression : Parser Node) (name : String) :
    ∃ span, (call expression none name).run s = (some ⟨.send none name [] none, span⟩, s) := by
  have other (mark : Punct) : s.current.kind ≠ .punct mark := by
    rw [hk]
    nofun
  have word : s.current.kind ≠ .keyword .doKw := by
    rw [hk]
    nofun
  have command : startsCommandArgs.run s = (some false, s) := by
    unfold startsCommandArgs
    rw [run_bind]
    show (if (!s.current.spaceBefore) = true then Pure.pure false else _ : Parser Bool).run s = _
    rw [hk]
    split <;> rfl
  have block : (callBlock expression false).run s = (some none, s) := by
    unfold callBlock
    rw [run_at_of_ne (other _)]
    show (at_ (.keyword .doKw) >>= fun b => if (s.doBlocks && b) = true then _ else _ :
      Parser (Option Block)).run s = _
    rw [run_at_of_ne word, Bool.and_false]
    rfl
  unfold call
  extract_lets jp
  rw [run_previousSpan, run_atParenArgs_of_ne (other _), run_bind, command]
  dsimp only
  show ∃ span, (callBlock expression false >>= _ : Parser Node).run s = _
  rw [run_bind, block]
  exact ⟨_, rfl⟩

end End

section Operators

variable {operand : Parser Node} {left : Node} (h : operand.run s = (some left, s'))
  (hk : s'.current.kind = .endOfInput)

include h hk

theorem run_leftGrouped_end (ops : List Punct) :
    (leftGrouped ops operand).run s = (some left, s') := by
  unfold leftGrouped
  rw [run_bind, h]
  refine run_repeating ?_
  rw [run_kind, hk]
  rfl

theorem run_foldl_leftGrouped_end (ranks : List (List Punct)) :
    (ranks.foldl (fun operand ops => leftGrouped ops operand) operand).run s
      = (some left, s') := by
  induction ranks generalizing operand with
  | nil => exact h
  | cons ops ranks ih => exact ih (run_leftGrouped_end h hk ops)

end Operators

/-! ### A bare name -/

section Name

variable (hs : s.current.kind = .identifier name) (hk : s.next.current.kind = .endOfInput)

include hs hk

theorem run_primary_name (expression : Parser Node) :
    ∃ span, (primary expression).run s
      = (some ⟨bareName (State.sees name s.scopes) name, span⟩, s.next) := by
  unfold primary
  rw [run_currentSpan]
  extract_lets finish
  rw [run_kind, hs]
  dsimp only [simple?]
  rw [run_advance, run_isLocal, State.scopes_next, run_atParenArgs_of_ne (by rw [hk]; nofun)]
  cases State.sees name s.scopes with
  | true => exact ⟨_, rfl⟩
  | false => exact run_call_end hk expression name

theorem run_unary_name (expression : Parser Node) :
    ∃ span, (unary expression).run s
      = (some ⟨bareName (State.sees name s.scopes) name, span⟩, s.next) := by
  obtain ⟨span, hp⟩ := run_primary_name hs hk expression
  refine ⟨span, run_repeating ?_⟩
  rw [run_currentSpan, run_kind, hs]
  dsimp only
  rw [run_bind, hp]
  dsimp only
  rw [run_bind, run_postfixOf_end hk]
  rfl

theorem run_logical_name (expression : Parser Node) :
    ∃ span, (logical expression).run s
      = (some ⟨bareName (State.sees name s.scopes) name, span⟩, s.next) := by
  obtain ⟨span, hu⟩ := run_unary_name hs hk expression
  refine ⟨span, ?_⟩
  unfold logical operators
  rw [run_bind, run_foldl_leftGrouped_end hu hk]
  dsimp only
  rw [run_kind, hk]
  rfl

theorem run_assignment_name (hf : s.following.kind = .endOfInput) (expression : Parser Node) :
    ∃ span, (assignment expression).run s
      = (some ⟨bareName (State.sees name s.scopes) name, span⟩, s.next) := by
  obtain ⟨span, hl⟩ := run_logical_name hs hk expression
  refine ⟨span, ?_⟩
  unfold assignment
  rw [run_currentSpan, run_kind, run_followingKind, hs, hf, localAssignment_end]
  dsimp only
  rw [run_bind, hl]
  dsimp only
  rw [run_kind, hk]
  rfl

theorem run_statement_name (hf : s.following.kind = .endOfInput) (expression : Parser Node) :
    ∃ span, (statement (assignment expression)).run s
      = (some ⟨bareName (State.sees name s.scopes) name, span⟩, s.next) := by
  obtain ⟨span, he⟩ := run_assignment_name hs hk hf expression
  refine ⟨span, ?_⟩
  unfold statement
  rw [run_currentSpan, run_bind, he]
  dsimp only
  rw [asDirective_bareName, run_bind, run_repeating]
  -- no modifier follows
  swap
  · rw [run_kind, hk]
    rfl
  dsimp only
  rw [run_kind, hk]
  rfl

end Name

/-- After the last token comes the end. -/
theorem kind_next_of_last {stop : Token} (hr : s.rest = [stop]) (isEnd : stop.kind = .endOfInput) :
    s.next.current.kind = .endOfInput := by
  unfold State.next
  rw [hr]
  exact isEnd

/-! ### Line breaks -/

theorem run_skipNewlines_next (h : s.current.kind = .newline) (hr : s.rest ≠ []) :
    skipNewlines.run s = skipNewlines.run s.next := by
  refine run_repeating_again ?_ ?_
  · rw [run_bind, Goes.run_eat_of_eq h]
    rfl
  · have := congrArg List.length (State.remaining_next hr)
    rw [State.length_remaining] at this
    exact this.symm

/-- The second parser stands in front of the line, and knows what the first one knows. -/
structure Arrives (c : Continuation) (s t : State) : Prop where
  remaining : t.remaining = c.line
  log : t.log = s.log
  scopes : t.scopes = s.scopes

variable {c : Continuation} {t : State}

theorem Continues.arrives_next (h : Continues c s t) (hr : t.rest = c.line)
    (log : s'.log = s.log) (scopes : s'.scopes = s.scopes) : Arrives c s' t.next := by
  refine ⟨?_, ?_, ?_⟩
  · rw [State.remaining_next (by rw [hr]; nofun), hr]
  · rw [t.log_next, h.log, log]
  · rw [t.scopes_next, h.scopes, scopes]

/-- Where the first parser passes line breaks up to the end, the second one passes the break before
the line too. -/
theorem Continues.skipNewlines (h : Continues c s t) (hs : s.In c.stream)
    (hr : Parse.skipNewlines.run s = (some (), s')) (hk : s'.current.kind = .endOfInput) :
    ∃ t', Parse.skipNewlines.run t = (some (), t') ∧ Arrives c s' t' := by
  -- the line begins with no break
  have line {t : State} (ht : Arrives c s' t) : Parse.skipNewlines.run t = (some (), t) := by
    refine run_skipNewlines_of_ne ?_
    rw [(List.cons.inj ht.remaining).1]
    exact c.starts.1
  -- on the number of tokens left to the first parser
  induction hn : s.rest.length using Nat.strongRecOn generalizing s t with
  | _ n ih =>
    subst hn
    have more : t.rest ≠ [] := List.ne_nil_of_length_pos (Nat.zero_lt_of_lt h.length_lt)
    by_cases hb : s.current.kind = .newline
    · have hne : s.current.kind ≠ .endOfInput := by
        rw [hb]
        nofun
      rw [run_skipNewlines_next hb fun hr => hne (hs.rest_eq_nil_iff.mp hr)] at hr
      rw [run_skipNewlines_next (by rw [h.current hne, hb]) more]
      rcases h.next_or hne with next | ⟨-, last, rest⟩
      · exact ih _ (hs.lt_next hne) next ((Moves.next s).into hs) hr rfl
      · rw [run_skipNewlines_of_ne (by rw [last]; nofun)] at hr
        cases hr
        have arrives := h.arrives_next rest s.log_next s.scopes_next
        exact ⟨_, line arrives, arrives⟩
    · rw [run_skipNewlines_of_ne hb] at hr
      cases hr
      have arrives := h.arrives_next (h.of_end hs hk).2 rfl rfl
      rw [run_skipNewlines_next (h.kind_of_end hs hk) more]
      exact ⟨_, line arrives, arrives⟩

/-! ### Bodies -/

/-- A parser after which another round comes ends no repetition. -/
theorem run_again_ne {α β γ : Type} {p : Parser γ} {a : α} {b : β} :
    (p >>= fun _ => Pure.pure (Round.again a)).run s ≠ (some (.done b), s') := by
  intro h
  rw [run_bind] at h
  rcases hp : p.run s with ⟨_ | _, s₁⟩ <;> rw [hp] at h <;> cases h

/-- A round of a body that is over: after line breaks comes the end. -/
theorem done_of_bodyRound {expression : Parser Node} {done : List Node} {nodes : Body}
    (h : (bodyRound expression [] done).run s = (some (.done nodes), s'))
    (clean : s'.log.total = 0) :
    skipNewlines.run s = (some (), s') ∧ s'.current.kind = .endOfInput ∧ nodes = done.reverse := by
  unfold bodyRound at h
  rw [run_bind] at h
  rcases hb : skipNewlines.run s with ⟨_ | _, s₁⟩ <;> rw [hb] at h
  · cases h
  dsimp only at h
  rw [run_kind] at h
  split at h
  · next he =>
    cases h
    exact ⟨rfl, by simpa using he, rfl⟩
  rw [run_isFull] at h
  split at h
  · next full =>
    cases h
    rw [Log.isFull, clean] at full
    cases full
  -- after a statement, or after recovery, the body goes on
  exfalso
  rw [run_bind] at h
  rcases hr : (attempt (statement expression)).run s₁ with ⟨_ | _ | stmt, s₂⟩ <;> rw [hr] at h
  · cases h
  · exact run_again_ne h
  · dsimp only at h
    rw [run_kind] at h
    split at h
    · cases h
    · rw [run_bind] at h
      rcases hu : (unexpected "newline").run s₂ with ⟨_ | _, s₃⟩ <;> rw [hu] at h
      · cases h
      · exact run_again_ne h

theorem run_bodyRound_end {expression : Parser Node} (done : List Node)
    (hk : s.current.kind = .endOfInput) :
    (bodyRound expression [] done).run s = (some (.done done.reverse), s) := by
  unfold bodyRound
  rw [run_bind, run_skipNewlines_of_ne (by rw [hk]; nofun)]
  dsimp only
  rw [run_kind, hk]
  rfl

/-- One statement, up to the end of the text. -/
theorem run_rounds_statement {expression : Parser Node} {node : Node}
    (h : (statement expression).run s = (some node, s'))
    (starts : s.current.kind ≠ .newline ∧ s.current.kind ≠ .endOfInput)
    (isEnd : s'.current.kind = .endOfInput) (clean : s.log.total = 0) (done : List Node)
    (fuel : Nat) :
    (rounds (bodyRound expression []) (fuel + 2) done).run s
      = (some (done.reverse ++ [node]), s') := by
  have room : s.log.isFull = false := by
    rw [Log.isFull, clean]
    rfl
  have first : (bodyRound expression [] done).run s = (some (.again (node :: done)), s') := by
    unfold bodyRound
    rw [run_bind, run_skipNewlines_of_ne starts.1]
    dsimp only
    rw [run_kind, if_neg (by simp [starts.2]), run_isFull, room, if_neg Bool.false_ne_true]
    refine Reads.run_attempt ?_
    rw [run_bind, h]
    dsimp only
    rw [run_kind, isEnd]
    rfl
  rw [run_rounds_again first, run_rounds_done (run_bodyRound_end _ isEnd), List.reverse_cons]

/-- A line with a bare name: the name is one more statement. -/
theorem run_rounds_name (levels : Nat) (hs : s.current.kind = .identifier name) {stop : Token}
    (hr : s.rest = [stop]) (isEnd : stop.kind = .endOfInput) (clean : s.log.total = 0)
    (done : List Node) (fuel : Nat) :
    ∃ span, (rounds (bodyRound (expression (levels + 1)) []) (fuel + 2) done).run s
      = (some (done.reverse ++ [⟨bareName (State.sees name s.scopes) name, span⟩]), s.next) := by
  have hk := kind_next_of_last hr isEnd
  have hf : s.following.kind = .endOfInput := by
    unfold State.following
    rw [hr]
    exact isEnd
  obtain ⟨span, stmt⟩ := run_statement_name hs hk hf (expression levels)
  have starts : s.current.kind ≠ .newline ∧ s.current.kind ≠ .endOfInput := by
    rw [hs]
    exact ⟨nofun, nofun⟩
  exact ⟨span, run_rounds_statement stmt starts hk clean done fuel⟩

/-! ### The line after a body -/

section Line

variable {stop : Token} {nodes : Body}

/-- In front of the line a repetition does what it does behind the line breaks before it. -/
theorem run_rounds_congr {expression : Parser Node} {done : List Node} (fuel : Nat)
    (h : skipNewlines.run t = (some (), s)) (h' : skipNewlines.run s = (some (), s)) :
    (rounds (bodyRound expression []) (fuel + 1) done).run t
      = (rounds (bodyRound expression []) (fuel + 1) done).run s := by
  have round : (bodyRound expression [] done).run t = (bodyRound expression [] done).run s := by
    unfold bodyRound
    rw [run_bind, run_bind, h, h']
  rw [rounds, run_bind, run_bind, round]

theorem reads_rounds (fuel : Nat) {done : List Node} {s₀ : State}
    (g : Gained s₀ (ofNodes done) s) :
    Reads c Loose (rounds (bodyRound (expression levels) []) fuel done) s (Binds s₀ ofNodes) := by
  refine Joins.rounds (fun done s g => reads_bodyRound (reads_expression levels) [] done g)
    (fun _ => False.elim) (fun _ _ _ h => h.elim fun _ => False.elim) fuel fuel (Nat.le_refl _) g

/-- The second parser reads the body, and then the name in the line. -/
theorem run_rounds_line (hf : c.first.kind = .identifier name) (ho : c.others = [stop])
    (isEnd : stop.kind = .endOfInput) (fuel fuel' : Nat) (hle : fuel < fuel') {done : List Node}
    {s₀ : State} (g : Gained s₀ (ofNodes done) s) (hs : s.In c.stream) (h : Continues c s t)
    (hr : (rounds (bodyRound (expression (levels + 1)) []) fuel done).run s = (some nodes, s'))
    (clean : s'.log.total = 0) :
    ∃ span t', (rounds (bodyRound (expression (levels + 1)) []) fuel' done).run t
        = (some (nodes ++ [⟨bareName (State.sees name s'.scopes) name, span⟩]), t')
      ∧ t'.log = s'.log ∧ t'.current.kind = .endOfInput := by
  -- on the rounds of the first parser; what is done so far is bound so far
  induction fuel generalizing fuel' done s t with
  | zero => cases hr
  | succ fuel ih =>
    obtain ⟨more, rfl⟩ := Nat.exists_eq_add_of_lt hle
    have read := reads_bodyRound (reads_expression (levels + 1)) [] done g hs
    rw [rounds, run_bind] at hr
    rcases hb : (bodyRound (expression (levels + 1)) [] done).run s with ⟨_ | r, s₁⟩ <;>
      rw [hb] at hr
    · cases hr
    cases r with
    | again done' =>
      obtain ⟨moves, g', again⟩ := read _ s₁ hb
      have in₁ := moves.into hs
      have rest := (reads_rounds fuel g' in₁ nodes s' hr).moves.log
      have log := moves.log
      obtain ⟨t₁, ht₁, h₁⟩ := again (by omega) (.inl trivial) t h
      rw [run_rounds_again ht₁]
      exact ih _ (by omega) g' in₁ h₁ hr
    | done nodes' =>
      cases hr
      obtain ⟨breaks, last, rfl⟩ := done_of_bodyRound hb clean
      obtain ⟨t₁, passed, arrives⟩ := h.skipNewlines hs breaks last
      obtain ⟨current, rest⟩ := List.cons.inj arrives.remaining
      have first : t₁.current.kind = .identifier name := by rw [current, hf]
      have stays : skipNewlines.run t₁ = (some (), t₁) := run_skipNewlines_of_ne (by simp [first])
      rw [show fuel + 1 + more + 1 = fuel + more + 2 by omega, run_rounds_congr _ passed stays]
      obtain ⟨span, ht⟩ := run_rounds_name levels first (rest.trans ho) isEnd
        (arrives.log ▸ clean) done (fuel + more)
      exact ⟨span, t₁.next, arrives.scopes ▸ ht, t₁.log_next.trans arrives.log,
        kind_next_of_last (rest.trans ho) isEnd⟩

theorem run_body_line (hf : c.first.kind = .identifier name) (ho : c.others = [stop])
    (isEnd : stop.kind = .endOfInput) (hs : s.In c.stream) (h : Continues c s t)
    (hr : (body (expression (levels + 1)) []).run s = (some nodes, s'))
    (clean : s'.log.total = 0) :
    ∃ span t', (body (expression (levels + 1)) []).run t
        = (some (nodes ++ [⟨bareName (State.sees name s'.scopes) name, span⟩]), t')
      ∧ t'.log = s'.log ∧ t'.current.kind = .endOfInput :=
  run_rounds_line hf ho isEnd _ _ (Nat.add_lt_add_right h.length_lt 3) (.refl s) hs h hr clean

end Line

/-! ### Programs -/

section Programs

variable {nodes : Body}

theorem run_program_of_body (h : (body (expression maxDepth) []).run s = (some nodes, s'))
    (hk : s'.current.kind = .endOfInput) : program.run s = (some nodes, s') := by
  unfold program
  rw [run_bind, h]
  dsimp only
  rw [run_atEnd, decide_eq_true hk, run_isFull]
  rfl

theorem body_of_run_program (h : program.run s = (some nodes, s')) (clean : s'.log.total = 0) :
    (body (expression maxDepth) []).run s = (some nodes, s') := by
  unfold program at h
  rw [run_bind] at h
  rcases hb : (body (expression maxDepth) []).run s with ⟨_ | nodes', s₁⟩ <;> rw [hb] at h
  · cases h
  dsimp only at h
  rw [run_atEnd, run_isFull] at h
  split at h
  · -- something else is left, which is a fault
    obtain ⟨r, hr⟩ := run_unexpected "end of file" s₁
    rw [run_bind, hr] at h
    cases h
    cases clean
  · cases h
    rfl

/-- The line with the name after a program. -/
theorem run_program_line {stop : Token} (hf : c.first.kind = .identifier name)
    (ho : c.others = [stop]) (isEnd : stop.kind = .endOfInput) (hs : s.In c.stream)
    (h : Continues c s t) (hr : program.run s = (some nodes, s')) (clean : s'.log = .empty) :
    ∃ span t', program.run t
        = (some (nodes ++ [⟨bareName (State.sees name s'.scopes) name, span⟩]), t')
      ∧ t'.log = .empty := by
  have total : s'.log.total = 0 := clean ▸ rfl
  obtain ⟨span, t', ht, log, last⟩ :=
    run_body_line hf ho isEnd hs h (body_of_run_program hr total) total
  exact ⟨span, t', run_program_of_body ht last, log.trans clean⟩

/-- A program that is a bare name. -/
theorem run_program_name {stop : Token} (hs : s.current.kind = .identifier name)
    (hr : s.rest = [stop]) (isEnd : stop.kind = .endOfInput) (clean : s.log = .empty) :
    ∃ span t', program.run s = (some [⟨bareName (State.sees name s.scopes) name, span⟩], t')
      ∧ t'.log = .empty := by
  obtain ⟨span, h⟩ := run_rounds_name (maxDepth - 1) hs hr isEnd (clean ▸ rfl) []
    (s.rest.length + 1)
  exact ⟨span, s.next, run_program_of_body h (kind_next_of_last hr isEnd),
    s.log_next.trans clean⟩

theorem Gained.of_program (hs : s.In c.stream) (hr : program.run s = (some nodes, s'))
    (clean : s'.log.total = 0) : Gained s (ofNodes nodes) s' :=
  (reads_body (reads_expression maxDepth) [] hs nodes s' (body_of_run_program hr clean)).gives

/-- A program without faults. -/
theorem run_program_of_ok {name source : String} {known : List String}
    (h : parse name source known = .ok nodes) :
    (Token.scan (.ofText name source)).log.total = 0
      ∧ ∃ s', program.run (.start (.ofText name source)
        (Token.scan (.ofText name source)).tokens known) = (some nodes, s') ∧ s'.log = .empty := by
  refine ⟨(total_of_parse h).1, ?_⟩
  rw [parse_eq] at h
  unfold faults ofText ofTokens at h
  rcases hr : program.run (.start (.ofText name source)
    (Token.scan (.ofText name source)).tokens known) with ⟨_ | nodes', s'⟩ <;> rw [hr] at h
  · cases h
  dsimp only at h
  split at h
  · cases h
  · next hf =>
    cases h
    have total := Nat.eq_zero_of_not_pos fun lt => hf (decide_eq_true lt)
    exact ⟨s', rfl, Log.eq_empty_of_append total⟩

theorem parse_of_run {name source : String} {known : List String}
    (scanned : (Token.scan (.ofText name source)).log = .empty)
    (h : program.run (.start (.ofText name source)
      (Token.scan (.ofText name source)).tokens known) = (some nodes, s'))
    (clean : s'.log = .empty) : parse name source known = .ok nodes := by
  have parsed : ofText name source known = (some nodes, .empty) := by
    unfold ofText ofTokens
    rw [h]
    exact congrArg (some nodes, ·) clean
  rw [parse_eq, parsed, faults, scanned, parsed]
  rfl

end Programs

end Parse

end ScriptCompiler

/-!
## Names in a line after a text

A text that is a program stays one with a bare name in a new line after it, if its last token ends
the line. The name is one more statement, and it is read as a local variable exactly if it was known
before the text or is bound in the outermost scope of it.
-/

namespace ScriptCompiler

/-- The last token of a text does not ask for more, so that a line break ends the statement. -/
def endsLine (file : SourceFile) : Bool :=
  match Token.lastKind none (Token.scan file).tokens.dropLast with
  | some (.punct mark) => !mark.continuesLine
  | _ => true

namespace Parse

open Bindings

variable {name source n : String} {known : List String} {nodes : Body}

/-- The scopes that the parser has open at the end of a text. -/
def scopesAfter (name source : String) (known : List String) : List Scope :=
  (program.run
    (.start (.ofText name source) (Token.scan (.ofText name source)).tokens known)).2.scopes

/-- The text, and after it a line with a bare name. -/
def nameLine (stream : Stream) (lineBreak identifier stop : Token) {n : String}
    (isBreak : lineBreak.kind = .newline) (isName : identifier.kind = .identifier n)
    (last : Token) (isEnd : last.kind = .endOfInput) (ending : List Token)
    (ends : ending = [last] ∧ lineBreak.spaceBefore = last.spaceBefore
      ∨ ending = [lineBreak, last]) : Continuation where
  stream := stream
  stop := last
  isEnd := isEnd
  lineBreak := lineBreak
  isBreak := isBreak
  first := identifier
  starts := by
    rw [isName]
    exact ⟨nofun, nofun⟩
  others := [stop]
  more := nofun
  ending := ending
  ends := ends

theorem start_in (name source : String) (known : List String) :
    (State.start (.ofText name source) (Token.scan (.ofText name source)).tokens known).In
      (.ofFile (.ofText name source)) :=
  ⟨[], remaining_start (.ofFile (.ofText name source)) _ known⟩

/-- **The names that are known after a text** are those that were known before it, those that it
assigns and those in which it receives exceptions. -/
theorem sees_scopesAfter (h : parse name source known = .ok nodes)
    (hn : Token.startsUpper n = false) :
    State.sees n (scopesAfter name source known) = true
      ↔ n ∈ known ∨ n ∈ assignedNames nodes ∨ n ∈ caughtNames nodes := by
  obtain ⟨-, s', hr, clean⟩ := run_program_of_ok h
  have total : s'.log.total = 0 := clean ▸ rfl
  -- any line will do
  let stop : Token := ⟨.endOfInput, .point 1 1, false⟩
  let c := nameLine (.ofFile (.ofText name source)) ⟨.newline, .point 1 1, false⟩
    ⟨.identifier n, .point 1 1, false⟩ stop rfl rfl stop rfl [stop] (.inl ⟨rfl, rfl⟩)
  have gained : Gained _ (ofNodes nodes) s' := Gained.of_program (c := c) (start_in ..) hr total
  rw [scopesAfter, hr, Gains.sees_iff (gained.gains total) hn, Binding.exists_name_iff]
  rfl

/-- A bare name alone. -/
theorem parse_name (name : String) (known : List String) (hn : Token.isName n = true) :
    ∃ span, parse name n known = .ok [⟨bareName (known.contains n) n, span⟩] := by
  obtain ⟨span, stop, hs, isEnd⟩ := @Token.scanFrom_name n ⟨1, 1⟩ (.ofText name n) none hn
  have scan : Token.scan (.ofText name n) = ⟨[⟨.identifier n, span, false⟩, stop], .empty⟩ := hs
  obtain ⟨span', t', ht, clean⟩ := run_program_name (s := .start (.ofText name n)
    [⟨.identifier n, span, false⟩, stop] known) rfl rfl isEnd rfl
  have sees : State.sees n [⟨known, true⟩] = known.contains n := Bool.or_false _
  refine ⟨span', parse_of_run (congrArg Token.Scanned.log scan) ?_ clean⟩
  rw [scan, ← sees]
  exact ht

/-- The tokens of a text with a name in a line after it. -/
theorem scan_line (clean : (Token.scan (.ofText name source)).log.total = 0)
    (hn : Token.isName n = true) :
    ∃ (before : List Token) (last lineBreak stop : Token) (span : Span),
      (Token.scan (.ofText name source)).tokens = before ++ [last] ∧ last.kind = .endOfInput
        ∧ lineBreak.kind = .newline ∧ lineBreak.spaceBefore = last.spaceBefore
        ∧ stop.kind = .endOfInput
        ∧ Token.scan (.ofText name (source ++ "\n" ++ n)) =
          ⟨(if Token.dropsNewline (Token.lastKind none before) then before
            else before ++ [lineBreak]) ++ [⟨.identifier n, span, false⟩, stop], .empty⟩ := by
  obtain ⟨before, last, lineBreak, place, ht, isEnd, isBreak, space, hs⟩ :=
    Token.scanFrom_line _ (.ofText name (source ++ "\n" ++ n)) n.toList clean
  have whole : (source ++ "\n" ++ n).toList = source.toList ++ '\n' :: n.toList := by
    rw [String.toList_append, String.toList_append, List.append_assoc]
    rfl
  obtain ⟨span, stop, hn, isEnd'⟩ := @Token.scanFrom_name n place
    (.ofText name (source ++ "\n" ++ n)) _ hn
  refine ⟨before, last, lineBreak, stop, span, ht, isEnd, isBreak, space, isEnd', ?_⟩
  rw [Token.scan]
  show Token.scanFrom _ none .empty ⟨_, (source ++ "\n" ++ n).toList⟩ = _
  rw [whole]
  refine hs.trans ?_
  dsimp only
  rw [hn]
  rfl

section Line

variable {s' : State} (hr : program.run (.start (.ofText name source)
    (Token.scan (.ofText name source)).tokens known) = (some nodes, s')) (clean : s'.log = .empty)
  {last lineBreak stop : Token} {span : Span} (isEnd : last.kind = .endOfInput)
  (isEnd' : stop.kind = .endOfInput)

include hr clean isEnd isEnd'

/-- The tokens of the text go on with a line break and the name. -/
theorem parse_line_of_tokens {before ending : List Token} (isBreak : lineBreak.kind = .newline)
    (ends : ending = [last] ∧ lineBreak.spaceBefore = last.spaceBefore ∨ ending = [lineBreak, last])
    (tokens : (Token.scan (.ofText name source)).tokens = before ++ ending)
    (scan : Token.scan (.ofText name (source ++ "\n" ++ n))
      = ⟨before ++ lineBreak :: [⟨.identifier n, span, false⟩, stop], .empty⟩) :
    ∃ span, parse name (source ++ "\n" ++ n) known
      = .ok (nodes ++ [⟨bareName (State.sees n s'.scopes) n, span⟩]) := by
  let file := SourceFile.ofText name (source ++ "\n" ++ n)
  let c := nameLine (.ofFile (.ofText name source)) lineBreak ⟨.identifier n, span, false⟩ stop
    isBreak rfl last isEnd ending ends
  have line : Continues c
      (.start (.ofText name source) (Token.scan (.ofText name source)).tokens known)
      (.start file (Token.scan file).tokens known) := by
    refine ⟨⟨before, ?_, ?_⟩, rfl, rfl, rfl, rfl⟩
    · exact (remaining_start (.ofFile (.ofText name source)) _ known).trans tokens
    · exact (remaining_start (.ofFile file) _ known).trans (congrArg Token.Scanned.tokens scan)
  obtain ⟨span', t', ht, clean'⟩ :=
    run_program_line (c := c) rfl rfl isEnd' (start_in ..) line hr clean
  exact ⟨span', parse_of_run (congrArg Token.Scanned.log scan) ht clean'⟩

/-- The text is blank, and the name all there is. -/
theorem parse_line_of_blank (tokens : (Token.scan (.ofText name source)).tokens = [last])
    (scan : Token.scan (.ofText name (source ++ "\n" ++ n))
      = ⟨[⟨.identifier n, span, false⟩, stop], .empty⟩) :
    ∃ span, parse name (source ++ "\n" ++ n) known
      = .ok (nodes ++ [⟨bareName (State.sees n s'.scopes) n, span⟩]) := by
  rw [tokens] at hr
  have nothing := run_program_of_body (s := .start (.ofText name source) [last] known)
    (run_repeating (run_bodyRound_end [] isEnd)) isEnd
  cases nothing.symm.trans hr
  obtain ⟨span', t', ht, clean'⟩ := run_program_name (s := .start
    (.ofText name (source ++ "\n" ++ n)) [⟨.identifier n, span, false⟩, stop] known)
    rfl rfl isEnd' rfl
  refine ⟨span', parse_of_run (congrArg Token.Scanned.log scan) ?_ clean'⟩
  rw [scan]
  exact ht

end Line

/-- **A bare name in a line after a text.** -/
theorem parse_line (h : parse name source known = .ok nodes)
    (ends : endsLine (.ofText name source) = true) (hn : Token.isName n = true) :
    ∃ span, parse name (source ++ "\n" ++ n) known
      = .ok (nodes ++ [⟨bareName (State.sees n (scopesAfter name source known)) n, span⟩]) := by
  obtain ⟨scanned, s', hr, clean⟩ := run_program_of_ok h
  obtain ⟨before, last, lineBreak, stop, span, ht, isEnd, isBreak, space, isEnd', scan⟩ :=
    scan_line scanned hn
  rw [scopesAfter, hr]
  by_cases keeps : Token.dropsNewline (Token.lastKind none before) = false
  · rw [keeps, if_neg Bool.false_ne_true, List.append_assoc] at scan
    exact parse_line_of_tokens hr clean isEnd isEnd' isBreak (.inl ⟨rfl, space⟩) ht scan
  rw [eq_true_of_ne_false keeps, if_pos rfl] at scan
  rcases List.eq_nil_or_concat before with rfl | ⟨others, final, rfl⟩
  · exact parse_line_of_blank hr clean isEnd isEnd' ht scan
  · -- the line break is dropped after another one
    have last_kind : Token.lastKind none (others.concat final) = some final.kind := by
      simp [Token.lastKind]
    have newline : final.kind = .newline := by
      unfold endsLine at ends
      rw [ht, List.dropLast_concat, last_kind] at ends
      rw [last_kind] at keeps
      cases hk : final.kind <;> simp_all [Token.dropsNewline, Token.Kind.continuesLine]
    rw [List.concat_eq_append, List.append_assoc] at ht scan
    exact parse_line_of_tokens hr clean isEnd isEnd' newline (.inr rfl) ht scan

end Parse

end ScriptCompiler
