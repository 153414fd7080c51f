import ScriptCompiler.Proofs.Nesting.Routines
import ScriptCompiler.Proofs.Parse.Walks

/-!
# Forward in a stream

The functions of the parser stay in the stream of tokens, and never go back. One that begins the
node that it answers has passed a token, in whatever state it was called: the words and brackets at
the start of a construct need not be looked at for this, since an expression, a name or the end of
the construct has to come behind them.
-/

namespace ScriptCompiler.Parse

open Walk (Takes)
open Operators (upTo)

variable {stream : Stream} {α β : Type} {s s' : State}

/-! ## Forward in a stream -/

theorem State.rest_le (h : s'.remaining <:+ s.remaining) : s'.rest.length ≤ s.rest.length := by
  have := h.length_le
  rw [length_remaining, length_remaining] at this
  omega

/-- In the stream, and never back. -/
def Stream.forward (stream : Stream) : Walk where
  Stands s := s.In stream
  Leads s s' := s'.remaining <:+ s.remaining
  same h remaining _ := by
    unfold State.In
    rw [remaining]
    exact ⟨h, List.suffix_refl _⟩
  next {s} h := ⟨s.suffix_next.trans h, s.suffix_next⟩
  trans h h' := h'.trans h

section Forward

variable {p : Parser α} {f : α → Parser β} {post : α → State → Prop}

theorem Goes.takes (h : Goes stream 0 p s post) : stream.forward.Takes p s post := by
  intro hs
  obtain ⟨moves, -, -, gives⟩ := h hs (Nat.zero_le _)
  exact ⟨moves.into hs, moves.suffix, gives⟩

/-- The first part passes a token. -/
theorem ahead_first (hp : stream.forward.Takes p s (Ahead s))
    (hf : ∀ a s', stream.forward.Takes (f a) s' Anywhere) :
    stream.forward.Takes (p >>= f) s (Ahead s) := by
  refine hp.bind fun a s' _ _ lt => (hf a s').mono fun _ _ _ onward _ => ?_
  exact Nat.lt_of_le_of_lt (State.rest_le onward) lt

/-- The second part passes a token. -/
theorem ahead_last (hp : stream.forward.Takes p s Anywhere)
    (hf : ∀ a s', stream.forward.Takes (f a) s' (Ahead s')) :
    stream.forward.Takes (p >>= f) s (Ahead s) := by
  refine hp.bind fun a s' _ onward _ => (hf a s').mono fun _ _ _ _ lt => ?_
  exact Nat.lt_of_lt_of_le lt (State.rest_le onward)

theorem ahead_advance (other : s.current.kind ≠ .endOfInput) :
    stream.forward.Takes advance s (Ahead s) :=
  .from_ fun hs => Takes.advance.mono fun _ _ _ _ passed => passed ▸ hs.lt_next other

theorem ahead_expect {k : Token.Kind} (other : k ≠ .endOfInput) :
    stream.forward.Takes (expect k) s (Ahead s) := by
  refine .from_ fun hs => Takes.expect.mono ?_
  rintro _ _ - - ⟨kind, rfl⟩
  exact hs.lt_next (kind ▸ other)

/-- What a construct ends with. -/
theorem ahead_end {make : Span → α} :
    stream.forward.Takes (do expect (.keyword .endKw); return make (← previousSpan)) s (Ahead s) :=
  ahead_first (ahead_expect nofun) fun _ _ => .previousSpan (.pure trivial)

end Forward

/-! ## The functions go forward -/

section Functions

variable {levels : Nat}

theorem forward_expression : stream.forward.Takes (expression levels) s (Ahead s) :=
  (goes_expression levels s).takes

theorem forward_body (terminators : List Token.Kind) :
    stream.forward.Takes (body (expression levels) terminators) s Anywhere :=
  (keeps_body (goes_expression levels) terminators).takes

theorem forward_assignTo (target : Target) (current : Node) (how : Assignment) (start : Span) :
    stream.forward.Takes (assignTo (expression levels) target current how start) s (Ahead s) := by
  unfold assignTo
  refine ahead_last Takes.skipNewlines fun _ _ => ?_
  exact ahead_first forward_expression fun _ _ => .previousSpan (.pure trivial)

theorem forward_blockRest (close : Token.Kind) :
    stream.forward.Takes (blockRest (expression levels) close) s Anywhere := by
  unfold blockRest
  refine .withDoBlocks (.inScope (Takes.skipNewlines.bind fun _ _ _ _ _ => ?_))
  refine (Takes.eats _).bind fun bars _ _ _ _ => ?_
  extract_lets jp jp'
  have rest (names : List Param) (s : State) : stream.forward.Takes (jp names) s Anywhere :=
    (forward_body _).bind fun _ _ _ _ _ => Takes.expect.bind fun _ _ _ _ _ => .pure trivial
  have bar (names : List Param) (s : State) : stream.forward.Takes (jp' names) s Anywhere :=
    Takes.expect.bind fun _ _ _ _ _ => rest names _
  refine .ite (.at_ (.ite (bar [] _) ?_)) ?_
  · exact (Walk.takes_params _).bind fun names _ _ _ _ => bar names _
  · exact (Takes.discardEat _).bind fun _ _ _ _ _ => rest [] _

theorem forward_elseClause :
    stream.forward.Takes (elseClause (expression levels)) s Anywhere :=
  (keeps_elseClause (goes_expression levels)).takes

theorem forward_branch : stream.forward.Takes (branch (expression levels)) s (Ahead s) :=
  (goes_branch (goes_expression levels)).takes

theorem forward_ifBlock : stream.forward.Takes (ifBlock (expression levels)) s (Ahead s) := by
  unfold ifBlock
  refine .currentSpan (ahead_last Takes.advance.any fun _ _ => ?_)
  refine ahead_first forward_branch fun first _ => ?_
  refine .bind (Q := Anywhere) ?_ fun _ _ _ _ _ => ?_
  · refine .repeating (I := Anywhere) (fun done _ _ => ?_) trivial
    refine .ifEat (fun _ => ?_) fun _ => .pure trivial
    exact forward_branch.bind fun _ _ _ _ _ => .pure trivial
  · exact forward_elseClause.bind fun _ _ _ _ _ => ahead_end.any

theorem forward_unlessBlock :
    stream.forward.Takes (unlessBlock (expression levels)) s (Ahead s) := by
  unfold unlessBlock
  refine .currentSpan (ahead_last Takes.advance.any fun _ _ => ?_)
  refine ahead_first forward_expression fun _ _ => Walk.takes_skipThen.bind fun _ _ _ _ _ => ?_
  refine (forward_body _).bind fun _ _ _ _ _ => forward_elseClause.bind fun _ _ _ _ _ => ?_
  exact Takes.expect.bind fun _ _ _ _ _ => .previousSpan (.pure trivial)

theorem forward_loopBlock (loop : LoopKind) :
    stream.forward.Takes (loopBlock (expression levels) loop) s (Ahead s) := by
  unfold loopBlock
  refine .currentSpan (ahead_last Takes.advance.any fun _ _ => ?_)
  refine ahead_first (.withDoBlocks forward_expression) fun _ _ => ?_
  refine (Takes.discardEat _).bind fun _ _ _ _ _ => (forward_body _).bind fun _ _ _ _ _ => ?_
  exact ahead_end.any

theorem forward_rescueClause :
    stream.forward.Takes (rescueClause (expression levels)) s Anywhere := by
  unfold rescueClause
  refine .ifEat (fun _ => .kind ?_) fun _ => .pure trivial
  extract_lets jp jp'
  have handler (variable_ : Option String) (s : State) :
      stream.forward.Takes (jp variable_) s Anywhere := by
    refine (forward_body _).bind fun _ _ _ _ _ => ?_
    exact .ifAt (fun _ => .currentSpan .unsupportedThen) fun _ => .pure trivial
  have rest (s : State) : stream.forward.Takes (jp' ()) s Anywhere := by
    refine .ifEat (fun _ => ?_) fun _ => handler none _
    refine Takes.expectIdentifier.bind fun name _ _ _ _ => ?_
    exact (Takes.declare name).bind fun _ _ _ _ _ => handler (some name) _
  split
  · exact .currentSpan .unsupportedThen
  · exact rest _

theorem forward_rescueTail (protected_ : Body) :
    stream.forward.Takes (rescueTail (expression levels) protected_) s Anywhere := by
  unfold rescueTail
  refine forward_rescueClause.bind fun clause _ _ _ _ => .currentSpan ?_
  refine (Takes.eats _).bind fun others _ _ _ _ => ?_
  extract_lets jp
  have rest (otherwise : Option Body) (s : State) :
      stream.forward.Takes (jp otherwise) s Anywhere := by
    refine .ifAt (fun _ => .currentSpan .unsupportedThen) fun _ => ?_
    cases clause with
    | some clause => exact .pure trivial
    | none => exact .ite .rejectAs (.pure trivial)
  exact .ite ((forward_body _).bind fun _ _ _ _ _ => rest _ _) (rest none _)

theorem forward_beginBlock :
    stream.forward.Takes (beginBlock (expression levels)) s (Ahead s) := by
  unfold beginBlock
  refine .currentSpan (ahead_last Takes.advance.any fun _ _ => ?_)
  refine ahead_last (forward_body _) fun _ _ => ahead_last (forward_rescueTail _) fun _ _ => ?_
  exact ahead_end

theorem forward_namespaceBody :
    stream.forward.Takes (namespaceBody (expression levels)) s Anywhere :=
  (keeps_namespaceBody (goes_expression levels)).takes

theorem ahead_expectConstant : stream.forward.Takes expectConstant s (Ahead s) := by
  refine .from_ fun hs => Takes.expectConstant.mono ?_
  rintro _ _ - - ⟨other, rfl⟩
  exact hs.lt_next other

theorem forward_classBlock :
    stream.forward.Takes (classBlock (expression levels)) s (Ahead s) := by
  unfold classBlock
  refine .currentSpan (ahead_last Takes.advance.any fun _ _ => ?_)
  refine .ifAt (fun _ => .currentSpan .unsupportedThen) fun _ => ?_
  refine ahead_first ahead_expectConstant fun name _ => ?_
  refine Walk.takes_rejectScoped.bind fun _ _ _ _ _ => ?_
  extract_lets jp
  have rest (superclass : Option String) (s : State) :
      stream.forward.Takes (jp superclass) s Anywhere :=
    forward_namespaceBody.bind fun _ _ _ _ _ => .previousSpan (.pure trivial)
  refine .ifEat (fun _ => ?_) fun _ => rest none _
  refine Takes.expectConstant.bind fun superclass _ _ _ _ => ?_
  exact Walk.takes_rejectScoped.bind fun _ _ _ _ _ => rest (some superclass) _

theorem forward_moduleBlock :
    stream.forward.Takes (moduleBlock (expression levels)) s (Ahead s) := by
  unfold moduleBlock
  refine .currentSpan (ahead_last Takes.advance.any fun _ _ => ?_)
  refine ahead_first ahead_expectConstant fun name _ => ?_
  refine Walk.takes_rejectScoped.bind fun _ _ _ _ _ => ?_
  exact forward_namespaceBody.bind fun _ _ _ _ _ => .previousSpan (.pure trivial)

theorem forward_methodRest (start : Span) (owner : Option String) (name : String) :
    stream.forward.Takes (methodRest (expression levels) start owner name) s (Ahead s) := by
  unfold methodRest
  refine ahead_last Walk.takes_methodParams fun names _ => ahead_last (forward_body _) ?_
  intro statements s
  refine .at_ (.at_ ?_)
  extract_lets jp
  have rest (statements : Body) (s : State) : stream.forward.Takes (jp statements) s (Ahead s) :=
    ahead_end
  refine .ite ?_ (rest statements _)
  exact ahead_last (forward_rescueTail _) fun _ _ => .previousSpan (rest _ _)

theorem forward_methodBlock :
    stream.forward.Takes (methodBlock (expression levels)) s (Ahead s) := by
  unfold methodBlock
  refine .currentSpan (ahead_last Takes.advance.any fun _ _ => .kind (.followingKind ?_))
  extract_lets owner jp
  have rest (s : State) : stream.forward.Takes (jp ()) s (Ahead s) :=
    ahead_last Walk.takes_definedName fun _ _ => .inScope (forward_methodRest _ _ _)
  refine .ite ?_ (rest _)
  exact ahead_last Takes.advance.any fun _ _ => ahead_last Takes.advance.any fun _ _ => rest _

theorem goes_upTo (rank : Nat) (s : State) :
    Goes stream 0 (upTo (expression levels) rank) s (Ahead s) := by
  induction rank generalizing s with
  | zero => exact goes_unary (goes_expression levels)
  | succ rank ih => exact goes_leftGrouped _ ih

end Functions

namespace Routine

/-- The function answers a node, and is not called to go on with one. -/
def begins : Routine → Bool
  | statement | expression | assignment | assignTo _ _ _ _ | logical | grouped _ | unary | primary
  | argument | ifBlock | unlessBlock | loopBlock _ | beginBlock | classBlock | moduleBlock
  | methodBlock | methodRest _ _ _ => true
  | _ => false

/-- The function answers a node that begins before the place where it is called. -/
def goesOn : Routine → Bool
  | postfixOf _ | call _ _ => true
  | _ => false

end Routine

/-- **No function goes back**, and where a function begins the node that it answers, it has passed a
token. -/
theorem forward_routine (levels : Nat) (r : Routine) :
    stream.forward.Takes (parser levels r) s fun _ s' =>
      r.begins = true → s'.rest.length < s.rest.length := by
  have node {γ : Type} {p : Parser γ} {begins : Bool} (h : stream.forward.Takes p s (Ahead s)) :
      stream.forward.Takes p s fun _ s' => begins = true → s'.rest.length < s.rest.length :=
    h.mono fun _ _ _ _ lt _ => lt
  have other {γ : Type} {p : Parser γ} {post : γ → State → Prop}
      (h : stream.forward.Takes p s post) :
      stream.forward.Takes p s fun _ s' => false = true → s'.rest.length < s.rest.length :=
    h.mono fun _ _ _ _ _ => nofun
  have he (s : State) : Goes stream 0 (expression levels) s (Ahead s) := goes_expression levels s
  cases r with
  | program =>
    have ends : stream.forward.Takes (parser levels .program) s Anywhere := by
      refine (forward_body []).bind fun _ _ _ _ _ => .at_ (.isFull ?_)
      exact .ite ((Takes.unexpected _).bind fun _ _ _ _ _ => .pure trivial) (.pure trivial)
    exact other ends
  | body terminators => exact other (forward_body terminators)
  | statement => exact node (goes_statement he).takes
  | expression => exact node (he s).takes
  | assignment => exact node (goes_assignment he).takes
  | assignTo target current how start => exact node (forward_assignTo target current how start)
  | logical => exact node (goes_logical he).takes
  | grouped rank => exact node (goes_upTo rank s).takes
  | unary => exact node (goes_unary he).takes
  | postfixOf operand => exact other (keeps_postfixOf he operand).takes
  | primary => exact node (goes_primary he).takes
  | call receiver name => exact other (keeps_call he receiver name).takes
  | commandArgs => exact other (goes_commandArgs he).takes
  | bracketedArgs close => exact other (keeps_bracketedArgs he).takes
  | argument => exact node (goes_argument he).takes
  | blockRest close => exact other (forward_blockRest close)
  | ifBlock => exact node forward_ifBlock
  | branch => exact other forward_branch
  | unlessBlock => exact node forward_unlessBlock
  | loopBlock loop => exact node (forward_loopBlock loop)
  | beginBlock => exact node forward_beginBlock
  | rescueTail protected_ => exact other (forward_rescueTail protected_)
  | classBlock => exact node forward_classBlock
  | moduleBlock => exact node forward_moduleBlock
  | namespaceBody => exact other forward_namespaceBody
  | methodBlock => exact node forward_methodBlock
  | methodRest start owner name => exact node (forward_methodRest start owner name)
  | params close => exact other (Walk.takes_params close)

end ScriptCompiler.Parse
