import Mathlib.Data.List.Induction
import ScriptCompiler.Parse.State

/-!
# Names and scopes in the order of a text

Who reads a text from its start meets identifiers, and enters and leaves scopes. What an identifier
is, the read of a local variable or a call, depends on what was met before it: on the names that
were bound, and on which of the scopes between a binding and the identifier are still open. The
scopes that a parser keeps show just that.
-/

namespace ScriptCompiler.Resolution

open Parse

/-- An identifier of a text. -/
structure Mention where
  name : String
  span : Span
  /-- A parenthesis follows at once and opens arguments. -/
  applied : Bool
  deriving DecidableEq

/-- What an identifier is. -/
inductive Role where
  /-- A local variable is read. -/
  | read
  /-- A message is sent without a receiver. -/
  | called
  /-- A local variable is bound. -/
  | bound
  /-- A definition or its owner has this name, or a message to a receiver. -/
  | named
  deriving DecidableEq

/-- What is met in a text. -/
inductive Event where
  | mention (m : Mention) (role : Role)
  /-- A word that comes before a condition or before the name of a method. -/
  | word
  /-- A point or a scope mark, which comes before a name. -/
  | point
  | enter (closed : Bool)
  | leave

/-! ## What the tokens show -/

/-- A part of what is met that is a token. -/
inductive Mark where
  | mention (m : Mention)
  | word
  | point
  deriving DecidableEq

/-- What a token of the text shows of an event. The ends of scopes are no tokens. -/
def Event.mark? : Event → Option Mark
  | .mention m _ => some (.mention m)
  | .word => some .word
  | .point => some .point
  | .enter _ | .leave => none

/-- The word comes before a condition or before the name of a method. -/
def isLeading : Keyword → Bool
  | .ifKw | .elsifKw | .unlessKw | .whileKw | .untilKw | .defKw => true
  | _ => false

/-- The tokens start with a parenthesis that stands right after what is before them. -/
def opensArgs : List Token → Bool
  | [] => false
  | t :: _ => decide (t.kind = .punct .openParen) && !t.spaceBefore

/-- What a token shows, in front of the tokens after it. -/
def mark? (t : Token) (after : List Token) : Option Mark :=
  match t.kind with
  | .identifier name => some (.mention ⟨name, t.span, opensArgs after⟩)
  | .keyword word => if isLeading word then some .word else none
  | .punct .dot | .punct .scope => some .point
  | _ => none

/-- What the tokens of a text show, in their order. -/
def marks : List Token → List Mark
  | [] => []
  | t :: after => (mark? t after).toList ++ marks after

/-! ## Open scopes -/

/-- The scopes that are entered and not left, innermost first, each of them closed or not. Only a
scope can be left that is one of them. -/
def Event.nest (stack : List Bool) : Event → Option (List Bool)
  | .enter closed => some (closed :: stack)
  | .leave =>
    match stack with
    | [] => none
    | _ :: stack => some stack
  | _ => some stack

/-- The scopes that were entered and not left, if no other scope was left. -/
def opened (events : List Event) : Option (List Bool) :=
  events.foldlM Event.nest []

/-- Every scope that is entered is left, and no other. -/
def Nested (events : List Event) : Prop :=
  ∀ stack, events.foldlM Event.nest stack = some stack

/-- What is bound where these events start can be seen where they end: its scope was not left, and
no closed scope was entered in between that is still open. -/
def Reaches (events : List Event) : Prop :=
  ∃ stack, opened events = some stack ∧ true ∉ stack

/-- After these events the name can be seen: it is known from the start, or it was bound, in a scope
that reaches. -/
def Visible (known : List String) (before : List Event) (name : String) : Prop :=
  name ∈ known ∧ Reaches before
    ∨ ∃ m after, .mention m .bound :: after <:+ before ∧ m.name = name ∧ Reaches after

section Nesting

variable {es es' : List Event} {e : Event} {stack : List Bool}

theorem Nested.nil : Nested [] :=
  fun _ => rfl

theorem Nested.append (h : Nested es) (h' : Nested es') : Nested (es ++ es') := by
  intro stack
  rw [List.foldlM_append, h]
  exact h' stack

theorem Nested.scope (h : Nested es) (closed : Bool) :
    Nested (.enter closed :: (es ++ [.leave])) := by
  intro stack
  rw [List.foldlM_cons]
  show List.foldlM Event.nest (closed :: stack) (es ++ [.leave]) = some stack
  rw [List.foldlM_append, h]
  rfl

/-- Up to every place of nested events the open scopes are known. -/
theorem Nested.exists_opened (h : Nested (es ++ es')) : ∃ stack, opened es = some stack := by
  have all := h []
  rw [List.foldlM_append] at all
  cases ho : es.foldlM Event.nest [] with
  | none =>
    rw [ho] at all
    cases all
  | some stack => exact ⟨stack, ho⟩

theorem opened_concat (es : List Event) (e : Event) :
    opened (es ++ [e]) = (opened es).bind fun stack => e.nest stack := by
  unfold opened
  rw [List.foldlM_append]
  cases List.foldlM Event.nest [] es with
  | none => rfl
  | some stack => exact bind_pure (e.nest stack)

end Nesting

/-! ## What scopes show -/

/-- A name is bound in the innermost scope. -/
def declare (name : String) : List Scope → List Scope
  | [] => []
  | scope :: outer => { scope with names := name :: scope.names } :: outer

/-- The scopes after an event. -/
def Event.apply (scopes : List Scope) : Event → List Scope
  | .mention m .bound => declare m.name scopes
  | .enter closed => ⟨[], closed⟩ :: scopes
  | .leave => scopes.tail
  | _ => scopes

/-- The scopes show a local variable of this name, and nothing says that it is a message. -/
def Mention.IsRead (m : Mention) (scopes : List Scope) : Prop :=
  m.applied = false ∧ State.sees m.name scopes = true

/-- What is met agrees with the scopes. -/
def Event.Fits (scopes : List Scope) : Event → Prop
  | .mention m .read => m.IsRead scopes
  | .mention m .called => ¬ m.IsRead scopes
  | _ => True

/-- Each of the events agrees with the scopes that the ones before it left. -/
def Resolved : List Scope → List Event → Prop
  | _, [] => True
  | scopes, e :: es => e.Fits scopes ∧ Resolved (e.apply scopes) es

theorem Resolved.append {scopes : List Scope} {es es' : List Event} (h : Resolved scopes es)
    (h' : Resolved (es.foldl Event.apply scopes) es') : Resolved scopes (es ++ es') := by
  induction es generalizing scopes with
  | nil => exact h'
  | cons e es ih => exact ⟨h.1, ih h.2 h'⟩

theorem Resolved.fits {scopes : List Scope} {before after : List Event} {e : Event}
    (h : Resolved scopes (before ++ e :: after)) : e.Fits (before.foldl Event.apply scopes) := by
  induction before generalizing scopes with
  | nil => exact h.1
  | cons e' before ih => exact ih h.2

section Scopes

variable {known : List String} {es : List Event} {e : Event} {stack : List Bool} {name : String}
  {depth : Nat}

theorem length_declare (name : String) (scopes : List Scope) :
    (declare name scopes).length = scopes.length := by
  cases scopes <;> rfl

theorem drop_declare (name : String) (scopes : List Scope) (depth : Nat) :
    (declare name scopes).drop (depth + 1) = scopes.drop (depth + 1) := by
  cases scopes <;> rfl

theorem sees_declare (name name' : String) {scopes : List Scope} (h : scopes ≠ []) :
    State.sees name (declare name' scopes) = true
      ↔ name' = name ∨ State.sees name scopes = true := by
  cases scopes with
  | nil => exact absurd rfl h
  | cons scope outer =>
    simp only [declare, State.sees, Bool.or_eq_true, List.contains_eq_mem, decide_eq_true_eq,
      List.mem_cons, or_assoc, eq_comm (a := name)]

/-- What is bound where these events start can be seen so many scopes outside of where they end. -/
def ReachesOut (depth : Nat) (events : List Event) : Prop :=
  ∃ stack, opened events = some stack ∧ depth ≤ stack.length ∧ true ∉ stack.drop depth

theorem reachesOut_zero : ReachesOut 0 es ↔ Reaches es := by
  simp [ReachesOut, Reaches]

theorem reachesOut_nil : ReachesOut depth [] ↔ depth = 0 := by
  simp [ReachesOut, opened]

theorem reachesOut_enter_zero {closed : Bool} :
    ReachesOut 0 (es ++ [.enter closed]) ↔ closed = false ∧ ReachesOut 0 es := by
  simp only [ReachesOut, opened_concat, Event.nest]
  cases opened es <;> cases closed <;> simp

theorem reachesOut_enter_succ {closed : Bool} :
    ReachesOut (depth + 1) (es ++ [.enter closed]) ↔ ReachesOut depth es := by
  simp only [ReachesOut, opened_concat, Event.nest]
  cases opened es <;> simp

theorem reachesOut_leave : ReachesOut depth (es ++ [.leave]) ↔ ReachesOut (depth + 1) es := by
  simp only [ReachesOut, opened_concat, Event.nest]
  cases opened es with
  | none => simp
  | some stack => cases stack <;> simp

/-- The same for a name that is bound: it can be seen so many scopes outside. -/
def VisibleOut (depth : Nat) (known : List String) (before : List Event) (name : String) : Prop :=
  name ∈ known ∧ ReachesOut depth before
    ∨ ∃ m after, .mention m .bound :: after <:+ before ∧ m.name = name ∧ ReachesOut depth after

theorem visibleOut_zero : VisibleOut 0 known es name ↔ Visible known es name := by
  simp only [VisibleOut, Visible, reachesOut_zero]

/-- The last event is the last binding, or comes after the same bindings as before. -/
theorem bound_suffix_concat {m : Mention} {after : List Event} :
    .mention m .bound :: after <:+ es ++ [e]
      ↔ after = [] ∧ e = .mention m .bound
        ∨ ∃ after', after = after' ++ [e] ∧ .mention m .bound :: after' <:+ es := by
  rw [List.suffix_concat_iff]
  constructor
  · rintro (h | ⟨t, ht, hs⟩)
    · cases h
    · cases t with
      | nil =>
        obtain ⟨rfl, rfl⟩ := List.cons.inj ht
        exact .inl ⟨rfl, rfl⟩
      | cons e' t =>
        obtain ⟨rfl, rfl⟩ := List.cons.inj ht
        exact .inr ⟨t, rfl, hs⟩
  · rintro (⟨rfl, rfl⟩ | ⟨after', rfl, hs⟩)
    · exact .inr ⟨[], rfl, List.nil_suffix⟩
    · exact .inr ⟨_, rfl, hs⟩

/-- One more event that binds nothing: how far one sees depends on what reaches. -/
theorem visibleOut_concat {depth' : Nat} {c : Prop} (other : ∀ m, e ≠ .mention m .bound)
    (reaches : ∀ es, ReachesOut depth (es ++ [e]) ↔ c ∧ ReachesOut depth' es) :
    VisibleOut depth known (es ++ [e]) name ↔ c ∧ VisibleOut depth' known es name := by
  unfold VisibleOut
  simp only [bound_suffix_concat, other, and_false, false_or, reaches]
  constructor
  · rintro (⟨hk, hc, hr⟩ | ⟨m, _, ⟨after, rfl, hs⟩, hm, hr⟩)
    · exact ⟨hc, .inl ⟨hk, hr⟩⟩
    · rw [reaches] at hr
      exact ⟨hr.1, .inr ⟨m, after, hs, hm, hr.2⟩⟩
  · rintro ⟨hc, ⟨hk, hr⟩ | ⟨m, after, hs, hm, hr⟩⟩
    · exact .inl ⟨hk, hc, hr⟩
    · exact .inr ⟨m, _, ⟨after, rfl, hs⟩, hm, (reaches after).mpr ⟨hc, hr⟩⟩

/-- One more event that only moves the scopes. -/
theorem visibleOut_moves {depth' : Nat} (other : ∀ m, e ≠ .mention m .bound)
    (reaches : ∀ es, ReachesOut depth (es ++ [e]) ↔ ReachesOut depth' es) :
    VisibleOut depth known (es ++ [e]) name ↔ VisibleOut depth' known es name := by
  have always (es : List Event) : ReachesOut depth (es ++ [e]) ↔ True ∧ ReachesOut depth' es := by
    rw [reaches, true_and]
  rw [visibleOut_concat other always, true_and]

/-- An event that no scope begins or ends with changes nothing of what reaches. -/
theorem reachesOut_quiet (quiet : ∀ stack, e.nest stack = some stack) (es : List Event) :
    ReachesOut depth (es ++ [e]) ↔ ReachesOut depth es := by
  simp only [ReachesOut, opened_concat, quiet, Option.bind_fun_some]

/-- A binding is one more name, in the scope that it is bound in. -/
theorem visibleOut_bound {m : Mention} :
    VisibleOut depth known (es ++ [.mention m .bound]) name
      ↔ depth = 0 ∧ m.name = name ∨ VisibleOut depth known es name := by
  have reaches (es : List Event) :
      ReachesOut depth (es ++ [.mention m .bound]) ↔ ReachesOut depth es :=
    reachesOut_quiet (fun _ => rfl) es
  unfold VisibleOut
  simp only [bound_suffix_concat, reaches]
  constructor
  · rintro (h | ⟨m', _, ⟨rfl, same⟩ | ⟨after, rfl, hs⟩, hm, hr⟩)
    · exact .inr (.inl h)
    · cases same
      exact .inl ⟨reachesOut_nil.mp hr, hm⟩
    · exact .inr (.inr ⟨m', after, hs, hm, (reaches after).mp hr⟩)
  · rintro (⟨rfl, hm⟩ | h | ⟨m', after, hs, hm, hr⟩)
    · exact .inr ⟨m, [], .inl ⟨rfl, rfl⟩, hm, reachesOut_nil.mpr rfl⟩
    · exact .inl h
    · exact .inr ⟨m', _, .inr ⟨after, rfl, hs⟩, hm, (reaches after).mpr hr⟩

/-! ## The scopes of a parser -/

/-- There is a scope for each one that was entered and not left, and the outermost one. -/
theorem length_foldl_apply (scopes : List Scope) (h : opened es = some stack) :
    (es.foldl Event.apply scopes).length = stack.length + scopes.length := by
  induction es using List.reverseRecOn generalizing stack with
  | nil =>
    cases h
    exact (Nat.zero_add _).symm
  | append_singleton es e ih =>
    rw [opened_concat] at h
    obtain ⟨stack', before, last⟩ := Option.bind_eq_some_iff.mp h
    rw [List.foldl_append, List.foldl_cons, List.foldl_nil]
    have inner := ih before
    cases e with
    | mention m role =>
      cases last
      cases role <;> simp only [Event.apply, length_declare, inner]
    | word | point =>
      cases last
      exact inner
    | enter closed =>
      cases last
      simp only [Event.apply, List.length_cons, inner]
      omega
    | leave =>
      cases stack' with
      | nil => cases last
      | cons c stack' =>
        cases last
        simp only [Event.apply, List.length_tail, inner, List.length_cons]
        omega

/-- **What scopes show.** A local variable can be seen in the scopes that events leave, from the
innermost one or from one around it, if it is visible after the events. -/
theorem sees_drop_foldl_apply (h : opened es = some stack) (le : depth ≤ stack.length) :
    State.sees name ((es.foldl Event.apply [⟨known, true⟩]).drop depth) = true
      ↔ VisibleOut depth known es name := by
  -- on the events from the last one back, for every scope that is open behind them
  induction es using List.reverseRecOn generalizing stack depth with
  | nil =>
    cases h
    cases Nat.le_zero.mp le
    simp [State.sees, VisibleOut, reachesOut_nil]
  | append_singleton es e ih =>
    rw [opened_concat] at h
    obtain ⟨stack', before, last⟩ := Option.bind_eq_some_iff.mp h
    have length := length_foldl_apply [⟨known, true⟩] before
    rw [List.foldl_append, List.foldl_cons, List.foldl_nil]
    have unchanged (other : ∀ m, e ≠ .mention m .bound)
        (quiet : ∀ stack, e.nest stack = some stack)
        (same : ∀ scopes, Event.apply scopes e = scopes) :
        State.sees name ((Event.apply (es.foldl Event.apply [⟨known, true⟩]) e).drop depth) = true
          ↔ VisibleOut depth known (es ++ [e]) name := by
      rw [quiet] at last
      cases last
      rw [visibleOut_moves other (reachesOut_quiet quiet), same]
      exact ih before le
    cases e with
    | mention m role =>
      cases role with
      | bound =>
        cases last
        rw [visibleOut_bound, Event.apply]
        cases depth with
        | zero =>
          have some_ : es.foldl Event.apply [⟨known, true⟩] ≠ [] := by
            rw [← List.length_pos_iff, length]
            exact Nat.succ_pos _
          rw [List.drop_zero, sees_declare _ _ some_, ← ih before (Nat.zero_le _), List.drop_zero]
          simp
        | succ depth =>
          rw [drop_declare, ih before le]
          simp
      | read | called | named => exact unchanged (by simp) (fun _ => rfl) fun _ => rfl
    | word | point => exact unchanged (fun _ => Event.noConfusion) (fun _ => rfl) fun _ => rfl
    | enter closed =>
      cases last
      have other (m : Mention) : Event.enter closed ≠ .mention m .bound := Event.noConfusion
      cases depth with
      | zero =>
        rw [visibleOut_concat other fun _ => reachesOut_enter_zero, ← ih before (Nat.zero_le _)]
        simp [Event.apply, State.sees]
      | succ depth =>
        rw [visibleOut_moves other fun _ => reachesOut_enter_succ,
          ← ih before (Nat.le_of_succ_le_succ le)]
        rfl
    | leave =>
      cases stack' with
      | nil => cases last
      | cons c stack' =>
        cases last
        rw [visibleOut_moves (fun _ => Event.noConfusion) fun _ => reachesOut_leave,
          ← ih before (Nat.succ_le_succ le), Event.apply, List.drop_tail]

/-- **Reads and calls.** Where events agree with the scopes they leave, an identifier that is read
or called is read just if it is visible and no parenthesis follows at once. -/
theorem Resolved.read_iff {before after : List Event} {m : Mention} {role : Role}
    (h : Resolved [⟨known, true⟩] (before ++ .mention m role :: after))
    (nested : Nested (before ++ .mention m role :: after)) (use : role = .read ∨ role = .called) :
    role = .read ↔ m.applied = false ∧ Visible known before m.name := by
  obtain ⟨stack, ho⟩ := nested.exists_opened
  have sees : m.IsRead (before.foldl Event.apply [⟨known, true⟩])
      ↔ m.applied = false ∧ Visible known before m.name := by
    rw [← visibleOut_zero, ← sees_drop_foldl_apply ho (Nat.zero_le _), List.drop_zero]
    rfl
  have fits := h.fits
  rw [← sees]
  rcases use with rfl | rfl
  · exact iff_of_true rfl fits
  · exact iff_of_false nofun fits

end Scopes

end ScriptCompiler.Resolution
