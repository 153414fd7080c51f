import ScriptCompiler.Proofs.Parse.Programs

/-!
# Streams that are cut short

A stream of tokens is cut somewhere and the end of the text put in the place of what came after the
cut. Two parsers, in front of the whole stream and of the shortened one, go together while they
stand at the same token. The last token before the cut may be a string or a symbol that is itself
cut, so that it says something else; nothing depends on that before it is passed.
-/

namespace ScriptCompiler.Parse

/-! ## The end of a shortened stream -/

/-- The end of a text. -/
structure Stop where
  file : SourceFile
  token : Token
  isEnd : token.kind = .endOfInput

/-- The faults are all that the text stops here. -/
def Stop.Only (e : Stop) (log : Log) : Prop :=
  ∃ reports : List Report, (∀ r ∈ reports, r.code = .unexpectedEnd ∧ r.span = e.token.span)
    ∧ log = Log.empty.pushAll (reports.map e.file.diagnose)

/-- Only the given tokens are left in front of the end of the text, and all faults are that it stops
there. -/
structure Stop.After (e : Stop) (tokens : List Token) (s : State) : Prop where
  remaining : s.remaining = tokens ++ [e.token]
  file : s.file = e.file
  log : e.Only s.log

/-- Nothing is left but the end of the text. -/
abbrev Stop.At (e : Stop) (s : State) : Prop :=
  e.After [] s

/-- Nothing is left but line breaks. -/
def Stop.AfterBreaks (e : Stop) (s : State) : Prop :=
  ∃ breaks : List Token, (∀ t ∈ breaks, t.kind = .newline) ∧ e.After breaks s

/-- A minus sign is left. -/
def Stop.AfterMinus (e : Stop) (s : State) : Prop :=
  ∃ t : Token, t.kind = .punct .minus ∧ e.After [t] s

/-- One of the signs that stand before an operand is left. -/
def Stop.AfterSign (e : Stop) (s : State) : Prop :=
  ∃ t : Token, (t.kind = .punct .minus ∨ t.kind = .punct .bang) ∧ e.After [t] s

/-- Nothing is left but line breaks, or a minus sign. -/
def Stop.AfterOperand (e : Stop) (s : State) : Prop :=
  e.AfterBreaks s ∨ e.AfterMinus s

namespace Stop

variable {e : Stop} {s : State} {k : Token.Kind} {tokens : List Token}

theorem only_empty (e : Stop) : e.Only .empty :=
  ⟨[], nofun, rfl⟩

/-- One more fault at the end. -/
theorem Only.push {log : Log} (h : e.Only log) (message : String) (suggestion : Option String) :
    e.Only (log.push (e.file.diagnose ⟨.unexpectedEnd, message, e.token.span, suggestion⟩)) := by
  obtain ⟨reports, hr, rfl⟩ := h
  refine ⟨reports ++ [⟨.unexpectedEnd, message, e.token.span, suggestion⟩], ?_, ?_⟩
  · intro r hm
    rcases List.mem_append.mp hm with hm | hm
    · exact hr r hm
    · rw [List.mem_singleton.mp hm]
      exact ⟨rfl, rfl⟩
  · rw [List.map_append, Log.pushAll, Log.pushAll, List.foldl_append]
    rfl

theorem After.cons {t : Token} (h : e.After (t :: tokens) s) :
    s.current = t ∧ s.rest = tokens ++ [e.token] :=
  List.cons.inj h.remaining

theorem After.next {t : Token} (h : e.After (t :: tokens) s) : e.After tokens s.next := by
  obtain ⟨-, hr⟩ := h.cons
  have hne : s.rest ≠ [] := by
    rw [hr]
    exact List.append_ne_nil_of_right_ne_nil _ (List.cons_ne_nil _ _)
  exact ⟨(State.remaining_next hne).trans hr, s.file_next.trans h.file, s.log_next.symm ▸ h.log⟩

/-- Scopes and blocks do not matter there. -/
theorem After.settled (h : e.After tokens s) (scopes : List Scope) (doBlocks : Bool) :
    e.After tokens { s with scopes := scopes, doBlocks := doBlocks } :=
  ⟨h.remaining, h.file, h.log⟩

theorem At.current (h : e.At s) : s.current = e.token :=
  (List.cons.inj h.remaining).1

theorem At.kind (h : e.At s) : s.current.kind = .endOfInput :=
  h.current ▸ e.isEnd

theorem At.ne (h : e.At s) (hk : k ≠ .endOfInput) : s.current.kind ≠ k :=
  fun he => hk (he.symm.trans h.kind)

theorem At.rest (h : e.At s) : s.rest = [] :=
  (List.cons.inj h.remaining).2

theorem At.next (h : e.At s) : e.At s.next := by
  rw [State.next_of_nil h.rest]
  exact h

theorem At.breaks (h : e.At s) : e.AfterBreaks s :=
  ⟨[], nofun, h⟩

theorem At.operand (h : e.At s) : e.AfterOperand s :=
  .inl h.breaks

theorem AfterBreaks.kind (h : e.AfterBreaks s) :
    s.current.kind = .newline ∨ s.current.kind = .endOfInput := by
  obtain ⟨breaks, hb, h⟩ := h
  cases breaks with
  | nil => exact .inr (At.kind h)
  | cons t breaks =>
    rw [h.cons.1]
    exact .inl (hb t List.mem_cons_self)

theorem AfterBreaks.ne (h : e.AfterBreaks s) (hn : k ≠ .newline) (he : k ≠ .endOfInput) :
    s.current.kind ≠ k := by
  rintro rfl
  exact h.kind.elim hn he

theorem AfterBreaks.next (h : e.AfterBreaks s) : e.AfterBreaks s.next := by
  obtain ⟨breaks, hb, h⟩ := h
  cases breaks with
  | nil => exact (At.next h).breaks
  | cons t breaks => exact ⟨breaks, fun t ht => hb t (List.mem_cons_of_mem _ ht), h.next⟩

theorem AfterMinus.kind (h : e.AfterMinus s) : s.current.kind = .punct .minus := by
  obtain ⟨t, ht, h⟩ := h
  rw [h.cons.1]
  exact ht

theorem AfterMinus.next (h : e.AfterMinus s) : e.At s.next := by
  obtain ⟨t, -, h⟩ := h
  exact h.next

theorem AfterMinus.sign (h : e.AfterMinus s) : e.AfterSign s := by
  obtain ⟨t, ht, h⟩ := h
  exact ⟨t, .inl ht, h⟩

theorem AfterSign.kind (h : e.AfterSign s) :
    s.current.kind = .punct .minus ∨ s.current.kind = .punct .bang := by
  obtain ⟨t, ht, h⟩ := h
  rw [h.cons.1]
  exact ht

theorem AfterSign.next (h : e.AfterSign s) : e.At s.next := by
  obtain ⟨t, -, h⟩ := h
  exact h.next

theorem AfterOperand.kind (h : e.AfterOperand s) :
    s.current.kind = .newline ∨ s.current.kind = .endOfInput ∨ s.current.kind = .punct .minus :=
  match h with
  | .inl h => h.kind.imp id .inl
  | .inr h => .inr (.inr h.kind)

theorem AfterOperand.ne (h : e.AfterOperand s) (hn : k ≠ .newline) (he : k ≠ .endOfInput)
    (hm : k ≠ .punct .minus) : s.current.kind ≠ k := by
  rintro rfl
  exact h.kind.elim hn fun h => h.elim he hm

/-- After a line break comes no point. -/
theorem AfterBreaks.following (h : e.AfterBreaks s) : s.following.kind ≠ .punct .dot := by
  obtain ⟨breaks, hb, h⟩ := h
  have hr := h.remaining
  match breaks with
  | [] =>
    rw [State.following, At.rest h, List.head?_nil, Option.getD_none, At.kind h]
    nofun
  | [t] =>
    rw [State.following, h.cons.2, List.nil_append, List.head?_cons, Option.getD_some, e.isEnd]
    nofun
  | t :: u :: breaks =>
    rw [State.following, h.cons.2, List.cons_append, List.head?_cons, Option.getD_some,
      hb u (List.mem_cons_of_mem _ List.mem_cons_self)]
    nofun

end Stop

/-! ## Cuts -/

/-- Tokens say the same, up to what a string or a symbol says. -/
inductive Alike : Token.Kind → Token.Kind → Prop
  | refl (k : Token.Kind) : Alike k k
  | str (value value' : String) : Alike (.str value) (.str value')
  | symbol (name name' : String) : Alike (.symbol name) (.symbol name')

/-- The token is no string and no symbol. -/
def Plain : Token.Kind → Prop
  | .str _ => False
  | .symbol _ => False
  | _ => True

theorem Alike.eq_iff {k k' close : Token.Kind} (h : Alike k k') (hp : Plain close) :
    k' = close ↔ k = close := by
  cases h with
  | refl => exact Iff.rfl
  | str value value' =>
    constructor <;> rintro rfl <;> exact hp.elim
  | symbol name name' =>
    constructor <;> rintro rfl <;> exact hp.elim

/-- A stream that is cut after one of its tokens. -/
structure Cut extends Stop where
  /-- The whole stream. -/
  stream : Stream
  /-- The last token before the cut, in the whole stream. -/
  last : Token
  /-- The last token before the end, in the shortened stream. -/
  last' : Token
  /-- The first token after the cut. -/
  first : Token
  /-- The tokens after it. -/
  after : List Token
  alike : Alike last.kind last'.kind
  space : last'.spaceBefore = last.spaceBefore
  /-- After the sign `!` the end stands apart only if the token does that it stands for. -/
  gap : last.kind = .punct .bang → first.spaceBefore = false → token.spaceBefore = false

/-- Parsers go together: they stand at the same token before the cut, with no faults yet. -/
structure Together (c : Cut) (s s' : State) : Prop where
  remaining : ∃ others, s.remaining = others ++ c.last :: c.first :: c.after
    ∧ s'.remaining = others ++ [c.last', c.token]
  file : s'.file = c.file
  previous : s'.previous = s.previous
  log : s.log = .empty
  log' : s'.log = .empty
  scopes : s'.scopes = s.scopes
  doBlocks : s'.doBlocks = s.doBlocks

namespace Together

variable {c : Cut} {s s' : State}

/-- The parsers stand at the last token, or at one before it. -/
theorem cases (h : Together c s s') :
    (s.current = c.last ∧ s.rest = c.first :: c.after ∧ s'.current = c.last' ∧ s'.rest = [c.token])
      ∨ ∃ others, s'.current = s.current ∧ s.rest = others ++ c.last :: c.first :: c.after
        ∧ s'.rest = others ++ [c.last', c.token] := by
  obtain ⟨others, hr, hr'⟩ := h.remaining
  cases others with
  | nil =>
    obtain ⟨hc, hr⟩ := List.cons.inj hr
    obtain ⟨hc', hr'⟩ := List.cons.inj hr'
    exact .inl ⟨hc, hr, hc', hr'⟩
  | cons t others =>
    obtain ⟨hc, hr⟩ := List.cons.inj hr
    obtain ⟨hc', hr'⟩ := List.cons.inj hr'
    exact .inr ⟨others, hc'.trans hc.symm, hr, hr'⟩

theorem alike (h : Together c s s') : Alike s.current.kind s'.current.kind := by
  rcases h.cases with ⟨hc, -, hc', -⟩ | ⟨others, hc, -⟩
  · rw [hc, hc']
    exact c.alike
  · rw [hc]
    exact .refl _

theorem spaceBefore (h : Together c s s') : s'.current.spaceBefore = s.current.spaceBefore := by
  rcases h.cases with ⟨hc, -, hc', -⟩ | ⟨others, hc, -⟩
  · rw [hc, hc']
    exact c.space
  · rw [hc]

theorem length (h : Together c s s') : s.rest.length = s'.rest.length + c.after.length := by
  rcases h.cases with ⟨-, hr, -, hr'⟩ | ⟨others, -, hr, hr'⟩
  · rw [hr, hr', List.length_cons, List.length_singleton, Nat.add_comm]
  · rw [hr, hr']
    simp only [List.length_append, List.length_cons, List.length_nil]
    omega

theorem pos (h : Together c s s') : 0 < s'.rest.length := by
  rcases h.cases with ⟨-, -, -, hr'⟩ | ⟨others, -, -, hr'⟩
  · rw [hr']
    exact Nat.one_pos
  · rw [hr', List.length_append]
    exact Nat.lt_add_left _ (Nat.succ_pos _)

theorem after_lt (h : Together c s s') : c.after.length < s.rest.length := by
  have := h.length
  have := h.pos
  omega

/-- Before the last token they stand at the same one. -/
theorem current (h : Together c s s') (hl : c.after.length + 1 < s.rest.length) :
    s'.current = s.current := by
  rcases h.cases with ⟨-, hr, -, -⟩ | ⟨others, hc, -⟩
  · rw [hr, List.length_cons] at hl
    exact absurd hl (Nat.lt_irrefl _)
  · exact hc

theorem span (h : Together c s s') (hl : c.after.length + 1 < s.rest.length) :
    s'.current.span = s.current.span :=
  congrArg Token.span (h.current hl)

theorem kind (h : Together c s s') (hl : c.after.length + 1 < s.rest.length) :
    s'.current.kind = s.current.kind :=
  congrArg Token.kind (h.current hl)

/-- Passing a token they go on together, or the shortened stream is at its end. -/
theorem next (h : Together c s s') : Together c s.next s'.next ∨ c.At s'.next := by
  rcases h.cases with ⟨-, hr, -, hr'⟩ | ⟨others, hc, hr, hr'⟩
  · right
    refine ⟨?_, s'.file_next.trans h.file, ?_⟩
    · rw [State.remaining_next (by rw [hr']; nofun), hr', List.nil_append]
    · rw [s'.log_next, h.log']
      exact Stop.only_empty _
  · left
    have hn : s.rest ≠ [] := by
      rw [hr]
      exact List.append_ne_nil_of_right_ne_nil _ (List.cons_ne_nil _ _)
    have hn' : s'.rest ≠ [] := by
      rw [hr']
      exact List.append_ne_nil_of_right_ne_nil _ (List.cons_ne_nil _ _)
    refine ⟨⟨others, (State.remaining_next hn).trans hr, (State.remaining_next hn').trans hr'⟩,
      s'.file_next.trans h.file, ?_, s.log_next.trans h.log,
      s'.log_next.trans h.log', ?_, ?_⟩
    · rw [State.previous_next hn, State.previous_next hn', hc]
    · rw [s.scopes_next, s'.scopes_next, h.scopes]
    · rw [s.doBlocks_next, s'.doBlocks_next, h.doBlocks]

/-- What comes next is the same, unless the cut comes after the current token. -/
theorem following (h : Together c s s') : Alike s.following.kind s'.following.kind
    ∨ c.After [s'.current] s' := by
  rcases h.cases with ⟨-, hr, hc, hr'⟩ | ⟨others, hc, hr, hr'⟩
  · right
    refine ⟨?_, h.file, h.log' ▸ Stop.only_empty _⟩
    rw [State.remaining, hr']
    rfl
  · left
    rw [State.following, State.following, hr, hr']
    cases others with
    | nil => exact c.alike
    | cons t others => exact .refl _

/-- What comes next after the sign `!` stands apart in both or in neither, unless nothing comes;
then nothing stands apart. -/
theorem following_bang (h : Together c s s') (hk : s.current.kind = .punct .bang) :
    s'.following.spaceBefore = s.following.spaceBefore
      ∨ s'.following.spaceBefore = false ∧ c.AfterSign s' := by
  rcases h.cases with ⟨hc, hr, -, hr'⟩ | ⟨others, hc, hr, hr'⟩
  · rw [State.following, State.following, hr, hr']
    cases hs : c.token.spaceBefore with
    | false =>
      refine .inr ⟨hs, s'.current, .inr ?_, ?_, h.file, h.log' ▸ Stop.only_empty _⟩
      · exact (h.alike.eq_iff (show Plain (.punct .bang) from trivial)).mpr hk
      · rw [State.remaining, hr']
        rfl
    | true =>
      left
      cases hs' : c.first.spaceBefore with
      | true => exact hs.trans hs'.symm
      | false => exact absurd ((c.gap (hc ▸ hk) hs').symm.trans hs) Bool.false_ne_true
  · left
    rw [State.following, State.following, hr, hr']
    cases others with
    | nil => exact c.space
    | cons t others => rfl

/-- What comes next after a minus sign stands apart in both or in neither, unless nothing comes. -/
theorem following_minus (h : Together c s s') (hk : s.current.kind = .punct .minus) :
    s'.following.spaceBefore = s.following.spaceBefore ∨ c.AfterMinus s' := by
  rcases h.cases with ⟨hc, hr, hc', hr'⟩ | ⟨others, hc, hr, hr'⟩
  · right
    refine ⟨s'.current, ?_, ?_, h.file, h.log' ▸ Stop.only_empty _⟩
    · exact (h.alike.eq_iff (show Plain (.punct .minus) from trivial)).mpr hk
    · rw [State.remaining, hr']
      rfl
  · left
    rw [State.following, State.following, hr, hr']
    cases others with
    | nil => exact c.space
    | cons t others => rfl

/-- The same name becomes a local variable of both. -/
theorem declare (h : Together c s s') (name : String) :
    Together c (s.bind name) (s'.bind name) := by
  obtain ⟨others, hr, hr'⟩ := h.remaining
  refine ⟨⟨others, ?_, ?_⟩, ?_, ?_, ?_, ?_, ?_, ?_⟩
  · rw [s.remaining_bind, hr]
  · rw [s'.remaining_bind, hr']
  · rw [s'.file_bind, h.file]
  · unfold State.bind
    rw [h.scopes]
    split <;> exact h.previous
  · rw [s.log_bind, h.log]
  · rw [s'.log_bind, h.log']
  · unfold State.bind
    rw [h.scopes]
    split
    · next hs => rw [h.scopes, hs]
    · rfl
  · rw [s.doBlocks_bind, s'.doBlocks_bind, h.doBlocks]

/-- Both parsers stand at the first argument of a call or neither does, unless nothing comes after a
sign. -/
theorem startsCommandArgs (h : Together c s s') :
    (Parse.startsCommandArgs.run s').1 = (Parse.startsCommandArgs.run s).1
      ∨ c.AfterMinus s'
      ∨ (Parse.startsCommandArgs.run s').1 = some true ∧ c.AfterSign s' := by
  generalize hr : (Parse.startsCommandArgs.run s).1 = r
  generalize hr' : (Parse.startsCommandArgs.run s').1 = r'
  unfold Parse.startsCommandArgs at hr hr'
  rw [run_bind] at hr hr'
  change ((if (!s.current.spaceBefore) = true then Pure.pure false else _ : Parser Bool).run s).1
    = r at hr
  change ((if (!s'.current.spaceBefore) = true then Pure.pure false else _ : Parser Bool).run s').1
    = r' at hr'
  subst hr hr'
  rw [h.spaceBefore]
  split
  · exact .inl rfl
  have alike := h.alike
  have bang := h.following_bang
  have minus := h.following_minus
  revert alike bang minus
  generalize s.current.kind = k
  generalize s'.current.kind = k'
  intro alike bang minus
  cases alike with
  | str value value' => exact .inl rfl
  | symbol name name' => exact .inl rfl
  | refl k =>
    cases k with
    | keyword w => cases w <;> exact .inl rfl
    | punct mark =>
      cases mark with
      | minus => exact (minus rfl).imp (fun h => congrArg (fun b => some !b) h) .inl
      | bang =>
        refine (bang rfl).imp (fun h => congrArg (fun b => some !b) h) fun h => .inr ⟨?_, h.2⟩
        exact congrArg (fun b => some !b) h.1
      | _ => exact .inl rfl
    | _ => exact .inl rfl

theorem withDoBlocks (h : Together c s s') (allowed : Bool) :
    Together c { s with doBlocks := allowed } { s' with doBlocks := allowed } :=
  ⟨h.remaining, h.file, h.previous, h.log, h.log', h.scopes, rfl⟩

theorem withScopes (h : Together c s s') {scopes scopes' : List Scope} (hs : scopes' = scopes) :
    Together c { s with scopes := scopes } { s' with scopes := scopes' } :=
  ⟨h.remaining, h.file, h.previous, h.log, h.log', hs, h.doBlocks⟩

end Together

end ScriptCompiler.Parse
