import ScriptCompiler.Proofs.Lowering.Files
import ScriptCompiler.Proofs.Lowering.Recorded
import ScriptCompiler.Session.Basic

/-!
# Turns and histories of sessions

What one turn of a session makes of it, and what a history of turns, lines and dropped lines does.
-/

/-!
## Turns of a session

A turn that succeeds has parsed its snippet, replaced its directives and lowered what came out, with
the variables of the turns before it. It gets the next number, and the variables it assigns are
recorded after those that were known.
-/

namespace ScriptCompiler

namespace Session

open Lowering Outermost

variable {fs : FileSystem} {s : Session} {source text : String} {state : State}

theorem mapError_ok {ε δ α : Type} {x : Except ε α} {f : ε → δ} {a : α}
    (h : x.mapError f = .ok a) : x = .ok a := by
  cases x with
  | ok b => cases h; rfl
  | error e => cases h

theorem except_bind_ok {ε α β : Type} {x : Except ε α} {f : α → Except ε β} {b : β}
    (h : x >>= f = .ok b) : ∃ a, x = .ok a ∧ f a = .ok b := by
  cases x with
  | ok a => exact ⟨a, rfl, h⟩
  | error e => cases h

/-- The program that is lowered in a turn. -/
def shown (s : Session) (program : Body) : Body :=
  if s.echo then echoLast program else program

/-- **How a turn succeeds.** -/
theorem turn_ok (h : s.turn fs source = .ok (text, state)) :
    ∃ program expanded code ctx, parse fileName source s.state.vars.names = .ok program
      ∧ (Load.expand (s.options.settings fs) ⟨fileName⟩ program .empty).1 = .ok expanded
      ∧ lowerBody (s.shown expanded) (.start (lead (s.state.turn + 1)) s.state.vars)
        = (.ok code, ctx)
      ∧ state = ⟨s.state.turn + 1, ctx.vars⟩ := by
  unfold turn at h
  obtain ⟨program, hp, h⟩ := except_bind_ok h
  rcases he : Load.expand (s.options.settings fs) ⟨fileName⟩ program .empty with ⟨result, tracker⟩
  rw [he] at h
  dsimp only at h
  obtain ⟨expanded, hx, h⟩ := except_bind_ok h
  rcases hc : compileFrom (.start (lead (s.state.turn + 1)) s.state.vars) .snippet
    (s.shown expanded) with ⟨made, ctx⟩
  rw [shown] at hc
  rw [hc] at h
  obtain ⟨out, ho, h⟩ := except_bind_ok h
  obtain rfl : made = .ok out := mapError_ok ho
  obtain ⟨code, hb, -⟩ := lowerBody_of_compileFrom hc
  cases h
  exact ⟨program, expanded, code, ctx, mapError_ok hp, he ▸ mapError_ok hx, hb, rfl⟩

/-- **What a turn makes of the state.** It counts, and the outermost assignments of what it lowers
are recorded after the variables that were known. -/
theorem state_of_turn (h : s.turn fs source = .ok (text, state)) :
    state.turn = s.state.turn + 1
      ∧ ∃ names : List String, state.vars = names.foldl VarMap.declare s.state.vars := by
  obtain ⟨_, expanded, code, ctx, -, -, hb, rfl⟩ := turn_ok h
  refine ⟨rfl, (ofNodes false (s.shown expanded)).map (·.name), ?_⟩
  exact ((lowers_of_lowerBody hb).records false).vars

end Session

end ScriptCompiler

/-!
## Histories of sessions

A session is taken through whole snippets, single lines and dropped lines in any order, while files
come and go. Its number counts the snippets that were compiled; what fails changes neither the
number nor the variables, and what is compiled only adds variables. Lines wait exactly if the last
of them asked for more and they were not dropped.
-/

namespace ScriptCompiler.Session

/-- A step of a session, with the files that are there when it is taken. -/
inductive Step where
  | turn (fs : FileSystem) (source : String)
  | line (fs : FileSystem) (text : String)
  | discard

/-- What a step answers. -/
inductive Answer where
  | turn (result : Except CompileError String)
  | line (result : Except CompileError Reply)
  | discarded

/-- A snippet was compiled. -/
def Answer.compiled : Answer → Bool
  | .turn (.ok _) => true
  | .line (.ok (.compiled _)) => true
  | _ => false

/-- Takes a step. -/
def Step.take : Step → Session → Answer × Session
  | .turn fs source, s => (s.compileTurn fs source).map .turn id
  | .line fs text, s => (s.pushLine fs text).map .line id
  | .discard, s => (.discarded, s.discard)

/-- Takes steps one after the other. -/
def play : List Step → Session → List Answer × Session
  | [], s => ([], s)
  | step :: steps, s =>
    let (answer, s) := step.take s
    let (answers, s) := play steps s
    (answer :: answers, s)

/-- The last line that was typed asked for more, and the lines were not dropped after it. -/
def Waits (answers : List Answer) : Prop :=
  ∃ before after, answers = before ++ .line (.ok .incomplete) :: after
    ∧ ∀ answer ∈ after, ∃ result, answer = .turn result

/-! ### One step -/

section Steps

variable {fs : FileSystem} {s : Session} {source line : String}

theorem compileTurn_cases :
    (∃ text state, s.turn fs source = .ok (text, state)
        ∧ s.compileTurn fs source = (.ok text, { s with state }))
      ∨ ∃ e, s.compileTurn fs source = (.error e, s) := by
  unfold compileTurn
  cases h : s.turn fs source with
  | ok made => exact .inl ⟨made.1, made.2, rfl, rfl⟩
  | error e => exact .inr ⟨e, rfl⟩

theorem pushLine_cases :
    (∃ source text state, s.turn fs source = .ok (text, state)
        ∧ s.pushLine fs line = (.ok (.compiled text), { s with state, pending := [] }))
      ∨ s.pushLine fs line = (.ok .incomplete, { s with pending := s.pending ++ [line] })
      ∨ s.pushLine fs line = (.ok .empty, { s with pending := [] })
      ∨ ∃ e, s.pushLine fs line = (.error e, { s with pending := [] }) := by
  unfold pushLine
  dsimp only
  split
  · exact .inr (.inr (.inl rfl))
  · cases h : s.turn fs ("\n".intercalate (s.pending ++ [line])) with
    | ok made => exact .inl ⟨_, made.1, made.2, h, rfl⟩
    | error e =>
      dsimp only
      split
      · exact .inr (.inl rfl)
      · exact .inr (.inr (.inr ⟨e, rfl⟩))

end Steps

/-- What a step makes of a state: it compiles a snippet, or leaves the state as it is. -/
theorem take_cases (step : Step) (s : Session) :
    ((step.take s).1.compiled = true
        ∧ ∃ fs source text, s.turn fs source = .ok (text, (step.take s).2.state))
      ∨ ((step.take s).1.compiled = false ∧ (step.take s).2.state = s.state) := by
  cases step with
  | turn fs source =>
    rw [Step.take]
    obtain ⟨text, state, h, he⟩ | ⟨e, he⟩ := @compileTurn_cases fs s source <;> rw [he]
    · exact .inl ⟨rfl, fs, source, text, h⟩
    · exact .inr ⟨rfl, rfl⟩
  | line fs line =>
    rw [Step.take]
    obtain ⟨source, text, state, h, he⟩ | he | he | ⟨e, he⟩ := @pushLine_cases fs s line <;> rw [he]
    · exact .inl ⟨rfl, fs, source, text, h⟩
    · exact .inr ⟨rfl, rfl⟩
    · exact .inr ⟨rfl, rfl⟩
    · exact .inr ⟨rfl, rfl⟩
  | discard => exact .inr ⟨rfl, rfl⟩

/-- What a step may change of a state: nothing if no snippet is compiled, and else variables are
added to those that are known. -/
structure Advances (answer : Answer) (state state' : State) : Prop where
  kept : answer.compiled = false → state' = state
  grown : state.vars.entries <+: state'.vars.entries

theorem advances_take (step : Step) (s : Session) :
    Advances (step.take s).1 s.state (step.take s).2.state := by
  obtain ⟨hc, fs, source, text, h⟩ | ⟨hc, hs⟩ := take_cases step s
  · obtain ⟨-, names, hv⟩ := state_of_turn h
    refine ⟨fun hn => Bool.noConfusion (hc.symm.trans hn), ?_⟩
    rw [hv]
    exact VarMap.prefix_foldl _ _
  · exact ⟨fun _ => hs, hs ▸ List.prefix_rfl⟩

/-! ### Waiting lines -/

section Waiting

variable {answers : List Answer}

theorem not_waits_nil : ¬ Waits [] := by
  rintro ⟨before, after, h, -⟩
  simp at h

theorem waits_turn {result : Except CompileError String} :
    Waits (answers ++ [.turn result]) ↔ Waits answers := by
  constructor
  · rintro ⟨before, after, h, turns⟩
    rcases List.eq_nil_or_concat after with rfl | ⟨rest, last, rfl⟩
    · have := (List.append_inj' h rfl).2
      cases this
    · rw [List.concat_eq_append, ← List.cons_append, ← List.append_assoc] at h
      refine ⟨before, rest, (List.append_inj' h rfl).1, fun a ha => turns a ?_⟩
      rw [List.concat_eq_append]
      exact List.mem_append_left _ ha
  · rintro ⟨before, after, rfl, turns⟩
    refine ⟨before, after ++ [.turn result], by simp, ?_⟩
    exact List.forall_mem_append.mpr ⟨turns, List.forall_mem_singleton.mpr ⟨result, rfl⟩⟩

/-- What is no turn decides whether lines wait. -/
theorem waits_other {answer : Answer} (h : ∀ result, answer ≠ .turn result) :
    Waits (answers ++ [answer]) ↔ answer = .line (.ok .incomplete) := by
  constructor
  · rintro ⟨before, after, he, turns⟩
    rcases List.eq_nil_or_concat after with rfl | ⟨rest, last, rfl⟩
    · exact List.singleton_inj.mp (List.append_inj' he rfl).2
    · rw [List.concat_eq_append, ← List.cons_append, ← List.append_assoc] at he
      have hl : answer = last := List.singleton_inj.mp (List.append_inj' he rfl).2
      obtain ⟨result, ht⟩ := turns last (by simp)
      exact absurd (hl.trans ht) (h result)
  · rintro rfl
    exact ⟨answers, [], rfl, nofun⟩

/-- Lines wait after a step exactly if they are kept for more. -/
theorem pending_take {s : Session} (step : Step) (h : s.pending ≠ [] ↔ Waits answers) :
    (step.take s).2.pending ≠ [] ↔ Waits (answers ++ [(step.take s).1]) := by
  cases step with
  | turn fs source =>
    rw [Step.take, Prod.map_fst, waits_turn, ← h]
    obtain ⟨text, state, -, he⟩ | ⟨e, he⟩ := @compileTurn_cases fs s source <;> rw [he] <;> rfl
  | line fs line =>
    rw [Step.take, Prod.map_fst, waits_other (by rintro _ ⟨⟩)]
    obtain ⟨source, text, state, -, he⟩ | he | he | ⟨e, he⟩ := @pushLine_cases fs s line <;>
      rw [he] <;> simp
  | discard =>
    rw [Step.take, waits_other (by rintro _ ⟨⟩)]
    simp [discard]

end Waiting

/-! ### Whole histories -/

/-- What a session is after steps that gave answers. -/
structure Reached (answers : List Answer) (s : Session) : Prop where
  /-- The number, a word of 64 bits, counts the snippets that were compiled. -/
  turn : s.state.turn = .ofNat (answers.countP Answer.compiled)
  indexed : s.state.vars.Indexed
  pending : s.pending ≠ [] ↔ Waits answers

theorem Reached.start (options : Options) (echo : Bool) : Reached [] (start options echo) where
  turn := rfl
  indexed := .empty
  pending := ⟨fun h => absurd rfl h, fun h => absurd h not_waits_nil⟩

theorem Reached.step {answers : List Answer} {s : Session} (h : Reached answers s) (step : Step) :
    Reached (answers ++ [(step.take s).1]) (step.take s).2 := by
  refine ⟨?_, ?_, pending_take step h.pending⟩
  · rw [List.countP_append, List.countP_singleton]
    obtain ⟨hc, fs, source, text, ht⟩ | ⟨hc, hs⟩ := take_cases step s
    · rw [hc, (state_of_turn ht).1, h.turn, if_pos rfl, UInt64.ofNat_add]
      rfl
    · rw [hc, hs, h.turn]
      rfl
  · obtain ⟨-, fs, source, text, ht⟩ | ⟨-, hs⟩ := take_cases step s
    · obtain ⟨-, names, hv⟩ := state_of_turn ht
      rw [hv]
      exact h.indexed.foldl names
    · rw [hs]
      exact h.indexed

theorem Reached.play {answers : List Answer} {s : Session} (h : Reached answers s)
    (steps : List Step) :
    Reached (answers ++ (Session.play steps s).1) (Session.play steps s).2 := by
  induction steps generalizing answers s with
  | nil => simpa [Session.play] using h
  | cons step steps ih =>
    have := ih (h.step step)
    rwa [List.append_assoc] at this

/-- **Histories of sessions.** After any steps from the start, the number counts the snippets that
were compiled, the variables have their places as indexes, and lines wait exactly if the last one
asked for more. Whatever step comes next changes nothing of the state if it compiles nothing, and
only adds variables if it does. -/
theorem reached_play (options : Options) (echo : Bool) (steps : List Step) :
    let (answers, s) := play steps (start options echo)
    Reached answers s ∧ ∀ step : Step, Advances (step.take s).1 s.state (step.take s).2.state :=
  ⟨(Reached.start options echo).play steps, fun step => advances_take step _⟩

end ScriptCompiler.Session
