import ScriptCompiler.Proofs.Continuation.Programs
import ScriptCompiler.Proofs.Load.Expansion
import ScriptCompiler.Proofs.Session.History

/-!
# Local variables between turns

The parser and the session both keep the local variables of the outermost scope: the parser to read
the next line of a snippet, the session to read the next turn. Both record what is assigned. The
parser knows the variables of rescue clauses too, which the session forgets.
-/

namespace ScriptCompiler.Session

open Parse (scopesAfter)

/-- The last statement of a text is a bare name that is read as a local variable. -/
def ReadsLocal (source : String) (known : List String) (n : String) : Prop :=
  ∃ nodes span, parse fileName source known = .ok (nodes ++ [⟨.localVar n, span⟩])

/-- The program receives exceptions in the variable, and otherwise the variable is not bound. -/
structure Forgotten (known : List String) (program : Body) (n : String) : Prop where
  caught : n ∈ caughtNames program
  unknown : n ∉ known
  unassigned : n ∉ assignedNames program

/-- What the session and the parser know after a turn. -/
structure Remembers (s s' : Session) (source : String) (program : Body) : Prop where
  /-- The session knows what it knew and what is assigned. -/
  recorded : ∀ n, Token.startsUpper n = false →
    (n ∈ s'.state.vars.names ↔ n ∈ s.state.vars.names ∨ n ∈ assignedNames program)
  /-- The parser knows the variables of rescue clauses too. -/
  declared : ∀ n, Token.startsUpper n = false →
    (Parse.State.sees n (scopesAfter fileName source s.state.vars.names) = true ↔
      n ∈ s.state.vars.names ∨ n ∈ assignedNames program ∨ n ∈ caughtNames program)
  /-- The session knows what the parser knows, if it does not forget it. -/
  agrees : ∀ n, Token.startsUpper n = false →
    ((n ∈ s'.state.vars.names
        ↔ Parse.State.sees n (scopesAfter fileName source s.state.vars.names) = true)
      ↔ ¬ Forgotten s.state.vars.names program n)
  /-- A bare name is read in the next turn as in a new line of the same one, if the session does not
  forget it. -/
  reads : endsLine (.ofText fileName source) = true → ∀ n, Token.isName n = true →
    ((ReadsLocal n s'.state.vars.names n
        ↔ ReadsLocal (source ++ "\n" ++ n) s.state.vars.names n)
      ↔ ¬ Forgotten s.state.vars.names program n)

variable {fs : FileSystem} {s s' : Session} {source text n : String} {program : Body}

/-- A turn that compiles leaves the state that it makes. -/
theorem turn_of_compileTurn (h : s.compileTurn fs source = (.ok text, s')) :
    s.turn fs source = .ok (text, s'.state) := by
  unfold compileTurn at h
  split at h
  · next ht =>
    cases h
    exact ht
  · cases h

/-- The session records the outermost assignments. -/
theorem names_of_turn (quiet : s.echo = false)
    (hp : parse fileName source s.state.vars.names = .ok program)
    (plain : Directives.ofNodes program = [])
    (h : s.turn fs source = .ok (text, s'.state)) :
    n ∈ s'.state.vars.names ↔ n ∈ s.state.vars.names ∨ n ∈ assignedNames program := by
  obtain ⟨program', expanded, code, ctx, hp', hx, hb, hs⟩ := turn_ok h
  obtain rfl : program = program' := Except.ok.inj (hp.symm.trans hp')
  have same : expanded = program := by
    rw [Load.expand, Load.expandBody_eq_pure _ plain] at hx
    exact (Except.ok.inj hx).symm
  have vars := ((Lowering.lowers_of_lowerBody hb).records false).vars
  rw [hs, vars, VarMap.mem_names_foldl, shown, quiet, same]
  rw [assignedNames, Bindings.assigned_ofNodes false]
  rfl

/-- How the bare name at the end of a text is read. -/
theorem readsLocal_of_parse (nodes : Body) {isLocal : Bool} {span : Span} {known : List String}
    (h : parse fileName source known = .ok (nodes ++ [⟨Parse.bareName isLocal n, span⟩])) :
    ReadsLocal source known n ↔ isLocal = true := by
  constructor
  · rintro ⟨nodes', span', h'⟩
    obtain ⟨-, last⟩ := List.append_inj' (Except.ok.inj (h.symm.trans h')) rfl
    have form := congrArg Node.form (List.singleton_inj.mp last)
    cases isLocal with
    | true => rfl
    | false => cases form
  · rintro rfl
    exact ⟨nodes, span, h⟩

/-- **What the session and the parser know after a turn.** -/
theorem remembers_of_turn (quiet : s.echo = false)
    (hp : parse fileName source s.state.vars.names = .ok program)
    (plain : Directives.ofNodes program = [])
    (h : s.compileTurn fs source = (.ok text, s')) : Remembers s s' source program := by
  have recorded {n : String} := names_of_turn (n := n) quiet hp plain (turn_of_compileTurn h)
  have declared {n : String} (hn : Token.startsUpper n = false) := Parse.sees_scopesAfter hp hn
  have agrees {n : String} (hn : Token.startsUpper n = false) :
      (n ∈ s'.state.vars.names
        ↔ Parse.State.sees n (scopesAfter fileName source s.state.vars.names) = true)
      ↔ ¬ Forgotten s.state.vars.names program n := by
    rw [recorded, declared hn]
    constructor
    · rintro same ⟨caught, unknown, unassigned⟩
      exact (same.mpr (.inr (.inr caught))).elim unknown unassigned
    · intro kept
      refine ⟨fun h => h.imp_right .inl, ?_⟩
      rintro (known | assigned | caught)
      · exact .inl known
      · exact .inr assigned
      · by_contra lost
        rw [not_or] at lost
        exact kept ⟨caught, lost.1, lost.2⟩
  refine ⟨fun n _ => recorded, fun n => declared, fun n => agrees, fun ends n hn => ?_⟩
  obtain ⟨span, next⟩ := Parse.parse_name fileName s'.state.vars.names hn
  obtain ⟨span', line⟩ := Parse.parse_line hp ends hn
  rw [← agrees (Token.startsUpper_of_isName hn), readsLocal_of_parse [] next,
    readsLocal_of_parse program line, List.contains_iff_mem]

/-- A body that is protected by a clause with a variable. -/
def caughtText : String :=
  "begin\n  1\nrescue => e\n  2\nend"

/-- The exception is a local variable in the next line, but not in the next turn. -/
theorem forgets_caughtText : ∃ text s',
    (start .default false).compileTurn ⟨[], []⟩ caughtText = (.ok text, s')
      ∧ ¬ (ReadsLocal "e" s'.state.vars.names "e"
        ↔ ReadsLocal (caughtText ++ "\n" ++ "e") [] "e") := by
  have binds : (parse fileName caughtText []).toOption.map
      (fun program => (Directives.ofNodes program, caughtNames program, assignedNames program))
      = some ([], ["e"], []) := by decide +kernel
  have compiles : ((start .default false).compileTurn ⟨[], []⟩ caughtText).1.toOption.isSome
      = true := by decide +kernel
  cases hp : parse fileName caughtText [] with
  | error failure =>
    rw [hp] at binds
    cases binds
  | ok program =>
    rw [hp] at binds
    obtain ⟨plain, caught, assigned⟩ : Directives.ofNodes program = []
        ∧ caughtNames program = ["e"] ∧ assignedNames program = [] := by
      simpa using Option.some.inj binds
    rcases hc : (start .default false).compileTurn ⟨[], []⟩ caughtText with ⟨_ | text, s'⟩
    · rw [hc] at compiles
      cases compiles
    have remembers := remembers_of_turn (s := start .default false) rfl hp plain hc
    refine ⟨text, s', rfl, fun same => ?_⟩
    refine (remembers.reads (by decide +kernel) "e" (by decide)).mp same ⟨?_, ?_, ?_⟩
    · rw [caught]
      exact List.mem_singleton_self "e"
    · exact List.not_mem_nil
    · rw [assigned]
      exact List.not_mem_nil

end ScriptCompiler.Session
