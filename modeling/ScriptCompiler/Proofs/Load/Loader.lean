import Mathlib.Logic.Relation
import ScriptCompiler.Proofs.Load.Retries

/-!
# A loader at work

An expansion as a loader goes through it, one directive after the other. The loader counts the files
that it has opened inside one another. It compares the count with the limit before it reads another
file, adds one when it opens the file, and takes one off when it leaves the file, whether the
directives in it succeeded or not. It comes to a halt where the expansion ends.
-/

namespace ScriptCompiler.Load

/-! ## What directives ask for -/

section Asked

variable (s : Settings)

/-- The file that a directive in a file asks for. -/
def asked (current : Path) (d : Directive) : Except LoadError Path :=
  match s.find current d.kind d.path with
  | none => .error (missing current d.path d.span)
  | some found => (s.files.canonical found).mapError (.unreadable found)

/-- The directives in a file. -/
def directivesIn (path : Path) : Except LoadError (List Directive) :=
  match s.files.readText path with
  | .error e => .error (.unreadable path e)
  | .ok source => ((parse path.text source []).mapError (.malformed path)).map Directives.ofNodes

end Asked

/-- How a step ends: with a failure or without one, and what is remembered then. -/
def ending {α : Type} : Except LoadError α × Tracker → Option LoadError × Tracker
  | (.ok _, t) => (none, t)
  | (.error e, t) => (some e, t)

section Ending

variable {α : Type} {s : Settings} {r : Except LoadError α × Tracker} {t : Tracker}

theorem ending_eq_none : ending r = (none, t) ↔ ∃ a, r = (.ok a, t) := by
  obtain ⟨e | a, t'⟩ := r <;> simp [ending]

theorem ending_eq_some {e : LoadError} : ending r = (some e, t) ↔ r = (.error e, t) := by
  obtain ⟨e | a, t'⟩ := r <;> simp [ending]

theorem ending_of_silent {step : Step α} {replace : Replace} {ds : List Directive}
    (h : (do let _ ← step; return ()) = runEach replace ds) (t : Tracker) :
    ending (step t) = ending (runEach replace ds t) := by
  rcases hr : step t with ⟨e | a, t'⟩
  · rw [runEach_of_error h hr]
    rfl
  · rw [← h, bind_of_ok hr]
    rfl

/-- What comes of a directive, by what it asks for. -/
theorem Visit.outcome_eq_asked (v : Visit) : v.outcome s =
    match asked s v.current v.directive with
    | .error e => (.error e, v.tracker)
    | .ok path =>
      if v.Wants path then contentsOfFile s v.levels v.directive.path path (v.remembers path)
      else (.ok [], v.tracker) := by
  unfold asked
  cases hf : s.find v.current v.directive.kind v.directive.path with
  | none =>
    rw [outcome, runDirective]
    simp only [hf]
    rfl
  | some found =>
    dsimp only
    cases hc : s.files.canonical found with
    | error e =>
      rw [outcome, runDirective_eq hf, canonical]
      simp only [hc]
      rfl
    | ok path => exact Visit.outcome_eq (Visit.file?_eq_some.mpr ⟨found, hf, hc⟩)

/-- What comes of a file, by the directives in it. -/
theorem ending_contentsOfFile (levels : Nat) (name : String) (path : Path) (t : Tracker) :
    ending (contentsOfFile s (levels + 1) name path t) =
      match directivesIn s path with
      | .error e => (some e, t)
      | .ok ds => ending (runEach (runDirective s levels path) ds t) := by
  unfold directivesIn
  cases ht : s.files.readText path with
  | error e =>
    rw [contentsOfFile, programOf]
    simp only [ht]
    rfl
  | ok source =>
    dsimp only
    cases hp : parse path.text source [] with
    | error failure =>
      rw [contentsOfFile, programOf]
      simp only [ht, hp]
      rfl
    | ok program =>
      rw [contentsOfFile_eq ht hp]
      exact ending_of_silent (silent_expandBody _ program) t

end Ending

/-! ## Steps of a loader -/

/-- A file that is being expanded: its path, and the directives in it that are still to come. -/
structure OpenFile where
  path : Path
  rest : List Directive

/-- A loader in the course of an expansion. -/
structure Loader where
  /-- The files that were put into the program at most once. -/
  tracker : Tracker
  /-- How many files are open inside one another, as the loader counts them. -/
  depth : Nat
  /-- The innermost file. -/
  current : OpenFile
  /-- The files around it, from the inside out; the last one is the file of the program. -/
  outer : List OpenFile
  /-- Why a directive failed. -/
  failure : Option LoadError

namespace Loader

/-- A loader that starts with the directives of a program. -/
def start (t : Tracker) (depth : Nat) (current : Path) (ds : List Directive) : Loader :=
  ⟨t, depth, ⟨current, ds⟩, [], none⟩

variable (s : Settings)

/-- Opens a file inside the innermost one, unless too many files are open. -/
def enter (l : Loader) (name : String) (path : Path) : Loader :=
  if maxDepth ≤ l.depth then { l with failure := some (.nestingTooDeep name) }
  else
    match directivesIn s path with
    | .error e => { l with failure := some e }
    | .ok ds =>
      { l with depth := l.depth + 1, current := ⟨path, ds⟩, outer := l.current :: l.outer }

/-- The directive when the loader reaches it. -/
def visit (l : Loader) (d : Directive) : Visit :=
  ⟨maxDepth - l.depth, l.current.path, d, l.tracker⟩

/-- Runs a directive of the innermost file. -/
def run (l : Loader) (d : Directive) : Loader :=
  match asked s l.current.path d with
  | .error e => { l with failure := some e }
  | .ok path =>
    if (l.visit d).Wants path then
      { l with tracker := (l.visit d).remembers path }.enter s d.path path
    else l

/-- Leaves the innermost file, unless it is that of the program. -/
def leave (l : Loader) : Option Loader :=
  match l.outer with
  | [] => none
  | file :: files => some { l with depth := l.depth - 1, current := file, outer := files }

/-- What a loader does next: after a failure, or after the last directive of a file, it leaves the
file. -/
def step (l : Loader) : Option Loader :=
  match l.failure, l.current.rest with
  | none, d :: ds => some ({ l with current := ⟨l.current.path, ds⟩ }.run s d)
  | _, _ => l.leave

/-- One loader becomes the other, step by step. -/
abbrev Reaches : Loader → Loader → Prop :=
  Relation.ReflTransGen fun l l' => l.step s = some l'

/-- The steps of a loader, one by one. -/
inductive Moves : Loader → Loader → Prop where
  /-- The innermost file ends. -/
  | leave {t : Tracker} {n : Nat} {file outer : OpenFile} {others : List OpenFile}
      {failure : Option LoadError} (ended : failure ≠ none ∨ file.rest = []) :
      Moves ⟨t, n, file, outer :: others, failure⟩ ⟨t, n - 1, outer, others, failure⟩
  /-- A directive asks for no file. -/
  | astray {t : Tracker} {n : Nat} {at_ : Path} {d : Directive} {ds : List Directive}
      {outer : List OpenFile} {e : LoadError} (asks : asked s at_ d = .error e) :
      Moves ⟨t, n, ⟨at_, d :: ds⟩, outer, none⟩ ⟨t, n, ⟨at_, ds⟩, outer, some e⟩
  /-- A directive asks for a file that is remembered. -/
  | pass {t : Tracker} {n : Nat} {at_ path : Path} {d : Directive} {ds : List Directive}
      {outer : List OpenFile} (asks : asked s at_ d = .ok path)
      (unwanted : ¬ (Visit.mk (maxDepth - n) at_ d t).Wants path) :
      Moves ⟨t, n, ⟨at_, d :: ds⟩, outer, none⟩ ⟨t, n, ⟨at_, ds⟩, outer, none⟩
  /-- Too many files are open for another one. -/
  | tooDeep {t : Tracker} {n : Nat} {at_ path : Path} {d : Directive} {ds : List Directive}
      {outer : List OpenFile} (asks : asked s at_ d = .ok path)
      (wanted : (Visit.mk (maxDepth - n) at_ d t).Wants path) (full : maxDepth ≤ n) :
      Moves ⟨t, n, ⟨at_, d :: ds⟩, outer, none⟩
        ⟨(Visit.mk (maxDepth - n) at_ d t).remembers path, n, ⟨at_, ds⟩, outer,
          some (.nestingTooDeep d.path)⟩
  /-- The file of a directive holds no program. -/
  | unread {t : Tracker} {n : Nat} {at_ path : Path} {d : Directive} {ds : List Directive}
      {outer : List OpenFile} {e : LoadError} (asks : asked s at_ d = .ok path)
      (wanted : (Visit.mk (maxDepth - n) at_ d t).Wants path) (room : n < maxDepth)
      (holds : directivesIn s path = .error e) :
      Moves ⟨t, n, ⟨at_, d :: ds⟩, outer, none⟩
        ⟨(Visit.mk (maxDepth - n) at_ d t).remembers path, n, ⟨at_, ds⟩, outer, some e⟩
  /-- The file of a directive is opened. -/
  | enter {t : Tracker} {n : Nat} {at_ path : Path} {d : Directive} {ds inner : List Directive}
      {outer : List OpenFile} (asks : asked s at_ d = .ok path)
      (wanted : (Visit.mk (maxDepth - n) at_ d t).Wants path) (room : n < maxDepth)
      (holds : directivesIn s path = .ok inner) :
      Moves ⟨t, n, ⟨at_, d :: ds⟩, outer, none⟩
        ⟨(Visit.mk (maxDepth - n) at_ d t).remembers path, n + 1, ⟨path, inner⟩,
          ⟨at_, ds⟩ :: outer, none⟩

variable {s} {l l' : Loader}

theorem step_of_moves (h : Moves s l l') : l.step s = some l' := by
  cases h with
  | @leave t n file outer others failure ended =>
    rcases file with ⟨path, _ | ⟨d, ds⟩⟩ <;> rcases failure with _ | e <;>
      first | rfl | exact absurd ended (by simp)
  | astray asks => simp [step, run, asks]
  | pass asks unwanted => simp only [step, run, asks, visit, unwanted, if_false]
  | tooDeep asks wanted full =>
    simp only [step, run, asks, visit, wanted, if_true, Loader.enter, if_pos full]
  | unread asks wanted room holds =>
    simp only [step, run, asks, visit, wanted, if_true, Loader.enter,
      if_neg (Nat.not_le.mpr room), holds]
  | enter asks wanted room holds =>
    simp only [step, run, asks, visit, wanted, if_true, Loader.enter,
      if_neg (Nat.not_le.mpr room), holds]

theorem moves_of_step (h : l.step s = some l') : Moves s l l' := by
  obtain ⟨t, n, ⟨at_, ds⟩, outer, failure⟩ := l
  have leaves (ended : failure ≠ none ∨ ds = [])
      (h : (Loader.mk t n ⟨at_, ds⟩ outer failure).leave = some l') :
      Moves s ⟨t, n, ⟨at_, ds⟩, outer, failure⟩ l' := by
    cases outer with
    | nil => cases h
    | cons file files =>
      cases h
      exact .leave ended
  rcases failure with _ | e
  · rcases ds with _ | ⟨d, ds⟩
    · exact leaves (.inr rfl) h
    · cases asks : asked s at_ d with
      | error e =>
        simp only [step, run, asks, Option.some.injEq] at h
        exact h ▸ .astray asks
      | ok path =>
        by_cases wanted : (Visit.mk (maxDepth - n) at_ d t).Wants path
        · by_cases full : maxDepth ≤ n
          · simp only [step, run, asks, visit, wanted, if_true, Loader.enter, if_pos full,
              Option.some.injEq] at h
            exact h ▸ .tooDeep asks wanted full
          · have room := Nat.lt_of_not_le full
            cases holds : directivesIn s path with
            | error e =>
              simp only [step, run, asks, visit, wanted, if_true, Loader.enter,
                if_neg full, holds, Option.some.injEq] at h
              exact h ▸ .unread asks wanted room holds
            | ok inner =>
              simp only [step, run, asks, visit, wanted, if_true, Loader.enter,
                if_neg full, holds, Option.some.injEq] at h
              exact h ▸ .enter asks wanted room holds
        · simp only [step, run, asks, visit, wanted, if_false, Option.some.injEq] at h
          exact h ▸ .pass asks wanted
  · exact leaves (.inl (Option.some_ne_none e)) h

/-! ## Where a loader halts -/

theorem Moves.reaches (h : Moves s l l') : Reaches s l l' :=
  .single (step_of_moves h)

/-- A loader goes through the rest of a file and comes to its end, or to a failure in it, with the
count and the files around it as before. What failed, and what is remembered, are as when the
directives are run with so many levels of files left. -/
def Completes (s : Settings) (n : Nat) (at_ : Path) (outer : List OpenFile) (ds : List Directive)
    (t : Tracker) : Prop :=
  ∃ rest failure t',
    Reaches s ⟨t, n, ⟨at_, ds⟩, outer, none⟩ ⟨t', n, ⟨at_, rest⟩, outer, failure⟩
      ∧ (failure ≠ none ∨ rest = [])
      ∧ ending (runEach (runDirective s (maxDepth - n) at_) ds t) = (failure, t')

namespace Completes

variable {n : Nat} {at_ : Path} {outer : List OpenFile} {d : Directive} {ds : List Directive}
  {t t₁ : Tracker}

theorem nil : Completes s n at_ outer [] t :=
  ⟨[], none, t, .refl, .inr rfl, rfl⟩

theorem of_ok {inner : Body}
    (out : runDirective s (maxDepth - n) at_ d.kind d.path d.span t = (.ok inner, t₁))
    (first : Reaches s ⟨t, n, ⟨at_, d :: ds⟩, outer, none⟩ ⟨t₁, n, ⟨at_, ds⟩, outer, none⟩)
    (others : Completes s n at_ outer ds t₁) : Completes s n at_ outer (d :: ds) t := by
  obtain ⟨rest, failure, t', through, ended, same⟩ := others
  refine ⟨rest, failure, t', first.trans through, ended, ?_⟩
  rw [← same]
  exact congrArg ending (bind_of_ok out)

theorem of_error {e : LoadError}
    (out : runDirective s (maxDepth - n) at_ d.kind d.path d.span t = (.error e, t₁))
    (first : Reaches s ⟨t, n, ⟨at_, d :: ds⟩, outer, none⟩ ⟨t₁, n, ⟨at_, ds⟩, outer, some e⟩) :
    Completes s n at_ outer (d :: ds) t :=
  ⟨ds, some e, t₁, first, .inl (Option.some_ne_none e), congrArg ending (bind_of_error out)⟩

/-- A directive that opens a file, and the others after it. -/
theorem of_enter {path : Path} {inner : List Directive} (asks : asked s at_ d = .ok path)
    (wanted : (Visit.mk (maxDepth - n) at_ d t).Wants path) (room : n < maxDepth)
    (holds : directivesIn s path = .ok inner)
    (inside : Completes s (n + 1) path (⟨at_, ds⟩ :: outer) inner
      ((Visit.mk (maxDepth - n) at_ d t).remembers path))
    (others : ∀ t, Completes s n at_ outer ds t) : Completes s n at_ outer (d :: ds) t := by
  obtain ⟨rest, failure, t', through, ended, same⟩ := inside
  have first := ((Moves.enter asks wanted room holds).reaches.trans through).trans
    (Moves.leave ended).reaches
  rw [Nat.add_sub_cancel] at first
  have more : maxDepth - n = maxDepth - (n + 1) + 1 := by omega
  have out := (Visit.mk (maxDepth - n) at_ d t).outcome_eq_asked (s := s)
  simp only [asks, if_pos wanted] at out
  have contents := ending_contentsOfFile (s := s) (maxDepth - (n + 1)) d.path path
    ((Visit.mk (maxDepth - n) at_ d t).remembers path)
  simp only [holds, same] at contents
  rw [← more, ← out] at contents
  cases failure with
  | none =>
    obtain ⟨result, out⟩ := ending_eq_none.mp contents
    exact of_ok out first (others t')
  | some e => exact of_error (ending_eq_some.mp contents) first

/-- A directive and the others after it, by what the directive asks for. -/
theorem cons (inside : ∀ path inner t outer, n < maxDepth → Completes s (n + 1) path outer inner t)
    (others : ∀ t, Completes s n at_ outer ds t) : Completes s n at_ outer (d :: ds) t := by
  have out := (Visit.mk (maxDepth - n) at_ d t).outcome_eq_asked (s := s)
  cases asks : asked s at_ d with
  | error e =>
    simp only [asks] at out
    exact of_error out (Moves.astray asks).reaches
  | ok path =>
    simp only [asks] at out
    by_cases wanted : (Visit.mk (maxDepth - n) at_ d t).Wants path
    · rw [if_pos wanted] at out
      rcases Nat.lt_or_ge n maxDepth with room | full
      · cases holds : directivesIn s path with
        | error e =>
          have more : maxDepth - n = maxDepth - (n + 1) + 1 := by omega
          have contents := ending_contentsOfFile (s := s) (maxDepth - (n + 1)) d.path path
            ((Visit.mk (maxDepth - n) at_ d t).remembers path)
          simp only [holds] at contents
          rw [← more, ← out] at contents
          exact of_error (ending_eq_some.mp contents) (Moves.unread asks wanted room holds).reaches
        | ok inner => exact of_enter asks wanted room holds (inside _ _ _ _ room) others
      · have none_left : maxDepth - n = 0 := Nat.sub_eq_zero_of_le full
        refine of_error (out.trans ?_) (Moves.tooDeep asks wanted full).reaches
        simp only [none_left]
        rfl
    · rw [if_neg wanted] at out
      exact of_ok out (Moves.pass asks wanted).reaches (others t)

end Completes

/-- A loader goes through every file to its end, or to a failure. -/
theorem completes (s : Settings) (n : Nat) (at_ : Path) (outer : List OpenFile)
    (ds : List Directive) (t : Tracker) : Completes s n at_ outer ds t := by
  -- On the levels of files left, for the files that are opened, and on the directives of this one.
  induction left : maxDepth - n using Nat.strongRecOn generalizing n at_ outer ds t with
  | _ levels inside =>
  induction ds generalizing t with
  | nil => exact .nil
  | cons d ds others =>
    exact .cons (fun path inner t outer room => inside _ (by omega) _ _ _ _ _ rfl) others

/-- **A loader comes to a halt**, with the count it started from, after success and after every
failure. -/
theorem exists_halt (s : Settings) (n : Nat) (current : Path) (program : Body) (t : Tracker) :
    ∃ l, Reaches s (start t n current (Directives.ofNodes program)) l ∧ l.step s = none
      ∧ l.depth = n
      ∧ (l.failure, l.tracker)
        = ending (expandBody (runDirective s (maxDepth - n) current) program t) := by
  obtain ⟨rest, failure, t', through, ended, same⟩ :=
    completes s n current [] (Directives.ofNodes program) t
  refine ⟨_, through, ?_, rfl, ?_⟩
  · rcases failure with _ | e
    · rw [ended.resolve_left (fun h => h rfl)]
      rfl
    · rfl
  · rw [ending_of_silent (silent_expandBody _ program), same]

/-! ## The count -/

/-- The loader counts the files that are open, besides those that were when it started, and has
never opened one too many. -/
structure Counts (n : Nat) (l : Loader) : Prop where
  depth_eq : l.depth = n + l.outer.length
  nested : l.outer.length ≤ maxDepth - n

namespace Counts

variable {n : Nat}

theorem start (t : Tracker) (n : Nat) (current : Path) (ds : List Directive) :
    Counts n (start t n current ds) :=
  ⟨rfl, Nat.zero_le _⟩

theorem of_moves (h : Counts n l) (moves : Moves s l l') : Counts n l' := by
  obtain ⟨depth_eq, nested⟩ := h
  cases moves with
  | leave =>
    simp only [List.length_cons] at depth_eq nested
    exact ⟨by dsimp only; omega, by dsimp only; omega⟩
  | enter _ _ room =>
    refine ⟨?_, ?_⟩ <;> simp only [List.length_cons] at depth_eq ⊢ <;> omega
  | _ => exact ⟨depth_eq, nested⟩

theorem of_reaches (h : Counts n l) (reaches : Reaches s l l') : Counts n l' := by
  induction reaches with
  | refl => exact h
  | tail _ step ih => exact ih.of_moves (moves_of_step step)

end Counts

end Loader

end ScriptCompiler.Load
