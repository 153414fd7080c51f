import Mathlib.Data.List.Nodup
import Mathlib.Data.List.Perm.Subperm
import ScriptCompiler.Proofs.Files.Walks
import ScriptCompiler.Proofs.Load.Loader

/-!
# Reach of a program

What a program leads to, directly and through files, and what follows for files that load
themselves.
-/

/-!
## What a program leads to

The directives in reach of a program are those in it, and those in the files that directives in
reach ask for. A file that is remembered when the expansion starts is not put into the program again
for a `require`, so it is in reach only of `load`. A failure is that of a directive in reach, unless
files stand too deep inside one another. Without `load`, the files inside one another are different
ones, so no more of them can be open than are in reach.
-/

namespace ScriptCompiler.Load

/-! ### Reach -/

section Reach

variable (s : Settings) (t : Tracker) (current : Path) (ds : List Directive)

/-- A directive in a file is in reach of directives in the current one. -/
inductive InReach : Path → Directive → Prop where
  | program {d : Directive} (h : d ∈ ds) : InReach current d
  | file {at_ path : Path} {d d' : Directive} {inner : List Directive} (h : InReach at_ d)
      (asks : asked s at_ d = .ok path) (wanted : d.kind = .load ∨ t.contains path = false)
      (holds : directivesIn s path = .ok inner) (h' : d' ∈ inner) : InReach path d'

/-- A file is in reach. -/
def FileInReach (path : Path) : Prop :=
  ∃ at_ d, InReach s t current ds at_ d ∧ asked s at_ d = .ok path
    ∧ (d.kind = .load ∨ t.contains path = false)

/-- A directive in reach fails for what it asks for: no file has the name, or the file cannot be
read, or holds no program. -/
def FaultInReach (e : LoadError) : Prop :=
  (∃ at_ d, InReach s t current ds at_ d ∧ asked s at_ d = .error e)
    ∨ ∃ path, FileInReach s t current ds path ∧ directivesIn s path = .error e

end Reach

variable {s : Settings} {t : Tracker} {current : Path} {ds : List Directive}

theorem asked_ne_nestingTooDeep {at_ : Path} {d : Directive} {name : String} :
    asked s at_ d ≠ .error (.nestingTooDeep name) := by
  unfold asked
  split
  · nofun
  · cases s.files.canonical _ <;> nofun

theorem directivesIn_ne_nestingTooDeep {path : Path} {name : String} :
    directivesIn s path ≠ .error (.nestingTooDeep name) := by
  unfold directivesIn
  split
  · nofun
  · cases parse _ _ _ <;> nofun

theorem FileInReach.inReach {path : Path} {d : Directive} {inner : List Directive}
    (h : FileInReach s t current ds path) (holds : directivesIn s path = .ok inner)
    (hd : d ∈ inner) : InReach s t current ds path d := by
  obtain ⟨at_, d', h, asks, wanted⟩ := h
  exact .file h asks wanted holds hd

/-! ### What a loader reaches -/

namespace Loader

variable {l l' : Loader}

/-- What is left to a loader, and why it failed, are in reach of where it started. -/
structure Within (s : Settings) (t : Tracker) (current : Path) (ds : List Directive) (l : Loader) :
    Prop where
  known : t.Known l.tracker
  inReach : ∀ file ∈ l.current :: l.outer, ∀ d ∈ file.rest, InReach s t current ds file.path d
  failed : ∀ e, l.failure = some e → (∃ name, e = .nestingTooDeep name)
    ∨ FaultInReach s t current ds e

namespace Within

theorem start (t : Tracker) (n : Nat) (current : Path) (ds : List Directive) :
    Within s t current ds (start t n current ds) where
  known := List.Subset.refl _
  inReach file hf d hd := by
    obtain rfl := List.mem_singleton.mp hf
    exact .program hd
  failed := nofun

variable {t₁ : Tracker} {n : Nat} {at_ : Path} {d : Directive} {rest : List Directive}
  {outer : List OpenFile} (h : Within s t current ds ⟨t₁, n, ⟨at_, d :: rest⟩, outer, none⟩)

include h

/-- The directive that is next is in reach. -/
theorem next : InReach s t current ds at_ d :=
  h.inReach _ List.mem_cons_self d List.mem_cons_self

/-- The file that the next directive gets is in reach. -/
theorem file {levels : Nat} {path : Path} (asks : asked s at_ d = .ok path)
    (wanted : (Visit.mk levels at_ d t₁).Wants path) : FileInReach s t current ds path := by
  refine ⟨at_, d, h.next, asks, wanted.imp_right fun new => ?_⟩
  exact eq_false_of_ne_true fun old => ne_true_of_eq_false new (h.known.contains old)

theorem others : ∀ file ∈ ⟨at_, rest⟩ :: outer, ∀ d ∈ file.rest,
    InReach s t current ds file.path d := by
  have all := h.inReach
  rw [List.forall_mem_cons] at all ⊢
  exact ⟨fun d hd => all.1 d (List.mem_cons_of_mem _ hd), all.2⟩

theorem known_remembers {levels : Nat} {path : Path} :
    t.Known ((Visit.mk levels at_ d t₁).remembers path) :=
  List.Subset.trans h.known ((Visit.mk levels at_ d t₁).suffix_remembers path).subset

omit h

theorem of_moves (h : Within s t current ds l) (moves : Moves s l l') :
    Within s t current ds l' := by
  cases moves with
  | leave => exact ⟨h.known, (List.forall_mem_cons.mp h.inReach).2, h.failed⟩
  | astray asks =>
    refine ⟨h.known, h.others, fun e he => .inr (.inl ?_)⟩
    obtain rfl := Option.some.inj he
    exact ⟨_, _, h.next, asks⟩
  | pass => exact ⟨h.known, h.others, nofun⟩
  | tooDeep =>
    refine ⟨h.known_remembers, h.others, fun e he => .inl ?_⟩
    exact ⟨_, (Option.some.inj he).symm⟩
  | unread asks wanted _ holds =>
    refine ⟨h.known_remembers, h.others, fun e he => .inr (.inr ?_)⟩
    obtain rfl := Option.some.inj he
    exact ⟨_, h.file asks wanted, holds⟩
  | enter asks wanted _ holds =>
    refine ⟨h.known_remembers, ?_, nofun⟩
    exact List.forall_mem_cons.mpr ⟨fun d hd => (h.file asks wanted).inReach holds hd, h.others⟩

theorem of_reaches (h : Within s t current ds l) (reaches : Reaches s l l') :
    Within s t current ds l' := by
  induction reaches with
  | refl => exact h
  | tail _ step ih => exact ih.of_moves (moves_of_step step)

end Within

/-- The limit is met only when as many files are open as it allows. -/
theorem Counts.full {n : Nat} {name : String} (h : Counts n l) (moves : Moves s l l')
    (going : l.failure = none) (failed : l'.failure = some (.nestingTooDeep name)) :
    l.outer.length = maxDepth - n := by
  obtain ⟨depth_eq, nested⟩ := h
  cases moves with
  | leave =>
    rw [show _ = none from going] at failed
    cases failed
  | astray asks =>
    exact absurd (asks.trans (congrArg _ (Option.some.inj failed))) asked_ne_nestingTooDeep
  | tooDeep _ _ full =>
    dsimp only at depth_eq nested ⊢
    omega
  | unread _ _ _ holds =>
    exact absurd (holds.trans (congrArg _ (Option.some.inj failed))) directivesIn_ne_nestingTooDeep
  | pass | enter => cases failed

/-! ### Without `load` -/

/-- The files that were opened inside one another since the loader started. -/
def opened (l : Loader) : List Path :=
  ((l.current :: l.outer).map OpenFile.path).dropLast

theorem length_opened (l : Loader) : l.opened.length = l.outer.length := by
  simp [opened]

/-- The files that are open inside one another are in reach, and remembered as different ones. -/
structure Apart (s : Settings) (t : Tracker) (current : Path) (ds : List Directive) (l : Loader) :
    Prop where
  inReach : ∀ path ∈ l.opened, FileInReach s t current ds path
  remembered : ∀ path ∈ l.opened, l.tracker.contains path = true
  nodup : (l.opened.map Path.components).Nodup
  failed : ∀ name, l.failure ≠ some (.nestingTooDeep name)

namespace Apart

theorem start (t : Tracker) (n : Nat) (current : Path) (ds : List Directive) :
    Apart s t current ds (start t n current ds) :=
  ⟨nofun, nofun, List.nodup_nil, nofun⟩

/-- A file that is not remembered is none of those that are open. -/
theorem nodup_cons (h : Apart s t current ds l) {path : Path}
    (new : l.tracker.contains path = false) : ((path :: l.opened).map Path.components).Nodup := by
  refine List.nodup_cons.mpr ⟨fun known => ?_, h.nodup⟩
  obtain ⟨other, open_, same⟩ := List.mem_map.mp known
  have old := Tracker.contains_iff.mp (h.remembered other open_)
  rw [same] at old
  exact ne_true_of_eq_false new (Tracker.contains_iff.mpr old)

variable (noLoad : ∀ at_ d, InReach s t current ds at_ d → d.kind ≠ .load) {files : List Path}
  (few : files.length ≤ maxDepth) (all : ∀ path, FileInReach s t current ds path → path ∈ files)

include noLoad few all

theorem of_moves (h : Apart s t current ds l) (within : Within s t current ds l)
    (counts : Counts 0 l) (moves : Moves s l l') : Apart s t current ds l' := by
  cases moves with
  | leave =>
    have inReach := List.forall_mem_cons.mp h.inReach
    have remembered := List.forall_mem_cons.mp h.remembered
    exact ⟨inReach.2, remembered.2, (List.nodup_cons.mp h.nodup).2, h.failed⟩
  | astray asks =>
    refine ⟨h.inReach, h.remembered, h.nodup, fun name failed => ?_⟩
    exact asked_ne_nestingTooDeep (asks.trans (congrArg _ (Option.some.inj failed)))
  | pass => exact ⟨h.inReach, h.remembered, h.nodup, h.failed⟩
  | @tooDeep _ n at_ path d rest outer asks wanted full =>
    -- The open files and the one that is asked for are too many to be different ones in reach.
    have new := wanted.resolve_left (noLoad _ _ within.next)
    have inside : path :: opened ⟨_, n, ⟨at_, d :: rest⟩, outer, none⟩ ⊆ files :=
      List.cons_subset.mpr ⟨all _ (within.file asks wanted), fun p hp => all p (h.inReach p hp)⟩
    have length := ((h.nodup_cons new).of_map.subperm inside).length_le
    rw [List.length_cons, length_opened] at length
    have counted := counts.depth_eq
    dsimp only at counted length
    omega
  | unread asks wanted _ holds =>
    refine ⟨h.inReach, fun path hp => ?_, h.nodup, fun name failed => ?_⟩
    · exact Tracker.Known.contains (Visit.suffix_remembers _ _).subset (h.remembered path hp)
    · exact directivesIn_ne_nestingTooDeep (holds.trans (congrArg _ (Option.some.inj failed)))
  | @enter t₁ n at_ path d rest inner outer asks wanted _ holds =>
    have required := noLoad _ _ within.next
    refine ⟨?_, ?_, h.nodup_cons (wanted.resolve_left required), nofun⟩
    · exact List.forall_mem_cons.mpr ⟨within.file asks wanted, h.inReach⟩
    · refine List.forall_mem_cons.mpr ⟨?_, fun p hp => ?_⟩
      · exact (congrArg (Tracker.contains · path) (if_neg required)).trans (t₁.contains_insert path)
      · exact Tracker.Known.contains (Visit.suffix_remembers _ _).subset (h.remembered p hp)

theorem of_reaches (reaches : Reaches s (Loader.start t 0 current ds) l) :
    Apart s t current ds l := by
  induction reaches with
  | refl => exact start t 0 current ds
  | tail reaches step ih =>
    exact ih.of_moves noLoad few all ((Within.start t 0 current ds).of_reaches reaches)
      ((Counts.start t 0 current ds).of_reaches reaches) (moves_of_step step)

end Apart

end Loader

end ScriptCompiler.Load

/-!
## Files that load themselves

An expansion that succeeds has reached every directive in reach: a file that was remembered when a
directive asked for it had its contents put into the program for another one. Each file that is
loaded inside another one has fewer levels of files left, so no file in reach loads itself, directly
or through others. The count of a loader stays within the limit either way; without `load` it never
meets the limit as long as no more files are in reach.
-/

namespace ScriptCompiler.Load

variable {s : Settings}

/-! ### Expansions that succeed -/

theorem Visit.file?_eq_some_iff_asked {v : Visit} {path : Path} :
    v.file? s = some path ↔ asked s v.current v.directive = .ok path := by
  unfold Visit.file? asked
  cases s.find v.current v.directive.kind v.directive.path with
  | none => simp
  | some found => cases h : s.files.canonical found <;> simp [h, Except.toOption, Except.mapError]

theorem directivesIn_eq_ok {path : Path} {ds : List Directive} :
    directivesIn s path = .ok ds ↔ ∃ text program, s.files.readText path = .ok text
      ∧ parse path.text text [] = .ok program ∧ ds = Directives.ofNodes program := by
  unfold directivesIn
  cases s.files.readText path with
  | error e => simp
  | ok text =>
    cases hp : parse path.text text [] <;> simp [hp, Except.mapError, Except.map, eq_comm]

theorem turns_of_ok {replace : Replace} {ds : List Directive} {t t' : Tracker}
    (run : runEach replace ds t = (.ok (), t')) : (turns replace ds t).map Prod.fst = ds
      ∧ ∀ turn ∈ turns replace ds t, ∃ inner t₁,
        replace turn.1.kind turn.1.path turn.1.span turn.2 = (.ok inner, t₁) := by
  induction ds generalizing t with
  | nil => exact ⟨rfl, nofun⟩
  | cons d ds ih =>
    obtain ⟨inner, mid, first, others⟩ := bind_ok run
    obtain ⟨all, succeed⟩ := ih others
    rw [turns, first, List.map_cons, all]
    exact ⟨rfl, List.forall_mem_cons.mpr ⟨⟨inner, mid, first⟩, succeed⟩⟩

/-- A directive that succeeded and got the contents of its file has opened the file. -/
theorem Visit.opened_of_ok {v : Visit} {path : Path} {result : Body} {t' : Tracker}
    (out : v.outcome s = (.ok result, t')) (hf : v.file? s = some path) (wanted : v.Wants path) :
    ∃ below inner, v.levels = below + 1 ∧ v.opened? s = some (path, inner)
      ∧ runEach (runDirective s below path) inner (v.remembers path) = (.ok (), t') := by
  rw [outcome_eq hf, if_pos wanted] at out
  obtain ⟨below, text, program, levels, ht, hp, ran⟩ := contentsOfFile_ok out
  exact ⟨below, _, levels, opened?_eq_some.mpr ⟨hf, wanted, text, program, ht, hp, rfl⟩,
    runEach_of_silent (silent_expandBody _ program) ran⟩

section Success

variable {levels : Nat} {current : Path} {ds : List Directive} {t t' : Tracker}

/-- What is reached in the file of a directive that is reached is reached. -/
theorem visits_subset {v : Visit} {below : Nat} {path : Path} {inner : List Directive}
    (hv : v ∈ visits s levels current ds t) (hl : v.levels = below + 1)
    (opened : v.opened? s = some (path, inner)) :
    visits s below path inner (v.remembers path) ⊆ visits s levels current ds t := by
  intro w hw
  induction levels using Nat.strongRecOn generalizing current ds t with
  | _ levels ih =>
  obtain ⟨d, t₀, turn, rfl | ⟨under, file, ds', rfl, other, inside⟩⟩ := mem_visits.mp hv
  · exact mem_visits.mpr ⟨d, t₀, turn, .inr ⟨below, path, inner, hl, opened, hw⟩⟩
  · refine mem_visits.mpr ⟨d, t₀, turn, .inr ⟨under, file, ds', rfl, other, ?_⟩⟩
    exact ih under (Nat.lt_succ_self under) inside

variable (run : runEach (runDirective s levels current) ds t = (.ok (), t'))

include run

theorem exists_visit {d : Directive} (hd : d ∈ ds) :
    ∃ t₀, ⟨levels, current, d, t₀⟩ ∈ visits s levels current ds t := by
  rw [← (turns_of_ok run).1] at hd
  obtain ⟨⟨d, t₀⟩, turn, rfl⟩ := List.mem_map.mp hd
  exact ⟨t₀, mem_visits_of_turn turn⟩

/-- Every directive that is reached succeeds. -/
theorem ok_of_mem_visits {v : Visit} (hv : v ∈ visits s levels current ds t) :
    ∃ result t₁, v.outcome s = (.ok result, t₁) := by
  induction levels using Nat.strongRecOn generalizing current ds t t' with
  | _ levels ih =>
  obtain ⟨d, t₀, turn, here | ⟨below, path, inner, rfl, opened, inside⟩⟩ := mem_visits.mp hv
  · exact here ▸ (turns_of_ok run).2 _ turn
  · obtain ⟨result, t₁, out⟩ : ∃ result t₁,
        (Visit.mk (below + 1) current d t₀).outcome s = (.ok result, t₁) :=
      (turns_of_ok run).2 _ turn
    obtain ⟨hf, wanted, -⟩ := Visit.opened?_eq_some.mp opened
    obtain ⟨under, ds', levels, again, ran⟩ := Visit.opened_of_ok out hf wanted
    obtain rfl : below = under := Nat.succ.inj levels
    obtain ⟨-, rfl⟩ : path = path ∧ inner = ds' := by simpa using opened.symm.trans again
    exact ih below (Nat.lt_succ_self below) ran inside

omit run

/-- The directives of a file are all reached, with so many levels of files left. -/
def Entered (s : Settings) (reached : List Visit) (below : Nat) (path : Path) : Prop :=
  ∀ inner, directivesIn s path = .ok inner → ∀ d ∈ inner, ∃ t₀, ⟨below, path, d, t₀⟩ ∈ reached

include run

/-- The file of a directive that got its contents has all its directives reached. -/
theorem entered_of_wants {v : Visit} {path : Path} (hv : v ∈ visits s levels current ds t)
    (hf : v.file? s = some path) (wanted : v.Wants path) :
    ∃ below, v.levels = below + 1 ∧ Entered s (visits s levels current ds t) below path := by
  obtain ⟨result, t₁, out⟩ := ok_of_mem_visits run hv
  obtain ⟨below, inner, hl, opened, ran⟩ := Visit.opened_of_ok out hf wanted
  refine ⟨below, hl, fun ds' holds d hd => ?_⟩
  obtain ⟨-, -, contents⟩ := Visit.opened?_eq_some.mp opened
  obtain rfl : inner = ds' := Except.ok.inj ((directivesIn_eq_ok.mpr contents).symm.trans holds)
  obtain ⟨t₀, inside⟩ := exists_visit ran hd
  exact ⟨t₀, visits_subset hv hl opened inside⟩

omit run

/-- A file that is remembered, and was not at first, was put into the program. -/
theorem exists_splicing {v : Visit} {file : Path} (hv : v ∈ visits s levels current ds t)
    (new : t.contains file = false) (old : v.tracker.contains file = true) :
    ∃ w ∈ visits s levels current ds t, w.directive.kind ≠ .load
      ∧ ∃ path, w.file? s = some path ∧ path.components = file.components ∧ w.Wants path := by
  classical
  have leads := leads_visits s levels current ds t
  obtain ⟨before, after, split⟩ := List.append_of_mem
    (List.mem_map_of_mem hv : Event.reached v ∈ (visits s levels current ds t).map .reached)
  obtain ⟨e, he, named⟩ := ((leads.before before v after split).2.2.2 file).mp old
    |>.resolve_left (ne_true_of_eq_false new)
  -- The first event that names the file.
  have found : (before.find? fun e => decide (e.Names s file)).isSome = true :=
    List.find?_isSome.mpr ⟨e, he, decide_eq_true named⟩
  obtain ⟨first, found⟩ := Option.isSome_iff_exists.mp found
  obtain ⟨names, xs, ys, rfl, none⟩ := List.find?_eq_some_iff_append.mp found
  rw [List.append_assoc] at split
  obtain ⟨w, hw, rfl⟩ : ∃ w ∈ visits s levels current ds t, Event.reached w = first :=
    List.mem_map.mp (split ▸ List.mem_append_right _ List.mem_cons_self)
  obtain ⟨required, path, hf, same⟩ := of_decide_eq_true names
  refine ⟨w, hw, required, path, hf, same, .inr (eq_false_of_ne_true fun known => ?_)⟩
  rw [Tracker.contains_iff, same, ← Tracker.contains_iff] at known
  obtain ⟨e', he', named'⟩ := ((leads.before xs w _ split).2.2.2 file).mp known
    |>.resolve_left (ne_true_of_eq_false new)
  have unnamed := none e' he'
  simp [named'] at unnamed

/-- Files whose paths have the same components are the same file. -/
theorem Visit.file?_inj (plain : ∀ n ∈ s.files.workingDir, PlainName n) {v w : Visit}
    {path path' : Path} (hv : v.file? s = some path) (hw : w.file? s = some path')
    (same : path.components = path'.components) : path = path' := by
  have ofNames {u : Visit} {p : Path} (hu : u.file? s = some p) :
      ∃ names, p = .ofNames names ∧ ∀ n ∈ names, PlainName n := by
    obtain ⟨found, names, resolved, rfl⟩ := Visit.ofNames_of_file? hu
    exact ⟨names, rfl, FileSystem.plain_of_resolve plain resolved⟩
  obtain ⟨names, rfl, hn⟩ := ofNames hv
  obtain ⟨names', rfl, hn'⟩ := ofNames hw
  rw [FileSystem.components_ofNames hn, FileSystem.components_ofNames hn'] at same
  have inj : Function.Injective Path.Component.name := fun _ _ h => Path.Component.name.inj h
  rw [List.map_injective_iff.mpr inj (List.cons.inj same).2]

variable (plain : ∀ n ∈ s.files.workingDir, PlainName n)

include run plain

/-- The file of a directive that is reached has all its directives reached, unless it was remembered
at first. -/
theorem entered_of_visit {v : Visit} {path : Path} (hv : v ∈ visits s levels current ds t)
    (hf : v.file? s = some path)
    (wanted : v.directive.kind = .load ∨ t.contains path = false) :
    ∃ below, Entered s (visits s levels current ds t) below path := by
  by_cases wants : v.Wants path
  · obtain ⟨below, -, entered⟩ := entered_of_wants run hv hf wants
    exact ⟨below, entered⟩
  · obtain ⟨required, known⟩ := not_or.mp wants
    obtain ⟨w, hw, -, path', hf', same, wants'⟩ :=
      exists_splicing hv (wanted.resolve_left required) (by simpa using known)
    obtain rfl := Visit.file?_inj plain hf' hf same
    obtain ⟨below, -, entered⟩ := entered_of_wants run hw hf' wants'
    exact ⟨below, entered⟩

theorem exists_visit_of_inReach {at_ : Path} {d : Directive} (h : InReach s t current ds at_ d) :
    ∃ left t₀, ⟨left, at_, d, t₀⟩ ∈ visits s levels current ds t := by
  induction h with
  | program hd => exact ⟨levels, exists_visit run hd⟩
  | file _ asks wanted holds hd' ih =>
    obtain ⟨left, t₀, hv⟩ := ih
    obtain ⟨below, entered⟩ :=
      entered_of_visit run plain hv (Visit.file?_eq_some_iff_asked.mpr asks) wanted
    exact ⟨below, entered _ holds _ hd'⟩

theorem entered_of_fileInReach {path : Path} (h : FileInReach s t current ds path) :
    ∃ below, Entered s (visits s levels current ds t) below path := by
  obtain ⟨at_, d, h, asks, wanted⟩ := h
  obtain ⟨left, t₀, hv⟩ := exists_visit_of_inReach run plain h
  exact entered_of_visit run plain hv (Visit.file?_eq_some_iff_asked.mpr asks) wanted

end Success

/-! ### Cycles -/

/-- A file loads another one. -/
def Loads (s : Settings) (path path' : Path) : Prop :=
  ∃ ds d, directivesIn s path = .ok ds ∧ d ∈ ds ∧ d.kind = .load ∧ asked s path d = .ok path'

section Cycles

variable {levels : Nat} {current : Path} {ds : List Directive} {t t' : Tracker}
  (run : runEach (runDirective s levels current) ds t = (.ok (), t'))

include run

/-- Files that files load have fewer levels of files left. -/
theorem entered_of_loads {below : Nat} {path path' : Path}
    (entered : Entered s (visits s levels current ds t) below path)
    (loads : Relation.TransGen (Loads s) path path') :
    ∃ under < below, Entered s (visits s levels current ds t) under path' := by
  have once {below : Nat} {path path' : Path}
      (entered : Entered s (visits s levels current ds t) below path) (loads : Loads s path path') :
      ∃ under < below, Entered s (visits s levels current ds t) under path' := by
    obtain ⟨inner, d, holds, hd, load, asks⟩ := loads
    obtain ⟨t₀, hv⟩ := entered inner holds d hd
    obtain ⟨under, hl, entered'⟩ :=
      entered_of_wants run hv (Visit.file?_eq_some_iff_asked.mpr asks) (.inl load)
    exact ⟨under, Nat.lt_of_lt_of_eq (Nat.lt_succ_self under) hl.symm, entered'⟩
  induction loads with
  | single loads => exact once entered loads
  | tail _ loads ih =>
    obtain ⟨mid, less, entered'⟩ := ih
    obtain ⟨under, less', entered''⟩ := once entered' loads
    exact ⟨under, less'.trans less, entered''⟩

theorem not_entered_of_cycle {path : Path} (cycle : Relation.TransGen (Loads s) path path)
    (below : Nat) : ¬ Entered s (visits s levels current ds t) below path := by
  induction below using Nat.strongRecOn with
  | _ below ih =>
  intro entered
  obtain ⟨under, less, entered'⟩ := entered_of_loads run entered cycle
  exact ih under less entered'

end Cycles

/-! ### The limit -/

/-- How a loader goes through the expansion of a program, and what its limit means for the
expansion, which is the one that starts from the count 0. -/
structure WithinLimit (s : Settings) (current : Path) (program : Body) (t : Tracker) : Prop where
  /-- From any count, the loader comes to a halt, with the same count, and where the expansion with
  so many levels of files left ends. -/
  halts : ∀ n, ∃ l, Loader.Reaches s (.start t n current (Directives.ofNodes program)) l
    ∧ l.step s = none ∧ l.depth = n
    ∧ (l.failure, l.tracker) = ending (expandBody (runDirective s (maxDepth - n) current) program t)
  /-- At any time, the loader has counted the files that it has opened inside one another, and they
  are no more than the limit leaves. -/
  counts : ∀ n l, Loader.Reaches s (.start t n current (Directives.ofNodes program)) l →
    l.depth = n + l.opened.length ∧ l.opened.length ≤ maxDepth - n
  /-- The limit is met only when as many files are open as it allows. -/
  met : ∀ n l l' name, Loader.Reaches s (.start t n current (Directives.ofNodes program)) l →
    l.step s = some l' → l.failure = none → l'.failure = some (.nestingTooDeep name) →
    l.opened.length = maxDepth - n
  /-- A failure is that the limit was met, or that of a directive in reach. -/
  fails : ∀ e t', expand s current program t = (.error e, t') →
    (∃ name, e = .nestingTooDeep name) ∨ FaultInReach s t current (Directives.ofNodes program) e
  /-- If a file in reach loads itself, directly or through others, the expansion fails. -/
  cycle : (∀ n ∈ s.files.workingDir, PlainName n) →
    ∀ path, FileInReach s t current (Directives.ofNodes program) path →
      Relation.TransGen (Loads s) path path → ∃ e t', expand s current program t = (.error e, t')
  /-- If nothing in reach is loaded, and no more files are in reach than may be open inside one
  another, the limit is not met. -/
  required : (∀ at_ d, InReach s t current (Directives.ofNodes program) at_ d → d.kind ≠ .load) →
    ∀ files : List Path, files.length ≤ maxDepth →
      (∀ path, FileInReach s t current (Directives.ofNodes program) path → path ∈ files) →
      ∀ name t', expand s current program t ≠ (.error (.nestingTooDeep name), t')

/-- **Expansion ends, and its limit is exact**, whatever files there are and however they ask for
one another. -/
theorem withinLimit_expand (s : Settings) (current : Path) (program : Body) (t : Tracker) :
    WithinLimit s current program t := by
  obtain ⟨l, reaches, -, -, ends⟩ := Loader.exists_halt s 0 current program t
  have failure {e : LoadError} {t' : Tracker} (h : expand s current program t = (.error e, t')) :
      l.failure = some e :=
    (Prod.mk.inj (ends.trans (ending_eq_some.mpr h))).1
  refine ⟨fun n => Loader.exists_halt s n current program t, fun n l reaches => ?_,
    fun n l l' name reaches step going failed => ?_, fun e t' h => ?_,
    fun plain path inReach cycle => ?_, fun noLoad files few all name t' h => ?_⟩
  · obtain ⟨depth_eq, nested⟩ := (Loader.Counts.start t n current _).of_reaches reaches
    rw [Loader.length_opened]
    exact ⟨depth_eq, nested⟩
  · have counts := (Loader.Counts.start t n current _).of_reaches reaches
    rw [Loader.length_opened]
    exact counts.full (Loader.moves_of_step step) going failed
  · exact ((Loader.Within.start t 0 current _).of_reaches reaches).failed e (failure h)
  · rcases h : expand s current program t with ⟨e | result, t'⟩
    · exact ⟨e, t', rfl⟩
    · have run := runEach_of_silent (silent_expandBody _ program) h
      obtain ⟨below, entered⟩ := entered_of_fileInReach run plain inReach
      exact absurd entered (not_entered_of_cycle run cycle below)
  · exact (Loader.Apart.of_reaches noLoad few all reaches).failed name (failure h)

/-- A file that loads itself, and two files that require one another. -/
def circularFiles : Settings where
  files := .ofFiles ["app"] [("self.gn", some "load './self.gn'".toUTF8.toList),
    ("a.gn", some "require 'b'".toUTF8.toList), ("b.gn", some "require 'a'".toUTF8.toList)]
  loadPath := []
  workingDir := ⟨"/app"⟩

/-- A directive that requires a file, over so many columns. -/
def requiring (name : String) (columns : Nat) : Directive :=
  ⟨.require, name, ⟨1, 1, 1, columns⟩⟩

/-- A program that requires a file. -/
def requiringProgram (name : String) : Body :=
  [⟨.directive .require name, ⟨1, 1, 1, 1⟩⟩]

/-- Two files that require one another lead to nothing else. -/
theorem inReach_requiring {at_ : Path} {d : Directive}
    (h : InReach circularFiles .empty ⟨"main.gn"⟩ [requiring "a" 1] at_ d) :
    (at_, d) ∈ [(⟨"main.gn"⟩, requiring "a" 1), (⟨"/app/a.gn"⟩, requiring "b" 11),
      (⟨"/app/b.gn"⟩, requiring "a" 11)] := by
  have a : directivesIn circularFiles ⟨"/app/a.gn"⟩ = .ok [requiring "b" 11] := by decide +kernel
  have b : directivesIn circularFiles ⟨"/app/b.gn"⟩ = .ok [requiring "a" 11] := by decide +kernel
  induction h with
  | program hd => exact List.mem_cons.mpr (.inl (congrArg _ (List.mem_singleton.mp hd)))
  | @file at_ path d d' inner _ asks _ holds hd' ih =>
    have next : path = ⟨"/app/a.gn"⟩ ∨ path = ⟨"/app/b.gn"⟩ := by
      simp only [List.mem_cons, Prod.mk.injEq, List.not_mem_nil, or_false] at ih
      rcases ih with ⟨rfl, rfl⟩ | ⟨rfl, rfl⟩ | ⟨rfl, rfl⟩
      · exact .inl (Except.ok.inj (asks.symm.trans (by decide)))
      · exact .inr (Except.ok.inj (asks.symm.trans (by decide)))
      · exact .inl (Except.ok.inj (asks.symm.trans (by decide)))
    rcases next with rfl | rfl
    · obtain rfl := Except.ok.inj (holds.symm.trans a)
      simp [List.mem_singleton.mp hd']
    · obtain rfl := Except.ok.inj (holds.symm.trans b)
      simp [List.mem_singleton.mp hd']

/-- What loads itself meets the limit; what requires itself does not. -/
theorem withinLimit_circularFiles :
    (∃ e t', expand circularFiles ⟨"main.gn"⟩ (requiringProgram "self") .empty = (.error e, t'))
      ∧ ∀ name t', expand circularFiles ⟨"main.gn"⟩ (requiringProgram "a") .empty
        ≠ (.error (.nestingTooDeep name), t') := by
  constructor
  · have plain : ∀ n ∈ circularFiles.files.workingDir, PlainName n :=
      List.forall_mem_singleton.mpr ⟨by decide, by decide, by decide, by decide⟩
    refine (withinLimit_expand _ _ _ _).cycle plain ⟨"/app/self.gn"⟩ ?_ (.single ?_)
    · exact ⟨_, requiring "self" 1, .program List.mem_cons_self, by decide +kernel, .inr rfl⟩
    · exact ⟨[⟨.load, "./self.gn", ⟨1, 1, 1, 16⟩⟩], _, by decide +kernel, List.mem_cons_self, rfl,
        by decide +kernel⟩
  · refine (withinLimit_expand _ _ _ _).required (fun at_ d h => ?_)
      [⟨"/app/a.gn"⟩, ⟨"/app/b.gn"⟩] (by decide) ?_
    · have known := inReach_requiring h
      simp only [List.mem_cons, Prod.mk.injEq, List.not_mem_nil, or_false] at known
      rcases known with ⟨-, rfl⟩ | ⟨-, rfl⟩ | ⟨-, rfl⟩ <;> decide
    · rintro path ⟨at_, d, h, asks, -⟩
      have known := inReach_requiring h
      simp only [List.mem_cons, Prod.mk.injEq, List.not_mem_nil, or_false] at known ⊢
      rcases known with ⟨rfl, rfl⟩ | ⟨rfl, rfl⟩ | ⟨rfl, rfl⟩
      · exact .inl (Except.ok.inj (asks.symm.trans (by decide)))
      · exact .inr (Except.ok.inj (asks.symm.trans (by decide)))
      · exact .inl (Except.ok.inj (asks.symm.trans (by decide)))

end ScriptCompiler.Load
