import ScriptCompiler.Proofs.Load.Expansion

/-!
# Required once, loaded every time

What happens while a loader is used, in order: files are marked as part of the program, and
directives are reached, in the program itself and in the files that it leads to. A file is named
when it is marked or when `require` or `require_relative` means it. The files that are remembered
are those that were named, so the first directive that names a file gets its contents, and later
ones get nothing. A directive `load` names no file, and gets the contents each time.
-/

namespace ScriptCompiler.Load

/-! ## Directives that are reached -/

/-- A directive when it is reached: how many levels of files are left, the file that it stands in,
and what is remembered then. -/
structure Visit where
  levels : Nat
  current : Path
  directive : Directive
  tracker : Tracker

namespace Visit

/-- The directive, reached with other files remembered. -/
def again (v : Visit) (t : Tracker) : Visit :=
  { v with tracker := t }

variable (s : Settings)

/-- What the directive is replaced by, and what is remembered after it. -/
def outcome (v : Visit) : Except LoadError Body × Tracker :=
  runDirective s v.levels v.current v.directive.kind v.directive.path v.directive.span v.tracker

/-- The file that the directive means. -/
def file? (v : Visit) : Option Path :=
  (s.find v.current v.directive.kind v.directive.path).bind fun found =>
    (s.files.canonical found).toOption

/-- What is remembered when the file of the directive is opened. -/
def remembers (v : Visit) (path : Path) : Tracker :=
  if v.directive.kind = .load then v.tracker else v.tracker.insert path

/-- The file of the directive is wanted. -/
def Wants (v : Visit) (path : Path) : Prop :=
  v.directive.kind = .load ∨ v.tracker.contains path = false

instance (v : Visit) (path : Path) : Decidable (v.Wants path) :=
  inferInstanceAs (Decidable (_ ∨ _))

/-- The program that the directive has expanded, if it comes to that: the path of its file, and the
directives in it. -/
def opened? (v : Visit) : Option (Path × List Directive) :=
  (v.file? s).bind fun path =>
    if v.Wants path then
      (s.files.readText path).toOption.bind fun text =>
        (parse path.text text []).toOption.map fun program => (path, Directives.ofNodes program)
    else none

/-- The directive, and those that are reached in its file. -/
def withInner (deeper : Path → List Directive → Tracker → List Visit) (v : Visit) : List Visit :=
  v :: match v.opened? s with
    | some (path, ds) => deeper path ds (v.remembers path)
    | none => []

end Visit

/-- The directives of a file that are reached, each followed by those in its own file. -/
def inTurns (s : Settings) (levels : Nat) (current : Path)
    (deeper : Path → List Directive → Tracker → List Visit) (ds : List Directive) (t : Tracker) :
    List Visit :=
  (turns (runDirective s levels current) ds t).flatMap fun (d, t₀) =>
    Visit.withInner s deeper ⟨levels, current, d, t₀⟩

/-- The directives that are reached when some in a file are run, with so many levels of files left.
Without any level left, no file is opened. -/
def visits (s : Settings) : Nat → Path → List Directive → Tracker → List Visit
  | 0, current, ds, t => inTurns s 0 current (fun _ _ _ => []) ds t
  | levels + 1, current, ds, t => inTurns s (levels + 1) current (visits s levels) ds t

/-! ## Calls of a loader -/

/-- What a loader is asked to do. -/
inductive Call where
  /-- To treat a file as part of the program already. -/
  | mark (path : Path)
  /-- To replace the directives in a program from a file. -/
  | expand (current : Path) (program : Body)

/-- Something that happens while a loader is used. -/
inductive Event where
  /-- A file is marked. -/
  | marked (file : Path)
  /-- A directive is reached. -/
  | reached (visit : Visit)

/-- The event names the file: from then on, `require` gets nothing for it. -/
def Event.Names (s : Settings) (file : Path) : Event → Prop
  | .marked path => path.components = file.components
  | .reached v =>
    v.directive.kind ≠ .load ∧ ∃ path, v.file? s = some path ∧ path.components = file.components

/-- The event is that `require` or `require_relative` puts the file into the program. -/
def Event.splices (s : Settings) (file : Path) : Event → Bool
  | .marked _ => false
  | .reached v =>
    v.directive.kind ≠ .load && (v.file? s).any fun path =>
      path.components = file.components && !v.tracker.contains path

/-- What is remembered after a call. -/
def Call.after (s : Settings) (t : Tracker) : Call → Tracker
  | .mark path => markLoaded s t path
  | .expand current program => (Load.expand s current program t).2

/-- What happens during a call. -/
def Call.events (s : Settings) (t : Tracker) : Call → List Event
  | .mark path => ((s.files.canonical path).toOption.map Event.marked).toList
  | .expand current program =>
    (visits s maxDepth current (Directives.ofNodes program) t).map .reached

/-- What is remembered after calls. -/
def remembered (s : Settings) (calls : List Call) (t : Tracker) : Tracker :=
  calls.foldl (Call.after s) t

/-- What happens during calls. -/
def journal (s : Settings) : List Call → Tracker → List Event
  | [], _ => []
  | call :: calls, t => call.events s t ++ journal s calls (call.after s t)

/-! ## What is remembered -/

theorem Tracker.contains_iff {t : Tracker} {file : Path} :
    t.contains file = true ↔ file.components ∈ t.loaded := by
  rw [contains, List.contains_iff_mem]

theorem Tracker.contains_insert_iff {t : Tracker} {path file : Path} :
    (t.insert path).contains file = true
      ↔ t.contains file = true ∨ path.components = file.components := by
  unfold insert
  split
  · next h =>
    refine ⟨.inl, fun hf => hf.elim id fun hp => ?_⟩
    rw [contains_iff, ← hp]
    exact contains_iff.mp h
  · rw [contains_iff, contains_iff, List.mem_cons, or_comm, eq_comm]

theorem Tracker.suffix_insert (t : Tracker) (path : Path) :
    t.loaded <:+ (t.insert path).loaded := by
  unfold insert
  split
  · exact List.suffix_rfl
  · exact List.suffix_cons _ _

/-- Events lead from what is remembered before them to what is remembered after them: each file that
one of them names is remembered, and nothing else is new. -/
structure Leads (s : Settings) (t : Tracker) (events : List Event) (t' : Tracker) : Prop where
  grows : t.loaded <:+ t'.loaded
  after : ∀ file, t'.contains file = true ↔ t.contains file = true ∨ ∃ e ∈ events, e.Names s file
  before : ∀ xs v ys, events = xs ++ .reached v :: ys →
    t.loaded <:+ v.tracker.loaded ∧ v.tracker.loaded <:+ (v.outcome s).2.loaded
      ∧ (v.outcome s).2.loaded <:+ t'.loaded
      ∧ ∀ file, v.tracker.contains file = true
        ↔ t.contains file = true ∨ ∃ e ∈ xs, e.Names s file

namespace Leads

variable {s : Settings} {t t₁ t₂ : Tracker} {xs ys : List Event}

theorem nil : Leads s t [] t where
  grows := List.suffix_rfl
  after _ := by simp
  before xs v ys h := by simp at h

theorem append (h : Leads s t xs t₁) (h' : Leads s t₁ ys t₂) : Leads s t (xs ++ ys) t₂ where
  grows := h.grows.trans h'.grows
  after file := by
    rw [h'.after, h.after]
    simp only [List.mem_append, or_and_right, exists_or, or_assoc]
  before as v bs hs := by
    rcases List.append_eq_append_iff.mp hs with ⟨cs, has, hys⟩ | ⟨cs, hxs, hbs⟩
    · obtain ⟨h₁, h₂, h₃, h₄⟩ := h'.before cs v bs hys
      refine ⟨h.grows.trans h₁, h₂, h₃, fun file => ?_⟩
      rw [h₄, h.after, has]
      simp only [List.mem_append, or_and_right, exists_or, or_assoc]
    · cases cs with
      | nil =>
        rw [List.nil_append] at hbs
        rw [List.append_nil] at hxs
        obtain ⟨h₁, h₂, h₃, h₄⟩ := h'.before [] v bs hbs.symm
        refine ⟨h.grows.trans h₁, h₂, h₃, fun file => ?_⟩
        rw [h₄, h.after, hxs]
        simp
      | cons c cs =>
        obtain ⟨rfl, -⟩ := List.cons.inj hbs
        obtain ⟨h₁, h₂, h₃, h₄⟩ := h.before as v cs hxs
        exact ⟨h₁, h₂, h₃.trans h'.grows, h₄⟩

/-- A directive is reached first, and what it names is remembered when the others are. -/
theorem reached {v : Visit} (hg : v.tracker.loaded <:+ t₁.loaded)
    (hn : ∀ file, t₁.contains file = true
      ↔ v.tracker.contains file = true ∨ (Event.reached v).Names s file)
    (h : Leads s t₁ xs (v.outcome s).2) :
    Leads s v.tracker (.reached v :: xs) (v.outcome s).2 where
  grows := hg.trans h.grows
  after file := by
    rw [h.after, hn]
    simp only [List.mem_cons, or_and_right, exists_or, exists_eq_left, or_assoc]
  before as w bs hs := by
    cases as with
    | nil =>
      obtain ⟨hv, -⟩ := List.cons.inj hs
      cases hv
      exact ⟨List.suffix_rfl, hg.trans h.grows, List.suffix_rfl, fun file => by simp⟩
    | cons a as =>
      obtain ⟨rfl, hxs⟩ := List.cons.inj hs
      obtain ⟨h₁, h₂, h₃, h₄⟩ := h.before as w bs hxs
      refine ⟨hg.trans h₁, h₂, h₃, fun file => ?_⟩
      rw [h₄, hn]
      simp only [List.mem_cons, or_and_right, exists_or, exists_eq_left, or_assoc]

theorem marked (s : Settings) (t : Tracker) (file : Path) :
    Leads s t [.marked file] (t.insert file) where
  grows := t.suffix_insert file
  after other := by
    rw [Tracker.contains_insert_iff]
    simp only [List.mem_singleton, exists_eq_left, Event.Names]
  before as v bs hs := by
    have hm := congrArg (Event.reached v ∈ ·) hs
    simp at hm

end Leads

/-! ## What directives are replaced by -/

theorem toOption_eq_some {ε α : Type} {r : Except ε α} {a : α} :
    r.toOption = some a ↔ r = .ok a := by
  cases r <;> simp [Except.toOption]

namespace Visit

variable {s : Settings} {v : Visit} {path : Path}

theorem file?_eq_some :
    v.file? s = some path ↔ ∃ found, s.find v.current v.directive.kind v.directive.path = some found
      ∧ s.files.canonical found = .ok path := by
  rw [file?, Option.bind_eq_some_iff]
  exact exists_congr fun found => and_congr_right fun _ => toOption_eq_some

/-- The file of a directive has the path of the names that lead to it. -/
theorem ofNames_of_file? (h : v.file? s = some path) :
    ∃ found names, s.files.resolve found = .ok names ∧ path = .ofNames names := by
  obtain ⟨found, -, canonical⟩ := file?_eq_some.mp h
  unfold FileSystem.canonical at canonical
  cases hr : s.files.resolve found with
  | error e =>
    rw [hr] at canonical
    cases canonical
  | ok names =>
    rw [hr] at canonical
    exact ⟨found, names, hr, (Except.ok.inj canonical).symm⟩

/-- A directive that means no file fails, whatever is remembered, and names none. -/
theorem outcome_of_none (h : v.file? s = none) :
    ∃ e, ∀ t, (v.again t).outcome s = (.error e, t) := by
  cases hf : s.find v.current v.directive.kind v.directive.path with
  | none =>
    refine ⟨missing v.current v.directive.path v.directive.span, fun t => ?_⟩
    rw [outcome, again, runDirective]
    simp only [hf]
    rfl
  | some found =>
    rw [file?, hf, Option.bind_some] at h
    cases hc : s.files.canonical found with
    | error e =>
      refine ⟨.unreadable found e, fun t => ?_⟩
      rw [outcome, again, runDirective_eq hf, canonical]
      simp only [hc]
      rfl
    | ok path =>
      rw [hc] at h
      cases h

theorem outcome_eq (h : v.file? s = some path) :
    v.outcome s = if v.Wants path
      then contentsOfFile s v.levels v.directive.path path (v.remembers path)
      else (.ok [], v.tracker) := by
  obtain ⟨found, hf, hc⟩ := file?_eq_some.mp h
  have start : canonical s found v.tracker = (.ok path, v.tracker) := by
    rw [canonical, hc]
    rfl
  rw [outcome, runDirective_eq hf, bind_of_ok start, remembers]
  by_cases hk : v.directive.kind = .load
  · have wanted : v.Wants path := .inl hk
    rw [if_pos hk, if_pos hk, if_pos wanted]
  · have told : remember path v.tracker
        = (.ok (!v.tracker.contains path), v.tracker.insert path) := rfl
    rw [if_neg hk, if_neg hk, bind_of_ok told]
    cases hc : v.tracker.contains path with
    | true =>
      have known : ¬ v.Wants path := fun hw => hw.elim hk fun hn => by simp [hc] at hn
      rw [if_neg known, Tracker.insert_eq_self hc]
      rfl
    | false =>
      have wanted : v.Wants path := .inr hc
      rw [if_pos wanted]
      rfl

theorem opened?_eq_some {ds : List Directive} :
    v.opened? s = some (path, ds) ↔ v.file? s = some path ∧ v.Wants path
      ∧ ∃ text program, s.files.readText path = .ok text
        ∧ parse path.text text [] = .ok program ∧ ds = Directives.ofNodes program := by
  unfold opened?
  rw [Option.bind_eq_some_iff]
  constructor
  · rintro ⟨p, hp, h⟩
    split at h
    · next hw =>
      obtain ⟨text, ht, h⟩ := Option.bind_eq_some_iff.mp h
      obtain ⟨program, hprogram, he⟩ := Option.map_eq_some_iff.mp h
      cases he
      exact ⟨hp, hw, text, program, toOption_eq_some.mp ht, toOption_eq_some.mp hprogram,
        rfl⟩
    · cases h
  · rintro ⟨hp, hw, text, program, ht, hprogram, rfl⟩
    refine ⟨path, hp, ?_⟩
    rw [if_pos hw, ht, Except.toOption, Option.bind_some, hprogram]
    rfl

theorem names_iff (h : v.file? s = some path) {file : Path} :
    (Event.reached v).Names s file
      ↔ v.directive.kind ≠ .load ∧ path.components = file.components := by
  simp only [Event.Names, h, Option.some.injEq, exists_eq_left']

/-- What a directive names is remembered when its file is opened. -/
theorem contains_remembers (h : v.file? s = some path) (file : Path) :
    (v.remembers path).contains file = true
      ↔ v.tracker.contains file = true ∨ (Event.reached v).Names s file := by
  rw [names_iff h, remembers]
  split
  · next hk => simp [hk]
  · next hk =>
    rw [Tracker.contains_insert_iff]
    simp [hk]

theorem suffix_remembers (v : Visit) (path : Path) :
    v.tracker.loaded <:+ (v.remembers path).loaded := by
  unfold remembers
  split
  · exact List.suffix_rfl
  · exact Tracker.suffix_insert _ _

end Visit

/-! ## Files inside one another -/

/-- Nothing but directives changes what is remembered. -/
theorem snd_of_silent {replace : Replace} {α : Type} {step : Step α} {ds : List Directive}
    (h : (do let _ ← step; return ()) = runEach replace ds) (t : Tracker) :
    (runEach replace ds t).2 = (step t).2 := by
  rw [← h]
  cases hs : step t with
  | mk r t' =>
    cases r with
    | ok a => exact congrArg Prod.snd (bind_of_ok hs)
    | error e => exact congrArg Prod.snd (bind_of_error hs)

/-- What a file leaves to be remembered: what the directives in it do, if they are reached. -/
theorem Visit.snd_contentsOfFile {s : Settings} {v : Visit} {path : Path} {ds : List Directive}
    (h : v.opened? s = some (path, ds)) {levels : Nat} {t : Tracker} :
    (contentsOfFile s (levels + 1) v.directive.path path t).2
      = (runEach (runDirective s levels path) ds t).2 := by
  obtain ⟨-, -, text, program, ht, hprogram, rfl⟩ := opened?_eq_some.mp h
  have read : programOf s path t = (.ok program, t) := by
    rw [programOf]
    simp only [ht, hprogram]
    rfl
  rw [snd_of_silent (silent_expandBody _ program)]
  exact congrArg Prod.snd (bind_of_ok read)

/-- A file that is not read, or holds no program, leaves nothing to be remembered. -/
theorem Visit.snd_contentsOfFile_of_none {s : Settings} {v : Visit} {path : Path}
    (hf : v.file? s = some path) (hw : v.Wants path) (h : v.opened? s = none) {levels : Nat}
    {t : Tracker} : (contentsOfFile s levels v.directive.path path t).2 = t := by
  cases hc : contentsOfFile s levels v.directive.path path t with
  | mk r t' =>
    cases levels with
    | zero =>
      cases hc
      rfl
    | succ levels =>
      unfold contentsOfFile programOf at hc
      cases ht : s.files.readText path with
      | error e =>
        rw [ht] at hc
        cases hc
        rfl
      | ok text =>
        simp only [ht] at hc
        cases hp : parse path.text text [] with
        | error e =>
          rw [hp] at hc
          cases hc
          rfl
        | ok program =>
          have := opened?_eq_some.mpr ⟨hf, hw, text, program, ht, hp, rfl⟩
          rw [h] at this
          cases this

/-- A directive and those in its file lead to what is remembered after it. -/
theorem leads_withInner {s : Settings} {deeper : Path → List Directive → Tracker → List Visit}
    (v : Visit)
    (h : ∀ path ds, v.opened? s = some (path, ds) → Leads s (v.remembers path)
      ((deeper path ds (v.remembers path)).map .reached)
      (contentsOfFile s v.levels v.directive.path path (v.remembers path)).2) :
    Leads s v.tracker ((v.withInner s deeper).map .reached) (v.outcome s).2 := by
  cases hf : v.file? s with
  | none =>
    obtain ⟨e, he⟩ := Visit.outcome_of_none hf
    have closed : v.opened? s = none := by rw [Visit.opened?, hf, Option.bind_none]
    rw [Visit.withInner, closed]
    refine .reached List.suffix_rfl (fun file => ?_) (he v.tracker ▸ .nil)
    simp [Event.Names, hf]
  | some path =>
    have outcome := Visit.outcome_eq hf
    by_cases hw : v.Wants path
    · rw [if_pos hw] at outcome
      refine .reached (Visit.suffix_remembers v path) (Visit.contains_remembers hf) ?_
      rw [outcome]
      cases ho : v.opened? s with
      | none =>
        rw [Visit.snd_contentsOfFile_of_none hf hw ho]
        exact .nil
      | some opened =>
        obtain ⟨p, ds⟩ := opened
        obtain rfl : path = p :=
          Option.some.inj (hf.symm.trans (Visit.opened?_eq_some.mp ho).1)
        exact h path ds ho
    · rw [if_neg hw] at outcome
      have closed : v.opened? s = none := by
        rw [Visit.opened?, hf, Option.bind_some, if_neg hw]
      rw [Visit.withInner, closed]
      refine .reached List.suffix_rfl (fun file => ?_) (outcome ▸ .nil)
      refine ⟨.inl, fun hn => hn.elim id fun hn => ?_⟩
      rw [Visit.Wants, not_or, Bool.not_eq_false] at hw
      rw [Tracker.contains_iff, ← ((Visit.names_iff hf).mp hn).2]
      exact Tracker.contains_iff.mp hw.2

/-- The directives of a file lead to what is remembered after them, if each does. -/
theorem leads_inTurns {s : Settings} {levels : Nat} {current : Path}
    {deeper : Path → List Directive → Tracker → List Visit}
    (h : ∀ (v : Visit) path ds, v.opened? s = some (path, ds) → Leads s (v.remembers path)
      ((deeper path ds (v.remembers path)).map .reached)
      (contentsOfFile s levels v.directive.path path (v.remembers path)).2)
    (ds : List Directive) (t : Tracker) :
    Leads s t ((inTurns s levels current deeper ds t).map .reached)
      (runEach (runDirective s levels current) ds t).2 := by
  induction ds generalizing t with
  | nil => exact .nil
  | cons d ds ih =>
    have first := leads_withInner ⟨levels, current, d, t⟩ (h _)
    rw [inTurns, turns, List.flatMap_cons, List.map_append]
    cases ho : runDirective s levels current d.kind d.path d.span t with
    | mk r t₁ =>
      have outcome : (Visit.outcome s ⟨levels, current, d, t⟩).2 = t₁ := congrArg Prod.snd ho
      rw [outcome] at first
      cases r with
      | ok inner =>
        have run : runEach (runDirective s levels current) (d :: ds) t
            = runEach (runDirective s levels current) ds t₁ := bind_of_ok ho
        rw [run]
        exact first.append (ih t₁)
      | error e =>
        have run : runEach (runDirective s levels current) (d :: ds) t = (.error e, t₁) :=
          bind_of_error ho
        rw [run]
        exact first.append .nil

/-- The directives of a file and of all files inside it lead to what is remembered after them. -/
theorem leads_visits (s : Settings) (levels : Nat) (current : Path) (ds : List Directive)
    (t : Tracker) :
    Leads s t ((visits s levels current ds t).map .reached)
      (runEach (runDirective s levels current) ds t).2 := by
  induction levels generalizing current ds t with
  | zero => exact leads_inTurns (fun v path ds _ => .nil) ds t
  | succ levels ih =>
    refine leads_inTurns (fun v path ds ho => ?_) ds t
    rw [Visit.snd_contentsOfFile ho]
    exact ih path ds _

/-! ## Calls -/

theorem leads_call (s : Settings) (t : Tracker) (call : Call) :
    Leads s t (call.events s t) (call.after s t) := by
  cases call with
  | mark path =>
    rw [Call.events, Call.after, markLoaded]
    cases s.files.canonical path with
    | ok file => exact .marked s t file
    | error e => exact .nil
  | expand current program =>
    have h := leads_visits s maxDepth current (Directives.ofNodes program) t
    rwa [snd_of_silent (silent_expandBody _ program)] at h

theorem leads_journal (s : Settings) (calls : List Call) (t : Tracker) :
    Leads s t (journal s calls t) (remembered s calls t) := by
  induction calls generalizing t with
  | nil => exact .nil
  | cons call calls ih => exact (leads_call s t call).append (ih _)

theorem remembered_append (s : Settings) (xs ys : List Call) (t : Tracker) :
    remembered s (xs ++ ys) t = remembered s ys (remembered s xs t) :=
  List.foldl_append

theorem journal_append (s : Settings) (xs ys : List Call) (t : Tracker) :
    journal s (xs ++ ys) t = journal s xs t ++ journal s ys (remembered s xs t) := by
  induction xs generalizing t with
  | nil => rfl
  | cons call xs ih => exact (congrArg _ (ih _)).trans (List.append_assoc _ _ _).symm

theorem visit_mem_inTurns {s : Settings} {levels : Nat} {current : Path}
    {deeper : Path → List Directive → Tracker → List Visit} {ds : List Directive}
    {t t₀ : Tracker} {d : Directive}
    (h : (d, t₀) ∈ turns (runDirective s levels current) ds t) :
    ⟨levels, current, d, t₀⟩ ∈ inTurns s levels current deeper ds t :=
  List.mem_flatMap.mpr ⟨(d, t₀), h, List.mem_cons_self⟩

theorem mem_inTurns {s : Settings} {levels : Nat} {current : Path}
    {deeper : Path → List Directive → Tracker → List Visit} {ds : List Directive} {t : Tracker}
    {v : Visit} : v ∈ inTurns s levels current deeper ds t
      ↔ ∃ d t₀, (d, t₀) ∈ turns (runDirective s levels current) ds t
        ∧ (v = ⟨levels, current, d, t₀⟩ ∨ ∃ path inner,
          (Visit.mk levels current d t₀).opened? s = some (path, inner)
            ∧ v ∈ deeper path inner ((Visit.mk levels current d t₀).remembers path)) := by
  rw [inTurns, List.mem_flatMap, Prod.exists]
  refine exists_congr fun d => exists_congr fun t₀ => and_congr_right fun _ => ?_
  refine List.mem_cons.trans (or_congr_right ?_)
  rcases (Visit.mk levels current d t₀).opened? s with _ | ⟨path, inner⟩
  · simp
  · refine ⟨fun h => ⟨path, inner, rfl, h⟩, ?_⟩
    rintro ⟨_, _, ⟨⟩, h⟩
    exact h

/-- A directive that is reached is one of those that are run, or is reached in the file of one. -/
theorem mem_visits {s : Settings} {levels : Nat} {current : Path} {ds : List Directive}
    {t : Tracker} {v : Visit} : v ∈ visits s levels current ds t
      ↔ ∃ d t₀, (d, t₀) ∈ turns (runDirective s levels current) ds t
        ∧ (v = ⟨levels, current, d, t₀⟩ ∨ ∃ below path inner, levels = below + 1
          ∧ (Visit.mk levels current d t₀).opened? s = some (path, inner)
          ∧ v ∈ visits s below path inner ((Visit.mk levels current d t₀).remembers path)) := by
  cases levels <;> simp [visits, mem_inTurns]

/-! ## At most once -/

/-- No event of a kind comes after another one. -/
theorem countP_le_one {p : Event → Bool} {events : List Event}
    (h : ∀ xs e ys, events = xs ++ e :: ys → p e = true → ∀ e' ∈ xs, ¬ p e' = true) :
    events.countP p ≤ 1 := by
  induction events with
  | nil => exact Nat.zero_le _
  | cons a events ih =>
    by_cases ha : p a = true
    · have none : events.countP p = 0 := by
        refine List.countP_eq_zero.mpr fun e he hp => ?_
        obtain ⟨xs, ys, rfl⟩ := List.append_of_mem he
        exact h (a :: xs) e ys rfl hp a List.mem_cons_self ha
      have one : (a :: events).countP p = 0 + 1 := by rw [List.countP_cons_of_pos ha, none]
      exact Nat.le_of_eq one
    · rw [List.countP_cons_of_neg ha]
      refine ih fun xs e ys he hp e' he' => ?_
      exact h (a :: xs) e ys (congrArg _ he) hp e' (List.mem_cons_of_mem _ he')

theorem Event.splices_iff {s : Settings} {file : Path} {e : Event} :
    e.splices s file = true ↔ ∃ v path, e = .reached v ∧ v.directive.kind ≠ .load
      ∧ v.file? s = some path ∧ path.components = file.components
      ∧ v.tracker.contains path = false := by
  cases e with
  | marked path => simp [splices]
  | reached v => simp [splices, Option.any_eq_true]

theorem Leads.once {s : Settings} {t t' : Tracker} {events : List Event}
    (h : Leads s t events t') (file : Path) : events.countP (Event.splices s file) ≤ 1 := by
  refine countP_le_one fun xs e ys hs he e' he' hp => ?_
  obtain ⟨v, path, rfl, -, -, hv, hn⟩ := Event.splices_iff.mp he
  obtain ⟨w, other, rfl, hk, hw, hother, -⟩ := Event.splices_iff.mp hp
  obtain ⟨-, -, -, known⟩ := h.before xs v ys hs
  have : v.tracker.contains path = true :=
    (known path).mpr (.inr ⟨_, he', (Visit.names_iff hw).mpr ⟨hk, hother.trans hv.symm⟩⟩)
  rw [hn] at this
  cases this

/-- How a loader serves calls: each file is required at most once, and loaded every time. -/
structure RequiredOnce (s : Settings) (calls : List Call) : Prop where
  /-- The files that are remembered are those that were named. -/
  named : ∀ file, (remembered s calls .empty).contains file = true
    ↔ ∃ e ∈ journal s calls .empty, e.Names s file
  /-- No call forgets a file. -/
  grows : ∀ earlier later, calls = earlier ++ later →
    (remembered s earlier .empty).loaded <:+ (remembered s calls .empty).loaded
  /-- No directive forgets a file. -/
  grows_visit : ∀ v, .reached v ∈ journal s calls .empty →
    v.tracker.loaded <:+ (v.outcome s).2.loaded
  /-- No file is put into the program by `require` or `require_relative` twice. -/
  once : ∀ file, (journal s calls .empty).countP (Event.splices s file) ≤ 1
  /-- The first directive that names a file gets the contents of the file. -/
  first : ∀ before v after path, journal s calls .empty = before ++ .reached v :: after →
    v.directive.kind ≠ .load → v.file? s = some path → (∀ e ∈ before, ¬ e.Names s path) →
    v.outcome s = contentsOfFile s v.levels v.directive.path path (v.tracker.insert path)
  /-- A directive that names a file after another event did gets nothing. -/
  later : ∀ before v after path, journal s calls .empty = before ++ .reached v :: after →
    v.directive.kind ≠ .load → v.file? s = some path → (∃ e ∈ before, e.Names s path) →
    v.outcome s = (.ok [], v.tracker)
  /-- Loading gets the contents of the file each time, and remembers and asks nothing. -/
  loads : ∀ v path, .reached v ∈ journal s calls .empty →
    v.directive.kind = .load → v.file? s = some path →
    v.outcome s = contentsOfFile s v.levels v.directive.path path v.tracker
  /-- What directives get stands in their places in the result of a call. -/
  placed : ∀ earlier current program later' result t',
    calls = earlier ++ .expand current program :: later' →
    Load.expand s current program (remembered s earlier .empty) = (.ok result, t') →
    ExpandsBody (fun kind path span t inner t' => ∃ v : Visit,
      v = ⟨maxDepth, current, ⟨kind, path, span⟩, t⟩ ∧ .reached v ∈ journal s calls .empty
        ∧ v.outcome s = (.ok inner, t'))
      (remembered s earlier .empty) program result t'

/-- **A file is required at most once and loaded every time**, over any calls of a loader, whatever
names lead to the file and however files lead to one another. -/
theorem requiredOnce_calls (s : Settings) (calls : List Call) : RequiredOnce s calls := by
  have leads := leads_journal s calls .empty
  have nothing : ∀ file, Tracker.empty.contains file ≠ true := fun file => nofun
  refine ⟨fun file => ?_, ?_, ?_, leads.once, ?_, ?_, ?_, ?_⟩
  · rw [leads.after, or_iff_right (nothing file)]
  · rintro earlier later rfl
    rw [remembered_append]
    exact (leads_journal s later _).grows
  · intro v hv
    obtain ⟨before, after, hs⟩ := List.append_of_mem hv
    exact (leads.before before v after hs).2.1
  · intro before v after path hs hk hf hn
    obtain ⟨-, -, -, known⟩ := leads.before before v after hs
    have wanted : v.Wants path := by
      refine .inr (Bool.eq_false_iff.mpr fun hc => ?_)
      obtain ⟨e, he, hp⟩ := ((known path).mp hc).resolve_left (nothing path)
      exact hn e he hp
    rw [Visit.outcome_eq hf, if_pos wanted, Visit.remembers, if_neg hk]
  · intro before v after path hs hk hf hn
    obtain ⟨-, -, -, known⟩ := leads.before before v after hs
    have hc : v.tracker.contains path = true := (known path).mpr (.inr hn)
    have unwanted : ¬ v.Wants path := by simp [Visit.Wants, hk, hc]
    rw [Visit.outcome_eq hf, if_neg unwanted]
  · intro v path _ hk hf
    have wanted : v.Wants path := .inl hk
    rw [Visit.outcome_eq hf, if_pos wanted, Visit.remembers, if_pos hk]
  · rintro earlier current program later result t' rfl h
    refine (expandsBody_of_expandBody (fun d t₀ inner t₁ hm hd => ?_) h)
    refine ⟨_, rfl, ?_, hd⟩
    rw [journal_append]
    refine List.mem_append_right _ (List.mem_append_left _ ?_)
    exact List.mem_map_of_mem (visit_mem_inTurns hm)

/-- A file that is required in two files, one of which is loaded as well. -/
example : (journal pointFiles [.expand ⟨"main.gn"⟩ pointProgram] .empty).length = 4
    ∧ (journal pointFiles [.expand ⟨"main.gn"⟩ pointProgram] .empty).countP
      (Event.splices pointFiles ⟨"/app/b.gn"⟩) = 1 := by
  decide +kernel

end ScriptCompiler.Load
