import ScriptCompiler.Proofs.Load.Journal

/-!
# Expanding again after a failure

An expansion that fails stops inside a directive, which may stand in the file of another directive,
and so on outward to the program. These directives are to blame for the failure. What they and the
others before them have remembered stays remembered. So a second expansion of the program fails for
the same directives exactly if none of them has had its file remembered: otherwise the first one of
them that has is passed over, as if its file were part of the program.
-/

namespace ScriptCompiler.Load

variable {replace : Replace} {s : Settings}

/-! ## The directives to blame -/

/-- The directive at which a run of directives fails, and what is remembered when it is reached. -/
def failing? (replace : Replace) : List Directive → Tracker → Option (Directive × Tracker)
  | [], _ => none
  | d :: ds, t =>
    match replace d.kind d.path d.span t with
    | (.ok _, t') => failing? replace ds t'
    | (.error _, _) => some (d, t)

/-- The directive of a file at which it fails, and those to blame in the file of that one. -/
def blameIn (s : Settings) (levels : Nat) (current : Path)
    (deeper : Path → List Directive → Tracker → List Visit) (ds : List Directive) (t : Tracker) :
    List Visit :=
  match failing? (runDirective s levels current) ds t with
  | some (d, t₀) => Visit.withInner s deeper ⟨levels, current, d, t₀⟩
  | none => []

/-- The directives to blame when some in a file fail, with so many levels of files left: each one
but the first stands in the file of the one before it. -/
def blame (s : Settings) : Nat → Path → List Directive → Tracker → List Visit
  | 0, current, ds, t => blameIn s 0 current (fun _ _ _ => []) ds t
  | levels + 1, current, ds, t => blameIn s (levels + 1) current (blame s levels) ds t

/-- Where a directive is reached, whatever is remembered then. -/
def Visit.place (v : Visit) : Path × Directive :=
  (v.current, v.directive)

/-- The directive has its file remembered. -/
def Visit.Marks (s : Settings) (v : Visit) : Prop :=
  v.directive.kind ≠ .load ∧ (v.file? s).isSome = true

/-- A run that fails does so at one of its directives, after those before it succeeded. -/
theorem exists_failing {ds : List Directive} {t t' : Tracker} {e : LoadError}
    (h : runEach replace ds t = (.error e, t')) : ∃ xs d ys t₀, ds = xs ++ d :: ys
      ∧ runEach replace xs t = (.ok (), t₀) ∧ replace d.kind d.path d.span t₀ = (.error e, t')
      ∧ failing? replace ds t = some (d, t₀) := by
  induction ds generalizing t with
  | nil => cases h
  | cons d ds ih =>
    rw [failing?]
    cases hd : replace d.kind d.path d.span t with
    | mk r mid =>
      cases r with
      | ok inner =>
        have rest : runEach replace ds mid = (.error e, t') := (bind_of_ok hd).symm.trans h
        obtain ⟨xs, d', ys, t₀, rfl, ran, fails, found⟩ := ih rest
        exact ⟨d :: xs, d', ys, t₀, rfl, (bind_of_ok hd).trans ran, fails, found⟩
      | error e' =>
        cases (bind_of_error hd).symm.trans h
        exact ⟨[], d, ds, t, rfl, rfl, hd, rfl⟩

/-- A run fails at a directive that fails after those before it succeeded. -/
theorem failing_of {xs : List Directive} {d : Directive} {t t₀ t' : Tracker} {e : LoadError}
    (ran : runEach replace xs t = (.ok (), t₀))
    (fails : replace d.kind d.path d.span t₀ = (.error e, t')) (ys : List Directive) :
    runEach replace (xs ++ d :: ys) t = (.error e, t')
      ∧ failing? replace (xs ++ d :: ys) t = some (d, t₀) := by
  induction xs generalizing t with
  | nil =>
    cases ran
    rw [List.nil_append, failing?, fails]
    exact ⟨bind_of_error fails, rfl⟩
  | cons x xs ih =>
    obtain ⟨inner, mid, hx, ran⟩ := bind_ok ran
    rw [List.cons_append, failing?, hx]
    obtain ⟨run, found⟩ := ih ran
    exact ⟨(bind_of_ok hx).trans run, found⟩

/-- A directive at which a run fails is one that it reaches. -/
theorem failing?_mem_turns {ds : List Directive} {t t₀ : Tracker} {d : Directive}
    (h : failing? replace ds t = some (d, t₀)) : (d, t₀) ∈ turns replace ds t := by
  induction ds generalizing t with
  | nil => cases h
  | cons x ds ih =>
    rw [failing?] at h
    rw [turns]
    cases hx : replace x.kind x.path x.span t with
    | mk r mid =>
      rw [hx] at h
      cases r with
      | ok inner => exact List.mem_cons_of_mem _ (ih h)
      | error e =>
        cases h
        exact List.mem_cons_self

theorem blameIn_subset {deeper deeper' : Path → List Directive → Tracker → List Visit}
    (inside : ∀ path ds t, deeper path ds t ⊆ deeper' path ds t) (levels : Nat) (current : Path)
    (ds : List Directive) (t : Tracker) :
    blameIn s levels current deeper ds t ⊆ inTurns s levels current deeper' ds t := by
  intro v hv
  rw [blameIn] at hv
  split at hv
  · next d t₀ found =>
    refine List.mem_flatMap.mpr ⟨(d, t₀), failing?_mem_turns found, ?_⟩
    rcases List.mem_cons.mp hv with rfl | hv
    · exact List.mem_cons_self
    · refine List.mem_cons_of_mem _ ?_
      split at hv
      · exact inside _ _ _ hv
      · cases hv
  · cases hv

/-- Those to blame are among those that are reached. -/
theorem blame_subset_visits (levels : Nat) (current : Path) (ds : List Directive) (t : Tracker) :
    blame s levels current ds t ⊆ visits s levels current ds t := by
  induction levels generalizing current ds t with
  | zero => exact blameIn_subset (fun _ _ _ => List.Subset.refl _) _ _ _ _
  | succ levels ih => exact blameIn_subset ih _ _ _ _

/-! ## Runs of expansions -/

section Runs

variable {α : Type} {step : Step α} {ds : List Directive} {t t' : Tracker}
  (hs : (do let _ ← step; return ()) = runEach replace ds)

include hs

theorem runEach_of_error {e : LoadError} (h : step t = (.error e, t')) :
    runEach replace ds t = (.error e, t') := by
  rw [← hs, bind_of_error h]

theorem error_of_runEach {e : LoadError} (h : runEach replace ds t = (.error e, t')) :
    step t = (.error e, t') := by
  rw [← hs] at h
  rcases hr : step t with ⟨e' | a, mid⟩
  · cases (bind_of_error hr).symm.trans h
    rfl
  · cases (bind_of_ok hr).symm.trans h

theorem ok_of_runEach (h : runEach replace ds t = (.ok (), t')) : ∃ a, step t = (.ok a, t') := by
  rw [← hs] at h
  obtain ⟨a, mid, hr, h⟩ := bind_ok h
  obtain ⟨-, rfl⟩ := pure_ok h
  exact ⟨a, hr⟩

end Runs

/-- A file with a program is read again as before. -/
theorem contentsOfFile_eq {levels : Nat} {name text : String} {path : Path} {program : Body}
    (ht : s.files.readText path = .ok text) (hp : parse path.text text [] = .ok program)
    (t : Tracker) : contentsOfFile s (levels + 1) name path t
      = expandBody (runDirective s levels path) program t := by
  have read : programOf s path t = (.ok program, t) := by
    rw [programOf]
    simp only [ht, hp]
    rfl
  exact bind_of_ok read

/-- A file that is not opened, though it is wanted, fails as it did before. -/
theorem contentsOfFile_of_not_opened {v : Visit} {path : Path} (hf : v.file? s = some path)
    (hw : v.Wants path) (closed : v.opened? s = none) : ∃ e, ∀ t,
      contentsOfFile s v.levels v.directive.path path t = (.error e, t) := by
  cases v.levels with
  | zero => exact ⟨_, fun t => rfl⟩
  | succ below =>
    cases ht : s.files.readText path with
    | error e =>
      refine ⟨.unreadable path e, fun t => bind_of_error ?_⟩
      rw [programOf]
      simp only [ht]
      rfl
    | ok text =>
      cases hp : parse path.text text [] with
      | error failure =>
        refine ⟨.malformed path failure, fun t => bind_of_error ?_⟩
        rw [programOf]
        simp only [ht, hp]
        rfl
      | ok program =>
        have opened := Visit.opened?_eq_some.mpr ⟨hf, hw, text, program, ht, hp, rfl⟩
        rw [closed] at opened
        cases opened

/-! ## A second run -/

/-- What is remembered is also known to the other tracker. -/
abbrev Tracker.Known (t t' : Tracker) : Prop :=
  t.loaded ⊆ t'.loaded

theorem Tracker.Known.contains {t t' : Tracker} {path : Path} (h : t.Known t')
    (hc : t.contains path = true) : t'.contains path = true :=
  contains_iff.mpr (h (contains_iff.mp hc))

/-- A directive that loads gets the contents of its file, whatever is remembered. -/
theorem Visit.outcome_of_load {v : Visit} {path : Path} (hk : v.directive.kind = .load)
    (hf : v.file? s = some path) :
    v.outcome s = contentsOfFile s v.levels v.directive.path path v.tracker := by
  have wanted : v.Wants path := .inl hk
  rw [outcome_eq hf, if_pos wanted, remembers, if_pos hk]

/-- A directive whose file is remembered is replaced by nothing. -/
theorem Visit.outcome_of_remembered {v : Visit} {path : Path} (hk : v.directive.kind ≠ .load)
    (hf : v.file? s = some path) (hc : v.tracker.contains path = true) :
    v.outcome s = (.ok [], v.tracker) := by
  have unwanted : ¬ v.Wants path := by simp [Wants, hk, hc]
  rw [outcome_eq hf, if_neg unwanted]

theorem mem_visits_of_turn {levels : Nat} {current : Path} {ds : List Directive} {t t₀ : Tracker}
    {d : Directive} (h : (d, t₀) ∈ turns (runDirective s levels current) ds t) :
    ⟨levels, current, d, t₀⟩ ∈ visits s levels current ds t := by
  cases levels <;> exact visit_mem_inTurns h

theorem known_runEach (levels : Nat) (current : Path) (ds : List Directive) (t : Tracker) :
    t.Known (runEach (runDirective s levels current) ds t).2 :=
  (leads_visits s levels current ds t).grows.subset

/-- After a directive that marks its file, whether it fails or not, the file is remembered. -/
theorem Visit.contains_outcome {v : Visit} {path : Path} (hk : v.directive.kind ≠ .load)
    (hf : v.file? s = some path) : (v.outcome s).2.contains path = true := by
  have after := (leads_visits s v.levels v.current [v.directive] v.tracker).after path
  have run : (runEach (runDirective s v.levels v.current) [v.directive] v.tracker).2
      = (v.outcome s).2 := by
    rcases h : v.outcome s with ⟨e | inner, t'⟩
    · exact congrArg Prod.snd (bind_of_error h)
    · exact congrArg Prod.snd (bind_of_ok h)
  rw [run] at after
  refine after.mpr (.inr ⟨.reached v, List.mem_map_of_mem (mem_visits_of_turn ?_), ?_⟩)
  · exact List.mem_cons_self
  · exact (Visit.names_iff hf).mpr ⟨hk, rfl⟩

/-- Directives that succeeded do so again, and remember nothing new. -/
theorem runEach_again_of_ok (levels : Nat) {current : Path} {ds : List Directive}
    {t t₁ t₂ : Tracker} (h : runEach (runDirective s levels current) ds t = (.ok (), t₁))
    (known : t₁.Known t₂) : runEach (runDirective s levels current) ds t₂ = (.ok (), t₂) := by
  induction levels using Nat.strongRecOn generalizing current ds t t₁ with
  | _ levels inside =>
  induction ds generalizing t with
  | nil => rfl
  | cons d ds ih =>
    obtain ⟨inner, mid, hd, h⟩ := bind_ok h
    have mid_known : mid.Known t₂ := by
      have grows := known_runEach (s := s) levels current ds mid
      rw [h] at grows
      exact List.Subset.trans grows known
    suffices ∃ inner', runDirective s levels current d.kind d.path d.span t₂ = (.ok inner', t₂) by
      obtain ⟨inner', again⟩ := this
      exact (bind_of_ok again).trans (ih h)
    let v : Visit := ⟨levels, current, d, t⟩
    have out : v.outcome s = (.ok inner, mid) := hd
    cases hf : v.file? s with
    | none =>
      obtain ⟨e, he⟩ := Visit.outcome_of_none hf
      cases (he t).symm.trans out
    | some path =>
      by_cases hk : d.kind = .load
      · obtain ⟨below, text, program, rfl, ht, hp, ran⟩ :=
          contentsOfFile_ok ((Visit.outcome_of_load hk hf).symm.trans out)
        obtain ⟨inner', again⟩ := ok_of_runEach (silent_expandBody _ program)
          (inside below (Nat.lt_succ_self below)
            (runEach_of_silent (silent_expandBody _ program) ran) mid_known)
        have load := Visit.outcome_of_load (v := v.again t₂) hk hf
        exact ⟨inner', load.trans ((contentsOfFile_eq ht hp t₂).trans again)⟩
      · have marked := Visit.contains_outcome (s := s) (v := v) hk hf
        rw [out] at marked
        exact ⟨[], Visit.outcome_of_remembered (v := v.again t₂) hk hf (mid_known.contains marked)⟩

/-- A directive that failed without marking its file fails again, if the contents of the file do. -/
theorem Visit.again_of_error {deeper : Path → List Directive → Tracker → List Visit} {v : Visit}
    {t₁ t₂ : Tracker} {e : LoadError} (h : v.outcome s = (.error e, t₁)) (unmarked : ¬ v.Marks s)
    (inside : ∀ path ds, v.opened? s = some (path, ds) →
      contentsOfFile s v.levels v.directive.path path v.tracker = (.error e, t₁) →
      (∀ w ∈ deeper path ds v.tracker, w ∈ v.withInner s deeper) →
      contentsOfFile s v.levels v.directive.path path t₂ = (.error e, t₂)
        ∧ (deeper path ds t₂).map place = (deeper path ds v.tracker).map place) :
    (v.again t₂).outcome s = (.error e, t₂)
      ∧ ((v.again t₂).withInner s deeper).map place = (v.withInner s deeper).map place := by
  cases hf : v.file? s with
  | none =>
    obtain ⟨e', he⟩ := outcome_of_none hf
    cases (he v.tracker).symm.trans h
    have closed (t : Tracker) : (v.again t).opened? s = none :=
      congrArg (Option.bind · _) hf
    rw [withInner, closed, withInner, show v.opened? s = none from closed v.tracker]
    exact ⟨he t₂, rfl⟩
  | some path =>
    have hk : v.directive.kind = .load :=
      Decidable.byContradiction fun hk => unmarked ⟨hk, by rw [hf]; rfl⟩
    have opens : (v.again t₂).opened? s = v.opened? s := by
      simp only [opened?, Wants, again, hk, true_or, if_true]
      rfl
    have load := (outcome_of_load hk hf).symm.trans h
    have load₂ := outcome_of_load (v := v.again t₂) hk hf
    have keeps (t : Tracker) (p : Path) : (v.again t).remembers p = t := if_pos hk
    cases ho : v.opened? s with
    | none =>
      obtain ⟨e', he⟩ := contentsOfFile_of_not_opened hf (.inl hk) ho
      cases (he v.tracker).symm.trans load
      rw [withInner, opens, withInner, ho]
      exact ⟨load₂.trans (he t₂), rfl⟩
    | some opened =>
      obtain ⟨p, ds⟩ := opened
      obtain rfl : path = p := Option.some.inj (hf.symm.trans (opened?_eq_some.mp ho).1)
      have whole : v.withInner s deeper = v :: deeper path ds v.tracker := by
        rw [withInner, ho]
        exact congrArg (v :: deeper path ds ·) (keeps v.tracker path)
      have whole₂ : (v.again t₂).withInner s deeper = v.again t₂ :: deeper path ds t₂ := by
        rw [withInner, opens, ho]
        exact congrArg (v.again t₂ :: deeper path ds ·) (keeps t₂ path)
      obtain ⟨fails, places⟩ := inside path ds ho load fun w hw => by
        rw [whole]
        exact List.mem_cons_of_mem _ hw
      rw [whole, whole₂, List.map_cons, List.map_cons, places]
      exact ⟨load₂.trans fails, rfl⟩

/-- Directives of a file that failed fail again, and at the same one, if it does. -/
theorem again_of_blameIn {deeper : Path → List Directive → Tracker → List Visit} {levels : Nat}
    {current : Path} {ds : List Directive} {t t₁ t₂ : Tracker} {e : LoadError}
    (h : runEach (runDirective s levels current) ds t = (.error e, t₁)) (known : t₁.Known t₂)
    (fails : ∀ v : Visit, v.levels = levels → v.outcome s = (.error e, t₁) →
      (∀ w ∈ v.withInner s deeper, w ∈ blameIn s levels current deeper ds t) →
      (v.again t₂).outcome s = (.error e, t₂)
        ∧ ((v.again t₂).withInner s deeper).map Visit.place
          = (v.withInner s deeper).map Visit.place) :
    runEach (runDirective s levels current) ds t₂ = (.error e, t₂)
      ∧ (blameIn s levels current deeper ds t₂).map Visit.place
        = (blameIn s levels current deeper ds t).map Visit.place := by
  obtain ⟨xs, d, ys, t₀, rfl, ran, out, found⟩ := exists_failing h
  have blamed : blameIn s levels current deeper (xs ++ d :: ys) t
      = Visit.withInner s deeper ⟨levels, current, d, t₀⟩ := by
    rw [blameIn, found]
  obtain ⟨out₂, places⟩ := fails ⟨levels, current, d, t₀⟩ rfl out fun w hw => blamed ▸ hw
  have fails₂ : runDirective s levels current d.kind d.path d.span t₂ = (.error e, t₂) := out₂
  have t₀_known : t₀.Known t₂ := by
    have grows := known_runEach (s := s) levels current [d] t₀
    rw [runEach_singleton, bind_of_error out] at grows
    exact List.Subset.trans grows known
  obtain ⟨run₂, found₂⟩ := failing_of (runEach_again_of_ok levels ran t₀_known) fails₂ ys
  refine ⟨run₂, ?_⟩
  rw [blamed, blameIn, found₂]
  exact places

/-- Directives that failed fail again, and for the same ones, if none of these marked its file. -/
theorem runEach_again_of_error (levels : Nat) {current : Path} {ds : List Directive}
    {t t₁ t₂ : Tracker} {e : LoadError}
    (h : runEach (runDirective s levels current) ds t = (.error e, t₁)) (known : t₁.Known t₂)
    (unmarked : ∀ v ∈ blame s levels current ds t, ¬ v.Marks s) :
    runEach (runDirective s levels current) ds t₂ = (.error e, t₂)
      ∧ (blame s levels current ds t₂).map Visit.place
        = (blame s levels current ds t).map Visit.place := by
  induction levels generalizing current ds t with
  | zero =>
    rw [blame] at unmarked
    refine again_of_blameIn h known fun v hl out blamed => ?_
    refine Visit.again_of_error out (unmarked v (blamed v List.mem_cons_self)) ?_
    intro path ds _ load _
    rw [hl] at load ⊢
    cases load
    exact ⟨rfl, rfl⟩
  | succ below ih =>
    rw [blame] at unmarked
    refine again_of_blameIn h known fun v hl out blamed => ?_
    refine Visit.again_of_error out (unmarked v (blamed v List.mem_cons_self)) ?_
    intro path ds opened load inner
    obtain ⟨-, -, text, program, ht, hp, rfl⟩ := Visit.opened?_eq_some.mp opened
    rw [hl, contentsOfFile_eq ht hp] at load
    rw [hl, contentsOfFile_eq ht hp]
    obtain ⟨run, places⟩ := ih (runEach_of_error (silent_expandBody _ program) load)
      fun w hw => unmarked w (blamed w (inner w hw))
    exact ⟨error_of_runEach (silent_expandBody _ program) run, places⟩

/-! ## What a failure leaves -/

/-- A directive to blame fails as the whole does, if those in its file do. -/
theorem outcome_of_mem_blameIn {deeper : Path → List Directive → Tracker → List Visit}
    {levels : Nat} {current : Path} {ds : List Directive} {t t₁ : Tracker} {e : LoadError}
    (h : runEach (runDirective s levels current) ds t = (.error e, t₁))
    (inside : ∀ (v : Visit) path inner, v.opened? s = some (path, inner) →
      contentsOfFile s levels v.directive.path path (v.remembers path) = (.error e, t₁) →
      ∀ w ∈ deeper path inner (v.remembers path), w.outcome s = (.error e, t₁)) :
    ∀ v ∈ blameIn s levels current deeper ds t, v.outcome s = (.error e, t₁) := by
  obtain ⟨-, d, -, t₀, -, -, out, found⟩ := exists_failing h
  intro v hv
  rw [blameIn, found] at hv
  rcases List.mem_cons.mp hv with rfl | hv
  · exact out
  · split at hv
    · next path inner opened =>
      obtain ⟨hf, hw, -⟩ := Visit.opened?_eq_some.mp opened
      refine inside _ path inner opened ?_ v hv
      exact ((Visit.outcome_eq hf).trans (if_pos hw)).symm.trans out
    · cases hv

/-- Each directive to blame fails as the whole does. -/
theorem outcome_of_mem_blame {levels : Nat} {current : Path} {ds : List Directive}
    {t t₁ : Tracker} {e : LoadError}
    (h : runEach (runDirective s levels current) ds t = (.error e, t₁)) :
    ∀ v ∈ blame s levels current ds t, v.outcome s = (.error e, t₁) := by
  induction levels generalizing current ds t with
  | zero => exact outcome_of_mem_blameIn h fun _ _ _ _ _ => nofun
  | succ below ih =>
    refine outcome_of_mem_blameIn h fun v path inner opened load => ?_
    obtain ⟨-, -, text, program, ht, hp, rfl⟩ := Visit.opened?_eq_some.mp opened
    rw [contentsOfFile_eq ht hp] at load
    exact ih (runEach_of_error (silent_expandBody _ program) load)

theorem blame_ne_nil {levels : Nat} {current : Path} {ds : List Directive} {t t₁ : Tracker}
    {e : LoadError} (h : runEach (runDirective s levels current) ds t = (.error e, t₁)) :
    blame s levels current ds t ≠ [] := by
  obtain ⟨-, d, -, t₀, -, -, -, found⟩ := exists_failing h
  cases levels <;>
  · rw [blame, blameIn, found]
    exact List.cons_ne_nil _ _

/-- What a failed expansion leaves for the next one of the same program. -/
structure Retry (s : Settings) (current : Path) (program : Body) (t : Tracker) (e : LoadError)
    (t' : Tracker) : Prop where
  /-- Whatever was named before the failure is remembered, and nothing is undone. -/
  kept : ∀ file, t'.contains file = true ↔ t.contains file = true
    ∨ ∃ v ∈ visits s maxDepth current (Directives.ofNodes program) t,
      (Event.reached v).Names s file
  /-- Some directives are to blame: they were reached, and each failed as the whole did. -/
  blamed : blame s maxDepth current (Directives.ofNodes program) t ≠ []
    ∧ ∀ v ∈ blame s maxDepth current (Directives.ofNodes program) t,
      v ∈ visits s maxDepth current (Directives.ofNodes program) t
        ∧ v.outcome s = (.error e, t')
  /-- The next expansion fails for the same directives exactly if none of them marks its file. -/
  again : ((expand s current program t').1 = .error e
      ∧ (blame s maxDepth current (Directives.ofNodes program) t').map Visit.place
        = (blame s maxDepth current (Directives.ofNodes program) t).map Visit.place)
    ↔ ∀ v ∈ blame s maxDepth current (Directives.ofNodes program) t, ¬ v.Marks s
  /-- A directive to blame that marks its file is replaced by nothing from then on. -/
  lost : ∀ v ∈ blame s maxDepth current (Directives.ofNodes program) t, v.Marks s →
    ∀ t'', t'.Known t'' → (v.again t'').outcome s = (.ok [], t'')

/-- **A failed file may count as loaded.** An expansion that failed fails again, and at the same
place, exactly if none of the directives in which it failed is a `require` or `require_relative`
that has found its file. Each of these that has is passed over from then on. -/
theorem retry_of_error {current : Path} {program : Body} {t t' : Tracker} {e : LoadError}
    (h : expand s current program t = (.error e, t')) : Retry s current program t e t' := by
  have silent := silent_expandBody (runDirective s maxDepth current) program
  have run := runEach_of_error silent h
  have leads := leads_visits s maxDepth current (Directives.ofNodes program) t
  rw [run] at leads
  have marked : ∀ v ∈ blame s maxDepth current (Directives.ofNodes program) t, v.Marks s →
      ∃ path, v.file? s = some path ∧ t'.contains path = true := by
    rintro v hv ⟨hk, hf⟩
    obtain ⟨path, hf⟩ := Option.isSome_iff_exists.mp hf
    have after := Visit.contains_outcome hk hf
    rw [outcome_of_mem_blame run v hv] at after
    exact ⟨path, hf, after⟩
  refine ⟨fun file => ?_, ⟨blame_ne_nil run, fun v hv => ?_⟩, ⟨?_, fun unmarked => ?_⟩, ?_⟩
  · rw [leads.after]
    refine or_congr_right ⟨fun ⟨event, he, hn⟩ => ?_, fun ⟨v, hv, hn⟩ => ?_⟩
    · obtain ⟨v, hv, rfl⟩ := List.mem_map.mp he
      exact ⟨v, hv, hn⟩
    · exact ⟨.reached v, List.mem_map_of_mem hv, hn⟩
  · exact ⟨blame_subset_visits _ _ _ _ hv, outcome_of_mem_blame run v hv⟩
  · -- A directive that marked its file succeeds now, so it is not to blame again.
    rintro ⟨fails, places⟩ v hv marks
    have run' := runEach_of_error  silent
      (Prod.ext fails rfl)
    have leads' := leads_visits s maxDepth current (Directives.ofNodes program) t'
    obtain ⟨w, hw, place⟩ := List.mem_map.mp (places ▸ List.mem_map_of_mem hv)
    obtain ⟨xs, ys, split⟩ := List.append_of_mem
      (List.mem_map_of_mem (blame_subset_visits _ _ _ _ hw) : Event.reached w ∈ List.map _ _)
    have known : t'.Known w.tracker := (leads'.before xs w ys split).1.subset
    obtain ⟨current_eq, directive_eq⟩ := Prod.mk.inj place
    obtain ⟨path, hf, hc⟩ := marked v hv marks
    have same : w.file? s = v.file? s := by
      rw [Visit.file?, Visit.file?, current_eq, directive_eq]
    have passed := Visit.outcome_of_remembered (directive_eq ▸ marks.1) (same.trans hf)
      (known.contains hc)
    cases passed.symm.trans (outcome_of_mem_blame run' w hw)
  · obtain ⟨again, places⟩ := runEach_again_of_error maxDepth run (List.Subset.refl _) unmarked
    exact ⟨congrArg Prod.fst (error_of_runEach silent again), places⟩
  · intro v hv marks t'' known
    obtain ⟨path, hf, hc⟩ := marked v hv marks
    exact Visit.outcome_of_remembered (v := v.again t'') marks.1 hf (known.contains hc)

/-- A file that requires another one, which is missing. -/
def partFiles : Settings where
  files := .ofFiles ["app"] [("b.gn", some "require 'c'\nx".toUTF8.toList)]
  loadPath := []
  workingDir := ⟨"/app"⟩

/-- A program that requires the file. -/
def partProgram : Body :=
  [⟨.directive .require "b", .synthetic⟩]

/-- The missing file is to blame and the file that requires it, which the second expansion leaves
out. -/
theorem passedOver_partProgram :
    ∃ e t', expand partFiles ⟨"main.gn"⟩ partProgram .empty = (.error e, t')
      ∧ Retry partFiles ⟨"main.gn"⟩ partProgram .empty e t'
      ∧ (blame partFiles maxDepth ⟨"main.gn"⟩ (Directives.ofNodes partProgram) .empty).length = 2
      ∧ expand partFiles ⟨"main.gn"⟩ partProgram t' = (.ok [], t') := by
  have failed : (expand partFiles ⟨"main.gn"⟩ partProgram .empty).1.toOption.isSome = false := by
    decide +kernel
  cases h : expand partFiles ⟨"main.gn"⟩ partProgram .empty with
  | mk outcome t' =>
    cases outcome with
    | ok result =>
      rw [h] at failed
      cases failed
    | error e =>
      have known : t' = ⟨[(Path.mk "/app/b.gn").components]⟩ := by
        have := congrArg Prod.snd h
        exact this.symm.trans (by decide +kernel)
      refine ⟨e, t', rfl, retry_of_error h, by decide +kernel, ?_⟩
      rw [known]
      rfl

end ScriptCompiler.Load
