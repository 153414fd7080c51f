import ScriptCompiler.Proofs.Truncation.Scanning

/-!
# Where scanning stops

The scanner looks between two tokens whether the log is full, and not on the way to one. So the
faults beyond the capacity of the log all belong to one token, the last that is read. A character
that starts no token makes the scanner call itself for the token behind it; such calls nest as deep
as there are characters of that sort in a row.
-/

namespace ScriptCompiler.Token

/-! ## Calls on the way to a token -/

/-- The places where the scanner is called on the way to the next token, each one by the call before
it: the place that is given, and those behind characters that start no token. -/
def calls (cursor : Cursor) : List Cursor :=
  let skipped := triviaLength cursor.rest
  let here := cursor.skip skipped
  match _h : cursor.rest.drop skipped with
  | [] => [cursor]
  | c :: rest =>
    match Lexeme.ofChar here.position c rest with
    | .complete _ _ _ => [cursor]
    | .unknown _ => cursor :: calls ⟨here.position.step c, rest⟩
    | .strayColon _ => cursor :: calls ⟨here.position.step c, rest⟩
termination_by cursor.rest.length
decreasing_by
  all_goals
    have := congrArg List.length _h
    simp only [List.length_drop, List.length_cons] at this
    omega

/-- Every call but the last one has a fault to report. -/
theorem length_calls_le (cursor : Cursor) :
    (calls cursor).length ≤ (next cursor).reports.length + 1 := by
  fun_induction calls cursor with
  | case1 | case2 => exact Nat.le_add_left 1 _
  | case3 cursor skipped here c rest h report hl ih =>
    have hl' : Lexeme.ofChar (tokenPlace cursor.position cursor.rest) c rest = .unknown report := hl
    rw [next_unknown h hl']
    exact Nat.succ_le_succ ih
  | case4 cursor skipped here c rest h report hl ih =>
    have hl' : Lexeme.ofChar (tokenPlace cursor.position cursor.rest) c rest
        = .strayColon report := hl
    rw [next_cons h, hl']
    exact Nat.succ_le_succ ih

/-! ## Tokens that are read -/

/-- The scanner starts to look for a token: what is reported by then, and the place. -/
structure Look where
  log : Log
  place : Cursor

namespace Look

/-- The faults on the way to the token. -/
def faults (l : Look) : List Report :=
  (next l.place).reports

end Look

/-- The scanner from a place on: where it starts to look for a token. -/
def looksFrom (file : SourceFile) (log : Log) (cursor : Cursor) : List Look :=
  if log.isFull then []
  else
    let found := next cursor
    if _h : found.token.kind = .endOfInput then [⟨log, cursor⟩]
    else ⟨log, cursor⟩ :: looksFrom file (log.pushAll (found.reports.map file.diagnose)) found.after
termination_by cursor.rest.length
decreasing_by exact (length_after_next cursor).resolve_left _h

/-- The places of a source file where the scanner starts to look for a token. -/
def looks (file : SourceFile) : List Look :=
  looksFrom file .empty (.start file.text.toList)

section Cap

variable {file : SourceFile} {log : Log} {cursor : Cursor}

theorem looksFrom_full (full : log.isFull = true) : looksFrom file log cursor = [] := by
  rw [looksFrom, if_pos full]

theorem looksFrom_stop (room : log.isFull = false)
    (stops : (next cursor).token.kind = .endOfInput) :
    looksFrom file log cursor = [⟨log, cursor⟩] := by
  rw [looksFrom, if_neg (by rw [room]; exact Bool.false_ne_true)]
  exact dif_pos stops

theorem looksFrom_token (room : log.isFull = false)
    (goes : (next cursor).token.kind ≠ .endOfInput) :
    looksFrom file log cursor = ⟨log, cursor⟩
      :: looksFrom file (log.pushAll ((next cursor).reports.map file.diagnose))
        (next cursor).after := by
  rw [looksFrom, if_neg (by rw [room]; exact Bool.false_ne_true)]
  exact dif_neg goes

/-- The log is made of the faults on the way to the tokens that were looked for. -/
theorem log_scanFrom (file : SourceFile) (last : Option Kind) (log : Log) (cursor : Cursor) :
    (scanFrom file last log cursor).log
      = log.pushAll (((looksFrom file log cursor).flatMap Look.faults).map file.diagnose) := by
  fun_induction scanFrom file last log cursor with
  | case1 last log cursor full =>
    rw [looksFrom_full full]
    rfl
  | case2 last log cursor room found log' stops =>
    rw [looksFrom_stop (eq_false_of_ne_true room) stops, List.flatMap_singleton]
    rfl
  | case3 last log cursor room found log' goes drops ih =>
    rw [ih, looksFrom_token (eq_false_of_ne_true room) goes, List.flatMap_cons, List.map_append]
    exact List.foldl_append.symm
  | case4 last log cursor room found log' goes keeps others ih =>
    rw [ih, looksFrom_token (eq_false_of_ne_true room) goes, List.flatMap_cons, List.map_append]
    exact List.foldl_append.symm

/-- No token is looked for once the log is full. -/
theorem room_of_mem_looksFrom {l : Look} (h : l ∈ looksFrom file log cursor) :
    l.log.total < Log.capacity := by
  fun_induction looksFrom file log cursor with
  | case1 => cases h
  | case2 log cursor room found stops =>
    obtain rfl := List.mem_singleton.mp h
    simpa [Log.isFull] using room
  | case3 log cursor room found goes ih =>
    rcases List.mem_cons.mp h with rfl | h
    · simpa [Log.isFull] using room
    · exact ih h

/-- What is reported by the end has room exactly if each token's faults have. -/
theorem total_pushAll_le_iff (room : log.total ≤ Log.capacity) :
    (log.pushAll (((looksFrom file log cursor).flatMap Look.faults).map file.diagnose)).total
        ≤ Log.capacity
      ↔ ∀ l ∈ looksFrom file log cursor, l.log.total + l.faults.length ≤ Log.capacity := by
  fun_induction looksFrom file log cursor with
  | case1 log cursor full => exact iff_of_true room (List.forall_mem_nil _)
  | case2 log cursor _ found stops =>
    rw [List.flatMap_singleton, List.forall_mem_singleton, Log.total_pushAll, List.length_map]
  | case3 log cursor _ found goes ih =>
    rw [List.flatMap_cons, List.forall_mem_cons, List.map_append]
    have split (ds ds' : List Diagnostic) :
        log.pushAll (ds ++ ds') = (log.pushAll ds).pushAll ds' := List.foldl_append
    have first : (log.pushAll (found.reports.map file.diagnose)).total
        = log.total + (Look.mk log cursor).faults.length := by
      rw [Log.total_pushAll, List.length_map]
      rfl
    rw [split]
    by_cases fits : log.total + (Look.mk log cursor).faults.length ≤ Log.capacity
    · rw [← ih (first ▸ fits)]
      exact (and_iff_right fits).symm
    · refine iff_of_false (fun le => fits ?_) fun all => fits all.1
      rw [Log.total_pushAll] at le
      exact first ▸ Nat.le_trans (Nat.le_add_right _ _) le

end Cap

/-- **The cap of the log.** The scanner looks for a token only while the log has room. It stays
within the capacity of the log exactly if no token brings more faults than there is room for; then
its calls nest no deeper than the capacity allows. In any case there are no more calls on the way to
a token than there are faults, and one. -/
theorem total_le_capacity_iff (file : SourceFile) :
    ((scan file).log.total ≤ Log.capacity
        ↔ ∀ l ∈ looks file, l.log.total + l.faults.length ≤ Log.capacity)
      ∧ (∀ l ∈ looks file,
        l.log.total < Log.capacity ∧ (calls l.place).length ≤ l.faults.length + 1)
      ∧ ((scan file).log.total ≤ Log.capacity
        → ∀ l ∈ looks file, (calls l.place).length ≤ Log.capacity + 1) := by
  have within : (scan file).log.total ≤ Log.capacity
      ↔ ∀ l ∈ looks file, l.log.total + l.faults.length ≤ Log.capacity := by
    rw [scan, log_scanFrom]
    exact total_pushAll_le_iff (Nat.zero_le _)
  refine ⟨within, fun l hl => ⟨room_of_mem_looksFrom hl, length_calls_le l.place⟩, ?_⟩
  intro le l hl
  have fits := within.mp le l hl
  have nested : (calls l.place).length ≤ l.faults.length + 1 := length_calls_le l.place
  omega

/-! ## Characters outside the language -/

section Strays

variable (place : Position) (n : Nat)

theorem next_strays : (next ⟨place, List.replicate n '^'⟩).token.kind = .endOfInput
    ∧ (next ⟨place, List.replicate n '^'⟩).reports.length = n := by
  induction n generalizing place with
  | zero =>
    rw [List.replicate_zero, next_end]
    exact ⟨rfl, rfl⟩
  | succ n ih =>
    have first : (List.replicate (n + 1) '^').drop (triviaLength (List.replicate (n + 1) '^'))
        = '^' :: List.replicate n '^' := rfl
    rw [next_unknown first rfl]
    exact ⟨(ih _).1, congrArg (· + 1) (ih _).2⟩

theorem length_calls_strays : (calls ⟨place, List.replicate n '^'⟩).length = n + 1 := by
  induction n generalizing place with
  | zero =>
    rw [calls]
    rfl
  | succ n ih =>
    rw [calls]
    exact congrArg (· + 1) (ih _)

end Strays

/-- No number bounds the faults that are reported, and none bounds the calls that nest: both grow
with the characters outside the language that follow one another. -/
theorem total_scan_strays (name : String) (n : Nat) :
    let file := SourceFile.ofText name (String.ofList (List.replicate n '^'))
    (scan file).log.total = n ∧ ∃ l ∈ looks file, (calls l.place).length = n + 1 := by
  intro file
  have text : file.text.toList = List.replicate n '^' := String.toList_ofList
  have start : looks file = [⟨.empty, ⟨⟨1, 1⟩, List.replicate n '^'⟩⟩] := by
    rw [looks, text]
    exact looksFrom_stop rfl (next_strays _ n).1
  constructor
  · rw [scan, log_scanFrom]
    show (Log.empty.pushAll (((looks file).flatMap Look.faults).map file.diagnose)).total = n
    rw [start, List.flatMap_singleton, Log.total_pushAll, List.length_map]
    exact (Nat.zero_add _).trans (next_strays _ n).2
  · rw [start]
    exact ⟨_, List.mem_singleton_self _, length_calls_strays _ n⟩

end ScriptCompiler.Token
