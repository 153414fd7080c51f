import ScriptCompiler.Proofs.Diagnostic.Logs
import ScriptCompiler.Proofs.Truncation.Scanning
import ScriptCompiler.Session.Basic

/-!
# The first lines of a program

Where a text is a program, its first lines are one too, or they are incomplete: the fault in them
that starts first says that the text ends there. There is one exception. A backslash at the end of a
line escapes the line break, and lines that stop right after it are malformed: the backslash is a
character outside the language, and its fault comes before the end. So a session that is given a
program line by line keeps the lines that are not a program yet, and drops them where the last one
ends in a backslash.
-/

namespace ScriptCompiler

/-! ## Logs -/

namespace Log

theorem total_append_eq_zero {l l' : Log} (h : (l.append l').total = 0) :
    l.total = 0 ∧ l'.total = 0 := by
  unfold append at h
  simp only [total_pushAll] at h
  omega

/-- No diagnostic starts before the first one that was reported. -/
theorem earliest?_of_first {l : Log} {d : Diagnostic} {ds : List Diagnostic} (h : l.kept = d :: ds)
    (first : ∀ d' ∈ ds, Span.noLater d.span.start d'.span.start) : l.earliest? = some d := by
  rw [earliest?, h, List.foldl_cons]
  dsimp only
  clear h
  induction ds with
  | nil => rfl
  | cons d' ds ih =>
    rw [List.foldl_cons]
    dsimp only
    rw [if_pos (first d' List.mem_cons_self)]
    exact ih fun d' hd => first d' (List.mem_cons_of_mem _ hd)

/-- The diagnostic that starts first is one of those that the log keeps. -/
theorem earliest?_of_all {l : Log} {p : Diagnostic → Prop} (hne : l.kept ≠ [])
    (all : ∀ d ∈ l.kept, p d) : ∃ d, l.earliest? = some d ∧ p d := by
  obtain ⟨b, ds, h⟩ := List.exists_cons_of_ne_nil hne
  rw [h, List.forall_mem_cons] at all
  obtain ⟨hb, all⟩ := all
  rw [earliest?, h, List.foldl_cons]
  dsimp only
  clear h hne
  induction ds generalizing b with
  | nil => exact ⟨b, rfl, hb⟩
  | cons d ds ih =>
    rw [List.forall_mem_cons] at all
    obtain ⟨hd, all⟩ := all
    rw [List.foldl_cons]
    dsimp only
    split
    · exact ih b hb all
    · exact ih d hd all

end Log

/-! ## Failures -/

namespace ParseFailure

/-- All faults are that the text stops early. -/
theorem ofLog_incomplete {d : Diagnostic} {ds : List Diagnostic}
    (all : ∀ d' ∈ d :: ds, d'.code.isEndOfInput = true) :
    ofLog (Log.empty.pushAll (d :: ds)) = .incomplete (Log.empty.pushAll (d :: ds)) := by
  have kept : (Log.empty.pushAll (d :: ds)).kept = d :: ds.take (Log.capacity - 1) :=
    Log.kept_empty_pushAll _
  obtain ⟨e, he, early⟩ := Log.earliest?_of_all
    (l := Log.empty.pushAll (d :: ds)) (p := fun d => d.code.isEndOfInput = true)
    (by rw [kept]; exact List.cons_ne_nil _ _)
    (fun d' h => all d' (List.mem_of_mem_take (Log.kept_empty_pushAll (d :: ds) ▸ h)))
  rw [ofLog, he]
  exact if_pos early

/-- The first fault is another one, and no fault starts before it. -/
theorem ofLog_malformed {d : Diagnostic} {ds : List Diagnostic} (hd : d.code.isEndOfInput = false)
    (first : ∀ d' ∈ ds, Span.noLater d.span.start d'.span.start) :
    ofLog (Log.empty.pushAll (d :: ds)) = .malformed (Log.empty.pushAll (d :: ds)) := by
  have kept : (Log.empty.pushAll (d :: ds)).kept = d :: ds.take (Log.capacity - 1) :=
    Log.kept_empty_pushAll _
  rw [ofLog, Log.earliest?_of_first kept fun d' h => first d' (List.mem_of_mem_take h)]
  exact if_neg (by rw [Option.any_some, hd]; nofun)

end ParseFailure

/-! ## First lines -/

/-- The first lines of a text, without the line break at their end. -/
def firstLines (n : Nat) (source : String) : String :=
  "\n".intercalate (((Text.split source.toList).take n).map String.ofList)

theorem toList_firstLines (n : Nat) (source : String) :
    (firstLines n source).toList = ['\n'].intercalate ((Text.split source.toList).take n) := by
  rw [firstLines, String.toList_intercalate, List.map_map]
  have same : String.toList ∘ String.ofList = id := funext fun _ => String.toList_ofList
  rw [same, List.map_id]
  rfl

theorem split_newline (rest : List Char) :
    Text.split ('\n' :: rest) = [] :: Text.split rest := by
  simp only [Text.split, Text.splitAt, Text.cut, if_true]

theorem split_cons {c : Char} (hc : c ≠ '\n') (rest : List Char) :
    ∃ piece pieces, Text.split rest = piece :: pieces
      ∧ Text.split (c :: rest) = (c :: piece) :: pieces := by
  refine ⟨_, _, rfl, ?_⟩
  simp only [Text.split, Text.splitAt, Text.cut, if_neg hc]

/-- A line break comes after the first lines. -/
theorem cut_firstLines {text : List Char} {n : Nat} (h : n + 1 < (Text.split text).length) :
    ∃ more, text = ['\n'].intercalate ((Text.split text).take (n + 1)) ++ '\n' :: more := by
  induction text generalizing n with
  | nil => exact absurd h (Nat.not_lt_of_le (Nat.le_add_left 1 n))
  | cons c rest ih =>
    by_cases hc : c = '\n'
    · subst hc
      rw [split_newline, List.length_cons] at h
      rw [split_newline, List.take_succ_cons]
      cases n with
      | zero => exact ⟨rest, rfl⟩
      | succ n =>
        obtain ⟨more, hm⟩ := ih (Nat.lt_of_succ_lt_succ h)
        obtain ⟨piece, pieces, hs⟩ : ∃ piece pieces, Text.split rest = piece :: pieces :=
          ⟨_, _, rfl⟩
        rw [hs] at hm ⊢
        refine ⟨more, ?_⟩
        rw [List.take_succ_cons, List.intercalate_cons_cons, ← List.take_succ_cons, List.nil_append,
          List.singleton_append, List.cons_append, ← hm]
    · obtain ⟨piece, pieces, hs, hs'⟩ := split_cons hc rest
      rw [hs'] at h ⊢
      rw [hs] at ih
      obtain ⟨more, hm⟩ := ih (n := n) h
      refine ⟨more, ?_⟩
      rw [List.take_succ_cons] at hm ⊢
      cases hp : pieces.take n with
      | nil =>
        rw [hp, List.intercalate_singleton] at hm
        rw [List.intercalate_singleton, List.cons_append, ← hm]
      | cons line lines =>
        rw [hp, List.intercalate_cons_cons] at hm
        rw [List.intercalate_cons_cons, List.cons_append, List.cons_append, List.cons_append, ← hm]

theorem firstLines_cut {source : String} {n : Nat} (h : n < (Text.split source.toList).length) :
    (firstLines n source).toList = []
      ∨ ∃ more, source.toList = (firstLines n source).toList ++ '\n' :: more := by
  rw [toList_firstLines]
  cases n with
  | zero => exact .inl rfl
  | succ n => exact .inr (cut_firstLines h)

/-! ## Parsing the first lines -/

/-- The text ends in a backslash that stands in no string and no comment: the line break that it
escapes is missing, and scanning takes it for a character outside the language. -/
def StopsInEscape (name text : String) : Prop :=
  ['\\'] <:+ text.toList
    ∧ ∃ d ∈ (Token.scan (.ofText name text)).log.kept, d.code = .invalidCharacter

namespace Parse

open Token (Blame)

/-- The program that a text spells, if any, and the faults that parsing finds in it. -/
def ofText (name text : String) (known : List String) : Option Body × Log :=
  ofTokens (.ofText name text) (Token.scan (.ofText name text)).tokens known

/-- The faults that scanning and parsing find in a text. -/
def faults (name text : String) (known : List String) : Log :=
  (Token.scan (.ofText name text)).log.append (ofText name text known).2

variable {name source left : String} {known : List String} {nodes : Body}

theorem parse_eq (name source : String) (known : List String) :
    parse name source known =
      match (ofText name source known).1 with
      | some statements =>
        if (faults name source known).hasErrors then .error (.ofLog (faults name source known))
        else .ok statements
      | none => .error (.ofLog (faults name source known)) :=
  rfl

/-- A program has no faults. -/
theorem total_of_parse (h : parse name source known = .ok nodes) :
    (Token.scan (.ofText name source)).log.total = 0 ∧ (ofText name source known).2.total = 0 := by
  rw [parse_eq] at h
  split at h
  · split at h
    · cases h
    · next hf =>
      exact Log.total_append_eq_zero (Nat.eq_zero_of_not_pos fun lt => hf (decide_eq_true lt))
  · cases h

/-- A text without faults is a program. -/
theorem parse_of_nil (h : (faults name source known).total = 0) :
    ∃ nodes, parse name source known = .ok nodes := by
  let stream := Stream.ofFile (.ofText name source)
  have start : (State.start (.ofText name source) stream.tokens known).In stream :=
    ⟨[], remaining_start stream _ known⟩
  have goes := goes_program start (Nat.zero_le _)
  rw [parse_eq]
  cases hr : (ofText name source known).1 with
  | some statements =>
    refine ⟨statements, if_neg ?_⟩
    rw [Log.hasErrors, h]
    decide
  | none =>
    exact absurd (Log.total_append_eq_zero h).2 (Nat.ne_of_gt (goes.fails hr))

theorem parse_of_cons {d : Diagnostic} {ds : List Diagnostic}
    (h : faults name source known = Log.empty.pushAll (d :: ds)) :
    parse name source known = .error (.ofLog (Log.empty.pushAll (d :: ds))) := by
  have hasErrors : (faults name source known).hasErrors = true := by
    rw [Log.hasErrors, h, Log.total_pushAll, List.length_cons]
    exact decide_eq_true (Nat.succ_pos _)
  rw [parse_eq, hasErrors, h]
  split <;> rfl

/-- A text whose faults all say that it stops early is a program or incomplete. -/
theorem parse_of_early {reports : List Report}
    (h : faults name source known
      = Log.empty.pushAll (reports.map (SourceFile.ofText name source).diagnose))
    (all : ∀ r ∈ reports, r.code.isEndOfInput = true) :
    (∃ nodes, parse name source known = .ok nodes)
      ∨ ∃ log, parse name source known = .error (.incomplete log) := by
  cases reports with
  | nil => exact .inl (parse_of_nil (h ▸ rfl))
  | cons r reports =>
    have incomplete := parse_of_cons h
    rw [ParseFailure.ofLog_incomplete] at incomplete
    · exact .inr ⟨_, incomplete⟩
    · intro d hd
      obtain ⟨r', hr, rfl⟩ := List.mem_map.mp (List.map_cons ▸ hd)
      exact all r' hr

/-- A text is malformed if a fault that says something else comes first. -/
theorem parse_of_other {report : Report} {reports : List Report}
    (h : faults name source known
      = Log.empty.pushAll ((report :: reports).map (SourceFile.ofText name source).diagnose))
    (other : report.code.isEndOfInput = false)
    (first : ∀ r ∈ reports, Span.noLater report.span.start r.span.start) :
    ∃ log, parse name source known = .error (.malformed log) := by
  have malformed := parse_of_cons h
  rw [ParseFailure.ofLog_malformed other] at malformed
  · exact ⟨_, malformed⟩
  · intro d hd
    obtain ⟨r, hr, rfl⟩ := List.mem_map.mp hd
    exact first r hr

/-- The faults in what is left of a program. -/
theorem faults_of_cut (h : parse name source known = .ok nodes)
    (shallow : NestsWithin (maxDepth - 1) (.ofText name source)
      (Token.scan (.ofText name source)).tokens known)
    (cut : left.toList = [] ∨ ∃ more, source.toList = left.toList ++ '\n' :: more) :
    ∃ (stop : Token) (isEnd : stop.kind = .endOfInput),
      Blame (.ofText name left) left.toList stop (Token.scan (.ofText name left)).log
        ∧ Stop.Only ⟨.ofText name left, stop, isEnd⟩ (ofText name left known).2 := by
  obtain ⟨scanned, parsed⟩ := total_of_parse h
  unfold ofText
  rcases cut with nothing | ⟨more, hm⟩
  · obtain ⟨stop, isEnd, hs⟩ :=
      Token.scanFrom_nil (.ofText name left) none .empty ⟨1, 1⟩
    have scan : Token.scan (.ofText name left) = ⟨[stop], .empty⟩ := by
      rw [← hs, Token.scan]
      show Token.scanFrom _ none .empty ⟨_, left.toList⟩ = _
      rw [nothing]
    rw [scan]
    have start : Stop.At ⟨.ofText name left, stop, isEnd⟩
        (.start (.ofText name left) [stop] known) :=
      ⟨rfl, rfl, Stop.only_empty _⟩
    exact ⟨stop, isEnd, .nothing _ _ _, (ends_programWithin start maxDepth).only⟩
  · have clean : (Token.scanFrom (.ofText name source) none .empty
        ⟨⟨1, 1⟩, left.toList ++ '\n' :: more⟩).log.total = 0 := by
      rw [← hm]
      exact scanned
    obtain ⟨stop, isEnd, shortened, blame⟩ := Token.scanFrom_cut _ (.ofText name left)
      List.suffix_rfl clean
    rw [← hm] at shortened
    refine ⟨stop, isEnd, blame, ?_⟩
    have accepted : (ofTokensWithin (maxDepth - 1) (.ofText name source)
        (Token.scan (.ofText name source)).tokens known).2.total = 0 := by
      rw [shallow]
      exact parsed
    have shortened : Shortened stop none (Stream.ofFile (.ofText name source)).tokens _ := shortened
    exact shortened.only isEnd (Nat.sub_lt (by decide) Nat.one_pos) accepted

/-- What is left of a program is one too, or it is incomplete, unless it stops in an escape. -/
theorem parse_of_cut (h : parse name source known = .ok nodes)
    (shallow : NestsWithin (maxDepth - 1) (.ofText name source)
      (Token.scan (.ofText name source)).tokens known)
    (cut : left.toList = [] ∨ ∃ more, source.toList = left.toList ++ '\n' :: more) :
    StopsInEscape name left ∧ (∃ log, parse name left known = .error (.malformed log))
      ∨ ¬ StopsInEscape name left ∧ ((∃ nodes, parse name left known = .ok nodes)
        ∨ ∃ log, parse name left known = .error (.incomplete log)) := by
  obtain ⟨stop, isEnd, blame, reports, only, hp⟩ := faults_of_cut h shallow cut
  have hf : faults name left known = (Token.scan (.ofText name left)).log.append
      (Log.empty.pushAll (reports.map (SourceFile.ofText name left).diagnose)) :=
    congrArg _ hp
  unfold StopsInEscape
  generalize (Token.scan (.ofText name left)).log = log at blame hf ⊢
  cases blame with
  | @unfinished reports' unfinished =>
    right
    rw [Log.append_pushAll, ← List.map_append] at hf
    refine ⟨?_, parse_of_early hf fun r hr => ?_⟩
    · rintro ⟨-, d, hd, hc⟩
      rw [Log.kept_empty_pushAll] at hd
      obtain ⟨r, hr, rfl⟩ := List.mem_map.mp (List.mem_of_mem_take hd)
      exact absurd ((unfinished r hr).symm.trans hc) (by decide)
    · rcases List.mem_append.mp hr with hr | hr
      · rw [unfinished r hr]
        rfl
      · rw [(only r hr).1]
        rfl
  | @escape report code early backslash =>
    left
    rw [Log.append_pushAll] at hf
    refine ⟨⟨backslash, _, List.mem_cons_self, code⟩, parse_of_other hf ?_ fun r hr => ?_⟩
    · rw [code]
      rfl
    · rw [(only r hr).2]
      exact early

end Parse

/-! ## Lines of a session -/

namespace Session

variable {fs : FileSystem} {s : Session} {line : String} {failure : ParseFailure}

theorem turn_of_error {source : String}
    (h : parse fileName source s.state.vars.names = .error failure) :
    s.turn fs source = .error (.parse failure) := by
  unfold turn
  rw [h]
  rfl

/-- A line after which the lines are not a program: they are kept if they are incomplete. -/
theorem pushLine_of_error
    (blank : ("\n".intercalate (s.pending ++ [line])).toList.all Text.isBlank = false)
    (h : parse fileName ("\n".intercalate (s.pending ++ [line])) s.state.vars.names
      = .error failure) :
    s.pushLine fs line =
      if failure.isIncomplete then (.ok .incomplete, { s with pending := s.pending ++ [line] })
      else (.error (.parse failure), { s with pending := [] }) := by
  unfold pushLine
  dsimp only
  rw [blank, turn_of_error h]
  rfl

end Session

/-- A text that ends in a backslash is not blank. -/
theorem StopsInEscape.not_blank {name text : String} (h : StopsInEscape name text) :
    text.toList.all Text.isBlank = false := by
  obtain ⟨⟨others, ht⟩, -⟩ := h
  rw [← ht, List.all_append]
  exact Bool.and_false _

/-- **The first lines of a program** are a program or incomplete, unless they stop in an escape. A
session to which they are given line by line keeps them until they are a program, and drops them
where they stop in an escape. -/
theorem firstLines_of_parse {name source : String} {known : List String} {nodes : Body}
    (h : parse name source known = .ok nodes)
    (shallow : Parse.NestsWithin (Parse.maxDepth - 1) (.ofText name source)
      (Token.scan (.ofText name source)).tokens known)
    {n : Nat} (hn : n < (Text.split source.toList).length) :
    ((∃ nodes, parse name (firstLines n source) known = .ok nodes)
        ∨ (∃ log, parse name (firstLines n source) known = .error (.incomplete log))
      ↔ ¬ StopsInEscape name (firstLines n source))
      ∧ ∀ (fs : FileSystem) (s : Session) (line : String), name = Session.fileName →
        known = s.state.vars.names → "\n".intercalate (s.pending ++ [line]) = firstLines n source →
        (StopsInEscape name (firstLines n source) →
          ∃ log, s.pushLine fs line = (.error (.parse (.malformed log)), { s with pending := [] }))
        ∧ (¬ StopsInEscape name (firstLines n source) →
          (∃ nodes, parse name (firstLines n source) known = .ok nodes)
            ∨ (firstLines n source).toList.all Text.isBlank
            ∨ s.pushLine fs line
              = (.ok .incomplete, { s with pending := s.pending ++ [line] })) := by
  have cut := Parse.parse_of_cut h shallow (firstLines_cut hn)
  generalize firstLines n source = left at cut
  rcases cut with ⟨stops, log, malformed⟩ | ⟨goesOn, read⟩
  · refine ⟨iff_of_false ?_ (not_not_intro stops), ?_⟩
    · rw [malformed]
      rintro (⟨nodes', read⟩ | ⟨log', read⟩) <;> cases read
    · rintro fs s line rfl rfl rfl
      refine ⟨fun _ => ⟨log, ?_⟩, fun goesOn => absurd stops goesOn⟩
      exact s.pushLine_of_error stops.not_blank malformed
  · refine ⟨iff_of_true read goesOn, ?_⟩
    rintro fs s line rfl rfl rfl
    refine ⟨fun stops => absurd stops goesOn, fun _ => read.imp id ?_⟩
    rintro ⟨log, incomplete⟩
    by_cases blank : ("\n".intercalate (s.pending ++ [line])).toList.all Text.isBlank = true
    · exact .inl blank
    · exact .inr (s.pushLine_of_error (eq_false_of_ne_true blank) incomplete)

/-- A sum that goes on in the next line, where the line break is escaped. -/
def sumText : String :=
  "1 + \\\n2"

/-- The first line of the sum alone is malformed, and a session drops it. -/
theorem firstLines_of_parse_sumText :
    (∃ nodes, parse Session.fileName sumText [] = .ok nodes)
      ∧ firstLines 1 sumText = "1 + \\"
      ∧ StopsInEscape Session.fileName (firstLines 1 sumText)
      ∧ ∀ (fs : FileSystem) (s : Session), s.state.vars.names = [] → s.pending = [] →
        ∃ log, s.pushLine fs "1 + \\" = (.error (.parse (.malformed log)), s) := by
  have accepted : (parse Session.fileName sumText []).toOption.isSome = true := by decide +kernel
  have shallow : Parse.NestsWithin (Parse.maxDepth - 1) (.ofText Session.fileName sumText)
    (Token.scan (.ofText Session.fileName sumText)).tokens [] := by decide +kernel
  have lines : 1 < (Text.split sumText.toList).length := by decide
  have first : firstLines 1 sumText = "1 + \\" := by decide +kernel
  have stops : StopsInEscape Session.fileName (firstLines 1 sumText) := by
    rw [first]
    exact ⟨⟨"1 + ".toList, by decide +kernel⟩, by decide +kernel⟩
  cases h : parse Session.fileName sumText [] with
  | error failure =>
    rw [h] at accepted
    cases accepted
  | ok nodes =>
    refine ⟨⟨nodes, rfl⟩, first, stops, fun fs s names pending => ?_⟩
    have drops := (firstLines_of_parse h shallow lines).2 fs s "1 + \\" rfl names.symm
    rw [pending, first] at drops
    obtain ⟨log, hl⟩ := (drops (by decide +kernel)).1 (first ▸ stops)
    refine ⟨log, hl.trans ?_⟩
    rw [← pending]

end ScriptCompiler
