import Mathlib.Data.List.Chain
import Mathlib.Data.List.Induction
import Mathlib.Data.String.Basic
import ScriptCompiler.Proofs.Continuation.Scanning

/-!
# The order of tokens

The tokens of a text stand in it one behind the other: each one starts at its first character, and
the end of the text comes last. There is one exception. A colon that stands alone is no token, but
the token behind it starts at the colon.
-/

namespace ScriptCompiler.Token

/-! ## Positions -/

namespace Position

/-- The position comes before the other one. -/
def Before (p q : Position) : Prop :=
  p.line < q.line ∨ p.line = q.line ∧ p.column < q.column

instance (p q : Position) : Decidable (p.Before q) :=
  inferInstanceAs (Decidable (_ ∨ _ ∧ _))

variable {p q r : Position}

theorem not_before_self (p : Position) : ¬ p.Before p := by
  unfold Before
  omega

theorem Before.trans (h : p.Before q) (h' : q.Before r) : p.Before r := by
  unfold Before at *
  omega

theorem Before.of_not_before (h : ¬ q.Before p) (h' : q.Before r) : p.Before r := by
  unfold Before at *
  omega

theorem Before.of_before_of_not (h : p.Before q) (h' : ¬ r.Before q) : p.Before r := by
  unfold Before at *
  omega

theorem Before.asymm (h : p.Before q) : ¬ q.Before p :=
  fun h' => p.not_before_self (h.trans h')

theorem before_step (p : Position) (c : Char) : p.Before (p.step c) := by
  have size := c.utf8Size_pos
  unfold step Before
  split
  · exact .inl (Nat.lt_succ_self _)
  · exact .inr ⟨rfl, Nat.lt_add_of_pos_right size⟩

theorem not_past_before (p : Position) (cs : List Char) : ¬ (p.past cs).Before p := by
  induction cs generalizing p with
  | nil => exact p.not_before_self
  | cons c cs ih =>
    intro h
    exact ih (p.step c) (h.trans (p.before_step c))

theorem before_past_cons (p : Position) (c : Char) (cs : List Char) :
    p.Before (p.past (c :: cs)) := by
  by_contra h
  exact (p.step c).not_past_before cs (Before.of_not_before h (p.before_step c))

/-- The position behind some characters of a text: as many lines down as there are line breaks, and
as many columns to the right as the last line has bytes. -/
def behind (before : List Char) : Position :=
  ⟨1 + before.count '\n', 1 + String.utf8Len (before.reverse.takeWhile (· ≠ '\n'))⟩

theorem past_start (before : List Char) : past ⟨1, 1⟩ before = behind before := by
  induction before using List.reverseRecOn with
  | nil => rfl
  | append_singleton before c ih =>
    rw [past_append, ih]
    show (behind before).step c = _
    unfold step behind
    split
    · next h => simp [h, Nat.add_assoc]
    · next h => simp [h, Nat.add_comm, Nat.add_left_comm]

end Position

/-- Where the token starts. -/
def start (t : Token) : Position :=
  ⟨t.span.startLine, t.span.startColumn⟩

/-- Where the token ends. -/
def finish (t : Token) : Position :=
  ⟨t.span.endLine, t.span.endColumn⟩

/-- The place is in the text. -/
def Cursor.Within (text : List Char) (c : Cursor) : Prop :=
  ∃ before, text = before ++ c.rest ∧ c.position = .behind before

section Within

variable {text : List Char} {cursor : Cursor}

theorem Cursor.Within.start (text : List Char) : Cursor.Within text (.start text) :=
  ⟨[], rfl, rfl⟩

theorem Cursor.Within.skip (h : cursor.Within text) (n : Nat) : (cursor.skip n).Within text := by
  obtain ⟨before, rfl, position⟩ := h
  refine ⟨before ++ cursor.rest.take n, ?_, ?_⟩
  · rw [List.append_assoc, Cursor.skip, List.take_append_drop]
  · rw [← Position.past_start, Position.past_append, Position.past_start, ← position]
    rfl

theorem Cursor.Within.step {p : Position} {c : Char} {rest : List Char}
    (h : Cursor.Within text ⟨p, c :: rest⟩) : Cursor.Within text ⟨p.step c, rest⟩ :=
  h.skip 1

end Within

/-! ## The way to a token -/

/-- What the scanner passes on its way to a token: the colons that stand alone, and the place of the
token itself. -/
structure Way where
  colons : List Cursor
  place : Cursor

/-- Where a token starts: at the first colon before it, or else at its own place. -/
def Way.start (w : Way) : Position :=
  (w.colons.head?.getD w.place).position

/-- The way to the next token. -/
def way (cursor : Cursor) : Way :=
  let skipped := triviaLength cursor.rest
  let here := cursor.skip skipped
  match _h : cursor.rest.drop skipped with
  | [] => ⟨[], here⟩
  | c :: rest =>
    match Lexeme.ofChar here.position c rest with
    | .complete _ _ _ => ⟨[], here⟩
    | .unknown _ => way ⟨here.position.step c, rest⟩
    | .strayColon _ =>
      let onward := way ⟨here.position.step c, rest⟩
      ⟨here :: onward.colons, onward.place⟩
termination_by cursor.rest.length
decreasing_by
  all_goals
    have := congrArg List.length _h
    simp only [List.length_drop, List.length_cons] at this
    omega

/-- At this place a colon stands alone. -/
def Cursor.IsStray (c : Cursor) : Prop :=
  ∃ rest report, c.rest = ':' :: rest ∧ Lexeme.ofChar c.position ':' rest = .strayColon report

/-- What the way says of the token at its end: where the token starts, that this is not behind the
place where it ends, and what stands at its place and at the colons before it. -/
structure Way.LeadsTo (w : Way) (text : List Char) (t : Token) : Prop where
  start : t.start = w.start
  ordered : ¬ t.finish.Before t.start
  within : w.place.Within text
  lexeme : t.kind = .endOfInput ∨ ∃ c rest extra reports, w.place.rest = c :: rest
    ∧ Lexeme.ofChar w.place.position c rest = .complete t.kind extra reports
  colons : ∀ colon ∈ w.colons, colon.Within text ∧ colon.IsStray
    ∧ colon.position.Before w.place.position

theorem Way.LeadsTo.spaced {w : Way} {text : List Char} {t : Token} (h : w.LeadsTo text t)
    (space : Bool) : w.LeadsTo text { t with spaceBefore := space } :=
  { h with }

/-- A token starts at its own first character if no colon that stands alone is on the way to it. -/
theorem Way.LeadsTo.start_iff {w : Way} {text : List Char} {t : Token} (h : w.LeadsTo text t) :
    t.start = w.place.position ↔ w.colons = [] := by
  rw [h.start, Way.start]
  cases hw : w.colons with
  | nil => simp
  | cons colon colons =>
    have before := (h.colons colon (hw ▸ List.mem_cons_self)).2.2
    constructor
    · intro (same : colon.position = w.place.position)
      exact absurd (same ▸ before) (Position.not_before_self _)
    · exact nofun

/-- No token starts behind its own place. -/
theorem Way.LeadsTo.not_place_before {w : Way} {text : List Char} {t : Token}
    (h : w.LeadsTo text t) : ¬ w.place.position.Before t.start := by
  rw [h.start, Way.start]
  cases hw : w.colons with
  | nil => exact Position.not_before_self _
  | cons colon colons => exact (h.colons colon (hw ▸ List.mem_cons_self)).2.2.asymm

section Next

variable {text : List Char}

theorem not_finish_before_start {p q : Position} (h : p.Before q) (kind : Kind) (space : Bool) :
    ¬ (finish ⟨kind, p.spanTo q, space⟩).Before (start ⟨kind, p.spanTo q, space⟩) := by
  unfold Position.Before at *
  simp only [finish, start, Position.spanTo]
  omega

/-- Only a colon stands alone. -/
theorem eq_colon_of_stray {place : Position} {c : Char} {rest : List Char} {report : Report}
    (h : Lexeme.ofChar place c rest = .strayColon report) : c = ':' := by
  have either (single : Punct) (longer : List (Char × Punct)) :
      Lexeme.either single rest longer ≠ .strayColon report := by
    unfold Lexeme.either
    split <;> nofun
  have sigil (sigil : Char) (what : String) (make : String → Kind) :
      Lexeme.sigilName place sigil what make rest ≠ .strayColon report := by
    unfold Lexeme.sigilName
    dsimp only
    split <;> nofun
  unfold Lexeme.ofChar at h
  split at h
  case h_7 => rfl
  case h_5 =>
    unfold Lexeme.instanceName at h
    split at h
    · cases h
    · exact absurd h (sigil _ _ _)
  case h_6 => exact absurd h (sigil _ _ _)
  case h_10 =>
    split at h
    · cases h
    · exact absurd h (either _ _)
  case h_27 =>
    unfold Lexeme.number Lexeme.lowerName Lexeme.upperName Lexeme.wideName at h
    dsimp only at h
    repeat' split at h
    all_goals cases h
  all_goals first | cases h | exact absurd h (either _ _)

/-! ### The end of the way -/

section Way

variable {cursor : Cursor} {c : Char} {rest : List Char}

theorem way_nil (h : cursor.rest.drop (triviaLength cursor.rest) = []) :
    way cursor = ⟨[], cursor.skip (triviaLength cursor.rest)⟩ := by
  rw [way]
  split
  · rfl
  · next h' => exact absurd (h'.symm.trans h) nofun

theorem way_cons (h : cursor.rest.drop (triviaLength cursor.rest) = c :: rest) :
    way cursor =
      match Lexeme.ofChar (cursor.skip (triviaLength cursor.rest)).position c rest with
      | .complete _ _ _ => ⟨[], cursor.skip (triviaLength cursor.rest)⟩
      | .unknown _ => way ⟨(cursor.skip (triviaLength cursor.rest)).position.step c, rest⟩
      | .strayColon _ =>
        let onward := way ⟨(cursor.skip (triviaLength cursor.rest)).position.step c, rest⟩
        ⟨cursor.skip (triviaLength cursor.rest) :: onward.colons, onward.place⟩ := by
  rw [way]
  split
  · next h' => exact absurd (h'.symm.trans h) nofun
  · next h' =>
    obtain ⟨rfl, rfl⟩ := List.cons.inj (h'.symm.trans h)
    rfl

end Way

/-- What is found next from a place of a text on, and the way to it: the token does not start before
that place, the search goes on behind the token, and only the end of the text takes no room. -/
structure Found.IsNext (found : Found) (text : List Char) (here : Position) (w : Way) : Prop where
  leads : w.LeadsTo text found.token
  starts : ¬ found.token.start.Before here
  place : ¬ w.place.position.Before here
  after : found.after.Within text
  passes : found.token.kind = .endOfInput ∧ found.after = w.place
    ∨ w.place.position.Before found.after.position

namespace Found.IsNext

variable {found : Found} {here : Position} {w : Way}

theorem not_after_before (h : found.IsNext text here w) : ¬ found.after.position.Before here := by
  rcases h.passes with ⟨-, same⟩ | passes
  · exact same ▸ h.place
  · exact (Position.Before.of_not_before h.place passes).asymm

/-- The token behind a character that starts none. -/
theorem behind {p : Position} (before : p.Before here) (h : found.IsNext text here w)
    {token : Token} {w' : Way} {reports : List Report} (kind : token.kind = found.token.kind)
    (leads : w'.LeadsTo text token) (starts : ¬ token.start.Before p) (place : w'.place = w.place) :
    IsNext ⟨token, found.after, reports⟩ text p w' where
  leads := leads
  starts := starts
  place := place ▸ (before.of_before_of_not h.place).asymm
  after := h.after
  passes := by rw [kind, place]; exact h.passes

end Found.IsNext

/-- **One token**: the scanner finds what its way leads to. -/
theorem isNext_next {cursor : Cursor} (within : cursor.Within text) :
    (next cursor).IsNext text cursor.position (way cursor) := by
  fun_induction next cursor with
  | case1 cursor skipped here space h =>
    have skips : ¬ here.position.Before cursor.position := Position.not_past_before _ _
    rw [way_nil h]
    exact {
      leads := {
        start := rfl
        ordered := Position.not_before_self _
        within := within.skip skipped
        lexeme := .inl rfl
        colons := List.forall_mem_nil _ }
      starts := skips
      place := skips
      after := within.skip skipped
      passes := .inl ⟨rfl, rfl⟩ }
  | case2 cursor skipped here space c rest h kind extra reports hl after =>
    have skips : ¬ here.position.Before cursor.position := Position.not_past_before _ _
    have onWay : way cursor = ⟨[], here⟩ := by
      rw [way_cons h]
      exact hl ▸ rfl
    have passes : here.position.Before after.position := by
      have taken : here.rest.take (extra + 1) = c :: rest.take extra := by
        rw [← List.take_succ_cons, ← h]
        rfl
      show here.position.Before (here.position.past (here.rest.take (extra + 1)))
      rw [taken]
      exact here.position.before_past_cons c _
    rw [onWay]
    exact {
      leads := {
        start := rfl
        ordered := not_finish_before_start passes kind space
        within := within.skip skipped
        lexeme := .inr ⟨c, rest, extra, reports, h, hl⟩
        colons := List.forall_mem_nil _ }
      starts := skips
      place := skips
      after := (within.skip skipped).skip (extra + 1)
      passes := .inr passes }
  | case3 cursor skipped here space c rest h report hl found ih =>
    have skips : ¬ here.position.Before cursor.position := Position.not_past_before _ _
    have before : cursor.position.Before (here.position.step c) :=
      Position.Before.of_not_before skips (here.position.before_step c)
    have onward : Cursor.Within text ⟨here.position.step c, rest⟩ :=
      Cursor.Within.step (h ▸ within.skip skipped)
    have onWay : way cursor = way ⟨here.position.step c, rest⟩ := by
      rw [way_cons h]
      exact hl ▸ rfl
    have later := ih onward
    rw [onWay]
    exact later.behind before rfl (later.leads.spaced space)
      (fun h' => later.starts (h'.trans before)) rfl
  | case4 cursor skipped here space c rest h report hl found ih =>
    have skips : ¬ here.position.Before cursor.position := Position.not_past_before _ _
    have before : here.position.Before (here.position.step c) := here.position.before_step c
    have onward : Cursor.Within text ⟨here.position.step c, rest⟩ :=
      Cursor.Within.step (h ▸ within.skip skipped)
    have onWay : way cursor = ⟨here :: (way ⟨here.position.step c, rest⟩).colons,
        (way ⟨here.position.step c, rest⟩).place⟩ := by
      rw [way_cons h]
      exact hl ▸ rfl
    have later := ih onward
    have stray : here.IsStray := by
      obtain rfl := eq_colon_of_stray hl
      exact ⟨rest, report, h, hl⟩
    rw [onWay]
    refine later.behind (Position.Before.of_not_before skips before) rfl ?_ skips rfl
    exact {
      start := rfl
      ordered := not_finish_before_start (before.of_before_of_not later.not_after_before) _ _
      within := later.leads.within
      lexeme := later.leads.lexeme
      colons := List.forall_mem_cons.mpr
        ⟨⟨within.skip skipped, stray, before.of_before_of_not later.place⟩, later.leads.colons⟩ }

end Next

/-! ## The tokens of a text -/

/-- A token and the way to it. -/
structure Placed where
  token : Token
  way : Way

/-- The tokens from a place on with the ways to them, after a token of the given kind. When the log
is full, the text ends where the scanner stands. -/
def placedFrom (file : SourceFile) (last : Option Kind) (log : Log) (cursor : Cursor) :
    List Placed :=
  if log.isFull then [⟨⟨.endOfInput, cursor.position.point, false⟩, ⟨[], cursor⟩⟩]
  else
    let found := next cursor
    let log := log.pushAll (found.reports.map file.diagnose)
    if _h : found.token.kind = .endOfInput then [⟨found.token, way cursor⟩]
    else if found.token.kind = .newline && dropsNewline last then
      placedFrom file last log found.after
    else
      ⟨found.token, way cursor⟩ :: placedFrom file (some found.token.kind) log found.after
termination_by cursor.rest.length
decreasing_by all_goals exact (length_after_next cursor).resolve_left _h

/-- The tokens of a source file and the ways to them. -/
def placed (file : SourceFile) : List Placed :=
  placedFrom file none .empty (.start file.text.toList)

theorem map_token_placedFrom (file : SourceFile) (last : Option Kind) (log : Log)
    (cursor : Cursor) :
    (placedFrom file last log cursor).map (·.token) = (scanFrom file last log cursor).tokens := by
  fun_induction scanFrom file last log cursor with
  | case1 last log cursor full =>
    rw [placedFrom, if_pos full]
    rfl
  | case2 last log cursor full found log' stops =>
    rw [placedFrom, if_neg full]
    dsimp only
    rw [dif_pos stops]
    rfl
  | case3 last log cursor full found log' stops drops ih =>
    rw [placedFrom, if_neg full]
    dsimp only
    rw [dif_neg stops, if_pos drops]
    exact ih
  | case4 last log cursor full found log' stops keeps others ih =>
    rw [placedFrom, if_neg full]
    dsimp only
    rw [dif_neg stops, if_neg keeps]
    exact congrArg (found.token :: ·) ih

/-- Tokens with the ways to them that come after a token of the given kind, none of them before the
given place: the end of the text is the last one, a line break comes only where a statement can end,
and every token starts before all that is behind it. -/
inductive Stream (text : List Char) : Option Kind → Position → List Placed → Prop
  | stop {last : Option Kind} {here : Position} {p : Placed} (kind : p.token.kind = .endOfInput)
      (leads : p.way.LeadsTo text p.token) (starts : ¬ p.token.start.Before here) :
      Stream text last here [p]
  | token {last : Option Kind} {here after : Position} {p : Placed} {ps : List Placed}
      (kind : p.token.kind ≠ .endOfInput)
      (keeps : p.token.kind = .newline → dropsNewline last = false)
      (leads : p.way.LeadsTo text p.token) (starts : ¬ p.token.start.Before here)
      (before : p.token.start.Before after) (onward : Stream text (some p.token.kind) after ps) :
      Stream text last here (p :: ps)

namespace Stream

variable {text : List Char} {last : Option Kind} {here here' : Position} {ps : List Placed}

theorem mono (h : Stream text last here ps) (le : ¬ here.Before here') :
    Stream text last here' ps := by
  cases h with
  | stop kind leads starts =>
    exact .stop kind leads fun h => starts (h.of_before_of_not le)
  | token kind keeps leads starts before onward =>
    exact .token kind keeps leads (fun h => starts (h.of_before_of_not le)) before onward

theorem leads (h : Stream text last here ps) : ∀ p ∈ ps, p.way.LeadsTo text p.token := by
  induction h with
  | stop kind leads starts => exact List.forall_mem_singleton.mpr leads
  | token kind keeps leads starts before onward ih => exact List.forall_mem_cons.mpr ⟨leads, ih⟩

theorem not_before (h : Stream text last here ps) : ∀ p ∈ ps, ¬ p.token.start.Before here := by
  induction h with
  | stop kind leads starts => exact List.forall_mem_singleton.mpr starts
  | token kind keeps leads starts before onward ih =>
    refine List.forall_mem_cons.mpr ⟨starts, fun p hp h => starts ?_⟩
    exact (before.of_before_of_not (ih p hp)).trans h

theorem pairwise (h : Stream text last here ps) :
    (ps.map (·.token)).Pairwise fun t t' => t.start.Before t'.start := by
  induction h with
  | stop kind leads starts => exact List.pairwise_singleton _ _
  | token kind keeps leads starts before onward ih =>
    refine List.pairwise_cons.mpr ⟨fun t ht => ?_, ih⟩
    obtain ⟨p, hp, rfl⟩ := List.mem_map.mp ht
    exact before.of_before_of_not (onward.not_before p hp)

theorem ends (h : Stream text last here ps) : ∃ others stop, ps.map (·.token) = others ++ [stop]
    ∧ stop.kind = .endOfInput ∧ ∀ t ∈ others, t.kind ≠ .endOfInput := by
  induction h with
  | @stop _ _ p kind => exact ⟨[], p.token, rfl, kind, nofun⟩
  | @token _ _ _ p _ kind keeps leads starts before onward ih =>
    obtain ⟨others, stop, ht, isEnd, none⟩ := ih
    exact ⟨p.token :: others, stop, congrArg (p.token :: ·) ht, isEnd,
      List.forall_mem_cons.mpr ⟨kind, none⟩⟩

/-- No line break comes first after a token that asks for more. -/
theorem head_keeps (h : Stream text last here ps) :
    ∀ t ∈ (ps.map (·.token)).head?, t.kind = .newline → dropsNewline last = false := by
  cases h with
  | stop kind =>
    rintro t ⟨⟩ line
    exact absurd (line.symm.trans kind) nofun
  | token kind keeps =>
    rintro t ⟨⟩
    exact keeps

theorem chain (h : Stream text last here ps) :
    (ps.map (·.token)).IsChain fun t t' => t'.kind = .newline → t.kind.continuesLine = false := by
  induction h with
  | stop => exact .singleton _
  | token kind keeps leads starts before onward ih => exact ih.cons onward.head_keeps

end Stream

/-- **All tokens**, by induction on the scan: each one is the next one, and behind it the scan goes
on. -/
theorem stream_placedFrom (file : SourceFile) {text : List Char} {last : Option Kind} {log : Log}
    {cursor : Cursor} (within : cursor.Within text) :
    Stream text last cursor.position (placedFrom file last log cursor) := by
  fun_induction placedFrom file last log cursor with
  | case1 last log cursor =>
    exact .stop rfl ⟨rfl, Position.not_before_self _, within, .inl rfl, nofun⟩
      (Position.not_before_self _)
  | case2 last log cursor full found stops =>
    have isNext := isNext_next within
    exact .stop stops isNext.leads isNext.starts
  | case3 last log cursor full found log' stops drops ih =>
    have isNext := isNext_next within
    exact (ih isNext.after).mono isNext.not_after_before
  | case4 last log cursor full found log' stops keeps ih =>
    have isNext := isNext_next within
    have passes := isNext.passes.resolve_left fun h => stops h.1
    refine .token stops (fun line => ?_) isNext.leads isNext.starts
      (Position.Before.of_not_before isNext.leads.not_place_before passes)
      (ih isNext.after)
    rw [line, decide_eq_true rfl, Bool.true_and] at keeps
    exact eq_false_of_ne_true keeps

/-- **The tokens of a source file.** The end of the text is the last one and no other; none of them
is a line break where no statement can end; each one starts before all that come behind it and not
behind its own end. Its own place is that of its first character, with as many lines above it as
there are line breaks before it, and as many bytes to the left as its line has there. A token starts
there, unless a colon that stands alone is on the way to it: then it starts at the first such
colon, which is before its own place. -/
theorem tokens_in_order (file : SourceFile) :
    (placed file).map (·.token) = (scan file).tokens
      ∧ (∃ others stop, (scan file).tokens = others ++ [stop] ∧ stop.kind = .endOfInput
        ∧ ∀ t ∈ others, t.kind ≠ .endOfInput)
      ∧ (∀ t ∈ (scan file).tokens.head?, t.kind ≠ .newline)
      ∧ (scan file).tokens.IsChain
          (fun t t' => t'.kind = .newline → t.kind.continuesLine = false)
      ∧ (scan file).tokens.Pairwise (fun t t' => t.start.Before t'.start)
      ∧ (∀ t ∈ (scan file).tokens, ¬ t.finish.Before t.start)
      ∧ ∀ p ∈ placed file, p.way.LeadsTo file.text.toList p.token
        ∧ (p.token.start = p.way.place.position ↔ p.way.colons = []) := by
  have tokens : (placed file).map (·.token) = (scan file).tokens := map_token_placedFrom ..
  have stream : Stream file.text.toList none ⟨1, 1⟩ (placed file) :=
    stream_placedFrom file (Cursor.Within.start _)
  rw [← tokens]
  refine ⟨rfl, stream.ends, fun t ht line => ?_, stream.chain, stream.pairwise, fun t ht => ?_,
    fun p hp => ⟨stream.leads p hp, (stream.leads p hp).start_iff⟩⟩
  · exact Bool.noConfusion (stream.head_keeps t ht line)
  · obtain ⟨p, hp, rfl⟩ := List.mem_map.mp ht
    exact (stream.leads p hp).ordered

/-- The name stands behind a colon, and the token starts there. -/
example : (placed (.ofText "main.gn" ": x")).map (fun p => (p.token.start, p.way.place.position))
    = [(⟨1, 1⟩, ⟨1, 3⟩), (⟨1, 4⟩, ⟨1, 4⟩)] := by
  decide +kernel

end ScriptCompiler.Token
