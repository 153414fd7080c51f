import Mathlib.Data.List.Basic
import Mathlib.Data.List.TakeWhile
import ScriptCompiler.Files.System
import ScriptCompiler.Proofs.Text.Lines

/-!
# Where paths lead

A path leads from one entry to another, piece by piece, so a path that is read from a directory
leads to where it leads from the place of the directory. The names that a path leads to lead there
again, without points. The path without its last component leads to the directory of a file.
-/

namespace ScriptCompiler

/-! ## Pieces -/

/-- The name may stand for an entry: it is not empty, no points, and holds no slash. -/
structure PlainName (n : String) : Prop where
  ne_empty : n ≠ ""
  ne_here : n ≠ "."
  ne_up : n ≠ ".."
  slash : '/' ∉ n.toList

theorem component?_of_plain {n : String} (h : PlainName n) :
    (Path.component? n).isNone = false := by
  rw [Path.component?, if_neg (not_or.mpr ⟨h.ne_empty, h.ne_here⟩), if_neg h.ne_up]
  rfl

theorem component?_isNone {n : String} : (Path.component? n).isNone = true ↔ n = "" ∨ n = "." := by
  unfold Path.component?
  split_ifs with skipped up <;> simp [skipped]

namespace Path

theorem pieces_ne_nil (p : Path) : p.pieces ≠ [] := by
  rw [pieces, Text.splitAt]
  exact List.cons_ne_nil _ _

theorem slash_not_mem_pieces {p : Path} {n : String} (h : n ∈ p.pieces) : '/' ∉ n.toList := by
  obtain ⟨piece, hp, rfl⟩ := List.mem_map.mp h
  rw [String.toList_ofList]
  exact Text.not_mem_of_mem_splitAt hp

theorem pieces_append (a b : String) :
    (Path.mk (a ++ "/" ++ b)).pieces = (Path.mk a).pieces ++ (Path.mk b).pieces := by
  have text : (a ++ "/" ++ b).toList = a.toList ++ '/' :: b.toList := by simp
  rw [pieces, text, Text.splitAt_append, List.map_append, pieces, pieces]

theorem pieces_of_slash {n : String} (h : '/' ∉ n.toList) : (Path.mk n).pieces = [n] := by
  rw [pieces, Text.splitAt_of_not_mem h, List.map_singleton, String.ofList_toList]

/-- Pieces without slashes are read back. -/
theorem pieces_intercalate {ps : List String} (h : ∀ n ∈ ps, '/' ∉ n.toList) (ne : ps ≠ []) :
    (Path.mk ("/".intercalate ps)).pieces = ps := by
  induction ps with
  | nil => exact absurd rfl ne
  | cons n ps ih =>
    rw [List.forall_mem_cons] at h
    cases ps with
    | nil =>
      rw [String.intercalate_singleton]
      exact pieces_of_slash h.1
    | cons m ps =>
      rw [String.intercalate_cons_cons, pieces_append, pieces_of_slash h.1,
        ih h.2 (List.cons_ne_nil _ _), List.singleton_append]

theorem isAbsolute_iff {p : Path} :
    p.isAbsolute = true ↔ ∃ rest, rest ≠ [] ∧ p.pieces = "" :: rest := by
  obtain ⟨text⟩ := p
  rw [isAbsolute, decide_eq_true_eq, pieces]
  cases text.toList with
  | nil => simp [Text.splitAt, Text.cut]
  | cons c cs =>
    by_cases h : c = '/'
    · simp [Text.splitAt, Text.cut, h]
    · simp [Text.splitAt, Text.cut, h]

theorem isEmpty_of_isAbsolute {p : Path} (h : p.isAbsolute = true) : p.text.isEmpty = false := by
  apply eq_false_of_ne_true
  intro empty
  rw [isAbsolute, String.isEmpty_iff.mp empty] at h
  cases h

/-- What is left out at the end counts for nothing. -/
theorem counted_append (ps : List String) : ∃ others, ps = counted ps ++ others
    ∧ ∀ n ∈ others, (component? n).isNone = true := by
  refine ⟨(ps.reverse.takeWhile fun piece => (component? piece).isNone).reverse, ?_, ?_⟩
  · rw [counted, ← List.reverse_append, List.takeWhile_append_dropWhile, List.reverse_reverse]
  · intro n hn
    simpa using List.mem_takeWhile_imp (List.mem_reverse.mp hn)

end Path

/-! ## Walks -/

namespace FileSystem

/-- The names that a path leads to, read from the entry under the names `start`. -/
def leads (fs : FileSystem) (start : List String) (p : Path) : Except FileError (List String) :=
  fs.walk (if p.isAbsolute then [] else start) p.pieces

variable {fs : FileSystem}

/-- The next piece of a walk. -/
theorem walk_cons (fs : FileSystem) (names rest : List String) (piece : String) :
    fs.walk names (piece :: rest)
      = if fs.lookup names ≠ some .directory then .error .notDirectory
        else if piece = "" ∨ piece = "." then fs.walk names rest
        else if piece = ".." then fs.walk names.dropLast rest
        else if maxName < piece.utf8ByteSize then .error .nameTooLong
        else if (fs.lookup (names ++ [piece])).isNone then .error .notFound
        else fs.walk (names ++ [piece]) rest :=
  rfl

theorem walk_append (fs : FileSystem) (names ps qs : List String) :
    fs.walk names (ps ++ qs) = (fs.walk names ps).bind (fs.walk · qs) := by
  induction ps generalizing names with
  | nil => rfl
  | cons piece ps ih =>
    rw [List.cons_append, walk_cons, walk_cons]
    split_ifs
    · rfl
    · exact ih _
    · exact ih _
    · rfl
    · rfl
    · exact ih _

theorem walk_append_ok {names ps qs found : List String} :
    fs.walk names (ps ++ qs) = .ok found
      ↔ ∃ mid, fs.walk names ps = .ok mid ∧ fs.walk mid qs = .ok found := by
  rw [walk_append]
  cases fs.walk names ps <;> simp [Except.bind]

/-- A step of a walk: a point or nothing between slashes, two points, or the name of an entry. -/
theorem walk_cons_ok {names rest found : List String} {piece : String} :
    fs.walk names (piece :: rest) = .ok found ↔ fs.lookup names = some .directory
      ∧ (((piece = "" ∨ piece = ".") ∧ fs.walk names rest = .ok found)
        ∨ (piece = ".." ∧ fs.walk names.dropLast rest = .ok found)
        ∨ ((piece ≠ "" ∧ piece ≠ "." ∧ piece ≠ "..") ∧ piece.utf8ByteSize ≤ maxName
          ∧ (fs.lookup (names ++ [piece])).isSome = true
          ∧ fs.walk (names ++ [piece]) rest = .ok found)) := by
  rw [walk_cons]
  split_ifs with other skipped up long missing
  · exact iff_of_false nofun fun h => other h.1
  · refine ⟨fun h => ⟨not_not.mp other, .inl ⟨skipped, h⟩⟩, ?_⟩
    rintro ⟨-, ⟨-, h⟩ | ⟨rfl, -⟩ | ⟨⟨ne, ne', -⟩, -⟩⟩
    · exact h
    · exact absurd skipped (by decide)
    · exact absurd skipped (not_or.mpr ⟨ne, ne'⟩)
  · refine ⟨fun h => ⟨not_not.mp other, .inr (.inl ⟨up, h⟩)⟩, ?_⟩
    rintro ⟨-, ⟨skips, -⟩ | ⟨-, h⟩ | ⟨⟨-, -, ne⟩, -⟩⟩
    · exact absurd skips skipped
    · exact h
    · exact absurd up ne
  · refine iff_of_false nofun ?_
    rintro ⟨-, ⟨skips, -⟩ | ⟨goesUp, -⟩ | ⟨-, short, -⟩⟩
    · exact skipped skips
    · exact up goesUp
    · exact Nat.not_le.mpr long short
  · refine iff_of_false nofun ?_
    rintro ⟨-, ⟨skips, -⟩ | ⟨goesUp, -⟩ | ⟨-, -, found, -⟩⟩
    · exact skipped skips
    · exact up goesUp
    · rw [Option.isNone_iff_eq_none.mp missing] at found
      cases found
  · have names := not_or.mp skipped
    have found := Option.isSome_iff_ne_none.mpr fun h => missing (Option.isNone_iff_eq_none.mpr h)
    have short := Nat.le_of_not_lt long
    refine ⟨fun h => ⟨not_not.mp other, .inr (.inr ⟨⟨names.1, names.2, up⟩, short, found, h⟩)⟩, ?_⟩
    rintro ⟨-, ⟨skips, -⟩ | ⟨goesUp, -⟩ | ⟨-, -, -, h⟩⟩
    · exact absurd skips skipped
    · exact absurd goesUp up
    · exact h

theorem lookup_of_walk {names ps found : List String} (ne : ps ≠ [])
    (h : fs.walk names ps = .ok found) : fs.lookup names = some .directory := by
  obtain ⟨piece, rest, rfl⟩ := List.exists_cons_of_ne_nil ne
  exact (Iff.mp walk_cons_ok h).1

/-- Another check of a directory changes nothing. -/
theorem walk_empty {names ps : List String} (ne : ps ≠ []) :
    fs.walk names ("" :: ps) = fs.walk names ps := by
  obtain ⟨piece, rest, rfl⟩ := List.exists_cons_of_ne_nil ne
  by_cases h : fs.lookup names = some .directory
  · rw [walk_cons, if_neg (not_not.mpr h), if_pos (.inl rfl)]
  · rw [walk_cons, walk_cons, if_pos h, if_pos h]

/-- Pieces that count for nothing lead nowhere. -/
theorem walk_of_skipped {names ps found : List String}
    (h : ∀ n ∈ ps, (Path.component? n).isNone = true) (hw : fs.walk names ps = .ok found) :
    found = names := by
  induction ps with
  | nil => exact (Except.ok.inj hw).symm
  | cons piece ps ih =>
    rw [List.forall_mem_cons] at h
    have skipped := component?_isNone.mp h.1
    obtain ⟨-, ⟨-, rest⟩ | ⟨rfl, -⟩ | ⟨⟨ne, ne', -⟩, -⟩⟩ := Iff.mp walk_cons_ok hw
    · exact ih h.2 rest
    · simp at skipped
    · exact absurd skipped (not_or.mpr ⟨ne, ne'⟩)

/-- Without its last pieces that count for nothing, a path leads to the same place. -/
theorem walk_counted {names ps found : List String} (h : fs.walk names ps = .ok found) :
    fs.walk names (Path.counted ps) = .ok found := by
  obtain ⟨others, parts, nothing⟩ := Path.counted_append ps
  rw [parts] at h
  obtain ⟨mid, start, rest⟩ := Iff.mp walk_append_ok h
  rw [walk_of_skipped nothing rest]
  exact start

/-- Without two points, every piece that counts is one name more. -/
theorem walk_of_no_up {names ps found : List String} (h : ".." ∉ ps)
    (hw : fs.walk names ps = .ok found) :
    found = names ++ ps.filter fun n => !(Path.component? n).isNone := by
  induction ps generalizing names with
  | nil => exact (Except.ok.inj hw).symm.trans (List.append_nil _).symm
  | cons piece ps ih =>
    rw [List.mem_cons, not_or] at h
    obtain ⟨-, ⟨skipped, rest⟩ | ⟨up, -⟩ | ⟨⟨ne, ne', -⟩, -, -, rest⟩⟩ := Iff.mp walk_cons_ok hw
    · rw [ih h.2 rest, List.filter_cons_of_neg]
      rw [component?_isNone.mpr skipped]
      exact Bool.false_ne_true
    · exact absurd up.symm h.1
    · have counts : (Path.component? piece).isNone = false :=
        eq_false_of_ne_true fun hn => not_or.mpr ⟨ne, ne'⟩ (component?_isNone.mp hn)
      rw [ih h.2 rest, List.filter_cons_of_pos (by rw [counts]; rfl), List.append_assoc,
        List.singleton_append]

/-- Walks lead from names of entries to names of entries. -/
theorem plain_of_walk {names ps found : List String} (plain : ∀ n ∈ names, PlainName n)
    (slash : ∀ n ∈ ps, '/' ∉ n.toList) (hw : fs.walk names ps = .ok found) :
    ∀ n ∈ found, PlainName n := by
  induction ps generalizing names with
  | nil =>
    obtain rfl := Except.ok.inj hw
    exact plain
  | cons piece ps ih =>
    rw [List.forall_mem_cons] at slash
    obtain ⟨-, ⟨-, rest⟩ | ⟨-, rest⟩ | ⟨⟨ne, ne', ne''⟩, -, -, rest⟩⟩ := Iff.mp walk_cons_ok hw
    · exact ih plain slash.2 rest
    · exact ih (fun n hn => plain n (List.dropLast_subset names hn)) slash.2 rest
    · refine ih (List.forall_mem_append.mpr ⟨plain, ?_⟩) slash.2 rest
      exact List.forall_mem_singleton.mpr ⟨ne, ne', ne'', slash.1⟩

theorem plain_of_resolve {p : Path} {names : List String}
    (plain : ∀ n ∈ fs.workingDir, PlainName n) (h : fs.resolve p = .ok names) :
    ∀ n ∈ names, PlainName n := by
  unfold resolve at h
  have slash : ∀ n ∈ p.pieces, '/' ∉ n.toList := fun n => Path.slash_not_mem_pieces
  split_ifs at h with null empty long absolute
  · exact plain_of_walk (List.forall_mem_nil _) slash h
  · exact plain_of_walk plain slash h

/-! ## Places -/

/-- The names are those of an entry: they lead to it from the root, without points. -/
structure Stands (fs : FileSystem) (names : List String) : Prop where
  plain : ∀ n ∈ names, PlainName n
  walk : fs.walk [] names = .ok names

namespace Stands

theorem nil : fs.Stands [] :=
  ⟨List.forall_mem_nil _, rfl⟩

variable {names : List String} {n : String}

theorem snoc_iff : fs.Stands (names ++ [n]) ↔ fs.Stands names ∧ PlainName n
    ∧ fs.lookup names = some .directory ∧ n.utf8ByteSize ≤ maxName
    ∧ (fs.lookup (names ++ [n])).isSome = true := by
  constructor
  · rintro ⟨plain, walk⟩
    rw [List.forall_mem_append, List.forall_mem_singleton] at plain
    obtain ⟨mid, start, step⟩ := Iff.mp walk_append_ok walk
    obtain ⟨dir, ⟨skipped, -⟩ | ⟨up, -⟩ | ⟨-, short, found, rest⟩⟩ := Iff.mp walk_cons_ok step
    · exact (not_or.mpr ⟨plain.2.ne_empty, plain.2.ne_here⟩ skipped).elim
    · exact absurd up plain.2.ne_up
    · obtain rfl : mid = names := List.append_cancel_right (Except.ok.inj rest)
      exact ⟨⟨plain.1, start⟩, plain.2, dir, short, found⟩
  · rintro ⟨⟨plain, walk⟩, hn, dir, short, found⟩
    refine ⟨List.forall_mem_append.mpr ⟨plain, List.forall_mem_singleton.mpr hn⟩, ?_⟩
    refine Iff.mpr walk_append_ok ⟨names, walk, Iff.mpr walk_cons_ok ⟨dir, .inr (.inr ?_)⟩⟩
    exact ⟨⟨hn.ne_empty, hn.ne_here, hn.ne_up⟩, short, found, rfl⟩

theorem dropLast (h : fs.Stands names) :
    fs.Stands names.dropLast ∧ fs.lookup names.dropLast = some .directory := by
  rcases List.eq_nil_or_concat names with rfl | ⟨before, n, rfl⟩
  · exact ⟨h, rfl⟩
  · rw [List.concat_eq_append] at h ⊢
    rw [List.dropLast_concat]
    obtain ⟨stands, -, dir, -⟩ := snoc_iff.mp h
    exact ⟨stands, dir⟩

/-- Walks lead from entries to entries. -/
theorem of_walk {ps found : List String} (h : fs.Stands names) (slash : ∀ n ∈ ps, '/' ∉ n.toList)
    (hw : fs.walk names ps = .ok found) : fs.Stands found := by
  induction ps generalizing names with
  | nil =>
    obtain rfl := Except.ok.inj hw
    exact h
  | cons piece ps ih =>
    rw [List.forall_mem_cons] at slash
    obtain ⟨dir, ⟨-, rest⟩ | ⟨-, rest⟩ | ⟨⟨ne, ne', ne''⟩, short, some_, rest⟩⟩ :=
      Iff.mp walk_cons_ok hw
    · exact ih h slash.2 rest
    · exact ih h.dropLast.1 slash.2 rest
    · exact ih (snoc_iff.mpr ⟨h, ⟨ne, ne', ne'', slash.1⟩, dir, short, some_⟩) slash.2 rest

theorem of_leads {start found : List String} {p : Path} (h : fs.Stands start)
    (hl : fs.leads start p = .ok found) : fs.Stands found := by
  refine of_walk ?_ (fun n hn => Path.slash_not_mem_pieces hn) hl
  split
  · exact nil
  · exact h

end Stands

/-! ## Paths from a directory -/

theorem isAbsolute_append {a : String} (h : a ≠ "") (b : String) :
    (Path.mk (a ++ b)).isAbsolute = (Path.mk a).isAbsolute := by
  obtain ⟨c, cs, ht⟩ := List.exists_cons_of_ne_nil (mt String.toList_eq_nil_iff.mp h)
  simp [Path.isAbsolute, ht]

/-- A path that is read from a directory leads to where it leads from the place of the directory. -/
theorem leads_join (start : List String) (dir p : Path) : fs.leads start (dir.join p)
    = if p.isAbsolute then fs.leads start p else (fs.leads start dir).bind (fs.leads · p) := by
  cases absolute : p.isAbsolute with
  | true => rw [Path.join_of_isAbsolute absolute, if_pos rfl]
  | false =>
    have relative (names : List String) : fs.leads names p = fs.walk names p.pieces := by
      rw [leads, absolute]
      rfl
    simp only [Bool.false_eq_true, if_false, relative]
    rw [Path.join, absolute, Bool.false_or]
    obtain ⟨dir⟩ := dir
    split_ifs with empty slash
    · obtain rfl : dir = "" := by simpa using empty
      have here : fs.leads start ⟨""⟩ = fs.walk start [""] := rfl
      rw [relative, here, ← walk_append, List.singleton_append, walk_empty (Path.pieces_ne_nil _)]
    · have some_ : dir ≠ "" := by simpa using empty
      obtain ⟨cs, hcs⟩ := List.getLast?_eq_some_iff.mp slash
      have parts : dir = String.ofList cs ++ "/" := by
        apply String.toList_injective
        rw [hcs, String.toList_append, String.toList_ofList]
        rfl
      have inner : (Path.mk dir).pieces = (Path.mk (String.ofList cs)).pieces ++ [""] :=
        (congrArg (fun text => (Path.mk text).pieces) (by simp [parts])).trans
          (Path.pieces_append (String.ofList cs) "")
      have whole : (Path.mk (dir ++ p.text)).pieces
          = (Path.mk (String.ofList cs)).pieces ++ p.pieces := by
        rw [parts, Path.pieces_append]
      rw [leads, leads, isAbsolute_append some_, inner, whole, ← walk_append, List.append_assoc,
        walk_append, walk_append]
      simp only [List.singleton_append, walk_empty p.pieces_ne_nil]
    · have some_ : dir ≠ "" := by simpa using empty
      have whole : (Path.mk (dir ++ "/" ++ p.text)).pieces = (Path.mk dir).pieces ++ p.pieces :=
        Path.pieces_append dir p.text
      rw [leads, leads, String.append_assoc, isAbsolute_append some_, ← String.append_assoc, whole,
        walk_append]

theorem leads_join_ok {start found : List String} {dir p : Path} (relative : p.isAbsolute = false) :
    fs.leads start (dir.join p) = .ok found
      ↔ ∃ place, fs.leads start dir = .ok place ∧ fs.leads place p = .ok found := by
  rw [leads_join, relative, if_neg Bool.false_ne_true]
  cases fs.leads start dir <;> simp [Except.bind]

/-! ## Absolute paths without points -/

theorem isAbsolute_ofNames (names : List String) : (Path.ofNames names).isAbsolute = true := by
  rw [Path.ofNames, isAbsolute_append (by decide)]
  rfl

theorem pieces_ofNames {names : List String} (h : ∀ n ∈ names, '/' ∉ n.toList) :
    (Path.ofNames names).pieces = "" :: if names = [] then [""] else names := by
  have text : "/" ++ "/".intercalate names = "" ++ "/" ++ "/".intercalate names := rfl
  have first : (Path.mk "").pieces = [""] := rfl
  rw [Path.ofNames, text, Path.pieces_append, first, List.singleton_append]
  split_ifs with empty
  · rw [empty]
    rfl
  · rw [Path.pieces_intercalate h empty]

theorem components_ofNames {names : List String} (h : ∀ n ∈ names, PlainName n) :
    (Path.ofNames names).components = .root :: names.map .name := by
  have counts : names.filterMap Path.component? = names.map .name := by
    rw [← List.filterMap_eq_map]
    refine List.filterMap_congr fun n hn => ?_
    rw [Path.component?, if_neg (not_or.mpr ⟨(h n hn).ne_empty, (h n hn).ne_here⟩),
      if_neg (h n hn).ne_up]
    rfl
  rw [Path.components, isAbsolute_ofNames, if_pos rfl, pieces_ofNames fun n hn => (h n hn).slash,
    ← counts]
  split_ifs with empty
  · rw [empty]
    rfl
  · rfl

theorem leads_ofNames {names : List String} (h : ∀ n ∈ names, '/' ∉ n.toList)
    (start : List String) : fs.leads start (.ofNames names) = fs.walk [] names := by
  rw [leads, isAbsolute_ofNames, if_pos rfl, pieces_ofNames h]
  split_ifs with empty
  · rw [empty]
    rfl
  · rw [walk_empty empty]

theorem Stands.leads_ofNames {names : List String} (h : fs.Stands names) (start : List String) :
    fs.leads start (.ofNames names) = .ok names :=
  (FileSystem.leads_ofNames (fun n hn => (h.plain n hn).slash) start).trans h.walk

theorem counted_concat {ps : List String} {n : String} (h : PlainName n) :
    Path.counted (ps ++ [n]) = ps ++ [n] := by
  simp [Path.counted, component?_of_plain h]

theorem outer?_concat {ps : List String} {n : String} (h : PlainName n) :
    Path.outer? (ps ++ [n]) = some (Path.counted ps) := by
  rw [Path.outer?, counted_concat h]
  split
  · next none_ => exact absurd none_ (by simp)
  · rw [List.dropLast_concat]

theorem counted_of_plain {names : List String} (h : ∀ n ∈ names, PlainName n) :
    Path.counted names = names := by
  rcases List.eq_nil_or_concat names with rfl | ⟨before, n, rfl⟩
  · rfl
  · rw [List.concat_eq_append] at h ⊢
    exact counted_concat (h n (List.mem_append_right _ List.mem_cons_self))

theorem parent?_ofNames {names : List String} {n : String} (h : ∀ m ∈ names ++ [n], PlainName m) :
    (Path.ofNames (names ++ [n])).parent? = some (.ofNames names) := by
  have plain := List.forall_mem_append.mp h
  have pieces := pieces_ofNames fun m hm => (h m hm).slash
  rw [if_neg (by simp)] at pieces
  rw [Path.parent?, pieces]
  dsimp only
  rw [isAbsolute_ofNames, if_pos rfl, outer?_concat (List.forall_mem_singleton.mp plain.2),
    counted_of_plain plain.1]
  rfl

/-! ## The directory of a file -/

theorem mem_of_mem_counted {ps : List String} {n : String} (h : n ∈ Path.counted ps) : n ∈ ps := by
  obtain ⟨others, parts, -⟩ := Path.counted_append ps
  exact parts ▸ List.mem_append_left _ h

/-- The pieces of a relative path without its last component. -/
structure Outer (fs : FileSystem) (before ps : List String) : Prop where
  mem : ∀ m ∈ ps, m ∈ before
  head : ps ≠ [] → ps.head? = before.head?
  walk : ∀ start found, fs.walk start before = .ok found → fs.walk start ps = .ok found

theorem outer_counted (before : List String) : fs.Outer before (Path.counted before) where
  mem _ := mem_of_mem_counted
  head ne := by
    obtain ⟨others, parts, -⟩ := Path.counted_append before
    obtain ⟨first, rest, hc⟩ := List.exists_cons_of_ne_nil ne
    rw [hc] at parts ⊢
    rw [parts]
    rfl
  walk _ _ := walk_counted

theorem parent?_relative {p : Path} (relative : p.isAbsolute = false) {before : List String}
    {n : String} (pieces : p.pieces = before ++ [n]) (plain : PlainName n) :
    ∃ ps, p.parent? = some ⟨"/".intercalate ps⟩ ∧ fs.Outer before ps := by
  cases before with
  | nil =>
    refine ⟨[], ?_, outer_counted []⟩
    have outer : Path.outer? ([] ++ [n]) = some (Path.counted []) := outer?_concat plain
    rw [List.nil_append] at pieces outer
    rw [Path.parent?, pieces]
    dsimp only
    rw [relative, if_neg Bool.false_ne_true, if_neg plain.ne_here, outer]
    rfl
  | cons first before =>
    rw [Path.parent?, pieces]
    dsimp only [List.cons_append]
    rw [relative, if_neg Bool.false_ne_true]
    split_ifs with here
    · refine ⟨"." :: Path.counted before, ?_, ?_⟩
      · rw [outer?_concat plain]
        rfl
      · have inner : fs.Outer before (Path.counted before) := outer_counted before
        rw [here]
        refine ⟨?_, fun _ => rfl, fun start found walked => ?_⟩
        · exact List.forall_mem_cons.mpr ⟨List.mem_cons_self,
            fun m hm => List.mem_cons_of_mem _ (inner.mem m hm)⟩
        · rw [walk_cons_ok] at walked ⊢
          exact ⟨walked.1, walked.2.imp (And.imp_right (inner.walk _ _))
            (Or.imp (And.imp_right (inner.walk _ _))
              (And.imp_right (And.imp_right (And.imp_right (inner.walk _ _)))))⟩
    · refine ⟨Path.counted (first :: before), ?_, outer_counted _⟩
      rw [← List.cons_append, outer?_concat plain]
      rfl

/-- A walk to a file ends with its name. -/
theorem walk_to_file {start ps names : List String} (hs : fs.Stands start)
    (slash : ∀ n ∈ ps, '/' ∉ n.toList) (hw : fs.walk start ps = .ok names)
    (hf : fs.lookup names ≠ some .directory) (ne : ps ≠ []) :
    ∃ before n, ps = before ++ [n] ∧ PlainName n ∧ fs.walk start before = .ok names.dropLast := by
  obtain ⟨before, n, rfl⟩ := (List.eq_nil_or_concat ps).resolve_left ne
  rw [List.concat_eq_append] at slash hw ⊢
  obtain ⟨mid, walked, step⟩ := Iff.mp walk_append_ok hw
  have stands := hs.of_walk (fun m hm => slash m (List.mem_append_left _ hm)) walked
  obtain ⟨dir, ⟨-, rest⟩ | ⟨-, rest⟩ | ⟨⟨ne, ne', ne''⟩, -, -, rest⟩⟩ := Iff.mp walk_cons_ok step
  · exact absurd (Except.ok.inj rest ▸ dir) hf
  · exact absurd (Except.ok.inj rest ▸ stands.dropLast.2) hf
  · obtain rfl := Except.ok.inj rest
    refine ⟨before, n, rfl, ⟨ne, ne', ne'', slash n (by simp)⟩, ?_⟩
    rw [List.dropLast_concat]
    exact walked

/-- The path of a file without its last component leads to the directory that contains it. -/
theorem leads_parent {start names : List String} {p : Path} (hs : fs.Stands start)
    (hl : fs.leads start p = .ok names) (hf : fs.lookup names ≠ some .directory) :
    ∃ q, p.parent? = some q ∧ q.isAbsolute = p.isAbsolute ∧ (".." ∈ q.pieces → ".." ∈ p.pieces)
      ∧ fs.leads start q = .ok names.dropLast := by
  have slash : ∀ n ∈ p.pieces, '/' ∉ n.toList := fun n => Path.slash_not_mem_pieces
  cases absolute : p.isAbsolute with
  | true =>
    obtain ⟨rest, ne, pieces⟩ := Path.isAbsolute_iff.mp absolute
    rw [pieces, List.forall_mem_cons] at slash
    rw [leads, absolute, if_pos rfl, pieces, walk_empty ne] at hl
    obtain ⟨before, n, rfl, plain, walked⟩ := walk_to_file .nil slash.2 hl hf ne
    have inner : ∀ m ∈ Path.counted before, '/' ∉ m.toList :=
      fun m hm => slash.2 m (List.mem_append_left _ (mem_of_mem_counted hm))
    refine ⟨.ofNames (Path.counted before), ?_, isAbsolute_ofNames _, fun up => ?_, ?_⟩
    · rw [Path.parent?, pieces]
      dsimp only
      rw [absolute, if_pos rfl, outer?_concat plain]
      rfl
    · rw [pieces_ofNames inner] at up
      rw [pieces]
      refine List.mem_cons_of_mem _ (List.mem_append_left _ (mem_of_mem_counted ?_))
      split_ifs at up with empty
      · simp at up
      · simpa using up
    · rw [leads_ofNames inner]
      exact walk_counted walked
  | false =>
    rw [leads, absolute, if_neg Bool.false_ne_true] at hl
    obtain ⟨before, n, pieces, plain, walked⟩ := walk_to_file hs slash hl hf p.pieces_ne_nil
    obtain ⟨ps, parent, outer⟩ : ∃ ps, p.parent? = some ⟨"/".intercalate ps⟩ ∧ fs.Outer before ps :=
      parent?_relative absolute pieces plain
    rw [pieces] at slash hl ⊢
    have inner : ∀ m ∈ ps, '/' ∉ m.toList :=
      fun m hm => slash m (List.mem_append_left _ (outer.mem m hm))
    have reads : (Path.mk ("/".intercalate ps)).pieces = if ps = [] then [""] else ps := by
      split_ifs with empty
      · rw [empty]
        rfl
      · exact Path.pieces_intercalate inner empty
    have relative : (Path.mk ("/".intercalate ps)).isAbsolute = false := by
      refine eq_false_of_ne_true fun wrong => ?_
      obtain ⟨rest, ne, parts⟩ := Path.isAbsolute_iff.mp wrong
      rw [reads] at parts
      split_ifs at parts with empty
      · exact ne (List.cons.inj parts).2.symm
      · have first := outer.head empty
        rw [parts, List.head?_cons] at first
        obtain ⟨others, rfl⟩ := List.head?_eq_some_iff.mp first.symm
        have root : p.isAbsolute = true :=
          Path.isAbsolute_iff.mpr ⟨others ++ [n], by simp, by rw [pieces, List.cons_append]⟩
        rw [absolute] at root
        cases root
    refine ⟨_, parent, relative, fun up => ?_, ?_⟩
    · rw [reads] at up
      refine List.mem_append_left _ (outer.mem _ ?_)
      split_ifs at up with empty
      · simp at up
      · exact up
    · rw [leads, relative, if_neg Bool.false_ne_true, reads]
      have walked := outer.walk _ _ walked
      split_ifs with empty
      · rw [empty] at walked
        exact walk_cons_ok.mpr ⟨lookup_of_walk (by simp) hl, .inl ⟨.inl rfl, walked⟩⟩
      · exact walked

end FileSystem

end ScriptCompiler
