import ScriptCompiler.Compile.Program
import ScriptCompiler.Proofs.Files.Walks
import ScriptCompiler.Proofs.Load.Journal

/-!
# Where relative names start

The names of `require_relative` are looked for in one directory. In a file that is put into a
program, it is the directory that contains the file. In the file of the program itself, it is where
the path of the file leads without its last component from the working directory of the options; the
file itself is read from where the compiler runs. The two are the same if the path is absolute, or
if the options name no other working directory.
-/

namespace ScriptCompiler

/-! ## Files in a directory -/

namespace FileSystem

/-- The system takes the path, wherever it leads. -/
def takes (p : Path) : Bool :=
  !p.text.toList.contains '\x00' && !p.text.isEmpty && p.text.utf8ByteSize ≤ maxPath

/-- The names are those of a file. -/
def holdsFile (fs : FileSystem) (names : List String) : Bool :=
  (fs.lookup names).any (· ≠ .directory)

/-- The file that a path leads to from a place, if the system takes the path when it is read from
the path of the place. -/
def fileIn (fs : FileSystem) (dir : Path) (place : List String) (p : Path) : Option Path :=
  if takes (dir.join p) then
    ((fs.leads place p).toOption.filter fs.holdsFile).map Path.ofNames
  else none

variable {fs : FileSystem} {p dir : Path}

theorem resolve_of_takes (h : takes p = true) : fs.resolve p = fs.leads fs.workingDir p := by
  simp only [takes, Bool.and_eq_true, Bool.not_eq_true', decide_eq_true_eq] at h
  obtain ⟨⟨null, some_⟩, short⟩ := h
  rw [resolve, null, some_, if_neg Bool.false_ne_true, if_neg Bool.false_ne_true,
    if_neg (Nat.not_lt.mpr short), leads]

theorem takes_of_resolve {names : List String} (h : fs.resolve p = .ok names) : takes p = true := by
  unfold resolve at h
  split at h
  · cases h
  next null =>
  split at h
  · cases h
  next empty =>
  split at h
  · cases h
  next long =>
  · simp only [takes, Bool.and_eq_true, Bool.not_eq_true', decide_eq_true_eq]
    exact ⟨⟨eq_false_of_ne_true null, eq_false_of_ne_true empty⟩, Nat.le_of_not_lt long⟩

theorem leads_of_resolve {names : List String} (h : fs.resolve p = .ok names) :
    fs.leads fs.workingDir p = .ok names :=
  (resolve_of_takes (takes_of_resolve h)).symm.trans h

/-- A file that is found is that of its path. -/
theorem toOption_canonical_of_isFile (p : Path) :
    (if fs.isFile p then (fs.canonical p).toOption else none)
      = ((fs.resolve p).toOption.filter fs.holdsFile).map Path.ofNames := by
  rw [isFile, canonical]
  cases fs.resolve p with
  | error e => rfl
  | ok names =>
    show (if fs.holdsFile names then _ else none) = ((some names).filter fs.holdsFile).map _
    rw [Option.filter_some]
    split_ifs <;> rfl

/-- What a directory holds under a path. -/
theorem fileIn_eq {place : List String} (h : fs.leads fs.workingDir dir = .ok place) (p : Path) :
    (if fs.isFile (dir.join p) then (fs.canonical (dir.join p)).toOption else none)
      = fs.fileIn dir place p := by
  rw [toOption_canonical_of_isFile, fileIn]
  split_ifs with taken
  · have read : fs.leads fs.workingDir (dir.join p) = fs.leads place p := by
      rw [leads_join, h]
      split_ifs with absolute
      · rw [leads, leads, absolute]
        rfl
      · rfl
    rw [resolve_of_takes taken, read]
  · cases hr : fs.resolve (dir.join p) with
    | error e => rfl
    | ok names => exact absurd (takes_of_resolve hr) taken

end FileSystem

namespace Load

/-- The directory where names that are relative to a file are looked for. -/
def Settings.anchor (s : Settings) (current : Path) : Except FileError (List String) :=
  s.files.leads s.files.workingDir (s.dirOf current)

variable {s : Settings} {v : Visit}

theorem find?_bind {α β : Type} {p : α → Bool} {f : α → Option β}
    (h : ∀ a, p a = true → (f a).isSome) (as : List α) :
    (as.find? p).bind f = as.findSome? fun a => if p a then f a else none := by
  induction as with
  | nil => rfl
  | cons a as ih =>
    rw [List.find?_cons, List.findSome?_cons]
    cases hp : p a with
    | true =>
      obtain ⟨b, hb⟩ := Option.isSome_iff_exists.mp (h a hp)
      simp [hb]
    | false => simpa using ih

/-- The file of `require_relative` is the first of its candidates that the directory holds. -/
theorem Visit.file?_of_anchor {place : List String} (hk : v.directive.kind = .requireRelative)
    (h : s.anchor v.current = .ok place) : v.file? s
      = (candidates v.directive.path).findSome? (s.files.fileIn (s.dirOf v.current) place) := by
  have found (p : Path) (hp : s.files.isFile p = true) : (s.files.canonical p).toOption.isSome := by
    unfold FileSystem.isFile at hp
    split at hp
    · next names hr =>
      rw [FileSystem.canonical, hr]
      rfl
    · cases hp
  rw [file?, hk, Settings.find, Settings.findRelative, search, List.flatMap_singleton,
    find?_bind found, List.findSome?_map]
  exact congrArg (List.findSome? · _) (funext fun c => FileSystem.fileIn_eq h c)

/-! ## Files inside one another -/

/-- A directive that is reached stands in the first file or in one that was opened. -/
theorem opened_of_mem_visits {levels : Nat} {current : Path} {ds : List Directive} {t : Tracker}
    (h : v ∈ visits s levels current ds t) : (v.levels = levels ∧ v.current = current)
      ∨ (v.levels < levels ∧ ∃ (w : Visit) (inner : List Directive),
        w.opened? s = some (v.current, inner)) := by
  induction levels using Nat.strongRecOn generalizing current ds t with
  | _ levels ih =>
  obtain ⟨d, t₀, -, rfl | ⟨below, path, inner, rfl, ho, hv⟩⟩ := mem_visits.mp h
  · exact .inl ⟨rfl, rfl⟩
  · refine .inr ?_
    rcases ih below (Nat.lt_succ_self below) hv with ⟨rfl, rfl⟩ | ⟨lt, inside⟩
    · exact ⟨Nat.lt_succ_self _, _, inner, ho⟩
    · exact ⟨Nat.lt_succ_of_lt lt, inside⟩

theorem read_of_readText {fs : FileSystem} {p : Path} {text : String}
    (h : fs.readText p = .ok text) : ∃ content, fs.read p = .ok content := by
  unfold FileSystem.readText at h
  cases hr : fs.read p with
  | error e =>
    rw [hr] at h
    cases h
  | ok content => exact ⟨content, rfl⟩

/-- What is read are files. -/
theorem leads_of_read {fs : FileSystem} {p : Path} {content : List UInt8}
    (h : fs.read p = .ok content) :
    ∃ names, fs.leads fs.workingDir p = .ok names ∧ fs.holdsFile names = true := by
  unfold FileSystem.read at h
  cases hr : fs.resolve p with
  | error e =>
    rw [hr] at h
    cases h
  | ok names =>
    rw [hr] at h
    refine ⟨names, FileSystem.leads_of_resolve hr, ?_⟩
    dsimp only at h
    split at h
    · next bytes hl =>
      rw [FileSystem.holdsFile, hl]
      rfl
    · cases h
    · cases h

theorem ne_directory_of_holdsFile {fs : FileSystem} {names : List String}
    (h : fs.holdsFile names = true) : fs.lookup names ≠ some .directory := by
  intro hd
  rw [FileSystem.holdsFile, hd] at h
  cases h

/-- A file that is opened has the path of its names, and is where they lead. -/
theorem ofNames_of_opened {path : Path} {inner : List Directive}
    (hs : s.files.Stands s.files.workingDir) (h : v.opened? s = some (path, inner)) :
    ∃ names, path = .ofNames names ∧ s.files.Stands names ∧ s.files.holdsFile names = true := by
  obtain ⟨hf, -, text, -, ht, -⟩ := Visit.opened?_eq_some.mp h
  obtain ⟨found, names, resolved, rfl⟩ := Visit.ofNames_of_file? hf
  have stands := hs.of_leads (FileSystem.leads_of_resolve resolved)
  obtain ⟨content, read⟩ := read_of_readText ht
  obtain ⟨names', leads, file⟩ := leads_of_read read
  rw [stands.leads_ofNames] at leads
  obtain rfl := Except.ok.inj leads
  exact ⟨names, rfl, stands, file⟩

/-- Names that are relative to a file of the program are looked for in its directory. -/
theorem anchor_ofNames {names : List String} (hs : s.files.Stands names)
    (hf : s.files.holdsFile names = true) :
    s.anchor (.ofNames names) = .ok names.dropLast := by
  rcases List.eq_nil_or_concat names with rfl | ⟨before, n, rfl⟩
  · cases hf
  · rw [List.concat_eq_append] at hs ⊢
    have dir := hs.dropLast.1
    rw [List.dropLast_concat] at dir ⊢
    have absolute := FileSystem.isAbsolute_ofNames before
    have some_ := Path.isEmpty_of_isAbsolute absolute
    rw [Settings.anchor, Settings.dirOf, FileSystem.parent?_ofNames hs.plain]
    dsimp only
    rw [some_, if_neg Bool.false_ne_true, Path.join_of_isAbsolute absolute, dir.leads_ofNames]

/-! ## The file of the program -/

section Program

variable {fs : FileSystem} {o : Options} {path : Path} {names : List String}
  (hs : fs.Stands fs.workingDir) (hl : fs.leads fs.workingDir path = .ok names)
  (hf : fs.holdsFile names = true)

include hs hl hf

/-- Names that are relative to the file of the program are looked for in its directory exactly if
the path of the file leads to this directory from the working directory of the options too. -/
theorem anchor_iff : (o.settings fs).anchor path = .ok names.dropLast ↔ path.isAbsolute = true
    ∨ ∃ place, fs.leads fs.workingDir (o.directory fs) = .ok place
      ∧ fs.leads place (path.parent?.getD ⟨""⟩) = .ok names.dropLast := by
  obtain ⟨q, parent, absolute, -, inside⟩ :=
    FileSystem.leads_parent hs hl (ne_directory_of_holdsFile hf)
  have anchor : (o.settings fs).anchor path = fs.leads fs.workingDir
      (if q.text.isEmpty then o.directory fs else (o.directory fs).join q) := by
    rw [Settings.anchor, Settings.dirOf, parent]
    rfl
  rw [anchor, parent, Option.getD_some, ← absolute]
  cases ha : q.isAbsolute with
  | true =>
    have some_ := Path.isEmpty_of_isAbsolute ha
    rw [some_, if_neg Bool.false_ne_true, Path.join_of_isAbsolute ha]
    exact iff_of_true inside (.inl rfl)
  | false =>
    have directory := ((hs.of_leads hl).dropLast).2
    simp only [Bool.false_eq_true, false_or]
    split_ifs with empty
    · have here (start : List String) : fs.leads start q = fs.walk start [""] := by
        rw [FileSystem.leads, ha, Path.pieces, show q.text = "" by simpa using empty]
        rfl
      simp only [here, FileSystem.walk_cons_ok]
      constructor
      · exact fun h => ⟨_, h, directory, .inl ⟨.inl trivial, rfl⟩⟩
      · rintro ⟨place, h, -, ⟨-, walked⟩ | ⟨up, -⟩ | ⟨⟨ne, -⟩, -⟩⟩
        · rwa [← Except.ok.inj walked]
        · exact absurd up (by decide)
        · exact absurd rfl ne
    · exact FileSystem.leads_join_ok ha

/-- A path without two points leads to the same directory only from the same place. -/
theorem anchor_iff_of_no_up (relative : path.isAbsolute = false) (h : ".." ∉ path.pieces) :
    (o.settings fs).anchor path = .ok names.dropLast
      ↔ fs.leads fs.workingDir (o.directory fs) = .ok fs.workingDir := by
  obtain ⟨q, parent, absolute, up, inside⟩ :=
    FileSystem.leads_parent hs hl (ne_directory_of_holdsFile hf)
  have walk (start : List String) : fs.leads start q = fs.walk start q.pieces := by
    rw [FileSystem.leads, absolute, relative]
    rfl
  rw [anchor_iff hs hl hf, relative, parent, Option.getD_some]
  simp only [Bool.false_eq_true, false_or]
  constructor
  · rintro ⟨place, hp, hq⟩
    rw [walk] at inside hq
    have same := (FileSystem.walk_of_no_up (fun hu => h (up hu)) hq).symm.trans
      (FileSystem.walk_of_no_up (fun hu => h (up hu)) inside)
    rw [hp, List.append_cancel_right same]
  · exact fun hp => ⟨_, hp, inside⟩

end Program

/-- **Relative names start from the directory of their file**, in every file that is put into a
program. In the file of the program they start from where its path leads to from the working
directory of the options, without its last component; so they do from the directory of the file
exactly if the path is absolute or leads there from both. The file itself is read from where the
compiler runs. -/
theorem anchored_iff {fs : FileSystem} {o : Options} {path : Path} {content : List UInt8}
    {ds : List Directive} {t : Tracker} {v : Visit} (hs : fs.Stands fs.workingDir)
    (hr : fs.read path = .ok content) (hv : v ∈ visits (o.settings fs) maxDepth path ds t) :
    ∃ names, fs.leads fs.workingDir v.current = .ok names ∧ fs.holdsFile names = true
      ∧ (∀ place, v.directive.kind = .requireRelative →
        (o.settings fs).anchor v.current = .ok place → v.file? (o.settings fs)
          = (candidates v.directive.path).findSome?
            (fs.fileIn ((o.settings fs).dirOf v.current) place))
      ∧ ((o.settings fs).anchor v.current = .ok names.dropLast
        ↔ v.levels < maxDepth ∨ path.isAbsolute = true
          ∨ ∃ place, fs.leads fs.workingDir (o.directory fs) = .ok place
            ∧ fs.leads place (path.parent?.getD ⟨""⟩) = .ok names.dropLast)
      ∧ (v.levels = maxDepth → path.isAbsolute = false → ".." ∉ path.pieces →
        ((o.settings fs).anchor v.current = .ok names.dropLast
          ↔ fs.leads fs.workingDir (o.directory fs) = .ok fs.workingDir)) := by
  rcases opened_of_mem_visits hv with ⟨levels, current⟩ | ⟨lt, w, inner, ho⟩
  · obtain ⟨names, hl, hf⟩ := leads_of_read hr
    rw [← current] at hl
    refine ⟨names, hl, hf, fun place hk h => Visit.file?_of_anchor hk h, ?_, ?_⟩
    · rw [levels, current] at *
      simpa using anchor_iff (o := o) hs hl hf
    · intro _ relative up
      rw [current] at *
      exact anchor_iff_of_no_up hs hl hf relative up
  · obtain ⟨names, current, stands, hf⟩ := ofNames_of_opened (s := o.settings fs) hs ho
    have anchor := anchor_ofNames (s := o.settings fs) stands hf
    rw [← current] at anchor
    refine ⟨names, ?_, hf, fun place hk h => Visit.file?_of_anchor hk h, ?_, ?_⟩
    · rw [current]
      exact stands.leads_ofNames _
    · exact iff_of_true anchor (.inl lt)
    · exact fun levels => absurd levels (Nat.ne_of_lt lt)

/-- A program, the file that it asks for, and another directory. -/
def apartFiles : FileSystem :=
  .ofFiles ["app"] [("main.rb", some "require_relative 'b'".toUTF8.toList),
    ("b.rb", some "1".toUTF8.toList), ("sub", none)]

/-- The directive of the program, which names a file in the same directory. -/
def apartDirective : Directive :=
  ⟨.requireRelative, "b", ⟨1, 1, 1, 20⟩⟩

/-- With another working directory in the options, the file beside the program is not found. -/
theorem anchored_iff_apartFiles :
    ∃ (o : Options) (v : Visit) (names : List String),
      (parse "main.rb" "require_relative 'b'" []).toOption.map Directives.ofNodes
        = some [apartDirective]
      ∧ v ∈ visits (o.settings apartFiles) maxDepth ⟨"main.rb"⟩ [apartDirective] .empty
      ∧ apartFiles.leads apartFiles.workingDir v.current = .ok names
      ∧ ¬ (o.settings apartFiles).anchor v.current = .ok names.dropLast
      ∧ (compileFile apartFiles o ⟨"main.rb"⟩).toOption = none
      ∧ (compileFile apartFiles .default ⟨"main.rb"⟩).toOption.isSome = true := by
  let o : Options := { Options.default with workingDir := some ⟨"/app/sub"⟩ }
  let v : Visit := ⟨maxDepth, ⟨"main.rb"⟩, apartDirective, .empty⟩
  have reached : v ∈ visits (o.settings apartFiles) maxDepth ⟨"main.rb"⟩ [apartDirective] .empty :=
    List.mem_cons_self
  have walk : apartFiles.walk [] ["app"] = .ok ["app"] := by decide
  have stands : apartFiles.Stands apartFiles.workingDir :=
    FileSystem.Stands.nil.of_walk (by decide) walk
  have read : apartFiles.read ⟨"main.rb"⟩ = .ok "require_relative 'b'".toUTF8.toList := by
    decide +kernel
  obtain ⟨names, leads, -, -, -, only⟩ := anchored_iff stands read reached
  refine ⟨o, v, names, by decide +kernel, reached, leads, fun anchored => ?_, by decide +kernel,
    by decide +kernel⟩
  have same := (only rfl (by decide) (by decide)).mp anchored
  exact absurd same (by decide)

end Load

end ScriptCompiler
