/-
  Hfrd.Api.UnTarGz

  Unpacking an uploaded archive (`unTarGz` and `createFile` of
  api/resource/utils.go).

  The path of an entry is `filepath.Join` of the destination and the name in
  its header, which is nowhere checked: `..` elements of the name lead out of
  the destination.  An entry that is a directory is left out; all others, links
  too, become regular files, with the directories that are missing above them.
-/

import Hfrd.Go.Os
import Hfrd.Go.Strconv

namespace Hfrd.Api

open Hfrd.Go Hfrd.Lib Filepath Os

/-- What is read of a `tar.Header`. -/
structure Header where
  name : List UInt8
  mode : Int64
  typeflag : UInt8

/-- `FileInfo().IsDir()`: the type bits of the mode, or the type `'5'`. -/
def Header.isDir (hdr : Header) : Bool :=
  hdr.mode.toUInt64.toUInt32 &&& ~~~0o7777 == 0o40000 || hdr.typeflag == 53

/-- What one turn of the loop is given: the header that `Next` returns, what
    the kernel refuses meanwhile, and what `io.Copy` writes and returns. -/
structure Turn where
  header : Header
  refuses : Refusals
  data : List UInt8
  err : GoError

/-- An archive, as `Next` gives it. -/
structure Archive where
  turns : List Turn
  /-- What `Next` returns at the end; `none` is `io.EOF`. -/
  err : GoError

/-- The error of `UnTarGz`. -/
inductive UnTarErr
  | reading (text : String)
  | creating (err : PathError)

/-- `createFile`: the directory of the path, then the file. -/
def createFile (refuses : Refusals) (d : Disk) (path : List UInt8) :
    Disk × Option PathError :=
  match mkdirAll refuses d (resolve (dir path)) with
  | (d, some err) => (d, some err)
  | (d, none) => create refuses d (resolve path)

/-- The body of the loop. -/
def extractOne (destPath : List UInt8) (d : Disk) (turn : Turn) : Disk × Option UnTarErr :=
  let filePath := join [destPath, turn.header.name]
  if turn.header.isDir then (d, none)
  else match createFile turn.refuses d filePath with
    | (d, some err) => (d, some (.creating err))
    | (d, none) => (write d turn.data (resolve filePath), turn.err.map .reading)

/-- The loop of `UnTarGz` over the archive. -/
def extract (destPath : List UInt8) (d : Disk) : List Turn → Disk × Option UnTarErr
  | [] => (d, none)
  | turn :: turns => match extractOne destPath d turn with
    | (d, some err) => (d, some err)
    | (d, none) => extract destPath d turns

/-- `unTarGz`; `os.Open` and `gzip.NewReader` give the archive or fail. -/
def unTarGz (d : Disk) (tarGz : Except String Archive) (destPath : List UInt8) :
    Disk × Option UnTarErr :=
  match tarGz with
  | .error err => (d, some (.reading err))
  | .ok archive => match extract destPath d archive.turns with
    | (d, some err) => (d, some err)
    | (d, none) => (d, archive.err.map .reading)

/-! ## What `createFile` touches -/

/-- There is something to make or to cut on the way to a path, and the kernel
    does not refuse it: the first element that is no directory is missing, or
    it is the file itself. -/
def Admits (refuses : Refusals) (t : FileTree Element (List UInt8)) (p : FilePath) : Prop :=
  refuses (t.frontier p) = none ∧
    (t.node (t.frontier p) = none ∨ t.frontier p = p ∧ ¬ t.IsDir p)

section CreateFile

variable {refuses : Refusals} {d : Disk} {p : FilePath}

theorem createFile_pathText (h : Proper p) :
    createFile refuses d (pathText p) = match mkdirAll refuses d p.tail with
      | (d, some err) => (d, some err)
      | (d, none) => create refuses d p := by
  have htail : Proper p.tail := fun e he => h e (List.mem_of_mem_tail he)
  rw [createFile, dir_pathText h, resolve_pathText htail, resolve_pathText h]

theorem noted_createFile (h : Proper p) : Noted d (createFile refuses d (pathText p)).1 := by
  rw [createFile_pathText h]
  have hnoted := @noted_mkdirAll refuses d p.tail
  cases hparent : mkdirAll refuses d p.tail with
  | mk d' err =>
      rw [hparent] at hnoted
      cases err with
      | some err => exact hnoted
      | none => exact hnoted.trans (noted_place p)

/-- The file that is returned has been created. -/
theorem mem_touched_of_createFile (h : Proper p) {d' : Disk}
    (hcreate : createFile refuses d (pathText p) = (d', none)) : p ∈ d'.touched := by
  rw [createFile_pathText h] at hcreate
  split at hcreate
  · cases (Prod.mk.inj hcreate).2
  · exact mem_touched_of_create hcreate

/-- Nothing but the path and missing directories above it. -/
theorem mem_touched_createFile (h : Proper p) {q : FilePath}
    (hq : q ∈ (createFile refuses d (pathText p)).1.touched) :
    q ∈ d.touched ∨ q <:+ p ∧ (d.tree.node q = none ∨ q = p) := by
  have hparents : q ∈ (mkdirAll refuses d p.tail).1.touched →
      q ∈ d.touched ∨ q <:+ p ∧ (d.tree.node q = none ∨ q = p) := by
    intro hmem
    rcases mem_touched_mkdirAll hmem with hold | ⟨hsuffix, hnone⟩
    · exact .inl hold
    · exact .inr ⟨hsuffix.trans (List.tail_suffix p), .inl hnone⟩
  rw [createFile_pathText h] at hq
  cases hmkdir : mkdirAll refuses d p.tail with
  | mk d' err =>
      rw [hmkdir] at hq hparents
      cases err with
      | some err => exact hparents hq
      | none =>
          rcases mem_touched_place hq with hq | rfl
          · exact hparents hq
          · exact .inr ⟨List.suffix_rfl, .inr rfl⟩

/-- Below what is no directory, the frontier of a path is that of its parent. -/
theorem admits_cons_iff {e : Element} {t : FileTree Element (List UInt8)} (h : ¬ t.IsDir p) :
    Admits refuses t (e :: p) ↔ CanMake refuses t p := by
  have hne : t.frontier p ≠ e :: p := by
    intro heq
    have hlength := (t.frontier_suffix p).length_le
    rw [heq, List.length_cons] at hlength
    omega
  simp only [Admits, CanMake, FileTree.frontier_of_not_isDir e h, hne, false_and, or_false]
  exact And.comm

theorem Admits.not_isDir {t : FileTree Element (List UInt8)} (h : Admits refuses t p) :
    ¬ t.IsDir p := by
  intro hdir
  rcases h.2 with hnone | ⟨-, hnot⟩
  · exact FileTree.not_isDir_of_none hnone (hdir.of_suffix (t.frontier_suffix p))
  · exact hnot hdir

/-- What can be made or cut on the way to the path is. -/
theorem frontier_mem_touched_createFile (h : Proper p) (hadmits : Admits refuses d.tree p) :
    d.tree.frontier p ∈ (createFile refuses d (pathText p)).1.touched := by
  rw [createFile_pathText h]
  cases p with
  | nil =>
      rcases hadmits.2 with hnone | ⟨-, hnot⟩
      · rw [FileTree.frontier, d.tree.root] at hnone
        cases hnone
      · exact absurd d.tree.root hnot
  | cons e p =>
      rw [List.tail_cons]
      by_cases hp : d.tree.IsDir p
      · simp only [Admits, FileTree.frontier_of_isDir e hp] at hadmits
        have hnot : ¬ d.tree.IsDir (e :: p) :=
          hadmits.2.elim FileTree.not_isDir_of_none And.right
        rw [FileTree.frontier_of_isDir e hp, mkdirAll_of_isDir hp]
        simp only [create_of_isDir hp hnot, hadmits.1]
        exact List.mem_append_right _ (List.mem_singleton_self _)
      · have hmem := frontier_mem_touched hp ((admits_cons_iff hp).mp hadmits)
        rw [FileTree.frontier_of_not_isDir e hp]
        cases hparent : mkdirAll refuses d p with
        | mk d' err =>
            rw [hparent] at hmem
            cases err with
            | some err => exact hmem
            | none => exact (noted_place (e :: p)).kept hmem

/-- Where nothing can, `createFile` fails and leaves the disk as it is. -/
theorem createFile_blocked (h : Proper p) (hadmits : ¬ Admits refuses d.tree p) :
    ∃ err, createFile refuses d (pathText p) = (d, some err) := by
  rw [createFile_pathText h]
  cases p with
  | nil => exact ⟨_, rfl⟩
  | cons e p =>
      rw [List.tail_cons]
      by_cases hp : d.tree.IsDir p
      · rw [mkdirAll_of_isDir hp]
        by_cases hdir : d.tree.IsDir (e :: p)
        · exact ⟨_, create_of_dir hdir⟩
        · simp only [create_of_isDir hp hdir]
          cases hrefuses : refuses (e :: p) with
          | some text => exact ⟨_, rfl⟩
          | none =>
              simp only [Admits, FileTree.frontier_of_isDir e hp, true_and] at hadmits
              exact absurd ⟨hrefuses, .inr hdir⟩ hadmits
      · obtain ⟨err, hparent⟩ := mkdirAll_blocked hp (mt (admits_cons_iff hp).mpr hadmits)
        rw [hparent]
        exact ⟨err, rfl⟩

end CreateFile

/-! ## One turn -/

/-- What is to hold when the loop gets to a turn: if `createFile` touches
    anything, the path is inside the destination, whose parent exists. -/
def StaysInside (destPath : List UInt8) (d : Disk) (turn : Turn) : Prop :=
  turn.header.isDir = false →
    Admits turn.refuses d.tree (resolve (join [destPath, turn.header.name])) →
      Inside destPath (join [destPath, turn.header.name]) ∧
        d.tree.IsDir (resolve (dir destPath))

/-- What is touched lies inside a directory. -/
def Contained (dest : FilePath) (d : Disk) : Prop := ∀ q ∈ d.touched, dest <:+ q

variable {dest : FilePath} {s : Disk}

theorem touched_write (d : Disk) (data : List UInt8) (p : FilePath) :
    (write d data p).touched = d.touched := by
  cases p with
  | nil => rfl
  | cons e p => rfl

/-- A turn that is no directory touches what `createFile` does. -/
theorem touched_extractOne (hdest : Proper dest) {turn : Turn}
    (hfile : turn.header.isDir = false) :
    (extractOne (pathText dest) s turn).1.touched
      = (createFile turn.refuses s (pathText (below dest turn.header.name))).1.touched := by
  simp only [extractOne, hfile, join_pathText hdest]
  rw [if_neg Bool.false_ne_true]
  split
  · next hcreate => rw [hcreate]
  · next hcreate => rw [hcreate, touched_write]

/-- What is missing above a path inside `dest` is inside as well. -/
theorem inside_of_missing {t : FileTree Element (List UInt8)} {p q : FilePath}
    (hp : dest <:+ p) (hparent : t.IsDir dest.tail) (hq : q <:+ p)
    (hwhy : t.node q = none ∨ q = p) : dest <:+ q := by
  rcases hwhy with hnone | rfl
  · rcases List.suffix_or_suffix_of_suffix hp hq with hin | hout
    · exact hin
    · by_cases heq : q = dest
      · rw [heq]
      · -- above `dest` nothing is missing
        have htail : q <:+ dest.tail := by
          cases dest with
          | nil => exact absurd (List.suffix_nil.mp hout) heq
          | cons e dest => exact (List.suffix_cons_iff.mp hout).resolve_left heq
        exact absurd (hparent.of_suffix htail) (FileTree.not_isDir_of_none hnone)
  · exact hp

/-- One turn stays inside exactly when it is to. -/
theorem contained_extractOne_iff (hdest : Proper dest) (hne : dest ≠ [])
    (hs : Contained dest s) (turn : Turn) :
    Contained dest (extractOne (pathText dest) s turn).1 ↔
      StaysInside (pathText dest) s turn := by
  cases hisDir : turn.header.isDir with
  | true =>
      have hsame : extractOne (pathText dest) s turn = (s, none) := by
        simp only [extractOne, hisDir, if_true]
      rw [hsame]
      refine iff_of_true hs fun hfile => ?_
      rw [hisDir] at hfile
      cases hfile
  | false =>
      have hp : Proper (below dest turn.header.name) := hdest.below turn.header.name
      have htail : Proper dest.tail := fun e he => hdest e (List.mem_of_mem_tail he)
      have htouched := touched_extractOne (s := s) hdest hisDir
      simp only [StaysInside, join_pathText hdest, resolve_pathText hp, dir_pathText hdest,
        resolve_pathText htail, inside_pathText_iff hdest hne hp, hisDir, true_imp_iff]
      constructor
      · intro ht hadmits
        -- the frontier is touched, so it is inside
        have hmem := frontier_mem_touched_createFile hp hadmits
        rw [← htouched] at hmem
        have hfrontier := ht _ hmem
        refine ⟨hfrontier.trans (s.tree.frontier_suffix _), ?_⟩
        obtain ⟨e, q, hcons, hq, -⟩ := FileTree.frontier_spec hadmits.not_isDir
        rw [hcons] at hfrontier
        refine hq.of_suffix ?_
        rcases List.suffix_cons_iff.mp hfrontier with rfl | hfrontier
        · exact List.suffix_rfl
        · exact (List.tail_suffix dest).trans hfrontier
      · intro hstays
        by_cases hadmits : Admits turn.refuses s.tree (below dest turn.header.name)
        · obtain ⟨hinside, hparent⟩ := hstays hadmits
          intro q hq
          rw [htouched] at hq
          rcases mem_touched_createFile hp hq with hq | ⟨hsuffix, hwhy⟩
          · exact hs q hq
          · exact inside_of_missing hinside hparent hsuffix hwhy
        · obtain ⟨err, hblocked⟩ := createFile_blocked hp hadmits
          intro q hq
          rw [htouched, hblocked] at hq
          exact hs q hq

/-! ## The loop -/

/-- The loop gets to `turn` with the disk `t`: all turns before it succeed. -/
def Reached (destPath : List UInt8) (s : Disk) (turns : List Turn) (turn : Turn) (t : Disk) :
    Prop :=
  ∃ before after, turns = before ++ turn :: after ∧ extract destPath s before = (t, none)

theorem reached_cons_iff {destPath : List UInt8} {first turn : Turn} {turns : List Turn}
    {t : Disk} :
    Reached destPath s (first :: turns) turn t ↔
      (turn = first ∧ t = s) ∨
        ∃ u, extractOne destPath s first = (u, none) ∧ Reached destPath u turns turn t := by
  constructor
  · rintro ⟨before, after, hturns, hextract⟩
    cases before with
    | nil =>
        obtain ⟨rfl, -⟩ := List.cons.inj hturns
        exact .inl ⟨rfl, (Prod.mk.inj hextract).1.symm⟩
    | cons first' before =>
        obtain ⟨rfl, rfl⟩ := List.cons.inj hturns
        simp only [extract] at hextract
        split at hextract
        · cases (Prod.mk.inj hextract).2
        · next u hone => exact .inr ⟨u, hone, before, after, rfl, hextract⟩
  · rintro (⟨rfl, rfl⟩ | ⟨u, hone, before, after, rfl, hextract⟩)
    · exact ⟨[], turns, rfl, rfl⟩
    · refine ⟨first :: before, after, rfl, ?_⟩
      simp only [extract, hone]
      exact hextract

theorem noted_extractOne (hdest : Proper dest) (turn : Turn) :
    Noted s (extractOne (pathText dest) s turn).1 := by
  have hp : Proper (below dest turn.header.name) := hdest.below turn.header.name
  simp only [extractOne, join_pathText hdest, resolve_pathText hp]
  split
  · exact Noted.refl s
  · have hnoted := @noted_createFile turn.refuses s _ hp
    split
    · next hcreate =>
        rw [hcreate] at hnoted
        exact hnoted
    · next hcreate =>
        rw [hcreate] at hnoted
        exact hnoted.trans (noted_write (mem_touched_of_createFile hp hcreate) turn.data)

/-- What every turn keeps, the loop keeps. -/
theorem extract_preserves {destPath : List UInt8} {P : Disk → Prop}
    (hone : ∀ s turn, P s → P (extractOne destPath s turn).1) (hs : P s) (turns : List Turn) :
    P (extract destPath s turns).1 := by
  induction turns generalizing s with
  | nil => exact hs
  | cons turn turns ih =>
      have hturn := hone s turn hs
      simp only [extract]
      cases hextract : extractOne destPath s turn with
      | mk u err =>
          rw [hextract] at hturn
          cases err with
          | some err => exact hturn
          | none => exact ih hturn

theorem noted_extract (hdest : Proper dest) (turns : List Turn) :
    Noted s (extract (pathText dest) s turns).1 :=
  extract_preserves (fun _ turn hu => hu.trans (noted_extractOne hdest turn)) (Noted.refl s) turns

theorem proper_extractOne (hdest : Proper dest) (s : Disk) (turn : Turn)
    (hs : ∀ q ∈ s.touched, Proper q) :
    ∀ q ∈ (extractOne (pathText dest) s turn).1.touched, Proper q := by
  cases hisDir : turn.header.isDir with
  | true =>
      simp only [extractOne, hisDir, if_true]
      exact hs
  | false =>
      have hp := hdest.below turn.header.name
      intro q hq
      rw [touched_extractOne hdest hisDir] at hq
      rcases mem_touched_createFile hp hq with hq | ⟨hsuffix, -⟩
      · exact hs q hq
      · exact fun e he => hp e (hsuffix.subset he)

/-- The loop stays inside exactly when each turn it gets to does. -/
theorem contained_extract_iff (hdest : Proper dest) (hne : dest ≠ []) (hs : Contained dest s)
    (turns : List Turn) :
    Contained dest (extract (pathText dest) s turns).1 ↔
      ∀ turn t, Reached (pathText dest) s turns turn t →
        StaysInside (pathText dest) t turn := by
  induction turns generalizing s with
  | nil =>
      refine iff_of_true hs ?_
      rintro turn t ⟨before, after, hturns, -⟩
      simp at hturns
  | cons first turns ih =>
      have hone := contained_extractOne_iff hdest hne hs first
      have hfirst : (∀ turn t, Reached (pathText dest) s (first :: turns) turn t →
          StaysInside (pathText dest) t turn) → StaysInside (pathText dest) s first :=
        fun h => h first s (reached_cons_iff.mpr (.inl ⟨rfl, rfl⟩))
      simp only [extract]
      cases hextract : extractOne (pathText dest) s first with
      | mk u err =>
          rw [hextract] at hone
          cases err with
          | some err =>
              -- the loop returns
              refine hone.trans ⟨fun h turn t hreached => ?_, hfirst⟩
              rcases reached_cons_iff.mp hreached with ⟨rfl, rfl⟩ | ⟨v, hv, -⟩
              · exact h
              · rw [hextract] at hv
                cases (Prod.mk.inj hv).2
          | none =>
              constructor
              · intro h turn t hreached
                have hu : Contained dest u :=
                  fun q hq => h q ((noted_extract hdest turns).kept hq)
                rcases reached_cons_iff.mp hreached with ⟨rfl, rfl⟩ | ⟨v, hv, hrest⟩
                · exact hone.mp hu
                · rw [hextract] at hv
                  obtain rfl := (Prod.mk.inj hv).1
                  exact (ih hu).mp h turn t hrest
              · intro h
                refine (ih (hone.mpr (hfirst h))).mpr fun turn t hreached => ?_
                exact h turn t (reached_cons_iff.mpr (.inr ⟨u, hextract, hreached⟩))

/-! ## The archive -/

/-- The last error of the reader changes nothing on the disk. -/
theorem unTarGz_disk (d : Disk) (archive : Archive) (destPath : List UInt8) :
    (unTarGz d (.ok archive) destPath).1 = (extract destPath d archive.turns).1 := by
  simp only [unTarGz]
  split
  · next hextract => rw [hextract]
  · next hextract => rw [hextract]

/-- Whatever is in the archive, only paths that are noted change. -/
theorem unTarGz_noted {destPath : List UInt8} (h : AbsoluteClean destPath) (d : Disk)
    (tarGz : Except String Archive) : Noted d (unTarGz d tarGz destPath).1 := by
  obtain ⟨dest, hdest, -, rfl⟩ := h.exists_path
  cases tarGz with
  | error err => exact Noted.refl d
  | ok archive =>
      rw [unTarGz_disk]
      exact noted_extract hdest archive.turns

/-- **When an archive stays inside its destination.**  For every file tree,
    archive and absolute clean destination: every path that `unTarGz` creates or
    overwrites is inside the destination, if and only if this holds of the path
    of every entry that the loop gets to and for which `createFile` has
    something to do, and the parent of the destination exists then. -/
theorem unTarGz_inside_iff (tree : FileTree Element (List UInt8))
    (tarGz : Except String Archive) {destPath : List UInt8} (h : AbsoluteClean destPath) :
    (∀ q ∈ (unTarGz ⟨tree, []⟩ tarGz destPath).1.touched, Inside destPath (pathText q)) ↔
      ∀ archive turn d, tarGz = .ok archive →
        Reached destPath ⟨tree, []⟩ archive.turns turn d → StaysInside destPath d turn := by
  obtain ⟨dest, hdest, hne, rfl⟩ := h.exists_path
  cases tarGz with
  | error err =>
      refine iff_of_true (fun q hq => absurd hq List.not_mem_nil) ?_
      intro archive turn d harchive
      cases harchive
  | ok archive =>
      have hproper := extract_preserves (proper_extractOne hdest) (s := ⟨tree, []⟩)
        (fun q hq => absurd hq List.not_mem_nil) archive.turns
      have hloop := contained_extract_iff hdest hne (s := ⟨tree, []⟩)
        (fun q hq => absurd hq List.not_mem_nil) archive.turns
      rw [unTarGz_disk]
      constructor
      · intro hinside archive' turn d harchive hreached
        cases harchive
        refine hloop.mp (fun q hq => ?_) turn d hreached
        exact (inside_pathText_iff hdest hne (hproper q hq)).mp (hinside q hq)
      · intro hstays q hq
        refine (inside_pathText_iff hdest hne (hproper q hq)).mpr ?_
        exact hloop.mpr (fun turn d hreached => hstays archive turn d rfl hreached) q hq

/-! ## One request -/

/-- The directory of a request. -/
def requestDir : List UInt8 := bytes "/opt/hfrd/u1/0a1b2c3d-t"

/-- The files after `os.MkdirAll` of it. -/
def requestTree : FileTree Element (List UInt8) :=
  (mkdirAll (fun _ => none) ⟨FileTree.bare _ _, []⟩ (resolve requestDir)).1.tree

/-- A regular file without content. -/
def regular (name : String) : Turn := ⟨⟨bytes name, 0o644, 48⟩, fun _ => none, [], none⟩

theorem absoluteClean_requestDir : AbsoluteClean requestDir where
  rooted := by decide +kernel
  clean := by decide +kernel
  ne_root := by decide +kernel

/-- A connection profile is unpacked inside. -/
theorem unTarGz_inside_profile :
    (unTarGz ⟨requestTree, []⟩ (.ok ⟨[regular "profiles/Org1/connection.json"], none⟩)
        requestDir).1.touched ≠ [] ∧
      ∀ q ∈ (unTarGz ⟨requestTree, []⟩ (.ok ⟨[regular "profiles/Org1/connection.json"], none⟩)
          requestDir).1.touched,
        Inside requestDir (pathText q) := by
  refine ⟨by decide +kernel, ?_⟩
  refine (unTarGz_inside_iff requestTree _ absoluteClean_requestDir).mpr ?_
  intro archive turn d harchive hreached
  cases harchive
  rcases reached_cons_iff.mp hreached with ⟨rfl, rfl⟩ | ⟨u, -, before, after, hturns, -⟩
  · intro _ _
    exact ⟨by decide +kernel, by decide +kernel⟩
  · simp at hturns

/-- A parent reference in the middle of a name: the test plan of another request
    is written. -/
theorem unTarGz_escapes :
    (unTarGz ⟨requestTree, []⟩ (.ok ⟨[regular "profiles/../../0b1b2c3d-t/testplan.yml"], none⟩)
        requestDir).1.touched.map pathText
      = [bytes "/opt/hfrd/u1/0b1b2c3d-t", bytes "/opt/hfrd/u1/0b1b2c3d-t/testplan.yml"] ∧
      ¬ ∀ q ∈ (unTarGz ⟨requestTree, []⟩
          (.ok ⟨[regular "profiles/../../0b1b2c3d-t/testplan.yml"], none⟩) requestDir).1.touched,
        Inside requestDir (pathText q) :=
  ⟨by decide +kernel, by decide +kernel⟩

end Hfrd.Api
