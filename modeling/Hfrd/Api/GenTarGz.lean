/-
  Hfrd.Api.GenTarGz

  Packing the key files of a network (`genTarGz` of api/resource/ibpv2cp.go),
  against unpacking them.

  The name of an entry is what its path has behind the parent of the packed
  directory and a separator.  The parent `/` is the separator itself, so there
  the name loses its first byte.
-/

import Hfrd.Api.UnTarGz
import Hfrd.Go.CleanPath

namespace Hfrd.Api

open Hfrd.Go Hfrd.Lib Filepath Os

/-! ## The tree -/

/-- A regular file with its permission, setuid, setgid and sticky bits. -/
structure KeyFile where
  mode : Fin 0o10000
  data : List UInt8

/-- What is at a path: a file, or a directory with its entries. -/
inductive KeyTree
  | file (info : KeyFile)
  | dir (entries : List (Element × KeyTree))

mutual

/-- The files of a tree, by their path in it. -/
def files : KeyTree → List (FilePath × KeyFile)
  | .file info => [([], info)]
  | .dir entries => filesIn entries

/-- The files below the entries of a directory. -/
def filesIn : List (Element × KeyTree) → List (FilePath × KeyFile)
  | [] => []
  | (name, tree) :: entries => (files tree).map (fun f => (f.1 ++ [name], f.2)) ++ filesIn entries

end

mutual

/-- The names in a directory are proper and differ. -/
def WellNamed : KeyTree → Prop
  | .file _ => True
  | .dir entries => WellNamedIn entries

/-- The entries of a directory can be listed: each has a proper name of its own.
    -/
def WellNamedIn : List (Element × KeyTree) → Prop
  | [] => True
  | (name, tree) :: entries => ProperElement name ∧ (∀ entry ∈ entries, entry.1 ≠ name) ∧
      WellNamed tree ∧ WellNamedIn entries

end

/-! ## Packing -/

/-- What fails at a path. -/
structure PackFaults where
  create : GoError
  lstat : List UInt8 → GoError
  readDirNames : List UInt8 → GoError
  openFile : List UInt8 → GoError
  fileInfoHeader : List UInt8 → GoError
  writeHeader : List UInt8 → GoError
  copy : List UInt8 → GoError

/-- The headers that have been written, and the data behind them. -/
abbrev TarWriter := List (Header × List UInt8)

/-- `if err != nil { return err }` -/
def failing : GoError → Except String Unit
  | some err => .error err
  | none => .ok ()

/-- The name of a path in the archive. -/
def pathInTar (inputPath path : List UInt8) : List UInt8 :=
  if dir inputPath ≠ dot then path.drop ((dir inputPath).length + 1) else path

section
variable (faults : PackFaults) (inputPath : List UInt8)

/-- `walkFunc`; there is no `info` of a directory, and 48 is the type of a regular
    file.  The archive of a call that fails is left out. -/
def walkFunc (path : List UInt8) (info : Option KeyFile) (err : GoError) (tarWriter : TarWriter) :
    Except String TarWriter := do
  failing err
  match info with
  | none => return tarWriter
  | some info =>
    if (pathInTar inputPath path).length = 0 then return tarWriter
    failing (faults.openFile path)
    failing (faults.fileInfoHeader path)
    failing (faults.writeHeader path)
    failing (faults.copy path)
    return tarWriter ++ [(⟨pathInTar inputPath path, Int64.ofNat info.mode, 48⟩, info.data)]

mutual

/-- `walk` of `path/filepath`. -/
def walk (path : List UInt8) : KeyTree → TarWriter → Except String TarWriter
  | .file info, tarWriter => walkFunc faults inputPath path (some info) none tarWriter
  | .dir entries, tarWriter => do
      let tarWriter ← walkFunc faults inputPath path none (faults.readDirNames path) tarWriter
      walkNames path entries tarWriter

/-- The names that `readDirNames` gives, one after the other. -/
def walkNames (path : List UInt8) :
    List (Element × KeyTree) → TarWriter → Except String TarWriter
  | [], tarWriter => return tarWriter
  | (name, tree) :: entries, tarWriter => do
      let filename := join [path, name]
      failing (faults.lstat filename)
      let tarWriter ← walk filename tree tarWriter
      walkNames path entries tarWriter

end

/-- `genTarGz`, with the archive that it writes when it succeeds. -/
def genTarGz (tree : KeyTree) : Except String TarWriter := do
  failing faults.create
  failing (faults.lstat inputPath)
  walk faults inputPath inputPath tree []

end

/-- The archive as it is read: the headers and the data come back, and the kernel
    refuses nothing that is unpacked. -/
def archiveOf (tarWriter : TarWriter) : Archive :=
  ⟨tarWriter.map fun entry => ⟨entry.1, fun _ => none, entry.2, none⟩, none⟩

/-! ## What is packed -/

/-- The entry of a file at a path. -/
def packedEntry (inputPath path : List UInt8) (info : KeyFile) : Header × List UInt8 :=
  (⟨pathInTar inputPath path, Int64.ofNat info.mode, 48⟩, info.data)

section
variable {faults : PackFaults} {inputPath : List UInt8}

theorem walkFunc_file {path : List UInt8} {info : KeyFile} {tarWriter tarWriter' : TarWriter}
    (hname : pathInTar inputPath path ≠ [])
    (h : walkFunc faults inputPath path (some info) none tarWriter = .ok tarWriter') :
    tarWriter' = tarWriter ++ [packedEntry inputPath path info] := by
  have hlength : ¬ (pathInTar inputPath path).length = 0 := fun hzero =>
    hname (List.length_eq_zero_iff.mp hzero)
  unfold walkFunc at h
  obtain ⟨-, -, h⟩ := bind_eq_ok.mp h
  simp only [hlength, if_false] at h
  obtain ⟨-, -, h⟩ := bind_eq_ok.mp h
  obtain ⟨-, -, h⟩ := bind_eq_ok.mp h
  obtain ⟨-, -, h⟩ := bind_eq_ok.mp h
  obtain ⟨-, -, h⟩ := bind_eq_ok.mp h
  exact (Except.ok.inj h).symm

theorem walkFunc_dir {path : List UInt8} {err : GoError} {tarWriter tarWriter' : TarWriter}
    (h : walkFunc faults inputPath path none err tarWriter = .ok tarWriter') :
    tarWriter' = tarWriter := by
  unfold walkFunc at h
  obtain ⟨-, -, h⟩ := bind_eq_ok.mp h
  exact (Except.ok.inj h).symm

variable {rooted : Bool}

mutual

/-- A walk that succeeds packs the files in their order. -/
theorem walk_ok : (tree : KeyTree) → WellNamed tree → ∀ {stack : FilePath}, Kept rooted stack →
    (∀ q, Proper q → pathInTar inputPath (textOf rooted (q ++ stack)) ≠ []) →
    ∀ {tarWriter tarWriter' : TarWriter},
      walk faults inputPath (textOf rooted stack) tree tarWriter = .ok tarWriter' →
        tarWriter' = tarWriter ++ (files tree).map fun f =>
          packedEntry inputPath (textOf rooted (f.1 ++ stack)) f.2
  | .file info, _, stack, _, hname, _, _, h => walkFunc_file (hname [] proper_nil) h
  | .dir entries, hnamed, stack, hstack, hname, tarWriter, tarWriter', h => by
      rw [walk] at h
      obtain ⟨w, hw, hnames⟩ := bind_eq_ok.mp h
      rw [walkFunc_dir hw] at hnames
      exact walkNames_ok entries hnamed hstack hname hnames

theorem walkNames_ok : (entries : List (Element × KeyTree)) → WellNamedIn entries →
    ∀ {stack : FilePath}, Kept rooted stack →
    (∀ q, Proper q → pathInTar inputPath (textOf rooted (q ++ stack)) ≠ []) →
    ∀ {tarWriter tarWriter' : TarWriter},
      walkNames faults inputPath (textOf rooted stack) entries tarWriter = .ok tarWriter' →
        tarWriter' = tarWriter ++ (filesIn entries).map fun f =>
          packedEntry inputPath (textOf rooted (f.1 ++ stack)) f.2
  | [], _, _, _, _, _, _, h => by
      rw [walkNames] at h
      rw [← Except.ok.inj h]
      simp [filesIn]
  | (name, tree) :: entries, hnamed, stack, hstack, hname, tarWriter, tarWriter', h => by
      obtain ⟨hproper, -, htree, hentries⟩ := hnamed
      have hq : Proper [name] := fun e he => List.mem_singleton.mp he ▸ hproper
      rw [walkNames] at h
      obtain ⟨-, -, h⟩ := bind_eq_ok.mp h
      obtain ⟨w, hw, h⟩ := bind_eq_ok.mp h
      rw [join_textOf hstack hproper] at hw
      -- a path below the entry is one below the directory
      have hnames : ∀ q, Proper q →
          pathInTar inputPath (textOf rooted (q ++ name :: stack)) ≠ [] := by
        intro q hq'
        have happend := hname (q ++ [name]) fun e he => (List.mem_append.mp he).elim (hq' e) (hq e)
        rwa [List.append_assoc, List.singleton_append] at happend
      have hfirst := walk_ok tree htree (hstack.append hq) hnames hw
      rw [walkNames_ok entries hentries hstack hname h, hfirst, filesIn, List.map_append,
        List.map_map, List.append_assoc]
      refine congrArg (tarWriter ++ ·) (congrArg (· ++ _) (List.map_congr_left fun f _ => ?_))
      rw [Function.comp_apply, List.append_assoc]

end

theorem genTarGz_ok {tree : KeyTree} (htree : WellNamed tree) {stack : FilePath}
    (hstack : Kept rooted stack)
    (hname : ∀ q, Proper q → pathInTar (textOf rooted stack) (textOf rooted (q ++ stack)) ≠ [])
    {tarWriter : TarWriter} (h : genTarGz faults (textOf rooted stack) tree = .ok tarWriter) :
    tarWriter = (files tree).map fun f =>
      packedEntry (textOf rooted stack) (textOf rooted (f.1 ++ stack)) f.2 := by
  unfold genTarGz at h
  obtain ⟨-, -, h⟩ := bind_eq_ok.mp h
  obtain ⟨-, -, h⟩ := bind_eq_ok.mp h
  simpa using walk_ok tree htree hstack hname h

end

/-! ## The names in the archive -/

/-- `"keyfiles"` -/
def keyfiles : Element := bytes "keyfiles"

theorem properElement_keyfiles : ProperElement keyfiles := by
  unfold keyfiles
  decide +kernel

/-- What the entries start with: the parent `/` takes a byte away. -/
def packedTop (rooted : Bool) (stack : FilePath) : Element :=
  if rooted = true ∧ stack = [] then bytes "eyfiles" else keyfiles

theorem properElement_packedTop (rooted : Bool) (stack : FilePath) :
    ProperElement (packedTop rooted stack) := by
  rw [packedTop]
  split
  · decide +kernel
  · exact properElement_keyfiles

theorem textOf_eq_dot_iff {rooted : Bool} {stack : FilePath} (h : Kept rooted stack) :
    textOf rooted stack = dot ↔ rooted = false ∧ stack = [] := by
  constructor
  · intro hdot
    have hstack := stackFrom_textOf h
    have hrooted := isRooted_textOf_append h []
    rw [hdot] at hstack hrooted
    obtain rfl : false = rooted := hrooted
    exact ⟨rfl, hstack.symm⟩
  · rintro ⟨rfl, rfl⟩
    rfl

theorem drop_relText (q : FilePath) :
    ([separator] ++ relText (q ++ [keyfiles])).drop 2 = relText (q ++ [bytes "eyfiles"]) := by
  have hcut : [separator] ++ keyfiles = [separator, 107] ++ bytes "eyfiles" := by
    decide +kernel
  by_cases hq : q = []
  · rw [hq]
    decide +kernel
  · rw [relText_append (List.cons_ne_nil _ _) hq, relText_append (List.cons_ne_nil _ _) hq,
      relText_singleton, relText_singleton, ← List.append_assoc, hcut, List.append_assoc]
    rfl

/-- A path below the packed directory, named from its parent. -/
theorem pathInTar_eq {rooted : Bool} {stack : FilePath} (h : Kept rooted stack) (q : FilePath) :
    pathInTar (textOf rooted (keyfiles :: stack)) (textOf rooted (q ++ keyfiles :: stack)) =
      relText (q ++ [packedTop rooted stack]) := by
  have hpath : textOf rooted (q ++ keyfiles :: stack) =
      leading rooted stack ++ relText (q ++ [keyfiles]) := by
    have happend := textOf_append rooted stack (q := q ++ [keyfiles]) (by simp)
    rwa [List.append_assoc, List.singleton_append] at happend
  have hdot := textOf_eq_dot_iff h
  rw [pathInTar, dir_textOf h properElement_keyfiles, hpath, leading, packedTop]
  by_cases hs : stack = []
  · rw [if_pos hs]
    cases rooted with
    | true =>
        -- the parent is the separator, and a byte more is cut
        rw [if_pos fun heq => absurd (hdot.mp heq).1 (by decide), if_pos rfl, if_pos ⟨rfl, hs⟩, hs]
        exact drop_relText q
    | false =>
        -- the parent is not written
        rw [if_neg (not_not.mpr (hdot.mpr ⟨rfl, hs⟩)), if_neg Bool.false_ne_true,
          if_neg fun h => absurd h.1 (by decide), List.nil_append]
  · have hlength : (textOf rooted stack ++ [separator]).length =
        (textOf rooted stack).length + 1 := by simp
    rw [if_pos fun heq => hs (hdot.mp heq).2, if_neg hs, if_neg fun h => hs h.2, ← hlength,
      List.drop_left]

/-! ## The files of a tree -/

/-- Neither path is the other or lies below it. -/
def Apart (p q : FilePath) : Prop := ¬ p <:+ q ∧ ¬ q <:+ p

theorem concat_suffix_iff {α : Type} {p q : List α} {a b : α} :
    p ++ [a] <:+ q ++ [b] ↔ p <:+ q ∧ a = b := by
  have hlength : [a].length = [b].length := rfl
  rw [List.suffix_append_inj_of_length_eq hlength, List.singleton_inj]

theorem Apart.concat {p q : FilePath} (h : Apart p q) (e : Element) :
    Apart (p ++ [e]) (q ++ [e]) :=
  ⟨fun hs => h.1 (concat_suffix_iff.mp hs).1, fun hs => h.2 (concat_suffix_iff.mp hs).1⟩

theorem apart_concat (p q : FilePath) {a b : Element} (h : a ≠ b) :
    Apart (p ++ [a]) (q ++ [b]) :=
  ⟨fun hs => h (concat_suffix_iff.mp hs).2, fun hs => h (concat_suffix_iff.mp hs).2.symm⟩

theorem proper_concat {p : FilePath} (h : Proper p) {e : Element} (he : ProperElement e) :
    Proper (p ++ [e]) := fun f hf =>
  (List.mem_append.mp hf).elim (h f) fun hf => List.mem_singleton.mp hf ▸ he

/-- A file in a directory lies at or below one of its names. -/
theorem exists_name_of_mem_filesIn {entries : List (Element × KeyTree)} {f : FilePath × KeyFile}
    (h : f ∈ filesIn entries) : ∃ entry ∈ entries, ∃ p, f.1 = p ++ [entry.1] := by
  induction entries with
  | nil => cases h
  | cons entry entries ih =>
      obtain ⟨name, tree⟩ := entry
      rw [filesIn] at h
      rcases List.mem_append.mp h with hfirst | hrest
      · obtain ⟨g, -, rfl⟩ := List.mem_map.mp hfirst
        exact ⟨(name, tree), List.mem_cons_self, g.1, rfl⟩
      · obtain ⟨entry, hentry, p, hp⟩ := ih hrest
        exact ⟨entry, List.mem_cons_of_mem _ hentry, p, hp⟩

mutual

/-- The files of a tree have proper paths, each apart from the others. -/
theorem files_apart : (tree : KeyTree) → WellNamed tree →
    (∀ f ∈ files tree, Proper f.1) ∧ (files tree).Pairwise fun f g => Apart f.1 g.1
  | .file _, _ => ⟨fun _ hf => List.mem_singleton.mp hf ▸ proper_nil, List.pairwise_singleton _ _⟩
  | .dir entries, h => filesIn_apart entries h

theorem filesIn_apart : (entries : List (Element × KeyTree)) → WellNamedIn entries →
    (∀ f ∈ filesIn entries, Proper f.1) ∧ (filesIn entries).Pairwise fun f g => Apart f.1 g.1
  | [], _ => ⟨fun _ hf => (List.not_mem_nil hf).elim, List.Pairwise.nil⟩
  | (name, tree) :: entries, h => by
      obtain ⟨hproper, hdiffer, htree, hentries⟩ := h
      obtain ⟨hfirst, hfirstApart⟩ := files_apart tree htree
      obtain ⟨hrest, hrestApart⟩ := filesIn_apart entries hentries
      rw [filesIn]
      refine ⟨fun f hf => ?_, List.pairwise_append.mpr ⟨?_, hrestApart, fun f hf g hg => ?_⟩⟩
      · rcases List.mem_append.mp hf with hf | hf
        · obtain ⟨g, hg, rfl⟩ := List.mem_map.mp hf
          exact proper_concat (hfirst g hg) hproper
        · exact hrest f hf
      · exact List.pairwise_map.mpr (hfirstApart.imp fun hapart => hapart.concat name)
      · -- in different entries of the directory
        obtain ⟨f, -, rfl⟩ := List.mem_map.mp hf
        obtain ⟨entry, hentry, p, hp⟩ := exists_name_of_mem_filesIn hg
        rw [hp]
        exact apart_concat f.1 p (hdiffer entry hentry).symm

end

/-! ## Unpacking files -/

/-- The header of a regular file is not that of a directory. -/
theorem not_isDir_regular (name : List UInt8) (mode : Fin 0o10000) :
    (⟨name, Int64.ofNat mode, 48⟩ : Header).isDir = false := by
  -- two octal digits at a time
  have hmodes : ∀ high low : Fin 64, ((Int64.ofNat (64 * high + low)).toUInt64.toUInt32 &&&
      ~~~0o7777 == 0o40000 || (48 : UInt8) == 53) = false := by
    decide +kernel
  have hmode := hmodes ⟨mode / 64, by omega⟩ ⟨mode % 64, by omega⟩
  rwa [Nat.div_add_mod] at hmode

/-- A file of the archive, as it is read back. -/
def unpackedTurn (f : FilePath × KeyFile) : Turn :=
  ⟨⟨relText f.1, Int64.ofNat f.2.mode, 48⟩, fun _ => none, f.2.data, none⟩

section
variable {dest : FilePath} {d : Disk}

theorem below_relText {q : FilePath} (hq : Proper q) (hne : q ≠ []) :
    below dest (relText q) = q ++ dest := by
  rw [below, split_relText hne fun e he => (hq e he).2.2.2, foldl_proper_append true hq]

/-- A file with no file above it and nothing in its place. -/
theorem extractOne_file (hdest : Proper dest) {e : Element} {q : FilePath} (hq : Proper (e :: q))
    (habove : ∀ r, r <:+ q ++ dest → ∀ data, d.tree.node r ≠ some (.file data))
    (hnone : d.tree.node (e :: q ++ dest) = none) (info : KeyFile) :
    ∃ d', extractOne (pathText dest) d (unpackedTurn (e :: q, info)) = (d', none) ∧
      ∀ r, d'.tree.node r = if r = e :: q ++ dest then some (.file info.data)
        else if r <:+ q ++ dest then some .dir else d.tree.node r := by
  have hpath : Proper (e :: q ++ dest) := fun a ha =>
    (List.mem_append.mp ha).elim (hq a) (hdest a)
  rw [List.cons_append] at hnone hpath ⊢
  -- the directories above it are made first, and leave its place free
  obtain ⟨d', hmade, hnode⟩ := mkdirAll_of_no_file habove
  have hparent : d'.tree.IsDir (q ++ dest) := (hnode _).trans (if_pos List.suffix_rfl)
  have hfree : ¬ d'.tree.IsDir (e :: (q ++ dest)) := by
    refine FileTree.not_isDir_of_none ?_
    rw [hnode, if_neg (not_cons_suffix e (q ++ dest)), hnone]
  have hcreated : createFile (fun _ => none) d (pathText (e :: (q ++ dest))) =
      (d'.touch e (q ++ dest) (.file []), none) := by
    rw [createFile_pathText hpath, List.tail_cons, hmade]
    exact create_of_isDir hparent hfree
  refine ⟨write (d'.touch e (q ++ dest) (.file [])) info.data (e :: (q ++ dest)), ?_, fun r => ?_⟩
  · simp only [extractOne, unpackedTurn, not_isDir_regular, join_pathText hdest,
      below_relText hq (List.cons_ne_nil e q), List.cons_append, hcreated, resolve_pathText hpath]
    rfl
  · have hroom : (d'.tree.put e (q ++ dest) (.file [])).Room e (q ++ dest) := by
      refine ⟨?_, ?_⟩
      · rw [FileTree.IsDir, FileTree.node_put_ne (List.cons_ne_self e _).symm]
        exact hparent
      · rw [FileTree.IsDir, FileTree.node_put_self ⟨hparent, hfree⟩]
        exact fun h => by cases h
    -- created empty, then written
    by_cases hr : r = e :: (q ++ dest)
    · rw [if_pos hr, hr]
      exact FileTree.node_put_self hroom
    · rw [if_neg hr, ← hnode]
      exact (FileTree.node_put_ne hr).trans (FileTree.node_put_ne hr)

/-- Files apart from each other are all unpacked, and nothing else. -/
theorem extract_files (hdest : Proper dest) {fs : List (FilePath × KeyFile)}
    (hproper : ∀ f ∈ fs, Proper f.1 ∧ f.1 ≠ []) (hapart : fs.Pairwise fun f g => Apart f.1 g.1)
    (habove : ∀ f ∈ fs, ∀ q, q <:+ f.1.tail ++ dest → ∀ data, d.tree.node q ≠ some (.file data))
    (hnone : ∀ f ∈ fs, d.tree.node (f.1 ++ dest) = none) :
    ∃ d', extract (pathText dest) d (fs.map unpackedTurn) = (d', none) ∧
      ∀ q data, d'.tree.node q = some (.file data) ↔ d.tree.node q = some (.file data) ∨
        ∃ f ∈ fs, q = f.1 ++ dest ∧ f.2.data = data := by
  induction fs generalizing d with
  | nil => exact ⟨d, rfl, fun q data => by simp⟩
  | cons f fs ih =>
      obtain ⟨p, info⟩ := f
      obtain ⟨⟨hp, hne⟩, hproperRest⟩ := List.forall_mem_cons.mp hproper
      obtain ⟨hfirst, hapartRest⟩ := List.pairwise_cons.mp hapart
      obtain ⟨haboveFirst, haboveRest⟩ := List.forall_mem_cons.mp habove
      obtain ⟨hnoneFirst, hnoneRest⟩ := List.forall_mem_cons.mp hnone
      obtain ⟨e, q, rfl⟩ := List.exists_cons_of_ne_nil hne
      obtain ⟨d₁, hone, hnode⟩ := extractOne_file hdest hp haboveFirst hnoneFirst info
      -- what has been made is no file above the others, and not in their place
      have hnone₁ : ∀ g ∈ fs, d₁.tree.node (g.1 ++ dest) = none := by
        intro g hg
        have hne : g.1 ++ dest ≠ e :: q ++ dest := fun heq =>
          (hfirst g hg).2 (List.append_cancel_right heq ▸ List.suffix_rfl)
        have hno : ¬ g.1 ++ dest <:+ q ++ dest := fun hs =>
          (hfirst g hg).2 ((List.suffix_append_self_iff.mp hs).trans (List.suffix_cons e q))
        rw [hnode, if_neg hne, if_neg hno, hnoneRest g hg]
      have habove₁ : ∀ g ∈ fs, ∀ r, r <:+ g.1.tail ++ dest → ∀ data,
          d₁.tree.node r ≠ some (.file data) := by
        intro g hg r hr data heq
        rw [hnode] at heq
        split at heq
        · next hplace =>
            rw [hplace, List.suffix_append_self_iff] at hr
            exact (hfirst g hg).1 (hr.trans (List.tail_suffix g.1))
        · split at heq
          · cases heq
          · exact haboveRest g hg r hr data heq
      obtain ⟨d', hrest, hfiles⟩ := ih hproperRest hapartRest habove₁ hnone₁
      refine ⟨d', ?_, fun r data => ?_⟩
      · rw [List.map_cons, extract, hone]
        exact hrest
      · have hstep : d₁.tree.node r = some (.file data) ↔
            d.tree.node r = some (.file data) ∨ r = e :: q ++ dest ∧ info.data = data := by
          rw [hnode]
          by_cases hplace : r = e :: q ++ dest
          · rw [if_pos hplace, hplace, hnoneFirst]
            simp
          · rw [if_neg hplace]
            split
            · next hr =>
                exact iff_of_false (fun h => by cases h)
                  (not_or.mpr ⟨haboveFirst r hr data, fun h => hplace h.1⟩)
            · exact (or_iff_left fun h => hplace h.1).symm
        rw [hfiles, hstep, List.exists_mem_cons_iff, or_assoc]

end

/-! ## There and back -/

/-- What comes back: unpacking succeeds, and the files are those that were there
    before and those of the tree, at their paths below `keyfiles`. -/
def ComesBack (tree : KeyTree) (tarWriter : TarWriter) (d : Disk) (dest : FilePath) : Prop :=
  (unTarGz d (.ok (archiveOf tarWriter)) (pathText dest)).2 = none ∧
    ∀ q data, (unTarGz d (.ok (archiveOf tarWriter)) (pathText dest)).1.tree.node q =
        some (.file data) ↔
      d.tree.node q = some (.file data) ∨
        ∃ f ∈ files tree, q = f.1 ++ keyfiles :: dest ∧ f.2.data = data

/-- An empty directory. -/
structure IsEmptyDir (d : Disk) (dest : FilePath) : Prop where
  isDir : d.tree.IsDir dest
  empty : ∀ q ≠ [], d.tree.node (q ++ dest) = none

/-- The files of a tree, below another name. -/
def filesBelow (top : Element) (tree : KeyTree) : List (FilePath × KeyFile) :=
  (files tree).map fun f => (f.1 ++ [top], f.2)

theorem unTarGz_filesBelow {tree : KeyTree} (htree : WellNamed tree) {top : Element}
    (htop : ProperElement top) {d : Disk} {dest : FilePath} (hdest : Proper dest)
    (hempty : IsEmptyDir d dest) :
    ∃ d', unTarGz d (.ok ⟨(filesBelow top tree).map unpackedTurn, none⟩) (pathText dest) =
        (d', none) ∧
      ∀ q data, d'.tree.node q = some (.file data) ↔ d.tree.node q = some (.file data) ∨
        ∃ f ∈ files tree, q = f.1 ++ top :: dest ∧ f.2.data = data := by
  obtain ⟨hproper, hapart⟩ := files_apart tree htree
  have habove : ∀ f ∈ filesBelow top tree, ∀ q, q <:+ f.1.tail ++ dest → ∀ data,
      d.tree.node q ≠ some (.file data) := by
    intro f _ q hq data hfile
    -- a path above is in the directory, or one of its parents
    rcases List.suffix_or_suffix_of_suffix hq (List.suffix_append f.1.tail dest) with hin | hout
    · have hdir : d.tree.IsDir q := hempty.isDir.of_suffix hin
      rw [FileTree.IsDir, hfile] at hdir
      cases hdir
    · obtain ⟨r, rfl⟩ := hout
      by_cases hr : r = []
      · have hdir := hempty.isDir
        rw [hr, List.nil_append] at hfile
        rw [FileTree.IsDir, hfile] at hdir
        cases hdir
      · rw [hempty.empty r hr] at hfile
        cases hfile
  have hbelow : ∀ f ∈ filesBelow top tree, Proper f.1 ∧ f.1 ≠ [] :=
    List.forall_mem_map.mpr fun f hf => ⟨proper_concat (hproper f hf) htop, by simp⟩
  obtain ⟨d', hextract, hfiles⟩ := extract_files hdest hbelow
    (List.pairwise_map.mpr (hapart.imp fun h => h.concat top)) habove
    (List.forall_mem_map.mpr fun f _ => hempty.empty _ (by simp))
  refine ⟨d', ?_, fun q data => ?_⟩
  · rw [unTarGz, hextract]
    rfl
  · rw [hfiles, filesBelow]
    simp only [List.mem_map, exists_exists_and_eq_and, List.append_assoc, List.singleton_append]

/-- The entries of a packed tree, as they are unpacked. -/
theorem archiveOf_genTarGz {faults : PackFaults} {tree : KeyTree} (htree : WellNamed tree)
    {rooted : Bool} {stack : FilePath} (hstack : Kept rooted stack) {tarWriter : TarWriter}
    (h : genTarGz faults (textOf rooted (keyfiles :: stack)) tree = .ok tarWriter) :
    archiveOf tarWriter =
      ⟨(filesBelow (packedTop rooted stack) tree).map unpackedTurn, none⟩ := by
  have hq : Proper [keyfiles] := fun e he => List.mem_singleton.mp he ▸ properElement_keyfiles
  have hname : ∀ q, Proper q → pathInTar (textOf rooted (keyfiles :: stack))
      (textOf rooted (q ++ keyfiles :: stack)) ≠ [] := fun q hq => by
    rw [pathInTar_eq hstack]
    exact (isRooted_relText (proper_concat hq (properElement_packedTop rooted stack))
      (by simp)).1
  rw [genTarGz_ok htree (hstack.append hq) hname h, archiveOf, filesBelow, List.map_map,
    List.map_map]
  refine congrArg (Archive.mk · none) (List.map_congr_left fun f _ => ?_)
  rw [Function.comp_apply, Function.comp_apply, packedEntry]
  exact congrArg (fun name => (⟨⟨name, Int64.ofNat f.2.mode, 48⟩, fun _ => none, f.2.data, none⟩ :
    Turn)) (pathInTar_eq hstack f.1)

/-- The packed directory, by the stack of its parent. -/
theorem join_keyfiles (root : List UInt8) : join [root, keyfiles] =
    textOf (isRooted root) (keyfiles :: stackFrom (isRooted root) root) := by
  have hq : Proper [keyfiles] := fun e he => List.mem_singleton.mp he ▸ properElement_keyfiles
  have hjoin := join_relText root hq (List.cons_ne_nil _ _)
  rwa [relText_singleton] at hjoin

theorem textOf_eq_keyfiles_iff {rooted : Bool} {stack : FilePath} (h : Kept rooted stack) :
    textOf rooted (keyfiles :: stack) = bytes "/keyfiles" ↔ rooted = true ∧ stack = [] := by
  have hq : Proper [keyfiles] := fun e he => List.mem_singleton.mp he ▸ properElement_keyfiles
  have htext : bytes "/keyfiles" = textOf true [keyfiles] := by decide +kernel
  constructor
  · intro heq
    have hstack := stackFrom_textOf (h.append hq)
    have hrooted := isRooted_textOf_append (h.append hq) []
    rw [List.singleton_append] at hstack hrooted
    rw [heq] at hstack hrooted
    obtain rfl : true = rooted := by
      rw [← hrooted]
      decide +kernel
    rw [htext, stackFrom_textOf (hq.kept true)] at hstack
    exact ⟨rfl, (List.cons.inj hstack).2.symm⟩
  · rintro ⟨rfl, rfl⟩
    exact htext.symm

/-- **When key files come back.**  For every directory `keyfiles` of a root, every
    tree in it and every empty directory, looked up from any working directory:
    what is packed without an error comes back exactly, unless it is files of
    `/keyfiles`. -/
theorem genTarGz_comesBack_iff {faults : PackFaults} {entries : List (Element × KeyTree)}
    (htree : WellNamed (.dir entries)) (root : List UInt8) {tarWriter : TarWriter}
    (hpacked : genTarGz faults (join [root, keyfiles]) (.dir entries) = .ok tarWriter)
    {cwd : FilePath} (hcwd : Proper cwd) (destPath : List UInt8) {d : Disk}
    (hempty : IsEmptyDir d (lookup cwd destPath)) :
    ComesBack (.dir entries) tarWriter d (lookup cwd destPath) ↔
      join [root, keyfiles] ≠ bytes "/keyfiles" ∨ files (.dir entries) = [] := by
  have hkept := kept_stackFrom (isRooted root) root
  rw [join_keyfiles] at hpacked
  rw [join_keyfiles, ne_eq, textOf_eq_keyfiles_iff hkept, ComesBack,
    archiveOf_genTarGz htree hkept hpacked]
  obtain ⟨d', hunpacked, hfiles⟩ := unTarGz_filesBelow htree
    (properElement_packedTop (isRooted root) (stackFrom (isRooted root) root))
    (proper_lookup hcwd destPath) hempty
  rw [hunpacked]
  by_cases htop : isRooted root = true ∧ stackFrom (isRooted root) root = []
  · rw [packedTop, if_pos htop] at hfiles
    rw [or_iff_right (not_not.mpr htop)]
    constructor
    · rintro ⟨-, hback⟩
      refine List.eq_nil_iff_forall_not_mem.mpr fun f hf => ?_
      -- a file that is to be below `keyfiles` is not there
      rcases (hfiles _ _).mp ((hback _ f.2.data).mpr (Or.inr ⟨f, hf, rfl, rfl⟩)) with
        hold | ⟨g, -, hplace, -⟩
      · have hnone := hempty.empty (f.1 ++ [keyfiles]) (by simp)
        rw [List.append_assoc, List.singleton_append, hold] at hnone
        cases hnone
      · have hends : f.1 ++ [keyfiles] <:+ g.1 ++ [bytes "eyfiles"] := by
          rw [List.append_cons f.1, List.append_cons g.1] at hplace
          exact List.append_cancel_right hplace ▸ List.suffix_rfl
        exact absurd (concat_suffix_iff.mp hends).2 (by decide +kernel)
    · intro hnil
      refine ⟨rfl, fun q data => ?_⟩
      rw [hfiles, hnil]
      simp
  · rw [packedTop, if_neg htop] at hfiles
    exact iff_of_true ⟨rfl, hfiles⟩ (Or.inl htop)

/-! ## One connection profile -/

/-- Nothing fails. -/
def noFaults : PackFaults :=
  ⟨none, fun _ => none, fun _ => none, fun _ => none, fun _ => none, fun _ => none, fun _ => none⟩

/-- A directory with one file, two levels down. -/
def oneProfile : List (Element × KeyTree) :=
  [(bytes "Org1", .dir [(bytes "connection.yml", .file ⟨0o644, bytes "name: net1"⟩)])]

theorem wellNamed_oneProfile : WellNamed (.dir oneProfile) :=
  ⟨by decide +kernel, by simp, ⟨by decide +kernel, by simp, trivial, trivial⟩, trivial⟩

/-- The archive of the profile below a root. -/
def packedProfile (root : List UInt8) : TarWriter :=
  match genTarGz noFaults (join [root, keyfiles]) (.dir oneProfile) with
  | .ok tarWriter => tarWriter
  | .error _ => []

theorem genTarGz_oneProfile {root : List UInt8}
    (h : (genTarGz noFaults (join [root, keyfiles]) (.dir oneProfile)).isOk = true) :
    genTarGz noFaults (join [root, keyfiles]) (.dir oneProfile) = .ok (packedProfile root) := by
  unfold packedProfile
  split
  · next hok => exact hok
  · next herr =>
      rw [herr] at h
      cases h

/-- A file tree with nothing in it. -/
def bareDisk : Disk := ⟨FileTree.bare _ _, []⟩

theorem isEmptyDir_bareDisk : IsEmptyDir bareDisk [] where
  isDir := rfl
  empty q hq := by
    obtain ⟨e, p, rfl⟩ := List.exists_cons_of_ne_nil hq
    rfl

/-- A profile below the working directory. -/
theorem genTarGz_comesBack_iff_relative :
    ComesBack (.dir oneProfile) (packedProfile dot) bareDisk (lookup [] dot) :=
  (genTarGz_comesBack_iff wellNamed_oneProfile dot (genTarGz_oneProfile (by decide +kernel))
    proper_nil dot isEmptyDir_bareDisk).mpr (Or.inl (by decide +kernel))

/-- A profile below the root: its name loses a byte. -/
theorem keyfiles_of_root_renamed :
    genTarGz noFaults (join [bytes "/", keyfiles]) (.dir oneProfile) =
        .ok (packedProfile (bytes "/")) ∧
      (packedProfile (bytes "/")).map (fun entry => entry.1.name) =
        [bytes "eyfiles/Org1/connection.yml"] ∧
      IsEmptyDir bareDisk [] ∧
      ¬ ComesBack (.dir oneProfile) (packedProfile (bytes "/")) bareDisk [] := by
  refine ⟨genTarGz_oneProfile (by decide +kernel), by decide +kernel, isEmptyDir_bareDisk,
    fun h => ?_⟩
  have hback := (h.2 [bytes "connection.yml", bytes "Org1", keyfiles] (bytes "name: net1")).mpr
    (Or.inr ⟨_, List.mem_cons_self, rfl, rfl⟩)
  exact absurd hback (by decide +kernel)

end Hfrd.Api
