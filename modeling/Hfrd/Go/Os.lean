/-
  Hfrd.Go.Os

  Go's `os.MkdirAll` and `os.Create` over a file tree without symbolic links.

  The kernel may refuse any path for a reason of its own (permissions, quotas,
  names that are too long); what it refuses is given.  Every directory that is
  made and every file that is made or cut to nothing is noted in `touched`.
-/

import Hfrd.Go.Filepath
import Hfrd.Lib.FileTree

namespace Hfrd.Go.Os

open Hfrd.Lib Filepath

/-- `syscall.Errno`, as far as it is looked at; the other errors have a text. -/
inductive Errno
  | ENOENT
  | EEXIST
  | ENOTDIR
  | EISDIR
  | refused (text : String)
deriving DecidableEq

/-- `os.PathError` -/
structure PathError where
  op : String
  path : FilePath
  err : Errno
deriving DecidableEq

/-- What the kernel refuses of what it could do at a path. -/
abbrev Refusals := FilePath → Option String

/-- The files, and which of them have been written. -/
structure Disk where
  tree : FileTree Element (List UInt8)
  /-- Ghost: the paths that have been created or overwritten. -/
  touched : List FilePath

/-- Put a node at a path, and note it. -/
def Disk.touch (d : Disk) (e : Element) (p : FilePath) (n : FileNode (List UInt8)) : Disk where
  tree := d.tree.put e p n
  touched := d.touched ++ [e :: p]

/-- The error of a lookup below what is no directory. -/
def lookupErr (d : Disk) (p : FilePath) : Errno :=
  if d.tree.node p = none then .ENOENT else .ENOTDIR

/-- Put a node at a path, unless a directory is there, a file where `onFile`
    forbids it, or the kernel refuses. -/
def place (op : String) (onDir : Errno) (onFile : Option Errno) (n : FileNode (List UInt8))
    (refuses : Refusals) (d : Disk) : FilePath → Disk × Option PathError
  | [] => (d, some ⟨op, [], onDir⟩)
  | e :: p =>
      if ¬ d.tree.IsDir p then (d, some ⟨op, e :: p, lookupErr d p⟩)
      else match d.tree.node (e :: p), onFile with
        | some .dir, _ => (d, some ⟨op, e :: p, onDir⟩)
        | some (.file _), some err => (d, some ⟨op, e :: p, err⟩)
        | _, _ => match refuses (e :: p) with
          | some text => (d, some ⟨op, e :: p, .refused text⟩)
          | none => (d.touch e p n, none)

/-- `Mkdir`. -/
def mkdir : Refusals → Disk → FilePath → Disk × Option PathError :=
  place "mkdir" .EEXIST (some .EEXIST) .dir

/-- `Create`: a new file, or the old one cut to nothing. -/
def create : Refusals → Disk → FilePath → Disk × Option PathError :=
  place "open" .EISDIR none (.file [])

/-- `MkdirAll`. -/
def mkdirAll (refuses : Refusals) (d : Disk) : FilePath → Disk × Option PathError
  | [] => (d, none)
  | e :: p => match d.tree.node (e :: p) with
    | some .dir => (d, none)
    | some (.file _) => (d, some ⟨"mkdir", e :: p, .ENOTDIR⟩)
    -- first the parent
    | none => match mkdirAll refuses d p with
      | (d, some err) => (d, some err)
      | (d, none) => mkdir refuses d (e :: p)

/-- The bytes written to a file that has been created. -/
def write (d : Disk) (data : List UInt8) : FilePath → Disk
  | [] => d
  | e :: p => { d with tree := d.tree.put e p (.file data) }

/-! ## One call -/

/-- Going from `d` to `d'`, every change is noted. -/
structure Noted (d d' : Disk) : Prop where
  kept : d.touched ⊆ d'.touched
  same : ∀ q, q ∉ d'.touched → d'.tree.node q = d.tree.node q

theorem Noted.refl (d : Disk) : Noted d d := ⟨List.Subset.refl _, fun _ _ => rfl⟩

theorem Noted.trans {d d' d'' : Disk} (h : Noted d d') (h' : Noted d' d'') : Noted d d'' where
  kept := List.Subset.trans h.kept h'.kept
  same q hq := (h'.same q hq).trans (h.same q fun hmem => hq (h'.kept hmem))

theorem noted_touch (d : Disk) (e : Element) (p : FilePath) (n : FileNode (List UInt8)) :
    Noted d (d.touch e p n) where
  kept := List.subset_append_left _ _
  same _ hq := FileTree.node_put_ne fun heq =>
    hq (List.mem_append_right _ (List.mem_singleton.mpr heq))

/-- Writing to a file that has been created changes nothing else. -/
theorem noted_write {d : Disk} {p : FilePath} (hp : p ∈ d.touched) (data : List UInt8) :
    Noted d (write d data p) := by
  cases p with
  | nil => exact Noted.refl d
  | cons e p =>
      refine ⟨List.Subset.refl _, fun q hq => FileTree.node_put_ne ?_⟩
      rintro rfl
      exact hq hp

section Place

variable {op : String} {onDir : Errno} {onFile : Option Errno} {n : FileNode (List UInt8)}
  {refuses : Refusals} {d : Disk}

/-- The call touches its path, or leaves the disk as it is and fails. -/
theorem place_cases (p : FilePath) :
    (∃ e q, p = e :: q ∧ place op onDir onFile n refuses d p = (d.touch e q n, none)) ∨
      ∃ err, place op onDir onFile n refuses d p = (d, some err) := by
  cases p with
  | nil => exact .inr ⟨_, rfl⟩
  | cons e p =>
      simp only [place]
      split
      · exact .inr ⟨_, rfl⟩
      · split
        · exact .inr ⟨_, rfl⟩
        · exact .inr ⟨_, rfl⟩
        · split
          · exact .inr ⟨_, rfl⟩
          · exact .inl ⟨e, p, rfl, rfl⟩

theorem mem_touched_place {p q : FilePath}
    (h : q ∈ (place op onDir onFile n refuses d p).1.touched) : q ∈ d.touched ∨ q = p := by
  rcases place_cases p with ⟨e, r, rfl, hplace⟩ | ⟨err, hplace⟩
  · rw [hplace] at h
    rcases List.mem_append.mp h with h | h
    · exact .inl h
    · exact .inr (List.mem_singleton.mp h)
  · rw [hplace] at h
    exact .inl h

theorem noted_place (p : FilePath) : Noted d (place op onDir onFile n refuses d p).1 := by
  rcases place_cases p with ⟨e, q, rfl, hplace⟩ | ⟨err, hplace⟩
  · rw [hplace]
    exact noted_touch d e q n
  · rw [hplace]
    exact Noted.refl d

end Place

/-! ## `MkdirAll` -/

variable {refuses : Refusals} {d : Disk}

/-- The first missing directory of the path can be made. -/
def CanMake (refuses : Refusals) (t : FileTree Element (List UInt8)) (p : FilePath) : Prop :=
  t.node (t.frontier p) = none ∧ refuses (t.frontier p) = none

theorem mkdirAll_of_isDir {p : FilePath} (h : d.tree.IsDir p) :
    mkdirAll refuses d p = (d, none) := by
  cases p with
  | nil => rfl
  | cons e p =>
      have hnode : d.tree.node (e :: p) = some .dir := h
      simp only [mkdirAll, hnode]

theorem mkdirAll_of_none {e : Element} {p : FilePath} (h : d.tree.node (e :: p) = none) :
    mkdirAll refuses d (e :: p) = match mkdirAll refuses d p with
      | (d, some err) => (d, some err)
      | (d, none) => mkdir refuses d (e :: p) := by
  simp only [mkdirAll, h]

theorem mkdirAll_of_file {e : Element} {p : FilePath} {data : List UInt8}
    (h : d.tree.node (e :: p) = some (.file data)) :
    mkdirAll refuses d (e :: p) = (d, some ⟨"mkdir", e :: p, .ENOTDIR⟩) := by
  simp only [mkdirAll, h]

theorem noted_mkdirAll (p : FilePath) : Noted d (mkdirAll refuses d p).1 := by
  induction p with
  | nil => exact Noted.refl d
  | cons e p ih =>
      simp only [mkdirAll]
      split
      · exact Noted.refl d
      · exact Noted.refl d
      · split
        · next hparent =>
            rw [hparent] at ih
            exact ih
        · next hparent =>
            rw [hparent] at ih
            exact ih.trans (noted_place (e :: p))

/-- `MkdirAll` makes what is missing on the way to its path. -/
theorem mem_touched_mkdirAll {p q : FilePath} (h : q ∈ (mkdirAll refuses d p).1.touched) :
    q ∈ d.touched ∨ q <:+ p ∧ d.tree.node q = none := by
  induction p with
  | nil => exact .inl h
  | cons e p ih =>
      cases hnode : d.tree.node (e :: p) with
      | none =>
          have hup : q <:+ p ∧ d.tree.node q = none → q <:+ e :: p ∧ d.tree.node q = none :=
            fun hq => ⟨hq.1.trans (List.suffix_cons e p), hq.2⟩
          rw [mkdirAll_of_none hnode] at h
          cases hparent : mkdirAll refuses d p with
          | mk d' err =>
              rw [hparent] at h ih
              cases err with
              | some err => exact (ih h).imp_right hup
              | none =>
                  rcases mem_touched_place h with h | rfl
                  · exact (ih h).imp_right hup
                  · exact .inr ⟨List.suffix_rfl, hnode⟩
      | some node =>
          cases node with
          | dir =>
              rw [mkdirAll_of_isDir hnode] at h
              exact .inl h
          | file data =>
              rw [mkdirAll_of_file hnode] at h
              exact .inl h

/-- With a directory to put it in, the first missing directory is made unless
    the kernel refuses. -/
theorem mkdir_of_isDir {e : Element} {p : FilePath} (hp : d.tree.IsDir p)
    (hnode : d.tree.node (e :: p) = none) :
    mkdir refuses d (e :: p) = match refuses (e :: p) with
      | some text => (d, some ⟨"mkdir", e :: p, .refused text⟩)
      | none => (d.touch e p .dir, none) := by
  simp only [mkdir, place, hnode, hp, not_true_eq_false, if_false]

/-- Where the first element that is no directory cannot be made, nothing is. -/
theorem mkdirAll_blocked {p : FilePath} (h : ¬ d.tree.IsDir p)
    (hmake : ¬ CanMake refuses d.tree p) : ∃ err, mkdirAll refuses d p = (d, some err) := by
  induction p with
  | nil => exact absurd d.tree.root h
  | cons e p ih =>
      cases hnode : d.tree.node (e :: p) with
      | none =>
          rw [mkdirAll_of_none hnode]
          by_cases hp : d.tree.IsDir p
          · rw [mkdirAll_of_isDir hp]
            simp only [CanMake, FileTree.frontier_of_isDir e hp, hnode, true_and] at hmake
            simp only [mkdir_of_isDir hp hnode]
            cases hrefuses : refuses (e :: p) with
            | none => exact absurd hrefuses hmake
            | some text => exact ⟨_, rfl⟩
          · simp only [CanMake, FileTree.frontier_of_not_isDir e hp] at hmake
            obtain ⟨err, hparent⟩ := ih hp hmake
            rw [hparent]
            exact ⟨err, rfl⟩
      | some node =>
          cases node with
          | dir => exact absurd hnode h
          | file data => exact ⟨_, mkdirAll_of_file hnode⟩

/-- Where it can be made, it is. -/
theorem frontier_mem_touched {p : FilePath} (h : ¬ d.tree.IsDir p)
    (hmake : CanMake refuses d.tree p) :
    d.tree.frontier p ∈ (mkdirAll refuses d p).1.touched := by
  induction p with
  | nil => exact absurd d.tree.root h
  | cons e p ih =>
      by_cases hp : d.tree.IsDir p
      · simp only [CanMake, FileTree.frontier_of_isDir e hp] at hmake
        rw [FileTree.frontier_of_isDir e hp, mkdirAll_of_none hmake.1, mkdirAll_of_isDir hp]
        simp only [mkdir_of_isDir hp hmake.1, hmake.2]
        exact List.mem_append_right _ (List.mem_singleton_self _)
      · have hnode : d.tree.node (e :: p) = none := by
          by_contra hsome
          exact hp (d.tree.parent e p hsome)
        simp only [CanMake, FileTree.frontier_of_not_isDir e hp] at hmake
        rw [FileTree.frontier_of_not_isDir e hp, mkdirAll_of_none hnode]
        have hmem := ih hp hmake
        cases hparent : mkdirAll refuses d p with
        | mk d' err =>
            rw [hparent] at hmem
            cases err with
            | some err => exact hmem
            | none => exact (noted_place (e :: p)).kept hmem

/-! ## `Create` -/

theorem create_of_isDir {e : Element} {p : FilePath} (hp : d.tree.IsDir p)
    (hnode : ¬ d.tree.IsDir (e :: p)) :
    create refuses d (e :: p) = match refuses (e :: p) with
      | some text => (d, some ⟨"open", e :: p, .refused text⟩)
      | none => (d.touch e p (.file []), none) := by
  cases hfile : d.tree.node (e :: p) with
  | none => simp only [create, place, hfile, hp, not_true_eq_false, if_false]
  | some node =>
      cases node with
      | dir => exact absurd hfile hnode
      | file data => simp only [create, place, hfile, hp, not_true_eq_false, if_false]

theorem mem_touched_of_create {p : FilePath} {d' : Disk}
    (h : create refuses d p = (d', none)) : p ∈ d'.touched := by
  rcases place_cases p with ⟨e, q, rfl, hplace⟩ | ⟨err, hplace⟩
  · rw [create, hplace] at h
    obtain rfl := (Prod.mk.inj h).1
    exact List.mem_append_right _ (List.mem_singleton_self _)
  · rw [create, hplace] at h
    cases (Prod.mk.inj h).2

/-- A directory is not opened for writing. -/
theorem create_of_dir {p : FilePath} (h : d.tree.IsDir p) :
    create refuses d p = (d, some ⟨"open", p, .EISDIR⟩) := by
  cases p with
  | nil => rfl
  | cons e p =>
      have hp : d.tree.IsDir p := h.of_suffix (List.suffix_cons e p)
      have hnode : d.tree.node (e :: p) = some .dir := h
      simp only [create, place, hnode, hp, not_true_eq_false, if_false]

/-! ## Where nothing is in the way -/

theorem not_cons_suffix (e : Element) (p : FilePath) : ¬ e :: p <:+ p := fun h => by
  have hlength := h.length_le
  rw [List.length_cons] at hlength
  omega

/-- Without a file on the way, all directories are made. -/
theorem mkdirAll_of_no_file {p : FilePath}
    (h : ∀ q, q <:+ p → ∀ data, d.tree.node q ≠ some (.file data)) :
    ∃ d', mkdirAll (fun _ => none) d p = (d', none) ∧
      ∀ q, d'.tree.node q = if q <:+ p then some .dir else d.tree.node q := by
  induction p with
  | nil =>
      refine ⟨d, rfl, fun q => ?_⟩
      split
      · next hq =>
          rw [List.suffix_nil.mp hq]
          exact d.tree.root
      · rfl
  | cons e p ih =>
      -- the directories above are made first
      obtain ⟨d', hmade, hnode⟩ := ih fun q hq => h q (hq.trans (List.suffix_cons e p))
      cases hold : d.tree.node (e :: p) with
      | some node =>
          cases node with
          | file data => exact absurd hold (h _ List.suffix_rfl data)
          | dir =>
              -- what is above a directory is a directory already
              refine ⟨d, mkdirAll_of_isDir hold, fun q => ?_⟩
              split
              · next hq => exact FileTree.IsDir.of_suffix hold hq
              · rfl
      | none =>
          have hp : d'.tree.IsDir p := (hnode p).trans (if_pos List.suffix_rfl)
          have hnone : d'.tree.node (e :: p) = none := by
            rw [hnode, if_neg (not_cons_suffix e p), hold]
          refine ⟨d'.touch e p .dir, ?_, fun q => ?_⟩
          · rw [mkdirAll_of_none hold, hmade]
            exact mkdir_of_isDir hp hnone
          · by_cases hq : q = e :: p
            · rw [hq, if_pos List.suffix_rfl]
              exact FileTree.node_put_self ⟨hp, FileTree.not_isDir_of_none hnone⟩
            · have hsuffix : q <:+ e :: p ↔ q <:+ p :=
                List.suffix_cons_iff.trans (or_iff_right hq)
              rw [Disk.touch, FileTree.node_put_ne hq, hnode]
              simp only [hsuffix]

end Hfrd.Go.Os
