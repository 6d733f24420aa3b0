/-
  Hfrd.Lib.FileTree

  File trees: directories and files at paths, where whatever exists lies in a
  directory.

  A path is the list of its elements from the last one to the first: the root
  is `[]`, the parent of `e :: p` is `p`, and `r <:+ p` says that `r` is `p` or
  one of its ancestors.  `put` keeps what a tree is, so no operation that is
  built on it can leave a file without its directory.
-/

import Mathlib.Data.List.Basic

namespace Hfrd.Lib

/-- What stands at a path. -/
inductive FileNode (β : Type)
  | dir
  | file (data : β)
deriving DecidableEq

/-- A tree of files over paths with the last element first: what is not a path of
    the tree has no node, and all that has one stands in a directory. -/
structure FileTree (α β : Type) where
  node : List α → Option (FileNode β)
  root : node [] = some .dir
  parent : ∀ (e : α) (p : List α), node (e :: p) ≠ none → node p = some .dir

namespace FileTree

variable {α β : Type}

/-- Nothing but the root. -/
def bare (α β : Type) : FileTree α β where
  node
    | [] => some .dir
    | _ :: _ => none
  root := rfl
  parent _ _ h := absurd rfl h

/-- There is a directory at the path. -/
def IsDir (t : FileTree α β) (p : List α) : Prop := t.node p = some .dir

instance (t : FileTree α β) (p : List α) : Decidable (t.IsDir p) :=
  match h : t.node p with
  | some .dir => isTrue h
  | some (.file _) => isFalse fun hdir => by rw [IsDir, h] at hdir; cases hdir
  | none => isFalse fun hdir => by rw [IsDir, h] at hdir; cases hdir

theorem not_isDir_of_none {t : FileTree α β} {p : List α} (h : t.node p = none) :
    ¬ t.IsDir p := by
  rw [IsDir, h]
  exact Option.some_ne_none _ ∘ Eq.symm

/-- Above what exists there are only directories. -/
theorem isDir_of_suffix {t : FileTree α β} {r p : List α} (h : t.node p ≠ none) (hr : r <:+ p)
    (hne : r ≠ p) : t.IsDir r := by
  induction p with
  | nil => exact absurd (List.suffix_nil.mp hr) hne
  | cons e p ih =>
      have hp := t.parent e p h
      rcases List.suffix_cons_iff.mp hr with heq | hr
      · exact absurd heq hne
      · by_cases hrp : r = p
        · rw [hrp]
          exact hp
        · refine ih ?_ hr hrp
          rw [hp]
          exact Option.some_ne_none _

theorem IsDir.of_suffix {t : FileTree α β} {r p : List α} (h : t.IsDir p) (hr : r <:+ p) :
    t.IsDir r := by
  by_cases hne : r = p
  · rw [hne]
    exact h
  · refine isDir_of_suffix ?_ hr hne
    rw [h]
    exact Option.some_ne_none _

/-! ## Putting a node -/

variable [DecidableEq α]

/-- There is a directory to put `e` in, and no directory in its place. -/
def Room (t : FileTree α β) (e : α) (p : List α) : Prop := t.IsDir p ∧ ¬ t.IsDir (e :: p)

instance (t : FileTree α β) (e : α) (p : List α) : Decidable (t.Room e p) :=
  inferInstanceAs (Decidable (_ ∧ _))

/-- Put a node at `e :: p`, where there is room for it. -/
def put (t : FileTree α β) (e : α) (p : List α) (n : FileNode β) : FileTree α β :=
  if h : t.Room e p then
    { node := fun q => if q = e :: p then some n else t.node q
      root := by
        rw [if_neg (List.cons_ne_nil e p).symm]
        exact t.root
      parent := by
        intro f q hq
        -- nothing lies below a path without a directory
        have hbelow : q ≠ e :: p := by
          rintro rfl
          rw [if_neg (fun heq => List.cons_ne_self f _ heq)] at hq
          exact h.2 (t.parent f (e :: p) hq)
        rw [if_neg hbelow]
        by_cases heq : f :: q = e :: p
        · rw [(List.cons.inj heq).2]
          exact h.1
        · rw [if_neg heq] at hq
          exact t.parent f q hq }
  else t

variable {t : FileTree α β} {e : α} {p : List α} {n : FileNode β}

theorem node_put_ne {q : List α} (h : q ≠ e :: p) : (t.put e p n).node q = t.node q := by
  rw [put]
  split
  · exact if_neg h
  · rfl

theorem node_put_self (h : t.Room e p) : (t.put e p n).node (e :: p) = some n := by
  rw [put, dif_pos h]
  exact if_pos rfl

/-! ## The frontier of a path -/

omit [DecidableEq α]

/-- The first element of a path, from the root, that is no directory; the path
    itself where only directories lie above it. -/
def frontier (t : FileTree α β) : List α → List α
  | [] => []
  | e :: p => if t.IsDir p then e :: p else frontier t p

theorem frontier_of_isDir (e : α) (h : t.IsDir p) : t.frontier (e :: p) = e :: p := if_pos h

theorem frontier_of_not_isDir (e : α) (h : ¬ t.IsDir p) :
    t.frontier (e :: p) = t.frontier p :=
  if_neg h

theorem frontier_suffix (t : FileTree α β) (p : List α) : t.frontier p <:+ p := by
  induction p with
  | nil => exact List.suffix_rfl
  | cons e p ih =>
      rw [frontier]
      split
      · exact List.suffix_rfl
      · exact ih.trans (List.suffix_cons e p)

/-- The frontier of what is no directory is no directory either, and lies in one. -/
theorem frontier_spec (h : ¬ t.IsDir p) :
    ∃ e q, t.frontier p = e :: q ∧ t.IsDir q ∧ ¬ t.IsDir (e :: q) := by
  induction p with
  | nil => exact absurd t.root h
  | cons e p ih =>
      by_cases hp : t.IsDir p
      · exact ⟨e, p, frontier_of_isDir e hp, hp, h⟩
      · obtain ⟨f, q, hfrontier, hq⟩ := ih hp
        exact ⟨f, q, (frontier_of_not_isDir e hp).trans hfrontier, hq⟩

end FileTree

end Hfrd.Lib
