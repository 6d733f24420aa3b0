/-
  Hfrd.Lib.Ledger

  Key-value states that transactions are simulated on.

  A transaction reads the state it is simulated on and collects its writes; it
  does not see them.  The writes take effect together, and only if the
  transaction does not fail.  A state is the list of its entries in the order
  of the keys, which is the order of a range query.
-/

import Hfrd.Lib.Lts
import Mathlib.Data.List.Sort

namespace Hfrd.Lib

/-- The entries in the order of their keys, each key once. -/
structure Ledger (κ ν : Type) [LinearOrder κ] where
  entries : List (κ × ν)
  sorted : (entries.map Prod.fst).Pairwise (· < ·)

/-- A key and what is put under it; `none` deletes the key. -/
abbrev Write (κ ν : Type) := κ × Option ν

namespace Ledger

variable {κ ν : Type} [LinearOrder κ]

/-- The state without entries. -/
def empty (κ ν : Type) [LinearOrder κ] : Ledger κ ν := ⟨[], List.Pairwise.nil⟩

/-- The value under a key in a list of entries. -/
def getEntry (k : κ) (entries : List (κ × ν)) : Option ν :=
  (entries.find? fun e => e.1 = k).map Prod.snd

/-- The value under a key. -/
def get (s : Ledger κ ν) (k : κ) : Option ν := getEntry k s.entries

/-! ## Writing -/

/-- Puts an entry in its place. -/
def putEntry (k : κ) (v : ν) : List (κ × ν) → List (κ × ν)
  | [] => [(k, v)]
  | e :: entries =>
      if k < e.1 then (k, v) :: e :: entries
      else if e.1 = k then (k, v) :: entries
      else e :: putEntry k v entries

/-- Takes the entry of a key away. -/
def delEntry (k : κ) (entries : List (κ × ν)) : List (κ × ν) :=
  entries.filter fun e => e.1 ≠ k

theorem mem_putEntry {k : κ} {v : ν} {entries : List (κ × ν)} {e : κ × ν}
    (h : e ∈ putEntry k v entries) : e = (k, v) ∨ e ∈ entries := by
  induction entries with
  | nil => exact Or.inl (List.mem_singleton.mp h)
  | cons e' entries ih =>
      simp only [putEntry] at h
      split at h
      · exact List.mem_cons.mp h
      · split at h
        · exact (List.mem_cons.mp h).imp_right (List.mem_cons_of_mem e')
        · rcases List.mem_cons.mp h with rfl | h
          · exact Or.inr List.mem_cons_self
          · exact (ih h).imp_right (List.mem_cons_of_mem e')

theorem sorted_putEntry {k : κ} (v : ν) {entries : List (κ × ν)}
    (h : (entries.map Prod.fst).Pairwise (· < ·)) :
    ((putEntry k v entries).map Prod.fst).Pairwise (· < ·) := by
  induction entries with
  | nil => exact List.pairwise_singleton _ _
  | cons e entries ih =>
      rw [List.map_cons, List.pairwise_cons, List.forall_mem_map] at h
      simp only [putEntry]
      split
      · next hlt =>
          refine List.pairwise_cons.mpr ⟨?_, List.pairwise_cons.mpr ⟨?_, h.2⟩⟩
          · refine List.forall_mem_map.mpr fun f hf => ?_
            rcases List.mem_cons.mp hf with rfl | hf
            · exact hlt
            · exact lt_trans hlt (h.1 f hf)
          · exact List.forall_mem_map.mpr h.1
      · next hnlt =>
          split
          · next heq =>
              subst heq
              exact List.pairwise_cons.mpr ⟨List.forall_mem_map.mpr h.1, h.2⟩
          · next hne =>
              refine List.pairwise_cons.mpr ⟨List.forall_mem_map.mpr fun f hf => ?_, ih h.2⟩
              rcases mem_putEntry hf with rfl | hf
              · exact lt_of_le_of_ne (not_lt.mp hnlt) hne
              · exact h.1 f hf

theorem sorted_filter (p : κ × ν → Bool) {entries : List (κ × ν)}
    (h : (entries.map Prod.fst).Pairwise (· < ·)) :
    ((entries.filter p).map Prod.fst).Pairwise (· < ·) :=
  h.sublist (List.filter_sublist.map Prod.fst)

theorem sorted_delEntry (k : κ) {entries : List (κ × ν)}
    (h : (entries.map Prod.fst).Pairwise (· < ·)) :
    ((delEntry k entries).map Prod.fst).Pairwise (· < ·) := sorted_filter _ h

/-- The state after one write. -/
def write (s : Ledger κ ν) : Write κ ν → Ledger κ ν
  | (k, some v) => ⟨putEntry k v s.entries, sorted_putEntry v s.sorted⟩
  | (k, none) => ⟨delEntry k s.entries, sorted_delEntry k s.sorted⟩

/-- The writes one after the other. -/
def apply (s : Ledger κ ν) (writes : List (Write κ ν)) : Ledger κ ν := writes.foldl write s

/-! ## Reading what was written -/

theorem getEntry_cons (k : κ) (e : κ × ν) (entries : List (κ × ν)) :
    getEntry k (e :: entries) = if e.1 = k then some e.2 else getEntry k entries := by
  rw [getEntry, List.find?_cons]
  split <;> simp_all [getEntry]

theorem getEntry_putEntry {k : κ} (v : ν) {entries : List (κ × ν)}
    (h : (entries.map Prod.fst).Pairwise (· < ·)) (k' : κ) :
    getEntry k' (putEntry k v entries) = if k' = k then some v else getEntry k' entries := by
  induction entries with
  | nil =>
      rw [putEntry, getEntry_cons]
      simp only [eq_comm]
  | cons e entries ih =>
      rw [List.map_cons, List.pairwise_cons, List.forall_mem_map] at h
      simp only [putEntry]
      split
      · rw [getEntry_cons]
        simp only [eq_comm]
      · split
        · next heq =>
            rw [getEntry_cons, getEntry_cons, heq]
            by_cases hk : k' = k
            · rw [if_pos hk.symm, if_pos hk]
            · rw [if_neg (Ne.symm hk), if_neg hk, if_neg (Ne.symm hk)]
        · next hne =>
            rw [getEntry_cons, getEntry_cons, ih h.2]
            by_cases hk : e.1 = k'
            · rw [if_pos hk, if_pos hk, if_neg (hk ▸ hne)]
            · rw [if_neg hk, if_neg hk]

theorem getEntry_delEntry (k : κ) (entries : List (κ × ν)) (k' : κ) :
    getEntry k' (delEntry k entries) = if k' = k then none else getEntry k' entries := by
  induction entries with
  | nil =>
      split
      · rfl
      · rfl
  | cons e entries ih =>
      rw [delEntry, List.filter_cons]
      by_cases he : e.1 = k
      · rw [if_neg (by simpa using he)]
        rw [delEntry] at ih
        rw [ih, getEntry_cons, he]
        by_cases hk : k' = k
        · rw [if_pos hk, if_pos hk]
        · rw [if_neg hk, if_neg hk, if_neg (Ne.symm hk)]
      · rw [if_pos (by simpa using he), getEntry_cons, getEntry_cons]
        rw [delEntry] at ih
        rw [ih]
        by_cases hk : e.1 = k'
        · rw [if_pos hk, if_neg (hk ▸ he), if_pos hk]
        · rw [if_neg hk, if_neg hk]

@[simp] theorem get_empty (k : κ) : (empty κ ν).get k = none := rfl

/-- **A write changes what is under its key and nothing else.** -/
theorem get_write (s : Ledger κ ν) (k : κ) (v : Option ν) (k' : κ) :
    (s.write (k, v)).get k' = if k' = k then v else s.get k' := by
  cases v with
  | none => exact getEntry_delEntry k s.entries k'
  | some v => exact getEntry_putEntry v s.sorted k'

@[simp] theorem apply_nil (s : Ledger κ ν) : s.apply [] = s := rfl

@[simp] theorem apply_cons (s : Ledger κ ν) (w : Write κ ν) (ws : List (Write κ ν)) :
    s.apply (w :: ws) = (s.write w).apply ws := rfl

theorem apply_append (s : Ledger κ ν) (ws ws' : List (Write κ ν)) :
    s.apply (ws ++ ws') = (s.apply ws).apply ws' := List.foldl_append

/-- Under a key that is not written nothing changes. -/
theorem get_apply_of_not_mem {s : Ledger κ ν} {ws : List (Write κ ν)} {k : κ}
    (h : ∀ w ∈ ws, w.1 ≠ k) : (s.apply ws).get k = s.get k := by
  induction ws generalizing s with
  | nil => rfl
  | cons w ws ih =>
      obtain ⟨k', v⟩ := w
      rw [apply_cons, ih fun w hw => h w (List.mem_cons_of_mem _ hw), get_write,
        if_neg (Ne.symm (h _ List.mem_cons_self))]

/-- What all writes under a key agree on is there afterwards. -/
theorem get_apply_of_mem {s : Ledger κ ν} {ws : List (Write κ ν)} {k : κ} {v : Option ν}
    (h : (k, v) ∈ ws) (hall : ∀ w ∈ ws, w.1 = k → w.2 = v) : (s.apply ws).get k = v := by
  induction ws generalizing s with
  | nil => cases h
  | cons w ws ih =>
      by_cases hrest : (k, v) ∈ ws
      · exact ih hrest fun w hw => hall w (List.mem_cons_of_mem _ hw)
      · obtain rfl := (List.mem_cons.mp h).resolve_right hrest
        have hlast : ∀ w ∈ ws, w.1 ≠ k := fun w hw hk =>
          hrest ((Prod.ext hk (hall w (List.mem_cons_of_mem _ hw) hk) : w = (k, v)) ▸ hw)
        rw [apply_cons, get_apply_of_not_mem hlast, get_write, if_pos rfl]

/-! ## The entries -/

theorem getEntry_eq_some_iff {entries : List (κ × ν)}
    (h : (entries.map Prod.fst).Pairwise (· < ·)) {k : κ} {v : ν} :
    getEntry k entries = some v ↔ (k, v) ∈ entries := by
  induction entries with
  | nil => exact iff_of_false (Option.some_ne_none v ∘ Eq.symm) List.not_mem_nil
  | cons e entries ih =>
      rw [List.map_cons, List.pairwise_cons, List.forall_mem_map] at h
      rw [getEntry_cons, List.mem_cons]
      by_cases he : e.1 = k
      · rw [if_pos he, Option.some.injEq]
        constructor
        · rintro rfl
          exact Or.inl (by rw [← he])
        · rintro (heq | hmem)
          · rw [← heq]
          -- the key comes once
          · exact absurd (h.1 _ hmem) (by rw [he]; exact lt_irrefl k)
      · rw [if_neg he, ih h.2]
        exact (or_iff_right fun heq => he (by rw [← heq])).symm

theorem mem_entries_iff {s : Ledger κ ν} {k : κ} {v : ν} :
    (k, v) ∈ s.entries ↔ s.get k = some v := (getEntry_eq_some_iff s.sorted).symm

theorem nodup_keys (s : Ledger κ ν) : (s.entries.map Prod.fst).Nodup :=
  s.sorted.imp ne_of_lt

/-- The entries with the keys of a range, in order. -/
def select (s : Ledger κ ν) (p : κ → Bool) : List (κ × ν) := s.entries.filter fun e => p e.1

theorem mem_select_iff {s : Ledger κ ν} {p : κ → Bool} {k : κ} {v : ν} :
    (k, v) ∈ s.select p ↔ s.get k = some v ∧ p k = true := by
  rw [select, List.mem_filter, mem_entries_iff]

theorem nodup_select (s : Ledger κ ν) (p : κ → Bool) : ((s.select p).map Prod.fst).Nodup :=
  s.nodup_keys.sublist (List.filter_sublist.map Prod.fst)

/-- The entries with the keys that stay. -/
def restrict (s : Ledger κ ν) (p : κ → Bool) : Ledger κ ν :=
  ⟨s.select p, sorted_filter (fun e => p e.1) s.sorted⟩

/-- **Under a key that stays nothing changes.** -/
theorem get_restrict (s : Ledger κ ν) (p : κ → Bool) (k : κ) :
    (s.restrict p).get k = if p k then s.get k else none := by
  refine Option.ext fun v => ?_
  rw [← mem_entries_iff, restrict, mem_select_iff]
  split
  · next h => exact and_iff_left h
  · next h => exact iff_of_false (fun hv => h hv.2) (Option.some_ne_none v ∘ Eq.symm)

/-! ## Transactions -/

variable {ε α ℓ : Type}

/-- What a simulated transaction does to the state: nothing if it fails. -/
def commit (s : Ledger κ ν) : Except ε (α × List (Write κ ν)) → Ledger κ ν
  | .ok (_, ws) => s.apply ws
  | .error _ => s

/-- One transaction after the other. -/
def lts (simulate : Ledger κ ν → ℓ → Except ε (α × List (Write κ ν))) : Lts (Ledger κ ν) ℓ where
  step s l := some (s.commit (simulate s l))

/-- The state after some transactions. -/
def after (simulate : Ledger κ ν → ℓ → Except ε (α × List (Write κ ν))) (s : Ledger κ ν)
    (ls : List ℓ) : Ledger κ ν :=
  ls.foldl (fun s l => s.commit (simulate s l)) s

variable {simulate : Ledger κ ν → ℓ → Except ε (α × List (Write κ ν))}

/-- No transaction stops a run. -/
theorem exec_lts (s : Ledger κ ν) (ls : List ℓ) :
    (lts simulate).exec s ls = some (after simulate s ls) := by
  induction ls generalizing s with
  | nil => rfl
  | cons l ls ih => exact ih _

/-- **What the writes of a transaction keep, its step keeps.** -/
theorem step_preserves {I : Ledger κ ν → Prop} {s t : Ledger κ ν} {l : ℓ} (hs : I s)
    (h : ∀ out, simulate s l = .ok out → I (s.apply out.2))
    (hstep : (lts simulate).step s l = some t) : I t := by
  obtain rfl : s.commit (simulate s l) = t := Option.some.inj hstep
  cases hsim : simulate s l with
  | error e => exact hs
  | ok out => exact h out hsim

end Ledger

end Hfrd.Lib
