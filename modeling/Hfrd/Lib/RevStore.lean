/-
  Hfrd.Lib.RevStore

  A document store with optimistic locking, and the two-step "forced save" a
  client builds on it.

  A document carries its key and the revision it was last read at; `put` is
  accepted only if that revision is the one stored (0 for a new document), and
  stores the document under the next revision.  `Seen s d` is what a client
  may rely on once it holds a copy `d`: the stored revision can only have
  grown, and an accepted `put` of that revision replaces exactly `d`.

  A forced save (`forceStep`) puts a document and, on a conflict, reads the
  stored revision and puts the caller's document again: the second put
  overwrites whatever the conflicting writer stored.
-/

import Mathlib.Data.List.AList
import Mathlib.Data.List.Sort

namespace Hfrd.Lib

/-- A type of documents: each holds its key and a revision. -/
class RevDoc (K : outParam Type) (D : Type) where
  key : D → K
  rev : D → Nat
  withRev : D → Nat → D
  key_withRev : ∀ d r, key (withRev d r) = key d
  rev_withRev : ∀ d r, rev (withRev d r) = r

attribute [simp] RevDoc.key_withRev RevDoc.rev_withRev

/-- The revision is a field of its own: setting it twice is setting it once. -/
class LawfulRevDoc {K : outParam Type} (D : Type) [RevDoc K D] : Prop where
  withRev_withRev : ∀ (d : D) (r r' : Nat),
    RevDoc.withRev (RevDoc.withRev d r) r' = RevDoc.withRev d r'

/-- Stored documents by key.  A stored document sits under its own key, and
    its revision is at least 1. -/
structure RevStore (K D : Type) [DecidableEq K] [RevDoc K D] where
  docs : AList fun _ : K => D
  keyed : ∀ k d, docs.lookup k = some d → RevDoc.key d = k
  revised : ∀ k d, docs.lookup k = some d → 0 < RevDoc.rev d

namespace RevStore

open RevDoc

variable {K D : Type} [DecidableEq K] [RevDoc K D]

/-- The store without documents. -/
def empty : RevStore K D where
  docs := ∅
  keyed := fun k d h => by simp [AList.lookup_empty] at h
  revised := fun k d h => by simp [AList.lookup_empty] at h

/-- The document under a key. -/
def get (s : RevStore K D) (k : K) : Option D := s.docs.lookup k

/-- The stored revision, 0 where there is no document. -/
def currentRev (s : RevStore K D) (k : K) : Nat :=
  match s.get k with
  | some d => rev d
  | none => 0

/-- The store after `d` is written, whatever revision it carries. -/
def write (s : RevStore K D) (d : D) : RevStore K D where
  docs := s.docs.insert (key d) (withRev d (rev d + 1))
  keyed := by
    intro k e h
    by_cases hk : k = key d
    · subst hk
      rw [AList.lookup_insert] at h
      obtain rfl := Option.some.inj h
      exact key_withRev d _
    · rw [AList.lookup_insert_ne hk] at h
      exact s.keyed k e h
  revised := by
    intro k e h
    by_cases hk : k = key d
    · subst hk
      rw [AList.lookup_insert] at h
      obtain rfl := Option.some.inj h
      rw [rev_withRev]
      exact Nat.succ_pos _
    · rw [AList.lookup_insert_ne hk] at h
      exact s.revised k e h

/-- `Put`: `none` is the conflict. -/
def put (s : RevStore K D) (d : D) : Option (RevStore K D) :=
  if rev d = s.currentRev (key d) then some (s.write d) else none

/-- Every stored document. -/
def all (s : RevStore K D) : List D := s.docs.entries.map (·.2)

/-! ## Reading what was written -/

theorem get_empty (k : K) : (empty : RevStore K D).get k = none :=
  AList.lookup_empty k

theorem get_write_self (s : RevStore K D) (d : D) :
    (s.write d).get (key d) = some (withRev d (rev d + 1)) :=
  AList.lookup_insert s.docs

theorem get_write_ne (s : RevStore K D) {d : D} {k : K} (h : k ≠ key d) :
    (s.write d).get k = s.get k :=
  AList.lookup_insert_ne h

/-- A document found after a write is the one written or was there before. -/
theorem get_write_cases {s : RevStore K D} {d e : D} {k : K} (h : (s.write d).get k = some e) :
    (k = key d ∧ e = withRev d (rev d + 1)) ∨ (k ≠ key d ∧ s.get k = some e) := by
  by_cases hk : k = key d
  · subst hk
    rw [get_write_self] at h
    exact Or.inl ⟨rfl, (Option.some.inj h).symm⟩
  · rw [get_write_ne s hk] at h
    exact Or.inr ⟨hk, h⟩

/-- Documents are never removed. -/
theorem isSome_get_write {s : RevStore K D} {d : D} {k : K} (h : (s.get k).isSome) :
    ((s.write d).get k).isSome := by
  by_cases hk : k = key d
  · subst hk
    rw [get_write_self]
    rfl
  · rwa [get_write_ne s hk]

theorem put_eq_some {s t : RevStore K D} {d : D} :
    s.put d = some t ↔ rev d = s.currentRev (key d) ∧ t = s.write d := by
  unfold put
  split
  · next h => simp [h, eq_comm]
  · next h => simp [h]

theorem put_eq_none {s : RevStore K D} {d : D} :
    s.put d = none ↔ rev d ≠ s.currentRev (key d) := by
  unfold put
  split <;> simp_all

theorem key_of_get {s : RevStore K D} {k : K} {d : D} (h : s.get k = some d) : key d = k :=
  s.keyed k d h

theorem currentRev_of_get {s : RevStore K D} {k : K} {d : D} (h : s.get k = some d) :
    s.currentRev k = rev d := by
  simp only [currentRev, h]

/-- A conflict on a document without a revision means that one is stored. -/
theorem isSome_of_conflict {s : RevStore K D} {d : D} (h : s.put d = none) (hrev : rev d = 0) :
    (s.get (key d)).isSome := by
  rw [put_eq_none, hrev] at h
  cases hget : s.get (key d) with
  | some e => rfl
  | none => simp [currentRev, hget] at h

theorem mem_all {s : RevStore K D} {d : D} : d ∈ s.all ↔ s.get (key d) = some d := by
  constructor
  · intro h
    obtain ⟨⟨k, e⟩, hmem, rfl⟩ := List.mem_map.mp h
    have hget : s.get k = some e := AList.mem_lookup_iff.mpr hmem
    rw [key_of_get hget]
    exact hget
  · intro h
    exact List.mem_map.mpr ⟨⟨key d, d⟩, AList.mem_lookup_iff.mp h, rfl⟩

/-! ## Copies -/

/-- `d` was read from the store some time ago. -/
def Seen (s : RevStore K D) (d : D) : Prop :=
  ∃ e, s.get (key d) = some e ∧ rev d ≤ rev e ∧ (rev d = rev e → e = d)

theorem seen_of_get {s : RevStore K D} {k : K} {d : D} (h : s.get k = some d) : s.Seen d := by
  refine ⟨d, ?_, Nat.le_refl _, fun _ => rfl⟩
  rw [key_of_get h]
  exact h

/-- A copy stays a copy of the past when the store moves on. -/
theorem Seen.write {s : RevStore K D} {d : D} (h : s.Seen d) {e : D}
    (hrev : rev e = s.currentRev (key e)) : (s.write e).Seen d := by
  obtain ⟨c, hc, hle, heq⟩ := h
  by_cases hk : key d = key e
  · -- the new document has a higher revision than any copy read before
    refine ⟨withRev e (rev e + 1), ?_, ?_, ?_⟩
    · rw [hk]
      exact get_write_self s e
    · rw [← hk, currentRev_of_get hc] at hrev
      rw [rev_withRev]
      omega
    · intro h
      rw [← hk, currentRev_of_get hc] at hrev
      rw [rev_withRev] at h
      omega
  · exact ⟨c, by rw [get_write_ne s hk]; exact hc, hle, heq⟩

/-- A put that is accepted at the revision of a copy replaces that very copy. -/
theorem Seen.get_of_rev {s : RevStore K D} {d : D} (h : s.Seen d)
    (hrev : rev d = s.currentRev (key d)) : s.get (key d) = some d := by
  obtain ⟨e, he, _, heq⟩ := h
  rw [currentRev_of_get he] at hrev
  rw [he, heq hrev]

end RevStore

/-! ## Forced saves -/

/-- The request a forced save makes next. -/
inductive Stage
  | put
  /-- After a conflict: read the stored revision. -/
  | get
  | putAgain
deriving DecidableEq

open RevDoc RevStore

variable {K D : Type} [DecidableEq K] [RevDoc K D]

/-- One request of a forced save of `d`: the store after it, the caller's
    document (which takes over the revision read), and the next request or,
    when the save is over, the new revision.  `fault` is a request that fails
    for another reason than a conflict. -/
def forceStep (s : RevStore K D) (d : D) (fault : Bool) :
    Stage → RevStore K D × D × (Stage ⊕ Option Nat)
  | .put =>
      if fault then (s, d, .inr none)
      else match s.put d with
        | some t => (t, d, .inr (some (rev d + 1)))
        | none => (s, d, .inl .get)
  | .get =>
      if fault then (s, d, .inr none)
      else match s.get (key d) with
        -- only the revision is taken over: the rest of `d` is as stale as before
        | some e => (s, withRev d (rev e), .inl .putAgain)
        | none => (s, d, .inr none)
  | .putAgain =>
      if fault then (s, d, .inr none)
      else match s.put d with
        | some t => (t, d, .inr (some (rev d + 1)))
        | none => (s, d, .inr none)

/-- What one request of a forced save can do. -/
inductive ForceStep (s : RevStore K D) (d : D) (fault : Bool) :
    Stage → RevStore K D × D × (Stage ⊕ Option Nat) → Prop
  | saved (stage : Stage) : stage ≠ .get → fault = false → rev d = s.currentRev (key d) →
      ForceStep s d fault stage (s.write d, d, .inr (some (rev d + 1)))
  | conflict : fault = false → s.put d = none →
      ForceStep s d fault .put (s, d, .inl .get)
  | reread (e : D) : fault = false → s.get (key d) = some e →
      ForceStep s d fault .get (s, withRev d (rev e), .inl .putAgain)
  | failed (stage : Stage) : fault = true → ForceStep s d fault stage (s, d, .inr none)
  | missing : fault = false → s.get (key d) = none →
      ForceStep s d fault .get (s, d, .inr none)
  | conflictAgain : fault = false → s.put d = none →
      ForceStep s d fault .putAgain (s, d, .inr none)

/-- No request is the first one again. -/
theorem ForceStep.next_ne_put {s : RevStore K D} {d : D} {fault : Bool} {stage : Stage}
    {t : RevStore K D} {e : D} {next : Stage ⊕ Option Nat}
    (h : ForceStep s d fault stage (t, e, next)) : next ≠ .inl .put := by
  cases h <;> nofun

/-- Inversion of `forceStep`. -/
theorem forceStep_inv (s : RevStore K D) (d : D) (fault : Bool) (stage : Stage) :
    ForceStep s d fault stage (forceStep s d fault stage) := by
  cases fault with
  | true => cases stage <;> exact .failed _ rfl
  | false =>
      cases stage with
      | put =>
          simp only [forceStep, Bool.false_eq_true, if_false]
          split
          · next hput =>
              obtain ⟨hrev, rfl⟩ := put_eq_some.mp hput
              exact .saved .put (by decide) rfl hrev
          · exact .conflict rfl ‹_›
      | get =>
          simp only [forceStep, Bool.false_eq_true, if_false]
          split
          · exact .reread _ rfl ‹_›
          · exact .missing rfl ‹_›
      | putAgain =>
          simp only [forceStep, Bool.false_eq_true, if_false]
          split
          · next hput =>
              obtain ⟨hrev, rfl⟩ := put_eq_some.mp hput
              exact .saved .putAgain (by decide) rfl hrev
          · exact .conflictAgain rfl ‹_›

end Hfrd.Lib
