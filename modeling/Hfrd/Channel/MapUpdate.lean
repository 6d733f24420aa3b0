/-
  Hfrd.Channel.MapUpdate

  What the two loops over a map of members compute, key by key, and what
  follows for any relation between members that the comparison decides.
-/

import Hfrd.Channel.ConfigTree

namespace Hfrd.Channel

open Hfrd.Go

/-! ## What the loops over a map compute -/

section Members

variable {α : Type} {compare : α → α → Change α} {added : α → α} {original updated : Map α}

/-- What the three sets hold at a key. -/
def MapUpdate.at (acc : MapUpdate α) (key : String) : Option α × Option α × Option α :=
  (acc.readSet.get? key, acc.writeSet.get? key, acc.sameSet.get? key)

/-- What a change leaves in the three sets, over what they held. -/
def Change.over (sets : Option α × Option α × Option α) :
    Change α → Option α × Option α × Option α
  | .same item => (sets.1, sets.2.1, some item)
  | .modified read write => (read.or sets.1, some write, sets.2.2)

theorem originalStep_at (acc : MapUpdate α) (key : String) (value : α) (key' : String) :
    (originalStep compare updated acc (key, value)).at key' =
      if key' = key then
        (updated.get? key).elim (acc.at key') fun item => (compare value item).over (acc.at key')
      else acc.at key' := by
  unfold originalStep MapUpdate.at
  cases updated.get? key with
  | none => exact (ite_self _).symm
  | some item =>
      dsimp only [Option.elim]
      cases compare value item with
      | same same => by_cases h : key' = key <;> simp [Change.over, Map.get?_insert, h]
      | modified read write =>
          cases read <;> by_cases h : key' = key <;> simp [Change.over, Map.get?_insert, h]

theorem updatedStep_at (acc : MapUpdate α) (key : String) (value : α) (key' : String) :
    (updatedStep added original acc (key, value)).at key' =
      if key' = key then
        (original.get? key).elim ((acc.at key').1, some (added value), (acc.at key').2.2)
          fun _ => acc.at key'
      else acc.at key' := by
  unfold updatedStep MapUpdate.at
  cases original.get? key with
  | none => by_cases h : key' = key <;> simp [Map.get?_insert, h]
  | some item => simp

/-- The three sets at a key, from the two members there. -/
theorem MapUpdate.at_eq {U : MapUpdate α}
    (hU : U = computeMapUpdate compare added original updated) (key : String) :
    U.at key =
      match original.get? key, updated.get? key with
      | some o, some u => (compare o u).over (none, none, none)
      | none, some u => (none, some (added u), none)
      | _, none => (none, none, none) := by
  -- each loop touches a key once, whatever the order of the range
  have hupdated := Map.foldl_range (fun (acc : MapUpdate α) key => acc.at key)
    (updatedStep added original)
    (fun key value sets =>
      (original.get? key).elim (sets.1, some (added value), sets.2.2) fun _ => sets)
    updatedStep_at updated
  have horiginal := Map.foldl_range (fun (acc : MapUpdate α) key => acc.at key)
    (originalStep compare updated)
    (fun key value sets =>
      (updated.get? key).elim sets fun item => (compare value item).over sets)
    originalStep_at original
  rw [hU, computeMapUpdate, hupdated, horiginal]
  cases original.get? key <;> cases updated.get? key <;> rfl

/-- The flag says that some key is in one of the maps only. -/
theorem MapUpdate.updatedMembers_iff {U : MapUpdate α}
    (hU : U = computeMapUpdate compare added original updated) :
    U.updatedMembers = true ↔
      ∃ key, (original.get? key).isSome ≠ (updated.get? key).isSome := by
  rw [hU, computeMapUpdate, Map.foldl_range_flag (fun (acc : MapUpdate α) => acc.updatedMembers)
      (updatedStep added original) (fun key _ => !(original.get? key).isSome),
    Map.foldl_range_flag (fun (acc : MapUpdate α) => acc.updatedMembers)
      (originalStep compare updated) (fun key _ => !(updated.get? key).isSome)]
  -- the first loop finds what was removed, the second what was added
  · constructor
    · rintro ((h | ⟨key, value, hget, hnone⟩) | ⟨key, value, hget, hnone⟩)
      · cases h
      · exact ⟨key, by simpa [hget] using hnone⟩
      · exact ⟨key, by simpa [hget] using hnone⟩
    · rintro ⟨key, hne⟩
      cases horiginal : original.get? key with
      | some value =>
          exact Or.inl (Or.inr ⟨key, value, horiginal, by simpa [horiginal] using hne⟩)
      | none =>
          obtain ⟨value, hupdated⟩ : ∃ value, updated.get? key = some value :=
            Option.ne_none_iff_exists'.mp (by simpa [horiginal] using hne)
          exact Or.inr ⟨key, value, hupdated, by simp [horiginal]⟩
  -- neither loop sets the flag elsewhere
  · intro acc key value
    unfold originalStep
    cases updated.get? key with
    | none => simp
    | some item =>
        dsimp only
        cases compare value item with
        | same => simp
        | modified read => cases read <;> simp
  · intro acc key value
    unfold updatedStep
    cases original.get? key <;> simp

/-- The two members at a key, the entries of the read, write and same set
    there, and the membership flag. -/
inductive MemberCase (compare : α → α → Change α) (added : α → α) :
    Option α → Option α → Option α → Option α → Option α → Bool → Prop
  | absent {flag : Bool} : MemberCase compare added none none none none none flag
  | removed (o : α) : MemberCase compare added (some o) none none none none true
  | added (u : α) :
      MemberCase compare added none (some u) none (some (added u)) none true
  | same {flag : Bool} (o u same : α) (h : compare o u = .same same) :
      MemberCase compare added (some o) (some u) none none (some same) flag
  | modified {flag : Bool} (o u : α) (read : Option α) (write : α)
      (h : compare o u = .modified read write) :
      MemberCase compare added (some o) (some u) read (some write) none flag

theorem MapUpdate.member {U : MapUpdate α}
    (hU : U = computeMapUpdate compare added original updated) (key : String) :
    MemberCase compare added (original.get? key) (updated.get? key) (U.readSet.get? key)
      (U.writeSet.get? key) (U.sameSet.get? key) U.updatedMembers := by
  have hat := MapUpdate.at_eq hU key
  have hflag := MapUpdate.updatedMembers_iff hU
  -- in which of the maps the member is, and what the comparison says
  cases ho : original.get? key with
  | none =>
      cases hu : updated.get? key with
      | none =>
          simp only [ho, hu, MapUpdate.at, Prod.mk.injEq] at hat
          simp only [hat]
          exact .absent
      | some u =>
          simp only [ho, hu, MapUpdate.at, Prod.mk.injEq] at hat
          simp only [hat, hflag.mpr ⟨key, by simp [ho, hu]⟩]
          exact .added u
  | some o =>
      cases hu : updated.get? key with
      | none =>
          simp only [ho, hu, MapUpdate.at, Prod.mk.injEq] at hat
          simp only [hat, hflag.mpr ⟨key, by simp [ho, hu]⟩]
          exact .removed o
      | some u =>
          cases hc : compare o u with
          | same same =>
              simp only [ho, hu, hc, MapUpdate.at, Change.over, Prod.mk.injEq] at hat
              simp only [hat]
              exact .same o u same hc
          | modified read write =>
              simp only [ho, hu, hc, MapUpdate.at, Change.over, Option.or_none,
                Prod.mk.injEq] at hat
              simp only [hat]
              exact .modified o u read write hc

/-! ## Rules for one kind of members -/

/-- No difference is found in a kind of members exactly when they are related
    at every key, for a relation that `compare` decides. -/
theorem MapUpdate.unchanged_iff {R : α → α → Prop} {U : MapUpdate α}
    (hU : U = computeMapUpdate compare added original updated)
    (hcompare : ∀ key o u, original.get? key = some o → updated.get? key = some u →
      ((∃ same, compare o u = .same same) ↔ R o u)) :
    (U.updatedMembers = false ∧ U.readSet.len = 0 ∧ U.writeSet.len = 0) ↔
      ∀ key, Option.Rel R (original.get? key) (updated.get? key) := by
  simp only [Map.len_eq_zero_iff]
  constructor
  · -- an entry of the same set is the only case left by an empty write set
    rintro ⟨hflag, -, hwrite⟩ key
    have h := U.member hU key
    have hc := hcompare key
    rw [hwrite key, hflag] at h
    generalize original.get? key = o? at h hc ⊢
    generalize updated.get? key = u? at h hc ⊢
    generalize U.readSet.get? key = r? at h
    generalize U.sameSet.get? key = s? at h
    cases h with
    | absent => exact .none
    | same o u same hsame => exact .some ((hc o u rfl rfl).mp ⟨same, hsame⟩)
  · intro hrel
    have hnone : ∀ key, U.readSet.get? key = none ∧ U.writeSet.get? key = none := by
      intro key
      have h := U.member hU key
      have hc := hcompare key
      have hr := hrel key
      generalize original.get? key = o? at h hc hr
      generalize updated.get? key = u? at h hc hr
      generalize U.readSet.get? key = r? at h ⊢
      generalize U.writeSet.get? key = w? at h ⊢
      generalize U.sameSet.get? key = s? at h
      generalize U.updatedMembers = flag at h
      cases h with
      | absent => exact ⟨rfl, rfl⟩
      | removed o => cases hr
      | added u => cases hr
      | same o u same hsame => exact ⟨rfl, rfl⟩
      | modified o u read write hmodified =>
          cases hr with
          | some hr =>
              obtain ⟨same, hsame⟩ := (hc o u rfl rfl).mpr hr
              rw [hmodified] at hsame
              cases hsame
    refine ⟨?_, fun key => (hnone key).1, fun key => (hnone key).2⟩
    rw [← Bool.not_eq_true, MapUpdate.updatedMembers_iff hU]
    rintro ⟨key, hne⟩
    have hr := hrel key
    generalize original.get? key = o? at hne hr
    generalize updated.get? key = u? at hne hr
    cases hr <;> exact hne rfl

/-- Where the membership is the same, the written members laid over the
    original ones are related to the updated ones. -/
theorem MapUpdate.overlay_rel {R : α → α → Prop} {apply : α → α → α} {U : MapUpdate α}
    (hU : U = computeMapUpdate compare added original updated)
    (hsame : ∀ key o u same, original.get? key = some o → updated.get? key = some u →
      compare o u = .same same → R o u)
    (hmodified : ∀ key o u read write, original.get? key = some o →
      updated.get? key = some u → compare o u = .modified read write → R (apply o write) u)
    (hmembers : U.updatedMembers = false) (key : String) :
    Option.Rel R ((original.overlay (applyMembers apply original U.writeSet)).get? key)
      (updated.get? key) := by
  have h := U.member hU key
  have hs := hsame key
  have hm := hmodified key
  rw [hmembers] at h
  rw [Map.get?_overlay, applyMembers, Map.get?_map]
  generalize original.get? key = o? at h hs hm ⊢
  generalize updated.get? key = u? at h hs hm ⊢
  generalize U.readSet.get? key = r? at h
  generalize U.writeSet.get? key = w? at h ⊢
  generalize U.sameSet.get? key = s? at h
  cases h with
  | absent => exact .none
  | same o u same hc => exact .some (hs o u same rfl rfl hc)
  | modified o u _ write hc => exact .some (hm o u _ write rfl rfl hc)

/-- The written members and those that are the same are related to the
    updated ones. -/
theorem MapUpdate.written_rel {R : α → α → Prop} {apply : α → α → α} {U : MapUpdate α}
    (hU : U = computeMapUpdate compare added original updated)
    (hsame : ∀ key o u same, original.get? key = some o → updated.get? key = some u →
      compare o u = .same same → R (apply o same) u)
    (hmodified : ∀ key o u read write, original.get? key = some o →
      updated.get? key = some u → compare o u = .modified read write → R (apply o write) u)
    (hadded : ∀ key u, updated.get? key = some u → R (added u) u) (key : String) :
    Option.Rel R ((applyMembers apply original (U.writeSet.insertAll U.sameSet)).get? key)
      (updated.get? key) := by
  have h := U.member hU key
  have hs := hsame key
  have hm := hmodified key
  have ha := hadded key
  rw [applyMembers, Map.get?_map, Map.get?_insertAll]
  generalize original.get? key = o? at h hs hm ⊢
  generalize updated.get? key = u? at h hs hm ha ⊢
  generalize U.readSet.get? key = r? at h
  generalize U.writeSet.get? key = w? at h ⊢
  generalize U.sameSet.get? key = s? at h ⊢
  generalize U.updatedMembers = flag at h
  cases h with
  | absent => exact .none
  | removed o => exact .none
  | added u => exact .some (ha u rfl)
  | same o u same hc => exact .some (hs o u same rfl rfl hc)
  | modified o u _ write hc => exact .some (hm o u _ write rfl rfl hc)

/-- A member of a new group is written as `added` makes it, and none is the
    same. -/
theorem MapUpdate.new_rel {R : α → α → Prop} {U : MapUpdate α}
    (hU : U = computeMapUpdate compare added {} updated)
    (hadded : ∀ key u, updated.get? key = some u → R (added u) u) (key : String) :
    Option.Rel R (U.writeSet.get? key) (updated.get? key) ∧ U.sameSet.get? key = none := by
  have h := U.member hU key
  have ha := hadded key
  rw [Map.get?_empty] at h
  generalize updated.get? key = u? at h ha ⊢
  generalize U.readSet.get? key = r? at h
  generalize U.writeSet.get? key = w? at h ⊢
  generalize U.sameSet.get? key = s? at h ⊢
  generalize U.updatedMembers = flag at h
  cases h with
  | absent => exact ⟨.none, rfl⟩
  | added u => exact ⟨.some (ha u rfl), rfl⟩

/-- What is read at a key comes from a member that is in both maps. -/
theorem MapUpdate.read_spec {U : MapUpdate α}
    (hU : U = computeMapUpdate compare added original updated) {key : String} {r : α}
    (hread : U.readSet.get? key = some r ∨ U.sameSet.get? key = some r) :
    ∃ o u, original.get? key = some o ∧
      (compare o u = .same r ∨ ∃ write, compare o u = .modified (some r) write) := by
  have h := U.member hU key
  generalize original.get? key = o? at h ⊢
  generalize updated.get? key = u? at h
  generalize U.readSet.get? key = r? at h hread
  generalize U.writeSet.get? key = w? at h
  generalize U.sameSet.get? key = s? at h hread
  generalize U.updatedMembers = flag at h
  cases h with
  | absent => rcases hread with h | h <;> cases h
  | removed o => rcases hread with h | h <;> cases h
  | added u => rcases hread with h | h <;> cases h
  | same o u same hc =>
      rcases hread with h | h <;> cases h
      exact ⟨o, u, rfl, Or.inl hc⟩
  | modified o u _ write hc =>
      rcases hread with h | h <;> cases h
      exact ⟨o, u, rfl, Or.inr ⟨write, hc⟩⟩

end Members

end Hfrd.Channel
