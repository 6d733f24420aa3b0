/-
  Hfrd.Api.MarkLoops

  What the loops of `saveJob` and `waitJob` save.

  Each loop decodes every row into one variable, sets the flags and saves the
  variable.  All fields are decoded afresh but one: the map `network`, into
  which the members of a row are added.  So a saved network is the row with
  its flags set if and only if no key is carried over into it, that is, every
  key of an earlier row, since the last row whose map is null, is a key of its
  own map.
-/

import Hfrd.Api.Routine

namespace Hfrd.Api

open Hfrd.Go Hfrd.Lib

/-- The loop over `rows`: the rows that are saved, each with what is saved. -/
def scanLoop (saves : Network → Bool) (mark : Network → Network) :
    Network → List Network → List (Network × Network)
  | _, [] => []
  | network, row :: rows =>
      let network := network.scanDoc row
      if saves network then (row, mark network) :: scanLoop saves mark (mark network) rows
      else scanLoop saves mark network rows

theorem scanLoop_cons (saves : Network → Bool) (mark : Network → Network)
    (network row : Network) (rows : List Network) :
    scanLoop saves mark network (row :: rows) =
      if saves (network.scanDoc row) then
        (row, mark (network.scanDoc row))
          :: scanLoop saves mark (mark (network.scanDoc row)) rows
      else scanLoop saves mark (network.scanDoc row) rows := rfl

/-- The loop of `saveJob`. -/
def saveJobLoop : Network → List Network → List (Network × Network) :=
  scanLoop (fun network => network.deleted == false) Network.markDeleting

/-- The loop of the DELETE branch of `waitJob`. -/
def waitJobLoop : Network → List Network → List (Network × Network) :=
  scanLoop (fun _ => true) Network.markDeleted

/-- What the goroutine in `saveJob` saves next is the next entry of the loop. -/
theorem saveJobLoop_eq (network : Network) (rows : List Network) :
    match scanMark network rows with
    | some (saved, rest) =>
        ∃ row, saveJobLoop network rows = (row, saved) :: saveJobLoop saved rest
    | none => saveJobLoop network rows = [] := by
  induction rows generalizing network with
  | nil => rfl
  | cons row rows ih =>
      rw [scanMark_cons]
      unfold saveJobLoop
      rw [scanLoop_cons]
      by_cases hdeleted : row.deleted = false
      · have hsaves : ((network.scanDoc row).deleted == false) = true := beq_iff_eq.mpr hdeleted
        rw [if_pos hdeleted, if_pos hsaves]
        exact ⟨row, rfl⟩
      · have hskips : ¬ ((network.scanDoc row).deleted == false) = true :=
          fun h => hdeleted (beq_iff_eq.mp h)
        rw [if_neg hdeleted, if_neg hskips]
        exact ih (network.scanDoc row)

theorem waitJobLoop_eq (network : Network) (rows : List Network) :
    match scanClear network rows with
    | some (saved, rest) =>
        ∃ row, waitJobLoop network rows = (row, saved) :: waitJobLoop saved rest
    | none => waitJobLoop network rows = [] := by
  cases rows with
  | nil => rfl
  | cons row rows => exact ⟨row, rfl⟩

/-- `saved` is `row` but for the two flags and the revision. -/
def Unchanged (row saved : Network) : Prop :=
  { saved with deleting := row.deleting, deleted := row.deleted, rev := row.rev } = row

theorem Unchanged.network {row saved : Network} (h : Unchanged row saved) :
    saved.network = row.network := by
  unfold Unchanged at h
  rw [← h]

theorem unchanged_markDeleting (network : Network) : Unchanged network network.markDeleting := rfl

theorem unchanged_markDeleted (network : Network) : Unchanged network network.markDeleted := rfl

/-! ## Keys carried over -/

/-- The map of the variable after the rows `before`. -/
def mapAfter (before : List Network) : Option JsonMap :=
  before.foldl (fun m row => unmarshalMap m row.network) none

/-- `k` is a key of a row of `before` after which no map is null. -/
def Carries (before : List Network) (k : String) : Prop :=
  ∃ earlier row later m, before = earlier ++ row :: later ∧ row.network = some m ∧ k ∈ m ∧
    ∀ r ∈ later, r.network ≠ none

/-- No row that is saved gets a key from an earlier one. -/
def NoneCarried (saves : Network → Bool) (rows : List Network) : Prop :=
  ∀ before row after, rows = before ++ row :: after → saves row = true →
    ∀ m, row.network = some m → ∀ k, Carries before k → k ∈ m

theorem mapAfter_snoc (before : List Network) (row : Network) :
    mapAfter (before ++ [row]) = unmarshalMap (mapAfter before) row.network := by
  simp only [mapAfter, List.foldl_append, List.foldl_cons, List.foldl_nil]

theorem carries_nil (k : String) : ¬ Carries [] k := by
  rintro ⟨earlier, row, later, m, heq, -⟩
  exact List.append_ne_nil_of_right_ne_nil earlier (List.cons_ne_nil row later) heq.symm

theorem carries_snoc (before : List Network) (row : Network) (k : String) :
    Carries (before ++ [row]) k ↔ ∃ m, row.network = some m ∧ (k ∈ m ∨ Carries before k) := by
  constructor
  · rintro ⟨earlier, r, later, m, heq, hm, hk, hlater⟩
    -- the key comes from `row` itself, or from a row before it
    rcases List.eq_nil_or_concat later with rfl | ⟨rest, last, rfl⟩
    · obtain ⟨rfl, hr⟩ := List.append_inj' heq rfl
      obtain rfl := List.singleton_inj.mp hr
      exact ⟨m, hm, Or.inl hk⟩
    · rw [List.concat_eq_append, ← List.cons_append, ← List.append_assoc] at heq
      obtain ⟨rfl, hr⟩ := List.append_inj' heq rfl
      obtain rfl := List.singleton_inj.mp hr
      rw [List.concat_eq_append] at hlater
      obtain ⟨m', hm'⟩ := Option.ne_none_iff_exists'.mp (hlater row (by simp))
      exact ⟨m', hm', Or.inr ⟨earlier, r, rest, m, rfl, hm, hk,
        fun x hx => hlater x (List.mem_append_left _ hx)⟩⟩
  · rintro ⟨m, hm, hk | ⟨earlier, r, later, m', rfl, hm', hk, hlater⟩⟩
    · exact ⟨before, row, [], m, rfl, hm, hk, fun _ hr => absurd hr List.not_mem_nil⟩
    · refine ⟨earlier, r, later ++ [row], m', by simp, hm', hk, fun x hx => ?_⟩
      rcases List.mem_append.mp hx with hx | hx
      · exact hlater x hx
      · rw [List.mem_singleton.mp hx, hm]
        nofun

/-- The keys of the variable are those carried over. -/
theorem mem_mapAfter (before : List Network) (k : String) :
    k ∈ (mapAfter before).getD ∅ ↔ Carries before k := by
  induction before using List.reverseRecOn with
  | nil => exact iff_of_false Finmap.notMem_empty (carries_nil k)
  | append_singleton before row ih =>
      rw [mapAfter_snoc, carries_snoc]
      cases hm : row.network with
      | none =>
          -- a null map makes the variable nil again
          refine iff_of_false ?_ ?_
          · exact Finmap.notMem_empty
          · rintro ⟨m, hnone, -⟩
            cases hnone
      | some m =>
          rw [mem_unmarshalMap, ih]
          simp

/-! ## What is saved -/

section Loop

variable {saves : Network → Bool} {mark : Network → Network}

/-- A row is saved with nothing but its flags changed exactly when its map is
    decoded as it is. -/
theorem unchanged_iff (hmark : ∀ network, Unchanged network (mark network))
    (network row : Network) :
    Unchanged row (mark (network.scanDoc row)) ↔
      unmarshalMap network.network row.network = row.network := by
  have hmap : (mark (network.scanDoc row)).network = (network.scanDoc row).network :=
    (hmark (network.scanDoc row)).network
  constructor
  · intro h
    exact hmap.symm.trans h.network
  · intro h
    have hscan : network.scanDoc row = row := by
      unfold Network.scanDoc
      rw [h]
    rw [hscan]
    exact hmark row

/-- The loop changes nothing but flags exactly when every row it saves is
    decoded as it is. -/
theorem scanLoop_unchanged_iff (hmark : ∀ network, Unchanged network (mark network))
    (hsaves : ∀ network row : Network, saves (network.scanDoc row) = saves row)
    (before rows : List Network) (network : Network) (hmap : network.network = mapAfter before) :
    (∀ p ∈ scanLoop saves mark network rows, Unchanged p.1 p.2) ↔
      ∀ middle row after, rows = middle ++ row :: after → saves row = true →
        unmarshalMap (mapAfter (before ++ middle)) row.network = row.network := by
  induction rows generalizing before network with
  | nil =>
      refine iff_of_true (fun p hp => absurd hp List.not_mem_nil) fun middle row after heq => ?_
      exact absurd heq.symm (List.append_ne_nil_of_right_ne_nil middle (List.cons_ne_nil row after))
  | cons first rows ih =>
      have hscan : (network.scanDoc first).network = mapAfter (before ++ [first]) := by
        rw [mapAfter_snoc, ← hmap]
        rfl
      have hmarked : (mark (network.scanDoc first)).network = mapAfter (before ++ [first]) :=
        (hmark (network.scanDoc first)).network.trans hscan
      -- the condition on the whole list is that on its head and that on its tail
      have hsplit : (∀ middle row after, first :: rows = middle ++ row :: after →
            saves row = true →
            unmarshalMap (mapAfter (before ++ middle)) row.network = row.network) ↔
          (saves first = true →
            unmarshalMap network.network first.network = first.network) ∧
          ∀ middle row after, rows = middle ++ row :: after → saves row = true →
            unmarshalMap (mapAfter ((before ++ [first]) ++ middle)) row.network
              = row.network := by
        constructor
        · intro h
          refine ⟨fun hsave => ?_, fun middle row after heq hsave => ?_⟩
          · have hfirst := h [] first rows rfl hsave
            rwa [List.append_nil, ← hmap] at hfirst
          · have hrest := h (first :: middle) row after (by rw [heq]; rfl) hsave
            rwa [List.append_cons] at hrest
        · rintro ⟨hfirst, hrest⟩ middle row after heq hsave
          cases middle with
          | nil =>
              obtain ⟨rfl, -⟩ := List.cons.inj heq
              rw [List.append_nil, ← hmap]
              exact hfirst hsave
          | cons r middle =>
              obtain ⟨rfl, htail⟩ := List.cons.inj heq
              rw [List.append_cons]
              exact hrest middle row after htail hsave
      rw [scanLoop_cons, hsaves, hsplit]
      by_cases hsave : saves first = true
      · rw [if_pos hsave, List.forall_mem_cons, unchanged_iff hmark,
          ih (before ++ [first]) (mark (network.scanDoc first)) hmarked]
        exact and_congr ⟨fun h _ => h, fun h => h hsave⟩ Iff.rfl
      · rw [if_neg hsave, ih (before ++ [first]) (network.scanDoc first) hscan]
        exact ⟨fun h => ⟨fun h' => absurd h' hsave, h⟩, fun h => h.2⟩

theorem scanLoop_frame (hmark : ∀ network, Unchanged network (mark network))
    (hsaves : ∀ network row : Network, saves (network.scanDoc row) = saves row)
    (rows : List Network) :
    (∀ p ∈ scanLoop saves mark {} rows, Unchanged p.1 p.2) ↔ NoneCarried saves rows := by
  rw [scanLoop_unchanged_iff hmark hsaves [] rows {} rfl]
  refine forall_congr' fun before => forall_congr' fun row => forall_congr' fun after => ?_
  refine imp_congr_right fun _ => imp_congr_right fun _ => ?_
  rw [List.nil_append, unmarshalMap_eq_iff]
  exact forall_congr' fun m => imp_congr_right fun _ => forall_congr' fun k =>
    imp_congr_left (mem_mapAfter before k)

end Loop

/-- **When marking changes nothing else.**  The loops of `saveJob` and of
    `waitJob` save every network with nothing but its flags (and its revision)
    changed if and only if no key is carried over from an earlier row into one
    that is saved: in `saveJob`, a row that is not deleted; in `waitJob`, any
    row. -/
theorem loops_frame_iff (rows : List Network) :
    ((∀ p ∈ saveJobLoop {} rows, Unchanged p.1 p.2) ↔
      NoneCarried (fun network => network.deleted == false) rows) ∧
    ((∀ p ∈ waitJobLoop {} rows, Unchanged p.1 p.2) ↔ NoneCarried (fun _ => true) rows) :=
  ⟨scanLoop_frame unchanged_markDeleting (fun _ _ => rfl) rows,
    scanLoop_frame unchanged_markDeleted (fun _ _ => rfl) rows⟩

/-- Two networks of one service, with the secret of an org each. -/
def twoNetworks : List Network :=
  [{ id := "n1", rev := 1, networkId := "n1", serviceId := "s1",
      network := some (Finmap.singleton "org1" (.string "secret1")) },
    { id := "n2", rev := 1, networkId := "n2", serviceId := "s1",
      network := some (Finmap.singleton "org2" (.string "secret2")) }]

/-- The second network is saved with the secret of the first one's org. -/
theorem secret_carried_over :
    (∃ p ∈ saveJobLoop {} twoNetworks, p.1.id = "n2" ∧
      mapIndex p.1.network "org1" = none ∧
      mapIndex p.2.network "org1" = some (.string "secret1")) ∧
    ¬ ∀ p ∈ saveJobLoop {} twoNetworks, Unchanged p.1 p.2 := by
  have hsecond : ∃ p ∈ saveJobLoop {} twoNetworks, p.1.id = "n2" ∧
      mapIndex p.1.network "org1" = none ∧
      mapIndex p.2.network "org1" = some (.string "secret1") :=
    ⟨_, List.mem_cons_of_mem _ List.mem_cons_self, rfl, rfl, rfl⟩
  refine ⟨hsecond, fun hall => ?_⟩
  obtain ⟨p, hp, -, hnone, hsome⟩ := hsecond
  rw [(hall p hp).network, hnone] at hsome
  cases hsome

end Hfrd.Api
