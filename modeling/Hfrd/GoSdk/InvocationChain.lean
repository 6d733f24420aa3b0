/-
  Hfrd.GoSdk.InvocationChain

  The chaincode calls that endorsers are selected for
  (modules/gosdk/chaincode/utils/handlers.go).

  The calls of a request are merged with those in the read-write sets of the
  first endorsement.  Where that adds a chaincode or a collection, more
  endorsers are asked; the merged calls then cover the response, so that the
  same response adds nothing again.
-/

import Mathlib.Data.List.Nodup

namespace Hfrd.GoSdk

/-! ## Calls -/

/-- `fab.ChaincodeCall` -/
structure ChaincodeCall where
  id : String
  collections : List String
  deriving DecidableEq

/-- The calls of a request, its own chaincode first. -/
def newInvocationChain (chaincodeID : String) (invocationChain : List ChaincodeCall) :
    List ChaincodeCall :=
  let (head, rest) := invocationChain.foldl (fun (head, rest) ccCall =>
    if ccCall.id = head.id then ({ head with collections := ccCall.collections }, rest)
    else (head, rest ++ [ccCall])) (ChaincodeCall.mk chaincodeID [], [])
  head :: rest

/-- `getCCCall` -/
def getCCCall (invocChain : List ChaincodeCall) (ccID : String) : Option ChaincodeCall :=
  invocChain.find? fun ccCall => ccCall.id = ccID

/-- A collection is added unless it is there; the flag tells that one was. -/
def mergeCollection (out : ChaincodeCall × Bool) (coll : String) : ChaincodeCall × Bool :=
  if coll ∈ out.1.collections then out
  else ({ out.1 with collections := out.1.collections ++ [coll] }, true)

/-- `merge`; the flag says whether a collection was added. -/
def merge (c₁ c₂ : ChaincodeCall) : ChaincodeCall × Bool :=
  c₂.collections.foldl mergeCollection (c₁, false)

/-- `mergeCCCall`; the flag says whether the call has changed. -/
def mergeCCCall (invocChain : List ChaincodeCall) (respCCCall : ChaincodeCall) :
    ChaincodeCall × Bool :=
  match getCCCall invocChain respCCCall.id with
  | some ccCall => merge ccCall respCCCall
  | none => (respCCCall, true)

/-- `mergeInvocationChains`; the flag says whether a call has changed. -/
def mergeInvocationChains (invocChain respInvocChain : List ChaincodeCall)
    (filter : String → Bool) : List ChaincodeCall × Bool :=
  respInvocChain.foldl (fun (mergedInvocChain, changed) respCCCall =>
    if filter respCCCall.id then
      let (mergedCCCall, merged) := mergeCCCall invocChain respCCCall
      (mergedInvocChain ++ [mergedCCCall], changed || merged)
    else (mergedInvocChain, changed)) ([], false)

/-! ## One call -/

/-- The chain has the call with all its collections. -/
def Covers (invocChain : List ChaincodeCall) (call : ChaincodeCall) : Prop :=
  ∃ c, getCCCall invocChain call.id = some c ∧ call.collections ⊆ c.collections

variable {invocChain respInvocChain : List ChaincodeCall} {filter : String → Bool}

theorem id_mergeCollections (out : ChaincodeCall × Bool) (colls : List String) :
    (colls.foldl mergeCollection out).1.id = out.1.id := by
  induction colls generalizing out with
  | nil => rfl
  | cons coll colls ih =>
      rw [List.foldl_cons, ih, mergeCollection]
      split
      · rfl
      · rfl

theorem mem_mergeCollections (out : ChaincodeCall × Bool) (colls : List String) (coll : String) :
    coll ∈ (colls.foldl mergeCollection out).1.collections ↔
      coll ∈ out.1.collections ∨ coll ∈ colls := by
  induction colls generalizing out with
  | nil => simp
  | cons c colls ih =>
      rw [List.foldl_cons, ih, mergeCollection, List.mem_cons]
      split
      · next hc =>
          constructor
          · exact Or.imp_right Or.inr
          · rintro (h | rfl | h)
            · exact Or.inl h
            · exact Or.inl hc
            · exact Or.inr h
      · simp [or_assoc]

/-- Nothing is added where all collections are there. -/
theorem mergeCollections_of_subset {out : ChaincodeCall × Bool} {colls : List String}
    (h : colls ⊆ out.1.collections) : colls.foldl mergeCollection out = out := by
  induction colls with
  | nil => rfl
  | cons coll colls ih =>
      obtain ⟨hcoll, hcolls⟩ := List.cons_subset.mp h
      rw [List.foldl_cons, mergeCollection, if_pos hcoll, ih hcolls]

theorem merged_of_merged {out : ChaincodeCall × Bool} (h : out.2 = true) (colls : List String) :
    (colls.foldl mergeCollection out).2 = true := by
  induction colls generalizing out with
  | nil => exact h
  | cons coll colls ih =>
      refine ih ?_
      rw [mergeCollection]
      split
      · exact h
      · rfl

theorem merged_iff (c₁ c₂ : ChaincodeCall) :
    (merge c₁ c₂).2 = true ↔ ¬ c₂.collections ⊆ c₁.collections := by
  constructor
  · intro h hsubset
    rw [merge, mergeCollections_of_subset hsubset] at h
    cases h
  · intro h
    rw [merge]
    generalize c₂.collections = colls at h
    induction colls with
    | nil => exact absurd (List.nil_subset _) h
    | cons coll colls ih =>
        rw [List.foldl_cons, mergeCollection]
        split
        · next hcoll => exact ih fun hcolls => h (List.cons_subset.mpr ⟨hcoll, hcolls⟩)
        · exact merged_of_merged rfl colls

/-! ## Chains -/

theorem getCCCall_id {ccID : String} {c : ChaincodeCall} (h : getCCCall invocChain ccID = some c) :
    c.id = ccID := by
  simpa using List.find?_some h

theorem id_mergeCCCall (call : ChaincodeCall) : (mergeCCCall invocChain call).1.id = call.id := by
  rw [mergeCCCall]
  split
  · next c hc => rw [merge, id_mergeCollections, getCCCall_id hc]
  · rfl

theorem subset_mergeCCCall (call : ChaincodeCall) :
    call.collections ⊆ (mergeCCCall invocChain call).1.collections := by
  intro coll hcoll
  rw [mergeCCCall]
  split
  · exact (mem_mergeCollections _ _ _).mpr (Or.inr hcoll)
  · exact hcoll

/-- **A call adds something exactly if the chain does not cover it.** -/
theorem mergedCCCall_iff (call : ChaincodeCall) :
    (mergeCCCall invocChain call).2 = true ↔ ¬ Covers invocChain call := by
  rw [mergeCCCall, Covers]
  split
  · next c hc => simp [merged_iff, hc]
  · next hc => simp [hc]

/-- The calls that pass the filter, each merged with the chain. -/
theorem mergeInvocationChains_eq (invocChain respInvocChain : List ChaincodeCall)
    (filter : String → Bool) : mergeInvocationChains invocChain respInvocChain filter =
      ((respInvocChain.filter fun c => filter c.id).map fun c => (mergeCCCall invocChain c).1,
        (respInvocChain.filter fun c => filter c.id).any fun c =>
          (mergeCCCall invocChain c).2) := by
  suffices ∀ out : List ChaincodeCall × Bool,
      respInvocChain.foldl (fun (mergedInvocChain, changed) respCCCall =>
        if filter respCCCall.id then
          let (mergedCCCall, merged) := mergeCCCall invocChain respCCCall
          (mergedInvocChain ++ [mergedCCCall], changed || merged)
        else (mergedInvocChain, changed)) out =
      (out.1 ++ (respInvocChain.filter fun c => filter c.id).map fun c =>
          (mergeCCCall invocChain c).1,
        out.2 || (respInvocChain.filter fun c => filter c.id).any fun c =>
          (mergeCCCall invocChain c).2) from this ([], false)
  induction respInvocChain with
  | nil => simp
  | cons call calls ih =>
      intro out
      rw [List.foldl_cons, ih]
      by_cases hcall : filter call.id = true
      · simp [hcall, Bool.or_assoc]
      · simp [hcall]

/-- **Endorsers are asked again exactly if a call is not covered.** -/
theorem changed_iff : (mergeInvocationChains invocChain respInvocChain filter).2 = true ↔
    ∃ call ∈ respInvocChain, filter call.id = true ∧ ¬ Covers invocChain call := by
  rw [mergeInvocationChains_eq]
  simp [mergedCCCall_iff]

/-- The merged calls are those of the response. -/
theorem ids_mergeInvocationChains :
    (mergeInvocationChains invocChain respInvocChain filter).1.map ChaincodeCall.id =
      (respInvocChain.filter fun c => filter c.id).map ChaincodeCall.id := by
  rw [mergeInvocationChains_eq, List.map_map]
  exact List.map_congr_left fun c _ => id_mergeCCCall c

theorem getCCCall_of_mem {c : ChaincodeCall} (hc : c ∈ invocChain)
    (h : (invocChain.map ChaincodeCall.id).Nodup) : getCCCall invocChain c.id = some c := by
  induction invocChain with
  | nil => cases hc
  | cons d calls ih =>
      rw [List.map_cons, List.nodup_cons] at h
      rw [getCCCall, List.find?_cons]
      rcases List.mem_cons.mp hc with rfl | hc
      · simp
      · have hne : d.id ≠ c.id := fun heq => h.1 (heq ▸ List.mem_map_of_mem hc)
        rw [decide_eq_false hne]
        exact ih hc h.2

/-- The merged calls cover the response. -/
theorem covers_mergeInvocationChains (h : (respInvocChain.map ChaincodeCall.id).Nodup)
    {call : ChaincodeCall} (hcall : call ∈ respInvocChain) (hfilter : filter call.id = true) :
    Covers (mergeInvocationChains invocChain respInvocChain filter).1 call := by
  have hnodup : ((mergeInvocationChains invocChain respInvocChain filter).1.map
      ChaincodeCall.id).Nodup := by
    rw [ids_mergeInvocationChains]
    exact h.sublist (List.filter_sublist.map ChaincodeCall.id)
  have hmem : (mergeCCCall invocChain call).1 ∈
      (mergeInvocationChains invocChain respInvocChain filter).1 := by
    rw [mergeInvocationChains_eq]
    exact List.mem_map_of_mem (List.mem_filter.mpr ⟨hcall, hfilter⟩)
  have hget := getCCCall_of_mem hmem hnodup
  rw [id_mergeCCCall] at hget
  exact ⟨_, hget, subset_mergeCCCall call⟩

/-- The own chaincode has the collections of its last call; the others follow in
    order. -/
theorem newInvocationChain_eq (chaincodeID : String) (invocationChain : List ChaincodeCall) :
    newInvocationChain chaincodeID invocationChain =
      ⟨chaincodeID, (((invocationChain.filter fun c => c.id = chaincodeID).getLast?).map
        ChaincodeCall.collections).getD []⟩ ::
        invocationChain.filter fun c => c.id ≠ chaincodeID := by
  suffices ∀ out : ChaincodeCall × List ChaincodeCall,
      invocationChain.foldl (fun (head, rest) ccCall =>
        if ccCall.id = head.id then ({ head with collections := ccCall.collections }, rest)
        else (head, rest ++ [ccCall])) out =
      ({ out.1 with collections := (((invocationChain.filter fun c => c.id = out.1.id).getLast?).map
          ChaincodeCall.collections).getD out.1.collections },
        out.2 ++ invocationChain.filter fun c => c.id ≠ out.1.id) by
    rw [newInvocationChain, this]
    simp
  induction invocationChain with
  | nil => simp
  | cons call calls ih =>
      intro out
      rw [List.foldl_cons, ih]
      by_cases hcall : call.id = out.1.id
      · simp [hcall, List.getLast?_cons]
      · simp [hcall]

theorem eq_of_id {c d : ChaincodeCall} (hc : c ∈ invocChain) (hd : d ∈ invocChain)
    (h : (invocChain.map ChaincodeCall.id).Nodup) (hid : c.id = d.id) : c = d := by
  have hget := getCCCall_of_mem hc h
  rw [hid, getCCCall_of_mem hd h] at hget
  exact (Option.some.inj hget).symm

/-- A chain of distinct chaincodes covers as much when it is the chain of a
    request. -/
theorem Covers.newInvocationChain {call : ChaincodeCall} (h : Covers invocChain call)
    (hnodup : (invocChain.map ChaincodeCall.id).Nodup) (chaincodeID : String) :
    Covers (newInvocationChain chaincodeID invocChain) call := by
  obtain ⟨c, hget, hcolls⟩ := h
  have hid := getCCCall_id hget
  have hmem : c ∈ invocChain := List.mem_of_find?_eq_some hget
  rw [newInvocationChain_eq]
  by_cases hown : call.id = chaincodeID
  · -- the last call of the own chaincode is its only one
    have hown' : c ∈ invocChain.filter fun c => c.id = chaincodeID := by
      simp [hmem, hid, hown]
    cases hlast : (invocChain.filter fun c => c.id = chaincodeID).getLast? with
    | none =>
        rw [List.getLast?_eq_none_iff] at hlast
        rw [hlast] at hown'
        cases hown'
    | some d =>
        obtain ⟨hd, hdid⟩ := List.mem_filter.mp (List.mem_of_getLast? hlast)
        obtain rfl : c = d := eq_of_id hmem hd hnodup
          (hid.trans (hown.trans (of_decide_eq_true hdid).symm))
        refine ⟨⟨chaincodeID, c.collections⟩, ?_, hcolls⟩
        simp [getCCCall, hown]
  · have hother : c ∈ invocChain.filter fun c => c.id ≠ chaincodeID := by
      simp [hmem, hid, hown]
    have hnodup' := hnodup.sublist
      ((List.filter_sublist (p := fun c => decide (c.id ≠ chaincodeID))).map ChaincodeCall.id)
    refine ⟨c, ?_, hcolls⟩
    rw [getCCCall, List.find?_cons_of_neg (by simpa using Ne.symm hown), ← hid]
    exact getCCCall_of_mem hother hnodup'

/-- **The same response adds nothing again.** -/
theorem unchanged_of_merged (chaincodeID : String) (invocationChain : List ChaincodeCall)
    (h : (respInvocChain.map ChaincodeCall.id).Nodup) :
    (mergeInvocationChains (newInvocationChain chaincodeID
      (mergeInvocationChains invocationChain respInvocChain filter).1) respInvocChain filter).2 =
        false := by
  rw [Bool.eq_false_iff, Ne, changed_iff]
  rintro ⟨call, hcall, hfilter, hnot⟩
  refine hnot (Covers.newInvocationChain (covers_mergeInvocationChains h hcall hfilter) ?_ _)
  rw [ids_mergeInvocationChains]
  exact h.sublist (List.filter_sublist.map ChaincodeCall.id)

end Hfrd.GoSdk
