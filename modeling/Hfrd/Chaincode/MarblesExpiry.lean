/-
  Hfrd.Chaincode.MarblesExpiry

  Runs of the marbles chaincode with private data.

  The peer removes an entry of a collection by itself, `blockToLive` blocks after
  the one it was last written in (chaincode/marbles_private/collections_config.json).
  So the states below know the block of each entry, and the runs have a step for
  a block that is full.

  Of what belongs to a marble, its details go first and its index entry no later
  than itself, for a transfer writes the marble alone.  That is why the index
  stays sound while entries expire.
-/

import Hfrd.Chaincode.MarblesPrivate

namespace Hfrd.Chaincode

open Hfrd.Go Hfrd.Lib

namespace MarblesPrivate

/-! ## States -/

/-- `blockToLive` of the two collections. -/
def blockToLive (collection : String) : Nat :=
  if collection = collectionMarbles then 1000000 else 3

/-- Each collection takes the writes that are for it. -/
def Collections.apply (s : Collections) (ws : List PrivateWrite) : Collections := fun collection =>
  (s collection).apply (ws.filterMap fun w => if w.1 = collection then some w.2 else none)

/-- The collections, and where their entries come from. -/
structure PrivateState where
  data : Collections
  /-- The block that an entry was last written in. -/
  written : String → String → Nat
  /-- The block that is being filled. -/
  height : Nat

namespace PrivateState

/-- The block that an entry goes with. -/
def expiringBlock (s : PrivateState) (collection key : String) : Nat :=
  s.written collection key + blockToLive collection + 1

/-- The state after the writes of a transaction. -/
def commit (s : PrivateState) (ws : List PrivateWrite) : PrivateState where
  data := s.data.apply ws
  written := fun collection key =>
    if (collection, key) ∈ ws.map (fun w => (w.1, w.2.1)) then s.height
    else s.written collection key
  height := s.height

/-- The block is committed, and the entries that go with it are removed. -/
def nextBlock (s : PrivateState) : PrivateState where
  data := fun collection =>
    (s.data collection).restrict fun key => s.height < s.expiringBlock collection key
  written := s.written
  height := s.height + 1

end PrivateState

/-- Nothing has been written. -/
def noData : PrivateState := ⟨fun _ => Ledger.empty String String, fun _ _ => 0, 0⟩

/-! ## Steps -/

/-- An invocation, and what the peer answers in it. -/
structure PrivateTransaction where
  function : String
  args : List String
  peer : Peer (String × String) String

/-- What can happen on the channel. -/
inductive Event where
  | invoke (tx : PrivateTransaction)
  /-- The block is full. -/
  | block

/-- The invocation on the data of the collections. -/
def simulate (env : PrivateEnv) (s : Collections) (tx : PrivateTransaction) :
    Except Failure PrivateEndorsement :=
  invoke env ⟨tx.peer, s⟩ tx.function tx.args

/-- One event after the other. -/
def system (env : PrivateEnv) : Lts PrivateState Event where
  step s
    | .invoke tx => match simulate env s.data tx with
      | .ok out => some (s.commit out.2)
      | .error _ => some s
    | .block => some s.nextBlock

/-- An invocation that asks to delete the marble of this name. -/
def AsksToDelete (env : PrivateEnv) (name : String) : Event → Prop
  | .invoke tx => tx.function = "delete" ∧ ∃ text,
      tx.peer.transient "marble_delete" = some text ∧ env.deleteInput text = .ok name
  | .block => False

/-- The index is sound, sizes are positive, and details are those of a marble
    that is there, with a positive price. -/
structure Consistent (env : PrivateEnv) (s : Collections) : Prop where
  sound : Marbles.Sound env.toEnv (s collectionMarbles)
  sized : ∀ m : Marble, (s collectionMarbles).get m.name = some m.marshal → 0 < m.size
  detailed : ∀ name text, (s collectionMarblePrivateDetails).get name = some text →
    ∃ (m : Marble) (price : Int64), m.name = name ∧
      (s collectionMarbles).get m.name = some m.marshal ∧ 0 < price ∧ text = detailsText name price

/-- What holds of the blocks: nothing is from a block to come, or from one too
    long ago, and what belongs to a marble is no younger than the marble. -/
structure Aged (env : PrivateEnv) (s : PrivateState) : Prop where
  past : ∀ collection key, s.written collection key ≤ s.height
  live : ∀ collection key, (s.data collection).get key ≠ none →
    s.height ≤ s.expiringBlock collection key
  index : ∀ (m : Marble) (key : String),
    env.keys.createCompositeKey indexName [m.color, m.name] = .ok key →
    (s.data collectionMarbles).get key ≠ none →
    s.written collectionMarbles key ≤ s.written collectionMarbles m.name
  details : ∀ name, (s.data collectionMarblePrivateDetails).get name ≠ none →
    s.written collectionMarblePrivateDetails name ≤ s.written collectionMarbles name

/-- What a step does. -/
inductive Effect (env : PrivateEnv) (s t : PrivateState) : Event → Prop
  | same (tx : PrivateTransaction) : t = s → Effect env s t (.invoke tx)
  | create (tx : PrivateTransaction) (m : Marble) (price : Int64) (key : String)
      (ws : List (Write String String)) : m.objectType = "marble" → 0 < m.size → 0 < price →
      env.keys.createCompositeKey indexName [m.color, m.name] = .ok key →
      (s.data collectionMarbles).get m.name = none → (ws = [] ∨ ws = [(key, some indexValue)]) →
      t = s.commit (createWrites m price ws) → Effect env s t (.invoke tx)
  | transfer (tx : PrivateTransaction) (m : Marble) (owner : String) :
      (s.data collectionMarbles).get m.name = some m.marshal →
      t = s.commit (transferWrites m owner) → Effect env s t (.invoke tx)
  | delete (tx : PrivateTransaction) (text : String) (m : Marble) (key : String) :
      tx.function = "delete" → tx.peer.transient "marble_delete" = some text →
      env.deleteInput text = .ok m.name →
      (s.data collectionMarbles).get m.name = some m.marshal →
      env.keys.createCompositeKey indexName [m.color, m.name] = .ok key →
      t = s.commit (deleteWrites m key) → Effect env s t (.invoke tx)
  | block : t = s.nextBlock → Effect env s t .block

variable {env : PrivateEnv} {s t : PrivateState} {event : Event}

/-- **Every step is one of five.** -/
theorem effect_of_step (hs : Marbles.Sound env.toEnv (s.data collectionMarbles))
    (h : (system env).step s event = some t) : Effect env s t event := by
  cases event with
  | block => exact .block (Option.some.inj h).symm
  | invoke tx =>
      simp only [system] at h
      cases hsim : simulate env s.data tx with
      | error e =>
          rw [hsim] at h
          exact .same tx (Option.some.inj h).symm
      | ok out =>
          rw [hsim] at h
          obtain rfl := Option.some.inj h
          rcases invoke_cases hsim with hok | hok | ⟨hf, hok⟩ | hout
          · obtain ⟨m, price, key, ws, htype, hsize, hprice, hkey, hnew, hws, hout⟩ :=
              initMarble_effect hok
            exact .create tx m price key ws htype hsize hprice hkey hnew hws (by rw [hout])
          · obtain ⟨m, owner, hget, hout⟩ := transferMarble_effect hs hok
            exact .transfer tx m owner hget (by rw [hout])
          · obtain ⟨text, m, key, htext, hname, hget, hkey, hout⟩ := delete_effect hs hok
            exact .delete tx text m key hf htext hname hget hkey (by rw [hout])
          · exact .same tx (by rw [hout]; rfl)

/-! ## What is written -/

theorem marbles_ne_details : collectionMarbles ≠ collectionMarblePrivateDetails := by decide

section Data

variable (m : Marble) (price : Int64) (owner key : String) (ws : List (Write String String))

@[simp] theorem marbles_createWrites : (s.commit (createWrites m price ws)).data collectionMarbles =
    (s.data collectionMarbles).apply ((m.name, some m.marshal) :: ws) := by
  simp [PrivateState.commit, Collections.apply, createWrites, marbles_ne_details.symm,
    List.filterMap_map, Function.comp_def]

@[simp] theorem details_createWrites :
    (s.commit (createWrites m price ws)).data collectionMarblePrivateDetails =
      (s.data collectionMarblePrivateDetails).write (m.name, some (detailsText m.name price)) := by
  simp [PrivateState.commit, Collections.apply, createWrites, marbles_ne_details,
    List.filterMap_map, Function.comp_def]

@[simp] theorem marbles_transferWrites :
    (s.commit (transferWrites m owner)).data collectionMarbles =
      (s.data collectionMarbles).write (m.name, some { m with owner := owner }.marshal) := by
  simp [PrivateState.commit, Collections.apply, transferWrites]

@[simp] theorem details_transferWrites :
    (s.commit (transferWrites m owner)).data collectionMarblePrivateDetails =
      s.data collectionMarblePrivateDetails := by
  simp [PrivateState.commit, Collections.apply, transferWrites, marbles_ne_details]

@[simp] theorem marbles_deleteWrites : (s.commit (deleteWrites m key)).data collectionMarbles =
    (s.data collectionMarbles).apply [(m.name, none), (key, none)] := by
  simp [PrivateState.commit, Collections.apply, deleteWrites, marbles_ne_details.symm]

@[simp] theorem details_deleteWrites :
    (s.commit (deleteWrites m key)).data collectionMarblePrivateDetails =
      (s.data collectionMarblePrivateDetails).write (m.name, none) := by
  simp [PrivateState.commit, Collections.apply, deleteWrites, marbles_ne_details]

end Data

theorem get_nextBlock (collection key : String) : (s.nextBlock.data collection).get key =
    if s.height < s.expiringBlock collection key then (s.data collection).get key else none := by
  rw [PrivateState.nextBlock, Ledger.get_restrict]
  simp only [decide_eq_true_eq]

theorem written_commit (s : PrivateState) (ws : List PrivateWrite) (collection key : String) :
    (s.commit ws).written collection key =
      if (collection, key) ∈ ws.map (fun w => (w.1, w.2.1)) then s.height
      else s.written collection key :=
  rfl

/-- What is not written stays. -/
theorem get_commit_of_not_mem {ws : List PrivateWrite} {collection key : String}
    (h : (collection, key) ∉ ws.map fun w => (w.1, w.2.1)) :
    ((s.commit ws).data collection).get key = (s.data collection).get key := by
  refine Ledger.get_apply_of_not_mem fun w hw heq => h ?_
  obtain ⟨w', hw', hsome⟩ := List.mem_filterMap.mp hw
  split at hsome
  · next hcollection =>
      obtain rfl := Option.some.inj hsome
      exact List.mem_map.mpr ⟨w', hw', Prod.ext hcollection heq⟩
  · cases hsome

/-! ## One step -/

/-- Only owners change in a transfer. -/
theorem ownersOnly_write {s : Ledger String String} {m : Marble} {owner : String}
    (hget : s.get m.name = some m.marshal) :
    Marbles.OwnersOnly s (s.write (m.name, some { m with owner := owner }.marshal)) :=
  (Marbles.OwnersOnly.refl s).write hget owner

/-- A marble that is left without its index entry is no harm, an index entry
    without its marble would be. -/
theorem sound_nextBlock (hs : Marbles.Sound env.toEnv (s.data collectionMarbles))
    (haged : Aged env s) : Marbles.Sound env.toEnv (s.nextBlock.data collectionMarbles) := by
  intro k v hv
  rw [get_nextBlock] at hv
  split at hv
  · next hlive =>
      cases hs k v hv with
      | marble m key htype hkey => exact .marble m key htype hkey
      | index m key hkey hget =>
          refine .index m k hkey ?_
          have hage := haged.index m k hkey (by rw [hv]; exact Option.some_ne_none _)
          have hmarble : s.height < s.expiringBlock collectionMarbles m.name :=
            hlive.trans_le (Nat.succ_le_succ (Nat.add_le_add_right hage _))
          rw [get_nextBlock, if_pos hmarble, hget]
  · cases hv

theorem Effect.sound (h : Effect env s t event) (haged : Aged env s)
    (hs : Marbles.Sound env.toEnv (s.data collectionMarbles)) :
    Marbles.Sound env.toEnv (t.data collectionMarbles) := by
  cases h with
  | same _ hsame => rwa [hsame]
  | create tx m price key ws htype hsize hprice hkey hnew hws ht =>
      rw [ht, marbles_createWrites]
      exact Marbles.sound_create hs htype hkey hnew hws
  | transfer tx m owner hget ht =>
      rw [ht, marbles_transferWrites]
      exact (ownersOnly_write hget).sound hs
  | delete tx text m key hf htext hname hget hkey ht =>
      rw [ht, marbles_deleteWrites]
      exact Marbles.sound_delete hs hget hkey
  | block ht =>
      rw [ht]
      exact sound_nextBlock hs haged

/-- Writes that do not make what belongs to a marble younger than the marble. -/
structure WritesMarbles (env : PrivateEnv) (ws : List PrivateWrite) : Prop where
  index : ∀ (m : Marble) (key : String),
    env.keys.createCompositeKey indexName [m.color, m.name] = .ok key →
    (collectionMarbles, key) ∈ ws.map (fun w => (w.1, w.2.1)) →
    (collectionMarbles, m.name) ∈ ws.map (fun w => (w.1, w.2.1))
  details : ∀ name,
    (collectionMarblePrivateDetails, name) ∈ ws.map (fun w => (w.1, w.2.1)) →
    (collectionMarbles, name) ∈ ws.map (fun w => (w.1, w.2.1))

theorem Aged.commit (h : Aged env s) {ws : List PrivateWrite} (hws : WritesMarbles env ws) :
    Aged env (s.commit ws) := by
  -- what is written is of this block
  have hpast : ∀ collection key, (s.commit ws).written collection key ≤ s.height := by
    intro collection key
    rw [written_commit]
    split
    · exact Nat.le_refl _
    · exact h.past collection key
  refine ⟨hpast, fun collection key hget => ?_, fun m key hkey hget => ?_, fun name hget => ?_⟩
  · by_cases hmem : (collection, key) ∈ ws.map fun w => (w.1, w.2.1)
    · rw [PrivateState.expiringBlock, written_commit, if_pos hmem, Nat.add_assoc]
      exact Nat.le_add_right _ _
    · rw [get_commit_of_not_mem hmem] at hget
      rw [PrivateState.expiringBlock, written_commit, if_neg hmem]
      exact h.live collection key hget
  -- where the index is written, so is the marble
  · by_cases hmarble : (collectionMarbles, m.name) ∈ ws.map fun w => (w.1, w.2.1)
    · rw [written_commit s ws collectionMarbles m.name, if_pos hmarble]
      exact hpast _ _
    · have hnot := fun hmem => hmarble (hws.index m key hkey hmem)
      rw [get_commit_of_not_mem hnot] at hget
      rw [written_commit, written_commit, if_neg hmarble, if_neg hnot]
      exact h.index m key hkey hget
  -- and where details are written
  · by_cases hmarble : (collectionMarbles, name) ∈ ws.map fun w => (w.1, w.2.1)
    · rw [written_commit s ws collectionMarbles name, if_pos hmarble]
      exact hpast _ _
    · have hnot := fun hmem => hmarble (hws.details name hmem)
      rw [get_commit_of_not_mem hnot] at hget
      rw [written_commit, written_commit, if_neg hmarble, if_neg hnot]
      exact h.details name hget

theorem Aged.nextBlock (h : Aged env s) : Aged env s.nextBlock := by
  have hthere : ∀ {collection key}, (s.nextBlock.data collection).get key ≠ none →
      s.height < s.expiringBlock collection key ∧ (s.data collection).get key ≠ none := by
    intro collection key hget
    rw [get_nextBlock] at hget
    split at hget
    · next hlive => exact ⟨hlive, hget⟩
    · exact absurd rfl hget
  exact ⟨fun collection key => Nat.le_succ_of_le (h.past collection key),
    fun collection key hget => (hthere hget).1,
    fun m key hkey hget => h.index m key hkey (hthere hget).2,
    fun name hget => h.details name (hthere hget).2⟩

theorem writesMarbles_createWrites {m : Marble} {price : Int64} {key : String}
    {ws : List (Write String String)}
    (hkey : env.keys.createCompositeKey indexName [m.color, m.name] = .ok key)
    (hws : ws = [] ∨ ws = [(key, some indexValue)]) :
    WritesMarbles env (createWrites m price ws) := by
  have hmem : ∀ collection k, (collection, k) ∈ (createWrites m price ws).map
      (fun w => (w.1, w.2.1)) → k = m.name ∨ collection = collectionMarbles ∧ k = key := by
    intro collection k h
    rcases hws with rfl | rfl
    · simp only [createWrites, List.map_cons, List.map_nil, List.mem_cons, Prod.mk.injEq,
        List.not_mem_nil, or_false] at h
      exact Or.inl (h.elim And.right And.right)
    · simp only [createWrites, List.map_cons, List.map_nil, List.mem_cons, Prod.mk.injEq,
        List.not_mem_nil, or_false] at h
      rcases h with h | h | h
      · exact Or.inl h.2
      · exact Or.inl h.2
      · exact Or.inr h
  refine ⟨fun m' key' hkey' h => ?_, fun name h => ?_⟩
  · rcases hmem _ _ h with rfl | ⟨-, rfl⟩
    · exact absurd rfl (Marbles.name_ne_key hkey hkey')
    · rw [(Marbles.of_key_eq hkey' hkey).2]
      exact List.mem_cons_self
  · rcases hmem _ _ h with rfl | ⟨hcollection, -⟩
    · exact List.mem_cons_self
    · exact absurd hcollection.symm marbles_ne_details

theorem writesMarbles_transferWrites {m : Marble} {owner key : String}
    (hkey : env.keys.createCompositeKey indexName [m.color, m.name] = .ok key) :
    WritesMarbles env (transferWrites m owner) := by
  refine ⟨fun m' key' hkey' h => ?_, fun name h => ?_⟩
  · obtain ⟨-, rfl⟩ := Prod.mk.inj (List.mem_singleton.mp h)
    exact absurd rfl (Marbles.name_ne_key hkey hkey')
  · obtain ⟨hcollection, -⟩ := Prod.mk.inj (List.mem_singleton.mp h)
    exact absurd hcollection.symm marbles_ne_details

theorem writesMarbles_deleteWrites {m : Marble} {key : String}
    (hkey : env.keys.createCompositeKey indexName [m.color, m.name] = .ok key) :
    WritesMarbles env (deleteWrites m key) := by
  refine ⟨fun m' key' hkey' h => ?_, fun name h => ?_⟩
  · simp only [deleteWrites, List.map_cons, List.map_nil, List.mem_cons, Prod.mk.injEq,
      List.not_mem_nil, or_false, marbles_ne_details, false_and, true_and] at h
    rcases h with rfl | rfl
    · exact absurd rfl (Marbles.name_ne_key hkey hkey')
    · rw [(Marbles.of_key_eq hkey' hkey).2]
      exact List.mem_cons_self
  · simp only [deleteWrites, List.map_cons, List.map_nil, List.mem_cons, Prod.mk.injEq,
      List.not_mem_nil, or_false, marbles_ne_details.symm, false_and, true_and, false_or] at h
    rw [h]
    exact List.mem_cons_self

theorem Effect.aged (h : Effect env s t event)
    (hs : Marbles.Sound env.toEnv (s.data collectionMarbles)) (haged : Aged env s) :
    Aged env t := by
  cases h with
  | same _ hsame => rwa [hsame]
  | create tx m price key ws htype hsize hprice hkey hnew hws ht =>
      rw [ht]
      exact haged.commit (writesMarbles_createWrites hkey hws)
  | transfer tx m owner hget ht =>
      obtain ⟨-, -, key, hkey⟩ := Marbles.entry_marshal (hs _ _ hget)
      rw [ht]
      exact haged.commit (writesMarbles_transferWrites hkey)
  | delete tx text m key hf htext hname hget hkey ht =>
      rw [ht]
      exact haged.commit (writesMarbles_deleteWrites hkey)
  | block ht =>
      rw [ht]
      exact haged.nextBlock

/-- What becomes of a marble in a step: it stays, with whatever owner, unless it
    is deleted, or its block has come. -/
theorem Effect.keeps_marble (h : Effect env s t event)
    (hs : Marbles.Sound env.toEnv (s.data collectionMarbles)) {m : Marble}
    (hget : (s.data collectionMarbles).get m.name = some m.marshal) :
    (∃ owner, (t.data collectionMarbles).get m.name = some { m with owner := owner }.marshal) ∨
      (t.data collectionMarbles).get m.name = none ∧
      (AsksToDelete env m.name event ∧ (t.data collectionMarblePrivateDetails).get m.name = none ∨
        t = s.nextBlock ∧ s.expiringBlock collectionMarbles m.name ≤ s.height) := by
  obtain ⟨-, -, key', hkey'⟩ := Marbles.entry_marshal (hs _ _ hget)
  cases h with
  | same _ hsame =>
      rw [hsame]
      exact Or.inl ⟨m.owner, hget⟩
  | create tx m' price key ws htype hsize hprice hkey hnew hws ht =>
      refine Or.inl ⟨m.owner, ?_⟩
      -- a new marble has a name that was free
      have hne : m.name ≠ m'.name := fun heq => by
        rw [← heq, hget] at hnew
        cases hnew
      rw [ht, marbles_createWrites, Marbles.get_create hkey hws, if_neg hne,
        if_neg fun h => Marbles.name_ne_key hkey' hkey h.1, hget]
  | transfer tx m' owner hget' ht =>
      rw [ht, marbles_transferWrites, Ledger.get_write]
      -- a transfer of this marble changes the owner
      by_cases hname : m.name = m'.name
      · rw [hname, hget'] at hget
        obtain rfl := Marble.marshal_injective (Option.some.inj hget)
        exact Or.inl ⟨owner, if_pos rfl⟩
      · exact Or.inl ⟨m.owner, (if_neg hname).trans hget⟩
  | delete tx text m' key hf htext hname hget' hkey ht =>
      rw [ht, marbles_deleteWrites, details_deleteWrites, Marbles.get_delete,
        if_neg (Marbles.name_ne_key hkey' hkey), Ledger.get_write]
      by_cases heq : m.name = m'.name
      · rw [if_pos heq, if_pos heq]
        exact Or.inr ⟨rfl, Or.inl ⟨⟨hf, text, htext, heq ▸ hname⟩, rfl⟩⟩
      · rw [if_neg heq]
        exact Or.inl ⟨m.owner, hget⟩
  | block ht =>
      rw [ht, get_nextBlock]
      split
      · exact Or.inl ⟨m.owner, hget⟩
      -- the block of the marble has come
      · next hgone => exact Or.inr ⟨rfl, Or.inr ⟨rfl, Nat.not_lt.mp hgone⟩⟩

/-- The details of a marble that is there are not written again. -/
theorem Effect.keeps_details (h : Effect env s t event) {m : Marble}
    (hget : (s.data collectionMarbles).get m.name = some m.marshal) :
    AsksToDelete env m.name event ∨ t = s.nextBlock ∨
      t.height = s.height ∧
        t.written collectionMarblePrivateDetails m.name =
          s.written collectionMarblePrivateDetails m.name ∧
        (t.data collectionMarblePrivateDetails).get m.name =
          (s.data collectionMarblePrivateDetails).get m.name := by
  -- writes that leave the details alone
  have hkeep : ∀ {ws : List PrivateWrite}, t = s.commit ws →
      (collectionMarblePrivateDetails, m.name) ∉ ws.map (fun w => (w.1, w.2.1)) →
      t.height = s.height ∧
        t.written collectionMarblePrivateDetails m.name =
          s.written collectionMarblePrivateDetails m.name ∧
        (t.data collectionMarblePrivateDetails).get m.name =
          (s.data collectionMarblePrivateDetails).get m.name := by
    rintro ws rfl hnot
    exact ⟨rfl, by rw [written_commit, if_neg hnot], get_commit_of_not_mem hnot⟩
  cases h with
  | same _ hsame =>
      rw [hsame]
      exact Or.inr (Or.inr ⟨rfl, rfl, rfl⟩)
  | create tx m' price key ws htype hsize hprice hkey hnew hws ht =>
      have hne : m.name ≠ m'.name := fun heq => by
        rw [← heq, hget] at hnew
        cases hnew
      refine Or.inr (Or.inr (hkeep ht ?_))
      rcases hws with rfl | rfl
      · simp [createWrites, hne]
      · simp [createWrites, hne, marbles_ne_details.symm]
  | transfer tx m' owner hget' ht =>
      refine Or.inr (Or.inr (hkeep ht ?_))
      simp [transferWrites, marbles_ne_details.symm]
  | delete tx text m' key hf htext hname hget' hkey ht =>
      by_cases heq : m.name = m'.name
      · exact Or.inl ⟨hf, text, htext, heq ▸ hname⟩
      · refine Or.inr (Or.inr (hkeep ht ?_))
        simp [deleteWrites, heq, marbles_ne_details.symm]
  | block ht => exact Or.inr (Or.inl ht)

/-- Blocks only go on. -/
theorem Effect.later (h : Effect env s t event) (haged : Aged env s) :
    s.height ≤ t.height ∧
      ∀ collection key, s.written collection key ≤ t.written collection key := by
  have hcommit : ∀ {ws : List PrivateWrite}, t = s.commit ws → s.height ≤ t.height ∧
      ∀ collection key, s.written collection key ≤ t.written collection key := by
    rintro ws rfl
    refine ⟨Nat.le_refl _, fun collection key => ?_⟩
    rw [written_commit]
    split
    · exact haged.past collection key
    · exact Nat.le_refl _
  cases h with
  | same _ hsame =>
      rw [hsame]
      exact ⟨Nat.le_refl _, fun _ _ => Nat.le_refl _⟩
  | create tx m price key ws htype hsize hprice hkey hnew hws ht => exact hcommit ht
  | transfer tx m owner hget ht => exact hcommit ht
  | delete tx text m key hf htext hname hget hkey ht => exact hcommit ht
  | block ht =>
      rw [ht]
      exact ⟨Nat.le_succ _, fun _ _ => Nat.le_refl _⟩

theorem Effect.consistent (h : Effect env s t event) (haged : Aged env s)
    (hs : Consistent env s.data) : Consistent env t.data := by
  refine ⟨h.sound haged hs.sound, ?_, ?_⟩
  · intro m hget
    cases h with
    | same _ hsame => exact hs.sized m (hsame ▸ hget)
    | create tx m' price key ws htype hsize hprice hkey hnew hws ht =>
        rw [ht, marbles_createWrites, Marbles.get_create hkey hws] at hget
        split at hget
        · obtain rfl := Marble.marshal_injective (Option.some.inj hget)
          exact hsize
        · split at hget
          · exact absurd (Option.some.inj hget).symm (Marbles.marshal_ne_indexValue m)
          · exact hs.sized m hget
    | transfer tx m' owner hget' ht =>
        rw [ht, marbles_transferWrites, Ledger.get_write] at hget
        split at hget
        · obtain rfl := Marble.marshal_injective (Option.some.inj hget)
          exact hs.sized m' hget'
        · exact hs.sized m hget
    | delete tx text m' key hf htext hname hget' hkey ht =>
        rw [ht, marbles_deleteWrites, Marbles.get_delete] at hget
        split at hget
        · cases hget
        · split at hget
          · cases hget
          · exact hs.sized m hget
    | block ht =>
        rw [ht, get_nextBlock] at hget
        split at hget
        · exact hs.sized m hget
        · cases hget
  · intro name text htext
    -- details that were there before
    have hold : (s.data collectionMarblePrivateDetails).get name = some text →
        ∃ (m : Marble) (price : Int64), m.name = name ∧
          (t.data collectionMarbles).get m.name = some m.marshal ∧ 0 < price ∧
          text = detailsText name price := by
      intro hbefore
      obtain ⟨m, price, rfl, hget, hprice, rfl⟩ := hs.detailed name text hbefore
      rcases h.keeps_marble hs.sound hget with
        ⟨owner, hget'⟩ | ⟨-, ⟨-, hgone⟩ | ⟨ht, hexpired⟩⟩
      · exact ⟨{ m with owner := owner }, price, rfl, hget', hprice, rfl⟩
      · rw [hgone] at htext
        cases htext
      -- the details go before the marble
      · have hage := haged.details m.name (by rw [hbefore]; exact Option.some_ne_none _)
        rw [ht, get_nextBlock] at htext
        split at htext
        · next hlive =>
            have hshort : blockToLive collectionMarblePrivateDetails ≤
                blockToLive collectionMarbles := by decide
            have hbefore : s.expiringBlock collectionMarblePrivateDetails m.name ≤
                s.expiringBlock collectionMarbles m.name :=
              Nat.succ_le_succ (Nat.add_le_add hage hshort)
            exact absurd (hlive.trans_le (hbefore.trans hexpired)) (Nat.lt_irrefl _)
        · cases htext
    cases h with
    | same _ hsame => exact hold (hsame ▸ htext)
    | create tx m price key ws htype hsize hprice hkey hnew hws ht =>
        rw [ht, details_createWrites, Ledger.get_write] at htext
        split at htext
        · next hname =>
            refine ⟨m, price, hname.symm, ?_, hprice, by rw [hname, ← Option.some.inj htext]⟩
            rw [ht, marbles_createWrites, Marbles.get_create hkey hws, if_pos rfl]
        · exact hold htext
    | transfer tx m owner hget ht =>
        rw [ht, details_transferWrites] at htext
        exact hold htext
    | delete tx text' m key hf htext' hname hget hkey ht =>
        refine hold ?_
        rw [ht, details_deleteWrites, Ledger.get_write] at htext
        split at htext
        · cases htext
        · exact htext
    | block ht =>
        refine hold ?_
        rw [ht, get_nextBlock] at htext
        split at htext
        · exact htext
        · cases htext

/-! ## Runs -/

theorem consistent_noData : Consistent env noData.data :=
  ⟨fun _ _ h => absurd h.symm (Option.some_ne_none _), fun _ h => absurd h.symm
    (Option.some_ne_none _), fun _ _ h => absurd h.symm (Option.some_ne_none _)⟩

theorem aged_noData : Aged env noData :=
  ⟨fun _ _ => Nat.le_refl _, fun _ _ _ => Nat.zero_le _, fun _ _ _ _ => Nat.le_refl _,
    fun _ _ => Nat.le_refl _⟩

/-- What every run keeps. -/
theorem invariant_of_exec {events : List Event}
    (h : (system env).exec noData events = some s) : Consistent env s.data ∧ Aged env s := by
  refine (Lts.Run.of_exec h).preserves (I := fun u => Consistent env u.data ∧ Aged env u) ?_
    ⟨consistent_noData, aged_noData⟩
  rintro u event v ⟨hu, haged⟩ _ hstep
  have heffect := effect_of_step hu.sound hstep
  exact ⟨heffect.consistent haged hu, heffect.aged hu.sound haged⟩

/-- **Every state reached is consistent**, whatever calls of the peer fail and
    however long entries are there. -/
theorem consistent_of_exec {events : List Event}
    (h : (system env).exec noData events = some s) : Consistent env s.data :=
  (invariant_of_exec h).1

/-- The input of the first command in the comments of the chaincode. -/
def marbleText : String :=
  "\x7b\"name\":\"marble1\",\"color\":\"blue\",\"size\":35,\"owner\":\"tom\",\"price\":99\x7d"

/-- The keys of Fabric, and what that input is decoded to. -/
def fabricPrivateEnv : PrivateEnv where
  toEnv := Marbles.fabricEnv
  marbleInput := fun text =>
    if text = marbleText then .ok ⟨"marble1", "blue", 35, "tom", 99⟩
    else .error "unexpected end of JSON input"
  transferInput := fun _ => .error "unexpected end of JSON input"
  deleteInput := fun _ => .error "unexpected end of JSON input"

/-- An invocation with one key in the transient map. -/
def quiet (function key text : String) : Event :=
  .invoke ⟨function, [], ⟨fun _ => none, fun _ => [], fun _ => [],
    fun k => if k = key then some text else none⟩⟩

/-- The creation of a blue marble. -/
def createMarble : Event := quiet "initMarble" "marble" marbleText

/-- The marble that is created. -/
def marble1 : Marble := ⟨"marble", "marble1", "blue", 35, "tom"⟩

/-- The state after it. -/
def oneMarble : PrivateState := ((system fabricPrivateEnv).exec noData [createMarble]).getD noData

theorem exec_createMarble :
    (system fabricPrivateEnv).exec noData [createMarble] = some oneMarble := by
  have hsome : ((system fabricPrivateEnv).exec noData [createMarble]).isSome = true := by
    decide +kernel
  obtain ⟨s, hs⟩ := Option.isSome_iff_exists.mp hsome
  rw [oneMarble, hs]
  rfl

theorem consistent_oneMarble : Consistent fabricPrivateEnv oneMarble.data :=
  consistent_of_exec exec_createMarble

/-- What a run keeps of a marble that was last written as in `s`, as long as it
    lives. -/
structure Kept (env : PrivateEnv) (s : PrivateState) (m : Marble) (price : Int64)
    (u : PrivateState) : Prop where
  marble : ∃ owner,
    (u.data collectionMarbles).get m.name = some { m with owner := owner }.marshal
  details : (u.data collectionMarblePrivateDetails).get m.name =
    if u.height ≤ s.expiringBlock collectionMarblePrivateDetails m.name then
      some (detailsText m.name price)
    else none
  marbleWritten : s.written collectionMarbles m.name ≤ u.written collectionMarbles m.name
  detailsWritten : u.written collectionMarblePrivateDetails m.name =
    s.written collectionMarblePrivateDetails m.name

theorem Effect.kept {u v : PrivateState} {m : Marble} {price : Int64} (h : Effect env u v event)
    (hsound : Marbles.Sound env.toEnv (u.data collectionMarbles)) (haged : Aged env u)
    (hno : ¬ AsksToDelete env m.name event)
    (hlive : v.height ≤ s.expiringBlock collectionMarbles m.name)
    (hkept : Kept env s m price u) : Kept env s m price v := by
  obtain ⟨⟨owner, hmarble⟩, hdetails, hwritten, hold⟩ := hkept
  refine ⟨?_, ?_, hwritten.trans ((h.later haged).2 _ _), ?_⟩
  -- the marble: no step but an expiry could take it, and that is to come
  · rcases h.keeps_marble (m := { m with owner := owner }) hsound hmarble with
      ⟨owner', hmarble'⟩ | ⟨-, ⟨hasks, -⟩ | ⟨rfl, hexpired⟩⟩
    · exact ⟨owner', hmarble'⟩
    · exact absurd hasks hno
    · have hexpires : s.expiringBlock collectionMarbles m.name ≤
          u.expiringBlock collectionMarbles m.name :=
        Nat.succ_le_succ (Nat.add_le_add_right hwritten _)
      exact absurd (hlive.trans (hexpires.trans hexpired)) (Nat.not_succ_le_self _)
  -- the details: a block takes them exactly when theirs has come
  · rcases h.keeps_details (m := { m with owner := owner }) hmarble with
      hasks | rfl | ⟨hheight, -, hsame⟩
    · exact absurd hasks hno
    · have hexpires : u.expiringBlock collectionMarblePrivateDetails m.name =
          s.expiringBlock collectionMarblePrivateDetails m.name := by
        rw [PrivateState.expiringBlock, hold, PrivateState.expiringBlock]
      rw [get_nextBlock, hexpires, hdetails]
      by_cases hlt : u.height < s.expiringBlock collectionMarblePrivateDetails m.name
      · have hnext : u.nextBlock.height ≤ s.expiringBlock collectionMarblePrivateDetails m.name :=
          Nat.succ_le_of_lt hlt
        rw [if_pos hlt, if_pos hlt.le, if_pos hnext]
      · have hnext : ¬ u.nextBlock.height ≤
            s.expiringBlock collectionMarblePrivateDetails m.name :=
          fun hle => hlt (Nat.lt_of_succ_le hle)
        rw [if_neg hlt, if_neg hnext]
    · rw [hsame, hheight, hdetails]
  -- and they are not written again
  · rcases h.keeps_details (m := { m with owner := owner }) hmarble with
      hasks | rfl | ⟨-, hsame, -⟩
    · exact absurd hasks hno
    · exact hold
    · exact hsame.trans hold

/-- **A marble keeps everything but its owner, until it is deleted or its block
    has come**: and its details are those it was created with, up to the block
    they go with. -/
theorem price_of_run {events events' : List Event}
    (hreach : (system env).exec noData events = some s) {m : Marble} {price : Int64}
    (hget : (s.data collectionMarbles).get m.name = some m.marshal)
    (hdetails : (s.data collectionMarblePrivateDetails).get m.name =
      some (detailsText m.name price))
    (h : (system env).Run (fun _ event => ¬ AsksToDelete env m.name event) s events' t)
    (hlive : t.height ≤ s.expiringBlock collectionMarbles m.name) :
    (∃ owner, (t.data collectionMarbles).get m.name = some { m with owner := owner }.marshal) ∧
      (t.data collectionMarblePrivateDetails).get m.name =
        if t.height ≤ s.expiringBlock collectionMarblePrivateDetails m.name then
          some (detailsText m.name price)
        else none := by
  obtain ⟨hconsistent, haged⟩ := invariant_of_exec hreach
  have hstart : Kept env s m price s := by
    refine ⟨⟨m.owner, hget⟩, ?_, Nat.le_refl _, rfl⟩
    rw [hdetails, if_pos (haged.live _ _ (by rw [hdetails]; exact Option.some_ne_none _))]
  have hinv := h.preserves (I := fun u => Consistent env u.data ∧ Aged env u ∧
    (u.height ≤ s.expiringBlock collectionMarbles m.name → Kept env s m price u)) ?_
    ⟨hconsistent, haged, fun _ => hstart⟩
  · have hkept := hinv.2.2 hlive
    exact ⟨hkept.marble, hkept.details⟩
  · rintro u event v ⟨hu, haged, hkept⟩ hno hstep
    have heffect := effect_of_step hu.sound hstep
    refine ⟨heffect.consistent haged hu, heffect.aged hu.sound haged, fun hlive => ?_⟩
    exact heffect.kept hu.sound haged hno hlive (hkept ((heffect.later haged).1.trans hlive))

/-- After five blocks the price is gone, and the marble is there. -/
theorem price_oneMarble : ∃ t, (system fabricPrivateEnv).exec oneMarble
      [.block, .block, .block, .block, .block] = some t ∧
    (∃ owner, (t.data collectionMarbles).get "marble1" =
      some { marble1 with owner := owner }.marshal) ∧
    (t.data collectionMarblePrivateDetails).get "marble1" = none := by
  have hget : (oneMarble.data collectionMarbles).get marble1.name = some marble1.marshal := by
    decide +kernel
  have hdetails : (oneMarble.data collectionMarblePrivateDetails).get marble1.name =
      some (detailsText marble1.name 99) := by
    decide +kernel
  have hblocks : (system fabricPrivateEnv).Run
      (fun _ event => ¬ AsksToDelete fabricPrivateEnv marble1.name event) oneMarble
      [.block, .block, .block, .block, .block]
      oneMarble.nextBlock.nextBlock.nextBlock.nextBlock.nextBlock :=
    .cons id rfl (.cons id rfl (.cons id rfl (.cons id rfl (.cons id rfl (.nil _)))))
  obtain ⟨hmarble, hprice⟩ := price_of_run exec_createMarble hget hdetails hblocks
    (by decide +kernel)
  exact ⟨_, rfl, hmarble, hprice.trans (if_neg (by decide +kernel))⟩

end MarblesPrivate

end Hfrd.Chaincode
