/-
  Hfrd.Channel.GroupResult

  When `UpdateChannelGroup` returns, and what the config that it returns holds
  at every path.
-/

import Hfrd.Channel.GroupSteps

namespace Hfrd.Channel

open Hfrd.Go

/-! ## Places apart -/

/-- Neither place is below the other. -/
def Apart (p q : List String) : Prop := ¬ p <+: q ∧ ¬ q <+: p

instance (p q : List String) : Decidable (Apart p q) := inferInstanceAs (Decidable (_ ∧ _))

theorem Apart.symm {p q : List String} (h : Apart p q) : Apart q p := ⟨h.2, h.1⟩

theorem Apart.append {p q : List String} (h : Apart p q) (rest : List String) :
    Apart p (q ++ rest) := by
  refine ⟨fun hp => ?_, fun hq => h.2 ((List.prefix_append q rest).trans hq)⟩
  exact (List.prefix_or_prefix_of_prefix hp (List.prefix_append q rest)).elim h.1 h.2

/-- The places that `UpdateChannelGroup` assigns. -/
def places (mspID : String) : List (List String) :=
  [maxMessageCountAt, preferredMaxBytesAt, batchTimeoutAt, addressesAt, anchorPeersAt mspID]

theorem anchorPeersAt_apart (mspID : String) {place : List String}
    (h : place ∈ [maxMessageCountAt, preferredMaxBytesAt, batchTimeoutAt, addressesAt]) :
    Apart (anchorPeersAt mspID) place := by
  simp only [List.mem_cons, List.not_mem_nil, or_false] at h
  rcases h with rfl | rfl | rfl | rfl <;>
    simp [Apart, anchorPeersAt, mspValues, maxMessageCountAt, preferredMaxBytesAt, batchTimeoutAt,
      addressesAt, BATCH_SIZE_VALUE, BATCH_TIMEOUT_VALUE, ORDERER_ADDRESSES_VALUE,
      List.cons_prefix_cons]

theorem Assigned.valueAt_place {place : List String} {new v v' : Value} {differs : Bool}
    (h : Assigned place new differs v v') (rest : List String) :
    valueAt v' (place ++ rest)
      = if differs then valueAt new rest else valueAt v (place ++ rest) := by
  cases differs with
  | true => exact h.assigned rfl rest
  | false => rw [h.unchanged rfl]; rfl

theorem Assigned.valueAt_apart {place p : List String} {new v v' : Value} {differs : Bool}
    (h : Assigned place new differs v v') (hp : Apart place p) (rest : List String) :
    valueAt v' (p ++ rest) = valueAt v (p ++ rest) :=
  h.apart _ (hp.append rest).1 (hp.append rest).2

/-! ## When it returns -/

theorem outline_eq_object {v : Value} (h : outline v = .object []) :
    ∃ fields, v = .object fields := by
  cases v with
  | object fields => exact ⟨fields, rfl⟩
  | scalar => cases h
  | array => cases h
  | other => cases h

theorem HasMap.of_outline {v v' : Value} {path : List String} (h : HasMap v path)
    (houtline : (valueAt v' path).map outline = (valueAt v path).map outline) :
    HasMap v' path := by
  obtain ⟨fields, hfields⟩ := h
  rw [hfields] at houtline
  obtain ⟨w, hw, hobject⟩ := Option.map_eq_some_iff.mp houtline
  obtain ⟨fields', rfl⟩ := outline_eq_object hobject
  exact ⟨fields', hw⟩

theorem Assigned.hasMap {place path : List String} {new v v' : Value} {differs : Bool}
    (h : Assigned place new differs v v') (hpath : ¬ place <+: path) (hmap : HasMap v path) :
    HasMap v' path :=
  hmap.of_outline (h.outlines path hpath)

/-- What `UpdateChannelGroup` needs: a config that it can read, anchor peers
    with a host and a port, and the anchor peers of a config in a value. -/
structure Updatable (parseFloat : String → Except String Number) (group : Fields)
    (options : UpdateOptions) : Prop where
  readable : (getConfigFromChannelGroup group options.mspID).isSome
  anchors : ∀ anchorPeer ∈ options.anchorPeers, ∃ host port n,
    split anchorPeer ":" = [host, port] ∧ parseFloat port = .ok n
  anchorValue : options.anchorPeers ≠ [] → HasMap (.object group) (anchorPeersAt options.mspID) →
    HasMap (.object group) (anchorPeersAt options.mspID ++ ["value"])

/-- The maps that are assigned to. -/
def assignedMaps (mspID : String) : List (List String) :=
  [BATCH_SIZE_VALUE, BATCH_TIMEOUT_VALUE, ORDERER_ADDRESSES_VALUE, mspValues mspID,
    anchorPeersAt mspID ++ ["value"]]

/-- The steps before the last keep these maps. -/
theorem Assigned.hasMap_of_mem {place path : List String} {new v v' : Value} {differs : Bool}
    (h : Assigned place new differs v v') {mspID : String}
    (hplace : place ∈ [maxMessageCountAt, preferredMaxBytesAt, batchTimeoutAt, addressesAt])
    (hpath : path ∈ assignedMaps mspID) (hmap : HasMap v path) : HasMap v' path := by
  refine h.hasMap ?_ hmap
  simp only [assignedMaps, List.mem_cons, List.not_mem_nil, or_false] at hplace hpath
  rcases hplace with rfl | rfl | rfl | rfl <;> rcases hpath with rfl | rfl | rfl | rfl | rfl <;>
    simp [anchorPeersAt, mspValues, maxMessageCountAt, preferredMaxBytesAt, batchTimeoutAt,
      addressesAt, BATCH_SIZE_VALUE, BATCH_TIMEOUT_VALUE, ORDERER_ADDRESSES_VALUE,
      List.cons_prefix_cons]

theorem HasMap.of_append {v w : Value} {path : List String} {key : String}
    (h : valueAt v (path ++ [key]) = some w) : HasMap v path := by
  rw [valueAt_append] at h
  obtain ⟨child, hchild, h⟩ := Option.bind_eq_some_iff.mp h
  rw [valueAt] at h
  obtain ⟨value, hvalue, -⟩ := Option.bind_eq_some_iff.mp h
  obtain ⟨fields, hfields, -⟩ := Option.bind_eq_some_iff.mp hvalue
  exact ⟨fields, by rw [hchild, object?_eq_some.mp hfields]⟩

theorem exists_updateOrdererAddresses (config : CurrentConfig) {state : UpdateState}
    (h : HasMap state.1 ORDERER_ADDRESSES_VALUE) :
    ∃ state', updateOrdererAddresses config state = .ok state' := by
  unfold updateOrdererAddresses
  split
  · exact ⟨state, rfl⟩
  · exact exists_assignIf _ _ _ _ h

theorem readAnchorPeers_eq_some_some {o : Option Value} {anchorPeers : Fields}
    (h : readAnchorPeers o = some (some anchorPeers)) : o = some (.object anchorPeers) := by
  cases o with
  | none => cases h
  | some v =>
      obtain ⟨fields, hfields, heq⟩ := Option.map_eq_some_iff.mp h
      cases heq
      rw [object?_eq_some.mp hfields]

theorem exists_mapM_anchorConfig {parseFloat : String → Except String Number}
    {anchorPeers : List String} (h : ∀ anchorPeer ∈ anchorPeers, ∃ host port n,
      split anchorPeer ":" = [host, port] ∧ parseFloat port = .ok n) :
    ∃ anchors, anchorPeers.mapM (anchorConfig parseFloat) = .ok anchors := by
  induction anchorPeers with
  | nil => exact ⟨[], rfl⟩
  | cons anchorPeer anchorPeers ih =>
      obtain ⟨⟨host, port, n, hsplit, hport⟩, hrest⟩ := List.forall_mem_cons.mp h
      obtain ⟨anchors, hanchors⟩ := ih hrest
      have hhead : anchorConfig parseFloat anchorPeer
          = .ok (.object [("host", .string host), ("port", .number n)]) := by
        simp only [anchorConfig, hsplit, hport]
        rfl
      exact ⟨_ :: anchors, by rw [List.mapM_cons, hhead, hanchors]; rfl⟩

theorem exists_updateAnchorPeers {parseFloat : String → Except String Number}
    {group : Fields} {options : UpdateOptions} {config : CurrentConfig}
    (h : Updatable parseFloat group options)
    (hcurrent : getConfigFromChannelGroup group options.mspID = some config)
    {state : UpdateState} (hmsp : state.2.mspID = options.mspID)
    (hpeers : state.2.anchorPeers = options.anchorPeers)
    (hvalues : HasMap state.1 (mspValues options.mspID))
    (hvalue : HasMap (.object group) (anchorPeersAt options.mspID ++ ["value"]) →
      HasMap state.1 (anchorPeersAt options.mspID ++ ["value"])) :
    ∃ state', updateAnchorPeers parseFloat config state = .ok state' := by
  unfold updateAnchorPeers
  rw [hpeers, hmsp]
  split
  · exact ⟨state, rfl⟩
  · next hset =>
      obtain ⟨anchors, hanchors⟩ := exists_mapM_anchorConfig h.anchors
      cases hconfig : config.anchorPeers with
      -- the entry is written as a whole, which needs the values of the organization
      | none =>
          obtain ⟨state', hstate⟩ := exists_assignIf true "AnchorPeers" (newAnchorConfig anchors)
            setPeerOrgUpdate hvalues
          exact ⟨state', bind_eq_ok.mpr ⟨anchors, hanchors, hstate⟩⟩
      -- only the list is written, which needs the map under `value`
      | some anchorPeers =>
          have hread := (getConfig_eq_some_iff.mp hcurrent).2.2.2.1.2
          rw [hconfig] at hread
          have hat := readAnchorPeers_eq_some_some hread
          obtain ⟨value, hmap⟩ := h.anchorValue hset ⟨anchorPeers, hat⟩
          have hv := hmap
          rw [valueAt_append, hat, Option.bind_some, valueAt_object] at hv
          obtain ⟨child, hlookup, hchild⟩ := Option.bind_eq_some_iff.mp hv
          cases hchild
          have hbind : (anchorPeers.lookup "value").bind Value.object? = some value := by
            rw [hlookup]
            rfl
          obtain ⟨state', hstate⟩ := exists_assignIf
            (((value.lookup "anchor_peers").getD .null).text != (Value.array anchors).text)
            "anchor_peers" (.other (.array anchors)) setPeerOrgUpdate (hvalue ⟨value, hmap⟩)
          refine ⟨state', bind_eq_ok.mpr ⟨anchors, hanchors, ?_⟩⟩
          refine bind_eq_ok.mpr ⟨value, orPanic_eq_ok.mpr hbind, ?_⟩
          rw [anchorPeersAt, List.append_assoc] at hstate
          exact hstate

/-- `UpdateChannelGroup` returns. -/
theorem exists_updateChannelGroup {parseFloat : String → Except String Number} {group : Fields}
    {options : UpdateOptions} (h : Updatable parseFloat group options) :
    ∃ result, updateChannelGroup parseFloat group options = .ok result := by
  obtain ⟨config, hconfig⟩ := Option.isSome_iff_exists.mp h.readable
  obtain ⟨hcount, hbytes, htime, ⟨⟨values, hvalues⟩, -⟩, ⟨value, haddresses⟩, -⟩ :=
    getConfig_eq_some_iff.mp hconfig
  have hsize : HasMap (.object group) BATCH_SIZE_VALUE := .of_append hcount
  have htimeout : HasMap (.object group) BATCH_TIMEOUT_VALUE := .of_append htime
  have horderers : HasMap (.object group) ORDERER_ADDRESSES_VALUE :=
    ⟨value, objectAt_eq_some.mp haddresses⟩
  have hmsp : HasMap (.object group) (mspValues options.mspID) :=
    ⟨values, objectAt_eq_some.mp hvalues⟩
  -- each step keeps the maps that the later ones assign to
  obtain ⟨⟨v₁, o₁⟩, h₁⟩ : ∃ r, updateMaxMessageCount config (.object group, options) = .ok r :=
    exists_assignIf _ _ _ _ hsize
  obtain ⟨hs₁, ho₁⟩ := assignIf_spec h₁
  have keep₁ : ∀ path ∈ assignedMaps options.mspID, HasMap (.object group) path → HasMap v₁ path :=
    fun path hpath => hs₁.hasMap_of_mem (by decide) hpath
  obtain ⟨⟨v₂, o₂⟩, h₂⟩ : ∃ r, updatePreferredMaxBytes config (v₁, o₁) = .ok r :=
    exists_assignIf _ _ _ _ (keep₁ _ (by simp [assignedMaps]) hsize)
  obtain ⟨hs₂, ho₂⟩ := assignIf_spec h₂
  have keep₂ : ∀ path ∈ assignedMaps options.mspID, HasMap (.object group) path → HasMap v₂ path :=
    fun path hpath hmap => hs₂.hasMap_of_mem (by decide) hpath (keep₁ path hpath hmap)
  obtain ⟨⟨v₃, o₃⟩, h₃⟩ : ∃ r, updateBatchTimeout config (v₂, o₂) = .ok r :=
    exists_assignIf _ _ _ _ (keep₂ _ (by simp [assignedMaps]) htimeout)
  obtain ⟨hs₃, ho₃⟩ := assignIf_spec h₃
  have keep₃ : ∀ path ∈ assignedMaps options.mspID, HasMap (.object group) path → HasMap v₃ path :=
    fun path hpath hmap => hs₃.hasMap_of_mem (by decide) hpath (keep₂ path hpath hmap)
  obtain ⟨⟨v₄, o₄⟩, h₄⟩ : ∃ r, updateOrdererAddresses config (v₃, o₃) = .ok r :=
    exists_updateOrdererAddresses config (keep₃ _ (by simp [assignedMaps]) horderers)
  obtain ⟨hs₄, ho₄⟩ := updateOrdererAddresses_spec h₄
  have keep₄ : ∀ path ∈ assignedMaps options.mspID, HasMap (.object group) path → HasMap v₄ path :=
    fun path hpath hmap => hs₄.hasMap_of_mem (by decide) hpath (keep₃ path hpath hmap)
  have hoptions : o₄.mspID = options.mspID ∧ o₄.anchorPeers = options.anchorPeers := by
    subst ho₁ ho₂ ho₃ ho₄
    simp only [setOrdererOrgUpdate_if, setOrdererAddressesUpdate_if, and_self]
  obtain ⟨state₅, h₅⟩ : ∃ r, updateAnchorPeers parseFloat config (v₄, o₄) = .ok r :=
    exists_updateAnchorPeers h hconfig hoptions.1 hoptions.2 (keep₄ _ (by simp [assignedMaps]) hmsp)
      (keep₄ _ (by simp [assignedMaps]))
  exact ⟨_, bind_eq_ok.mpr ⟨config, orPanic_eq_ok.mpr hconfig,
    bind_eq_ok.mpr ⟨_, h₁, bind_eq_ok.mpr ⟨_, h₂, bind_eq_ok.mpr ⟨_, h₃,
      bind_eq_ok.mpr ⟨_, h₄, bind_eq_ok.mpr ⟨_, h₅, rfl⟩⟩⟩⟩⟩⟩⟩

/-! ## The values that are left -/

/-- The list of the anchor peers is below the anchor peers. -/
theorem anchorListAt_eq (mspID : String) :
    anchorListAt mspID = anchorPeersAt mspID ++ ["value", "anchor_peers"] := by
  simp only [anchorListAt, anchorPeersAt, List.append_assoc, List.cons_append, List.nil_append]

theorem apart_anchorListAt {mspID : String} {p : List String} (h : Apart (anchorPeersAt mspID) p) :
    Apart (anchorListAt mspID) p := by
  rw [anchorListAt_eq]
  exact (h.symm.append _).symm

theorem AnchorStep.valueAt_apart {parseFloat : String → Except String Number}
    {current : Option Fields} {mspID : String} {anchorPeers : List String} {v v' : Value}
    {flag : Bool} (h : AnchorStep parseFloat current mspID anchorPeers v v' flag)
    {p : List String} (hp : Apart (anchorPeersAt mspID) p) (rest : List String) :
    valueAt v' (p ++ rest) = valueAt v (p ++ rest) := by
  cases h with
  | unset => rfl
  | new _ _ _ h => exact h.valueAt_apart hp rest
  | list _ _ _ _ h => exact h.valueAt_apart (apart_anchorListAt hp) rest

theorem AnchorStep.outlines {parseFloat : String → Except String Number}
    {current : Option Fields} {mspID : String} {anchorPeers : List String} {v v' : Value}
    {flag : Bool} (h : AnchorStep parseFloat current mspID anchorPeers v v' flag)
    {p : List String} (hp : ¬ anchorPeersAt mspID <+: p) :
    (valueAt v' p).map outline = (valueAt v p).map outline := by
  cases h with
  | unset => rfl
  | new _ _ _ h => exact h.outlines p hp
  | list _ _ _ _ h =>
      refine h.outlines p fun hlist => hp ?_
      rw [anchorListAt_eq] at hlist
      exact (List.prefix_append _ _).trans hlist

section Result

variable {parseFloat : String → Except String Number} {group : Fields} {options : UpdateOptions}
  {config : CurrentConfig} {v₁ v₂ v₃ v₄ v₅ : Value} {peerOrgUpdate : Bool}

theorem Steps.valueAt_maxMessageCount
    (h : Steps parseFloat group options config v₁ v₂ v₃ v₄ v₅ peerOrgUpdate) :
    valueAt v₅ maxMessageCountAt
      = if numberDiffers config.maxMessageCount options.maxMessageCount
        then some (.number options.maxMessageCount)
        else valueAt (.object group) maxMessageCountAt := by
  have h₅ := h.anchorPeers.valueAt_apart (p := maxMessageCountAt)
    (anchorPeersAt_apart _ (by decide)) []
  have h₄ := h.addresses.valueAt_apart (p := maxMessageCountAt) (by decide) []
  have h₃ := h.batchTimeout.valueAt_apart (p := maxMessageCountAt) (by decide) []
  have h₂ := h.preferredMaxBytes.valueAt_apart (p := maxMessageCountAt) (by decide) []
  have h₁ := h.maxMessageCount.valueAt_place []
  rw [List.append_nil] at h₁ h₂ h₃ h₄ h₅
  rw [h₅, h₄, h₃, h₂, h₁]
  rfl

theorem Steps.valueAt_preferredMaxBytes
    (h : Steps parseFloat group options config v₁ v₂ v₃ v₄ v₅ peerOrgUpdate) :
    valueAt v₅ preferredMaxBytesAt
      = if numberDiffers config.preferredMaxBytes options.preferredMaxBytes
        then some (.number options.preferredMaxBytes)
        else valueAt (.object group) preferredMaxBytesAt := by
  have h₅ := h.anchorPeers.valueAt_apart (p := preferredMaxBytesAt)
    (anchorPeersAt_apart _ (by decide)) []
  have h₄ := h.addresses.valueAt_apart (p := preferredMaxBytesAt) (by decide) []
  have h₃ := h.batchTimeout.valueAt_apart (p := preferredMaxBytesAt) (by decide) []
  have h₂ := h.preferredMaxBytes.valueAt_place []
  have h₁ := h.maxMessageCount.valueAt_apart (p := preferredMaxBytesAt) (by decide) []
  rw [List.append_nil] at h₁ h₂ h₃ h₄ h₅
  rw [h₅, h₄, h₃, h₂, h₁]
  rfl

theorem Steps.valueAt_batchTimeout
    (h : Steps parseFloat group options config v₁ v₂ v₃ v₄ v₅ peerOrgUpdate) :
    valueAt v₅ batchTimeoutAt
      = if timeoutDiffers config options then some (.string options.batchTimeout)
        else valueAt (.object group) batchTimeoutAt := by
  have h₅ := h.anchorPeers.valueAt_apart (p := batchTimeoutAt)
    (anchorPeersAt_apart _ (by decide)) []
  have h₄ := h.addresses.valueAt_apart (p := batchTimeoutAt) (by decide) []
  have h₃ := h.batchTimeout.valueAt_place []
  have h₂ := h.preferredMaxBytes.valueAt_apart (p := batchTimeoutAt) (by decide) []
  have h₁ := h.maxMessageCount.valueAt_apart (p := batchTimeoutAt) (by decide) []
  rw [List.append_nil] at h₁ h₂ h₃ h₄ h₅
  rw [h₅, h₄, h₃, h₂, h₁]
  rfl

theorem Steps.valueAt_addresses
    (h : Steps parseFloat group options config v₁ v₂ v₃ v₄ v₅ peerOrgUpdate) :
    valueAt v₅ addressesAt
      = if addressesDiffer config options
        then some (.other (newAddresses config options).json)
        else valueAt (.object group) addressesAt := by
  have h₅ := h.anchorPeers.valueAt_apart (p := addressesAt) (anchorPeersAt_apart _ (by decide)) []
  have h₄ := h.addresses.valueAt_place []
  have h₃ := h.batchTimeout.valueAt_apart (p := addressesAt) (by decide) []
  have h₂ := h.preferredMaxBytes.valueAt_apart (p := addressesAt) (by decide) []
  have h₁ := h.maxMessageCount.valueAt_apart (p := addressesAt) (by decide) []
  rw [List.append_nil] at h₁ h₂ h₃ h₄ h₅
  rw [h₅, h₄, h₃, h₂, h₁]
  rfl

/-- The anchor peers are those of the input until the last step. -/
theorem Steps.valueAt_anchorPeers
    (h : Steps parseFloat group options config v₁ v₂ v₃ v₄ v₅ peerOrgUpdate)
    (rest : List String) :
    valueAt v₄ (anchorPeersAt options.mspID ++ rest)
      = valueAt (.object group) (anchorPeersAt options.mspID ++ rest) := by
  rw [h.addresses.valueAt_apart (anchorPeersAt_apart _ (by decide)).symm,
    h.batchTimeout.valueAt_apart (anchorPeersAt_apart _ (by decide)).symm,
    h.preferredMaxBytes.valueAt_apart (anchorPeersAt_apart _ (by decide)).symm,
    h.maxMessageCount.valueAt_apart (anchorPeersAt_apart _ (by decide)).symm]

/-- What is below none of the five places is not touched. -/
theorem Steps.frame (h : Steps parseFloat group options config v₁ v₂ v₃ v₄ v₅ peerOrgUpdate)
    {p : List String} (hp : ∀ place ∈ places options.mspID, ¬ place <+: p) :
    (valueAt v₅ p).map outline = (valueAt (.object group) p).map outline := by
  simp only [places, List.forall_mem_cons] at hp
  obtain ⟨hcount, hbytes, htimeout, haddresses, hanchors, -⟩ := hp
  rw [h.anchorPeers.outlines hanchors, h.addresses.outlines p haddresses,
    h.batchTimeout.outlines p htimeout, h.preferredMaxBytes.outlines p hbytes,
    h.maxMessageCount.outlines p hcount]

theorem Steps.exists_channelGroup
    (h : Steps parseFloat group options config v₁ v₂ v₃ v₄ v₅ peerOrgUpdate) :
    ∃ w, valueAt v₅ ["channel_group"] = some w := by
  have hcount := (getConfig_eq_some_iff.mp h.current).1
  have hsplit : maxMessageCountAt = ["channel_group"] ++ maxMessageCountAt.tail := rfl
  rw [hsplit, valueAt_append] at hcount
  obtain ⟨child, hchild, -⟩ := Option.bind_eq_some_iff.mp hcount
  have hframe := h.frame (p := ["channel_group"]) (by
    simp [places, anchorPeersAt, mspValues, maxMessageCountAt, preferredMaxBytesAt,
      batchTimeoutAt, addressesAt, BATCH_SIZE_VALUE, BATCH_TIMEOUT_VALUE, ORDERER_ADDRESSES_VALUE,
      List.cons_prefix_cons])
  rw [hchild] at hframe
  obtain ⟨w, hw, -⟩ := Option.map_eq_some_iff.mp hframe
  exact ⟨w, hw⟩

/-- The config that is returned is the channel group after the five steps. -/
theorem updateChannelGroup_result {group' : Fields} {options' : UpdateOptions}
    (h : updateChannelGroup parseFloat group options = .ok (group', options')) :
    ∃ config v₁ v₂ v₃ v₄ v₅ peerOrgUpdate w,
      Steps parseFloat group options config v₁ v₂ v₃ v₄ v₅ peerOrgUpdate ∧
      options' = flagged config options peerOrgUpdate ∧
      group' = [("channel_group", w)] ∧ valueAt v₅ ["channel_group"] = some w ∧
      ∀ p, valueAt (.object group') ("channel_group" :: p) = valueAt v₅ ("channel_group" :: p) := by
  obtain ⟨config, v₁, v₂, v₃, v₄, v₅, flag, hsteps, rfl, rfl⟩ := updateChannelGroup_steps h
  obtain ⟨w, hw⟩ := hsteps.exists_channelGroup
  refine ⟨config, v₁, v₂, v₃, v₄, v₅, flag, w, hsteps, rfl, by rw [hw]; rfl, hw, fun p => ?_⟩
  rw [show "channel_group" :: p = ["channel_group"] ++ p from rfl, valueAt_append v₅, hw,
    valueAt_append, Option.getD_some]
  rfl

end Result

end Hfrd.Channel
