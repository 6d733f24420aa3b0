/-
  Hfrd.Channel.ChannelSettings

  The settings in the config that `UpdateChannelGroup` returns, compared with
  those of the config it was given: what is requested, what stays, what the
  flags say, and what a second update finds.

  Configs are compared by the JSON they are written as.
-/

import Hfrd.Channel.OrdererAddresses

namespace Hfrd.Channel

open Hfrd.Go

/-! ## Settings as they are written -/

/-- The value that is written at a path. -/
def writtenAt (group : Fields) (path : List String) : Option Value :=
  valueAt (Value.object group).decoded path

theorem valueAt_decoded {v w : Value} {path : List String} (h : valueAt v path = some w) :
    valueAt v.decoded path = some w.decoded := by
  induction path generalizing v with
  | nil =>
      cases h
      rfl
  | cons key path ih =>
      rw [valueAt] at h
      obtain ⟨child, hchild, h⟩ := Option.bind_eq_some_iff.mp h
      obtain ⟨fields, hfields, hlookup⟩ := Option.bind_eq_some_iff.mp hchild
      rw [object?_eq_some.mp hfields, Value.decoded, valueAt_object, lookup_decodedFields, hlookup]
      exact ih h

theorem HasMap.valueAt_decoded {v : Value} {path : List String} (h : HasMap v path)
    (key : String) :
    valueAt v.decoded (path ++ [key]) = (valueAt v (path ++ [key])).map Value.decoded := by
  obtain ⟨fields, hfields⟩ := h
  rw [valueAt_append, valueAt_append, Channel.valueAt_decoded hfields, hfields]
  rw [Value.decoded, Option.bind_some, Option.bind_some, valueAt_object, valueAt_object,
    lookup_decodedFields]
  cases fields.lookup key <;> rfl

theorem HasMap.decoded {v : Value} {path : List String} (h : HasMap v path) :
    HasMap v.decoded path := by
  obtain ⟨fields, hfields⟩ := h
  exact ⟨Value.decodedFields fields, Channel.valueAt_decoded hfields⟩

theorem outline_decoded {v v' : Value} (h : outline v' = outline v) :
    outline v'.decoded = outline v.decoded := by
  cases v with
  | object fields =>
      obtain ⟨fields', rfl⟩ := outline_eq_object h
      rfl
  | scalar => cases v' <;> cases h; rfl
  | array => cases v' <;> cases h; rfl
  | other => cases v' <;> cases h; rfl

/-- Values that look the same down a path are written the same there. -/
theorem outlines_decoded {v v' : Value} {path : List String}
    (h : ∀ p, p <+: path → (valueAt v' p).map outline = (valueAt v p).map outline) :
    (valueAt v'.decoded path).map outline = (valueAt v.decoded path).map outline := by
  induction path generalizing v v' with
  | nil => exact congrArg some (outline_decoded (Option.some.inj (h [] List.prefix_rfl)))
  | cons key path ih =>
      have htop : outline v' = outline v := Option.some.inj (h [] List.nil_prefix)
      cases v with
      | object fields =>
          obtain ⟨fields', rfl⟩ := outline_eq_object htop
          have hkey := h [key] ⟨path, rfl⟩
          rw [valueAt_object, valueAt_object] at hkey
          rw [Value.decoded, Value.decoded, valueAt_object, valueAt_object, lookup_decodedFields,
            lookup_decodedFields]
          cases hc : fields.lookup key with
          | none =>
              cases hc' : fields'.lookup key with
              | none => rfl
              | some child' => simp [hc, hc', valueAt] at hkey
          | some child =>
              cases hc' : fields'.lookup key with
              | none => simp [hc, hc', valueAt] at hkey
              | some child' =>
                  -- the paths below the key
                  refine ih fun p hp => ?_
                  have hp' := h (key :: p) (List.cons_prefix_cons.mpr ⟨rfl, hp⟩)
                  rwa [valueAt_object, valueAt_object, hc, hc'] at hp'
      | scalar => cases v' <;> cases htop; rfl
      | array => cases v' <;> cases htop; rfl
      | other => cases v' <;> cases htop; rfl

/-! ## The batch settings -/

/-- A number that is left or, when one is asked for, replaced. -/
def wantedNumber (current requested : Number) : Number :=
  if requested.isZero then current else requested

/-- The batch timeout that is waited for. -/
def wantedTimeout (current requested : String) : String :=
  if requested = "" then current else requested

theorem numberDiffers_iff {current requested : Number} :
    numberDiffers current requested = true ↔ wantedNumber current requested ≠ current := by
  rw [numberDiffers, wantedNumber, Number.eq]
  cases hzero : requested.isZero with
  | true => simp
  | false => simpa using ne_comm

/-- A number that is assigned where it differs is written as it is wanted. -/
theorem written_number {v v' : Value} {path : List String} {current requested : Number}
    (hcurrent : valueAt v path = some (.number current))
    (h : valueAt v' path = if numberDiffers current requested then some (.number requested)
      else valueAt v path) :
    valueAt v'.decoded path = some (.number (wantedNumber current requested)) := by
  refine valueAt_decoded (w := .number _) ?_
  rw [h]
  split
  · next hdiffers =>
      rw [numberDiffers_iff, wantedNumber] at hdiffers
      rw [wantedNumber, if_neg fun hzero => hdiffers (if_pos hzero)]
  · next hsame =>
      rw [numberDiffers_iff, not_not] at hsame
      rw [hsame]
      exact hcurrent

theorem timeoutDiffers_iff {config : CurrentConfig} {options : UpdateOptions} :
    timeoutDiffers config options = true ↔
      wantedTimeout config.batchTimeout options.batchTimeout ≠ config.batchTimeout := by
  rw [timeoutDiffers, wantedTimeout]
  by_cases hempty : options.batchTimeout = ""
  · simp [hempty]
  · simpa [hempty] using ne_comm

section Settings

variable {parseFloat : String → Except String Number} {group : Fields} {options : UpdateOptions}
  {config : CurrentConfig} {v₁ v₂ v₃ v₄ v₅ : Value} {peerOrgUpdate : Bool}

theorem Steps.written_maxMessageCount
    (h : Steps parseFloat group options config v₁ v₂ v₃ v₄ v₅ peerOrgUpdate) :
    valueAt v₅.decoded maxMessageCountAt
      = some (.number (wantedNumber config.maxMessageCount options.maxMessageCount)) :=
  written_number (getConfig_eq_some_iff.mp h.current).1 h.valueAt_maxMessageCount

theorem Steps.written_preferredMaxBytes
    (h : Steps parseFloat group options config v₁ v₂ v₃ v₄ v₅ peerOrgUpdate) :
    valueAt v₅.decoded preferredMaxBytesAt
      = some (.number (wantedNumber config.preferredMaxBytes options.preferredMaxBytes)) :=
  written_number (getConfig_eq_some_iff.mp h.current).2.1 h.valueAt_preferredMaxBytes

theorem Steps.written_batchTimeout
    (h : Steps parseFloat group options config v₁ v₂ v₃ v₄ v₅ peerOrgUpdate) :
    valueAt v₅.decoded batchTimeoutAt
      = some (.string (wantedTimeout config.batchTimeout options.batchTimeout)) := by
  refine valueAt_decoded (w := .string _) ?_
  rw [h.valueAt_batchTimeout]
  split
  · next hdiffers =>
      rw [timeoutDiffers_iff, wantedTimeout] at hdiffers
      rw [wantedTimeout, if_neg fun hempty => hdiffers (if_pos hempty)]
  · next hsame =>
      rw [timeoutDiffers_iff, not_not] at hsame
      rw [hsame]
      exact (getConfig_eq_some_iff.mp h.current).2.2.1

/-! ## The addresses -/

theorem not_prefix_maps {place path : List String} {mspID : String} (hplace : place ∈ places mspID)
    (hpath : path ∈ [ORDERER_ADDRESSES_VALUE, mspValues mspID]) : ¬ place <+: path := by
  simp only [places, List.mem_cons, List.not_mem_nil, or_false] at hplace hpath
  rcases hplace with rfl | rfl | rfl | rfl | rfl <;> rcases hpath with rfl | rfl <;>
    simp [anchorPeersAt, mspValues, maxMessageCountAt, preferredMaxBytesAt, batchTimeoutAt,
      addressesAt, BATCH_SIZE_VALUE, BATCH_TIMEOUT_VALUE, ORDERER_ADDRESSES_VALUE,
      List.cons_prefix_cons]

/-- The maps above the addresses and the anchor peers are maps after the update,
    as no place that is assigned is above them. -/
theorem Steps.hasMap (h : Steps parseFloat group options config v₁ v₂ v₃ v₄ v₅ peerOrgUpdate)
    {path : List String} (hpath : path ∈ [ORDERER_ADDRESSES_VALUE, mspValues options.mspID]) :
    HasMap (.object group) path ∧ HasMap v₅ path := by
  obtain ⟨-, -, -, ⟨⟨values, hvalues⟩, -⟩, ⟨value, hvalue⟩, -⟩ :=
    getConfig_eq_some_iff.mp h.current
  have hgroup : HasMap (.object group) path := by
    simp only [List.mem_cons, List.not_mem_nil, or_false] at hpath
    rcases hpath with rfl | rfl
    · exact ⟨value, objectAt_eq_some.mp hvalue⟩
    · exact ⟨values, objectAt_eq_some.mp hvalues⟩
  exact ⟨hgroup, hgroup.of_outline (h.frame fun place hplace => not_prefix_maps hplace hpath)⟩

theorem Steps.hasMap_addresses
    (h : Steps parseFloat group options config v₁ v₂ v₃ v₄ v₅ peerOrgUpdate) :
    HasMap (.object group) ORDERER_ADDRESSES_VALUE ∧ HasMap v₅ ORDERER_ADDRESSES_VALUE :=
  h.hasMap List.mem_cons_self

theorem Steps.hasMap_values
    (h : Steps parseFloat group options config v₁ v₂ v₃ v₄ v₅ peerOrgUpdate) :
    HasMap (.object group) (mspValues options.mspID) ∧ HasMap v₅ (mspValues options.mspID) :=
  h.hasMap (List.mem_cons_of_mem _ (List.mem_singleton_self _))

/-- The addresses as they are written, before the update and after it. -/
theorem Steps.written_addresses
    (h : Steps parseFloat group options config v₁ v₂ v₃ v₄ v₅ peerOrgUpdate) :
    writtenAt group addressesAt = (valueAt (.object group) addressesAt).map Value.decoded ∧
      valueAt v₅.decoded addressesAt
        = if addressesDiffer config options then some (newAddresses config options).json
          else writtenAt group addressesAt := by
  obtain ⟨hgroup, hfinal⟩ := h.hasMap_addresses
  have hwritten : writtenAt group addressesAt
      = (valueAt (.object group) addressesAt).map Value.decoded := hgroup.valueAt_decoded _
  refine ⟨hwritten, ?_⟩
  rw [hwritten, show valueAt v₅.decoded addressesAt = (valueAt v₅ addressesAt).map Value.decoded
    from hfinal.valueAt_decoded _, h.valueAt_addresses]
  split
  · exact congrArg some (Strings.decoded_json _)
  · rfl

theorem requestedAddresses_none_ne {action : String} {requested : List String}
    (h : requested ≠ []) : requestedAddresses action none requested ≠ some [] := by
  rw [requestedAddresses]
  split
  · simpa using h
  · split
    · intro hnil
      have helems := foldl_addAddress_elems requested none
      rw [hnil] at helems
      cases requested with
      | nil => exact h rfl
      | cons a requested =>
          rw [List.filter_cons_of_pos (by simp [Strings.elems]), List.eraseDups_cons] at helems
          cases helems
    · split
      · rw [foldl_removeAddress]
        exact (Option.some_ne_none []).symm
      · exact (Option.some_ne_none []).symm

/-- The addresses are assigned where they are written differently. -/
theorem Steps.addressesDiffer_iff
    (h : Steps parseFloat group options config v₁ v₂ v₃ v₄ v₅ peerOrgUpdate) :
    addressesDiffer config options = true ↔
      valueAt v₅.decoded addressesAt ≠ writtenAt group addressesAt := by
  obtain ⟨hbefore, hafter⟩ := h.written_addresses
  obtain ⟨-, -, -, -, -, hread⟩ := getConfig_eq_some_iff.mp h.current
  rw [hafter]
  split
  · next hdiffers =>
      -- the texts differ, so the new list is not the one that was written
      refine iff_of_true hdiffers fun hsame => ?_
      rw [addressesDiffer, Bool.and_eq_true, bne_iff_ne, bne_iff_ne, ne_eq _ (Value.text _),
        Strings.text_eq_iff] at hdiffers
      obtain ⟨hset, hne⟩ := hdiffers
      rw [hbefore] at hsame
      rcases readAddresses_eq_some hread with ⟨hnone, -⟩ | ⟨s, hs, horderers⟩
      · rw [hnone] at hsame
        cases hsame
      · rw [hs, Option.map_some, show Value.array (s.map Value.string) = Strings.json (some s)
          from rfl, Strings.decoded_json, Option.some.injEq] at hsame
        have hnew := Strings.json_injective hsame
        rw [newAddresses, horderers, appended] at hnew
        rw [newAddresses, horderers, appended] at hne
        split at hnew
        -- an empty list is read as nil, and written as another text
        · next hempty =>
            rw [hempty] at hnew
            exact requestedAddresses_none_ne hset hnew
        · next hcons =>
            rw [if_neg hcons] at hne
            exact hne hnew.symm
  · next hsame => exact iff_of_false hsame fun hne => hne rfl

/-! ## The anchor peers -/

theorem anchorConfig_eq_ok {anchorPeer : String} {v : Value}
    (h : anchorConfig parseFloat anchorPeer = .ok v) :
    ∃ host port, v = .object [("host", .string host), ("port", .number port)] := by
  unfold anchorConfig at h
  split at h
  · split at h
    · cases h
      exact ⟨_, _, rfl⟩
    · cases h
  · cases h

theorem anchors_spec {anchorPeers : List String} {anchors : List Value}
    (h : anchorPeers.mapM (anchorConfig parseFloat) = .ok anchors) :
    (Value.array anchors).decoded = .array anchors ∧ (Value.array anchors).WellFormed := by
  have hall : ∀ v ∈ anchors, v.decoded = v ∧ v.WellFormed := by
    induction anchorPeers generalizing anchors with
    | nil =>
        cases h
        nofun
    | cons anchorPeer anchorPeers ih =>
        rw [List.mapM_cons] at h
        obtain ⟨v, hv, h⟩ := bind_eq_ok.mp h
        obtain ⟨rest, hrest, h⟩ := bind_eq_ok.mp h
        cases h
        refine List.forall_mem_cons.mpr ⟨?_, ih hrest⟩
        obtain ⟨host, port, rfl⟩ := anchorConfig_eq_ok hv
        exact ⟨rfl, .pair "host" "port" (by decide) (.scalar _) (.scalar _)⟩
  refine ⟨?_, .array fun v hv => (hall v hv).2⟩
  rw [Value.decoded, Value.decodedElements_eq]
  rw [List.map_congr_left fun v hv => (hall v hv).1, List.map_id']

theorem Steps.written_anchorPeersAt
    (h : Steps parseFloat group options config v₁ v₂ v₃ v₄ v₅ peerOrgUpdate) :
    writtenAt group (anchorPeersAt options.mspID)
        = (valueAt (.object group) (anchorPeersAt options.mspID)).map Value.decoded ∧
      valueAt v₅.decoded (anchorPeersAt options.mspID)
        = (valueAt v₅ (anchorPeersAt options.mspID)).map Value.decoded := by
  obtain ⟨hgroup, hfinal⟩ := h.hasMap_values
  exact ⟨hgroup.valueAt_decoded _, hfinal.valueAt_decoded _⟩

theorem Steps.written_anchorPeers_same
    (h : Steps parseFloat group options config v₁ v₂ v₃ v₄ v₅ peerOrgUpdate)
    (hv : v₅ = v₄) : valueAt v₅.decoded (anchorPeersAt options.mspID)
      = writtenAt group (anchorPeersAt options.mspID) := by
  obtain ⟨hbefore, hafter⟩ := h.written_anchorPeersAt
  have hsame := h.valueAt_anchorPeers []
  rw [List.append_nil] at hsame
  rw [hbefore, hafter, hv, hsame]

/-- The list of the anchor peers that an organization has. -/
theorem Steps.written_anchorList
    (h : Steps parseFloat group options config v₁ v₂ v₃ v₄ v₅ peerOrgUpdate)
    {anchorPeerConfig value : Fields} (hsome : config.anchorPeers = some anchorPeerConfig)
    (hvalue : (anchorPeerConfig.lookup "value").bind Value.object? = some value) :
    writtenAt group (anchorListAt options.mspID)
        = (value.lookup "anchor_peers").map Value.decoded ∧
      valueAt v₄.decoded (anchorListAt options.mspID)
        = (value.lookup "anchor_peers").map Value.decoded := by
  have hread := (getConfig_eq_some_iff.mp h.current).2.2.2.1.2
  rw [hsome] at hread
  have hat := readAnchorPeers_eq_some_some hread
  have hpath : ∀ path, valueAt (.object group) (anchorPeersAt options.mspID ++ "value" :: path)
      = valueAt (.object value) path := by
    intro path
    obtain ⟨child, hlookup, hchild⟩ := Option.bind_eq_some_iff.mp hvalue
    rw [valueAt_append, hat, Option.bind_some, valueAt_object, hlookup, object?_eq_some.mp hchild,
      Option.bind_some]
  have hgroup : HasMap (.object group) (anchorPeersAt options.mspID ++ ["value"]) :=
    ⟨value, hpath []⟩
  -- the steps before do not touch the anchor peers
  have hbefore : HasMap v₄ (anchorPeersAt options.mspID ++ ["value"]) := by
    refine ⟨value, ?_⟩
    rw [h.valueAt_anchorPeers]
    exact hpath []
  have hlist : anchorListAt options.mspID
      = anchorPeersAt options.mspID ++ ["value"] ++ ["anchor_peers"] := by
    rw [anchorListAt_eq, List.append_assoc]
    rfl
  rw [writtenAt, hlist, hgroup.valueAt_decoded, hbefore.valueAt_decoded, List.append_assoc,
    h.valueAt_anchorPeers, List.cons_append, List.nil_append, hpath, valueAt_object]
  cases value.lookup "anchor_peers" <;> exact ⟨rfl, rfl⟩

theorem readAnchorPeers_eq_some_none {o : Option Value} (h : readAnchorPeers o = some none) :
    o = none := by
  cases o with
  | none => rfl
  | some v =>
      obtain ⟨fields, -, hfields⟩ := Option.map_eq_some_iff.mp h
      cases hfields

/-- The anchor peers as they are written after the update. -/
theorem Steps.written_anchorPeers
    (h : Steps parseFloat group options config v₁ v₂ v₃ v₄ v₅ peerOrgUpdate) :
    (options.anchorPeers = [] → peerOrgUpdate = false) ∧
      (options.anchorPeers ≠ [] → ∃ anchors,
        options.anchorPeers.mapM (anchorConfig parseFloat) = .ok anchors ∧
        valueAt v₅.decoded (anchorListAt options.mspID) = some (.array anchors)) ∧
      (peerOrgUpdate = false → v₅ = v₄) ∧
      (peerOrgUpdate = true → valueAt v₅.decoded (anchorPeersAt options.mspID)
        ≠ writtenAt group (anchorPeersAt options.mspID)) := by
  cases h.anchorPeers with
  | unset hempty => exact ⟨fun _ => rfl, fun hset => absurd hempty hset, fun _ => rfl, nofun⟩
  | @new _ anchors hset hanchors hnone hstep =>
      have hread := (getConfig_eq_some_iff.mp h.current).2.2.2.1.2
      obtain ⟨hbefore, -⟩ := h.written_anchorPeersAt
      have hnew : valueAt v₅.decoded (anchorPeersAt options.mspID)
          = some (newAnchorConfig anchors).decoded := by
        have hassigned := hstep.assigned rfl []
        rw [List.append_nil] at hassigned
        exact valueAt_decoded hassigned
      refine ⟨fun hempty => absurd hempty hset, fun _ => ⟨anchors, hanchors, ?_⟩, nofun,
        fun _ => ?_⟩
      · rw [anchorListAt_eq, valueAt_append, hnew, ← (anchors_spec hanchors).1]
        rfl
      · rw [hnone] at hread
        rw [hnew, hbefore, readAnchorPeers_eq_some_none hread]
        nofun
  | @list _ anchors anchorPeerConfig value hset hanchors hsome hvalue hstep =>
      obtain ⟨hbefore, hlist⟩ := h.written_anchorList hsome hvalue
      obtain ⟨hdecoded, -⟩ := anchors_spec hanchors
      have hassigned := hstep.valueAt_place []
      rw [List.append_nil] at hassigned
      -- equal texts mean that the list is there and is the requested one
      have hsame (htext : ((value.lookup "anchor_peers").getD .null).text
          = (Value.array anchors).text) :
          (value.lookup "anchor_peers").map Value.decoded = some (.array anchors) := by
        rw [text_eq_iff, hdecoded] at htext
        cases hlookup : value.lookup "anchor_peers" with
        | none =>
            rw [hlookup] at htext
            cases htext
        | some list =>
            rw [hlookup, Option.getD_some] at htext
            rw [Option.map_some, htext]
      have hafter : valueAt v₅.decoded (anchorListAt options.mspID) = some (.array anchors) := by
        cases hdiffers : (((value.lookup "anchor_peers").getD .null).text
            != (Value.array anchors).text) with
        | true =>
            rw [hdiffers, if_pos rfl] at hassigned
            rw [valueAt_decoded hassigned]
            exact congrArg some hdecoded
        | false =>
            rw [hstep.unchanged hdiffers, hlist]
            exact hsame (bne_eq_false_iff_eq.mp hdiffers)
      refine ⟨fun hempty => absurd hempty hset, fun _ => ⟨anchors, hanchors, hafter⟩,
        hstep.unchanged, fun hdiffers heq => ?_⟩
      rw [anchorListAt_eq, valueAt_append, heq, writtenAt, ← valueAt_append, ← anchorListAt_eq]
        at hafter
      rw [writtenAt, hafter] at hbefore
      obtain ⟨list, hlookup, hlist⟩ := Option.map_eq_some_iff.mp hbefore.symm
      rw [hlookup, Option.getD_some, bne_iff_ne, ne_eq, text_eq_iff, hdecoded] at hdiffers
      exact hdiffers hlist

end Settings

end Hfrd.Channel
