/-
  Hfrd.Channel.SettingsUpdate

  `UpdateChannelGroup` changes what is requested, flags what it changes, and
  changes nothing when it is given its own result again.
-/

import Hfrd.Channel.ChannelSettings

namespace Hfrd.Channel

open Hfrd.Go

/-! ## Maps stay in order -/

theorem wellFormed_valueAt {v w : Value} {path : List String} (hv : v.WellFormed)
    (h : valueAt v path = some w) : w.WellFormed := by
  induction path generalizing v with
  | nil =>
      cases h
      exact hv
  | cons key path ih =>
      rw [valueAt] at h
      obtain ⟨child, hchild, h⟩ := Option.bind_eq_some_iff.mp h
      obtain ⟨fields, hfields, hlookup⟩ := Option.bind_eq_some_iff.mp hchild
      rw [object?_eq_some.mp hfields] at hv
      exact ih (hv.field hlookup) h

theorem Strings.wellFormed_json (s : Strings) : s.json.WellFormed := by
  cases s with
  | none => exact .scalar _
  | some s =>
      refine .array fun v hv => ?_
      obtain ⟨a, -, rfl⟩ := List.mem_map.mp hv
      exact .scalar _

section Update

variable {parseFloat : String → Except String Number} {group : Fields} {options : UpdateOptions}
  {config : CurrentConfig} {v₁ v₂ v₃ v₄ v₅ : Value} {peerOrgUpdate : Bool}

theorem wellFormed_newAnchorConfig {anchors : List Value} (h : (Value.array anchors).WellFormed) :
    (newAnchorConfig anchors).WellFormed :=
  .pair "mod_policy" "value" (by decide) (.scalar _) (.other (.single "anchor_peers" h))

theorem Steps.wellFormed (h : Steps parseFloat group options config v₁ v₂ v₃ v₄ v₅ peerOrgUpdate)
    (hgroup : (Value.object group).WellFormed) : v₅.WellFormed := by
  have h₁ := h.maxMessageCount.wellFormed hgroup (.scalar _)
  have h₂ := h.preferredMaxBytes.wellFormed h₁ (.scalar _)
  have h₃ := h.batchTimeout.wellFormed h₂ (.scalar _)
  have h₄ := h.addresses.wellFormed h₃ (.other (Strings.wellFormed_json _))
  cases h.anchorPeers with
  | unset => exact h₄
  | new _ hanchors _ hstep =>
      exact hstep.wellFormed h₄ (wellFormed_newAnchorConfig (anchors_spec hanchors).2)
  | list _ hanchors _ _ hstep => exact hstep.wellFormed h₄ (.other (anchors_spec hanchors).2)

/-! ## The config that is read again -/

theorem Steps.anchorPeers_map
    (h : Steps parseFloat group options config v₁ v₂ v₃ v₄ v₅ peerOrgUpdate) :
    valueAt v₅ (anchorPeersAt options.mspID) = none ∨ HasMap v₅ (anchorPeersAt options.mspID) := by
  have hread := (getConfig_eq_some_iff.mp h.current).2.2.2.1.2
  have hsame := h.valueAt_anchorPeers []
  rw [List.append_nil] at hsame
  have hbefore : valueAt v₄ (anchorPeersAt options.mspID) = none ∨
      HasMap v₄ (anchorPeersAt options.mspID) := by
    rw [HasMap, hsame]
    cases hconfig : config.anchorPeers with
    | none =>
        rw [hconfig] at hread
        exact .inl (readAnchorPeers_eq_some_none hread)
    | some anchorPeers =>
        rw [hconfig] at hread
        exact .inr ⟨anchorPeers, readAnchorPeers_eq_some_some hread⟩
  cases h.anchorPeers with
  | unset => exact hbefore
  | new _ _ _ hstep =>
      have hassigned := hstep.assigned rfl []
      rw [List.append_nil] at hassigned
      exact .inr ⟨_, hassigned⟩
  | list _ _ hsome _ hstep =>
      rw [hsome] at hread
      have hat := readAnchorPeers_eq_some_some hread
      refine .inr (hstep.hasMap ?_ ⟨_, hsame.trans hat⟩)
      simp [anchorListAt, anchorPeersAt, List.prefix_append_right_inj]

theorem foldl_addAddress_eq_none {requested : List String} {current : Strings}
    (h : requested.foldl addAddress current = none) : current = none := by
  induction requested generalizing current with
  | nil => exact h
  | cons e requested ih =>
      have hfirst := ih h
      rw [addAddress] at hfirst
      split at hfirst
      · cases hfirst
      · exact hfirst

/-- An action leaves nil only where there was nil. -/
theorem eq_none_of_requestedAddresses {action : String} (haction : IsAction action)
    {current : Strings} {requested : List String}
    (h : requestedAddresses action current requested = none) : current = none := by
  rcases haction with rfl | rfl | rfl
  · cases h
  · exact foldl_addAddress_eq_none h
  · rw [requestedAddresses_remove] at h
    exact Option.map_eq_none_iff.mp h

theorem readAddresses_array (s : List String) :
    readAddresses (some (.array (s.map Value.string))) = some (appended s) := by
  rw [readAddresses, Value.array?, Option.bind_some, mapM_string, Option.map_some, foldl_append]
  rfl

/-- The addresses can be read again. -/
theorem Steps.readAddresses_again
    (h : Steps parseFloat group options config v₁ v₂ v₃ v₄ v₅ peerOrgUpdate)
    (haction : IsAction options.ordererAddressesAction) :
    ∃ orderers, readAddresses (valueAt v₅.decoded addressesAt) = some orderers := by
  obtain ⟨hbefore, hafter⟩ := h.written_addresses
  obtain ⟨-, -, -, -, -, hread⟩ := getConfig_eq_some_iff.mp h.current
  rw [hafter]
  split
  · next hdiffers =>
      cases hnew : newAddresses config options with
      | none =>
          rw [addressesDiffer, hnew, eq_none_of_requestedAddresses haction hnew,
            bne_self_eq_false, Bool.and_false] at hdiffers
          cases hdiffers
      | some s => exact ⟨_, readAddresses_array s⟩
  · rw [hbefore]
    rcases readAddresses_eq_some hread with ⟨hnone, -⟩ | ⟨s, hs, -⟩
    · rw [hnone]
      exact ⟨none, rfl⟩
    · rw [hs, Option.map_some,
        show Value.array (s.map Value.string) = Strings.json (some s) from rfl,
        Strings.decoded_json]
      exact ⟨_, readAddresses_array s⟩

theorem addressList_map_decoded (o : Option Value) :
    addressList (o.map Value.decoded) = addressList o := by
  cases o with
  | none => rfl
  | some v =>
      have htwice : v.decoded.decoded = v.decoded := text_eq_iff.mp v.text_decoded
      rw [Option.map_some, addressList, addressList, htwice]

theorem foldl_addAddress_of_mem {requested : List String} {current : Strings}
    (h : ∀ a ∈ requested, a ∈ current.elems) : requested.foldl addAddress current = current := by
  induction requested with
  | nil => rfl
  | cons a requested ih =>
      obtain ⟨ha, hrest⟩ := List.forall_mem_cons.mp h
      rw [List.foldl_cons, addAddress, if_neg fun hnone => contains_eq_none_iff.mp hnone ha]
      exact ih hrest

/-- An action does nothing to the addresses that it left, as they are read. -/
theorem requestedAddresses_again {action : String} (haction : IsAction action)
    {requested : List String} (hset : requested ≠ []) (current : Strings) :
    requestedAddresses action (appended (requestedAddresses action current requested).elems)
        requested
      = appended (requestedAddresses action current requested).elems := by
  rcases haction with rfl | rfl | rfl
  · exact (if_neg hset).symm
  · refine foldl_addAddress_of_mem fun a ha => ?_
    rw [elems_appended]
    by_cases hcurrent : a ∈ current.elems
    · exact foldl_addAddress_elems requested current ▸ List.mem_append_left _ hcurrent
    · refine foldl_addAddress_elems requested current ▸ List.mem_append_right _ ?_
      rw [List.mem_eraseDups]
      exact List.mem_filter.mpr ⟨ha, by simpa using hcurrent⟩
  · rw [requestedAddresses_remove, requestedAddresses_remove]
    cases current with
    | none => rfl
    | some s =>
        rw [Option.map_some, Strings.elems, Option.getD_some, appended]
        split
        · rfl
        · rw [Option.map_some, List.filter_filter]
          simp only [Bool.and_self]

theorem numberDiffers_again {o : Option Value} {read current requested : Number}
    (hread : o = some (.number read))
    (hwritten : o = some (.number (wantedNumber current requested))) :
    numberDiffers read requested = false := by
  have heq := hread.symm.trans hwritten
  simp only [Option.some.injEq, Value.scalar.injEq, Scalar.number.injEq] at heq
  rw [heq, ← Bool.not_eq_true, numberDiffers_iff, not_not, wantedNumber, wantedNumber]
  split <;> rfl

section Again

variable {g : Fields} (hg : ∀ p, valueAt (.object g) ("channel_group" :: p)
  = valueAt v₅.decoded ("channel_group" :: p))

include hg

/-- The config that is written can be read again. -/
theorem Steps.readable_again
    (h : Steps parseFloat group options config v₁ v₂ v₃ v₄ v₅ peerOrgUpdate)
    (haction : IsAction options.ordererAddressesAction) :
    (getConfigFromChannelGroup g options.mspID).isSome := by
  obtain ⟨orderers, horderers⟩ := h.readAddresses_again haction
  obtain ⟨-, hanchors⟩ := h.written_anchorPeersAt
  obtain ⟨values, hvalues⟩ := h.hasMap_values.2.decoded
  obtain ⟨value, hvalue⟩ := h.hasMap_addresses.2.decoded
  obtain ⟨anchorPeers, hread⟩ : ∃ anchorPeers,
      readAnchorPeers (valueAt v₅.decoded (anchorPeersAt options.mspID)) = some anchorPeers := by
    rw [hanchors]
    rcases h.anchorPeers_map with hnone | ⟨fields, hfields⟩
    · rw [hnone]
      exact ⟨none, rfl⟩
    · rw [hfields]
      exact ⟨some (Value.decodedFields fields), rfl⟩
  refine Option.isSome_iff_exists.mpr ⟨⟨wantedTimeout config.batchTimeout options.batchTimeout,
    wantedNumber config.maxMessageCount options.maxMessageCount,
    wantedNumber config.preferredMaxBytes options.preferredMaxBytes, anchorPeers, orderers⟩, ?_⟩
  refine getConfig_eq_some_iff.mpr ⟨(hg _).trans h.written_maxMessageCount,
    (hg _).trans h.written_preferredMaxBytes, (hg _).trans h.written_batchTimeout,
    ⟨⟨values, objectAt_eq_some.mpr ((hg _).trans hvalues)⟩, ?_⟩,
    ⟨value, objectAt_eq_some.mpr ((hg _).trans hvalue)⟩, ?_⟩
  · rw [← hread]
    exact congrArg readAnchorPeers (hg _)
  · rw [← horderers]
    exact congrArg readAddresses (hg _)

theorem Steps.updatable_again
    (h : Steps parseFloat group options config v₁ v₂ v₃ v₄ v₅ peerOrgUpdate)
    (hupdatable : Updatable parseFloat group options)
    (haction : IsAction options.ordererAddressesAction) : Updatable parseFloat g options := by
  refine ⟨h.readable_again hg haction, hupdatable.anchors, fun hset _ => ?_⟩
  obtain ⟨anchors, -, hlist⟩ := h.written_anchorPeers.2.1 hset
  rw [anchorListAt_eq, show ["value", "anchor_peers"] = ["value"] ++ ["anchor_peers"] from rfl,
    ← List.append_assoc] at hlist
  obtain ⟨value, hvalue⟩ := HasMap.of_append hlist
  exact ⟨value, (hg _).trans hvalue⟩

/-- A second update finds nothing that differs. -/
theorem Steps.unchanged_again
    (h : Steps parseFloat group options config v₁ v₂ v₃ v₄ v₅ peerOrgUpdate)
    (haction : IsAction options.ordererAddressesAction) {config' : CurrentConfig}
    {u₁ u₂ u₃ u₄ u₅ : Value} {flag : Bool}
    (h' : Steps parseFloat g options config' u₁ u₂ u₃ u₄ u₅ flag) :
    u₅ = .object g ∧ numberDiffers config'.maxMessageCount options.maxMessageCount = false ∧
      numberDiffers config'.preferredMaxBytes options.preferredMaxBytes = false ∧
      timeoutDiffers config' options = false ∧ addressesDiffer config' options = false ∧
      flag = false := by
  obtain ⟨hcount, hbytes, htime, ⟨-, hpeers⟩, -, hread⟩ := getConfig_eq_some_iff.mp h'.current
  have samecount : numberDiffers config'.maxMessageCount options.maxMessageCount = false :=
    numberDiffers_again hcount ((hg _).trans h.written_maxMessageCount)
  have samebytes : numberDiffers config'.preferredMaxBytes options.preferredMaxBytes = false :=
    numberDiffers_again hbytes ((hg _).trans h.written_preferredMaxBytes)
  have sametime : timeoutDiffers config' options = false := by
    have heq := htime.symm.trans ((hg _).trans h.written_batchTimeout)
    simp only [Option.some.injEq, Value.scalar.injEq, Scalar.string.injEq] at heq
    rw [← Bool.not_eq_true, timeoutDiffers_iff, not_not, heq, wantedTimeout, wantedTimeout]
    split <;> rfl
  -- the second action is applied to the addresses that the first one left
  have sameaddresses : addressesDiffer config' options = false := by
    by_cases hset : options.ordererAddresses = []
    · rw [addressesDiffer, hset]
      rfl
    · have hlist := h.addressList_result hset
      have hagain := addressList_of_readAddresses hread
      have hat : valueAt (.object g) addressesAt = (valueAt v₅ addressesAt).map Value.decoded :=
        (hg _).trans (h.hasMap_addresses.2.valueAt_decoded _)
      rw [hat, addressList_map_decoded] at hagain
      have helems := Option.some.inj (hagain.symm.trans hlist)
      rw [addressesDiffer, newAddresses, appended_of_readAddresses hread, helems, newAddresses,
        requestedAddresses_again haction hset, bne_self_eq_false, Bool.and_false]
  -- the requested anchor peers are there, so the texts are equal
  have sameanchors : flag = false ∧ u₅ = u₄ := by
    by_cases hset : options.anchorPeers = []
    · have hflag := h'.written_anchorPeers.1 hset
      exact ⟨hflag, h'.written_anchorPeers.2.2.1 hflag⟩
    · obtain ⟨anchors, hanchors, hlist⟩ := h.written_anchorPeers.2.1 hset
      have hat : valueAt (.object g) (anchorListAt options.mspID) = some (.array anchors) :=
        (hg _).trans hlist
      cases h'.anchorPeers with
      | unset hempty => exact ⟨rfl, rfl⟩
      | new _ _ hnone _ =>
          rw [hnone] at hpeers
          rw [anchorListAt_eq, valueAt_append, readAnchorPeers_eq_some_none hpeers] at hat
          cases hat
      | @list _ anchors' _ value _ hanchors' hsome hvalue hstep =>
          rw [hanchors] at hanchors'
          cases hanchors'
          have hwritten := (h'.written_anchorList hsome hvalue).1
          rw [writtenAt, valueAt_decoded hat] at hwritten
          obtain ⟨list, hlookup, htext⟩ := Option.map_eq_some_iff.mp hwritten.symm
          have hsame : (((value.lookup "anchor_peers").getD .null).text
              != (Value.array anchors).text) = false := by
            rw [hlookup, bne_eq_false_iff_eq]
            exact text_eq_iff.mpr htext
          exact ⟨hsame, hstep.unchanged hsame⟩
  have hsame : u₄ = .object g := by
    rw [h'.addresses.unchanged sameaddresses, h'.batchTimeout.unchanged sametime,
      h'.preferredMaxBytes.unchanged samebytes, h'.maxMessageCount.unchanged samecount]
  exact ⟨sameanchors.2.trans hsame, samecount, samebytes, sametime, sameaddresses, sameanchors.1⟩

end Again

/-! ## `UpdateChannelGroup` as a whole -/

/-- The options with no flag set. -/
def clearFlags (options : UpdateOptions) : UpdateOptions :=
  { options with
    ordererOrgUpdate := false
    ordererAddressesUpdate := false
    peerOrgUpdate := false }

/-- What an update of the settings comes to: the config that is returned, next
    to the one that was given. -/
structure SettingsUpdated (parseFloat : String → Except String Number) (group : Fields)
    (options : UpdateOptions) (group' : Fields) (options' : UpdateOptions) : Prop where
  channelGroup : ∃ w, group' = [("channel_group", w)]
  frame : ∀ path, (∀ place ∈ places options.mspID, ¬ place <+: "channel_group" :: path) →
    (writtenAt group' ("channel_group" :: path)).map outline
      = (writtenAt group ("channel_group" :: path)).map outline
  maxMessageCount : writtenAt group' maxMessageCountAt
    = if options.maxMessageCount.isZero then writtenAt group maxMessageCountAt
      else some (.number options.maxMessageCount)
  preferredMaxBytes : writtenAt group' preferredMaxBytesAt
    = if options.preferredMaxBytes.isZero then writtenAt group preferredMaxBytesAt
      else some (.number options.preferredMaxBytes)
  batchTimeout : writtenAt group' batchTimeoutAt
    = if options.batchTimeout = "" then writtenAt group batchTimeoutAt
      else some (.string options.batchTimeout)
  addressesUnset : options.ordererAddresses = [] →
    writtenAt group' addressesAt = writtenAt group addressesAt
  addresses : options.ordererAddresses ≠ [] → ∃ current wanted,
    addressList (writtenAt group addressesAt) = some current ∧
    wantedAddresses options.ordererAddressesAction current options.ordererAddresses
      = some wanted ∧
    addressList (writtenAt group' addressesAt) = some wanted
  anchorPeersUnset : options.anchorPeers = [] →
    writtenAt group' (anchorPeersAt options.mspID) = writtenAt group (anchorPeersAt options.mspID)
  anchorPeers : options.anchorPeers ≠ [] → ∃ anchors,
    options.anchorPeers.mapM (anchorConfig parseFloat) = .ok anchors ∧
    writtenAt group' (anchorListAt options.mspID) = some (.array anchors)
  ordererOrgUpdate : options'.ordererOrgUpdate = true ↔
    writtenAt group' maxMessageCountAt ≠ writtenAt group maxMessageCountAt ∨
    writtenAt group' preferredMaxBytesAt ≠ writtenAt group preferredMaxBytesAt ∨
    writtenAt group' batchTimeoutAt ≠ writtenAt group batchTimeoutAt
  ordererAddressesUpdate : options'.ordererAddressesUpdate = true ↔
    writtenAt group' addressesAt ≠ writtenAt group addressesAt
  peerOrgUpdate : options'.peerOrgUpdate = true ↔
    writtenAt group' (anchorPeersAt options.mspID) ≠ writtenAt group (anchorPeersAt options.mspID)
  otherOptions : clearFlags options' = options
  again : ∃ group'', unmarshal (Value.object group').text = some (.object group'') ∧
    updateChannelGroup parseFloat group'' (clearFlags options') = .ok (group'', clearFlags options')

theorem clearFlags_flagged (hclear : clearFlags options = options) (config : CurrentConfig)
    (flag : Bool) : clearFlags (flagged config options flag) = options := by
  rw [← hclear]
  rfl

/-- The second update returns the config and the options that it was given. -/
theorem updateChannelGroup_again {w : Value}
    (h : Steps parseFloat group options config v₁ v₂ v₃ v₄ v₅ peerOrgUpdate)
    (hupdatable : Updatable parseFloat group options)
    (haction : IsAction options.ordererAddressesAction)
    (hg : ∀ p, valueAt (.object [("channel_group", w)]) ("channel_group" :: p)
      = valueAt v₅.decoded ("channel_group" :: p)) :
    updateChannelGroup parseFloat [("channel_group", w)] options
      = .ok ([("channel_group", w)], options) := by
  obtain ⟨⟨group', options'⟩, hresult⟩ :=
    exists_updateChannelGroup (h.updatable_again hg hupdatable haction)
  obtain ⟨config', u₁, u₂, u₃, u₄, u₅, flag, w', hsteps, rfl, rfl, hw', -⟩ :=
    updateChannelGroup_result hresult
  obtain ⟨rfl, hcount, hbytes, htime, haddresses, rfl⟩ := h.unchanged_again hg haction hsteps
  cases hw'
  have hflags : flagged config' options false = options := by
    simp only [flagged, hcount, hbytes, htime, haddresses, Bool.or_false]
  rw [hresult, hflags]

/-- The batch settings are flagged where they are written differently. -/
theorem Steps.ordererOrgUpdate_iff
    (h : Steps parseFloat group options config v₁ v₂ v₃ v₄ v₅ peerOrgUpdate)
    (hclear : clearFlags options = options) :
    (flagged config options peerOrgUpdate).ordererOrgUpdate = true ↔
      valueAt v₅.decoded maxMessageCountAt ≠ writtenAt group maxMessageCountAt ∨
      valueAt v₅.decoded preferredMaxBytesAt ≠ writtenAt group preferredMaxBytesAt ∨
      valueAt v₅.decoded batchTimeoutAt ≠ writtenAt group batchTimeoutAt := by
  obtain ⟨hcount, hbytes, htime, -⟩ := getConfig_eq_some_iff.mp h.current
  have hfalse : options.ordererOrgUpdate = false := by
    rw [← hclear]
    rfl
  rw [writtenAt, writtenAt, writtenAt, valueAt_decoded hcount, valueAt_decoded hbytes,
    valueAt_decoded htime, h.written_maxMessageCount, h.written_preferredMaxBytes,
    h.written_batchTimeout, flagged, hfalse]
  simp only [Value.decoded, ne_eq, Option.some.injEq, Value.scalar.injEq, Scalar.number.injEq,
    Scalar.string.injEq, Bool.false_or, Bool.or_eq_true, numberDiffers_iff, timeoutDiffers_iff,
    or_assoc]

theorem Steps.peerOrgUpdate_iff
    (h : Steps parseFloat group options config v₁ v₂ v₃ v₄ v₅ peerOrgUpdate) :
    peerOrgUpdate = true ↔ valueAt v₅.decoded (anchorPeersAt options.mspID)
      ≠ writtenAt group (anchorPeersAt options.mspID) := by
  obtain ⟨-, -, hsame, hdiffers⟩ := h.written_anchorPeers
  cases peerOrgUpdate with
  | true => exact iff_of_true rfl (hdiffers rfl)
  | false => exact iff_of_false nofun fun hne => hne (h.written_anchorPeers_same (hsame rfl))

theorem Steps.written_addresses_set
    (h : Steps parseFloat group options config v₁ v₂ v₃ v₄ v₅ peerOrgUpdate)
    (haction : IsAction options.ordererAddressesAction) (hset : options.ordererAddresses ≠ []) :
    ∃ current wanted, addressList (writtenAt group addressesAt) = some current ∧
      wantedAddresses options.ordererAddressesAction current options.ordererAddresses
        = some wanted ∧
      addressList (valueAt v₅.decoded addressesAt) = some wanted := by
  obtain ⟨-, -, -, -, -, hread⟩ := getConfig_eq_some_iff.mp h.current
  obtain ⟨hbefore, -⟩ := h.written_addresses
  have hafter : valueAt v₅.decoded addressesAt = (valueAt v₅ addressesAt).map Value.decoded :=
    h.hasMap_addresses.2.valueAt_decoded _
  refine ⟨config.orderers.elems, _, ?_, wantedAddresses_of_isAction haction _ _, ?_⟩
  · rw [hbefore, addressList_map_decoded]
    exact addressList_of_readAddresses hread
  · rw [hafter, addressList_map_decoded]
    exact h.addressList_result hset

/-- An update changes the settings that are asked for and nothing else, flags
    what it changes, and does nothing when it is made again. -/
theorem updateChannelGroup_settings (hgroup : (Value.object group).WellFormed)
    (hupdatable : Updatable parseFloat group options)
    (haction : IsAction options.ordererAddressesAction) (hclear : clearFlags options = options) :
    ∃ group' options', updateChannelGroup parseFloat group options = .ok (group', options') ∧
      SettingsUpdated parseFloat group options group' options' := by
  obtain ⟨⟨group', options'⟩, hresult⟩ := exists_updateChannelGroup hupdatable
  obtain ⟨config, v₁, v₂, v₃, v₄, v₅, flag, w, h, rfl, rfl, hw, -⟩ :=
    updateChannelGroup_result hresult
  refine ⟨_, _, hresult, ?_⟩
  -- below the channel group the result is what the five steps have left
  have hdecoded : ∀ p, valueAt (.object [("channel_group", w.decoded)]) ("channel_group" :: p)
      = valueAt v₅.decoded ("channel_group" :: p) := by
    intro p
    rw [show "channel_group" :: p = ["channel_group"] ++ p from rfl, valueAt_append v₅.decoded,
      valueAt_decoded hw, valueAt_append]
    rfl
  have hwritten : ∀ p, writtenAt [("channel_group", w)] ("channel_group" :: p)
      = valueAt v₅.decoded ("channel_group" :: p) := hdecoded
  have hcount : writtenAt [("channel_group", w)] maxMessageCountAt
      = valueAt v₅.decoded maxMessageCountAt := hwritten _
  have hbytes : writtenAt [("channel_group", w)] preferredMaxBytesAt
      = valueAt v₅.decoded preferredMaxBytesAt := hwritten _
  have htime : writtenAt [("channel_group", w)] batchTimeoutAt
      = valueAt v₅.decoded batchTimeoutAt := hwritten _
  have haddresses : writtenAt [("channel_group", w)] addressesAt
      = valueAt v₅.decoded addressesAt := hwritten _
  have hpeers : writtenAt [("channel_group", w)] (anchorPeersAt options.mspID)
      = valueAt v₅.decoded (anchorPeersAt options.mspID) := hwritten _
  have hpeerList : writtenAt [("channel_group", w)] (anchorListAt options.mspID)
      = valueAt v₅.decoded (anchorListAt options.mspID) := hwritten _
  obtain ⟨hcurrentCount, hcurrentBytes, hcurrentTime, -⟩ := getConfig_eq_some_iff.mp h.current
  have hfalse : options.ordererAddressesUpdate = false ∧ options.peerOrgUpdate = false := by
    rw [← hclear]
    exact ⟨rfl, rfl⟩
  obtain ⟨hunset, hset, hsame, -⟩ := h.written_anchorPeers
  exact {
    channelGroup := ⟨w, rfl⟩
    frame := fun path hpath => by
      rw [hwritten]
      exact outlines_decoded fun p hp => h.frame fun place hplace hpre =>
        hpath place hplace (hpre.trans hp)
    maxMessageCount := by
      rw [hcount, h.written_maxMessageCount, writtenAt, valueAt_decoded hcurrentCount, wantedNumber]
      split <;> rfl
    preferredMaxBytes := by
      rw [hbytes, h.written_preferredMaxBytes, writtenAt, valueAt_decoded hcurrentBytes,
        wantedNumber]
      split <;> rfl
    batchTimeout := by
      rw [htime, h.written_batchTimeout, writtenAt, valueAt_decoded hcurrentTime, wantedTimeout]
      split <;> rfl
    addressesUnset := fun hempty => by
      rw [haddresses, h.written_addresses.2, addressesDiffer, hempty]
      rfl
    addresses := fun hset => by
      rw [haddresses]
      exact h.written_addresses_set haction hset
    anchorPeersUnset := fun hempty => by
      rw [hpeers]
      exact h.written_anchorPeers_same (hsame (hunset hempty))
    anchorPeers := fun hne => by
      rw [hpeerList]
      exact hset hne
    ordererOrgUpdate := by
      rw [hcount, hbytes, htime]
      exact h.ordererOrgUpdate_iff hclear
    ordererAddressesUpdate := by
      rw [haddresses, ← h.addressesDiffer_iff, flagged, hfalse.1, Bool.false_or]
    peerOrgUpdate := by
      rw [hpeers, ← h.peerOrgUpdate_iff, flagged, hfalse.2, Bool.false_or]
    otherOptions := clearFlags_flagged hclear _ _
    again := by
      -- what is read from the text of the result is the result as it is written
      rw [clearFlags_flagged hclear]
      have hw' : (Value.object [("channel_group", w)]).WellFormed :=
        .object (List.pairwise_singleton _ _) fun f hf => by
          rw [List.mem_singleton.mp hf]
          exact wellFormed_valueAt (h.wellFormed hgroup) hw
      exact ⟨[("channel_group", w.decoded)], unmarshal_text hw',
        updateChannelGroup_again h hupdatable haction hdecoded⟩ }

end Update

theorem wellFormed_exampleChannel (addresses : List String) :
    (Value.object (exampleChannel addresses)).WellFormed := by
  have hnone : (Value.object []).WellFormed := .object (by simp [SortedKeys]) (by simp)
  have horg := Value.WellFormed.single "groups" (.single "Org1MSP" (.single "values" hnone))
  have hsize := Value.WellFormed.single "value" (.pair "max_message_count" "preferred_max_bytes"
    (by decide) (.scalar (.number ⟨['1', '0'], by decide⟩))
    (.scalar (.number ⟨['5', '1', '2'], by decide⟩)))
  have htimeout := Value.WellFormed.single "value" (.single "timeout" (.scalar (.string "2s")))
  have horderer := Value.WellFormed.single "values"
    (.pair "BatchSize" "BatchTimeout" (by decide) hsize htimeout)
  have haddresses := Value.WellFormed.single "OrdererAddresses" (.single "value"
    (.single "addresses" (Strings.wellFormed_json (some addresses))))
  exact .single "channel_group" (.pair "groups" "values" (by decide)
    (.pair "Application" "Orderer" (by decide) horg horderer) haddresses)

/-- The options of a channel update that also sets an anchor peer. -/
def anchorOptions : UpdateOptions :=
  { exampleOptions "add" with anchorPeers := ["peer0:7051"] }

theorem updateChannelGroup_settings_example :
    ∃ group' options', updateChannelGroup (fun _ => .ok ⟨['7', '0', '5', '1'], by decide⟩)
        (exampleChannel ["orderer0:7050"]) anchorOptions = .ok (group', options') ∧
      SettingsUpdated (fun _ => .ok ⟨['7', '0', '5', '1'], by decide⟩)
        (exampleChannel ["orderer0:7050"]) anchorOptions group' options' :=
  updateChannelGroup_settings (wellFormed_exampleChannel _)
    ⟨rfl, fun _ h => List.mem_singleton.mp h ▸ ⟨"peer0", "7051", _, rfl, rfl⟩,
      fun _ ⟨_, h⟩ => nomatch h⟩ (.inr (.inl rfl)) rfl

/-- The config that is returned has no other member than the channel group: the
    sequence number of the config is gone.  An entry of the anchor peers without
    a map under `value` can be read, but not be updated. -/
theorem sequence_is_dropped :
    (getConfigFromChannelGroup (exampleChannel ["orderer0:7050"] ++ [("sequence", .string "3")])
        "Org1MSP").isSome = true ∧
      ∃ group' options', updateChannelGroup (fun _ => .error "")
          (exampleChannel ["orderer0:7050"] ++ [("sequence", .string "3")])
          (exampleOptions "add") = .ok (group', options') ∧
        (∀ place ∈ places "Org1MSP", ¬ place <+: ["sequence"]) ∧
        writtenAt (exampleChannel ["orderer0:7050"] ++ [("sequence", .string "3")]) ["sequence"]
          = some (.string "3") ∧
        writtenAt group' ["sequence"] = none ∧
      ∃ anchored, assignAt (.object (exampleChannel ["orderer0:7050"])) (mspValues "Org1MSP")
          "AnchorPeers" (.object []) = some (.object anchored) ∧
        (getConfigFromChannelGroup anchored "Org1MSP").isSome = true ∧
        updateChannelGroup (fun _ => .ok ⟨['7', '0', '5', '1'], by decide⟩) anchored anchorOptions
          = .error .panic :=
  ⟨rfl, _, _, rfl, by decide, rfl, rfl, _, rfl, rfl, rfl⟩

end Hfrd.Channel
