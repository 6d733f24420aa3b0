/-
  Hfrd.Channel.GroupSteps

  What an assignment deep in a config changes and leaves alone, and the
  settings that `UpdateChannelGroup` assigns one after the other.
-/

import Hfrd.Channel.ChannelGroup

namespace Hfrd.Channel

open Hfrd.Go

/-! ## Assignments -/

theorem valueAt_append (v : Value) (path path' : List String) :
    valueAt v (path ++ path') = (valueAt v path).bind fun child => valueAt child path' := by
  induction path generalizing v with
  | nil => rfl
  | cons key path ih =>
      simp only [List.cons_append, valueAt, Option.bind_assoc, ih]

/-- A value without the entries of its map. -/
def outline : Value → Value
  | .object _ => .object []
  | v => v

/-- An assignment, in the terms of its parts. -/
theorem assignAt_cons {v v' new : Value} {key' key : String} {path : List String}
    (h : assignAt v (key' :: path) key new = some v') :
    ∃ fields child child', v = .object fields ∧ fields.lookup key' = some child ∧
      assignAt child path key new = some child' ∧
      v' = .object (setField fields key' child') := by
  rw [assignAt] at h
  obtain ⟨fields, hfields, h⟩ := Option.bind_eq_some_iff.mp h
  obtain ⟨child, hchild, h⟩ := Option.bind_eq_some_iff.mp h
  obtain ⟨child', hassign, rfl⟩ := Option.map_eq_some_iff.mp h
  cases v with
  | object fs =>
      cases hfields
      exact ⟨fields, child, child', rfl, hchild, hassign, rfl⟩
  | scalar => cases hfields
  | array => cases hfields
  | other => cases hfields

theorem assignAt_nil {v v' new : Value} {key : String} (h : assignAt v [] key new = some v') :
    ∃ fields, v = .object fields ∧ v' = .object (setField fields key new) := by
  rw [assignAt] at h
  obtain ⟨fields, hfields, rfl⟩ := Option.map_eq_some_iff.mp h
  cases v with
  | object fs =>
      cases hfields
      exact ⟨fields, rfl, rfl⟩
  | scalar => cases hfields
  | array => cases hfields
  | other => cases hfields

theorem valueAt_object (fields : Fields) (key : String) (path : List String) :
    valueAt (.object fields) (key :: path)
      = (fields.lookup key).bind fun child => valueAt child path := rfl

theorem valueAt_setField (fields : Fields) (key : String) (new : Value) (key' : String)
    (path : List String) :
    valueAt (.object (setField fields key new)) (key' :: path)
      = if key' = key then valueAt new path else valueAt (.object fields) (key' :: path) := by
  rw [valueAt_object, valueAt_object, lookup_setField]
  split <;> rfl

/-- The assigned place holds the new value. -/
theorem valueAt_assignAt {path : List String} {v v' new : Value} {key : String}
    (h : assignAt v path key new = some v') (rest : List String) :
    valueAt v' (path ++ key :: rest) = valueAt new rest := by
  induction path generalizing v v' with
  | nil =>
      obtain ⟨fields, rfl, rfl⟩ := assignAt_nil h
      rw [List.nil_append, valueAt_setField, if_pos rfl]
  | cons key' path ih =>
      obtain ⟨fields, child, child', rfl, -, hassign, rfl⟩ := assignAt_cons h
      rw [List.cons_append, valueAt_setField, if_pos rfl, ih hassign]

/-- What is neither below the assigned place nor above it stays. -/
theorem valueAt_assignAt_apart {path : List String} {v v' new : Value} {key : String}
    (h : assignAt v path key new = some v') {p : List String}
    (hbelow : ¬ path ++ [key] <+: p) (habove : ¬ p <+: path ++ [key]) :
    valueAt v' p = valueAt v p := by
  induction path generalizing v v' p with
  | nil =>
      obtain ⟨fields, rfl, rfl⟩ := assignAt_nil h
      cases p with
      | nil => exact absurd List.nil_prefix habove
      | cons k p =>
          have hne : k ≠ key := fun heq => hbelow ⟨p, by simp [heq]⟩
          rw [valueAt_setField, if_neg hne]
  | cons key' path ih =>
      obtain ⟨fields, child, child', rfl, hchild, hassign, rfl⟩ := assignAt_cons h
      cases p with
      | nil => exact absurd List.nil_prefix habove
      | cons k p =>
          rw [valueAt_setField]
          split
          · next heq =>
              subst heq
              rw [valueAt_object, hchild, Option.bind_some]
              refine ih hassign (fun hp => hbelow ?_) (fun hp => habove ?_)
              · exact List.cons_prefix_cons.mpr ⟨rfl, hp⟩
              · exact List.cons_prefix_cons.mpr ⟨rfl, hp⟩
          · rfl

/-- Above the assigned place the maps stay maps. -/
theorem outline_assignAt {path : List String} {v v' new : Value} {key : String}
    (h : assignAt v path key new = some v') {p : List String} (hbelow : ¬ path ++ [key] <+: p) :
    (valueAt v' p).map outline = (valueAt v p).map outline := by
  induction path generalizing v v' p with
  | nil =>
      obtain ⟨fields, rfl, rfl⟩ := assignAt_nil h
      cases p with
      | nil => rfl
      | cons k p =>
          have hne : k ≠ key := fun heq => hbelow ⟨p, by simp [heq]⟩
          rw [valueAt_setField, if_neg hne]
  | cons key' path ih =>
      obtain ⟨fields, child, child', rfl, hchild, hassign, rfl⟩ := assignAt_cons h
      cases p with
      | nil => rfl
      | cons k p =>
          rw [valueAt_setField]
          split
          · next heq =>
              subst heq
              rw [valueAt_object, hchild, Option.bind_some]
              exact ih hassign fun hp => hbelow (List.cons_prefix_cons.mpr ⟨rfl, hp⟩)
          · rfl

theorem wellFormed_assignAt {path : List String} {v v' new : Value} {key : String}
    (h : assignAt v path key new = some v') (hv : v.WellFormed) (hnew : new.WellFormed) :
    v'.WellFormed := by
  induction path generalizing v v' with
  | nil =>
      obtain ⟨fields, rfl, rfl⟩ := assignAt_nil h
      exact hv.setField key hnew
  | cons key' path ih =>
      obtain ⟨fields, child, child', rfl, hchild, hassign, rfl⟩ := assignAt_cons h
      exact hv.setField key' (ih hassign (hv.field hchild))

/-- There is a map at the end of a path. -/
def HasMap (v : Value) (path : List String) : Prop :=
  ∃ fields, valueAt v path = some (.object fields)

/-- Where there is a map, its entries can be assigned. -/
theorem exists_assignAt {path : List String} {v : Value} (h : HasMap v path) (key : String)
    (new : Value) : ∃ v', assignAt v path key new = some v' := by
  obtain ⟨fields, h⟩ := h
  induction path generalizing v with
  | nil =>
      cases h
      exact ⟨_, rfl⟩
  | cons key' path ih =>
      rw [valueAt] at h
      cases hv : v.object? with
      | none => simp [hv] at h
      | some fs =>
          cases hchild : fs.lookup key' with
          | none => simp [hv, hchild] at h
          | some child =>
              obtain ⟨child', hassign⟩ := ih (by simpa [hv, hchild] using h)
              exact ⟨.object (setField fs key' child'), by simp [assignAt, hv, hchild, hassign]⟩

/-! ## One step -/

/-- The new value is assigned at a place, or nothing happens. -/
structure Assigned (place : List String) (new : Value) (differs : Bool) (v v' : Value) :
    Prop where
  assigned : differs = true → ∀ rest, valueAt v' (place ++ rest) = valueAt new rest
  unchanged : differs = false → v' = v
  apart : ∀ p, ¬ place <+: p → ¬ p <+: place → valueAt v' p = valueAt v p
  outlines : ∀ p, ¬ place <+: p → (valueAt v' p).map outline = (valueAt v p).map outline
  wellFormed : v.WellFormed → new.WellFormed → v'.WellFormed

/-- Nothing is assigned. -/
theorem Assigned.refl (place : List String) (new v : Value) : Assigned place new false v v :=
  ⟨nofun, fun _ => rfl, fun _ _ _ => rfl, fun _ _ => rfl, fun hv _ => hv⟩

theorem orPanic_eq_ok {α : Type} {x : Option α} {a : α} : orPanic x = .ok a ↔ x = some a := by
  cases x <;> simp [orPanic]

theorem assignIf_spec {differs : Bool} {path : List String} {key : String} {new : Value}
    {flag : UpdateOptions → UpdateOptions} {state state' : UpdateState}
    (h : assignIf differs path key new flag state = .ok state') :
    Assigned (path ++ [key]) new differs state.1 state'.1 ∧
      state'.2 = if differs then flag state.2 else state.2 := by
  unfold assignIf at h
  cases differs with
  | true =>
      obtain ⟨group, hassign, heq⟩ := bind_eq_ok.mp h
      cases heq
      have hassign := orPanic_eq_ok.mp hassign
      refine ⟨⟨fun _ rest => ?_, nofun, fun p => valueAt_assignAt_apart hassign,
        fun p => outline_assignAt hassign, wellFormed_assignAt hassign⟩, rfl⟩
      rw [List.append_assoc]
      exact valueAt_assignAt hassign rest
  | false =>
      cases h
      exact ⟨.refl _ _ _, rfl⟩

theorem exists_assignIf (differs : Bool) {path : List String} (key : String) (new : Value)
    (flag : UpdateOptions → UpdateOptions) {state : UpdateState} (h : HasMap state.1 path) :
    ∃ state', assignIf differs path key new flag state = .ok state' := by
  obtain ⟨v', hassign⟩ := exists_assignAt h key new
  cases differs with
  | true => exact ⟨(v', flag state.2), by simp [assignIf, hassign, orPanic, bind, Except.bind]; rfl⟩
  | false => exact ⟨state, rfl⟩

/-! ## The steps of `UpdateChannelGroup` -/

/-- The path to the maximum message count. -/
def maxMessageCountAt : List String := BATCH_SIZE_VALUE ++ ["max_message_count"]
/-- The path to the preferred maximum of bytes. -/
def preferredMaxBytesAt : List String := BATCH_SIZE_VALUE ++ ["preferred_max_bytes"]
/-- The path to the batch timeout. -/
def batchTimeoutAt : List String := BATCH_TIMEOUT_VALUE ++ ["timeout"]
/-- The path to the orderer addresses. -/
def addressesAt : List String := ORDERER_ADDRESSES_VALUE ++ ["addresses"]
/-- The path to the entry of the anchor peers. -/
def anchorPeersAt (mspID : String) : List String := mspValues mspID ++ ["AnchorPeers"]
/-- The path to the list of the anchor peers. -/
def anchorListAt (mspID : String) : List String :=
  mspValues mspID ++ ["AnchorPeers", "value"] ++ ["anchor_peers"]

/-- The batch timeout is assigned. -/
def timeoutDiffers (config : CurrentConfig) (options : UpdateOptions) : Bool :=
  config.batchTimeout != options.batchTimeout && options.batchTimeout != ""

/-- The addresses after the action that the options ask for. -/
def newAddresses (config : CurrentConfig) (options : UpdateOptions) : Strings :=
  requestedAddresses options.ordererAddressesAction config.orderers options.ordererAddresses

/-- The orderer addresses are assigned. -/
def addressesDiffer (config : CurrentConfig) (options : UpdateOptions) : Bool :=
  options.ordererAddresses != [] &&
    config.orderers.json.text != (newAddresses config options).json.text

/-- The step for the anchor peers, with the flag it sets. -/
inductive AnchorStep (parseFloat : String → Except String Number) (current : Option Fields)
    (mspID : String) (anchorPeers : List String) : Value → Value → Bool → Prop
  | unset {v : Value} (h : anchorPeers = []) :
      AnchorStep parseFloat current mspID anchorPeers v v false
  | new {v v' : Value} {anchors : List Value} (hset : anchorPeers ≠ [])
      (hanchors : anchorPeers.mapM (anchorConfig parseFloat) = .ok anchors)
      (hnone : current = none)
      (h : Assigned (anchorPeersAt mspID) (newAnchorConfig anchors) true v v') :
      AnchorStep parseFloat current mspID anchorPeers v v' true
  | list {v v' : Value} {anchors : List Value} {anchorPeerConfig value : Fields}
      (hset : anchorPeers ≠ [])
      (hanchors : anchorPeers.mapM (anchorConfig parseFloat) = .ok anchors)
      (hsome : current = some anchorPeerConfig)
      (hvalue : (anchorPeerConfig.lookup "value").bind Value.object? = some value)
      (h : Assigned (anchorListAt mspID) (.other (.array anchors))
        (((value.lookup "anchor_peers").getD .null).text != (Value.array anchors).text) v v') :
      AnchorStep parseFloat current mspID anchorPeers v v'
        (((value.lookup "anchor_peers").getD .null).text != (Value.array anchors).text)

/-- The channel config after each of the steps. -/
structure Steps (parseFloat : String → Except String Number) (group : Fields)
    (options : UpdateOptions) (config : CurrentConfig) (v₁ v₂ v₃ v₄ v₅ : Value)
    (peerOrgUpdate : Bool) : Prop where
  current : getConfigFromChannelGroup group options.mspID = some config
  maxMessageCount : Assigned maxMessageCountAt (.number options.maxMessageCount)
    (numberDiffers config.maxMessageCount options.maxMessageCount) (.object group) v₁
  preferredMaxBytes : Assigned preferredMaxBytesAt (.number options.preferredMaxBytes)
    (numberDiffers config.preferredMaxBytes options.preferredMaxBytes) v₁ v₂
  batchTimeout : Assigned batchTimeoutAt (.string options.batchTimeout)
    (timeoutDiffers config options) v₂ v₃
  addresses : Assigned addressesAt (.other (newAddresses config options).json)
    (addressesDiffer config options) v₃ v₄
  anchorPeers : AnchorStep parseFloat config.anchorPeers options.mspID options.anchorPeers v₄ v₅
    peerOrgUpdate

/-- The options with the flags that the steps set. -/
def flagged (config : CurrentConfig) (options : UpdateOptions) (peerOrgUpdate : Bool) :
    UpdateOptions :=
  { options with
    ordererOrgUpdate := options.ordererOrgUpdate ||
      numberDiffers config.maxMessageCount options.maxMessageCount ||
      numberDiffers config.preferredMaxBytes options.preferredMaxBytes ||
      timeoutDiffers config options
    ordererAddressesUpdate := options.ordererAddressesUpdate || addressesDiffer config options
    peerOrgUpdate := options.peerOrgUpdate || peerOrgUpdate }

theorem setOrdererOrgUpdate_if (differs : Bool) (options : UpdateOptions) :
    (if differs then setOrdererOrgUpdate options else options)
      = { options with ordererOrgUpdate := options.ordererOrgUpdate || differs } := by
  cases differs <;> simp [setOrdererOrgUpdate]

theorem setOrdererAddressesUpdate_if (differs : Bool) (options : UpdateOptions) :
    (if differs then setOrdererAddressesUpdate options else options)
      = { options with ordererAddressesUpdate := options.ordererAddressesUpdate || differs } := by
  cases differs <;> simp [setOrdererAddressesUpdate]

theorem setPeerOrgUpdate_if (differs : Bool) (options : UpdateOptions) :
    (if differs then setPeerOrgUpdate options else options)
      = { options with peerOrgUpdate := options.peerOrgUpdate || differs } := by
  cases differs <;> simp [setPeerOrgUpdate]

theorem updateOrdererAddresses_spec {config : CurrentConfig} {state state' : UpdateState}
    (h : updateOrdererAddresses config state = .ok state') :
    Assigned addressesAt (.other (newAddresses config state.2).json)
        (addressesDiffer config state.2) state.1 state'.1 ∧
      state'.2 = if addressesDiffer config state.2 then setOrdererAddressesUpdate state.2
        else state.2 := by
  unfold updateOrdererAddresses at h
  split at h
  · next hempty =>
      cases h
      rw [addressesDiffer, hempty]
      exact ⟨.refl _ _ _, rfl⟩
  · next hne =>
      have hdiffer : addressesDiffer config state.2
          = (config.orderers.json.text != (newAddresses config state.2).json.text) := by
        rw [addressesDiffer, bne_iff_ne.mpr hne, Bool.true_and]
      rw [hdiffer]
      exact assignIf_spec h

theorem updateAnchorPeers_spec {parseFloat : String → Except String Number}
    {config : CurrentConfig} {state state' : UpdateState}
    (h : updateAnchorPeers parseFloat config state = .ok state') :
    ∃ peerOrgUpdate, AnchorStep parseFloat config.anchorPeers state.2.mspID state.2.anchorPeers
        state.1 state'.1 peerOrgUpdate ∧
      state'.2 = if peerOrgUpdate then setPeerOrgUpdate state.2 else state.2 := by
  unfold updateAnchorPeers at h
  split at h
  · next hempty =>
      cases h
      exact ⟨false, .unset hempty, rfl⟩
  · next hset =>
      obtain ⟨anchors, hanchors, h⟩ := bind_eq_ok.mp h
      split at h
      · next hnone =>
          obtain ⟨hassigned, hflag⟩ := assignIf_spec h
          exact ⟨true, .new hset hanchors hnone hassigned, hflag⟩
      · next anchorPeerConfig hsome =>
          obtain ⟨value, hvalue, h⟩ := bind_eq_ok.mp h
          obtain ⟨hassigned, hflag⟩ := assignIf_spec h
          exact ⟨_, .list hset hanchors hsome (orPanic_eq_ok.mp hvalue) hassigned, hflag⟩

/-- A run that returns went through the five steps. -/
theorem updateChannelGroup_steps {parseFloat : String → Except String Number}
    {group group' : Fields} {options options' : UpdateOptions}
    (h : updateChannelGroup parseFloat group options = .ok (group', options')) :
    ∃ config v₁ v₂ v₃ v₄ v₅ peerOrgUpdate,
      Steps parseFloat group options config v₁ v₂ v₃ v₄ v₅ peerOrgUpdate ∧
      group' = [("channel_group", (valueAt v₅ ["channel_group"]).getD .null)] ∧
      options' = flagged config options peerOrgUpdate := by
  unfold updateChannelGroup at h
  obtain ⟨config, hconfig, h⟩ := bind_eq_ok.mp h
  obtain ⟨⟨v₁, o₁⟩, h₁, h⟩ := bind_eq_ok.mp h
  obtain ⟨⟨v₂, o₂⟩, h₂, h⟩ := bind_eq_ok.mp h
  obtain ⟨⟨v₃, o₃⟩, h₃, h⟩ := bind_eq_ok.mp h
  obtain ⟨⟨v₄, o₄⟩, h₄, h⟩ := bind_eq_ok.mp h
  obtain ⟨⟨v₅, o₅⟩, h₅, h⟩ := bind_eq_ok.mp h
  cases h
  -- the options of each step are those of the last one with a flag
  obtain ⟨h₁, rfl⟩ := assignIf_spec h₁
  rw [setOrdererOrgUpdate_if] at h₂
  obtain ⟨h₂, rfl⟩ := assignIf_spec h₂
  rw [setOrdererOrgUpdate_if] at h₃
  obtain ⟨h₃, rfl⟩ := assignIf_spec h₃
  rw [setOrdererOrgUpdate_if] at h₄
  obtain ⟨h₄, rfl⟩ := updateOrdererAddresses_spec h₄
  rw [setOrdererAddressesUpdate_if] at h₅
  obtain ⟨peerOrgUpdate, h₅, rfl⟩ := updateAnchorPeers_spec h₅
  exact ⟨config, v₁, v₂, v₃, v₄, v₅, peerOrgUpdate,
    ⟨orPanic_eq_ok.mp hconfig, h₁, h₂, h₃, h₄, h₅⟩, rfl, setPeerOrgUpdate_if _ _⟩

/-! ## The current settings, place by place -/

theorem objectAt_bind_lookup (group : Fields) (path : List String) (key : String) :
    ((objectAt group path).bind fun fields => fields.lookup key)
      = valueAt (.object group) (path ++ [key]) := by
  rw [valueAt_append, objectAt]
  cases valueAt (.object group) path with
  | none => rfl
  | some v =>
      simp only [Option.bind_some, valueAt, Option.bind_fun_some]

theorem number?_eq_some {v : Value} {n : Number} : v.number? = some n ↔ v = .number n := by
  constructor
  · intro h
    unfold Value.number? at h
    split at h
    · cases h
      rfl
    · cases h
  · rintro rfl
    rfl

theorem string?_eq_some {v : Value} {s : String} : v.string? = some s ↔ v = .string s := by
  constructor
  · intro h
    unfold Value.string? at h
    split at h
    · cases h
      rfl
    · cases h
  · rintro rfl
    rfl

theorem object?_eq_some {v : Value} {fields : Fields} :
    v.object? = some fields ↔ v = .object fields := by
  constructor
  · intro h
    unfold Value.object? at h
    split at h
    · cases h
      rfl
    · cases h
  · rintro rfl
    rfl

theorem objectAt_eq_some {group fields : Fields} {path : List String} :
    objectAt group path = some fields ↔ valueAt (.object group) path = some (.object fields) := by
  rw [objectAt, Option.bind_eq_some_iff]
  simp only [object?_eq_some, exists_eq_right]

/-- Every place that `GetConfigFromChannelGroup` reads. -/
theorem getConfig_eq_some_iff {group : Fields} {mspID : String} {config : CurrentConfig} :
    getConfigFromChannelGroup group mspID = some config ↔
      valueAt (.object group) maxMessageCountAt = some (.number config.maxMessageCount) ∧
      valueAt (.object group) preferredMaxBytesAt = some (.number config.preferredMaxBytes) ∧
      valueAt (.object group) batchTimeoutAt = some (.string config.batchTimeout) ∧
      ((∃ values, objectAt group (mspValues mspID) = some values) ∧
        readAnchorPeers (valueAt (.object group) (anchorPeersAt mspID))
          = some config.anchorPeers) ∧
      (∃ value, objectAt group ORDERER_ADDRESSES_VALUE = some value) ∧
        readAddresses (valueAt (.object group) addressesAt) = some config.orderers := by
  unfold getConfigFromChannelGroup maxMessageCountAt preferredMaxBytesAt batchTimeoutAt
    anchorPeersAt addressesAt
  simp only [← objectAt_bind_lookup]
  constructor
  · intro h
    simp only [Option.bind_eq_bind, Option.bind_eq_some_iff] at h
    obtain ⟨batchSize, hsize, m, ⟨_, hcount, hm⟩, p, ⟨_, hbytes, hp⟩, timeout, htimeout, b,
      ⟨_, htime, hb⟩, values, hvalues, a, ha, o, ho, r, hr, heq⟩ := h
    cases heq
    -- each assertion finds the type it asserts
    rw [number?_eq_some.mp hm] at hcount
    rw [number?_eq_some.mp hp] at hbytes
    rw [string?_eq_some.mp hb] at htime
    simp [hsize, htimeout, hvalues, ho, hcount, hbytes, htime, ha, hr]
  · rintro ⟨hcount, hbytes, htime, ⟨⟨values, hvalues⟩, ha⟩, ⟨o, ho⟩, hr⟩
    obtain ⟨batchSize, hsize, hcount⟩ := Option.bind_eq_some_iff.mp hcount
    obtain ⟨timeout, htimeout, htime⟩ := Option.bind_eq_some_iff.mp htime
    rw [hsize, Option.bind_some] at hbytes
    rw [hvalues, Option.bind_some] at ha
    rw [ho, Option.bind_some] at hr
    simp [hsize, htimeout, hvalues, ho, hcount, hbytes, htime, ha, hr, Value.number?,
      Value.string?]

end Hfrd.Channel
