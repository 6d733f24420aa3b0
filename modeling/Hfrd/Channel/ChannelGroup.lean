/-
  Hfrd.Channel.ChannelGroup

  `UpdateChannelGroup` and `GetConfigFromChannelGroup`
  (`modules/gosdk/channel/utilities/channel.go`): the settings that
  `CHANNEL_UPDATE` changes in the decoded config of a channel.

  A type assertion that fails is a panic.  The config is changed in place; the
  model returns the changed one, and the config that was passed in is the same
  object.
-/

import Hfrd.Go.JsonParse
import Hfrd.Go.Strconv

namespace Hfrd.Channel

open Hfrd.Go

/-! ## Reading and assigning in nested maps -/

/-- The value at the end of a path of keys. -/
def valueAt : Value → List String → Option Value
  | v, [] => some v
  | v, key :: path =>
      (v.object?.bind fun fields => fields.lookup key).bind fun child => valueAt child path

/-- `m[path[0]].(map[string]interface{})[path[1]]...`, asserted to be a map. -/
def objectAt (group : Fields) (path : List String) : Option Fields :=
  (valueAt (.object group) path).bind Value.object?

/-- The assignment `...[key] = value` in the map at the end of a path. -/
def assignAt : Value → List String → String → Value → Option Value
  | v, [], key, value => v.object?.map fun fields => .object (setField fields key value)
  | v, key' :: path, key, value =>
      v.object?.bind fun fields =>
        (fields.lookup key').bind fun child =>
          (assignAt child path key value).map fun child' =>
            .object (setField fields key' child')

/-! ## The current settings -/

/-- The path to the value of the batch size. -/
def BATCH_SIZE_VALUE : List String :=
  ["channel_group", "groups", "Orderer", "values", "BatchSize", "value"]

/-- The path to the value of the batch timeout. -/
def BATCH_TIMEOUT_VALUE : List String :=
  ["channel_group", "groups", "Orderer", "values", "BatchTimeout", "value"]

/-- The path to the value of the orderer addresses. -/
def ORDERER_ADDRESSES_VALUE : List String :=
  ["channel_group", "values", "OrdererAddresses", "value"]

/-- The path to the values of an organization. -/
def mspValues (mspID : String) : List String :=
  ["channel_group", "groups", "Application", "groups", mspID, "values"]

/-- A `[]string`; the nil slice is not written as the empty one. -/
abbrev Strings := Option (List String)

namespace Strings

/-- The strings of a slice; a nil slice has none. -/
def elems (s : Strings) : List String := s.getD []

/-- `append` -/
def append (s : Strings) (e : String) : Strings := some (s.elems ++ [e])

/-- What `json.Marshal` writes for a slice of strings. -/
def json : Strings → Value
  | none => .null
  | some s => .array (s.map Value.string)

end Strings

/-- What `GetConfigFromChannelGroup` returns. -/
structure CurrentConfig where
  batchTimeout : String
  maxMessageCount : Number
  preferredMaxBytes : Number
  anchorPeers : Option Fields
  orderers : Strings

/-- The anchor peers of the channel group, where there are any. -/
def readAnchorPeers : Option Value → Option (Option Fields)
  | none => some none
  | some v => v.object?.map some

/-- The addresses of the channel group. -/
def readAddresses : Option Value → Option Strings
  | none => some none
  | some v =>
      (v.array?.bind fun elements => elements.mapM Value.string?).map fun addresses =>
        addresses.foldl Strings.append none

/-- `getConfigFromChannelGroup`; none where a type assertion panics. -/
def getConfigFromChannelGroup (channelGroup : Fields) (mspID : String) :
    Option CurrentConfig := do
  let batchSize ← objectAt channelGroup BATCH_SIZE_VALUE
  let maxMessageCount ← (batchSize.lookup "max_message_count").bind Value.number?
  let preferredMaxBytes ← (batchSize.lookup "preferred_max_bytes").bind Value.number?
  let timeout ← objectAt channelGroup BATCH_TIMEOUT_VALUE
  let batchTimeout ← (timeout.lookup "timeout").bind Value.string?
  let values ← objectAt channelGroup (mspValues mspID)
  let anchorPeers ← readAnchorPeers (values.lookup "AnchorPeers")
  let ordererAddresses ← objectAt channelGroup ORDERER_ADDRESSES_VALUE
  let orderers ← readAddresses (ordererAddresses.lookup "addresses")
  return { batchTimeout, maxMessageCount, preferredMaxBytes, anchorPeers, orderers }

/-! ## The requested settings -/

/-- `UpdateOptions`: what is asked for, and the flags of what differs. -/
structure UpdateOptions where
  mspID : String
  ordererOrgUpdate : Bool := false
  ordererAddressesUpdate : Bool := false
  peerOrgUpdate : Bool := false
  batchTimeout : String := ""
  maxMessageCount : Number
  preferredMaxBytes : Number
  ordererAddressesAction : String := ""
  ordererAddresses : List String := []
  anchorPeers : List String := []

/-- The addresses take the place of those there are. -/
def REPLACE_ORDERER_ADDRESS : String := "replace"
/-- The addresses are added to those there are. -/
def ADD_ORDERER_ADDRESS : String := "add"
/-- The addresses are taken away from those there are. -/
def REMOVE_ORDERER_ADDRESS : String := "remove"

/-- The index of the first `e`; `none` is the -1 of the source. -/
def contains (s : Strings) (e : String) : Option Nat :=
  s.elems.findIdx? (· == e)

/-- Appends an address that is not there. -/
def addAddress (addresses : Strings) (ordererAddress : String) : Strings :=
  if contains addresses ordererAddress = none then addresses.append ordererAddress else addresses

/-- Cuts an address out until it is not found. -/
def removeAll (ordererAddress : String) (addresses : List String) : List String :=
  match _h : contains (some addresses) ordererAddress with
  | some index => removeAll ordererAddress (addresses.eraseIdx index)
  | none => addresses
termination_by addresses.length
decreasing_by
  have hlt : index < addresses.length := (List.findIdx?_eq_some_iff_getElem.mp _h).1
  rw [List.length_eraseIdx_of_lt hlt]
  omega

/-- The addresses without one. -/
def removeAddress (addresses : Strings) (ordererAddress : String) : Strings :=
  addresses.map (removeAll ordererAddress)

/-- The addresses after the action; an action without a case leaves the
    variable nil. -/
def requestedAddresses (action : String) (current : Strings) (requested : List String) :
    Strings :=
  if action = REPLACE_ORDERER_ADDRESS then some requested
  else if action = ADD_ORDERER_ADDRESS then requested.foldl addAddress current
  else if action = REMOVE_ORDERER_ADDRESS then requested.foldl removeAddress current
  else none

/-! ## `UpdateChannelGroup` -/

/-- How the update ends that gives no channel group. -/
inductive Failure where
  | panic
  | error (text : String)
  deriving DecidableEq

/-- The channel group that is changed, and the options with their flags. -/
abbrev UpdateState := Value × UpdateOptions

/-- A value that is used whether it is there or not. -/
def orPanic {α : Type} : Option α → Except Failure α
  | none => .error .panic
  | some a => .ok a

/-- Where a setting differs, assign it and set its flag. -/
def assignIf (differs : Bool) (path : List String) (key : String) (value : Value)
    (flag : UpdateOptions → UpdateOptions) (state : UpdateState) :
    Except Failure UpdateState :=
  if differs then do
    let group ← orPanic (assignAt state.1 path key value)
    return (group, flag state.2)
  else return state

/-- The update changes the group of the orderers. -/
def setOrdererOrgUpdate (options : UpdateOptions) : UpdateOptions :=
  { options with ordererOrgUpdate := true }

/-- The update changes the orderer addresses. -/
def setOrdererAddressesUpdate (options : UpdateOptions) : UpdateOptions :=
  { options with ordererAddressesUpdate := true }

/-- The update changes the group of the organization. -/
def setPeerOrgUpdate (options : UpdateOptions) : UpdateOptions :=
  { options with peerOrgUpdate := true }

/-- `current != requested && requested != 0` -/
def numberDiffers (current requested : Number) : Bool :=
  !current.eq requested && !requested.isZero

/-- The assignment of the maximum message count. -/
def updateMaxMessageCount (config : CurrentConfig) (state : UpdateState) :
    Except Failure UpdateState :=
  assignIf (numberDiffers config.maxMessageCount state.2.maxMessageCount) BATCH_SIZE_VALUE
    "max_message_count" (.number state.2.maxMessageCount) setOrdererOrgUpdate state

/-- The assignment of the preferred maximum of bytes. -/
def updatePreferredMaxBytes (config : CurrentConfig) (state : UpdateState) :
    Except Failure UpdateState :=
  assignIf (numberDiffers config.preferredMaxBytes state.2.preferredMaxBytes) BATCH_SIZE_VALUE
    "preferred_max_bytes" (.number state.2.preferredMaxBytes) setOrdererOrgUpdate state

/-- The assignment of the batch timeout. -/
def updateBatchTimeout (config : CurrentConfig) (state : UpdateState) :
    Except Failure UpdateState :=
  assignIf (config.batchTimeout != state.2.batchTimeout && state.2.batchTimeout != "")
    BATCH_TIMEOUT_VALUE "timeout" (.string state.2.batchTimeout) setOrdererOrgUpdate state

/-- The assignment of the orderer addresses. -/
def updateOrdererAddresses (config : CurrentConfig) (state : UpdateState) :
    Except Failure UpdateState :=
  if state.2.ordererAddresses = [] then return state
  else
    let ordererAddresses := requestedAddresses state.2.ordererAddressesAction config.orderers
      state.2.ordererAddresses
    assignIf (config.orderers.json.text != ordererAddresses.json.text) ORDERER_ADDRESSES_VALUE
      "addresses" (.other ordererAddresses.json) setOrdererAddressesUpdate state

section AnchorPeers

-- `strconv.ParseFloat(s, 32)`, with the text of its error
variable (parseFloat : String → Except String Number)

/-- An anchor peer of the flag, as it stands in the channel group. -/
def anchorConfig (anchorPeer : String) : Except Failure Value :=
  match split anchorPeer ":" with
  | [host, port] =>
      match parseFloat port with
      | .ok port => return .object [("host", .string host), ("port", .number port)]
      | .error text => throw (.error text)
  | _ =>
      throw (.error ("Please double check your anchor peers configurations." ++
        "They must include both ip and port"))

/-- The config of an organization that has no anchor peers. -/
def newAnchorConfig (anchorPeers : List Value) : Value :=
  .object [("mod_policy", .string "Admins"),
    ("value", .other (.object [("anchor_peers", .array anchorPeers)]))]

/-- The assignment of the anchor peers. -/
def updateAnchorPeers (config : CurrentConfig) (state : UpdateState) :
    Except Failure UpdateState :=
  if state.2.anchorPeers = [] then return state
  else do
    let anchorPeers ← state.2.anchorPeers.mapM (anchorConfig parseFloat)
    match config.anchorPeers with
    -- the whole entry is new
    | none =>
        assignIf true (mspValues state.2.mspID) "AnchorPeers" (newAnchorConfig anchorPeers)
          setPeerOrgUpdate state
    | some anchorPeerConfig =>
        -- a list that is not there is compared as `null`
        let value ← orPanic ((anchorPeerConfig.lookup "value").bind Value.object?)
        assignIf (((value.lookup "anchor_peers").getD .null).text
            != (Value.array anchorPeers).text)
          (mspValues state.2.mspID ++ ["AnchorPeers", "value"]) "anchor_peers"
          (.other (.array anchorPeers)) setPeerOrgUpdate state

/-- The assignments of the update, one after the other. -/
def updateChannelGroup (originalGroup : Fields) (updateOptions : UpdateOptions) :
    Except Failure (Fields × UpdateOptions) := do
  -- the settings are read once, before the first assignment
  let config ← orPanic (getConfigFromChannelGroup originalGroup updateOptions.mspID)
  let state ← updateMaxMessageCount config (.object originalGroup, updateOptions)
  let state ← updatePreferredMaxBytes config state
  let state ← updateBatchTimeout config state
  let state ← updateOrdererAddresses config state
  let state ← updateAnchorPeers parseFloat config state
  -- `configOut` has this member alone
  return ([("channel_group", (valueAt state.1 ["channel_group"]).getD .null)], state.2)

end AnchorPeers

end Hfrd.Channel
