/-
  Hfrd.Channel.Configtxlator

  Messages between their bytes and JSON (`DecodeProto` and `EncodeProto` of
  modules/gosdk/channel/utilities/configtxlator/update.go), and what becomes of
  the config of a channel in `CreateUpdateEnvelope` (utilities/channel.go): it is
  decoded from the last config block, written without some of its null members,
  and encoded again as the config that the update starts from.
-/

import Hfrd.Channel.EncodeAndReplaceNull
import Hfrd.Channel.ProtolatorRoundTrip
import Hfrd.Go.Base64

namespace Hfrd.Channel.Protolator

open Hfrd.Go Hfrd.Lib

variable {κ δ π : Type} (w : Proto κ δ π)

/-- `.(map[string]interface{})` -/
def assertMap : Option Value → Except Failure Fields
  | some (.object fields) => .ok fields
  | _ => .error .panic

/-- `.([]interface{})[0]` -/
def assertFirst : Option Value → Except Failure Value
  | some (.array (v :: _)) => .ok v
  | _ => .error .panic

/-- The config in the first envelope of a block. -/
def channelGroup (configJson : Fields) : Except Failure Fields := do
  let data ← assertMap (configJson.lookup "data")
  let first ← assertFirst (data.lookup "data")
  let envelope ← assertMap (some first)
  let payload ← assertMap (envelope.lookup "payload")
  let configEnvelope ← assertMap (payload.lookup "data")
  assertMap (configEnvelope.lookup "config")

/-- `proto.MessageType` -/
def messageType (types : String → Option κ) (msgName : String) : Except Failure κ :=
  match types msgName with
  | none => .error (.error "message of type %!s(<nil>) unknown")
  | some type => .ok type

/-- `errors.Wrapf` -/
def wrapf {α : Type} (text : String) (x : Except Failure α) : Except Failure α :=
  x.mapError (.within fun err => text ++ ": " ++ err)

/-- An error of the last decoding is printed, and the map stays empty. -/
def decodeProto (types : String → Option κ) (depth : Nat) (msgName : String)
    (configBytes : List UInt8) : Except Failure Fields := do
  let type ← messageType types msgName
  let msg ← wrapf "error unmarshaling" (orError (w.unmarshal type configBytes))
  let buffer ← wrapf "error decoding output" (deepMarshalJSON w depth ⟨type, none⟩ msg)
  let configJson := match Hfrd.Go.unmarshal buffer with
    | some (.object fields) => fields
    | _ => []
  if msgName = "common.Block" then channelGroup configJson else return configJson

/-- `encodeProto`: the message of the JSON, as bytes. -/
def encodeProto (types : String → Option κ) (depth : Nat) (msgName : String)
    (configBytes : List Char) : Except Failure (List UInt8) := do
  let type ← messageType types msgName
  let msg ← wrapf "error encoding output"
    (deepUnmarshalJSON w depth ⟨type, none⟩ configBytes (w.new type))
  wrapf "error marshaling" (orError (w.marshal type msg))

/-! ## A block with a config -/

/-- The types on the way from a block to the config in it. -/
inductive BlockType where
  | block
  | blockData
  | envelope
  | payload
  | configEnvelope
  | config
  | policy
  deriving DecidableEq

/-- The field with a message in it. -/
def BlockType.fieldName : BlockType → String
  | .block => "data"
  | .blockData => "data"
  | .envelope => "payload"
  | .payload => "data"
  | .configEnvelope => "config"
  | .config => "policy"
  | .policy => "mod_policy"

/-- A message around a config. -/
def BlockType.isAround : BlockType → Bool
  | .config => false
  | .policy => false
  | _ => true

/-- A message of which one field is set. -/
def oneField (name : String) (value : FieldValue String) : Message String :=
  Function.update (fun _ => .nil) name value

/-- A field of the wire format with its length. -/
def delimited (tag : UInt8) (b : List UInt8) : List UInt8 := tag :: b.length.toUInt8 :: b

/-- A config on the wire; its policy is never set. -/
def configBytes (msg : Message String) : List UInt8 :=
  match msg "sequence" with
  | .plain s => 8 :: s.toList.map fun c => (c.toNat - 48).toUInt8
  | _ => []

/-- The bytes of an opaque message. -/
def elementBytes : Element String → List UInt8
  | .bytes b => b
  | .message _ => []

/-- A `BlockData` on the wire. -/
def blockDataBytes (msg : Message String) : List UInt8 :=
  match msg "data" with
  | .slice es => es.flatMap fun e => delimited 10 (elementBytes e)
  | _ => []

/-- What jsonpb writes of a field without messages in it. -/
def fieldJSON : FieldValue String → Value
  | .plain s => .string s
  | .single e => .string (String.ofList (StdEncoding.encode (elementBytes e)))
  | .slice es => .array (es.map fun e =>
      .string (String.ofList (StdEncoding.encode (elementBytes e))))
  | _ => .null

/-- What jsonpb writes of a config: with `EmitDefaults`, a message that is not set
    is written as `null`. -/
def configJSON (msg : Message String) : Fields :=
  [("policy", fieldJSON (msg "policy")), ("sequence", fieldJSON (msg "sequence"))]

/-- What jsonpb writes of the field with a message in it. -/
def blockJSON (type : BlockType) (msg : Message String) : Value :=
  match type, msg type.fieldName with
  | .block, .single (.message data) => .object [("data", fieldJSON (data "data"))]
  | .configEnvelope, .single (.message config) => .object (configJSON config)
  | _, value => fieldJSON value

/-- What jsonpb writes of a message. -/
def messageJSON (type : BlockType) (msg : Message String) : Fields :=
  match type with
  | .config => configJSON msg
  | _ => [(type.fieldName, blockJSON type msg)]

/-- Blocks of one envelope, with a config that has a sequence of one digit and no
    policy. -/
def blockProto : Proto BlockType Unit String where
  typeName kind := match kind.type with
    | .block => "*common.Block"
    | .blockData => "*common.BlockData"
    | .envelope => "*common.Envelope"
    | .payload => "*common.Payload"
    | .configEnvelope => "*common.ConfigEnvelope"
    | .config => "*common.Config"
    | .policy => "*common.Policy"
  properties
    | .block => [⟨"data", .pointer .blockData⟩]
    | .configEnvelope => [⟨"config", .pointer .config⟩]
    | .config => [⟨"policy", .pointer .policy⟩, ⟨"sequence", .other⟩]
    | type => [⟨type.fieldName, .other⟩]
  nodup_properties type := by cases type <;> decide
  isTimestamp _ := false
  declared kind factory := match kind.type, factory.content, factory.shape with
    | .blockData, .staticallyOpaque, .slice => some ["data"]
    | .envelope, .staticallyOpaque, .plain => some ["payload"]
    | .payload, .variablyOpaque, .plain => some ["data"]
    | _, _, _ => none
  opaqueProto kind _ _ _ _ := match kind.type with
    | .blockData => .ok ⟨.envelope, none⟩
    | .envelope => .ok ⟨.payload, none⟩
    | .payload => .ok ⟨.configEnvelope, none⟩
    | _ => .error "no opaque field"
  dynamicProto _ _ _ _ _ _ := .error "no dynamic field"
  new
    | .blockData => oneField "data" (.slice [])
    | .config => oneField "sequence" (.plain "0")
    | _ => fun _ => .nil
  marshal type msg := .ok (match type, msg type.fieldName with
    | .config, _ => configBytes msg
    | .configEnvelope, .single (.message config) => delimited 10 (configBytes config)
    | .payload, .single (.bytes b) => delimited 18 b
    | .envelope, .single (.bytes b) => delimited 10 b
    | .blockData, _ => blockDataBytes msg
    | .block, .single (.message data) => delimited 18 (blockDataBytes data)
    | _, _ => [])
  unmarshal
    | .block, 18 :: _ :: 10 :: _ :: b =>
        .ok (oneField "data" (.single (.message (oneField "data" (.slice [.bytes b])))))
    | .envelope, 10 :: _ :: b => .ok (oneField "payload" (.single (.bytes b)))
    | .payload, 18 :: _ :: b => .ok (oneField "data" (.single (.bytes b)))
    | .configEnvelope, [10, _, 8, n] => .ok (oneField "config" (.single (.message
        (oneField "sequence" (.plain (String.ofList [Char.ofNat (48 + n.toNat)]))))))
    | _, _ => .error "unexpected EOF"
  marshalJSON type msg := .ok (Value.object (messageJSON type msg)).text
  unmarshalJSON _ text msg := match Hfrd.Go.unmarshal text with
    | some (.object [("sequence", .scalar (.string s))]) =>
        .ok (Function.update msg "sequence" (.plain s))
    | some (.object []) => .ok msg
    | _ => .error "unknown field"
  jsonError _ := "unexpected end of JSON input"

/-- The field of a type that is handled. -/
def BlockType.protoField : BlockType → ProtoField BlockType
  | .block => ⟨⟨.nested, .plain⟩, "data", some .blockData⟩
  | .blockData => ⟨⟨.staticallyOpaque, .slice⟩, "data", none⟩
  | .envelope => ⟨⟨.staticallyOpaque, .plain⟩, "payload", none⟩
  | .payload => ⟨⟨.variablyOpaque, .plain⟩, "data", none⟩
  | .configEnvelope => ⟨⟨.nested, .plain⟩, "config", some .config⟩
  | .config => ⟨⟨.nested, .plain⟩, "policy", some .policy⟩
  | .policy => ⟨⟨.nested, .plain⟩, "mod_policy", none⟩

theorem protoFields_blockProto {type : BlockType} (h : type.isAround = true) :
    protoFields blockProto ⟨type, none⟩ = [type.protoField] := by
  cases type <;> first | rfl | cases h

theorem protoFields_config :
    protoFields blockProto ⟨.config, none⟩ = [BlockType.config.protoField] := rfl

theorem ordered_blockProto : Ordered blockProto := fun _ _ _ _ _ _ _ _ _ => rfl

theorem wellFormed_fieldJSON (value : FieldValue String) : (fieldJSON value).WellFormed := by
  cases value with
  | slice es =>
      refine .array fun v hv => ?_
      obtain ⟨e, -, rfl⟩ := List.mem_map.mp hv
      exact .scalar _
  | _ => exact .scalar _

theorem wellFormed_configJSON (msg : Message String) : (Value.object (configJSON msg)).WellFormed :=
  .pair _ _ (by decide) (wellFormed_fieldJSON _) (wellFormed_fieldJSON _)

theorem wellFormed_blockJSON (type : BlockType) (msg : Message String) :
    (blockJSON type msg).WellFormed := by
  unfold blockJSON
  split
  · exact .single _ (wellFormed_fieldJSON _)
  · exact wellFormed_configJSON _
  · exact wellFormed_fieldJSON _

section OneField

variable (type : BlockType) {value : FieldValue String}

theorem name_protoField : type.protoField.name = type.fieldName := by cases type <;> rfl

theorem jsonToMap_messageJSON (msg : Message String) :
    jsonToMap blockProto (Value.object (messageJSON type msg)).text =
      .ok (Value.decodedFields (messageJSON type msg)) := by
  have hwell : (Value.object (messageJSON type msg)).WellFormed := by
    unfold messageJSON
    split
    · exact wellFormed_configJSON msg
    · exact .single _ (wellFormed_blockJSON type msg)
  rw [jsonToMap, unmarshal_text hwell]
  rfl

theorem tree_of_marshalJSON {msg : Message String} {jsonBytes : List Char} {tree : Fields}
    (hjson : blockProto.marshalJSON type msg = .ok jsonBytes)
    (htree : jsonToMap blockProto jsonBytes = .ok tree) :
    tree = Value.decodedFields (messageJSON type msg) := by
  have htext : (Value.object (messageJSON type msg)).text = jsonBytes := Except.ok.inj hjson
  rw [← htext, jsonToMap_messageJSON] at htree
  exact (Except.ok.inj htree).symm

theorem decoded_messageJSON (h : type.isAround = true) (msg : Message String) :
    Value.decodedFields (messageJSON type msg) =
      [(type.fieldName, (blockJSON type msg).decoded)] := by
  cases type <;> first | rfl | cases h

theorem new_of_ne (h : type.isAround = true) {name : String} (hname : name ≠ type.fieldName) :
    blockProto.new type name = .nil := by
  cases type with
  | blockData =>
      show Function.update (fun _ => FieldValue.nil) "data" (.slice []) name = .nil
      exact Function.update_of_ne hname _ _
  | config => cases h
  | policy => cases h
  | _ => rfl

theorem unmarshalJSON_nil (msg : Message String) :
    blockProto.unmarshalJSON type (Value.object []).text msg = .ok msg := by
  have hread : Hfrd.Go.unmarshal (Value.object []).text = some (.object []) :=
    unmarshal_text (.object List.Pairwise.nil fun f hf => absurd hf List.not_mem_nil)
  simp only [blockProto, hread]

/-- A message with a field that is handled. -/
theorem kept_oneField (h : type.isAround = true) (hset : value.isNil = false)
    (hmap : ∀ es, value ≠ .map es)
    (hcanonical : ∀ {place inner nMsg b},
      innerKind blockProto ⟨type, none⟩ (oneField type.fieldName value) type.protoField place =
        .ok inner → (place, .bytes b) ∈ value.elements →
      blockProto.unmarshal inner.type b = .ok nMsg → blockProto.marshal inner.type nMsg = .ok b) :
    Kept blockProto ⟨type, none⟩ (oneField type.fieldName value) := by
  have hvalue : oneField type.fieldName value type.protoField.name = value := by
    rw [name_protoField, oneField, Function.update_self]
  have hfields := protoFields_blockProto h
  refine ⟨fun hjson htree field hfield _ => ?_, fun _ _ field hfield hnil => ?_,
    fun hjson htree rest hrest => ?_, fun field hfield es hes => ?_,
    fun field hfield place inner nMsg b hinner he hunmarshal => ?_⟩
  -- what is written
  · rw [hfields, List.mem_singleton] at hfield
    rw [tree_of_marshalJSON type hjson htree, decoded_messageJSON type h, hfield, name_protoField]
    simp
  -- nothing is unset
  · rw [hfields, List.mem_singleton] at hfield
    rw [hfield, hvalue] at hnil
    rw [hnil] at hset
    cases hset
  -- the field is handled, so nothing is left for jsonpb to read
  · have hhandled : ∀ name, isHandled blockProto ⟨type, none⟩ name = (type.fieldName == name) := by
      intro name
      simp [isHandled, hfields, name_protoField]
    have hplain : plainFields blockProto ⟨type, none⟩
        [(type.fieldName, (blockJSON type (oneField type.fieldName value)).decoded)] = [] := by
      simp [plainFields, hfields, name_protoField]
    rw [tree_of_marshalJSON type hjson htree, decoded_messageJSON type h, hplain] at hrest
    cases hrest
    rw [unmarshalJSON_nil]
    refine congrArg Except.ok (funext fun name => ?_)
    rw [hhandled]
    by_cases hname : type.fieldName = name
    · rw [if_pos (by simpa using hname)]
    · rw [if_neg (by simpa using hname), new_of_ne type h (Ne.symm hname), oneField,
        Function.update_of_ne (Ne.symm hname)]
  -- there is no map
  · rw [hfields, List.mem_singleton] at hfield
    rw [hfield, hvalue] at hes
    exact absurd hes (hmap es)
  -- the bytes inside are those that are written
  · rw [hfields, List.mem_singleton] at hfield
    subst hfield
    rw [hvalue] at he
    exact hcanonical hinner he hunmarshal

/-- Its tree. -/
theorem createTree_oneField {depth : Nat} {v : Value} (h : type.isAround = true)
    (hset : value.isNil = false) (hplain : value.isPlain = false)
    (hto : populateTo blockProto (createTree blockProto depth) ⟨type, none⟩
      (oneField type.fieldName value) type.protoField = .ok v) :
    createTree blockProto (depth + 1) ⟨type, none⟩ (oneField type.fieldName value) =
      .ok [(type.fieldName, v)] := by
  have hvalue : oneField type.fieldName value type.protoField.name = value := by
    rw [name_protoField, oneField, Function.update_self]
  have hdecode : protoFieldsForDecode blockProto ⟨type, none⟩ (oneField type.fieldName value) =
      .ok [type.protoField] := by
    simp [protoFieldsForDecode, protoFields_blockProto h, hvalue, hset, hplain]
  have hjson : blockProto.marshalJSON type (oneField type.fieldName value) =
      .ok (Value.object (messageJSON type (oneField type.fieldName value))).text := rfl
  have hround : replaceField blockProto (createTree blockProto depth) ⟨type, none⟩
      (oneField type.fieldName value) type.protoField
      [(type.fieldName, (blockJSON type (oneField type.fieldName value)).decoded)] =
        .ok [(type.fieldName, v)] := by
    simp [replaceField, name_protoField, hto, setField, bind, Except.bind, pure, Except.pure]
  rw [createTree, createTreeStep, mapError_eq_ok]
  simp only [Go.bind_eq_ok, orError, mapError_eq_ok]
  refine ⟨_, hdecode, _, hjson, _, jsonToMap_messageJSON type _, ?_⟩
  rw [decoded_messageJSON type h, List.foldlM_cons, hround]
  rfl

end OneField

/-! ## The tree of the block -/

section Elements

variable {w} {createTree : Kind κ δ → Message π → Except Failure Fields} {kind inner : Kind κ δ}
  {msg nMsg : Message π} {field : ProtoField κ} {place : Place} {tree : Fields}

theorem elementTo_bytes {b : List UInt8} (h : field.factory.content.isOpaque = true)
    (hinner : innerKind w kind msg field place = .ok inner)
    (hunmarshal : w.unmarshal inner.type b = .ok nMsg) (htree : createTree inner nMsg = .ok tree) :
    elementTo w createTree kind msg field place (.bytes b) = .ok (.object tree) := by
  simp [elementTo, h, hinner, hunmarshal, htree, orError, Except.mapError, bind, Except.bind,
    pure, Except.pure]

theorem elementTo_message (h : field.factory.content.isOpaque = false)
    (hinner : innerKind w kind msg field place = .ok inner)
    (htree : createTree inner nMsg = .ok tree) :
    elementTo w createTree kind msg field place (.message nMsg) = .ok (.object tree) := by
  simp [elementTo, h, hinner, htree, bind, Except.bind, pure, Except.pure]

theorem populateTo_bytes {b : List UInt8} (hshape : field.factory.shape = .plain)
    (hvalue : msg field.name = .single (.bytes b)) (h : field.factory.content.isOpaque = true)
    (hinner : innerKind w kind msg field .field = .ok inner)
    (hunmarshal : w.unmarshal inner.type b = .ok nMsg) (htree : createTree inner nMsg = .ok tree) :
    populateTo w createTree kind msg field = .ok (.object tree) := by
  simp [populateTo, hshape, hvalue, FieldValue.isBytes,
    elementTo_bytes h hinner hunmarshal htree]

theorem populateTo_message (hshape : field.factory.shape = .plain)
    (hvalue : msg field.name = .single (.message nMsg))
    (h : field.factory.content.isOpaque = false)
    (hinner : innerKind w kind msg field .field = .ok inner)
    (htree : createTree inner nMsg = .ok tree) :
    populateTo w createTree kind msg field = .ok (.object tree) := by
  simp [populateTo, hshape, hvalue, h, elementTo_message h hinner htree]

theorem populateTo_slice {b : List UInt8} (hshape : field.factory.shape = .slice)
    (hvalue : msg field.name = .slice [.bytes b]) (h : field.factory.content.isOpaque = true)
    (hinner : innerKind w kind msg field (.index 0) = .ok inner)
    (hunmarshal : w.unmarshal inner.type b = .ok nMsg) (htree : createTree inner nMsg = .ok tree) :
    populateTo w createTree kind msg field = .ok (.array [.object tree]) := by
  simp [populateTo, hshape, hvalue, elementTo_bytes h hinner hunmarshal htree, Except.mapError,
    bind, Except.bind, pure, Except.pure]

end Elements

/-- A config with a sequence and nothing else. -/
def configMessage : Message String := oneField "sequence" (.plain "1")

/-- The envelope of that config. -/
def configEnvelopeMessage : Message String := oneField "config" (.single (.message configMessage))

/-- A payload whose data is the envelope's bytes. -/
def payloadMessage : Message String := oneField "data" (.single (.bytes [10, 2, 8, 1]))

/-- An envelope whose payload is the payload's bytes. -/
def envelopeMessage : Message String :=
  oneField "payload" (.single (.bytes [18, 4, 10, 2, 8, 1]))

/-- The data of a block with that envelope. -/
def blockDataMessage : Message String :=
  oneField "data" (.slice [.bytes [10, 6, 18, 4, 10, 2, 8, 1]])

/-- A block with that data. -/
def blockMessage : Message String := oneField "data" (.single (.message blockDataMessage))

/-- The tree of the config. -/
def configTree : Fields := [("policy", .null), ("sequence", .string "1")]

theorem createTree_config : createTree blockProto 1 ⟨.config, none⟩ configMessage =
    .ok configTree := by
  have hjson : blockProto.marshalJSON .config configMessage =
      .ok (Value.object (messageJSON .config configMessage)).text := rfl
  rw [createTree, createTreeStep, mapError_eq_ok]
  simp only [Go.bind_eq_ok, orError, mapError_eq_ok]
  exact ⟨[], rfl, _, hjson, _, jsonToMap_messageJSON .config configMessage, rfl⟩

theorem createTree_configEnvelope :
    createTree blockProto 2 ⟨.configEnvelope, none⟩ configEnvelopeMessage =
      .ok [("config", .object configTree)] :=
  createTree_oneField .configEnvelope rfl rfl rfl
    (populateTo_message rfl rfl rfl rfl createTree_config)

theorem createTree_payload : createTree blockProto 3 ⟨.payload, none⟩ payloadMessage =
    .ok [("data", .object [("config", .object configTree)])] :=
  createTree_oneField .payload rfl rfl rfl
    (populateTo_bytes rfl rfl rfl rfl rfl createTree_configEnvelope)

theorem createTree_envelope : createTree blockProto 4 ⟨.envelope, none⟩ envelopeMessage =
    .ok [("payload", .object [("data", .object [("config",
      .object configTree)])])] :=
  createTree_oneField .envelope rfl rfl rfl
    (populateTo_bytes rfl rfl rfl rfl rfl createTree_payload)

theorem createTree_blockData : createTree blockProto 5 ⟨.blockData, none⟩ blockDataMessage =
    .ok [("data", .array [.object [("payload", .object [("data", .object [("config",
      .object configTree)])])]])] :=
  createTree_oneField .blockData rfl rfl rfl
    (populateTo_slice rfl rfl rfl rfl rfl createTree_envelope)

/-- The JSON of the block. -/
def blockTree : Fields :=
  [("data", .object [("data", .array [.object [("payload", .object [("data",
    .object [("config", .object configTree)])])]])])]

theorem createTree_block : createTree blockProto 6 ⟨.block, none⟩ blockMessage =
    .ok blockTree :=
  createTree_oneField .block rfl rfl rfl
    (populateTo_message rfl rfl rfl rfl createTree_blockData)

/-! ## Everything in the block is kept -/

theorem inField_oneField_iff (type : BlockType) {value : FieldValue String}
    (h : type.isAround = true) {name : String} {place : Place} {inner : Kind BlockType Unit}
    {nMsg : Message String} :
    InField blockProto ⟨type, none⟩ (oneField type.fieldName value) name place inner nMsg ↔
      name = type.fieldName ∧
        innerKind blockProto ⟨type, none⟩ (oneField type.fieldName value) type.protoField place =
          .ok inner ∧ ∃ e, (place, e) ∈ value.elements ∧ e.Holds blockProto inner nMsg := by
  rw [InField, protoFields_blockProto h]
  simp only [List.mem_singleton, exists_eq_left, name_protoField]
  constructor
  · rintro ⟨rfl, hinner, e, he, hmsg⟩
    rw [oneField, Function.update_self] at he
    exact ⟨rfl, hinner, e, he, hmsg⟩
  · rintro ⟨rfl, hinner, e, he, hmsg⟩
    refine ⟨rfl, hinner, e, ?_, hmsg⟩
    rwa [oneField, Function.update_self]

theorem unmarshalJSON_config (s : String) (msg : Message String) :
    blockProto.unmarshalJSON .config (Value.object [("sequence", .string s)]).text msg =
      .ok (Function.update msg "sequence" (.plain s)) := by
  have hread : Hfrd.Go.unmarshal (Value.object [("sequence", .string s)]).text =
      some (.object [("sequence", .string s)]) :=
    unmarshal_text (.single _ (.scalar _))
  simp only [blockProto, hread]

theorem kept_config : Kept blockProto ⟨.config, none⟩ configMessage := by
  -- `policy` is the one field that is handled, and it is not set
  have hpolicy : ∀ field ∈ protoFields blockProto ⟨.config, none⟩,
      field = BlockType.config.protoField := by
    intro field hfield
    rwa [protoFields_config, List.mem_singleton] at hfield
  refine ⟨fun _ _ field hfield hset => ?_, fun hjson htree field hfield _ => ?_,
    fun hjson htree rest hrest => ?_, fun field hfield es hes => ?_,
    fun field hfield place inner nMsg b _ he _ => ?_⟩
  · rw [hpolicy field hfield] at hset
    cases hset
  · rw [hpolicy field hfield, tree_of_marshalJSON .config hjson htree]
    exact ⟨rfl, fun v hv => (Option.some.inj hv).symm⟩
  -- `sequence` is left for jsonpb
  · have hplain : plainFields blockProto ⟨.config, none⟩
        (Value.decodedFields (messageJSON .config configMessage)) =
          [("sequence", .string "1")] := rfl
    rw [tree_of_marshalJSON .config hjson htree, hplain] at hrest
    cases hrest with
    | drop hnull => cases hnull
    | keep hv hnil =>
        cases hv
        cases hnil
        rw [unmarshalJSON_config]
        refine congrArg Except.ok (funext fun name => ?_)
        show Function.update (oneField "sequence" (.plain "0")) "sequence" (.plain "1") name = _
        rw [oneField, Function.update_idem]
        split
        · next hhandled =>
            have hname : "policy" = name := by
              simpa [isHandled, protoFields_config, BlockType.protoField] using hhandled
            rw [← hname]
            rfl
        · rfl
  · rw [hpolicy field hfield] at hes
    cases hes
  · rw [hpolicy field hfield] at he
    cases he

theorem allKept_config : AllKept blockProto ⟨.config, none⟩ configMessage := by
  refine .of_inside kept_config fun ⟨field, hfield, hname, _, e, he, _⟩ => ?_
  rw [protoFields_config, List.mem_singleton] at hfield
  rw [← hname, hfield] at he
  cases he

/-- A field with one message in it. -/
theorem allKept_message (type : BlockType) (h : type.isAround = true) {inner : Kind BlockType Unit}
    {nMsg : Message String}
    (hinner : ∀ msg, innerKind blockProto ⟨type, none⟩ msg type.protoField .field = .ok inner)
    (hkept : AllKept blockProto inner nMsg) :
    AllKept blockProto ⟨type, none⟩ (oneField type.fieldName (.single (.message nMsg))) := by
  refine .of_inside (kept_oneField type h rfl nofun fun _ he => ?_) fun hin => ?_
  · exact nomatch (Prod.mk.inj (List.mem_singleton.mp he)).2
  · obtain ⟨-, hinner', e, he, hmsg⟩ := (inField_oneField_iff type h).mp hin
    obtain ⟨rfl, rfl⟩ := Prod.mk.inj (List.mem_singleton.mp he)
    obtain rfl := Except.ok.inj ((hinner _).symm.trans hinner')
    obtain rfl := hmsg
    exact hkept

/-- A field with the bytes of one message in it. -/
theorem allKept_bytes (type : BlockType) (h : type.isAround = true) {value : FieldValue String}
    {at' : Place} {inner : Kind BlockType Unit} {nMsg : Message String} {b : List UInt8}
    (hset : value.isNil = false) (hmap : ∀ es, value ≠ .map es)
    (hvalue : value.elements = [(at', .bytes b)])
    (hinner : ∀ msg, innerKind blockProto ⟨type, none⟩ msg type.protoField at' = .ok inner)
    (hunmarshal : blockProto.unmarshal inner.type b = .ok nMsg)
    (hmarshal : blockProto.marshal inner.type nMsg = .ok b)
    (hkept : AllKept blockProto inner nMsg) :
    AllKept blockProto ⟨type, none⟩ (oneField type.fieldName value) := by
  refine .of_inside (kept_oneField type h hset hmap fun hinner' he hunmarshal' => ?_)
    fun hin => ?_
  · rw [hvalue] at he
    obtain ⟨rfl, hb⟩ := Prod.mk.inj (List.mem_singleton.mp he)
    obtain rfl := Element.bytes.inj hb
    obtain rfl := Except.ok.inj ((hinner _).symm.trans hinner')
    obtain rfl := Except.ok.inj (hunmarshal.symm.trans hunmarshal')
    exact hmarshal
  · obtain ⟨-, hinner', e, he, hmsg⟩ := (inField_oneField_iff type h).mp hin
    rw [hvalue] at he
    obtain ⟨rfl, rfl⟩ := Prod.mk.inj (List.mem_singleton.mp he)
    obtain rfl := Except.ok.inj ((hinner _).symm.trans hinner')
    obtain rfl := Except.ok.inj (hunmarshal.symm.trans hmsg)
    exact hkept

theorem allKept_configEnvelope :
    AllKept blockProto ⟨.configEnvelope, none⟩ configEnvelopeMessage :=
  allKept_message .configEnvelope rfl (fun _ => rfl) allKept_config

theorem allKept_payload : AllKept blockProto ⟨.payload, none⟩ payloadMessage :=
  allKept_bytes .payload rfl rfl nofun rfl (fun _ => rfl) rfl rfl allKept_configEnvelope

theorem allKept_envelope : AllKept blockProto ⟨.envelope, none⟩ envelopeMessage :=
  allKept_bytes .envelope rfl rfl nofun rfl (fun _ => rfl) rfl rfl allKept_payload

theorem allKept_blockData : AllKept blockProto ⟨.blockData, none⟩ blockDataMessage :=
  allKept_bytes .blockData rfl rfl nofun rfl (fun _ => rfl) rfl rfl allKept_envelope

theorem allKept_block : AllKept blockProto ⟨.block, none⟩ blockMessage :=
  allKept_message .block rfl (fun _ => rfl) allKept_blockData

/-! ## Messages as texts -/

variable {w} {kind : Kind κ δ} {msg : Message π}

/-- **`DeepUnmarshalJSON` gives back what `DeepMarshalJSON` was given.** -/
theorem deepUnmarshalJSON_of_deepMarshalJSON (hordered : Ordered w) {depth depth' : Nat}
    (hdepth : depth ≤ depth') (hkept : AllKept w kind msg) {text : List Char}
    (h : deepMarshalJSON w depth kind msg = .ok text) :
    deepUnmarshalJSON w depth' kind text (w.new kind.type) = .ok msg := by
  simp only [deepMarshalJSON, Go.bind_eq_ok] at h
  obtain ⟨root, hroot, h⟩ := h
  obtain rfl := Except.ok.inj h
  obtain ⟨hwell, hpopulate⟩ := populateTree_of_createTree hordered hdepth hkept hroot
  simp only [deepUnmarshalJSON, Go.bind_eq_ok, jsonToMap, unmarshal_indented hwell]
  refine ⟨_, rfl, hpopulate _ ?_⟩
  have hless := (Value.object root).lessNulls_decoded
  cases hless with
  | object h => exact h

theorem deepUnmarshalJSON_block :
    deepUnmarshalJSON blockProto 6 ⟨.block, none⟩ (Value.object blockTree).indented
      (blockProto.new .block) = .ok blockMessage :=
  deepUnmarshalJSON_of_deepMarshalJSON ordered_blockProto le_rfl allKept_block
    (by rw [deepMarshalJSON, createTree_block]; rfl)

/-! ## The original config -/

/-- From a block to the config in its first envelope. -/
def configPath : Path :=
  [("data", .field), ("data", .index 0), ("payload", .field), ("data", .field),
    ("config", .field)]

theorem assertMap_of_object {v : Value} {fields : Fields} (h : v.object? = some fields) :
    assertMap (some v) = .ok fields := by
  unfold Value.object? at h
  split at h
  · rw [← Option.some.inj h]
    rfl
  · cases h

theorem assertMap_of_treeAt {name : String} {path : Path} {tree sub : Fields}
    (h : treeAt ((name, .field) :: path) tree = some sub) :
    ∃ fields, assertMap (tree.lookup name) = .ok fields ∧ treeAt path fields = some sub := by
  simp only [treeAt, atPlace, Option.bind_eq_some_iff, Option.some.injEq] at h
  obtain ⟨_, ⟨v, hlookup, rfl⟩, fields, hobject, hrest⟩ := h
  exact ⟨fields, by rw [hlookup, assertMap_of_object hobject], hrest⟩

theorem assertFirst_of_treeAt {name : String} {path : Path} {tree sub : Fields}
    (h : treeAt ((name, .index 0) :: path) tree = some sub) :
    ∃ v fields, assertFirst (tree.lookup name) = .ok v ∧ assertMap (some v) = .ok fields ∧
      treeAt path fields = some sub := by
  simp only [treeAt, Option.bind_eq_some_iff] at h
  obtain ⟨v, ⟨values, hlookup, hplace⟩, fields, hobject, hrest⟩ := h
  refine ⟨v, fields, ?_, assertMap_of_object hobject, hrest⟩
  rw [hlookup]
  unfold atPlace at hplace
  split at hplace
  · next heq => cases heq
  · next i values heq =>
      cases heq
      cases values with
      | nil => cases hplace
      | cons v' values =>
          obtain rfl := Option.some.inj hplace
          rfl
  · next heq => cases heq
  · cases hplace

theorem channelGroup_of_treeAt {configJson group : Fields}
    (h : treeAt configPath configJson = some group) : channelGroup configJson = .ok group := by
  obtain ⟨data, hdata, h⟩ := assertMap_of_treeAt h
  obtain ⟨first, envelope, hfirst, henvelope, h⟩ := assertFirst_of_treeAt h
  obtain ⟨payload, hpayload, h⟩ := assertMap_of_treeAt h
  obtain ⟨configEnvelope, hconfigEnvelope, h⟩ := assertMap_of_treeAt h
  obtain ⟨config, hconfig, h⟩ := assertMap_of_treeAt h
  obtain rfl := Option.some.inj h
  simp only [channelGroup, Go.bind_eq_ok]
  exact ⟨_, hdata, _, hfirst, _, henvelope, _, hpayload, _, hconfigEnvelope, hconfig⟩

/-- The text of a map without some of its null members is read as that. -/
theorem jsonToMap_encodeAndReplaceNull (mapJson : ObjectValue)
    (hkeys : ∀ key ∈ allKeys (.object mapJson.fields), '"' ∉ key.toList) :
    jsonToMap w (encodeAndReplaceNull mapJson) =
      .ok (Value.withoutNullsFields replacedNulls mapJson.fields) := by
  rw [jsonToMap, unmarshal_withoutNulls mapJson hkeys]
  rfl

theorem decodeProto_block {types : String → Option κ} {block : κ} {depth : Nat} {root : Fields}
    (hblock : types "common.Block" = some block) {configBytes : List UInt8}
    (hunmarshal : w.unmarshal block configBytes = .ok msg)
    (hroot : createTree w depth ⟨block, none⟩ msg = .ok root)
    (hwell : (Value.object root).WellFormed) :
    decodeProto w types depth "common.Block" configBytes =
      channelGroup (Value.decodedFields root) := by
  simp [decodeProto, messageType, hblock, hunmarshal, deepMarshalJSON, hroot,
    unmarshal_indented hwell, Value.decoded, wrapf, orError, Except.mapError, bind, Except.bind,
    pure, Except.pure]

/-- **The update starts from the config of the block.**  The config that is
    decoded from a block, written without null members, is encoded as the config
    message in the first envelope of the block. -/
theorem encodeProto_decodeProto (hordered : Ordered w) {types : String → Option κ}
    {block config : κ} (hblock : types "common.Block" = some block)
    (hconfig : types "common.Config" = some config)
    {configBytes : List UInt8} {blockMsg configMsg : Message π}
    (hunmarshal : w.unmarshal block configBytes = .ok blockMsg)
    (hkept : AllKept w ⟨block, none⟩ blockMsg)
    (hat : At w configPath (⟨block, none⟩, blockMsg) (⟨config, none⟩, configMsg))
    {depth depth' : Nat} (hdepth : depth ≤ depth') {group : ObjectValue}
    (hdecode : decodeProto w types depth "common.Block" configBytes = .ok group.fields)
    (hkeys : ∀ key ∈ allKeys (.object group.fields), '"' ∉ key.toList) :
    encodeProto w types depth' "common.Config" (encodeAndReplaceNull group) =
      wrapf "error marshaling" (orError (w.marshal config configMsg)) := by
  have h := hdecode
  simp only [decodeProto, messageType, hblock, Go.bind_eq_ok, wrapf, mapError_eq_ok, orError,
    deepMarshalJSON] at h
  obtain ⟨type, htype, msg, hmsg, buffer, ⟨root, hroot, -⟩, -⟩ := h
  obtain rfl := Except.ok.inj htype
  obtain rfl := Except.ok.inj (hunmarshal.symm.trans hmsg)
  -- the group is the tree of the config message, read back
  obtain ⟨sub, hsub, hkept', depth'', hdepth', hcreate⟩ :=
    treeAt_of_createTree hordered hkept hroot hat
  obtain ⟨hwell, -⟩ := populateTree_of_createTree hordered le_rfl hkept hroot
  rw [decodeProto_block hblock hunmarshal hroot hwell,
    channelGroup_of_treeAt (treeAt_decodedFields hsub)] at hdecode
  have hgroup := Except.ok.inj hdecode
  obtain ⟨-, hpopulate⟩ :=
    populateTree_of_createTree hordered (hdepth'.trans hdepth) hkept' hcreate
  have hless : LessMembers LessNulls sub
      (Value.withoutNullsFields replacedNulls group.fields) := by
    have hnulls := (Value.object sub).lessNulls_decoded.trans
      ((Value.object sub).decoded.lessNulls_withoutNulls replacedNulls)
    rw [Value.decoded, hgroup, Value.withoutNulls] at hnulls
    cases hnulls with
    | object hless => exact hless
  simp [encodeProto, messageType, hconfig, deepUnmarshalJSON,
    jsonToMap_encodeAndReplaceNull group hkeys, hpopulate _ hless, wrapf, Except.mapError, bind,
    Except.bind]

/-- The types that are looked up by a name. -/
def blockTypes (msgName : String) : Option BlockType :=
  if msgName = "common.Block" then some .block
  else if msgName = "common.Config" then some .config
  else none

/-- The bytes of the block. -/
def blockBytes : List UInt8 := [18, 10, 10, 8, 10, 6, 18, 4, 10, 2, 8, 1]

/-- The JSON of the config, as a value of the program. -/
def configGroup : ObjectValue where
  fields := configTree
  wellFormed := .pair "policy" "sequence" (by decide) (.scalar _) (.scalar _)

theorem at_configPath : At blockProto configPath (⟨.block, none⟩, blockMessage)
    (⟨.config, none⟩, configMessage) :=
  ⟨(⟨.blockData, none⟩, blockDataMessage), (inField_oneField_iff .block rfl).mpr
      ⟨rfl, rfl, _, List.mem_singleton_self _, rfl⟩,
    (⟨.envelope, none⟩, envelopeMessage), (inField_oneField_iff .blockData rfl).mpr
      ⟨rfl, rfl, _, List.mem_singleton_self _, rfl⟩,
    (⟨.payload, none⟩, payloadMessage), (inField_oneField_iff .envelope rfl).mpr
      ⟨rfl, rfl, _, List.mem_singleton_self _, rfl⟩,
    (⟨.configEnvelope, none⟩, configEnvelopeMessage), (inField_oneField_iff .payload rfl).mpr
      ⟨rfl, rfl, _, List.mem_singleton_self _, rfl⟩,
    (⟨.config, none⟩, configMessage), (inField_oneField_iff .configEnvelope rfl).mpr
      ⟨rfl, rfl, _, List.mem_singleton_self _, rfl⟩, rfl⟩

theorem decodeProto_blockBytes :
    decodeProto blockProto blockTypes 6 "common.Block" blockBytes = .ok configGroup.fields := by
  obtain ⟨hwell, -⟩ := populateTree_of_createTree ordered_blockProto le_rfl allKept_block
    createTree_block
  have hblock : blockTypes "common.Block" = some .block := rfl
  have hunmarshal : blockProto.unmarshal .block blockBytes = .ok blockMessage := rfl
  rw [decodeProto_block hblock hunmarshal createTree_block hwell]
  rfl

/-- The config of the block is the original config, though its policy is cut out
    of the text. -/
theorem encodeProto_configGroup :
    Value.withoutNullsFields replacedNulls configGroup.fields = [("sequence", .string "1")] ∧
      encodeProto blockProto blockTypes 6 "common.Config" (encodeAndReplaceNull configGroup) =
        .ok [8, 1] := by
  have hblock : blockTypes "common.Block" = some .block := rfl
  have hconfig : blockTypes "common.Config" = some .config := rfl
  have hunmarshal : blockProto.unmarshal .block blockBytes = .ok blockMessage := rfl
  have hkeys : ∀ key ∈ allKeys (.object configGroup.fields), '"' ∉ key.toList := by
    intro key hkey
    have hmem : key ∈ ["policy", "sequence"] := hkey
    simp only [List.mem_cons, List.not_mem_nil, or_false] at hmem
    rcases hmem with rfl | rfl <;> decide
  exact ⟨rfl, encodeProto_decodeProto ordered_blockProto hblock hconfig hunmarshal allKept_block
    at_configPath le_rfl decodeProto_blockBytes hkeys⟩

end Hfrd.Channel.Protolator
