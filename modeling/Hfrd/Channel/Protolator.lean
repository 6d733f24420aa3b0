/-
  Hfrd.Channel.Protolator

  Messages as trees of JSON with the messages inside them opened
  (modules/gosdk/channel/utilities/protolator: json.go, nested.go, dynamic.go,
  statically_opaque.go and variably_opaque.go).

  A field that holds a message, or the bytes of one, belongs to the first of
  twelve factories that handles it.  `createTree` lets jsonpb write the message
  and puts the tree of what is inside in the place of each such field;
  `populateTree` lets jsonpb read the other fields, and then fills these one by
  one.  What a message says of the types inside it may depend on fields that
  were filled before.

  jsonpb, the codec of the messages and the methods of the message types are
  parameters (`Proto`).
-/

import Hfrd.Go.JsonIndent
import Hfrd.Go.Strconv
import Mathlib.Logic.Function.Basic

namespace Hfrd.Channel.Protolator

open Hfrd.Go

/-- How a conversion ends that gives nothing. -/
inductive Failure where
  | panic
  | error (text : String)
  /-- There are messages deeper than the fuel reaches. -/
  | tooDeep
  deriving DecidableEq

/-- Words around an error. -/
def Failure.within (text : String → String) : Failure → Failure
  | .error err => .error (text err)
  | failure => failure

/-- The error of a marshaller, returned. -/
def orError {α : Type} (x : Except String α) : Except Failure α := x.mapError .error

/-! ## Messages -/

mutual

/-- A message in another one, as such or as its bytes. -/
inductive Element (π : Type) where
  | bytes (b : List UInt8)
  | message (fields : String → FieldValue π)

/-- The value of a field.  A slice or a map that is nil is an empty one; the
    entries of a map are in the order of their keys. -/
inductive FieldValue (π : Type) where
  | plain (value : π)
  | nil
  | single (e : Element π)
  | slice (es : List (Element π))
  | map (es : List (String × Element π))

end

/-- The fields of a message, by their names in the proto. -/
abbrev Message (π : Type) := String → FieldValue π

/-- The property is not set. -/
def FieldValue.isNil {π : Type} : FieldValue π → Bool
  | .nil => true
  | _ => false

/-- Assignable to `[]byte`. -/
def FieldValue.isBytes {π : Type} : FieldValue π → Bool
  | .single (.bytes _) => true
  | _ => false

/-- The property holds a plain value. -/
def FieldValue.isPlain {π : Type} : FieldValue π → Bool
  | .plain _ => true
  | _ => false

/-- The Go type of a field, as far as the factories look at it. -/
inductive FieldType (κ : Type) where
  | pointer (elem : κ)
  | slice (elem : κ)
  | map (stringKeys : Bool) (elem : κ)
  | other

/-- `destType.Elem()` -/
def FieldType.elem? {κ : Type} : FieldType κ → Option κ
  | .pointer elem => some elem
  | .slice elem => some elem
  | .map _ elem => some elem
  | .other => none

/-- A field that `proto.GetProperties` lists. -/
structure Property (κ : Type) where
  name : String
  type : FieldType κ

/-- What a `proto.Message` is: its type, or a `DecoratedProto` around it. -/
structure Kind (κ δ : Type) where
  type : κ
  decoration : Option δ := none

/-! ## Factories -/

/-- What a factory makes of the messages in a property. -/
inductive Content where
  | dynamic
  | variablyOpaque
  | staticallyOpaque
  | nested
  deriving DecidableEq

/-- Whether a property holds one message, a list or a map of them. -/
inductive Shape where
  | slice
  | map
  | plain
  deriving DecidableEq

/-- A factory of `protolator`. -/
structure Factory where
  content : Content
  shape : Shape
  deriving DecidableEq

/-- "Listed in order of most greedy to least." -/
def fieldFactories : List Factory := [
  ⟨.dynamic, .slice⟩, ⟨.dynamic, .map⟩, ⟨.dynamic, .plain⟩,
  ⟨.variablyOpaque, .slice⟩, ⟨.variablyOpaque, .map⟩, ⟨.variablyOpaque, .plain⟩,
  ⟨.staticallyOpaque, .slice⟩, ⟨.staticallyOpaque, .map⟩, ⟨.staticallyOpaque, .plain⟩,
  ⟨.nested, .slice⟩, ⟨.nested, .map⟩, ⟨.nested, .plain⟩]

/-- Where in a field a message is. -/
inductive Place where
  | field
  | index (i : Nat)
  | key (k : String)

/-- The packages around: `κ` are the message types, `δ` the decorations, and `π`
    the values that no factory looks into. -/
structure Proto (κ δ π : Type) where
  /-- `%T` -/
  typeName : Kind κ δ → String
  properties : κ → List (Property κ)
  nodup_properties : ∀ type, ((properties type).map Property.name).Nodup
  isTimestamp : κ → Bool
  /-- The fields that the method of the message names for a factory, if it has
      the method. -/
  declared : Kind κ δ → Factory → Option (List String)
  /-- A new message for a field with opaque bytes. -/
  opaqueProto : Kind κ δ → Message π → Factory → String → Place →
    Except String (Kind κ δ)
  /-- How a message of a type is decorated. -/
  dynamicProto : Kind κ δ → Message π → Factory → String → Place → κ → Except String δ
  /-- `reflect.New` -/
  new : κ → Message π
  /-- `proto.Marshal` and `proto.Unmarshal`.  The entries of a map may be written
      in any order: the function stands for one choice of the orders. -/
  marshal : κ → Message π → Except String (List UInt8)
  unmarshal : κ → List UInt8 → Except String (Message π)
  /-- `jsonpb`: the text of a message, and reading a text into a message. -/
  marshalJSON : κ → Message π → Except String (List Char)
  unmarshalJSON : κ → List Char → Message π → Except String (Message π)
  /-- The error of `encoding/json` for a text that is no object. -/
  jsonError : List Char → String

variable {κ δ π : Type} (w : Proto κ δ π)

/-- `Handles` of the factory. -/
def Factory.handles (factory : Factory) (kind : Kind κ δ) (p : Property κ) : Bool :=
  match factory.content, factory.shape, p.type with
  | .nested, .plain, .pointer elem => !w.isTimestamp elem
  | .nested, .slice, .slice elem => !w.isTimestamp elem
  | .nested, .map, .map stringKeys elem => !w.isTimestamp elem && stringKeys
  | .nested, _, _ => false
  | _, _, _ => (w.declared kind factory).any (·.contains p.name)

/-- A field of a message with the factory that handles it. -/
structure ProtoField (κ : Type) where
  factory : Factory
  name : String
  elem : Option κ

/-- The fields that are handled, those of the least greedy factory first: "in
    correct dependency order". -/
def protoFields (kind : Kind κ δ) : List (ProtoField κ) :=
  fieldFactories.reverse.flatMap fun factory =>
    ((w.properties kind.type).filter fun p =>
      fieldFactories.find? (·.handles w kind p) == some factory).map fun p =>
        ⟨factory, p.name, p.type.elem?⟩

/-- `IsNil` is not for every value. -/
def protoFieldsForDecode (kind : Kind κ δ) (msg : Message π) :
    Except Failure (List (ProtoField κ)) :=
  if (protoFields w kind).any fun field => (msg field.name).isPlain then .error .panic
  else .ok ((protoFields w kind).filter fun field => !(msg field.name).isNil)

/-! ## Between messages and JSON -/

/-- A `null` leaves a map with no entries. -/
def jsonToMap (marshaled : List Char) : Except Failure Fields :=
  match Hfrd.Go.unmarshal marshaled with
  | some (.object tree) => .ok tree
  | some (.scalar .null) => .ok []
  | _ => .error (.error ("error unmarshaling intermediate JSON: " ++ w.jsonError marshaled))

/-- `mapToProto` -/
def mapToProto (kind : Kind κ δ) (tree : Fields) (msg : Message π) :
    Except Failure (Message π) :=
  orError (w.unmarshalJSON kind.type (Value.object tree).text msg)

/-- What is inside a field: the message that a method of `msg` makes for it, or
    the type of the field. -/
def innerKind (kind : Kind κ δ) (msg : Message π) (field : ProtoField κ) (place : Place) :
    Except Failure (Kind κ δ) :=
  match field.factory.content, field.elem with
  | .dynamic, some elem => do
      let decoration ← orError (w.dynamicProto kind msg field.factory field.name place elem)
      return ⟨elem, some decoration⟩
  | .nested, some elem => .ok ⟨elem, none⟩
  | .dynamic, none => .error .panic
  | .nested, none => .error .panic
  | _, _ => orError (w.opaqueProto kind msg field.factory field.name place)

/-- The messages stand in the property as bytes. -/
def Content.isOpaque : Content → Bool
  | .variablyOpaque => true
  | .staticallyOpaque => true
  | _ => false

/-- The type of a JSON value, `%T`. -/
def goType : Value → String
  | .scalar .null => "<nil>"
  | .scalar (.bool _) => "bool"
  | .scalar (.number _) => "json.Number"
  | .scalar (.string _) => "string"
  | .array _ => "[]interface \x7b\x7d"
  | .object _ => "map[string]interface \x7b\x7d"
  | .other json => goType json

/-- The type of the JSON of an object. -/
def mapType : String := "map[string]interface \x7b\x7d"

/-! ## `recursivelyCreateTreeFromMessage` -/

section Create

variable (createTree : Kind κ δ → Message π → Except Failure Fields) (kind : Kind κ δ)
  (msg : Message π) (field : ProtoField κ)

/-- `nestedTo`, `dynamicTo` and `opaqueTo` -/
def elementTo (place : Place) (e : Element π) : Except Failure Value :=
  match field.factory.content.isOpaque, e with
  | true, .bytes mMsg => do
      let inner ← innerKind w kind msg field place
      let nMsg ← orError (w.unmarshal inner.type mMsg)
      let tree ← createTree inner nMsg
      return .object tree
  | false, .message nMsg => do
      let inner ← innerKind w kind msg field place
      let tree ← createTree inner nMsg
      return .object tree
  | _, _ => .error .panic

/-- The words of an error in a field. -/
def inField (what : String) (err : String) : String :=
  "error in " ++ what ++ " for message " ++ w.typeName kind ++ ": " ++ err

/-- `PopulateTo` of the field. -/
def populateTo : Except Failure Value :=
  match field.factory.shape, msg field.name with
  | .plain, value =>
      if field.factory.content.isOpaque && !value.isBytes then
        .error (.error ("expected field " ++ field.name ++ " for message " ++ w.typeName kind ++
          " to be assignable to " ++ mapType ++ " but was not. Got reflect.Value."))
      else match value with
        | .single e =>
            (elementTo w createTree kind msg field .field e).mapError
              (.within (inField w kind ("PopulateTo for field " ++ field.name)))
        | _ => .error .panic
  | .map, .map es => do
      let result ← es.mapM fun entry => do
        let value ← (elementTo w createTree kind msg field (.key entry.1) entry.2).mapError
          (.within (inField w kind
            ("PopulateTo for map field " ++ field.name ++ " and key " ++ entry.1)))
        return (entry.1, value)
      return .object result
  | .slice, .slice es => do
      let result ← es.zipIdx.mapM fun entry =>
        (elementTo w createTree kind msg field (.index entry.2) entry.1).mapError
          (.within (inField w kind
            ("PopulateTo for slice field " ++ field.name ++ " at index " ++ toString entry.2)))
      return .array result
  | _, _ => .error .panic

/-- One round of the loop: a field that jsonpb has not written is left out. -/
def replaceField (tree : Fields) : Except Failure Fields :=
  match tree.lookup field.name with
  | none => .ok tree
  | some _ => do
      let value ← populateTo w createTree kind msg field
      return setField tree field.name value

/-- `recursivelyCreateTreeFromMessage`, with the recursion as a parameter. -/
def createTreeStep : Except Failure Fields :=
  Except.mapError (.within fun err => w.typeName kind ++ ": " ++ err) do
    let fields ← protoFieldsForDecode w kind msg
    let jsonBytes ← orError (w.marshalJSON kind.type msg)
    let tree ← jsonToMap w jsonBytes
    fields.foldlM (fun tree field => replaceField w createTree kind msg field tree) tree

end Create

/-- `recursivelyCreateTreeFromMessage` -/
def createTree : Nat → Kind κ δ → Message π → Except Failure Fields
  | 0, _, _ => .error .tooDeep
  | depth + 1, kind, msg => createTreeStep w (createTree depth) kind msg

/-! ## `recursivelyPopulateMessageFromTree` -/

section Populate

variable (populateTree : Kind κ δ → Fields → Message π → Except Failure (Message π))
  (kind : Kind κ δ) (msg : Message π) (field : ProtoField κ)

/-- `nestedFrom`, `dynamicFrom` and `opaqueFrom` -/
def elementFrom (place : Place) (tree : Fields) : Except Failure (Element π) := do
  let inner ← innerKind w kind msg field place
  let nMsg ← populateTree inner tree (w.new inner.type)
  if field.factory.content.isOpaque then do
    let mMsg ← orError (w.marshal inner.type nMsg)
    return .bytes mMsg
  else return .message nMsg

/-- A value that is to be an object; `reflect.TypeOf(nil)` has no methods. -/
def elementFromValue (expected at' : String) (place : Place) :
    Value → Except Failure (Element π)
  | .object tree =>
      (elementFrom w populateTree kind msg field place tree).mapError
        (.within (inField w kind ("PopulateFrom for " ++ at')))
  | .scalar .null => .error .panic
  | source =>
      .error (.error ("expected " ++ expected ++ " for message " ++ w.typeName kind ++
        " to be assignable from " ++ mapType ++ " but was not.  Is " ++ goType source))

/-- `PopulateFrom` of the field. -/
def populateFrom (source : Value) : Except Failure (FieldValue π) :=
  match field.factory.shape, source with
  | .plain, source => do
      let value ← elementFromValue w populateTree kind msg field ("field " ++ field.name)
        ("field " ++ field.name) .field source
      return .single value
  | .map, .object tree => do
      let result ← tree.mapM fun entry => do
        let newValue ← elementFromValue w populateTree kind msg field
          ("map field " ++ field.name ++ " value for " ++ entry.1)
          ("map field " ++ field.name ++ " with key " ++ entry.1) (.key entry.1) entry.2
        return (entry.1, newValue)
      return .map result
  | .map, source =>
      .error (.error ("expected map field " ++ field.name ++ " for message " ++
        w.typeName kind ++ " to be assignable from map[string]interface\x7b\x7d but was not. " ++
        "Got " ++ goType source))
  | .slice, .array slice => do
      let result ← slice.zipIdx.mapM fun entry =>
        elementFromValue w populateTree kind msg field
          ("slice field " ++ field.name ++ " value at index " ++ toString entry.2)
          ("slice field " ++ field.name ++ " at index " ++ toString entry.2) (.index entry.2)
          entry.1
      return .slice result
  | .slice, source =>
      .error (.error ("expected slice field " ++ field.name ++ " for message " ++
        w.typeName kind ++ " to be assignable from []interface\x7b\x7d but was not. Got " ++
        goType source))

/-- One round of the second loop. -/
def populateField (tree : Fields) : Except Failure (Message π) :=
  match tree.lookup field.name with
  | none => .ok msg
  | some (.scalar .null) => .ok msg
  | some specialField => do
      let value ← populateFrom w populateTree kind msg field specialField
      return Function.update msg field.name value

/-- The members that are left to jsonpb. -/
def plainFields (tree : Fields) : Fields :=
  tree.filter fun entry => !(protoFields w kind).any (·.name == entry.1)

/-- `recursivelyPopulateMessageFromTree`, with the recursion as a parameter. -/
def populateTreeStep (tree : Fields) : Except Failure (Message π) :=
  Except.mapError (.within fun err => w.typeName kind ++ ": " ++ err) do
    let msg ← mapToProto w kind (plainFields w kind tree) msg
    (protoFields w kind).foldlM
      (fun msg field => populateField w populateTree kind msg field tree) msg

end Populate

/-- `recursivelyPopulateMessageFromTree` -/
def populateTree : Nat → Kind κ δ → Fields → Message π → Except Failure (Message π)
  | 0, _, _, _ => .error .tooDeep
  | depth + 1, kind, tree, msg => populateTreeStep w (populateTree depth) kind msg tree

/-! ## Texts -/

/-- `DeepMarshalJSON` -/
def deepMarshalJSON (depth : Nat) (kind : Kind κ δ) (msg : Message π) :
    Except Failure (List Char) := do
  let root ← createTree w depth kind msg
  return (Value.object root).indented

/-- Only the first value of the text counts; it is all of it here. -/
def deepUnmarshalJSON (depth : Nat) (kind : Kind κ δ) (b : List Char) (msg : Message π) :
    Except Failure (Message π) := do
  let root ← jsonToMap w b
  populateTree w depth kind root msg

end Hfrd.Channel.Protolator
