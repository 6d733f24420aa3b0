/-
  Hfrd.GoSdk.TransientMap

  The transient maps of a chaincode invocation: `GetTransientMap` and
  `GenerateChaincodeParams` (modules/gosdk/utilities/paramGenerator.go).

  The static map is one JSON object whose values are bytes in base64.  The
  dynamic one pairs the list of keys with the list of values by position; a
  value is a list of items, each with a key of its own, and is generated into a
  JSON object.
-/

import Hfrd.Go.Base64
import Hfrd.Go.JsonParse
import Hfrd.GoSdk.Invoke
import Hfrd.GoSdk.ParamGenerator

namespace Hfrd.GoSdk

open Hfrd.Go Hfrd.Lib

variable {ρ : Type} {maxAlloc : Int64}

/-! ## Bytes and numbers -/

/-- `[]byte` of a text. -/
def utf8 (text : List Char) : List UInt8 := bytes (String.ofList text)

theorem utf8_injective {text text' : List Char} (h : utf8 text = utf8 text') : text = text' :=
  String.ofList_injective (bytes_injective h)

theorem isDigit_of_digit? {c : Char} (h : (digit? c).isSome = true) : c.isDigit = true := by
  unfold digit? at h
  split at h
  · next hc =>
      simp only [Char.isDigit, Bool.and_eq_true, decide_eq_true_eq]
      exact hc
  · cases h

/-- The text of an `int64` is that of a number. -/
theorem numeral_itoa (i : Int64) :
    (itoa i).toList ≠ [] ∧ (itoa i).toList.all isNumeralChar = true := by
  have hatoi := atoi_itoa i
  refine ⟨fun hnil => ?_, List.all_eq_true.mpr fun c hc => ?_⟩
  · rw [atoi, hnil] at hatoi
    cases hatoi
  · rcases char_of_atoi hatoi c hc with rfl | rfl | hdigit
    · rfl
    · rfl
    · simp [isNumeralChar, isDigit_of_digit? hdigit]

/-- An `int64` in an `interface{}`. -/
def intNumber (i : Int64) : Number := ⟨(itoa i).toList, numeral_itoa i⟩

/-! ## `GetTransientMap` -/

/-- How `GetTransientMap` fails. -/
inductive TransientFailure
  | param (failure : Failure)
  /-- "GetTransientMap error: invalid param type:" and the kind, which is part
      of the format. -/
  | invalidType (kind : String)
deriving DecidableEq

/-- The key of an item and the `switch` on its kind. -/
def parseTransientParam (param : String) : Except TransientFailure (String × Param) :=
  match split param "~~~" with
  | kind :: mapKey :: fields =>
      if kind = LITERAL_PARAM then
        match fields with
        | [value] => .ok (mapKey, .literal value)
        | _ => .error (.param (.error "Literal type should contains 2 params"))
      else if kind = UUID_PARAM then
        -- one part is asked for, and there are two at least
        .error (.param (.error "uuid type should contains 1 param"))
      else if kind = STRING_PATTERN then
        match fields with
        | [regex] => .ok (mapKey, .stringPattern regex)
        | _ => .error (.param (.error "stringPattern type should contains 2 params"))
      else if kind = SEQUENTIAL_STRING then
        match fields with
        | [value] => .ok (mapKey, .sequentialString value)
        | _ => .error (.param (.error "sequentialString type should contains 2 params"))
      else if kind = INTEGER_RANGE then
        match fields with
        | [min, max] => .ok (mapKey, .intRange min max)
        | _ => .error (.param (.error "stringPattern type should contains 3 params"))
      else if kind = PAYLOAD_RANGE then
        match fields with
        | [min, max] => .ok (mapKey, .payloadRange min max)
        | _ => .error (.param (.error "stringPattern type should contains 3 params"))
      else .error (.invalidType kind)
  -- `paramKV[1]` of a single part
  | _ => .error (.param .panic)

/-- A decimal integer becomes a number. -/
def transientValue (arg : String) : Value :=
  match atoi arg with
  | some argInt => .number (intNumber argInt)
  | none => .string arg

/-- The loop of `GetTransientMap`. -/
def transientMapLoop (src : Source maxAlloc ρ) (loopIndex : Int64) :
    List String → Fields → ρ → Except TransientFailure (Fields × ρ)
  | [], transientMapV, r => .ok (transientMapV, r)
  | param :: params, transientMapV, r =>
      match parseTransientParam param with
      | .error failure => .error failure
      | .ok (mapKey, p) => match p.getValue src loopIndex r with
        | .error failure => .error (.param failure)
        | .ok (arg, r) =>
            transientMapLoop src loopIndex params
              (setField transientMapV mapKey (transientValue arg)) r

/-- The bytes of the JSON object of an entry; no items give no bytes. -/
def getTransientMap (src : Source maxAlloc ρ) (complexParams : List String) (loopIndex : Int64)
    (r : ρ) :
    Except TransientFailure (List UInt8 × ρ) :=
  if complexParams.length = 0 then .ok ([], r)
  else match transientMapLoop src loopIndex (dropTrailing complexParams) [] (src.seed r) with
    | .error failure => .error failure
    | .ok (transientMapV, r) => .ok (utf8 (Value.object transientMapV).text, r)

/-! ## The static map -/

/-- An element of a `[]byte` that is written as an array. -/
def byteValue : Value → Option UInt8
  | .scalar .null => some 0
  | .scalar (.number n) => (digits? 0 n.text).bind fun k =>
      if k < 256 then some (UInt8.ofNat k) else none
  | _ => none

/-- A `[]byte`. -/
def bytesValue : Value → Option (List UInt8)
  | .scalar .null => some []
  | .scalar (.string s) =>
      let decoded := StdEncoding.decodeString s
      if decoded.corrupt then none else some decoded.bytes
  | .array elements => elements.mapM byteValue
  | _ => none

/-- `json.Unmarshal` into a made `map[string][]byte`: `none` is an error, and
    `null` makes the map nil. -/
def unmarshalTransientMap (text : String) : Option (Option TransientMap) :=
  (parse text.toList).bind fun v => match v with
    | .scalar .null => some none
    | .object fields =>
        (fields.mapM fun field => (bytesValue field.2).map (field.1, ·)).map fun entries =>
          some entries.reverse
    | _ => none

/-- The static transient map of the flag `staticTransientMap`. -/
def staticMap (transientMap : String) : Option (Option TransientMap) :=
  if transientMap = "" then some (some []) else unmarshalTransientMap transientMap

/-! ## `GenerateChaincodeParams` -/

/-- How `GenerateChaincodeParams` fails. -/
inductive ParamsFailure
  | args (failure : Failure)
  | error (text : String)
  /-- The text, and the error of `json.Unmarshal`. -/
  | staticMap (text : String)
  /-- The text, and the error of `GetTransientMap`; a panic stays one. -/
  | dynamicMap (text : String) (cause : TransientFailure)
deriving DecidableEq

/-- The items of a value. -/
def paramArray (dynamicTransientMapV : String) : List String :=
  if dynamicTransientMapV ≠ "" then split dynamicTransientMapV "#" else []

/-- The loop over the keys, with the value at the index of each. -/
def dynamicMapLoop (src : Source maxAlloc ρ) (iterationIndex : Int64) :
    List String → List String → TransientMap → ρ → Except TransientFailure (TransientMap × ρ)
  | [], _, dynamicTransientMap, r => .ok (dynamicTransientMap, r)
  | _ :: _, [], _, _ => .error (.param .panic)
  | k :: ks, v :: vs, dynamicTransientMap, r =>
      match getTransientMap src (paramArray v) iterationIndex r with
      | .error failure => .error failure
      | .ok (transientMapValueJson, r) =>
          dynamicMapLoop src iterationIndex ks vs
            ((k, transientMapValueJson) :: dynamicTransientMap) r

/-- The keys that the loop runs over: none unless the lists are of one length. -/
def dynamicKeys (dynamicTransientMapKs dynamicTransientMapVs : List String) : List String :=
  if dynamicTransientMapKs.length ≠ 0
      ∧ dynamicTransientMapKs.length = dynamicTransientMapVs.length then
    dropTrailing dynamicTransientMapKs
  else []

/-- `GenerateChaincodeParams` -/
def generateChaincodeParams (src : Source maxAlloc ρ) (chaincodeParamArray : List String)
    (transientMap : String) (dynamicTransientMapKs dynamicTransientMapVs : List String)
    (iterationIndex : Int64) (r : ρ) : Except ParamsFailure (Generated × ρ) :=
  match getComplexArgs src chaincodeParamArray iterationIndex r with
  | .error failure => .error (.args failure)
  | .ok (chaincodeArgs, r) =>
      if required : 1 ≤ chaincodeArgs.length then
        match staticMap transientMap with
        | none => .error (.staticMap "Generate static transient map failed,due to error ")
        | some tStaticMap =>
            match dynamicMapLoop src iterationIndex
                (dynamicKeys dynamicTransientMapKs dynamicTransientMapVs)
                dynamicTransientMapVs [] r with
            | .error failure =>
                .error (.dynamicMap "Generate dynamic transient map failed,due to error " failure)
            | .ok (dynamicTransientMap, r) =>
                .ok (⟨chaincodeArgs, tStaticMap, some dynamicTransientMap, required, rfl⟩, r)
      else .error (.error "required args should not be empty")

/-- What success means, step by step. -/
theorem generateChaincodeParams_eq_ok {src : Source maxAlloc ρ} {chaincodeParamArray : List String}
    {transientMap : String} {ks vs : List String} {iterationIndex : Int64} {r r' : ρ}
    {p : Generated} :
    generateChaincodeParams src chaincodeParamArray transientMap ks vs iterationIndex r
        = .ok (p, r') ↔
      ∃ r₁ dynamic, getComplexArgs src chaincodeParamArray iterationIndex r
          = .ok (p.chaincodeArgs, r₁) ∧
        staticMap transientMap = some p.transientStaticMap ∧
        dynamicMapLoop src iterationIndex (dynamicKeys ks vs) vs [] r₁ = .ok (dynamic, r') ∧
        p.transientDynamicMap = some dynamic := by
  unfold generateChaincodeParams
  constructor
  · intro h
    split at h
    · cases h
    · next args r₁ hargs =>
        split at h
        · next hrequired =>
            split at h
            · cases h
            · next tStaticMap hstatic =>
                split at h
                · cases h
                · next dynamic r₂ hdynamic =>
                    cases h
                    exact ⟨r₁, dynamic, hargs, hstatic, hdynamic, rfl⟩
        · cases h
  · rintro ⟨r₁, dynamic, hargs, hstatic, hdynamic, hsome⟩
    obtain ⟨args, tStaticMap, tDynamicMap, required, made⟩ := p
    simp only at hargs hstatic hsome
    subst hsome
    -- the random state goes on from the arguments to the map
    simp only [hargs, dif_pos required, hstatic, hdynamic]

/-! ## The items of an entry -/

/-- An item that decodes. -/
abbrev Decodes (param : String) (item : String × Param) : Prop :=
  parseTransientParam param = .ok item

theorem decodes_map {params : List String} {items : List (String × Param)}
    (h : List.Forall₂ Decodes params items) :
    params.map parseTransientParam = items.map .ok := by
  induction h with
  | nil => rfl
  | cons hparse _ ih => rw [List.map_cons, hparse, ih, List.map_cons]

/-- A loop that ends has decoded and generated every item. -/
theorem transientMapLoop_decodes {src : Source maxAlloc ρ} {loopIndex : Int64}
    {params : List String} {acc fields : Fields} {r r' : ρ}
    (h : transientMapLoop src loopIndex params acc r = .ok (fields, r')) :
    ∃ items, List.Forall₂ Decodes params items ∧
      ∀ item ∈ items, ∃ arg, Generates src loopIndex item.2 arg := by
  induction params generalizing acc r with
  | nil => exact ⟨[], .nil, nofun⟩
  | cons param params ih =>
      simp only [transientMapLoop] at h
      split at h
      · cases h
      · next mapKey p hparse =>
          split at h
          · cases h
          · next arg r₁ hvalue =>
              obtain ⟨items, hdecodes, hgenerates⟩ := ih h
              refine ⟨(mapKey, p) :: items, .cons hparse hdecodes, fun item hitem => ?_⟩
              rcases List.mem_cons.mp hitem with rfl | hitem
              · exact ⟨arg, r, r₁, hvalue⟩
              · exact hgenerates item hitem

/-- A key that no item has keeps its value. -/
theorem transientMapLoop_other {src : Source maxAlloc ρ} {loopIndex : Int64} {params : List String}
    {items : List (String × Param)} (hdecodes : List.Forall₂ Decodes params items)
    {acc fields : Fields} {r r' : ρ}
    (h : transientMapLoop src loopIndex params acc r = .ok (fields, r')) {key : String}
    (hkey : key ∉ items.map Prod.fst) : fields.lookup key = acc.lookup key := by
  induction hdecodes generalizing acc r with
  | nil =>
      cases h
      rfl
  | @cons param item params items hparse hdecodes ih =>
      obtain ⟨hne, hkey⟩ := List.ne_and_not_mem_of_not_mem_cons hkey
      simp only [transientMapLoop, hparse] at h
      split at h
      · cases h
      · rw [ih h hkey, lookup_setField, if_neg hne]

/-- Each item's value is generated from the item, under its key. -/
theorem transientMapLoop_item {src : Source maxAlloc ρ} {loopIndex : Int64} {params : List String}
    {items : List (String × Param)} (hdecodes : List.Forall₂ Decodes params items)
    (hnodup : (items.map Prod.fst).Nodup) {acc fields : Fields} {r r' : ρ}
    (h : transientMapLoop src loopIndex params acc r = .ok (fields, r')) :
    ∀ item ∈ items, ∃ arg, Generates src loopIndex item.2 arg ∧
      fields.lookup item.1 = some (transientValue arg) := by
  induction hdecodes generalizing acc r with
  | nil => exact nofun
  | @cons param item params items hparse hdecodes ih =>
      obtain ⟨hnot, hnodup⟩ := List.nodup_cons.mp hnodup
      simp only [transientMapLoop, hparse] at h
      split at h
      · cases h
      · next arg r₁ hvalue =>
          intro item' hitem
          rcases List.mem_cons.mp hitem with rfl | hitem
          · -- no later item has its key
            refine ⟨arg, ⟨r, r₁, hvalue⟩, ?_⟩
            rw [transientMapLoop_other hdecodes h hnot, lookup_setField, if_pos rfl]
          · exact ih hnodup h item' hitem

/-- Items that decode into parameters with values never fail. -/
theorem transientMapLoop_ok {src : Source maxAlloc ρ} {loopIndex : Int64} {params : List String}
    {items : List (String × Param)} (hdecodes : List.Forall₂ Decodes params items)
    (hitems : ∀ item ∈ items, item.2.WellFormed src) (acc : Fields) (r : ρ) :
    ∃ fields r', transientMapLoop src loopIndex params acc r = .ok (fields, r') := by
  induction hdecodes generalizing acc r with
  | nil => exact ⟨acc, r, rfl⟩
  | @cons param item params items hparse hdecodes ih =>
      obtain ⟨arg, r₁, hvalue⟩ := (hitems item List.mem_cons_self).getValue loopIndex r
      obtain ⟨fields, r', hrest⟩ := ih (fun i hi => hitems i (List.mem_cons_of_mem item hi))
        (setField acc item.1 (transientValue arg)) r₁
      exact ⟨fields, r', by simp only [transientMapLoop, hparse, hvalue, hrest]⟩

theorem transientMapLoop_wellFormed {src : Source maxAlloc ρ} {loopIndex : Int64}
    {params : List String} {acc fields : Fields} {r r' : ρ} (hacc : (Value.object acc).WellFormed)
    (h : transientMapLoop src loopIndex params acc r = .ok (fields, r')) :
    (Value.object fields).WellFormed := by
  induction params generalizing acc r with
  | nil =>
      cases h
      exact hacc
  | cons param params ih =>
      simp only [transientMapLoop] at h
      split at h
      · cases h
      · next mapKey p hparse =>
          split at h
          · cases h
          · next arg r₁ hvalue =>
              refine ih (hacc.setField mapKey ?_) h
              unfold transientValue
              split
              · exact .scalar _
              · exact .scalar _

/-! ## The entries of the dynamic map -/

/-- A key that the loop does not reach keeps its value. -/
theorem dynamicMapLoop_other {src : Source maxAlloc ρ} {iterationIndex : Int64}
    {ks vs : List String} {acc dynamic : TransientMap} {r r' : ρ}
    (h : dynamicMapLoop src iterationIndex ks vs acc r = .ok (dynamic, r')) {key : String}
    (hkey : key ∉ ks) : dynamic.lookup key = acc.lookup key := by
  induction ks generalizing vs acc r with
  | nil =>
      cases h
      rfl
  | cons k ks ih =>
      obtain ⟨hne, hkey⟩ := List.ne_and_not_mem_of_not_mem_cons hkey
      cases vs with
      | nil => cases h
      | cons v vs =>
          simp only [dynamicMapLoop] at h
          split at h
          · cases h
          · rw [ih h hkey, List.lookup_cons, beq_false_of_ne hne]

/-- The keys of the dynamic map are those of the loop. -/
theorem dynamicMapLoop_isSome {src : Source maxAlloc ρ} {iterationIndex : Int64}
    {ks vs : List String} {acc dynamic : TransientMap} {r r' : ρ}
    (h : dynamicMapLoop src iterationIndex ks vs acc r = .ok (dynamic, r')) (key : String) :
    (dynamic.lookup key).isSome = true ↔ key ∈ ks ∨ (acc.lookup key).isSome = true := by
  induction ks generalizing vs acc r with
  | nil =>
      cases h
      simp
  | cons k ks ih =>
      cases vs with
      | nil => cases h
      | cons v vs =>
          simp only [dynamicMapLoop] at h
          split at h
          · cases h
          · rw [ih h, List.lookup_cons, List.mem_cons]
            by_cases hk : key = k
            · simp [hk]
            · simp [hk, beq_false_of_ne hk]

/-- Each value of the dynamic map is generated from the value in the place of
    its key. -/
theorem dynamicMapLoop_entry {src : Source maxAlloc ρ} {iterationIndex : Int64}
    {ks vs : List String} (hnodup : ks.Nodup) {acc dynamic : TransientMap} {r r' : ρ}
    (h : dynamicMapLoop src iterationIndex ks vs acc r = .ok (dynamic, r')) :
    ∀ entry ∈ ks.zip vs, ∃ r₁ bytes r₂,
      getTransientMap src (paramArray entry.2) iterationIndex r₁ = .ok (bytes, r₂) ∧
        dynamic.lookup entry.1 = some bytes := by
  induction ks generalizing vs acc r with
  | nil => exact nofun
  | cons k ks ih =>
      obtain ⟨hnot, hnodup⟩ := List.nodup_cons.mp hnodup
      cases vs with
      | nil => exact nofun
      | cons v vs =>
          simp only [dynamicMapLoop] at h
          split at h
          · cases h
          · next bytes r₁ hbytes =>
              intro entry hentry
              rcases List.mem_cons.mp hentry with rfl | hentry
              · refine ⟨r, bytes, r₁, hbytes, ?_⟩
                rw [dynamicMapLoop_other h hnot]
                simp
              · exact ih hnodup h entry hentry

theorem dynamicMapLoop_ok {src : Source maxAlloc ρ} {iterationIndex : Int64} {ks vs : List String}
    (hlength : ks.length ≤ vs.length)
    (hvalues : ∀ entry ∈ ks.zip vs, ∀ r, ∃ bytes r',
      getTransientMap src (paramArray entry.2) iterationIndex r = .ok (bytes, r'))
    (acc : TransientMap) (r : ρ) :
    ∃ dynamic r', dynamicMapLoop src iterationIndex ks vs acc r = .ok (dynamic, r') := by
  induction ks generalizing vs acc r with
  | nil => exact ⟨acc, r, rfl⟩
  | cons k ks ih =>
      cases vs with
      | nil => simp at hlength
      | cons v vs =>
          obtain ⟨bytes, r₁, hbytes⟩ := hvalues (k, v) List.mem_cons_self r
          obtain ⟨dynamic, r', hrest⟩ := ih (by simpa using hlength)
            (fun entry hentry => hvalues entry (List.mem_cons_of_mem _ hentry))
            ((k, bytes) :: acc) r₁
          exact ⟨dynamic, r', by simp only [dynamicMapLoop, hbytes, hrest]⟩

end Hfrd.GoSdk
