/-
  Hfrd.Chaincode.MarblesPrivate

  The marbles chaincode with private data
  (chaincode/marbles_private/marbles_chaincode_private.go).

  What may be seen of a marble, and the index, are in one collection, its
  price in another one; each collection is a ledger of its own.  The inputs
  come in the transient map, as JSON.
-/

import Hfrd.Chaincode.MarblesRegistry

namespace Hfrd.Chaincode

open Hfrd.Go Hfrd.Lib

/-! ## Data -/

/-- The private details of a marble. -/
structure MarblePrivateDetails where
  objectType : String
  name : String
  price : Int64
  deriving DecidableEq

namespace MarblePrivateDetails

/-- The members of the JSON of the details. -/
def members (d : MarblePrivateDetails) : Fields :=
  [("docType", .string d.objectType), ("name", .string d.name),
    ("price", .number (intNumber d.price))]

/-- `json.Marshal` -/
def marshal (d : MarblePrivateDetails) : String := String.ofList (Value.object d.members).text

end MarblePrivateDetails

/-- The JSON input of `initMarble`. -/
structure MarbleTransientInput where
  name : String
  color : String
  size : Int64
  owner : String
  price : Int64

/-- The JSON input of `transferMarble`. -/
structure MarbleTransferTransientInput where
  name : String
  owner : String

namespace MarblesPrivate

/-- What the chaincode uses of other packages, with `json.Unmarshal` at the
    types of the inputs. -/
structure PrivateEnv extends Env where
  marbleInput : String → Except String MarbleTransientInput
  transferInput : String → Except String MarbleTransferTransientInput
  /-- The name of a `marbleDeleteTransientInput`. -/
  deleteInput : String → Except String String

/-- The collection of the marbles. -/
def collectionMarbles : String := "collectionMarbles"

/-- The collection of the details. -/
def collectionMarblePrivateDetails : String := "collectionMarblePrivateDetails"

/-- The collections by name. -/
abbrev Collections := String → Ledger String String

/-- A write to a collection. -/
abbrev PrivateWrite := String × Write String String

/-- The stub of a transaction: the peer, and the data that is read. -/
structure PrivateStub extends Peer (String × String) String where
  state : Collections

section Stub

variable (stub : PrivateStub)

/-- `GetPrivateData` -/
def PrivateStub.getPrivateData (collection key : String) : Except String (Option String) :=
  stub.answer (.getState (collection, key)) ((stub.state collection).get key)

/-- `PutPrivateData` of a value that is not empty. -/
def PrivateStub.putPrivateData (collection key value : String) : Except String PrivateWrite :=
  stub.answer (.putState (collection, key)) (collection, key, some value)

/-- `DelPrivateData` -/
def PrivateStub.delPrivateData (collection key : String) : Except String PrivateWrite :=
  stub.answer (.delState (collection, key)) (collection, key, none)

/-- The value of a key of the transient map, which must not be empty. -/
def PrivateStub.transientValue (key emptyText : String) : Except Failure String := do
  orError ("Error getting transient: " ++ ·) (stub.answer .getTransient ())
  match stub.transient key with
  | none => shimError (key ++ " must be a key in the transient map")
  | some text => if text = "" then shimError emptyText else pure text

end Stub

/-! ## Functions -/

variable (env : PrivateEnv) (stub : PrivateStub)

/-- The payload and the writes. -/
abbrev PrivateEndorsement := Option String × List PrivateWrite

/-- The marble of the input. -/
def newMarble (input : MarbleTransientInput) : Marble where
  objectType := "marble"
  name := input.name
  color := input.color
  size := input.size
  owner := input.owner

/-- The details of the input. -/
def newDetails (input : MarbleTransientInput) : MarblePrivateDetails where
  objectType := "marblePrivateDetails"
  name := input.name
  price := input.price

/-- `initMarble` -/
def initMarble (args : List String) : Except Failure PrivateEndorsement :=
  if args ≠ [] then
    shimError "Incorrect number of arguments. Private marble data must be passed in transient map."
  else do
    let text ← stub.transientValue "marble"
      "marble value in the transient map must be a non-empty JSON string"
    let input ← orError (fun err => "Failed to decode JSON of: " ++ text ++ err)
      (env.marbleInput text)
    if input.name = "" then shimError "name field must be a non-empty string"
    else if input.color = "" then shimError "color field must be a non-empty string"
    else if input.size ≤ 0 then shimError "size field must be a positive integer"
    else if input.owner = "" then shimError "owner field must be a non-empty string"
    else if input.price ≤ 0 then shimError "price field must be a positive integer"
    else
      let marbleAsBytes ← orError ("Failed to get marble: " ++ ·)
        (stub.getPrivateData collectionMarbles input.name)
      if marbleAsBytes.isSome then shimError ("This marble already exists: " ++ input.name)
      else
        let marble := newMarble input
        let saved ← orError id
          (stub.putPrivateData collectionMarbles input.name marble.marshal)
        let details ← orError id
          (stub.putPrivateData collectionMarblePrivateDetails input.name (newDetails input).marshal)
        let key ← orError id
          (env.keys.createCompositeKey indexName [marble.color, marble.name])
        -- whether the index entry is saved is not looked at
        pure (none, saved :: details ::
          accepted (stub.putPrivateData collectionMarbles key indexValue))

/-- `readMarble` and `readMarblePrivateDetails` -/
def readFrom (collection : String) (failedText : String → String → String)
    (missingText : String → String) (args : List String) : Except Failure PrivateEndorsement :=
  match args with
  | [name] => do
      let val ← orError (failedText name) (stub.getPrivateData collection name)
      match val with
      | none => shimError (missingText name)
      | some text => pure (some text, [])
  | _ => shimError "Incorrect number of arguments. Expecting name of the marble to query"

/-- `readMarble` -/
def readMarble (args : List String) : Except Failure PrivateEndorsement :=
  readFrom stub collectionMarbles
    (fun name _ => "\x7b\"Error\":\"Failed to get state for " ++ name ++ "\"\x7d")
    (fun name => "\x7b\"Error\":\"Marble does not exist: " ++ name ++ "\"\x7d") args

/-- `readMarblePrivateDetails` -/
def readMarblePrivateDetails (args : List String) : Except Failure PrivateEndorsement :=
  readFrom stub collectionMarblePrivateDetails
    (fun name err => "\x7b\"Error\":\"Failed to get private details for " ++ name ++ ": " ++ err ++
      "\"\x7d")
    (fun name => "\x7b\"Error\":\"Marble private details does not exist: " ++ name ++ "\"\x7d") args

/-- `delete` -/
def delete (args : List String) : Except Failure PrivateEndorsement :=
  if args ≠ [] then
    shimError "Incorrect number of arguments. Private marble name must be passed in transient map."
  else do
    let text ← stub.transientValue "marble_delete"
      "marble_delete value in the transient map must be a non-empty JSON string"
    let name ← orError (fun _ => "Failed to decode JSON of: " ++ text) (env.deleteInput text)
    if name = "" then shimError "name field must be a non-empty string"
    else
      let val ← orError (fun _ => "Failed to get state for " ++ name)
        (stub.getPrivateData collectionMarbles name)
      match val with
      | none => shimError ("Marble does not exist: " ++ name)
      | some val =>
          if (Marble.unmarshal val).2 = false then shimError ("Failed to decode JSON of: " ++ val)
          else
            let marbleToDelete := (Marble.unmarshal val).1
            let deleted ← orError ("Failed to delete state:" ++ ·)
              (stub.delPrivateData collectionMarbles name)
            let key ← orError id
              (env.keys.createCompositeKey indexName [marbleToDelete.color, marbleToDelete.name])
            let unindexed ← orError ("Failed to delete state:" ++ ·)
              (stub.delPrivateData collectionMarbles key)
            let details ← orError id (stub.delPrivateData collectionMarblePrivateDetails name)
            pure (none, [deleted, unindexed, details])

/-- `transferMarble` -/
def transferMarble (args : List String) : Except Failure PrivateEndorsement :=
  if args ≠ [] then
    shimError "Incorrect number of arguments. Private marble data must be passed in transient map."
  else do
    let text ← stub.transientValue "marble_owner"
      "marble_owner value in the transient map must be a non-empty JSON string"
    let input ← orError (fun _ => "Failed to decode JSON of: " ++ text) (env.transferInput text)
    if input.name = "" then shimError "name field must be a non-empty string"
    else if input.owner = "" then shimError "owner field must be a non-empty string"
    else
      let marbleAsBytes ← orError ("Failed to get marble:" ++ ·)
        (stub.getPrivateData collectionMarbles input.name)
      match marbleAsBytes with
      | none => shimError ("Marble does not exist: " ++ input.name)
      | some val =>
          if (Marble.unmarshal val).2 = false then shimError (env.jsonError val)
          else
            let marbleToTransfer := { (Marble.unmarshal val).1 with owner := input.owner }
            -- under the name that the marble has, not the one that was asked for
            let saved ← orError id
              (stub.putPrivateData collectionMarbles marbleToTransfer.name marbleToTransfer.marshal)
            pure (none, [saved])

/-- `getMarblesByRange` -/
def getMarblesByRange (args : List String) : Except Failure PrivateEndorsement :=
  match args with
  | startKey :: endKey :: _ => do
      let found ← orError id (env.keys.range startKey endKey)
      let entries ← orError id (stub.answer (.getStateByRange startKey endKey)
        ((stub.state collectionMarbles).select found))
      let buffer ← stub.writeRecords (fun key => .next (collectionMarbles, key)) false "[" entries
      pure (some (buffer ++ "]"), [])
  | _ => shimError "Incorrect number of arguments. Expecting 2"

/-- `getQueryResultForQueryString` -/
def getQueryResultForQueryString (query : String) : Except Failure PrivateEndorsement := do
  let entries ← orError id (stub.answer (.getQueryResult query) (stub.queryResult query))
  let buffer ← stub.writeRecords (fun key => .next (collectionMarbles, key)) false "[" entries
  pure (some (buffer ++ "]"), [])

/-- `queryMarblesByOwner` -/
def queryMarblesByOwner (args : List String) : Except Failure PrivateEndorsement :=
  match args with
  | owner :: _ => getQueryResultForQueryString stub
      ("\x7b\"selector\":\x7b\"docType\":\"marble\",\"owner\":\"" ++ env.toLower owner ++
        "\"\x7d\x7d")
  | _ => shimError "Incorrect number of arguments. Expecting 1"

/-- `queryMarbles` -/
def queryMarbles (args : List String) : Except Failure PrivateEndorsement :=
  match args with
  | query :: _ => getQueryResultForQueryString stub query
  | _ => shimError "Incorrect number of arguments. Expecting 1"

/-- `Invoke` -/
def invoke (function : String) (args : List String) : Except Failure PrivateEndorsement :=
  if function = "initMarble" then initMarble env stub args
  else if function = "readMarble" then readMarble stub args
  else if function = "readMarblePrivateDetails" then readMarblePrivateDetails stub args
  else if function = "transferMarble" then transferMarble env stub args
  else if function = "delete" then delete env stub args
  else if function = "queryMarblesByOwner" then queryMarblesByOwner env stub args
  else if function = "queryMarbles" then queryMarbles stub args
  else if function = "getMarblesByRange" then getMarblesByRange env stub args
  else shimError "Received unknown function invocation"

/-! ## What is endorsed -/

/-- The text of the details of a marble. -/
def detailsText (name : String) (price : Int64) : String :=
  (MarblePrivateDetails.mk "marblePrivateDetails" name price).marshal

/-- The writes for a new marble, its details, and maybe its index entry. -/
def createWrites (m : Marble) (price : Int64) (ws : List (Write String String)) :
    List PrivateWrite :=
  (collectionMarbles, m.name, some m.marshal) ::
    (collectionMarblePrivateDetails, m.name, some (detailsText m.name price)) ::
    ws.map (Prod.mk collectionMarbles)

/-- The write that gives a marble another owner. -/
def transferWrites (m : Marble) (owner : String) : List PrivateWrite :=
  [(collectionMarbles, m.name, some { m with owner := owner }.marshal)]

/-- The writes that remove a marble, its index entry and its details. -/
def deleteWrites (m : Marble) (key : String) : List PrivateWrite :=
  [(collectionMarbles, m.name, none), (collectionMarbles, key, none),
    (collectionMarblePrivateDetails, m.name, none)]

variable {env : PrivateEnv} {stub : PrivateStub} {args : List String} {out : PrivateEndorsement}

/-- A new marble, its details, and maybe its index entry. -/
theorem initMarble_effect (h : initMarble env stub args = .ok out) :
    ∃ (m : Marble) (price : Int64) (key : String) (ws : List (Write String String)),
      m.objectType = "marble" ∧ 0 < m.size ∧ 0 < price ∧
      env.keys.createCompositeKey indexName [m.color, m.name] = .ok key ∧
      (stub.state collectionMarbles).get m.name = none ∧ (ws = [] ∨ ws = [(key, some indexValue)]) ∧
      out.2 = createWrites m price ws := by
  unfold initMarble at h
  simp only [guard_eq_ok, Go.bind_eq_ok, orError_eq_ok, PrivateStub.getPrivateData,
    PrivateStub.putPrivateData, answer_eq_ok] at h
  obtain ⟨-, text, -, input, -, -, -, hsize, -, hprice, _, ⟨-, rfl⟩, hnew, _, ⟨-, rfl⟩, _, ⟨-, rfl⟩,
    key, hkey, hout⟩ := h
  obtain rfl := Except.ok.inj hout
  have hnew : (stub.state collectionMarbles).get input.name = none := by simpa using hnew
  refine ⟨newMarble input, input.price, key,
    if stub.fault (.putState (collectionMarbles, key)) = none then [(key, some indexValue)] else [],
    rfl, Int64.not_le.mp hsize, Int64.not_le.mp hprice, hkey, hnew, ?_, ?_⟩
  · split
    · exact Or.inr rfl
    · exact Or.inl rfl
  · rw [accepted_answer]
    split
    · rfl
    · rfl

/-- A marble with its index entry and its details is gone. -/
theorem delete_effect (hs : Marbles.Sound env.toEnv (stub.state collectionMarbles))
    (h : delete env stub args = .ok out) :
    ∃ (text : String) (m : Marble) (key : String), stub.transient "marble_delete" = some text ∧
      env.deleteInput text = .ok m.name ∧
      (stub.state collectionMarbles).get m.name = some m.marshal ∧
      env.keys.createCompositeKey indexName [m.color, m.name] = .ok key ∧
      out.2 = deleteWrites m key := by
  unfold delete at h
  simp only [guard_eq_ok, Go.bind_eq_ok, orError_eq_ok, PrivateStub.getPrivateData,
    answer_eq_ok] at h
  obtain ⟨-, text, htext, name, hname, -, _, ⟨-, rfl⟩, h⟩ := h
  split at h
  · cases h
  · next val hget =>
      simp only [guard_eq_ok, Go.bind_eq_ok, orError_eq_ok, PrivateStub.delPrivateData,
        answer_eq_ok] at h
      obtain ⟨hread, _, ⟨-, rfl⟩, key, hkey, _, ⟨-, rfl⟩, _, ⟨-, rfl⟩, hout⟩ := h
      obtain rfl := Except.ok.inj hout
      -- what can be read is a marble, stored under its name
      obtain ⟨m, rfl, hm, rfl⟩ := hs.readable hget (by simpa using hread)
      rw [hm] at hkey
      refine ⟨text, m, key, ?_, hname, hget, hkey, rfl⟩
      simp only [PrivateStub.transientValue, Go.bind_eq_ok] at htext
      obtain ⟨-, -, htext⟩ := htext
      split at htext
      · cases htext
      · next text' htransient =>
          rw [guard_eq_ok] at htext
          rw [htransient, ← Except.ok.inj htext.2]

/-- A marble has another owner. -/
theorem transferMarble_effect (hs : Marbles.Sound env.toEnv (stub.state collectionMarbles))
    (h : transferMarble env stub args = .ok out) :
    ∃ (m : Marble) (owner : String),
      (stub.state collectionMarbles).get m.name = some m.marshal ∧
      out.2 = transferWrites m owner := by
  unfold transferMarble at h
  simp only [guard_eq_ok, Go.bind_eq_ok, orError_eq_ok, PrivateStub.getPrivateData,
    answer_eq_ok] at h
  obtain ⟨-, text, -, input, -, -, -, _, ⟨-, rfl⟩, h⟩ := h
  split at h
  · cases h
  · next val hget =>
      simp only [guard_eq_ok, Go.bind_eq_ok, orError_eq_ok, PrivateStub.putPrivateData,
        answer_eq_ok] at h
      obtain ⟨hread, _, ⟨-, rfl⟩, hout⟩ := h
      obtain rfl := Except.ok.inj hout
      obtain ⟨m, rfl, hm, hname⟩ := hs.readable hget (by simpa using hread)
      exact ⟨m, input.owner, hname ▸ hget, by rw [hm, transferWrites]⟩

theorem writes_of_read {collection : String} {failedText : String → String → String}
    {missingText : String → String}
    (h : readFrom stub collection failedText missingText args = .ok out) : out.2 = [] := by
  unfold readFrom at h
  split at h
  · simp only [Go.bind_eq_ok] at h
    obtain ⟨val, -, h⟩ := h
    split at h
    · cases h
    · rw [← Except.ok.inj h]
  · cases h

theorem writes_of_query {query : String} (h : getQueryResultForQueryString stub query = .ok out) :
    out.2 = [] := by
  simp only [getQueryResultForQueryString, Go.bind_eq_ok] at h
  obtain ⟨_, -, _, -, hout⟩ := h
  rw [← Except.ok.inj hout]

/-- An endorsed invocation is one of three changes, or writes nothing. -/
theorem invoke_cases {function : String} (h : invoke env stub function args = .ok out) :
    initMarble env stub args = .ok out ∨ transferMarble env stub args = .ok out ∨
      (function = "delete" ∧ delete env stub args = .ok out) ∨ out.2 = [] := by
  unfold invoke at h
  split at h
  · exact Or.inl h
  split at h
  · exact Or.inr (Or.inr (Or.inr (writes_of_read h)))
  split at h
  · exact Or.inr (Or.inr (Or.inr (writes_of_read h)))
  split at h
  · exact Or.inr (Or.inl h)
  split at h
  · next hf => exact Or.inr (Or.inr (Or.inl ⟨hf, h⟩))
  refine Or.inr (Or.inr (Or.inr ?_))
  split at h
  · unfold queryMarblesByOwner at h
    split at h
    · exact writes_of_query h
    · cases h
  split at h
  · unfold queryMarbles at h
    split at h
    · exact writes_of_query h
    · cases h
  split at h
  · unfold getMarblesByRange at h
    split at h
    · simp only [Go.bind_eq_ok] at h
      obtain ⟨_, -, _, -, _, -, hout⟩ := h
      rw [← Except.ok.inj hout]
    · cases h
  · cases h

end MarblesPrivate

end Hfrd.Chaincode
