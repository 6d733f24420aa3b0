/-
  Hfrd.Chaincode.Marbles

  The marbles chaincode (chaincode/marbles/marbles_chaincode.go).

  A marble is stored under its name, as JSON.  Next to it stands an entry of
  the index `color~name`, under the composite key of its color and its name,
  so that all marbles of a color are found by a query for the keys that begin
  with the color.
-/

import Hfrd.Chaincode.Shim
import Hfrd.Go.JsonStruct
import Hfrd.Lib.Fallible

namespace Hfrd.Chaincode

open Hfrd.Go Hfrd.Lib

/-! ## Marbles -/

/-- A marble. -/
structure Marble where
  objectType : String := ""
  name : String := ""
  color : String := ""
  size : Int64 := 0
  owner : String := ""
  deriving DecidableEq

namespace Marble

/-- The fields that are read from the JSON of a marble. -/
def fields : List (StructField Marble) :=
  [stringField "docType" fun m x => { m with objectType := x },
    stringField "name" fun m x => { m with name := x },
    stringField "color" fun m x => { m with color := x },
    intField "size" fun m x => { m with size := x },
    stringField "owner" fun m x => { m with owner := x }]

/-- The members of the JSON of a marble. -/
def members (m : Marble) : Fields :=
  [("docType", .string m.objectType), ("name", .string m.name), ("color", .string m.color),
    ("size", .number (intNumber m.size)), ("owner", .string m.owner)]

/-- `json.Marshal` -/
def marshal (m : Marble) : String := String.ofList (Value.object m.members).text

/-- `json.Unmarshal` into a new marble; the flag tells that there was no error. -/
def unmarshal (text : String) : Marble × Bool := unmarshalStruct fields {} text

@[simp] theorem unmarshal_marshal (m : Marble) : unmarshal m.marshal = (m, true) := by
  rw [unmarshal, marshal, unmarshalStruct_text]
  simp [members, Value.decodedFields, Value.decoded, readMember, findField, fields, stringField,
    intField, atoi_intNumber]

theorem marshal_injective {m m' : Marble} (h : m.marshal = m'.marshal) : m = m' := by
  have hread := unmarshal_marshal m
  rw [h, unmarshal_marshal] at hread
  exact (congrArg Prod.fst hread).symm

/-- What stands under the key of an index entry is not the JSON of a marble. -/
theorem unmarshal_indexValue : (unmarshal "\x00").2 = false := by decide

end Marble

/-! ## Functions -/

/-- What the chaincode uses of other packages. -/
structure Env where
  keys : KeySpace
  /-- `strings.ToLower` -/
  toLower : String → String
  /-- The text of the error of `json.Unmarshal`. -/
  jsonError : String → String

/-- The name of the index by color. -/
def indexName : String := "color~name"

/-- `[]byte{0x00}`, the value of an index entry -/
def indexValue : String := "\x00"

namespace Marbles

variable (env : Env) (stub : Stub String String)

/-- The marble of the arguments. -/
def newMarble (marbleName color : String) (size : Int64) (owner : String) : Marble where
  objectType := "marble"
  name := marbleName
  color := env.toLower color
  size := size
  owner := env.toLower owner

/-- `initMarble` -/
def initMarble (args : List String) : Except Failure (Endorsement String String) :=
  match args with
  | [marbleName, color, size, owner] =>
      if marbleName = "" then shimError "1st argument must be a non-empty string"
      else if color = "" then shimError "2nd argument must be a non-empty string"
      else if size = "" then shimError "3rd argument must be a non-empty string"
      else if owner = "" then shimError "4th argument must be a non-empty string"
      else match atoi size with
        | none => shimError "3rd argument must be a numeric string"
        | some size => do
            let marbleAsBytes ← orError ("Failed to get marble: " ++ ·) (stub.getState marbleName)
            if marbleAsBytes.isSome then shimError ("This marble already exists: " ++ marbleName)
            else
              let marble := newMarble env marbleName color size owner
              let saved ← orError id (stub.putState marbleName marble.marshal)
              let key ← orError id
                (env.keys.createCompositeKey indexName [marble.color, marble.name])
              -- whether the index entry is saved is not looked at
              pure (none, saved :: accepted (stub.putState key indexValue))
  | _ => shimError "Incorrect number of arguments. Expecting 4"

/-- `readMarble` -/
def readMarble (args : List String) : Except Failure (Endorsement String String) :=
  match args with
  | [name] => do
      let val ← orError (fun _ => "\x7b\"Error\":\"Failed to get state for " ++ name ++ "\"\x7d")
        (stub.getState name)
      match val with
      | none => shimError ("\x7b\"Error\":\"Marble does not exist: " ++ name ++ "\"\x7d")
      | some text => pure (some text, [])
  | _ => shimError "Incorrect number of arguments. Expecting name of the marble to query"

/-- `delete` -/
def delete (args : List String) : Except Failure (Endorsement String String) :=
  match args with
  | [marbleName] => do
      let val ← orError
        (fun _ => "\x7b\"Error\":\"Failed to get state for " ++ marbleName ++ "\"\x7d")
        (stub.getState marbleName)
      match val with
      | none => shimError ("\x7b\"Error\":\"Marble does not exist: " ++ marbleName ++ "\"\x7d")
      | some text =>
          if (Marble.unmarshal text).2 = false then
            shimError ("\x7b\"Error\":\"Failed to decode JSON of: " ++ marbleName ++ "\"\x7d")
          else
            let marbleJSON := (Marble.unmarshal text).1
            let deleted ← orError ("Failed to delete state:" ++ ·) (stub.delState marbleName)
            let key ← orError id
              (env.keys.createCompositeKey indexName [marbleJSON.color, marbleJSON.name])
            let unindexed ← orError ("Failed to delete state:" ++ ·) (stub.delState key)
            pure (none, [deleted, unindexed])
  | _ => shimError "Incorrect number of arguments. Expecting 1"

/-- `transferMarble` -/
def transferMarble (args : List String) : Except Failure (Endorsement String String) :=
  match args with
  | marbleName :: newOwner :: _ => do
      let marbleAsBytes ← orError ("Failed to get marble:" ++ ·) (stub.getState marbleName)
      match marbleAsBytes with
      | none => shimError "Marble does not exist"
      | some text =>
          if (Marble.unmarshal text).2 = false then shimError (env.jsonError text)
          else
            let marbleToTransfer :=
              { (Marble.unmarshal text).1 with owner := env.toLower newOwner }
            let saved ← orError id (stub.putState marbleName marbleToTransfer.marshal)
            pure (none, [saved])
  | _ => shimError "Incorrect number of arguments. Expecting 2"

/-- `"Transfer failed: " + response.Message` -/
def transferFailed : Failure → Failure
  | .response message => .response ("Transfer failed: " ++ message)
  | .panic => .panic

/-- The loop over the index entries that were found. -/
def transferEach (newOwner : String) :
    List (String × String) → Except Failure (List (Write String String))
  | [] => pure []
  | (key, _) :: entries => do
      orError id (stub.answer (.next key) ())
      let (_, compositeKeyParts) ← orError id (env.keys.splitCompositeKey key)
      match compositeKeyParts with
      | _ :: returnedMarbleName :: _ => do
          let (_, writes) ←
            (transferMarble env stub [returnedMarbleName, newOwner]).mapError transferFailed
          let rest ← transferEach newOwner entries
          pure (writes ++ rest)
      -- an index out of range
      | _ => .error .panic

/-- The payload of `transferMarblesBasedOnColor`. -/
def transferredText (count : Nat) (color newOwner : String) : String :=
  "Transferred " ++ itoa (Int64.ofNat count) ++ " " ++ color ++ " marbles to " ++ newOwner

/-- `transferMarblesBasedOnColor` -/
def transferMarblesBasedOnColor (args : List String) : Except Failure (Endorsement String String) :=
  match args with
  | color :: owner :: _ => do
      let newOwner := env.toLower owner
      let found ← orError id (env.keys.partialCompositeKey indexName [color])
      let entries ← orError id (stub.answer (.getStateByPartialCompositeKey indexName [color])
        (stub.state.select found))
      let writes ← transferEach env stub newOwner entries
      pure (some (transferredText entries.length color newOwner), writes)
  | _ => shimError "Incorrect number of arguments. Expecting 2"

/-- `getMarblesByRange` -/
def getMarblesByRange (args : List String) : Except Failure (Endorsement String String) :=
  match args with
  | startKey :: endKey :: _ => do
      let found ← orError id (env.keys.range startKey endKey)
      let entries ← orError id (stub.answer (.getStateByRange startKey endKey)
        (stub.state.select found))
      let buffer ← stub.writeRecords .next false "[" entries
      pure (some (buffer ++ "]"), [])
  | _ => shimError "Incorrect number of arguments. Expecting 2"

/-- `getQueryResultForQueryString` -/
def getQueryResultForQueryString (query : String) : Except Failure (Endorsement String String) := do
  let entries ← orError id (stub.answer (.getQueryResult query) (stub.queryResult query))
  let buffer ← stub.writeRecords .next false "[" entries
  pure (some (buffer ++ "]"), [])

/-- `queryMarblesByOwner` -/
def queryMarblesByOwner (args : List String) : Except Failure (Endorsement String String) :=
  match args with
  | owner :: _ => getQueryResultForQueryString stub
      ("\x7b\"selector\":\x7b\"docType\":\"marble\",\"owner\":\"" ++ env.toLower owner ++
        "\"\x7d\x7d")
  | _ => shimError "Incorrect number of arguments. Expecting 1"

/-- `queryMarbles` -/
def queryMarbles (args : List String) : Except Failure (Endorsement String String) :=
  match args with
  | query :: _ => getQueryResultForQueryString stub query
  | _ => shimError "Incorrect number of arguments. Expecting 1"

/-- `getHistoryForMarble` -/
def getHistoryForMarble (args : List String) : Except Failure (Endorsement String String) :=
  match args with
  | marbleName :: _ => do
      let history ← orError id (stub.answer (.getHistoryForKey marbleName)
        (stub.history marbleName))
      let buffer ← stub.writeHistory false "[" history
      pure (some (buffer ++ "]"), [])
  | _ => shimError "Incorrect number of arguments. Expecting 1"

/-- `Invoke` -/
def invoke (function : String) (args : List String) : Except Failure (Endorsement String String) :=
  if function = "initMarble" then initMarble env stub args
  else if function = "transferMarble" then transferMarble env stub args
  else if function = "transferMarblesBasedOnColor" then transferMarblesBasedOnColor env stub args
  else if function = "delete" then delete env stub args
  else if function = "readMarble" then readMarble stub args
  else if function = "queryMarblesByOwner" then queryMarblesByOwner env stub args
  else if function = "queryMarbles" then queryMarbles stub args
  else if function = "getHistoryForMarble" then getHistoryForMarble stub args
  else if function = "getMarblesByRange" then getMarblesByRange env stub args
  else shimError "Received unknown function invocation"

/-! ## What is endorsed -/

variable {env : Env} {stub : Stub String String}

theorem initMarble_eq_ok {args : List String} {out : Endorsement String String} :
    initMarble env stub args = .ok out ↔
      ∃ name color size owner n key, args = [name, color, size, owner] ∧ name ≠ "" ∧ color ≠ "" ∧
        owner ≠ "" ∧ atoi size = some n ∧ stub.fault (.getState name) = none ∧
        stub.state.get name = none ∧ stub.fault (.putState name) = none ∧
        env.keys.createCompositeKey indexName [env.toLower color, name] = .ok key ∧
        out = (none, (name, some (newMarble env name color n owner).marshal) ::
          accepted (stub.putState key indexValue)) := by
  constructor
  · intro h
    unfold initMarble at h
    split at h
    · next name color size owner =>
        simp only [guard_eq_ok] at h
        obtain ⟨hname, hcolor, -, howner, h⟩ := h
        split at h
        · cases h
        · next n hsize =>
            simp only [Go.bind_eq_ok, guard_eq_ok, orError_eq_ok, Stub.getState, Stub.putState,
              answer_eq_ok] at h
            -- the error of the last put is not looked at, so nothing is said of it
            obtain ⟨_, ⟨hget, rfl⟩, hnew, _, ⟨hput, rfl⟩, key, hkey, hout⟩ := h
            exact ⟨name, color, size, owner, n, key, rfl, hname, hcolor, howner, hsize, hget,
              by simpa using hnew, hput, hkey, (Except.ok.inj hout).symm⟩
    · cases h
  · rintro ⟨name, color, size, owner, n, key, rfl, hname, hcolor, howner, hsize, hget, hnew, hput,
      hkey, rfl⟩
    -- a number is not the empty text
    have hne : size ≠ "" := by
      rintro rfl
      cases hsize
    simp only [initMarble, guard_eq_ok, hsize, Go.bind_eq_ok, orError_eq_ok, Stub.getState,
      Stub.putState, answer_eq_ok]
    exact ⟨hname, hcolor, hne, howner, _, ⟨hget, rfl⟩, by simp [hnew], _, ⟨hput, rfl⟩, key, hkey,
      rfl⟩

theorem delete_eq_ok {args : List String} {out : Endorsement String String} :
    delete env stub args = .ok out ↔
      ∃ name text key, args = [name] ∧ stub.fault (.getState name) = none ∧
        stub.state.get name = some text ∧ (Marble.unmarshal text).2 = true ∧
        stub.fault (.delState name) = none ∧
        env.keys.createCompositeKey indexName
          [(Marble.unmarshal text).1.color, (Marble.unmarshal text).1.name] = .ok key ∧
        stub.fault (.delState key) = none ∧ out = (none, [(name, none), (key, none)]) := by
  constructor
  · intro h
    unfold delete at h
    split at h
    · next name =>
        simp only [Go.bind_eq_ok, orError_eq_ok, Stub.getState, answer_eq_ok] at h
        obtain ⟨_, ⟨hget, rfl⟩, h⟩ := h
        split at h
        · cases h
        · next text htext =>
            simp only [guard_eq_ok, Go.bind_eq_ok, orError_eq_ok, Stub.delState, answer_eq_ok] at h
            obtain ⟨hread, _, ⟨hdel, rfl⟩, key, hkey, _, ⟨hdel', rfl⟩, hout⟩ := h
            exact ⟨name, text, key, rfl, hget, htext, by simpa using hread, hdel, hkey, hdel',
              (Except.ok.inj hout).symm⟩
    · cases h
  · rintro ⟨name, text, key, rfl, hget, htext, hread, hdel, hkey, hdel', rfl⟩
    simp only [delete, Go.bind_eq_ok, orError_eq_ok, Stub.getState, answer_eq_ok]
    refine ⟨_, ⟨hget, rfl⟩, ?_⟩
    rw [htext]
    simp only [guard_eq_ok, Go.bind_eq_ok, orError_eq_ok, Stub.delState, answer_eq_ok]
    exact ⟨by simp [hread], _, ⟨hdel, rfl⟩, key, hkey, _, ⟨hdel', rfl⟩, rfl⟩

theorem transferMarble_eq_ok {args : List String} {out : Endorsement String String} :
    transferMarble env stub args = .ok out ↔
      ∃ name owner rest text, args = name :: owner :: rest ∧ stub.fault (.getState name) = none ∧
        stub.state.get name = some text ∧ (Marble.unmarshal text).2 = true ∧
        stub.fault (.putState name) = none ∧
        out = (none, [(name, some
          { (Marble.unmarshal text).1 with owner := env.toLower owner }.marshal)]) := by
  constructor
  · intro h
    unfold transferMarble at h
    split at h
    · next name owner rest =>
        simp only [Go.bind_eq_ok, orError_eq_ok, Stub.getState, answer_eq_ok] at h
        obtain ⟨_, ⟨hget, rfl⟩, h⟩ := h
        split at h
        · cases h
        · next text htext =>
            simp only [guard_eq_ok, Go.bind_eq_ok, orError_eq_ok, Stub.putState, answer_eq_ok] at h
            obtain ⟨hread, _, ⟨hput, rfl⟩, hout⟩ := h
            exact ⟨name, owner, rest, text, rfl, hget, htext, by simpa using hread, hput,
              (Except.ok.inj hout).symm⟩
    · cases h
  · rintro ⟨name, owner, rest, text, rfl, hget, htext, hread, hput, rfl⟩
    simp only [transferMarble, Go.bind_eq_ok, orError_eq_ok, Stub.getState, answer_eq_ok]
    refine ⟨_, ⟨hget, rfl⟩, ?_⟩
    rw [htext]
    simp only [guard_eq_ok, Go.bind_eq_ok, orError_eq_ok, Stub.putState, answer_eq_ok]
    exact ⟨by simp [hread], _, ⟨hput, rfl⟩, rfl⟩

/-- What the loop does with the index entry under `key`: it writes `w`. -/
def Transferred (env : Env) (stub : Stub String String) (newOwner key : String)
    (w : Write String String) : Prop :=
  stub.fault (.next key) = none ∧
    ∃ o color name rest text, env.keys.splitCompositeKey key = .ok (o, color :: name :: rest) ∧
      stub.fault (.getState name) = none ∧ stub.state.get name = some text ∧
      (Marble.unmarshal text).2 = true ∧ stub.fault (.putState name) = none ∧
      w = (name, some { (Marble.unmarshal text).1 with owner := env.toLower newOwner }.marshal)

/-- **The loop makes one write for each entry.** -/
theorem transferEach_eq_ok {newOwner : String} {entries : List (String × String)}
    {ws : List (Write String String)} :
    transferEach env stub newOwner entries = .ok ws ↔
      List.Forall₂ (fun e w => Transferred env stub newOwner e.1 w) entries ws := by
  induction entries generalizing ws with
  | nil =>
      rw [List.forall₂_nil_left_iff]
      exact ⟨fun h => (Except.ok.inj h).symm, fun h => h ▸ rfl⟩
  | cons e entries ih =>
      obtain ⟨key, value⟩ := e
      rw [List.forall₂_cons_left_iff]
      simp only [transferEach, Go.bind_eq_ok, orError_eq_ok, answer_eq_ok]
      constructor
      · rintro ⟨_, ⟨hnext, -⟩, ⟨o, parts⟩, hsplit, h⟩
        split at h
        · next color name rest hparts =>
            simp only at hparts
            subst hparts
            simp only [Go.bind_eq_ok, mapError_eq_ok] at h
            obtain ⟨_, htransfer, ws', hrest, hout⟩ := h
            obtain ⟨_, _, _, text, hargs, hget, htext, hread, hput, rfl⟩ :=
              transferMarble_eq_ok.mp htransfer
            -- a round calls `transferMarble` with the name from the key
            cases hargs
            refine ⟨_, ws', ⟨hnext, o, color, name, rest, text, hsplit, hget, htext, hread, hput,
              rfl⟩, ih.mp hrest, ?_⟩
            exact (Except.ok.inj hout).symm
        · cases h
      · rintro ⟨w, ws', ⟨hnext, o, color, name, rest, text, hsplit, hget, htext, hread, hput, rfl⟩,
          hrest, rfl⟩
        refine ⟨(), ⟨hnext, trivial⟩, (o, color :: name :: rest), hsplit, ?_⟩
        simp only [Go.bind_eq_ok, mapError_eq_ok]
        exact ⟨_, transferMarble_eq_ok.mpr ⟨name, newOwner, [], text, rfl, hget, htext, hread, hput,
          rfl⟩, ws', ih.mpr hrest, rfl⟩

theorem transferMarblesBasedOnColor_eq_ok {args : List String} {out : Endorsement String String} :
    transferMarblesBasedOnColor env stub args = .ok out ↔
      ∃ color owner rest found ws, args = color :: owner :: rest ∧
        env.keys.partialCompositeKey indexName [color] = .ok found ∧
        stub.fault (.getStateByPartialCompositeKey indexName [color]) = none ∧
        List.Forall₂ (fun e w => Transferred env stub (env.toLower owner) e.1 w)
          (stub.state.select found) ws ∧
        out = (some (transferredText (stub.state.select found).length color (env.toLower owner)),
          ws) := by
  constructor
  · intro h
    unfold transferMarblesBasedOnColor at h
    split at h
    · next color owner rest =>
        simp only [Go.bind_eq_ok, orError_eq_ok, answer_eq_ok, transferEach_eq_ok] at h
        obtain ⟨found, hfound, _, ⟨hquery, rfl⟩, ws, hws, hout⟩ := h
        exact ⟨color, owner, rest, found, ws, rfl, hfound, hquery, hws, (Except.ok.inj hout).symm⟩
    · cases h
  · rintro ⟨color, owner, rest, found, ws, rfl, hfound, hquery, hws, rfl⟩
    simp only [transferMarblesBasedOnColor, Go.bind_eq_ok, orError_eq_ok, answer_eq_ok,
      transferEach_eq_ok]
    exact ⟨found, hfound, _, ⟨hquery, rfl⟩, ws, hws, rfl⟩

/-- The other functions write nothing. -/
theorem writes_of_query {function : String} {args : List String} {out : Endorsement String String}
    (h : invoke env stub function args = .ok out) (hinit : function ≠ "initMarble")
    (htransfer : function ≠ "transferMarble") (hcolor : function ≠ "transferMarblesBasedOnColor")
    (hdelete : function ≠ "delete") : out.2 = [] := by
  have hquery : ∀ query, getQueryResultForQueryString stub query = .ok out → out.2 = [] := by
    intro query h
    simp only [getQueryResultForQueryString, Go.bind_eq_ok] at h
    obtain ⟨_, -, _, -, hout⟩ := h
    rw [← Except.ok.inj hout]
  -- what is left of `Invoke` reads only
  rw [invoke, if_neg hinit, if_neg htransfer, if_neg hcolor, if_neg hdelete] at h
  split at h
  · unfold readMarble at h
    split at h
    · simp only [Go.bind_eq_ok] at h
      obtain ⟨val, -, h⟩ := h
      split at h
      · cases h
      · rw [← Except.ok.inj h]
    · cases h
  split at h
  · unfold queryMarblesByOwner at h
    split at h
    · exact hquery _ h
    · cases h
  split at h
  · unfold queryMarbles at h
    split at h
    · exact hquery _ h
    · cases h
  split at h
  · unfold getHistoryForMarble at h
    split at h
    · simp only [Go.bind_eq_ok] at h
      obtain ⟨_, -, _, -, hout⟩ := h
      rw [← Except.ok.inj hout]
    · cases h
  split at h
  · unfold getMarblesByRange at h
    split at h
    · simp only [Go.bind_eq_ok] at h
      obtain ⟨_, -, _, -, _, -, hout⟩ := h
      rw [← Except.ok.inj hout]
    · cases h
  · cases h

end Marbles

end Hfrd.Chaincode
