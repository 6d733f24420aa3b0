/-
  Hfrd.Chaincode.Shim

  What the chaincodes use of `shim.ChaincodeStubInterface`.

  A chaincode reads the state that its transaction is simulated on, and its
  writes are collected.  The peer may answer any call with an error; `fault`
  gives the error of each call, and no chaincode makes the same call twice in
  one transaction.

  The keys of the state are the simple keys and the composite keys.  `KeySpace`
  says how composite keys are made and taken apart, and which keys a query
  finds; the chaincodes rely on nothing but its laws, which hold of the keys
  with `U+0000` as the separator.
-/

import Hfrd.Go.JsonParse
import Hfrd.Go.Strconv
import Hfrd.Lib.Ledger
import Mathlib.Data.String.Basic

namespace Hfrd.Chaincode

open Hfrd.Go Hfrd.Lib

/-! ## Calls of the stub -/

/-- How an invocation ends that is not endorsed. -/
inductive Failure where
  /-- `shim.Error(message)` -/
  | response (message : String)
  | panic
  deriving DecidableEq

/-- A call of the stub that the peer answers. -/
inductive Call (κ : Type) where
  | getState (key : κ)
  | putState (key : κ)
  | delState (key : κ)
  | getStateByRange (startKey endKey : String)
  | getStateByPartialCompositeKey (objectType : String) (attributes : List String)
  | getQueryResult (query : String)
  | getHistoryForKey (key : κ)
  | getTransient
  /-- The iterator comes to the entry of a key. -/
  | next (key : κ)
  /-- The iterator over a history comes to a transaction. -/
  | nextModification (txId : String)
  deriving DecidableEq

variable {κ ν α : Type}

/-- `queryresult.KeyModification`, with the text of its time. -/
structure KeyModification (ν : Type) where
  txId : String
  value : ν
  timestamp : String
  isDelete : Bool

/-- What the peer answers in one transaction, apart from the state. -/
structure Peer (κ ν : Type) where
  /-- The error a call is answered with. -/
  fault : Call κ → Option String
  /-- The entries that a rich query finds in the state database. -/
  queryResult : String → List (String × ν)
  history : κ → List (KeyModification ν)
  transient : String → Option ν

/-- The answer to a call. -/
def Peer.answer (peer : Peer κ ν) (call : Call κ) (a : α) : Except String α :=
  match peer.fault call with
  | some err => .error err
  | none => .ok a

/-- `shim.Error` -/
def shimError (message : String) : Except Failure α := .error (.response message)

/-- `return shim.Error(text(err))` where a call fails. -/
def orError (text : String → String) (x : Except String α) : Except Failure α :=
  x.mapError fun err => .response (text err)

/-- The writes of a call whose error is not looked at. -/
def accepted (x : Except String α) : List α :=
  match x with
  | .ok w => [w]
  | .error _ => []

/-- A check that is passed. -/
theorem guard_eq_ok {c : Prop} [Decidable c] {message : String} {x : Except Failure α} {a : α} :
    (if c then shimError message else x) = .ok a ↔ ¬ c ∧ x = .ok a := by
  split
  · next h => exact iff_of_false nofun fun hx => hx.1 h
  · next h => exact (and_iff_right h).symm

theorem answer_eq_ok {peer : Peer κ ν} {call : Call κ} {a b : α} :
    peer.answer call a = .ok b ↔ peer.fault call = none ∧ a = b := by
  rw [Peer.answer]
  split
  · next h => simp [h]
  · next h => simp [h]

theorem accepted_answer (peer : Peer κ ν) (call : Call κ) (a : α) :
    accepted (peer.answer call a) = if peer.fault call = none then [a] else [] := by
  rw [Peer.answer]
  split
  · next h => simp [h, accepted]
  · next h => simp [h, accepted]

theorem orError_eq_ok {text : String → String} {x : Except String α} {a : α} :
    orError text x = .ok a ↔ x = .ok a := by
  cases x <;> simp [orError, Except.mapError]

/-! ## The state -/

/-- The payload of `shim.Success`, and the writes. -/
abbrev Endorsement (κ ν : Type) := Option ν × List (Write κ ν)

/-- The stub of a transaction: the peer, and the state that is read. -/
structure Stub (κ ν : Type) [LinearOrder κ] extends Peer κ ν where
  state : Ledger κ ν

namespace Stub

variable [LinearOrder κ] (stub : Stub κ ν)

/-- `GetState`: nothing is read under a key that is not there. -/
def getState (key : κ) : Except String (Option ν) :=
  stub.answer (.getState key) (stub.state.get key)

/-- `PutState` of a value that is not empty, as the values of the samples are that
    write their entries as JSON.  The put of an empty one is a delete. -/
def putState (key : κ) (value : ν) : Except String (Write κ ν) :=
  stub.answer (.putState key) (key, some value)

/-- `DelState` -/
def delState (key : κ) : Except String (Write κ ν) := stub.answer (.delState key) (key, none)

end Stub

/-! ## Writing what was found -/

/-- The loop that writes the entries to a buffer; the flag is
    `bArrayMemberAlreadyWritten`. -/
def Peer.writeRecords (peer : Peer κ String) (next : String → Call κ) :
    Bool → String → List (String × String) → Except Failure String
  | _, buffer, [] => pure buffer
  | written, buffer, (key, value) :: entries => do
      orError id (peer.answer (next key) ())
      let buffer := if written then buffer ++ "," else buffer
      peer.writeRecords next true
        (buffer ++ "\x7b\"Key\":" ++ "\"" ++ key ++ "\"" ++ ", \"Record\":" ++ value ++ "\x7d")
        entries

/-- The loop over the history of a key. -/
def Peer.writeHistory (peer : Peer κ String) :
    Bool → String → List (KeyModification String) → Except Failure String
  | _, buffer, [] => pure buffer
  | written, buffer, m :: history => do
      orError id (peer.answer (.nextModification m.txId) ())
      let buffer := if written then buffer ++ "," else buffer
      let value := if m.isDelete then "null" else m.value
      peer.writeHistory true
        (buffer ++ "\x7b\"TxId\":" ++ "\"" ++ m.txId ++ "\"" ++ ", \"Value\":" ++ value ++
          ", \"Timestamp\":" ++ "\"" ++ m.timestamp ++ "\"" ++ ", \"IsDelete\":" ++ "\"" ++
          (if m.isDelete then "true" else "false") ++ "\"" ++ "\x7d") history

/-! ## Keys -/

/-- Simple and composite keys, and the keys that queries find. -/
structure KeySpace where
  createCompositeKey : String → List String → Except String String
  splitCompositeKey : String → Except String (String × List String)
  /-- The keys that `GetStateByPartialCompositeKey` finds. -/
  partialCompositeKey : String → List String → Except String (String → Bool)
  /-- The keys that `GetStateByRange` finds. -/
  range : String → String → Except String (String → Bool)
  split_create : ∀ {o as k}, createCompositeKey o as = .ok k → splitCompositeKey k = .ok (o, as)
  /-- No attribute of a composite key is a composite key. -/
  attribute_ne : ∀ {o as k a o' bs k'}, createCompositeKey o as = .ok k → a ∈ as →
    createCompositeKey o' bs = .ok k' → a ≠ k'
  partial_create : ∀ {o as p bs k}, partialCompositeKey o as = .ok p →
    createCompositeKey o bs = .ok k → (p k = true ↔ as <+: bs)
  partial_attribute : ∀ {o as p o' bs b k}, partialCompositeKey o as = .ok p →
    createCompositeKey o' bs = .ok k → b ∈ bs → p b = false
  range_create : ∀ {s e p o as k}, range s e = .ok p → createCompositeKey o as = .ok k →
    p k = false

namespace KeySpace

variable {K : KeySpace}

/-- A composite key is made from one list of attributes only. -/
theorem create_injective {o o' : String} {as bs : List String} {k : String}
    (h : K.createCompositeKey o as = .ok k) (h' : K.createCompositeKey o' bs = .ok k) :
    o = o' ∧ as = bs := by
  have hsplit := K.split_create h
  rw [K.split_create h'] at hsplit
  exact ⟨(congrArg Prod.fst (Except.ok.inj hsplit)).symm,
    (congrArg Prod.snd (Except.ok.inj hsplit)).symm⟩

end KeySpace

/-! ## Keys with a separator -/

/-- `U+0000`, which begins a composite key and ends each of its parts. -/
def separator : Char := '\x00'

/-- A part of a composite key has neither `U+0000` nor the last character. -/
def isKeyPart (s : String) : Bool :=
  s.toList.all fun c => c ≠ separator && c.toNat ≠ 0x10ffff

/-- The text of a composite key. -/
def compositeKeyText (parts : List String) : List Char :=
  separator :: parts.flatMap fun part => part.toList ++ [separator]

/-- `CreateCompositeKey` -/
def separatedKey (objectType : String) (attributes : List String) : Except String String :=
  if (objectType :: attributes).all isKeyPart then
    .ok (String.ofList (compositeKeyText (objectType :: attributes)))
  else .error "input contain unicode U+0000 or U+10FFFF"

/-- The parts between the separators. -/
def splitSeparatedKey (key : String) : Except String (String × List String) :=
  match split [separator] key.toList with
  | [] :: objectType :: attributes =>
      .ok (String.ofList objectType, attributes.dropLast.map String.ofList)
  | _ => .error "not a composite key"

/-- The keys of a query by a partial composite key. -/
def partialSeparatedKey (objectType : String) (attributes : List String) :
    Except String (String → Bool) :=
  (separatedKey objectType attributes).map fun key k => key.toList.isPrefixOf k.toList

/-- An empty key is no bound. -/
def simpleKeyRange (startKey endKey : String) : Except String (String → Bool) :=
  if startKey.toList.head? = some separator ∨ endKey.toList.head? = some separator then
    .error "first character of the key contains a null character which is not allowed"
  else .ok fun k =>
    k.toList.head? ≠ some separator && (startKey = "" || startKey ≤ k) &&
      (endKey = "" || k < endKey)

theorem separator_not_mem {s : String} (h : isKeyPart s = true) : separator ∉ s.toList := by
  intro hmem
  have hc := List.all_eq_true.mp h separator hmem
  simp at hc

theorem separatedKey_eq_ok {o : String} {as : List String} {k : String} :
    separatedKey o as = .ok k ↔
      (∀ part ∈ o :: as, isKeyPart part = true) ∧ k.toList = compositeKeyText (o :: as) := by
  rw [separatedKey, ← List.all_eq_true]
  split
  · next h =>
      rw [and_iff_right h, Except.ok.injEq, ← String.toList_inj, String.toList_ofList]
      exact eq_comm
  · next h => exact iff_of_false nofun fun hok => h hok.1

theorem split_compositeKeyText {parts : List String} (h : ∀ part ∈ parts, isKeyPart part = true) :
    split [separator] (compositeKeyText parts) = [] :: parts.map String.toList ++ [[]] := by
  have hparts := @split_flatMap Char _ separator ([] :: parts.map String.toList) ?_ []
  · simpa [compositeKeyText, List.flatMap_map] using hparts
  · intro piece hpiece
    rcases List.mem_cons.mp hpiece with rfl | hpiece
    · exact List.not_mem_nil
    · obtain ⟨part, hpart, rfl⟩ := List.mem_map.mp hpiece
      exact separator_not_mem (h part hpart)

theorem splitSeparatedKey_of_ok {o : String} {as : List String} {k : String}
    (h : separatedKey o as = .ok k) : splitSeparatedKey k = .ok (o, as) := by
  obtain ⟨hparts, hk⟩ := separatedKey_eq_ok.mp h
  rw [splitSeparatedKey, hk, split_compositeKeyText hparts]
  simp [List.map_map]

theorem head?_of_separatedKey {o : String} {as : List String} {k : String}
    (h : separatedKey o as = .ok k) : k.toList.head? = some separator := by
  rw [(separatedKey_eq_ok.mp h).2]
  rfl

/-- An attribute does not begin as a composite key does. -/
theorem head?_of_attribute {o a : String} {as : List String} {k : String}
    (h : separatedKey o as = .ok k) (ha : a ∈ as) : a.toList.head? ≠ some separator := by
  intro hhead
  have hpart := (separatedKey_eq_ok.mp h).1 a (List.mem_cons_of_mem o ha)
  exact separator_not_mem hpart (List.mem_of_mem_head? hhead)

/-- The text of some parts begins the text of others when the parts do. -/
theorem prefix_flatMap_iff {as bs : List String} (has : ∀ a ∈ as, isKeyPart a = true)
    (hbs : ∀ b ∈ bs, isKeyPart b = true) :
    (as.flatMap fun a => a.toList ++ [separator]) <+:
      (bs.flatMap fun b => b.toList ++ [separator]) ↔ as <+: bs := by
  constructor
  · induction as generalizing bs with
    | nil => exact fun _ => List.nil_prefix
    | cons a as ih =>
        rintro ⟨rest, hrest⟩
        cases bs with
        | nil => simp at hrest
        | cons b bs =>
            -- the first part ends at the first separator on both sides
            simp only [List.flatMap_cons, List.append_assoc] at hrest
            have hsplit := congrArg (split [separator]) hrest
            rw [split_piece (separator_not_mem (has a List.mem_cons_self)),
              split_piece (separator_not_mem (hbs b List.mem_cons_self))] at hsplit
            obtain ⟨hhead, -⟩ := List.cons.inj hsplit
            obtain rfl : a = b := String.toList_inj.mp hhead
            have htail := List.append_cancel_left (List.append_cancel_left hrest)
            exact List.cons_prefix_cons.mpr ⟨rfl, ih (fun a ha => has a (List.mem_cons_of_mem _ ha))
              (fun b hb => hbs b (List.mem_cons_of_mem _ hb)) ⟨rest, htail⟩⟩
  · rintro ⟨cs, rfl⟩
    exact ⟨cs.flatMap fun c => c.toList ++ [separator], by rw [List.flatMap_append]⟩

theorem partialSeparatedKey_eq_ok {o : String} {as : List String} {p : String → Bool}
    (h : partialSeparatedKey o as = .ok p) :
    (∀ part ∈ o :: as, isKeyPart part = true) ∧
      ∀ k, p k = true ↔ compositeKeyText (o :: as) <+: k.toList := by
  rw [partialSeparatedKey] at h
  cases hkey : separatedKey o as with
  | error err =>
      rw [hkey] at h
      cases h
  | ok key =>
      rw [hkey] at h
      obtain ⟨hparts, htext⟩ := separatedKey_eq_ok.mp hkey
      refine ⟨hparts, fun k => ?_⟩
      rw [← Except.ok.inj h, ← htext]
      exact List.isPrefixOf_iff_prefix

theorem partialSeparatedKey_create {o : String} {as bs : List String} {p : String → Bool}
    {k : String} (hp : partialSeparatedKey o as = .ok p) (h : separatedKey o bs = .ok k) :
    p k = true ↔ as <+: bs := by
  obtain ⟨hparts, hmatch⟩ := partialSeparatedKey_eq_ok hp
  obtain ⟨hparts', hk⟩ := separatedKey_eq_ok.mp h
  rw [hmatch, hk, compositeKeyText, compositeKeyText, List.cons_prefix_cons, and_iff_right rfl,
    prefix_flatMap_iff hparts hparts', List.cons_prefix_cons, and_iff_right rfl]

theorem partialSeparatedKey_attribute {o o' : String} {as bs : List String} {b : String}
    {p : String → Bool} {k : String} (hp : partialSeparatedKey o as = .ok p)
    (h : separatedKey o' bs = .ok k) (hb : b ∈ bs) : p b = false := by
  obtain ⟨-, hmatch⟩ := partialSeparatedKey_eq_ok hp
  refine Bool.eq_false_iff.mpr fun hfound => ?_
  obtain ⟨rest, hrest⟩ := (hmatch b).mp hfound
  exact head?_of_attribute h hb (by rw [← hrest]; rfl)

theorem simpleKeyRange_create {s e o : String} {as : List String} {p : String → Bool} {k : String}
    (hp : simpleKeyRange s e = .ok p) (h : separatedKey o as = .ok k) : p k = false := by
  rw [simpleKeyRange] at hp
  split at hp
  · cases hp
  · rw [← Except.ok.inj hp]
    simp [head?_of_separatedKey h]

theorem separatedKey_attribute_ne {o o' : String} {as bs : List String} {k a k' : String}
    (h : separatedKey o as = .ok k) (ha : a ∈ as) (h' : separatedKey o' bs = .ok k') :
    a ≠ k' := by
  rintro rfl
  exact head?_of_attribute h ha (head?_of_separatedKey h')

/-- The keys of Fabric. -/
def separatedKeys : KeySpace where
  createCompositeKey := separatedKey
  splitCompositeKey := splitSeparatedKey
  partialCompositeKey := partialSeparatedKey
  range := simpleKeyRange
  split_create := splitSeparatedKey_of_ok
  attribute_ne := separatedKey_attribute_ne
  partial_create := partialSeparatedKey_create
  partial_attribute := partialSeparatedKey_attribute
  range_create := simpleKeyRange_create

end Hfrd.Chaincode
