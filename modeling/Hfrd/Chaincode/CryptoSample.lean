/-
  Hfrd.Chaincode.CryptoSample

  The sample chaincode (chaincode/samplecc/chaincode_sample.go).

  A value is encrypted under a new key, decrypted again, and stored in the
  clear.  AES is a parameter: the value comes back whatever the block cipher is,
  so that the chaincode is a store of its values.  The empty value is not
  stored: the peer takes the put of it for a delete.
-/

import Hfrd.Chaincode.Shim
import Hfrd.Lib.Cfb
import Mathlib.Logic.Function.Basic

namespace Hfrd.Chaincode

open Hfrd.Go Hfrd.Lib

namespace CryptoSample

/-! ## Functions -/

/-- AES: the key, and the block that is encrypted. -/
abbrev Aes := List UInt8 → List UInt8 → Vector UInt8 16

/-- The stub, and the random reader of `crypto/rand`. -/
structure CryptoStub extends Stub String (List UInt8) where
  /-- What the random reader gives at a draw; none if it fails. -/
  random : (draw len : Nat) → Option (Vector UInt8 len)

/-- The length of the keys that are drawn. -/
def aesKeyLength : Nat := 32

variable (aes : Aes) (stub : CryptoStub)

/-- `PutState` of any bytes.  An empty value comes to the peer as none, which is
    a delete. -/
def CryptoStub.putState (key : String) (value : List UInt8) :
    Except String (Write String (List UInt8)) :=
  stub.answer (.putState key) (key, if value = [] then none else some value)

/-- `GetRandomBytes` -/
def getRandomBytes (len : Nat) : Option (List UInt8) := (stub.random 0 len).map Vector.toList

/-- `GenAESKey` -/
def genAESKey : Option (List UInt8) := getRandomBytes stub aesKeyLength

/-- The stream of a key.  Encrypting and decrypting both use the block cipher in
    the one direction. -/
def cfb (key : List UInt8) : Cfb UInt8 where
  size := 16
  size_pos := by decide
  block := fun register => (aes key register).toList
  length_block := fun _ => Vector.length_toList
  mask := (· ^^^ ·)
  mask_mask := fun a b => by rw [UInt8.xor_assoc, UInt8.xor_self, UInt8.xor_zero]

/-- `aes.NewCipher` -/
def newCipher (key : List UInt8) : Option (Cfb UInt8) :=
  if key.length = 16 ∨ key.length = 24 ∨ key.length = 32 then some (cfb aes key) else none

/-- `Encrypt`: the initialization vector, then the encrypted bytes. -/
def encrypt (key byteArray : List UInt8) : Except Failure (List UInt8) :=
  match newCipher aes key with
  | none => .error .panic
  | some stream => match stub.random 1 16 with
    | none => .error .panic
    | some iv => .ok (iv.toList ++ stream.encrypt iv.toList byteArray)

/-- `Decrypt`, of what `encrypt` gives. -/
def decrypt (key ciphertext : List UInt8) : Except Failure (List UInt8) :=
  match newCipher aes key with
  | none => .error .panic
  | some stream =>
      if ciphertext.length < 16 then .error .panic
      else .ok (stream.decrypt (ciphertext.take 16) (ciphertext.drop 16))

/-- `encryptAndDecrypt` -/
def encryptAndDecrypt (arg : String) : Except Failure (List UInt8) := do
  -- the error of the key is not looked at: the key is nil then
  let key := (genAESKey stub).getD []
  let encrypted ← encrypt aes stub key (bytes arg)
  decrypt aes key encrypted

/-- `writeTransaction`: the put of what was encrypted and decrypted again. -/
def writeTransaction (key value : String) : Except Failure (Endorsement String (List UInt8)) := do
  let cryptoArg ← encryptAndDecrypt aes stub value
  let saved ← orError id (stub.putState key cryptoArg)
  pure (some (bytes "OK"), [saved])

/-- `readTransaction` -/
def readTransaction (key : String) : Except Failure (Endorsement String (List UInt8)) := do
  let val ← orError id (stub.getState key)
  pure (val, [])

/-- The text of an error about the number of arguments. -/
def argsText (text : String) (args : List String) : String :=
  text ++ itoa (Int64.ofNat args.length)

/-- `Invoke` -/
def invoke (function : String) (args : List String) :
    Except Failure (Endorsement String (List UInt8)) :=
  if function ≠ "invoke" then shimError "Unknown function call"
  else match args with
    | method :: key :: rest =>
        if method = "put" then
          match rest with
          | value :: _ => writeTransaction aes stub key value
          | [] => shimError (argsText "invalid number of args for put " args)
        else if method = "get" then readTransaction stub key
        else shimError ("unknown function " ++ method)
    | _ => shimError (argsText "invalid number of args " args)

/-! ## What is endorsed -/

/-- What a put of a value leaves under its key. -/
def stored (value : String) : Option String := if value = "" then none else some value

variable {aes : Aes} {stub : CryptoStub}

/-- Both draws of a transaction give bytes. -/
def Drawn (stub : CryptoStub) : Prop :=
  (stub.random 0 aesKeyLength).isSome ∧ (stub.random 1 16).isSome

instance (stub : CryptoStub) : Decidable (Drawn stub) := inferInstanceAs (Decidable (_ ∧ _))

theorem stored_map_bytes (value : String) :
    (stored value).map bytes = if bytes value = [] then none else some (bytes value) := by
  rw [stored]
  by_cases h : value = ""
  · rw [if_pos h, if_pos (bytes_eq_nil.mpr h), Option.map_none]
  · rw [if_neg h, if_neg (bytes_eq_nil.not.mpr h), Option.map_some]

theorem encrypt_eq_ok {key text : List UInt8} {out : List UInt8} :
    encrypt aes stub key text = .ok out ↔ ∃ (stream : Cfb UInt8) (iv : Vector UInt8 16),
      newCipher aes key = some stream ∧ stub.random 1 16 = some iv ∧
      out = iv.toList ++ stream.encrypt iv.toList text := by
  rw [encrypt]
  cases newCipher aes key with
  | none => simp
  | some stream =>
      cases stub.random 1 16 with
      | none => simp
      | some iv => simp [eq_comm]

/-- What was encrypted under a key is decrypted under it. -/
theorem decrypt_encrypted {key text : List UInt8} {stream : Cfb UInt8} (iv : Vector UInt8 16)
    (h : newCipher aes key = some stream) :
    decrypt aes key (iv.toList ++ stream.encrypt iv.toList text) = .ok text := by
  have hlen : iv.toList.length = 16 := Vector.length_toList
  have hlong : ¬ (iv.toList ++ stream.encrypt iv.toList text).length < 16 := by
    rw [List.length_append, hlen]
    omega
  rw [decrypt, h]
  simp only [if_neg hlong, List.take_left' hlen, List.drop_left' hlen, stream.decrypt_encrypt]

/-- A key of the right length, or none. -/
theorem newCipher_key : (newCipher aes ((genAESKey stub).getD [])).isSome =
    (stub.random 0 aesKeyLength).isSome := by
  rw [genAESKey, getRandomBytes]
  cases stub.random 0 aesKeyLength with
  | none => rfl
  | some key =>
      have hlen : key.toList.length = 32 := Vector.length_toList
      rw [Option.map_some, Option.getD_some, newCipher, if_pos (Or.inr (Or.inr hlen))]
      rfl

/-- **The value comes back** where there are random bytes. -/
theorem encryptAndDecrypt_eq_ok {arg : String} {value : List UInt8} :
    encryptAndDecrypt aes stub arg = .ok value ↔ Drawn stub ∧ value = bytes arg := by
  simp only [encryptAndDecrypt, Go.bind_eq_ok, encrypt_eq_ok, Drawn]
  rw [← @newCipher_key aes stub]
  constructor
  · rintro ⟨_, ⟨stream, iv, hstream, hiv, rfl⟩, hvalue⟩
    rw [decrypt_encrypted iv hstream] at hvalue
    exact ⟨⟨by rw [hstream]; rfl, by rw [hiv]; rfl⟩, (Except.ok.inj hvalue).symm⟩
  · rintro ⟨⟨hkey, hdraw⟩, rfl⟩
    obtain ⟨stream, hstream⟩ := Option.isSome_iff_exists.mp hkey
    obtain ⟨iv, hiv⟩ := Option.isSome_iff_exists.mp hdraw
    exact ⟨_, ⟨stream, iv, hstream, hiv, rfl⟩, decrypt_encrypted iv hstream⟩

theorem writeTransaction_eq_ok {key value : String} {out : Endorsement String (List UInt8)} :
    writeTransaction aes stub key value = .ok out ↔
      Drawn stub ∧ stub.fault (.putState key) = none ∧
        out = (some (bytes "OK"), [(key, (stored value).map bytes)]) := by
  simp only [writeTransaction, Go.bind_eq_ok, encryptAndDecrypt_eq_ok, orError_eq_ok,
    CryptoStub.putState, answer_eq_ok, stored_map_bytes]
  constructor
  · rintro ⟨_, ⟨hdrawn, rfl⟩, _, ⟨hput, rfl⟩, hout⟩
    exact ⟨hdrawn, hput, (Except.ok.inj hout).symm⟩
  · rintro ⟨hdrawn, hput, rfl⟩
    exact ⟨_, ⟨hdrawn, rfl⟩, _, ⟨hput, rfl⟩, rfl⟩

theorem readTransaction_eq_ok {key : String} {out : Endorsement String (List UInt8)} :
    readTransaction stub key = .ok out ↔
      stub.fault (.getState key) = none ∧ out = (stub.state.get key, []) := by
  simp only [readTransaction, Go.bind_eq_ok, orError_eq_ok, Stub.getState, answer_eq_ok]
  constructor
  · rintro ⟨_, ⟨hget, rfl⟩, hout⟩
    exact ⟨hget, (Except.ok.inj hout).symm⟩
  · rintro ⟨hget, rfl⟩
    exact ⟨_, ⟨hget, rfl⟩, rfl⟩

/-! ## Runs -/

/-- An invocation, what the peer answers in it, and the random bytes. -/
structure Transaction where
  function : String
  args : List String
  peer : Peer String (List UInt8)
  random : (draw len : Nat) → Option (Vector UInt8 len)

/-- The invocation on a state. -/
def simulate (aes : Aes) (s : Ledger String (List UInt8)) (tx : Transaction) :
    Except Failure (Endorsement String (List UInt8)) :=
  invoke aes ⟨⟨tx.peer, s⟩, tx.random⟩ tx.function tx.args

/-- The ledger, transaction after transaction. -/
def system (aes : Aes) : Lts (Ledger String (List UInt8)) Transaction := Ledger.lts (simulate aes)

/-- The transaction puts a value that is saved. -/
def put (tx : Transaction) : Option (String × String) :=
  match tx.args with
  | method :: key :: value :: _ =>
      if tx.function = "invoke" ∧ method = "put" ∧ tx.peer.fault (.putState key) = none ∧
        (tx.random 0 aesKeyLength).isSome ∧ (tx.random 1 16).isSome then some (key, value)
      else none
  | _ => none

/-- A store of values by key. -/
abbrev Store := String → Option String

/-- The store after a transaction. -/
def Store.next (store : Store) (tx : Transaction) : Store :=
  match put tx with
  | some (key, value) => Function.update store key (stored value)
  | none => store

theorem simulate_of_put {s : Ledger String (List UInt8)} {tx : Transaction} {key value : String}
    (h : put tx = some (key, value)) :
    simulate aes s tx = .ok (some (bytes "OK"), [(key, (stored value).map bytes)]) := by
  unfold put at h
  split at h
  · next method key' value' rest hargs =>
      split at h
      · next hput =>
          obtain ⟨hf, rfl, hfault, hdrawn⟩ := hput
          obtain ⟨rfl, rfl⟩ := Prod.mk.inj (Option.some.inj h)
          rw [simulate, hargs, invoke, if_neg (not_not_intro hf)]
          simp only [if_true]
          exact writeTransaction_eq_ok.mpr ⟨hdrawn, hfault, rfl⟩
      · cases h
  · cases h

theorem writes_of_not_put {s : Ledger String (List UInt8)} {tx : Transaction}
    {out : Endorsement String (List UInt8)} (hput : put tx = none)
    (h : simulate aes s tx = .ok out) : out.2 = [] := by
  unfold simulate invoke at h
  rw [guard_eq_ok] at h
  obtain ⟨hf, h⟩ := h
  split at h
  · next method key rest hargs =>
      split at h
      · next hmethod =>
          split at h
          · next value rest' =>
              -- it was endorsed, so it would be a put
              obtain ⟨hdrawn, hfault, -⟩ := writeTransaction_eq_ok.mp h
              have hall : tx.function = "invoke" ∧ method = "put" ∧
                  tx.peer.fault (.putState key) = none ∧ (tx.random 0 aesKeyLength).isSome ∧
                  (tx.random 1 16).isSome := ⟨not_not.mp hf, hmethod, hfault, hdrawn⟩
              have hsaved : put tx = some (key, value) := by
                rw [put, hargs]
                exact if_pos hall
              rw [hput] at hsaved
              cases hsaved
          · cases h
      · split at h
        · rw [(readTransaction_eq_ok.mp h).2]
        · cases h
  · cases h

theorem eq_of_get {s : Ledger String (List UInt8)} {tx : Transaction} {key : String}
    {rest : List String} (hargs : tx.args = "get" :: key :: rest)
    {out : Endorsement String (List UInt8)} (h : simulate aes s tx = .ok out) :
    out = (s.get key, []) := by
  unfold simulate invoke at h
  rw [guard_eq_ok, hargs] at h
  obtain ⟨-, hread⟩ := h
  simp only [if_neg (by decide : ¬ "get" = "put"), if_true] at hread
  exact (readTransaction_eq_ok.mp hread).2

/-- The ledger holds the values of the store. -/
theorem get_commit {s : Ledger String (List UInt8)} {store : Store}
    (hs : ∀ key, s.get key = (store key).map bytes) (tx : Transaction) (key : String) :
    (s.commit (simulate aes s tx)).get key = (store.next tx key).map bytes := by
  rw [Store.next]
  cases hput : put tx with
  | some p =>
      obtain ⟨key', value⟩ := p
      rw [simulate_of_put hput, Ledger.commit, Ledger.apply_cons, Ledger.apply_nil,
        Ledger.get_write]
      by_cases hkey : key = key'
      · subst hkey
        simp
      · simp [hkey, hs]
  | none =>
      cases hsim : simulate aes s tx with
      | ok out =>
          obtain ⟨payload, writes⟩ := out
          have hwrites := writes_of_not_put hput hsim
          simp only at hwrites
          rw [hwrites]
          exact hs key
      | error e => exact hs key

/-- **The chaincode is a store**: after any transactions the ledger holds the
    values put last, as they were given, and a `get` returns them.  Where the
    value put last is empty, nothing is held. -/
theorem store_of_exec {txs : List Transaction} {s : Ledger String (List UInt8)}
    (h : (system aes).exec (Ledger.empty String (List UInt8)) txs = some s) :
    (∀ key, s.get key = (txs.foldl Store.next (fun _ => none) key).map bytes) ∧
      ∀ tx key rest, tx.args = "get" :: key :: rest → ∀ out, simulate aes s tx = .ok out →
        out = ((txs.foldl Store.next (fun _ => none) key).map bytes, []) := by
  have hstore : ∀ (txs : List Transaction) (s : Ledger String (List UInt8)) (store : Store),
      (∀ key, s.get key = (store key).map bytes) →
      ∀ key, (Ledger.after (simulate aes) s txs).get key =
        (txs.foldl Store.next store key).map bytes := by
    intro txs
    induction txs with
    | nil => exact fun s store hs => hs
    | cons tx txs ih => exact fun s store hs => ih _ _ (get_commit hs tx)
  obtain rfl : Ledger.after (simulate aes) (Ledger.empty String (List UInt8)) txs = s :=
    Option.some.inj ((Ledger.exec_lts _ _).symm.trans h)
  have hget := hstore txs (Ledger.empty String (List UInt8)) (fun _ => none) fun _ => rfl
  refine ⟨hget, fun tx key rest hargs out hout => ?_⟩
  rw [eq_of_get hargs hout, hget]

/-- A transaction that no call disturbs, with zeros for random bytes. -/
def quiet (args : List String) : Transaction where
  function := "invoke"
  args := args
  peer := ⟨fun _ => none, fun _ => [], fun _ => [], fun _ => none⟩
  random := fun _ len => some (Vector.replicate len 0)

/-- A block cipher that gives back the key. -/
def keyBlock : Aes := fun key _ => Vector.ofFn fun i => key.getD i 0

theorem store_after_put : ∃ s, (system keyBlock).exec (Ledger.empty String (List UInt8))
      [quiet ["put", "a", "100"], quiet ["put", "b", "1"], quiet ["put", "a", "7"],
        quiet ["put", "b", ""]] = some s ∧
    s.get "a" = some (bytes "7") ∧ s.get "b" = none :=
  ⟨_, Ledger.exec_lts _ _, (store_of_exec (Ledger.exec_lts _ _)).1 "a",
    (store_of_exec (Ledger.exec_lts _ _)).1 "b"⟩

end CryptoSample

end Hfrd.Chaincode
