/-
  Hfrd.Auth.JwksLock

  The lock on the keys of one manager (`VerifySig` and `updateJWKS` of
  api/resource/auth/jwt/jwk/types.go), under any number of calls.

  `VerifySig` takes a read lock, finds the key and gives the lock back before
  the verification.  The returns for a `kid` that is not found and for an
  exponent that is not supported stand between the two: they keep the lock.
-/

import Hfrd.Auth.JwksRefresh
import Hfrd.Auth.JwtGate

namespace Hfrd.Auth

open Hfrd.Go Hfrd.Lib

/-! ## Calls -/

/-- Where a call of `VerifySig` is. -/
inductive CallPc
  | start (kid content signature : String)
  /-- Behind `manager.RLock()`. -/
  | locked (kid content signature : String)
  /-- The key is found and its exponent supported. -/
  | found (jwk : IbmJWK) (content signature : String)
  /-- Behind `manager.RUnlock()`. -/
  | unlocked (jwk : IbmJWK) (content signature : String)
  | returned (err : GoError)
deriving DecidableEq

/-- Between its `RLock` and its `RUnlock`. -/
def CallPc.reading : CallPc → Bool
  | .locked _ _ _ | .found _ _ _ => true
  | _ => false

/-- The call has not returned. -/
def CallPc.inProgress : CallPc → Bool
  | .returned _ => false
  | _ => true

/-- Where a call of `updateJWKS` with at least one new key is. -/
inductive UpdatePc
  | pending (keys : List IbmJWK)
  /-- Behind `manager.Lock()`. -/
  | writing (keys : List IbmJWK)
  | done
deriving DecidableEq

/-- The keys, their lock, and the calls and updates that were begun. -/
structure LockState where
  keys : List IbmJWK
  /-- The read locks that are held. -/
  readers : Nat
  /-- The write lock is held. -/
  writer : Bool
  calls : List CallPc
  updates : List UpdatePc
deriving DecidableEq

/-- A step of a call or of an update. -/
inductive LockLabel
  | call (kid content signature : String)
  | rLock (j : Nat)
  | findKey (j : Nat)
  | rUnlock (j : Nat)
  | verify (j : Nat)
  | update (d : Download)
  | lock (i : Nat)
  | unlock (i : Nat)

/-- Call `j` moves on to `pc`. -/
def LockState.move (s : LockState) (j : Nat) (pc : CallPc) : LockState :=
  { s with calls := s.calls.set j pc }

/-- A step of the manager; none where the lock does not let it happen. -/
def lockStep (c : Crypto) (s : LockState) : LockLabel → Option LockState
  | .call kid content signature =>
      some { s with calls := s.calls ++ [.start kid content signature] }
  | .rLock j => match s.calls[j]? with
    | some (.start kid content signature) =>
        if s.writer then none
        else some { s.move j (.locked kid content signature) with readers := s.readers + 1 }
    | _ => none
  | .findKey j => match s.calls[j]? with
    | some (.locked kid content signature) =>
        let jwk := findKey s.keys kid
        match earlyReturn jwk with
        -- the lock is not given back
        | some err => some (s.move j (.returned (some err)))
        | none => some (s.move j (.found jwk content signature))
    | _ => none
  | .rUnlock j => match s.calls[j]? with
    | some (.found jwk content signature) =>
        some { s.move j (.unlocked jwk content signature) with readers := s.readers - 1 }
    | _ => none
  | .verify j => match s.calls[j]? with
    | some (.unlocked jwk content signature) =>
        some (s.move j (.returned (c.verify jwk content (c.decodeString signature).bytes)))
    | _ => none
  | .update d => match d.refresh [] with
    -- no key, no lock
    | [] => some s
    | key :: keys => some { s with updates := s.updates ++ [.pending (key :: keys)] }
  | .lock i => match s.updates[i]? with
    | some (.pending keys) =>
        if s.readers = 0 ∧ s.writer = false then
          some { s with writer := true, updates := s.updates.set i (.writing keys) }
        else none
    | _ => none
  | .unlock i => match s.updates[i]? with
    | some (.writing keys) =>
        some { s with keys := keys, writer := false, updates := s.updates.set i .done }
    | _ => none

/-- The manager of the keys, step after step. -/
def lockSystem (c : Crypto) : Lts LockState LockLabel where
  step := lockStep c

/-- Nobody holds the lock, and nothing was called. -/
def LockState.initial (keys : List IbmJWK) : LockState where
  keys := keys
  readers := 0
  writer := false
  calls := []
  updates := []

/-! ## The read locks -/

/-- The read locks are those of the calls that are reading, and without calls
    in progress a pending update can take the write lock as soon as no other
    update has it. -/
structure Released (c : Crypto) (s : LockState) : Prop where
  readers : s.readers = s.calls.countP CallPc.reading
  quiet : (∀ call ∈ s.calls, call.inProgress = false) →
    s.readers = 0 ∧ ∀ (i : Nat) keys, s.updates[i]? = some (.pending keys) → s.writer = false →
      ((lockSystem c).step s (.lock i)).isSome = true

/-- A call finds a key with its `kid`, which is not empty, and a supported
    exponent. -/
def findsKey (s : LockState) : LockLabel → Prop
  | .findKey j => ∀ kid content signature, s.calls[j]? = some (.locked kid content signature) →
      (findKey s.keys kid).kid ≠ "" ∧ SupportedExponent (findKey s.keys kid)
  | _ => True

/-- The count alone says that every lock was given back. -/
theorem released_iff (c : Crypto) (s : LockState) :
    Released c s ↔ s.readers = s.calls.countP CallPc.reading := by
  refine ⟨Released.readers, fun hreaders => ⟨hreaders, fun hquiet => ?_⟩⟩
  have hzero : s.readers = 0 := by
    rw [hreaders, List.countP_eq_zero]
    intro call hcall
    have hdone := hquiet call hcall
    cases call with
    | returned err => exact Bool.false_ne_true
    | _ => cases hdone
  refine ⟨hzero, fun i keys hi hwriter => ?_⟩
  simp only [lockSystem, lockStep, hi, hzero, hwriter, and_self, if_true]
  rfl

/-- How the count of the reading calls changes when one of them moves on. -/
theorem reading_move (s : LockState) {j : Nat} {a : CallPc} (pc : CallPc)
    (hj : s.calls[j]? = some a) :
    (s.move j pc).calls.countP CallPc.reading + a.reading.toNat
      = s.calls.countP CallPc.reading + pc.reading.toNat :=
  countP_set_add hj

/-- The count after a call has moved on: it was counted before if it was reading. -/
theorem readers_move {s : LockState} (hs : s.readers = s.calls.countP CallPc.reading) {j : Nat}
    {a : CallPc} (hj : s.calls[j]? = some a) (pc : CallPc) :
    s.readers + pc.reading.toNat - a.reading.toNat
      = (s.move j pc).calls.countP CallPc.reading := by
  have hmove := reading_move s pc hj
  omega

/-- The search keeps the count unless it returns, with the lock. -/
theorem findKey_step_iff (c : Crypto) (s : LockState) (j : Nat) (t : LockState)
    (hs : s.readers = s.calls.countP CallPc.reading)
    (h : (lockSystem c).step s (.findKey j) = some t) :
    t.readers = t.calls.countP CallPc.reading ↔ findsKey s (.findKey j) := by
  simp only [lockSystem, lockStep] at h
  split at h
  case h_1 kid content signature hj =>
      cases hearly : earlyReturn (findKey s.keys kid) with
      | some err =>
          simp only [hearly] at h
          obtain rfl := Option.some.inj h
          -- the call is gone and its lock is still counted
          have hmove := reading_move s (.returned (some err)) hj
          simp only [CallPc.reading, Bool.toNat_true, Bool.toNat_false] at hmove
          constructor
          · intro hreaders
            have hcount : s.readers
                = (s.move j (.returned (some err))).calls.countP CallPc.reading := hreaders
            omega
          · intro hfinds
            rw [earlyReturn_eq_none.mpr (hfinds kid content signature hj)] at hearly
            cases hearly
      | none =>
          simp only [hearly] at h
          obtain rfl := Option.some.inj h
          refine iff_of_true
            (readers_move hs hj (.found (findKey s.keys kid) content signature)) ?_
          intro kid' content' signature' hj'
          rw [hj] at hj'
          cases hj'
          exact earlyReturn_eq_none.mp hearly
  case h_2 => cases h

/-- One step keeps the count exactly when it is no return with the lock. -/
theorem readers_step_iff (c : Crypto) (s : LockState) (l : LockLabel) (t : LockState)
    (hs : s.readers = s.calls.countP CallPc.reading) (h : (lockSystem c).step s l = some t) :
    t.readers = t.calls.countP CallPc.reading ↔ findsKey s l := by
  cases l with
  | call kid content signature =>
      obtain rfl := Option.some.inj h
      refine iff_of_true ?_ trivial
      rw [countP_snoc]
      exact hs
  | rLock j =>
      simp only [lockSystem, lockStep] at h
      split at h
      case h_1 kid content signature hj =>
          split at h
          · cases h
          · obtain rfl := Option.some.inj h
            exact iff_of_true (readers_move hs hj (.locked kid content signature)) trivial
      case h_2 => cases h
  -- the only step that can leave the lock taken
  | findKey j => exact findKey_step_iff c s j t hs h
  | rUnlock j =>
      simp only [lockSystem, lockStep] at h
      split at h
      case h_1 jwk content signature hj =>
          obtain rfl := Option.some.inj h
          exact iff_of_true (readers_move hs hj (.unlocked jwk content signature)) trivial
      case h_2 => cases h
  | verify j =>
      simp only [lockSystem, lockStep] at h
      split at h
      case h_1 jwk content signature hj =>
          obtain rfl := Option.some.inj h
          exact iff_of_true (readers_move hs hj
            (.returned (c.verify jwk content (c.decodeString signature).bytes))) trivial
      case h_2 => cases h
  -- a download does not touch the calls
  | update d =>
      simp only [lockSystem, lockStep] at h
      split at h
      · obtain rfl := Option.some.inj h
        exact iff_of_true hs trivial
      · obtain rfl := Option.some.inj h
        exact iff_of_true hs trivial
  | lock i =>
      simp only [lockSystem, lockStep] at h
      split at h
      · split at h
        · obtain rfl := Option.some.inj h
          exact iff_of_true hs trivial
        · cases h
      · cases h
  | unlock i =>
      simp only [lockSystem, lockStep] at h
      split at h
      · obtain rfl := Option.some.inj h
        exact iff_of_true hs trivial
      · cases h

/-- **When the key lock is always released.**  For any number of calls and
    updates and every interleaving, every lock is given back in every state of a
    run, if and only if every call of the run finds a key with its `kid` and a
    supported exponent. -/
theorem lock_released_iff (c : Crypto) (keys : List IbmJWK) (ls : List LockLabel) :
    (lockSystem c).Along (fun _ _ t => Released c t) (.initial keys) ls ↔
      (lockSystem c).Along (fun s l _ => findsKey s l) (.initial keys) ls := by
  simp only [released_iff]
  have hinitial : (LockState.initial keys).readers
      = (LockState.initial keys).calls.countP CallPc.reading := rfl
  exact Lts.along_iff_of_step (readers_step_iff c) hinitial ls

/-- A call with a `kid` that is in no key, and an update. -/
def unknownKid : List LockLabel :=
  [.call "k2" "h.p" "s", .rLock 0, .findKey 0, .update (.answered [⟨"Ag", "AQAB", "k2"⟩])]

/-- What it leaves. -/
def leakedState : LockState where
  keys := [⟨"AQ", "AQAB", "k1"⟩]
  readers := 1
  writer := false
  calls := [.returned (some KID_NOT_FOUND)]
  updates := [.pending [⟨"Ag", "AQAB", "k2"⟩]]

/-- The call has returned and its lock is still held: the update waits for
    ever. -/
theorem read_lock_leaked :
    (lockSystem oneToken.toCrypto).exec (.initial [⟨"AQ", "AQAB", "k1"⟩]) unknownKid
      = some leakedState ∧
      (lockSystem oneToken.toCrypto).step leakedState (.lock 0) = none ∧
      ¬ (lockSystem oneToken.toCrypto).Along (fun _ _ t => Released oneToken.toCrypto t)
        (.initial [⟨"AQ", "AQAB", "k1"⟩]) unknownKid := by
  refine ⟨by decide, by decide, fun h => ?_⟩
  obtain ⟨-, -, hfind, -⟩ := h
  have hreaders : (1 : Nat) = 0 := hfind.readers
  omega

end Hfrd.Auth
