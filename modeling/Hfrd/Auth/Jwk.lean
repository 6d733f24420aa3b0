/-
  Hfrd.Auth.Jwk

  The keys that tokens are signed with, and the check of a signature
  (api/resource/auth/jwt/jwk/types.go).

  The loop of `VerifySig` does not stop at a key, so that the last one with the
  token's `kid` is taken, and a `kid` that is empty stands for no key.  The
  errors of decoding the modulus and the signature are dropped: what was decoded
  in front of the bad character goes into the verification.
-/

import Hfrd.Go.Base64
import Hfrd.Go.Strconv

namespace Hfrd.Auth

open Hfrd.Go

/-- The error of a key id that no key has. -/
def KID_NOT_FOUND : String := "Key not found to verify the token"
/-- The error of a key with another exponent. -/
def EXPONENT_NOT_SUPPORTED : String := "The exponent for key is not supported yet"

/-- A key, with the fields that the check reads. -/
structure IbmJWK where
  n : String
  e : String
  kid : String
deriving DecidableEq

/-- What the check is given: `base64.RawURLEncoding.DecodeString`, SHA-256 and
    `rsa.VerifyPKCS1v15` of a modulus and an exponent. -/
structure Crypto where
  decodeString : String → Decoded
  sha256 : List UInt8 → List UInt8
  verifyPKCS1v15 : (n : Nat) → (e : Int) → (hashed sig : List UInt8) → GoError

/-- `big.Int.SetBytes`. -/
def setBytes (buf : List UInt8) : Nat := buf.foldl (fun n b => n * 256 + b.toNat) 0

/-- The loop over the keys, from the zero value of a key. -/
def findKey (keys : List IbmJWK) (kid : String) : IbmJWK :=
  keys.foldl (fun jwk item => if kid = item.kid then item else jwk) ⟨"", "", ""⟩

/-- `[1,0,1]` and `[0,1,0,1]` in base64. -/
def SupportedExponent (jwk : IbmJWK) : Prop := jwk.e = "AQAB" ∨ jwk.e = "AAEAAQ"

instance (jwk : IbmJWK) : Decidable (SupportedExponent jwk) :=
  inferInstanceAs (Decidable (_ ∨ _))

/-- The two returns in front of `manager.RUnlock()`. -/
def earlyReturn (jwk : IbmJWK) : GoError :=
  if jwk.kid = "" then some KID_NOT_FOUND
  else if SupportedExponent jwk then none
  else some EXPONENT_NOT_SUPPORTED

/-- The verification of a signature that has been decoded. -/
def Crypto.verify (c : Crypto) (jwk : IbmJWK) (content : String) (sig : List UInt8) : GoError :=
  c.verifyPKCS1v15 (setBytes (c.decodeString jwk.n).bytes) 65537 (c.sha256 (bytes content)) sig

/-- `VerifySig` with the keys of the manager. -/
def verifySig (c : Crypto) (keys : List IbmJWK) (kid content signature : String) : GoError :=
  let jwk := findKey keys kid
  match earlyReturn jwk with
  | some err => some err
  | none => c.verify jwk content (c.decodeString signature).bytes

/-! ## Finding a key -/

/-- A key that is not the zero value is one of the set, with the `kid` that was
    looked up. -/
theorem findKey_mem {keys : List IbmJWK} {kid : String} (h : (findKey keys kid).kid ≠ "") :
    findKey keys kid ∈ keys ∧ (findKey keys kid).kid = kid := by
  have hfold : ∀ jwk : IbmJWK,
      keys.foldl (fun jwk item => if kid = item.kid then item else jwk) jwk = jwk ∨
      (keys.foldl (fun jwk item => if kid = item.kid then item else jwk) jwk ∈ keys ∧
        (keys.foldl (fun jwk item => if kid = item.kid then item else jwk) jwk).kid = kid) := by
    clear h
    induction keys with
    | nil => exact fun jwk => .inl rfl
    | cons item keys ih =>
        intro jwk
        rw [List.foldl_cons]
        rcases ih (if kid = item.kid then item else jwk) with heq | ⟨hmem, hkid⟩
        · rw [heq]
          by_cases hitem : kid = item.kid
          · rw [if_pos hitem]
            exact .inr ⟨List.mem_cons_self, hitem.symm⟩
          · rw [if_neg hitem]
            exact .inl rfl
        · exact .inr ⟨List.mem_cons_of_mem item hmem, hkid⟩
  refine (hfold ⟨"", "", ""⟩).resolve_left fun hzero => h ?_
  rw [findKey, hzero]

/-- Where no two keys share a `kid`, each is found under its own. -/
theorem findKey_of_mem {keys : List IbmJWK} (hnodup : (keys.map IbmJWK.kid).Nodup)
    {item : IbmJWK} (h : item ∈ keys) : findKey keys item.kid = item := by
  have hother : ∀ (keys : List IbmJWK) (jwk : IbmJWK), item.kid ∉ keys.map IbmJWK.kid →
      keys.foldl (fun jwk other => if item.kid = other.kid then other else jwk) jwk = jwk := by
    intro keys
    induction keys with
    | nil => exact fun jwk _ => rfl
    | cons other keys ih =>
        intro jwk hnot
        obtain ⟨hne, hnot⟩ := List.ne_and_not_mem_of_not_mem_cons hnot
        rw [List.foldl_cons, if_neg hne, ih jwk hnot]
  have hfold : ∀ jwk : IbmJWK,
      keys.foldl (fun jwk other => if item.kid = other.kid then other else jwk) jwk = item := by
    induction keys with
    | nil => cases h
    | cons other keys ih =>
        intro jwk
        obtain ⟨hnot, hnodup⟩ := List.nodup_cons.mp hnodup
        rw [List.foldl_cons]
        rcases List.mem_cons.mp h with rfl | h
        · -- no later key takes its place
          rw [if_pos rfl, hother keys item hnot]
        · exact ih hnodup h _
  exact hfold ⟨"", "", ""⟩

/-! ## Accepting a signature -/

theorem earlyReturn_eq_none {jwk : IbmJWK} :
    earlyReturn jwk = none ↔ jwk.kid ≠ "" ∧ SupportedExponent jwk := by
  unfold earlyReturn
  by_cases hkid : jwk.kid = ""
  · simp [hkid]
  · by_cases he : SupportedExponent jwk <;> simp [hkid, he]

theorem verifySig_eq_none {c : Crypto} {keys : List IbmJWK} {kid content signature : String} :
    verifySig c keys kid content signature = none ↔
      earlyReturn (findKey keys kid) = none ∧
      c.verify (findKey keys kid) content (c.decodeString signature).bytes = none := by
  unfold verifySig
  cases h : earlyReturn (findKey keys kid) with
  | some err => simp [h]
  | none => simp [h]

end Hfrd.Auth
