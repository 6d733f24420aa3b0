/-
  Hfrd.Auth.JwtGate

  What the gate of the API lets through (api/resource/auth/jwt/jwt.go, with
  the signature check of jwk/types.go).

  A request that passes on carries a token that was verified under a key of
  the set.  The other way round, the exponent of the key has to be one of two
  texts: `VerifySig` compares texts, not numbers.

  A signature part that does not decode reaches the verification as the whole
  groups in front of the bad character.  Any bytes in groups of three can be
  had in this way, so that the gate refuses every malformed signature exactly
  where no signature of such a length verifies.
-/

import Hfrd.Auth.Jwt

namespace Hfrd.Auth

open Hfrd.Go

/-! ## What is admitted -/

/-- A bearer token that decodes, holds at `now`, and verifies under a key of
    the set with the token's `kid` and an exponent as described. -/
def Verified (exponentOk : IbmJWK → Prop) (g : Given) (now : Int64) (keys : List IbmJWK)
    (authorization : String) : Prop :=
  ∃ token h p s header payload, trimSpace authorization = "Bearer " ++ token ∧
    TokenParts token h p s ∧ Checked g now h p header payload ∧
    ∃ item ∈ keys, exponentOk item ∧ item.kid ≠ "" ∧ item.kid = header.kid ∧
      g.verifyPKCS1v15 (setBytes (g.decodeString item.n).bytes) 65537
        (g.sha256 (bytes (h ++ "." ++ p))) (g.decodeString s).bytes = none

/-- The exponent of the key is a base64 text of 65537. -/
def Encodes65537 (jwk : IbmJWK) : Prop :=
  (RawURLEncoding.decodeString jwk.e).corrupt = false ∧
    setBytes (RawURLEncoding.decodeString jwk.e).bytes = 65537

/-- The two texts that are compared with stand for 65537. -/
theorem SupportedExponent.encodes {jwk : IbmJWK} (h : SupportedExponent jwk) :
    Encodes65537 jwk := by
  unfold Encodes65537
  rcases h with h | h
  · rw [h]
    decide
  · rw [h]
    decide

theorem verified_of_next {g : Given} {now : Int64} {keys : List IbmJWK} {authorization : String}
    (hnext : handler g now keys authorization = .next) :
    Verified SupportedExponent g now keys authorization := by
  obtain ⟨token, h, p, s, header, payload, htrim, hparts, hchecked, hsig⟩ :=
    handler_eq_next.mp hnext
  obtain ⟨hearly, hverify⟩ := verifySig_eq_none.mp hsig
  obtain ⟨hkid, hexponent⟩ := earlyReturn_eq_none.mp hearly
  obtain ⟨hmem, hfound⟩ := findKey_mem hkid
  exact ⟨token, h, p, s, header, payload, htrim, hparts, hchecked, _, hmem, hexponent, hkid,
    hfound, hverify⟩

/-- **The gate admits exactly the verified tokens.**  A request that passes on
    is verified under a key with a supported exponent; where no two keys
    share a `kid`, every such request passes on. -/
theorem handler_admits (g : Given) (now : Int64) (keys : List IbmJWK) (authorization : String) :
    (handler g now keys authorization = .next →
      Verified SupportedExponent g now keys authorization) ∧
    ((keys.map IbmJWK.kid).Nodup → Verified SupportedExponent g now keys authorization →
      handler g now keys authorization = .next) := by
  constructor
  · exact verified_of_next
  · rintro hnodup ⟨token, h, p, s, header, payload, htrim, hparts, hchecked, item, hmem,
      hexponent, hkid, hfound, hverify⟩
    have hitem : findKey keys header.kid = item := by
      rw [← hfound]
      exact findKey_of_mem hnodup hmem
    refine handler_eq_next.mpr ⟨token, h, p, s, header, payload, htrim, hparts, hchecked,
      verifySig_eq_none.mpr ⟨?_, ?_⟩⟩
    · rw [hitem]
      exact earlyReturn_eq_none.mpr ⟨hkid, hexponent⟩
    · rw [hitem]
      exact hverify

/-! ## Parts without separators -/

/-- Neither a space nor a dot. -/
def NoSeparator (part : String) : Prop := ' ' ∉ part.toList ∧ '.' ∉ part.toList

/-- A part that decodes holds no separator. -/
theorem noSeparator_of_decodes {part : String}
    (h : (RawURLEncoding.decodeString part).corrupt = false) : NoSeparator part := by
  have hchar := char_of_decode rfl h
  constructor
  · exact fun hmem => absurd (hchar ' ' hmem) (by decide)
  · exact fun hmem => absurd (hchar '.' hmem) (by decide)

theorem tokenParts_of_noSeparator {h p s : String} (hh : NoSeparator h) (hp : NoSeparator p)
    (hs : NoSeparator s) : TokenParts (h ++ "." ++ p ++ "." ++ s) h p s := by
  have hdot : ' ' ∉ ".".toList := by decide
  refine ⟨rfl, ?_, hh.2, hp.2, hs.2⟩
  simp only [String.toList_append, List.mem_append, not_or]
  exact ⟨⟨⟨⟨hh.1, hdot⟩, hp.1⟩, hdot⟩, hs.1⟩

/-- The header `Authorization` with a token. -/
def bearer (h p s : String) : String := "Bearer " ++ (h ++ "." ++ p ++ "." ++ s)

theorem trimSpace_bearer {h p s : String} {last : Char} (hlast : s.toList.getLast? = some last)
    (hspace : isUnicodeSpace last = false) : trimSpace (bearer h p s) = bearer h p s := by
  have hne : s.toList ≠ [] := by
    intro hnil
    rw [hnil] at hlast
    cases hlast
  refine @trimSpace_eq _ 'B' last ?_ ?_ rfl hspace
  · rw [bearer, String.toList_append]
    rfl
  · rw [bearer, ← String.append_assoc, String.toList_append,
      List.getLast?_append_of_ne_nil _ hne, hlast]

/-! ## A token and its key -/

/-- The header with alg RS256 and kid k1. -/
def headerPart : String := "eyJhbGciOiJSUzI1NiIsImtpZCI6ImsxIn0"

/-- The payload with iat 100 and exp 200. -/
def payloadPart : String :=
  "eyJpc3MiOiJodHRwczovL2lhbS5uZy5ibHVlbWl4Lm5ldC9vaWRjL3Rva2VuIiwiaWF0IjoxMDAsImV4cCI6MjAwfQ"

/-- A header with a key id. -/
def headerJson : String := "\x7b\"alg\":\"RS256\",\"kid\":\"k1\"\x7d"

/-- A payload with its times. -/
def payloadJson : String :=
  "\x7b\"iss\":\"https://iam.ng.bluemix.net/oidc/token\",\"iat\":100,\"exp\":200\x7d"

/-- A modulus of 63 bytes. -/
def modulus : String :=
  "obxYbjmETQHomwZGuBnTsWi7HTHlT0JIKs6WWpjtYLAeHDhFoh0-D3nlkfFKaL3rvL7kv0kDwMdDGGgdMH5f"

/-- The RS256 signature of the two parts under the modulus. -/
def signaturePart : String :=
  "RLEN7MdVNJSL7wL0QR0BaCW_o5lSqmset_tq08gMUvIpep-mBTupmytN9Ir5rA0ggF4a2QiStTQE9sK7Zeym"

/-- The SHA-256 of the two parts. -/
def digest : List UInt8 :=
  [181, 187, 20, 58, 123, 18, 130, 167, 136, 52, 82, 217, 158, 77, 206, 252, 236, 108, 186, 99,
    150, 1, 63, 224, 101, 9, 139, 32, 116, 5, 13, 107]

/-- The functions on this token; they fail on anything else. -/
def oneToken : Given where
  decodeString := RawURLEncoding.decodeString
  sha256 data := if data = bytes (headerPart ++ "." ++ payloadPart) then digest else []
  verifyPKCS1v15 n e hashed sig :=
    if n = setBytes (RawURLEncoding.decodeString modulus).bytes ∧ e = 65537 ∧ hashed = digest ∧
        sig = (RawURLEncoding.decodeString signaturePart).bytes then none
    else some "crypto/rsa: verification error"
  unmarshalHeader data := if data = bytes headerJson then some ⟨"k1", "RS256"⟩ else none
  unmarshalPayload data := if data = bytes payloadJson then some ⟨100, 200, ISSUER⟩ else none

theorem decodeString_headerPart :
    RawURLEncoding.decodeString headerPart = ⟨bytes headerJson, false⟩ := by
  decide +kernel

theorem decodeString_payloadPart :
    RawURLEncoding.decodeString payloadPart = ⟨bytes payloadJson, false⟩ := by
  decide +kernel

theorem checked_oneToken :
    Checked oneToken 150 headerPart payloadPart ⟨"k1", "RS256"⟩ ⟨100, 200, ISSUER⟩ where
  headerDecodes := by
    show (RawURLEncoding.decodeString headerPart).corrupt = false
    rw [decodeString_headerPart]
  payloadDecodes := by
    show (RawURLEncoding.decodeString payloadPart).corrupt = false
    rw [decodeString_payloadPart]
  unmarshalHeader := by
    show oneToken.unmarshalHeader (RawURLEncoding.decodeString headerPart).bytes = _
    rw [decodeString_headerPart]
    show (if bytes headerJson = bytes headerJson then
      some (⟨"k1", "RS256"⟩ : IbmHeader) else none) = _
    rw [if_pos rfl]
  unmarshalPayload := by
    show oneToken.unmarshalPayload (RawURLEncoding.decodeString payloadPart).bytes = _
    rw [decodeString_payloadPart]
    show (if bytes payloadJson = bytes payloadJson then
      some (⟨100, 200, ISSUER⟩ : IbmPayload) else none) = _
    rw [if_pos rfl]
  issuer := rfl
  alg := rfl
  notExpired := by decide
  issued := by decide

/-- The signature verifies under the modulus, however the exponent is written. -/
theorem verify_oneToken (e kid : String) :
    oneToken.verify ⟨modulus, e, kid⟩ (headerPart ++ "." ++ payloadPart)
      (RawURLEncoding.decodeString signaturePart).bytes = none := by
  have hdigest : oneToken.sha256 (bytes (headerPart ++ "." ++ payloadPart)) = digest := by
    show (if bytes (headerPart ++ "." ++ payloadPart) = bytes (headerPart ++ "." ++ payloadPart)
      then digest else []) = digest
    rw [if_pos rfl]
  exact if_pos ⟨Eq.refl (setBytes (RawURLEncoding.decodeString modulus).bytes), rfl, hdigest,
    Eq.refl (RawURLEncoding.decodeString signaturePart).bytes⟩

theorem decodes_signaturePart :
    (RawURLEncoding.decodeString signaturePart).corrupt = false := by
  decide +kernel

/-- The token verifies under its key, for any text of the exponent. -/
theorem verified_oneToken {exponentOk : IbmJWK → Prop} {e : String}
    (h : exponentOk ⟨modulus, e, "k1"⟩) :
    Verified exponentOk oneToken 150 [⟨modulus, e, "k1"⟩]
      (bearer headerPart payloadPart signaturePart) := by
  have hkid : "k1" ≠ "" := by decide
  have hlast : signaturePart.toList.getLast? = some 'm' := by decide +kernel
  exact ⟨_, headerPart, payloadPart, signaturePart, _, _, trimSpace_bearer hlast rfl,
    tokenParts_of_noSeparator (noSeparator_of_decodes checked_oneToken.headerDecodes)
      (noSeparator_of_decodes checked_oneToken.payloadDecodes)
      (noSeparator_of_decodes decodes_signaturePart),
    checked_oneToken, _, List.mem_singleton_self _, h, hkid, rfl, verify_oneToken e "k1"⟩

/-- The token passes on. -/
theorem handler_admits_one :
    handler oneToken 150 [⟨modulus, "AQAB", "k1"⟩] (bearer headerPart payloadPart signaturePart)
      = .next :=
  (handler_admits oneToken 150 [⟨modulus, "AQAB", "k1"⟩] _).2 (by simp)
    (verified_oneToken (.inl rfl))

/-- `AAABAAE` is base64 of `[0,0,1,0,1]`, which is 65537 as well; the request is
    aborted. -/
theorem other_exponent_aborted :
    (([⟨modulus, "AAABAAE", "k1"⟩] : List IbmJWK).map IbmJWK.kid).Nodup ∧
      Verified Encodes65537 oneToken 150 [⟨modulus, "AAABAAE", "k1"⟩]
        (bearer headerPart payloadPart signaturePart) ∧
      handler oneToken 150 [⟨modulus, "AAABAAE", "k1"⟩]
        (bearer headerPart payloadPart signaturePart) ≠ .next := by
  refine ⟨by simp, verified_oneToken ?_, fun hnext => ?_⟩
  · unfold Encodes65537
    decide
  · obtain ⟨-, -, -, -, -, -, -, -, -, item, hmem, hexponent, -⟩ := verified_of_next hnext
    rw [List.mem_singleton.mp hmem] at hexponent
    exact absurd hexponent (by decide)

/-! ## Signatures that do not decode -/

/-- `Given` with the decoder of Go. -/
def Given.rawURL (g : Given) : Given := { g with decodeString := RawURLEncoding.decodeString }

/-- Every token with this header and payload that is accepted has a signature
    part that decodes. -/
def SignatureDecodes (g : Given) (now : Int64) (keys : List IbmJWK) (h p : String) : Prop :=
  ∀ authorization token s, trimSpace authorization = "Bearer " ++ token →
    TokenParts token h p s → handler g.rawURL now keys authorization = .next →
    (RawURLEncoding.decodeString s).corrupt = false

/-- The bytes verify as the signature of this header and payload. -/
def SignatureVerifies (g : Given) (now : Int64) (keys : List IbmJWK) (h p : String)
    (sig : List UInt8) : Prop :=
  ∃ header payload, Checked g.rawURL now h p header payload ∧
    earlyReturn (findKey keys header.kid) = none ∧
    g.rawURL.verify (findKey keys header.kid) (h ++ "." ++ p) sig = none

theorem bearer_eq_next {g : Given} {now : Int64} {keys : List IbmJWK}
    {authorization token h p s : String}
    (htrim : trimSpace authorization = "Bearer " ++ token) (hparts : TokenParts token h p s) :
    handler g.rawURL now keys authorization = .next ↔
      SignatureVerifies g now keys h p (RawURLEncoding.decodeString s).bytes := by
  have hdot : ".".toList = ['.'] := rfl
  rw [handler_eq_next]
  constructor
  · rintro ⟨token', h', p', s', header, payload, htrim', hparts', hchecked, hsig⟩
    -- a header has one token, and a token one reading
    obtain rfl : token = token' := by
      have hlist := congrArg String.toList (htrim.symm.trans htrim')
      rw [String.toList_append, String.toList_append] at hlist
      exact String.toList_injective (List.append_cancel_left hlist)
    have hsplit := (split_three_iff hdot).mpr ⟨hparts.eq, hparts.noDot⟩
    have hsplit' := (split_three_iff hdot).mpr ⟨hparts'.eq, hparts'.noDot⟩
    obtain ⟨rfl, rfl, rfl⟩ : h = h' ∧ p = p' ∧ s = s' := by
      simpa using hsplit.symm.trans hsplit'
    obtain ⟨hearly, hverify⟩ := verifySig_eq_none.mp hsig
    exact ⟨header, payload, hchecked, hearly, hverify⟩
  · rintro ⟨header, payload, hchecked, hearly, hverify⟩
    exact ⟨token, h, p, s, header, payload, htrim, hparts, hchecked,
      verifySig_eq_none.mpr ⟨hearly, hverify⟩⟩

/-- Whole groups, and a character that belongs to none. -/
def malformed (sig : List UInt8) : String := String.ofList (RawURLEncoding.encode sig ++ ['!'])

theorem decodeString_malformed {sig : List UInt8} (h : sig.length % 3 = 0) :
    RawURLEncoding.decodeString (malformed sig) = ⟨sig, true⟩ := by
  have hbang : RawURLEncoding.decode [] ['!'] = ⟨[], true⟩ := by decide
  rw [Encoding.decodeString, malformed, String.toList_ofList, decode_encode h, hbang,
    List.append_nil]

theorem noSeparator_malformed (sig : List UInt8) : NoSeparator (malformed sig) := by
  unfold NoSeparator malformed
  simp only [String.toList_ofList, List.mem_append, List.mem_singleton, not_or]
  refine ⟨⟨fun hmem => ?_, by decide⟩, fun hmem => ?_, by decide⟩
  · exact absurd (char_of_encode ' ' hmem) (by decide)
  · exact absurd (char_of_encode '.' hmem) (by decide)

/-- **When no malformed signature is accepted.**  For every key set, clock,
    header and payload, and any verification: the signature part of every
    accepted token decodes, if and only if no bytes in groups of three verify. -/
theorem signature_decodes_iff (g : Given) (now : Int64) (keys : List IbmJWK) (h p : String) :
    SignatureDecodes g now keys h p ↔
      ∀ sig, sig.length % 3 = 0 → ¬ SignatureVerifies g now keys h p sig := by
  constructor
  · intro hdecodes sig hlength hverifies
    obtain ⟨header, payload, hchecked, -⟩ := id hverifies
    have hparts := tokenParts_of_noSeparator (noSeparator_of_decodes hchecked.headerDecodes)
      (noSeparator_of_decodes hchecked.payloadDecodes) (noSeparator_malformed sig)
    have hlast : (malformed sig).toList.getLast? = some '!' := by
      rw [malformed, String.toList_ofList, List.getLast?_append_of_ne_nil _ (List.cons_ne_nil _ _)]
      rfl
    have htrim : trimSpace (bearer h p (malformed sig)) = bearer h p (malformed sig) :=
      trimSpace_bearer hlast rfl
    have hdecode := decodeString_malformed hlength
    have hok := hdecodes _ _ _ htrim hparts ((bearer_eq_next htrim hparts).mpr
      (by rw [hdecode]; exact hverifies))
    rw [hdecode] at hok
    cases hok
  · intro hno authorization token s htrim hparts hnext
    by_contra hcorrupt
    refine hno _ ?_ ((bearer_eq_next htrim hparts).mp hnext)
    exact decode_corrupt rfl (eq_true_of_ne_false hcorrupt)

/-- The signature of the token with a `!` behind it is accepted. -/
theorem malformed_signature_accepted :
    handler oneToken.rawURL 150 [⟨modulus, "AQAB", "k1"⟩]
        (bearer headerPart payloadPart (signaturePart ++ "!")) = .next ∧
      (RawURLEncoding.decodeString (signaturePart ++ "!")).corrupt = true := by
  have hdecode : RawURLEncoding.decodeString (signaturePart ++ "!")
      = ⟨(RawURLEncoding.decodeString signaturePart).bytes, true⟩ := by decide +kernel
  have hlast : (signaturePart ++ "!").toList.getLast? = some '!' := by
    rw [String.toList_append, List.getLast?_append_of_ne_nil _ (by decide)]
    rfl
  have hseparator : NoSeparator (signaturePart ++ "!") := by
    obtain ⟨hspace, hdot⟩ := noSeparator_of_decodes decodes_signaturePart
    simp only [NoSeparator, String.toList_append, List.mem_append, not_or]
    exact ⟨⟨hspace, by decide⟩, hdot, by decide⟩
  have hparts := tokenParts_of_noSeparator
    (noSeparator_of_decodes checked_oneToken.headerDecodes)
    (noSeparator_of_decodes checked_oneToken.payloadDecodes) hseparator
  have htrim : trimSpace (bearer headerPart payloadPart (signaturePart ++ "!"))
      = bearer headerPart payloadPart (signaturePart ++ "!") := trimSpace_bearer hlast rfl
  refine ⟨(bearer_eq_next htrim hparts).mpr ⟨_, _, checked_oneToken, by decide, ?_⟩, ?_⟩
  · rw [hdecode]
    exact verify_oneToken "AQAB" "k1"
  · rw [hdecode]

end Hfrd.Auth
