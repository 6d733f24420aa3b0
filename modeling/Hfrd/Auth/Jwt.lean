/-
  Hfrd.Auth.Jwt

  The gate in front of the API: `Handler` and `decodeJWT`
  (api/resource/auth/jwt/jwt.go).

  A request passes on when its bearer token decodes, its claims hold at the
  time of the request, and its signature verifies under a key of the set.  Of
  the three parts of a token, header and payload have to be base64 to the end;
  the signature has not.
-/

import Hfrd.Auth.Jwk

namespace Hfrd.Auth

open Hfrd.Go

/-- The issuer of the tokens. -/
def ISSUER : String := "https://iam.ng.bluemix.net/oidc/token"
/-- The algorithm of the signatures. -/
def ALG : String := "RS256"

/-- The error of a token without three parts. -/
def MALFORMED : String := "Malformed JWT token"
/-- The error of a part that is not in base64. -/
def DECODE_FAILURE : String := "Decode JWT token failure"
/-- The error of a part that is not the JSON of its type. -/
def UNMARSHAL_FAILURE : String := "Unmarshal JWT token failure"
/-- The error of another issuer. -/
def UNEXPECTED_ISSUER : String := "The issuer in JWT is not supported"
/-- The error of a token that has expired. -/
def EXPIRED_TOKEN : String := "Expired token"
/-- The error of a token of the future. -/
def ISSUE_AT_ERROR : String := "Token used before issued"
/-- The error of another algorithm. -/
def UNSUPPORTED_ALG : String := "Unsupported algorithm"

/-- The header of a token. -/
structure IbmHeader where
  kid : String
  alg : String

/-- The claims that are checked. -/
structure IbmPayload where
  iat : Int64
  exp : Int64
  iss : String

/-- A decoded token, with the text it was decoded from. -/
structure IbmJwt where
  header : IbmHeader
  payload : IbmPayload
  rawString : String

/-- What the gate is given: the functions of the signature check, and
    `json.Unmarshal` into a header and into a payload. -/
structure Given extends Crypto where
  unmarshalHeader : List UInt8 → Option IbmHeader
  unmarshalPayload : List UInt8 → Option IbmPayload

/-- What becomes of a request: the next handler, or status 401 with a message. -/
inductive Reply
  | next
  | abort (message : String)
  | panic
deriving DecidableEq

/-! ## The gate -/

/-- `verifiedIssuer` -/
def verifiedIssuer (actual expected : String) : Bool := bytes actual == bytes expected

/-- `verifiedAlg` -/
def verifiedAlg (alg : String) : Bool := bytes alg == bytes ALG

/-- `now` is the clock in seconds. -/
def expired (now exp : Int64) : Bool := decide (exp < now)

/-- The clock is before the time the token was issued at. -/
def before (now iat : Int64) : Bool := decide (now < iat)

/-- `decodeJWT` -/
def decodeJWT (g : Given) (now : Int64) (tokenRawString : String) : Except String IbmJwt :=
  match split tokenRawString "." with
  | [part0, part1, _] =>
      let headerBytes := g.decodeString part0
      let payloadBytes := g.decodeString part1
      if headerBytes.corrupt then .error DECODE_FAILURE
      else if payloadBytes.corrupt then .error DECODE_FAILURE
      else match g.unmarshalHeader headerBytes.bytes with
        | none => .error UNMARSHAL_FAILURE
        | some header => match g.unmarshalPayload payloadBytes.bytes with
          | none => .error UNMARSHAL_FAILURE
          | some payload =>
              if !verifiedIssuer payload.iss ISSUER then .error UNEXPECTED_ISSUER
              else if !verifiedAlg header.alg then .error UNSUPPORTED_ALG
              else if expired now payload.exp then .error EXPIRED_TOKEN
              else if before now payload.iat then .error ISSUE_AT_ERROR
              else .ok ⟨header, payload, tokenRawString⟩
  | _ => .error MALFORMED

/-- The part of `Handler` behind the header. -/
def verifyToken (g : Given) (now : Int64) (keys : List IbmJWK) (token : String) : Reply :=
  match decodeJWT g now token with
  | .error err => .abort err
  | .ok jwt => match split token "." with
    | part0 :: part1 :: part2 :: _ =>
        match verifySig g.toCrypto keys jwt.header.kid (part0 ++ "." ++ part1) part2 with
        | some err => .abort err
        | none => .next
    | _ => .panic

/-- `Handler` on the value of the header `Authorization`. -/
def handler (g : Given) (now : Int64) (keys : List IbmJWK) (header : String) : Reply :=
  let authorization := trimSpace header
  if authorization = "" then .abort "No authorization header provided"
  else match split authorization " " with
    | [scheme, token] =>
        if scheme = "Bearer" then verifyToken g now keys token else .abort MALFORMED
    | _ => .abort MALFORMED

/-! ## Tokens -/

/-- Header and payload decode, and the claims hold at `now`. -/
structure Checked (g : Given) (now : Int64) (h p : String) (header : IbmHeader)
    (payload : IbmPayload) : Prop where
  headerDecodes : (g.decodeString h).corrupt = false
  payloadDecodes : (g.decodeString p).corrupt = false
  unmarshalHeader : g.unmarshalHeader (g.decodeString h).bytes = some header
  unmarshalPayload : g.unmarshalPayload (g.decodeString p).bytes = some payload
  issuer : payload.iss = ISSUER
  alg : header.alg = ALG
  notExpired : now ≤ payload.exp
  issued : payload.iat ≤ now

theorem bytes_beq_iff {s t : String} : (bytes s == bytes t) = true ↔ s = t :=
  beq_iff_eq.trans ⟨fun h => bytes_injective h, fun h => congrArg bytes h⟩

theorem decodeJWT_eq_ok {g : Given} {now : Int64} {t : String} {jwt : IbmJwt} :
    decodeJWT g now t = .ok jwt ↔ ∃ h p s, split t "." = [h, p, s] ∧
      Checked g now h p jwt.header jwt.payload ∧ jwt.rawString = t := by
  unfold decodeJWT
  constructor
  · intro hok
    split at hok
    · next h p s hsplit =>
        refine ⟨h, p, s, hsplit, ?_⟩
        simp only at hok
        split at hok
        · cases hok
        · next hheader =>
            split at hok
            · cases hok
            · next hpayload =>
                split at hok
                · cases hok
                · next header hunmarshal =>
                    split at hok
                    · cases hok
                    · next payload hunmarshal' =>
                        -- the four checks of the claims, in the order of the source
                        repeat' split at hok
                        all_goals cases hok
                        next hiss halg hexp hiat =>
                          refine ⟨⟨by simpa using hheader, by simpa using hpayload, hunmarshal,
                            hunmarshal', ?_, ?_, ?_, ?_⟩, rfl⟩
                          · exact bytes_beq_iff.mp (by simpa [verifiedIssuer] using hiss)
                          · exact bytes_beq_iff.mp (by simpa [verifiedAlg] using halg)
                          · exact Int64.not_lt.mp (by simpa [expired] using hexp)
                          · exact Int64.not_lt.mp (by simpa [before] using hiat)
    · cases hok
  · rintro ⟨h, p, s, hsplit, hchecked, hraw⟩
    obtain ⟨header, payload, rawString⟩ := jwt
    obtain ⟨hheader, hpayload, hunmarshal, hunmarshal', hiss, halg, hexp, hiat⟩ := hchecked
    simp only at hraw hunmarshal hunmarshal' hiss halg hexp hiat
    have hiss' : verifiedIssuer payload.iss ISSUER = true := bytes_beq_iff.mpr hiss
    have halg' : verifiedAlg header.alg = true := bytes_beq_iff.mpr halg
    have hexp' : expired now payload.exp = false := decide_eq_false (Int64.not_lt.mpr hexp)
    have hiat' : before now payload.iat = false := decide_eq_false (Int64.not_lt.mpr hiat)
    simp [hsplit, hheader, hpayload, hunmarshal, hunmarshal', hiss', halg', hexp', hiat', hraw]

/-- A token in three parts, without spaces. -/
structure TokenParts (token h p s : String) : Prop where
  eq : token = h ++ "." ++ p ++ "." ++ s
  noSpace : ' ' ∉ token.toList
  noDot : '.' ∉ h.toList ∧ '.' ∉ p.toList ∧ '.' ∉ s.toList

theorem verifyToken_eq_next {g : Given} {now : Int64} {keys : List IbmJWK} {token : String} :
    verifyToken g now keys token = .next ↔ ∃ h p s header payload,
      split token "." = [h, p, s] ∧ Checked g now h p header payload ∧
      verifySig g.toCrypto keys header.kid (h ++ "." ++ p) s = none := by
  unfold verifyToken
  constructor
  · intro hnext
    split at hnext
    · cases hnext
    · next jwt hjwt =>
        obtain ⟨h, p, s, hsplit, hchecked, -⟩ := decodeJWT_eq_ok.mp hjwt
        rw [hsplit] at hnext
        simp only at hnext
        split at hnext
        · cases hnext
        · next hsig => exact ⟨h, p, s, jwt.header, jwt.payload, hsplit, hchecked, hsig⟩
  · rintro ⟨h, p, s, header, payload, hsplit, hchecked, hsig⟩
    have hjwt : decodeJWT g now token = .ok ⟨header, payload, token⟩ :=
      decodeJWT_eq_ok.mpr ⟨h, p, s, hsplit, hchecked, rfl⟩
    simp only [hjwt, hsplit, hsig]

/-- **The requests that pass on.** -/
theorem handler_eq_next {g : Given} {now : Int64} {keys : List IbmJWK} {authorization : String} :
    handler g now keys authorization = .next ↔ ∃ token h p s header payload,
      trimSpace authorization = "Bearer " ++ token ∧ TokenParts token h p s ∧
      Checked g now h p header payload ∧
      verifySig g.toCrypto keys header.kid (h ++ "." ++ p) s = none := by
  have hspace : " ".toList = [' '] := rfl
  have hdot : ".".toList = ['.'] := rfl
  unfold handler
  constructor
  · intro hnext
    simp only at hnext
    split at hnext
    · cases hnext
    · split at hnext
      · next scheme token hsplit =>
          split at hnext
          · next hscheme =>
              obtain ⟨h, p, s, header, payload, hparts, hchecked, hsig⟩ :=
                verifyToken_eq_next.mp hnext
              -- two pieces at the blank, three at the dots
              obtain ⟨htrim, -, hnospace⟩ := (split_two_iff hspace).mp hsplit
              obtain ⟨htoken, hnodot⟩ := (split_three_iff hdot).mp hparts
              refine ⟨token, h, p, s, header, payload, ?_, ⟨htoken, hnospace, hnodot⟩, hchecked,
                hsig⟩
              rw [htrim, hscheme]
              rfl
          · cases hnext
      · cases hnext
  · rintro ⟨token, h, p, s, header, payload, htrim, ⟨htoken, hnospace, hnodot⟩, hchecked, hsig⟩
    have hsplit : split (trimSpace authorization) " " = ["Bearer", token] := by
      refine (split_two_iff hspace).mpr ⟨?_, by decide, hnospace⟩
      rw [htrim]
      rfl
    have hparts : split token "." = [h, p, s] := (split_three_iff hdot).mpr ⟨htoken, hnodot⟩
    -- the header is not empty, having a scheme
    have hne : trimSpace authorization ≠ "" := by
      rw [htrim]
      intro hempty
      have hlength := congrArg String.length hempty
      simp at hlength
    have hnext := verifyToken_eq_next.mpr ⟨h, p, s, header, payload, hparts, hchecked, hsig⟩
    simp only [if_neg hne, hsplit, if_true, hnext]

end Hfrd.Auth
