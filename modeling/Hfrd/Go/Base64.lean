/-
  Hfrd.Go.Base64

  `DecodeString` of Go's `encoding/base64`.

  Characters are decoded in groups of four, which are the six-bit digits of
  three bytes; line ends between them are skipped.  At a character that does
  not belong there the result is what the complete groups in front of it gave,
  together with an error.  Without padding the last group may have two or three
  characters, whose bits beyond the last whole byte are not looked at.
-/

import Mathlib.Algebra.Group.Nat.Defs
import Mathlib.Data.List.Basic

namespace Hfrd.Go

/-- An alphabet is told by its last two characters; `none` is `NoPadding`. -/
structure Encoding where
  char62 : Char
  char63 : Char
  padChar : Option Char

/-- `base64.StdEncoding` -/
def StdEncoding : Encoding := ⟨'+', '/', some '='⟩
/-- `base64.RawURLEncoding` -/
def RawURLEncoding : Encoding := ⟨'-', '_', none⟩

/-- The bytes that are returned, and whether an error is returned with them. -/
structure Decoded where
  bytes : List UInt8
  corrupt : Bool
deriving DecidableEq

/-! ## Decoding -/

/-- `decodeMap`. -/
def Encoding.sextet? (enc : Encoding) (c : Char) : Option Nat :=
  if 'A' ≤ c ∧ c ≤ 'Z' then some (c.toNat - 65)
  else if 'a' ≤ c ∧ c ≤ 'z' then some (c.toNat - 71)
  else if '0' ≤ c ∧ c ≤ '9' then some (c.toNat + 4)
  else if c = enc.char62 then some 62
  else if c = enc.char63 then some 63
  else none

/-- The whole bytes of a group of at most four digits. -/
def quantum (dbuf : List Nat) : List UInt8 :=
  let val := dbuf.getD 0 0 * 2 ^ 18 + dbuf.getD 1 0 * 2 ^ 12 + dbuf.getD 2 0 * 2 ^ 6
    + dbuf.getD 3 0
  [UInt8.ofNat (val / 2 ^ 16), UInt8.ofNat (val / 2 ^ 8), UInt8.ofNat val].take (dbuf.length - 1)

/-- The characters that are skipped. -/
def isLineEnd (c : Char) : Bool := c == '\n' || c == '\r'

/-- Behind the first padding character of a group: the second one where it is
    due, and then nothing but line ends. -/
def decodePadding (pad : Char) (dbuf : List Nat) (cs : List Char) : Decoded :=
  let closed (rest : List Char) : Decoded := ⟨quantum dbuf, rest.any (!isLineEnd ·)⟩
  if dbuf.length < 2 then ⟨[], true⟩
  else if dbuf.length = 2 then
    match cs.dropWhile isLineEnd with
    | [] => ⟨[], true⟩
    | c :: rest => if c = pad then closed rest else ⟨[], true⟩
  else closed cs

/-- Decodes what follows the digits of a group that is not complete. -/
def Encoding.decode (enc : Encoding) : List Nat → List Char → Decoded
  | dbuf, [] =>
      if dbuf.length = 0 then ⟨[], false⟩
      else if dbuf.length = 1 ∨ enc.padChar.isSome then ⟨[], true⟩
      else ⟨quantum dbuf, false⟩
  | dbuf, c :: cs =>
      match enc.sextet? c with
      | some digit =>
          if dbuf.length = 3 then
            let rest := enc.decode [] cs
            ⟨quantum (dbuf ++ [digit]) ++ rest.bytes, rest.corrupt⟩
          else enc.decode (dbuf ++ [digit]) cs
      | none =>
          if isLineEnd c then enc.decode dbuf cs
          else if enc.padChar = some c then decodePadding c dbuf cs
          else ⟨[], true⟩

/-- `DecodeString`. -/
def Encoding.decodeString (enc : Encoding) (s : String) : Decoded :=
  enc.decode [] s.toList

/-! ## Texts that do not decode -/

/-- A complete group is three bytes. -/
theorem length_quantum (dbuf : List Nat) (h : dbuf.length = 4) : (quantum dbuf).length = 3 := by
  rw [quantum, h]
  rfl

/-- Without padding, what comes with an error is whole groups. -/
theorem decode_corrupt {enc : Encoding} (henc : enc.padChar = none) {dbuf : List Nat}
    {cs : List Char} (h : (enc.decode dbuf cs).corrupt = true) :
    (enc.decode dbuf cs).bytes.length % 3 = 0 := by
  induction cs generalizing dbuf with
  | nil =>
      simp only [Encoding.decode] at h ⊢
      split at h
      · cases h
      · split at h
        · next hne hshort => rw [if_neg hne, if_pos hshort]; rfl
        · cases h
  | cons c cs ih =>
      simp only [Encoding.decode] at h ⊢
      cases hdigit : enc.sextet? c with
      | some digit =>
          simp only [hdigit] at h ⊢
          by_cases hfull : dbuf.length = 3
          · -- a complete group in front of the rest
            simp only [if_pos hfull] at h ⊢
            have hrest := ih h
            have hgroup := length_quantum (dbuf ++ [digit]) (by simp [hfull])
            rw [List.length_append]
            omega
          · simp only [if_neg hfull] at h ⊢
            exact ih h
      | none =>
          simp only [hdigit] at h ⊢
          by_cases hline : isLineEnd c = true
          · simp only [if_pos hline] at h ⊢
            exact ih h
          · have hpad : ¬ enc.padChar = some c := by simp [henc]
            simp only [if_neg hline, if_neg hpad]
            rfl

/-- Without padding, a text that decodes holds nothing but characters of the
    alphabet and line ends. -/
theorem char_of_decode {enc : Encoding} (henc : enc.padChar = none) {dbuf : List Nat}
    {cs : List Char} (h : (enc.decode dbuf cs).corrupt = false) :
    ∀ c ∈ cs, (enc.sextet? c).isSome = true ∨ isLineEnd c = true := by
  induction cs generalizing dbuf with
  | nil => exact nofun
  | cons c cs ih =>
      simp only [Encoding.decode] at h
      intro c' hc'
      cases hdigit : enc.sextet? c with
      | some digit =>
          simp only [hdigit] at h
          rcases List.mem_cons.mp hc' with rfl | hc'
          · rw [hdigit]
            exact .inl rfl
          · by_cases hfull : dbuf.length = 3
            · simp only [if_pos hfull] at h
              exact ih h c' hc'
            · simp only [if_neg hfull] at h
              exact ih h c' hc'
      | none =>
          simp only [hdigit] at h
          by_cases hline : isLineEnd c = true
          · simp only [if_pos hline] at h
            rcases List.mem_cons.mp hc' with rfl | hc'
            · exact .inr hline
            · exact ih h c' hc'
          -- anything else is corrupt
          · have hpad : ¬ enc.padChar = some c := by simp [henc]
            simp only [if_neg hline, if_neg hpad] at h
            cases h

/-! ## Every run of whole groups -/

/-- The character of a digit. -/
def Encoding.char (enc : Encoding) (digit : Nat) : Char :=
  if digit < 26 then Char.ofNat (digit + 65)
  else if digit < 52 then Char.ofNat (digit + 71)
  else if digit < 62 then Char.ofNat (digit - 4)
  else if digit = 62 then enc.char62 else enc.char63

/-- The four digits of three bytes. -/
def digits (a b c : UInt8) : List Nat :=
  let val := a.toNat * 2 ^ 16 + b.toNat * 2 ^ 8 + c.toNat
  [val / 2 ^ 18, val / 2 ^ 12 % 64, val / 2 ^ 6 % 64, val % 64]

/-- The text of bytes in groups of three. -/
def Encoding.encode (enc : Encoding) : List UInt8 → List Char
  | a :: b :: c :: bytes => (digits a b c).map enc.char ++ enc.encode bytes
  | _ => []

theorem quantum_digits (a b c : UInt8) : quantum (digits a b c) = [a, b, c] := by
  have ha := a.toNat_lt
  have hb := b.toNat_lt
  have hc := c.toNat_lt
  -- the digits of a number below 2 ^ 24 give the number
  have hval : (digits a b c).getD 0 0 * 2 ^ 18 + (digits a b c).getD 1 0 * 2 ^ 12
      + (digits a b c).getD 2 0 * 2 ^ 6 + (digits a b c).getD 3 0
      = a.toNat * 2 ^ 16 + b.toNat * 2 ^ 8 + c.toNat := by
    simp only [digits, List.getD_cons_zero, List.getD_cons_succ]
    omega
  have h1 : UInt8.ofNat ((a.toNat * 2 ^ 16 + b.toNat * 2 ^ 8 + c.toNat) / 2 ^ 16) = a := by
    rw [show (a.toNat * 2 ^ 16 + b.toNat * 2 ^ 8 + c.toNat) / 2 ^ 16 = a.toNat by omega]
    exact UInt8.ofNat_toNat
  have h2 : UInt8.ofNat ((a.toNat * 2 ^ 16 + b.toNat * 2 ^ 8 + c.toNat) / 2 ^ 8) = b := by
    apply UInt8.toNat_inj.mp
    rw [UInt8.toNat_ofNat']
    omega
  have h3 : UInt8.ofNat (a.toNat * 2 ^ 16 + b.toNat * 2 ^ 8 + c.toNat) = c := by
    apply UInt8.toNat_inj.mp
    rw [UInt8.toNat_ofNat']
    omega
  rw [quantum, hval, h1, h2, h3]
  rfl

theorem digits_lt (a b c : UInt8) : ∀ digit ∈ digits a b c, digit < 64 := by
  have ha := a.toNat_lt
  have hb := b.toNat_lt
  have hc := c.toNat_lt
  intro digit hdigit
  simp only [digits, List.mem_cons, List.not_mem_nil, or_false] at hdigit
  omega

/-- The digit of the character of a digit, in the URL alphabet. -/
theorem sextet?_char {digit : Nat} (h : digit < 64) :
    RawURLEncoding.sextet? (RawURLEncoding.char digit) = some digit := by
  have hall : ∀ digit : Fin 64,
      RawURLEncoding.sextet? (RawURLEncoding.char digit) = some digit.val := by decide
  exact hall ⟨digit, h⟩

theorem char_of_encode {bytes : List UInt8} :
    ∀ c ∈ RawURLEncoding.encode bytes, (RawURLEncoding.sextet? c).isSome = true := by
  induction bytes using Encoding.encode.induct with
  | case1 a b c bytes ih =>
      intro x hx
      rw [Encoding.encode] at hx
      rcases List.mem_append.mp hx with hx | hx
      · obtain ⟨digit, hdigit, rfl⟩ := List.mem_map.mp hx
        rw [sextet?_char (digits_lt a b c digit hdigit)]
        rfl
      · exact ih x hx
  | case2 bytes hshort =>
      intro x hx
      rw [Encoding.encode] at hx
      · cases hx
      · exact hshort

/-- Groups of three bytes are read back, whatever follows them. -/
theorem decode_encode {bytes : List UInt8} (h : bytes.length % 3 = 0) (rest : List Char) :
    RawURLEncoding.decode [] (RawURLEncoding.encode bytes ++ rest)
      = ⟨bytes ++ (RawURLEncoding.decode [] rest).bytes,
          (RawURLEncoding.decode [] rest).corrupt⟩ := by
  induction bytes using Encoding.encode.induct with
  | case1 a b c bytes ih =>
      have hlt := digits_lt a b c
      have hgroup := quantum_digits a b c
      have htail := ih (by simp only [List.length_cons] at h; omega)
      simp only [digits] at hlt hgroup
      simp only [List.mem_cons, List.not_mem_nil, or_false, forall_eq_or_imp, forall_eq] at hlt
      simp only [Encoding.encode, digits, List.map_cons, List.map_nil, List.cons_append,
        List.nil_append, Encoding.decode, sextet?_char hlt.1, sextet?_char hlt.2.1,
        sextet?_char hlt.2.2.1, sextet?_char hlt.2.2.2, List.length_nil, List.length_cons,
        hgroup, htail]
      simp
  | case2 bytes hshort =>
      -- fewer than three bytes, and a multiple of three
      have hnil : bytes = [] := by
        cases bytes with
        | nil => rfl
        | cons a bytes =>
            cases bytes with
            | nil => simp at h
            | cons b bytes =>
                cases bytes with
                | nil => simp at h
                | cons c bytes => exact absurd rfl (hshort a b c bytes)
      rw [hnil]
      rfl

end Hfrd.Go
