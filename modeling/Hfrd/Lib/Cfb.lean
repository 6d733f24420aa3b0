/-
  Hfrd.Lib.Cfb

  Cipher feedback mode.

  The block cipher is never inverted: both directions mask the text with the
  cipher of the block before it.  So what is encrypted is decrypted whatever
  the cipher is, also where the last block is not full.
-/

import Mathlib.Data.List.Basic

namespace Hfrd.Lib

/-- A block cipher under one key, and how a letter is masked by another one. -/
structure Cfb (α : Type) where
  size : Nat
  size_pos : 0 < size
  block : List α → List α
  length_block : ∀ register, (block register).length = size
  mask : α → α → α
  mask_mask : ∀ a b, mask (mask a b) b = a

namespace Cfb

variable {α : Type} (C : Cfb α)

/-- A block of text, or the rest of it, masked by the cipher of the register. -/
def maskBlock (register text : List α) : List α := List.zipWith C.mask text (C.block register)

/-- The register is the block that was encrypted last, at first the
    initialization vector. -/
def encrypt (register text : List α) : List α :=
  if _ : text = [] then []
  else
    let out := C.maskBlock register (text.take C.size)
    out ++ encrypt out (text.drop C.size)
termination_by text.length
decreasing_by
  have hpos := List.length_pos_iff.mpr ‹_›
  have hsize := C.size_pos
  rw [List.length_drop]
  omega

/-- The text that comes back from an encrypted one. -/
def decrypt (register text : List α) : List α :=
  if _ : text = [] then []
  else
    let block := text.take C.size
    C.maskBlock register block ++ decrypt block (text.drop C.size)
termination_by text.length
decreasing_by
  have hpos := List.length_pos_iff.mpr ‹_›
  have hsize := C.size_pos
  rw [List.length_drop]
  omega

theorem encrypt_nil (register : List α) : C.encrypt register [] = [] := by
  rw [encrypt, dif_pos rfl]

theorem decrypt_nil (register : List α) : C.decrypt register [] = [] := by
  rw [decrypt, dif_pos rfl]

theorem decrypt_of_ne_nil {register text : List α} (h : text ≠ []) :
    C.decrypt register text = C.maskBlock register (text.take C.size) ++
      C.decrypt (text.take C.size) (text.drop C.size) := by
  rw [decrypt, dif_neg h]

theorem length_maskBlock {register text : List α} (h : text.length ≤ C.size) :
    (C.maskBlock register text).length = text.length := by
  rw [maskBlock, List.length_zipWith, C.length_block, Nat.min_eq_left h]

/-- A block is masked twice by the same register. -/
theorem maskBlock_maskBlock {register text : List α} (h : text.length ≤ C.size) :
    C.maskBlock register (C.maskBlock register text) = text := by
  have hlen : text.length ≤ (C.block register).length := by rwa [C.length_block]
  rw [maskBlock, maskBlock]
  clear h
  generalize C.block register = ks at hlen
  induction text generalizing ks with
  | nil => rfl
  | cons a text ih =>
      cases ks with
      | nil => simp at hlen
      | cons k ks =>
          rw [List.zipWith_cons_cons, List.zipWith_cons_cons, C.mask_mask,
            ih ks (Nat.le_of_succ_le_succ hlen)]

/-- **What is encrypted is decrypted**, whatever the block cipher. -/
theorem decrypt_encrypt (register text : List α) :
    C.decrypt register (C.encrypt register text) = text := by
  induction register, text using encrypt.induct C with
  | case1 register => rw [encrypt_nil, decrypt_nil]
  | case2 register text hne out ih =>
      have htake : (text.take C.size).length ≤ C.size := List.length_take_le _ _
      have hlen : out.length = (text.take C.size).length := C.length_maskBlock htake
      have hout : out ≠ [] := by
        have hpos := List.length_pos_iff.mpr hne
        have hsize := C.size_pos
        rw [List.length_take] at hlen
        exact List.length_pos_iff.mp (by omega)
      rw [encrypt, dif_neg hne, decrypt_of_ne_nil C (List.append_ne_nil_of_left_ne_nil hout _)]
      -- the first block of the cipher text is `out`
      have hblock : (out ++ C.encrypt out (text.drop C.size)).take C.size = out ∧
          (out ++ C.encrypt out (text.drop C.size)).drop C.size =
            C.encrypt out (text.drop C.size) := by
        by_cases hfull : C.size ≤ text.length
        · rw [List.length_take, Nat.min_eq_left hfull] at hlen
          exact ⟨List.take_left' hlen, List.drop_left' hlen⟩
        · have hdrop : text.drop C.size = [] := List.drop_eq_nil_of_le (by omega)
          rw [hdrop, encrypt_nil, List.append_nil]
          exact ⟨List.take_of_length_le (hlen ▸ htake), List.drop_eq_nil_of_le (hlen ▸ htake)⟩
      rw [hblock.1, hblock.2, ih, C.maskBlock_maskBlock htake, List.take_append_drop]

end Cfb

end Hfrd.Lib
