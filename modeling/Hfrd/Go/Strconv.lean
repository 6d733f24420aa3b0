/-
  Hfrd.Go.Strconv

  The part of Go's `strconv` and `strings` that the modules under
  verification call, on strings as lists of characters: `Atoi`, `Itoa`,
  `Contains`, `Split`, `TrimSpace`, the replacement of a character and the
  comparison of an upper-cased string.
-/

import Hfrd.Lib.Split
import Mathlib.Algebra.Group.Nat.Defs
import Mathlib.Algebra.Group.Int.Defs
import Mathlib.Data.List.DropRight

namespace Hfrd.Go

/-- Go's `error` interface: `none` is nil, otherwise the text of the error. -/
abbrev GoError := Option String

/-- The value of a decimal digit. -/
def digit? (c : Char) : Option Nat :=
  if '0' ≤ c ∧ c ≤ '9' then some (c.toNat - '0'.toNat) else none

/-- Read a run of decimal digits onto an accumulator; any other character is
    a syntax error. -/
def digits? : Nat → List Char → Option Nat
  | acc, [] => some acc
  | acc, c :: cs => match digit? c with
    | some d => digits? (acc * 10 + d) cs
    | none => none

/-- The magnitude and sign of a decimal integer: an optional sign, then at
    least one digit. -/
def signed? : List Char → Option (Bool × Nat)
  | '-' :: c :: cs => (digits? 0 (c :: cs)).map (true, ·)
  | '+' :: c :: cs => (digits? 0 (c :: cs)).map (false, ·)
  | c :: cs => (digits? 0 (c :: cs)).map (false, ·)
  | [] => none

/-- `strconv.Atoi`: `none` stands for a syntax or a range error. -/
def atoi (s : String) : Option Int64 :=
  match signed? s.toList with
  | some (true, n) => if n ≤ 2 ^ 63 then some (-Int64.ofNat n) else none
  | some (false, n) => if n < 2 ^ 63 then some (Int64.ofNat n) else none
  | none => none

/-- `strconv.Itoa`. -/
def itoa (i : Int64) : String := toString i.toInt

/-- `strings.Contains`. -/
def contains (s sub : String) : Bool := decide (sub.toList <:+: s.toList)

/-- `strings.Split` for a separator that is not empty. -/
def split (s sep : String) : List String :=
  (Lib.split sep.toList s.toList).map String.ofList

/-- `strings.Replace(s, old, new, -1)` for a single character `old`. -/
def replaceChar (s : String) (old : Char) (new : String) : String :=
  String.ofList (s.toList.flatMap fun c => if c = old then new.toList else [c])

/-- `strings.ToUpper(s) == "TRUE"`: no letter outside ASCII has one of these
    four as its upper case. -/
def upperIsTrue (s : String) : Bool := s.toList.map Char.toUpper == "TRUE".toList

/-- `unicode.IsSpace`. -/
def isUnicodeSpace (c : Char) : Bool :=
  c == ' ' || (9 ≤ c.toNat && c.toNat ≤ 13) || c.toNat == 0x85 || c.toNat == 0xA0
    || c.toNat == 0x1680 || (0x2000 ≤ c.toNat && c.toNat ≤ 0x200A) || c.toNat == 0x2028
    || c.toNat == 0x2029 || c.toNat == 0x202F || c.toNat == 0x205F || c.toNat == 0x3000

/-- `strings.TrimSpace`. -/
def trimSpace (s : String) : String :=
  String.ofList ((s.toList.dropWhile isUnicodeSpace).rdropWhile isUnicodeSpace)

/-- A text that neither begins nor ends with white space. -/
theorem trimSpace_eq {s : String} {first last : Char} (hfirst : s.toList.head? = some first)
    (hlast : s.toList.getLast? = some last) (hf : isUnicodeSpace first = false)
    (hl : isUnicodeSpace last = false) : trimSpace s = s := by
  have hdrop : s.toList.dropWhile isUnicodeSpace = s.toList := by
    cases hs : s.toList with
    | nil => rfl
    | cons c cs =>
        rw [hs] at hfirst
        cases hfirst
        rw [List.dropWhile_cons, if_neg (by simp [hf])]
  have hrdrop : s.toList.rdropWhile isUnicodeSpace = s.toList := by
    refine List.rdropWhile_eq_self_iff.mpr fun hne => ?_
    rw [List.getLast?_eq_some_getLast hne] at hlast
    rw [Option.some.inj hlast, hl]
    exact Bool.false_ne_true
  rw [trimSpace, hdrop, hrdrop, String.ofList_toList]

/-! ## What `Atoi` accepts -/

theorem digits?_of_some {acc n : Nat} {cs : List Char} (h : digits? acc cs = some n) :
    ∀ c ∈ cs, (digit? c).isSome := by
  induction cs generalizing acc with
  | nil => exact fun c hc => absurd hc List.not_mem_nil
  | cons d cs ih =>
      simp only [digits?] at h
      intro c hc
      cases hd : digit? d with
      | none => simp [hd] at h
      | some k =>
          rw [hd] at h
          rcases List.mem_cons.mp hc with rfl | hc
          · rw [hd]
            rfl
          · exact ih h c hc

theorem char_of_signed? {cs : List Char} {r : Bool × Nat} (h : signed? cs = some r) :
    ∀ c ∈ cs, c = '-' ∨ c = '+' ∨ (digit? c).isSome := by
  intro c hc
  unfold signed? at h
  split at h
  · obtain ⟨n, hn, -⟩ := Option.map_eq_some_iff.mp h
    rcases List.mem_cons.mp hc with rfl | hc
    · exact Or.inl rfl
    · exact Or.inr (Or.inr (digits?_of_some hn c hc))
  · obtain ⟨n, hn, -⟩ := Option.map_eq_some_iff.mp h
    rcases List.mem_cons.mp hc with rfl | hc
    · exact Or.inr (Or.inl rfl)
    · exact Or.inr (Or.inr (digits?_of_some hn c hc))
  · obtain ⟨n, hn, -⟩ := Option.map_eq_some_iff.mp h
    exact Or.inr (Or.inr (digits?_of_some hn c hc))
  · cases h

/-- A number is written with digits and a sign. -/
theorem char_of_atoi {s : String} {n : Int64} (h : atoi s = some n) :
    ∀ c ∈ s.toList, c = '-' ∨ c = '+' ∨ (digit? c).isSome := by
  unfold atoi at h
  cases hr : signed? s.toList with
  | none => simp [hr] at h
  | some r => exact char_of_signed? hr

/-! ## `Itoa` and back -/

theorem digit?_of_isDigit {c : Char} (h : c.isDigit = true) :
    digit? c = some (c.toNat - '0'.toNat) := by
  refine if_pos ?_
  simp only [Char.isDigit, Bool.and_eq_true, decide_eq_true_eq] at h
  exact h

theorem digits?_of_isDigit {cs : List Char} (h : ∀ c ∈ cs, c.isDigit = true) (acc : Nat) :
    digits? acc cs = some (Nat.ofDigitChars 10 cs acc) := by
  induction cs generalizing acc with
  | nil => simp [digits?]
  | cons c cs ih =>
      rw [digits?, digit?_of_isDigit (h c List.mem_cons_self), Nat.ofDigitChars_cons,
        Nat.mul_comm]
      exact ih (fun d hd => h d (List.mem_cons_of_mem _ hd)) _

theorem digits?_repr (n : Nat) : digits? 0 n.repr.toList = some n := by
  rw [Nat.toList_repr, digits?_of_isDigit fun c hc =>
    Nat.isDigit_of_mem_toDigits (by omega) (by omega) hc]
  rw [Nat.ofDigitChars_ten_toDigits]

theorem signed?_repr (n : Nat) : signed? n.repr.toList = some (false, n) := by
  have hdigits := digits?_repr n
  cases hl : n.repr.toList with
  | nil =>
    rw [Nat.toList_repr] at hl
    exact absurd hl Nat.toDigits_ne_nil
  | cons c cs =>
      have hc : c.isDigit = true := by
        apply Nat.isDigit_of_mem_toDigits (b := 10) (n := n) (by omega) (by omega)
        rw [← Nat.toList_repr, hl]
        exact List.mem_cons_self
      rw [hl] at hdigits
      unfold signed?
      split
      · next h => cases h; simp at hc
      · next h => cases h; simp at hc
      · next h => cases h; rw [hdigits]; rfl
      · next h => cases h

theorem signed?_neg_repr (n : Nat) : signed? ("-" ++ n.repr).toList = some (true, n) := by
  have hdigits := digits?_repr n
  rw [String.toList_append]
  cases hl : n.repr.toList with
  | nil =>
      rw [Nat.toList_repr] at hl
      exact absurd hl Nat.toDigits_ne_nil
  | cons c cs =>
      rw [hl] at hdigits
      show (digits? 0 (c :: cs)).map (true, ·) = some (true, n)
      rw [hdigits]
      rfl

/-- `Atoi` reads back what `Itoa` writes. -/
theorem atoi_itoa (i : Int64) : atoi (itoa i) = some i := by
  have hlo := i.le_toInt
  have hhi := i.toInt_lt
  unfold atoi itoa
  rw [Int.toString_eq_repr, Int.repr_eq_if]
  by_cases hpos : 0 ≤ i.toInt
  · have hlt : i.toInt.toNat < 2 ^ 63 := by omega
    rw [if_pos hpos, signed?_repr]
    refine (if_pos hlt).trans (congrArg some ?_)
    rw [← Int64.ofInt_eq_ofNat, Int.toNat_of_nonneg hpos, Int64.ofInt_toInt]
  · have hle : (-i.toInt).toNat ≤ 2 ^ 63 := by omega
    rw [if_neg hpos, signed?_neg_repr]
    refine (if_pos hle).trans (congrArg some ?_)
    rw [← Int64.ofInt_eq_ofNat, Int.toNat_of_nonneg (by omega), Int64.neg_ofInt, Int.neg_neg,
      Int64.ofInt_toInt]

theorem itoa_injective {i j : Int64} (h : itoa i = itoa j) : i = j := by
  have hij := congrArg atoi h
  rw [atoi_itoa, atoi_itoa] at hij
  exact Option.some.inj hij

/-! ## Splitting at a character -/

/-- The parts of a text, as lists of characters. -/
theorem split_eq_iff_map {s sep : String} {parts : List String} :
    split s sep = parts ↔ Lib.split sep.toList s.toList = parts.map String.toList := by
  rw [split]
  constructor
  · rintro rfl
    simp [List.map_map]
  · intro h
    rw [h, List.map_map]
    simp

theorem split_eq_iff {s sep : String} {c : Char} (hsep : sep.toList = [c]) {parts : List String}
    (hne : parts ≠ []) :
    split s sep = parts ↔ s.toList = [c].intercalate (parts.map String.toList) ∧
      ∀ part ∈ parts, c ∉ part.toList := by
  have hne' : parts.map String.toList ≠ [] := fun h => hne (List.map_eq_nil_iff.mp h)
  rw [split_eq_iff_map, hsep, Lib.split_eq_iff hne', List.forall_mem_map]

theorem split_two_iff {s a b sep : String} {c : Char} (hsep : sep.toList = [c]) :
    split s sep = [a, b] ↔ s = a ++ sep ++ b ∧ c ∉ a.toList ∧ c ∉ b.toList := by
  rw [split_eq_iff hsep (List.cons_ne_nil _ _), ← String.toList_inj]
  simp [hsep]

theorem split_three_iff {s a b d sep : String} {c : Char} (hsep : sep.toList = [c]) :
    split s sep = [a, b, d] ↔
      s = a ++ sep ++ b ++ sep ++ d ∧ c ∉ a.toList ∧ c ∉ b.toList ∧ c ∉ d.toList := by
  rw [split_eq_iff hsep (List.cons_ne_nil _ _), ← String.toList_inj]
  simp [hsep, List.append_assoc]

/-! ## Bytes -/

/-- `[]byte(s)`. -/
def bytes (s : String) : List UInt8 := s.toUTF8.data.toList

theorem bytes_injective {s t : String} (h : bytes s = bytes t) : s = t :=
  String.toByteArray_inj.mp (ByteArray.ext (Array.toList_inj.mp h))

theorem bytes_eq_nil {s : String} : bytes s = [] ↔ s = "" := by
  rw [bytes, String.toUTF8_eq_toByteArray, ← String.toByteArray_eq_empty_iff]
  rw [Array.toList_eq_nil_iff, ByteArray.ext_iff]
  rfl

/-! ## Errors -/

/-- Two fallible steps succeed when each does. -/
theorem bind_eq_ok {ε α β : Type} {x : Except ε α} {f : α → Except ε β} {b : β} :
    (x >>= f) = .ok b ↔ ∃ a, x = .ok a ∧ f a = .ok b := by
  cases x <;> simp [bind, Except.bind]

end Hfrd.Go
