/-
  Hfrd.GoSdk.Reggen

  The regular-expression generator of string patterns
  (modules/gosdk/utilities/reggen.go), and which expressions it panics on.

  `generate` draws with `rand.Intn` at every class, alternation and repetition.
  `Intn` panics for an argument that is not positive: a class without runes, a
  class up to the last rune without printable characters, an alternation
  without alternatives.  Whether a draw can be reached depends on the draws
  before it only through their returning at all, so both predicates below are
  told from the expression.
-/

import Hfrd.GoSdk.ParamGenerator
import Hfrd.Lib.Drawing
import Mathlib.Data.List.FinRange

namespace Hfrd.GoSdk

open Hfrd.Go Hfrd.Lib

variable {ρ : Type} {maxAlloc : Int64}

/-! ## Expressions -/

/-- `syntax.Regexp`, with the fields that the generator reads.  A list of
    subexpressions is a slice, whose length is an `int`. -/
inductive Regexp
  /-- `OpNoMatch`, `OpEmptyMatch`, the line and text anchors and the word
      boundaries: no text. -/
  | opEmpty
  | opLiteral (runes : List Nat)
  /-- The ranges are pairs of runes. -/
  | opCharClass (ranges : List (Nat × Nat))
  | opAnyCharNotNL
  | opAnyChar
  | opCapture (sub : Regexp)
  | opStar (len : Nat) (sub : Fin len → Regexp)
  | opPlus (len : Nat) (sub : Fin len → Regexp)
  | opQuest (len : Nat) (sub : Fin len → Regexp)
  /-- A negative `max` is no bound. -/
  | opRepeat (min : Nat) (max : Int) (len : Nat) (sub : Fin len → Regexp)
  | opConcat (len : Nat) (sub : Fin len → Regexp)
  | opAlternate (len : Nat) (small : len < 2 ^ 63) (sub : Fin len → Regexp)

/-- The last rune. -/
def runeRangeEnd : Nat := 0x10ffff

/-- The characters that stand for any character. -/
def printableChars : String :=
  "0123456789abcdefghijklmnopqrstuvwxyzABCDEFGHIJKLMNOPQRSTUVWXYZ" ++
    "!\"#$%&'()*+,-./:;<=>?@[\\]^_`\x7b|\x7d~ \t\n\r"

/-- The same without the line ends. -/
def printableCharsNoNL : List Char := printableChars.toList.take (printableChars.length - 2)

/-- `string(r)` of a rune. -/
def runeText (r : Nat) : String :=
  String.singleton (if r.isValidChar then Char.ofNat r else Char.ofNat 0xfffd)

/-! ## Generating -/

/-- One after the other. -/
def catAll {ε : Type} : List (StateT ρ (Except ε) String) → StateT ρ (Except ε) String
  | [] => pure ""
  | p :: ps => do
      let text ← p
      let rest ← catAll ps
      pure (text ++ rest)

/-- `count` times. -/
def repeated {ε : Type} (count : Nat) (p : StateT ρ (Except ε) String) :
    StateT ρ (Except ε) String :=
  catAll (List.replicate count p)

/-- One of `chars`. -/
def Source.drawChar (src : Source maxAlloc ρ) (chars : List Char) : StateT ρ
    (Except Failure) String := do
  let i ← src.randIntn (Int64.ofNat chars.length)
  pure (String.singleton (chars.getD i.toInt.toNat ' '))

/-- The number of runes of a class; -1 where it goes up to the last rune. -/
def classSum : List (Nat × Nat) → Int64 → Int64
  | [], sum => sum
  | (lo, hi) :: ranges, sum =>
      if hi = runeRangeEnd then -1 else classSum ranges (sum + Int64.ofInt (hi - lo) + 1)

/-- The printable characters of a class. -/
def possibleChars (ranges : List (Nat × Nat)) : List Char :=
  printableChars.toList.filter fun c => ranges.any fun range =>
    decide (range.1 ≤ c.toNat) && decide (c.toNat ≤ range.2)

/-- The rune with the number `r`, counted from `sum`. -/
def pickRune (r : Int64) : List (Nat × Nat) → Int64 → Nat
  | [], _ => 0
  | (lo, hi) :: ranges, sum =>
      let gap := Int64.ofInt (hi - lo) + 1
      if r < sum + gap then lo + (r - sum).toInt.toNat else pickRune r ranges (sum + gap)

/-- A rune of a class. -/
def Source.drawClass (src : Source maxAlloc ρ) (ranges : List (Nat × Nat)) :
    StateT ρ (Except Failure) String :=
  -- a class up to the last rune, such as a negated one
  if classSum ranges 0 = -1 ∧ possibleChars ranges ≠ [] then src.drawChar (possibleChars ranges)
  else do
    let r ← src.randIntn (classSum ranges 0)
    pure (runeText (pickRune r ranges 0))

/-- `Generator.generate`; `limit` bounds the repetitions. -/
def Regexp.generate (src : Source maxAlloc ρ) (limit : Nat) : Regexp → StateT ρ
    (Except Failure) String
  | .opEmpty => pure ""
  | .opLiteral runes => pure (String.join (runes.map runeText))
  | .opCharClass ranges => src.drawClass ranges
  | .opAnyCharNotNL => src.drawChar printableCharsNoNL
  | .opAnyChar => src.drawChar printableChars.toList
  | .opCapture sub => sub.generate src limit
  | .opStar len sub => do
      let count ← src.randIntn (Int64.ofNat (limit + 1))
      repeated count.toInt.toNat
        (catAll ((List.finRange len).map fun i => (sub i).generate src limit))
  | .opPlus len sub => do
      let count ← src.randIntn (Int64.ofNat limit)
      repeated (count.toInt.toNat + 1)
        (catAll ((List.finRange len).map fun i => (sub i).generate src limit))
  | .opQuest len sub => do
      let count ← src.randIntn 2
      repeated count.toInt.toNat
        (catAll ((List.finRange len).map fun i => (sub i).generate src limit))
  | .opRepeat min max len sub => do
      -- `re.Max` is cut down to the limit, `re.Min` is not
      let max := Min.min max limit
      let count ← if min < max then src.randIntn (Int64.ofInt (max - min + 1)) else pure 0
      repeated (min + count.toInt.toNat)
        (catAll ((List.finRange len).map fun i => (sub i).generate src limit))
  | .opConcat len sub => catAll ((List.finRange len).map fun i => (sub i).generate src limit)
  | .opAlternate len _ sub => do
      let i ← src.randIntn (Int64.ofNat len)
      if h : i.toInt.toNat < len then (sub ⟨i.toInt.toNat, h⟩).generate src limit
      -- `Intn` stays below the length
      else throw .panic

/-- A source whose patterns are read by `syntax.Parse` and generated from with
    a limit of 1 (`GenerateRegexString`); the generator has a seed of its own. -/
def Source.withReggen (src : Source maxAlloc ρ) (parse : String → Except String Regexp) :
    Source maxAlloc ρ :=
  { src with
    generateRegexString := fun regex r => match parse regex with
      | .error text => .error (.error text)
      | .ok re => re.generate src 1 (src.seed r) }

/-! ## What may happen -/

/-- A rune can be drawn. -/
def classDraws (ranges : List (Nat × Nat)) : Bool :=
  decide (classSum ranges 0 = -1 ∧ possibleChars ranges ≠ [] ∨ 0 < classSum ranges 0)

/-- Some draws give a text. -/
def Regexp.mayReturn : Regexp → Bool
  | .opEmpty | .opLiteral _ | .opAnyCharNotNL | .opAnyChar => true
  | .opCharClass ranges => classDraws ranges
  | .opCapture sub => sub.mayReturn
  -- possibly no repetition
  | .opStar _ _ | .opQuest _ _ => true
  | .opPlus _ sub | .opConcat _ sub => decide (∀ i, (sub i).mayReturn = true)
  | .opRepeat min _ _ sub => decide (min = 0 ∨ ∀ i, (sub i).mayReturn = true)
  | .opAlternate _ _ sub => decide (∃ i, (sub i).mayReturn = true)

/-- Some draws end in a panic. -/
def Regexp.mayPanic : Regexp → Bool
  | .opEmpty | .opLiteral _ | .opAnyCharNotNL | .opAnyChar => false
  | .opCharClass ranges => !classDraws ranges
  | .opCapture sub => sub.mayPanic
  | .opStar len sub | .opQuest len sub | .opPlus len sub | .opConcat len sub =>
      decide (Reaches (fun i => (sub i).mayReturn = true) (fun i => (sub i).mayPanic = true)
        (List.finRange len))
  | .opRepeat min max len sub =>
      decide ((0 < min ∨ 0 < max) ∧
        Reaches (fun i => (sub i).mayReturn = true) (fun i => (sub i).mayPanic = true)
          (List.finRange len))
  | .opAlternate len _ sub => decide (len = 0 ∨ ∃ i, (sub i).mayPanic = true)

/-! ## A source for any outcome -/

/-- The next number of the tape, as far as it fits. -/
def tapeDraw (n : Int64) : List (Int64 ⊕ String) → Int64 × List (Int64 ⊕ String)
  | .inl x :: t => (if 0 ≤ x ∧ x < n then x else 0, t)
  | .inr _ :: t => (0, t)
  | [] => (0, [])

/-- The next text of the tape. -/
def tapeUUID : List (Int64 ⊕ String) → String × List (Int64 ⊕ String)
  | .inr text :: t => (text, t)
  | .inl _ :: t => ("", t)
  | [] => ("", [])

theorem tapeDraw_nonneg (n : Int64) (t : List (Int64 ⊕ String)) (_ : 0 < n) :
    0 ≤ (tapeDraw n t).1 := by
  rcases t with - | ⟨x | text, t⟩
  · exact Int64.le_refl 0
  · simp only [tapeDraw]
    split
    · next h => exact h.1
    · exact Int64.le_refl 0
  · exact Int64.le_refl 0

theorem tapeDraw_lt (n : Int64) (t : List (Int64 ⊕ String)) (hn : 0 < n) :
    (tapeDraw n t).1 < n := by
  rcases t with - | ⟨x | text, t⟩
  · exact hn
  · simp only [tapeDraw]
    split
    · next h => exact h.2
    · exact hn
  · exact hn

/-- Gives the listed numbers and texts, one for each draw. -/
def tapeSource : Source maxAlloc (List (Int64 ⊕ String)) where
  seed t := t
  intn := tapeDraw
  newUUID := tapeUUID
  generateRegexString _ t := .ok ("", t)
  intn_nonneg := tapeDraw_nonneg
  intn_lt := tapeDraw_lt

/-- What may happen over all sources. -/
abbrev Yields {α : Type} (p : Drawing (Source maxAlloc) Failure α) (returns panics : Prop) : Prop :=
  May tapeSource .panic p returns panics

/-- One draw gives every number below its argument. -/
theorem outcomes_randIntn (n : Int64) :
    Outcomes tapeSource .panic (fun _ (src : Source maxAlloc _) => src.randIntn n)
      (fun x => 0 ≤ x ∧ x < n) (¬ 0 < n) where
  returns_of {ρ src r r' x} h := by
    simp only [Source.randIntn] at h
    split at h
    · next hn =>
        obtain rfl : (src.intn n r).1 = x := congrArg Prod.fst (Except.ok.inj h)
        exact ⟨src.intn_nonneg n r hn, src.intn_lt n r hn⟩
    · cases h
  fails_of {ρ src r} h hn := by
    simp only [Source.randIntn, if_pos hn] at h
    cases h
  attains {x} hx := by
    have hn : 0 < n := Int64.lt_of_le_of_lt hx.1 hx.2
    refine ⟨[.inl x], fun t => ?_⟩
    simp only [Source.randIntn, if_pos hn]
    change Except.ok (if 0 ≤ x ∧ x < n then x else 0, t) = Except.ok (x, t)
    rw [if_pos hx]
  attains_bad hn := ⟨[], fun t => if_neg hn⟩

theorem exists_below_iff {n : Int64} : (∃ x, 0 ≤ x ∧ x < n) ↔ 0 < n := by
  constructor
  · rintro ⟨x, h0, hx⟩
    exact Int64.lt_of_le_of_lt h0 hx
  · exact fun hn => ⟨0, Int64.le_refl 0, hn⟩

theorem may_randIntn (n : Int64) :
    Yields (fun _ (src : Source maxAlloc _) => src.randIntn n) (0 < n) (¬ 0 < n) :=
  (outcomes_randIntn n).may.congr (fun _ _ _ => rfl) exists_below_iff Iff.rfl

/-- The draws of the seeded generators. -/
theorem may_seeded {ε α : Type} {bad : ε} {p : Drawing (Source maxAlloc) ε α} {returns fails : Prop}
    (h : May tapeSource bad p returns fails) :
    May tapeSource bad (fun ρ src r => p ρ src (src.seed r)) returns fails := by
  obtain ⟨values, hp, hreturns⟩ := h
  exact ⟨values, ⟨hp.returns_of, hp.fails_of, hp.attains, hp.attains_bad⟩, hreturns⟩

/-! ## Rules -/

theorem ofNat_pos {n : Nat} (h0 : 0 < n) (hn : n < 2 ^ 63) : 0 < Int64.ofNat n := by
  rw [Int64.lt_iff_toInt_lt, Int64.toInt_ofNat_of_lt hn, Int64.toInt_zero]
  omega

theorem may_drawChar {chars : List Char} (h0 : chars ≠ []) (hlen : chars.length < 2 ^ 63) :
    Yields (fun _ (src : Source maxAlloc _) => src.drawChar chars) True False := by
  have hpos := ofNat_pos (List.length_pos_iff.mpr h0) hlen
  exact ((may_randIntn _).map _).congr (fun _ _ _ => rfl) (iff_true_intro hpos)
    (iff_false_intro (not_not_intro hpos))

theorem length_possibleChars (ranges : List (Nat × Nat)) :
    (possibleChars ranges).length < 2 ^ 63 := by
  have hlen : (possibleChars ranges).length ≤ printableChars.toList.length :=
    List.length_filter_le _ _
  have hchars : printableChars.toList.length = 98 := by decide
  omega

theorem may_drawClass (ranges : List (Nat × Nat)) :
    Yields (fun _ (src : Source maxAlloc _) => src.drawClass ranges) (classDraws ranges = true)
      ((!classDraws ranges) = true) := by
  by_cases h : classSum ranges 0 = -1 ∧ possibleChars ranges ≠ []
  · have hdraws : classDraws ranges = true := decide_eq_true (Or.inl h)
    refine (may_drawChar h.2 (length_possibleChars ranges)).congr (fun _ src r => ?_)
      (by simp [hdraws]) (by simp [hdraws])
    rw [Source.drawClass, if_pos h]
  -- a sum of -1 is not positive either
  · have hdraws : classDraws ranges = true ↔ 0 < classSum ranges 0 := by
      rw [classDraws, decide_eq_true_iff, or_iff_right h]
    refine ((may_randIntn (classSum ranges 0)).map fun r => runeText (pickRune r ranges 0)).congr
      (fun _ src r => ?_) hdraws.symm ?_
    · rw [Source.drawClass, if_neg h]
    · rw [Bool.not_eq_true', ← Bool.not_eq_true, hdraws]

/-- One after the other: all may return, or one is reached that may panic. -/
theorem may_catAll {ι : Type} {each : ι → Drawing (Source maxAlloc) Failure String}
    {returns panics : ι → Prop} (h : ∀ i, Yields (each i) (returns i) (panics i))
    (items : List ι) :
    Yields (fun ρ src => catAll (items.map fun i => each i ρ src)) (∀ i ∈ items, returns i)
      (Reaches returns panics items) := by
  induction items with
  | nil => exact (May.pure "").congr (fun _ _ _ => rfl) (by simp) (by simp [Reaches])
  | cons i items ih =>
      refine ((h i).andThen fun text => ih.map fun rest => text ++ rest).congr
        (fun _ _ _ => rfl) ?_ Iff.rfl
      rw [List.forall_mem_cons]

theorem may_repeated {p : Drawing (Source maxAlloc) Failure String} {returns panics : Prop}
    (h : Yields p returns panics) (count : Nat) :
    Yields (fun ρ src => repeated count (p ρ src)) (count = 0 ∨ returns) (0 < count ∧ panics) := by
  induction count with
  | zero => exact (May.pure "").congr (fun _ _ _ => rfl) (by simp) (by simp)
  | succ count ih =>
      refine (h.andThen fun text => ih.map fun rest => text ++ rest).congr
        (fun _ _ _ => rfl) ?_ ?_
      · simp only [Nat.add_eq_zero_iff, Nat.one_ne_zero, and_false, false_or]
        exact and_iff_left_of_imp Or.inr
      · simp only [Nat.zero_lt_succ, true_and]
        exact or_iff_left_of_imp fun h => h.2.2

/-- A draw of a number of repetitions. -/
theorem may_counted {p : Drawing (Source maxAlloc) Failure String} {returns panics : Prop}
    {n : Int64} (hn : 0 < n) (h : Yields p returns panics) (count : Int64 → Nat) :
    Yields (fun ρ src => src.randIntn n >>= fun x => repeated (count x) (p ρ src))
      ((∃ x, (0 ≤ x ∧ x < n) ∧ count x = 0) ∨ returns)
      ((∃ x, (0 ≤ x ∧ x < n) ∧ 0 < count x) ∧ panics) := by
  obtain ⟨x, hx⟩ := exists_below_iff.mpr hn
  refine (May.bind (outcomes_randIntn n) fun x => may_repeated h (count x)).congr
    (fun _ _ _ => rfl) ?_ ?_
  · constructor
    · rintro ⟨x, hx, hcount | hreturns⟩
      · exact Or.inl ⟨x, hx, hcount⟩
      · exact Or.inr hreturns
    · rintro (⟨x, hx, hcount⟩ | hreturns)
      · exact ⟨x, hx, Or.inl hcount⟩
      · exact ⟨x, hx, Or.inr hreturns⟩
  · constructor
    · rintro (hneg | ⟨x, hx, hcount, hpanics⟩)
      · exact absurd hn hneg
      · exact ⟨⟨x, hx, hcount⟩, hpanics⟩
    · rintro ⟨⟨x, hx, hcount⟩, hpanics⟩
      exact Or.inr ⟨x, hx, hcount, hpanics⟩

/-! ## Expressions -/

theorem may_subs {len : Nat} {sub : Fin len → Regexp}
    (h : ∀ i, Yields (fun _ (src : Source maxAlloc _) => (sub i).generate src 1)
      ((sub i).mayReturn = true) ((sub i).mayPanic = true)) :
    Yields (fun _ (src : Source maxAlloc _) =>
        catAll ((List.finRange len).map fun i => (sub i).generate src 1))
      (∀ i, (sub i).mayReturn = true)
      (Reaches (fun i => (sub i).mayReturn = true) (fun i => (sub i).mayPanic = true)
        (List.finRange len)) :=
  (may_catAll h (List.finRange len)).congr (fun _ _ _ => rfl) (by simp) Iff.rfl

/-- No repetition, or one. -/
theorem may_optional {p : Drawing (Source maxAlloc) Failure String} {returns panics : Prop}
    (h : Yields p returns panics) :
    Yields (fun ρ src => src.randIntn 2 >>= fun x => repeated x.toInt.toNat (p ρ src))
      True panics := by
  refine (may_counted (by decide) h fun x => x.toInt.toNat).congr (fun _ _ _ => rfl) ?_ ?_
  · exact iff_true_intro (Or.inl ⟨0, by decide, by decide⟩)
  · exact and_iff_right ⟨1, by decide, by decide⟩

/-- The numbers below `len` are the indices. -/
theorem exists_index_iff {len : Nat} (small : len < 2 ^ 63) (holds : Fin len → Prop) :
    (∃ x : Int64, (0 ≤ x ∧ x < Int64.ofNat len) ∧
      ∃ h : x.toInt.toNat < len, holds ⟨x.toInt.toNat, h⟩) ↔ ∃ i, holds i := by
  constructor
  · rintro ⟨x, -, h, hx⟩
    exact ⟨_, hx⟩
  · rintro ⟨i, hi⟩
    have hlt := i.isLt
    have hx : (Int64.ofNat i).toInt = i := Int64.toInt_ofNat_of_lt (by omega)
    have hback : (Int64.ofNat i).toInt.toNat = i := by rw [hx, Int.toNat_natCast]
    have hin : (Int64.ofNat i).toInt.toNat < len := by omega
    refine ⟨Int64.ofNat i, ⟨?_, ?_⟩, hin, ?_⟩
    · rw [Int64.le_iff_toInt_le, hx, Int64.toInt_zero]
      omega
    · rw [Int64.lt_iff_toInt_lt, hx, Int64.toInt_ofNat_of_lt small]
      omega
    · have hsame : (⟨(Int64.ofNat i).toInt.toNat, hin⟩ : Fin len) = i := Fin.ext hback
      rwa [hsame]

theorem index_lt {len : Nat} (small : len < 2 ^ 63) {x : Int64}
    (h : 0 ≤ x ∧ x < Int64.ofNat len) : x.toInt.toNat < len := by
  have h0 := Int64.le_iff_toInt_le.mp h.1
  have hx := Int64.lt_iff_toInt_lt.mp h.2
  rw [Int64.toInt_zero] at h0
  rw [Int64.toInt_ofNat_of_lt small] at hx
  omega

/-- An alternative is picked by its index. -/
theorem may_alternate {len : Nat} (small : len < 2 ^ 63) {sub : Fin len → Regexp}
    (h : ∀ i, Yields (fun _ (src : Source maxAlloc _) => (sub i).generate src 1)
      ((sub i).mayReturn = true) ((sub i).mayPanic = true)) :
    Yields (fun _ (src : Source maxAlloc _) => (Regexp.opAlternate len small sub).generate src 1)
      (∃ i, (sub i).mayReturn = true) (len = 0 ∨ ∃ i, (sub i).mayPanic = true) := by
  have hpick : ∀ x : Int64, Yields
      (fun _ (src : Source maxAlloc _) =>
        if h : x.toInt.toNat < len then (sub ⟨x.toInt.toNat, h⟩).generate src 1
        else throw .panic)
      (∃ h : x.toInt.toNat < len, (sub ⟨x.toInt.toNat, h⟩).mayReturn = true)
      (∀ h : x.toInt.toNat < len, (sub ⟨x.toInt.toNat, h⟩).mayPanic = true) := by
    intro x
    by_cases hx : x.toInt.toNat < len
    · refine (h ⟨x.toInt.toNat, hx⟩).congr (fun _ src r => ?_) ?_ ?_
      · rw [dif_pos hx]
      · exact ⟨fun h => ⟨hx, h⟩, fun ⟨_, h⟩ => h⟩
      · exact ⟨fun h _ => h, fun h => h hx⟩
    · refine May.fail.congr (fun _ src r => ?_) ?_ ?_
      · rw [dif_neg hx]
        rfl
      · exact ⟨False.elim, fun ⟨hlt, _⟩ => hx hlt⟩
      · exact iff_of_true trivial fun hlt => absurd hlt hx
  -- every index is drawn, and nothing but indices
  refine (May.bind (outcomes_randIntn (Int64.ofNat len)) hpick).congr (fun _ _ _ => rfl)
    (exists_index_iff small fun i => (sub i).mayReturn = true) ?_
  rw [← exists_index_iff small fun i => (sub i).mayPanic = true]
  constructor
  · rintro (hneg | ⟨x, hx, hpanic⟩)
    · refine Or.inl (Nat.eq_zero_of_not_pos fun hpos => hneg (ofNat_pos hpos small))
    · exact Or.inr ⟨x, hx, index_lt small hx, hpanic _⟩
  · rintro (rfl | ⟨x, hx, hlt, hpanic⟩)
    · exact Or.inl (by decide)
    · exact Or.inr ⟨x, hx, fun _ => hpanic⟩

/-- **What may happen is told from the expression.** -/
theorem may_generate (re : Regexp) :
    Yields (fun _ (src : Source maxAlloc _) => re.generate src 1) (re.mayReturn = true)
      (re.mayPanic = true) := by
  induction re with
  | opEmpty =>
      exact (May.pure "").congr (fun _ _ _ => rfl) (by simp [Regexp.mayReturn])
        (by simp [Regexp.mayPanic])
  | opLiteral runes =>
      exact (May.pure (String.join (runes.map runeText))).congr (fun _ _ _ => rfl)
        (by simp [Regexp.mayReturn]) (by simp [Regexp.mayPanic])
  | opCharClass ranges => exact may_drawClass ranges
  | opAnyCharNotNL =>
      exact (may_drawChar (by decide) (by decide)).congr (fun _ _ _ => rfl)
        (by simp [Regexp.mayReturn]) (by simp [Regexp.mayPanic])
  | opAnyChar =>
      exact (may_drawChar (by decide) (by decide)).congr (fun _ _ _ => rfl)
        (by simp [Regexp.mayReturn]) (by simp [Regexp.mayPanic])
  | opCapture sub ih => exact ih
  | opStar len sub ih =>
      exact (may_optional (may_subs ih)).congr (fun _ _ _ => rfl)
        (by simp [Regexp.mayReturn]) (by simp [Regexp.mayPanic])
  | opQuest len sub ih =>
      exact (may_optional (may_subs ih)).congr (fun _ _ _ => rfl)
        (by simp [Regexp.mayReturn]) (by simp [Regexp.mayPanic])
  | opPlus len sub ih =>
      -- one repetition at least, so the subexpression is always reached
      refine (may_counted (by decide) (may_subs ih) fun x => x.toInt.toNat + 1).congr
        (fun _ _ _ => rfl) ?_ ?_
      · simp [Regexp.mayReturn]
      · rw [Regexp.mayPanic, decide_eq_true_iff]
        exact and_iff_right ⟨0, by decide, by decide⟩
  | opRepeat min max len sub ih =>
      rw [Regexp.mayReturn, Regexp.mayPanic, decide_eq_true_iff, decide_eq_true_iff]
      by_cases h : (min : Int) < Min.min max (1 : Nat)
      -- the number of repetitions is drawn only between zero and one
      · obtain ⟨rfl, hmax⟩ : min = 0 ∧ Min.min max (1 : Nat) = 1 := by omega
        refine (may_optional (may_subs ih)).congr (fun _ src r => ?_) ?_ ?_
        · simp only [Regexp.generate, hmax]
          simp
        · simp
        · exact (and_iff_right (Or.inr (by omega))).symm
      · refine (may_repeated (may_subs ih) min).congr (fun _ src r => ?_) Iff.rfl ?_
        · simp only [Regexp.generate, if_neg h]
          simp
        · exact and_congr_left' ⟨Or.inl, fun hor => by omega⟩
  | opConcat len sub ih =>
      refine (may_subs ih).congr (fun _ _ _ => rfl) ?_ ?_
      · rw [Regexp.mayReturn, decide_eq_true_iff]
      · rw [Regexp.mayPanic, decide_eq_true_iff]
  | opAlternate len small sub ih =>
      rw [Regexp.mayReturn, Regexp.mayPanic, decide_eq_true_iff, decide_eq_true_iff]
      exact may_alternate small ih

/-- **A pattern of a source**: what its expression may do, if it is one. -/
theorem may_generateRegexString (parse : String → Except String Regexp) (regex : String) :
    Yields (fun _ (src : Source maxAlloc _) => (src.withReggen parse).generateRegexString regex)
      (∃ re, parse regex = .ok re ∧ re.mayReturn = true)
      (∃ re, parse regex = .ok re ∧ re.mayPanic = true) := by
  cases hparse : parse regex with
  | error text =>
      refine (May.error (e := Failure.error text) (by simp)).congr (fun _ src r => ?_)
        (by simp) (by simp)
      simp only [Source.withReggen, hparse]
  | ok re =>
      refine (may_seeded (may_generate re)).congr (fun _ src r => ?_) (by simp) (by simp)
      simp only [Source.withReggen, hparse]

end Hfrd.GoSdk
