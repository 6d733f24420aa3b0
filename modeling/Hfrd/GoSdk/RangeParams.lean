/-
  Hfrd.GoSdk.RangeParams

  What the range parameters can generate: `GetValue` of `IntegerRange` and
  `PayloadRange` (modules/gosdk/utilities/paramGenerator.go) over all random
  outcomes.

  `rand.Intn(max - min)` stays below its argument, so a draw never reaches the
  upper bound, unless the bounds are equal.  The difference may also wrap, and
  a payload may be negative or longer than the runtime can allocate: then
  `Intn` or `make` panics.
-/

import Hfrd.GoSdk.ParamGenerator

namespace Hfrd.GoSdk

open Hfrd.Go

variable {ρ : Type} {maxAlloc : Int64}

/-! ## All outcomes -/

section Documented

variable (maxAlloc)

/-- Some outcome of the generators gives `arg`. -/
def Attains (p : Param) (arg : String) : Prop :=
  ∃ (ρ : Type) (src : Source maxAlloc ρ) (loopIndex : Int64) (r r' : ρ),
    p.getValue src loopIndex r = .ok (arg, r')

/-- What is asked of a range: `rejected` says which bounds it rejects, and
    `reads arg v` that the argument stands for the number `v`. -/
structure Documented (p : Param) (min max : String) (rejected : Prop)
    (reads : String → Int64 → Prop) : Prop where
  no_panic : ∀ (ρ : Type) (src : Source maxAlloc ρ) (loopIndex : Int64) (r : ρ),
    p.getValue src loopIndex r ≠ .error .panic
  error_iff : ∀ (ρ : Type) (src : Source maxAlloc ρ) (loopIndex : Int64) (r : ρ),
    (∃ failure, p.getValue src loopIndex r = .error failure) ↔ rejected
  sound : ∀ arg, Attains maxAlloc p arg → ∃ lo hi v, atoi min = some lo ∧ atoi max = some hi ∧
    reads arg v ∧ lo ≤ v ∧ v ≤ hi
  complete : ¬ rejected → ∀ lo hi, atoi min = some lo → atoi max = some hi →
    ∀ v, lo ≤ v → v ≤ hi → ∃ arg, Attains maxAlloc p arg ∧ reads arg v

/-- A bound is no `int`, or the bounds are out of order. -/
def Misordered (min max : String) : Prop :=
  atoi min = none ∨ atoi max = none ∨
    ∃ lo hi, atoi min = some lo ∧ atoi max = some hi ∧ hi < lo

/-- The lower bound is negative. -/
def NegativeMin (min : String) : Prop := ∃ lo, atoi min = some lo ∧ lo < 0

/-- The argument is the number. -/
def ReadsNumber (arg : String) (v : Int64) : Prop := arg = itoa v

/-- The argument has this length and consists of letters. -/
def ReadsLength (arg : String) (v : Int64) : Prop :=
  (arg.toList.length : Int) = v.toInt ∧ ∀ c ∈ arg.toList, c ∈ letterBytes.toList

/-- `IntegerRange.GetValue` does what is documented. -/
def IntRangeDocumented (min max : String) : Prop :=
  Documented maxAlloc (.intRange min max) min max (Misordered min max) ReadsNumber

/-- `PayloadRange.GetValue` does what is documented. -/
def PayloadRangeDocumented (min max : String) : Prop :=
  Documented maxAlloc (.payloadRange min max) min max (Misordered min max ∨ NegativeMin min)
    ReadsLength

end Documented

/-! ## One draw -/

/-- Two numbers out of order, or no numbers. -/
theorem rangeBounds_of_misordered {min max : String} (h : Misordered min max)
    (text : String) : ∃ failure, rangeBounds min max text = .error failure ∧ failure ≠ .panic := by
  unfold rangeBounds
  rcases h with hmin | hmax | ⟨lo, hi, hmin, hmax, hlt⟩
  · rw [hmin]
    exact ⟨_, rfl, by simp⟩
  · rw [hmax]
    cases atoi min with
    | none => exact ⟨_, rfl, by simp⟩
    | some lo => exact ⟨_, rfl, by simp⟩
  · rw [hmin, hmax]
    exact ⟨_, if_pos hlt, by simp⟩

theorem rangeBounds_of_le {min max : String} {lo hi : Int64} (hmin : atoi min = some lo)
    (hmax : atoi max = some hi) (hle : lo ≤ hi) (text : String) :
    rangeBounds min max text = .ok (lo, hi) := by
  simp only [rangeBounds, hmin, hmax, if_neg (Int64.not_lt.mpr hle)]

theorem not_misordered {min max : String} {lo hi : Int64} (hmin : atoi min = some lo)
    (hmax : atoi max = some hi) (hle : lo ≤ hi) : ¬ Misordered min max := by
  rintro (hnone | hnone | ⟨lo', hi', hmin', hmax', hlt⟩)
  · rw [hmin] at hnone
    cases hnone
  · rw [hmax] at hnone
    cases hnone
  · rw [hmin] at hmin'
    rw [hmax] at hmax'
    cases hmin'
    cases hmax'
    exact Int64.not_lt.mpr hle hlt

/-- The bounds of a range that is not rejected. -/
theorem bounds_of_not_misordered {min max : String} (h : ¬ Misordered min max) :
    ∃ lo hi, atoi min = some lo ∧ atoi max = some hi ∧ lo ≤ hi := by
  unfold Misordered at h
  cases hmin : atoi min with
  | none => exact absurd (Or.inl hmin) h
  | some lo =>
      cases hmax : atoi max with
      | none => exact absurd (Or.inr (Or.inl hmax)) h
      | some hi =>
          refine ⟨lo, hi, rfl, rfl, Int64.not_lt.mp fun hlt => ?_⟩
          exact h (Or.inr (Or.inr ⟨lo, hi, hmin, hmax, hlt⟩))

theorem drawRange_self (src : Source maxAlloc ρ) (lo : Int64) (r : ρ) :
    src.drawRange lo lo r = .ok (lo, r) := if_pos rfl

/-- The difference of two bounds that are apart is positive unless it wraps. -/
theorem sub_pos_iff {lo hi : Int64} (hlt : lo < hi) :
    0 < hi - lo ↔ hi.toInt - lo.toInt < 2 ^ 63 := by
  rw [Int64.lt_iff_toInt_lt] at hlt
  rw [Int64.lt_iff_toInt_lt, Int64.toInt_zero]
  constructor
  · intro hpos
    by_contra hdiff
    have hlo := lo.le_toInt
    have hhi := hi.toInt_lt
    rw [Int64.toInt_sub, Int.bmod] at hpos
    split at hpos
    · omega
    · omega
  · intro hdiff
    have hok : RangeOk lo hi := ⟨Int64.le_iff_toInt_le.mpr (by omega), hdiff⟩
    rw [hok.toInt_sub]
    omega

/-- Bounds that are not equal panic, or the draw stays below the upper one. -/
theorem drawRange_of_lt {lo hi : Int64} (hlt : lo < hi) (src : Source maxAlloc ρ) (r : ρ) :
    src.drawRange lo hi r = .error .panic ∨
      ∃ x r', src.drawRange lo hi r = .ok (x, r') ∧ x < hi := by
  have hne := Int64.ne_of_lt hlt
  by_cases hpos : 0 < hi - lo
  · have hdiff := (sub_pos_iff hlt).mp hpos
    have hok : RangeOk lo hi := ⟨Int64.le_of_lt hlt, hdiff⟩
    have hnonneg := Int64.le_iff_toInt_le.mp (src.intn_nonneg (hi - lo) r hpos)
    have hbelow := Int64.lt_iff_toInt_lt.mp (src.intn_lt (hi - lo) r hpos)
    rw [Int64.toInt_zero] at hnonneg
    rw [hok.toInt_sub] at hbelow
    have hlo := lo.le_toInt
    have hhi := hi.toInt_lt
    refine Or.inr ⟨lo + (src.intn (hi - lo) r).1, (src.intn (hi - lo) r).2, ?_, ?_⟩
    · simp only [Source.drawRange, if_neg hne, Source.randIntn, if_pos hpos]
    · rw [Int64.lt_iff_toInt_lt, Int64.toInt_add, Int.bmod_eq_of_le (by omega) (by omega)]
      omega
  -- the difference wraps to a number that is not positive
  · exact Or.inl (by simp only [Source.drawRange, if_neg hne, Source.randIntn, if_neg hpos])

/-- Random letters: as many as asked for, and letters. -/
theorem letters_spec (src : Source maxAlloc ρ) (n : Nat) (r : ρ) :
    (src.letters n r).1.length = n ∧ ∀ c ∈ (src.letters n r).1, c ∈ letterBytes.toList := by
  induction n generalizing r with
  | zero => exact ⟨rfl, by simp [Source.letters]⟩
  | succ n ih =>
      obtain ⟨hlen, hmem⟩ := ih (src.intn 52 r).2
      refine ⟨congrArg (· + 1) hlen, fun c hc => ?_⟩
      rcases List.mem_cons.mp hc with rfl | hc
      · rw [List.getD_eq_getElem?_getD]
        cases hget : letterBytes.toList[(src.intn 52 r).1.toInt.toNat]? with
        | none => decide
        | some c => exact List.mem_of_getElem? hget
      · exact hmem c hc

/-! ## Attaining a number -/

/-- A draw that is always zero. -/
def zeroDraw (_ : Int64) (r : Unit) : Int64 × Unit := (0, r)

theorem zeroDraw_nonneg (n : Int64) (r : Unit) (_ : 0 < n) : 0 ≤ (zeroDraw n r).1 :=
  Int64.le_refl 0

theorem zeroDraw_lt (n : Int64) (r : Unit) (h : 0 < n) : (zeroDraw n r).1 < n := h

/-- A source that always gives the same. -/
def constSource : Source maxAlloc Unit where
  seed r := r
  intn := zeroDraw
  newUUID r := ("", r)
  generateRegexString _ r := .ok ("", r)
  intn_nonneg := zeroDraw_nonneg
  intn_lt := zeroDraw_lt

section Values

variable {min max : String} {lo hi : Int64} (hmin : atoi min = some lo)
  (hmax : atoi max = some hi)
include hmin hmax

/-- An integer range is its draw. -/
theorem getValue_intRange (hle : lo ≤ hi) (src : Source maxAlloc ρ) (loopIndex : Int64) (r : ρ) :
    (Param.intRange min max).getValue src loopIndex r =
      match src.drawRange lo hi r with
      | .error failure => .error failure
      | .ok (x, r) => .ok (itoa x, r) := by
  cases hdraw : src.drawRange lo hi r with
  | error failure => simp only [Param.getValue, rangeBounds_of_le hmin hmax hle, hdraw]
  | ok out => simp only [Param.getValue, rangeBounds_of_le hmin hmax hle, hdraw]

theorem getValue_payloadRange (hle : lo ≤ hi) (src : Source maxAlloc ρ) (loopIndex : Int64)
    (r : ρ) : (Param.payloadRange min max).getValue src loopIndex r =
      match src.drawRange lo hi r with
      | .error failure => .error failure
      | .ok (x, r) =>
          if x < 0 ∨ maxAlloc < x then .error .panic
          else .ok (String.ofList (src.letters x.toInt.toNat r).1,
            (src.letters x.toInt.toNat r).2) := by
  cases hdraw : src.drawRange lo hi r with
  | error failure => simp only [Param.getValue, rangeBounds_of_le hmin hmax hle, hdraw]
  | ok out => simp only [Param.getValue, rangeBounds_of_le hmin hmax hle, hdraw]

/-- An integer range never gives its upper bound, unless it is the lower one. -/
theorem not_documented_intRange (hlt : lo < hi) : ¬ IntRangeDocumented maxAlloc min max := by
  have hle := Int64.le_of_lt hlt
  intro h
  obtain ⟨_, ⟨ρ, src, loopIndex, r, r', hvalue⟩, rfl⟩ :=
    h.complete (not_misordered hmin hmax hle) lo hi hmin hmax hi hle (Int64.le_refl hi)
  rw [getValue_intRange hmin hmax hle] at hvalue
  rcases drawRange_of_lt hlt src r with hpanic | ⟨x, r'', hdraw, hx⟩
  · rw [hpanic] at hvalue
    cases hvalue
  · rw [hdraw] at hvalue
    have hsame : itoa x = itoa hi := congrArg Prod.fst (Except.ok.inj hvalue)
    exact Int64.ne_of_lt hx (itoa_injective hsame)

theorem not_documented_payloadRange (hlt : lo < hi) :
    ¬ PayloadRangeDocumented maxAlloc min max := by
  have hle := Int64.le_of_lt hlt
  intro h
  by_cases hneg : NegativeMin min
  -- a negative length is drawn, or `Intn` panics: no error in either case
  · have hnp := h.no_panic Unit constSource 0 ()
    rw [getValue_payloadRange hmin hmax hle] at hnp
    obtain ⟨lo', hmin', hlo⟩ := hneg
    obtain rfl : lo = lo' := Option.some.inj (hmin.symm.trans hmin')
    have hne := Int64.ne_of_lt hlt
    by_cases hpos : 0 < hi - lo
    · have hdraw : (@constSource maxAlloc).drawRange lo hi () = .ok (lo, ()) := by
        simp only [Source.drawRange, if_neg hne, Source.randIntn, if_pos hpos, constSource,
          zeroDraw, Int64.add_zero]
      rw [hdraw] at hnp
      exact hnp (if_pos (Or.inl hlo))
    · have hdraw : (@constSource maxAlloc).drawRange lo hi () = .error .panic := by
        simp only [Source.drawRange, if_neg hne, Source.randIntn, if_neg hpos]
      rw [hdraw] at hnp
      exact hnp rfl
  · have hnot : ¬ (Misordered min max ∨ NegativeMin min) := by
      rintro (hmis | hmis)
      · exact not_misordered hmin hmax hle hmis
      · exact hneg hmis
    obtain ⟨arg, ⟨ρ, src, loopIndex, r, r', hvalue⟩, hlen, _⟩ :=
      h.complete hnot lo hi hmin hmax hi hle (Int64.le_refl hi)
    rw [getValue_payloadRange hmin hmax hle] at hvalue
    rcases drawRange_of_lt hlt src r with hpanic | ⟨x, r'', hdraw, hx⟩
    · rw [hpanic] at hvalue
      cases hvalue
    · rw [hdraw] at hvalue
      simp only at hvalue
      split at hvalue
      · cases hvalue
      · next hx0 =>
          cases hvalue
          rw [String.toList_ofList, (letters_spec src _ r'').1] at hlen
          rw [Int64.lt_iff_toInt_lt] at hx
          rw [not_or, Int64.lt_iff_toInt_lt, Int64.toInt_zero] at hx0
          omega

end Values

/-! ## What is documented holds for -/

theorem attains_of_ok {p : Param} {arg : String} {src : Source maxAlloc ρ} {loopIndex : Int64}
    {r r' : ρ} (h : p.getValue src loopIndex r = .ok (arg, r')) : Attains maxAlloc p arg :=
  ⟨ρ, src, loopIndex, r, r', h⟩

/-- A range that always fails, and never by a panic. -/
theorem documented_of_rejected {p : Param} {min max : String} {rejected : Prop}
    {reads : String → Int64 → Prop} (hrejected : rejected)
    (hfails : ∀ (ρ : Type) (src : Source maxAlloc ρ) (loopIndex : Int64) (r : ρ),
      ∃ failure, p.getValue src loopIndex r = .error failure ∧ failure ≠ .panic) :
    Documented maxAlloc p min max rejected reads where
  no_panic ρ src loopIndex r := by
    obtain ⟨failure, hvalue, hne⟩ := hfails ρ src loopIndex r
    rw [hvalue]
    exact fun heq => hne (Except.error.inj heq)
  error_iff ρ src loopIndex r := by
    obtain ⟨failure, hvalue, _⟩ := hfails ρ src loopIndex r
    exact iff_of_true ⟨failure, hvalue⟩ hrejected
  sound arg harg := by
    obtain ⟨ρ, src, loopIndex, r, r', hok⟩ := harg
    obtain ⟨failure, hvalue, _⟩ := hfails ρ src loopIndex r
    rw [hvalue] at hok
    cases hok
  complete hnot := absurd hrejected hnot

/-- A range of a single number, which every outcome gives. -/
theorem documented_of_single {p : Param} {min max : String} {rejected : Prop}
    {reads : String → Int64 → Prop} {n : Int64} (hmin : atoi min = some n)
    (hmax : atoi max = some n) (hnot : ¬ rejected)
    (hgives : ∀ (ρ : Type) (src : Source maxAlloc ρ) (loopIndex : Int64) (r : ρ),
      ∃ arg r', p.getValue src loopIndex r = .ok (arg, r') ∧ reads arg n) :
    Documented maxAlloc p min max rejected reads where
  no_panic ρ src loopIndex r := by
    obtain ⟨arg, r', hvalue, _⟩ := hgives ρ src loopIndex r
    rw [hvalue]
    simp
  error_iff ρ src loopIndex r := by
    obtain ⟨arg, r', hvalue, _⟩ := hgives ρ src loopIndex r
    rw [hvalue]
    exact iff_of_false (by simp) hnot
  sound arg harg := by
    obtain ⟨ρ, src, loopIndex, r, r', hok⟩ := harg
    obtain ⟨arg', r'', hvalue, hreads⟩ := hgives ρ src loopIndex r
    rw [hvalue] at hok
    cases hok
    exact ⟨n, n, n, hmin, hmax, hreads, Int64.le_refl n, Int64.le_refl n⟩
  complete _ lo hi hlo hhi v hle hge := by
    obtain rfl : n = lo := Option.some.inj (hmin.symm.trans hlo)
    obtain rfl : n = hi := Option.some.inj (hmax.symm.trans hhi)
    obtain rfl : v = n := Int64.le_antisymm hge hle
    obtain ⟨arg, r', hvalue, hreads⟩ := hgives Unit constSource 0 ()
    exact ⟨arg, attains_of_ok hvalue, hreads⟩

/-- The bounds of a range are rejected, or equal, or apart. -/
theorem bounds_cases (min max : String) :
    Misordered min max ∨ (∃ n, atoi min = some n ∧ atoi max = some n) ∨
      ∃ lo hi, atoi min = some lo ∧ atoi max = some hi ∧ lo < hi := by
  by_cases hmis : Misordered min max
  · exact Or.inl hmis
  · obtain ⟨lo, hi, hmin, hmax, hle⟩ := bounds_of_not_misordered hmis
    by_cases heq : lo = hi
    · exact Or.inr (Or.inl ⟨lo, hmin, heq ▸ hmax⟩)
    · exact Or.inr (Or.inr ⟨lo, hi, hmin, hmax, Int64.lt_of_le_of_ne hle heq⟩)

/-- Bounds that are apart are in order and not equal. -/
theorem not_single {min max : String} {lo hi : Int64} (hmin : atoi min = some lo)
    (hmax : atoi max = some hi) (hlt : lo < hi) :
    ¬ (Misordered min max ∨ ∃ n, atoi min = some n ∧ atoi max = some n) := by
  rintro (hmis | ⟨n, hmin', hmax'⟩)
  · exact not_misordered hmin hmax (Int64.le_of_lt hlt) hmis
  · obtain rfl : lo = n := Option.some.inj (hmin.symm.trans hmin')
    exact Int64.ne_of_lt hlt (Option.some.inj (hmax'.symm.trans hmax))

theorem intRangeDocumented_iff (min max : String) :
    IntRangeDocumented maxAlloc min max ↔
      Misordered min max ∨ ∃ n, atoi min = some n ∧ atoi max = some n := by
  rcases bounds_cases min max with hmis | ⟨n, hmin, hmax⟩ | ⟨lo, hi, hmin, hmax, hlt⟩
  · refine iff_of_true (documented_of_rejected hmis fun ρ src loopIndex r => ?_) (Or.inl hmis)
    obtain ⟨failure, hbounds, hne⟩ := rangeBounds_of_misordered hmis
      "IntegerRange error: integerMix is bigger than integerMax"
    exact ⟨failure, by simp only [Param.getValue, hbounds], hne⟩
  · refine iff_of_true (documented_of_single hmin hmax
      (not_misordered hmin hmax (Int64.le_refl n)) fun ρ src loopIndex r => ?_)
      (Or.inr ⟨n, hmin, hmax⟩)
    refine ⟨itoa n, r, ?_, rfl⟩
    rw [getValue_intRange hmin hmax (Int64.le_refl n), drawRange_self]
  · exact iff_of_false (not_documented_intRange hmin hmax hlt) (not_single hmin hmax hlt)

/-- A length that `make` panics on, whatever the outcome. -/
theorem not_documented_length {min max : String} {n : Int64} (hmin : atoi min = some n)
    (hmax : atoi max = some n) (hbad : n < 0 ∨ maxAlloc < n) :
    ¬ PayloadRangeDocumented maxAlloc min max := by
  intro h
  have hnp := h.no_panic Unit constSource 0 ()
  rw [getValue_payloadRange hmin hmax (Int64.le_refl n), drawRange_self] at hnp
  exact hnp (if_pos hbad)

theorem payloadRangeDocumented_iff (min max : String) :
    PayloadRangeDocumented maxAlloc min max ↔ Misordered min max ∨
      ∃ n, atoi min = some n ∧ atoi max = some n ∧ 0 ≤ n ∧ n ≤ maxAlloc := by
  -- the bounds are out of order, the same, or apart
  rcases bounds_cases min max with hmis | ⟨n, hmin, hmax⟩ | ⟨lo, hi, hmin, hmax, hlt⟩
  · refine iff_of_true (documented_of_rejected (Or.inl hmis) fun ρ src loopIndex r => ?_)
      (Or.inl hmis)
    obtain ⟨failure, hbounds, hne⟩ := rangeBounds_of_misordered hmis
      "PayloadRange error: payloadMin is bigger than payloadMax"
    exact ⟨failure, by simp only [Param.getValue, hbounds], hne⟩
  · have hmis := not_misordered hmin hmax (Int64.le_refl n)
    by_cases hbad : n < 0 ∨ maxAlloc < n
    -- one length only: it has to be one that can be allocated
    · refine iff_of_false (not_documented_length hmin hmax hbad) ?_
      rintro (h | ⟨m, hmin', _, hpos, hfits⟩)
      · exact hmis h
      · obtain rfl : n = m := Option.some.inj (hmin.symm.trans hmin')
        rcases hbad with hneg | hlarge
        · exact Int64.not_lt.mpr hpos hneg
        · exact Int64.not_lt.mpr hfits hlarge
    · obtain ⟨hneg, hlarge⟩ := not_or.mp hbad
      have hnot : ¬ (Misordered min max ∨ NegativeMin min) := by
        rintro (h | ⟨m, hmin', hlt⟩)
        · exact hmis h
        · obtain rfl : n = m := Option.some.inj (hmin.symm.trans hmin')
          exact hneg hlt
      refine iff_of_true (documented_of_single hmin hmax hnot fun ρ src loopIndex r => ?_)
        (Or.inr ⟨n, hmin, hmax, Int64.not_lt.mp hneg, Int64.not_lt.mp hlarge⟩)
      obtain ⟨hlen, hletters⟩ := letters_spec src n.toInt.toNat r
      refine ⟨String.ofList (src.letters n.toInt.toNat r).1, (src.letters n.toInt.toNat r).2,
        ?_, ?_, ?_⟩
      · rw [getValue_payloadRange hmin hmax (Int64.le_refl n), drawRange_self]
        exact if_neg hbad
      · have hnonneg := Int64.le_iff_toInt_le.mp (Int64.not_lt.mp hneg)
        rw [Int64.toInt_zero] at hnonneg
        rw [String.toList_ofList, hlen]
        omega
      · rw [String.toList_ofList]
        exact hletters
  -- the maximum is never drawn
  · refine iff_of_false (not_documented_payloadRange hmin hmax hlt) fun h => ?_
    refine not_single hmin hmax hlt (h.imp_right ?_)
    rintro ⟨n, hmin', hmax', _⟩
    exact ⟨n, hmin', hmax'⟩

/-- Both ranges do what is documented for the bounds that they reject and for
    equal bounds, which for a payload must be a length that `make` accepts. -/
theorem ranges_documented_iff (maxAlloc : Int64) (min max : String) :
    (IntRangeDocumented maxAlloc min max ↔
        Misordered min max ∨ ∃ n, atoi min = some n ∧ atoi max = some n) ∧
      (PayloadRangeDocumented maxAlloc min max ↔ Misordered min max ∨
        ∃ n, atoi min = some n ∧ atoi max = some n ∧ 0 ≤ n ∧ n ≤ maxAlloc) :=
  ⟨intRangeDocumented_iff min max, payloadRangeDocumented_iff min max⟩

/-- The ranges of the documentation, 0-100 and 1024-2048; a negative length,
    and one of 2^62. -/
theorem range_without_maximum :
    ¬ IntRangeDocumented linuxMaxAlloc "0" "100" ∧
      ¬ PayloadRangeDocumented linuxMaxAlloc "1024" "2048" ∧
      ¬ PayloadRangeDocumented linuxMaxAlloc "-1" "-1" ∧
      ¬ PayloadRangeDocumented linuxMaxAlloc "4611686018427387904" "4611686018427387904" := by
  refine ⟨?_, ?_, ?_, ?_⟩
  · exact not_documented_intRange (by decide) (by decide) (by decide : (0 : Int64) < 100)
  · exact not_documented_payloadRange (by decide) (by decide) (by decide : (1024 : Int64) < 2048)
  · exact not_documented_length (by decide) (by decide) (Or.inl (by decide : (-1 : Int64) < 0))
  · exact not_documented_length (by decide) (by decide)
      (Or.inr (by decide : linuxMaxAlloc < 4611686018427387904))

end Hfrd.GoSdk
