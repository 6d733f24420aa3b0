/-
  Hfrd.GoSdk.ParamPanics

  Which items make `GetComplexArgs` and `GetTransientMap` panic
  (modules/gosdk/utilities/paramGenerator.go), over all random outcomes.

  The decoders stop at the first item that fails.  So an array can panic
  exactly if it has an item that can panic, behind items that can all return.
  For one item both are told from its text: from the bounds of a range, the
  expression of a pattern, and, where a key is asked for, from a separator.
-/

import Hfrd.GoSdk.RangeParams
import Hfrd.GoSdk.Reggen
import Hfrd.GoSdk.TransientMap
import Mathlib.Algebra.Ring.Int.Defs

namespace Hfrd.GoSdk

open Hfrd.Go Hfrd.Lib

variable {ρ : Type} {maxAlloc : Int64}

/-! ## One parameter -/

/-- Two numbers in order, of which `holds` is true. -/
def boundsHold (min max : String) (holds : Int64 → Int64 → Bool) : Bool :=
  match atoi min, atoi max with
  | some lo, some hi => decide (lo ≤ hi) && holds lo hi
  | _, _ => false

/-- The greatest number that a range draws. -/
def greatest (lo hi : Int64) : Int64 := if lo = hi then hi else hi - 1

/-- The difference of the bounds is an `int`. -/
def diffFits (lo hi : Int64) : Bool := decide (hi.toInt - lo.toInt < 2 ^ 63)

section Param

variable (maxAlloc : Int64) (parse : String → Except String Regexp)

/-- Some outcome gives a value. -/
def Param.mayReturn : Param → Bool
  | .literal _ | .sequentialString _ | .uuid => true
  | .stringPattern regex => match parse regex with
    | .ok re => re.mayReturn
    | .error _ => false
  | .intRange min max => boundsHold min max diffFits
  -- a length from zero up to the limit; the draw stays below `hi` unless the
  -- bounds are equal
  | .payloadRange min max =>
      boundsHold min max fun lo hi => diffFits lo hi &&
        decide (0 ≤ lo ∧ lo ≤ maxAlloc ∨ lo < 0 ∧ 0 < hi ∧ 0 ≤ maxAlloc)

/-- Some outcome panics: a pattern that does, a difference of the bounds that
    wraps, or a length that is negative or beyond the limit. -/
def Param.mayPanic : Param → Bool
  | .literal _ | .sequentialString _ | .uuid => false
  | .stringPattern regex => match parse regex with
    | .ok re => re.mayPanic
    | .error _ => false
  | .intRange min max => boundsHold min max fun lo hi => !diffFits lo hi
  | .payloadRange min max =>
      boundsHold min max fun lo hi => decide (lo < 0 ∨ maxAlloc < greatest lo hi)

end Param

theorem boundsHold_of_misordered {min max : String} (h : Misordered min max)
    (holds : Int64 → Int64 → Bool) : boundsHold min max holds = false := by
  unfold boundsHold
  split
  · next lo hi hmin hmax =>
      have hnot : ¬ lo ≤ hi := fun hle => not_misordered hmin hmax hle h
      rw [decide_eq_false hnot, Bool.false_and]
  · rfl

theorem boundsHold_of_le {min max : String} {lo hi : Int64} (hmin : atoi min = some lo)
    (hmax : atoi max = some hi) (hle : lo ≤ hi) (holds : Int64 → Int64 → Bool) :
    boundsHold min max holds = holds lo hi := by
  simp only [boundsHold, hmin, hmax, decide_eq_true hle, Bool.true_and]

/-- The letters are drawn without a failure. -/
theorem may_letters (n : Nat) :
    Yields (fun _ (src : Source maxAlloc _) r => .ok (src.letters n r)) True False := by
  induction n with
  | zero => exact (May.pure ([] : List Char)).congr (fun _ _ _ => rfl) Iff.rfl Iff.rfl
  | succ n ih =>
      refine ((may_randIntn 52).andThen fun i => ih.map fun cs =>
        letterBytes.toList.getD i.toInt.toNat 'a' :: cs).congr (fun _ _ _ => rfl) ?_ ?_
      · simp only [and_true]
        decide
      · simp only [and_false, or_false]
        decide

/-- Any text may be a UUID. -/
theorem may_newUUID :
    Yields (fun _ (src : Source maxAlloc _) r => .ok (src.newUUID r)) True False :=
  ⟨fun _ => True,
    { returns_of := fun _ => trivial
      fails_of := nofun
      attains := fun {text} _ => ⟨[.inr text], fun _ => rfl⟩
      attains_bad := False.elim },
    by simp⟩

/-- The numbers that a range can draw. -/
def Drawn (lo hi x : Int64) : Prop :=
  hi.toInt - lo.toInt < 2 ^ 63 ∧ lo ≤ x ∧ (x < hi ∨ lo = hi ∧ x = hi)

/-- The numbers drawn between bounds that are apart. -/
theorem drawn_iff {lo hi : Int64} (hlt : lo < hi) (x : Int64) :
    (∃ i, (0 ≤ i ∧ i < hi - lo) ∧ x = lo + i) ↔ Drawn lo hi x := by
  have hlo := lo.le_toInt
  have hhi := hi.toInt_lt
  constructor
  · rintro ⟨i, ⟨hnonneg, hbelow⟩, rfl⟩
    have hdiff := (sub_pos_iff hlt).mp (Int64.lt_of_le_of_lt hnonneg hbelow)
    have hok : RangeOk lo hi := ⟨Int64.le_of_lt hlt, hdiff⟩
    rw [Int64.le_iff_toInt_le, Int64.toInt_zero] at hnonneg
    rw [Int64.lt_iff_toInt_lt, hok.toInt_sub] at hbelow
    -- the difference does not wrap, so neither does the sum
    have hadd : (lo + i).toInt = lo.toInt + i.toInt := by
      rw [Int64.toInt_add]
      exact Int.bmod_eq_of_le (by omega) (by omega)
    refine ⟨hdiff, ?_, Or.inl ?_⟩
    · rw [Int64.le_iff_toInt_le, hadd]
      omega
    · rw [Int64.lt_iff_toInt_lt, hadd]
      omega
  · rintro ⟨hdiff, hx, hx' | ⟨rfl, -⟩⟩
    · have hok : RangeOk lo hi := ⟨Int64.le_of_lt hlt, hdiff⟩
      rw [Int64.le_iff_toInt_le] at hx
      rw [Int64.lt_iff_toInt_lt] at hx'
      have hsub : (x - lo).toInt = x.toInt - lo.toInt := by
        rw [Int64.toInt_sub]
        exact Int.bmod_eq_of_le (by omega) (by omega)
      refine ⟨x - lo, ⟨?_, ?_⟩, ?_⟩
      · rw [Int64.le_iff_toInt_le, hsub, Int64.toInt_zero]
        omega
      · rw [Int64.lt_iff_toInt_lt, hsub, hok.toInt_sub]
        omega
      · rw [← Int64.toInt_inj, Int64.toInt_add, hsub, Int.bmod_eq_of_le (by omega) (by omega)]
        omega
    · exact absurd hlt Int64.lt_irrefl

/-- A range of numbers in order: all numbers from `lo` and below `hi`. -/
theorem outcomes_drawRange {lo hi : Int64} (hle : lo ≤ hi) :
    Outcomes tapeSource .panic (fun _ (src : Source maxAlloc _) => src.drawRange lo hi)
      (Drawn lo hi) (2 ^ 63 ≤ hi.toInt - lo.toInt) := by
  by_cases heq : lo = hi
  -- equal bounds draw nothing
  · subst heq
    refine (Outcomes.pure lo).congr (fun _ src r => drawRange_self src lo r) (fun x => ?_) ?_
    · constructor
      · rintro rfl
        exact ⟨by omega, hle, Or.inr ⟨rfl, rfl⟩⟩
      · rintro ⟨-, hx, hlt | ⟨-, rfl⟩⟩
        · exact absurd hlt (Int64.not_lt.mpr hx)
        · rfl
    · constructor
      · exact False.elim
      · omega
  · have hlt := Int64.lt_of_le_of_ne hle heq
    refine ((outcomes_randIntn (hi - lo)).bind fun x => Outcomes.pure (lo + x)).congr
      (fun _ src r => ?_) (fun b => ?_) ?_
    · rw [Source.drawRange, if_neg heq]
      cases hdraw : src.randIntn (hi - lo) r with
      | error failure => rw [bind_of_error hdraw]
      | ok out => rw [bind_of_ok hdraw]; rfl
    · exact drawn_iff hlt b
    · simp only [and_false, exists_false, or_false]
      rw [sub_pos_iff hlt]
      omega

theorem drawn_lo {lo hi : Int64} (hle : lo ≤ hi) (hdiff : hi.toInt - lo.toInt < 2 ^ 63) :
    Drawn lo hi lo := by
  refine ⟨hdiff, Int64.le_refl lo, ?_⟩
  by_cases heq : lo = hi
  · exact Or.inr ⟨heq, heq⟩
  · exact Or.inl (Int64.lt_of_le_of_ne hle heq)

/-- A length that `make` accepts can be drawn. -/
theorem exists_drawn_length {lo hi : Int64} (hle : lo ≤ hi) :
    (∃ x, Drawn lo hi x ∧ ¬ (x < 0 ∨ maxAlloc < x)) ↔ hi.toInt - lo.toInt < 2 ^ 63 ∧
      (0 ≤ lo ∧ lo ≤ maxAlloc ∨ lo < 0 ∧ 0 < hi ∧ 0 ≤ maxAlloc) := by
  constructor
  · rintro ⟨x, ⟨hdiff, hlo, hx⟩, hlength⟩
    obtain ⟨hnonneg, hfits⟩ := not_or.mp hlength
    have hnonneg := Int64.not_lt.mp hnonneg
    have hfits := Int64.not_lt.mp hfits
    refine ⟨hdiff, ?_⟩
    by_cases hneg : lo < 0
    · refine Or.inr ⟨hneg, ?_, Int64.le_trans hnonneg hfits⟩
      rcases hx with hx | ⟨heq, hx⟩
      · exact Int64.lt_of_le_of_lt hnonneg hx
      · rw [heq, ← hx] at hneg
        exact absurd hneg (Int64.not_lt.mpr hnonneg)
    · exact Or.inl ⟨Int64.not_lt.mp hneg, Int64.le_trans hlo hfits⟩
  · rintro ⟨hdiff, ⟨hnonneg, hfits⟩ | ⟨hneg, hpos, hfits⟩⟩
    · refine ⟨lo, drawn_lo hle hdiff, not_or.mpr ⟨?_, ?_⟩⟩
      · exact Int64.not_lt.mpr hnonneg
      · exact Int64.not_lt.mpr hfits
    -- zero lies between the bounds
    · refine ⟨0, ⟨hdiff, Int64.le_of_lt hneg, Or.inl hpos⟩, not_or.mpr ⟨?_, ?_⟩⟩
      · exact Int64.lt_irrefl
      · exact Int64.not_lt.mpr hfits

/-- The greatest number is drawn, and none above it. -/
theorem drawn_greatest {lo hi : Int64} (hle : lo ≤ hi) (hnonneg : 0 ≤ lo) :
    Drawn lo hi (greatest lo hi) ∧ ∀ x, Drawn lo hi x → x ≤ greatest lo hi := by
  have hlo := Int64.le_iff_toInt_le.mp hnonneg
  have hhi := hi.toInt_lt
  rw [Int64.toInt_zero] at hlo
  unfold greatest
  by_cases heq : lo = hi
  · rw [if_pos heq]
    refine ⟨⟨by omega, hle, Or.inr ⟨heq, rfl⟩⟩, ?_⟩
    rintro x ⟨-, -, hx | ⟨-, rfl⟩⟩
    · exact Int64.le_of_lt hx
    · exact Int64.le_refl x
  · rw [if_neg heq]
    have hlt := Int64.lt_iff_toInt_lt.mp (Int64.lt_of_le_of_ne hle heq)
    have hpred : (hi - 1).toInt = hi.toInt - 1 := by
      rw [Int64.toInt_sub]
      exact Int.bmod_eq_of_le (by simp; omega) (by simp; omega)
    refine ⟨⟨by omega, ?_, Or.inl ?_⟩, ?_⟩
    · rw [Int64.le_iff_toInt_le, hpred]
      omega
    · rw [Int64.lt_iff_toInt_lt, hpred]
      omega
    · rintro x ⟨-, -, hx | ⟨hsame, -⟩⟩
      · rw [Int64.lt_iff_toInt_lt] at hx
        rw [Int64.le_iff_toInt_le, hpred]
        omega
      · exact absurd hsame heq

/-- The difference wraps, or a length that `make` panics on can be drawn: the
    lower bound is negative, or the greatest number is beyond the limit. -/
theorem wraps_or_drawn_bad {lo hi : Int64} (hle : lo ≤ hi) :
    (2 ^ 63 ≤ hi.toInt - lo.toInt ∨ ∃ x, Drawn lo hi x ∧ (x < 0 ∨ maxAlloc < x)) ↔
      lo < 0 ∨ maxAlloc < greatest lo hi := by
  by_cases hneg : lo < 0
  · refine iff_of_true ?_ (Or.inl hneg)
    by_cases hdiff : hi.toInt - lo.toInt < 2 ^ 63
    · exact Or.inr ⟨lo, drawn_lo hle hdiff, Or.inl hneg⟩
    · exact Or.inl (not_lt.mp hdiff)
  · have hnonneg := Int64.not_lt.mp hneg
    obtain ⟨hgreatest, hbelow⟩ := drawn_greatest hle hnonneg
    constructor
    · rintro (hwraps | ⟨x, hx, hbad | hlarge⟩)
      · have hdiff := hgreatest.1
        omega
      · exact absurd (Int64.lt_of_le_of_lt hx.2.1 hbad) hneg
      · exact Or.inr (Int64.lt_of_lt_of_le hlarge (hbelow x hx))
    · rintro (hlo | hlarge)
      · exact absurd hlo hneg
      · exact Or.inr ⟨_, hgreatest, Or.inr hlarge⟩

theorem letters_withReggen (src : Source maxAlloc ρ) (parse : String → Except String Regexp)
    (n : Nat) (r : ρ) : (src.withReggen parse).letters n r = src.letters n r := by
  induction n generalizing r with
  | zero => rfl
  | succ n ih =>
      simp only [Source.letters, ih]
      rfl

section Values

variable {parse : String → Except String Regexp} {min max : String} {lo hi : Int64}
  (hmin : atoi min = some lo) (hmax : atoi max = some hi) (hle : lo ≤ hi)
include hmin hmax hle

theorem may_intRange (loopIndex : Int64) :
    Yields (fun _ (src : Source maxAlloc _) =>
        (Param.intRange min max).getValue (src.withReggen parse) loopIndex)
      (hi.toInt - lo.toInt < 2 ^ 63) (2 ^ 63 ≤ hi.toInt - lo.toInt) := by
  refine ((outcomes_drawRange hle).may.map itoa).congr (fun _ src r => ?_) ?_ Iff.rfl
  · have hsame : (src.withReggen parse).drawRange lo hi r = src.drawRange lo hi r := rfl
    rw [getValue_intRange hmin hmax hle, hsame]
    cases hdraw : src.drawRange lo hi r with
    | error failure => rw [bind_of_error hdraw]
    | ok out => rw [bind_of_ok hdraw]; rfl
  · constructor
    · rintro ⟨x, hdiff, -⟩
      exact hdiff
    · exact fun hdiff => ⟨lo, drawn_lo hle hdiff⟩

theorem may_payloadRange (loopIndex : Int64) :
    Yields (fun _ (src : Source maxAlloc _) =>
        (Param.payloadRange min max).getValue (src.withReggen parse) loopIndex)
      (hi.toInt - lo.toInt < 2 ^ 63 ∧
        (0 ≤ lo ∧ lo ≤ maxAlloc ∨ lo < 0 ∧ 0 < hi ∧ 0 ≤ maxAlloc))
      (lo < 0 ∨ maxAlloc < greatest lo hi) := by
  have hlength : ∀ x : Int64, Yields
      (fun _ (src : Source maxAlloc _) r => if x < 0 ∨ maxAlloc < x then .error .panic
        else .ok (String.ofList (src.letters x.toInt.toNat r).1,
          (src.letters x.toInt.toNat r).2))
      (¬ (x < 0 ∨ maxAlloc < x)) (x < 0 ∨ maxAlloc < x) := by
    intro x
    by_cases hbad : x < 0 ∨ maxAlloc < x
    · exact May.fail.congr (fun _ src r => if_pos hbad) (iff_of_false id (not_not_intro hbad))
        (iff_of_true trivial hbad)
    · exact ((may_letters x.toInt.toNat).map String.ofList).congr (fun _ src r => if_neg hbad)
        (iff_of_true trivial hbad) (iff_of_false id hbad)
  -- whether `make` panics depends on the length that was drawn
  refine (May.bind (outcomes_drawRange hle) hlength).congr (fun _ src r => ?_)
    (exists_drawn_length hle) (wraps_or_drawn_bad hle)
  have hsame : (src.withReggen parse).drawRange lo hi r = src.drawRange lo hi r := rfl
  rw [getValue_payloadRange hmin hmax hle, hsame]
  cases hdraw : src.drawRange lo hi r with
  | error failure => rw [bind_of_error hdraw]
  | ok out => rw [bind_of_ok hdraw]; simp only [letters_withReggen]

end Values

/-- **What a parameter may do is told from its fields.** -/
theorem may_getValue (parse : String → Except String Regexp) (loopIndex : Int64) (p : Param) :
    Yields (fun _ (src : Source maxAlloc _) => p.getValue (src.withReggen parse) loopIndex)
      (p.mayReturn maxAlloc parse = true) (p.mayPanic maxAlloc parse = true) := by
  cases p with
  | literal value =>
      exact (May.pure value).congr (fun _ _ _ => rfl) (by simp [Param.mayReturn])
        (by simp [Param.mayPanic])
  | sequentialString value =>
      exact (May.pure (sequentialValue value loopIndex)).congr (fun _ _ _ => rfl)
        (by simp [Param.mayReturn]) (by simp [Param.mayPanic])
  | uuid =>
      exact (may_seeded (may_newUUID.map fun id => replaceChar id '-' "")).congr
        (fun _ _ _ => rfl) (by simp [Param.mayReturn]) (by simp [Param.mayPanic])
  | stringPattern regex =>
      refine (may_generateRegexString parse regex).congr (fun _ _ _ => rfl) ?_ ?_
      · cases hparse : parse regex with
        | error text => simp [Param.mayReturn, hparse]
        | ok re => simp [Param.mayReturn, hparse]
      · cases hparse : parse regex with
        | error text => simp [Param.mayPanic, hparse]
        | ok re => simp [Param.mayPanic, hparse]
  -- bounds that are out of order are an error before anything is drawn
  | intRange min max =>
      rw [Param.mayReturn, Param.mayPanic]
      by_cases hmis : Misordered min max
      · rw [boundsHold_of_misordered hmis, boundsHold_of_misordered hmis]
        obtain ⟨failure, hbounds, hne⟩ := rangeBounds_of_misordered hmis
          "IntegerRange error: integerMix is bigger than integerMax"
        exact (May.error hne).congr (fun _ src r => by simp only [Param.getValue, hbounds])
          (by simp) (by simp)
      · obtain ⟨lo, hi, hmin, hmax, hle⟩ := bounds_of_not_misordered hmis
        rw [boundsHold_of_le hmin hmax hle, boundsHold_of_le hmin hmax hle]
        exact (may_intRange hmin hmax hle loopIndex).congr (fun _ _ _ => rfl)
          (by simp [diffFits]) (by simp [diffFits])
  | payloadRange min max =>
      rw [Param.mayReturn, Param.mayPanic]
      by_cases hmis : Misordered min max
      · rw [boundsHold_of_misordered hmis, boundsHold_of_misordered hmis]
        obtain ⟨failure, hbounds, hne⟩ := rangeBounds_of_misordered hmis
          "PayloadRange error: payloadMin is bigger than payloadMax"
        exact (May.error hne).congr (fun _ src r => by simp only [Param.getValue, hbounds])
          (by simp) (by simp)
      · obtain ⟨lo, hi, hmin, hmax, hle⟩ := bounds_of_not_misordered hmis
        rw [boundsHold_of_le hmin hmax hle, boundsHold_of_le hmin hmax hle]
        exact (may_payloadRange hmin hmax hle loopIndex).congr (fun _ _ _ => rfl)
          (by simp [diffFits]) (by simp)

/-! ## One item -/

/-- The parts of an item, of which there is one at least. -/
theorem split_param (param : String) :
    Go.split param "~~~" = (Lib.split ['~', '~', '~'] param.toList).map String.ofList := rfl

theorem split_param_ne_nil (param : String) : Go.split param "~~~" ≠ [] := by
  rw [split_param]
  exact fun h => Lib.split_ne_nil '~' ['~', '~'] param.toList (List.map_eq_nil_iff.mp h)

/-- An item without a separator is a single part, and no other is. -/
theorem split_single_iff {param : String} :
    (∃ kind, Go.split param "~~~" = [kind]) ↔ ¬ contains param "~~~" = true := by
  rw [contains, decide_eq_true_iff, split_param]
  rcases split_cases '~' ['~', '~'] param.toList with ⟨hsplit, hnone⟩ | ⟨piece, rest, hs, hsplit⟩
  · exact iff_of_true ⟨param, by rw [hsplit]; simp⟩ hnone
  · refine iff_of_false ?_ (not_not_intro ⟨piece, rest, by rw [hs]; simp⟩)
    rintro ⟨kind, hkind⟩
    rw [hsplit] at hkind
    have hrest := (List.cons_eq_cons.mp hkind).2
    exact Lib.split_ne_nil '~' ['~', '~'] rest (List.map_eq_nil_iff.mp hrest)

section Items

variable (maxAlloc : Int64) (parse : String → Except String Regexp)

/-- An item of `GetComplexArgs` may give an argument. -/
def argMayReturn (param : String) : Bool :=
  match parseParam param with
  | .ok p => p.mayReturn maxAlloc parse
  | .error _ => false

/-- An item of `GetComplexArgs` may panic. -/
def argMayPanic (param : String) : Bool :=
  match parseParam param with
  | .ok p => p.mayPanic maxAlloc parse
  | .error _ => false

/-- An item of `GetTransientMap` may give an entry. -/
def entryMayReturn (param : String) : Bool :=
  match parseTransientParam param with
  | .ok (_, p) => p.mayReturn maxAlloc parse
  | .error _ => false

/-- Without a separator there is no key. -/
def entryMayPanic (param : String) : Bool :=
  !contains param "~~~" || match parseTransientParam param with
    | .ok (_, p) => p.mayPanic maxAlloc parse
    | .error _ => false

end Items

theorem parseParam_ne_panic (param : String) : parseParam param ≠ .error .panic := by
  unfold parseParam
  cases hparts : Go.split param "~~~" with
  | nil => exact absurd hparts (split_param_ne_nil param)
  | cons kind fields =>
      simp only
      split_ifs
      all_goals first | split <;> simp | simp

/-- The key is asked for before the kind is looked at. -/
theorem parseTransientParam_panic_iff {param : String} :
    parseTransientParam param = .error (.param .panic) ↔ ¬ contains param "~~~" = true := by
  rw [← split_single_iff]
  unfold parseTransientParam
  rcases hparts : Go.split param "~~~" with - | ⟨kind, - | ⟨mapKey, fields⟩⟩
  · exact absurd hparts (split_param_ne_nil param)
  · simp
  · refine iff_of_false ?_ (by simp)
    simp only
    split_ifs
    all_goals first | split <;> simp | simp

/-! ## Arrays -/

section Arrays

variable (maxAlloc) (parse : String → Except String Regexp) (loopIndex : Int64)

theorem may_complexArgsLoop (params : List String) :
    Yields (fun _ (src : Source maxAlloc _) =>
        complexArgsLoop (src.withReggen parse) loopIndex params)
      (∀ param ∈ params, argMayReturn maxAlloc parse param = true)
      (Reaches (fun param => argMayReturn maxAlloc parse param = true)
        (fun param => argMayPanic maxAlloc parse param = true) params) := by
  induction params with
  | nil => exact (May.pure []).congr (fun _ _ _ => rfl) (by simp) (by simp [Reaches])
  | cons param params ih =>
      rw [List.forall_mem_cons, Reaches, argMayReturn, argMayPanic]
      cases hparse : parseParam param with
      | error failure =>
          have hne : failure ≠ .panic := fun heq => parseParam_ne_panic param (heq ▸ hparse)
          exact (May.error hne).congr (fun _ _ _ => by simp only [complexArgsLoop, hparse])
            (by simp) (by simp)
      | ok p =>
          refine ((may_getValue parse loopIndex p).andThen fun arg => ih.map (arg :: ·)).congr
            (fun _ src r => ?_) Iff.rfl Iff.rfl
          simp only [complexArgsLoop, hparse]
          cases hvalue : p.getValue (src.withReggen parse) loopIndex r with
          | error failure => rw [bind_of_error hvalue]
          | ok out =>
              obtain ⟨arg, r₁⟩ := out
              rw [bind_of_ok hvalue]
              cases hrest : complexArgsLoop (src.withReggen parse) loopIndex params r₁ with
              | error failure => simp only [bind_of_error hrest, hrest]
              | ok out => simp only [bind_of_ok hrest, hrest]; rfl

theorem may_transientMapLoop (params : List String) (transientMapV : Fields) :
    May tapeSource (TransientFailure.param .panic)
      (fun _ (src : Source maxAlloc _) =>
        transientMapLoop (src.withReggen parse) loopIndex params transientMapV)
      (∀ param ∈ params, entryMayReturn maxAlloc parse param = true)
      (Reaches (fun param => entryMayReturn maxAlloc parse param = true)
        (fun param => entryMayPanic maxAlloc parse param = true) params) := by
  induction params generalizing transientMapV with
  | nil => exact (May.pure transientMapV).congr (fun _ _ _ => rfl) (by simp) (by simp [Reaches])
  | cons param params ih =>
      rw [List.forall_mem_cons, Reaches, entryMayReturn, entryMayPanic]
      cases hparse : parseTransientParam param with
      | error failure =>
          by_cases hsep : contains param "~~~" = true
          -- with a key, the decoder fails by errors only
          · have hne : failure ≠ .param .panic := fun heq =>
              parseTransientParam_panic_iff.mp (heq ▸ hparse) hsep
            exact (May.error hne).congr (fun _ _ _ => by simp only [transientMapLoop, hparse])
              (by simp) (by simp [hsep])
          · obtain rfl : failure = .param .panic := Except.error.inj
              (hparse.symm.trans (parseTransientParam_panic_iff.mpr hsep))
            exact May.fail.congr (fun _ _ _ => by simp only [transientMapLoop, hparse])
              (by simp) (by simp [hsep])
      | ok entry =>
          have hsep : contains param "~~~" = true := by
            by_contra hnone
            rw [parseTransientParam_panic_iff.mpr hnone] at hparse
            cases hparse
          have hparam : ∀ e, TransientFailure.param e = .param .panic ↔ e = .panic := by simp
          refine (((may_getValue parse loopIndex entry.2).mapError hparam).andThen fun arg =>
            ih (setField transientMapV entry.1 (transientValue arg))).congr
            (fun _ src r => ?_) Iff.rfl (by simp [hsep])
          simp only [transientMapLoop, hparse]
          cases hvalue : entry.2.getValue (src.withReggen parse) loopIndex r with
          | error failure => rw [bind_of_error (by rw [hvalue]; rfl)]
          | ok out => rw [bind_of_ok (by rw [hvalue]; rfl)]

/-- **The arrays that `GetComplexArgs` may panic on.** -/
theorem may_getComplexArgs (complexParams : List String) :
    Yields (fun _ (src : Source maxAlloc _) =>
        getComplexArgs (src.withReggen parse) complexParams loopIndex)
      (∀ param ∈ dropTrailing complexParams, argMayReturn maxAlloc parse param = true)
      (Reaches (fun param => argMayReturn maxAlloc parse param = true)
        (fun param => argMayPanic maxAlloc parse param = true) (dropTrailing complexParams)) := by
  cases complexParams with
  | nil =>
      exact (May.pure []).congr (fun _ _ _ => rfl) (by simp [dropTrailing])
        (by simp [dropTrailing, Reaches])
  | cons param params =>
      exact (may_seeded (may_complexArgsLoop maxAlloc parse loopIndex _)).congr (fun _ _ _ => rfl)
        Iff.rfl Iff.rfl

/-- **The arrays that `GetTransientMap` may panic on.** -/
theorem may_getTransientMap (complexParams : List String) :
    May tapeSource (TransientFailure.param .panic)
      (fun _ (src : Source maxAlloc _) =>
        getTransientMap (src.withReggen parse) complexParams loopIndex)
      (∀ param ∈ dropTrailing complexParams, entryMayReturn maxAlloc parse param = true)
      (Reaches (fun param => entryMayReturn maxAlloc parse param = true)
        (fun param => entryMayPanic maxAlloc parse param = true) (dropTrailing complexParams)) := by
  cases complexParams with
  | nil =>
      exact (May.pure []).congr (fun _ _ _ => rfl) (by simp [dropTrailing])
        (by simp [dropTrailing, Reaches])
  | cons param params =>
      have hloop := may_seeded (may_transientMapLoop maxAlloc parse loopIndex
        (dropTrailing (param :: params)) [])
      refine (hloop.map fun transientMapV => utf8 (Value.object transientMapV).text).congr
        (fun _ src r => ?_) Iff.rfl Iff.rfl
      simp only [getTransientMap]
      rw [if_neg (by simp)]
      cases hloop : transientMapLoop (src.withReggen parse) loopIndex
          (dropTrailing (param :: params)) [] ((src.withReggen parse).seed r) with
      | error failure =>
          refine Eq.symm (bind_of_error ?_)
          exact hloop
      | ok out =>
          refine Eq.symm (bind_of_ok ?_)
          exact hloop

end Arrays

end Hfrd.GoSdk
