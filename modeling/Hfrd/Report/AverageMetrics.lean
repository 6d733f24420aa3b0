/-
  Hfrd.Report.AverageMetrics

  `generateAverageMetrics` of the report generator
  (backend/jenkins/pipelines/ansible/utils/report_gen.py): the sum of the
  samples of a window, divided by an expression that is computed apart from
  the sum.

  The sum goes over the samples that the window includes, whatever the window
  is (`sumSamples_eq`).  The divisor is the number of these samples, but for
  one branch: where the window ends past the last sample, the code counts one
  sample too many, and divides by zero where the window starts one sample past
  the end.
-/

import Mathlib.Algebra.BigOperators.Group.List.Basic
import Mathlib.Algebra.Order.Ring.Rat
import Mathlib.Algebra.Order.Field.Basic
import Mathlib.Data.Rat.Cast.Defs
import Mathlib.Tactic.Linarith

namespace Hfrd.Report

/-- What stops a run of the script. -/
inductive PyError
  | ZeroDivisionError
  | IndexError
  | KeyError (key : String)
  | ValueError
deriving DecidableEq

/-- `a / b` of two numbers of which one is a float. -/
def trueDiv (a b : ℚ) : Except PyError ℚ :=
  if b = 0 then .error .ZeroDivisionError else .ok (a / b)

theorem trueDiv_of_ne {a b : ℚ} (hb : b ≠ 0) : trueDiv a b = .ok (a / b) := if_neg hb

theorem trueDiv_zero {a : ℚ} : trueDiv a 0 = .error .ZeroDivisionError := if_pos rfl

/-! ## The code -/

/-- One turn of the loop `for index, item in enumerate(metrics)`; the item is
    `float(item[1])`. -/
def addSample (len : Nat) (inter_s inter_e : Int) (summary : ℚ) (item : ℚ × Nat) : ℚ :=
  if inter_e < 1 then
    if len < 3 then summary + item.1
    else if item.2 ≠ 0 ∧ item.2 ≠ len - 1 then summary + item.1
    else summary
  else if (item.2 : Int) ≥ inter_s ∧ (item.2 : Int) ≤ inter_e then summary + item.1
  else summary

/-- `summary` after the loop. -/
def sumSamples (metrics : List ℚ) (inter_s inter_e : Int) : ℚ :=
  metrics.zipIdx.foldl (addSample metrics.length inter_s inter_e) 0

/-- `generateAverageMetrics`: the value `avg_val` that is written. -/
def generateAverageMetrics (metrics : List ℚ) (inter_s inter_e : Int) : Except PyError ℚ :=
  let summary := sumSamples metrics inter_s inter_e
  let len := (metrics.length : Int)
  if inter_e < 1 then
    if len > 0 ∧ len ≤ 2 then trueDiv summary (len : ℚ)
    else if len > 2 then trueDiv summary ((len - 2 : Int) : ℚ)
    else .ok 0
  -- the samples from `inter_s` on are `len - inter_s`
  else if len - 1 < inter_e then trueDiv summary ((len - inter_s + 1 : Int) : ℚ)
  else trueDiv summary ((inter_e - inter_s + 1 : Int) : ℚ)

/-! ## The samples of a window -/

/-- The sample with this index is part of the average: without a window all of
    fewer than three samples and all but the first and the last of more, and
    with a window those in it. -/
def Included (len : Nat) (inter_s inter_e : Int) (index : Nat) : Prop :=
  if inter_e < 1 then len < 3 ∨ 0 < index ∧ index + 1 < len
  else inter_s ≤ index ∧ index ≤ inter_e

instance (len : Nat) (inter_s inter_e : Int) (index : Nat) :
    Decidable (Included len inter_s inter_e index) := by
  unfold Included; infer_instance

/-- The samples that are part of the average. -/
def included (metrics : List ℚ) (inter_s inter_e : Int) : List ℚ :=
  (metrics.zipIdx.filter fun item => Included metrics.length inter_s inter_e item.2).map Prod.fst

/-- The report gives an average, and it is the average of the samples. -/
def Averaged (metrics : List ℚ) (inter_s inter_e : Int) : Prop :=
  ∃ avg_val, generateAverageMetrics metrics inter_s inter_e = .ok avg_val ∧
    (included metrics inter_s inter_e ≠ [] →
      avg_val = (included metrics inter_s inter_e).sum / (included metrics inter_s inter_e).length)

/-- A turn of the loop adds the sample if it is included. -/
theorem addSample_eq {len : Nat} {inter_s inter_e : Int} {summary : ℚ} {item : ℚ × Nat}
    (hi : item.2 < len) :
    addSample len inter_s inter_e summary item =
      summary + if Included len inter_s inter_e item.2 then item.1 else 0 := by
  have hlast : item.2 ≠ 0 ∧ item.2 ≠ len - 1 ↔ 0 < item.2 ∧ item.2 + 1 < len := by omega
  unfold addSample Included
  by_cases he : inter_e < 1
  · simp only [he, if_true, hlast]
    by_cases hl : len < 3 <;> by_cases hm : 0 < item.2 ∧ item.2 + 1 < len <;> simp [hl, hm]
  · simp only [he, if_false]
    by_cases hw : inter_s ≤ item.2 ∧ item.2 ≤ inter_e <;> simp [hw]

theorem foldl_addSample {len : Nat} {inter_s inter_e : Int} (items : List (ℚ × Nat)) (summary : ℚ)
    (hi : ∀ item ∈ items, item.2 < len) :
    items.foldl (addSample len inter_s inter_e) summary =
      summary +
        ((items.filter fun item => Included len inter_s inter_e item.2).map Prod.fst).sum := by
  induction items generalizing summary with
  | nil => simp
  | cons item items ih =>
      rw [List.foldl_cons, addSample_eq (hi item (by simp)),
        ih _ fun x hx => hi x (List.mem_cons_of_mem _ hx)]
      by_cases hinc : Included len inter_s inter_e item.2
      · simp [hinc, add_assoc]
      · simp [hinc]

/-- The loop sums the samples of the average, for every window. -/
theorem sumSamples_eq (metrics : List ℚ) (inter_s inter_e : Int) :
    sumSamples metrics inter_s inter_e = (included metrics inter_s inter_e).sum := by
  rw [sumSamples, foldl_addSample _ 0, zero_add, included]
  intro item hitem
  have := List.snd_lt_of_mem_zipIdx hitem
  omega

/-! ## A window as a piece of the list -/

/-- The elements whose index lies between `a` and `b`. -/
theorem filter_zipIdx_between {α : Type*} (l : List α) (a b k : Nat) :
    ((l.zipIdx k).filter fun item => a ≤ item.2 ∧ item.2 < b).map Prod.fst =
      (l.take (b - k)).drop (a - k) := by
  induction l generalizing k with
  | nil => simp
  | cons x l ih =>
      rw [List.zipIdx_cons, List.filter_cons]
      by_cases hin : a ≤ k ∧ k < b
      -- in the window nothing is dropped any more
      · obtain ⟨m, hm⟩ : ∃ m, b - k = m + 1 := ⟨b - k - 1, by omega⟩
        rw [if_pos (decide_eq_true hin), List.map_cons, ih, hm, List.take_succ_cons,
          show a - k = 0 by omega, show a - (k + 1) = 0 by omega, show b - (k + 1) = m by omega]
        rfl
      · rw [if_neg (by simpa using hin), ih]
        by_cases hb : k < b
        -- before the window: one element less is taken and one less is dropped
        · obtain ⟨m, hm⟩ : ∃ m, b - k = m + 1 := ⟨b - k - 1, by omega⟩
          obtain ⟨n, hn⟩ : ∃ n, a - k = n + 1 := ⟨a - k - 1, by omega⟩
          rw [hm, hn, List.take_succ_cons, List.drop_succ_cons,
            show a - (k + 1) = n by omega, show b - (k + 1) = m by omega]
        · rw [show b - k = 0 by omega, show b - (k + 1) = 0 by omega, List.take_zero,
            List.take_zero, List.drop_nil, List.drop_nil]

theorem included_of_lt {metrics : List ℚ} {inter_s inter_e : Int} (he : inter_e < 1)
    (hl : metrics.length < 3) : included metrics inter_s inter_e = metrics := by
  simp [included, Included, he, hl, List.zipIdx_map_fst]

theorem included_inner {metrics : List ℚ} {inter_s inter_e : Int} (he : inter_e < 1)
    (hl : 3 ≤ metrics.length) :
    included metrics inter_s inter_e = (metrics.take (metrics.length - 1)).drop 1 := by
  rw [← Nat.sub_zero (metrics.length - 1), ← Nat.sub_zero 1, ← filter_zipIdx_between,
    included]
  congr 1
  apply List.filter_congr
  intro item _
  simp only [Included, he, if_true, Nat.sub_zero, decide_eq_decide]
  omega

theorem included_window {metrics : List ℚ} {inter_s inter_e : Int} (hs : 0 ≤ inter_s)
    (he : ¬ inter_e < 1) :
    included metrics inter_s inter_e =
      (metrics.take (inter_e + 1).toNat).drop inter_s.toNat := by
  rw [← Nat.sub_zero (inter_e + 1).toNat, ← Nat.sub_zero inter_s.toNat, ← filter_zipIdx_between,
    included]
  congr 1
  apply List.filter_congr
  intro item _
  simp only [Included, he, if_false, decide_eq_decide]
  omega

/-! ## The divisor -/

/-- Where the code divides the sum by `d`. -/
theorem averaged_trueDiv {metrics : List ℚ} {inter_s inter_e d : Int}
    (hgen : generateAverageMetrics metrics inter_s inter_e =
      trueDiv (sumSamples metrics inter_s inter_e) (d : ℚ)) :
    Averaged metrics inter_s inter_e ↔
      d ≠ 0 ∧ (included metrics inter_s inter_e ≠ [] →
        (included metrics inter_s inter_e).sum / (d : ℚ) =
          (included metrics inter_s inter_e).sum / (included metrics inter_s inter_e).length) := by
  rw [Averaged, hgen, sumSamples_eq]
  by_cases hd : d = 0
  · subst hd
    rw [Int.cast_zero, trueDiv_zero]
    constructor
    · rintro ⟨_, habs, _⟩
      cases habs
    · rintro ⟨hne, _⟩
      exact absurd rfl hne
  · rw [trueDiv_of_ne (Int.cast_ne_zero.mpr hd)]
    constructor
    · rintro ⟨avg_val, hok, havg⟩
      cases hok
      exact ⟨hd, havg⟩
    · rintro ⟨_, havg⟩
      exact ⟨_, rfl, havg⟩

/-- A divisor that is the number of the samples. -/
theorem averaged_of_divisor {metrics : List ℚ} {inter_s inter_e d : Int}
    (hgen : generateAverageMetrics metrics inter_s inter_e =
      trueDiv (sumSamples metrics inter_s inter_e) (d : ℚ))
    (hpos : d ≠ 0)
    (hlen : d = (included metrics inter_s inter_e).length) :
    Averaged metrics inter_s inter_e := by
  refine (averaged_trueDiv hgen).mpr ⟨hpos, fun _ => ?_⟩
  rw [hlen, Int.cast_natCast]

theorem averaged_no_window {metrics : List ℚ} {inter_s inter_e : Int} (he : inter_e < 1) :
    Averaged metrics inter_s inter_e := by
  by_cases h3 : metrics.length < 3
  · by_cases h0 : metrics.length = 0
    -- no sample, and no division
    · refine ⟨0, by simp [generateAverageMetrics, he, h0], fun hne => ?_⟩
      rw [included_of_lt he h3] at hne
      exact absurd (List.eq_nil_of_length_eq_zero h0) hne
    · apply averaged_of_divisor (d := metrics.length)
      · have hle : (metrics.length : Int) ≤ 2 := by omega
        have hgt : (metrics.length : Int) > 0 := by omega
        simp only [generateAverageMetrics, he, if_true, hgt, hle, and_self]
      · omega
      · rw [included_of_lt he h3]
  · apply averaged_of_divisor (d := metrics.length - 2)
    · have hle : ¬ (metrics.length : Int) ≤ 2 := by omega
      have hgt : (metrics.length : Int) > 2 := by omega
      simp only [generateAverageMetrics, he, if_true, hgt, hle, and_false, if_false]
    · omega
    · rw [included_inner he (by omega), List.length_drop, List.length_take]
      omega

/-- A window that ends in the list. -/
theorem averaged_window {metrics : List ℚ} {inter_s inter_e : Int} (hs : 0 ≤ inter_s)
    (hse : inter_s ≤ inter_e) (he : ¬ inter_e < 1) (hlast : inter_e < metrics.length) :
    Averaged metrics inter_s inter_e := by
  apply averaged_of_divisor (d := inter_e - inter_s + 1)
  · have hin : ¬ (metrics.length : Int) - 1 < inter_e := by omega
    simp only [generateAverageMetrics, he, if_false, hin]
  · omega
  · rw [included_window hs he, List.length_drop, List.length_take]
    omega

/-- A sum divided by `k + 1` and by `k` gives the same only if it is zero. -/
theorem eq_zero_of_div_succ {x : ℚ} {k : Nat} (hk : 0 < k)
    (hx : x / (((k : Int) + 1 : Int) : ℚ) = x / (k : ℚ)) : x = 0 := by
  have hpos : (0 : ℚ) < k := Nat.cast_pos.mpr hk
  rw [Int.cast_add, Int.cast_natCast, Int.cast_one,
    div_eq_div_iff (ne_of_gt (by linarith)) (ne_of_gt hpos)] at hx
  linarith

/-- A window that ends past the list includes the samples from its start on,
    and the code counts one more. -/
theorem averaged_past_end {metrics : List ℚ} {inter_s inter_e : Int} (hs : 0 ≤ inter_s)
    (he : ¬ inter_e < 1) (hlast : ¬ inter_e < metrics.length) :
    Averaged metrics inter_s inter_e ↔
      inter_s ≠ metrics.length + 1 ∧ (metrics.drop inter_s.toNat).sum = 0 := by
  have hout : (metrics.length : Int) - 1 < inter_e := by omega
  have hinc : included metrics inter_s inter_e = metrics.drop inter_s.toNat := by
    rw [included_window hs he, List.take_of_length_le (by omega)]
  rw [averaged_trueDiv (d := metrics.length - inter_s + 1)
    (by simp only [generateAverageMetrics, he, if_false, hout, if_true]), hinc]
  apply and_congr
  · constructor
    · intro h habs
      omega
    · intro h habs
      omega
  · constructor
    · intro havg
      by_cases hnil : metrics.drop inter_s.toNat = []
      · rw [hnil, List.sum_nil]
      · have hpos := List.length_pos_of_ne_nil hnil
        -- the divisor is the number of the samples and one
        have hd : (metrics.length : Int) - inter_s + 1 =
            ((metrics.drop inter_s.toNat).length : Int) + 1 := by
          rw [List.length_drop] at hpos ⊢
          omega
        rw [hd] at havg
        exact eq_zero_of_div_succ hpos (havg hnil)
    · intro hsum _
      rw [hsum, zero_div, zero_div]

/-- The report gives the average of the samples that the window includes,
    unless the window ends past the last sample: then the sum of the samples
    has to be zero and the window must not start one sample past the end. -/
theorem averaged_iff {metrics : List ℚ} {inter_s inter_e : Int} (hs : 0 ≤ inter_s)
    (hse : inter_s ≤ inter_e) :
    Averaged metrics inter_s inter_e ↔
      inter_e < 1 ∨ inter_e < metrics.length ∨
        inter_s ≠ metrics.length + 1 ∧ (metrics.drop inter_s.toNat).sum = 0 := by
  by_cases he : inter_e < 1
  · exact iff_of_true (averaged_no_window he) (Or.inl he)
  · by_cases hlast : inter_e < metrics.length
    · exact iff_of_true (averaged_window hs hse he hlast) (Or.inr (Or.inl hlast))
    · rw [averaged_past_end hs he hlast]
      constructor
      · intro h
        exact Or.inr (Or.inr h)
      · rintro (h | h | h)
        · exact absurd h he
        · exact absurd h hlast
        · exact h

/-- Ten samples and the window 2-4. -/
theorem averaged_iff_inner_window :
    Averaged [1, 2, 3, 4, 5, 6, 7, 8, 9, 10] 2 4 :=
  (averaged_iff (by decide) (by decide)).mpr (Or.inr (Or.inl (by decide)))

/-- Two samples of 3 and the window 0-5: the report says 2.  An empty list and
    the window 1-1: the script divides by zero. -/
theorem window_past_end :
    (generateAverageMetrics [3, 3] 0 5 = .ok 2 ∧ included [3, 3] 0 5 = [3, 3] ∧
      ¬ Averaged [3, 3] 0 5) ∧
    generateAverageMetrics [] 1 1 = .error .ZeroDivisionError ∧ ¬ Averaged [] 1 1 := by
  have hval : generateAverageMetrics [3, 3] 0 5 = .ok 2 := by decide +kernel
  have hinc : included [3, 3] 0 5 = [3, 3] := by decide
  have hzero : generateAverageMetrics [] 1 1 = .error .ZeroDivisionError := by decide +kernel
  refine ⟨⟨hval, hinc, ?_⟩, hzero, ?_⟩
  · rintro ⟨avg_val, hok, havg⟩
    rw [hval] at hok
    cases hok
    rw [hinc] at havg
    exact absurd (havg (by simp)) (by decide +kernel)
  · rintro ⟨avg_val, hok, _⟩
    rw [hzero] at hok
    cases hok

end Hfrd.Report
