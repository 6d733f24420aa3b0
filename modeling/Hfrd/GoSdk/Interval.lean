/-
  Hfrd.GoSdk.Interval

  Reading the interval between two iterations, and a delay (NewInterval in
  modules/gosdk/common/base.go).

  The patterns match any text that has the unit somewhere, so it is the float
  parser that decides, on the text without its first unit.
-/

import Hfrd.Go.ParseFloat
import Mathlib.Computability.RegularExpressions

namespace Hfrd.GoSdk

open Hfrd.Go

/-! ## The patterns -/

/-- `[0-9]` -/
def digitClass : RegularExpression Char :=
  "0123456789".toList.foldr (fun c r => RegularExpression.char c + r) 0

/-- `[0-9]*\.?[0-9]*` with a unit behind it. -/
def intervalPattern (unit : Char) : RegularExpression Char :=
  RegularExpression.star digitClass * (1 + RegularExpression.char '.') *
    RegularExpression.star digitClass * RegularExpression.char unit

/-- `MatchString`: some part of the text matches. -/
def matchString (r : RegularExpression Char) (p : List Char) : Bool :=
  p.tails.any fun t => t.inits.any r.rmatch

theorem matchString_iff {r : RegularExpression Char} {p : List Char} :
    matchString r p = true ↔ ∃ s, s <:+: p ∧ r.rmatch s = true := by
  simp only [matchString, List.any_eq_true, List.mem_tails, List.mem_inits]
  constructor
  · rintro ⟨t, ht, s, hs, hmatch⟩
    exact ⟨s, hs.isInfix.trans ht.isInfix, hmatch⟩
  · rintro ⟨s, hs, hmatch⟩
    obtain ⟨t, hprefix, hsuffix⟩ := List.infix_iff_prefix_suffix.mp hs
    exact ⟨t, hsuffix, s, hprefix, hmatch⟩

/-- All a pattern asks for is the unit. -/
theorem matchString_intervalPattern {unit : Char} {p : List Char} :
    matchString (intervalPattern unit) p = true ↔ unit ∈ p := by
  rw [matchString_iff]
  constructor
  · rintro ⟨s, hs, hmatch⟩
    obtain ⟨t, u, rfl, -, hu⟩ := (RegularExpression.mul_rmatch_iff _ _ s).mp hmatch
    obtain rfl := (RegularExpression.char_rmatch_iff unit u).mp hu
    exact hs.subset (List.mem_append_right t List.mem_cons_self)
  · intro hunit
    refine ⟨[unit], (List.singleton_infix_iff unit p).mpr hunit, ?_⟩
    have hnil : (RegularExpression.star digitClass * (1 + RegularExpression.char '.') *
        RegularExpression.star digitClass).rmatch [] = true := rfl
    exact (RegularExpression.mul_rmatch_iff _ _ _).mpr
      ⟨[], [unit], rfl, hnil, (RegularExpression.char_rmatch_iff _ _).mpr rfl⟩

/-! ## Intervals -/

/-- The type of an interval that is always the same. -/
def FIXED : Int := 0
/-- The type of an interval that is drawn. -/
def RANDOM : Int := 1

/-- `Interval` -/
structure Interval where
  mark : GoFloat
  intervalType : Int
  deriving DecidableEq

/-- `NewInterval`; no result is a panic.  `strings.Replace` with a count of one
    removes the first occurrence. -/
def newInterval (p : List Char) : Option Interval :=
  let fixed := intervalPattern 's'
  let random := intervalPattern 'r'
  if matchString fixed p then
    match parseFloat (p.erase 's') with
    | some v => some ⟨v, FIXED⟩
    | none => none
  else if matchString random p then
    match parseFloat (p.erase 'r') with
    | some v => some ⟨v, RANDOM⟩
    | none => none
  else none

/-! ## The grammar -/

/-- The text that is parsed: the first `s` is removed, or the first `r` where
    there is no `s`. -/
def withoutUnit (p : List Char) : Option (List Char) :=
  if 's' ∈ p then some (p.erase 's') else if 'r' ∈ p then some (p.erase 'r') else none

/-- A numeral and a unit behind it. -/
inductive InGrammar : List Char → ℚ → Int → Prop where
  | fixed {numeral : List Char} {value : ℚ} (h : Numeral numeral value) :
      InGrammar (numeral ++ ['s']) value FIXED
  | random {numeral : List Char} {value : ℚ} (h : Numeral numeral value) :
      InGrammar (numeral ++ ['r']) value RANDOM

/-- What the grammar asks of `NewInterval`. -/
structure FollowsGrammar (p : List Char) : Prop where
  accepts : (newInterval p).isSome = true ↔ ∃ value intervalType, InGrammar p value intervalType
  reads : ∀ value intervalType, InGrammar p value intervalType →
    newInterval p = some ⟨.finite value, intervalType⟩
  mark : ∀ interval, newInterval p = some interval →
    ∃ value, interval.mark = .finite value ∧ 0 ≤ value

theorem newInterval_isSome_iff {p : List Char} : (newInterval p).isSome = true ↔
    ∃ rest f, withoutUnit p = some rest ∧ FloatText rest f := by
  have hparsed : ∀ (s : List Char) (intervalType : Int), (match parseFloat s with
      | some v => some (⟨v, intervalType⟩ : Interval)
      | none => none).isSome = true ↔ ∃ f, FloatText s f := by
    intro s intervalType
    simp only [← parseFloat_eq_some_iff]
    cases parseFloat s <;> simp
  unfold newInterval withoutUnit
  simp only [matchString_intervalPattern]
  split
  · rw [hparsed]
    simp
  · split
    · rw [hparsed]
      simp
    · simp

/-- The units are in no numeral. -/
theorem not_mem_numeral {numeral : List Char} {value : ℚ} (h : Unsigned numeral value) {unit : Char}
    (hunit : isFloatChar unit = false) : unit ∉ numeral := fun hmem => by
  rw [isFloatChar_of_unsigned h unit hmem] at hunit
  cases hunit

theorem newInterval_of_inGrammar {p : List Char} (hlength : p.length ≤ 300) {value : ℚ}
    {intervalType : Int} (h : InGrammar p value intervalType) :
    newInterval p = some ⟨.finite value, intervalType⟩ := by
  have hparsed : ∀ {numeral : List Char}, Unsigned numeral value →
      parseFloat numeral = some (.finite value) := fun h =>
    parseFloat_eq_some_iff.mpr (floatText_of_unsigned h)
  unfold newInterval
  simp only [matchString_intervalPattern]
  cases h with
  | @fixed numeral _ h =>
      rw [List.length_append] at hlength
      have hunsigned := unsigned_of_numeral h (by omega)
      have hs : 's' ∉ numeral := not_mem_numeral hunsigned (by decide)
      rw [if_pos (List.mem_append_right numeral List.mem_cons_self), List.erase_append_right _ hs,
        List.erase_cons_head, List.append_nil, hparsed hunsigned]
  | @random numeral _ h =>
      rw [List.length_append] at hlength
      have hunsigned := unsigned_of_numeral h (by omega)
      have hs : 's' ∉ numeral ++ ['r'] := fun hmem =>
        (List.mem_append.mp hmem).elim (not_mem_numeral hunsigned (by decide)) (by decide)
      have hr : 'r' ∉ numeral := not_mem_numeral hunsigned (by decide)
      rw [if_neg hs, if_pos (List.mem_append_right numeral List.mem_cons_self),
        List.erase_append_right _ hr, List.erase_cons_head, List.append_nil, hparsed hunsigned]

theorem nonneg_of_inGrammar {p : List Char} {value : ℚ} {intervalType : Int}
    (h : InGrammar p value intervalType) : 0 ≤ value := by
  cases h with
  | fixed h => exact nonneg_of_numeral h
  | random h => exact nonneg_of_numeral h

/-- **When an interval is read by the grammar.**  A text of up to 300 characters
    is, exactly if it is in the grammar, or has no unit, or is no float without
    its first unit. -/
theorem newInterval_followsGrammar_iff {p : List Char} (hlength : p.length ≤ 300) :
    FollowsGrammar p ↔ (∃ value intervalType, InGrammar p value intervalType) ∨
      ∀ rest, withoutUnit p = some rest → ∀ f, ¬ FloatText rest f := by
  constructor
  · intro h
    -- what is accepted is in the grammar
    refine or_iff_not_imp_left.mpr fun hno rest hrest f htext => hno ?_
    exact h.accepts.mp (newInterval_isSome_iff.mpr ⟨rest, f, hrest, htext⟩)
  · rintro (⟨value, intervalType, hgrammar⟩ | hno)
    · have hread := newInterval_of_inGrammar hlength hgrammar
      refine ⟨⟨fun _ => ⟨value, intervalType, hgrammar⟩, fun _ => by rw [hread]; rfl⟩,
        fun _ _ h => newInterval_of_inGrammar hlength h, fun interval hinterval => ?_⟩
      obtain rfl := Option.some.inj (hread.symm.trans hinterval)
      exact ⟨value, rfl, nonneg_of_inGrammar hgrammar⟩
    -- nothing is accepted, so the grammar has to have no such text
    · have hnone : newInterval p = none := by
        refine Option.not_isSome_iff_eq_none.mp fun hsome => ?_
        obtain ⟨rest, f, hrest, htext⟩ := newInterval_isSome_iff.mp hsome
        exact hno rest hrest f htext
      have hgrammar : ∀ value intervalType, ¬ InGrammar p value intervalType :=
        fun value intervalType h => by
          have hread := newInterval_of_inGrammar hlength h
          rw [hnone] at hread
          cases hread
      refine ⟨⟨fun h => ?_, fun ⟨value, intervalType, h⟩ => absurd h (hgrammar _ _)⟩,
        fun value intervalType h => absurd h (hgrammar _ _), fun interval h => ?_⟩
      · rw [hnone] at h
        cases h
      · rw [hnone] at h
        cases h

/-- An interval of one second and a half. -/
theorem newInterval_followsGrammar_iff_fixed : FollowsGrammar "1.5s".toList :=
  (newInterval_followsGrammar_iff (by decide)).mpr
    (Or.inl ⟨_, _, .fixed (@Numeral.point ['1'] ['5'] _ (Or.inl (by decide)) rfl)⟩)

/-- A negative interval, an infinite one, an exponent, an underscore, and a unit
    in front. -/
theorem negative_interval :
    newInterval "-1s".toList = some ⟨.finite (-1), FIXED⟩ ∧
      newInterval "infs".toList = some ⟨.inf false, FIXED⟩ ∧
      newInterval "1e3r".toList = some ⟨.finite 1000, RANDOM⟩ ∧
      newInterval "1_0s".toList = some ⟨.finite 10, FIXED⟩ ∧
      newInterval "s1".toList = some ⟨.finite 1, FIXED⟩ ∧
      "-1s".toList.length ≤ 300 ∧ ¬ FollowsGrammar "-1s".toList := by
  have hread : newInterval "-1s".toList = some ⟨.finite (-1), FIXED⟩ := by decide +kernel
  refine ⟨hread, by decide +kernel, by decide +kernel, by decide +kernel, by decide +kernel,
    by decide, fun h => ?_⟩
  obtain ⟨value, hvalue, hnonneg⟩ := h.mark _ hread
  obtain rfl : -1 = value := GoFloat.finite.inj hvalue
  exact absurd hnonneg (by decide)

end Hfrd.GoSdk
