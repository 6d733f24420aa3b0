/-
  Hfrd.Go.JsonWords

  Replacing a word that starts with an upper case letter in the indented text
  of a value: every key and string has it replaced, and nothing else holds it.
-/

import Hfrd.Go.JsonReplace
import Mathlib.Algebra.GroupWithZero.Nat
import Mathlib.Algebra.Order.BigOperators.Group.List

namespace Hfrd.Go

open Hfrd.Lib

/-! ## Letters -/

theorem not_isUpper_of_mem_escapeTail {c : Char} (h : c ∈ escapeTail) : c.isUpper = false :=
  by simpa using List.all_eq_true.mp (rfl : (escapeTail.all fun c => !c.isUpper) = true) c h

theorem ne_of_isUpper {c d : Char} (hc : c.isUpper = true) (hd : d.isUpper = false) : c ≠ d := by
  rintro rfl
  rw [hc] at hd
  cases hd

theorem not_isUpper_of_isNumeralChar {c : Char} (h : isNumeralChar c = true) :
    c.isUpper = false := by
  simp only [isNumeralChar, Bool.or_eq_true, beq_iff_eq] at h
  rcases h with (((h | rfl) | rfl) | rfl) | rfl
  · rw [Char.isDigit, Bool.and_eq_true, decide_eq_true_eq, decide_eq_true_eq] at h
    refine decide_eq_false fun hupper => ?_
    have hle := UInt32.le_iff_toNat_le.mp h.2
    have hge := UInt32.le_iff_toNat_le.mp hupper.1
    exact absurd (hge.trans hle) (by decide)
  all_goals decide

/-! ## Replacing a word -/

/-- The replacement of a word in a string. -/
def replaceWord (word new : List Char) (s : String) : String :=
  String.ofList (replaceAll word new s.toList)

section Word

variable {o : Char} {word new : List Char} (ho : o.isUpper = true)
  (hword : ∀ c ∈ o :: word, isPlain c = true)

include ho hword

theorem replaceAll_escaped (hnew : ∀ c ∈ new, isPlain c = true) (s : List Char) :
    replaceAll (o :: word) new (s.flatMap escapeChar)
      = (replaceAll (o :: word) new s).flatMap escapeChar := by
  refine replaceAll_flatMap (fun c => ?_) (flatMap_escapeChar_of_isPlain hword)
    (flatMap_escapeChar_of_isPlain hnew) s
  have hback : '\\' ∉ o :: word := fun h => absurd (hword _ h) (by decide)
  rcases escapeChar_cases c with ⟨hc, -⟩ | rfl | ⟨r, hc, hr⟩
  · exact .inl hc
  · refine .inr ⟨⟨'\\', ['"'], rfl, hback⟩, fun h => ?_⟩
    simp only [escapeChar, if_true, List.mem_cons, List.not_mem_nil, or_false] at h
    rcases h with rfl | rfl <;> exact absurd ho (by decide)
  · refine .inr ⟨⟨'\\', r, hc, hback⟩, fun h => ?_⟩
    rw [hc, List.mem_cons] at h
    rcases h with rfl | h
    · exact absurd ho (by decide)
    · rw [not_isUpper_of_mem_escapeTail (hr o h)] at ho
      cases ho

theorem replaceAll_quote (hnew : ∀ c ∈ new, isPlain c = true) (s : String) (rest : List Char) :
    replaceAll (o :: word) new (quote s ++ rest)
      = quote (replaceWord (o :: word) new s) ++ replaceAll (o :: word) new rest := by
  -- no occurrence reaches over a quote
  have hquote : '"' ∉ o :: word := fun h => absurd (hword _ h) (by decide)
  have hopen : o ∉ ['"'] := by
    rw [List.mem_singleton]
    exact ne_of_isUpper ho (by decide)
  have hsplit : quote s ++ rest = ['"'] ++ (s.toList.flatMap escapeChar ++ '"' :: rest) := by
    simp [quote]
  rw [hsplit, replaceAll_append_of_head hopen,
    replaceAll_append_cons (List.cons_ne_nil o word) hquote, replaceAll_escaped ho hword hnew]
  simp [quote, replaceWord]

theorem replaceAll_body (hnew : ∀ c ∈ new, isPlain c = true) (l : Line) :
    replaceAll (o :: word) new l.body = (l.mapStrings (replaceWord (o :: word) new)).body := by
  have hkey : ∀ rest, replaceAll (o :: word) new (keyText l.key ++ rest)
      = keyText (l.key.map (replaceWord (o :: word) new)) ++ replaceAll (o :: word) new rest := by
    intro rest
    cases l.key with
    | none => rfl
    | some key =>
        have hcolon : o ∉ [':', ' '] := by
          simp only [List.mem_cons, List.not_mem_nil, or_false, not_or]
          exact ⟨ne_of_isUpper ho (by decide), ne_of_isUpper ho (by decide)⟩
        rw [keyText, List.append_assoc, replaceAll_quote ho hword hnew,
          replaceAll_append_of_head hcolon, ← List.append_assoc]
        rfl
  have hcomma : replaceAll (o :: word) new (commaText l.comma) = commaText l.comma := by
    refine replaceAll_of_head ?_ _ _
    cases l.comma with
    | true =>
        rw [commaText, if_pos rfl, List.mem_singleton]
        exact ne_of_isUpper ho (by decide)
    | false => exact List.not_mem_nil
  -- what is no key and no string has no upper case letter
  have hfixed : ∀ text : List Char, (∀ c ∈ text, c.isUpper = false) →
      replaceAll (o :: word) new (text ++ commaText l.comma) = text ++ commaText l.comma := by
    intro text htext
    rw [replaceAll_append_of_head fun h => ne_of_isUpper ho (htext o h) rfl, hcomma]
  obtain ⟨key, core, comma⟩ := l
  rw [Line.body, List.append_assoc, hkey]
  cases core with
  | scalar s =>
      cases s with
      | null =>
          rw [Core.text, hfixed _ (by simp [Scalar.text])]
          exact (List.append_assoc _ _ _).symm
      | bool b =>
          rw [Core.text, hfixed _ (by cases b <;> simp [Scalar.text])]
          exact (List.append_assoc _ _ _).symm
      | number n =>
          rw [Core.text, Scalar.text, hfixed _ fun c hc =>
            not_isUpper_of_isNumeralChar (List.all_eq_true.mp n.numeral.2 c hc)]
          exact (List.append_assoc _ _ _).symm
      | string s =>
          rw [Core.text, Scalar.text, replaceAll_quote ho hword hnew, hcomma]
          exact (List.append_assoc _ _ _).symm
  | brackets cs h =>
      rw [Core.text, hfixed _ fun c hc => ?_]
      · exact (List.append_assoc _ _ _).symm
      · have hbracket := List.all_eq_true.mp h c hc
        simp only [isBracket, Bool.or_eq_true, beq_iff_eq] at hbracket
        rcases hbracket with ((rfl | rfl) | rfl) | rfl <;> decide

/-- The word is replaced line by line, in the keys and strings. -/
theorem replaceAll_render (hnew : ∀ c ∈ new, isPlain c = true) (ls : Lines) :
    replaceAll (o :: word) new (render ls)
      = render (mapLines (replaceWord (o :: word) new) ls) := by
  have hnewline : '\n' ∉ o :: word := fun h => absurd (hword _ h) (by decide)
  induction ls with
  | nil => rfl
  | cons l ls ih =>
      have htabs : o ∉ List.replicate l.1 '\t' := fun h =>
        ne_of_isUpper ho (by decide) (List.eq_of_mem_replicate h)
      rw [render_cons, replaceAll_append_of_head htabs,
        replaceAll_append_cons (List.cons_ne_nil o word) hnewline, ih,
        replaceAll_body ho hword hnew]
      exact (render_cons (l.1, l.2.mapStrings (replaceWord (o :: word) new)) _).symm

end Word

/-! ## Counting upper case letters -/

/-- A word that loses its upper case letters leaves fewer of them. -/
theorem countP_isUpper_replaceAll_le {word new : List Char} (hword : word ≠ [])
    (hnew : ∀ c ∈ new, c.isUpper = false) (s : List Char) :
    (replaceAll word new s).countP Char.isUpper ≤ s.countP Char.isUpper := by
  have hzero : new.countP Char.isUpper = 0 :=
    List.countP_eq_zero.mpr fun c hc => by rw [hnew c hc]; exact Bool.false_ne_true
  exact countP_replaceAll_le hword (by omega) s

theorem countP_isUpper_replaceAll_lt {o : Char} {word new : List Char} (ho : o.isUpper = true)
    (hnew : ∀ c ∈ new, c.isUpper = false) {s : List Char} (hfound : o :: word <:+: s) :
    (replaceAll (o :: word) new s).countP Char.isUpper < s.countP Char.isUpper := by
  have hzero : new.countP Char.isUpper = 0 :=
    List.countP_eq_zero.mpr fun c hc => by rw [hnew c hc]; exact Bool.false_ne_true
  have hpos : 0 < (o :: word).countP Char.isUpper :=
    List.countP_pos_iff.mpr ⟨o, List.mem_cons_self, ho⟩
  exact countP_replaceAll_lt (List.cons_ne_nil o word) (by omega) hfound

/-- How many upper-case letters a string has. -/
def upperCount (s : String) : Nat := s.toList.countP Char.isUpper

/-- The upper case letters in the keys and strings of a value. -/
def Value.upperCount (v : Value) : Nat := (v.strings.map Go.upperCount).sum

/-- How many upper-case letters the members of an object have. -/
def fieldUpperCount (fields : Fields) : Nat := (Value.object fields).upperCount

theorem fieldUpperCount_cons (key : String) (v : Value) (fields : Fields) :
    fieldUpperCount ((key, v) :: fields)
      = upperCount key + v.upperCount + fieldUpperCount fields := by
  simp only [fieldUpperCount, Value.upperCount, Value.strings, Value.fieldStrings,
    List.cons_append, List.map_cons, List.map_append, List.sum_cons, List.sum_append]
  omega

theorem fieldUpperCount_setField_le (fields : Fields) (key : String) (v : Value) :
    fieldUpperCount (setField fields key v)
      ≤ fieldUpperCount fields + (upperCount key + v.upperCount) := by
  induction fields with
  | nil =>
      rw [setField, fieldUpperCount_cons]
      omega
  | cons f fields ih =>
      obtain ⟨k, w⟩ := f
      rw [setField]
      split
      · rw [fieldUpperCount_cons, fieldUpperCount_cons]
        omega
      · split
        · rw [fieldUpperCount_cons, fieldUpperCount_cons]
          omega
        · rw [fieldUpperCount_cons, fieldUpperCount_cons]
          omega

/-- A member that is assigned twice is kept once. -/
theorem Value.upperCount_assigned_le (v : Value) : v.assigned.upperCount ≤ v.upperCount := by
  induction v using Value.induction with
  | scalar s => exact Nat.le_refl _
  | array elements ih =>
      rw [assigned, upperCount, upperCount, strings, strings]
      induction elements with
      | nil => exact Nat.le_refl _
      | cons v elements ih' =>
          have hv := ih v List.mem_cons_self
          have hrest := ih' fun w hw => ih w (List.mem_cons_of_mem v hw)
          rw [upperCount, upperCount] at hv
          rw [assignedElements, elementStrings, elementStrings, List.map_append, List.map_append,
            List.sum_append, List.sum_append]
          omega
  | object fields ih =>
      -- what is assigned so far, and the members to come
      have hfields : ∀ acc, fieldUpperCount (assignedFields acc fields)
          ≤ fieldUpperCount acc + fieldUpperCount fields := by
        induction fields with
        | nil => exact fun acc => Nat.le_add_right _ _
        | cons f fields ih' =>
            intro acc
            obtain ⟨key, v⟩ := f
            have hv := ih (key, v) List.mem_cons_self
            have hset := fieldUpperCount_setField_le acc key v.assigned
            have hrest := ih' (fun g hg => ih g (List.mem_cons_of_mem _ hg))
              (setField acc key v.assigned)
            rw [assignedFields, fieldUpperCount_cons]
            simp only at hv
            omega
      have hall := hfields []
      rw [fieldUpperCount, fieldUpperCount, fieldUpperCount] at hall
      rw [assigned]
      simpa [upperCount, strings, fieldStrings] using hall
  | other json ih => exact ih

/-- Strings that only lose upper case letters and sum up to as many lose none. -/
theorem eq_of_sum_upperCount_le {f : String → String} (hf : ∀ s, upperCount (f s) ≤ upperCount s)
    {strings : List String}
    (h : (strings.map upperCount).sum ≤ ((strings.map f).map upperCount).sum) :
    ∀ s ∈ strings, upperCount (f s) = upperCount s := by
  induction strings with
  | nil => exact nofun
  | cons s strings ih =>
      have hs := hf s
      have hle : ((strings.map f).map upperCount).sum ≤ (strings.map upperCount).sum := by
        rw [List.map_map]
        exact List.sum_le_sum fun t _ => hf t
      simp only [List.map_cons, List.sum_cons] at h
      refine List.forall_mem_cons.mpr ⟨by omega, ih (by omega)⟩

end Hfrd.Go
