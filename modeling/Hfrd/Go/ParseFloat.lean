/-
  Hfrd.Go.ParseFloat

  Go's `strconv.ParseFloat` for 64 bits, without hexadecimal floats, and the
  texts it accepts.

  Values are exact; rounding is left out, but for the range: from halfway
  between the greatest float and the next power of two on, it is an error.

  Underscores are skipped where a digit is read; `underscoreOK` looks at the whole
  text, and asks for a digit on both sides of each, so reading the text without
  its underscores comes to the same.
-/

import Hfrd.Go.Strconv
import Mathlib.Algebra.Order.Field.Power
import Mathlib.Data.Rat.Cast.Order
import Mathlib.Tactic.FieldSimp
import Mathlib.Tactic.Positivity
import Mathlib.Tactic.Ring

namespace Hfrd.Go

/-- A float, not rounded. -/
inductive GoFloat where
  | finite (value : ℚ)
  | inf (negative : Bool)
  | nan
  deriving DecidableEq

/-- The least value that is out of range. -/
def float64Limit : ℚ := 2 ^ 1024 - 2 ^ 970

/-! ## The parser -/

/-- `equalIgnoreCase` with a word of small letters. -/
def equalIgnoreCase (s : List Char) (word : String) : Bool := s.map Char.toLower == word.toList

/-- `special` -/
def special (s : List Char) : Option GoFloat :=
  if ["inf", "infinity", "+inf", "+infinity"].any (equalIgnoreCase s) then some (.inf false)
  else if ["-inf", "-infinity"].any (equalIgnoreCase s) then some (.inf true)
  else if equalIgnoreCase s "nan" then some .nan
  else none

/-- The digits that have been read: their value, how many stand behind the
    point, and whether there was a point and a digit. -/
structure Digits where
  mantissa : Nat
  fraction : Nat
  sawdot : Bool
  sawdigits : Bool

/-- The digits at the head of the text, and what comes after them; there is no
    result when a second point comes. -/
def readDigits : Digits → List Char → Option (Digits × List Char)
  | st, [] => some (st, [])
  | st, c :: cs =>
      if c = '.' then
        if st.sawdot then none else readDigits { st with sawdot := true } cs
      else match digit? c with
        | some d => readDigits
            { st with
              mantissa := st.mantissa * 10 + d
              fraction := if st.sawdot then st.fraction + 1 else st.fraction
              sawdigits := true } cs
        | none => some (st, c :: cs)

/-- The exponent in what comes after the digits. -/
def readExponent : List Char → Option Int
  | [] => some 0
  | c :: cs =>
      if c = 'e' ∨ c = 'E' then
        (signed? cs).map fun (negative, n) => if negative then -(n : Int) else n
      else none

/-- A decimal float without its sign and without underscores. -/
def readUnsigned (s : List Char) : Option ℚ := do
  let (st, rest) ← readDigits ⟨0, 0, false, false⟩ s
  if st.sawdigits then
    let e ← readExponent rest
    let value := (st.mantissa : ℚ) * 10 ^ (e - st.fraction)
    if value < float64Limit then some value else none
  else none

/-- A decimal float without underscores. -/
def readSigned : List Char → Option ℚ
  | '+' :: cs => readUnsigned cs
  | '-' :: cs => (readUnsigned cs).map fun value => -value
  | cs => readUnsigned cs

/-- The loop of `underscoreOK`.  `saw` tracks the last character seen: `^` for the
    beginning, `0` for a digit, `_` for an underscore, `!` for none of these. -/
def underscoresFrom (saw : Char) : List Char → Bool
  | [] => saw != '_'
  | c :: cs =>
      if (digit? c).isSome then underscoresFrom '0' cs
      else if c = '_' then saw == '0' && underscoresFrom '_' cs
      else saw != '_' && underscoresFrom '!' cs

/-- `underscoreOK`; a sign is no digit, and a decimal float has no base prefix. -/
def underscoreOK (s : List Char) : Bool := underscoresFrom '^' s

/-- The text that is read. -/
def withoutUnderscores (s : List Char) : List Char := s.filter fun c => c ≠ '_'

/-- `strconv.ParseFloat(s, 64)`; no result is an error. -/
def parseFloat (s : List Char) : Option GoFloat :=
  match special s with
  | some f => some f
  | none =>
      if underscoreOK s then (readSigned (withoutUnderscores s)).map .finite else none

/-! ## The texts of floats -/

/-- Digits with at most one point, and their value. -/
inductive Numeral : List Char → ℚ → Prop where
  | whole {ds : List Char} {n : Nat} (hne : ds ≠ []) (hds : digits? 0 ds = some n) :
      Numeral ds n
  | point {ds fs : List Char} {n : Nat} (hne : ds ≠ [] ∨ fs ≠ [])
      (hds : digits? 0 (ds ++ fs) = some n) :
      Numeral (ds ++ '.' :: fs) (n / 10 ^ fs.length)

/-- An exponent with or without a sign, or none, and its value. -/
inductive Exponent : List Char → Int → Prop where
  | nothing : Exponent [] 0
  | letter {c : Char} {cs : List Char} {negative : Bool} {n : Nat} (hc : c = 'e' ∨ c = 'E')
      (hcs : signed? cs = some (negative, n)) :
      Exponent (c :: cs) (if negative then -(n : Int) else n)

/-- A numeral with an exponent, in range. -/
def Unsigned (s : List Char) (value : ℚ) : Prop :=
  ∃ numeral exponent m e, s = numeral ++ exponent ∧ Numeral numeral m ∧ Exponent exponent e ∧
    value = m * 10 ^ e ∧ value < float64Limit

/-- An unsigned text, with or without a sign. -/
inductive Signed : List Char → ℚ → Prop where
  | unsigned {s : List Char} {value : ℚ} (h : Unsigned s value) : Signed s value
  | plus {s : List Char} {value : ℚ} (h : Unsigned s value) : Signed ('+' :: s) value
  | minus {s : List Char} {value : ℚ} (h : Unsigned s value) : Signed ('-' :: s) (-value)

/-- A digit stands at the head of the text. -/
def HeadDigit (s : List Char) : Prop := ∃ c ∈ s.head?, (digit? c).isSome = true

/-- Each underscore has a digit in front of it and one behind it. -/
def UnderscoresBetweenDigits (s : List Char) : Prop :=
  ∀ before behind, s = before ++ '_' :: behind → HeadDigit before.reverse ∧ HeadDigit behind

/-- The texts that are accepted, and what they stand for: a word for an infinity
    or for no number, or a float with or without a sign, with underscores between
    its digits or without. -/
inductive FloatText : List Char → GoFloat → Prop where
  | word {s : List Char} {f : GoFloat} (h : special s = some f) : FloatText s f
  | number {s : List Char} {value : ℚ} (hbetween : UnderscoresBetweenDigits s)
      (h : Signed (withoutUnderscores s) value) : FloatText s (.finite value)

/-! ## Reading digits -/

theorem digits?_append (acc : Nat) (ds fs : List Char) :
    digits? acc (ds ++ fs) = (digits? acc ds).bind fun n => digits? n fs := by
  induction ds generalizing acc with
  | nil => rfl
  | cons c ds ih =>
      simp only [List.cons_append, digits?]
      cases digit? c with
      | none => rfl
      | some d => exact ih _

theorem digit?_dot : digit? '.' = none := by decide

/-- A run of digits, and where it ends. -/
theorem exists_digits (acc : Nat) (s : List Char) : ∃ ds n rest, s = ds ++ rest ∧
    digits? acc ds = some n ∧ ∀ c ∈ rest.head?, digit? c = none := by
  induction s generalizing acc with
  | nil => exact ⟨[], acc, [], rfl, rfl, by simp⟩
  | cons c s ih =>
      cases hc : digit? c with
      | none => exact ⟨[], acc, c :: s, rfl, rfl, by simpa using hc⟩
      | some d =>
          obtain ⟨ds, n, rest, rfl, hds, hrest⟩ := ih (acc * 10 + d)
          exact ⟨c :: ds, n, rest, rfl, by rw [digits?, hc]; exact hds, hrest⟩

theorem readDigits_digits {acc n : Nat} {ds : List Char} (h : digits? acc ds = some n)
    (fraction : Nat) (dot seen : Bool) (rest : List Char) :
    readDigits ⟨acc, fraction, dot, seen⟩ (ds ++ rest) =
      readDigits ⟨n, if dot then fraction + ds.length else fraction, dot, seen || !ds.isEmpty⟩
        rest := by
  induction ds generalizing acc fraction seen with
  | nil =>
      obtain rfl := Option.some.inj h
      simp
  | cons c ds ih =>
      rw [digits?] at h
      cases hc : digit? c with
      | none =>
          rw [hc] at h
          cases h
      | some d =>
          rw [hc] at h
          have hdot : c ≠ '.' := by
            rintro rfl
            rw [digit?_dot] at hc
            cases hc
          rw [List.cons_append, readDigits, if_neg hdot, hc]
          simp only []
          rw [ih h]
          cases dot <;> simp [Nat.add_comm, Nat.add_left_comm]

theorem readDigits_stop {rest : List Char} (h : ∀ c ∈ rest.head?, c ≠ '.' ∧ digit? c = none)
    (st : Digits) : readDigits st rest = some (st, rest) := by
  cases rest with
  | nil => rfl
  | cons c rest =>
      obtain ⟨hdot, hc⟩ := h c rfl
      rw [readDigits, if_neg hdot, hc]

/-! ## Exponents -/

theorem head_of_exponent {s : List Char} {e : Int} (h : Exponent s e) :
    ∀ c ∈ s.head?, c ≠ '.' ∧ digit? c = none := by
  cases h with
  | nothing => exact fun c hc => absurd hc (by simp)
  | letter hc hcs =>
      intro c hhead
      obtain rfl := Option.some.inj hhead
      rcases hc with rfl | rfl <;> exact ⟨by decide, by decide⟩

theorem readExponent_eq_some_iff {s : List Char} {e : Int} :
    readExponent s = some e ↔ Exponent s e := by
  constructor
  · intro h
    cases s with
    | nil =>
        obtain rfl := Option.some.inj h
        exact .nothing
    | cons c cs =>
        rw [readExponent] at h
        split at h
        · next hc =>
            obtain ⟨⟨negative, n⟩, hcs, rfl⟩ := Option.map_eq_some_iff.mp h
            exact .letter hc hcs
        · cases h
  · intro h
    cases h with
    | nothing => rfl
    | letter hc hcs =>
        rw [readExponent, if_pos hc, hcs]
        rfl

/-! ## The language of the parser -/

theorem isEmpty_eq_false_iff {α : Type} {l : List α} : l.isEmpty = false ↔ l ≠ [] := by
  cases l <;> simp

theorem readDigits_numeral {numeral rest : List Char} {m : ℚ} (h : Numeral numeral m)
    (hrest : ∀ c ∈ rest.head?, c ≠ '.' ∧ digit? c = none) :
    ∃ st, readDigits ⟨0, 0, false, false⟩ (numeral ++ rest) = some (st, rest) ∧
      st.sawdigits = true ∧ m = st.mantissa / 10 ^ st.fraction := by
  cases h with
  | @whole _ n hne hds =>
      refine ⟨⟨n, 0, false, true⟩, ?_, rfl, by simp⟩
      rw [readDigits_digits hds, readDigits_stop hrest, isEmpty_eq_false_iff.mpr hne]
      rfl
  | @point ds fs n hne hds =>
      rw [digits?_append] at hds
      obtain ⟨k, hk, hfs⟩ := Option.bind_eq_some_iff.mp hds
      refine ⟨⟨n, fs.length, true, true⟩, ?_, rfl, rfl⟩
      rw [List.append_assoc, readDigits_digits hk, List.cons_append, readDigits, if_pos rfl]
      simp only [Bool.false_eq_true, if_false]
      rw [readDigits_digits hfs, readDigits_stop hrest]
      have hseen : (false || !ds.isEmpty || !fs.isEmpty) = true := by
        rcases hne with h | h <;> simp [h]
      rw [hseen]
      simp

theorem numeral_of_readDigits {s rest : List Char} {st : Digits}
    (h : readDigits ⟨0, 0, false, false⟩ s = some (st, rest)) (hdigits : st.sawdigits = true) :
    ∃ numeral, s = numeral ++ rest ∧ Numeral numeral (st.mantissa / 10 ^ st.fraction) := by
  obtain ⟨ds, n, r, rfl, hds, hr⟩ := exists_digits 0 s
  rw [readDigits_digits hds] at h
  by_cases hdot : r.head? = some '.'
  -- behind a point, a second run of digits goes on from the first
  · obtain ⟨r, rfl⟩ := List.head?_eq_some_iff.mp hdot
    obtain ⟨fs, k, r', rfl, hfs, hr'⟩ := exists_digits n r
    rw [readDigits, if_pos rfl] at h
    simp only [Bool.false_eq_true, if_false] at h
    rw [readDigits_digits hfs] at h
    have hstop : ∀ c ∈ r'.head?, c ≠ '.' ∧ digit? c = none := by
      intro c hc
      refine ⟨?_, hr' c hc⟩
      -- a second point is no result
      rintro rfl
      obtain ⟨r'', rfl⟩ := List.head?_eq_some_iff.mp hc
      rw [readDigits, if_pos rfl] at h
      cases h
    rw [readDigits_stop hstop] at h
    obtain ⟨rfl, rfl⟩ := Prod.mk.inj (Option.some.inj h)
    refine ⟨ds ++ '.' :: fs, by simp, ?_⟩
    have hvalue := @Numeral.point ds fs k (by simpa using hdigits)
      (by rw [digits?_append, hds]; exact hfs)
    simpa using hvalue
  · have hstop : ∀ c ∈ r.head?, c ≠ '.' ∧ digit? c = none := fun c hc =>
      ⟨fun heq => hdot (heq ▸ hc), hr c hc⟩
    rw [readDigits_stop hstop] at h
    obtain ⟨rfl, rfl⟩ := Prod.mk.inj (Option.some.inj h)
    refine ⟨ds, rfl, ?_⟩
    have hvalue := @Numeral.whole ds n (by simpa using hdigits) hds
    simpa using hvalue

theorem readUnsigned_eq_some_iff {s : List Char} {value : ℚ} :
    readUnsigned s = some value ↔ Unsigned s value := by
  -- the point moves by as many places as there are digits behind it
  have hpower : ∀ (st : Digits) (e : Int), (st.mantissa : ℚ) * 10 ^ (e - st.fraction) =
      st.mantissa / 10 ^ st.fraction * 10 ^ e := by
    intro st e
    rw [zpow_sub₀ (by norm_num), zpow_natCast]
    ring
  constructor
  · intro h
    rw [readUnsigned] at h
    obtain ⟨⟨st, rest⟩, hst, h⟩ := Option.bind_eq_some_iff.mp h
    simp only at h
    split at h
    · next hdigits =>
        obtain ⟨e, he, h⟩ := Option.bind_eq_some_iff.mp h
        split at h
        · next hlt =>
            obtain rfl := Option.some.inj h
            obtain ⟨numeral, rfl, hnumeral⟩ := numeral_of_readDigits hst hdigits
            exact ⟨numeral, rest, _, e, rfl, hnumeral, readExponent_eq_some_iff.mp he,
              hpower st e, hlt⟩
        · cases h
    · cases h
  · rintro ⟨numeral, exponent, m, e, rfl, hnumeral, he, rfl, hlt⟩
    obtain ⟨st, hst, hdigits, rfl⟩ := readDigits_numeral hnumeral (head_of_exponent he)
    rw [readUnsigned, hst]
    show (if st.sawdigits = true then _ else none) = _
    rw [if_pos hdigits, readExponent_eq_some_iff.mpr he]
    show (if _ < float64Limit then _ else none) = _
    rw [hpower, if_pos hlt]

/-! ## Words and numbers -/

/-- The characters of a float. -/
def isFloatChar (c : Char) : Bool := (digit? c).isSome || c ∈ ".eE+-".toList

theorem toLower_ne_of_isFloatChar {c : Char} (h : isFloatChar c = true) : c.toLower ≠ 'n' := by
  rcases (Bool.or_eq_true _ _).mp h with hdigit | hother
  · unfold digit? at hdigit
    split at hdigit
    · next hc =>
        have hnot : ¬ (c.val ≥ 'A'.val ∧ c.val ≤ 'Z'.val) := fun hupper =>
          absurd (UInt32.le_trans hupper.1 hc.2) (by decide)
        have hlower : c.toLower = c := dif_neg hnot
        rw [hlower]
        rintro rfl
        exact absurd hc.2 (by decide)
    · cases hdigit
  · have hall : (".eE+-".toList.all fun c => c.toLower ≠ 'n') = true := by decide
    exact of_decide_eq_true (List.all_eq_true.mp hall c (of_decide_eq_true hother))

theorem isFloatChar_of_unsigned {s : List Char} {value : ℚ} (h : Unsigned s value) :
    ∀ c ∈ s, isFloatChar c = true := by
  have hdigit : ∀ {c}, (digit? c).isSome = true → isFloatChar c = true := fun h =>
    (Bool.or_eq_true _ _).mpr (Or.inl h)
  obtain ⟨numeral, exponent, m, e, rfl, hnumeral, he, -⟩ := h
  intro c hc
  rcases List.mem_append.mp hc with hc | hc
  · cases hnumeral with
    | whole hne hds => exact hdigit (digits?_of_some hds c hc)
    | @point ds fs n hne hds =>
        have hmem := digits?_of_some hds
        rcases List.mem_append.mp hc with hc | hc
        · exact hdigit (hmem c (List.mem_append_left fs hc))
        · rcases List.mem_cons.mp hc with rfl | hc
          · decide
          · exact hdigit (hmem c (List.mem_append_right ds hc))
  · cases he with
    | nothing => cases hc
    | letter hletter hcs =>
        rcases List.mem_cons.mp hc with rfl | hc
        · rcases hletter with rfl | rfl <;> decide
        · rcases char_of_signed? hcs c hc with rfl | rfl | hc
          · decide
          · decide
          · exact hdigit hc

/-- Each of the words has an `n`. -/
theorem special_of_lower {s : List Char} (h : ∀ c ∈ s, c.toLower ≠ 'n') : special s = none := by
  have hno : 'n' ∉ s.map Char.toLower := fun hmem => by
    obtain ⟨c, hc, hlower⟩ := List.mem_map.mp hmem
    exact h c hc hlower
  have hword : ∀ word : String, 'n' ∈ word.toList → equalIgnoreCase s word = false :=
    fun word hmem => beq_eq_false_iff_ne.mpr fun heq => hno (heq ▸ hmem)
  unfold special
  simp only [List.any_cons, List.any_nil, hword "inf" (by decide), hword "infinity" (by decide),
    hword "+inf" (by decide), hword "+infinity" (by decide), hword "-inf" (by decide),
    hword "-infinity" (by decide), hword "nan" (by decide)]
  rfl

/-- A text without underscores is read as it is. -/
theorem not_underscore_of_isFloatChar {s : List Char} (h : ∀ c ∈ s, isFloatChar c = true) :
    '_' ∉ s := fun hmem =>
  absurd (h '_' hmem) (by decide)

theorem withoutUnderscores_eq_self {s : List Char} (h : '_' ∉ s) : withoutUnderscores s = s :=
  List.filter_eq_self.mpr fun _ hc => decide_eq_true fun heq => h (heq ▸ hc)

theorem underscoresBetweenDigits_of_not_mem {s : List Char} (h : '_' ∉ s) :
    UnderscoresBetweenDigits s := by
  rintro before behind rfl
  exact absurd (List.mem_append_right before List.mem_cons_self) h

theorem head_of_unsigned {s : List Char} {value : ℚ} (h : Unsigned s value) :
    ∀ c ∈ s.head?, c ≠ '+' ∧ c ≠ '-' := by
  have hdigit : ∀ {c}, (digit? c).isSome = true → c ≠ '+' ∧ c ≠ '-' := by
    rintro c hc
    refine ⟨?_, ?_⟩
    · rintro rfl
      exact absurd hc (by decide)
    · rintro rfl
      exact absurd hc (by decide)
  obtain ⟨numeral, exponent, m, e, rfl, hnumeral, -⟩ := h
  cases hnumeral with
  | whole hne hds =>
      intro c hc
      rw [List.head?_append_of_ne_nil _ hne] at hc
      exact hdigit (digits?_of_some hds c (List.mem_of_mem_head? hc))
  | @point ds fs n hne hds =>
      intro c hc
      cases ds with
      | nil =>
          obtain rfl := Option.some.inj hc
          decide
      | cons d ds =>
          obtain rfl := Option.some.inj hc
          exact hdigit (digits?_of_some hds d List.mem_cons_self)

theorem readSigned_eq_some_iff {s : List Char} {value : ℚ} :
    readSigned s = some value ↔ Signed s value := by
  constructor
  · intro h
    unfold readSigned at h
    split at h
    · exact .plus (readUnsigned_eq_some_iff.mp h)
    · obtain ⟨value, hvalue, rfl⟩ := Option.map_eq_some_iff.mp h
      exact .minus (readUnsigned_eq_some_iff.mp hvalue)
    · exact .unsigned (readUnsigned_eq_some_iff.mp h)
  · intro h
    cases h with
    | plus h => exact readUnsigned_eq_some_iff.mpr h
    | minus h =>
        show (readUnsigned _).map _ = _
        rw [readUnsigned_eq_some_iff.mpr h]
        rfl
    | unsigned h =>
        have hhead := head_of_unsigned h
        unfold readSigned
        split
        · exact absurd rfl (hhead '+' rfl).1
        · exact absurd rfl (hhead '-' rfl).2
        · exact readUnsigned_eq_some_iff.mpr h

theorem isFloatChar_of_signed {s : List Char} {value : ℚ} (h : Signed s value) :
    ∀ c ∈ s, isFloatChar c = true := by
  cases h with
  | unsigned h => exact isFloatChar_of_unsigned h
  | plus h => exact List.forall_mem_cons.mpr ⟨by decide, isFloatChar_of_unsigned h⟩
  | minus h => exact List.forall_mem_cons.mpr ⟨by decide, isFloatChar_of_unsigned h⟩

/-! ## Underscores -/

theorem digit?_underscore : digit? '_' = none := by decide

/-- What `saw` is behind a character. -/
def sawOf (c : Char) : Char :=
  if (digit? c).isSome then '0' else if c = '_' then '_' else '!'

theorem sawOf_eq_digit_iff {c : Char} : sawOf c = '0' ↔ (digit? c).isSome = true := by
  unfold sawOf
  split
  · next h => simp [h]
  · next h =>
      refine iff_of_false ?_ h
      split <;> decide

theorem sawOf_eq_underscore_iff {c : Char} : sawOf c = '_' ↔ c = '_' := by
  unfold sawOf
  split
  · next h =>
      refine iff_of_false (by decide) ?_
      rintro rfl
      rw [digit?_underscore] at h
      cases h
  · split
    · next h => simp [h]
    · next h => exact iff_of_false (by decide) h

/-- What the loop looks at between two neighbours. -/
theorem underscoresFrom_cons {p c : Char} {cs : List Char} :
    underscoresFrom (sawOf p) (c :: cs) = true ↔
      (p = '_' → (digit? c).isSome = true) ∧ (c = '_' → (digit? p).isSome = true) ∧
        underscoresFrom (sawOf c) cs = true := by
  rw [underscoresFrom]
  by_cases hdigit : (digit? c).isSome = true
  · have hne : c ≠ '_' := by
      rintro rfl
      rw [digit?_underscore] at hdigit
      cases hdigit
    rw [if_pos hdigit, sawOf_eq_digit_iff.mpr hdigit]
    simp [hdigit, hne]
  · rw [if_neg hdigit]
    by_cases hunder : c = '_'
    · rw [if_pos hunder, sawOf_eq_underscore_iff.mpr hunder]
      simp only [Bool.and_eq_true, beq_iff_eq, sawOf_eq_digit_iff, hunder, true_imp_iff]
      refine ⟨fun ⟨hp, hrest⟩ => ⟨?_, hp, hrest⟩, fun ⟨_, hp, hrest⟩ => ⟨hp, hrest⟩⟩
      rintro rfl
      rw [digit?_underscore] at hp
      cases hp
    · have hsaw : sawOf c = '!' := by rw [sawOf, if_neg hdigit, if_neg hunder]
      rw [if_neg hunder, hsaw]
      simp only [Bool.and_eq_true, bne_iff_ne, ne_eq, sawOf_eq_underscore_iff, hdigit, hunder,
        Bool.false_eq_true, false_imp_iff, true_and, imp_false]

/-- The loop, behind a character `p`. -/
theorem underscoresFrom_iff (p : Char) (s : List Char) :
    underscoresFrom (sawOf p) s = true ↔
      (p = '_' → HeadDigit s) ∧ ∀ before behind, s = before ++ '_' :: behind →
        HeadDigit (p :: before).reverse ∧ HeadDigit behind := by
  induction s generalizing p with
  | nil =>
      simp only [underscoresFrom, bne_iff_ne, ne_eq, sawOf_eq_underscore_iff]
      refine ⟨fun hp => ⟨fun h => absurd h hp, fun _ _ h => absurd h (by simp)⟩, fun h hp => ?_⟩
      obtain ⟨c, hc, -⟩ := h.1 hp
      cases hc
  | cons c cs ih =>
      have hhead : HeadDigit (c :: cs) ↔ (digit? c).isSome = true := by simp [HeadDigit]
      -- what stands before an underscore ends as it did, unless that is `p` alone
      have hlast : ∀ before, before ≠ [] →
          (HeadDigit (p :: before).reverse ↔ HeadDigit before.reverse) := by
        intro before hne
        rw [List.reverse_cons, HeadDigit, HeadDigit,
          List.head?_append_of_ne_nil _ (List.reverse_ne_nil_iff.mpr hne)]
      rw [underscoresFrom_cons, ih, hhead]
      constructor
      · rintro ⟨hp, hc, hnext, hrest⟩
        refine ⟨hp, fun before behind h => ?_⟩
        cases before with
        | nil =>
            obtain ⟨rfl, rfl⟩ := List.cons.inj h
            exact ⟨⟨p, rfl, hc rfl⟩, hnext rfl⟩
        | cons b before =>
            obtain ⟨rfl, hcs⟩ := List.cons.inj h
            rw [hlast _ (List.cons_ne_nil _ _)]
            exact hrest before behind hcs
      · rintro ⟨hp, hall⟩
        refine ⟨hp, ?_, ?_, fun before behind h => ?_⟩
        · rintro rfl
          obtain ⟨⟨c, hc, hdigit⟩, -⟩ := hall [] cs rfl
          obtain rfl := Option.some.inj hc
          exact hdigit
        · rintro rfl
          exact (hall [] cs rfl).2
        · obtain ⟨hbefore, hbehind⟩ := hall (c :: before) behind (by rw [h, List.cons_append])
          exact ⟨(hlast _ (List.cons_ne_nil _ _)).mp hbefore, hbehind⟩

/-- `underscoreOK` asks for a digit on both sides. -/
theorem underscoreOK_iff {s : List Char} :
    underscoreOK s = true ↔ UnderscoresBetweenDigits s := by
  -- the beginning is as good as any character that is neither
  have hsaw : ∀ s, underscoresFrom '^' s = underscoresFrom (sawOf '^') s := by
    intro s
    cases s with
    | nil => rfl
    | cons c cs => rfl
  rw [underscoreOK, hsaw, underscoresFrom_iff]
  constructor
  · rintro ⟨-, h⟩ before behind hs
    obtain ⟨hbefore, hbehind⟩ := h before behind hs
    refine ⟨?_, hbehind⟩
    cases before with
    | nil =>
        obtain ⟨c, hc, hdigit⟩ := hbefore
        obtain rfl := Option.some.inj hc
        exact absurd hdigit (by decide)
    | cons b before =>
        rw [List.reverse_cons, HeadDigit, List.head?_append_of_ne_nil _ (by simp)] at hbefore
        exact hbefore
  · intro h
    refine ⟨fun hno => absurd hno (by decide), fun before behind hs => ?_⟩
    obtain ⟨⟨c, hc, hdigit⟩, hbehind⟩ := h before behind hs
    refine ⟨⟨c, ?_, hdigit⟩, hbehind⟩
    rw [List.reverse_cons]
    exact List.mem_head?_append_of_mem_head? hc

theorem special_of_signed {s : List Char} {value : ℚ} (h : Signed (withoutUnderscores s) value) :
    special s = none := by
  refine special_of_lower fun c hc => ?_
  by_cases hunder : c = '_'
  · rw [hunder]
    decide
  · exact toLower_ne_of_isFloatChar (isFloatChar_of_signed h c
      (List.mem_filter.mpr ⟨hc, decide_eq_true hunder⟩))

/-- **What `ParseFloat` accepts.** -/
theorem parseFloat_eq_some_iff {s : List Char} {f : GoFloat} :
    parseFloat s = some f ↔ FloatText s f := by
  constructor
  · intro h
    unfold parseFloat at h
    split at h
    · next hspecial =>
        obtain rfl := Option.some.inj h
        exact .word hspecial
    · split at h
      · next hunderscores =>
          obtain ⟨value, hvalue, rfl⟩ := Option.map_eq_some_iff.mp h
          exact .number (underscoreOK_iff.mp hunderscores) (readSigned_eq_some_iff.mp hvalue)
      · cases h
  · intro h
    cases h with
    | word h => rw [parseFloat, h]
    | number hbetween h =>
        rw [parseFloat, special_of_signed h]
        show (if underscoreOK s = true then _ else none) = _
        rw [if_pos (underscoreOK_iff.mpr hbetween), readSigned_eq_some_iff.mpr h]
        rfl

/-- A float without a sign and without underscores is accepted. -/
theorem floatText_of_unsigned {s : List Char} {value : ℚ} (h : Unsigned s value) :
    FloatText s (.finite value) := by
  have hnone := not_underscore_of_isFloatChar (isFloatChar_of_unsigned h)
  refine .number (underscoresBetweenDigits_of_not_mem hnone) ?_
  rw [withoutUnderscores_eq_self hnone]
  exact .unsigned h

/-! ## Numerals -/

theorem digits?_lt {acc n : Nat} {ds : List Char} (h : digits? acc ds = some n) :
    n < (acc + 1) * 10 ^ ds.length := by
  induction ds generalizing acc with
  | nil =>
      obtain rfl := Option.some.inj h
      simp
  | cons c ds ih =>
      rw [digits?] at h
      cases hc : digit? c with
      | none =>
          rw [hc] at h
          cases h
      | some d =>
          rw [hc] at h
          -- a digit is below ten
          have hd : d < 10 := by
            unfold digit? at hc
            split at hc
            · next hle =>
                obtain rfl := Option.some.inj hc
                have hmax : c.toNat ≤ '9'.toNat := hle.2
                have hnine : '9'.toNat = 57 := rfl
                have hzero : '0'.toNat = 48 := rfl
                omega
            · cases hc
          calc n < (acc * 10 + d + 1) * 10 ^ ds.length := ih h
            _ ≤ (acc + 1) * 10 * 10 ^ ds.length := Nat.mul_le_mul_right _ (by omega)
            _ = (acc + 1) * 10 ^ (c :: ds).length := by
                rw [List.length_cons, Nat.pow_succ', Nat.mul_assoc]

theorem nonneg_of_numeral {s : List Char} {value : ℚ} (h : Numeral s value) : 0 ≤ value := by
  cases h with
  | whole => positivity
  | point => positivity

/-- A numeral is below the power of ten of its length. -/
theorem lt_of_numeral {s : List Char} {value : ℚ} (h : Numeral s value) :
    value < 10 ^ s.length := by
  cases h with
  | @whole _ n hne hds =>
      have hlt := digits?_lt hds
      rw [Nat.zero_add, Nat.one_mul] at hlt
      exact_mod_cast hlt
  | @point ds fs n hne hds =>
      have hlt := digits?_lt hds
      rw [Nat.zero_add, Nat.one_mul] at hlt
      have hle : 10 ^ (ds ++ fs).length ≤ 10 ^ (ds ++ '.' :: fs).length :=
        Nat.pow_le_pow_right (by omega) (by simp)
      have hn : (n : ℚ) < 10 ^ (ds ++ '.' :: fs).length := by exact_mod_cast hlt.trans_le hle
      exact (div_le_self (Nat.cast_nonneg n) (one_le_pow₀ (by norm_num))).trans_lt hn

/-- A numeral of up to 308 characters is in range. -/
theorem unsigned_of_numeral {s : List Char} {value : ℚ} (h : Numeral s value)
    (hlength : s.length ≤ 308) : Unsigned s value := by
  have hnat : 10 ^ 308 + 2 ^ 970 ≤ 2 ^ 1024 := by decide +kernel
  have hlimit : (10 : ℚ) ^ 308 ≤ float64Limit := le_sub_iff_add_le.mpr (by exact_mod_cast hnat)
  have hpow : (10 : ℚ) ^ s.length ≤ 10 ^ 308 := pow_le_pow_right₀ (by norm_num) hlength
  exact ⟨s, [], value, 0, by simp, h, .nothing, by simp,
    (lt_of_numeral h).trans_le (hpow.trans hlimit)⟩

end Hfrd.Go
