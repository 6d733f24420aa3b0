/-
  Hfrd.GoSdk.ParamGenerator

  Decoding and generating the parameters of a chaincode invocation or a
  command (modules/gosdk/utilities/paramGenerator.go).

  Random values come from a `Source`: package math/rand, package uuid and the
  regular-expression generator, over an abstract state.  `rand.Intn` panics
  for an argument that is not positive, and `make` for a length that is
  negative or beyond what the runtime can allocate (`maxAlloc`, a parameter).
-/

import Hfrd.Go.Strconv

namespace Hfrd.GoSdk

open Hfrd.Go

/-! ## Kinds of parameters -/

/-- The type of a literal. -/
def LITERAL_PARAM : String := "literal"
/-- The type of a UUID. -/
def UUID_PARAM : String := "uuid"
/-- The type of a pattern. -/
def STRING_PATTERN : String := "stringPattern"
/-- The type of an integer in a range. -/
def INTEGER_RANGE : String := "intRange"
/-- The type of bytes of a length in a range. -/
def PAYLOAD_RANGE : String := "payloadRange"
/-- The type of a string with the number of the iteration. -/
def SEQUENTIAL_STRING : String := "sequentialString"

/-- What a payload is made of. -/
def letterBytes : String := "abcdefghijklmnopqrstuvwxyzABCDEFGHIJKLMNOPQRSTUVWXYZ"

/-- How a generator fails. -/
inductive Failure
  | error (text : String)
  /-- The error of `strconv.Atoi` on `num`. -/
  | atoi (num : String)
  /-- "GetComplexArgs error: invalid chaincode param type:" and the kind, which
      is part of the format. -/
  | invalidType (kind : String)
  | panic
deriving DecidableEq

/-- Where random values come from, in a runtime that allocates slices of up to
    `maxAlloc` bytes; `ρ` is the state of the generators. -/
structure Source (maxAlloc : Int64) (ρ : Type) where
  /-- `rand.Seed(time.Now().UnixNano())`. -/
  seed : ρ → ρ
  /-- `rand.Intn` of a positive number. -/
  intn : Int64 → ρ → Int64 × ρ
  /-- The text of `uuid.NewUUID`. -/
  newUUID : ρ → String × ρ
  /-- `GenerateRegexString(regex, 1)`. -/
  generateRegexString : String → ρ → Except Failure (String × ρ)
  intn_nonneg : ∀ n r, 0 < n → 0 ≤ (intn n r).1
  intn_lt : ∀ n r, 0 < n → (intn n r).1 < n

/-- The parameter types, with the fields of their structs. -/
inductive Param
  | literal (value : String)
  | stringPattern (regex : String)
  | sequentialString (value : String)
  | uuid
  | intRange (min max : String)
  | payloadRange (min max : String)
deriving DecidableEq

/-- The limit of the runtime on 64-bit Linux, `1 << 48`. -/
def linuxMaxAlloc : Int64 := 0x1000000000000

variable {ρ : Type} {maxAlloc : Int64}

/-! ## Generating -/

/-- `rand.Intn`. -/
def Source.randIntn (src : Source maxAlloc ρ) (n : Int64) (r : ρ) : Except Failure (Int64 × ρ) :=
  if 0 < n then .ok (src.intn n r) else .error .panic

/-- The bounds of a range: two numbers in order. -/
def rangeBounds (min max : String) (misordered : String) : Except Failure (Int64 × Int64) :=
  match atoi min with
  | none => .error (.atoi min)
  | some lo => match atoi max with
    | none => .error (.atoi max)
    | some hi => if hi < lo then .error (.error misordered) else .ok (lo, hi)

/-- A number from `lo` up to `hi`, or `lo` where they are equal. -/
def Source.drawRange (src : Source maxAlloc ρ) (lo hi : Int64) (r : ρ) : Except Failure
    (Int64 × ρ) :=
  if lo = hi then .ok (lo, r)
  else match src.randIntn (hi - lo) r with
    | .ok (x, r) => .ok (lo + x, r)
    | .error failure => .error failure

/-- `n` random letters. -/
def Source.letters (src : Source maxAlloc ρ) : Nat → ρ → List Char × ρ
  | 0, r => ([], r)
  | n + 1, r =>
      let (i, r) := src.intn 52 r
      let (cs, r) := src.letters n r
      (letterBytes.toList.getD i.toInt.toNat 'a' :: cs, r)

/-- `SequentialString.GetValue`. -/
def sequentialValue (value : String) (loopIndex : Int64) : String :=
  if '*' ∈ value.toList then replaceChar value '*' (itoa loopIndex)
  else value ++ itoa loopIndex

/-- `GetValue` of a parameter. -/
def Param.getValue (src : Source maxAlloc ρ) (loopIndex : Int64) : Param → ρ → Except Failure
    (String × ρ)
  | .literal value, r => .ok (value, r)
  | .uuid, r =>
      let (id, r) := src.newUUID (src.seed r)
      .ok (replaceChar id '-' "", r)
  | .stringPattern regex, r => src.generateRegexString regex r
  | .sequentialString value, r => .ok (sequentialValue value loopIndex, r)
  | .intRange min max, r =>
      match rangeBounds min max "IntegerRange error: integerMix is bigger than integerMax" with
      | .error failure => .error failure
      | .ok (lo, hi) => match src.drawRange lo hi r with
        | .error failure => .error failure
        | .ok (x, r) => .ok (itoa x, r)
  | .payloadRange min max, r =>
      match rangeBounds min max "PayloadRange error: payloadMin is bigger than payloadMax" with
      | .error failure => .error failure
      | .ok (lo, hi) => match src.drawRange lo hi r with
        | .error failure => .error failure
        | .ok (payloadLength, r) =>
            -- `make([]byte, n)` of a length that is negative or too large
            if payloadLength < 0 ∨ maxAlloc < payloadLength then .error .panic
            else
              let (payload, r) := src.letters payloadLength.toInt.toNat r
              .ok (String.ofList payload, r)

/-! ## Decoding -/

/-- The `switch` of `GetComplexArgs` on one item. -/
def parseParam (param : String) : Except Failure Param :=
  let paramKV := split param "~~~"
  match paramKV with
  | [] => .error .panic
  | kind :: fields =>
      if kind = LITERAL_PARAM then
        match fields with
        | [value] => .ok (.literal value)
        | _ => .error (.error "Literal type should contains 2 params")
      else if kind = UUID_PARAM then
        match fields with
        | [] => .ok .uuid
        | _ => .error (.error "uuid type should contains 1 param")
      else if kind = STRING_PATTERN then
        match fields with
        | [regex] => .ok (.stringPattern regex)
        | _ => .error (.error "stringPattern type should contains 2 params")
      else if kind = SEQUENTIAL_STRING then
        match fields with
        | [value] => .ok (.sequentialString value)
        | _ => .error (.error "sequentialString type should contains 2 params")
      else if kind = INTEGER_RANGE then
        match fields with
        | [min, max] => .ok (.intRange min max)
        | _ => .error (.error "stringPattern type should contains 3 params")
      else if kind = PAYLOAD_RANGE then
        match fields with
        | [min, max] => .ok (.payloadRange min max)
        | _ => .error (.error "stringPattern type should contains 3 params")
      else .error (.invalidType kind)

/-- The loop of `GetComplexArgs`: decode an item, then generate its value. -/
def complexArgsLoop (src : Source maxAlloc ρ) (loopIndex : Int64) :
    List String → ρ → Except Failure (List String × ρ)
  | [], r => .ok ([], r)
  | param :: params, r =>
      match parseParam param with
      | .error failure => .error failure
      | .ok p => match p.getValue src loopIndex r with
        | .error failure => .error failure
        | .ok (arg, r) => match complexArgsLoop src loopIndex params r with
          | .error failure => .error failure
          | .ok (args, r) => .ok (arg :: args, r)

/-- An empty last item is dropped. -/
def dropTrailing (complexParams : List String) : List String :=
  if complexParams.getLast? = some "" then complexParams.dropLast else complexParams

/-- `GetComplexArgs` -/
def getComplexArgs (src : Source maxAlloc ρ) (complexParams : List String) (loopIndex : Int64)
    (r : ρ) :
    Except Failure (List String × ρ) :=
  if complexParams.length = 0 then .ok ([], r)
  else complexArgsLoop src loopIndex (dropTrailing complexParams) (src.seed r)

/-- The parameters that `GetComplexArgs` generates its arguments from. -/
def decodeParams (complexParams : List String) : Except Failure (List Param) :=
  (dropTrailing complexParams).mapM parseParam

/-- Decode and generate, one after the other. -/
def generateAll (src : Source maxAlloc ρ) (loopIndex : Int64) :
    List Param → ρ → Except Failure (List String × ρ)
  | [], r => .ok ([], r)
  | p :: ps, r => match p.getValue src loopIndex r with
    | .error failure => .error failure
    | .ok (arg, r) => match generateAll src loopIndex ps r with
      | .error failure => .error failure
      | .ok (args, r) => .ok (arg :: args, r)

/-- Items that all decode give the arguments of their parameters, in order. -/
theorem complexArgsLoop_eq (src : Source maxAlloc ρ) (loopIndex : Int64) {params : List String}
    {ps : List Param} (h : params.mapM parseParam = .ok ps) (r : ρ) :
    complexArgsLoop src loopIndex params r = generateAll src loopIndex ps r := by
  induction params generalizing ps r with
  | nil =>
      obtain rfl : [] = ps := by simpa [List.mapM_nil, pure, Except.pure] using h
      rfl
  | cons param params ih =>
      rw [List.mapM_cons] at h
      cases hp : parseParam param with
      | error failure => rw [hp] at h; cases h
      | ok p =>
          rw [hp] at h
          cases hps : params.mapM parseParam with
          | error failure => rw [hps] at h; cases h
          | ok ps' =>
              rw [hps] at h
              cases h
              simp only [complexArgsLoop, generateAll, hp, ih hps]

/-- `arg` is a value that `p` can generate. -/
def Generates (src : Source maxAlloc ρ) (loopIndex : Int64) (p : Param) (arg : String) : Prop :=
  ∃ r r', p.getValue src loopIndex r = .ok (arg, r')

/-- Generating in order gives one argument for each parameter. -/
theorem generateAll_forall₂ {src : Source maxAlloc ρ} {loopIndex : Int64} {ps : List Param}
    {r r' : ρ} {args : List String} (h : generateAll src loopIndex ps r = .ok (args, r')) :
    List.Forall₂ (Generates src loopIndex) ps args := by
  induction ps generalizing r args with
  | nil =>
      cases h
      exact .nil
  | cons p ps ih =>
      simp only [generateAll] at h
      split at h
      · cases h
      · next arg r₁ hp =>
          split at h
          · cases h
          · next args' r₂ hps =>
              cases h
              exact .cons ⟨r, r₁, hp⟩ (ih hps)

/-! ## Well-formed parameters -/

/-- Two numbers in order, with a difference that is an `int`. -/
structure RangeOk (lo hi : Int64) : Prop where
  le : lo ≤ hi
  diff : hi.toInt - lo.toInt < 2 ^ 63

/-- No `#` and no `~~~`. -/
def Plain (s : String) : Prop := '#' ∉ s.toList ∧ ¬ "~~~".toList <:+: s.toList

/-- A parameter as a test plan may contain it. -/
def Param.WellFormed (src : Source maxAlloc ρ) : Param → Prop
  | .literal value | .sequentialString value => Plain value
  | .stringPattern regex => Plain regex ∧ ∀ r, ∃ out, src.generateRegexString regex r = .ok out
  | .uuid => True
  | .intRange min max => ∃ lo hi, atoi min = some lo ∧ atoi max = some hi ∧ RangeOk lo hi
  | .payloadRange min max => ∃ lo hi, atoi min = some lo ∧ atoi max = some hi ∧ RangeOk lo hi ∧
      0 ≤ lo ∧ hi ≤ maxAlloc

/-- The difference of the bounds does not wrap. -/
theorem RangeOk.toInt_sub {lo hi : Int64} (h : RangeOk lo hi) :
    (hi - lo).toInt = hi.toInt - lo.toInt := by
  have hle := Int64.le_iff_toInt_le.mp h.le
  have hdiff := h.diff
  rw [Int64.toInt_sub]
  exact Int.bmod_eq_of_le (by omega) (by omega)

/-- A draw from a range ends between its bounds. -/
theorem RangeOk.drawRange {lo hi : Int64} (h : RangeOk lo hi) (src : Source maxAlloc ρ) (r : ρ) :
    ∃ x r', src.drawRange lo hi r = .ok (x, r') ∧ lo ≤ x ∧ x ≤ hi := by
  unfold Source.drawRange
  -- equal bounds draw nothing; otherwise the argument of `Intn` is positive
  by_cases heq : lo = hi
  · rw [if_pos heq]
    exact ⟨lo, r, rfl, Int64.le_refl lo, h.le⟩
  · have hsub := h.toInt_sub
    have hlt : lo.toInt < hi.toInt := by
      have hle := Int64.le_iff_toInt_le.mp h.le
      have hne : lo.toInt ≠ hi.toInt := fun he => heq (Int64.toInt_inj.mp he)
      omega
    have hpos : 0 < hi - lo := by
      rw [Int64.lt_iff_toInt_lt, hsub, Int64.toInt_zero]
      omega
    have hnonneg := Int64.le_iff_toInt_le.mp (src.intn_nonneg (hi - lo) r hpos)
    have hbelow := Int64.lt_iff_toInt_lt.mp (src.intn_lt (hi - lo) r hpos)
    rw [Int64.toInt_zero] at hnonneg
    rw [hsub] at hbelow
    have hlo := lo.le_toInt
    have hhi := hi.toInt_lt
    have hadd : (lo + (src.intn (hi - lo) r).1).toInt
        = lo.toInt + (src.intn (hi - lo) r).1.toInt := by
      rw [Int64.toInt_add]
      exact Int.bmod_eq_of_le (by omega) (by omega)
    rw [if_neg heq]
    simp only [Source.randIntn, if_pos hpos]
    refine ⟨_, _, rfl, ?_, ?_⟩
    · rw [Int64.le_iff_toInt_le, hadd]
      omega
    · rw [Int64.le_iff_toInt_le, hadd]
      omega

theorem RangeOk.rangeBounds {lo hi : Int64} (h : RangeOk lo hi) {min max : String}
    (hmin : atoi min = some lo) (hmax : atoi max = some hi) (misordered : String) :
    rangeBounds min max misordered = .ok (lo, hi) := by
  have hnot : ¬ hi < lo := by
    have hle := Int64.le_iff_toInt_le.mp h.le
    rw [Int64.lt_iff_toInt_lt]
    omega
  simp only [GoSdk.rangeBounds, hmin, hmax, if_neg hnot]

/-- A well-formed parameter always has a value. -/
theorem Param.WellFormed.getValue {src : Source maxAlloc ρ} {p : Param} (h : p.WellFormed src)
    (loopIndex : Int64) (r : ρ) : ∃ arg r', p.getValue src loopIndex r = .ok (arg, r') := by
  cases p with
  | literal value => exact ⟨_, _, rfl⟩
  | stringPattern regex =>
      obtain ⟨⟨arg, r'⟩, harg⟩ := h.2 r
      exact ⟨arg, r', harg⟩
  | sequentialString value => exact ⟨_, _, rfl⟩
  | uuid => exact ⟨_, _, rfl⟩
  | intRange min max =>
      obtain ⟨lo, hi, hmin, hmax, hok⟩ := h
      obtain ⟨x, r', hx, -, -⟩ := hok.drawRange src r
      exact ⟨_, _, by simp only [Param.getValue, hok.rangeBounds hmin hmax, hx]; rfl⟩
  | payloadRange min max =>
      obtain ⟨lo, hi, hmin, hmax, hok, hnonneg, hfits⟩ := h
      obtain ⟨x, r', hx, hlo, hhi⟩ := hok.drawRange src r
      have hx0 : ¬ (x < 0 ∨ maxAlloc < x) := by
        rintro (hneg | hlarge)
        · exact Int64.not_lt.mpr (Int64.le_trans hnonneg hlo) hneg
        · exact Int64.not_lt.mpr (Int64.le_trans hhi hfits) hlarge
      exact ⟨_, _, by simp only [Param.getValue, hok.rangeBounds hmin hmax, hx, if_neg hx0]; rfl⟩

/-- Well-formed parameters all have values. -/
theorem generateAll_ok {src : Source maxAlloc ρ} {ps : List Param} (h : ∀ p ∈ ps, p.WellFormed src)
    (loopIndex : Int64) (r : ρ) : ∃ args r', generateAll src loopIndex ps r = .ok (args, r') := by
  induction ps generalizing r with
  | nil => exact ⟨[], r, rfl⟩
  | cons p ps ih =>
      obtain ⟨arg, r₁, hp⟩ := (h p List.mem_cons_self).getValue loopIndex r
      obtain ⟨args, r₂, hps⟩ := ih (fun q hq => h q (List.mem_cons_of_mem p hq)) r₁
      exact ⟨arg :: args, r₂, by simp only [generateAll, hp, hps]⟩

end Hfrd.GoSdk
