/-
  Hfrd.Ansible.PreRunTest

  The encoding of a parameter list by the playbook
  (backend/jenkins/pipelines/ansible/preruntest.yml), and its decoding by the
  test modules.

  The playbook builds one string in three passes over the list: parameters
  with a value, then uuids, then ranges.  `GetComplexArgs` takes the items in
  the order of the string.  Every parameter survives, with its fields, but a
  list that mixes the three kinds comes back in the order of the passes.
-/

import Hfrd.GoSdk.ParamGenerator
import Mathlib.Order.Fin.Basic

namespace Hfrd.Ansible

open Hfrd.Go Hfrd.GoSdk Hfrd.Lib

/-- An item of `chaincodeParams` or `commandParams`; `none` is an attribute
    that is not defined. -/
structure ParamItem where
  type : String
  value : Option String
  min : Option String
  max : Option String

/-! ## The passes of the playbook -/

/-- "Add literal/stringPattern parameters"; an undefined value fails the play. -/
def addValue (complex_params_string : String) (paramItem : ParamItem) : Option String :=
  -- a range is told by its `min`, a uuid by its type
  if paramItem.min.isNone ∧ paramItem.type ≠ "uuid" then
    paramItem.value.map fun value =>
      complex_params_string ++ paramItem.type ++ "~~~" ++ value ++ "#"
  else some complex_params_string

/-- "Add uuid parameters". -/
def addUuid (complex_params_string : String) (paramItem : ParamItem) : Option String :=
  if paramItem.type = "uuid" then some (complex_params_string ++ paramItem.type ++ "#")
  else some complex_params_string

/-- "Add intRange/payloadRange parameters". -/
def addRange (complex_params_string : String) (paramItem : ParamItem) : Option String :=
  match paramItem.min with
  | some min => paramItem.max.map fun max =>
      complex_params_string ++ paramItem.type ++ "~~~" ++ min ++ "~~~" ++ max ++ "#"
  | none => some complex_params_string

/-- The string after the three tasks. -/
def complexParamsString (complex_params : List ParamItem) : Option String := do
  let complex_params_string ← complex_params.foldlM addValue ""
  let complex_params_string ← complex_params.foldlM addUuid complex_params_string
  complex_params.foldlM addRange complex_params_string

/-- A parameter as it stands in a test plan. -/
def item : Param → ParamItem
  | .literal value => ⟨LITERAL_PARAM, some value, none, none⟩
  | .stringPattern regex => ⟨STRING_PATTERN, some regex, none, none⟩
  | .sequentialString value => ⟨SEQUENTIAL_STRING, some value, none, none⟩
  | .uuid => ⟨UUID_PARAM, none, none, none⟩
  | .intRange min max => ⟨INTEGER_RANGE, none, some min, some max⟩
  | .payloadRange min max => ⟨PAYLOAD_RANGE, none, some min, some max⟩

/-- The pass that takes a parameter. -/
def pass : Param → Fin 3
  | .literal _ | .stringPattern _ | .sequentialString _ => 0
  | .uuid => 1
  | .intRange _ _ | .payloadRange _ _ => 2

/-- The passes in the order of the playbook. -/
def playbookPasses : List (Fin 3) := [0, 1, 2]

theorem pass_mem (p : Param) : pass p ∈ playbookPasses := by
  generalize pass p = i
  revert i
  decide

/-- No parameter stands before one of an earlier pass. -/
def InPassOrder (ps : List Param) : Prop := ps.Pairwise fun p q => pass p ≤ pass q

instance (ps : List Param) : Decidable (InPassOrder ps) :=
  inferInstanceAs (Decidable (ps.Pairwise fun p q => pass p ≤ pass q))

/-! ## The string -/

/-- The item of one parameter. -/
def text : Param → String
  | .literal value => LITERAL_PARAM ++ "~~~" ++ value
  | .stringPattern regex => STRING_PATTERN ++ "~~~" ++ regex
  | .sequentialString value => SEQUENTIAL_STRING ++ "~~~" ++ value
  | .uuid => UUID_PARAM
  | .intRange min max => INTEGER_RANGE ++ "~~~" ++ min ++ "~~~" ++ max
  | .payloadRange min max => PAYLOAD_RANGE ++ "~~~" ++ min ++ "~~~" ++ max

/-- Items that are each followed by `#`. -/
def texts : List Param → String
  | [] => ""
  | p :: ps => text p ++ "#" ++ texts ps

theorem texts_append (ps qs : List Param) : texts (ps ++ qs) = texts ps ++ texts qs := by
  induction ps with
  | nil => rw [List.nil_append, texts, String.empty_append]
  | cons p ps ih => simp only [List.cons_append, texts, ih, String.append_assoc]

/-- A pass adds the items of its parameters, in their order. -/
theorem foldlM_pass (add : String → ParamItem → Option String) (i : Fin 3)
    (hadd : ∀ s p, add s (item p) = some (if pass p = i then s ++ text p ++ "#" else s))
    (ps : List Param) (s : String) :
    (ps.map item).foldlM add s = some (s ++ texts (ps.filter (pass · == i))) := by
  induction ps generalizing s with
  | nil =>
      rw [List.filter_nil, texts, String.append_empty]
      rfl
  | cons p ps ih =>
      rw [List.map_cons, List.foldlM_cons, hadd]
      by_cases hp : pass p = i
      · have htrue : (pass p == i) = true := beq_iff_eq.mpr hp
        rw [if_pos hp, List.filter_cons, if_pos htrue, Option.bind_eq_bind, Option.bind_some, ih]
        simp only [texts, String.append_assoc]
      · have hfalse : ¬ (pass p == i) = true := fun h => hp (beq_iff_eq.mp h)
        rw [if_neg hp, List.filter_cons, if_neg hfalse, Option.bind_eq_bind, Option.bind_some, ih]

theorem addValue_item (s : String) (p : Param) :
    addValue s (item p) = some (if pass p = 0 then s ++ text p ++ "#" else s) := by
  cases p <;> simp [addValue, item, pass, text, LITERAL_PARAM, STRING_PATTERN,
    SEQUENTIAL_STRING, UUID_PARAM, String.append_assoc]

theorem addUuid_item (s : String) (p : Param) :
    addUuid s (item p) = some (if pass p = 1 then s ++ text p ++ "#" else s) := by
  cases p <;> simp [addUuid, item, pass, text, LITERAL_PARAM, STRING_PATTERN,
    SEQUENTIAL_STRING, UUID_PARAM, INTEGER_RANGE, PAYLOAD_RANGE]

theorem addRange_item (s : String) (p : Param) :
    addRange s (item p) = some (if pass p = 2 then s ++ text p ++ "#" else s) := by
  cases p <;> simp [addRange, item, pass, text, String.append_assoc]

/-- The playbook writes the parameters in the order of its passes. -/
theorem complexParamsString_item (ps : List Param) :
    complexParamsString (ps.map item) = some (texts (passes playbookPasses pass ps)) := by
  simp only [complexParamsString, foldlM_pass addValue 0 addValue_item,
    foldlM_pass addUuid 1 addUuid_item, foldlM_pass addRange 2 addRange_item,
    Option.bind_eq_bind, Option.bind_some, String.empty_append, playbookPasses, passes,
    List.flatMap_cons, List.flatMap_nil, List.append_nil, texts_append, String.append_assoc]

/-! ## Splitting it again -/

theorem not_mem_of_atoi {s : String} {n : Int64} (h : atoi s = some n) {c : Char}
    (hc : c ≠ '-' ∧ c ≠ '+' ∧ digit? c = none) : c ∉ s.toList := by
  intro hmem
  rcases char_of_atoi h c hmem with h | h | h
  · exact hc.1 h
  · exact hc.2.1 h
  · rw [hc.2.2] at h
    cases h

/-- No item holds a `#`. -/
theorem hash_not_mem_text {ρ : Type} {maxAlloc : Int64} {src : Source maxAlloc ρ} {p : Param}
    (h : p.WellFormed src) :
    '#' ∉ (text p).toList := by
  cases p with
  | literal value => simpa [text, LITERAL_PARAM, String.toList_append] using h.1
  | stringPattern regex => simpa [text, STRING_PATTERN, String.toList_append] using h.1.1
  | sequentialString value => simpa [text, SEQUENTIAL_STRING, String.toList_append] using h.1
  | uuid => decide
  | intRange min max =>
      obtain ⟨lo, hi, hmin, hmax, -⟩ := h
      have h1 := not_mem_of_atoi hmin (c := '#') (by decide)
      have h2 := not_mem_of_atoi hmax (c := '#') (by decide)
      simp [text, INTEGER_RANGE, String.toList_append, h1, h2]
  | payloadRange min max =>
      obtain ⟨lo, hi, hmin, hmax, -⟩ := h
      have h1 := not_mem_of_atoi hmin (c := '#') (by decide)
      have h2 := not_mem_of_atoi hmax (c := '#') (by decide)
      simp [text, PAYLOAD_RANGE, String.toList_append, h1, h2]

/-- The modules split the string into the items and one empty one. -/
theorem split_texts {ρ : Type} {maxAlloc : Int64} {src : Source maxAlloc ρ} {ps : List Param}
    (h : ∀ p ∈ ps, p.WellFormed src) : split (texts ps) "#" = ps.map text ++ [""] := by
  have htoList : (texts ps).toList = (ps.map fun p => (text p).toList).flatMap (· ++ ['#']) := by
    clear h
    induction ps with
    | nil => rfl
    | cons p ps ih =>
        simp only [texts, String.toList_append, ih, List.map_cons, List.flatMap_cons]
        rfl
  have hpieces : ∀ piece ∈ ps.map (fun p => (text p).toList), '#' ∉ piece := by
    intro piece hpiece
    obtain ⟨p, hp, rfl⟩ := List.mem_map.mp hpiece
    exact hash_not_mem_text (h p hp)
  -- each item is followed by the separator, so an empty piece comes last
  have hsplit := split_flatMap hpieces []
  rw [← htoList] at hsplit
  have hsep : "#".toList = ['#'] := rfl
  rw [Go.split, hsep, hsplit, List.map_append, List.map_map]
  congr 1
  exact List.map_congr_left fun p _ => String.ofList_toList

/-! ## Decoding an item -/

/-- The kind of an item and the rest of its text. -/
theorem split_kind {kind : String} (h : '~' ∉ kind.toList) (rest : String) :
    split (kind ++ "~~~" ++ rest) "~~~" = kind :: split rest "~~~" := by
  have htoList : (kind ++ "~~~" ++ rest).toList
      = kind.toList ++ ('~' :: ['~', '~'] ++ rest.toList) := by
    simp only [String.toList_append, List.append_assoc]
    rfl
  have hsep : "~~~".toList = '~' :: ['~', '~'] := rfl
  simp only [Go.split, htoList, hsep, split_piece h, List.map_cons, String.ofList_toList]

/-- A last field is one piece. -/
theorem split_last {value : String} (h : ¬ "~~~".toList <:+: value.toList) :
    split value "~~~" = [value] := by
  simp only [Go.split, split_of_not_infix h, List.map_cons, List.map_nil, String.ofList_toList]

/-- A number is one piece. -/
theorem split_number {s : String} {n : Int64} (h : atoi s = some n) : split s "~~~" = [s] := by
  refine split_last fun hoccurs => not_mem_of_atoi h (c := '~') (by decide) ?_
  exact hoccurs.subset (List.mem_cons_self)

theorem split_range {kind min max : String} {lo hi : Int64} (h : '~' ∉ kind.toList)
    (hmin : atoi min = some lo) (hmax : atoi max = some hi) :
    split (kind ++ "~~~" ++ min ++ "~~~" ++ max) "~~~" = [kind, min, max] := by
  have hassoc : kind ++ "~~~" ++ min ++ "~~~" ++ max = kind ++ "~~~" ++ (min ++ "~~~" ++ max) := by
    simp only [String.append_assoc]
  have hrest := split_kind (not_mem_of_atoi hmin (c := '~') (by decide)) max
  rw [hassoc, split_kind h, hrest, split_number hmax]

/-- The item of a well-formed parameter decodes into that parameter. -/
theorem parseParam_text {ρ : Type} {maxAlloc : Int64} {src : Source maxAlloc ρ} {p : Param}
    (h : p.WellFormed src) :
    parseParam (text p) = .ok p := by
  cases p with
  | literal value =>
      have hsplit : split (text (.literal value)) "~~~" = [LITERAL_PARAM, value] := by
        rw [text, split_kind (by decide), split_last h.2]
      simp only [parseParam, hsplit, if_true]
  | stringPattern regex =>
      have hsplit : split (text (.stringPattern regex)) "~~~" = [STRING_PATTERN, regex] := by
        rw [text, split_kind (by decide), split_last h.1.2]
      simp only [parseParam, hsplit]
      rfl
  | sequentialString value =>
      have hsplit : split (text (.sequentialString value)) "~~~" = [SEQUENTIAL_STRING, value] := by
        rw [text, split_kind (by decide), split_last h.2]
      simp only [parseParam, hsplit]
      rfl
  | uuid => rfl
  | intRange min max =>
      -- bounds are numbers, so no separator is in them
      obtain ⟨lo, hi, hmin, hmax, -⟩ := h
      have hsplit : split (text (.intRange min max)) "~~~" = [INTEGER_RANGE, min, max] := by
        rw [text, split_range (by decide) hmin hmax]
      simp only [parseParam, hsplit]
      rfl
  | payloadRange min max =>
      obtain ⟨lo, hi, hmin, hmax, -⟩ := h
      have hsplit : split (text (.payloadRange min max)) "~~~" = [PAYLOAD_RANGE, min, max] := by
        rw [text, split_range (by decide) hmin hmax]
      simp only [parseParam, hsplit]
      rfl

theorem mapM_parseParam {ρ : Type} {maxAlloc : Int64} {src : Source maxAlloc ρ} {ps : List Param}
    (h : ∀ p ∈ ps, p.WellFormed src) : (ps.map text).mapM parseParam = .ok ps := by
  induction ps with
  | nil => rfl
  | cons p ps ih =>
      rw [List.map_cons, List.mapM_cons, parseParam_text (h p List.mem_cons_self),
        ih fun q hq => h q (List.mem_cons_of_mem p hq)]
      rfl

theorem dropTrailing_items (items : List String) : dropTrailing (items ++ [""]) = items := by
  simp [dropTrailing]

/-- What the modules decode from the string of a list, and the arguments they
    generate from it. -/
theorem decode_texts {ρ : Type} {maxAlloc : Int64} {src : Source maxAlloc ρ} {ps : List Param}
    (h : ∀ p ∈ ps, p.WellFormed src) :
    decodeParams (split (texts ps) "#") = .ok ps ∧
    ∀ loopIndex r, getComplexArgs src (split (texts ps) "#") loopIndex r
      = generateAll src loopIndex ps (src.seed r) := by
  have hparse := mapM_parseParam h
  have hdrop := dropTrailing_items (ps.map text)
  rw [split_texts h]
  refine ⟨by rw [decodeParams, hdrop, hparse], fun loopIndex r => ?_⟩
  have hlength : (ps.map text ++ [""]).length ≠ 0 := by simp
  rw [getComplexArgs, if_neg hlength, hdrop, complexArgsLoop_eq src loopIndex hparse]

/-! ## Decoding undoes encoding -/

/-- The arguments are those of `ps`, one for each parameter and in its place. -/
def Restores {ρ : Type} {maxAlloc : Int64} (src : Source maxAlloc ρ) (ps : List Param)
    (chaincodeParams : String) : Prop :=
  decodeParams (split chaincodeParams "#") = .ok ps ∧
  ∀ loopIndex r, ∃ args r',
    getComplexArgs src (split chaincodeParams "#") loopIndex r = .ok (args, r') ∧
    List.Forall₂ (Generates src loopIndex) ps args

/-- The modules restore the list in the order of the passes. -/
theorem restores_passes {ρ : Type} {maxAlloc : Int64} {src : Source maxAlloc ρ} {ps : List Param}
    (h : ∀ p ∈ ps, p.WellFormed src) :
    Restores src (passes playbookPasses pass ps) (texts (passes playbookPasses pass ps)) := by
  have hperm : (passes playbookPasses pass ps).Perm ps :=
    passes_perm (by decide) pass fun p _ => pass_mem p
  have hpasses : ∀ p ∈ passes playbookPasses pass ps, p.WellFormed src :=
    fun p hp => h p (hperm.mem_iff.mp hp)
  obtain ⟨hdecode, hargs⟩ := decode_texts hpasses
  refine ⟨hdecode, fun loopIndex r => ?_⟩
  obtain ⟨args, r', hgen⟩ := generateAll_ok hpasses loopIndex (src.seed r)
  exact ⟨args, r', (hargs loopIndex r).trans hgen, generateAll_forall₂ hgen⟩

/-- **When decoding undoes encoding.**  The playbook encodes every list of
    well-formed parameters, and the modules restore the list, with each
    argument generated from the parameter in its place, if and only if no
    parameter stands before one of an earlier pass. -/
theorem decoding_undoes_encoding_iff {ρ : Type} {maxAlloc : Int64} (src : Source maxAlloc ρ)
    (ps : List Param) (h : ∀ p ∈ ps, p.WellFormed src) :
    (∃ chaincodeParams, complexParamsString (ps.map item) = some chaincodeParams ∧
      Restores src ps chaincodeParams) ↔ InPassOrder ps := by
  have hrestores := restores_passes h
  rw [InPassOrder, ← passes_eq_iff (by decide) fun p _ => pass_mem p]
  constructor
  · -- a string decodes into one list only, and that is the list in pass order
    rintro ⟨chaincodeParams, hstring, hdecode, -⟩
    obtain rfl := Option.some.inj ((complexParamsString_item ps).symm.trans hstring)
    exact Except.ok.inj (hrestores.1.symm.trans hdecode)
  · intro heq
    rw [heq] at hrestores
    exact ⟨texts ps, by rw [complexParamsString_item, heq], hrestores⟩

/-- A source whose draws are all 0 and whose patterns are literal. -/
def zeros : Source linuxMaxAlloc Unit where
  seed r := r
  intn _ r := (0, r)
  newUUID r := ("f47ac10b-58cc-11ee-be56-0242ac120002", r)
  generateRegexString regex r := .ok (regex, r)
  intn_nonneg _ _ _ := Int64.le_refl 0
  intn_lt _ _ h := h

/-- One parameter of each kind, in the order of the passes. -/
def orderedParams : List Param :=
  [.literal "put", .stringPattern "account", .uuid, .intRange "0" "100"]

theorem decoding_undoes_encoding_ordered :
    ∃ chaincodeParams, complexParamsString (orderedParams.map item) = some chaincodeParams ∧
      Restores zeros orderedParams chaincodeParams := by
  refine (decoding_undoes_encoding_iff zeros orderedParams ?_).mpr (by decide)
  -- every parameter is well formed
  intro p hp
  simp only [orderedParams, List.mem_cons, List.not_mem_nil, or_false] at hp
  rcases hp with rfl | rfl | rfl | rfl
  · exact ⟨by decide, by decide⟩
  · exact ⟨⟨by decide, by decide⟩, fun r => ⟨_, rfl⟩⟩
  · trivial
  · exact ⟨0, 100, by decide, by decide, by decide, by decide⟩

/-- A range before a sequential string, as in the documentation's example. -/
def mixedParams : List Param := [.intRange "0" "100", .sequentialString "marbles*"]

/-- The arguments come out the other way round: the first one is not a value
    of the first parameter. -/
theorem arguments_swapped :
    ∃ chaincodeParams, complexParamsString (mixedParams.map item) = some chaincodeParams ∧
      getComplexArgs zeros (split chaincodeParams "#") 7 () = .ok (["marbles7", "0"], ()) ∧
      ¬ Generates zeros 7 (.intRange "0" "100") "marbles7" ∧
      ¬ Restores zeros mixedParams chaincodeParams := by
  have hargs : getComplexArgs zeros
      (split "sequentialString~~~marbles*#intRange~~~0~~~100#" "#") 7 ()
        = .ok (["marbles7", "0"], ()) := by decide
  have hnot : ¬ Generates zeros 7 (.intRange "0" "100") "marbles7" := by
    rintro ⟨r, r', hvalue⟩
    -- the range generates numbers only
    have hzero : Param.getValue zeros 7 (.intRange "0" "100") r = .ok ("0", ()) := by
      cases r
      decide
    have hvalues : ("0" : String) = "marbles7" :=
      (Prod.mk.inj (Except.ok.inj (hzero.symm.trans hvalue))).1
    exact absurd hvalues (by decide)
  refine ⟨_, by decide, hargs, hnot, fun hrestores => ?_⟩
  obtain ⟨args, r', hok, hall⟩ := hrestores.2 7 ()
  cases hargs.symm.trans hok
  cases hall with
  | cons hfirst _ => exact hnot hfirst

end Hfrd.Ansible
