/-
  Hfrd.Ansible.ParseTransient

  The encoding of `transientMapParams` by the playbook
  (backend/jenkins/pipelines/ansible/preruntest.yml and parsetransient.yml),
  and its decoding by the invoke command.

  The playbook writes the keys and, in two passes for each entry, the items of
  its value: first those without a `min`, then the ranges.  The second pass
  quotes `item.max`, so that every range ends in this word and no range is
  decoded.  A key that ends in the first character of the separator
  `~~~` loses it.
-/

import Hfrd.Ansible.PreRunTest
import Hfrd.Go.Csv
import Hfrd.GoSdk.TransientMap
import Mathlib.Data.List.DropRight

namespace Hfrd.Ansible

open Hfrd.Go Hfrd.GoSdk Hfrd.Lib

/-- An item of a value of `transientMapParams`. -/
structure TransientItem extends ParamItem where
  key : String

/-! ## The tasks of the playbook -/

/-- "Add literal/stringPattern parameters"; an undefined value fails the play. -/
def addTransientValue (transientmap_param_values_string : String) (item : TransientItem) :
    Option String :=
  if item.min.isNone then
    item.value.map fun value => transientmap_param_values_string
      ++ item.type ++ "~~~" ++ item.key ++ "~~~" ++ value ++ "#"
  else some transientmap_param_values_string

/-- "Add intRange/payloadRange parameters". -/
def addTransientRange (transientmap_param_values_string : String) (item : TransientItem) :
    String :=
  match item.min with
  -- `item.max` stands in quotes
  | some min => transientmap_param_values_string
      ++ item.type ++ "~~~" ++ item.key ++ "~~~" ++ min ++ "~~~" ++ "item.max" ++ "#"
  | none => transientmap_param_values_string

/-- parsetransient.yml: the items of one value, then a comma. -/
def parseTransient (transientmap_param_values_string : String)
    (transientmap_value : List TransientItem) : Option String := do
  let transientmap_param_values_string ←
    transientmap_value.foldlM addTransientValue transientmap_param_values_string
  some (transientmap_value.foldl addTransientRange transientmap_param_values_string ++ ",")

/-- "Load transientMap keys and build transientmap_param_keys_string". -/
def transientmapParamKeysString (params : List (String × List TransientItem)) : String :=
  params.foldl (fun s item => s ++ item.1 ++ ",") ""

/-- "Load transientMap values and build transienmap_param_values_string". -/
def transientmapParamValuesString (params : List (String × List TransientItem)) :
    Option String :=
  params.foldlM (fun s item => parseTransient s item.2) ""

/-! ## Plans -/

/-- The keys, each with the items of its value. -/
abbrev TransientPlan := List (String × List (String × Param))

/-- An item of the plan under its key. -/
def transientItem (it : String × Param) : TransientItem := { item it.2 with key := it.1 }

/-- A plan as it stands in the file of a test. -/
def planItems (plan : TransientPlan) : List (String × List TransientItem) :=
  plan.map fun e => (e.1, e.2.map transientItem)

/-- The types with a minimum and a maximum. -/
def isRange : Param → Bool
  | .intRange _ _ | .payloadRange _ _ => true
  | _ => false

/-- The strings of a parameter. -/
def fields : Param → List String
  | .literal value | .stringPattern value | .sequentialString value => [value]
  | .uuid => []
  | .intRange min max | .payloadRange min max => [min, max]

/-- Free of the separators: no `#`, `~~~`, comma, quote or line end. -/
structure Clean (s : String) : Prop where
  plain : Plain s
  unquoted : Unquoted s.toList

/-- An item as a plan may contain it. -/
structure ItemOk {ρ : Type} {maxAlloc : Int64} (src : Source maxAlloc ρ) (it : String × Param) :
    Prop where
  key : Clean it.1
  fields : ∀ s ∈ fields it.2, Clean s
  notUuid : it.2 ≠ .uuid
  wellFormed : it.2.WellFormed src

/-- A plan that the format has texts for: every key has items, and no key comes
    twice. -/
structure PlanOk {ρ : Type} {maxAlloc : Int64} (src : Source maxAlloc ρ) (plan : TransientPlan) :
    Prop where
  nonempty : plan ≠ []
  nodup : (plan.map Prod.fst).Nodup
  keys : ∀ e ∈ plan, Clean e.1
  nonemptyItems : ∀ e ∈ plan, e.2 ≠ []
  nodupItems : ∀ e ∈ plan, (e.2.map Prod.fst).Nodup
  items : ∀ e ∈ plan, ∀ it ∈ e.2, ItemOk src it

/-! ## The strings -/

/-- Texts that are each followed by `sep`. -/
def terminated (sep : Char) (texts : List String) : String :=
  String.ofList (texts.flatMap fun text => text.toList ++ [sep])

theorem terminated_nil (sep : Char) : terminated sep [] = "" := rfl

theorem terminated_cons (sep : Char) (text : String) (texts : List String) :
    terminated sep (text :: texts) = text ++ String.singleton sep ++ terminated sep texts := by
  apply String.toList_injective
  simp [terminated, String.toList_append]

theorem terminated_append (sep : Char) (texts texts' : List String) :
    terminated sep (texts ++ texts') = terminated sep texts ++ terminated sep texts' := by
  apply String.toList_injective
  simp [terminated, String.toList_append]

/-- What the playbook writes of the fields of a parameter. -/
def written : Param → String
  | .literal value | .stringPattern value | .sequentialString value => value
  | .uuid => ""
  | .intRange min _ | .payloadRange min _ => min ++ "~~~" ++ "item.max"

/-- The text of an item. -/
def transientText (it : String × Param) : String :=
  (item it.2).type ++ "~~~" ++ it.1 ++ "~~~" ++ written it.2

/-- The texts of the items of a value, in the order of the two passes. -/
def entryPieces (items : List (String × Param)) : List String :=
  ((items.filter (!isRange ·.2)) ++ items.filter (isRange ·.2)).map transientText

/-- The text of the items of one key. -/
def entryText (items : List (String × Param)) : String := terminated '#' (entryPieces items)

theorem addTransientValue_item (s : String) {it : String × Param} (h : it.2 ≠ .uuid) :
    addTransientValue s (transientItem it)
      = some (if isRange it.2 then s else s ++ transientText it ++ "#") := by
  obtain ⟨key, p⟩ := it
  cases p with
  | uuid => exact absurd rfl h
  | _ => simp [addTransientValue, transientItem, item, isRange, transientText, written,
      String.append_assoc]

theorem addTransientRange_item (s : String) (it : String × Param) :
    addTransientRange s (transientItem it)
      = if isRange it.2 then s ++ transientText it ++ "#" else s := by
  obtain ⟨key, p⟩ := it
  cases p <;> simp [addTransientRange, transientItem, item, isRange, transientText, written,
    String.append_assoc]

theorem foldlM_addTransientValue {items : List (String × Param)}
    (h : ∀ it ∈ items, it.2 ≠ .uuid) (s : String) :
    (items.map transientItem).foldlM addTransientValue s
      = some (s ++ terminated '#' ((items.filter (!isRange ·.2)).map transientText)) := by
  induction items generalizing s with
  | nil => simp [terminated_nil]
  | cons it items ih =>
      have hrest := ih fun i hi => h i (List.mem_cons_of_mem it hi)
      rw [List.map_cons, List.foldlM_cons, addTransientValue_item s (h it List.mem_cons_self),
        Option.bind_eq_bind, Option.bind_some, hrest]
      cases hrange : isRange it.2 with
      | true => simp [hrange]
      | false =>
          simp only [hrange, Bool.false_eq_true, if_false, List.filter_cons, Bool.not_false,
            if_true, List.map_cons, terminated_cons, String.append_assoc]
          rfl

theorem foldl_addTransientRange (items : List (String × Param)) (s : String) :
    (items.map transientItem).foldl addTransientRange s
      = s ++ terminated '#' ((items.filter (isRange ·.2)).map transientText) := by
  induction items generalizing s with
  | nil => simp [terminated_nil]
  | cons it items ih =>
      rw [List.map_cons, List.foldl_cons, ih, addTransientRange_item]
      cases hrange : isRange it.2 with
      | true =>
          simp only [if_true, List.filter_cons, hrange, List.map_cons, terminated_cons,
            String.append_assoc]
          rfl
      | false => simp [hrange]

/-- What is written for one value. -/
theorem parseTransient_items {items : List (String × Param)} (h : ∀ it ∈ items, it.2 ≠ .uuid)
    (s : String) :
    parseTransient s (items.map transientItem) = some (s ++ entryText items ++ ",") := by
  rw [parseTransient, foldlM_addTransientValue h, Option.bind_eq_bind, Option.bind_some,
    foldl_addTransientRange, entryText, entryPieces, List.map_append, terminated_append]
  simp only [String.append_assoc]

theorem transientmapParamKeysString_plan (plan : TransientPlan) :
    transientmapParamKeysString (planItems plan) = terminated ',' (plan.map Prod.fst) := by
  have hfold : ∀ s, (planItems plan).foldl (fun s item => s ++ item.1 ++ ",") s
      = s ++ terminated ',' (plan.map Prod.fst) := by
    unfold planItems
    induction plan with
    | nil => simp [terminated_nil]
    | cons e plan ih =>
        intro s
        rw [List.map_cons, List.foldl_cons, ih, List.map_cons, terminated_cons]
        simp only [String.append_assoc]
        rfl
  rw [transientmapParamKeysString, hfold, String.empty_append]

theorem transientmapParamValuesString_plan {plan : TransientPlan}
    (h : ∀ e ∈ plan, ∀ it ∈ e.2, it.2 ≠ .uuid) :
    transientmapParamValuesString (planItems plan)
      = some (terminated ',' (plan.map fun e => entryText e.2)) := by
  have hfold : ∀ s, (planItems plan).foldlM (fun s item => parseTransient s item.2) s
      = some (s ++ terminated ',' (plan.map fun e => entryText e.2)) := by
    unfold planItems
    induction plan with
    | nil => simp [terminated_nil]
    | cons e plan ih =>
        intro s
        rw [List.map_cons, List.foldlM_cons, parseTransient_items (h e List.mem_cons_self),
          Option.bind_eq_bind, Option.bind_some, ih fun e' he => h e' (List.mem_cons_of_mem e he),
          List.map_cons, terminated_cons]
        simp only [String.append_assoc]
        rfl
  rw [transientmapParamValuesString, hfold, String.empty_append]

/-! ## Characters -/

/-- The characters that separate and quote in the two flags. -/
def flagChars : List Char := ['#', ',', '"', '\n']

theorem Clean.not_mem {s : String} (h : Clean s) : ∀ c ∈ flagChars, c ∉ s.toList := by
  intro c hc
  simp only [flagChars, List.mem_cons, List.not_mem_nil, or_false] at hc
  rcases hc with rfl | rfl | rfl | rfl
  · exact h.plain.1
  · exact h.unquoted.2.2
  · exact h.unquoted.1
  · exact h.unquoted.2.1

theorem not_mem_append {c : Char} {s t : String} (hs : c ∉ s.toList) (ht : c ∉ t.toList) :
    c ∉ (s ++ t).toList := by
  rw [String.toList_append, List.mem_append, not_or]
  exact ⟨hs, ht⟩

theorem not_mem_of_all {cs : List Char} {t : String}
    (h : cs.all (!t.toList.contains ·) = true) : ∀ c ∈ cs, c ∉ t.toList := by
  intro c hc hmem
  have hc := List.all_eq_true.mp h c hc
  rw [List.contains_iff_mem.mpr hmem] at hc
  cases hc

/-- The kinds hold neither these characters nor the one of the separator. -/
theorem not_mem_type (p : Param) : ∀ c ∈ '~' :: flagChars, c ∉ (item p).type.toList := by
  have hkinds : ∀ kind ∈ [LITERAL_PARAM, STRING_PATTERN, SEQUENTIAL_STRING, UUID_PARAM,
      INTEGER_RANGE, PAYLOAD_RANGE], ('~' :: flagChars).all (!kind.toList.contains ·) = true := by
    decide
  refine not_mem_of_all (hkinds _ ?_)
  cases p <;> simp [item]

theorem not_mem_written {p : Param} (h : ∀ s ∈ fields p, Clean s) :
    ∀ c ∈ flagChars, c ∉ (written p).toList := by
  intro c hc
  have hsep : c ∉ "~~~".toList := not_mem_of_all (by decide) c hc
  have hmax : c ∉ "item.max".toList := not_mem_of_all (by decide) c hc
  cases p with
  | uuid => exact List.not_mem_nil
  | literal value => exact (h value List.mem_cons_self).not_mem c hc
  | stringPattern regex => exact (h regex List.mem_cons_self).not_mem c hc
  | sequentialString value => exact (h value List.mem_cons_self).not_mem c hc
  | intRange min max =>
      have hmin := (h min List.mem_cons_self).not_mem c hc
      exact not_mem_append (not_mem_append hmin hsep) hmax
  | payloadRange min max =>
      have hmin := (h min List.mem_cons_self).not_mem c hc
      exact not_mem_append (not_mem_append hmin hsep) hmax

theorem not_mem_transientText {it : String × Param} (hkey : Clean it.1)
    (hfields : ∀ s ∈ fields it.2, Clean s) : ∀ c ∈ flagChars, c ∉ (transientText it).toList := by
  intro c hc
  have hsep : c ∉ "~~~".toList := not_mem_of_all (by decide) c hc
  exact not_mem_append (not_mem_append (not_mem_append (not_mem_append
    (not_mem_type it.2 c (List.mem_cons_of_mem _ hc)) hsep) (hkey.not_mem c hc)) hsep)
    (not_mem_written hfields c hc)

theorem mem_entryPieces {items : List (String × Param)} {piece : String} :
    piece ∈ entryPieces items ↔ ∃ it ∈ items, transientText it = piece := by
  simp only [entryPieces, List.mem_map, List.mem_append, List.mem_filter, Bool.not_eq_true']
  constructor
  · rintro ⟨it, ⟨hit, -⟩ | ⟨hit, -⟩, rfl⟩
    · exact ⟨it, hit, rfl⟩
    · exact ⟨it, hit, rfl⟩
  · rintro ⟨it, hit, rfl⟩
    cases hrange : isRange it.2 with
    | true => exact ⟨it, .inr ⟨hit, hrange⟩, rfl⟩
    | false => exact ⟨it, .inl ⟨hit, hrange⟩, rfl⟩

/-- The text of a value is one field of the record. -/
theorem unquoted_entryText {items : List (String × Param)} {ρ : Type} {maxAlloc : Int64}
    {src : Source maxAlloc ρ}
    (h : ∀ it ∈ items, ItemOk src it) : Unquoted (entryText items).toList := by
  have hchar : ∀ c ∈ flagChars, c ≠ '#' → c ∉ (entryText items).toList := by
    intro c hc hne hmem
    rw [entryText, terminated, String.toList_ofList, List.mem_flatMap] at hmem
    obtain ⟨piece, hpiece, hmem⟩ := hmem
    obtain ⟨it, hit, rfl⟩ := mem_entryPieces.mp hpiece
    rcases List.mem_append.mp hmem with hmem | hmem
    · exact not_mem_transientText (h it hit).key (h it hit).fields c hc hmem
    · exact hne (List.mem_singleton.mp hmem)
  exact ⟨hchar '"' (by decide) (by decide), hchar '\n' (by decide) (by decide),
    hchar ',' (by decide) (by decide)⟩

/-- The items that the invoke command takes from the text of a value. -/
theorem paramArray_entryText {items : List (String × Param)} {ρ : Type} {maxAlloc : Int64}
    {src : Source maxAlloc ρ} (hne : items ≠ []) (h : ∀ it ∈ items, ItemOk src it) :
    paramArray (entryText items) = entryPieces items ++ [""] := by
  have hpieces : ∀ piece ∈ (entryPieces items).map String.toList, '#' ∉ piece := by
    intro piece hpiece
    obtain ⟨text, htext, rfl⟩ := List.mem_map.mp hpiece
    obtain ⟨it, hit, rfl⟩ := mem_entryPieces.mp htext
    exact not_mem_transientText (h it hit).key (h it hit).fields '#' (by decide)
  have htext : (entryText items).toList
      = ((entryPieces items).map String.toList).flatMap (· ++ ['#']) := by
    rw [entryText, terminated, String.toList_ofList, List.flatMap_map]
  have hnonempty : entryText items ≠ "" := by
    obtain ⟨it, hit⟩ := List.exists_mem_of_ne_nil items hne
    intro hempty
    have hmem : '#' ∈ (entryText items).toList := by
      rw [entryText, terminated, String.toList_ofList, List.mem_flatMap]
      exact ⟨transientText it, mem_entryPieces.mpr ⟨it, hit, rfl⟩, by simp⟩
    rw [hempty] at hmem
    exact List.not_mem_nil hmem
  have hsplit := split_flatMap hpieces []
  rw [← htext] at hsplit
  have hsep : "#".toList = ['#'] := rfl
  rw [paramArray, if_pos hnonempty, Go.split, hsep, hsplit, List.map_append, List.map_map]
  simp

/-! ## Decoding an item -/

/-- What is left of a key in front of the separator. -/
def stripTildes (key : String) : String := String.ofList (key.toList.rdropWhile (· == '~'))

theorem toList_stripTildes (key : String) :
    (stripTildes key).toList = key.toList.rdropWhile (· == '~') :=
  String.toList_ofList

theorem stripTildes_getLast (key : String) : (stripTildes key).toList.getLast? ≠ some '~' := by
  rw [toList_stripTildes]
  intro hlast
  obtain ⟨hne, hget⟩ := List.mem_getLast?_eq_getLast hlast
  exact List.rdropWhile_last_not _ _ hne (by rw [← hget]; rfl)

theorem stripTildes_eq {key : String} (h : key.toList.getLast? ≠ some '~') :
    stripTildes key = key := by
  have hkeep : key.toList.rdropWhile (· == '~') = key.toList := by
    refine List.rdropWhile_eq_self_iff.mpr fun hne heq => h ?_
    rw [List.getLast?_eq_some_getLast hne, beq_iff_eq.mp heq]
  rw [stripTildes, hkeep, String.ofList_toList]

/-- A field without the separator that does not end in its first character. -/
theorem split_field {field : String} (hoccurs : ¬ "~~~".toList <:+: field.toList)
    (hlast : field.toList.getLast? ≠ some '~') (rest : String) :
    split (field ++ "~~~" ++ rest) "~~~" = field :: split rest "~~~" := by
  have hsep : "~~~".toList = List.replicate (2 + 1) '~' := rfl
  have htoList : (field ++ "~~~" ++ rest).toList
      = field.toList ++ (List.replicate (2 + 1) '~' ++ rest.toList) := by
    simp only [String.toList_append, List.append_assoc, hsep]
  rw [hsep] at hoccurs
  simp only [Go.split, htoList, hsep, split_run_piece hoccurs hlast, List.map_cons,
    String.ofList_toList]

/-- The key of an item ends where its last `~` begin; these go to the field
    behind it. -/
theorem split_key {key : String} (hkey : Clean key) (rest : String) :
    ∃ n ≤ 2, (key.toList.getLast? ≠ some '~' → n = 0) ∧
      split (key ++ "~~~" ++ rest) "~~~"
        = stripTildes key :: split (String.ofList (List.replicate n '~') ++ rest) "~~~" := by
  have hsplit := List.rdropWhile_append_rtakeWhile (p := (· == '~')) (l := key.toList)
  have hrun : key.toList.rtakeWhile (· == '~')
      = List.replicate (key.toList.rtakeWhile (· == '~')).length '~' :=
    List.eq_replicate_iff.mpr ⟨rfl, fun c hc =>
      beq_iff_eq.mp (List.mem_rtakeWhile_imp (p := (· == '~')) hc)⟩
  generalize (key.toList.rtakeWhile (· == '~')).length = n at hrun
  rw [hrun] at hsplit
  refine ⟨n, ?_, fun hlast => ?_, ?_⟩
  · -- three of them would be a separator inside the key
    by_contra hlong
    refine hkey.plain.2 ⟨key.toList.rdropWhile (· == '~'), List.replicate (n - 3) '~', ?_⟩
    have hsep : "~~~".toList = List.replicate 3 '~' := rfl
    rw [hsep, List.append_assoc, ← List.replicate_add, show 3 + (n - 3) = n by omega, hsplit]
  · have hnil : key.toList.rtakeWhile (· == '~') = [] := by
      refine List.rtakeWhile_eq_nil_iff.mpr fun hne heq => hlast ?_
      rw [List.getLast?_eq_some_getLast hne, beq_iff_eq.mp heq]
    rw [hrun] at hnil
    exact (List.replicate_eq_nil_iff '~').mp hnil
  · have hprefix := List.rdropWhile_prefix (· == '~') key.toList
    have hoccurs : ¬ "~~~".toList <:+: (stripTildes key).toList := by
      rw [toList_stripTildes]
      exact fun h => hkey.plain.2 (List.IsInfix.trans h hprefix.isInfix)
    have htext : key ++ "~~~" ++ rest
        = stripTildes key ++ "~~~" ++ (String.ofList (List.replicate n '~') ++ rest) := by
      apply String.toList_injective
      have hsep : "~~~".toList = List.replicate 3 '~' := rfl
      simp only [String.toList_append, toList_stripTildes, String.toList_ofList,
        List.append_assoc, hsep]
      -- the `~` of the key and those of the separator change places
      rw [← List.append_assoc (List.replicate 3 '~'), ← List.replicate_add, Nat.add_comm 3 n,
        List.replicate_add, List.append_assoc, ← List.append_assoc _ (List.replicate n '~'),
        hsplit]
    rw [htext, split_field hoccurs (stripTildes_getLast key)]

theorem split_transientText {it : String × Param} (hkey : Clean it.1) :
    ∃ n ≤ 2, (it.1.toList.getLast? ≠ some '~' → n = 0) ∧
      split (transientText it) "~~~" = (item it.2).type :: stripTildes it.1
        :: split (String.ofList (List.replicate n '~') ++ written it.2) "~~~" := by
  obtain ⟨n, hn, hzero, hsplit⟩ := split_key hkey (written it.2)
  have htype : '~' ∉ (item it.2).type.toList := not_mem_type it.2 '~' List.mem_cons_self
  have hassoc : transientText it
      = (item it.2).type ++ "~~~" ++ (it.1 ++ "~~~" ++ written it.2) := by
    simp only [transientText, String.append_assoc]
  exact ⟨n, hn, hzero, by rw [hassoc, split_kind htype, hsplit]⟩

/-- The key under which an item is decoded is its second part. -/
theorem parseTransientParam_key {param kind mapKey : String} {parts : List String}
    {it : String × Param} (hsplit : split param "~~~" = kind :: mapKey :: parts)
    (h : parseTransientParam param = .ok it) : it.1 = mapKey := by
  simp only [parseTransientParam, hsplit] at h
  repeat' split at h
  all_goals cases h
  all_goals rfl

/-- Whatever an item decodes into, its key does not end in `~`. -/
theorem decodes_key {it it' : String × Param} (hkey : Clean it.1)
    (h : Decodes (transientText it) it') : it'.1 = stripTildes it.1 := by
  obtain ⟨n, -, -, hsplit⟩ := split_transientText hkey
  exact parseTransientParam_key hsplit h

/-- An item with a value decodes into itself. -/
theorem decodes_value {ρ : Type} {maxAlloc : Int64} {src : Source maxAlloc ρ} {it : String × Param}
    (h : ItemOk src it) (hrange : isRange it.2 = false) (hlast : it.1.toList.getLast? ≠ some '~') :
    Decodes (transientText it) it := by
  obtain ⟨n, -, hzero, hsplit⟩ := split_transientText h.key
  rw [hzero hlast, stripTildes_eq hlast, List.replicate_zero, String.ofList_nil,
    String.empty_append] at hsplit
  obtain ⟨key, p⟩ := it
  have hwritten : ∀ value ∈ fields p, split value "~~~" = [value] :=
    fun value hvalue => split_last (h.fields value hvalue).plain.2
  unfold Decodes parseTransientParam
  cases p with
  | uuid => exact absurd rfl h.notUuid
  | intRange min max => cases hrange
  | payloadRange min max => cases hrange
  | literal value =>
      rw [written, hwritten value List.mem_cons_self] at hsplit
      rw [hsplit]
      rfl
  | stringPattern regex =>
      rw [written, hwritten regex List.mem_cons_self] at hsplit
      rw [hsplit]
      rfl
  | sequentialString value =>
      rw [written, hwritten value List.mem_cons_self] at hsplit
      rw [hsplit]
      rfl

/-- A range with a bound that is no number generates nothing. -/
theorem not_generates_range {ρ : Type} {maxAlloc : Int64} {src : Source maxAlloc ρ}
    {loopIndex : Int64} {p : Param}
    {min arg : String} (hp : p = .intRange min "item.max" ∨ p = .payloadRange min "item.max") :
    ¬ Generates src loopIndex p arg := by
  have hmax : atoi "item.max" = none := by decide
  rintro ⟨r, r', hvalue⟩
  rcases hp with rfl | rfl
  · simp only [Param.getValue, rangeBounds] at hvalue
    cases hmin : atoi min with
    | none => simp [hmin] at hvalue
    | some lo => simp [hmin, hmax] at hvalue
  · simp only [Param.getValue, rangeBounds] at hvalue
    cases hmin : atoi min with
    | none => simp [hmin] at hvalue
    | some lo => simp [hmin, hmax] at hvalue

/-- The two bounds that are decoded from the text of a range. -/
theorem split_written {min : String} {lo : Int64} (hmin : atoi min = some lo) {n : Nat}
    (hn : n ≤ 2) :
    split (String.ofList (List.replicate n '~') ++ (min ++ "~~~" ++ "item.max")) "~~~"
      = [String.ofList (List.replicate n '~') ++ min, "item.max"] := by
  have hdigit : '~' ∉ min.toList := not_mem_of_atoi hmin (by decide)
  have htoList : (String.ofList (List.replicate n '~') ++ min).toList
      = List.replicate n '~' ++ min.toList := by
    rw [String.toList_append, String.toList_ofList]
  -- there are too few `~` for a separator
  have hoccurs : ¬ "~~~".toList <:+: (String.ofList (List.replicate n '~') ++ min).toList := by
    intro h
    have hcount := h.sublist.count_le '~'
    rw [htoList, List.count_append, List.count_replicate_self, List.count_eq_zero.mpr hdigit]
      at hcount
    have hthree : List.count '~' "~~~".toList = 3 := by decide
    omega
  have hlast : (String.ofList (List.replicate n '~') ++ min).toList.getLast? ≠ some '~' := by
    have hne : min.toList ≠ [] := by
      intro hnil
      rw [atoi, hnil] at hmin
      cases hmin
    rw [htoList, List.getLast?_append_of_ne_nil _ hne]
    exact fun h => hdigit (List.mem_of_getLast? h)
  have hassoc : String.ofList (List.replicate n '~') ++ (min ++ "~~~" ++ "item.max")
      = (String.ofList (List.replicate n '~') ++ min) ++ "~~~" ++ "item.max" := by
    simp only [String.append_assoc]
  rw [hassoc, split_field hoccurs hlast]
  rfl

/-- **No range is decoded into a parameter that has a value.** -/
theorem not_generates_decoded {ρ : Type} {maxAlloc : Int64} {src : Source maxAlloc ρ}
    {loopIndex : Int64} {it it' : String × Param} (h : ItemOk src it) (hrange : isRange it.2 = true)
    (hdecodes : Decodes (transientText it) it') {arg : String} :
    ¬ Generates src loopIndex it'.2 arg := by
  obtain ⟨n, hn, -, hsplit⟩ := split_transientText h.key
  obtain ⟨key, p⟩ := it
  unfold Decodes parseTransientParam at hdecodes
  cases p with
  | intRange min max =>
      obtain ⟨lo, hi, hmin, -⟩ := h.wellFormed
      rw [written, split_written hmin hn] at hsplit
      rw [hsplit] at hdecodes
      obtain rfl := Except.ok.inj hdecodes
      exact not_generates_range (.inl rfl)
  | payloadRange min max =>
      obtain ⟨lo, hi, hmin, -⟩ := h.wellFormed
      rw [written, split_written hmin hn] at hsplit
      rw [hsplit] at hdecodes
      obtain rfl := Except.ok.inj hdecodes
      exact not_generates_range (.inr rfl)
  | _ => cases hrange

/-! ## Decoding undoes encoding -/

/-- The bytes of a JSON object with the keys of the items, each with a value
    that is generated from its item. -/
def RestoresEntry {ρ : Type} {maxAlloc : Int64} (src : Source maxAlloc ρ) (loopIndex : Int64)
    (items : List (String × Param)) (bytes : List UInt8) : Prop :=
  ∃ transientMapV : Fields, (Value.object transientMapV).WellFormed ∧
    bytes = utf8 (Value.object transientMapV).text ∧
    (∀ key, (transientMapV.lookup key).isSome = true ↔ key ∈ items.map Prod.fst) ∧
    ∀ it ∈ items, ∃ arg, Generates src loopIndex it.2 arg ∧
      transientMapV.lookup it.1 = some (transientValue arg)

/-- The keys of the plan, each with its entry. -/
def RestoresPlan {ρ : Type} {maxAlloc : Int64} (src : Source maxAlloc ρ) (loopIndex : Int64)
    (plan : TransientPlan) (transientDynamicMap : TransientMap) : Prop :=
  (∀ key, (transientDynamicMap.lookup key).isSome = true ↔ key ∈ plan.map Prod.fst) ∧
  ∀ e ∈ plan, ∃ bytes, transientDynamicMap.lookup e.1 = some bytes ∧
    RestoresEntry src loopIndex e.2 bytes

/-- The playbook writes the two flags, the flags are split, and
    `GenerateChaincodeParams` restores the plan. -/
def PlanRestored {ρ : Type} {maxAlloc : Int64} (src : Source maxAlloc ρ)
    (chaincodeParamArray : List String)
    (transientMap : String) (plan : TransientPlan) (iterationIndex : Int64) (r : ρ) : Prop :=
  ∃ values ks vs p r' dynamic,
    transientmapParamValuesString (planItems plan) = some values ∧
    readAsCSV (transientmapParamKeysString (planItems plan)) = some ks ∧
    readAsCSV values = some vs ∧
    generateChaincodeParams src chaincodeParamArray transientMap ks vs iterationIndex r
      = .ok (p, r') ∧
    p.transientDynamicMap = some dynamic ∧ RestoresPlan src iterationIndex plan dynamic

/-- An item without a `max` whose key does not run into the separator. -/
def Survives (it : String × Param) : Prop :=
  isRange it.2 = false ∧ it.1.toList.getLast? ≠ some '~'

instance (it : String × Param) : Decidable (Survives it) :=
  inferInstanceAs (Decidable (_ ∧ _))

variable {ρ : Type} {maxAlloc : Int64} {src : Source maxAlloc ρ} {plan : TransientPlan}

/-- What the flags of a plan are split into. -/
theorem readAsCSV_plan (h : PlanOk src plan) :
    transientmapParamValuesString (planItems plan)
      = some (terminated ',' (plan.map fun e => entryText e.2)) ∧
    readAsCSV (transientmapParamKeysString (planItems plan)) = some (plan.map Prod.fst ++ [""]) ∧
    readAsCSV (terminated ',' (plan.map fun e => entryText e.2))
      = some ((plan.map fun e => entryText e.2) ++ [""]) := by
  have hne : ∀ f : String × List (String × Param) → String, plan.map f ≠ [] :=
    fun f hnil => h.nonempty (List.map_eq_nil_iff.mp hnil)
  refine ⟨transientmapParamValuesString_plan fun e he it hit => (h.items e he it hit).notUuid,
    ?_, readAsCSV_fields (hne _) fun text htext => ?_⟩
  · rw [transientmapParamKeysString_plan]
    refine readAsCSV_fields (hne _) fun key hkey => ?_
    obtain ⟨e, he, rfl⟩ := List.mem_map.mp hkey
    exact (h.keys e he).unquoted
  · obtain ⟨e, he, rfl⟩ := List.mem_map.mp htext
    exact unquoted_entryText (h.items e he)

/-- The loop runs over the keys of the plan. -/
theorem dynamicKeys_plan (plan : TransientPlan) :
    dynamicKeys (plan.map Prod.fst ++ [""]) ((plan.map fun e => entryText e.2) ++ [""])
      = plan.map Prod.fst := by
  have hlength : (plan.map Prod.fst ++ [""]).length ≠ 0
      ∧ (plan.map Prod.fst ++ [""]).length
        = ((plan.map fun e => entryText e.2) ++ [""]).length := by
    simp
  rw [dynamicKeys, if_pos hlength, dropTrailing_items]

/-- Each key stands in the place of its value. -/
theorem zip_plan (plan : TransientPlan) :
    (plan.map Prod.fst).zip ((plan.map fun e => entryText e.2) ++ [""])
      = plan.map fun e => (e.1, entryText e.2) := by
  induction plan with
  | nil => rfl
  | cons e plan ih => rw [List.map_cons, List.map_cons, List.cons_append, List.zip_cons_cons, ih,
      List.map_cons]

/-- The bytes of an entry, from the loop over its items. -/
theorem getTransientMap_entry {items : List (String × Param)} (hne : items ≠ [])
    (h : ∀ it ∈ items, ItemOk src it) {loopIndex : Int64} {r r' : ρ} {bytes : List UInt8} :
    getTransientMap src (paramArray (entryText items)) loopIndex r = .ok (bytes, r') ↔
      ∃ transientMapV, transientMapLoop src loopIndex (entryPieces items) [] (src.seed r)
        = .ok (transientMapV, r') ∧ bytes = utf8 (Value.object transientMapV).text := by
  have hlength : ¬ (entryPieces items ++ [""]).length = 0 := by simp
  rw [paramArray_entryText hne h, getTransientMap, if_neg hlength, dropTrailing_items]
  cases transientMapLoop src loopIndex (entryPieces items) [] (src.seed r) with
  | error failure => simp
  | ok out =>
      obtain ⟨transientMapV, r₁⟩ := out
      constructor
      · intro heq
        cases heq
        exact ⟨transientMapV, rfl, rfl⟩
      · rintro ⟨_, heq, rfl⟩
        cases heq
        rfl

/-- Where the loop over the items of an entry ends, no item is a range, and a
    key of the result does not end in `~`. -/
theorem survives_of_loop {items : List (String × Param)} (h : ∀ it ∈ items, ItemOk src it)
    {loopIndex : Int64} {r r' : ρ} {transientMapV : Fields}
    (hloop : transientMapLoop src loopIndex (entryPieces items) [] r = .ok (transientMapV, r'))
    {it : String × Param} (hit : it ∈ items)
    (hkey : (transientMapV.lookup it.1).isSome = true) : Survives it := by
  obtain ⟨items', hdecodes, hgenerates⟩ := transientMapLoop_decodes hloop
  have hmap := decodes_map hdecodes
  constructor
  · have hmem : parseTransientParam (transientText it) ∈ items'.map .ok := by
      rw [← hmap]
      exact List.mem_map_of_mem (mem_entryPieces.mpr ⟨it, hit, rfl⟩)
    obtain ⟨it', hit', hdecode⟩ := List.mem_map.mp hmem
    obtain ⟨arg, harg⟩ := hgenerates it' hit'
    by_contra hrange
    exact not_generates_decoded (h it hit) (by simpa using hrange) hdecode.symm harg
  · intro hlast
    have hnot : it.1 ∉ items'.map Prod.fst := by
      intro hmem
      obtain ⟨it', hit', heq⟩ := List.mem_map.mp hmem
      have hok : .ok it' ∈ (entryPieces items).map parseTransientParam := by
        rw [hmap]
        exact List.mem_map_of_mem hit'
      obtain ⟨piece, hpiece, hdecode⟩ := List.mem_map.mp hok
      obtain ⟨it₀, hit₀, rfl⟩ := mem_entryPieces.mp hpiece
      -- the key of the item is one that was stripped
      rw [← heq, decodes_key (h it₀ hit₀).key hdecode] at hlast
      exact stripTildes_getLast it₀.1 hlast
    rw [transientMapLoop_other hdecodes hloop hnot] at hkey
    cases hkey

/-- Items that survive are decoded one by one, in their order. -/
theorem decodes_survivors {items : List (String × Param)} (h : ∀ it ∈ items, ItemOk src it)
    (hsurvive : ∀ it ∈ items, Survives it) : List.Forall₂ Decodes (entryPieces items) items := by
  have hvalues : items.filter (!isRange ·.2) = items :=
    List.filter_eq_self.mpr fun it hit => by simp [(hsurvive it hit).1]
  have hranges : items.filter (isRange ·.2) = [] :=
    List.filter_eq_nil_iff.mpr fun it hit => by simp [(hsurvive it hit).1]
  rw [entryPieces, hvalues, hranges, List.append_nil, List.forall₂_map_left_iff,
    List.forall₂_same]
  exact fun it hit => decodes_value (h it hit) (hsurvive it hit).1 (hsurvive it hit).2

/-- The object of an entry whose items survive. -/
theorem restoresEntry_of_survives {items : List (String × Param)}
    (h : ∀ it ∈ items, ItemOk src it) (hnodup : (items.map Prod.fst).Nodup)
    (hsurvive : ∀ it ∈ items, Survives it) {loopIndex : Int64} {r r' : ρ} {transientMapV : Fields}
    (hloop : transientMapLoop src loopIndex (entryPieces items) [] r = .ok (transientMapV, r')) :
    RestoresEntry src loopIndex items (utf8 (Value.object transientMapV).text) := by
  have hdecodes := decodes_survivors h hsurvive
  have hitems := transientMapLoop_item hdecodes hnodup hloop
  have hempty : (Value.object ([] : Fields)).WellFormed := .object .nil nofun
  refine ⟨transientMapV, transientMapLoop_wellFormed hempty hloop, rfl, fun key => ⟨?_, ?_⟩,
    hitems⟩
  · intro hsome
    by_contra hnot
    rw [transientMapLoop_other hdecodes hloop hnot] at hsome
    cases hsome
  · intro hmem
    obtain ⟨it, hit, rfl⟩ := List.mem_map.mp hmem
    obtain ⟨arg, -, hlookup⟩ := hitems it hit
    rw [hlookup]
    rfl

/-- The members of two objects that are written alike. -/
theorem isSome_lookup_of_text {transientMapV transientMapV' : Fields}
    (h : (Value.object transientMapV).text = (Value.object transientMapV').text) (key : String) :
    (transientMapV.lookup key).isSome = (transientMapV'.lookup key).isSome := by
  have hdecoded := text_eq_iff.mp h
  simp only [Value.decoded, Value.object.injEq] at hdecoded
  have hlookup := congrArg (fun fields => (fields.lookup key).isSome) hdecoded
  simpa only [lookup_decodedFields, Option.isSome_map] using hlookup

/-- A plan that is restored has neither ranges nor item keys that end in `~`. -/
theorem survives_of_restored (h : PlanOk src plan) {chaincodeParamArray : List String}
    {transientMap : String} {iterationIndex : Int64} {r : ρ}
    (hrestored : PlanRestored src chaincodeParamArray transientMap plan iterationIndex r) :
    ∀ e ∈ plan, ∀ it ∈ e.2, Survives it := by
  obtain ⟨hvalues, hks, hvs⟩ := readAsCSV_plan h
  obtain ⟨values, ks, vs, p, r', dynamic, hvalues', hks', hvs', hgenerate, hdynamic, -, hentries⟩ :=
    hrestored
  obtain rfl := Option.some.inj (hvalues.symm.trans hvalues')
  obtain rfl := Option.some.inj (hks.symm.trans hks')
  obtain rfl := Option.some.inj (hvs.symm.trans hvs')
  obtain ⟨r₂, dynamic', -, -, hloop, hdynamic'⟩ := generateChaincodeParams_eq_ok.mp hgenerate
  obtain rfl := Option.some.inj (hdynamic.symm.trans hdynamic')
  rw [dynamicKeys_plan] at hloop
  intro e he it hit
  -- the bytes that were generated under the key are those of the entry
  have hentry := dynamicMapLoop_entry h.nodup hloop
  rw [zip_plan] at hentry
  obtain ⟨r₃, bytes, r₄, hbytes, hlookup⟩ := hentry (e.1, entryText e.2) (List.mem_map_of_mem he)
  obtain ⟨bytes', hlookup', transientMapV', -, htext', hkeys', -⟩ := hentries e he
  obtain rfl := Option.some.inj (hlookup.symm.trans hlookup')
  obtain ⟨transientMapV, hitems, htext⟩ :=
    (getTransientMap_entry (h.nonemptyItems e he) (h.items e he)).mp hbytes
  refine survives_of_loop (h.items e he) hitems hit ?_
  rw [isSome_lookup_of_text (utf8_injective (htext.symm.trans htext')), hkeys']
  exact List.mem_map_of_mem hit

/-- A plan whose items survive is restored. -/
theorem restored_of_survives (h : PlanOk src plan) (hsurvive : ∀ e ∈ plan, ∀ it ∈ e.2, Survives it)
    {chaincodeParamArray : List String} {transientMap : String} {iterationIndex : Int64} {r r₁ : ρ}
    {args : List String}
    (hargs : getComplexArgs src chaincodeParamArray iterationIndex r = .ok (args, r₁))
    (hrequired : 1 ≤ args.length) (hstatic : (staticMap transientMap).isSome = true) :
    PlanRestored src chaincodeParamArray transientMap plan iterationIndex r := by
  obtain ⟨hvalues, hks, hvs⟩ := readAsCSV_plan h
  -- the values of every key decode, whatever is drawn
  have hloops : ∀ entry ∈ (plan.map Prod.fst).zip ((plan.map fun e => entryText e.2) ++ [""]),
      ∀ r, ∃ bytes r', getTransientMap src (paramArray entry.2) iterationIndex r
        = .ok (bytes, r') := by
    rw [zip_plan]
    intro entry hentry r
    obtain ⟨e, he, rfl⟩ := List.mem_map.mp hentry
    obtain ⟨transientMapV, r', hloop⟩ := transientMapLoop_ok
      (decodes_survivors (h.items e he) (hsurvive e he))
      (fun it hit => (h.items e he it hit).wellFormed) [] (src.seed r)
    exact ⟨_, r', (getTransientMap_entry (h.nonemptyItems e he) (h.items e he)).mpr
      ⟨transientMapV, hloop, rfl⟩⟩
  obtain ⟨dynamic, r', hdynamic⟩ := dynamicMapLoop_ok (by simp) hloops [] r₁
  obtain ⟨tStaticMap, htStaticMap⟩ := Option.isSome_iff_exists.mp hstatic
  -- so the whole request is generated, with an entry for each key
  refine ⟨_, _, _, ⟨args, tStaticMap, some dynamic, hrequired, rfl⟩, r', dynamic, hvalues, hks,
    hvs, generateChaincodeParams_eq_ok.mpr ⟨r₁, dynamic, hargs, htStaticMap, ?_, rfl⟩, rfl,
    fun key => ?_, fun e he => ?_⟩
  · rw [dynamicKeys_plan]
    exact hdynamic
  · rw [dynamicMapLoop_isSome hdynamic]
    simp
  · have hentry := dynamicMapLoop_entry h.nodup hdynamic
    rw [zip_plan] at hentry
    obtain ⟨r₃, bytes, r₄, hbytes, hlookup⟩ :=
      hentry (e.1, entryText e.2) (List.mem_map_of_mem he)
    obtain ⟨transientMapV, hitems, rfl⟩ :=
      (getTransientMap_entry (h.nonemptyItems e he) (h.items e he)).mp hbytes
    exact ⟨_, hlookup, restoresEntry_of_survives (h.items e he) (h.nodupItems e he)
      (hsurvive e he) hitems⟩

/-- **When decoding undoes encoding.**  For every plan, every random state and
    every iteration whose arguments and static map decode, the plan is restored
    if and only if it has no range and no item key that ends in `~`. -/
theorem plan_restored_iff {ρ : Type} {maxAlloc : Int64} (src : Source maxAlloc ρ)
    (plan : TransientPlan) (h : PlanOk src plan)
    (chaincodeParamArray : List String) (transientMap : String) (iterationIndex : Int64) (r : ρ)
    {args : List String} {r₁ : ρ}
    (hargs : getComplexArgs src chaincodeParamArray iterationIndex r = .ok (args, r₁))
    (hrequired : 1 ≤ args.length) (hstatic : (staticMap transientMap).isSome = true) :
    PlanRestored src chaincodeParamArray transientMap plan iterationIndex r ↔
      ∀ e ∈ plan, ∀ it ∈ e.2, Survives it :=
  ⟨survives_of_restored h, fun hsurvive =>
    restored_of_survives h hsurvive hargs hrequired hstatic⟩

theorem itemOk_literal {key value : String} (hkey : Clean key) (hvalue : Clean value) :
    ItemOk src (key, .literal value) :=
  ⟨hkey, fun _ hs => List.mem_singleton.mp hs ▸ hvalue, nofun, hvalue.plain⟩

/-- A plan with one item. -/
theorem planOk_single {key : String} {it : String × Param} (hkey : Clean key)
    (hit : ItemOk src it) : PlanOk src [(key, [it])] where
  nonempty := List.cons_ne_nil _ _
  nodup := List.nodup_singleton key
  keys e he := List.mem_singleton.mp he ▸ hkey
  nonemptyItems e he := List.mem_singleton.mp he ▸ List.cons_ne_nil _ _
  nodupItems e he := List.mem_singleton.mp he ▸ List.nodup_singleton it.1
  items e he it' hit' := by
    obtain rfl := List.mem_singleton.mp he
    exact List.mem_singleton.mp hit' ▸ hit

/-- The plan {"marble": {"size": 35}}. -/
theorem plan_restored_iff_marble :
    PlanRestored zeros ["literal~~~initMarble"] "" [("marble", [("size", .literal "35")])]
      1 () := by
  have hmarble : Clean "marble" := ⟨⟨by decide, by decide⟩, by decide, by decide, by decide⟩
  have hsize : Clean "size" := ⟨⟨by decide, by decide⟩, by decide, by decide, by decide⟩
  have hvalue : Clean "35" := ⟨⟨by decide, by decide⟩, by decide, by decide, by decide⟩
  have hargs : getComplexArgs zeros ["literal~~~initMarble"] 1 () = .ok (["initMarble"], ()) := by
    decide
  exact (plan_restored_iff zeros _ (planOk_single hmarble (itemOk_literal hsize hvalue))
    ["literal~~~initMarble"] "" 1 () hargs (by decide) (by decide)).mpr (by decide)

/-- A range from 1 to 9, whose text ends in `item.max`, and the key `size~`. -/
theorem range_not_restored :
    (PlanOk zeros [("marble", [("size", .intRange "1" "9")])] ∧
      PlanOk zeros [("marble", [("size~", .literal "35")])]) ∧
    getComplexArgs zeros ["literal~~~initMarble"] 1 () = .ok (["initMarble"], ()) ∧
    ¬ PlanRestored zeros ["literal~~~initMarble"] "" [("marble", [("size", .intRange "1" "9")])]
      1 () ∧
    ¬ PlanRestored zeros ["literal~~~initMarble"] "" [("marble", [("size~", .literal "35")])]
      1 () := by
  have hmarble : Clean "marble" := ⟨⟨by decide, by decide⟩, by decide, by decide, by decide⟩
  have hsize : Clean "size" := ⟨⟨by decide, by decide⟩, by decide, by decide, by decide⟩
  have htilde : Clean "size~" := ⟨⟨by decide, by decide⟩, by decide, by decide, by decide⟩
  have hvalue : Clean "35" := ⟨⟨by decide, by decide⟩, by decide, by decide, by decide⟩
  have hbound : Clean "1" ∧ Clean "9" :=
    ⟨⟨⟨by decide, by decide⟩, by decide, by decide, by decide⟩,
      ⟨by decide, by decide⟩, by decide, by decide, by decide⟩
  have hrange : ItemOk zeros ("size", .intRange "1" "9") := by
    refine ⟨hsize, fun s hs => ?_, nofun, 1, 9, by decide, by decide, by decide, by decide⟩
    rcases List.mem_pair.mp hs with rfl | rfl
    · exact hbound.1
    · exact hbound.2
  have hranged := planOk_single hmarble hrange
  have htilded := planOk_single hmarble (@itemOk_literal _ _ zeros _ _ htilde hvalue)
  exact ⟨⟨hranged, htilded⟩, by decide,
    fun h => absurd (survives_of_restored hranged h) (by decide),
    fun h => absurd (survives_of_restored htilded h) (by decide)⟩

end Hfrd.Ansible
