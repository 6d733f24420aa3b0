/-
  Hfrd.Channel.EncodeAndReplaceNull

  `EncodeAndReplaceNull` (modules/gosdk/channel/utilities/channel.go) writes a
  map as JSON and cuts the null members of five names out of the text, one name
  after the other.

  What is cut out is the member with the comma behind it, so the last member of
  an object stays.  The encoder writes the members in the order of their keys:
  the one that stays is that with the greatest key.  `deletedNulls` says this of
  the map, in no words of the text.
-/

import Hfrd.Go.JsonReplace

namespace Hfrd.Channel

open Hfrd.Go

/-- The names of the null members, in the order of the passes. -/
def replacedNulls : List String :=
  ["signing_identity", "fabricNodeOus", "value", "policy", "crypto_config"]

/-- `EncodeAndReplaceNull` -/
def encodeAndReplaceNull (mapJson : ObjectValue) : List Char :=
  removeNullMembers replacedNulls (Value.object mapJson.fields).indented

/-! ## The map with its null members deleted -/

mutual

/-- The value with the null members of these names deleted, but for the one with
    the greatest key of its object. -/
def deletedNulls (names : List String) : Value → Value
  | .scalar s => .scalar s
  | .array elements => .array (deletedNullsElements names elements)
  | .object fields => .object (deletedNullsFields names fields fields)
  | .other json => deletedNulls names json

/-- The elements of an array, each without its null members. -/
def deletedNullsElements (names : List String) : List Value → List Value
  | [] => []
  | v :: elements => deletedNulls names v :: deletedNullsElements names elements

/-- The members of an object that has the members `object`. -/
def deletedNullsFields (names : List String) (object : Fields) : Fields → Fields
  | [] => []
  | (key, v) :: fields =>
      if v.isNull && decide (key ∈ names) && object.any fun f => decide (key < f.1) then
        deletedNullsFields names object fields
      else (key, deletedNulls names v) :: deletedNullsFields names object fields

end

/-- A member has the greatest key exactly when it is the last one. -/
theorem any_key_lt {before fields : Fields} {key : String} {v : Value}
    (h : SortedKeys (before ++ (key, v) :: fields)) :
    ((before ++ (key, v) :: fields).any fun f => decide (key < f.1)) = !fields.isEmpty := by
  rw [SortedKeys, List.map_append, List.map_cons] at h
  obtain ⟨-, hlast, hbefore⟩ := List.pairwise_append.mp h
  have hafter := (List.pairwise_cons.mp hlast).1
  have hno : (before.any fun f => decide (key < f.1)) = false := by
    rw [List.any_eq_false]
    intro f hf
    have hlt := hbefore f.1 (List.mem_map_of_mem hf) key List.mem_cons_self
    simpa using lt_asymm hlt
  rw [List.any_append, List.any_cons, hno, decide_eq_false (lt_irrefl key), Bool.false_or,
    Bool.false_or]
  cases fields with
  | nil => rfl
  | cons f fields =>
      have hlt := hafter f.1 (List.mem_map_of_mem List.mem_cons_self)
      rw [List.any_cons, decide_eq_true hlt, Bool.true_or]
      rfl

/-- With the keys in order, the members that are deleted are those that another
    one follows. -/
theorem deletedNulls_eq {v : Value} (h : v.WellFormed) (names : List String) :
    deletedNulls names v = v.withoutNulls names := by
  induction h with
  | scalar s => rfl
  | @array elements _ ih =>
      rw [deletedNulls, Value.withoutNulls]
      congr 1
      clear * - ih
      induction elements with
      | nil => rfl
      | cons v elements ih' =>
          rw [deletedNullsElements, Value.withoutNullsElements, ih v List.mem_cons_self,
            ih' fun w hw => ih w (List.mem_cons_of_mem v hw)]
  | @object object hkeys _ ih =>
      have hfields : ∀ fields before, before ++ fields = object →
          deletedNullsFields names object fields = Value.withoutNullsFields names fields := by
        intro fields
        induction fields with
        | nil => exact fun _ _ => rfl
        | cons f fields ih' =>
            intro before heq
            obtain ⟨key, v⟩ := f
            have hv := ih (key, v) (heq ▸ List.mem_append_right before List.mem_cons_self)
            have hrest := ih' (before ++ [(key, v)]) (by simpa using heq)
            -- a member has another one behind it exactly if some key is greater
            have hgreatest := any_key_lt (heq ▸ hkeys)
            rw [heq] at hgreatest
            rw [deletedNullsFields, Value.withoutNullsFields, hgreatest, hv, hrest,
              Bool.and_right_comm]
      rw [deletedNulls, Value.withoutNulls, hfields object [] rfl]
  | other _ ih => exact ih

/-! ## Keys -/

mutual

/-- The keys of all members in a value. -/
def allKeys : Value → List String
  | .scalar _ => []
  | .array elements => elementKeys elements
  | .object fields => fieldKeys fields
  | .other json => allKeys json

/-- The keys in the elements of an array. -/
def elementKeys : List Value → List String
  | [] => []
  | v :: elements => allKeys v ++ elementKeys elements

/-- The keys of the members of an object, and those below them. -/
def fieldKeys : Fields → List String
  | [] => []
  | (key, v) :: fields => key :: allKeys v ++ fieldKeys fields

end

theorem nullKeys_subset (v : Value) : v.nullKeys ⊆ allKeys v := by
  induction v using Value.induction with
  | scalar s => exact List.Subset.refl _
  | array elements ih =>
      rw [Value.nullKeys, allKeys]
      induction elements with
      | nil => exact List.Subset.refl _
      | cons v elements ih' =>
          intro key hkey
          rw [Value.elementNullKeys, List.mem_append] at hkey
          rw [elementKeys, List.mem_append]
          exact hkey.imp (@ih v List.mem_cons_self key)
            (@ih' (fun w hw => ih w (List.mem_cons_of_mem v hw)) key)
  | object fields ih =>
      rw [Value.nullKeys, allKeys]
      induction fields with
      | nil => exact List.Subset.refl _
      | cons f fields ih' =>
          intro key hkey
          rw [Value.fieldNullKeys, List.mem_append, List.mem_append] at hkey
          rw [fieldKeys, List.cons_append, List.mem_cons, List.mem_append]
          -- the key of this member, a key below it, or one of the members behind
          rcases hkey with (hkey | hkey) | hkey
          · split at hkey
            · exact .inl (List.mem_singleton.mp hkey)
            · cases hkey
          · exact .inr (.inl (ih f List.mem_cons_self hkey))
          · exact .inr (.inr (ih' (fun g hg => ih g (List.mem_cons_of_mem f hg)) hkey))
  | other json ih => exact ih

/-! ## The text -/

theorem isPlain_of_mem_replacedNulls :
    ∀ name ∈ replacedNulls, ∀ c ∈ name.toList, isPlain c = true := by
  have hall : ∀ name ∈ replacedNulls, name.toList.all isPlain = true := by decide
  exact fun name hname => List.all_eq_true.mp (hall name hname)

theorem indented_object (fields : Fields) :
    Indented ((Value.object fields).lines 0 none false) := by
  cases fields with
  | nil => exact indented_singleton rfl
  | cons f fields => exact Value.indented_lines (List.cons_ne_nil f fields) none

/-- What is read of the text: the map without the members that were cut out. -/
theorem unmarshal_withoutNulls (mapJson : ObjectValue)
    (hkeys : ∀ key ∈ allKeys (.object mapJson.fields), '"' ∉ key.toList) :
    unmarshal (encodeAndReplaceNull mapJson)
      = some ((Value.object mapJson.fields).withoutNulls replacedNulls) := by
  set v := Value.object mapJson.fields with hv
  have hquoted : ∀ name ∈ replacedNulls, NotQuoted name (lineNullKeys (v.lines 0 none false)) := by
    intro name _ key hkey hsuffix
    rw [Value.lineNullKeys_lines] at hkey
    refine hkeys key (nullKeys_subset v ?_) (hsuffix.mem List.mem_cons_self)
    simpa using hkey
  obtain ⟨ls, htext, hls⟩ := removeNullMembers_render isPlain_of_mem_replacedNulls
    (v.lines_ne_nil 0 none false) (indented_object mapJson.fields) hquoted
  -- the lines that are left are those of the map without the members
  have htokens : lineTokens ls = (v.withoutNulls replacedNulls).tokens := by
    rw [lineTokens_eq, hls, ← Value.lines_withoutNulls replacedNulls v 0 none false rfl,
      ← lineTokens_eq, Value.lineTokens_lines]
    simp [keyTokens, commaTokens]
  rw [encodeAndReplaceNull, Value.indented, htext, unmarshal, parse_render htokens,
    Value.decoded_withoutNulls, Option.map_some,
    assigned_eq (mapJson.wellFormed.withoutNulls replacedNulls)]

/-- **Null members are removed, and nothing else.**  Where no key holds a double
    quote, the text parses, and what is read is the map with the null members of
    the five names deleted, but for those with the greatest key of their
    object. -/
theorem unmarshal_encodeAndReplaceNull (mapJson : ObjectValue)
    (hkeys : ∀ key ∈ allKeys (.object mapJson.fields), '"' ∉ key.toList) :
    unmarshal (encodeAndReplaceNull mapJson)
      = some (deletedNulls replacedNulls (.object mapJson.fields)) := by
  rw [unmarshal_withoutNulls mapJson hkeys, deletedNulls_eq mapJson.wellFormed]

/-- A policy of which `policy` is null, and `version` follows. -/
def nullPolicy : ObjectValue where
  fields := [("policy", .null), ("version", .string "\"policy\": null,\n")]
  wellFormed := .pair "policy" "version" (by decide) (.scalar _) (.scalar _)

theorem unmarshal_encodeAndReplaceNull_policy :
    unmarshal (encodeAndReplaceNull nullPolicy)
      = some (.object [("version", .string "\"policy\": null,\n")]) := by
  have hdeleted : deletedNulls replacedNulls (.object nullPolicy.fields)
      = .object [("version", .string "\"policy\": null,\n")] :=
    (deletedNulls_eq nullPolicy.wellFormed replacedNulls).trans rfl
  rw [← hdeleted]
  refine unmarshal_encodeAndReplaceNull nullPolicy fun key hkey => ?_
  have hmem : key ∈ ["policy", "version"] := hkey
  simp only [List.mem_cons, List.not_mem_nil, or_false] at hmem
  rcases hmem with rfl | rfl <;> decide

end Hfrd.Channel
