/-
  Hfrd.Go.Json

  Decoded JSON values and how `json.Unmarshal` fills a Go map.

  Decoding an object into a `map[string]interface{}` that is already made adds
  its members to the map: a member replaces the value under its key, and keys
  the object does not have stay.  Values are replaced as a whole, nested
  objects included.  Decoding `null` sets the map to nil.
-/

import Mathlib.Data.Finmap

namespace Hfrd.Go

/-- A decoded JSON value; a number keeps its literal. -/
inductive Json
  | null
  | bool (b : Bool)
  | number (literal : String)
  | string (s : String)
  | array (elements : List Json)
  | object (fields : List (String × Json))

/-- A made `map[string]interface{}`. -/
abbrev JsonMap := Finmap fun _ : String => Json

/-- Decode `null` or an object into a map variable, nil or made. -/
def unmarshalMap (dst : Option JsonMap) : Option JsonMap → Option JsonMap
  | none => none
  | some src => some (src ∪ dst.getD ∅)

/-- The value under `k` in a nil or made map. -/
def mapIndex (m : Option JsonMap) (k : String) : Option Json := m.bind (·.lookup k)

/-- Decoding into a map gives the decoded map exactly when every key that was
    there is a key of the object. -/
theorem unmarshalMap_eq_iff (dst src : Option JsonMap) :
    unmarshalMap dst src = src ↔
      ∀ m, src = some m → ∀ k, k ∈ dst.getD ∅ → k ∈ m := by
  cases src with
  | none => simp [unmarshalMap]
  | some m =>
      simp only [unmarshalMap, Option.some.injEq, forall_eq']
      constructor
      · intro h k hk
        rw [← h]
        exact Finmap.mem_union.mpr (Or.inr hk)
      · intro h
        apply Finmap.ext_lookup
        intro k
        by_cases hk : k ∈ m
        · exact Finmap.lookup_union_left hk
        · rw [Finmap.lookup_union_right hk, Finmap.lookup_eq_none.mpr hk,
            Finmap.lookup_eq_none.mpr fun hd => hk (h k hd)]

/-- The keys after decoding: those of the object, and those carried over. -/
theorem mem_unmarshalMap (dst : Option JsonMap) (m : JsonMap) (k : String) :
    k ∈ (unmarshalMap dst (some m)).getD ∅ ↔ k ∈ m ∨ k ∈ dst.getD ∅ :=
  Finmap.mem_union

end Hfrd.Go
