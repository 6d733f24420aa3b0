/-
  Hfrd.Go.JsonValue

  The values of Go's `interface{}` that `encoding/json` reads and writes.

  A `map[string]interface{}` is the list of its entries in the order of the
  keys, which is the order `encoding/json` writes them in; an assignment keeps
  the order.  A value of a Go type that `json.Unmarshal` does not make, such
  as a `[]string`, is known by the JSON value it is written as, and no type
  assertion on it succeeds.
-/

import Mathlib.Data.String.Basic
import Mathlib.Data.List.Sort

namespace Hfrd.Go

/-! ## Values -/

/-- The characters of a number. -/
def isNumeralChar (c : Char) : Bool :=
  c.isDigit || c == '-' || c == '+' || c == '.' || c == 'e'

/-- A finite `float64`, as the text that `encoding/json` writes for it. -/
structure Number where
  text : List Char
  numeral : text ≠ [] ∧ text.all isNumeralChar = true
  deriving DecidableEq

namespace Number

/-- The texts of zero. -/
def isZero (n : Number) : Bool :=
  n.text == ['0'] || n.text == ['-', '0']

/-- `m == n` of Go: the two zeros are equal. -/
def eq (m n : Number) : Bool :=
  m == n || m.isZero && n.isZero

end Number

/-- A value without parts. -/
inductive Scalar where
  | null
  | bool (b : Bool)
  | number (n : Number)
  | string (s : String)
  deriving DecidableEq

/-- What a JSON text stands for. -/
inductive Value where
  | scalar (s : Scalar)
  | array (elements : List Value)
  | object (fields : List (String × Value))
  | other (json : Value)

/-- The entries of a `map[string]interface{}`. -/
abbrev Fields := List (String × Value)

namespace Value

/-- The value null. -/
abbrev null : Value := .scalar .null
/-- A number as a value. -/
abbrev number (n : Number) : Value := .scalar (.number n)
/-- A string as a value. -/
abbrev string (s : String) : Value := .scalar (.string s)

/-! ## Type assertions -/

/-- The members of an object. -/
def object? : Value → Option Fields
  | .object fields => some fields
  | _ => none

/-- The elements of an array. -/
def array? : Value → Option (List Value)
  | .array elements => some elements
  | _ => none

/-- The number that a value is. -/
def number? : Value → Option Number
  | .scalar (.number n) => some n
  | _ => none

/-- The string that a value is. -/
def string? : Value → Option String
  | .scalar (.string s) => some s
  | _ => none

theorem induction {motive : Value → Prop} (scalar : ∀ s, motive (.scalar s))
    (array : ∀ elements, (∀ v ∈ elements, motive v) → motive (.array elements))
    (object : ∀ fields : Fields, (∀ f ∈ fields, motive f.2) → motive (.object fields))
    (other : ∀ json, motive json → motive (.other json)) (v : Value) : motive v :=
  match v with
  | .scalar s => scalar s
  | .array elements => array elements fun v hv =>
      have := List.sizeOf_lt_of_mem hv
      induction scalar array object other v
  | .object fields => object fields fun f hf =>
      have : sizeOf f.2 < sizeOf fields := by
        obtain ⟨key, value⟩ := f
        have hlt := List.sizeOf_lt_of_mem hf
        simp only [Prod.mk.sizeOf_spec] at hlt ⊢
        omega
      induction scalar array object other f.2
  | .other json => other json (induction scalar array object other json)
termination_by sizeOf v

/-! ## The value that is written -/

mutual

/-- The JSON value a value is written as. -/
def decoded : Value → Value
  | .scalar s => .scalar s
  | .array elements => .array (decodedElements elements)
  | .object fields => .object (decodedFields fields)
  | .other json => json.decoded

/-- The elements of an array with the texts in them decoded. -/
def decodedElements : List Value → List Value
  | [] => []
  | v :: elements => v.decoded :: decodedElements elements

/-- The members with the texts in them decoded. -/
def decodedFields : Fields → Fields
  | [] => []
  | (key, v) :: fields => (key, v.decoded) :: decodedFields fields

end

theorem decodedElements_eq (elements : List Value) :
    decodedElements elements = elements.map decoded := by
  induction elements with
  | nil => rfl
  | cons v elements ih => rw [decodedElements, ih, List.map_cons]

theorem decodedFields_eq (fields : Fields) :
    decodedFields fields = fields.map fun f => (f.1, f.2.decoded) := by
  induction fields with
  | nil => rfl
  | cons f fields ih => rw [decodedFields, ih, List.map_cons]

end Value

/-! ## Maps -/

/-- The assignment `m[key] = value`. -/
def setField : Fields → String → Value → Fields
  | [], key, value => [(key, value)]
  | (key', value') :: fields, key, value =>
      if key = key' then (key, value) :: fields
      else if key < key' then (key, value) :: (key', value') :: fields
      else (key', value') :: setField fields key value

theorem lookup_cons_eq (key key' : String) (value : Value) (fields : Fields) :
    ((key, value) :: fields : Fields).lookup key'
      = if key' = key then some value else fields.lookup key' := by
  by_cases h : key' = key
  · simp [h]
  · rw [if_neg h, List.lookup_cons, beq_false_of_ne h]

theorem lookup_decodedFields (fields : Fields) (key : String) :
    (Value.decodedFields fields).lookup key = (fields.lookup key).map Value.decoded := by
  induction fields with
  | nil => rfl
  | cons f fields ih =>
      obtain ⟨k, v⟩ := f
      rw [Value.decodedFields, lookup_cons_eq, lookup_cons_eq, ih]
      split <;> rfl

theorem lookup_setField (fields : Fields) (key key' : String) (value : Value) :
    (setField fields key value).lookup key'
      = if key' = key then some value else fields.lookup key' := by
  induction fields with
  | nil => exact lookup_cons_eq key key' value []
  | cons f fields ih =>
      obtain ⟨k, v⟩ := f
      rw [setField]
      split
      · next heq =>
          subst heq
          simp only [lookup_cons_eq]
          by_cases h : key' = key <;> simp [h]
      · next hne =>
          split
          · exact lookup_cons_eq key key' value _
          · simp only [lookup_cons_eq, ih]
            by_cases h : key' = k
            · subst h
              simp [Ne.symm hne]
            · simp [h]

/-- The keys of a map, in order. -/
def SortedKeys (fields : Fields) : Prop :=
  (fields.map Prod.fst).Pairwise (· < ·)

/-- The entries of every map in a value are in the order of their keys. -/
inductive Value.WellFormed : Value → Prop
  | scalar (s : Scalar) : WellFormed (.scalar s)
  | array {elements : List Value} (h : ∀ v ∈ elements, WellFormed v) :
      WellFormed (.array elements)
  | object {fields : Fields} (hkeys : SortedKeys fields) (h : ∀ f ∈ fields, WellFormed f.2) :
      WellFormed (.object fields)
  | other {json : Value} (h : WellFormed json) : WellFormed (.other json)

/-- A `map[string]interface{}`. -/
structure ObjectValue where
  fields : Fields
  wellFormed : (Value.object fields).WellFormed

theorem mem_setField {fields : Fields} {key : String} {value : Value} {f : String × Value}
    (h : f ∈ setField fields key value) : f = (key, value) ∨ f ∈ fields := by
  induction fields with
  | nil => exact .inl (List.mem_singleton.mp h)
  | cons g fields ih =>
      obtain ⟨k, v⟩ := g
      rw [setField] at h
      split at h
      · rcases List.mem_cons.mp h with rfl | h
        · exact .inl rfl
        · exact .inr (List.mem_cons_of_mem _ h)
      · split at h
        · exact List.mem_cons.mp h
        · rcases List.mem_cons.mp h with rfl | h
          · exact .inr List.mem_cons_self
          · exact (ih h).imp_right (List.mem_cons_of_mem _)

/-- An assignment keeps the keys in order. -/
theorem sortedKeys_setField {fields : Fields} (h : SortedKeys fields) (key : String)
    (value : Value) : SortedKeys (setField fields key value) := by
  unfold SortedKeys at h ⊢
  induction fields with
  | nil => exact List.pairwise_singleton _ key
  | cons f fields ih =>
      obtain ⟨k, v⟩ := f
      obtain ⟨hhead, htail⟩ := List.pairwise_cons.mp h
      rw [setField]
      split
      · next heq =>
          subst heq
          exact h
      · next hne =>
          split
          · next hlt =>
              refine List.pairwise_cons.mpr ⟨fun k' hk' => ?_, h⟩
              rcases List.mem_cons.mp hk' with rfl | hk'
              · exact hlt
              · exact lt_trans hlt (hhead k' hk')
          · next hnlt =>
              refine List.pairwise_cons.mpr ⟨fun k' hk' => ?_, ih htail⟩
              obtain ⟨g, hg, rfl⟩ := List.mem_map.mp hk'
              rcases mem_setField hg with rfl | hg
              · exact lt_of_le_of_ne (not_lt.mp hnlt) (Ne.symm hne)
              · exact hhead g.1 (List.mem_map_of_mem hg)

theorem Value.WellFormed.field {fields : Fields} {key : String} {value : Value}
    (h : (Value.object fields).WellFormed) (hlookup : fields.lookup key = some value) :
    value.WellFormed := by
  cases h with
  | object _ h =>
      obtain ⟨l₁, l₂, rfl, -⟩ := List.lookup_eq_some_iff.mp hlookup
      exact h (key, value) (by simp)

theorem Value.WellFormed.setField {fields : Fields} {value : Value}
    (h : (Value.object fields).WellFormed) (key : String) (hvalue : value.WellFormed) :
    (Value.object (setField fields key value)).WellFormed := by
  cases h with
  | object hkeys h =>
      refine .object (sortedKeys_setField hkeys key value) fun f hf => ?_
      rcases mem_setField hf with rfl | hf
      · exact hvalue
      · exact h f hf

theorem Value.WellFormed.single (key : String) {v : Value} (h : v.WellFormed) :
    (Value.object [(key, v)]).WellFormed := by
  refine .object (List.pairwise_singleton _ _) fun f hf => ?_
  rw [List.mem_singleton.mp hf]
  exact h

theorem Value.WellFormed.pair (key key' : String) {v v' : Value}
    (hkeys : key.toList < key'.toList) (h : v.WellFormed) (h' : v'.WellFormed) :
    (Value.object [(key, v), (key', v')]).WellFormed := by
  have hlt : key < key' := String.lt_iff_toList_lt.mpr hkeys
  refine .object (by simpa [SortedKeys] using hlt) fun f hf => ?_
  simp only [List.mem_cons, List.not_mem_nil, or_false] at hf
  rcases hf with rfl | rfl
  · exact h
  · exact h'

end Hfrd.Go
