/-
  Hfrd.Go.Map

  Go maps with string keys.  A map is the list of the assignments made
  to it, the last one first, so that every list is a map: a lookup takes
  the last assignment of its key, and `range` visits each key once.  The
  order in which `range` visits the keys is not specified in Go; the rules
  here read the result of a loop through lookups only.
-/

import Mathlib.Data.List.Dedup

namespace Hfrd.Go

variable {α β σ : Type}

/-- A `map[string]T`. -/
structure Map (α : Type) where
  entries : List (String × α) := []

namespace Map

/-! ## Lookup and assignment -/

/-- The value under a key. -/
def get? (m : Map α) (key : String) : Option α :=
  m.entries.lookup key

/-- The map with a value put under a key. -/
def insert (m : Map α) (key : String) (value : α) : Map α :=
  ⟨(key, value) :: m.entries⟩

@[simp] theorem get?_empty (key : String) : ({} : Map α).get? key = none := rfl

theorem get?_insert (m : Map α) (key key' : String) (value : α) :
    (m.insert key value).get? key' = if key' = key then some value else m.get? key' := by
  by_cases h : key' = key
  · simp [get?, insert, h]
  · simp [get?, insert, h, List.lookup_cons, beq_false_of_ne h]

theorem mem_of_get? {m : Map α} {key : String} {value : α} (h : m.get? key = some value) :
    (key, value) ∈ m.entries := by
  obtain ⟨l, r, heq, -⟩ := List.lookup_eq_some_iff.mp h
  rw [heq]
  exact List.mem_append_right l List.mem_cons_self

/-! ## Range loops -/

/-- What `range` visits. -/
def range (m : Map α) : List (String × α) :=
  (m.entries.map Prod.fst).dedup.filterMap fun key => (m.get? key).map (Prod.mk key)

/-- `len` -/
def len (m : Map α) : Nat :=
  m.range.length

theorem mem_range {m : Map α} {key : String} {value : α} :
    (key, value) ∈ m.range ↔ m.get? key = some value := by
  simp only [range, List.mem_filterMap, List.mem_dedup, List.mem_map, Option.map_eq_some_iff,
    Prod.mk.injEq]
  constructor
  · rintro ⟨_, -, _, hget, rfl, rfl⟩
    exact hget
  · intro h
    exact ⟨key, ⟨(key, value), mem_of_get? h, rfl⟩, value, h, rfl, rfl⟩

theorem nodup_range (m : Map α) : (m.range.map Prod.fst).Nodup := by
  have hkeys : m.range.map Prod.fst
      = (m.entries.map Prod.fst).dedup.filter fun key => (m.get? key).isSome := by
    simp only [range, List.map_filterMap, ← List.filterMap_eq_filter]
    refine List.filterMap_congr fun key _ => ?_
    cases h : m.get? key <;> simp [Option.guard, h]
  rw [hkeys]
  exact (List.nodup_dedup _).filter _

theorem len_eq_zero_iff {m : Map α} : m.len = 0 ↔ ∀ key, m.get? key = none := by
  rw [len, List.length_eq_zero_iff, List.eq_nil_iff_forall_not_mem]
  constructor
  · intro h key
    rw [Option.eq_none_iff_forall_ne_some]
    exact fun value hget => h (key, value) (mem_range.mpr hget)
  · rintro h ⟨key, value⟩ hmem
    rw [mem_range, h key] at hmem
    cases hmem

/-- A loop over distinct keys whose body changes what is seen at its own key
    only. -/
theorem foldl_own_key (view : σ → String → β) (step : σ → String × α → σ)
    (f : String → α → β → β)
    (hstep : ∀ s key value key', view (step s (key, value)) key' =
      if key' = key then f key value (view s key') else view s key')
    {l : List (String × α)} (hl : (l.map Prod.fst).Nodup) (s : σ) (key : String) :
    view (l.foldl step s) key = match l.lookup key with
      | some value => f key value (view s key)
      | none => view s key := by
  induction l generalizing s with
  | nil => rfl
  | cons entry l ih =>
      obtain ⟨key', value⟩ := entry
      obtain ⟨hnot, hl⟩ := List.nodup_cons.mp hl
      rw [List.foldl_cons, ih hl, hstep]
      by_cases h : key = key'
      · subst h
        have hnone : l.lookup key = none := by
          rw [List.lookup_eq_none_iff]
          intro p hp
          have hne : key ≠ p.1 := fun heq => hnot (List.mem_map.mpr ⟨p, hp, heq.symm⟩)
          exact bne_iff_ne.mpr hne
        simp [hnone]
      · simp [h, List.lookup_cons, beq_false_of_ne h]

theorem lookup_of_mem {l : List (String × α)} (hl : (l.map Prod.fst).Nodup) {key : String}
    {value : α} (h : (key, value) ∈ l) : l.lookup key = some value := by
  induction l with
  | nil => cases h
  | cons entry l ih =>
      obtain ⟨hnot, hl⟩ := List.nodup_cons.mp hl
      rcases List.mem_cons.mp h with rfl | h
      · simp
      · have hne : key ≠ entry.1 := fun heq => hnot (List.mem_map.mpr ⟨_, h, heq⟩)
        rw [List.lookup_cons, beq_false_of_ne hne]
        exact ih hl h

theorem lookup_range (m : Map α) (key : String) : m.range.lookup key = m.get? key := by
  cases hget : m.get? key with
  | none =>
      rw [List.lookup_eq_none_iff]
      rintro ⟨key', value⟩ hmem
      rw [bne_iff_ne]
      rintro rfl
      rw [mem_range, hget] at hmem
      cases hmem
  | some value => exact lookup_of_mem (nodup_range m) (mem_range.mpr hget)

/-- What is seen at a key after a loop over a map whose body changes what is
    seen at its own key only. -/
theorem foldl_range (view : σ → String → β) (step : σ → String × α → σ)
    (f : String → α → β → β)
    (hstep : ∀ s key value key', view (step s (key, value)) key' =
      if key' = key then f key value (view s key') else view s key')
    (m : Map α) (s : σ) (key : String) :
    view (m.range.foldl step s) key = match m.get? key with
      | some value => f key value (view s key)
      | none => view s key := by
  rw [foldl_own_key view step f hstep (nodup_range m), lookup_range]

/-- A flag that the iterations of a loop over a map may set. -/
theorem foldl_range_flag (flag : σ → Bool) (step : σ → String × α → σ)
    (sets : String → α → Bool)
    (hstep : ∀ s key value, flag (step s (key, value)) = (flag s || sets key value))
    (m : Map α) (s : σ) :
    flag (m.range.foldl step s) = true ↔
      flag s = true ∨ ∃ key value, m.get? key = some value ∧ sets key value = true := by
  have hfold : ∀ (l : List (String × α)) (s : σ), flag (l.foldl step s) = true ↔
      flag s = true ∨ ∃ key value, (key, value) ∈ l ∧ sets key value = true := by
    intro l
    induction l with
    | nil => simp
    | cons entry l ih =>
        intro s
        rw [List.foldl_cons, ih, hstep, Bool.or_eq_true, or_assoc]
        refine or_congr_right ⟨?_, ?_⟩
        · rintro (h | ⟨key, value, hmem, h⟩)
          · exact ⟨entry.1, entry.2, List.mem_cons_self, h⟩
          · exact ⟨key, value, List.mem_cons_of_mem _ hmem, h⟩
        · rintro ⟨key, value, hmem, h⟩
          rcases List.mem_cons.mp hmem with rfl | hmem
          · exact Or.inl h
          · exact Or.inr ⟨key, value, hmem, h⟩
  simp only [hfold, mem_range]

/-! ## Copying one map into another -/

/-- `for k, v := range source { m[k] = v }`. -/
def insertAll (m source : Map α) : Map α :=
  source.range.foldl (fun acc entry => acc.insert entry.1 entry.2) m

theorem get?_insertAll (m source : Map α) (key : String) :
    (m.insertAll source).get? key = (source.get? key).or (m.get? key) := by
  have h := foldl_range (fun (m : Map α) key => m.get? key)
    (fun acc entry => acc.insert entry.1 entry.2) (fun _ value _ => some value)
    (fun m key value key' => get?_insert m key key' value) source m key
  rw [insertAll, h]
  cases source.get? key <;> rfl

/-! ## Pointwise maps and overlays -/

/-- The map with each value replaced. -/
def map (f : String → α → β) (m : Map α) : Map β :=
  ⟨m.entries.map fun entry => (entry.1, f entry.1 entry.2)⟩

theorem get?_map (f : String → α → β) (m : Map α) (key : String) :
    (m.map f).get? key = (m.get? key).map (f key) := by
  obtain ⟨entries⟩ := m
  simp only [get?, map]
  induction entries with
  | nil => rfl
  | cons entry entries ih =>
      obtain ⟨key', value⟩ := entry
      by_cases h : key = key'
      · simp [h]
      · simp only [List.map_cons, List.lookup_cons, beq_false_of_ne h, ih]

/-- The entries of `top`, and those of `base` at the other keys. -/
def overlay (base top : Map α) : Map α :=
  ⟨top.entries ++ base.entries⟩

theorem get?_overlay (base top : Map α) (key : String) :
    (base.overlay top).get? key = (top.get? key).or (base.get? key) :=
  List.lookup_append

end Map

end Hfrd.Go
