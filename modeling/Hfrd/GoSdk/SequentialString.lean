/-
  Hfrd.GoSdk.SequentialString

  Sequential strings are unique: `SequentialString.GetValue`
  (modules/gosdk/utilities/paramGenerator.go) puts the index of the iteration
  in the place of every star, or at the end.

  The numerals of two indices may differ in length.  Then so do the strings,
  by a multiple of the number of stars; numerals of one length are found again
  at the first star.
-/

import Hfrd.GoSdk.IterateFuncInv
import Hfrd.GoSdk.ParamGenerator

namespace Hfrd.GoSdk

open Hfrd.Go Hfrd.Lib

/-! ## Putting a list in the place of an element -/

section Substitute

variable {α : Type} [DecidableEq α]

/-- `s` in the place of every `a`. -/
def substitute (a : α) (s l : List α) : List α := l.flatMap fun c => if c = a then s else [c]

theorem substitute_cons_self (a : α) (s l : List α) :
    substitute a s (a :: l) = s ++ substitute a s l := by
  rw [substitute, List.flatMap_cons, if_pos rfl]
  rfl

theorem substitute_cons_ne {a c : α} (h : c ≠ a) (s l : List α) :
    substitute a s (c :: l) = c :: substitute a s l := by
  rw [substitute, List.flatMap_cons, if_neg h]
  rfl

/-- Each `a` gives way to the length of `s`. -/
theorem length_substitute (a : α) (s l : List α) :
    (substitute a s l).length + l.count a = l.length + l.count a * s.length := by
  induction l with
  | nil => simp [substitute]
  | cons c l ih =>
      by_cases hc : c = a
      · subst hc
        rw [substitute_cons_self, List.length_append, List.count_cons_self, List.length_cons,
          Nat.add_mul, Nat.one_mul]
        omega
      · rw [substitute_cons_ne hc, List.count_cons_of_ne hc, List.length_cons, List.length_cons]
        omega

/-- Lists of one length are found again at the first place. -/
theorem substitute_inj_of_length {a : α} {s t l : List α} (ha : a ∈ l)
    (hlen : s.length = t.length) (h : substitute a s l = substitute a t l) : s = t := by
  induction l with
  | nil => exact absurd ha List.not_mem_nil
  | cons c l ih =>
      by_cases hc : c = a
      · subst hc
        rw [substitute_cons_self, substitute_cons_self] at h
        exact (List.append_inj h hlen).1
      · rw [substitute_cons_ne hc, substitute_cons_ne hc] at h
        have hl : a ∈ l := by
          rcases List.mem_cons.mp ha with rfl | hl
          · exact absurd rfl hc
          · exact hl
        exact ih hl (List.cons.inj h).2

theorem substitute_injective {a : α} {l : List α} (ha : a ∈ l) {s t : List α}
    (h : substitute a s l = substitute a t l) : s = t := by
  refine substitute_inj_of_length ha ?_ h
  have hs := length_substitute a s l
  have ht := length_substitute a t l
  rw [h] at hs
  have hmul : l.count a * s.length = l.count a * t.length := by omega
  exact Nat.eq_of_mul_eq_mul_left (List.count_pos_iff.mpr ha) hmul

end Substitute

/-- Different indices give different strings. -/
theorem sequentialValue_injective (value : String) {i j : Int64}
    (h : sequentialValue value i = sequentialValue value j) : i = j := by
  apply itoa_injective
  unfold sequentialValue at h
  split at h
  · next hstar =>
      have hlist : substitute '*' (itoa i).toList value.toList =
          substitute '*' (itoa j).toList value.toList := String.ofList_injective h
      exact String.toList_injective (substitute_injective hstar hlist)
  · exact (String.append_right_inj value).mp h

/-! ## The arguments of an iteration -/

variable {ρ : Type} {maxAlloc : Int64}

/-- The loop generates one argument for each item. -/
theorem complexArgsLoop_get {src : Source maxAlloc ρ} {loopIndex : Int64}
    {params args : List String} {r r' : ρ}
    (h : complexArgsLoop src loopIndex params r = .ok (args, r')) {p : Nat} {param : String}
    (hp : params[p]? = some param) {q : Param} (hq : parseParam param = .ok q) :
    ∃ arg, args[p]? = some arg ∧ Generates src loopIndex q arg := by
  induction params generalizing args r p with
  | nil => simp at hp
  | cons param' params ih =>
      simp only [complexArgsLoop] at h
      split at h
      · cases h
      · next q' hparse =>
          split at h
          · cases h
          · next arg r₁ hvalue =>
              split at h
              · cases h
              · next args' r₂ hrest =>
                  cases h
                  cases p with
                  | zero =>
                      cases hp
                      rw [hparse] at hq
                      cases hq
                      exact ⟨arg, rfl, r, r₁, hvalue⟩
                  | succ p => exact ih hrest (by simpa using hp)

/-- An item that decodes is not the empty one that is dropped. -/
theorem dropTrailing_get {params : List String} {p : Nat} {param : String} {q : Param}
    (hp : params[p]? = some param) (hq : parseParam param = .ok q) :
    (dropTrailing params)[p]? = some param := by
  unfold dropTrailing
  split
  · next hlast =>
      obtain ⟨hlt, hget⟩ := List.getElem?_eq_some_iff.mp hp
      have hne : p ≠ params.length - 1 := by
        intro heq
        rw [List.getLast?_eq_getElem?, ← heq, hp] at hlast
        cases hlast
        cases hq
      rw [List.getElem?_dropLast, if_pos (by omega), hp]
  · exact hp

/-- A sequential string among the items is generated from the index alone. -/
theorem getComplexArgs_sequential {src : Source maxAlloc ρ} {loopIndex : Int64}
    {params args : List String} {r r' : ρ}
    (h : getComplexArgs src params loopIndex r = .ok (args, r')) {p : Nat} {param value : String}
    (hp : params[p]? = some param) (hq : parseParam param = .ok (.sequentialString value)) :
    args[p]? = some (sequentialValue value loopIndex) := by
  unfold getComplexArgs at h
  split at h
  · next hlen =>
      rw [List.eq_nil_of_length_eq_zero hlen] at hp
      simp at hp
  · obtain ⟨arg, harg, r₁, r₂, hvalue⟩ := complexArgsLoop_get h (dropTrailing_get hp hq) hq
    cases hvalue
    exact harg

/-- In two iterations with these indices, `GetComplexArgs` generates different
    values for each sequential string among its items, whatever the random
    outcomes are. -/
def GeneratedApart (i j : Int64) : Prop :=
  ∀ (params : List String) (p : Nat) (param value : String), params[p]? = some param →
    parseParam param = .ok (.sequentialString value) →
    ∀ (maxAlloc : Int64) (ρ : Type) (src : Source maxAlloc ρ) (r₁ r₁' r₂ r₂' : ρ)
      (args args' : List String),
      getComplexArgs src params i r₁ = .ok (args, r₁') →
      getComplexArgs src params j r₂ = .ok (args', r₂') → args[p]? ≠ args'[p]?

theorem generatedApart_of_ne {i j : Int64} (hne : i ≠ j) : GeneratedApart i j := by
  intro params p param value hp hq maxAlloc ρ src r₁ r₁' r₂ r₂' args args' hi hj heq
  rw [getComplexArgs_sequential hi hp hq, getComplexArgs_sequential hj hp hq] at heq
  exact hne (sequentialValue_injective value (Option.some.inj heq))

/-! ## A run -/

variable {Shared Local Choice : Type}

/-- No index is called twice. -/
theorem nodup_calls {cfg : Config Shared Local Choice} {c0 : Int64} {s : State Shared Local}
    (hidx : Indices cfg c0 s) (hcnt : Counts s) (hk : s.goroutines.length ≤ 2 ^ 64) :
    s.calls.Nodup := by
  have hnodup := nodup_indices c0 hk
  rw [← hidx.index] at hnodup
  rw [List.nodup_iff_count_le_one]
  intro i
  have hone := List.nodup_iff_count_le_one.mp hnodup i
  rw [count_index_eq_countP] at hone
  refine le_trans ?_ hone
  rw [hcnt.calls i]
  exact List.countP_mono_left fun g _ hg => (Bool.and_eq_true_iff.mp hg).2

/-- **Sequential strings are unique across a run.**  Different indices give
    different strings.  In every state that `IterateFunc` reaches, from any
    index and under any interleaving, two iterations have different values for
    each sequential string: always if the count is an integer, and for a
    duration as long as the 64 bits of the index have not been used up. -/
theorem sequential_strings_unique (cfg : Config Shared Local Choice) (shared : Shared)
    (c0 : Int64) (ls : List (Label Choice)) (s : State Shared Local)
    (hrun : (iterateFunc cfg).exec (State.initial shared c0) ls = some s) :
    (∀ value i j, i ≠ j → sequentialValue value i ≠ sequentialValue value j) ∧
      ((atoi cfg.iterationCount).isSome = true ∨ s.goroutines.length ≤ 2 ^ 64 →
        s.calls.Pairwise GeneratedApart) := by
  have run := Lts.Run.of_exec hrun
  have hidx := run.preserves indices_step (indices_initial cfg shared c0)
  have hcnt := run.preserves (fun s l t => counts_step s l t) (counts_initial shared c0)
  refine ⟨fun value i j hne heq => hne (sequentialValue_injective value heq), fun hbound => ?_⟩
  have hk : s.goroutines.length ≤ 2 ^ 64 := by
    rcases hbound with hcount | hk
    · obtain ⟨n, hn⟩ := Option.isSome_iff_exists.mp hcount
      have hle := hidx.bound n hn
      have := n.toInt_lt
      have := c0.le_toInt
      omega
    · exact hk
  exact (nodup_calls hidx hcnt hk).imp generatedApart_of_ne

/-- The run of two iterations from index 5. -/
theorem sequential_strings_unique_two :
    ∃ s, (iterateFunc twoIterations).exec (State.initial () 5) twoIterationsRun = some s ∧
      s.calls = [6, 5] ∧ s.calls.Pairwise GeneratedApart := by
  refine ⟨((iterateFunc twoIterations).exec (State.initial () 5) twoIterationsRun).get (by decide),
    (Option.some_get _).symm, by decide, ?_⟩
  exact (sequential_strings_unique twoIterations () 5 twoIterationsRun _
    (Option.some_get (by decide)).symm).2 (Or.inl (by decide))

end Hfrd.GoSdk
