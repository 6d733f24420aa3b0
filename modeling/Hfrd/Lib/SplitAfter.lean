/-
  Hfrd.Lib.SplitAfter

  Cutting a list after each element that closes a group; the elements after
  the last such element form a group too.

  `splitAfter p pending l` carries the group that is still open.  A coarse cut
  refines to a fine one (`splitAfter_flatMap`), so two loops that cut one list
  at different elements are compared group by group.
-/

import Mathlib.Data.List.Basic

namespace Hfrd.Lib

variable {α β : Type}

/-- The groups of `l`, the first of which starts with `pending`. -/
def splitAfter (p : α → Bool) : List α → List α → List (List α)
  | [], [] => []
  | a :: pending, [] => [a :: pending]
  | pending, a :: l =>
      if p a then (pending ++ [a]) :: splitAfter p [] l else splitAfter p (pending ++ [a]) l

@[simp] theorem splitAfter_nil (p : α → Bool) : splitAfter p [] [] = [] := by
  unfold splitAfter
  rfl

theorem splitAfter_pending (p : α → Bool) {pending : List α} (hne : pending ≠ []) :
    splitAfter p pending [] = [pending] := by
  cases pending with
  | nil => exact absurd rfl hne
  | cons a pending => unfold splitAfter; rfl

theorem splitAfter_cons (p : α → Bool) (pending : List α) (a : α) (l : List α) :
    splitAfter p pending (a :: l) =
      if p a then (pending ++ [a]) :: splitAfter p [] l else splitAfter p (pending ++ [a]) l := by
  cases pending with
  | nil => rw [splitAfter]
  | cons b pending => rw [splitAfter]

theorem splitAfter_of_close {p : α → Bool} {a : α} (ha : p a = true) (pending l : List α) :
    splitAfter p pending (a :: l) = (pending ++ [a]) :: splitAfter p [] l := by
  rw [splitAfter_cons, if_pos ha]

theorem splitAfter_of_open {p : α → Bool} {a : α} (ha : ¬ p a = true) (pending l : List α) :
    splitAfter p pending (a :: l) = splitAfter p (pending ++ [a]) l := by
  rw [splitAfter_cons, if_neg ha]

/-- The groups are the list, cut. -/
theorem flatten_splitAfter (p : α → Bool) (pending l : List α) :
    (splitAfter p pending l).flatten = pending ++ l := by
  induction l generalizing pending with
  | nil =>
      cases pending with
      | nil => rfl
      | cons a pending => rw [splitAfter_pending p (List.cons_ne_nil a pending)]; simp
  | cons a l ih =>
      rw [splitAfter_cons]
      split
      · rw [List.flatten_cons, ih, List.nil_append, List.append_assoc, List.singleton_append]
      · rw [ih, List.append_assoc, List.singleton_append]

/-- Cut after an element that closes a group. -/
theorem splitAfter_append_close {p : α → Bool} {a : α} (ha : p a = true)
    (pending u l : List α) :
    splitAfter p pending (u ++ a :: l) =
      splitAfter p pending (u ++ [a]) ++ splitAfter p [] l := by
  induction u generalizing pending with
  | nil => simp [splitAfter_of_close ha]
  | cons b u ih =>
      rw [List.cons_append, List.cons_append, splitAfter_cons, splitAfter_cons]
      split
      · rw [ih, List.cons_append]
      · rw [ih]

/-- Where every element that closes a group of `p` closes one of `q` as well,
    the groups of `q` are the groups of `p`, cut again. -/
theorem splitAfter_flatMap {p q : α → Bool} (hpq : ∀ a, p a = true → q a = true)
    (pending l : List α) :
    (splitAfter p pending l).flatMap (splitAfter q []) = splitAfter q [] (pending ++ l) := by
  induction l generalizing pending with
  | nil =>
      cases pending with
      | nil => rfl
      | cons a pending => rw [splitAfter_pending p (List.cons_ne_nil a pending)]; simp
  | cons a l ih =>
      by_cases ha : p a = true
      · rw [splitAfter_of_close ha, List.flatMap_cons, ih, List.nil_append,
          splitAfter_append_close (hpq a ha) [] pending l]
      · rw [splitAfter_of_open ha, ih, List.append_assoc, List.singleton_append]

/-! ## Two ways of reading the groups -/

/-- Where `f` never gives more than `g`, both give the same list only if they
    give equally much for every group. -/
theorem length_eq_of_flatMap_eq {f g : α → List β} {l : List α}
    (hle : ∀ a ∈ l, (f a).length ≤ (g a).length) (heq : l.flatMap f = l.flatMap g) :
    ∀ a ∈ l, (f a).length = (g a).length := by
  -- the sums compare as the groups do
  have hlen : ∀ l : List α, (∀ a ∈ l, (f a).length ≤ (g a).length) →
      (l.flatMap f).length ≤ (l.flatMap g).length := by
    intro l
    induction l with
    | nil => simp
    | cons a l ih =>
        intro h
        rw [List.flatMap_cons, List.flatMap_cons, List.length_append, List.length_append]
        have := h a List.mem_cons_self
        have := ih fun b hb => h b (List.mem_cons_of_mem a hb)
        omega
  induction l with
  | nil => simp
  | cons a l ih =>
      rw [List.flatMap_cons, List.flatMap_cons] at heq
      have htotal := congrArg List.length heq
      rw [List.length_append, List.length_append] at htotal
      have hhead := hle a List.mem_cons_self
      have htail := hlen l fun b hb => hle b (List.mem_cons_of_mem a hb)
      -- less in one group would have to be more in another
      have hsame : (f a).length = (g a).length := by omega
      intro b hb
      rcases List.mem_cons.mp hb with rfl | hb
      · exact hsame
      · exact ih (fun c hc => hle c (List.mem_cons_of_mem a hc))
          (List.append_inj heq hsame).2 b hb

/-- A group that starts with `y`, ends in `x` and has no other `y` behind an
    `x`. -/
structure Marked (x y : β) (s : List β) : Prop where
  first : s.head? = some y
  last : s.getLast? = some x
  whole : ¬ [x, y] <:+: s

/-- Where a group goes on, what comes next is no other group. -/
theorem eq_nil_of_marked_append {x y : β} {s u rest : List β} (hs : Marked x y s)
    (hmarked : Marked x y (s ++ u))
    (hrest : (u ++ rest).head? = none ∨ (u ++ rest).head? = some y) : u = [] := by
  cases u with
  | nil => rfl
  | cons c u =>
      rcases hrest with hnone | hsome
      · exact absurd hnone (by simp)
      · obtain ⟨t, ht⟩ := List.getLast?_eq_some_iff.mp hs.last
        obtain rfl : c = y := Option.some.inj hsome
        exact absurd ⟨t, u, by rw [ht]; simp⟩ hmarked.whole

theorem head?_flatMap_marked {f : α → List β} {x y : β} {l : List α}
    (hf : ∀ a ∈ l, Marked x y (f a)) :
    (l.flatMap f).head? = none ∨ (l.flatMap f).head? = some y := by
  cases l with
  | nil => exact Or.inl rfl
  | cons a l =>
      have hfirst := (hf a List.mem_cons_self).first
      obtain ⟨s, hs⟩ := List.head?_eq_some_iff.mp hfirst
      exact Or.inr (by rw [List.flatMap_cons, hs]; rfl)

/-- Marked groups are read off the list. -/
theorem eq_of_flatMap_eq {f g : α → List β} {x y : β} {l : List α}
    (hf : ∀ a ∈ l, Marked x y (f a)) (hg : ∀ a ∈ l, Marked x y (g a))
    (heq : l.flatMap f = l.flatMap g) : ∀ a ∈ l, f a = g a := by
  induction l with
  | nil => simp
  | cons a l ih =>
      obtain ⟨hfa, hfrest⟩ := List.forall_mem_cons.mp hf
      obtain ⟨hga, hgrest⟩ := List.forall_mem_cons.mp hg
      rw [List.flatMap_cons, List.flatMap_cons] at heq
      have hhead : f a = g a := by
        rcases List.append_eq_append_iff.mp heq with ⟨u, hu, hrest⟩ | ⟨u, hu, hrest⟩
        · have hstart := head?_flatMap_marked hfrest
          rw [hrest] at hstart
          rw [hu, eq_nil_of_marked_append hfa (hu ▸ hga) hstart, List.append_nil]
        · have hstart := head?_flatMap_marked hgrest
          rw [hrest] at hstart
          rw [hu, eq_nil_of_marked_append hga (hu ▸ hfa) hstart, List.append_nil]
      rw [hhead, List.append_cancel_left_eq] at heq
      exact List.forall_mem_cons.mpr ⟨hhead, ih hfrest hgrest heq⟩

end Hfrd.Lib
