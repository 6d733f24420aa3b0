/-
  Hfrd.Lib.ReplaceEach

  Several replacements, one after the other.

  `replaceEach pairs s` replaces the first of each pair by the second, in the
  result of the pairs before it, so that a pattern is also found in what was
  put in.  `insertBehind` is the case where more is written behind words: it
  leaves every line and only adds to what follows it.
-/

import Hfrd.Lib.Replace

namespace Hfrd.Lib

variable {α : Type} [DecidableEq α]

/-! ## One pattern after another -/

/-- Replace what stands first in each pair by what stands second. -/
def replaceEach (pairs : List (List α × List α)) (s : List α) : List α :=
  pairs.foldl (fun s pair => replaceAll pair.1 pair.2 s) s

@[simp] theorem replaceEach_nil (s : List α) : replaceEach [] s = s := rfl

@[simp] theorem replaceEach_cons (pair : List α × List α) (pairs : List (List α × List α))
    (s : List α) :
    replaceEach (pair :: pairs) s = replaceEach pairs (replaceAll pair.1 pair.2 s) := rfl

theorem replaceEach_of_nil (pairs : List (List α × List α)) : replaceEach pairs [] = [] := by
  induction pairs with
  | nil => rfl
  | cons pair pairs ih => exact ih

theorem replaceEach_append (pairs pairs' : List (List α × List α)) (s : List α) :
    replaceEach (pairs ++ pairs') s = replaceEach pairs' (replaceEach pairs s) :=
  List.foldl_append

/-- An element that no pattern holds parts the list. -/
theorem replaceEach_append_cons {pairs : List (List α × List α)} {x : α}
    (h : ∀ pair ∈ pairs, pair.1 ≠ [] ∧ x ∉ pair.1) (a b : List α) :
    replaceEach pairs (a ++ x :: b) = replaceEach pairs a ++ x :: replaceEach pairs b := by
  induction pairs generalizing a b with
  | nil => rfl
  | cons pair pairs ih =>
      obtain ⟨⟨hne, hx⟩, hrest⟩ := List.forall_mem_cons.mp h
      simp only [replaceEach_cons, replaceAll_append_cons hne hx, ih hrest]

/-- Pieces between elements that no pattern holds are replaced on their own. -/
theorem replaceEach_intercalate {pairs : List (List α × List α)} {x : α}
    (h : ∀ pair ∈ pairs, pair.1 ≠ [] ∧ x ∉ pair.1) (pieces : List (List α)) :
    replaceEach pairs ([x].intercalate pieces) =
      [x].intercalate (pieces.map (replaceEach pairs)) := by
  induction pieces with
  | nil => exact replaceEach_of_nil pairs
  | cons piece pieces ih =>
      cases pieces with
      | nil => rw [List.intercalate_singleton, List.map_singleton, List.intercalate_singleton]
      | cons piece' pieces =>
          rw [List.intercalate_cons_cons, List.append_assoc, List.singleton_append,
            replaceEach_append_cons h, ih, List.map_cons, List.map_cons, List.map_cons,
            List.intercalate_cons_cons, List.append_assoc, List.singleton_append]

/-- A part that holds the first element of no pattern stays. -/
theorem replaceEach_append_of_head {pairs : List (List α × List α)} {a : List α}
    (h : ∀ pair ∈ pairs, ∃ o old, pair.1 = o :: old ∧ o ∉ a) (s : List α) :
    replaceEach pairs (a ++ s) = a ++ replaceEach pairs s := by
  induction pairs generalizing s with
  | nil => rfl
  | cons pair pairs ih =>
      obtain ⟨⟨o, old, hpair, ho⟩, hrest⟩ := List.forall_mem_cons.mp h
      rw [replaceEach_cons, replaceEach_cons, hpair, replaceAll_append_of_head ho, ih hrest]

theorem not_mem_replaceEach {pairs : List (List α × List α)} {x : α} {s : List α}
    (h : ∀ pair ∈ pairs, pair.1 ≠ [] ∧ x ∉ pair.2) (hs : x ∉ s) : x ∉ replaceEach pairs s := by
  induction pairs generalizing s with
  | nil => exact hs
  | cons pair pairs ih =>
      obtain ⟨⟨hne, hnew⟩, hrest⟩ := List.forall_mem_cons.mp h
      exact ih hrest (not_mem_replaceAll hne hnew hs)

theorem replaceEach_eq_self {pairs : List (List α × List α)} {s : List α}
    (h : ∀ pair ∈ pairs, ¬ pair.1 <:+: s) : replaceEach pairs s = s := by
  induction pairs with
  | nil => rfl
  | cons pair pairs ih =>
      obtain ⟨hno, hrest⟩ := List.forall_mem_cons.mp h
      rw [replaceEach_cons, replaceAll_eq_self hno, ih hrest]

/-- A pattern that holds none of those before it: what it is replaced by goes
    through those behind it. -/
theorem replaceEach_pattern {before : List (List α × List α)} {pair : List α × List α}
    (hne : pair.1 ≠ []) (h : ∀ pair' ∈ before, ¬ pair'.1 <:+: pair.1)
    (later : List (List α × List α)) :
    replaceEach (before ++ pair :: later) pair.1 = replaceEach later pair.2 := by
  rw [replaceEach_append, replaceEach_eq_self h, replaceEach_cons, replaceAll_self hne]

/-- Where every pattern grows, a list that keeps its length holds none. -/
theorem length_le_replaceEach {pairs : List (List α × List α)}
    (h : ∀ pair ∈ pairs, pair.1 ≠ [] ∧ pair.1.length < pair.2.length) (s : List α) :
    s.length ≤ (replaceEach pairs s).length ∧
      ((replaceEach pairs s).length = s.length → ∀ pair ∈ pairs, ¬ pair.1 <:+: s) := by
  induction pairs generalizing s with
  | nil => exact ⟨Nat.le_refl _, fun _ pair hp => absurd hp List.not_mem_nil⟩
  | cons pair pairs ih =>
      obtain ⟨⟨hne, hlt⟩, hrest⟩ := List.forall_mem_cons.mp h
      obtain ⟨hle, hnone⟩ := ih hrest (replaceAll pair.1 pair.2 s)
      have hgrow := length_le_replaceAll hne (Nat.le_of_lt hlt) s
      rw [replaceEach_cons]
      refine ⟨Nat.le_trans hgrow hle, fun heq => ?_⟩
      have hno : ¬ pair.1 <:+: s := fun hfound => by
        have := length_lt_replaceAll hne hlt hfound
        omega
      rw [replaceAll_eq_self hno] at hnone heq
      exact List.forall_mem_cons.mpr ⟨hno, hnone heq⟩

/-! ## Writing behind words -/

/-- Write `ins k` behind each word `k` that `x` follows. -/
def insertBehind (x : α) (ins : List α → List α) (ks : List (List α)) (s : List α) : List α :=
  replaceEach (ks.map fun k => (k ++ [x], k ++ x :: ins k)) s

/-- What comes to stand behind a line: the word that is taken last is the first
    behind it. -/
def inserted (ins : List α → List α) (ks : List (List α)) (line : List α) : List α :=
  (ks.filter fun k => k <:+ line).reverse.flatMap ins

theorem insertBehind_cons (x : α) (ins : List α → List α) (k : List α) (ks : List (List α))
    (s : List α) :
    insertBehind x ins (k :: ks) s
      = insertBehind x ins ks (replaceAll (k ++ [x]) (k ++ x :: ins k) s) := rfl

theorem inserted_cons (ins : List α → List α) (k : List α) (ks : List (List α)) (line : List α) :
    inserted ins (k :: ks) line = inserted ins ks line ++ if k <:+ line then ins k else [] := by
  unfold inserted
  by_cases hk : k <:+ line <;> simp [hk, List.flatMap_append]

section
variable {x : α} {ins : List α → List α} {ks : List (List α)}

omit [DecidableEq α] in
theorem mem_insertBehind_pairs {y : α} (hy : y ≠ x) (hks : ∀ k ∈ ks, y ∉ k) :
    ∀ pair ∈ ks.map fun k => (k ++ [x], k ++ x :: ins k), pair.1 ≠ [] ∧ y ∉ pair.1 := by
  intro pair hpair
  obtain ⟨k, hk, rfl⟩ := List.mem_map.mp hpair
  exact ⟨by simp, by simpa [hy] using hks k hk⟩

/-- An element that no word holds parts the list. -/
theorem insertBehind_append_cons {y : α} (hy : y ≠ x) (hks : ∀ k ∈ ks, y ∉ k) (a b : List α) :
    insertBehind x ins ks (a ++ y :: b)
      = insertBehind x ins ks a ++ y :: insertBehind x ins ks b :=
  replaceEach_append_cons (mem_insertBehind_pairs hy hks) a b

/-- A line of which the words are followed by more: the words that end it write
    before that. -/
theorem insertBehind_line {y : α} (hy : y ≠ x) {line : List α} (hline : x ∉ line)
    (hks : ∀ k ∈ ks, k ≠ [] ∧ x ∉ k ∧ y ∉ k ∧ x ∉ ins k) {more : List α} (hmore : x ∉ more)
    (rest : List α) :
    insertBehind x ins ks (line ++ x :: (more ++ y :: rest))
      = line ++ x :: (inserted ins ks line ++ more ++ y :: insertBehind x ins ks rest) := by
  induction ks generalizing more rest with
  | nil => rfl
  | cons k ks ih =>
      obtain ⟨⟨hne, hxk, hyk, hxins⟩, hrest⟩ := List.forall_mem_cons.mp hks
      have hold : k ++ [x] ≠ [] := by simp
      have hyold : y ∉ k ++ [x] := by simp [hyk, hy]
      have hkeep : replaceAll (k ++ [x]) (k ++ x :: ins k) more = more :=
        replaceAll_eq_self
          (fun h => hmore (h.subset (List.mem_append_right k List.mem_cons_self))) _
      -- the words behind this one find the same line, with more in front of `y`
      have hwritten : x ∉ (if k <:+ line then ins k else []) ++ more := by
        split <;> simp [hxins, hmore]
      rw [insertBehind_cons, replaceAll_line_insert hne hxk hline,
        replaceAll_append_cons hold hyold, hkeep, ← List.append_assoc, ih hrest hwritten,
        inserted_cons, insertBehind_cons]
      simp only [List.append_assoc]

/-- What stands before the first `x` stays. -/
theorem takeWhile_insertBehind (hks : ∀ k ∈ ks, k ≠ [] ∧ x ∉ k) (s : List α) :
    (insertBehind x ins ks s).takeWhile (· ≠ x) = s.takeWhile (· ≠ x) := by
  induction ks generalizing s with
  | nil => rfl
  | cons k ks ih =>
      obtain ⟨⟨hne, hxk⟩, hrest⟩ := List.forall_mem_cons.mp hks
      rw [insertBehind_cons, ih hrest]
      by_cases hx : x ∈ s
      · obtain ⟨a, b, rfl, ha⟩ := List.eq_append_cons_of_mem hx
        have hbefore : ∀ c ∈ a, decide (c ≠ x) = true := fun c hc =>
          decide_eq_true fun heq => ha (heq ▸ hc)
        rw [replaceAll_line_insert hne hxk ha, List.takeWhile_append_of_pos hbefore,
          List.takeWhile_append_of_pos hbefore]
        simp
      · rw [replaceAll_eq_self
          (fun h => hx (h.subset (List.mem_append_right k List.mem_cons_self)))]

/-- A list that gets no longer has none of the words in it. -/
theorem length_le_insertBehind (hks : ∀ k ∈ ks, ins k ≠ []) (s : List α) :
    s.length ≤ (insertBehind x ins ks s).length ∧
      ((insertBehind x ins ks s).length = s.length → ∀ k ∈ ks, ¬ k ++ [x] <:+: s) := by
  have hgrow : ∀ pair ∈ ks.map fun k => (k ++ [x], k ++ x :: ins k),
      pair.1 ≠ [] ∧ pair.1.length < pair.2.length := by
    intro pair hpair
    obtain ⟨k, hk, rfl⟩ := List.mem_map.mp hpair
    have hpos := List.length_pos_iff.mpr (hks k hk)
    refine ⟨by simp, ?_⟩
    simp only [List.length_append, List.length_cons, List.length_nil]
    omega
  refine (length_le_replaceEach hgrow s).imp_right fun h heq k hk => ?_
  exact h heq _ (List.mem_map_of_mem hk)

/-- No new neighbours but of `x`. -/
theorem infix_of_infix_insertBehind {y z : α} (hy : y ≠ x)
    (hks : ∀ k ∈ ks, k ≠ [] ∧ y ∉ k ∧ y ∉ ins k) {s : List α}
    (h : [y, z] <:+: insertBehind x ins ks s) : [y, z] <:+: s := by
  induction ks generalizing s with
  | nil => exact h
  | cons k ks ih =>
      obtain ⟨⟨hne, hyk, hyins⟩, hrest⟩ := List.forall_mem_cons.mp hks
      rw [insertBehind_cons] at h
      have hhead : (k ++ x :: ins k).head? = (k ++ [x]).head? := by
        rw [List.head?_append_of_ne_nil _ hne, List.head?_append_of_ne_nil _ hne]
      refine infix_of_infix_replaceAll (by simp) hhead ?_ (ih hrest h)
      simp [hyk, hy, hyins]

theorem insertBehind_eq_self {s : List α} (h : ∀ k ∈ ks, ¬ k ++ [x] <:+: s) :
    insertBehind x ins ks s = s := by
  refine replaceEach_eq_self fun pair hpair => ?_
  obtain ⟨k, hk, rfl⟩ := List.mem_map.mp hpair
  exact h k hk

omit [DecidableEq α] in
theorem eq_singleton_of_length_flatMap_le {l : List (List α)} (hl : ∀ k ∈ l, ins k ≠ [])
    {k : List α} (hk : k ∈ l) (h : (l.flatMap ins).length ≤ (ins k).length) : l = [k] := by
  obtain ⟨a, b, rfl⟩ := List.append_of_mem hk
  have hpos : ∀ k' ∈ a ++ b, 0 < (ins k').length := fun k' hk' =>
    List.length_pos_iff.mpr (hl k' (by
      rw [List.mem_append, List.mem_cons]
      exact (List.mem_append.mp hk').imp_right Or.inr))
  simp only [List.flatMap_append, List.flatMap_cons, List.length_append] at h
  cases a with
  | cons c a =>
      have hc := hpos c List.mem_cons_self
      simp only [List.flatMap_cons, List.length_append] at h
      omega
  | nil =>
      cases b with
      | nil => rfl
      | cons c b =>
          have hc := hpos c List.mem_cons_self
          simp only [List.flatMap_cons, List.length_append] at h
          omega

/-- Where a word ends the line: only it is written, and nothing in what follows,
    exactly when no other word ends the line and none occurs behind it. -/
theorem inserted_append_eq_iff (hks : ∀ k ∈ ks, ins k ≠ []) {k line : List α} (hk : k ∈ ks)
    (hend : k <:+ line) (y : α) (s : List α) :
    inserted ins ks line ++ y :: insertBehind x ins ks s = ins k ++ y :: s ↔
      ks.filter (fun k' => k' <:+ line) = [k] ∧ ∀ k' ∈ ks, ¬ k' ++ [x] <:+: s := by
  obtain ⟨hle, hnone⟩ := length_le_insertBehind (x := x) hks s
  have hmem : k ∈ ks.filter fun k' => k' <:+ line :=
    List.mem_filter.mpr ⟨hk, decide_eq_true hend⟩
  have hge : (ins k).length ≤ (inserted ins ks line).length := by
    obtain ⟨a, b, hab⟩ := List.append_of_mem (List.mem_reverse.mpr hmem)
    rw [inserted, hab, List.flatMap_append, List.flatMap_cons]
    simp only [List.length_append]
    omega
  constructor
  · intro h
    -- `k` is written and nothing gets shorter, so there is no room for more
    have hlength := congrArg List.length h
    simp only [List.length_append, List.length_cons] at hlength
    have hless : (inserted ins ks line).length ≤ (ins k).length := by omega
    have hwords : ∀ k' ∈ (ks.filter fun k' => k' <:+ line).reverse, ins k' ≠ [] := fun k' hk' =>
      hks k' (List.mem_filter.mp (List.mem_reverse.mp hk')).1
    have honly := eq_singleton_of_length_flatMap_le hwords (List.mem_reverse.mpr hmem) hless
    exact ⟨List.reverse_eq_iff.mp honly, hnone (by omega)⟩
  · rintro ⟨honly, hno⟩
    rw [inserted, honly, insertBehind_eq_self hno]
    simp

/-- Where no word ends the line, nothing new stands before what follows. -/
theorem inserted_append_ne {k line : List α} (hks : ∀ k ∈ ks, k ≠ [] ∧ x ∉ k)
    (hend : ∀ k ∈ ks, ¬ k <:+ line) (hins : ins k ≠ []) (hx : x ∉ ins k) {y : α} (hy : y ≠ x)
    (s : List α) :
    inserted ins ks line ++ y :: insertBehind x ins ks s ≠ ins k ++ y :: s := by
  intro h
  have hnil : inserted ins ks line = [] := by
    rw [inserted, List.filter_eq_nil_iff.mpr fun k' hk' => by simpa using hend k' hk']
    rfl
  have hbefore : ∀ c ∈ ins k ++ [y], decide (c ≠ x) = true := fun c hc =>
    decide_eq_true fun heq => (List.mem_append.mp hc).elim (fun hc => hx (heq ▸ hc))
      fun hc => hy ((List.mem_singleton.mp hc).symm.trans heq)
  -- before the first `x`, the left side has what `s` has, and the right side more
  have hsame := congrArg (List.takeWhile (· ≠ x)) h
  rw [hnil, List.nil_append, List.append_cons, List.takeWhile_append_of_pos hbefore,
    List.takeWhile_cons_of_pos (by simpa using hy), takeWhile_insertBehind hks] at hsame
  have hlength := congrArg List.length hsame
  have hpos := List.length_pos_iff.mpr hins
  simp only [List.length_append, List.length_cons, List.length_nil] at hlength
  omega

end

end Hfrd.Lib
