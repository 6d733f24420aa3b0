/-
  Hfrd.Lib.Replace

  Replacing every occurrence of a list in a list.

  `replaceAll old new s` goes from left to right and takes the occurrences that
  do not overlap.  An element that `old` does not hold parts a list into two
  that are replaced on their own; lines that end in such an element are cleared
  of an ending one by one.
-/

import Mathlib.Data.List.Infix

namespace Hfrd.Lib

variable {α : Type} [DecidableEq α]

/-! ## Replacing -/

/-- Replace in what is left after `skip` elements of an occurrence. -/
def replaceAux (old new : List α) : Nat → List α → List α
  | _, [] => []
  | skip + 1, _ :: cs => replaceAux old new skip cs
  | 0, c :: cs =>
      if old <+: c :: cs then new ++ replaceAux old new (old.length - 1) cs
      else c :: replaceAux old new 0 cs

/-- Every occurrence of `old` replaced, from the left. -/
def replaceAll (old new s : List α) : List α := replaceAux old new 0 s

@[simp] theorem replaceAll_nil (old new : List α) : replaceAll old new [] = [] := rfl

theorem replaceAux_append (old new a s : List α) :
    replaceAux old new a.length (a ++ s) = replaceAll old new s := by
  induction a with
  | nil => rfl
  | cons c a ih => exact ih

theorem replaceAll_append_old {old : List α} (hold : old ≠ []) (new s : List α) :
    replaceAll old new (old ++ s) = new ++ replaceAll old new s := by
  cases old with
  | nil => exact absurd rfl hold
  | cons c old =>
      have hprefix : c :: old <+: c :: (old ++ s) := List.prefix_append (c :: old) s
      rw [replaceAll, List.cons_append, replaceAux, if_pos hprefix]
      exact congrArg (new ++ ·) (replaceAux_append (c :: old) new old s)

theorem replaceAll_cons {old : List α} {c : α} {cs : List α} (h : ¬ old <+: c :: cs)
    (new : List α) : replaceAll old new (c :: cs) = c :: replaceAll old new cs := by
  rw [replaceAll, replaceAux, if_neg h]
  rfl

/-- An occurrence at the head, or an element that is none. -/
theorem replace_induction {old : List α} (hold : old ≠ []) {motive : List α → Prop}
    (nil : motive []) (found : ∀ s, motive s → motive (old ++ s))
    (other : ∀ c s, ¬ old <+: c :: s → motive s → motive (c :: s)) (s : List α) : motive s := by
  generalize hn : s.length = n
  induction n using Nat.strongRecOn generalizing s with
  | _ n ih =>
      cases s with
      | nil => exact nil
      | cons c s =>
          by_cases hprefix : old <+: c :: s
          · obtain ⟨t, ht⟩ := hprefix
            have hpos := List.length_pos_iff.mpr hold
            have hlength := congrArg List.length ht
            rw [List.length_append] at hlength
            rw [← ht]
            exact found t (ih t.length (by omega) t rfl)
          · exact other c s hprefix (ih s.length (by simp at hn; omega) s rfl)

/-! ## Parts -/

omit [DecidableEq α] in
/-- What is before an element that `old` does not hold is matched on its own. -/
theorem prefix_of_prefix_append_cons {old a b : List α} {x : α} (hx : x ∉ old)
    (h : old <+: a ++ x :: b) : old <+: a := by
  refine (List.prefix_or_prefix_of_prefix h (List.prefix_append a (x :: b))).elim id fun ha => ?_
  obtain ⟨t, rfl⟩ := ha
  have ht := (List.prefix_append_right_inj a).mp h
  cases t with
  | nil =>
      rw [List.append_nil]
  | cons c t =>
      have hc : c = x := (List.cons_prefix_cons.mp ht).1
      exact absurd (hc ▸ List.mem_append_right a List.mem_cons_self) hx

omit [DecidableEq α] in
theorem infix_of_infix_append_cons {old a b : List α} {x : α} (hx : x ∉ old)
    (h : old <:+: a ++ x :: b) : old <:+: a ∨ old <:+: b := by
  induction a with
  | nil =>
      rcases List.infix_cons_iff.mp h with hp | hi
      · exact Or.inl (prefix_of_prefix_append_cons (a := []) hx hp).isInfix
      · exact Or.inr hi
  | cons c a ih =>
      rcases List.infix_cons_iff.mp h with hp | hi
      · exact Or.inl (prefix_of_prefix_append_cons (a := c :: a) hx hp).isInfix
      · exact (ih hi).imp_left List.infix_cons

/-- An element that `old` does not hold parts the list. -/
theorem replaceAll_append_cons {old : List α} (hold : old ≠ []) {x : α} (hx : x ∉ old)
    (new a b : List α) :
    replaceAll old new (a ++ x :: b) = replaceAll old new a ++ x :: replaceAll old new b := by
  induction a using replace_induction hold with
  | nil =>
      have hno : ¬ old <+: x :: b := fun h =>
        hold (List.prefix_nil.mp (prefix_of_prefix_append_cons (a := []) hx h))
      exact replaceAll_cons hno new
  | found s ih =>
      rw [List.append_assoc, replaceAll_append_old hold, ih, replaceAll_append_old hold,
        List.append_assoc]
  | other c s h ih =>
      have hno : ¬ old <+: c :: (s ++ x :: b) :=
        fun hp => h (prefix_of_prefix_append_cons (a := c :: s) hx hp)
      rw [List.cons_append, replaceAll_cons hno, ih, replaceAll_cons h, List.cons_append]

/-- A part without the first element of `old` stays. -/
theorem replaceAll_append_of_head {o : α} {a : List α} (h : o ∉ a) (old new s : List α) :
    replaceAll (o :: old) new (a ++ s) = a ++ replaceAll (o :: old) new s := by
  induction a with
  | nil => rfl
  | cons c a ih =>
      have hno : ¬ o :: old <+: c :: (a ++ s) := fun hp =>
        h ((List.cons_prefix_cons.mp hp).1 ▸ List.mem_cons_self)
      rw [List.cons_append, replaceAll_cons hno, ih fun hmem => h (List.mem_cons_of_mem c hmem)]
      rfl

theorem replaceAll_of_head {o : α} {a : List α} (h : o ∉ a) (old new : List α) :
    replaceAll (o :: old) new a = a := by
  have happend := replaceAll_append_of_head h old new []
  rwa [List.append_nil, replaceAll_nil, List.append_nil] at happend

theorem replaceAll_eq_self {old s : List α} (h : ¬ old <:+: s) (new : List α) :
    replaceAll old new s = s := by
  induction s with
  | nil => rfl
  | cons c s ih =>
      rw [replaceAll_cons fun hp => h hp.isInfix, ih fun hi => h (List.infix_cons hi)]

theorem replaceAll_self {old : List α} (hold : old ≠ []) (new : List α) :
    replaceAll old new old = new := by
  have happend := replaceAll_append_old hold new []
  rwa [List.append_nil, replaceAll_nil, List.append_nil] at happend

/-- Nothing comes into the list but what is in `new`. -/
theorem not_mem_replaceAll {old new s : List α} (hold : old ≠ []) {x : α} (hnew : x ∉ new)
    (hs : x ∉ s) : x ∉ replaceAll old new s := by
  induction s using replace_induction hold with
  | nil => exact hs
  | found s ih =>
      rw [replaceAll_append_old hold, List.mem_append]
      exact fun hmem => hmem.elim hnew (ih fun hmem => hs (List.mem_append_right old hmem))
  | other c s hno ih =>
      rw [replaceAll_cons hno, List.mem_cons]
      exact fun hmem => hmem.elim (fun heq => hs (heq ▸ List.mem_cons_self))
        (ih fun hmem => hs (List.mem_cons_of_mem c hmem))

/-- Two neighbours that `old` does not hold stay neighbours. -/
theorem infix_replaceAll {old : List α} (hold : old ≠ []) {x y : α} (hx : x ∉ old) (hy : y ∉ old)
    {s : List α} (h : [x, y] <:+: s) (new : List α) : [x, y] <:+: replaceAll old new s := by
  obtain ⟨a, b, rfl⟩ := h
  have hy' := replaceAll_append_cons hold hy new [] b
  rw [List.append_assoc, List.cons_append, List.cons_append, List.nil_append,
    replaceAll_append_cons hold hx]
  rw [List.nil_append, replaceAll_nil, List.nil_append] at hy'
  rw [hy']
  exact ⟨replaceAll old new a, replaceAll old new b, by simp⟩

omit [DecidableEq α] in
theorem infix_of_infix_append {a b : List α} {x y : α} (hx : x ∉ a) (h : [x, y] <:+: a ++ b) :
    [x, y] <:+: b := by
  induction a with
  | nil => exact h
  | cons c a ih =>
      rcases List.infix_cons_iff.mp h with hp | hi
      · exact absurd ((List.cons_prefix_cons.mp hp).1 ▸ List.mem_cons_self) hx
      · exact ih (fun hmem => hx (List.mem_cons_of_mem c hmem)) hi

theorem head?_replaceAll {old new : List α} (hold : old ≠ []) (hhead : new.head? = old.head?)
    (s : List α) : (replaceAll old new s).head? = s.head? := by
  have hnew : new ≠ [] := by
    rintro rfl
    exact hold (List.head?_eq_none_iff.mp hhead.symm)
  induction s using replace_induction hold with
  | nil => rfl
  | found s ih =>
      rw [replaceAll_append_old hold, List.head?_append_of_ne_nil _ hnew, hhead,
        List.head?_append_of_ne_nil _ hold]
  | other c s hno ih =>
      rw [replaceAll_cons hno, List.head?_cons, List.head?_cons]

/-- No new neighbours of an element that `new` does not hold, where `new` starts
    as `old`. -/
theorem infix_of_infix_replaceAll {old new : List α} (hold : old ≠ [])
    (hhead : new.head? = old.head?) {x y : α} (hx : x ∉ new) {s : List α}
    (h : [x, y] <:+: replaceAll old new s) : [x, y] <:+: s := by
  induction s using replace_induction hold with
  | nil => exact h
  | found s ih =>
      rw [replaceAll_append_old hold] at h
      exact (ih (infix_of_infix_append hx h)).trans (List.suffix_append old s).isInfix
  | other c s hno ih =>
      rw [replaceAll_cons hno] at h
      rcases List.infix_cons_iff.mp h with hp | hi
      · obtain ⟨rfl, htail⟩ := List.cons_prefix_cons.mp hp
        rw [List.singleton_prefix_iff_head?_eq_some, head?_replaceAll hold hhead] at htail
        have hpair : [x, y] <+: x :: s := List.cons_prefix_cons.mpr
          ⟨rfl, List.singleton_prefix_iff_head?_eq_some.mpr htail⟩
        exact hpair.isInfix
      · exact List.infix_cons (ih hi)

/-! ## Lines -/

/-- An ending of a line is replaced with the end of the line; another line
    stays. -/
theorem replaceAll_line {p line : List α} {x : α} (hp : p ≠ []) (hxp : x ∉ p) (hx : x ∉ line)
    (new rest : List α) :
    replaceAll (p ++ [x]) new (line ++ x :: rest)
      = (if p <:+ line then line.take (line.length - p.length) ++ new else line ++ [x])
        ++ replaceAll (p ++ [x]) new rest := by
  have hold : p ++ [x] ≠ [] := by simp
  induction line with
  | nil =>
      -- an occurrence would begin with the end of the line, which is not in `p`
      have hno : ¬ p ++ [x] <+: x :: rest := by
        cases p with
        | nil => exact absurd rfl hp
        | cons c p =>
            intro h
            exact hxp ((List.cons_prefix_cons.mp h).1 ▸ List.mem_cons_self)
      rw [List.nil_append, replaceAll_cons hno, if_neg fun h => hp (List.suffix_nil.mp h)]
      rfl
  | cons c line ih =>
      have hxline : x ∉ line := fun h => hx (List.mem_cons_of_mem c h)
      -- the ending is the whole line, or it ends in what is behind `c`
      by_cases heq : p = c :: line
      · subst heq
        have hfound := replaceAll_append_old hold new rest
        rw [List.append_assoc, List.singleton_append] at hfound
        rw [if_pos List.suffix_rfl, Nat.sub_self, List.take_zero, List.nil_append, hfound]
      · have hno : ¬ p ++ [x] <+: c :: (line ++ x :: rest) := by
          intro h
          rw [← List.cons_append] at h
          -- an occurrence here would be the whole line
          have hpline : p <+: c :: line :=
            prefix_of_prefix_append_cons hxp ((List.prefix_append p [x]).trans h)
          obtain ⟨t, ht⟩ := hpline
          rw [← ht, List.append_assoc, List.prefix_append_right_inj] at h
          cases t with
          | nil => exact heq (by rw [← ht, List.append_nil])
          | cons d t =>
              have hd : x = d := (List.cons_prefix_cons.mp h).1
              exact hx (ht ▸ hd ▸ List.mem_append_right p List.mem_cons_self)
        rw [List.cons_append, replaceAll_cons hno, ih hxline]
        by_cases hsuffix : p <:+ line
        · have hle := hsuffix.length_le
          have hlength : (c :: line).length - p.length = line.length - p.length + 1 := by
            rw [List.length_cons]
            omega
          rw [if_pos hsuffix, if_pos (hsuffix.trans (List.suffix_cons c line)), hlength,
            List.take_succ_cons, List.cons_append, List.cons_append]
        · have hsuffix' : ¬ p <:+ c :: line := fun h =>
            (List.suffix_cons_iff.mp h).elim heq hsuffix
          rw [if_neg hsuffix, if_neg hsuffix']
          rfl

/-- Where more is written behind an ending, the line itself stays. -/
theorem replaceAll_line_insert {p line : List α} {x : α} (hp : p ≠ []) (hxp : x ∉ p)
    (hx : x ∉ line) (more rest : List α) :
    replaceAll (p ++ [x]) (p ++ x :: more) (line ++ x :: rest)
      = line ++ x :: ((if p <:+ line then more else [])
        ++ replaceAll (p ++ [x]) (p ++ x :: more) rest) := by
  rw [replaceAll_line hp hxp hx]
  split
  · next hsuffix =>
      obtain ⟨front, rfl⟩ := hsuffix
      have hfront : (front ++ p).length - p.length = front.length := by
        rw [List.length_append]
        omega
      rw [hfront, List.take_left, List.append_assoc, List.append_assoc, List.append_assoc,
        List.cons_append]
  · simp

/-! ## Counting -/

/-- Fewer in `new` than in `old` means fewer in the result, where `old` is
    found. -/
theorem countP_replaceAll_le {old new : List α} (hold : old ≠ []) {q : α → Bool}
    (h : new.countP q ≤ old.countP q) (s : List α) :
    (replaceAll old new s).countP q ≤ s.countP q := by
  induction s using replace_induction hold with
  | nil => exact Nat.le_refl _
  | found s ih =>
      rw [replaceAll_append_old hold, List.countP_append, List.countP_append]
      omega
  | other c s hno ih =>
      rw [replaceAll_cons hno, List.countP_cons, List.countP_cons]
      omega

theorem countP_replaceAll_lt {old new : List α} (hold : old ≠ []) {q : α → Bool}
    (h : new.countP q < old.countP q) {s : List α} (hfound : old <:+: s) :
    (replaceAll old new s).countP q < s.countP q := by
  induction s using replace_induction hold with
  | nil => exact absurd (List.infix_nil.mp hfound) hold
  | found s ih =>
      have hle := countP_replaceAll_le hold (Nat.le_of_lt h) s
      rw [replaceAll_append_old hold, List.countP_append, List.countP_append]
      omega
  | other c s hno ih =>
      have hlt := ih ((List.infix_cons_iff.mp hfound).elim (fun hp => absurd hp hno) id)
      rw [replaceAll_cons hno, List.countP_cons, List.countP_cons]
      omega

/-- More in `new` than in `old` means a longer result, where `old` is found. -/
theorem length_le_replaceAll {old new : List α} (hold : old ≠ []) (h : old.length ≤ new.length)
    (s : List α) : s.length ≤ (replaceAll old new s).length := by
  induction s using replace_induction hold with
  | nil => exact Nat.le_refl _
  | found s ih =>
      rw [replaceAll_append_old hold, List.length_append, List.length_append]
      omega
  | other c s hno ih =>
      rw [replaceAll_cons hno, List.length_cons, List.length_cons]
      omega

theorem length_lt_replaceAll {old new : List α} (hold : old ≠ []) (h : old.length < new.length)
    {s : List α} (hfound : old <:+: s) : s.length < (replaceAll old new s).length := by
  induction s using replace_induction hold with
  | nil => exact absurd (List.infix_nil.mp hfound) hold
  | found s ih =>
      have hle := length_le_replaceAll hold (Nat.le_of_lt h) s
      rw [replaceAll_append_old hold, List.length_append, List.length_append]
      omega
  | other c s hno ih =>
      have hlt := ih ((List.infix_cons_iff.mp hfound).elim (fun hp => absurd hp hno) id)
      rw [replaceAll_cons hno, List.length_cons, List.length_cons]
      omega

/-! ## Encoded lists -/

omit [DecidableEq α] in
/-- An encoding that leaves the elements of `old` alone and starts no other
    code with one of them. -/
theorem prefix_of_prefix_flatMap {f : α → List α} {old s : List α}
    (hplain : ∀ c, f c = [c] ∨ ∃ e r, f c = e :: r ∧ e ∉ old) (h : old <+: s.flatMap f) :
    old <+: s := by
  induction old generalizing s with
  | nil => exact List.nil_prefix
  | cons o old ih =>
      cases s with
      | nil => exact h
      | cons c s =>
          rw [List.flatMap_cons] at h
          rcases hplain c with hc | ⟨e, r, hc, he⟩
          · rw [hc, List.singleton_append] at h
            obtain ⟨rfl, htail⟩ := List.cons_prefix_cons.mp h
            refine List.cons_prefix_cons.mpr ⟨rfl, ih (fun d => ?_) htail⟩
            refine (hplain d).imp_right fun ⟨e, r, hd, he⟩ => ⟨e, r, hd, fun hmem => he ?_⟩
            exact List.mem_cons_of_mem o hmem
          · rw [hc] at h
            exact absurd ((List.cons_prefix_cons.mp h).1 ▸ List.mem_cons_self) he

/-- Replacing in an encoded list. -/
theorem replaceAll_flatMap {f : α → List α} {o : α} {old new : List α}
    (hplain : ∀ c, f c = [c] ∨ (∃ e r, f c = e :: r ∧ e ∉ o :: old) ∧ o ∉ f c)
    (hold : (o :: old).flatMap f = o :: old) (hnew : new.flatMap f = new) (s : List α) :
    replaceAll (o :: old) new (s.flatMap f) = (replaceAll (o :: old) new s).flatMap f := by
  induction s using replace_induction (List.cons_ne_nil o old) with
  | nil => rfl
  | found s ih =>
      rw [List.flatMap_append, hold, replaceAll_append_old (List.cons_ne_nil o old),
        replaceAll_append_old (List.cons_ne_nil o old), ih, List.flatMap_append, hnew]
  | other c s hno ih =>
      rw [replaceAll_cons hno, List.flatMap_cons, List.flatMap_cons, ← ih]
      rcases hplain c with hc | ⟨-, hc⟩
      · have hno' : ¬ o :: old <+: c :: s.flatMap f := fun hp => hno (by
          refine prefix_of_prefix_flatMap (f := f) (fun d => (hplain d).imp_right And.left) ?_
          rw [List.flatMap_cons, hc]
          exact hp)
        rw [hc, List.singleton_append, replaceAll_cons hno']
        rfl
      · exact replaceAll_append_of_head hc old new _

end Hfrd.Lib
