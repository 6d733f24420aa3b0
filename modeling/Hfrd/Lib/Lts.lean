/-
  Hfrd.Lib.Lts

  Labelled transition systems with an executable step, their runs, and the
  induction rule that carries an invariant along a run.

  A system is a partial step function `σ → ℓ → Option σ`: the label resolves
  every choice (which thread moves, what its environment answers), so a run
  is a list of labels and `exec` evaluates it.  `Run ok` is the same run with
  a side condition `ok` on the state before each step; `ok := fun _ _ => True`
  gives all runs.

  The last section counts threads: how `List.countP` over a list of threads
  changes when one of them moves.
-/

import Mathlib.Algebra.Ring.Int.Defs
import Mathlib.Data.List.Basic

namespace Hfrd.Lib

/-- A labelled transition system: the step is undefined where the label is
    not enabled. -/
structure Lts (σ ℓ : Type) where
  step : σ → ℓ → Option σ

namespace Lts

variable {σ ℓ : Type} {M : Lts σ ℓ}

/-- Run a list of labels from a state. -/
def exec (M : Lts σ ℓ) : σ → List ℓ → Option σ
  | s, [] => some s
  | s, l :: ls => match M.step s l with
    | some t => exec M t ls
    | none => none

/-- An execution goes on from where its first part ends. -/
theorem exec_append {s t : σ} {ls ls' : List ℓ} (h : M.exec s ls = some t) :
    M.exec s (ls ++ ls') = M.exec t ls' := by
  induction ls generalizing s with
  | nil =>
      cases h
      rfl
  | cons l ls ih =>
      simp only [exec, List.cons_append] at h ⊢
      cases hst : M.step s l with
      | none => simp [hst] at h
      | some u =>
          rw [hst] at h
          exact ih h

/-- A run from `s` to `t` over the given labels, each step meeting `ok` in the
    state before it. -/
inductive Run (M : Lts σ ℓ) (ok : σ → ℓ → Prop) : σ → List ℓ → σ → Prop
  | nil (s : σ) : Run M ok s [] s
  | cons {s t u : σ} {l : ℓ} {ls : List ℓ} :
      ok s l → M.step s l = some t → Run M ok t ls u → Run M ok s (l :: ls) u

/-- Every executed list of labels is a run with no side condition. -/
theorem Run.of_exec {s t : σ} {ls : List ℓ} (h : M.exec s ls = some t) :
    M.Run (fun _ _ => True) s ls t := by
  induction ls generalizing s with
  | nil =>
      simp only [exec, Option.some.injEq] at h
      exact h ▸ .nil s
  | cons l ls ih =>
      simp only [exec] at h
      cases hs : M.step s l with
      | none => simp [hs] at h
      | some u =>
          rw [hs] at h
          exact .cons trivial hs (ih h)

/-- **The induction rule for runs.**  What every `ok` step preserves, every
    `ok` run preserves. -/
theorem Run.preserves {ok : σ → ℓ → Prop} {I : σ → Prop}
    (hstep : ∀ s l t, I s → ok s l → M.step s l = some t → I t)
    {s t : σ} {ls : List ℓ} (h : M.Run ok s ls t) (hs : I s) : I t := by
  induction h with
  | nil => exact hs
  | cons hok hst _ ih => exact ih (hstep _ _ _ hs hok hst)

/-- A run whose side condition follows, in each state it passes, from an
    invariant of the run. -/
theorem Run.strengthen {ok ok' : σ → ℓ → Prop} {I : σ → Prop}
    (hstep : ∀ s l t, I s → ok s l → M.step s l = some t → I t)
    (himp : ∀ s l, I s → ok s l → ok' s l)
    {s t : σ} {ls : List ℓ} (h : M.Run ok s ls t) (hs : I s) : M.Run ok' s ls t := by
  induction h with
  | nil => exact .nil _
  | cons hok hst _ ih =>
      exact .cons (himp _ _ hs hok) hst (ih (hstep _ _ _ hs hok hst))

/-- `P` holds of every step of the run of `ls` from `s`, up to the first label
    that is not enabled. -/
def Along (M : Lts σ ℓ) (P : σ → ℓ → σ → Prop) : σ → List ℓ → Prop
  | _, [] => True
  | s, l :: ls => match M.step s l with
    | some t => P s l t ∧ Along M P t ls
    | none => True

instance decidableAlong {P : σ → ℓ → σ → Prop} [∀ s l t, Decidable (P s l t)] :
    ∀ s ls, Decidable (M.Along P s ls)
  | _, [] => .isTrue trivial
  | s, l :: ls => match h : M.step s l with
    | some t =>
        have := decidableAlong (P := P) t ls
        decidable_of_iff (P s l t ∧ M.Along P t ls) (by simp only [Along, h])
    | none => .isTrue (by simp only [Along, h])

/-- An executed run that meets a side condition all along. -/
theorem Run.of_along {ok : σ → ℓ → Prop} {s t : σ} {ls : List ℓ}
    (h : M.exec s ls = some t) (hok : M.Along (fun s l _ => ok s l) s ls) : M.Run ok s ls t := by
  induction ls generalizing s with
  | nil =>
      simp only [exec, Option.some.injEq] at h
      exact h ▸ .nil s
  | cons l ls ih =>
      simp only [exec] at h
      simp only [Along] at hok
      cases hs : M.step s l with
      | none => simp [hs] at h
      | some u =>
          rw [hs] at h hok
          exact .cons hok.1 hs (ih h hok.2)

/-- A property of every step of a run holds along each later part of it. -/
theorem Along.drop {P : σ → ℓ → σ → Prop} {s t : σ} {ls ls' : List ℓ}
    (h : M.Along P s (ls ++ ls')) (hexec : M.exec s ls = some t) : M.Along P t ls' := by
  induction ls generalizing s with
  | nil =>
      cases hexec
      exact h
  | cons l ls ih =>
      simp only [exec] at hexec
      simp only [List.cons_append, Along] at h
      cases hst : M.step s l with
      | none => simp [hst] at hexec
      | some u =>
          rw [hst] at hexec h
          exact ih h.2 hexec

/-- What follows from an invariant of all steps holds along every run. -/
theorem along_of_invariant {I : σ → Prop} {C : σ → ℓ → Prop}
    (hstep : ∀ s l t, I s → M.step s l = some t → I t) (himp : ∀ s l, I s → C s l)
    {s : σ} (hs : I s) (ls : List ℓ) : M.Along (fun s l _ => C s l) s ls := by
  induction ls generalizing s with
  | nil => trivial
  | cons l ls ih =>
      simp only [Along]
      cases h : M.step s l with
      | none => trivial
      | some t => exact ⟨himp s l hs, ih (hstep s l t hs h)⟩

/-- **Exact step conditions.**  Where a step leads from `B` to `B` exactly under
    `C`, a run stays in `B` exactly when each of its steps meets `C`. -/
theorem along_iff_of_step {B : σ → Prop} {C : σ → ℓ → Prop}
    (hiff : ∀ s l t, B s → M.step s l = some t → (B t ↔ C s l))
    {s : σ} (hs : B s) (ls : List ℓ) :
    M.Along (fun _ _ t => B t) s ls ↔ M.Along (fun s l _ => C s l) s ls := by
  induction ls generalizing s with
  | nil => exact Iff.rfl
  | cons l ls ih =>
      simp only [Along]
      cases h : M.step s l with
      | none => exact Iff.rfl
      | some t =>
          have hstep := hiff s l t hs h
          exact ⟨fun ⟨ht, hrest⟩ => ⟨hstep.mp ht, (ih ht).mp hrest⟩,
            fun ⟨hc, hrest⟩ => ⟨hstep.mpr hc, (ih (hstep.mpr hc)).mpr hrest⟩⟩

/-- Two step properties that agree in every state of the run hold along the
    same runs. -/
theorem along_congr {P Q : σ → ℓ → σ → Prop} {I : σ → Prop}
    (hstep : ∀ s l t, I s → M.step s l = some t → I t)
    (hiff : ∀ s l t, I s → M.step s l = some t → (P s l t ↔ Q s l t))
    {s : σ} (hs : I s) (ls : List ℓ) : M.Along P s ls ↔ M.Along Q s ls := by
  induction ls generalizing s with
  | nil => exact Iff.rfl
  | cons l ls ih =>
      simp only [Along]
      cases h : M.step s l with
      | none => exact Iff.rfl
      | some t => exact and_congr (hiff s l t hs h) (ih (hstep s l t hs h))

end Lts

/-! ## Lists of threads -/

/-- The count of `p`-threads when the thread at `i` moves from `a` to `b`. -/
theorem countP_set_add {α : Type} {p : α → Bool} {l : List α} {i : Nat} {a b : α}
    (h : l[i]? = some a) :
    (l.set i b).countP p + (p a).toNat = l.countP p + (p b).toNat := by
  induction l generalizing i with
  | nil => simp at h
  | cons x xs ih =>
      cases i with
      | zero =>
          simp only [List.getElem?_cons_zero, Option.some.injEq] at h
          subst h
          cases hpa : p x <;> cases hpb : p b <;> simp [hpa, hpb]
      | succ i =>
          -- the head is counted on both sides
          have hxs := ih (by simpa using h)
          simp only [List.set_cons_succ, List.countP_cons]
          omega

/-- The sum of what the threads hold when the thread at `i` moves from `a` to
    `b`. -/
theorem sum_map_set_add {α M : Type} [Add M] [Zero M] [Std.Associative (α := M) (· + ·)]
    [Std.Commutative (α := M) (· + ·)] {f : α → M} {l : List α} {i : Nat} {a b : α}
    (h : l[i]? = some a) : ((l.set i b).map f).sum + f a = (l.map f).sum + f b := by
  induction l generalizing i with
  | nil => simp at h
  | cons x xs ih =>
      cases i with
      | zero =>
          simp only [List.getElem?_cons_zero, Option.some.injEq] at h
          subst h
          simp only [List.set_cons_zero, List.map_cons, List.sum_cons]
          ac_rfl
      | succ i =>
          have hxs := ih (by simpa using h)
          simp only [List.set_cons_succ, List.map_cons, List.sum_cons]
          calc f x + ((xs.set i b).map f).sum + f a
              = f x + (((xs.set i b).map f).sum + f a) := by ac_rfl
            _ = f x + ((xs.map f).sum + f b) := by rw [hxs]
            _ = f x + (xs.map f).sum + f b := by ac_rfl

/-- The count after one more thread. -/
theorem countP_snoc {α : Type} (p : α → Bool) (l : List α) (a : α) :
    (l ++ [a]).countP p = l.countP p + (p a).toNat := by
  cases h : p a <;> simp [List.countP_append, h]

/-- The count is unchanged when the thread that moves stays in or out of it. -/
theorem countP_set_keep {α : Type} {p : α → Bool} {l : List α} {i : Nat} {a b : α}
    (h : l[i]? = some a) (hp : p b = p a) : (l.set i b).countP p = l.countP p := by
  have hadd := countP_set_add (p := p) (b := b) h
  rw [hp] at hadd
  omega

/-- The count falls by one when the thread that moves leaves it. -/
theorem countP_set_drop {α : Type} {p : α → Bool} {l : List α} {i : Nat} {a b : α}
    (h : l[i]? = some a) (ha : p a = true) (hb : p b = false) :
    (l.set i b).countP p + 1 = l.countP p := by
  have hadd := countP_set_add (p := p) (b := b) h
  simpa [ha, hb] using hadd

/-- The count rises by one when the thread that moves enters it. -/
theorem countP_set_gain {α : Type} {p : α → Bool} {l : List α} {i : Nat} {a b : α}
    (h : l[i]? = some a) (ha : p a = false) (hb : p b = true) :
    (l.set i b).countP p = l.countP p + 1 := by
  have hadd := countP_set_add (p := p) (b := b) h
  simpa [ha, hb] using hadd

/-- When at most one thread is in `p` and it is the one that moves, every other
    thread is outside. -/
theorem eq_or_not_of_mem_set {α : Type} {p : α → Bool} {l : List α} {i : Nat} {a b x : α}
    (h : l[i]? = some a) (ha : p a = true) (hone : l.countP p ≤ 1) (hx : x ∈ l.set i b) :
    x = b ∨ p x = false := by
  induction l generalizing i with
  | nil => simp at h
  | cons y ys ih =>
      cases i with
      | zero =>
          simp only [List.getElem?_cons_zero, Option.some.injEq] at h
          subst h
          -- the head moves and was the one in `p`: the tail has none
          rw [List.countP_cons_of_pos ha] at hone
          rcases List.mem_cons.mp hx with rfl | hx
          · exact Or.inl rfl
          · exact Or.inr (Bool.eq_false_iff.mpr
              (List.countP_eq_zero.mp (by omega : ys.countP p = 0) x hx))
      | succ i =>
          simp only [List.getElem?_cons_succ] at h
          have hpos : 0 < ys.countP p :=
            List.countP_pos_iff.mpr ⟨a, List.mem_of_getElem? h, ha⟩
          rw [List.countP_cons] at hone
          rcases List.mem_cons.mp hx with rfl | hx
          · refine Or.inr (Bool.eq_false_iff.mpr fun hpx => ?_)
            rw [if_pos hpx] at hone
            omega
          · exact ih h (by omega) hx

/-- What holds of every thread holds after a move to a thread it holds of. -/
theorem forall_mem_set {α : Type} {P : α → Prop} {l : List α} {b : α} (hl : ∀ x ∈ l, P x)
    (hb : P b) (i : Nat) : ∀ x ∈ l.set i b, P x := by
  intro x hx
  rcases List.mem_or_eq_of_mem_set hx with hmem | rfl
  · exact hl x hmem
  · exact hb

/-- A thread of the list survives the move of thread `i` unless it is that
    thread. -/
theorem mem_set_or_eq {α : Type} {l : List α} {i : Nat} {a b x : α}
    (h : l[i]? = some a) (hx : x ∈ l) : x = a ∨ x ∈ l.set i b := by
  obtain ⟨j, hj, rfl⟩ := List.getElem_of_mem hx
  by_cases hij : i = j
  · subst hij
    obtain ⟨_, rfl⟩ := List.getElem?_eq_some_iff.mp h
    exact Or.inl rfl
  · exact Or.inr (List.mem_iff_getElem.mpr ⟨j, by simpa using hj, by simp [hij]⟩)

/-- The thread that moved is in the list afterwards. -/
theorem mem_set_self {α : Type} {l : List α} {i : Nat} {a b : α}
    (h : l[i]? = some a) : b ∈ l.set i b := by
  obtain ⟨hi, _⟩ := List.getElem?_eq_some_iff.mp h
  exact List.mem_set hi b

end Hfrd.Lib
