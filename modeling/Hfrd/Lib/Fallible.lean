/-
  Hfrd.Lib.Fallible

  Loops whose rounds may fail, over any type of errors: what they give, round by
  round, and rules for what holds after them.
-/

import Mathlib.Data.List.Forall2

namespace Hfrd.Lib

variable {ε ε' α β σ : Type}

@[simp] theorem mapError_eq_ok {f : ε → ε'} {x : Except ε α} {a : α} :
    x.mapError f = .ok a ↔ x = .ok a := by
  cases x <;> simp [Except.mapError]

/-- A loop over a list gives a result for each element. -/
theorem mapM_eq_ok {f : α → Except ε β} {l : List α} {bs : List β} :
    l.mapM f = .ok bs ↔ List.Forall₂ (fun a b => f a = .ok b) l bs := by
  induction l generalizing bs with
  | nil => simp [pure, Except.pure, eq_comm]
  | cons a l ih =>
      rw [List.mapM_cons, List.forall₂_cons_left_iff]
      cases ha : f a with
      | error e => simp [bind, Except.bind]
      | ok b =>
          cases hl : l.mapM f with
          | error e => simp [bind, Except.bind, ← ih, hl]
          | ok bs' =>
              have hrest : List.Forall₂ (fun a b => f a = .ok b) l bs' := ih.mp hl
              simp only [bind, Except.bind, pure, Except.pure, Except.ok.injEq, ← ih, hl]
              constructor
              · rintro rfl
                exact ⟨b, bs', rfl, rfl, rfl⟩
              · rintro ⟨_, _, rfl, rfl, rfl⟩
                rfl

/-- A loop over a list with its indices. -/
theorem mapM_zipIdx_eq_ok {f : α × Nat → Except ε β} {l : List α} {bs : List β} :
    l.zipIdx.mapM f = .ok bs ↔
      l.length = bs.length ∧ ∀ i (h : i < l.length) (h' : i < bs.length),
        f (l[i], i) = .ok bs[i] := by
  rw [mapM_eq_ok, List.forall₂_iff_get]
  simp only [List.get_eq_getElem, List.getElem_zipIdx, Nat.zero_add, List.length_zipIdx]

theorem exists_mem_of_forall₂ {R : α → β → Prop} {l : List α} {l' : List β}
    (h : List.Forall₂ R l l') {a : α} (ha : a ∈ l) : ∃ b ∈ l', R a b := by
  induction h with
  | nil => exact absurd ha List.not_mem_nil
  | cons hab _ ih =>
      rcases List.mem_cons.mp ha with rfl | ha
      · exact ⟨_, List.mem_cons_self, hab⟩
      · obtain ⟨b, hb, hR⟩ := ih ha
        exact ⟨b, List.mem_cons_of_mem _ hb, hR⟩

theorem forall_mem_of_forall₂ {P : β → Prop} {l : List α} {l' : List β}
    (h : List.Forall₂ (fun _ b => P b) l l') : ∀ b ∈ l', P b := by
  induction h with
  | nil => exact fun b hb => absurd hb List.not_mem_nil
  | cons hb _ ih => exact List.forall_mem_cons.mpr ⟨hb, ih⟩

/-- Three lists side by side. -/
theorem forall₂_of_forall₂ {γ : Type} {P : α → β → Prop} {Q : β → γ → Prop} {R : γ → α → Prop}
    (h : ∀ a b c, P a b → Q b c → R c a) {l : List α} {l' : List β} {l'' : List γ}
    (hP : List.Forall₂ P l l') (hQ : List.Forall₂ Q l' l'') : List.Forall₂ R l'' l := by
  induction hP generalizing l'' with
  | nil =>
      cases hQ
      exact .nil
  | cons hab _ ih =>
      cases hQ with
      | cons hbc hQ => exact .cons (h _ _ _ hab hbc) (ih hQ)

/-- **A loop that ends** keeps what each of its rounds keeps; `P` speaks of the
    rounds that are done. -/
theorem foldlM_ok {f : σ → α → Except ε σ} {l : List α} {P : List α → σ → Prop} {s t : σ}
    (hstep : ∀ done a todo s t, l = done ++ a :: todo → P done s → f s a = .ok t →
      P (done ++ [a]) t)
    (hs : P [] s) (h : l.foldlM f s = .ok t) : P l t := by
  suffices ∀ todo done s, l = done ++ todo → P done s → todo.foldlM f s = .ok t → P l t from
    this l [] s rfl hs h
  intro todo
  induction todo with
  | nil =>
      rintro done s rfl hs h
      rw [List.append_nil]
      exact Except.ok.inj h ▸ hs
  | cons a todo ih =>
      intro done s hl hs h
      rw [List.foldlM_cons] at h
      cases ha : f s a with
      | error e =>
          rw [ha] at h
          cases h
      | ok s' =>
          rw [ha] at h
          exact ih (done ++ [a]) s' (by rw [hl, List.append_assoc]; rfl)
            (hstep done a todo s s' hl hs ha) h

/-- **A loop ends** where each of its rounds does. -/
theorem exists_foldlM_ok {f : σ → α → Except ε σ} {l : List α} {P : List α → σ → Prop} {s : σ}
    (hstep : ∀ done a todo s, l = done ++ a :: todo → P done s →
      ∃ t, f s a = .ok t ∧ P (done ++ [a]) t)
    (hs : P [] s) : ∃ t, l.foldlM f s = .ok t ∧ P l t := by
  suffices ∀ todo done s, l = done ++ todo → P done s → ∃ t, todo.foldlM f s = .ok t ∧ P l t from
    this l [] s rfl hs
  intro todo
  induction todo with
  | nil =>
      rintro done s rfl hs
      exact ⟨s, rfl, by rwa [List.append_nil]⟩
  | cons a todo ih =>
      intro done s hl hs
      obtain ⟨s', ha, hs'⟩ := hstep done a todo s hl hs
      rw [List.foldlM_cons, ha]
      exact ih (done ++ [a]) s' (by rw [hl, List.append_assoc]; rfl) hs'

end Hfrd.Lib
