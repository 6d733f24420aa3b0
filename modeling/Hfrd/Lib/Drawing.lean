/-
  Hfrd.Lib.Drawing

  Computations that draw random values from a source, and all of their
  outcomes.

  A `Drawing` runs over every source of a kind, with any state.  `Outcomes`
  says exactly which values it can return and whether it can fail with one
  failure `bad`: no source gives more, and each outcome is attained on a list
  of drawn values, the `tape`, of which it consumes the beginning.  Outcomes of
  two computations one after the other are attained on the tapes one after the
  other.  `May` is `Outcomes` without the values.
-/

import Mathlib.Logic.Basic
import Mathlib.Tactic.Choose

namespace Hfrd.Lib

/-- A computation that draws from a source; `ρ` is the state of the source. -/
def Drawing (Src : Type → Type) (ε α : Type) : Type 1 :=
  ∀ ρ : Type, Src ρ → StateT ρ (Except ε) α

variable {Src : Type → Type} {ε ε' α β τ ι : Type}

/-! ## Two computations one after the other -/

section Bind

variable {ρ : Type} {p : StateT ρ (Except ε) α} {q : α → StateT ρ (Except ε) β} {r : ρ}

theorem bind_of_ok {a : α} {r' : ρ} (h : p r = .ok (a, r')) : (p >>= q) r = q a r' := by
  change Except.bind (p r) _ = _
  rw [h]
  rfl

theorem bind_of_error {e : ε} (h : p r = .error e) : (p >>= q) r = .error e := by
  change Except.bind (p r) _ = _
  rw [h]
  rfl

theorem bind_eq_ok {b : β} {r'' : ρ} (h : (p >>= q) r = .ok (b, r'')) :
    ∃ a r', p r = .ok (a, r') ∧ q a r' = .ok (b, r'') := by
  cases hp : p r with
  | error e =>
      rw [bind_of_error hp] at h
      cases h
  | ok out =>
      rw [bind_of_ok hp] at h
      exact ⟨out.1, out.2, rfl, h⟩

theorem bind_eq_error {e : ε} (h : (p >>= q) r = .error e) :
    p r = .error e ∨ ∃ a r', p r = .ok (a, r') ∧ q a r' = .error e := by
  cases hp : p r with
  | error e' =>
      rw [bind_of_error hp] at h
      exact Or.inl (congrArg _ (Except.error.inj h))
  | ok out =>
      rw [bind_of_ok hp] at h
      exact Or.inr ⟨out.1, out.2, rfl, h⟩

end Bind

/-! ## The outcomes -/

/-- `p` can return the values of `returns` and no others, and it can fail with
    `bad` exactly if `fails`. -/
structure Outcomes (tape : Src (List τ)) (bad : ε) (p : Drawing Src ε α) (returns : α → Prop)
    (fails : Prop) : Prop where
  returns_of : ∀ {ρ : Type} {src : Src ρ} {r r' : ρ} {a : α},
    p ρ src r = .ok (a, r') → returns a
  fails_of : ∀ {ρ : Type} {src : Src ρ} {r : ρ}, p ρ src r = .error bad → fails
  attains : ∀ {a : α}, returns a → ∃ t, ∀ t', p _ tape (t ++ t') = .ok (a, t')
  attains_bad : fails → ∃ t, ∀ t', p _ tape (t ++ t') = .error bad

/-- `p` can return a value exactly if `returns`, and it can fail with `bad`
    exactly if `fails`. -/
def May (tape : Src (List τ)) (bad : ε) (p : Drawing Src ε α) (returns fails : Prop) : Prop :=
  ∃ values, Outcomes tape bad p values fails ∧ ((∃ a, values a) ↔ returns)

variable {tape : Src (List τ)} {bad : ε}

namespace Outcomes

theorem pure (a : α) : Outcomes tape bad (fun _ _ => Pure.pure a) (· = a) False where
  returns_of h := by cases h; rfl
  fails_of h := by cases h
  attains h := ⟨[], fun _ => h ▸ rfl⟩
  attains_bad := False.elim

/-- **One after the other**: a value of `p` and then an outcome of `q` on it. -/
theorem bind {p : Drawing Src ε α} {q : α → Drawing Src ε β} {returns : α → Prop}
    {returns' : α → β → Prop} {fails : Prop} {fails' : α → Prop}
    (hp : Outcomes tape bad p returns fails)
    (hq : ∀ a, Outcomes tape bad (q a) (returns' a) (fails' a)) :
    Outcomes tape bad (fun ρ src => p ρ src >>= fun a => q a ρ src)
      (fun b => ∃ a, returns a ∧ returns' a b) (fails ∨ ∃ a, returns a ∧ fails' a) where
  returns_of h := by
    obtain ⟨a, r', ha, hb⟩ := bind_eq_ok h
    exact ⟨a, hp.returns_of ha, (hq a).returns_of hb⟩
  fails_of h := by
    rcases bind_eq_error h with h | ⟨a, r', ha, hbad⟩
    · exact Or.inl (hp.fails_of h)
    · exact Or.inr ⟨a, hp.returns_of ha, (hq a).fails_of hbad⟩
  attains := by
    rintro b ⟨a, ha, hb⟩
    obtain ⟨t, ht⟩ := hp.attains ha
    obtain ⟨u, hu⟩ := (hq a).attains hb
    refine ⟨t ++ u, fun t' => ?_⟩
    rw [List.append_assoc, bind_of_ok (ht (u ++ t')), hu]
  attains_bad := by
    rintro (h | ⟨a, ha, hbad⟩)
    · obtain ⟨t, ht⟩ := hp.attains_bad h
      exact ⟨t, fun t' => bind_of_error (ht t')⟩
    · obtain ⟨t, ht⟩ := hp.attains ha
      obtain ⟨u, hu⟩ := (hq a).attains_bad hbad
      refine ⟨t ++ u, fun t' => ?_⟩
      rw [List.append_assoc, bind_of_ok (ht (u ++ t')), hu]

theorem congr {p p' : Drawing Src ε α} {returns returns' : α → Prop} {fails fails' : Prop}
    (h : Outcomes tape bad p returns fails) (hp : ∀ ρ src r, p' ρ src r = p ρ src r)
    (hreturns : ∀ a, returns a ↔ returns' a) (hfails : fails ↔ fails') :
    Outcomes tape bad p' returns' fails' := by
  have heq : p' = p := by
    funext ρ src r
    exact hp ρ src r
  have hvalues : returns' = returns := by
    funext a
    exact (propext (hreturns a)).symm
  rw [heq, hvalues, ← propext hfails]
  exact h

theorem may {p : Drawing Src ε α} {returns : α → Prop} {fails : Prop}
    (hp : Outcomes tape bad p returns fails) : May tape bad p (∃ a, returns a) fails :=
  ⟨returns, hp, Iff.rfl⟩

end Outcomes

namespace May

variable {p p' : Drawing Src ε α} {returns returns' fails fails' : Prop}

/-- No run fails with `bad`. -/
theorem never_iff (h : May tape bad p returns fails) :
    (∀ (ρ : Type) (src : Src ρ) (r : ρ), p ρ src r ≠ .error bad) ↔ ¬ fails := by
  obtain ⟨values, hp, -⟩ := h
  constructor
  · intro hnever hfails
    obtain ⟨t, ht⟩ := hp.attains_bad hfails
    exact hnever _ tape (t ++ []) (ht [])
  · exact fun hnot ρ src r hbad => hnot (hp.fails_of hbad)

/-- Some run returns. -/
theorem returns_iff (h : May tape bad p returns fails) :
    (∃ (ρ : Type) (src : Src ρ) (r r' : ρ) (a : α), p ρ src r = .ok (a, r')) ↔ returns := by
  obtain ⟨values, hp, hreturns⟩ := h
  rw [← hreturns]
  constructor
  · rintro ⟨ρ, src, r, r', a, ha⟩
    exact ⟨a, hp.returns_of ha⟩
  · rintro ⟨a, ha⟩
    obtain ⟨t, ht⟩ := hp.attains ha
    exact ⟨_, tape, t ++ [], [], a, ht []⟩

theorem congr (h : May tape bad p returns fails) (hp : ∀ ρ src r, p' ρ src r = p ρ src r)
    (hreturns : returns ↔ returns') (hfails : fails ↔ fails') :
    May tape bad p' returns' fails' := by
  obtain ⟨values, h, hvalues⟩ := h
  exact ⟨values, h.congr hp (fun _ => Iff.rfl) hfails, hvalues.trans hreturns⟩

theorem pure (a : α) : May tape bad (fun _ _ => Pure.pure a) True False :=
  ⟨_, .pure a, iff_true_intro ⟨a, rfl⟩⟩

/-- A failure other than `bad`. -/
theorem error {e : ε} (he : e ≠ bad) :
    May tape bad (fun _ _ _ => (.error e : Except ε (α × _))) False False :=
  ⟨fun _ => False,
    { returns_of := nofun
      fails_of := fun h => he (Except.error.inj h)
      attains := False.elim
      attains_bad := False.elim },
    by simp⟩

theorem fail : May tape bad (fun _ _ _ => (.error bad : Except ε (α × _))) False True :=
  ⟨fun _ => False,
    { returns_of := nofun
      fails_of := fun _ => trivial
      attains := False.elim
      attains_bad := fun _ => ⟨[], fun _ => rfl⟩ },
    by simp⟩

/-- What follows may depend on the value. -/
theorem bind {q : α → Drawing Src ε β} {values : α → Prop} {next nextFails : α → Prop}
    (hp : Outcomes tape bad p values fails)
    (hq : ∀ a, May tape bad (q a) (next a) (nextFails a)) :
    May tape bad (fun ρ src => p ρ src >>= fun a => q a ρ src)
      (∃ a, values a ∧ next a) (fails ∨ ∃ a, values a ∧ nextFails a) := by
  choose returns' hreturns' hnext using hq
  refine ⟨_, hp.bind hreturns', ?_⟩
  constructor
  · rintro ⟨b, a, ha, hb⟩
    exact ⟨a, ha, (hnext a).mp ⟨b, hb⟩⟩
  · rintro ⟨a, ha, hreturns⟩
    obtain ⟨b, hb⟩ := (hnext a).mpr hreturns
    exact ⟨b, a, ha, hb⟩

/-- What follows has the same outcomes for every value. -/
theorem andThen {q : α → Drawing Src ε β} {next nextFails : Prop}
    (hp : May tape bad p returns fails) (hq : ∀ a, May tape bad (q a) next nextFails) :
    May tape bad (fun ρ src => p ρ src >>= fun a => q a ρ src)
      (returns ∧ next) (fails ∨ returns ∧ nextFails) := by
  obtain ⟨values, hp, hreturns⟩ := hp
  refine (bind hp hq).congr (fun _ _ _ => rfl) ?_ ?_
  · rw [← hreturns, exists_and_right]
  · rw [← hreturns, exists_and_right]

/-- A value that is only computed with. -/
theorem map (hp : May tape bad p returns fails) (f : α → β) :
    May tape bad (fun ρ src => p ρ src >>= fun a => Pure.pure (f a)) returns fails :=
  (hp.andThen fun a => pure (f a)).congr (fun _ _ _ => rfl) (by simp) (by simp)

/-- A failure under another name. -/
theorem mapError {f : ε → ε'} {bad' : ε'} (hf : ∀ e, f e = bad' ↔ e = bad)
    (hp : May tape bad p returns fails) :
    May tape bad' (fun ρ src r => (p ρ src r).mapError f) returns fails := by
  obtain ⟨values, hp, hreturns⟩ := hp
  refine ⟨values, ?_, hreturns⟩
  constructor
  · intro ρ src r r' a h
    cases hr : p ρ src r with
    | error e => rw [hr] at h; cases h
    | ok out =>
        rw [hr] at h
        cases h
        exact hp.returns_of hr
  · intro ρ src r h
    cases hr : p ρ src r with
    | error e =>
        rw [hr] at h
        rw [(hf e).mp (Except.error.inj h)] at hr
        exact hp.fails_of hr
    | ok out => rw [hr] at h; cases h
  · intro a ha
    obtain ⟨t, ht⟩ := hp.attains ha
    exact ⟨t, fun t' => by rw [ht]; rfl⟩
  · intro hfails
    obtain ⟨t, ht⟩ := hp.attains_bad hfails
    exact ⟨t, fun t' => by rw [ht]; exact congrArg _ ((hf bad).mpr rfl)⟩

end May

/-! ## Many computations -/

/-- An item may fail, and all items before it may return. -/
def Reaches (returns fails : ι → Prop) : List ι → Prop
  | [] => False
  | item :: items => fails item ∨ returns item ∧ Reaches returns fails items

instance Reaches.decidable (returns fails : ι → Prop) [DecidablePred returns]
    [DecidablePred fails] : ∀ items, Decidable (Reaches returns fails items)
  | [] => inferInstanceAs (Decidable False)
  | item :: items =>
      have := Reaches.decidable returns fails items
      inferInstanceAs (Decidable (fails item ∨ returns item ∧ Reaches returns fails items))

end Hfrd.Lib
