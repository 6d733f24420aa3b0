/-
  Hfrd.Go.JsonNulls

  Values with null members left out, some or all of them, at any depth: what a
  reader gets that takes a member with `null` for one that is not there.
-/

import Hfrd.Go.JsonRewrite

namespace Hfrd.Go

/-- The members of a map with null ones left out; `R` relates what is kept. -/
inductive LessMembers (R : Value → Value → Prop) : Fields → Fields → Prop
  | nil : LessMembers R [] []
  | drop {key : String} {v : Value} {fields fields' : Fields} (hnull : v.isNull = true)
      (h : LessMembers R fields fields') : LessMembers R ((key, v) :: fields) fields'
  | keep {key : String} {v v' : Value} {fields fields' : Fields} (hv : R v v')
      (h : LessMembers R fields fields') :
      LessMembers R ((key, v) :: fields) ((key, v') :: fields')

/-- A value with null members left out. -/
inductive LessNulls : Value → Value → Prop
  | scalar (s : Scalar) : LessNulls (.scalar s) (.scalar s)
  | array {elements elements' : List Value} (h : List.Forall₂ LessNulls elements elements') :
      LessNulls (.array elements) (.array elements')
  | object {fields fields' : Fields} (h : LessMembers LessNulls fields fields') :
      LessNulls (.object fields) (.object fields')
  | other {json v : Value} (h : LessNulls json v) : LessNulls (.other json) v

theorem LessNulls.isNull {v v' : Value} (h : LessNulls v v') : v'.isNull = v.isNull := by
  induction v using Value.induction with
  | scalar s => cases h with | scalar => rfl
  | array elements _ => cases h with | array => rfl
  | object fields _ => cases h with | object => rfl
  | other json ih => cases h with | other h => exact ih h

theorem LessMembers.filter {R : Value → Value → Prop} {fields fields' : Fields}
    (h : LessMembers R fields fields') (p : String → Bool) :
    LessMembers R (fields.filter fun f => p f.1) (fields'.filter fun f => p f.1) := by
  induction h with
  | nil => exact .nil
  | @drop key v fields fields' hnull h ih =>
      rw [List.filter_cons]
      split
      · exact .drop hnull ih
      · exact ih
  | @keep key v v' fields fields' hv h ih =>
      rw [List.filter_cons, List.filter_cons]
      split
      · exact .keep hv ih
      · exact ih

theorem LessMembers.keys_subset {R : Value → Value → Prop} {fields fields' : Fields}
    (h : LessMembers R fields fields') {key : String} (hkey : fields.lookup key = none) :
    fields'.lookup key = none := by
  induction h with
  | nil => rfl
  | drop _ _ ih =>
      rw [lookup_cons_eq] at hkey
      split at hkey
      · cases hkey
      · exact ih hkey
  | keep _ _ ih =>
      rw [lookup_cons_eq] at hkey ⊢
      split
      · next heq => rw [if_pos heq] at hkey; cases hkey
      · next hne =>
          rw [if_neg hne] at hkey
          exact ih hkey

/-- A member is kept, or it is a null one. -/
theorem LessMembers.lookup {R : Value → Value → Prop} {fields fields' : Fields}
    (h : LessMembers R fields fields') (hkeys : SortedKeys fields) {key : String} {v : Value}
    (hv : fields.lookup key = some v) :
    (∃ v', fields'.lookup key = some v' ∧ R v v') ∨
      (v.isNull = true ∧ fields'.lookup key = none) := by
  induction h with
  | nil => cases hv
  | @drop key' v' fields fields' hnull h ih =>
      obtain ⟨hhead, htail⟩ := List.pairwise_cons.mp hkeys
      rw [lookup_cons_eq] at hv
      split at hv
      · next heq =>
          obtain rfl := Option.some.inj hv
          refine .inr ⟨hnull, h.keys_subset ?_⟩
          -- keys are sorted, so the key does not come again
          rw [heq, List.lookup_eq_none_iff]
          intro f hf
          have hlt := hhead f.1 (List.mem_map_of_mem hf)
          exact bne_iff_ne.mpr (ne_of_lt hlt)
      · exact ih htail hv
  | @keep key' v' v'' fields fields' hR h ih =>
      obtain ⟨-, htail⟩ := List.pairwise_cons.mp hkeys
      rw [lookup_cons_eq] at hv ⊢
      split
      · next heq =>
          rw [if_pos heq, Option.some.injEq] at hv
          exact .inl ⟨v'', rfl, hv ▸ hR⟩
      · next hne =>
          rw [if_neg hne] at hv
          exact ih htail hv

/-- Where nothing is null, nothing is left out. -/
theorem LessMembers.forall₂ {R : Value → Value → Prop} {fields fields' : Fields}
    (h : LessMembers R fields fields') (hnull : ∀ f ∈ fields, f.2.isNull = false) :
    List.Forall₂ (fun f f' => f.1 = f'.1 ∧ R f.2 f'.2) fields fields' := by
  induction h with
  | nil => exact .nil
  | drop hv _ _ =>
      rw [hnull _ List.mem_cons_self] at hv
      cases hv
  | keep hv _ ih =>
      exact .cons ⟨rfl, hv⟩ (ih fun f hf => hnull f (List.mem_cons_of_mem _ hf))

theorem LessMembers.trans {R : Value → Value → Prop} {fields fields' fields'' : Fields}
    (h : LessMembers R fields fields') (h' : LessMembers R fields' fields'')
    (hnull : ∀ v v', R v v' → v'.isNull = v.isNull)
    (hR : ∀ f ∈ fields, ∀ v v', R f.2 v → R v v' → R f.2 v') :
    LessMembers R fields fields'' := by
  induction h generalizing fields'' with
  | nil => exact h'
  | drop hv _ ih => exact .drop hv (ih h' fun f hf => hR f (List.mem_cons_of_mem _ hf))
  | keep hv _ ih =>
      have hrest := fun f hf => hR f (List.mem_cons_of_mem _ hf)
      cases h' with
      | drop hv' h' => exact .drop ((hnull _ _ hv).symm.trans hv') (ih h' hrest)
      | keep hv' h' => exact .keep (hR _ List.mem_cons_self _ _ hv hv') (ih h' hrest)

/-- More can be left out. -/
theorem LessNulls.trans {u v w : Value} (h : LessNulls u v) (h' : LessNulls v w) :
    LessNulls u w := by
  induction u using Value.induction generalizing v w with
  | scalar s =>
      cases h
      exact h'
  | array elements ih =>
      cases h with
      | array h =>
          cases h' with
          | @array _ elements' h' =>
              refine .array ?_
              -- element by element
              induction h generalizing elements' with
              | nil => exact h'
              | cons hv _ ih' =>
                  cases h' with
                  | cons hv' h' =>
                      exact .cons (ih _ List.mem_cons_self hv hv')
                        (ih' (fun u hu => ih u (List.mem_cons_of_mem _ hu)) h')
  | object fields ih =>
      cases h with
      | object h =>
          cases h' with
          | object h' =>
              exact .object (h.trans h' (fun _ _ hv => hv.isNull) fun f hf _ _ => ih f hf)
  | other json ih =>
      cases h with
      | other h => exact .other (ih h h')

namespace Value

/-- Nothing has to be left out. -/
theorem lessNulls_decoded (v : Value) : LessNulls v v.decoded := by
  induction v using Value.induction with
  | scalar s => exact .scalar s
  | array elements ih =>
      rw [decoded, decodedElements_eq]
      refine .array ?_
      rw [List.forall₂_map_right_iff, List.forall₂_same]
      exact ih
  | object fields ih =>
      refine .object ?_
      induction fields with
      | nil => exact .nil
      | cons f fields ih' =>
          obtain ⟨key, v⟩ := f
          rw [decodedFields]
          exact .keep (ih _ List.mem_cons_self) (ih' fun f hf => ih f (List.mem_cons_of_mem _ hf))
  | other json ih => exact .other ih

theorem lessNulls_withoutNulls (names : List String) (v : Value) :
    LessNulls v (v.withoutNulls names) := by
  induction v using Value.induction with
  | scalar s => exact .scalar s
  | array elements ih =>
      rw [withoutNulls, withoutNullsElements_eq]
      refine .array ?_
      rw [List.forall₂_map_right_iff, List.forall₂_same]
      exact ih
  | object fields ih =>
      refine .object ?_
      induction fields with
      | nil => exact .nil
      | cons f fields ih' =>
          obtain ⟨key, v⟩ := f
          have hrest := ih' fun f hf => ih f (List.mem_cons_of_mem _ hf)
          rw [withoutNullsFields]
          split
          · next hnull =>
              simp only [Bool.and_eq_true] at hnull
              exact .drop hnull.1.1 hrest
          · exact .keep (ih _ List.mem_cons_self) hrest
  | other json ih => exact .other ih

end Value

end Hfrd.Go
