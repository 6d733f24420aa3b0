/-
  Hfrd.Lib.Split

  Splitting a list at every occurrence of a separator, and putting a list
  into the order of several filtering passes.

  `split sep s` cuts at the leftmost occurrences of `sep`, which do not
  overlap, and gives the pieces between them; it is never empty.  A list of
  pieces, each followed by the separator, splits back into the pieces and one
  empty piece at the end, as long as no piece holds the first element of the
  separator.

  `passes order f` runs through a list once for each class of `order` and
  takes the elements of that class: a stable sort by the class.
-/

import Mathlib.Data.List.Infix
import Mathlib.Order.Defs.PartialOrder

namespace Hfrd.Lib

variable {α : Type} [DecidableEq α]

/-! ## Splitting -/

/-- Put `c` in front of the first piece. -/
def consHead (c : α) : List (List α) → List (List α)
  | [] => [[c]]
  | piece :: pieces => (c :: piece) :: pieces

/-- Split what is left after `skip` elements of a separator. -/
def splitAux (sep : List α) : Nat → List α → List (List α)
  | _, [] => [[]]
  -- inside a separator that has been matched
  | skip + 1, _ :: cs => splitAux sep skip cs
  | 0, c :: cs =>
      if sep <+: c :: cs then [] :: splitAux sep (sep.length - 1) cs
      else consHead c (splitAux sep 0 cs)

/-- The pieces between the occurrences of a separator. -/
def split (sep s : List α) : List (List α) := splitAux sep 0 s

theorem splitAux_append (sep a s : List α) : splitAux sep a.length (a ++ s) = split sep s := by
  induction a with
  | nil => rfl
  | cons c a ih => exact ih

/-- A separator at the head ends an empty piece. -/
theorem split_sep (c : α) (sep s : List α) :
    split (c :: sep) (c :: sep ++ s) = [] :: split (c :: sep) s := by
  have hprefix : c :: sep <+: c :: (sep ++ s) := List.prefix_append (c :: sep) s
  simp only [split, List.cons_append, splitAux]
  rw [if_pos hprefix]
  exact congrArg ([] :: ·) (splitAux_append (c :: sep) sep s)

theorem split_cons_skip {sep : List α} {c : α} {cs : List α}
    (h : ¬ sep <+: c :: cs) : split sep (c :: cs) = consHead c (split sep cs) := by
  simp only [split, splitAux]
  rw [if_neg h]

/-- A piece without the first element of the separator ends at the separator. -/
theorem split_piece {c : α} {piece : List α} (h : c ∉ piece) (sep s : List α) :
    split (c :: sep) (piece ++ (c :: sep ++ s)) = piece :: split (c :: sep) s := by
  induction piece with
  | nil => exact split_sep c sep s
  | cons d piece ih =>
      have hd : ¬ c = d := fun heq => h (heq ▸ List.mem_cons_self)
      have htail : c ∉ piece := fun hmem => h (List.mem_cons_of_mem d hmem)
      have hno : ¬ c :: sep <+: d :: (piece ++ (c :: sep ++ s)) :=
        fun hp => hd (List.cons_prefix_cons.mp hp).1
      rw [List.cons_append, split_cons_skip hno, ih htail]
      rfl

/-- Without a separator there is one piece. -/
theorem split_of_not_infix {sep s : List α} (h : ¬ sep <:+: s) : split sep s = [s] := by
  induction s with
  | nil => rfl
  | cons c s ih =>
      have hprefix : ¬ sep <+: c :: s := fun hp => h hp.isInfix
      have htail : ¬ sep <:+: s := fun hi => h (List.infix_cons hi)
      rw [split_cons_skip hprefix, ih htail]
      rfl

/-- Pieces that are each followed by the separator. -/
theorem split_flatMap {c : α} {pieces : List (List α)} (h : ∀ piece ∈ pieces, c ∉ piece)
    (sep : List α) :
    split (c :: sep) (pieces.flatMap (· ++ c :: sep)) = pieces ++ [[]] := by
  induction pieces with
  | nil => rfl
  | cons piece pieces ih =>
      have hrest := ih fun p hp => h p (List.mem_cons_of_mem piece hp)
      rw [List.flatMap_cons, List.append_assoc,
        split_piece (h piece List.mem_cons_self), hrest]
      rfl

/-- A piece that ends at a run of `c`: no run inside it, and no `c` at its end
    that would begin the run earlier. -/
theorem split_run_piece {c : α} {n : Nat} {piece : List α}
    (hoccurs : ¬ List.replicate (n + 1) c <:+: piece) (hlast : piece.getLast? ≠ some c)
    (s : List α) :
    split (List.replicate (n + 1) c) (piece ++ (List.replicate (n + 1) c ++ s))
      = piece :: split (List.replicate (n + 1) c) s := by
  induction piece with
  | nil => exact split_sep c (List.replicate n c) s
  | cons d piece ih =>
      have hno : ¬ List.replicate (n + 1) c
          <+: d :: (piece ++ (List.replicate (n + 1) c ++ s)) := by
        intro hp
        have hpiece : d :: piece <+: d :: (piece ++ (List.replicate (n + 1) c ++ s)) :=
          List.prefix_append (d :: piece) _
        -- the run lies in the piece, or the piece is the beginning of the run
        rcases List.prefix_or_prefix_of_prefix hp hpiece with h | h
        · exact hoccurs h.isInfix
        · refine hlast ?_
          rw [List.getLast?_eq_some_getLast (List.cons_ne_nil d piece)]
          exact congrArg some (List.eq_of_mem_replicate (h.subset (List.getLast_mem _)))
      have htail : ¬ List.replicate (n + 1) c <:+: piece := fun h => hoccurs (List.infix_cons h)
      have hlast' : piece.getLast? ≠ some c := by
        cases piece with
        | nil => exact nofun
        | cons e piece => rwa [List.getLast?_cons_cons] at hlast
      rw [List.cons_append, split_cons_skip hno, ih htail hlast']
      rfl

/-- A list is a single piece, or it is cut at its first separator. -/
theorem split_cases (c : α) (sep s : List α) :
    (split (c :: sep) s = [s] ∧ ¬ c :: sep <:+: s) ∨
      ∃ piece rest, s = piece ++ (c :: sep ++ rest) ∧
        split (c :: sep) s = piece :: split (c :: sep) rest := by
  induction s with
  | nil => exact Or.inl ⟨rfl, by simp⟩
  | cons d s ih =>
      by_cases hprefix : c :: sep <+: d :: s
      · obtain ⟨rest, hrest⟩ := hprefix
        rw [← hrest]
        exact Or.inr ⟨[], rest, rfl, split_sep c sep rest⟩
      · rw [split_cons_skip hprefix]
        rcases ih with ⟨hsplit, hnone⟩ | ⟨piece, rest, rfl, hsplit⟩
        · refine Or.inl ⟨by rw [hsplit]; rfl, fun hoccurs => ?_⟩
          exact (List.infix_cons_iff.mp hoccurs).elim hprefix hnone
        · exact Or.inr ⟨d :: piece, rest, rfl, by rw [hsplit]; rfl⟩

theorem split_ne_nil (c : α) (sep s : List α) : split (c :: sep) s ≠ [] := by
  rcases split_cases c sep s with ⟨hsplit, -⟩ | ⟨piece, rest, -, hsplit⟩
  · rw [hsplit]
    exact List.cons_ne_nil _ _
  · rw [hsplit]
    exact List.cons_ne_nil _ _

/-- The first piece ends at a separator or before it. -/
theorem split_head_le (c : α) (sep s t : List α) :
    ∃ piece rest, split (c :: sep) (s ++ (c :: sep ++ t)) = piece :: split (c :: sep) rest ∧
      piece.length ≤ s.length := by
  induction s with
  | nil => exact ⟨[], t, split_sep c sep t, Nat.le_refl 0⟩
  | cons d s ih =>
      by_cases hprefix : c :: sep <+: d :: (s ++ (c :: sep ++ t))
      · obtain ⟨rest, hrest⟩ := hprefix
        refine ⟨[], rest, ?_, Nat.zero_le _⟩
        rw [List.cons_append, ← hrest]
        exact split_sep c sep rest
      · obtain ⟨piece, rest, hsplit, hlen⟩ := ih
        refine ⟨d :: piece, rest, ?_, Nat.succ_le_succ hlen⟩
        rw [List.cons_append, split_cons_skip hprefix, hsplit]
        rfl

/-- Putting the separators back between the pieces. -/
theorem intercalate_split (c : α) (sep s : List α) :
    (c :: sep).intercalate (split (c :: sep) s) = s := by
  induction hn : s.length using Nat.strongRecOn generalizing s with
  | ind n ih =>
      rcases split_cases c sep s with ⟨hsplit, -⟩ | ⟨piece, rest, hs, hsplit⟩
      · rw [hsplit, List.intercalate_singleton]
      · have hlt : rest.length < n := by
          rw [← hn, hs]
          simp only [List.length_append, List.length_cons]
          omega
        rw [hsplit, List.intercalate_cons_of_ne_nil (split_ne_nil c sep rest),
          ih rest.length hlt rest rfl, List.append_assoc, ← hs]

/-! ## A piece put behind the first -/

theorem intercalate_insert {c : α} {sep s first : List α} {pieces : List (List α)}
    (h : split (c :: sep) s = first :: pieces) (hne : pieces ≠ []) (piece : List α) :
    ∃ rest, split (c :: sep) rest = pieces ∧
      (c :: sep).intercalate (first :: piece :: pieces) =
        first ++ (c :: sep ++ (piece ++ (c :: sep ++ rest))) := by
  rcases split_cases c sep s with ⟨hsplit, -⟩ | ⟨head, rest, -, hsplit⟩
  · rw [hsplit] at h
    exact absurd (List.cons_eq_cons.mp h).2.symm hne
  · rw [hsplit] at h
    obtain ⟨rfl, hpieces⟩ := List.cons_eq_cons.mp h
    refine ⟨rest, hpieces, ?_⟩
    rw [List.intercalate_cons_cons, List.intercalate_cons_of_ne_nil hne, ← hpieces,
      intercalate_split, List.append_assoc, List.append_assoc]

section Run

variable {c : α} {n : Nat} {s first : List α} {pieces : List (List α)}
  (h : split (List.replicate (n + 1) c) s = first :: pieces) (hfirst : c ∉ first)
  (hne : pieces ≠ [])
include h hfirst hne

/-- The piece is found again where it has no run, and does not end in the
    element of the run. -/
theorem split_insert {piece : List α} (hoccurs : ¬ List.replicate (n + 1) c <:+: piece)
    (hlast : piece.getLast? ≠ some c) :
    split (List.replicate (n + 1) c)
        ((List.replicate (n + 1) c).intercalate (first :: piece :: pieces)) =
      first :: piece :: pieces := by
  obtain ⟨rest, hpieces, hjoin⟩ := intercalate_insert h hne piece
  rw [List.replicate_succ, hjoin, split_piece hfirst, ← List.replicate_succ,
    split_run_piece hoccurs hlast, List.replicate_succ, hpieces]

/-- Any other piece is cut too early. -/
theorem split_insert_short {piece : List α}
    (hpiece : List.replicate (n + 1) c <:+: piece ∨ piece.getLast? = some c) :
    ∃ short pieces', split (List.replicate (n + 1) c)
        ((List.replicate (n + 1) c).intercalate (first :: piece :: pieces)) =
      first :: short :: pieces' ∧ short.length < piece.length := by
  obtain ⟨rest, -, hjoin⟩ := intercalate_insert h hne piece
  rw [List.replicate_succ, hjoin, split_piece hfirst]
  rcases hpiece with ⟨before, after, rfl⟩ | hlast
  · obtain ⟨short, rest', hsplit, hlen⟩ := split_head_le c (List.replicate n c) before
      (after ++ (List.replicate (n + 1) c ++ rest))
    refine ⟨short, split (c :: List.replicate n c) rest', ?_, ?_⟩
    -- the separator in the piece is found first
    · have hassoc :
          before ++ List.replicate (n + 1) c ++ after ++ (c :: List.replicate n c ++ rest) =
            before ++
              (c :: List.replicate n c ++ (after ++ (List.replicate (n + 1) c ++ rest))) := by
        simp [List.replicate_succ, List.append_assoc]
      rw [hassoc, hsplit]
    · simp only [List.length_append, List.length_replicate]
      omega
  · obtain ⟨before, rfl⟩ := List.getLast?_eq_some_iff.mp hlast
    obtain ⟨short, rest', hsplit, hlen⟩ := split_head_le c (List.replicate n c) before
      (c :: rest)
    refine ⟨short, split (c :: List.replicate n c) rest', ?_, ?_⟩
    -- the last `c` of the piece is taken for the first of the separator
    · have hshift : before ++ [c] ++ (c :: List.replicate n c ++ rest)
          = before ++ (c :: List.replicate n c ++ (c :: rest)) := by
        have hrun : List.replicate n c ++ c :: rest = c :: (List.replicate n c ++ rest) := by
          rw [List.append_cons, ← List.replicate_succ', List.replicate_succ, List.cons_append]
        simp [List.append_assoc, hrun]
      rw [hshift, hsplit]
    · simp only [List.length_append, List.length_singleton]
      omega

end Run

/-! ## A separator of one element -/

theorem split_cons_eq (c d : α) (s : List α) :
    split [c] (d :: s) = if d = c then [] :: split [c] s else consHead d (split [c] s) := by
  by_cases h : d = c
  · rw [if_pos h, h]
    exact split_sep c [] s
  · have hno : ¬ [c] <+: d :: s := fun hp => h (List.cons_prefix_cons.mp hp).1.symm
    rw [if_neg h, split_cons_skip hno]

omit [DecidableEq α] in
theorem intercalate_snoc (sep : List α) {pieces : List (List α)} (hne : pieces ≠ [])
    (piece : List α) :
    sep.intercalate (pieces ++ [piece]) = sep.intercalate pieces ++ (sep ++ piece) := by
  induction pieces with
  | nil => exact absurd rfl hne
  | cons first pieces ih =>
      cases pieces with
      | nil =>
          rw [List.intercalate_singleton, List.singleton_append, List.intercalate_cons_cons,
            List.intercalate_singleton, List.append_assoc]
      | cons second pieces =>
          have hrest := ih (List.cons_ne_nil second pieces)
          rw [List.cons_append] at hrest
          rw [List.cons_append, List.cons_append, List.intercalate_cons_cons, hrest,
            List.intercalate_cons_cons, List.append_assoc (first ++ sep)]

/-- A separator anywhere cuts the list in two. -/
theorem split_append (c : α) (s t : List α) :
    split [c] (s ++ c :: t) = split [c] s ++ split [c] t := by
  induction s with
  | nil => exact split_sep c [] t
  | cons d s ih =>
      rw [List.cons_append, split_cons_eq, split_cons_eq, ih]
      by_cases h : d = c
      · rw [if_pos h, if_pos h, List.cons_append]
      · rw [if_neg h, if_neg h]
        cases hs : split [c] s with
        | nil => exact absurd hs (split_ne_nil c [] s)
        | cons piece pieces => rfl

/-- No piece holds the separator. -/
theorem not_mem_of_mem_split {c : α} {s piece : List α} (h : piece ∈ split [c] s) :
    c ∉ piece := by
  induction s generalizing piece with
  | nil => simp [split, splitAux] at h; simp [h]
  | cons d s ih =>
      rw [split_cons_eq] at h
      split at h
      · rcases List.mem_cons.mp h with rfl | h
        · exact List.not_mem_nil
        · exact ih h
      · next hne =>
          cases hs : split [c] s with
          | nil => exact absurd hs (split_ne_nil c [] s)
          | cons first pieces =>
              rw [hs] at h ih
              rcases List.mem_cons.mp h with rfl | h
              · have hfirst := ih List.mem_cons_self
                exact fun hmem => (List.mem_cons.mp hmem).elim (fun heq => hne heq.symm) hfirst
              · exact ih (List.mem_cons_of_mem first h)

/-- The pieces hold nothing but elements of the list. -/
theorem mem_of_mem_split {c x : α} {s piece : List α} (h : piece ∈ split [c] s)
    (hx : x ∈ piece) : x ∈ s := by
  induction s generalizing piece with
  | nil =>
      simp only [split, splitAux, List.mem_singleton] at h
      exact h ▸ hx
  | cons d s ih =>
      rw [split_cons_eq] at h
      split at h
      · rcases List.mem_cons.mp h with rfl | h
        · exact absurd hx List.not_mem_nil
        · exact List.mem_cons_of_mem d (ih h hx)
      · cases hs : split [c] s with
        | nil => exact absurd hs (split_ne_nil c [] s)
        | cons first pieces =>
            rw [hs] at h ih
            rcases List.mem_cons.mp h with rfl | h
            · rcases List.mem_cons.mp hx with rfl | hx
              · exact List.mem_cons_self
              · exact List.mem_cons_of_mem d (ih List.mem_cons_self hx)
            · exact List.mem_cons_of_mem d (ih (List.mem_cons_of_mem first h) hx)

/-- Pieces without the separator are found again between the separators. -/
theorem split_intercalate {c : α} {pieces : List (List α)} (hne : pieces ≠ [])
    (h : ∀ piece ∈ pieces, c ∉ piece) : split [c] ([c].intercalate pieces) = pieces := by
  induction pieces with
  | nil => exact absurd rfl hne
  | cons piece pieces ih =>
      have hpiece := h piece List.mem_cons_self
      cases pieces with
      | nil =>
          rw [List.intercalate_singleton]
          exact split_of_not_infix fun hoccurs => hpiece (hoccurs.subset List.mem_cons_self)
      | cons piece' pieces =>
          have hrest := ih (List.cons_ne_nil _ _) fun p hp => h p (List.mem_cons_of_mem piece hp)
          rw [List.intercalate_cons_cons, List.append_assoc, split_piece hpiece, hrest]

/-- The pieces are the only way to cut a list at the separator. -/
theorem split_eq_iff {c : α} {s : List α} {pieces : List (List α)} (hne : pieces ≠ []) :
    split [c] s = pieces ↔ s = [c].intercalate pieces ∧ ∀ piece ∈ pieces, c ∉ piece := by
  constructor
  · rintro rfl
    exact ⟨(intercalate_split c [] s).symm, fun piece hpiece => not_mem_of_mem_split hpiece⟩
  · rintro ⟨rfl, h⟩
    exact split_intercalate hne h

/-! ## Passes -/

section Passes

variable {β κ : Type} [DecidableEq κ]

/-- One pass over `l` for each class of `order`. -/
def passes (order : List κ) (f : β → κ) (l : List β) : List β :=
  order.flatMap fun i => l.filter (f · == i)

theorem passes_cons (i : κ) (order : List κ) (f : β → κ) (l : List β) :
    passes (i :: order) f l = l.filter (f · == i) ++ passes order f l :=
  List.flatMap_cons

/-- The later passes take nothing of the class of the first. -/
theorem passes_filter_ne {i : κ} {order : List κ} (hi : i ∉ order) (f : β → κ) (l : List β) :
    passes order f (l.filter fun b => !(f b == i)) = passes order f l := by
  apply List.flatMap_congr
  intro j hj
  have hne : j ≠ i := fun h => hi (h ▸ hj)
  rw [List.filter_filter]
  apply List.filter_congr
  intro b _
  by_cases hb : f b = j
  · simp [hb, hne]
  · simp [hb]

/-- Every element is taken by one pass. -/
theorem passes_perm {order : List κ} (hnodup : order.Nodup) (f : β → κ) {l : List β}
    (hall : ∀ b ∈ l, f b ∈ order) : (passes order f l).Perm l := by
  induction order generalizing l with
  | nil =>
      cases l with
      | nil => exact .refl _
      | cons b l => exact absurd (hall b List.mem_cons_self) List.not_mem_nil
  | cons i order ih =>
      obtain ⟨hi, hnodup⟩ := List.nodup_cons.mp hnodup
      have hrest : ∀ b ∈ l.filter (fun b => !(f b == i)), f b ∈ order := by
        intro b hb
        obtain ⟨hb, hne⟩ := List.mem_filter.mp hb
        exact (List.mem_cons.mp (hall b hb)).resolve_left (by simpa using hne)
      rw [passes_cons, ← passes_filter_ne hi]
      exact ((ih hnodup hrest).append_left _).trans (List.filter_append_perm _ l)

variable [Preorder κ]

/-- The classes do not fall along the result of the passes. -/
theorem passes_pairwise {order : List κ} (horder : order.Pairwise (· < ·)) (f : β → κ)
    (l : List β) : (passes order f l).Pairwise fun a b => f a ≤ f b := by
  have hclass : ∀ {i b}, b ∈ l.filter (f · == i) → f b = i :=
    fun hb => beq_iff_eq.mp (List.mem_filter.mp hb).2
  refine List.pairwise_flatMap.mpr ⟨fun i _ => ?_, horder.imp fun hlt a ha b hb => ?_⟩
  · refine List.Pairwise.imp_of_mem ?_ (List.pairwise_of_forall fun _ _ => trivial)
    intro a b ha hb _
    exact le_of_eq ((hclass ha).trans (hclass hb).symm)
  · rw [hclass ha, hclass hb]
    exact le_of_lt hlt

/-- A list whose smallest class stands first is its first pass and the rest. -/
theorem filter_append_filter_ne {i : κ} {f : β → κ} {l : List β}
    (hmin : ∀ b ∈ l, f b ≠ i → i < f b) (hl : l.Pairwise fun a b => f a ≤ f b) :
    l.filter (f · == i) ++ l.filter (fun b => !(f b == i)) = l := by
  induction l with
  | nil => rfl
  | cons a l ih =>
      obtain ⟨hhead, htail⟩ := List.pairwise_cons.mp hl
      by_cases ha : f a = i
      · have hrest := ih (fun b hb => hmin b (List.mem_cons_of_mem a hb)) htail
        simp only [List.filter_cons, ha, beq_self_eq_true, if_true, Bool.not_true,
          Bool.false_eq_true, if_false, List.cons_append, hrest]
      · -- no element of class `i` stands behind one of a greater class
        have hlt := hmin a List.mem_cons_self ha
        have hne : ∀ b ∈ a :: l, f b ≠ i := by
          rintro b hb rfl
          rcases List.mem_cons.mp hb with rfl | hb
          · exact ha rfl
          · exact lt_irrefl _ (lt_of_lt_of_le hlt (hhead b hb))
        have hnone : (a :: l).filter (f · == i) = [] :=
          List.filter_eq_nil_iff.mpr fun b hb hbi => hne b hb (beq_iff_eq.mp hbi)
        have hall : (a :: l).filter (fun b => !(f b == i)) = a :: l :=
          List.filter_eq_self.mpr fun b hb => by simp [hne b hb]
        rw [hnone, hall, List.nil_append]

/-- **The passes keep a list in order exactly when its classes do not fall.** -/
theorem passes_eq_iff {order : List κ} (horder : order.Pairwise (· < ·)) {f : β → κ}
    {l : List β} (hall : ∀ b ∈ l, f b ∈ order) :
    passes order f l = l ↔ l.Pairwise fun a b => f a ≤ f b := by
  constructor
  · intro h
    rw [← h]
    exact passes_pairwise horder f l
  · intro h
    induction order generalizing l with
    | nil =>
        cases l with
        | nil => rfl
        | cons b l => exact absurd (hall b List.mem_cons_self) List.not_mem_nil
    | cons i order ih =>
        obtain ⟨hi, horder⟩ := List.pairwise_cons.mp horder
        have hnot : i ∉ order := fun hmem => lt_irrefl i (hi i hmem)
        have hmin : ∀ b ∈ l, f b ≠ i → i < f b :=
          fun b hb hne => hi _ ((List.mem_cons.mp (hall b hb)).resolve_left hne)
        have hrest : ∀ b ∈ l.filter (fun b => !(f b == i)), f b ∈ order := by
          intro b hb
          obtain ⟨hb, hne⟩ := List.mem_filter.mp hb
          exact (List.mem_cons.mp (hall b hb)).resolve_left (by simpa using hne)
        rw [passes_cons, ← passes_filter_ne hnot, ih horder hrest (h.filter _)]
        exact filter_append_filter_ne hmin h

end Passes

end Hfrd.Lib
