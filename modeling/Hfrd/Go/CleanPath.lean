/-
  Hfrd.Go.CleanPath

  The texts that `Clean` gives, relative ones included.

  A stack of elements and whether the path is rooted make up such a text.  A
  relative path may start with `..` elements, which lie at the bottom of its
  stack; `Join` pushes and `Dir` pops an element in either case.
-/

import Hfrd.Go.Filepath

namespace Hfrd.Go.Filepath

open Hfrd.Lib

/-- The elements in the order of the text. -/
def relText (p : FilePath) : List UInt8 := [separator].intercalate p.reverse

/-- The text of a path. -/
def textOf (rooted : Bool) (stack : FilePath) : List UInt8 :=
  if rooted then pathText stack else if stack = [] then dot else relText stack

/-- The stack of a text. -/
def stackFrom (rooted : Bool) (path : List UInt8) : FilePath :=
  (split [separator] path).foldl (pushElement rooted) []

theorem clean_eq (path : List UInt8) :
    clean path = textOf (isRooted path) (stackFrom (isRooted path) path) := rfl

/-- What is before the last elements of a path. -/
def leading (rooted : Bool) (stack : FilePath) : List UInt8 :=
  if stack = [] then (if rooted then [separator] else []) else textOf rooted stack ++ [separator]

theorem intercalate_append {α : Type} (x : α) {a b : List (List α)} (ha : a ≠ []) (hb : b ≠ []) :
    [x].intercalate (a ++ b) = [x].intercalate a ++ x :: [x].intercalate b := by
  induction a with
  | nil => exact absurd rfl ha
  | cons first a ih =>
      cases a with
      | nil =>
          rw [List.singleton_append, List.intercalate_cons_of_ne_nil hb,
            List.intercalate_singleton, List.append_assoc, List.singleton_append]
      | cons second a =>
          have hrest := ih (List.cons_ne_nil second a)
          rw [List.cons_append] at hrest
          rw [List.cons_append, List.cons_append, List.intercalate_cons_cons, hrest,
            List.intercalate_cons_cons, List.append_assoc, List.append_assoc, List.append_assoc]

theorem relText_singleton (e : Element) : relText [e] = e := List.intercalate_singleton

theorem relText_append {p q : FilePath} (hp : p ≠ []) (hq : q ≠ []) :
    relText (q ++ p) = relText p ++ separator :: relText q := by
  rw [relText, List.reverse_append]
  exact intercalate_append separator (by simpa using hp) (by simpa using hq)

theorem textOf_append (rooted : Bool) (s : FilePath) {q : FilePath} (hq : q ≠ []) :
    textOf rooted (q ++ s) = leading rooted s ++ relText q := by
  have hne : q ++ s ≠ [] := List.append_ne_nil_of_left_ne_nil hq s
  by_cases hs : s = []
  · rw [hs, List.append_nil, leading, if_pos rfl]
    cases rooted with
    | true => rfl
    | false => exact if_neg hq
  · rw [leading, if_neg hs, List.append_assoc, List.singleton_append]
    cases rooted with
    | true => exact congrArg (separator :: ·) (relText_append hs hq)
    | false =>
        rw [textOf, textOf, if_neg Bool.false_ne_true, if_neg hne, if_neg Bool.false_ne_true,
          if_neg hs]
        exact relText_append hs hq

/-! ## The stacks of clean paths -/

/-- Proper elements above `..` elements, and only the former on a rooted path. -/
def Kept (rooted : Bool) (stack : FilePath) : Prop :=
  ∃ p n, stack = p ++ List.replicate n dotDot ∧ Proper p ∧ (rooted = true → n = 0)

theorem kept_nil (rooted : Bool) : Kept rooted [] := ⟨[], 0, rfl, proper_nil, fun _ => rfl⟩

theorem Proper.kept {p : FilePath} (h : Proper p) (rooted : Bool) : Kept rooted p :=
  ⟨p, 0, by simp, h, fun _ => rfl⟩

theorem Kept.proper {stack : FilePath} (h : Kept true stack) : Proper stack := by
  obtain ⟨p, n, rfl, hp, hn⟩ := h
  rw [hn rfl, List.replicate_zero, List.append_nil]
  exact hp

theorem Kept.append {rooted : Bool} {stack : FilePath} (h : Kept rooted stack) {q : FilePath}
    (hq : Proper q) : Kept rooted (q ++ stack) := by
  obtain ⟨p, n, rfl, hp, hn⟩ := h
  refine ⟨q ++ p, n, by rw [List.append_assoc], fun e he => ?_, hn⟩
  exact (List.mem_append.mp he).elim (hq e) (hp e)

/-- A `..` goes on top, or takes a proper element off. -/
theorem takeBack_cases {rooted : Bool} {stack : FilePath} (h : Kept rooted stack) :
    (stack = [] ∧ rooted = true ∧ takeBack rooted stack = []) ∨
      (∃ e rest, stack = e :: rest ∧ ProperElement e ∧ Kept rooted rest ∧
        takeBack rooted stack = rest) ∨
      (rooted = false ∧ (∃ n, stack = List.replicate n dotDot) ∧
        takeBack rooted stack = dotDot :: stack) := by
  obtain ⟨p, n, rfl, hp, hn⟩ := h
  cases p with
  | cons e p =>
      refine Or.inr (Or.inl ⟨e, _, rfl, hp.head, ⟨p, n, rfl, hp.tail, hn⟩, ?_⟩)
      rw [List.cons_append, takeBack, if_neg hp.head.2.2.1]
      rfl
  | nil =>
      cases n with
      | zero =>
          cases rooted with
          | true => exact Or.inl ⟨rfl, rfl, rfl⟩
          | false => exact Or.inr (Or.inr ⟨rfl, ⟨0, rfl⟩, rfl⟩)
      | succ n =>
          cases rooted with
          | true => cases hn rfl
          | false =>
              refine Or.inr (Or.inr ⟨rfl, ⟨n + 1, rfl⟩, ?_⟩)
              rw [List.nil_append, List.replicate_succ, takeBack, if_pos rfl]

theorem Kept.pushElement {rooted : Bool} {stack : FilePath} (h : Kept rooted stack) {e : Element}
    (he : separator ∉ e) : Kept rooted (pushElement rooted stack e) := by
  rw [Filepath.pushElement]
  split
  · exact h
  · next hplain =>
      obtain ⟨hne, hdot⟩ := not_or.mp hplain
      split
      · rcases takeBack_cases h with ⟨-, -, hback⟩ | ⟨e', rest, -, -, hrest, hback⟩ |
          ⟨rfl, ⟨n, rfl⟩, hback⟩
        · rw [hback]
          exact kept_nil rooted
        · rw [hback]
          exact hrest
        · rw [hback]
          exact ⟨[], n + 1, rfl, proper_nil, fun h => absurd h Bool.false_ne_true⟩
      · next hdotDot =>
          have hproper : Proper [e] := fun f hf => by
            obtain rfl := List.mem_singleton.mp hf
            exact ⟨hne, hdot, hdotDot, he⟩
          exact h.append hproper

theorem kept_foldl {rooted : Bool} {stack : FilePath} (h : Kept rooted stack) {es : List Element}
    (hes : ∀ e ∈ es, separator ∉ e) : Kept rooted (es.foldl (pushElement rooted) stack) := by
  induction es generalizing stack with
  | nil => exact h
  | cons e es ih =>
      exact ih (h.pushElement (hes e List.mem_cons_self)) fun f hf =>
        hes f (List.mem_cons_of_mem e hf)

theorem kept_stackFrom (rooted : Bool) (path : List UInt8) :
    Kept rooted (stackFrom rooted path) :=
  kept_foldl (kept_nil rooted) fun _ he => not_mem_of_mem_split he

/-! ## Reading a text back -/

theorem no_separator_of_kept {rooted : Bool} {stack : FilePath} (h : Kept rooted stack) :
    ∀ e ∈ stack, e ≠ [] ∧ e ≠ dot ∧ separator ∉ e := by
  obtain ⟨p, n, rfl, hp, -⟩ := h
  intro e he
  rcases List.mem_append.mp he with he | he
  · obtain ⟨hne, hdot, -, hsep⟩ := hp e he
    exact ⟨hne, hdot, hsep⟩
  · rw [List.eq_of_mem_replicate he]
    decide

theorem split_relText {p : FilePath} (hne : p ≠ []) (h : ∀ e ∈ p, separator ∉ e) :
    split [separator] (relText p) = p.reverse :=
  split_intercalate (by simpa using hne) fun e he => h e (List.mem_reverse.mp he)

theorem foldl_proper_append (rooted : Bool) {q : FilePath} (hq : Proper q) (s : FilePath) :
    q.reverse.foldl (pushElement rooted) s = q ++ s := by
  induction q with
  | nil => rfl
  | cons e q ih =>
      rw [List.reverse_cons, List.foldl_append, ih hq.tail]
      exact pushElement_of_proper hq.head _

theorem foldl_kept {stack : FilePath} (h : Kept false stack) :
    stack.reverse.foldl (pushElement false) [] = stack := by
  obtain ⟨p, n, rfl, hp, -⟩ := h
  have hups : (List.replicate n dotDot).foldl (pushElement false) [] =
      List.replicate n dotDot := by
    induction n with
    | zero => rfl
    | succ n ih =>
        rw [List.replicate_succ', List.foldl_append, ih, List.foldl_cons, List.foldl_nil,
          ← List.replicate_succ']
        cases n with
        | zero => rfl
        | succ n => rfl
  rw [List.reverse_append, List.foldl_append, List.reverse_replicate, hups]
  exact foldl_proper_append false hp _

theorem textOf_ne_nil {rooted : Bool} {stack : FilePath} (h : Kept rooted stack) :
    ∃ b text, textOf rooted stack = b :: text ∧ (b = separator ↔ rooted = true) := by
  cases rooted with
  | true => exact ⟨separator, _, rfl, by simp⟩
  | false =>
      by_cases hs : stack = []
      · exact ⟨46, [], by rw [hs]; rfl, by decide⟩
      · obtain ⟨first, rest, hrev⟩ := List.exists_cons_of_ne_nil
          (List.reverse_eq_nil_iff.not.mpr hs)
        have hmem : first ∈ stack := List.mem_reverse.mp (hrev ▸ List.mem_cons_self)
        obtain ⟨hne, -, hsep⟩ := no_separator_of_kept h first hmem
        obtain ⟨b, text, rfl⟩ := List.exists_cons_of_ne_nil hne
        have hb : b ≠ separator := fun heq => hsep (heq ▸ List.mem_cons_self)
        refine ⟨b, (textOf false stack).tail, ?_, by simpa using hb⟩
        rw [textOf, if_neg Bool.false_ne_true, if_neg hs, relText, hrev]
        cases rest with
        | nil => simp
        | cons second rest => simp [List.intercalate_cons_cons]

theorem isRooted_textOf_append {rooted : Bool} {stack : FilePath} (h : Kept rooted stack)
    (t : List UInt8) : isRooted (textOf rooted stack ++ t) = rooted := by
  obtain ⟨b, text, htext, hb⟩ := textOf_ne_nil h
  rw [htext, isRooted, List.cons_append, List.head?_cons]
  cases rooted with
  | true => simp [hb.mpr rfl]
  | false => simpa using hb

/-- The elements of a text lead to its stack. -/
theorem stackFrom_textOf {rooted : Bool} {stack : FilePath} (h : Kept rooted stack) :
    stackFrom rooted (textOf rooted stack) = stack := by
  cases rooted with
  | true => exact stackOf_pathText h.proper
  | false =>
      by_cases hs : stack = []
      · rw [hs]
        decide
      · rw [stackFrom, textOf, if_neg Bool.false_ne_true, if_neg hs, split_relText hs
          fun e he => (no_separator_of_kept h e he).2.2]
        exact foldl_kept h

/-! ## `Join` and `Dir` -/

/-- `Join` goes on from the stack of its first text. -/
theorem join_eq (path : List UInt8) {t : List UInt8} (ht : t ≠ []) (hrooted : isRooted t = false) :
    join [path, t] = textOf (isRooted path)
      ((split [separator] t).foldl (pushElement (isRooted path))
        (stackFrom (isRooted path) path)) := by
  by_cases hpath : path = []
  · subst hpath
    have hkept : [[], t].dropWhile (· = []) = [t] := by
      rw [List.dropWhile_cons_of_pos (by simp), List.dropWhile_cons_of_neg (by simpa using ht)]
    simp only [join, hkept, List.intercalate_singleton, clean_eq, hrooted]
    rfl
  · have hkept : [path, t].dropWhile (· = []) = [path, t] :=
      List.dropWhile_cons_of_neg (by simpa using hpath)
    have hjoined : isRooted (path ++ separator :: t) = isRooted path := by
      obtain ⟨b, rest, rfl⟩ := List.exists_cons_of_ne_nil hpath
      rfl
    simp only [join, hkept]
    rw [List.intercalate_cons_cons, List.intercalate_singleton, List.append_assoc,
      List.singleton_append, clean_eq, hjoined, stackFrom, split_append, List.foldl_append]
    rfl

theorem isRooted_relText {q : FilePath} (hq : Proper q) (hne : q ≠ []) :
    relText q ≠ [] ∧ isRooted (relText q) = false := by
  have htext : textOf false q = relText q := by
    rw [textOf, if_neg Bool.false_ne_true, if_neg hne]
  obtain ⟨b, text, heq, -⟩ := textOf_ne_nil (hq.kept false)
  have hrooted := isRooted_textOf_append (hq.kept false) []
  rw [List.append_nil, htext] at hrooted
  exact ⟨by rw [← htext, heq]; exact List.cons_ne_nil b text, hrooted⟩

theorem join_relText (path : List UInt8) {q : FilePath} (hq : Proper q) (hne : q ≠ []) :
    join [path, relText q] = textOf (isRooted path) (q ++ stackFrom (isRooted path) path) := by
  obtain ⟨hnil, hrooted⟩ := isRooted_relText hq hne
  rw [join_eq path hnil hrooted, split_relText hne fun e he => (hq e he).2.2.2,
    foldl_proper_append _ hq]

/-- `Join` of a clean path and a name. -/
theorem join_textOf {rooted : Bool} {stack : FilePath} (h : Kept rooted stack) {e : Element}
    (he : ProperElement e) : join [textOf rooted stack, e] = textOf rooted (e :: stack) := by
  have hq : Proper [e] := fun f hf => List.mem_singleton.mp hf ▸ he
  have hroot := isRooted_textOf_append h []
  rw [List.append_nil] at hroot
  have hjoin := join_relText (textOf rooted stack) hq (List.cons_ne_nil e [])
  rw [hroot, stackFrom_textOf h] at hjoin
  rwa [relText_singleton] at hjoin

/-- `Dir` takes the last element off. -/
theorem dir_textOf {rooted : Bool} {stack : FilePath} (h : Kept rooted stack) {e : Element}
    (he : ProperElement e) : dir (textOf rooted (e :: stack)) = textOf rooted stack := by
  have hall : ∀ b ∈ e.reverse, decide (b ≠ separator) = true := fun b hb =>
    decide_eq_true fun heq => he.2.2.2 (heq ▸ List.mem_reverse.mp hb)
  have htext : textOf rooted (e :: stack) = leading rooted stack ++ e := by
    have happend := textOf_append rooted stack (List.cons_ne_nil e [])
    rwa [relText_singleton] at happend
  rw [dir, htext, List.reverse_append, List.dropWhile_append_of_pos hall, leading]
  by_cases hs : stack = []
  · rw [if_pos hs, hs]
    cases rooted <;> decide
  · rw [if_neg hs, List.reverse_append, List.reverse_singleton, List.singleton_append,
      List.dropWhile_cons_of_neg (by simp), List.reverse_cons, List.reverse_reverse, clean_eq,
      isRooted_textOf_append h, stackFrom, split_append, List.foldl_append]
    exact congrArg (textOf rooted) (stackFrom_textOf h)

/-! ## Looking a path up -/

/-- Where a path leads to from a working directory, in a tree without symbolic
    links. -/
def lookup (cwd : FilePath) (path : List UInt8) : FilePath :=
  if isRooted path then stackOf path else below cwd path

theorem proper_lookup {cwd : FilePath} (h : Proper cwd) (path : List UInt8) :
    Proper (lookup cwd path) := by
  rw [lookup]
  split
  · exact proper_stackOf path
  · exact h.below path

end Hfrd.Go.Filepath
