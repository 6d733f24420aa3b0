/-
  Hfrd.Go.Filepath

  Go's `path/filepath` on Unix: `Clean`, `Join` and `Dir`.

  The texts are byte strings, since the names in an archive need not be UTF-8.
  `Clean` is lexical: it takes the elements one after the other, drops `.`, and
  lets `..` take back the element before it.  A path is modelled by the stack of
  its elements, the last one on top, which is also how `FileTree` has it.
-/

import Hfrd.Lib.Split

namespace Hfrd.Go.Filepath

open Hfrd.Lib

/-- The bytes of an element of a path. -/
abbrev Element := List UInt8

/-- The elements of a path from the last one to the first. -/
abbrev FilePath := List Element

/-- `'/'`. -/
def separator : UInt8 := 47

/-- `"."`. -/
def dot : Element := [46]

/-- `".."`. -/
def dotDot : Element := [46, 46]

/-- The text of an absolute path. -/
def pathText (p : FilePath) : List UInt8 := separator :: [separator].intercalate p.reverse

/-- What `..` does to the elements in front of it. -/
def takeBack (rooted : Bool) : FilePath → FilePath
  | [] => if rooted then [] else [dotDot]
  -- only a path that is not rooted has `..` elements, at its start
  | top :: rest => if top = dotDot then dotDot :: top :: rest else rest

/-- An element of the text, after those on the stack. -/
def pushElement (rooted : Bool) (stack : FilePath) (e : Element) : FilePath :=
  if e = [] ∨ e = dot then stack
  else if e = dotDot then takeBack rooted stack
  else e :: stack

/-- The path starts at the root. -/
def isRooted (path : List UInt8) : Bool := path.head? == some separator

/-- `filepath.Clean` -/
def clean (path : List UInt8) : List UInt8 :=
  let stack := (split [separator] path).foldl (pushElement (isRooted path)) []
  if isRooted path then pathText stack
  else if stack = [] then dot
  else [separator].intercalate stack.reverse

/-- `Join`, which leaves the empty texts at the start out. -/
def join (elem : List (List UInt8)) : List UInt8 :=
  match elem.dropWhile (· = []) with
  | [] => []
  | elem => clean ([separator].intercalate elem)

/-- `Dir`: the text up to the last separator, cleaned. -/
def dir (path : List UInt8) : List UInt8 :=
  clean (path.reverse.dropWhile (· ≠ separator)).reverse

/-- The elements that a lookup of an absolute and clean path goes through. -/
def resolve (path : List UInt8) : FilePath :=
  ((split [separator] path).filter (· ≠ [])).reverse

/-! ## Proper paths -/

/-- An element that stands for itself. -/
def ProperElement (e : Element) : Prop := e ≠ [] ∧ e ≠ dot ∧ e ≠ dotDot ∧ separator ∉ e

instance (e : Element) : Decidable (ProperElement e) := inferInstanceAs (Decidable (_ ∧ _))

/-- Every element of the path can be the name of a file. -/
def Proper (p : FilePath) : Prop := ∀ e ∈ p, ProperElement e

theorem Proper.tail {e : Element} {p : FilePath} (h : Proper (e :: p)) : Proper p :=
  fun f hf => h f (List.mem_cons_of_mem e hf)

theorem Proper.head {e : Element} {p : FilePath} (h : Proper (e :: p)) : ProperElement e :=
  h e List.mem_cons_self

theorem Proper.no_separator {p : FilePath} (h : Proper p) : ∀ e ∈ p.reverse, separator ∉ e :=
  fun e he => (h e (List.mem_reverse.mp he)).2.2.2

theorem pushElement_of_proper {rooted : Bool} {e : Element} (h : ProperElement e)
    (stack : FilePath) : pushElement rooted stack e = e :: stack := by
  obtain ⟨hne, hdot, hdotDot, -⟩ := h
  rw [pushElement, if_neg (not_or.mpr ⟨hne, hdot⟩), if_neg hdotDot]

theorem pushElement_nil (rooted : Bool) (stack : FilePath) :
    pushElement rooted stack [] = stack := if_pos (.inl rfl)

/-- On a rooted path `..` never piles up. -/
theorem Proper.pushElement {stack : FilePath} (h : Proper stack) {e : Element}
    (he : separator ∉ e) : Proper (pushElement true stack e) := by
  rw [Filepath.pushElement]
  split
  · exact h
  · next hplain =>
      obtain ⟨hne, hdot⟩ := not_or.mp hplain
      split
      · cases stack with
        | nil => exact h
        | cons top rest =>
            rw [takeBack, if_neg h.head.2.2.1]
            exact h.tail
      · next hdotDot =>
          intro f hf
          rcases List.mem_cons.mp hf with rfl | hf
          · exact ⟨hne, hdot, hdotDot, he⟩
          · exact h f hf

theorem Proper.foldl {stack : FilePath} (h : Proper stack) {es : List Element}
    (hes : ∀ e ∈ es, separator ∉ e) : Proper (es.foldl (Filepath.pushElement true) stack) := by
  induction es generalizing stack with
  | nil => exact h
  | cons e es ih =>
      refine ih (h.pushElement (hes e List.mem_cons_self)) ?_
      exact fun f hf => hes f (List.mem_cons_of_mem e hf)

/-- Proper elements are all kept. -/
theorem foldl_proper {p : FilePath} (h : Proper p) :
    p.reverse.foldl (pushElement true) [] = p := by
  induction p with
  | nil => rfl
  | cons e p ih =>
      rw [List.reverse_cons, List.foldl_append, ih h.tail]
      exact pushElement_of_proper h.head p

/-! ## Texts of proper paths -/

/-- The stack of a rooted text. -/
def stackOf (path : List UInt8) : FilePath :=
  (split [separator] path).foldl (pushElement true) []

theorem proper_nil : Proper [] := fun _ h => absurd h List.not_mem_nil

theorem proper_stackOf (path : List UInt8) : Proper (stackOf path) :=
  proper_nil.foldl fun _ he => not_mem_of_mem_split he

theorem clean_of_rooted {path : List UInt8} (h : isRooted path = true) :
    clean path = pathText (stackOf path) := by
  simp only [clean, h, if_true]
  rfl

theorem isRooted_pathText_append (p : FilePath) (t : List UInt8) :
    isRooted (pathText p ++ t) = true := by
  simp [isRooted, pathText]

theorem split_pathText {p : FilePath} (h : Proper p) (hne : p ≠ []) :
    split [separator] (pathText p) = [] :: p.reverse := by
  rw [pathText, split_cons_eq, if_pos rfl, split_intercalate (by simpa using hne) h.no_separator]

theorem stackOf_pathText {p : FilePath} (h : Proper p) : stackOf (pathText p) = p := by
  by_cases hne : p = []
  · rw [hne]
    decide
  · rw [stackOf, split_pathText h hne, List.foldl_cons, pushElement_nil]
    exact foldl_proper h

theorem filter_proper {p : FilePath} (h : Proper p) :
    p.reverse.filter (· ≠ []) = p.reverse := by
  rw [List.filter_eq_self]
  intro e he
  exact decide_eq_true (h e (List.mem_reverse.mp he)).1

theorem pathText_cons (e : Element) (p : FilePath) :
    pathText (e :: p) = (if p = [] then [] else pathText p) ++ separator :: e := by
  by_cases hne : p = []
  · rw [if_pos hne, hne]
    simp [pathText]
  · rw [if_neg hne, pathText, pathText, List.reverse_cons,
      intercalate_snoc [separator] (by simpa using hne)]
    rfl

/-- A lookup of the text of a path goes through its elements. -/
theorem resolve_pathText {p : FilePath} (h : Proper p) : resolve (pathText p) = p := by
  by_cases hne : p = []
  · rw [hne]
    decide
  · rw [resolve, split_pathText h hne, List.filter_cons_of_neg (by simp), filter_proper h,
      List.reverse_reverse]

theorem resolve_pathText_append {p : FilePath} (h : Proper p) (hne : p ≠ []) (t : List UInt8) :
    resolve (pathText p ++ separator :: t) = resolve t ++ p := by
  rw [resolve, split_append, split_pathText h hne, List.cons_append,
    List.filter_cons_of_neg (by simp), List.filter_append, filter_proper h,
    List.reverse_append, List.reverse_reverse, resolve]

/-! ## `Dir` and `Join` -/

/-- `Dir` takes the last element off. -/
theorem dir_pathText {p : FilePath} (h : Proper p) : dir (pathText p) = pathText p.tail := by
  cases p with
  | nil => decide
  | cons e p =>
      have htail : Proper p := h.tail
      have hall : ∀ b ∈ e.reverse, decide (b ≠ separator) = true := by
        intro b hb
        refine decide_eq_true ?_
        rintro rfl
        exact h.head.2.2.2 (List.mem_reverse.mp hb)
      -- the text up to the last separator
      have hcut : ((pathText (e :: p)).reverse.dropWhile (· ≠ separator)).reverse
          = (if p = [] then [] else pathText p) ++ [separator] := by
        rw [pathText_cons, List.reverse_append, List.reverse_cons, List.append_assoc,
          List.dropWhile_append_of_pos hall, List.singleton_append,
          List.dropWhile_cons_of_neg (by simp), List.reverse_cons, List.reverse_reverse]
      rw [dir, hcut, List.tail_cons]
      by_cases hne : p = []
      · rw [hne]
        decide
      · rw [if_neg hne, clean_of_rooted (isRooted_pathText_append p _), stackOf, split_append,
          List.foldl_append]
        exact congrArg pathText (stackOf_pathText htail)

/-- Where a name leads to from a directory. -/
def below (p : FilePath) (name : List UInt8) : FilePath :=
  (split [separator] name).foldl (pushElement true) p

theorem Proper.below {p : FilePath} (h : Proper p) (name : List UInt8) :
    Proper (below p name) :=
  h.foldl fun _ he => not_mem_of_mem_split he

/-- `Join` goes on from the elements of an absolute path. -/
theorem join_pathText {p : FilePath} (h : Proper p) (name : List UInt8) :
    join [pathText p, name] = pathText (below p name) := by
  have hkept : [pathText p, name].dropWhile (· = []) = [pathText p, name] :=
    List.dropWhile_cons_of_neg (by simp [pathText])
  simp only [join, hkept]
  rw [List.intercalate_cons_cons, List.intercalate_singleton, List.append_assoc,
    List.singleton_append, clean_of_rooted (isRooted_pathText_append p _), stackOf,
    split_append, List.foldl_append]
  exact congrArg (fun stack => pathText ((split [separator] name).foldl _ stack))
    (stackOf_pathText h)

/-! ## Inside a directory -/

/-- An absolute path that `Clean` leaves as it is, other than the root. -/
structure AbsoluteClean (path : List UInt8) : Prop where
  rooted : isRooted path = true
  clean : clean path = path
  ne_root : path ≠ [separator]

/-- The path is `dest`, or starts with `dest` and a separator. -/
def Inside (dest path : List UInt8) : Prop := path = dest ∨ dest ++ [separator] <+: path

instance (dest path : List UInt8) : Decidable (Inside dest path) :=
  inferInstanceAs (Decidable (_ ∨ _))

theorem AbsoluteClean.exists_path {path : List UInt8} (h : AbsoluteClean path) :
    ∃ p, Proper p ∧ p ≠ [] ∧ path = pathText p := by
  have htext : path = pathText (stackOf path) := by
    rw [← clean_of_rooted h.rooted, h.clean]
  refine ⟨stackOf path, proper_stackOf path, fun hnil => h.ne_root ?_, htext⟩
  rw [htext, hnil]
  decide

theorem pathText_append {p : FilePath} (hne : p ≠ []) {r : FilePath} (hr : r ≠ []) :
    pathText p ++ [separator] <+: pathText (r ++ p) := by
  induction r with
  | nil => exact absurd rfl hr
  | cons e r ih =>
      rw [List.cons_append, pathText_cons, if_neg (by simp [hne])]
      by_cases hnil : r = []
      · rw [hnil]
        exact (List.prefix_append_right_inj (pathText p)).mpr ⟨e, rfl⟩
      · exact (ih hnil).trans (List.prefix_append _ _)

/-- Inside a directory lie the paths that go on from its elements. -/
theorem inside_pathText_iff {d p : FilePath} (hd : Proper d) (hne : d ≠ []) (hp : Proper p) :
    Inside (pathText d) (pathText p) ↔ d <:+ p := by
  constructor
  · rintro (heq | ⟨t, ht⟩)
    · rw [← resolve_pathText hp, heq, resolve_pathText hd]
    · rw [← resolve_pathText hp, ← ht, List.append_assoc, List.singleton_append,
        resolve_pathText_append hd hne]
      exact List.suffix_append _ _
  · rintro ⟨r, rfl⟩
    by_cases hr : r = []
    · rw [hr]
      exact .inl rfl
    · exact .inr (pathText_append hne hr)

end Hfrd.Go.Filepath
