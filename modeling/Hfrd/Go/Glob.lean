/-
  Hfrd.Go.Glob

  `Match` and `Glob` of Go's `path/filepath`, after their documentation.

  A pattern is read into terms (`parsePattern`; none where it is malformed),
  which are matched against a whole name (`matchTerms`).  `glob` goes down a
  directory tree, one pattern for each element of the path, and visits the
  names of a directory in their order.
-/

import Hfrd.Go.Map
import Mathlib.Data.String.Basic

namespace Hfrd.Go

/-! ## Patterns -/

/-- A term of a pattern. -/
inductive Term
  /-- `*` -/
  | star
  /-- `?` -/
  | question
  | literal (c : Char)
  /-- `[ranges]`, or `[^ranges]` where it is negated. -/
  | charClass (negated : Bool) (ranges : List (Char × Char))

/-- The end of a range: a character, which may be escaped. -/
def classChar : List Char → Option (Char × List Char)
  | [] => none
  | ['\\'] => none
  | '\\' :: c :: rest => some (c, rest)
  | c :: rest => if c = '-' ∨ c = ']' then none else some (c, rest)

/-- `c` or `lo-hi` -/
def classRange (s : List Char) : Option ((Char × Char) × List Char) :=
  match classChar s with
  | none => none
  | some (lo, '-' :: rest) => (classChar rest).map fun r => ((lo, r.1), r.2)
  | some (lo, rest) => some ((lo, lo), rest)

/-- The ranges up to the closing bracket, of which there is at least one; the
    number bounds how many. -/
def classRanges : Nat → List Char → Option (List (Char × Char) × List Char)
  | 0, _ => none
  | n + 1, s =>
      match classRange s with
      | none => none
      | some (range, ']' :: rest) => some ([range], rest)
      | some (range, rest) => (classRanges n rest).map fun r => (range :: r.1, r.2)

/-- What follows an opening bracket. -/
def charClassTerm (n : Nat) : List Char → Option (Term × List Char)
  | '^' :: rest => (classRanges n rest).map fun r => (.charClass true r.1, r.2)
  | rest => (classRanges n rest).map fun r => (.charClass false r.1, r.2)

/-- The terms of a pattern that has at most `n` of them. -/
def parseTerms : Nat → List Char → Option (List Term)
  | _, [] => some []
  | 0, _ :: _ => none
  | n + 1, c :: rest =>
      if c = '*' then (parseTerms n rest).map (.star :: ·)
      else if c = '?' then (parseTerms n rest).map (.question :: ·)
      else if c = '\\' then
        match rest with
        | [] => none
        | d :: rest => (parseTerms n rest).map (.literal d :: ·)
      else if c = '[' then
        match charClassTerm n rest with
        | none => none
        | some (term, rest) => (parseTerms n rest).map (term :: ·)
      else (parseTerms n rest).map (.literal c :: ·)

/-- The terms of a pattern; `none` is `ErrBadPattern`. -/
def parsePattern (pattern : String) : Option (List Term) :=
  parseTerms pattern.length pattern.toList

/-! ## Match -/

/-- A term that stands for one character. -/
def Term.accepts : Term → Char → Bool
  | .star, _ => false
  | .question, c => c != '/'
  | .literal d, c => c == d
  | .charClass negated ranges, c =>
      (ranges.any fun r => decide (r.1 ≤ c) && decide (c ≤ r.2)) != negated

/-- Some characters but the separator, then what `rest` matches. -/
def matchStar (rest : List Char → Bool) : List Char → Bool
  | [] => rest []
  | c :: s => rest (c :: s) || (c != '/' && matchStar rest s)

/-- The terms match the whole name. -/
def matchTerms : List Term → List Char → Bool
  | [], s => s.isEmpty
  | .star :: terms, s => matchStar (matchTerms terms) s
  | _ :: _, [] => false
  | term :: terms, c :: s => term.accepts c && matchTerms terms s

/-- A character with a meaning in patterns. -/
def isMeta (c : Char) : Bool := c == '*' || c == '?' || c == '[' || c == '\\'

theorem parseTerms_of_plain {s : List Char} (h : ∀ c ∈ s, isMeta c = false) {n : Nat}
    (hn : s.length ≤ n) : parseTerms n s = some (s.map .literal) := by
  induction s generalizing n with
  | nil => cases n <;> rfl
  | cons c s ih =>
      cases n with
      | zero => cases hn
      | succ n =>
          obtain ⟨hc, hs⟩ := List.forall_mem_cons.mp h
          simp only [isMeta, Bool.or_eq_false_iff, beq_eq_false_iff_ne] at hc
          obtain ⟨⟨⟨hstar, hquestion⟩, hbracket⟩, hbackslash⟩ := hc
          have hrest := ih hs (Nat.le_of_succ_le_succ hn)
          simp [parseTerms, hstar, hquestion, hbackslash, hbracket, hrest]

theorem matchTerms_literal (s t : List Char) :
    matchTerms (s.map .literal) t = true ↔ t = s := by
  induction s generalizing t with
  | nil => exact List.isEmpty_iff
  | cons c s ih =>
      cases t with
      | nil => simp [matchTerms]
      | cons d t => simp [matchTerms, Term.accepts, ih]

/-! ## Directory trees -/

/-- A file or a directory, with the time it was last modified. -/
inductive Node where
  | file (modTime : String) (data : String)
  | dir (modTime : String) (entries : List (String × Node))

namespace Node

/-- `os.FileInfo.ModTime` -/
def modTime : Node → String
  | .file modTime _ => modTime
  | .dir modTime _ => modTime

/-- The node at a path. -/
def find : Node → List String → Option Node
  | node, [] => some node
  | .dir _ entries, name :: path =>
      match entries.lookup name with
      | some node => node.find path
      | none => none
  | .file _ _, _ :: _ => none

/-- `ioutil.ReadFile`, without the text of its error. -/
def readFile (root : Node) (path : List String) : Option String :=
  match root.find path with
  | some (.file _ data) => some data
  | _ => none

end Node

/-- A name that a directory can have an entry for. -/
structure ProperName (name : String) : Prop where
  nonempty : name ≠ ""
  separator : '/' ∉ name.toList
  dot : name ≠ "."
  dotDot : name ≠ ".."

/-- The entries of a directory and of those below it are in the order of their
    names. -/
inductive Node.WellFormed : Node → Prop
  | file (modTime data : String) : WellFormed (.file modTime data)
  | dir {modTime : String} {entries : List (String × Node)}
      (hsorted : (entries.map Prod.fst).Pairwise (· < ·))
      (hproper : ∀ e ∈ entries, ProperName e.1) (h : ∀ e ∈ entries, WellFormed e.2) :
      WellFormed (.dir modTime entries)

/-- The paths below a node that match, element by element. -/
def globIn : List (List Term) → Node → List (List String)
  | [], _ => [[]]
  | _ :: _, .file _ _ => []
  | terms :: rest, .dir _ entries =>
      (entries.filter fun e => matchTerms terms e.1.toList).flatMap fun e =>
        (globIn rest e.2).map (e.1 :: ·)

/-- `filepath.Glob` with the elements of a pattern below `root`. -/
def glob (root : Node) (pattern : List String) : Option (List (List String)) :=
  (pattern.mapM parsePattern).map (globIn · root)

/-! ## Entries -/

section Entries

variable {entries : List (String × Node)} (hsorted : (entries.map Prod.fst).Pairwise (· < ·))

include hsorted

theorem lookup_of_mem_entries {e : String × Node} (he : e ∈ entries) :
    entries.lookup e.1 = some e.2 :=
  Map.lookup_of_mem (hsorted.imp ne_of_lt) he

/-- A filter that lets through one name finds its entry, if there is one. -/
theorem filter_entries {p : String × Node → Bool} {name : String}
    (hp : ∀ e ∈ entries, p e = true ↔ e.1 = name) :
    entries.filter p = (entries.lookup name).toList.map (Prod.mk name) := by
  induction entries with
  | nil => rfl
  | cons e entries ih =>
      obtain ⟨hfirst, hrest⟩ := List.pairwise_cons.mp hsorted
      obtain ⟨hpe, hpentries⟩ := List.forall_mem_cons.mp hp
      by_cases heq : e.1 = name
      · -- the names after it are greater
        have hnone : entries.filter p = [] := by
          rw [List.filter_eq_nil_iff]
          intro f hf hpf
          have hlt := hfirst f.1 (List.mem_map_of_mem hf)
          rw [(hpentries f hf).mp hpf, ← heq] at hlt
          exact lt_irrefl _ hlt
        rw [List.filter_cons_of_pos (hpe.mpr heq), hnone, ← heq,
          List.lookup_cons_self (k := e.1) (b := e.2)]
        rfl
      · rw [List.filter_cons_of_neg (mt hpe.mp heq), ih hrest hpentries, List.lookup_cons,
          beq_false_of_ne (Ne.symm heq)]

end Entries

/-- What matches is there. -/
theorem find_of_mem_globIn {patterns : List (List Term)} {root : Node} {path : List String}
    (hroot : root.WellFormed) (h : path ∈ globIn patterns root) :
    path.length = patterns.length ∧ (root.find path).isSome := by
  induction patterns generalizing root path with
  | nil =>
      rw [globIn, List.mem_singleton] at h
      subst h
      cases root <;> exact ⟨rfl, rfl⟩
  | cons terms rest ih =>
      cases hroot with
      | file modTime data => cases h
      | @dir modTime entries hsorted hproper hentries =>
          rw [globIn, List.mem_flatMap] at h
          obtain ⟨e, he, h⟩ := h
          obtain ⟨below, hbelow, rfl⟩ := List.mem_map.mp h
          have hmem := (List.mem_filter.mp he).1
          obtain ⟨hlength, hfind⟩ := ih (hentries e hmem) hbelow
          refine ⟨by rw [List.length_cons, List.length_cons, hlength], ?_⟩
          rw [Node.find, lookup_of_mem_entries hsorted hmem]
          exact hfind

end Hfrd.Go
