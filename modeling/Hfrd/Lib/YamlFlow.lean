/-
  Hfrd.Lib.YamlFlow

  A YAML flow sequence of double-quoted scalars on one line.

  `flow` reads it in one pass; a mode says where in the sequence it is, and
  `Reads` what one character can do there.  Every character of an item takes at
  least one of the text, an escape more than one (`Reads.fits`), so a text that
  is no longer than its items need has neither escapes nor blanks
  (`Reads.plain_of_tight`).
-/

import Mathlib.Algebra.Ring.Nat
import Mathlib.Data.List.Basic

namespace Hfrd.Lib.YamlFlow

/-! ## Characters -/

/-- A printable character that is no line break. -/
def isPrintable (c : Char) : Bool :=
  c == '\t' || (0x20 ≤ c.toNat && c.toNat ≤ 0x7E) ||
    (0xA0 ≤ c.toNat && c.toNat ≤ 0xFFFD && c.toNat ≠ 0x2028 && c.toNat ≠ 0x2029 &&
      c.toNat ≠ 0xFEFF) ||
    0x10000 ≤ c.toNat

/-- A blank or a tab. -/
def isBlank (c : Char) : Bool := c == ' ' || c == '\t'

/-- The value of a hexadecimal digit. -/
def hexDigit? (c : Char) : Option Nat :=
  if '0' ≤ c ∧ c ≤ '9' then some (c.toNat - '0'.toNat)
  else if 'a' ≤ c ∧ c ≤ 'f' then some (c.toNat - 'a'.toNat + 10)
  else if 'A' ≤ c ∧ c ≤ 'F' then some (c.toNat - 'A'.toNat + 10)
  else none

/-- What a backslash and a character stand for: another character, or the
    number of hexadecimal digits that follow. -/
inductive Escape
  | char (c : Char)
  | code (digits : Nat)

/-- `\x`, `\u` and `\U` take 2, 4 and 8 digits: one, and as many more. -/
def escape? (c : Char) : Option Escape :=
  match c with
  | '0' => some (.char (Char.ofNat 0))
  | 'a' => some (.char (Char.ofNat 7))
  | 'b' => some (.char (Char.ofNat 8))
  | 't' | '\t' => some (.char '\t')
  | 'n' => some (.char '\n')
  | 'v' => some (.char (Char.ofNat 11))
  | 'f' => some (.char (Char.ofNat 12))
  | 'r' => some (.char '\r')
  | 'e' => some (.char (Char.ofNat 27))
  | ' ' => some (.char ' ')
  | '"' => some (.char '"')
  | '/' => some (.char '/')
  | '\\' => some (.char '\\')
  | 'N' => some (.char (Char.ofNat 0x85))
  | '_' => some (.char (Char.ofNat 0xA0))
  | 'L' => some (.char (Char.ofNat 0x2028))
  | 'P' => some (.char (Char.ofNat 0x2029))
  | 'x' => some (.code 1)
  | 'u' => some (.code 3)
  | 'U' => some (.code 7)
  | _ => none

/-! ## Reading -/

/-- Where the reader stands in a flow sequence. -/
inductive Mode
  /-- Before an item or the end. -/
  | items
  /-- In an item. -/
  | inside
  /-- In an item, behind a backslash. -/
  | escape
  /-- In an item, before a hexadecimal digit and `left` more. -/
  | code (left value : Nat)
  /-- Behind an item. -/
  | after

/-- Put a character in front of the first item. -/
def consChar (c : Char) : List (List Char) → List (List Char)
  | [] => []
  | item :: items => (c :: item) :: items

/-- Read the sequence behind its opening bracket. -/
def flow : Mode → List Char → Option (List (List Char))
  | _, [] => none
  | .items, c :: cs =>
      if c = '"' then flow .inside cs
      else if c = ']' then if cs.all isBlank then some [] else none
      else if isBlank c then flow .items cs
      else none
  | .inside, c :: cs =>
      if c = '"' then (flow .after cs).map ([] :: ·)
      else if c = '\\' then flow .escape cs
      else if isPrintable c then (flow .inside cs).map (consChar c)
      else none
  | .escape, c :: cs => match escape? c with
      | some (.char d) => (flow .inside cs).map (consChar d)
      | some (.code left) => flow (.code left 0) cs
      | none => none
  | .code left value, c :: cs => match hexDigit? c with
      | none => none
      | some d => match left with
        | left + 1 => flow (.code left (value * 16 + d)) cs
        | 0 =>
            if (value * 16 + d).isValidChar then
              (flow .inside cs).map (consChar (Char.ofNat (value * 16 + d)))
            else none
  | .after, c :: cs =>
      if c = ',' then flow .items cs
      else if c = ']' then if cs.all isBlank then some [] else none
      else if isBlank c then flow .after cs
      else none

/-- The items of a sequence; any other text is none. -/
def parse : List Char → Option (List (List Char))
  | '[' :: cs => flow .items cs
  | _ => none

/-- How a text is read, one character after the other. -/
inductive Reads : Mode → List Char → List (List Char) → Prop
  | opens {cs : List Char} {items : List (List Char)} :
      Reads .inside cs items → Reads .items ('"' :: cs) items
  | close {mode : Mode} {cs : List Char} :
      mode = .items ∨ mode = .after → Reads mode (']' :: cs) []
  | blank {mode : Mode} {c : Char} {cs : List Char} {items : List (List Char)} :
      mode = .items ∨ mode = .after → Reads mode cs items → Reads mode (c :: cs) items
  | quote {cs : List Char} {rest : List (List Char)} :
      Reads .after cs rest → Reads .inside ('"' :: cs) ([] :: rest)
  | backslash {cs : List Char} {items : List (List Char)} :
      Reads .escape cs items → Reads .inside ('\\' :: cs) items
  | plain {c : Char} {cs : List Char} {items : List (List Char)} : c ≠ '"' → c ≠ '\\' →
      Reads .inside cs items → Reads .inside (c :: cs) (consChar c items)
  | escaped {c d : Char} {cs : List Char} {items : List (List Char)} :
      Reads .inside cs items → Reads .escape (c :: cs) (consChar d items)
  | digits {c : Char} {left : Nat} {cs : List Char} {items : List (List Char)} :
      Reads (.code left 0) cs items → Reads .escape (c :: cs) items
  | digit {c : Char} {left value value' : Nat} {cs : List Char} {items : List (List Char)} :
      Reads (.code left value') cs items → Reads (.code (left + 1) value) (c :: cs) items
  | coded {c d : Char} {value : Nat} {cs : List Char} {items : List (List Char)} :
      Reads .inside cs items → Reads (.code 0 value) (c :: cs) (consChar d items)
  | comma {cs : List Char} {items : List (List Char)} :
      Reads .items cs items → Reads .after (',' :: cs) items

/-- Inversion of `flow`. -/
theorem reads_of_flow {mode : Mode} {cs : List Char} {items : List (List Char)}
    (h : flow mode cs = some items) : Reads mode cs items := by
  -- each branch of the reader is one rule
  induction cs generalizing mode items with
  | nil => cases mode <;> cases h
  | cons c cs ih =>
      cases mode with
      | items =>
          simp only [flow] at h
          split_ifs at h with hquote hbracket hblanks hblank
          · exact hquote ▸ .opens (ih h)
          · obtain rfl := Option.some.inj h
            exact hbracket ▸ .close (Or.inl rfl)
          · exact .blank (Or.inl rfl) (ih h)
      | inside =>
          simp only [flow] at h
          split_ifs at h with hquote hbackslash hprintable
          · obtain ⟨rest, hrest, rfl⟩ := Option.map_eq_some_iff.mp h
            exact hquote ▸ .quote (ih hrest)
          · exact hbackslash ▸ .backslash (ih h)
          · obtain ⟨items, hitems, rfl⟩ := Option.map_eq_some_iff.mp h
            exact .plain hquote hbackslash (ih hitems)
      | escape =>
          simp only [flow] at h
          split at h
          · obtain ⟨items, hitems, rfl⟩ := Option.map_eq_some_iff.mp h
            exact .escaped (ih hitems)
          · exact .digits (ih h)
          · cases h
      | code left value =>
          simp only [flow] at h
          split at h
          · cases h
          · split at h
            · exact .digit (ih h)
            · split_ifs at h
              obtain ⟨items, hitems, rfl⟩ := Option.map_eq_some_iff.mp h
              exact .coded (ih hitems)
      | after =>
          simp only [flow] at h
          split_ifs at h with hcomma hbracket hblanks hblank
          · exact hcomma ▸ .comma (ih h)
          · obtain rfl := Option.some.inj h
            exact hbracket ▸ .close (Or.inr rfl)
          · exact .blank (Or.inr rfl) (ih h)

/-! ## How much text the items take -/

/-- Two quotes for each item, and a comma or the bracket behind it. -/
def size (items : List (List Char)) : Nat := (items.map fun item => item.length + 3).sum

@[simp] theorem size_nil : size [] = 0 := rfl

@[simp] theorem size_cons (item : List Char) (items : List (List Char)) :
    size (item :: items) = item.length + 3 + size items := by
  rw [size, List.map_cons, List.sum_cons]
  rfl

/-- The items fit into a text of `n` characters. -/
def Fits : Mode → Nat → List (List Char) → Prop
  | .items, n, items => size items ≤ n
  | .after, n, items => size items + 1 ≤ n
  | .inside, n, items | .escape, n, items =>
      ∃ item rest, items = item :: rest ∧ item.length + size rest + 2 ≤ n
  | .code left _, n, items =>
      ∃ item rest, items = item :: rest ∧ item.length + size rest + 2 + left ≤ n

theorem Fits.consChar {n : Nat} {items : List (List Char)} (h : Fits .inside n items) (c : Char) :
    Fits .inside (n + 1) (consChar c items) := by
  obtain ⟨item, rest, rfl, hle⟩ := h
  refine ⟨c :: item, rest, rfl, ?_⟩
  rw [List.length_cons]
  omega

theorem Reads.fits {mode : Mode} {cs : List Char} {items : List (List Char)}
    (h : Reads mode cs items) : Fits mode cs.length items := by
  induction h with
  | opens _ ih =>
      obtain ⟨item, rest, rfl, hle⟩ := ih
      simp only [Fits, size_cons, List.length_cons]
      omega
  | close hmode =>
      rcases hmode with rfl | rfl
      · exact Nat.zero_le _
      · exact Nat.le_add_left 1 _
  | blank hmode _ ih =>
      rcases hmode with rfl | rfl
      · exact Nat.le_succ_of_le ih
      · exact Nat.le_succ_of_le ih
  | @quote cs rest _ ih =>
      simp only [Fits] at ih
      refine ⟨[], rest, rfl, ?_⟩
      rw [List.length_cons, List.length_nil]
      omega
  | backslash _ ih =>
      obtain ⟨item, rest, rfl, hle⟩ := ih
      exact ⟨item, rest, rfl, Nat.le_succ_of_le hle⟩
  | plain _ _ _ ih => exact ih.consChar _
  | escaped _ ih => exact ih.consChar _
  -- an escape takes more characters than it gives
  | digits _ ih | digit _ ih =>
      obtain ⟨item, rest, rfl, hle⟩ := ih
      refine ⟨item, rest, rfl, ?_⟩
      rw [List.length_cons]
      omega
  | coded _ ih => exact ih.consChar _
  | comma _ ih => exact Nat.succ_le_succ ih

/-! ## Texts without room for escapes -/

/-- An item that stands for itself between quotes. -/
def Plain (item : List Char) : Prop := '"' ∉ item ∧ '\\' ∉ item

/-- The text is as long as its items take. -/
def Tight : Mode → Nat → List (List Char) → Prop
  | .items, n, items => n = size items
  | .after, n, items => n = size items + 1
  | .inside, n, items => ∃ item rest, items = item :: rest ∧ n = item.length + size rest + 2
  | _, _, _ => False

theorem Reads.plain_of_tight {mode : Mode} {cs : List Char} {items : List (List Char)}
    (h : Reads mode cs items) (htight : Tight mode cs.length items) :
    ∀ item ∈ items, Plain item := by
  induction h with
  | opens h ih =>
      obtain ⟨item, rest, rfl, -⟩ := h.fits
      simp only [Tight, size_cons, List.length_cons] at htight
      exact ih ⟨item, rest, rfl, by omega⟩
  | close _ => exact fun item hitem => absurd hitem List.not_mem_nil
  | blank hmode h _ =>
      -- a blank takes a character that the items need
      have hle := h.fits
      rcases hmode with rfl | rfl <;>
        · simp only [Tight, Fits, List.length_cons] at htight hle
          omega
  | quote _ ih =>
      obtain ⟨item, rest', heq, hlen⟩ := htight
      obtain ⟨rfl, rfl⟩ := List.cons.inj heq
      rw [List.length_cons, List.length_nil] at hlen
      refine List.forall_mem_cons.mpr ⟨⟨List.not_mem_nil, List.not_mem_nil⟩, ?_⟩
      exact ih (by simp only [Tight]; omega)
  | backslash h _ =>
      -- an escape takes one character more
      obtain ⟨item, rest, rfl, hle⟩ := h.fits
      obtain ⟨item', rest', heq, hlen⟩ := htight
      obtain ⟨rfl, rfl⟩ := List.cons.inj heq
      rw [List.length_cons] at hlen
      omega
  | plain hquote hescape h ih =>
      obtain ⟨item, rest, rfl, -⟩ := h.fits
      obtain ⟨item', rest', heq, hlen⟩ := htight
      obtain ⟨rfl, rfl⟩ := List.cons.inj heq
      rw [List.length_cons, List.length_cons] at hlen
      obtain ⟨hitem, hrest⟩ := List.forall_mem_cons.mp (ih ⟨item, rest, rfl, by omega⟩)
      refine List.forall_mem_cons.mpr ⟨⟨?_, ?_⟩, hrest⟩
      · exact List.not_mem_cons_of_ne_of_not_mem (Ne.symm hquote) hitem.1
      · exact List.not_mem_cons_of_ne_of_not_mem (Ne.symm hescape) hitem.2
  | escaped _ _ | digits _ _ | digit _ _ | coded _ _ => cases htight
  | comma _ ih =>
      simp only [Tight, List.length_cons] at htight
      exact ih (by simp only [Tight]; omega)

/-! ## Items between quotes -/

/-- What stands between two items. -/
def betweenItems : List Char := ['"', ',', '"']

/-- A blank in front of the last bracket does not matter. -/
theorem flow_blank (mode : Mode) (cs : List Char) :
    flow mode (cs ++ [' ', ']']) = flow mode (cs ++ [']']) := by
  induction cs generalizing mode with
  | nil => cases mode <;> rfl
  | cons c cs ih =>
      have hall : (cs ++ [' ', ']']).all isBlank = (cs ++ [']']).all isBlank := by
        rw [List.all_append, List.all_append]
        rfl
      rw [List.cons_append, List.cons_append]
      cases mode <;> simp only [flow, ih, hall]

theorem flow_plain {item : List Char} (h : Plain item)
    (hprint : ∀ c ∈ item, isPrintable c = true) (cs : List Char) :
    flow .inside (item ++ '"' :: cs) = (flow .after cs).map (item :: ·) := by
  induction item with
  | nil => rfl
  | cons c item ih =>
      obtain ⟨hquote, hescape⟩ := h
      rw [List.mem_cons, not_or] at hquote hescape
      rw [List.cons_append, flow, if_neg (Ne.symm hquote.1), if_neg (Ne.symm hescape.1),
        if_pos (hprint c List.mem_cons_self),
        ih ⟨hquote.2, hescape.2⟩ fun d hd => hprint d (List.mem_cons_of_mem c hd), Option.map_map]
      rfl

theorem length_intercalate (item : List Char) (rest : List (List Char)) :
    (betweenItems.intercalate (item :: rest)).length = item.length + size rest := by
  induction rest generalizing item with
  | nil =>
      rw [List.intercalate_singleton]
      rfl
  | cons next rest ih =>
      rw [List.intercalate_cons_cons, List.length_append, List.length_append, ih, size_cons]
      simp only [betweenItems, List.length_cons, List.length_nil]
      omega

/-- Plain items are read back. -/
theorem flow_intercalate {item : List Char} {rest : List (List Char)}
    (hplain : ∀ i ∈ item :: rest, Plain i)
    (hprint : ∀ i ∈ item :: rest, ∀ c ∈ i, isPrintable c = true) :
    flow .inside (betweenItems.intercalate (item :: rest) ++ ['"', ']']) = some (item :: rest) := by
  induction rest generalizing item with
  | nil =>
      rw [List.intercalate_singleton, flow_plain (hplain item List.mem_cons_self)
        (hprint item List.mem_cons_self)]
      rfl
  | cons next rest ih =>
      have hrest := ih (fun i hi => hplain i (List.mem_cons_of_mem item hi))
        fun i hi => hprint i (List.mem_cons_of_mem item hi)
      rw [List.intercalate_cons_cons, List.append_assoc, List.append_assoc]
      have hcut := flow_plain (hplain item List.mem_cons_self) (hprint item List.mem_cons_self)
        (',' :: '"' :: (betweenItems.intercalate (next :: rest) ++ ['"', ']']))
      have hnext : flow .after
          (',' :: '"' :: (betweenItems.intercalate (next :: rest) ++ ['"', ']'])) =
            flow .inside (betweenItems.intercalate (next :: rest) ++ ['"', ']']) := rfl
      rw [hnext, hrest] at hcut
      exact hcut

/-- **Items between quotes.**  The items themselves are read back exactly if
    there is one and none holds a quote or a backslash. -/
theorem parse_between_quotes_iff {items : List (List Char)}
    (hprint : ∀ i ∈ items, ∀ c ∈ i, isPrintable c = true) :
    parse ('[' :: '"' :: (betweenItems.intercalate items ++ ['"', ' ', ']'])) = some items ↔
      items ≠ [] ∧ ∀ item ∈ items, Plain item := by
  have hparse : parse ('[' :: '"' :: (betweenItems.intercalate items ++ ['"', ' ', ']'])) =
      flow .inside (betweenItems.intercalate items ++ ['"', ']']) := by
    have hblank := flow_blank .inside (betweenItems.intercalate items ++ ['"'])
    rw [List.append_assoc, List.append_assoc] at hblank
    exact hblank
  rw [hparse]
  cases items with
  | nil => exact iff_of_false (by decide) fun h => h.1 rfl
  | cons item rest =>
      constructor
      · intro h
        refine ⟨List.cons_ne_nil item rest, (reads_of_flow h).plain_of_tight ⟨item, rest, rfl, ?_⟩⟩
        rw [List.length_append, length_intercalate]
        rfl
      · exact fun h => flow_intercalate h.2 hprint

end Hfrd.Lib.YamlFlow
