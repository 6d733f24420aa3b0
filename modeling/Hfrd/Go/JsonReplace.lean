/-
  Hfrd.Go.JsonReplace

  Replacements in the indented text of a value, line by line.

  Cutting out `"name": null,` with the end of its line leaves the other lines,
  further indented, unless the key of a null member ends in a quote and the
  name: then a backslash is left before a tab, and the text is no JSON.
  Replacing a word that starts with an upper case letter replaces it in every
  key and string, and changes nothing else.
-/

import Hfrd.Go.JsonRewrite

namespace Hfrd.Go

open Hfrd.Lib

/-! ## Escaped characters -/

/-- The characters of an escape after the backslash, but for the quote. -/
def escapeTail : List Char :=
  ['\\', 'n', 'r', 't', 'u', '0', '1', '2', '3', '4', '5', '6', '7', '8', '9', 'a', 'b', 'c', 'd',
    'e', 'f']

/-- A character of a name: it is written as it is. -/
def isPlain (c : Char) : Bool := c.isAlpha || c == '_'

theorem mem_escapeTail {r : List Char} (h : (r.all fun d => decide (d ∈ escapeTail)) = true) :
    ∀ d ∈ r, d ∈ escapeTail := by
  simpa using h

theorem mem_escapeTail_hexDigit {n : Nat} (h : n < 16) : hexDigit n ∈ escapeTail :=
  (by decide : ∀ n < 16, hexDigit n ∈ escapeTail) n h

theorem escapeChar_cases (c : Char) :
    (escapeChar c = [c] ∧ c ≠ '"' ∧ c ≠ '\\' ∧ c ≠ '\n' ∧ c ≠ '\t') ∨ c = '"' ∨
      ∃ r, escapeChar c = '\\' :: r ∧ ∀ d ∈ r, d ∈ escapeTail := by
  unfold escapeChar
  split
  -- the cases of the source in their order; what is left is written as it is
  · next h => exact .inr (.inl h)
  · next hquote =>
      split
      · exact .inr (.inr ⟨_, rfl, mem_escapeTail rfl⟩)
      · next hback =>
          split
          · exact .inr (.inr ⟨_, rfl, mem_escapeTail rfl⟩)
          · next hnewline =>
              split
              · exact .inr (.inr ⟨_, rfl, mem_escapeTail rfl⟩)
              · split
                · exact .inr (.inr ⟨_, rfl, mem_escapeTail rfl⟩)
                · next htab =>
                    split
                    · next hunicode =>
                        have hlt := toNat_lt_of_isUnicodeEscaped hunicode
                        refine .inr (.inr ⟨_, rfl, fun d hd => ?_⟩)
                        simp only [List.mem_cons, List.not_mem_nil, or_false] at hd
                        rcases hd with rfl | rfl | rfl | rfl | rfl
                        · decide
                        all_goals exact mem_escapeTail_hexDigit (by omega)
                    · exact .inl ⟨rfl, hquote, hback, hnewline, htab⟩

theorem toNat_of_isPlain {c : Char} (h : isPlain c = true) : 65 ≤ c.toNat ∧ c.toNat ≤ 122 := by
  have hclass : isPlain c = (decide ('A'.val ≤ c.val ∧ c.val ≤ 'Z'.val)
      || (decide ('a'.val ≤ c.val) && decide (c.val ≤ 'z'.val)) || c == '_') := rfl
  simp only [hclass, Bool.or_eq_true, Bool.and_eq_true, decide_eq_true_eq, beq_iff_eq,
    UInt32.le_iff_toNat_le] at h
  rcases h with (⟨hl, hu⟩ | ⟨hl, hu⟩) | rfl
  · exact ⟨hl, hu.trans (by decide)⟩
  · exact ⟨Nat.le_trans (by decide) hl, hu⟩
  · decide

theorem ne_of_isPlain {c : Char} (h : isPlain c = true) {d : Char} (hd : isPlain d = false) :
    c ≠ d := by
  rintro rfl
  rw [h] at hd
  cases hd

theorem escapeChar_of_isPlain {c : Char} (h : isPlain c = true) : escapeChar c = [c] := by
  obtain ⟨hlow, hhigh⟩ := toNat_of_isPlain h
  have hunicode : isUnicodeEscaped c = false := by
    have hne : ∀ d, isPlain d = false → (c == d) = false :=
      fun d hd => beq_false_of_ne (ne_of_isPlain h hd)
    rw [isUnicodeEscaped, hne '<' (by decide), hne '>' (by decide), hne '&' (by decide)]
    simp only [Bool.or_false, Bool.or_eq_false_iff, decide_eq_false_iff_not, beq_eq_false_iff_ne]
    omega
  rw [escapeChar, if_neg (ne_of_isPlain h (by decide)), if_neg (ne_of_isPlain h (by decide)),
    if_neg (ne_of_isPlain h (by decide)), if_neg (ne_of_isPlain h (by decide)),
    if_neg (ne_of_isPlain h (by decide)), hunicode]
  rfl

theorem flatMap_escapeChar_of_isPlain {cs : List Char} (h : ∀ c ∈ cs, isPlain c = true) :
    cs.flatMap escapeChar = cs := by
  induction cs with
  | nil => rfl
  | cons c cs ih =>
      rw [List.flatMap_cons, escapeChar_of_isPlain (h c List.mem_cons_self),
        ih fun d hd => h d (List.mem_cons_of_mem c hd)]
      rfl

/-- Only the text of a name is the text of the name. -/
theorem eq_of_flatMap_escapeChar {s name : List Char} (h : ∀ c ∈ name, isPlain c = true)
    (hs : s.flatMap escapeChar = name) : s = name := by
  induction s generalizing name with
  | nil => exact hs
  | cons c s ih =>
      subst hs
      rw [List.flatMap_cons] at h ⊢
      rcases escapeChar_cases c with ⟨hc, -⟩ | rfl | ⟨r, hc, -⟩
      · rw [hc, List.singleton_append] at h ⊢
        rw [← ih (fun d hd => h d (List.mem_cons_of_mem c hd)) rfl]
      · exact absurd (h '\\' List.mem_cons_self) (by decide)
      · rw [hc] at h
        exact absurd (h '\\' List.mem_cons_self) (by decide)

/-- A quote in the text of a string is an escaped one. -/
theorem suffix_of_flatMap_escapeChar {s u name : List Char} (h : ∀ c ∈ name, isPlain c = true)
    (hs : s.flatMap escapeChar = u ++ '"' :: name) : '"' :: name <:+ s := by
  induction s generalizing u with
  | nil => simp at hs
  | cons c s ih =>
      rw [List.flatMap_cons] at hs
      -- the quote is in the text of `c`, or in what follows
      rcases List.append_eq_append_iff.mp hs with ⟨a, -, ha⟩ | ⟨a, hc, ha⟩
      · exact (ih ha).trans (List.suffix_cons c s)
      · cases a with
        | nil => exact (ih (u := []) (by simpa using ha.symm)).trans (List.suffix_cons c s)
        | cons d a =>
            obtain ⟨rfl, hname⟩ := List.cons_eq_cons.mp ha
            have hmem : '"' ∈ escapeChar c := hc ▸ List.mem_append_right u List.mem_cons_self
            rcases escapeChar_cases c with ⟨hc', hne, -⟩ | rfl | ⟨r, hc', hr⟩
            · rw [hc'] at hmem
              exact absurd (List.mem_singleton.mp hmem).symm hne
            · have hlast : a = [] := by
                cases u with
                | nil => cases hc
                | cons x u =>
                    cases u with
                    | nil =>
                        cases hc
                        rfl
                    | cons y u =>
                        have hlength := congrArg List.length hc
                        simp [escapeChar] at hlength
              subst hlast
              rw [eq_of_flatMap_escapeChar h hname.symm]
            · rw [hc'] at hmem
              rcases List.mem_cons.mp hmem with hback | hmem
              · exact absurd hback (by decide)
              · exact absurd (hr _ hmem) (by decide)

/-! ## Null members -/

/-- A null member, with the comma after it. -/
def nullMember (name : List Char) : List Char :=
  '"' :: name ++ ['"', ':', ' ', 'n', 'u', 'l', 'l', ',']

theorem body_of_nullKey {l : Line} {key : String} (h : l.nullKey = some key) :
    l.body = quote key ++ [':', ' ', 'n', 'u', 'l', 'l', ','] := by
  obtain ⟨k, core, comma⟩ := l
  rw [Line.nullKey] at h
  split at h
  · next hcond =>
      simp only [Bool.and_eq_true] at hcond
      obtain ⟨hcomma, hcore⟩ := hcond
      cases h
      cases core with
      | scalar s =>
          rw [Core.isNull, decide_eq_true_eq] at hcore
          subst hcore
          cases hcomma
          simp [Line.body, keyText, Core.text, Scalar.text, commaText]
      | brackets => cases hcore
  · cases h

/-- The last character of a line but for the comma. -/
theorem getLast?_of_suffix {p t : List Char} (hp : p ≠ []) (h : p <:+ t) :
    t.getLast? = p.getLast? := by
  obtain ⟨u, rfl⟩ := h
  rw [List.getLast?_append_of_ne_nil u hp]

theorem Core.getLast?_text {core : Core} (hcore : core ≠ .scalar .null) {key : Option String}
    {c : Char} (h : (keyText key ++ core.text).getLast? = some c) : c ≠ 'l' ∧ c ≠ ',' := by
  cases core with
  | scalar s =>
      cases s with
      | null => exact absurd rfl hcore
      | bool b =>
          cases b <;> simp [Core.text, Scalar.text, List.getLast?_append] at h <;>
            subst h <;> decide
      -- no digit is an `l` or a comma
      | number n =>
          rw [Core.text, Scalar.text, List.getLast?_append_of_ne_nil _ n.numeral.1] at h
          have hmem := List.all_eq_true.mp n.numeral.2 c (List.mem_of_getLast? h)
          constructor <;> rintro rfl <;> exact absurd hmem (by decide)
      | string s =>
          -- a string ends in a quote
          have hsuffix : ['"'] <:+ keyText key ++ quote s :=
            ⟨keyText key ++ '"' :: s.toList.flatMap escapeChar, by simp [quote]⟩
          rw [Core.text, Scalar.text, getLast?_of_suffix (by simp) hsuffix] at h
          cases h
          decide
  | brackets cs hcs =>
      rw [Core.text, List.getLast?_append] at h
      cases hlast : cs.getLast? with
      | none =>
          rw [hlast] at h
          cases key with
          | none => cases h
          | some key =>
              simp [keyText] at h
              subst h
              decide
      | some d =>
          rw [hlast] at h
          cases h
          have hmem := List.all_eq_true.mp hcs _ (List.mem_of_getLast? hlast)
          constructor <;> rintro rfl <;> exact absurd hmem (by decide)

theorem suffix_of_append_suffix {p t c : List Char} (h : p ++ c <:+ t ++ c) : p <:+ t := by
  obtain ⟨u, hu⟩ := h
  rw [← List.append_assoc] at hu
  exact ⟨u, List.append_cancel_right hu⟩

/-- A line that ends like a null member is one. -/
theorem nullKey_of_suffix {l : Line} {name : List Char} (h : nullMember name <:+ l.body) :
    ∃ key, l.nullKey = some key ∧ '"' :: name ++ ['"'] <:+ quote key := by
  obtain ⟨key, core, comma⟩ := l
  cases comma with
  -- a line without a comma ends in no comma
  | false =>
      rw [Line.body, commaText, if_neg Bool.false_ne_true, List.append_nil] at h
      have hlast : (keyText key ++ core.text).getLast? = some ',' := by
        rw [getLast?_of_suffix (by simp [nullMember]) h]
        exact List.getLast?_append_of_ne_nil _ (by simp)
      by_cases hcore : core = .scalar .null
      · subst hcore
        simp [Core.text, Scalar.text] at hlast
      · exact absurd rfl (Core.getLast?_text hcore hlast).2
  | true =>
      have hnull : '"' :: name ++ ['"', ':', ' ', 'n', 'u', 'l', 'l']
          <:+ keyText key ++ core.text := by
        refine suffix_of_append_suffix (c := [',']) ?_
        simpa [Line.body, commaText, nullMember] using h
      -- only `null` ends in an `l`
      have hcore : core = .scalar .null := by
        by_contra hcore
        have hlast : (keyText key ++ core.text).getLast? = some 'l' := by
          rw [getLast?_of_suffix (by simp) hnull]
          exact List.getLast?_append_of_ne_nil _ (by simp)
        exact (Core.getLast?_text hcore hlast).1 rfl
      subst hcore
      have hkey : '"' :: name ++ ['"', ':', ' '] <:+ keyText key := by
        refine suffix_of_append_suffix (c := ['n', 'u', 'l', 'l']) ?_
        simpa [Core.text, Scalar.text] using hnull
      cases key with
      | none => simp [keyText] at hkey
      | some key =>
          refine ⟨key, rfl, suffix_of_append_suffix (c := [':', ' ']) ?_⟩
          simpa [keyText] using hkey

/-- The key of the line is the name, or ends in a quote and the name. -/
theorem key_of_suffix {l : Line} {name : List Char} (hname : ∀ c ∈ name, isPlain c = true)
    (h : nullMember name <:+ l.body) :
    ∃ key, l.nullKey = some key ∧ (key.toList = name ∨ '"' :: name <:+ key.toList) := by
  obtain ⟨key, hkey, hquote⟩ := nullKey_of_suffix h
  refine ⟨key, hkey, ?_⟩
  rw [quote] at hquote
  rcases List.suffix_cons_iff.mp (suffix_of_append_suffix hquote) with heq | hsuffix
  · exact .inl (eq_of_flatMap_escapeChar hname (List.cons_eq_cons.mp heq).2.symm)
  · obtain ⟨u, hu⟩ := hsuffix
    exact .inr (suffix_of_flatMap_escapeChar hname hu.symm)

/-- Where the key ends in a quote and the name, a backslash is left of it. -/
theorem body_of_quoted {l : Line} {name : List Char} (hname : ∀ c ∈ name, isPlain c = true)
    {key : String} (hkey : l.nullKey = some key) (h : '"' :: name <:+ key.toList) :
    ∃ b, l.body = b ++ '\\' :: nullMember name := by
  obtain ⟨u, hu⟩ := h
  refine ⟨'"' :: u.flatMap escapeChar, ?_⟩
  rw [body_of_nullKey hkey, quote, ← hu, List.flatMap_append, List.flatMap_cons,
    flatMap_escapeChar_of_isPlain hname]
  simp [nullMember, escapeChar]

theorem body_of_name {l : Line} {key : String} (hname : ∀ c ∈ key.toList, isPlain c = true)
    (hkey : l.nullKey = some key) : l.body = nullMember key.toList := by
  rw [body_of_nullKey hkey, quote, flatMap_escapeChar_of_isPlain hname]
  simp [nullMember]

/-! ## Cutting out a null member -/

/-- Cuts out every `"name": null,` at the end of a line, with this end. -/
def removeNullMember (name : String) (text : List Char) : List Char :=
  replaceAll (nullMember name.toList ++ ['\n']) [] text

theorem not_mem_quote {c : Char} (hc : c = '\n' ∨ c = '\t') (s : String) : c ∉ quote s := by
  intro h
  rw [quote, List.cons_append, List.mem_cons, List.mem_append] at h
  rcases h with h | h | h
  · rcases hc with rfl | rfl <;> exact absurd h (by decide)
  · obtain ⟨d, -, hd⟩ := List.mem_flatMap.mp h
    rcases escapeChar_cases d with ⟨heq, -, -, hnewline, htab⟩ | rfl | ⟨r, heq, hr⟩
    · rw [heq, List.mem_singleton] at hd
      subst hd
      exact hc.elim hnewline htab
    · rcases hc with rfl | rfl <;> exact absurd hd (by decide)
    · rw [heq, List.mem_cons] at hd
      rcases hd with hd | hd
      · rcases hc with rfl | rfl <;> exact absurd hd (by decide)
      · have hmem := hr c hd
        rcases hc with rfl | rfl <;> exact absurd hmem (by decide)
  · rcases hc with rfl | rfl <;> exact absurd h (by decide)

theorem newline_not_mem_core (core : Core) : '\n' ∉ core.text := by
  cases core with
  | scalar s =>
      cases s with
      | null => decide
      | bool b => cases b <;> decide
      | number n => exact fun h => absurd (List.all_eq_true.mp n.numeral.2 _ h) (by decide)
      | string s => exact not_mem_quote (.inl rfl) s
  | brackets cs h => exact fun hmem => absurd (List.all_eq_true.mp h _ hmem) (by decide)

theorem newline_not_mem_body (l : Line) : '\n' ∉ l.body := by
  intro h
  rw [Line.body, List.mem_append, List.mem_append] at h
  rcases h with (h | h) | h
  · cases hkey : l.key with
    | none => simp [hkey, keyText] at h
    | some key =>
        rw [hkey, keyText, List.mem_append] at h
        exact h.elim (not_mem_quote (.inl rfl) key) (by decide)
  · exact newline_not_mem_core _ h
  · cases hcomma : l.comma <;> simp [hcomma, commaText] at h

theorem not_mem_nullMember {name : List Char} (hname : ∀ c ∈ name, isPlain c = true) {c : Char}
    (hc : c = '\n' ∨ c = '\t' ∨ c = '\\') : c ∉ nullMember name := by
  intro h
  rw [nullMember, List.cons_append, List.mem_cons, List.mem_append] at h
  rcases h with h | h | h
  · rcases hc with rfl | rfl | rfl <;> exact absurd h (by decide)
  · have hplain := hname c h
    rcases hc with rfl | rfl | rfl <;> exact absurd hplain (by decide)
  · rcases hc with rfl | rfl | rfl <;> exact absurd h (by decide)

theorem suffix_tabs_iff {name : List Char} (hname : ∀ c ∈ name, isPlain c = true) (n : Nat)
    (body : List Char) :
    nullMember name <:+ List.replicate n '\t' ++ body ↔ nullMember name <:+ body := by
  refine ⟨fun h => ?_, fun h => h.trans (List.suffix_append _ _)⟩
  -- otherwise the member would start among the tabs
  refine (List.suffix_or_suffix_of_suffix h (List.suffix_append _ _)).elim id fun hbody => ?_
  obtain ⟨t, ht⟩ := hbody
  rw [← ht] at h
  have htabs := suffix_of_append_suffix h
  cases t with
  | nil => exact ⟨[], by rw [← ht]; rfl⟩
  | cons c t =>
      have hc : c = '\t' := List.eq_of_mem_replicate (htabs.mem List.mem_cons_self)
      have hmem : '\t' ∈ nullMember name := by
        rw [← ht, hc]
        exact List.mem_cons_self
      exact absurd hmem (not_mem_nullMember hname (.inr (.inl rfl)))

/-- A pass cuts the end off one line and goes on with the next. -/
theorem removeNullMember_cons {name : String} (hname : ∀ c ∈ name.toList, isPlain c = true)
    (l : Nat × Line) (ls : Lines) :
    removeNullMember name (render (l :: ls))
      = (if nullMember name.toList <:+ l.2.body then
          (List.replicate l.1 '\t' ++ l.2.body).take
            ((List.replicate l.1 '\t' ++ l.2.body).length - (nullMember name.toList).length)
        else List.replicate l.1 '\t' ++ l.2.body ++ ['\n'])
        ++ removeNullMember name (render ls) := by
  have hline : '\n' ∉ List.replicate l.1 '\t' ++ l.2.body := by
    rw [List.mem_append]
    rintro (h | h)
    · exact absurd (List.eq_of_mem_replicate h) (by decide)
    · exact newline_not_mem_body _ h
  have hpass := replaceAll_line (by simp [nullMember]) (not_mem_nullMember hname (.inl rfl)) hline
    [] (render ls)
  rw [List.append_nil] at hpass
  rw [removeNullMember, removeNullMember, render, List.flatMap_cons, List.append_assoc,
    List.singleton_append, ← render, hpass]
  simp only [suffix_tabs_iff hname]

/-- The lines without those of null members of the name; a line after them is
    indented by what is left of them. -/
def dropLines (name : String) : Nat → Lines → Lines
  | _, [] => []
  | extra, l :: ls =>
      if l.2.nullKey = some name then dropLines name (extra + l.1) ls
      else (extra + l.1, l.2) :: dropLines name 0 ls

/-- A line that ends in a comma is followed by an indented one. -/
def Indented : Lines → Prop
  | [] => True
  | [l] => l.2.comma = false
  | l :: l' :: ls => (l.2.comma = true → 1 ≤ l'.1) ∧ Indented (l' :: ls)

theorem indented_singleton {l : Nat × Line} (h : l.2.comma = false) : Indented [l] := h

theorem Indented.tail {l : Nat × Line} {ls : Lines} (h : Indented (l :: ls)) : Indented ls := by
  cases ls with
  | nil => trivial
  | cons l' ls => exact h.2

/-- Each part may end where the next is not indented. -/
theorem Indented.append {ls ls' : Lines} (h : Indented ls) (h' : Indented ls') :
    Indented (ls ++ ls') := by
  induction ls with
  | nil => exact h'
  | cons l ls ih =>
      cases ls with
      | nil =>
          cases ls' with
          | nil => exact h
          | cons l' ls' =>
              refine ⟨fun hcomma => ?_, h'⟩
              rw [Indented, hcomma] at h
              cases h
      | cons l' ls => exact ⟨h.1, ih h.2⟩

theorem indented_of_le {ls : Lines} (h : ∀ l ∈ ls, 1 ≤ l.1)
    (hlast : ∀ l ∈ ls.getLast?, l.2.comma = false) : Indented ls := by
  induction ls with
  | nil => trivial
  | cons l ls ih =>
      cases ls with
      | nil => exact hlast l rfl
      | cons l' ls =>
          refine ⟨fun _ => h l' (by simp), ih (fun m hm => h m (List.mem_cons_of_mem l hm)) ?_⟩
          intro m hm
          exact hlast m (by rwa [List.getLast?_cons_cons])

theorem mem_bracketed {depth : Nat} {key : Option String} {comma : Bool}
    {open' close empty : Core} {inner : Lines} {l : Nat × Line}
    (h : l ∈ bracketed depth key comma open' close empty inner) : l.1 = depth ∨ l ∈ inner := by
  cases inner with
  | nil =>
      rw [List.mem_singleton.mp h]
      exact .inl rfl
  | cons m inner =>
      rw [bracketed, List.mem_append, List.mem_cons, List.mem_singleton] at h
      rcases h with (rfl | h) | rfl
      · exact .inl rfl
      · exact .inr h
      · exact .inl rfl
      · exact List.cons_ne_nil m inner

theorem Value.mem_elementLines {depth : Nat} {elements : List Value} {l : Nat × Line}
    (h : l ∈ elementLines depth elements) :
    ∃ v ∈ elements, ∃ comma, l ∈ v.lines depth none comma := by
  induction elements with
  | nil => exact absurd h List.not_mem_nil
  | cons v elements ih =>
      rw [elementLines] at h
      rcases List.mem_append.mp h with h | h
      · exact ⟨v, List.mem_cons_self, _, h⟩
      · obtain ⟨w, hw, hmem⟩ := ih h
        exact ⟨w, List.mem_cons_of_mem v hw, hmem⟩

theorem Value.mem_fieldLines {depth : Nat} {fields : Fields} {l : Nat × Line}
    (h : l ∈ fieldLines depth fields) :
    ∃ f ∈ fields, ∃ comma, l ∈ f.2.lines depth (some f.1) comma := by
  induction fields with
  | nil => exact absurd h List.not_mem_nil
  | cons f fields ih =>
      rw [fieldLines] at h
      rcases List.mem_append.mp h with h | h
      · exact ⟨f, List.mem_cons_self, _, h⟩
      · obtain ⟨g, hg, hmem⟩ := ih h
        exact ⟨g, List.mem_cons_of_mem f hg, hmem⟩

/-- What is inside a value is indented further. -/
theorem Value.le_of_mem_lines (v : Value) :
    ∀ depth key comma, ∀ l ∈ v.lines depth key comma, depth ≤ l.1 := by
  induction v using Value.induction with
  | scalar s =>
      intro depth key comma l hl
      rw [List.mem_singleton.mp hl]
  | array elements ih =>
      intro depth key comma l hl
      rcases mem_bracketed hl with hdepth | hl
      · exact hdepth.ge
      · obtain ⟨v, hv, comma', hmem⟩ := mem_elementLines hl
        exact Nat.le_of_succ_le (ih v hv _ _ _ l hmem)
  | object fields ih =>
      intro depth key comma l hl
      rcases mem_bracketed hl with hdepth | hl
      · exact hdepth.ge
      · obtain ⟨f, hf, comma', hmem⟩ := mem_fieldLines hl
        exact Nat.le_of_succ_le (ih f hf _ _ _ l hmem)
  | other json ih => exact ih

theorem comma_of_getLast?_bracketed {depth : Nat} {key : Option String} {comma : Bool}
    {open' close empty : Core} {inner : Lines} {l : Nat × Line}
    (h : l ∈ (bracketed depth key comma open' close empty inner).getLast?) : l.2.comma = comma := by
  cases inner with
  | nil =>
      cases h
      rfl
  | cons m inner =>
      rw [bracketed, List.getLast?_concat] at h
      · cases h
        rfl
      · exact List.cons_ne_nil m inner

theorem Value.comma_of_getLast? (v : Value) (depth : Nat) (key : Option String) (comma : Bool) :
    ∀ l ∈ (v.lines depth key comma).getLast?, l.2.comma = comma := by
  induction v using Value.induction with
  | scalar s =>
      rintro l ⟨⟩
      rfl
  | array elements _ => exact fun l hl => comma_of_getLast?_bracketed hl
  | object fields _ => exact fun l hl => comma_of_getLast?_bracketed hl
  | other json ih => exact ih

theorem Value.comma_of_getLast?_fieldLines {depth : Nat} {fields : Fields} :
    ∀ l ∈ (fieldLines depth fields).getLast?, l.2.comma = false := by
  induction fields with
  | nil =>
      intro l hl
      cases hl
  | cons f fields ih =>
      rw [fieldLines]
      intro l hl
      cases hrest : fieldLines depth fields with
      | nil =>
          rw [hrest, List.append_nil] at hl
          rw [f.2.comma_of_getLast? _ _ _ l hl, fieldLines_eq_nil hrest]
          rfl
      | cons m ms =>
          rw [List.getLast?_append_of_ne_nil _ (by rw [hrest]; exact List.cons_ne_nil m ms)] at hl
          exact ih l hl

/-- The lines of an object are indented but for the first and the last. -/
theorem Value.indented_lines {fields : Fields} (hne : fields ≠ []) (key : Option String) :
    Indented ((Value.object fields).lines 0 key false) := by
  have hinner : Indented (fieldLines 1 fields) := by
    refine indented_of_le (fun l hl => ?_) comma_of_getLast?_fieldLines
    obtain ⟨f, -, comma, hmem⟩ := mem_fieldLines hl
    exact f.2.le_of_mem_lines _ _ _ l hmem
  rw [lines]
  cases hlines : fieldLines 1 fields with
  | nil => exact absurd (fieldLines_eq_nil hlines) hne
  | cons l inner =>
      rw [hlines] at hinner
      rw [bracketed, List.cons_append, ← List.singleton_append]
      · exact Indented.append (indented_singleton rfl)
          (Indented.append hinner (indented_singleton rfl))
      · exact List.cons_ne_nil l inner

theorem comma_of_nullKey {l : Line} {key : String} (h : l.nullKey = some key) :
    l.comma = true := by
  rw [Line.nullKey] at h
  split at h
  · next hcond =>
      simp only [Bool.and_eq_true] at hcond
      exact hcond.1
  · cases h

theorem Indented.next {l : Nat × Line} {ls : Lines} (h : Indented (l :: ls)) {key : String}
    (hkey : l.2.nullKey = some key) : ∃ l' ls', ls = l' :: ls' ∧ 1 ≤ l'.1 := by
  have hcomma := comma_of_nullKey hkey
  cases ls with
  | nil =>
      rw [Indented, hcomma] at h
      cases h
  | cons l' ls => exact ⟨l', ls, rfl, h.1 hcomma⟩

theorem head_dropLines {ls : Lines} (h : Indented ls) (hne : ls ≠ []) (name : String)
    (extra : Nat) : ∃ l ls', dropLines name extra ls = l :: ls' ∧
      ∀ l' ∈ ls.head?, extra + l'.1 ≤ l.1 := by
  induction ls generalizing extra with
  | nil => exact absurd rfl hne
  | cons l ls ih =>
      rw [dropLines]
      split
      · next hkey =>
          obtain ⟨l', ls', rfl, -⟩ := h.next hkey
          obtain ⟨m, ms, hm, hle⟩ := ih h.tail (List.cons_ne_nil _ _) (extra + l.1)
          refine ⟨m, ms, hm, ?_⟩
          rintro _ ⟨⟩
          have hfirst := hle l' rfl
          omega
      · refine ⟨_, _, rfl, ?_⟩
        rintro _ ⟨⟩
        exact Nat.le_refl _

theorem Indented.dropLines {ls : Lines} (h : Indented ls) (name : String) (extra : Nat) :
    Indented (dropLines name extra ls) := by
  induction ls generalizing extra with
  | nil => trivial
  | cons l ls ih =>
      rw [Go.dropLines]
      split
      · exact ih h.tail _
      · next hkey =>
          cases ls with
          | nil => exact h
          | cons l' ls =>
              obtain ⟨m, ms, hm, hle⟩ := head_dropLines h.tail
                (List.cons_ne_nil l' ls) name 0
              have hrest := ih h.tail 0
              rw [hm] at hrest ⊢
              refine ⟨fun hcomma => ?_, hrest⟩
              have hfirst := hle l' rfl
              have hnext := h.1 hcomma
              omega

theorem map_snd_dropLines (name : String) (extra : Nat) (ls : Lines) :
    (dropLines name extra ls).map Prod.snd = (keepLines [name] ls).map Prod.snd := by
  induction ls generalizing extra with
  | nil => rfl
  | cons l ls ih =>
      rw [dropLines, keepLines]
      split
      · next hkey =>
          rw [ih, List.filter_cons_of_neg (by simp [Line.isDropped, hkey])]
          rfl
      · next hkey =>
          have hkept : l.2.isDropped [name] = false := by
            rw [Line.isDropped]
            cases hnull : l.2.nullKey with
            | none => rfl
            | some key =>
                rw [hnull] at hkey
                simpa using fun heq => hkey (congrArg some heq)
          rw [List.map_cons, ih, List.filter_cons_of_pos (by simp [hkept])]
          rfl

/-- No key of a null member ends in a quote and the name. -/
def NotQuoted (name : String) (keys : List String) : Prop :=
  ∀ key ∈ keys, ¬ '"' :: name.toList <:+ key.toList

theorem render_cons (l : Nat × Line) (ls : Lines) :
    render (l :: ls) = List.replicate l.1 '\t' ++ (l.2.body ++ '\n' :: render ls) := by
  simp [render]

/-- One pass over the lines of a text. -/
theorem removeNullMember_render {name : String} (hname : ∀ c ∈ name.toList, isPlain c = true)
    {ls : Lines} (hindented : Indented ls) (hkeys : NotQuoted name (lineNullKeys ls)) :
    ls ≠ [] → ∀ extra, List.replicate extra '\t' ++ removeNullMember name (render ls)
      = render (dropLines name extra ls) := by
  induction ls with
  | nil => exact fun hne => absurd rfl hne
  | cons l ls ih =>
      intro _ extra
      have hrest : NotQuoted name (lineNullKeys ls) := fun key hkey =>
        hkeys key (by
          rw [lineNullKeys, ← List.singleton_append, List.filterMap_append]
          exact List.mem_append_right _ hkey)
      rw [removeNullMember_cons hname, dropLines]
      -- the tabs of a line that is cut out are left to the next one
      by_cases hkey : l.2.nullKey = some name
      · obtain ⟨l', ls', rfl, -⟩ := hindented.next hkey
        have hbody := body_of_name hname hkey
        rw [if_pos (hbody ▸ List.suffix_rfl), if_pos hkey, ← ih hindented.tail hrest
          (List.cons_ne_nil _ _), hbody, List.length_append, Nat.add_sub_cancel,
          List.take_left, ← List.append_assoc, List.replicate_append_replicate]
      · have hno : ¬ nullMember name.toList <:+ l.2.body := by
          intro h
          obtain ⟨key, hnull, hcase⟩ := key_of_suffix hname h
          have hmem : key ∈ lineNullKeys (l :: ls) :=
            List.mem_filterMap.mpr ⟨l, List.mem_cons_self, hnull⟩
          refine hcase.elim (fun heq => hkey ?_) (hkeys key hmem)
          rw [hnull, String.toList_injective heq]
        have htail : removeNullMember name (render ls) = render (dropLines name 0 ls) := by
          cases ls with
          | nil => rfl
          | cons l' ls => exact ih hindented.tail hrest (List.cons_ne_nil _ _) 0
        rw [if_neg hno, if_neg hkey, render_cons, htail, ← List.replicate_append_replicate]
        simp only [List.append_assoc, List.singleton_append]

/-- A pass that leaves a backslash before a tab. -/
theorem removeNullMember_broken {name : String} (hname : ∀ c ∈ name.toList, isPlain c = true)
    {ls : Lines} (hindented : Indented ls) (hkeys : ¬ NotQuoted name (lineNullKeys ls)) :
    ['\\', '\t'] <:+: removeNullMember name (render ls) := by
  induction ls with
  | nil => exact absurd (fun key hkey => absurd hkey List.not_mem_nil) hkeys
  | cons l ls ih =>
      rw [removeNullMember_cons hname]
      by_cases hrest : NotQuoted name (lineNullKeys ls)
      · -- the key of this line is the one
        obtain ⟨key, hkey, hquoted⟩ : ∃ key, l.2.nullKey = some key ∧
            '"' :: name.toList <:+ key.toList := by
          simp only [NotQuoted, not_forall, not_not] at hkeys
          obtain ⟨key, hmem, hquoted⟩ := hkeys
          obtain ⟨l', hl', hnull⟩ := List.mem_filterMap.mp hmem
          rcases List.mem_cons.mp hl' with rfl | hl'
          · exact ⟨key, hnull, hquoted⟩
          · exact absurd hquoted (hrest key (List.mem_filterMap.mpr ⟨l', hl', hnull⟩))
        obtain ⟨l', ls', rfl, hindent⟩ := hindented.next hkey
        obtain ⟨b, hbody⟩ := body_of_quoted hname hkey hquoted
        have hsuffix : nullMember name.toList <:+ l.2.body := ⟨b ++ ['\\'], by simp [hbody]⟩
        obtain ⟨n, hn⟩ : ∃ n, l'.1 = n + 1 := ⟨l'.1 - 1, by omega⟩
        have hnext : removeNullMember name (render (l' :: ls')) = '\t' :: removeNullMember name
            (List.replicate n '\t' ++ (l'.2.body ++ '\n' :: render ls')) := by
          rw [render_cons, hn, List.replicate_succ, List.cons_append]
          exact replaceAll_append_of_head (a := ['\t']) (by decide) _ _ _
        have hline : List.replicate l.1 '\t' ++ l.2.body
            = List.replicate l.1 '\t' ++ b ++ ['\\'] ++ nullMember name.toList := by
          simp [hbody]
        -- the backslash that escaped the quote is followed by the tabs of the next line
        rw [if_pos hsuffix, hnext, hline, List.length_append, Nat.add_sub_cancel, List.take_left]
        refine ⟨List.replicate l.1 '\t' ++ b, removeNullMember name
          (List.replicate n '\t' ++ (l'.2.body ++ '\n' :: render ls')), ?_⟩
        simp only [List.append_assoc, List.cons_append, List.nil_append]
      · exact (ih hindented.tail hrest).trans (List.suffix_append _ _).isInfix

/-! ## All passes -/

theorem lineNullKeys_eq (ls : Lines) :
    lineNullKeys ls = (ls.map Prod.snd).filterMap Line.nullKey := by
  rw [lineNullKeys, List.filterMap_map]
  rfl

theorem lineTokens_eq (ls : Lines) : lineTokens ls = (ls.map Prod.snd).flatMap Line.tokens := by
  rw [lineTokens, List.flatMap_map]

theorem map_snd_keepLines (names : List String) (ls : Lines) :
    (keepLines names ls).map Prod.snd = (ls.map Prod.snd).filter fun l => !l.isDropped names := by
  rw [keepLines, List.filter_map]
  rfl

theorem mem_lineNullKeys_iff {ls ls' : Lines} {names : List String}
    (h : ls'.map Prod.snd = (keepLines names ls).map Prod.snd) (key : String) :
    key ∈ lineNullKeys ls' ↔ key ∈ lineNullKeys ls ∧ key ∉ names := by
  rw [lineNullKeys_eq, lineNullKeys_eq, h, map_snd_keepLines, List.mem_filterMap,
    List.mem_filterMap]
  constructor
  · rintro ⟨l, hl, hnull⟩
    obtain ⟨hl, hkept⟩ := List.mem_filter.mp hl
    refine ⟨⟨l, hl, hnull⟩, fun hmem => ?_⟩
    simp [Line.isDropped, hnull, hmem] at hkept
  · rintro ⟨⟨l, hl, hnull⟩, hkey⟩
    exact ⟨l, List.mem_filter.mpr ⟨hl, by simp [Line.isDropped, hnull, hkey]⟩, hnull⟩

/-- The replacements of the names, one after the other. -/
def removeNullMembers (names : List String) (text : List Char) : List Char :=
  names.foldl (fun text name => removeNullMember name text) text

/-- The passes leave the lines of the other members. -/
theorem removeNullMembers_render {names : List String}
    (hnames : ∀ name ∈ names, ∀ c ∈ name.toList, isPlain c = true) {ls : Lines} (hne : ls ≠ [])
    (hindented : Indented ls) (hkeys : ∀ name ∈ names, NotQuoted name (lineNullKeys ls)) :
    ∃ ls', removeNullMembers names (render ls) = render ls' ∧
      ls'.map Prod.snd = (keepLines names ls).map Prod.snd := by
  induction names generalizing ls with
  | nil =>
      refine ⟨ls, rfl, ?_⟩
      rw [map_snd_keepLines, List.filter_eq_self.mpr fun l _ => by
        cases hkey : l.nullKey <;> simp [Line.isDropped, hkey]]
  | cons name names ih =>
      have hpass := removeNullMember_render (hnames name List.mem_cons_self) hindented
        (hkeys name List.mem_cons_self) hne 0
      have hsnd := map_snd_dropLines name 0 ls
      obtain ⟨l, rest, hhead, -⟩ := head_dropLines hindented hne name 0
      obtain ⟨ls', htext, hls'⟩ := ih (fun n hn => hnames n (List.mem_cons_of_mem name hn))
        (by rw [hhead]; exact List.cons_ne_nil l rest) (hindented.dropLines name 0)
        fun n hn key hkey => hkeys n (List.mem_cons_of_mem name hn) key
          ((mem_lineNullKeys_iff hsnd key).mp hkey).1
      refine ⟨ls', ?_, ?_⟩
      · rw [← htext, ← hpass]
        rfl
      · rw [hls', map_snd_keepLines, hsnd, map_snd_keepLines, map_snd_keepLines, List.filter_filter]
        refine List.filter_congr fun l _ => ?_
        cases hkey : l.nullKey with
        | none => simp [Line.isDropped, hkey]
        | some key => simp [Line.isDropped, hkey, Bool.and_comm]

theorem infix_removeNullMembers {names : List String}
    (hnames : ∀ name ∈ names, ∀ c ∈ name.toList, isPlain c = true) {text : List Char}
    (h : ['\\', '\t'] <:+: text) : ['\\', '\t'] <:+: removeNullMembers names text := by
  induction names generalizing text with
  | nil => exact h
  | cons name names ih =>
      have hplain := hnames name List.mem_cons_self
      refine ih (fun n hn => hnames n (List.mem_cons_of_mem name hn)) ?_
      refine infix_replaceAll (by simp) ?_ ?_ h []
      · rw [List.mem_append]
        exact not_or.mpr ⟨not_mem_nullMember hplain (.inr (.inr rfl)), by decide⟩
      · rw [List.mem_append]
        exact not_or.mpr ⟨not_mem_nullMember hplain (.inr (.inl rfl)), by decide⟩

/-- A key that ends in a quote and a name breaks the text. -/
theorem removeNullMembers_broken {names : List String}
    (hnames : ∀ name ∈ names, ∀ c ∈ name.toList, isPlain c = true) {ls : Lines} (hne : ls ≠ [])
    (hindented : Indented ls) (hkeys : ¬ ∀ name ∈ names, NotQuoted name (lineNullKeys ls)) :
    ['\\', '\t'] <:+: removeNullMembers names (render ls) := by
  induction names generalizing ls with
  | nil => exact absurd (fun name hname => absurd hname List.not_mem_nil) hkeys
  | cons name names ih =>
      have hplain := hnames name List.mem_cons_self
      have hrest : ∀ n ∈ names, ∀ c ∈ n.toList, isPlain c = true :=
        fun n hn => hnames n (List.mem_cons_of_mem name hn)
      by_cases hfirst : NotQuoted name (lineNullKeys ls)
      · -- this pass is harmless, so a later one is not
        have hpass := removeNullMember_render hplain hindented hfirst hne 0
        obtain ⟨l, rest, hhead, -⟩ := head_dropLines hindented hne name 0
        have hstill : ¬ ∀ n ∈ names, NotQuoted n (lineNullKeys (dropLines name 0 ls)) := by
          intro hall
          refine hkeys (List.forall_mem_cons.mpr ⟨hfirst, fun n hn key hkey hquoted => ?_⟩)
          have hdifferent : key ∉ [name] := by
            rw [List.mem_singleton]
            rintro rfl
            exact absurd (hplain '"' (hquoted.mem List.mem_cons_self)) (by decide)
          exact hall n hn key ((mem_lineNullKeys_iff (map_snd_dropLines name 0 ls) key).mpr
            ⟨hkey, hdifferent⟩) hquoted
        have hbroken := ih hrest (by rw [hhead]; exact List.cons_ne_nil l rest)
          (hindented.dropLines name 0) hstill
        rw [← hpass] at hbroken
        exact hbroken
      · exact infix_removeNullMembers hrest (removeNullMember_broken hplain hindented hfirst)

/-- No text with a backslash before a tab is JSON. -/
theorem scan_eq_none {text : List Char} (h : ['\\', '\t'] <:+: text) (state : ScanState) :
    scan state text = none := by
  obtain ⟨a, b, rfl⟩ := h
  induction a generalizing state with
  | nil =>
      rw [List.nil_append, List.cons_append, scan_cons]
      cases state with
      | out => rfl
      | word w => rfl
      | str s high =>
          have htab : scan (.escape s high) ('\t' :: b) = none := by rw [scan_cons]; rfl
          exact congrArg (Option.map ([] ++ ·)) htab
      | escape s high =>
          have htab : scan (.str ('\\' :: flush s high) none) ('\t' :: b) = none := by
            rw [scan_cons]
            rfl
          exact congrArg (Option.map ([] ++ ·)) htab
      | hex s high left code => rfl
  | cons c a ih =>
      rw [List.cons_append, List.cons_append, scan_cons]
      cases hstep : scanStep state c with
      | none => rfl
      | some r =>
          rw [Option.bind_some, ih]
          rfl

end Hfrd.Go
