/-
  Hfrd.Go.Csv

  The value of a `StringSlice` flag: one record as `encoding/csv` reads it.

  A field that does not start with a quote runs to the next comma and may not
  hold a quote; a quoted field may hold commas and line ends, and a doubled
  quote stands for one.  The reader skips empty lines in front of the record
  and does not look at what follows it.
-/

import Mathlib.Data.List.Basic

namespace Hfrd.Go

/-! ## Reading a record -/

/-- A carriage return is dropped before a line end and at the end of the text. -/
def normalizeNL : List Char → List Char
  | [] => []
  | c :: cs =>
      if c = '\r' ∧ (cs = [] ∨ cs.head? = some '\n') then normalizeNL cs
      else c :: normalizeNL cs

/-- Where the reader is in a field. -/
inductive CsvMode
  | start
  | bare
  | quoted
  /-- Behind a quote inside a quoted field. -/
  | quote
deriving DecidableEq

/-- The fields of a record; what is read of the current one stands in reverse. -/
def readRecord : CsvMode → List Char → List Char → Option (List (List Char))
  | .quoted, _, [] => none
  | .start, field, [] | .bare, field, [] | .quote, field, [] => some [field.reverse]
  | .quoted, field, c :: cs =>
      if c = '"' then readRecord .quote field cs else readRecord .quoted (c :: field) cs
  | mode, field, c :: cs =>
      if c = ',' then (readRecord .start [] cs).map (field.reverse :: ·)
      else if c = '\n' then some [field.reverse]
      else match mode with
        | .start => if c = '"' then readRecord .quoted [] cs else readRecord .bare [c] cs
        -- a bare quote
        | .bare => if c = '"' then none else readRecord .bare (c :: field) cs
        | _ => if c = '"' then readRecord .quoted ('"' :: field) cs else none

/-- `readAsCSV`; `none` is an error of the flag. -/
def readAsCSV (val : String) : Option (List String) :=
  if val = "" then some []
  else match (normalizeNL val.toList).dropWhile (· = '\n') with
    | [] => none
    | record => (readRecord .start [] record).map fun fields => fields.map String.ofList

/-! ## Fields without quotes -/

/-- No quote, no line end and no comma. -/
def Unquoted (cs : List Char) : Prop := '"' ∉ cs ∧ '\n' ∉ cs ∧ ',' ∉ cs

theorem unquoted_cons {c : Char} {cs : List Char} (h : Unquoted (c :: cs)) :
    (c ≠ '"' ∧ c ≠ '\n' ∧ c ≠ ',') ∧ Unquoted cs := by
  obtain ⟨hquote, hline, hcomma⟩ := h
  simp only [List.mem_cons, not_or] at hquote hline hcomma
  exact ⟨⟨Ne.symm hquote.1, Ne.symm hline.1, Ne.symm hcomma.1⟩, hquote.2, hline.2, hcomma.2⟩

theorem readRecord_bare {field : List Char} (h : Unquoted field) (acc rest : List Char) :
    readRecord .bare acc (field ++ ',' :: rest)
      = (readRecord .start [] rest).map ((acc.reverse ++ field) :: ·) := by
  induction field generalizing acc with
  | nil => simp [readRecord]
  | cons c field ih =>
      obtain ⟨⟨hquote, hline, hcomma⟩, h⟩ := unquoted_cons h
      rw [List.cons_append, readRecord, if_neg hcomma, if_neg hline, if_neg hquote, ih h]
      simp

/-- A field that ends in a comma. -/
theorem readRecord_start {field : List Char} (h : Unquoted field) (rest : List Char) :
    readRecord .start [] (field ++ ',' :: rest)
      = (readRecord .start [] rest).map (field :: ·) := by
  cases field with
  | nil => simp [readRecord]
  | cons c field =>
      obtain ⟨⟨hquote, hline, hcomma⟩, h⟩ := unquoted_cons h
      rw [List.cons_append, readRecord, if_neg hcomma, if_neg hline]
      simp only [if_neg hquote, readRecord_bare h, List.reverse_singleton, List.singleton_append]

theorem readRecord_fields {fields : List (List Char)} (h : ∀ field ∈ fields, Unquoted field) :
    readRecord .start [] (fields.flatMap (· ++ [','])) = some (fields ++ [[]]) := by
  induction fields with
  | nil => rfl
  | cons field fields ih =>
      rw [List.flatMap_cons, List.append_assoc, List.singleton_append,
        readRecord_start (h field List.mem_cons_self),
        ih fun f hf => h f (List.mem_cons_of_mem field hf)]
      rfl

/-- A text without line ends that does not end in a carriage return. -/
theorem normalizeNL_eq {cs : List Char} (hline : '\n' ∉ cs) (hlast : cs.getLast? ≠ some '\r') :
    normalizeNL cs = cs := by
  induction cs with
  | nil => rfl
  | cons c cs ih =>
      have hkeep : ¬ (c = '\r' ∧ (cs = [] ∨ cs.head? = some '\n')) := by
        rintro ⟨rfl, rfl | hhead⟩
        · exact hlast rfl
        · exact hline (List.mem_cons_of_mem _ (List.mem_of_mem_head? hhead))
      rw [normalizeNL, if_neg hkeep]
      cases cs with
      | nil => rfl
      | cons d cs =>
          rw [List.getLast?_cons_cons] at hlast
          rw [ih (fun h => hline (List.mem_cons_of_mem c h)) hlast]

/-- A text without line ends or empty lines is read as it stands. -/
theorem readAsCSV_line {cs : List Char} (hne : cs ≠ []) (hline : '\n' ∉ cs)
    (hlast : cs.getLast? ≠ some '\r') :
    readAsCSV (String.ofList cs)
      = (readRecord .start [] cs).map fun fields => fields.map String.ofList := by
  cases cs with
  | nil => exact absurd rfl hne
  | cons c cs =>
      have hc : ¬ c = '\n' := fun h => hline (h ▸ List.mem_cons_self)
      have htext : String.ofList (c :: cs) ≠ "" := by
        intro h
        exact absurd (String.ofList_injective (h.trans String.ofList_nil.symm)) (by simp)
      rw [readAsCSV, if_neg htext, String.toList_ofList, normalizeNL_eq hline hlast,
        List.dropWhile_cons, if_neg (by simpa using hc)]

/-- A text of fields that are each followed by a comma gives the fields, and
    an empty one behind the last comma. -/
theorem readAsCSV_fields {fields : List String} (hne : fields ≠ [])
    (h : ∀ field ∈ fields, Unquoted field.toList) :
    readAsCSV (String.ofList (fields.flatMap fun field => field.toList ++ [',']))
      = some (fields ++ [""]) := by
  have hpieces : ∀ piece ∈ fields.map String.toList, Unquoted piece := by
    intro piece hpiece
    obtain ⟨field, hfield, rfl⟩ := List.mem_map.mp hpiece
    exact h field hfield
  have htext : fields.flatMap (fun field => field.toList ++ [','])
      = (fields.map String.toList).flatMap (· ++ [',']) := by
    rw [List.flatMap_map]
  have hline : '\n' ∉ fields.flatMap fun field => field.toList ++ [','] := by
    intro hmem
    obtain ⟨field, hfield, hmem⟩ := List.mem_flatMap.mp hmem
    rcases List.mem_append.mp hmem with hmem | hmem
    · exact (h field hfield).2.1 hmem
    · exact absurd (List.mem_singleton.mp hmem) (by decide)
  have hlast : (fields.flatMap fun field => field.toList ++ [',']).getLast? = some ',' := by
    obtain ⟨init, field, rfl⟩ := (List.eq_nil_or_concat fields).resolve_left hne
    simp
  have hnonempty : fields.flatMap (fun field => field.toList ++ [',']) ≠ [] := by
    intro hnil
    rw [hnil] at hlast
    cases hlast
  rw [readAsCSV_line hnonempty hline (by rw [hlast]; decide), htext, readRecord_fields hpieces,
    Option.map_some, List.map_append, List.map_map]
  simp

end Hfrd.Go
