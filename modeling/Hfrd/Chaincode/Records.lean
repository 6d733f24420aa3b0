/-
  Hfrd.Chaincode.Records

  The JSON array that the query functions write.

  The keys are written between quotes as they are.  So the array is read back
  as the entries that were found exactly if no key has a character that would
  have to be escaped.
-/

import Hfrd.Chaincode.Shim
import Hfrd.Go.JsonExact

namespace Hfrd.Chaincode

open Hfrd.Go Hfrd.Lib

/-! ## What is written -/

/-- The text of one entry. -/
def recordText (key value : String) : List Char :=
  ("\x7b\"Key\":" ++ "\"" ++ key ++ "\"" ++ ", \"Record\":" ++ value ++ "\x7d").toList

/-- What the loop adds to the buffer. -/
def recordsFrom : Bool → List (String × String) → List Char
  | _, [] => []
  | written, (key, value) :: entries =>
      (if written then [','] else []) ++ recordText key value ++ recordsFrom true entries

theorem writeRecords_eq_ok {κ : Type} {peer : Peer κ String} {next : String → Call κ}
    {written : Bool} {buffer : String} {entries : List (String × String)} {out : String} :
    peer.writeRecords next written buffer entries = .ok out ↔
      (∀ e ∈ entries, peer.fault (next e.1) = none) ∧
        out.toList = buffer.toList ++ recordsFrom written entries := by
  induction entries generalizing written buffer with
  | nil =>
      rw [recordsFrom, List.append_nil, and_iff_right nofun]
      exact ⟨fun h => by rw [Except.ok.inj h], fun h => congrArg _ (String.toList_inj.mp h).symm⟩
  | cons e entries ih =>
      obtain ⟨key, value⟩ := e
      simp only [Peer.writeRecords, Go.bind_eq_ok, orError_eq_ok, answer_eq_ok, ih, recordsFrom,
        List.forall_mem_cons]
      have htext : ∀ b : String, (b ++ "\x7b\"Key\":" ++ "\"" ++ key ++ "\"" ++ ", \"Record\":" ++
          value ++ "\x7d").toList = b.toList ++ recordText key value := by
        intro b
        simp [recordText, String.toList_append, List.append_assoc]
      rw [htext]
      constructor
      · rintro ⟨_, ⟨hnext, -⟩, hrest, hout⟩
        refine ⟨⟨hnext, hrest⟩, ?_⟩
        cases written <;> simpa [List.append_assoc] using hout
      · rintro ⟨⟨hnext, hrest⟩, hout⟩
        refine ⟨(), ⟨hnext, trivial⟩, hrest, ?_⟩
        cases written <;> simpa [List.append_assoc] using hout

theorem recordsFrom_eq (entries : List (String × String)) :
    recordsFrom false entries = [','].intercalate (entries.map fun e => recordText e.1 e.2) := by
  cases entries with
  | nil => rfl
  | cons e entries =>
      rw [recordsFrom, if_neg (by decide), List.nil_append]
      induction entries generalizing e with
      | nil => simp [recordsFrom]
      | cons f entries ih =>
          have hrest := ih f
          rw [List.map_cons] at hrest
          rw [List.map_cons, List.map_cons, List.intercalate_cons_cons, ← hrest, recordsFrom]
          simp

/-- The buffer with its brackets. -/
def recordsText (entries : List (String × String)) : List Char :=
  '[' :: [','].intercalate (entries.map fun e => recordText e.1 e.2) ++ [']']

theorem toList_closed {buffer : String} {entries : List (String × String)}
    (h : buffer.toList = "[".toList ++ recordsFrom false entries) :
    (buffer ++ "]").toList = recordsText entries := by
  have hopen : "[".toList = ['['] := rfl
  have hclose : "]".toList = [']'] := rfl
  simp only [String.toList_append, h, recordsFrom_eq, recordsText, hopen, hclose,
    List.cons_append, List.nil_append]

/-! ## What is read -/

/-- The JSON object of an entry. -/
def record (key : String) (v : Value) : Value := .object [("Key", .string key), ("Record", v)]

/-- The text of a record before its key. -/
def recordHead : List Char := ['{'] ++ quote "Key" ++ [':']

/-- The text of a record after the quote at the end of the key. -/
def recordTail (v : Value) : List Char :=
  [','] ++ [' '] ++ (quote "Record" ++ [':']) ++ v.text ++ ['}']

theorem recordText_text (key : String) (v : Value) :
    recordText key (String.ofList v.text) =
      recordHead ++ ('"' :: key.toList ++ '"' :: recordTail v) := by
  have hhead : "\x7b\"Key\":".toList = recordHead := by decide
  have hname : ", \"Record\":".toList = [','] ++ [' '] ++ (quote "Record" ++ [':']) := by decide
  have hquote : "\"".toList = ['"'] := rfl
  have hclose : "\x7d".toList = ['}'] := rfl
  simp only [recordText, recordTail, String.toList_append, String.toList_ofList, List.append_assoc,
    hhead, hname, hquote, hclose, List.cons_append, List.nil_append]

theorem readsAs_recordHead :
    ReadsAs recordHead ([.punct '{'] ++ [.str "Key".toList] ++ [.punct ':']) :=
  ((readsAs_punct (by decide)).append (readsAs_quote "Key")).append (readsAs_punct (by decide))

theorem readsAs_recordTail (v : Value) : ReadsAs (recordTail v)
    ([.punct ','] ++ [] ++ ([.str "Record".toList] ++ [.punct ':']) ++ v.tokens ++
      [.punct '}']) := by
  have hcomma : ReadsAs [','] [.punct ','] := readsAs_punct (by decide)
  have hspace : ReadsAs [' '] [] := readsAs_space (by decide)
  have hcolon : ReadsAs [':'] [.punct ':'] := readsAs_punct (by decide)
  have hname := (hcomma.append hspace).append ((readsAs_quote "Record").append hcolon)
  exact (hname.append_apart v.reads).append (by decide) (readsAs_punct (by decide))

theorem tokens_record (key : String) (v : Value) : (record key v).tokens =
    ([.punct '{'] ++ [.str "Key".toList] ++ [.punct ':']) ++ .str key.toList ::
      ([.punct ','] ++ [] ++ ([.str "Record".toList] ++ [.punct ':']) ++ v.tokens ++
        [.punct '}']) := by
  simp only [record, Value.tokens, Value.fieldTokens, Scalar.token, List.intercalate_cons_cons,
    List.intercalate_singleton, List.cons_append, List.nil_append]

theorem reads_record {key : String} (h : isRaw key = true) (v : Value) :
    ReadsAs (recordText key (String.ofList v.text)) (record key v).tokens := by
  have hrecord := readsAs_recordHead.append ((readsAs_raw h).append (readsAs_recordTail v))
  rw [recordText_text, tokens_record]
  simpa only [List.append_assoc, List.cons_append, List.nil_append] using hrecord

theorem tokens_decoded (v : Value) : v.decoded.tokens = v.tokens := by
  have h := v.decoded.scan_text
  rw [Value.text_decoded, v.scan_text] at h
  exact (Option.some.inj h).symm

/-- The texts of the entries. -/
def recordTexts (entries : List (String × Value)) : List (List Char) :=
  entries.map fun e => recordText e.1 (String.ofList e.2.text)

/-- The objects of the entries. -/
def recordValues (entries : List (String × Value)) : List Value :=
  entries.map fun e => record e.1 e.2

theorem reads_recordTexts {entries : List (String × Value)} (h : ∀ e ∈ entries, isRaw e.1 = true) :
    List.Forall₂ ReadsApart (recordTexts entries) (Value.elementTokens (recordValues entries)) := by
  induction entries with
  | nil => exact .nil
  | cons e entries ih =>
      obtain ⟨he, hentries⟩ := List.forall_mem_cons.mp h
      exact .cons (reads_record he e.2).apart (ih hentries)

/-- The text of the first entry is read as its object only if its key is raw. -/
theorem isRaw_of_scan_record {key : String} {v : Value} {rest : List Char} {toks : List Token}
    (h : scan .out (recordText key (String.ofList v.text) ++ rest) =
      some ((record key v).tokens ++ toks)) : isRaw key = true := by
  rw [recordText_text, tokens_record, List.append_assoc, readsAs_recordHead,
    Option.map_eq_some_iff] at h
  obtain ⟨toks', hscan, htoks⟩ := h
  rw [List.append_assoc _ (_ :: _) toks] at htoks
  rw [List.append_cancel_left htoks] at hscan
  have htail : '"' :: key.toList ++ '"' :: recordTail v ++ rest =
      '"' :: key.toList ++ '"' :: ',' :: ' ' :: '"' ::
        ((quote "Record").tail ++ [':'] ++ v.text ++ ['}'] ++ rest) := by
    have hquote : recordTail v = ',' :: ' ' :: '"' ::
        ((quote "Record").tail ++ [':'] ++ v.text ++ ['}']) := rfl
    simp only [hquote, List.cons_append, List.append_assoc]
  rw [htail] at hscan
  exact isRaw_of_scan hscan

/-- One entry after the other: its text is read, then the comma. -/
theorem isRaw_of_scan_records {entries : List (String × Value)} {rest : List Char}
    {toks : List Token}
    (h : scan .out ([','].intercalate (recordTexts entries) ++ rest) =
      some ([Token.punct ','].intercalate (Value.elementTokens (recordValues entries)) ++ toks)) :
    ∀ e ∈ entries, isRaw e.1 = true := by
  induction entries with
  | nil => exact fun e he => absurd he List.not_mem_nil
  | cons e entries ih =>
      cases entries with
      | nil =>
          simp only [recordTexts, recordValues, Value.elementTokens, List.map_cons, List.map_nil,
            List.intercalate_singleton] at h
          simpa using isRaw_of_scan_record h
      | cons f entries =>
          simp only [recordTexts, recordValues, Value.elementTokens, List.map_cons,
            List.intercalate_cons_cons, List.append_assoc] at h
          have he := isRaw_of_scan_record h
          rw [reads_record he e.2, readsAs_punct (by decide), Option.map_map,
            Option.map_eq_some_iff] at h
          obtain ⟨toks', hscan, htoks⟩ := h
          have hrest := List.append_cancel_left (List.append_cancel_left htoks)
          rw [hrest] at hscan
          exact List.forall_mem_cons.mpr ⟨he, ih hscan⟩

/-- **The array is read back exactly if no key needs an escape.** -/
theorem parse_records_iff (entries : List (String × Value)) :
    parse (recordsText (entries.map fun e => (e.1, String.ofList e.2.text))) =
        some (Value.array (recordValues entries)).decoded ↔
      ∀ e ∈ entries, isRaw e.1 = true := by
  have htext : recordsText (entries.map fun e => (e.1, String.ofList e.2.text)) =
      '[' :: [','].intercalate (recordTexts entries) ++ [']'] := by
    rw [recordsText, List.map_map, recordTexts]
    rfl
  rw [htext]
  constructor
  · intro h
    have hscan := scan_of_parse h
    have hopen : ReadsAs ['['] [.punct '['] := readsAs_punct (by decide)
    rw [tokens_decoded, Value.tokens, List.cons_append, List.cons_append, ← List.singleton_append,
      hopen, Option.map_eq_some_iff] at hscan
    obtain ⟨toks, hscan, htoks⟩ := hscan
    rw [List.singleton_append] at htoks
    rw [(List.cons.inj htoks).2] at hscan
    exact isRaw_of_scan_records hscan
  · intro h
    refine parse_of_scan ?_
    have hopen : isPunct '[' = true := by decide
    have hclose : isPunct ']' = true := by decide
    have hscan := reads_bracketed hopen hclose (by decide) (reads_recordTexts h) []
    rw [List.append_nil] at hscan
    rw [hscan, scan, Option.map_some, List.append_nil, Value.tokens]

end Hfrd.Chaincode
