/-
  Hfrd.Chaincode.MarblesRange

  What `getMarblesByRange` of the marbles chaincode returns, in any state that
  is reached: the marbles of the range in the order of their names, and a text
  that says so wherever no name has to be escaped.
-/

import Hfrd.Chaincode.MarblesRegistry
import Hfrd.Chaincode.Records

namespace Hfrd.Chaincode

open Hfrd.Go Hfrd.Lib

namespace Marbles

variable {env : Env} {s : Ledger String String}

/-- The entry of a marble. -/
def marbleEntry (m : Marble) : String × Value := (m.name, .object m.members)

/-- The array of some marbles. -/
def marbleRecords (ms : List Marble) : Value := .array (recordValues (ms.map marbleEntry))

theorem decoded_marbleRecords (ms : List Marble) :
    (marbleRecords ms).decoded = marbleRecords ms := by
  have hrecord : ∀ m ∈ ms, (record m.name (.object m.members)).decoded =
      record m.name (.object m.members) := fun m _ => by
    simp [record, Marble.members, Value.decoded, Value.decodedFields]
  simp only [marbleRecords, Value.decoded, Value.decodedElements_eq, recordValues, List.map_map]
  exact congrArg Value.array (List.map_congr_left hrecord)

/-- A range has no index entries, so every entry in it is a marble. -/
theorem exists_marbles (hs : Sound env s) {startKey endKey : String} {found : String → Bool}
    (hfound : env.keys.range startKey endKey = .ok found) :
    ∃ ms : List Marble, s.select found = ms.map fun m => (m.name, m.marshal) := by
  have hentries : ∀ e ∈ s.select found, ∃ m : Marble, e = (m.name, m.marshal) := by
    rintro ⟨k, v⟩ he
    obtain ⟨hget, hk⟩ := Ledger.mem_select_iff.mp he
    cases hs k v hget with
    | marble m key => exact ⟨m, rfl⟩
    | index m key hkey =>
        rw [env.keys.range_create hfound hkey] at hk
        cases hk
  generalize s.select found = entries at hentries
  induction entries with
  | nil => exact ⟨[], rfl⟩
  | cons e entries ih =>
      obtain ⟨⟨m, rfl⟩, hrest⟩ := List.forall_mem_cons.mp hentries
      obtain ⟨ms, rfl⟩ := ih hrest
      exact ⟨m :: ms, rfl⟩

theorem mem_marbles_iff (hs : Sound env s) {found : String → Bool} {ms : List Marble}
    (hms : s.select found = ms.map fun m => (m.name, m.marshal)) (m : Marble) :
    m ∈ ms ↔ registry s m.name = some m ∧ found m.name = true := by
  have hentry : m ∈ ms ↔ (m.name, m.marshal) ∈ ms.map fun m => (m.name, m.marshal) := by
    refine ⟨fun hm => List.mem_map.mpr ⟨m, hm, rfl⟩, fun hm => ?_⟩
    obtain ⟨m', hm', heq⟩ := List.mem_map.mp hm
    exact Marble.marshal_injective (Prod.mk.inj heq).2 ▸ hm'
  rw [hentry, ← hms, Ledger.mem_select_iff, registry_eq_some_iff hs, and_iff_right rfl]

/-- The names of the marbles that are found are in order. -/
theorem sorted_marbles {found : String → Bool} {ms : List Marble}
    (hms : s.select found = ms.map fun m => (m.name, m.marshal)) :
    ms.Pairwise fun m m' => m.name < m'.name := by
  have hsorted := Ledger.sorted_filter (fun e => found e.1) s.sorted
  rw [← Ledger.select, hms, List.map_map, List.pairwise_map] at hsorted
  exact hsorted

theorem getMarblesByRange_eq_ok {stub : Stub String String} {args : List String}
    {out : Endorsement String String} (h : getMarblesByRange env stub args = .ok out) :
    ∃ startKey endKey rest found text, args = startKey :: endKey :: rest ∧
      env.keys.range startKey endKey = .ok found ∧ out = (some text, []) ∧
      text.toList = recordsText (stub.state.select found) := by
  unfold getMarblesByRange at h
  split at h
  · next startKey endKey rest =>
      simp only [Go.bind_eq_ok, orError_eq_ok, answer_eq_ok, writeRecords_eq_ok] at h
      obtain ⟨found, hfound, _, ⟨-, rfl⟩, buffer, ⟨-, hbuffer⟩, hout⟩ := h
      exact ⟨startKey, endKey, rest, found, buffer ++ "]", rfl, hfound,
        (Except.ok.inj hout).symm, toList_closed hbuffer⟩
  · cases h

/-- **The marbles of a range are listed**, in the order of their names: the payload
    is the text of their records, and the JSON of the list exactly if no name has
    to be escaped. -/
theorem getMarblesByRange_of_exec {txs : List Transaction}
    (h : (system env).exec (Ledger.empty String String) txs = some s) {tx : Transaction}
    (hf : tx.function = "getMarblesByRange") {out : Endorsement String String}
    (hout : simulate env s tx = .ok out) :
    ∃ startKey endKey rest found text ms, tx.args = startKey :: endKey :: rest ∧
      env.keys.range startKey endKey = .ok found ∧ out = (some text, []) ∧
      List.Pairwise (fun m m' : Marble => m.name < m'.name) ms ∧
      (∀ m, m ∈ ms ↔ registry s m.name = some m ∧ found m.name = true) ∧
      text.toList = recordsText (ms.map fun m => (m.name, m.marshal)) ∧
      (parse text.toList = some (marbleRecords ms) ↔ ∀ m ∈ ms, isRaw m.name = true) := by
  have hs : Sound env s :=
    (Lts.Run.of_exec h).preserves (fun _ _ _ hs _ h => sound_step hs h) sound_empty
  have hout : invoke env ⟨tx.peer, s⟩ tx.function tx.args = .ok out := hout
  have hrange : getMarblesByRange env ⟨tx.peer, s⟩ tx.args = .ok out := by
    simpa [invoke, hf] using hout
  obtain ⟨startKey, endKey, rest, found, text, hargs, hfound, rfl, htext⟩ :=
    getMarblesByRange_eq_ok hrange
  -- no index entry is in a range of simple keys
  obtain ⟨ms, hms⟩ := exists_marbles hs hfound
  refine ⟨startKey, endKey, rest, found, text, ms, hargs, hfound, rfl, sorted_marbles hms,
    mem_marbles_iff hs hms, hms ▸ htext, ?_⟩
  have hiff := parse_records_iff (ms.map marbleEntry)
  have htexts : s.select found =
      (ms.map marbleEntry).map fun e => (e.1, String.ofList e.2.text) := by
    rw [hms, List.map_map]
    rfl
  rw [htext, htexts]
  rw [← marbleRecords, decoded_marbleRecords] at hiff
  exact hiff.trans List.forall_mem_map

theorem getMarblesByRange_oneMarble : ∃ text ms,
    simulate fabricEnv oneMarble (quiet "getMarblesByRange" ["marble1", "marble2"]) =
      .ok (some text, []) ∧
      (∀ m, m ∈ ms ↔ registry oneMarble m.name = some m ∧
        decide (m.name.toList.head? ≠ some separator) = true ∧ "marble1" ≤ m.name ∧
          m.name < "marble2") ∧
      (parse text.toList = some (marbleRecords ms) ↔ ∀ m ∈ ms, isRaw m.name = true) := by
  have hok : (simulate fabricEnv oneMarble
      (quiet "getMarblesByRange" ["marble1", "marble2"])).toBool = true := by decide +kernel
  obtain ⟨out, hout⟩ := toBool_eq_true_iff.mp hok
  obtain ⟨startKey, endKey, rest, found, text, ms, hargs, hfound, rfl, -, hms, -, hiff⟩ :=
    getMarblesByRange_of_exec (Ledger.exec_lts _ _) rfl hout
  obtain ⟨rfl, hrest⟩ := List.cons.inj hargs
  obtain ⟨rfl, -⟩ := List.cons.inj hrest
  refine ⟨text, ms, hout, fun m => (hms m).trans (and_congr_right fun _ => ?_), hiff⟩
  rw [← Except.ok.inj hfound]
  simp [and_assoc]

end Marbles

end Hfrd.Chaincode
