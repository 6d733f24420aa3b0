/-
  Hfrd.Api.ForceSave

  What a forced save tells its caller (`ForceSaveJob` and `ForceSaveNetwork` of
  api/utils/couch/couch.go).

  A call puts the document, and on a conflict reads the stored revision and
  puts the document again.  Before, between and after its requests other
  writers may leave any database behind.

  The error of the first put stays in the outer `err`: every later error is
  declared in a scope of its own.  `ForceSaveJob` returns nil behind an accepted
  retry; `ForceSaveNetwork` falls through to the outer `err`.
-/

import Hfrd.Api.Couch
import Hfrd.Go.Strconv
import Hfrd.Lib.Lts

namespace Hfrd.Api

open Hfrd.Go Hfrd.Lib RevDoc RevStore

/-- The error of a document that was written in between. -/
def updateDocConflictErr : String := "Conflict: Document update conflict."

/-! ## Requests -/

/-- How the database answers a request. -/
structure CouchAnswer where
  /-- The error of a request that fails whatever is stored. -/
  fault : GoError
  /-- The text of a conflict. -/
  conflict : String
  /-- The error of decoding a row. -/
  scan : GoError

/-- A `Put` that was answered, with the database before and after it. -/
structure PutCall (D : Type) [RevDoc String D] where
  doc : D
  before : RevStore String D
  after : RevStore String D
  err : GoError

/-- Where a call is. -/
inductive SavePc
  | put
  /-- The first put returned the conflict `err`. -/
  | get (err : String)
  | putAgain (err : String)
  | returned (rev : Nat) (err : GoError)
deriving DecidableEq

/-- One call, and the database it shares with the other writers. -/
structure SaveState (D : Type) [RevDoc String D] where
  db : RevStore String D
  /-- The caller's document, whose revision the call sets. -/
  doc : D
  pc : SavePc
  /-- The puts of this call so far. -/
  puts : List (PutCall D)

/-- A request of the call, or any steps of other writers. -/
inductive SaveLabel (D : Type) [RevDoc String D]
  | request (answer : CouchAnswer)
  | others (db : RevStore String D)

variable {D : Type} [RevDoc String D]

/-- `db.Put(context.TODO(), doc.ID, doc)`: the database behind it, the new
    revision (empty where the put fails) and the error. -/
def couchPut (db : RevStore String D) (doc : D) (answer : CouchAnswer) :
    RevStore String D × Nat × GoError :=
  match answer.fault with
  | some err => (db, 0, some err)
  | none => match db.put doc with
    | some after => (after, rev doc + 1, none)
    | none => (db, 0, some answer.conflict)

/-- `db.Get(context.TODO(), id)`, and what `row.ScanDoc` makes of the row. -/
def couchGet (db : RevStore String D) (id : String) (answer : CouchAnswer) :
    Except String (Except String D) :=
  match answer.fault with
  | some err => .error err
  | none => match db.get id with
    | none => .error "Not Found: missing"
    | some doc => match answer.scan with
      | some err => .ok (.error err)
      | none => .ok (.ok doc)

/-! ## The two functions -/

/-- The call has its document put and goes on at `pc`. -/
def SaveState.afterPut (s : SaveState D) (answer : CouchAnswer) (pc : Nat → GoError → SavePc) :
    SaveState D :=
  let (db, rev, err) := couchPut s.db s.doc answer
  { db := db, doc := s.doc, pc := pc rev err, puts := s.puts ++ [⟨s.doc, s.db, db, err⟩] }

/-- One request of a call.  `afterRetry` is the error returned behind an
    accepted retry, from the conflict of the first put. -/
def forceSaveRequest (afterRetry : String → GoError) (s : SaveState D) (answer : CouchAnswer) :
    Option (SaveState D) :=
  match s.pc with
  | .put => some <| s.afterPut answer fun rev err => match err with
      | none => .returned rev none
      | some err =>
          -- the text decides
          if err = updateDocConflictErr then .get err else .returned rev (some err)
  | .get err => match couchGet s.db (key s.doc) answer with
      -- the error of `Get` is only logged
      | .error _ => some { s with pc := .returned 0 (some err) }
      | .ok (.error scanErr) => some { s with pc := .returned 0 (some scanErr) }
      | .ok (.ok doc) => some { s with doc := withRev s.doc (rev doc), pc := .putAgain err }
  | .putAgain err => some <| s.afterPut answer fun rev retryErr => match retryErr with
      | some retryErr => .returned rev (some retryErr)
      | none => .returned rev (afterRetry err)
  | .returned _ _ => none

/-- The system of one call and the other writers of its database. -/
def forceSave (afterRetry : String → GoError) : Lts (SaveState D) (SaveLabel D) where
  step s
  | .request answer => forceSaveRequest afterRetry s answer
  | .others db => some { s with db := db }

/-- `return rev, nil` behind an accepted retry. -/
def forceSaveJob : Lts (SaveState Job) (SaveLabel Job) := forceSave fun _ => none

/-- `return rev, err` behind an accepted retry, with the outer `err`. -/
def forceSaveNetwork : Lts (SaveState Network) (SaveLabel Network) := forceSave some

/-- The state in which a call begins. -/
def SaveState.call (db : RevStore String D) (doc : D) : SaveState D := ⟨db, doc, .put, []⟩

/-! ## What a call owes its caller -/

/-- The database takes the document. -/
def PutCall.accepted (put : PutCall D) : Bool := put.err.isNone

/-- Exactly one put was accepted, and what it wrote is `doc` but for the
    revision. -/
def SavedOnce (doc : D) (s : SaveState D) : Prop :=
  ∃ put, s.puts.filter PutCall.accepted = [put] ∧ withRev put.doc 0 = withRev doc 0 ∧
    put.after = put.before.write put.doc

/-- No put of the call left another database than it found. -/
def ChangedNothing (s : SaveState D) : Prop :=
  ∀ put ∈ s.puts, put.after = put.before

/-- What is returned says what was done. -/
def Truthful (doc : D) (s : SaveState D) : Prop :=
  ∀ rev err, s.pc = .returned rev err →
    (err = none ↔ SavedOnce doc s) ∧ (err ≠ none → ChangedNothing s)

/-- The step is a retry that the database accepts. -/
def RetryAccepted (s : SaveState D) : SaveLabel D → Prop
  | .request answer => (∃ err, s.pc = .putAgain err) ∧ answer.fault = none ∧
      rev s.doc = s.db.currentRev (key s.doc)
  | .others _ => False

/-! ## One request -/

theorem couchPut_cases (db : RevStore String D) (doc : D) (answer : CouchAnswer) :
    (answer.fault = none ∧ rev doc = db.currentRev (key doc) ∧
      couchPut db doc answer = (db.write doc, rev doc + 1, none)) ∨
    (¬ (answer.fault = none ∧ rev doc = db.currentRev (key doc)) ∧
      ∃ err, couchPut db doc answer = (db, 0, some err)) := by
  unfold couchPut
  cases hfault : answer.fault with
  | some err => exact Or.inr ⟨by simp, err, rfl⟩
  | none =>
      cases hput : db.put doc with
      | some after =>
          obtain ⟨hrev, rfl⟩ := put_eq_some.mp hput
          exact Or.inl ⟨rfl, hrev, rfl⟩
      | none =>
          refine Or.inr ⟨fun h => put_eq_none.mp hput h.2, answer.conflict, rfl⟩

/-- A put that was not accepted and left the database as it was. -/
def PutCall.Rejected (put : PutCall D) : Prop := put.err ≠ none ∧ put.after = put.before

/-- What one request of a call can do. -/
inductive ForceSaveStep (afterRetry : String → GoError) (s : SaveState D) (answer : CouchAnswer) :
    SaveState D → Prop
  | saved (err : GoError) : answer.fault = none → rev s.doc = s.db.currentRev (key s.doc) →
      (s.pc = .put ∧ err = none ∨ ∃ first, s.pc = .putAgain first ∧ err = afterRetry first) →
      ForceSaveStep afterRetry s answer
        { db := s.db.write s.doc, doc := s.doc, pc := .returned (rev s.doc + 1) err
          puts := s.puts ++ [⟨s.doc, s.db, s.db.write s.doc, none⟩] }
  | rejected (pc : SavePc) (err : String) :
      ¬ (answer.fault = none ∧ rev s.doc = s.db.currentRev (key s.doc)) →
      (s.pc = .put ∧ pc = .get err ∨
        (s.pc = .put ∨ ∃ first, s.pc = .putAgain first) ∧ pc = .returned 0 (some err)) →
      ForceSaveStep afterRetry s answer
        { s with pc := pc, puts := s.puts ++ [⟨s.doc, s.db, s.db, some err⟩] }
  | reread (first : String) (doc : D) : s.pc = .get first → s.db.get (key s.doc) = some doc →
      ForceSaveStep afterRetry s answer
        { s with doc := withRev s.doc (rev doc), pc := .putAgain first }
  | unread (first err : String) : s.pc = .get first →
      ForceSaveStep afterRetry s answer { s with pc := .returned 0 (some err) }

theorem couchGet_ok {db : RevStore String D} {id : String} {answer : CouchAnswer} {doc : D}
    (h : couchGet db id answer = .ok (.ok doc)) : db.get id = some doc := by
  unfold couchGet at h
  split at h
  · cases h
  · split at h
    · cases h
    · next stored hget =>
        split at h
        · cases h
        · cases h
          exact hget

/-- Inversion of `forceSaveRequest`. -/
theorem forceSaveRequest_inv {afterRetry : String → GoError} {s t : SaveState D}
    {answer : CouchAnswer} (h : forceSaveRequest afterRetry s answer = some t) :
    ForceSaveStep afterRetry s answer t := by
  unfold forceSaveRequest at h
  split at h
  · next hpc =>
      obtain rfl := Option.some.inj h
      unfold SaveState.afterPut
      rcases couchPut_cases s.db s.doc answer with ⟨hfault, hrev, hput⟩ | ⟨hnot, err, hput⟩
      · rw [hput]
        exact .saved none hfault hrev (Or.inl ⟨hpc, rfl⟩)
      · rw [hput]
        refine .rejected _ err hnot ?_
        show _ ∧ ite _ _ _ = _ ∨ _ ∧ ite _ _ _ = _
        -- the text of the error decides on a retry
        by_cases htext : err = updateDocConflictErr
        · exact Or.inl ⟨hpc, if_pos htext⟩
        · exact Or.inr ⟨Or.inl hpc, if_neg htext⟩
  · next first hpc =>
      split at h
      · obtain rfl := Option.some.inj h
        exact .unread first first hpc
      · next scanErr _ =>
          obtain rfl := Option.some.inj h
          exact .unread first scanErr hpc
      · next doc hget =>
          obtain rfl := Option.some.inj h
          exact .reread first doc hpc (couchGet_ok hget)
  · next first hpc =>
      obtain rfl := Option.some.inj h
      unfold SaveState.afterPut
      rcases couchPut_cases s.db s.doc answer with ⟨hfault, hrev, hput⟩ | ⟨hnot, err, hput⟩
      · rw [hput]
        exact .saved (afterRetry first) hfault hrev (Or.inr ⟨first, hpc, rfl⟩)
      · rw [hput]
        exact .rejected _ err hnot (Or.inr ⟨Or.inr ⟨first, hpc⟩, rfl⟩)
  · cases h

theorem ForceSaveStep.running {afterRetry : String → GoError} {s t : SaveState D}
    {answer : CouchAnswer} (h : ForceSaveStep afterRetry s answer t) (rev : Nat) (err : GoError) :
    s.pc ≠ .returned rev err := by
  intro hreturned
  cases h <;> simp_all

/-! ## What every call keeps -/

theorem rejected_snoc {puts : List (PutCall D)} (h : ∀ put ∈ puts, put.Rejected) (doc : D)
    (db : RevStore String D) (err : String) :
    ∀ put ∈ puts ++ [⟨doc, db, db, some err⟩], put.Rejected :=
  List.forall_mem_append.mpr ⟨h, List.forall_mem_singleton.mpr ⟨Option.some_ne_none err, rfl⟩⟩

theorem filter_accepted_of_rejected {puts : List (PutCall D)}
    (h : ∀ put ∈ puts, put.Rejected) : puts.filter PutCall.accepted = [] := by
  refine List.filter_eq_nil_iff.mpr fun put hput haccepted => (h put hput).1 ?_
  exact Option.isNone_iff_eq_none.mp haccepted

/-- The call still has the caller's content, and has not written before its end. -/
structure SaveInv (doc : D) (s : SaveState D) : Prop where
  content : withRev s.doc 0 = withRev doc 0
  unwritten : (∀ rev err, s.pc ≠ .returned rev err) → ∀ put ∈ s.puts, put.Rejected

theorem saveInv_call (db : RevStore String D) (doc : D) : SaveInv doc (.call db doc) where
  content := rfl
  unwritten := fun _ _ hput => absurd hput List.not_mem_nil

/-- After nothing but rejected puts an error is the truth. -/
theorem truthful_of_rejected {doc : D} {s : SaveState D} (hputs : ∀ put ∈ s.puts, put.Rejected)
    (herr : ∀ rev, s.pc ≠ .returned rev none) : Truthful doc s := by
  intro rev err hpc
  refine ⟨⟨?_, ?_⟩, fun _ put hput => (hputs put hput).2⟩
  · rintro rfl
    exact absurd hpc (herr rev)
  · rintro ⟨put, hfilter, -, -⟩
    rw [filter_accepted_of_rejected hputs] at hfilter
    cases hfilter

/-- The put that is accepted behind rejected ones is the only one. -/
theorem savedOnce_snoc {doc : D} {s : SaveState D} (hcontent : withRev s.doc 0 = withRev doc 0)
    (hputs : ∀ put ∈ s.puts, put.Rejected) (pc : SavePc) :
    SavedOnce doc
      { db := s.db.write s.doc, doc := s.doc, pc := pc
        puts := s.puts ++ [⟨s.doc, s.db, s.db.write s.doc, none⟩] } := by
  refine ⟨⟨s.doc, s.db, s.db.write s.doc, none⟩, ?_, hcontent, rfl⟩
  show List.filter _ (_ ++ _) = _
  rw [List.filter_append, filter_accepted_of_rejected hputs]
  rfl

theorem saveInv_step [LawfulRevDoc D] {afterRetry : String → GoError} {doc : D}
    (s : SaveState D) (l : SaveLabel D) (t : SaveState D) (hs : SaveInv doc s)
    (h : (forceSave afterRetry).step s l = some t) : SaveInv doc t := by
  cases l with
  | others db =>
      obtain rfl := Option.some.inj h
      exact ⟨hs.content, hs.unwritten⟩
  | request answer =>
      have hstep := forceSaveRequest_inv h
      have hputs := hs.unwritten hstep.running
      cases hstep with
      | saved err _ _ _ => exact ⟨hs.content, fun hpc => absurd rfl (hpc _ _)⟩
      | rejected pc err _ _ => exact ⟨hs.content, fun _ => rejected_snoc hputs s.doc s.db err⟩
      | reread first stored _ _ =>
          refine ⟨?_, fun _ => hputs⟩
          rw [LawfulRevDoc.withRev_withRev, hs.content]
      | unread first err _ => exact ⟨hs.content, fun _ => hputs⟩

/-! ## Every call returns -/

/-- The requests a call has still to make at most. -/
def SavePc.remaining : SavePc → Nat
  | .put => 3
  | .get _ => 2
  | .putAgain _ => 1
  | .returned _ _ => 0

theorem ForceSaveStep.remaining_lt {afterRetry : String → GoError} {s t : SaveState D}
    {answer : CouchAnswer} (h : ForceSaveStep afterRetry s answer t) :
    t.pc.remaining < s.pc.remaining := by
  cases h with
  | saved err _ _ hpc =>
      rcases hpc with ⟨hput, _⟩ | ⟨first, hagain, _⟩ <;> simp_all [SavePc.remaining]
  | rejected pc err _ hpc =>
      rcases hpc with ⟨hput, rfl⟩ | ⟨hput | ⟨first, hagain⟩, rfl⟩ <;>
        simp_all [SavePc.remaining]
  | reread first doc hpc _ => simp [hpc, SavePc.remaining]
  | unread first err hpc => simp [hpc, SavePc.remaining]

/-- The step is one of the call, not of others. -/
def SaveLabel.isRequest : SaveLabel D → Bool
  | .request _ => true
  | .others _ => false

theorem remaining_of_exec {afterRetry : String → GoError} {s t : SaveState D}
    {ls : List (SaveLabel D)} (h : (forceSave afterRetry).exec s ls = some t) :
    t.pc.remaining + ls.countP SaveLabel.isRequest ≤ s.pc.remaining := by
  have hrun := Lts.Run.of_exec h
  clear h
  induction hrun with
  | nil s => exact Nat.le_refl _
  | @cons s u t l ls _ hst _ ih =>
      cases l with
      | others db =>
          obtain rfl := Option.some.inj hst
          exact ih
      | request answer =>
          have hlt := (forceSaveRequest_inv hst).remaining_lt
          rw [List.countP_cons_of_pos rfl]
          omega

/-- **A call returns.**  It is over after three requests, and before that its next
    request is answered whatever the other writers do. -/
theorem returned_or_request {afterRetry : String → GoError} {db : RevStore String D} {doc : D}
    {t : SaveState D} {ls : List (SaveLabel D)}
    (h : (forceSave afterRetry).exec (.call db doc) ls = some t) :
    (∃ rev err, t.pc = .returned rev err) ∨
      ls.countP SaveLabel.isRequest < 3 ∧
        ∀ answer, ((forceSave afterRetry).step t (.request answer)).isSome := by
  have hbound := remaining_of_exec h
  simp only [SaveState.call, SavePc.remaining] at hbound
  show _ ∨ _ ∧ ∀ answer, (forceSaveRequest afterRetry t answer).isSome
  unfold forceSaveRequest
  cases hpc : t.pc with
  | returned rev err => exact Or.inl ⟨rev, err, rfl⟩
  | put =>
      simp only [hpc] at hbound
      exact Or.inr ⟨by omega, fun answer => rfl⟩
  | get first =>
      simp only [hpc] at hbound
      refine Or.inr ⟨by omega, fun answer => ?_⟩
      dsimp only
      split <;> rfl
  | putAgain first =>
      simp only [hpc] at hbound
      exact Or.inr ⟨by omega, fun answer => rfl⟩

/-! ## Without the texts -/

/-- The next request, or the revision that is returned. -/
def SavePc.outcome : SavePc → Stage ⊕ Option Nat
  | .put => .inl .put
  | .get _ => .inl .get
  | .putAgain _ => .inl .putAgain
  | .returned rev _ => .inr (if rev = 0 then none else some rev)

/-- The request fails for another reason than a conflict. -/
def CouchAnswer.fails (answer : CouchAnswer) : Stage → Bool
  | .get => answer.fault.isSome || answer.scan.isSome
  | _ => answer.fault.isSome

/-- Where exactly the conflicts carry the text of a conflict, the request of either
    function is a request of `forceStep`. -/
theorem forceStep_of_request {afterRetry : String → GoError} {s t : SaveState D}
    {answer : CouchAnswer} {stage : Stage} (hstage : s.pc.outcome = .inl stage)
    (hfault : answer.fault ≠ some updateDocConflictErr)
    (hconflict : answer.conflict = updateDocConflictErr)
    (h : forceSaveRequest afterRetry s answer = some t) :
    forceStep s.db s.doc (answer.fails stage) stage = (t.db, t.doc, t.pc.outcome) := by
  unfold forceSaveRequest at h
  cases hpc : s.pc with
  | returned rev err => simp [hpc, SavePc.outcome] at hstage
  | put =>
      obtain rfl : Stage.put = stage := by simpa [hpc, SavePc.outcome] using hstage
      simp only [hpc] at h
      obtain rfl := Option.some.inj h
      cases hanswer : answer.fault with
      | some err =>
          -- such an error is not taken for a conflict
          have htext : err ≠ updateDocConflictErr := fun he => hfault (he ▸ hanswer)
          simp [forceStep, SaveState.afterPut, couchPut, CouchAnswer.fails, hanswer, htext,
            SavePc.outcome]
      | none =>
          cases hput : s.db.put s.doc <;>
            simp [forceStep, SaveState.afterPut, couchPut, CouchAnswer.fails, hanswer, hput,
              hconflict, SavePc.outcome]
  -- the stored document is read for its revision
  | get first =>
      obtain rfl : Stage.get = stage := by simpa [hpc, SavePc.outcome] using hstage
      simp only [hpc, couchGet] at h
      cases hanswer : answer.fault with
      | some err =>
          obtain rfl := Option.some.inj (by simpa only [hanswer] using h)
          simp [forceStep, CouchAnswer.fails, hanswer, SavePc.outcome]
      | none =>
          cases hget : s.db.get (key s.doc) with
          | none =>
              obtain rfl := Option.some.inj (by simpa only [hanswer, hget] using h)
              simp [forceStep, hget, SavePc.outcome]
          | some stored =>
              cases hscan : answer.scan <;>
                obtain rfl := Option.some.inj (by simpa only [hanswer, hget, hscan] using h) <;>
                simp [forceStep, CouchAnswer.fails, hanswer, hget, hscan, SavePc.outcome]
  -- no second retry: whatever is answered ends the call
  | putAgain first =>
      obtain rfl : Stage.putAgain = stage := by simpa [hpc, SavePc.outcome] using hstage
      simp only [hpc] at h
      obtain rfl := Option.some.inj h
      cases hanswer : answer.fault with
      | some err =>
          simp [forceStep, SaveState.afterPut, couchPut, CouchAnswer.fails, hanswer,
            SavePc.outcome]
      | none =>
          cases hput : s.db.put s.doc <;>
            simp [forceStep, SaveState.afterPut, couchPut, CouchAnswer.fails, hanswer, hput,
              SavePc.outcome]

/-! ## When a call is truthful -/

/-- Once a put is accepted, nil is the truth. -/
theorem truthful_saved_iff {doc : D} {s : SaveState D} {rev : Nat} {err : GoError}
    (hcontent : withRev s.doc 0 = withRev doc 0) (hputs : ∀ put ∈ s.puts, put.Rejected) :
    Truthful doc
        { db := s.db.write s.doc, doc := s.doc, pc := .returned rev err
          puts := s.puts ++ [⟨s.doc, s.db, s.db.write s.doc, none⟩] } ↔
      err = none := by
  have honce := savedOnce_snoc hcontent hputs (.returned rev err)
  constructor
  · exact fun htruth => (htruth rev err rfl).1.mpr honce
  · rintro rfl rev' err' hreturned
    obtain ⟨-, rfl⟩ := SavePc.returned.inj hreturned
    exact ⟨iff_of_true rfl honce, absurd rfl⟩

/-- The retry that is accepted is not told as an error. -/
def TellsRetry (afterRetry : String → GoError) (s : SaveState D) (l : SaveLabel D) : Prop :=
  ∀ first, s.pc = .putAgain first → RetryAccepted s l → afterRetry first = none

theorem truthful_step_iff {afterRetry : String → GoError} {doc : D} {s t : SaveState D}
    {l : SaveLabel D} (hs : SaveInv doc s) (htruth : Truthful doc s)
    (h : (forceSave afterRetry).step s l = some t) :
    Truthful doc t ↔ TellsRetry afterRetry s l := by
  cases l with
  | others db =>
      obtain rfl := Option.some.inj h
      exact iff_of_true htruth fun _ _ haccepted => haccepted.elim
  | request answer =>
      have hstep := forceSaveRequest_inv h
      have hputs := hs.unwritten hstep.running
      cases hstep with
      | saved err hfault hrev hpc =>
          rw [truthful_saved_iff hs.content hputs]
          rcases hpc with ⟨hput, rfl⟩ | ⟨first, hagain, rfl⟩
          -- the first put returns nil, a retry what `afterRetry` makes of the conflict
          · exact iff_of_true rfl fun first hpc => by simp [hput] at hpc
          · refine ⟨fun hnone first' hpc _ => ?_,
              fun htells => htells first hagain ⟨⟨first, hagain⟩, hfault, hrev⟩⟩
            obtain rfl := SavePc.putAgain.inj (hagain.symm.trans hpc)
            exact hnone
      | rejected pc err hnot hpc =>
          -- whichever put it was, it was no accepted retry
          refine iff_of_true ?_ fun _ _ haccepted => absurd haccepted.2 hnot
          refine truthful_of_rejected (rejected_snoc hputs s.doc s.db err) fun rev => ?_
          rcases hpc with ⟨_, rfl⟩ | ⟨_, rfl⟩ <;> simp
      | reread first stored hpc _ =>
          refine iff_of_true (fun _ _ hreturned => by cases hreturned) ?_
          exact fun _ hagain => by simp [hpc] at hagain
      | unread first err hpc =>
          refine iff_of_true ?_ fun _ hagain => by simp [hpc] at hagain
          exact truthful_of_rejected hputs (by simp)

/-- A call tells the truth in a whole run exactly where it tells every retry. -/
theorem along_truthful_iff [LawfulRevDoc D] (afterRetry : String → GoError)
    (db : RevStore String D) (doc : D) (ls : List (SaveLabel D)) :
    (forceSave afterRetry).Along (fun _ _ t => Truthful doc t) (.call db doc) ls ↔
      (forceSave afterRetry).Along (fun s l _ => TellsRetry afterRetry s l) (.call db doc) ls := by
  have hcall := saveInv_call db doc
  -- the invariant goes with the truth, to be there for the next step
  have hkeep : (forceSave afterRetry).Along (fun _ _ t => Truthful doc t) (.call db doc) ls ↔
      (forceSave afterRetry).Along (fun _ _ t => SaveInv doc t ∧ Truthful doc t)
        (.call db doc) ls :=
    Lts.along_congr saveInv_step
      (fun s l t hs h => (and_iff_right (saveInv_step s l t hs h)).symm) hcall ls
  refine hkeep.trans (Lts.along_iff_of_step (fun s l t hs h => ?_) ⟨hcall, ?_⟩ ls)
  · rw [and_iff_right (saveInv_step s l t hs.1 h)]
    exact truthful_step_iff hs.1 hs.2 h
  · exact fun rev err hreturned => by cases hreturned

/-- **Forced saves and the truth.**  For every database and document and every
    interleaving with other writers, `ForceSaveJob` always returns nil exactly
    if one put of the caller's content was accepted, and an error if it changed
    nothing; `ForceSaveNetwork` does so exactly in the runs in which its retry
    is not accepted. -/
theorem forceSave_truthful_iff (jobDB : JobDB) (job : Job) (jobRun : List (SaveLabel Job))
    (networkDB : NetworkDB) (network : Network) (networkRun : List (SaveLabel Network)) :
    forceSaveJob.Along (fun _ _ t => Truthful job t) (.call jobDB job) jobRun ∧
      (forceSaveNetwork.Along (fun _ _ t => Truthful network t) (.call networkDB network)
          networkRun ↔
        forceSaveNetwork.Along (fun s l _ => ¬ RetryAccepted s l) (.call networkDB network)
          networkRun) := by
  constructor
  · refine (along_truthful_iff _ jobDB job jobRun).mpr ?_
    exact Lts.along_of_invariant (I := fun _ => True) (fun _ _ _ _ _ => trivial)
      (fun _ _ _ _ _ _ => rfl) trivial jobRun
  · refine (along_truthful_iff _ networkDB network networkRun).trans ?_
    refine Lts.along_congr (I := fun _ => True) (fun _ _ _ _ _ => trivial)
      (fun s l _ _ _ => ?_) trivial networkRun
    constructor
    · intro htells haccepted
      cases l with
      | others db => exact haccepted
      | request answer =>
          obtain ⟨first, hagain⟩ := haccepted.1
          exact absurd (htells first hagain haccepted) (Option.some_ne_none first)
    · exact fun hnot _ _ haccepted => absurd haccepted hnot

/-- The database holds `n1` at its first revision; the caller has none. -/
def storedNetwork : NetworkDB := RevStore.empty.write { id := "n1" }

/-- The put meets a conflict, and no other writer comes before the retry. -/
def conflictAndRetry : List (SaveLabel Network) :=
  List.replicate 3 (.request ⟨none, updateDocConflictErr, none⟩)

/-- The caller's document: `n1` is deleted. -/
def deletedNetwork : Network := { id := "n1", deleted := true }

/-- The retry has written the document, and the call returns the conflict before
    it. -/
theorem retry_returns_conflict :
    ∃ t, forceSaveNetwork.exec (.call storedNetwork deletedNetwork) conflictAndRetry = some t ∧
      t.pc = .returned 2 (some updateDocConflictErr) ∧ SavedOnce deletedNetwork t ∧
      ¬ Truthful deletedNetwork t := by
  refine ⟨_, rfl, rfl, ?_, ?_⟩
  · exact ⟨_, rfl, rfl, rfl⟩
  · intro htruth
    exact absurd ((htruth 2 _ rfl).1.mpr ⟨_, rfl, rfl, rfl⟩) (Option.some_ne_none _)

end Hfrd.Api
