/-
  Hfrd.Api.RoutineInv

  What the goroutines hold: every network a goroutine has read or is about to
  save, in every reachable state of the server.

  - a copy to mark is `deleting` and not `deleted`, and the row it was made
    from was not `deleted` when it was read (`RevStore.Seen`);
  - a copy to clear is `deleted` and not `deleting`; a new network is neither;
  - the rows a DELETE goroutine holds are those of its service.

  The flags of the stored documents follow: no writer stores both.
-/

import Hfrd.Api.Routine

namespace Hfrd.Api

open Hfrd.Go Hfrd.Lib

/-- A job that deletes the networks of a service. -/
def ToDelete (job : Job) : Prop := job.method = DELETE ∧ job.serviceId ≠ ""

/-- A row that a goroutine with `job` has read and not scanned yet. -/
structure Row (networkDB : NetworkDB) (job : Job) (row : Network) : Prop where
  seen : networkDB.Seen row
  service : row.serviceId = job.serviceId

/-- What a copy to mark is. -/
structure Marking (networkDB : NetworkDB) (job : Job) (stage : Stage) (network : Network) :
    Prop where
  service : network.serviceId = job.serviceId
  deleting : network.deleting = true
  deleted : network.deleted = false
  /-- Before the first conflict, the copy still has the revision of its row. -/
  row : stage = .put → ∃ row, networkDB.Seen row ∧ row.id = network.id ∧ row.rev = network.rev ∧
    row.deleted = false

/-- What a copy to clear is. -/
structure Clearing (job : Job) (network : Network) : Prop where
  service : network.serviceId = job.serviceId
  deleting : network.deleting = false
  deleted : network.deleted = true

/-- What a new network is. -/
structure Active (job : Job) (network : Network) : Prop where
  method : job.method = POST
  deleting : network.deleting = false
  deleted : network.deleted = false

/-- What a goroutine holds. -/
def Holds (networkDB : NetworkDB) (job : Job) : Pc → Prop
  | .forceSaveJob (.env network) _ => Active job network
  | .forceSaveJob _ _ => True
  | .forceSaveNetwork (.mark rows) stage network =>
      ToDelete job ∧ Marking networkDB job stage network ∧ ∀ row ∈ rows, Row networkDB job row
  | .forceSaveNetwork .store _ network => Active job network
  | .forceSaveNetwork (.clear rows) _ network =>
      ToDelete job ∧ Clearing job network ∧ ∀ row ∈ rows, Row networkDB job row
  | .queryMark | .queryClear => ToDelete job
  | .serveTar => job.method = POST
  | .poll | .exited => True

/-- Every goroutine holds what it should. -/
def Held (s : State) : Prop := ∀ g ∈ s.goroutines, Holds s.networkDB g.job g.pc

/-! ## Moving on -/

theorem row_of_mem {networkDB : NetworkDB} {job : Job} {row : Network}
    (h : row ∈ getNetworkByServiceId networkDB job.serviceId) : Row networkDB job row := by
  obtain ⟨hget, -, hservice⟩ := mem_getNetworkByServiceId.mp h
  exact ⟨RevStore.seen_of_get hget, hservice⟩

/-- The rows of a deletion, whatever the rest of the job. -/
theorem holds_nextMark {networkDB : NetworkDB} {g : Goroutine} (hdel : ToDelete g.job)
    (network : Network) {rows : List Network} (hrows : ∀ row ∈ rows, Row networkDB g.job row) :
    Holds networkDB (g.nextMark network rows).job (g.nextMark network rows).pc := by
  unfold Goroutine.nextMark
  induction rows generalizing network with
  | nil => trivial
  | cons row rows ih =>
      have hrow := hrows row List.mem_cons_self
      have htail := fun r hr => hrows r (List.mem_cons_of_mem row hr)
      rw [scanMark_cons]
      by_cases hdeleted : row.deleted = false
      · -- the copy to save is this row, marked
        rw [if_pos hdeleted]
        exact ⟨hdel, ⟨hrow.service, rfl, hdeleted, fun _ => ⟨row, hrow.seen, rfl, rfl, hdeleted⟩⟩,
          htail⟩
      · rw [if_neg hdeleted]
        exact ih (network.scanDoc row) htail

theorem holds_nextClear {networkDB : NetworkDB} {g : Goroutine} (hdel : ToDelete g.job)
    (network : Network) {rows : List Network} (hrows : ∀ row ∈ rows, Row networkDB g.job row) :
    Holds networkDB (g.nextClear network rows).job (g.nextClear network rows).pc := by
  cases rows with
  | nil => trivial
  | cons row rows =>
      exact ⟨hdel, ⟨(hrows row List.mem_cons_self).service, rfl, rfl⟩,
        fun r hr => hrows r (List.mem_cons_of_mem row hr)⟩

theorem holds_storeNetwork {networkDB : NetworkDB} {g : Goroutine} {network : Network}
    (h : Active g.job network) :
    Holds networkDB (g.storeNetwork network).job (g.storeNetwork network).pc := by
  unfold Goroutine.storeNetwork
  split
  · exact ⟨h.method, h.deleting, h.deleted⟩
  · trivial

theorem ne_empty_of_length {s : String} (h : s.length > 0) : s ≠ "" := by
  rintro rfl
  exact absurd h (by decide)

theorem holds_afterSaveJob {networkDB : NetworkDB} {g : Goroutine} (rev : Option Nat)
    (save : JobSave) (stage : Stage) (h : Holds networkDB g.job (.forceSaveJob save stage)) :
    Holds networkDB (g.afterSaveJob rev save).job (g.afterSaveJob rev save).pc := by
  cases save with
  | created =>
      cases rev with
      | none => trivial
      | some rev =>
          simp only [Goroutine.afterSaveJob]
          split
          · next hdel => exact ⟨hdel.1, ne_empty_of_length hdel.2⟩
          · trivial
  | jobId => cases rev <;> trivial
  | status =>
      simp only [Goroutine.afterSaveJob]
      split
      · next hpost => exact hpost.2
      · -- only the DELETE branch checks the service id
        split
        · next hdel => exact ⟨hdel.2.1, ne_empty_of_length hdel.2.2⟩
        · trivial
  | env network => exact holds_storeNetwork h

theorem holds_afterSaveNetwork {networkDB : NetworkDB} {g : Goroutine} {network : Network}
    (save : NetworkSave) (stage : Stage)
    (h : Holds networkDB g.job (.forceSaveNetwork save stage network)) :
    Holds networkDB (g.afterSaveNetwork network save).job
      (g.afterSaveNetwork network save).pc := by
  cases save with
  | mark rows => exact holds_nextMark h.1 network h.2.2
  | store => trivial
  | clear rows => exact holds_nextClear h.1 network h.2.2

theorem holds_afterPoll {networkDB : NetworkDB} {g : Goroutine} (jobId status : String)
    (err : GoError) (hpc : g.pc = .poll) :
    Holds networkDB (g.afterPoll jobId status err).job (g.afterPoll jobId status err).pc := by
  unfold Goroutine.afterPoll
  split
  · split
    · trivial
    · rw [hpc]
      trivial
  · split <;> trivial

theorem active_readPackage {job : Job} (hpost : job.method = POST) (now : Int)
    (entries : List TarEntry) : Active job (readPackage (newNetwork job now) entries) := by
  obtain ⟨hdeleting, hdeleted, -⟩ := readPackage_flags (newNetwork job now) entries
  exact ⟨hpost, hdeleting, hdeleted⟩

theorem holds_afterTar {networkDB : NetworkDB} {package : Packages} {g : Goroutine} (now : Int)
    (hpost : g.job.method = POST) :
    Holds networkDB (g.afterTar package now).job (g.afterTar package now).pc := by
  have hactive := active_readPackage hpost now (package g.job.name g.job.jobId)
  simp only [Goroutine.afterTar]
  split
  · exact ⟨hpost, hactive.deleting, hactive.deleted⟩
  · exact holds_storeNetwork hactive

/-! ## One step -/

/-- What a goroutine holds survives an accepted write. -/
theorem Holds.write {networkDB : NetworkDB} {job : Job} {pc : Pc} (h : Holds networkDB job pc)
    {doc : Network} (hrev : RevDoc.rev doc = networkDB.currentRev (RevDoc.key doc)) :
    Holds (networkDB.write doc) job pc := by
  have hrows : ∀ rows : List Network, (∀ row ∈ rows, Row networkDB job row) →
      ∀ row ∈ rows, Row (networkDB.write doc) job row :=
    fun rows hall row hr => ⟨(hall row hr).seen.write hrev, (hall row hr).service⟩
  cases pc with
  | forceSaveNetwork save stage network =>
      cases save with
      | mark rows =>
          obtain ⟨hdel, hmark, hall⟩ := h
          refine ⟨hdel, ⟨hmark.service, hmark.deleting, hmark.deleted, fun hstage => ?_⟩,
            hrows rows hall⟩
          obtain ⟨row, hseen, hid, hrow, hdeleted⟩ := hmark.row hstage
          exact ⟨row, hseen.write hrev, hid, hrow, hdeleted⟩
      | store => exact h
      | clear rows => exact ⟨h.1, h.2.1, hrows rows h.2.2⟩
  | forceSaveJob save stage => cases save <;> exact h
  | _ => exact h

/-- The new job of a forced save differs in its revision only, which no
    goroutine relies on. -/
theorem Holds.withRev {networkDB : NetworkDB} {job : Job} {pc : Pc} (h : Holds networkDB job pc)
    (rev : Nat) : Holds networkDB { job with rev := rev } pc := by
  cases pc with
  | forceSaveNetwork save stage network =>
      cases save with
      | mark rows =>
          exact ⟨h.1, ⟨h.2.1.service, h.2.1.deleting, h.2.1.deleted, h.2.1.row⟩,
            fun row hr => ⟨(h.2.2 row hr).seen, (h.2.2 row hr).service⟩⟩
      | store => exact ⟨h.method, h.deleting, h.deleted⟩
      | clear rows =>
          exact ⟨h.1, ⟨h.2.1.service, h.2.1.deleting, h.2.1.deleted⟩,
            fun row hr => ⟨(h.2.2 row hr).seen, (h.2.2 row hr).service⟩⟩
  | forceSaveJob save stage =>
      cases save with
      | env network => exact ⟨h.method, h.deleting, h.deleted⟩
      | _ => trivial
  | _ => exact h

theorem held_move {s : State} {j : Nat} {g : Goroutine} (hs : Held s)
    (hg : Holds s.networkDB g.job g.pc) : Held (s.move j g) :=
  forall_mem_set (P := fun g : Goroutine => Holds s.networkDB g.job g.pc) hs hg j

theorem held_nil {s : State} (h : s.goroutines = []) : Held s := by
  intro g hg
  rw [h] at hg
  cases hg

theorem held_goStep {package : Packages} {s t : State} {j : Nat} {g : Goroutine}
    {answer : Answer} (hs : Held s) (hj : s.goroutines[j]? = some g)
    (h : GoStep package s j g answer t) : Held t := by
  have hg := hs g (List.mem_of_getElem? hj)
  cases h with
  | saveJob save stage fault jobDB job next hpc hforce =>
      rw [hpc] at hg
      refine held_move (s := { s with jobDB := jobDB }) hs ?_
      obtain ⟨rev, rfl⟩ := exists_rev_of_forceStep hforce
      have hrev := hg.withRev rev
      cases next with
      | inl stage => cases save <;> exact hrev
      | inr rev' => exact holds_afterSaveJob rev' save stage hrev
  | saveNetwork save stage network fault networkDB network' next hpc hforce =>
      rw [hpc] at hg
      cases hforce with
      | saved _ _ _ hrev =>
          -- what the other goroutines hold survives the write
          have hs' : Held { s with networkDB := s.networkDB.write network } :=
            fun g' hg' => (hs g' hg').write hrev
          exact held_move hs' (holds_afterSaveNetwork save stage (hg.write hrev))
      | conflict _ _ =>
          refine held_move (s := s) hs ?_
          cases save with
          | mark rows =>
              -- past the first put nothing is known of the row any more
              exact ⟨hg.1, ⟨hg.2.1.service, hg.2.1.deleting, hg.2.1.deleted, nofun⟩, hg.2.2⟩
          | store => exact hg
          | clear rows => exact hg
      | reread e _ _ =>
          refine held_move (s := s) hs ?_
          cases save with
          | mark rows =>
              exact ⟨hg.1, ⟨hg.2.1.service, hg.2.1.deleting, hg.2.1.deleted, nofun⟩, hg.2.2⟩
          | store => exact ⟨hg.method, hg.deleting, hg.deleted⟩
          | clear rows =>
              exact ⟨hg.1, ⟨hg.2.1.service, hg.2.1.deleting, hg.2.1.deleted⟩, hg.2.2⟩
      | failed _ _ | missing _ _ | conflictAgain _ _ =>
          exact held_move (s := s) hs (holds_afterSaveNetwork save _ hg)
  | queryMark fault hpc =>
      rw [hpc] at hg
      refine held_move hs ?_
      split
      · trivial
      · exact holds_nextMark hg {} fun row hr => row_of_mem hr
  | poll listing artifact jobId status err hpc _ =>
      exact held_move hs (holds_afterPoll jobId status err hpc)
  | panics listing artifact hpc _ => exact held_nil rfl
  | serveTar fetched now hpc =>
      rw [hpc] at hg
      refine held_move hs ?_
      split
      · exact holds_afterTar now hg
      · trivial
  | queryClear fault hpc =>
      rw [hpc] at hg
      refine held_move hs ?_
      split
      · trivial
      · exact holds_nextClear hg {} fun row hr => row_of_mem hr

theorem held_initial : Held .initial := held_nil rfl

theorem held_step {package : Packages} (s : State) (l : Label) (t : State) (hs : Held s)
    (h : (server package).step s l = some t) : Held t := by
  cases serverStep_inv h with
  | start _ | init _ _ | scanned _ => exact hs
  | spawn job rows _ | request r _ =>
      exact List.forall_mem_append.mpr ⟨hs, List.forall_mem_singleton.mpr trivial⟩
  | go j g answer t hj hgo => exact held_goStep hs hj hgo
  | crash => exact held_nil rfl

/-- A goroutine's step replaces that goroutine, unless the process panics. -/
theorem goroutines_goStep {package : Packages} {s t : State} {j : Nat} {g : Goroutine}
    {answer : Answer} (h : GoStep package s j g answer t)
    (hcrash : crashes (.go j answer) = false) : ∃ g', t.goroutines = s.goroutines.set j g' := by
  cases h with
  | panics listing artifact _ hanswer =>
      simp only [crashes, hanswer, Option.isNone_none] at hcrash
      cases hcrash
  | _ => exact ⟨_, rfl⟩

/-- The network DB changes only by an accepted write of a forced save. -/
theorem networkDB_step {package : Packages} {s t : State} {l : Label}
    (h : ServerStep package s l t) :
    t.networkDB = s.networkDB ∨
    ∃ j g save stage network, l = .go j (.db false) ∧ s.goroutines[j]? = some g ∧
      g.pc = .forceSaveNetwork save stage network ∧ stage ≠ .get ∧
      network.rev = s.networkDB.currentRev network.id ∧
      t.networkDB = s.networkDB.write network ∧
      t.goroutines = s.goroutines.set j (g.afterSaveNetwork network save) := by
  cases h with
  | go j g answer t hj hgo =>
      cases hgo with
      | saveNetwork save stage network fault networkDB network' next hpc hforce =>
          cases hforce with
          | saved _ hstage hfault hrev =>
              exact Or.inr ⟨j, g, save, stage, network, by rw [hfault], hj, hpc, hstage, hrev, rfl,
                rfl⟩
          | _ => exact Or.inl rfl
      | _ => exact Or.inl rfl
  | _ => exact Or.inl rfl

/-- A stored network is never removed. -/
theorem isSome_networkDB_step {package : Packages} {s t : State} {l : Label}
    (h : ServerStep package s l t) {id : String} (hsome : (s.networkDB.get id).isSome) :
    (t.networkDB.get id).isSome := by
  rcases networkDB_step h with hsame | ⟨_, _, _, _, _, _, _, _, _, _, hwrite, _⟩
  · rw [hsame]
    exact hsome
  · rw [hwrite]
    exact RevStore.isSome_get_write hsome

/-- The job DB changes only by an accepted write of a forced save. -/
theorem jobDB_step {package : Packages} {s t : State} {l : Label}
    (h : ServerStep package s l t) :
    t.jobDB = s.jobDB ∨
    ∃ j g save stage, l = .go j (.db false) ∧ s.goroutines[j]? = some g ∧
      g.pc = .forceSaveJob save stage ∧ stage ≠ .get ∧
      g.job.rev = s.jobDB.currentRev g.job.id ∧
      t.jobDB = s.jobDB.write g.job ∧
      t.goroutines = s.goroutines.set j (g.afterSaveJob (some (g.job.rev + 1)) save) := by
  cases h with
  | go j g answer t hj hgo =>
      cases hgo with
      | saveJob save stage fault jobDB job next hpc hforce =>
          cases hforce with
          | saved _ hstage hfault hrev =>
              exact Or.inr ⟨j, g, save, stage, by rw [hfault], hj, hpc, hstage, hrev, rfl, rfl⟩
          | _ => exact Or.inl rfl
      | _ => exact Or.inl rfl
  | _ => exact Or.inl rfl

end Hfrd.Api
