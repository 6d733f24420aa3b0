/-
  Hfrd.Api.Watcher

  When `waitJob` ends with the status of the job stored.

  One goroutine in `waitJob`, polling the build of a job that is stored
  without a status, with every database request served.  While the answers
  are `INPROGRESS` the loop goes on.  The first other answer ends it: a status
  is stored, by the retry at the latest, and stays stored through the rest of
  `waitJob`; but on an error, a queued build that is not listed yet included,
  the loop breaks with nothing stored.
-/

import Hfrd.Api.Deletion

namespace Hfrd.Api

open Hfrd.Go Hfrd.Lib

/-- What the polls of a label say about the build: `none` for no answer or one
    that keeps the loop going, else the status, or `none` for an error. -/
def conclusive : Label → Option (Option String)
  | .go _ (.poll listing artifact) => match getJobIdByQueueId listing artifact with
    | some (_, _, some _) => some none
    | some (_, status, none) => if status = INPROGRESS then none else some (some status)
    | none => none
  | _ => none

/-- A step of the only goroutine, with every database request served. -/
def watches : Label → Bool
  | .go 0 (.db fault) => !fault
  | .go 0 _ => true
  | _ => false

/-- Past the save of the status. -/
def Pc.concluded : Pc → Bool
  | .serveTar | .queryClear | .forceSaveJob (.env _) _ | .forceSaveNetwork .store _ _
  | .forceSaveNetwork (.clear _) _ _ | .exited => true
  | _ => false

/-- What the goroutine and the stored job are after the answers `verdict`. -/
def Watched (g : Goroutine) (doc : Job) : Option (Option String) → Prop
  | none => g.job.status = "" ∧ doc.status = "" ∧
      (g.pc = .poll ∨ ∃ stage, g.pc = .forceSaveJob .jobId stage)
  | some none => doc.status = "" ∧ g.pc = .exited
  | some (some status) => g.job.status = status ∧ status ≠ INPROGRESS ∧
      ((∃ stage, g.pc = .forceSaveJob .status stage ∧
          (stage = .putAgain → g.job.rev = doc.rev)) ∨
        (doc.status = status ∧ g.pc.concluded = true))

/-- The process went down, or the only goroutine watches job `id`. -/
def Watcher (id : String) (verdict : Option (Option String)) (s : State) : Prop :=
  s.goroutines = [] ∨ ∃ g doc, s.goroutines = [g] ∧ g.job.id = id ∧
    s.jobDB.get id = some doc ∧ Watched g doc verdict

theorem concluded_nextClear (g : Goroutine) (network : Network) (rows : List Network) :
    (g.nextClear network rows).pc.concluded = true ∧ (g.nextClear network rows).job = g.job := by
  unfold Goroutine.nextClear
  split <;> exact ⟨rfl, rfl⟩

theorem concluded_storeNetwork (g : Goroutine) (network : Network) :
    (g.storeNetwork network).pc.concluded = true ∧ (g.storeNetwork network).job = g.job := by
  unfold Goroutine.storeNetwork
  split <;> exact ⟨rfl, rfl⟩

theorem concluded_afterStatus (g : Goroutine) (rev : Option Nat) :
    (g.afterSaveJob rev .status).pc.concluded = true ∧
    (g.afterSaveJob rev .status).job = g.job := by
  simp only [Goroutine.afterSaveJob]
  repeat' split
  all_goals exact ⟨rfl, rfl⟩

theorem concluded_afterTar (package : Packages) (g : Goroutine) (now : Int) :
    (g.afterTar package now).pc.concluded = true ∧
    (g.afterTar package now).job.id = g.job.id ∧
    (g.afterTar package now).job.status = g.job.status := by
  simp only [Goroutine.afterTar]
  split
  · exact ⟨rfl, rfl, rfl⟩
  · have h := concluded_storeNetwork g
      (readPackage (newNetwork g.job now) (package g.job.name g.job.jobId))
    exact ⟨h.1, by rw [h.2], by rw [h.2]⟩

/-! ## One step -/

/-- Before `waitJob`. -/
def Pc.inSaveJob : Pc → Bool
  | .forceSaveJob .created _ | .queryMark | .forceSaveNetwork (.mark _) _ _ => true
  | _ => false

theorem Pc.not_inSaveJob_of_concluded {pc : Pc} (h : pc.concluded = true) :
    pc.inSaveJob = false := by
  cases pc with
  | forceSaveJob save stage => cases save <;> first | rfl | cases h
  | forceSaveNetwork save stage network => cases save <;> first | rfl | cases h
  | queryMark => cases h
  | _ => rfl

theorem not_inSaveJob {g : Goroutine} {doc : Job} {verdict : Option (Option String)}
    (h : Watched g doc verdict) : g.pc.inSaveJob = false := by
  rcases verdict with _ | _ | status
  · obtain ⟨-, -, hpc | ⟨stage, hpc⟩⟩ := h <;> (rw [hpc]; rfl)
  · rw [h.2]
    rfl
  · obtain ⟨-, -, ⟨stage, hpc, -⟩ | ⟨-, hpc⟩⟩ := h
    · rw [hpc]
      rfl
    · exact Pc.not_inSaveJob_of_concluded hpc

/-- Past the save of the status, the verdict is that status and it is stored. -/
theorem status_of_concluded {g : Goroutine} {doc : Job} {verdict : Option (Option String)}
    (h : Watched g doc verdict) (hpc : g.pc.concluded = true) (hlive : g.pc.live = true) :
    verdict = some (some g.job.status) ∧ g.job.status ≠ INPROGRESS ∧
      doc.status = g.job.status := by
  rcases verdict with _ | _ | status
  · obtain ⟨-, -, hpoll | ⟨stage, hsave⟩⟩ := h
    · rw [hpoll] at hpc
      cases hpc
    · rw [hsave] at hpc
      cases hpc
  · rw [h.2] at hlive
    cases hlive
  · obtain ⟨rfl, hne, ⟨stage, hsave, -⟩ | ⟨hdoc, -⟩⟩ := h
    · rw [hsave] at hpc
      cases hpc
    · exact ⟨rfl, hne, hdoc⟩

/-- While the job id is saved there is no verdict. -/
theorem pending_of_saveJobId {g : Goroutine} {doc : Job} {verdict : Option (Option String)}
    {stage : Stage} (h : Watched g doc verdict) (hpc : g.pc = .forceSaveJob .jobId stage) :
    verdict = none ∧ g.job.status = "" ∧ doc.status = "" := by
  rcases verdict with _ | _ | status
  · exact ⟨rfl, h.1, h.2.1⟩
  · cases hpc.symm.trans h.2
  · obtain ⟨-, -, ⟨stage', hsave, -⟩ | ⟨-, hconcluded⟩⟩ := h
    · cases hpc.symm.trans hsave
    · rw [hpc] at hconcluded
      cases hconcluded

/-- While the status is saved, it is the verdict. -/
theorem status_of_saveStatus {g : Goroutine} {doc : Job} {verdict : Option (Option String)}
    {stage : Stage} (h : Watched g doc verdict) (hpc : g.pc = .forceSaveJob .status stage) :
    verdict = some (some g.job.status) ∧ g.job.status ≠ INPROGRESS ∧
      (stage = .putAgain → g.job.rev = doc.rev) := by
  rcases verdict with _ | _ | status
  · obtain ⟨-, -, hpoll | ⟨stage', hsave⟩⟩ := h
    · cases hpc.symm.trans hpoll
    · cases hpc.symm.trans hsave
  · cases hpc.symm.trans h.2
  · obtain ⟨rfl, hne, ⟨stage', hsave, hrev⟩ | ⟨-, hconcluded⟩⟩ := h
    · obtain ⟨-, rfl⟩ := Pc.forceSaveJob.inj (hpc.symm.trans hsave)
      exact ⟨rfl, hne, hrev⟩
    · rw [hpc] at hconcluded
      cases hconcluded

theorem watcher_concluded {s : State} {g : Goroutine} {doc : Job} {id status : String}
    (hgs : s.goroutines = [g]) (hid : g.job.id = id) (hget : s.jobDB.get id = some doc)
    (hstatus : g.job.status = status) (hne : status ≠ INPROGRESS) (hdoc : doc.status = status)
    (hpc : g.pc.concluded = true) : Watcher id (some (some status)) s :=
  Or.inr ⟨g, doc, hgs, hid, hget, hstatus, hne, Or.inr ⟨hdoc, hpc⟩⟩

theorem set_zero {s : State} {g : Goroutine} (hgs : s.goroutines = [g]) (g' : Goroutine) :
    s.goroutines.set 0 g' = [g'] := by
  rw [hgs]
  rfl

/-- One request of `ForceSaveJob` in `waitJob`. -/
theorem watcher_saveJob {s : State} {g : Goroutine} {doc : Job} {id : String}
    {verdict : Option (Option String)} (hgs : s.goroutines = [g]) (hid : g.job.id = id)
    (hget : s.jobDB.get id = some doc) (hw : Watched g doc verdict) {save : JobSave}
    {stage : Stage} {jobDB : JobDB} {job : Job} {next : Stage ⊕ Option Nat}
    (hpc : g.pc = .forceSaveJob save stage)
    (hforce : ForceStep s.jobDB g.job false stage (jobDB, job, next)) :
    Watcher id verdict ({ s with jobDB := jobDB }.move 0 (g.savingJob save job next)) := by
  subst hid
  have hset := set_zero hgs
  have hnot := not_inSaveJob hw
  cases save with
  | created => rw [hpc] at hnot; cases hnot
  | jobId =>
      obtain ⟨rfl, hstatus, hdoc⟩ := pending_of_saveJobId hw hpc
      right
      cases hforce with
      | saved _ _ _ _ =>
          exact ⟨_, _, hset _, rfl, RevStore.get_write_self s.jobDB g.job, hstatus, hstatus,
            Or.inl rfl⟩
      | conflict _ _ => exact ⟨_, doc, hset _, rfl, hget, hstatus, hdoc, Or.inr ⟨_, rfl⟩⟩
      | reread e _ _ => exact ⟨_, doc, hset _, rfl, hget, hstatus, hdoc, Or.inr ⟨_, rfl⟩⟩
      | failed _ hfault => cases hfault
      | missing _ _ => exact ⟨_, doc, hset _, rfl, hget, hstatus, hdoc, Or.inl rfl⟩
      | conflictAgain _ _ => exact ⟨_, doc, hset _, rfl, hget, hstatus, hdoc, Or.inl rfl⟩
  | status =>
      obtain ⟨rfl, hne, hrev⟩ := status_of_saveStatus hw hpc
      cases hforce with
      | saved _ _ _ _ =>
          -- the status is stored; `waitJob` goes on or returns
          have hnext := concluded_afterStatus g (some (RevDoc.rev g.job + 1))
          exact watcher_concluded (hset _) (congrArg Job.id hnext.2)
            (RevStore.get_write_self s.jobDB g.job) (congrArg Job.status hnext.2) hne rfl hnext.1
      | conflict _ _ =>
          exact Or.inr ⟨_, doc, hset _, rfl, hget, rfl, hne, Or.inl ⟨.get, rfl, nofun⟩⟩
      | reread e _ hread =>
          obtain rfl := Option.some.inj (hread.symm.trans hget)
          exact Or.inr ⟨_, e, hset _, rfl, hget, rfl, hne, Or.inl ⟨.putAgain, rfl, fun _ => rfl⟩⟩
      | failed _ hfault => cases hfault
      | missing _ hnone => cases hnone.symm.trans hget
      | conflictAgain _ hput =>
          -- nobody else writes, so the revision just read is the stored one
          refine absurd ?_ (RevStore.put_eq_none.mp hput)
          exact (hrev rfl).trans (RevStore.currentRev_of_get hget).symm
  | env network =>
      obtain ⟨rfl, hne, hdoc⟩ := status_of_concluded hw (by rw [hpc]; rfl) (by rw [hpc]; rfl)
      have hstore := concluded_storeNetwork
      cases hforce with
      | saved _ _ _ _ =>
          exact watcher_concluded (hset _) (congrArg Job.id (hstore g network).2)
            (RevStore.get_write_self s.jobDB g.job) (congrArg Job.status (hstore g network).2)
            hne rfl (hstore g network).1
      | conflict _ _ => exact watcher_concluded (hset _) rfl hget rfl hne hdoc rfl
      | reread e _ _ => exact watcher_concluded (hset _) rfl hget rfl hne hdoc rfl
      | failed _ hfault => cases hfault
      | missing _ _ | conflictAgain _ _ =>
          exact watcher_concluded (hset _) (congrArg Job.id (hstore g network).2) hget
            (congrArg Job.status (hstore g network).2) hne hdoc (hstore g network).1

/-- One poll of the build. -/
theorem watcher_poll {s : State} {g : Goroutine} {doc : Job} {id : String}
    {verdict : Option (Option String)} (hgs : s.goroutines = [g]) (hid : g.job.id = id)
    (hget : s.jobDB.get id = some doc) (hw : Watched g doc verdict) (hpc : g.pc = .poll)
    {listing : Except String String} {artifact : Except String (Option JsonMap)}
    {jobId status : String} {err : GoError}
    (hanswer : getJobIdByQueueId listing artifact = some (jobId, status, err)) :
    Watcher id (verdict.or (conclusive (.go 0 (.poll listing artifact))))
      (s.move 0 (g.afterPoll jobId status err)) := by
  have hset := set_zero hgs (g.afterPoll jobId status err)
  rcases verdict with _ | _ | status'
  · obtain ⟨hstatus, hdoc, -⟩ := hw
    simp only [conclusive, hanswer, Option.none_or]
    unfold Goroutine.afterPoll at hset ⊢
    cases err with
    | some err =>
        -- the loop breaks with the job as it was
        have hno : ¬ (some err = none ∧ status = INPROGRESS) := by rintro ⟨⟨⟩, -⟩
        have hno' : ¬ (some err = (none : GoError)) := nofun
        rw [if_neg hno, if_neg hno'] at hset ⊢
        exact Or.inr ⟨_, doc, hset, hid, hget, hdoc, rfl⟩
    | none =>
        by_cases hin : status = INPROGRESS
        · rw [if_pos ⟨rfl, hin⟩] at hset ⊢
          simp only [if_pos hin]
          split at hset
          · next hnew =>
              rw [if_pos hnew]
              exact Or.inr ⟨_, doc, hset, hid, hget, hstatus, hdoc, Or.inr ⟨.put, rfl⟩⟩
          · next hnew =>
              rw [if_neg hnew]
              exact Or.inr ⟨_, doc, hset, hid, hget, hstatus, hdoc, Or.inl hpc⟩
        · rw [if_neg fun h => hin h.2, if_pos rfl] at hset ⊢
          simp only [if_neg hin]
          exact Or.inr ⟨_, doc, hset, hid, hget, rfl, hin, Or.inl ⟨.put, rfl, nofun⟩⟩
  · cases hpc.symm.trans hw.2
  · obtain ⟨-, -, ⟨stage, hsave, -⟩ | ⟨-, hconcluded⟩⟩ := hw
    · cases hpc.symm.trans hsave
    · rw [hpc] at hconcluded
      cases hconcluded

theorem watcher_goStep {package : Packages} {s t : State} {g : Goroutine} {doc : Job}
    {id : String} {verdict : Option (Option String)} {answer : Answer}
    (hgs : s.goroutines = [g]) (hid : g.job.id = id) (hget : s.jobDB.get id = some doc)
    (hw : Watched g doc verdict) (hwatch : watches (.go 0 answer) = true)
    (h : GoStep package s 0 g answer t) :
    Watcher id (verdict.or (conclusive (.go 0 answer))) t := by
  have hset := set_zero hgs
  have hnot := not_inSaveJob hw
  cases h with
  | saveJob save stage fault jobDB job next hpc hforce =>
      obtain rfl : fault = false := by simpa [watches] using hwatch
      have hnone : conclusive (.go 0 (.db false)) = none := rfl
      rw [hnone, Option.or_none]
      exact watcher_saveJob hgs hid hget hw hpc hforce
  | saveNetwork save stage network fault networkDB network' next hpc _ =>
      cases save with
      -- this goroutine has saved its job already
      | mark rows => rw [hpc] at hnot; cases hnot
      | store =>
          obtain ⟨rfl, hne, hdoc⟩ := status_of_concluded hw (by rw [hpc]; rfl) (by rw [hpc]; rfl)
          cases next <;> exact watcher_concluded (hset _) hid hget rfl hne hdoc rfl
      | clear rows =>
          obtain ⟨rfl, hne, hdoc⟩ := status_of_concluded hw (by rw [hpc]; rfl) (by rw [hpc]; rfl)
          cases next with
          | inl stage => exact watcher_concluded (hset _) hid hget rfl hne hdoc rfl
          | inr rev =>
              have hnext := concluded_nextClear g network' rows
              exact watcher_concluded (hset _) ((congrArg Job.id hnext.2).trans hid) hget
                (congrArg Job.status hnext.2) hne hdoc hnext.1
  | queryMark fault hpc => rw [hpc] at hnot; cases hnot
  -- the only step that learns the status
  | poll listing artifact jobId status err hpc hanswer =>
      exact watcher_poll hgs hid hget hw hpc hanswer
  | panics listing artifact hpc hanswer => exact Or.inl rfl
  | serveTar fetched now hpc =>
      obtain ⟨rfl, hne, hdoc⟩ := status_of_concluded hw (by rw [hpc]; rfl) (by rw [hpc]; rfl)
      cases fetched with
      | false => exact watcher_concluded (hset _) hid hget rfl hne hdoc rfl
      | true =>
          have hnext := concluded_afterTar package g now
          exact watcher_concluded (hset _) (hnext.2.1.trans hid) hget hnext.2.2 hne hdoc hnext.1
  | queryClear fault hpc =>
      obtain ⟨rfl, hne, hdoc⟩ := status_of_concluded hw (by rw [hpc]; rfl) (by rw [hpc]; rfl)
      obtain rfl : fault = false := by simpa [watches] using hwatch
      have hnext := concluded_nextClear g {} (getNetworkByServiceId s.networkDB g.job.serviceId)
      exact watcher_concluded (hset _) ((congrArg Job.id hnext.2).trans hid) hget
        (congrArg Job.status hnext.2) hne hdoc hnext.1

theorem watcher_step {package : Packages} {s t : State} {l : Label} {id : String}
    {verdict : Option (Option String)} (hs : Watcher id verdict s) (hwatch : watches l = true)
    (h : (server package).step s l = some t) : Watcher id (verdict.or (conclusive l)) t := by
  cases l with
  | go j answer =>
      obtain rfl : j = 0 := by
        cases j with
        | zero => rfl
        | succ j => cases hwatch
      rcases hs with hnil | ⟨g, doc, hgs, hid, hget, hw⟩
      · simp only [server, serverStep, hnil, List.getElem?_nil] at h
        cases h
      · simp only [server, serverStep, hgs, List.getElem?_cons_zero] at h
        exact watcher_goStep hgs hid hget hw hwatch (goStep_inv h)
  | start | init fault | spawn | request r | crash => cases hwatch

/-- The verdict of a whole run is the first conclusive answer. -/
theorem watcher_run {package : Packages} {s t : State} {ls : List Label} {id : String}
    {verdict : Option (Option String)} (hs : Watcher id verdict s)
    (hwatch : ∀ l ∈ ls, watches l = true) (h : (server package).exec s ls = some t) :
    Watcher id (verdict.or (ls.findSome? conclusive)) t := by
  induction ls generalizing s verdict with
  | nil =>
      obtain rfl := Option.some.inj h
      rw [List.findSome?_nil, Option.or_none]
      exact hs
  | cons l ls ih =>
      simp only [Lts.exec] at h
      split at h
      · next u hu =>
          have hstep := watcher_step hs (hwatch l List.mem_cons_self) hu
          have hrest := ih hstep (fun l' hl' => hwatch l' (List.mem_cons_of_mem l hl')) h
          rw [List.findSome?_cons]
          cases hl : conclusive l with
          | none => rwa [hl, Option.or_none] at hrest
          | some v => rwa [hl, Option.or_assoc, Option.some_or] at hrest
      · cases h

/-- **When the watcher ends with a status.**  Let `waitJob` run for a job that
    is stored without a status, with every database request served.  When it
    returns, the stored job has a terminal status if and only if the first
    answer other than `INPROGRESS` is a status that is not empty. -/
theorem watcher_stores_status_iff (package : Packages) (s₀ : State) (job : Job) (rev : Nat)
    (doc₀ : Job) (hgs : s₀.goroutines = [⟨job, rev, .poll⟩]) (hjob : job.status = "")
    (hget₀ : s₀.jobDB.get job.id = some doc₀) (hdoc₀ : doc₀.status = "") (ls : List Label)
    (hwatch : ∀ l ∈ ls, watches l = true) (s : State) (g : Goroutine)
    (hrun : (server package).exec s₀ ls = some s) (hg : s.goroutines[0]? = some g)
    (hret : g.pc.live = false) :
    (∃ doc, s.jobDB.get job.id = some doc ∧ doc.status ≠ "" ∧ doc.status ≠ INPROGRESS) ↔
      ∃ status, ls.findSome? conclusive = some (some status) ∧ status ≠ "" := by
  have hstart : Watcher job.id none s₀ :=
    Or.inr ⟨_, doc₀, hgs, rfl, hget₀, hjob, hdoc₀, Or.inl rfl⟩
  have hend := watcher_run hstart hwatch hrun
  rw [Option.none_or] at hend
  rcases hend with hnil | ⟨g', doc, hgs', -, hget, hw⟩
  · rw [hnil] at hg
    cases hg
  rw [hgs'] at hg
  obtain rfl := Option.some.inj hg
  rcases hv : ls.findSome? conclusive with _ | _ | status
  · -- the loop is still going on
    rw [hv] at hw
    obtain ⟨-, -, hpc | ⟨stage, hpc⟩⟩ := hw
    · rw [hpc] at hret
      cases hret
    · rw [hpc] at hret
      cases hret
  · rw [hv] at hw
    constructor
    · -- the loop broke on an error: nothing is stored
      rintro ⟨doc', hget', hne, -⟩
      obtain rfl := Option.some.inj (hget.symm.trans hget')
      exact absurd hw.1 hne
    · rintro ⟨status, heq, -⟩
      cases heq
  · rw [hv] at hw
    obtain ⟨-, hne, ⟨stage, hpc, -⟩ | ⟨hdoc, -⟩⟩ := hw
    · rw [hpc] at hret
      cases hret
    constructor
    · rintro ⟨doc', hget', hnonempty, -⟩
      obtain rfl := Option.some.inj (hget.symm.trans hget')
      exact ⟨status, rfl, hdoc ▸ hnonempty⟩
    · rintro ⟨status', heq, hnonempty⟩
      obtain rfl := Option.some.inj (Option.some.inj heq)
      exact ⟨doc, hget, hdoc ▸ hnonempty, hdoc ▸ hne⟩

/-- A job that is stored and not polled yet. -/
def pendingJob : Job :=
  { (Request.servicePost NETWORK "1" "u" STARTER "bx" "" 0 0 "").job with rev := 1 }

/-- The server after the job is stored. -/
def pendingServer : State where
  jobDB := RevStore.empty.write { pendingJob with rev := 0 }
  networkDB := .empty
  phase := .serving
  goroutines := [⟨pendingJob, 1, .poll⟩]

theorem watcher_stores_status_success :
    ∃ s, (server onePackage).exec pendingServer
        [.go 0 (.poll (.ok "<id>7</id>") (.error "")), .go 0 (.db false), .go 0 (polled SUCCESS),
          .go 0 (.db false), .go 0 (.tar false 0)] = some s ∧
      ∃ doc, s.jobDB.get "network_1" = some doc ∧ doc.status ≠ "" ∧ doc.status ≠ INPROGRESS := by
  refine ⟨_, (Option.some_get (by decide)).symm, ?_⟩
  exact (watcher_stores_status_iff onePackage pendingServer pendingJob 1 pendingJob rfl rfl rfl rfl
    _ (by decide) _ _ (Option.some_get (by decide)).symm (Option.some_get (by decide)).symm
    (by decide)).mpr ⟨SUCCESS, by decide, by decide⟩

/-- The first poll finds the build still queued: `waitJob` returns, and the
    job is left without a status. -/
theorem watcher_gives_up :
    ∃ s g doc, (server onePackage).exec pendingServer
        [.go 0 (.poll (.ok "<builds></builds>") (.error ""))] = some s ∧
      s.goroutines[0]? = some g ∧ g.pc.live = false ∧
      s.jobDB.get "network_1" = some doc ∧ doc.status = "" := by
  exact ⟨_, _, _, (Option.some_get (by decide)).symm, (Option.some_get (by decide)).symm,
    by decide, (Option.some_get (by decide)).symm, by decide⟩

end Hfrd.Api
