/-
  Hfrd.Api.CrashSafety

  When a created network is not lost.

  `waitJob` stores the status of a finished job before it fetches the package
  and stores the network, and `init` respawns only jobs without a status.  So
  between the two saves the network lives in the goroutine alone: a crash
  there, a failed download, or a failed put of the network loses it.

  The invariant: for every stored POST job with status `SUCCESS` and a package
  that names a network, the network is stored or a goroutine of that job is
  still to store it.  It holds while no step of the kind `losesNetwork` is
  taken.
-/

import Hfrd.Api.InProgress

namespace Hfrd.Api

open Hfrd.Go Hfrd.Lib

/-- The store of the network is ahead of `pc`. -/
def Pc.storesAhead : Pc → Bool
  | .serveTar | .forceSaveJob (.env _) _ | .forceSaveNetwork .store .put _ => true
  | _ => false

/-- A stored job that created a network which is not stored. -/
def outstanding (package : Packages) (networkDB : NetworkDB) (job : Job) : Bool :=
  job.method == POST && job.status == SUCCESS &&
    match packageIds (package job.name job.jobId) with
    | some (networkId, _) => (networkDB.get networkId).isNone
    | none => false

/-- The answer ends a goroutine at `pc` before its network is stored. -/
def drops : Pc → Answer → Bool
  | .serveTar, .tar fetched _ => !fetched
  | .forceSaveNetwork .store .put _, .db fault => fault
  | _, _ => false

/-- While the network of a job is outstanding, the process goes down, or a
    goroutine of that job cannot fetch the package or put the network. -/
def losesNetwork (package : Packages) (s : State) (l : Label) : Bool :=
  (crashes l && s.jobDB.all.any (outstanding package s.networkDB)) ||
    match l with
    | .go j answer => match s.goroutines[j]? with
      | some g => drops g.pc answer &&
          (s.jobDB.get g.job.id).any (outstanding package s.networkDB)
      | none => false
    | _ => false

/-! ## What a goroutine knows of its job -/

/-- `network` is what the package of `job` describes, and was never stored. -/
structure Filled (package : Packages) (job : Job) (network : Network) : Prop where
  networkId : network.networkId = (readPackage {} (package job.name job.jobId)).networkId
  serviceId : network.serviceId = (readPackage {} (package job.name job.jobId)).serviceId
  rev : network.rev = 0

/-- A job has no status before its build has ended, and what is saved for it
    afterwards is what its package describes. -/
def Follows (package : Packages) (job : Job) : Pc → Prop
  | .forceSaveJob .created _ | .forceSaveJob .jobId _ | .poll | .queryMark
  | .forceSaveNetwork (.mark _) _ _ => job.status = ""
  | .forceSaveJob (.env network) _ => Filled package job network
  | .forceSaveNetwork .store .put network =>
      network.id = (readPackage {} (package job.name job.jobId)).networkId ∧ network.rev = 0
  | _ => True

/-- A state in which every pending job waits for `init` or has a goroutine that
    follows it, and every goroutine follows its job. -/
structure Followed (package : Packages) (s : State) : Prop where
  pending : ∀ rows, s.phase = .scan rows → ∀ job ∈ rows, job.status = ""
  follows : ∀ g ∈ s.goroutines, Follows package g.job g.pc

theorem follows_nextMark {package : Packages} {g : Goroutine} (h : g.job.status = "")
    (network : Network) (rows : List Network) :
    Follows package (g.nextMark network rows).job (g.nextMark network rows).pc := by
  unfold Goroutine.nextMark
  split <;> exact h

theorem follows_nextClear {package : Packages} (g : Goroutine) (network : Network)
    (rows : List Network) :
    Follows package (g.nextClear network rows).job (g.nextClear network rows).pc := by
  unfold Goroutine.nextClear
  split <;> trivial

theorem follows_storeNetwork {package : Packages} {g : Goroutine} {network : Network}
    (h : Filled package g.job network) :
    Follows package (g.storeNetwork network).job (g.storeNetwork network).pc := by
  unfold Goroutine.storeNetwork
  split
  · exact ⟨h.networkId, h.rev⟩
  · trivial

theorem follows_savingJob {package : Packages} {g : Goroutine} {save : JobSave} {stage : Stage}
    (h : Follows package g.job (.forceSaveJob save stage)) (rev : Nat)
    (next : Stage ⊕ Option Nat) :
    Follows package (g.savingJob save { g.job with rev := rev } next).job
      (g.savingJob save { g.job with rev := rev } next).pc := by
  cases save with
  | created =>
      rcases next with stage | (_ | rev)
      · exact h
      · trivial
      · simp only [Goroutine.savingJob, Goroutine.afterSaveJob]
        split <;> exact h
  | jobId => rcases next with stage | (_ | rev) <;> exact h
  | status =>
      cases next with
      | inl stage => trivial
      | inr rev =>
          simp only [Goroutine.savingJob, Goroutine.afterSaveJob]
          repeat' split
          all_goals trivial
  | env network =>
      have hfilled : Filled package { g.job with rev := rev } network :=
        ⟨h.networkId, h.serviceId, h.rev⟩
      cases next with
      | inl stage => exact hfilled
      | inr rev => exact follows_storeNetwork hfilled

theorem follows_savingNetwork {package : Packages} {g : Goroutine} {save : NetworkSave}
    {stage : Stage} {network : Network}
    (h : Follows package g.job (.forceSaveNetwork save stage network)) (network' : Network)
    {next : Stage ⊕ Option Nat} (hnext : next ≠ .inl .put) :
    Follows package (g.savingNetwork save network' next).job
      (g.savingNetwork save network' next).pc := by
  cases save with
  | mark rows =>
      cases next with
      | inl stage => exact h
      | inr rev => exact follows_nextMark h network' rows
  | store =>
      cases next with
      | inl stage =>
          cases stage with
          | put => exact absurd rfl hnext
          | get => trivial
          | putAgain => trivial
      | inr rev => trivial
  | clear rows =>
      cases next with
      | inl stage => trivial
      | inr rev => exact follows_nextClear g network' rows

theorem follows_afterPoll {package : Packages} {g : Goroutine} (hpc : g.pc = .poll)
    (h : g.job.status = "") (jobId status : String) (err : GoError) :
    Follows package (g.afterPoll jobId status err).job (g.afterPoll jobId status err).pc := by
  unfold Goroutine.afterPoll
  split
  · split
    · exact h
    · rw [hpc]
      show g.job.status = ""
      exact h
  · split <;> trivial

theorem filled_readPackage (package : Packages) (job : Job) (now : Int) :
    Filled package job
      (readPackage (newNetwork job now) (package job.name job.jobId)) := by
  obtain ⟨hnetwork, hservice⟩ :=
    readPackage_ids (newNetwork job now) {} (package job.name job.jobId) rfl rfl
  exact ⟨hnetwork, hservice, (readPackage_flags (newNetwork job now) _).2.2⟩

theorem follows_afterTar {package : Packages} (g : Goroutine) (now : Int) :
    Follows package (g.afterTar package now).job (g.afterTar package now).pc := by
  have hfilled := filled_readPackage package g.job now
  simp only [Goroutine.afterTar]
  split
  · exact ⟨hfilled.networkId, hfilled.serviceId, hfilled.rev⟩
  · exact follows_storeNetwork hfilled

theorem followed_move {package : Packages} {s : State} {j : Nat} {g : Goroutine}
    (hs : Followed package s) (hg : Follows package g.job g.pc) :
    Followed package (s.move j g) := by
  exact ⟨hs.pending,
    forall_mem_set (P := fun g : Goroutine => Follows package g.job g.pc) hs.follows hg j⟩

theorem followed_goStep {package : Packages} {s t : State} {j : Nat} {g : Goroutine}
    {answer : Answer} (hs : Followed package s) (hj : s.goroutines[j]? = some g)
    (h : GoStep package s j g answer t) : Followed package t := by
  have hg := hs.follows g (List.mem_of_getElem? hj)
  -- only the saves change what is stored, and no goroutine is left behind
  cases h with
  | saveJob save stage fault jobDB job next hpc hforce =>
      rw [hpc] at hg
      have hs' : Followed package { s with jobDB := jobDB } := ⟨hs.pending, hs.follows⟩
      obtain ⟨rev, rfl⟩ := exists_rev_of_forceStep hforce
      exact followed_move hs' (follows_savingJob hg rev next)
  | saveNetwork save stage network fault networkDB network' next hpc hforce =>
      rw [hpc] at hg
      have hs' : Followed package { s with networkDB := networkDB } := ⟨hs.pending, hs.follows⟩
      exact followed_move hs' (follows_savingNetwork hg network' hforce.next_ne_put)
  | queryMark fault hpc =>
      rw [hpc] at hg
      refine followed_move hs ?_
      split
      · exact hg
      · exact follows_nextMark hg _ _
  | poll listing artifact jobId status err hpc _ =>
      have hstatus := hg
      rw [hpc] at hstatus
      exact followed_move hs (follows_afterPoll hpc hstatus jobId status err)
  | panics listing artifact hpc _ => exact ⟨nofun, fun g hg => absurd hg List.not_mem_nil⟩
  | serveTar fetched now hpc =>
      refine followed_move hs ?_
      split
      · exact follows_afterTar g now
      · trivial
  | queryClear fault hpc =>
      refine followed_move hs ?_
      split
      · trivial
      · exact follows_nextClear g _ _

theorem followed_step {package : Packages} {s t : State} {l : Label}
    (hs : Followed package s) (h : ServerStep package s l t) : Followed package t := by
  cases h with
  | start _ => exact ⟨nofun, hs.follows⟩
  | init fault _ =>
      refine ⟨fun rows hrows job hjob => ?_, hs.follows⟩
      cases fault with
      | true => cases hrows
      | false =>
          obtain rfl := Phase.scan.inj hrows
          exact (mem_getPendingJobs.mp hjob).2.1
  | spawn job rows hphase =>
      have hrows := hs.pending _ hphase
      refine ⟨fun rows' hrows' job' hjob' => ?_, fun g hg => ?_⟩
      · obtain rfl := Phase.scan.inj hrows'
        exact hrows job' (List.mem_cons_of_mem job hjob')
      · rcases List.mem_append.mp hg with hg | hg
        · exact hs.follows g hg
        · -- a pending job has no status
          rw [List.mem_singleton.mp hg]
          exact hrows job List.mem_cons_self
  | scanned _ => exact ⟨nofun, hs.follows⟩
  | request r _ =>
      refine ⟨hs.pending, fun g hg => ?_⟩
      rcases List.mem_append.mp hg with hg | hg
      · exact hs.follows g hg
      · rw [List.mem_singleton.mp hg]
        exact r.job_status
  | go j g answer t hj hgo => exact followed_goStep hs hj hgo
  | crash => exact ⟨nofun, fun g hg => absurd hg List.not_mem_nil⟩

/-! ## The goroutine that still has to store a network -/

/-- `g` is a goroutine of the stored `job` that is still to store its network. -/
structure Stores (job : Job) (g : Goroutine) : Prop where
  id : g.job.id = job.id
  name : g.job.name = job.name
  jobId : g.job.jobId = job.jobId
  ahead : g.pc.storesAhead = true

/-- Every job that created a network has it stored, or a goroutine to store it. -/
def Tracked (package : Packages) (s : State) : Prop :=
  ∀ id job networkId serviceId, s.jobDB.get id = some job → job.method = POST →
    job.status = SUCCESS →
    packageIds (package job.name job.jobId) = some (networkId, serviceId) →
    (s.networkDB.get networkId).isSome ∨ ∃ g ∈ s.goroutines, Stores job g

theorem packageIds_eq_some {entries : List TarEntry} {networkId serviceId : String}
    (h : packageIds entries = some (networkId, serviceId)) :
    (readPackage {} entries).networkId = networkId ∧
    (readPackage {} entries).serviceId = serviceId ∧
    networkId.length > 0 ∧ serviceId.length > 0 := by
  simp only [packageIds] at h
  split at h
  · next hpos =>
      obtain ⟨rfl, rfl⟩ := Prod.mk.inj (Option.some.inj h)
      exact ⟨rfl, rfl, hpos⟩
  · cases h

theorem stores_storeNetwork {package : Packages} {job : Job} {g : Goroutine} {network : Network}
    {networkId serviceId : String} (hid : g.job.id = job.id) (hname : g.job.name = job.name)
    (hjobId : g.job.jobId = job.jobId)
    (hids : packageIds (package job.name job.jobId) = some (networkId, serviceId))
    (hfilled : Filled package g.job network) : Stores job (g.storeNetwork network) := by
  obtain ⟨hnetwork, hservice, hn, hs⟩ := packageIds_eq_some hids
  have hpos : network.networkId.length > 0 ∧ network.serviceId.length > 0 := by
    rw [hfilled.networkId, hfilled.serviceId, hname, hjobId, hnetwork, hservice]
    exact ⟨hn, hs⟩
  unfold Goroutine.storeNetwork
  rw [if_pos hpos]
  exact ⟨hid, hname, hjobId, rfl⟩

theorem stores_afterTar {package : Packages} {job : Job} {g : Goroutine}
    {networkId serviceId : String} (hc : Stores job g)
    (hids : packageIds (package job.name job.jobId) = some (networkId, serviceId)) (now : Int) :
    Stores job (g.afterTar package now) := by
  simp only [Goroutine.afterTar]
  split
  · exact ⟨hc.id, hc.name, hc.jobId, rfl⟩
  · exact stores_storeNetwork hc.id hc.name hc.jobId hids (filled_readPackage package g.job now)

/-- A goroutine that is to store the network of a job does so, or stays ahead
    of it. -/
theorem stores_goStep {package : Packages} {s t : State} {j : Nat} {g : Goroutine}
    {answer : Answer} {job : Job} {networkId serviceId : String}
    (hg : Follows package g.job g.pc) (h : GoStep package s j g answer t)
    (hdrops : drops g.pc answer = false)
    (hids : packageIds (package job.name job.jobId) = some (networkId, serviceId))
    (hc : Stores job g) :
    (t.networkDB.get networkId).isSome ∨
      ∃ g', t.goroutines = s.goroutines.set j g' ∧ Stores job g' := by
  have hahead := hc.ahead
  cases h with
  | saveJob save stage fault jobDB job' next hpc hforce =>
      rw [hpc] at hahead hg
      cases save with
      | env network =>
          refine Or.inr ⟨_, rfl, ?_⟩
          obtain ⟨rev, rfl⟩ := exists_rev_of_forceStep hforce
          have hfilled : Filled package { g.job with rev := rev } network :=
            ⟨hg.networkId, hg.serviceId, hg.rev⟩
          cases next with
          | inl stage => exact ⟨hc.id, hc.name, hc.jobId, rfl⟩
          | inr rev' =>
              exact stores_storeNetwork (g := { g with job := { g.job with rev := rev } })
                hc.id hc.name hc.jobId hids hfilled
      | created | jobId | status => cases hahead
  | saveNetwork save stage network fault networkDB network' next hpc hforce =>
      rw [hpc] at hahead hg hdrops
      cases save with
      | store =>
          cases stage with
          | put =>
              -- a new network has no revision: the put is accepted, or one is stored already
              have hid : network.id = networkId := by
                rw [hg.1, hc.name, hc.jobId, (packageIds_eq_some hids).1]
              left
              cases hforce with
              | saved _ _ _ _ =>
                  have hwritten := RevStore.get_write_self s.networkDB network
                  exact hid ▸ (Option.isSome_of_eq_some hwritten)
              | conflict _ hput => exact hid ▸ RevStore.isSome_of_conflict hput hg.2
              | failed _ hfault => exact absurd (hfault.symm.trans hdrops) Bool.noConfusion
          | get => cases hahead
          | putAgain => cases hahead
      | mark rows | clear rows => cases hahead
  | serveTar fetched now hpc =>
      rw [hpc] at hdrops
      cases fetched with
      | false => cases hdrops
      | true => exact Or.inr ⟨_, rfl, stores_afterTar hc hids now⟩
  | queryMark fault hpc => rw [hpc] at hahead; cases hahead
  | poll listing artifact jobId status err hpc _ => rw [hpc] at hahead; cases hahead
  | panics listing artifact hpc _ => rw [hpc] at hahead; cases hahead
  | queryClear fault hpc => rw [hpc] at hahead; cases hahead

/-! ## One step -/

theorem not_crashes_of_outstanding {package : Packages} {s : State} {l : Label} {job : Job}
    (hloses : losesNetwork package s l = false) (hget : s.jobDB.get job.id = some job)
    (hout : outstanding package s.networkDB job = true) : crashes l = false := by
  simp only [losesNetwork, Bool.or_eq_false_iff, Bool.and_eq_false_iff] at hloses
  apply hloses.1.resolve_right
  intro hany
  have hmem : job ∈ s.jobDB.all := RevStore.mem_all.mpr hget
  exact Bool.false_ne_true (hany.symm.trans (List.any_eq_true.mpr ⟨job, hmem, hout⟩))

theorem not_drops_of_outstanding {package : Packages} {s : State} {j : Nat} {g : Goroutine}
    {answer : Answer} {job : Job} (hloses : losesNetwork package s (.go j answer) = false)
    (hj : s.goroutines[j]? = some g) (hid : g.job.id = job.id)
    (hget : s.jobDB.get job.id = some job)
    (hout : outstanding package s.networkDB job = true) : drops g.pc answer = false := by
  simp only [losesNetwork, hj, hid, hget, Option.any_some, hout, Bool.and_true,
    Bool.or_eq_false_iff] at hloses
  exact hloses.2

/-- A stored job that was tracked stays so. -/
theorem tracked_stay {package : Packages} {s t : State} {l : Label} {job : Job}
    {networkId serviceId : String} (hfollowed : Followed package s)
    (h : ServerStep package s l t) (hloses : losesNetwork package s l = false)
    (hget : s.jobDB.get job.id = some job) (hpost : job.method = POST)
    (hsuccess : job.status = SUCCESS)
    (hids : packageIds (package job.name job.jobId) = some (networkId, serviceId))
    (hs : (s.networkDB.get networkId).isSome ∨ ∃ g ∈ s.goroutines, Stores job g) :
    (t.networkDB.get networkId).isSome ∨ ∃ g ∈ t.goroutines, Stores job g := by
  by_cases hstored : (s.networkDB.get networkId).isSome
  · exact Or.inl (isSome_networkDB_step h hstored)
  -- otherwise the network is outstanding, so the step is none of the bad ones
  obtain ⟨g, hg, hc⟩ := hs.resolve_left hstored
  have hout : outstanding package s.networkDB job = true := by
    simp only [outstanding, hpost, hsuccess, hids, beq_self_eq_true, Bool.true_and]
    exact Option.isNone_iff_eq_none.mpr (Option.not_isSome_iff_eq_none.mp hstored)
  cases h with
  | start _ | init _ _ | scanned _ => exact Or.inr ⟨g, hg, hc⟩
  | spawn _ _ _ | request _ _ => exact Or.inr ⟨g, List.mem_append_left _ hg, hc⟩
  | go j g₀ answer t hj hgo =>
      by_cases hsame : g = g₀
      · subst hsame
        have hdrops := not_drops_of_outstanding hloses hj hc.id hget hout
        rcases stores_goStep (hfollowed.follows g hg) hgo hdrops hids hc with
          hnow | ⟨g', hset, hc'⟩
        · exact Or.inl hnow
        · exact Or.inr ⟨g', hset ▸ mem_set_self hj, hc'⟩
      · obtain ⟨g', hset⟩ := goroutines_goStep hgo (not_crashes_of_outstanding hloses hget hout)
        exact Or.inr ⟨g, hset ▸ (mem_set_or_eq hj hg).resolve_left hsame, hc⟩
  | crash => exact absurd (not_crashes_of_outstanding hloses hget hout) Bool.noConfusion

/-- A goroutine that stores a job as successful goes on to store its network. -/
theorem stores_afterSaveJob {package : Packages} {g : Goroutine} {save : JobSave} {stage : Stage}
    (hg : Follows package g.job (.forceSaveJob save stage)) (hpost : g.job.method = POST)
    (hsuccess : g.job.status = SUCCESS) {networkId serviceId : String}
    (hids : packageIds (package g.job.name g.job.jobId) = some (networkId, serviceId))
    (rev rev' : Nat) :
    Stores (RevDoc.withRev g.job rev) (g.afterSaveJob (some rev') save) := by
  cases save with
  -- before the build has ended the job has no status
  | created => exact absurd (hsuccess.symm.trans hg) (by decide)
  | jobId => exact absurd (hsuccess.symm.trans hg) (by decide)
  | status =>
      simp only [Goroutine.afterSaveJob]
      rw [if_pos ⟨hsuccess, hpost⟩]
      exact ⟨rfl, rfl, rfl, rfl⟩
  | env network => exact stores_storeNetwork rfl rfl rfl hids hg

theorem tracked_step {package : Packages} {s t : State} {l : Label}
    (hfollowed : Followed package s) (hs : Tracked package s)
    (hloses : losesNetwork package s l = false) (h : ServerStep package s l t) :
    Tracked package t := by
  intro id job networkId serviceId hget' hpost hsuccess hids
  obtain rfl := RevStore.key_of_get hget'
  have hold : s.jobDB.get job.id = some job →
      (t.networkDB.get networkId).isSome ∨ ∃ g ∈ t.goroutines, Stores job g :=
    fun hget => tracked_stay hfollowed h hloses hget hpost hsuccess hids
      (hs _ job networkId serviceId hget hpost hsuccess hids)
  rcases jobDB_step h with hsame | ⟨j, g, save, stage, -, hj, hpc, -, -, hwrite, hset⟩
  · exact hold (hsame ▸ hget')
  · have hget := hget'
    rw [hwrite] at hget
    rcases RevStore.get_write_cases hget with ⟨-, rfl⟩ | ⟨-, hget⟩
    · -- the job is written by the goroutine that tracks it from now on
      have hg := hfollowed.follows g (List.mem_of_getElem? hj)
      rw [hpc] at hg
      exact Or.inr ⟨_, hset ▸ mem_set_self hj,
        stores_afterSaveJob hg hpost hsuccess hids _ _⟩
    · exact hold hget

/-- **Crash safety of network creation.**  In every run with no step of the
    kind `losesNetwork`, restarts included, every stored POST job with status
    `SUCCESS` whose package names a network has that network stored, or a live
    goroutine of the job that is still to store it. -/
theorem network_stored_or_ahead (package : Packages) (ls : List Label) (s : State)
    (hrun : (server package).Run (fun s l => losesNetwork package s l = false) .initial ls s)
    (id : String) (job : Job) (networkId serviceId : String)
    (hget : s.jobDB.get id = some job) (hpost : job.method = POST)
    (hsuccess : job.status = SUCCESS)
    (hids : packageIds (package job.name job.jobId) = some (networkId, serviceId)) :
    (s.networkDB.get networkId).isSome ∨
    ∃ g ∈ s.goroutines, g.job.id = job.id ∧ g.job.name = job.name ∧ g.job.jobId = job.jobId ∧
      g.pc.storesAhead = true := by
  have hstep : ∀ s l t, (Followed package s ∧ Tracked package s) →
      losesNetwork package s l = false → (server package).step s l = some t →
      Followed package t ∧ Tracked package t :=
    fun s l t hs hok hst =>
      ⟨followed_step hs.1 (serverStep_inv hst), tracked_step hs.1 hs.2 hok (serverStep_inv hst)⟩
  have hfollowed : Followed package .initial :=
    ⟨nofun, fun g hg => absurd hg List.not_mem_nil⟩
  have htracked : Tracked package .initial := by
    intro id job networkId serviceId hnone
    cases (RevStore.get_empty id).symm.trans hnone
  rcases (hrun.preserves hstep ⟨hfollowed, htracked⟩).2 id job networkId serviceId hget hpost
    hsuccess hids with hstored | ⟨g, hg, hc⟩
  · exact Or.inl hstored
  · exact Or.inr ⟨g, hg, hc.id, hc.name, hc.jobId, hc.ahead⟩

theorem network_stored_or_ahead_created :
    ∃ s job, (server onePackage).exec .initial createService = some s ∧
      s.jobDB.get "network_1" = some job ∧ job.method = POST ∧ job.status = SUCCESS ∧
      ((s.networkDB.get "n1").isSome ∨
        ∃ g ∈ s.goroutines, g.job.id = job.id ∧ g.job.name = job.name ∧
          g.job.jobId = job.jobId ∧ g.pc.storesAhead = true) := by
  refine ⟨_, _, (Option.some_get (by decide)).symm, (Option.some_get (by decide)).symm,
    by decide, by decide, ?_⟩
  exact network_stored_or_ahead onePackage createService _
    (.of_along (Option.some_get (by decide)).symm (by decide)) "network_1" _ "n1" "s1"
    (Option.some_get (by decide)).symm (by decide) (by decide) rfl

/-- The process goes down after the status is stored, and is started again. -/
def crashBeforeStore : List Label :=
  createService.take 7 ++ [.crash, .start, .init false, .spawn]

/-- The job is stored as successful, its network is not stored, and no
    goroutine is left to store it. -/
theorem network_lost :
    ∃ s job, (server onePackage).exec .initial crashBeforeStore = some s ∧
      s.jobDB.get "network_1" = some job ∧ job.method = POST ∧ job.status = SUCCESS ∧
      packageIds (onePackage job.name job.jobId) = some ("n1", "s1") ∧
      (s.networkDB.get "n1").isSome = false ∧ s.goroutines.length = 0 := by
  exact ⟨_, _, (Option.some_get (by decide)).symm, (Option.some_get (by decide)).symm,
    by decide, by decide, rfl, by decide, by decide⟩

end Hfrd.Api
