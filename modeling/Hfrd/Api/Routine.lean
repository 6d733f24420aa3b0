/-
  Hfrd.Api.Routine

  The goroutines of api/resource/routine.go as a transition system over the
  two databases.

  A request starts a goroutine in `saveJob`; at start-up `init` starts one in
  `waitJob` for every pending job.  A goroutine moves by one request to a
  database or to Jenkins at a time, so every interleaving of any number of
  goroutines is a run, and so is every crash: the goroutines are gone, the
  databases stay.

  The label says what the environment answers: whether a database request
  fails (for another reason than a conflict, which the stored revision
  decides), what a poll of the build gives, whether the package of a finished
  build can be fetched.  The package itself, `package name jobId`, is fixed by
  the build.
-/

import Hfrd.Api.Jenkins
import Hfrd.Lib.Lts

namespace Hfrd.Api

open Hfrd.Go Hfrd.Lib

/-! ## Requests -/

/-- The environment of the cluster manager. -/
def CM : String := "cm"
/-- The starter plan. -/
def STARTER : String := "sp"
/-- The enterprise plan. -/
def ENTERPRISE : String := "ep"
/-- The ledger type of CouchDB. -/
def COUCHDB : String := "couch"

/-- A request that is accepted, with the queue id of the build it triggered. -/
inductive Request
  /-- `ServicePost`, with the plan as it is after its checks. -/
  | servicePost (jobName queueId uid planName env location : String)
      (numOfOrgs numOfPeers : Int) (ledgerType : String)
  | ibpCertsPost (queueId uid reqId : String)
  | deleteService (env serviceId uid queueId : String)

/-- The job each handler passes to `saveJob`. -/
def Request.job : Request → Job
  | .servicePost jobName queueId uid planName env location numOfOrgs numOfPeers ledgerType =>
      let job : Job :=
        { queueId := queueId, name := jobName, id := jobName ++ SEPARATOR ++ queueId,
          method := POST, user := uid, planName := planName, env := env,
          location := if planName = STARTER then "" else location }
      if planName = ENTERPRISE then
        { job with numOfOrgs := numOfOrgs, numOfPeers := numOfPeers, ledgerType := ledgerType }
      else if planName = STARTER then
        { job with numOfOrgs := 2, numOfPeers := 1, ledgerType := COUCHDB }
      else job
  | .ibpCertsPost queueId uid reqId =>
      { serviceId := reqId, queueId := queueId, name := IBPCERTS,
        id := IBPCERTS ++ SEPARATOR ++ queueId, method := POST, user := uid, planName := "N/A",
        env := "N/A", location := "N/A" }
  | .deleteService env serviceId uid queueId =>
      let jobName := if env = CM then NETWORK_CM else NETWORK
      { queueId := queueId, name := jobName, id := jobName ++ SEPARATOR ++ queueId,
        method := DELETE, user := uid, serviceId := serviceId }

/-- A new job has neither a status nor a revision. -/
theorem Request.job_status (r : Request) : r.job.status = "" := by
  cases r with
  | servicePost =>
      simp only [Request.job]
      split
      · rfl
      · split <;> rfl
  | ibpCertsPost => rfl
  | deleteService => rfl

/-! ## Goroutines -/

/-- The calls of `ForceSaveJob`. -/
inductive JobSave
  | created
  | jobId
  | status
  /-- After an `ibpcerts` build, before its network is stored. -/
  | env (network : Network)

/-- The calls of `ForceSaveNetwork`, with the rows the loop has still to scan. -/
inductive NetworkSave
  | mark (rows : List Network)
  | store
  | clear (rows : List Network)

/-- The request a goroutine makes next. -/
inductive Pc
  | forceSaveJob (save : JobSave) (stage : Stage)
  | forceSaveNetwork (save : NetworkSave) (stage : Stage) (network : Network)
  /-- `GetNetworkByServiceId` in `saveJob`. -/
  | queryMark
  | poll
  | serveTar
  /-- `GetNetworkByServiceId` in the DELETE branch of `waitJob`. -/
  | queryClear
  | exited

/-- The goroutine has not returned yet. -/
def Pc.live : Pc → Bool
  | .exited => false
  | _ => true

/-- `rev` is the local of `saveJob` that becomes `job.Rev` before `waitJob`. -/
structure Goroutine where
  job : Job
  rev : Nat
  pc : Pc

/-- The two assignments of flags. -/
def Network.markDeleting (network : Network) : Network := { network with deleting := true }

/-- The document of a network whose deletion has succeeded. -/
def Network.markDeleted (network : Network) : Network :=
  { network with deleted := true, deleting := false }

/-- The next row of `saveJob` that is not deleted, marked as deleting.  One
    variable is decoded into for all rows. -/
def scanMark : Network → List Network → Option (Network × List Network)
  | _, [] => none
  | network, row :: rows =>
      let network := network.scanDoc row
      if network.deleted = false then some (network.markDeleting, rows)
      else scanMark network rows

theorem scanMark_cons (network row : Network) (rows : List Network) :
    scanMark network (row :: rows) =
      if row.deleted = false then some ((network.scanDoc row).markDeleting, rows)
      else scanMark (network.scanDoc row) rows := rfl

/-- The next row of `waitJob`, marked as deleted. -/
def scanClear : Network → List Network → Option (Network × List Network)
  | _, [] => none
  | network, row :: rows =>
      some ((network.scanDoc row).markDeleted, rows)

namespace Goroutine

/-- The goroutine at another place of its code. -/
def goTo (g : Goroutine) (pc : Pc) : Goroutine := { g with pc := pc }

/-- The end of `saveJob`. -/
def waitJob (g : Goroutine) : Goroutine :=
  { g with job := { g.job with rev := g.rev }, pc := .poll }

/-- The loop over the rows in `saveJob`. -/
def nextMark (g : Goroutine) (network : Network) (rows : List Network) : Goroutine :=
  match scanMark network rows with
  | some (network, rows) => g.goTo (.forceSaveNetwork (.mark rows) .put network)
  | none => g.waitJob

/-- The loop over the rows in the DELETE branch of `waitJob`. -/
def nextClear (g : Goroutine) (network : Network) (rows : List Network) : Goroutine :=
  match scanClear network rows with
  | some (network, rows) => g.goTo (.forceSaveNetwork (.clear rows) .put network)
  | none => g.goTo .exited

/-- The end of the POST branch. -/
def storeNetwork (g : Goroutine) (network : Network) : Goroutine :=
  if network.networkId.length > 0 ∧ network.serviceId.length > 0 then
    g.goTo (.forceSaveNetwork .store .put
      { network with id := network.networkId, jobId := g.job.jobId, jobName := g.job.name })
  else g.goTo .exited

/-- What follows a call of `ForceSaveJob` that returned `rev`, `none` being an
    error. -/
def afterSaveJob (g : Goroutine) (rev : Option Nat) : JobSave → Goroutine
  | .created => match rev with
    | none => g.goTo .exited
    | some rev =>
        let g := { g with rev := rev }
        if g.job.method = DELETE ∧ g.job.serviceId.length > 0 then g.goTo .queryMark
        else g.waitJob
  | .jobId => match rev with
    | none => g.goTo .poll
    | some rev => { g with job := { g.job with rev := rev }, pc := .poll }
  | .status =>
      if g.job.status = SUCCESS ∧ g.job.method = POST then g.goTo .serveTar
      else if g.job.status = SUCCESS ∧ g.job.method = DELETE ∧ g.job.serviceId.length > 0 then
        g.goTo .queryClear
      else g.goTo .exited
  | .env network => g.storeNetwork network

theorem afterSaveJob_delete {g : Goroutine} (rev : Option Nat) (hstatus : g.job.status = SUCCESS)
    (hmethod : g.job.method = DELETE) (hservice : g.job.serviceId.length > 0) :
    g.afterSaveJob rev .status = g.goTo .queryClear := by
  have hpost : ¬ (g.job.status = SUCCESS ∧ g.job.method = POST) := by
    rw [hmethod]
    exact fun h => absurd h.2 (by decide)
  simp only [afterSaveJob]
  rw [if_neg hpost, if_pos ⟨hstatus, hmethod, hservice⟩]

/-- What follows a call of `ForceSaveNetwork`.  Its error is only logged (after
    a retry that was accepted it still returns the first conflict). -/
def afterSaveNetwork (g : Goroutine) (network : Network) : NetworkSave → Goroutine
  | .mark rows => g.nextMark network rows
  | .store => g.goTo .exited
  | .clear rows => g.nextClear network rows

/-- What follows a poll of the build. -/
def afterPoll (g : Goroutine) (jobId status : String) (err : GoError) : Goroutine :=
  if err = none ∧ status = INPROGRESS then
    if g.job.jobId = "" then
      { g with job := { g.job with jobId := jobId }, pc := .forceSaveJob .jobId .put }
    else g
  else if err = none then
    { g with
      job := { g.job with status := status, jobId := jobId }
      pc := .forceSaveJob .status .put }
  else g.goTo .exited

end Goroutine

/-- The network a build of `job` that finishes at `now` starts to fill. -/
def newNetwork (job : Job) (now : Int) : Network :=
  { createdAt := now, user := job.user, planName := job.planName, env := job.env,
    location := job.location, numOfOrgs := job.numOfOrgs, numOfPeers := job.numOfPeers,
    ledgerType := job.ledgerType }

/-- The packages of all builds, by job name and job id. -/
abbrev Packages := String → String → List TarEntry

/-- What follows the download of the package. -/
def Goroutine.afterTar (package : Packages) (g : Goroutine) (now : Int) : Goroutine :=
  let network := readPackage (newNetwork g.job now) (package g.job.name g.job.jobId)
  if g.job.name = IBPCERTS ∧ network.networkId.length > 0 then
    { g with
      job := { g.job with env := network.networkId }
      pc := .forceSaveJob (.env network) .put }
  else g.storeNetwork network

/-! ## The server -/

/-- Where the process is; `scan` is the loop of `init` with the rows it has
    still to scan. -/
inductive Phase
  | down
  | query
  | scan (rows : List Job)
  | serving

/-- The two databases, and the process of the server with its goroutines. -/
structure State where
  jobDB : JobDB
  networkDB : NetworkDB
  phase : Phase
  goroutines : List Goroutine

/-- What the environment answers to the request of a goroutine. -/
inductive Answer
  | db (fault : Bool)
  | poll (listing : Except String String) (artifact : Except String (Option JsonMap))
  | tar (fetched : Bool) (now : Int)

/-- What can happen to the server. -/
inductive Label
  /-- The process starts: `init` queries the pending jobs next. -/
  | start
  | init (fault : Bool)
  | spawn
  | request (r : Request)
  | go (j : Nat) (answer : Answer)
  | crash

/-- Both databases are empty and the server has not been started yet. -/
def State.initial : State where
  jobDB := .empty
  networkDB := .empty
  phase := .down
  goroutines := []

namespace State

/-- Goroutine `j` becomes `g`. -/
def move (s : State) (j : Nat) (g : Goroutine) : State :=
  { s with goroutines := s.goroutines.set j g }

/-- `go saveJob(&job)`. -/
def goSaveJob (s : State) (job : Job) : State :=
  { s with goroutines := s.goroutines ++ [⟨job, 0, .forceSaveJob .created .put⟩] }

/-- `go waitJob(&job)`. -/
def goWaitJob (s : State) (job : Job) : State :=
  { s with goroutines := s.goroutines ++ [⟨job, 0, .poll⟩] }

/-- The process ends, and its goroutines with it. -/
def crash (s : State) : State := { s with phase := .down, goroutines := [] }

end State

/-- The goroutine after one request of `ForceSaveJob`. -/
def Goroutine.savingJob (g : Goroutine) (save : JobSave) (job : Job) :
    Stage ⊕ Option Nat → Goroutine
  | .inl stage => { g with job := job, pc := .forceSaveJob save stage }
  | .inr rev => { g with job := job }.afterSaveJob rev save

/-- The goroutine after one request of `ForceSaveNetwork`. -/
def Goroutine.savingNetwork (g : Goroutine) (save : NetworkSave) (network : Network) :
    Stage ⊕ Option Nat → Goroutine
  | .inl stage => g.goTo (.forceSaveNetwork save stage network)
  | .inr _ => g.afterSaveNetwork network save

/-- One step of goroutine `j`. -/
def goStep (package : Packages) (s : State) (j : Nat) (g : Goroutine) (answer : Answer) :
    Option State :=
  match g.pc, answer with
  | .forceSaveJob save stage, .db fault =>
      let (jobDB, job, next) := forceStep s.jobDB g.job fault stage
      some ({ s with jobDB := jobDB }.move j (g.savingJob save job next))
  | .forceSaveNetwork save stage network, .db fault =>
      let (networkDB, network, next) := forceStep s.networkDB network fault stage
      some ({ s with networkDB := networkDB }.move j (g.savingNetwork save network next))
  | .queryMark, .db fault =>
      -- an error of the query is logged, and the job is watched all the same
      some (s.move j (if fault then g.waitJob
        else g.nextMark {} (getNetworkByServiceId s.networkDB g.job.serviceId)))
  | .poll, .poll listing artifact =>
      match getJobIdByQueueId listing artifact with
      | some (jobId, status, err) => some (s.move j (g.afterPoll jobId status err))
      -- a panic in one goroutine takes the process down
      | none => some s.crash
  | .serveTar, .tar fetched now =>
      some (s.move j (if fetched then g.afterTar package now else g.goTo .exited))
  | .queryClear, .db fault =>
      some (s.move j (if fault then g.goTo .exited
        else g.nextClear {} (getNetworkByServiceId s.networkDB g.job.serviceId)))
  | _, _ => none

/-- A step of the server; none where it cannot happen. -/
def serverStep (package : Packages) (s : State) : Label → Option State
  | .start => match s.phase with
    | .down => some { s with phase := .query }
    | _ => none
  | .init fault => match s.phase with
    | .query =>
        some { s with phase := if fault then .serving else .scan (getPendingJobs s.jobDB) }
    | _ => none
  | .spawn => match s.phase with
    | .scan (job :: rows) => some ({ s with phase := .scan rows }.goWaitJob job)
    | .scan [] => some { s with phase := .serving }
    | _ => none
  | .request r => match s.phase with
    | .serving => some (s.goSaveJob r.job)
    | _ => none
  | .go j answer => match s.goroutines[j]? with
    | some g => goStep package s j g answer
    | none => none
  | .crash => some s.crash

/-- The API server with its databases. -/
def server (package : Packages) : Lts State Label where
  step := serverStep package

/-- The process goes down: a crash, or a panic on the status artifact. -/
def crashes : Label → Bool
  | .crash => true
  | .go _ (.poll listing artifact) => (getJobIdByQueueId listing artifact).isNone
  | _ => false

/-! ## What one step can do -/

/-- The steps of a goroutine `g` at position `j`. -/
inductive GoStep (package : Packages) (s : State) (j : Nat) (g : Goroutine) :
    Answer → State → Prop
  | saveJob (save : JobSave) (stage : Stage) (fault : Bool) (jobDB : JobDB) (job : Job)
      (next : Stage ⊕ Option Nat) : g.pc = .forceSaveJob save stage →
      ForceStep s.jobDB g.job fault stage (jobDB, job, next) →
      GoStep package s j g (.db fault)
        ({ s with jobDB := jobDB }.move j (g.savingJob save job next))
  | saveNetwork (save : NetworkSave) (stage : Stage) (network : Network) (fault : Bool)
      (networkDB : NetworkDB) (network' : Network) (next : Stage ⊕ Option Nat) :
      g.pc = .forceSaveNetwork save stage network →
      ForceStep s.networkDB network fault stage (networkDB, network', next) →
      GoStep package s j g (.db fault)
        ({ s with networkDB := networkDB }.move j (g.savingNetwork save network' next))
  | queryMark (fault : Bool) : g.pc = .queryMark →
      GoStep package s j g (.db fault)
        (s.move j (if fault then g.waitJob
          else g.nextMark {} (getNetworkByServiceId s.networkDB g.job.serviceId)))
  | poll (listing : Except String String) (artifact : Except String (Option JsonMap))
      (jobId status : String) (err : GoError) : g.pc = .poll →
      getJobIdByQueueId listing artifact = some (jobId, status, err) →
      GoStep package s j g (.poll listing artifact) (s.move j (g.afterPoll jobId status err))
  | panics (listing : Except String String) (artifact : Except String (Option JsonMap)) :
      g.pc = .poll → getJobIdByQueueId listing artifact = none →
      GoStep package s j g (.poll listing artifact) s.crash
  | serveTar (fetched : Bool) (now : Int) : g.pc = .serveTar →
      GoStep package s j g (.tar fetched now)
        (s.move j (if fetched then g.afterTar package now else g.goTo .exited))
  | queryClear (fault : Bool) : g.pc = .queryClear →
      GoStep package s j g (.db fault)
        (s.move j (if fault then g.goTo .exited
          else g.nextClear {} (getNetworkByServiceId s.networkDB g.job.serviceId)))

/-- The steps of the server. -/
inductive ServerStep (package : Packages) (s : State) : Label → State → Prop
  | start : s.phase = .down → ServerStep package s .start { s with phase := .query }
  | init (fault : Bool) : s.phase = .query →
      ServerStep package s (.init fault)
        { s with phase := if fault then .serving else .scan (getPendingJobs s.jobDB) }
  | spawn (job : Job) (rows : List Job) : s.phase = .scan (job :: rows) →
      ServerStep package s .spawn ({ s with phase := .scan rows }.goWaitJob job)
  | scanned : s.phase = .scan [] → ServerStep package s .spawn { s with phase := .serving }
  | request (r : Request) : s.phase = .serving →
      ServerStep package s (.request r) (s.goSaveJob r.job)
  | go (j : Nat) (g : Goroutine) (answer : Answer) (t : State) : s.goroutines[j]? = some g →
      GoStep package s j g answer t → ServerStep package s (.go j answer) t
  | crash : ServerStep package s .crash s.crash

/-- One request of `ForceSaveJob` changes the revision of its job at most. -/
theorem exists_rev_of_forceStep {jobDB jobDB' : JobDB} {job job' : Job} {fault : Bool}
    {stage : Stage} {next : Stage ⊕ Option Nat}
    (h : ForceStep jobDB job fault stage (jobDB', job', next)) :
    ∃ rev, job' = { job with rev := rev } := by
  cases h <;> exact ⟨_, rfl⟩

/-- Inversion of `goStep`. -/
theorem goStep_inv {package : Packages} {s t : State} {j : Nat} {g : Goroutine}
    {answer : Answer} (h : goStep package s j g answer = some t) :
    GoStep package s j g answer t := by
  unfold goStep at h
  split at h
  · next save stage fault hpc =>
      cases h
      exact .saveJob save stage fault _ _ _ hpc (forceStep_inv ..)
  · next save stage network fault hpc =>
      cases h
      exact .saveNetwork save stage network fault _ _ _ hpc (forceStep_inv ..)
  · next fault hpc =>
      cases h
      exact .queryMark fault hpc
  · next listing artifact hpc =>
      split at h <;> (cases h)
      · exact .poll listing artifact _ _ _ hpc ‹_›
      · exact .panics listing artifact hpc ‹_›
  · next fetched now hpc =>
      cases h
      exact .serveTar fetched now hpc
  · next fault hpc =>
      cases h
      exact .queryClear fault hpc
  · cases h

/-- Inversion of `serverStep`. -/
theorem serverStep_inv {package : Packages} {s t : State} {l : Label}
    (h : (server package).step s l = some t) : ServerStep package s l t := by
  cases l with
  | start =>
      simp only [server, serverStep] at h
      split at h <;> (cases h)
      exact .start ‹_›
  | init fault =>
      simp only [server, serverStep] at h
      split at h <;> (cases h)
      exact .init fault ‹_›
  | spawn =>
      simp only [server, serverStep] at h
      split at h <;> (cases h)
      · exact .spawn _ _ ‹_›
      · exact .scanned ‹_›
  | request r =>
      simp only [server, serverStep] at h
      split at h <;> (cases h)
      exact .request r ‹_›
  | go j answer =>
      simp only [server, serverStep] at h
      split at h
      · exact .go j _ answer t ‹_› (goStep_inv h)
      · cases h
  | crash =>
      simp only [server, serverStep] at h
      cases h
      exact .crash

end Hfrd.Api
