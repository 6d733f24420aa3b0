/-
  Hfrd.Ansible.ModuleTest

  The run of a test plan by the playbook (backend/jenkins/pipelines/ansible:
  moduletest.yml, runtest.yml, jobstatuscheck.yml).

  Each test is launched as a Kubernetes job and added to `runningjobs`.  A
  test that waits closes the group: its jobs are checked in order and the list
  is emptied.  Every check writes the one variable `status_flag`, so with
  `continueAfterFail` the end of the play reads what the last checked job
  wrote.  An earlier failure is masked by a later success, and jobs after the
  last test that waits are never checked.
-/

import Mathlib.Data.List.DropRight

namespace Hfrd.Ansible

/-- The fact `status_flag` of the play. -/
inductive StatusFlag
  | Success
  | Failure
deriving DecidableEq, Repr

/-- A test of the plan; `waitUntilFinish` may be left out. -/
structure TestItem where
  name : String
  operation : String
  loadSpread : Nat
  waitUntilFinish : Option Bool := none
deriving DecidableEq, Repr

/-- An entry of `runningjobs`. -/
structure Job where
  name : String
  operation : String
  idx : Nat
  loadSpread : Nat
deriving DecidableEq, Repr

/-- The two columns of `kubectl get job`; `none` is printed `<none>`, which
    the `int` filter turns into 0. -/
structure JobStatus where
  succeeded : Option Nat
  failed : Option Nat
deriving DecidableEq, Repr

/-- The output of each attempt to query a job; `none` is an empty output. -/
abbrev Kubectl := Nat → Nat → Option JobStatus

/-- What stops the play. -/
inductive Fatal
  /-- The attempts of a query ran out. -/
  | retries (name : String)
  /-- A `fail` task. -/
  | fail (msg : String)
deriving DecidableEq, Repr

/-- The facts of the play, and the record of what it did. -/
structure Play where
  status_flag : StatusFlag
  runningjobs : List Job
  /-- The job deployment files, by index. -/
  deployfiles : List Nat
  /-- The task that failed: no task runs after it. -/
  fatal : Option Fatal
  launched : List Job
  checked : List Job
deriving DecidableEq, Repr

/-! ## jobstatuscheck.yml -/

/-- The `until` of the query, on a status that was printed. -/
def ended (jobitem : Job) (jobStatus : JobStatus) : Bool :=
  jobStatus.succeeded.getD 0 == jobitem.loadSpread || decide (jobStatus.failed.getD 0 ≥ 3)

/-- "Query test status": an attempt, and the retries after it. -/
def queryStatus (stdout : Nat → Option JobStatus) (jobitem : Job) (attempt : Nat) :
    Nat → Option JobStatus
  | 0 => (stdout attempt).filter (ended jobitem)
  | retries + 1 => match (stdout attempt).filter (ended jobitem) with
    | some jobStatus => some jobStatus
    | none => queryStatus stdout jobitem (attempt + 1) retries

/-- The status that ends the query of a job, `retries: 1000`. -/
def jobStatus (kubectl : Kubectl) (jobitem : Job) : Option JobStatus :=
  queryStatus (kubectl jobitem.idx) jobitem 0 1000

/-- "Determine the operation status": the two tasks. -/
def determineStatus (jobitem : Job) (jobStatus : JobStatus) (status_flag : StatusFlag) :
    StatusFlag :=
  let status_flag :=
    if jobStatus.succeeded.getD 0 = jobitem.loadSpread then .Success else status_flag
  if jobStatus.failed.getD 0 ≥ 3 then .Failure else status_flag

/-- jobstatuscheck.yml, for one job. -/
def jobstatuscheck (continueAfterFail : Bool) (kubectl : Kubectl) (play : Play) (jobitem : Job) :
    Play :=
  if play.fatal.isSome then play
  else match jobStatus kubectl jobitem with
    | none => { play with fatal := some (.retries jobitem.name) }
    | some jobStatus =>
        let status_flag := determineStatus jobitem jobStatus play.status_flag
        { play with
          status_flag
          checked := play.checked ++ [jobitem]
          fatal :=
            if status_flag ≠ .Success ∧ continueAfterFail = false then
              some (.fail "test has failed.")
            else none }

/-! ## runtest.yml -/

/-- The test closes its group. -/
def TestItem.waits (testitem : TestItem) : Bool := testitem.waitUntilFinish.getD true

/-- The entry added for the test at `my_idx`. -/
def job (testitem : TestItem × Nat) : Job where
  name := testitem.1.name
  operation := testitem.1.operation
  idx := testitem.2
  loadSpread := testitem.1.loadSpread

/-- "Run test" and "adding to parallel job list". -/
def launch (play : Play) (testitem : TestItem × Nat) : Play :=
  { play with
    launched := play.launched ++ [job testitem]
    runningjobs := play.runningjobs ++ [job testitem] }

/-- runtest.yml, for one test of the plan. -/
def runtest (continueAfterFail : Bool) (kubectl : Kubectl) (play : Play)
    (testitem : TestItem × Nat) : Play :=
  if play.fatal.isSome then play
  else
    let play := launch play testitem
    if testitem.1.waits then
      -- the group is closed: its jobs are checked in the order of their launch
      let play := play.runningjobs.foldl (jobstatuscheck continueAfterFail kubectl) play
      if play.fatal.isSome then play else { play with runningjobs := [] }
    else play

/-! ## moduletest.yml -/

/-- The facts when the tests begin: every test has its deployment file. -/
def begin (tests : List TestItem) : Play where
  status_flag := .Success
  runningjobs := []
  deployfiles := List.range tests.length
  fatal := none
  launched := []
  checked := []

/-- The loop over the tests.  The condition of the include is on the facts
    before the loop: it holds for every test. -/
def runTests (continueAfterFail : Bool) (kubectl : Kubectl) (tests : List TestItem) : Play :=
  let play := begin tests
  if play.status_flag = .Success ∨ continueAfterFail = true then
    tests.zipIdx.foldl (runtest continueAfterFail kubectl) play
  else play

/-- The tasks after the loop. -/
def finish (play : Play) : Play :=
  if play.fatal.isSome then play
  else { play with
    deployfiles := if play.status_flag = .Success then [] else play.deployfiles
    fatal := if play.status_flag ≠ .Success then some (.fail "test has failed.") else none }

/-- The play moduletest.yml. -/
def moduletest (continueAfterFail : Bool) (kubectl : Kubectl) (tests : List TestItem) : Play :=
  finish (runTests continueAfterFail kubectl tests)

/-- The play reached its end with success: no task failed, the flag says so
    and the deployment files are gone. -/
def Reported (play : Play) : Prop :=
  play.fatal = none ∧ play.status_flag = .Success ∧ play.deployfiles = []

/-! ## Jobs and their outcomes -/

/-- The query of the job never ends. -/
def Hung (kubectl : Kubectl) (jobitem : Job) : Prop := jobStatus kubectl jobitem = none

/-- The query of the job ends with three failed pods. -/
def Failed (kubectl : Kubectl) (jobitem : Job) : Prop :=
  ∃ status, jobStatus kubectl jobitem = some status ∧ 3 ≤ status.failed.getD 0

/-- The query of the job ends with all its pods completed. -/
def Succeeded (kubectl : Kubectl) (jobitem : Job) : Prop :=
  ∃ status, jobStatus kubectl jobitem = some status ∧
    status.succeeded.getD 0 = jobitem.loadSpread ∧ status.failed.getD 0 < 3

/-- The jobs of the tests up to the last one that waits. -/
def awaited (tests : List (TestItem × Nat)) : List Job :=
  (tests.rdropWhile fun testitem => !testitem.1.waits).map job

theorem ended_of_queryStatus {stdout : Nat → Option JobStatus} {jobitem : Job}
    {attempt retries : Nat} {status : JobStatus}
    (h : queryStatus stdout jobitem attempt retries = some status) :
    ended jobitem status = true := by
  induction retries generalizing attempt with
  | zero => exact (Option.filter_eq_some_iff.mp h).2
  | succ retries ih =>
      simp only [queryStatus] at h
      split at h
      · rename_i jobStatus hfilter
        obtain rfl := Option.some.inj h
        exact (Option.filter_eq_some_iff.mp hfilter).2
      · exact ih h

/-- A job hangs, fails or succeeds. -/
theorem hung_or_failed_or_succeeded (kubectl : Kubectl) (jobitem : Job) :
    Hung kubectl jobitem ∨ Failed kubectl jobitem ∨ Succeeded kubectl jobitem := by
  cases hstatus : jobStatus kubectl jobitem with
  | none => exact .inl hstatus
  | some status =>
      have hended := ended_of_queryStatus hstatus
      simp only [ended, Bool.or_eq_true, beq_iff_eq, decide_eq_true_eq] at hended
      by_cases hfailed : 3 ≤ status.failed.getD 0
      · exact .inr (.inl ⟨status, hstatus, hfailed⟩)
      · exact .inr (.inr ⟨status, hstatus, hended.resolve_right hfailed, by omega⟩)

theorem not_succeeded_of_hung {kubectl : Kubectl} {jobitem : Job} (h : Hung kubectl jobitem) :
    ¬ Succeeded kubectl jobitem := by
  rintro ⟨status, hstatus, -⟩
  exact absurd (h.symm.trans hstatus) (by simp)

theorem not_succeeded_of_failed {kubectl : Kubectl} {jobitem : Job} (h : Failed kubectl jobitem) :
    ¬ Succeeded kubectl jobitem := by
  rintro ⟨status, hstatus, -, hlt⟩
  obtain ⟨status', hstatus', hle⟩ := h
  obtain rfl := Option.some.inj (hstatus'.symm.trans hstatus)
  omega

/-! ## A group of checks -/

/-- The flag tells whether the last checked job succeeded, and that only. -/
def FlagOfLast (kubectl : Kubectl) (play : Play) : Prop :=
  play.status_flag = .Success ↔ ∀ jobitem ∈ play.checked.getLast?, Succeeded kubectl jobitem

theorem determineStatus_eq_success_iff {kubectl : Kubectl} {jobitem : Job} {status : JobStatus}
    (h : jobStatus kubectl jobitem = some status) (status_flag : StatusFlag) :
    determineStatus jobitem status status_flag = .Success ↔ Succeeded kubectl jobitem := by
  have hended := ended_of_queryStatus h
  simp only [ended, Bool.or_eq_true, beq_iff_eq, decide_eq_true_eq] at hended
  simp only [determineStatus]
  constructor
  · intro hflag
    split at hflag
    · exact absurd hflag (by decide)
    · rename_i hfailed
      exact ⟨status, h, hended.resolve_right hfailed, by omega⟩
  · rintro ⟨status', hstatus', hsucceeded, hfailed⟩
    obtain rfl := Option.some.inj (h.symm.trans hstatus')
    rw [if_neg (by omega), if_pos hsucceeded]

/-- After a fatal task no check is made. -/
theorem foldl_jobstatuscheck_fatal {play : Play} (h : play.fatal ≠ none) (continueAfterFail : Bool)
    (kubectl : Kubectl) (jobs : List Job) :
    jobs.foldl (jobstatuscheck continueAfterFail kubectl) play = play := by
  induction jobs with
  | nil => rfl
  | cons jobitem jobs ih =>
      rw [List.foldl_cons, jobstatuscheck, if_pos (Option.isSome_iff_ne_none.mpr h), ih]

/-- The checks of a group either reach a job that hangs, or add the whole
    group to the checked jobs and leave the flag of its last job. -/
theorem foldl_jobstatuscheck {kubectl : Kubectl} {play : Play} (hfatal : play.fatal = none)
    (hflag : FlagOfLast kubectl play) (jobs : List Job) :
    (∃ jobitem ∈ jobs, Hung kubectl jobitem) ∧
        (jobs.foldl (jobstatuscheck true kubectl) play).fatal ≠ none ∧
        (jobs.foldl (jobstatuscheck true kubectl) play).launched = play.launched ∨
      (∀ jobitem ∈ jobs, ¬ Hung kubectl jobitem) ∧ ∃ status_flag,
        jobs.foldl (jobstatuscheck true kubectl) play
          = { play with status_flag, checked := play.checked ++ jobs } ∧
        FlagOfLast kubectl { play with status_flag, checked := play.checked ++ jobs } := by
  induction jobs generalizing play with
  | nil =>
      refine .inr ⟨fun _ hmem => absurd hmem List.not_mem_nil, play.status_flag, ?_⟩
      rw [List.append_nil]
      exact ⟨rfl, hflag⟩
  | cons jobitem jobs ih =>
      rw [List.foldl_cons]
      cases hstatus : jobStatus kubectl jobitem with
      | none =>
          have hcheck : jobstatuscheck true kubectl play jobitem
              = { play with fatal := some (.retries jobitem.name) } := by
            simp only [jobstatuscheck, hfatal, Option.isSome_none, Bool.false_eq_true, if_false,
              hstatus]
          -- a job that hangs ends the play, so the jobs behind it are not looked at
          rw [hcheck, foldl_jobstatuscheck_fatal (by simp)]
          exact .inl ⟨⟨jobitem, List.mem_cons_self, hstatus⟩, by simp, rfl⟩
      | some status =>
          have hcheck : jobstatuscheck true kubectl play jobitem
              = { play with
                  status_flag := determineStatus jobitem status play.status_flag
                  checked := play.checked ++ [jobitem] } := by
            simp only [jobstatuscheck, hfatal, Option.isSome_none, Bool.false_eq_true, if_false,
              hstatus, Bool.true_eq_false, and_false]
          -- the flag is now that of this job, whatever it was before
          have hlast : FlagOfLast kubectl (jobstatuscheck true kubectl play jobitem) := by
            rw [hcheck, FlagOfLast, List.getLast?_concat]
            simp only [Option.mem_some_iff, forall_eq']
            exact determineStatus_eq_success_iff hstatus _
          have hnot : ¬ Hung kubectl jobitem := by simp [Hung, hstatus]
          have hnone : (jobstatuscheck true kubectl play jobitem).fatal = none := by
            rw [hcheck]
            exact hfatal
          obtain ⟨⟨later, hmem, hhung⟩, hstop, hlaunched⟩ | ⟨hall, status_flag, heq, hflag'⟩ :=
            ih hnone hlast
          · refine .inl ⟨⟨later, List.mem_cons_of_mem _ hmem, hhung⟩, hstop, ?_⟩
            rw [hlaunched, hcheck]
          · rw [hcheck] at heq hflag' ⊢
            simp only [List.append_assoc, List.singleton_append] at heq hflag'
            exact .inr ⟨List.forall_mem_cons.mpr ⟨hnot, hall⟩, status_flag, heq, hflag'⟩

/-! ## The run of the tests -/

theorem awaited_concat (tests : List (TestItem × Nat)) (testitem : TestItem × Nat) :
    awaited (tests ++ [testitem])
      = if testitem.1.waits then (tests ++ [testitem]).map job else awaited tests := by
  rw [awaited, List.rdropWhile_concat]
  cases testitem.1.waits <;> rfl

theorem awaited_subset (tests : List (TestItem × Nat)) : awaited tests ⊆ tests.map job :=
  List.map_subset job (List.rdropWhile_prefix _ _).subset

/-- The play after `tests`, none of whose awaited jobs hangs. -/
structure Running (kubectl : Kubectl) (tests : List (TestItem × Nat)) (play : Play) : Prop where
  fatal : play.fatal = none
  launched : play.launched = tests.map job
  pending : play.launched = play.checked ++ play.runningjobs
  checked : play.checked = awaited tests
  answered : ∀ jobitem ∈ play.checked, ¬ Hung kubectl jobitem
  flag : FlagOfLast kubectl play

/-- The play after `tests`, stopped by an awaited job that hangs. -/
structure Stopped (kubectl : Kubectl) (tests : List (TestItem × Nat)) (play : Play) : Prop where
  fatal : play.fatal ≠ none
  hung : ∃ jobitem ∈ awaited tests, jobitem ∈ play.launched ∧ Hung kubectl jobitem

theorem Stopped.runtest {kubectl : Kubectl} {tests : List (TestItem × Nat)} {play : Play}
    (h : Stopped kubectl tests play) (testitem : TestItem × Nat) :
    Stopped kubectl (tests ++ [testitem]) (runtest true kubectl play testitem) := by
  rw [Ansible.runtest, if_pos (Option.isSome_iff_ne_none.mpr h.fatal)]
  obtain ⟨jobitem, hawaited, hlaunched, hhung⟩ := h.hung
  refine ⟨h.fatal, jobitem, ?_, hlaunched, hhung⟩
  rw [awaited_concat]
  split
  · exact List.map_subset job (List.subset_append_left _ _) (awaited_subset tests hawaited)
  · exact hawaited

theorem Running.runtest {kubectl : Kubectl} {tests : List (TestItem × Nat)} {play : Play}
    (h : Running kubectl tests play) (testitem : TestItem × Nat) :
    Running kubectl (tests ++ [testitem]) (runtest true kubectl play testitem) ∨
      Stopped kubectl (tests ++ [testitem]) (runtest true kubectl play testitem) := by
  have hfatal : (launch play testitem).fatal = none := h.fatal
  have hflag : FlagOfLast kubectl (launch play testitem) := h.flag
  have hlaunched : (launch play testitem).launched = (tests ++ [testitem]).map job := by
    rw [launch, h.launched, List.map_append, List.map_singleton]
  have hpending : (launch play testitem).launched
      = play.checked ++ (launch play testitem).runningjobs := by
    simp only [launch, h.pending, List.append_assoc]
  have hnot : ¬ play.fatal.isSome = true := by simp [h.fatal]
  have hopen : ¬ (launch play testitem).fatal.isSome = true := hnot
  rw [Ansible.runtest, if_neg hnot]
  by_cases hwaits : testitem.1.waits = true
  · have hawaited : awaited (tests ++ [testitem]) = (launch play testitem).launched := by
      rw [awaited_concat, if_pos hwaits, hlaunched]
    simp only [hwaits, if_true]
    obtain ⟨⟨jobitem, hmem, hhung⟩, hstop, hsame⟩ | ⟨hall, status_flag, heq, hlast⟩ :=
      foldl_jobstatuscheck hfatal hflag (launch play testitem).runningjobs
    · -- a job of the group hangs: it stays launched, and the play is over
      have hin : jobitem ∈ (launch play testitem).launched := by
        rw [hpending]
        exact List.mem_append_right _ hmem
      rw [if_pos (Option.isSome_iff_ne_none.mpr hstop)]
      exact .inr ⟨hstop, jobitem, hawaited ▸ hin, hsame ▸ hin, hhung⟩
    · -- the whole group is checked, and the list is empty again
      rw [heq, if_neg hopen]
      refine .inl ⟨h.fatal, hlaunched, ?_, ?_, ?_, hlast⟩
      · exact hpending.trans (List.append_nil _).symm
      · exact hpending.symm.trans hawaited.symm
      · intro jobitem hmem
        rcases List.mem_append.mp hmem with hchecked | hnew
        · exact h.answered jobitem hchecked
        · exact hall jobitem hnew
  · simp only [if_neg hwaits]
    refine .inl ⟨h.fatal, hlaunched, hpending, ?_, h.answered, h.flag⟩
    rw [awaited_concat, if_neg hwaits]
    exact h.checked

/-- **The run of the tests.**  After any list of tests the play has launched
    them all and checked the awaited ones, or a job that hangs has stopped it. -/
theorem foldl_runtest {kubectl : Kubectl} {play : Play} (h : Running kubectl [] play)
    (tests : List (TestItem × Nat)) :
    Running kubectl tests (tests.foldl (runtest true kubectl) play) ∨
      Stopped kubectl tests (tests.foldl (runtest true kubectl) play) := by
  induction tests using List.reverseRecOn with
  | nil => exact .inl h
  | append_singleton tests testitem ih =>
      rw [List.foldl_concat]
      rcases ih with hrunning | hstopped
      · exact hrunning.runtest testitem
      · exact .inr (hstopped.runtest testitem)

theorem running_begin (kubectl : Kubectl) (tests : List TestItem) :
    Running kubectl [] (begin tests) where
  fatal := rfl
  launched := rfl
  pending := rfl
  checked := rfl
  answered _ hmem := absurd hmem List.not_mem_nil
  flag := by simp [FlagOfLast, begin]

theorem runTests_running_or_stopped (kubectl : Kubectl) (tests : List TestItem) :
    Running kubectl tests.zipIdx (runTests true kubectl tests) ∨
      Stopped kubectl tests.zipIdx (runTests true kubectl tests) := by
  simp only [runTests, or_true, if_true]
  exact foldl_runtest (running_begin kubectl tests) tests.zipIdx

/-! ## The end of the play -/

/-- Every launched job was checked and succeeded. -/
def AllSucceeded (kubectl : Kubectl) (play : Play) : Prop :=
  ∀ jobitem ∈ play.launched, jobitem ∈ play.checked ∧ Succeeded kubectl jobitem

theorem finish_launched (play : Play) : (finish play).launched = play.launched := by
  unfold finish
  split <;> rfl

theorem finish_checked (play : Play) : (finish play).checked = play.checked := by
  unfold finish
  split <;> rfl

theorem allSucceeded_finish_iff (kubectl : Kubectl) (play : Play) :
    AllSucceeded kubectl (finish play) ↔ AllSucceeded kubectl play := by
  rw [AllSucceeded, AllSucceeded, finish_launched, finish_checked]

/-- The play reports success exactly if the tests ended with the flag set. -/
theorem reported_finish_iff (play : Play) :
    Reported (finish play) ↔ play.fatal = none ∧ play.status_flag = .Success := by
  by_cases hfatal : play.fatal.isSome = true
  · have hsome : play.fatal ≠ none := Option.isSome_iff_ne_none.mp hfatal
    rw [finish, if_pos hfatal, Reported]
    exact ⟨fun h => absurd h.1 hsome, fun h => absurd h.1 hsome⟩
  · have hnone : play.fatal = none := Option.not_isSome_iff_eq_none.mp hfatal
    rw [finish, if_neg hfatal, Reported]
    cases hflag : play.status_flag <;> simp [hnone]

/-- The jobs of a plan, and those that some test waits for. -/
def jobs (tests : List TestItem) : List Job := tests.zipIdx.map job

/-- One of the awaited jobs hangs, or the last of them fails, or no test is
    left to wait for and every job succeeds. -/
def FlagTellsAll (kubectl : Kubectl) (tests : List TestItem) : Prop :=
  (∃ jobitem ∈ awaited tests.zipIdx, Hung kubectl jobitem) ∨
  (∃ jobitem ∈ (awaited tests.zipIdx).getLast?, Failed kubectl jobitem) ∨
  ((∀ testitem ∈ tests.getLast?, testitem.waits = true) ∧
    ∀ jobitem ∈ jobs tests, Succeeded kubectl jobitem)

/-- Every job is awaited exactly if the last test waits: the indices of the
    jobs differ. -/
theorem jobs_subset_awaited_iff (tests : List TestItem) :
    jobs tests ⊆ awaited tests.zipIdx ↔ ∀ testitem ∈ tests.getLast?, testitem.waits = true := by
  induction tests using List.reverseRecOn with
  | nil => simp [jobs]
  | append_singleton tests testitem _ =>
      rw [List.getLast?_concat, jobs, List.zipIdx_append, List.zipIdx_singleton, awaited_concat]
      simp only [Option.mem_some_iff, forall_eq']
      constructor
      · intro hsubset
        by_contra hwaits
        rw [if_neg hwaits] at hsubset
        have hmem : job (testitem, 0 + tests.length) ∈ tests.zipIdx.map job :=
          awaited_subset _ (hsubset (List.mem_map_of_mem
            (List.mem_append_right _ List.mem_cons_self)))
        obtain ⟨⟨other, idx⟩, hother, heq⟩ := List.mem_map.mp hmem
        have hlt := List.snd_lt_of_mem_zipIdx hother
        have hidx : idx = 0 + tests.length := congrArg Job.idx heq
        omega
      · intro hwaits
        rw [if_pos hwaits]
        exact List.Subset.refl _

/-- **The report and the jobs.**  With `continueAfterFail`, the report of a
    plan is right exactly if the last awaited job tells of all jobs. -/
theorem reported_iff_allSucceeded_iff (kubectl : Kubectl) (tests : List TestItem) :
    (Reported (moduletest true kubectl tests) ↔
      AllSucceeded kubectl (moduletest true kubectl tests)) ↔ FlagTellsAll kubectl tests := by
  rw [moduletest, reported_finish_iff, allSucceeded_finish_iff]
  rcases runTests_running_or_stopped kubectl tests with hrun | hstop
  · have hall : AllSucceeded kubectl (runTests true kubectl tests) ↔
        (∀ testitem ∈ tests.getLast?, testitem.waits = true) ∧
          ∀ jobitem ∈ jobs tests, Succeeded kubectl jobitem := by
      rw [AllSucceeded, hrun.launched, hrun.checked, ← jobs_subset_awaited_iff]
      exact forall₂_and
    have hnohang : ¬ ∃ jobitem ∈ awaited tests.zipIdx, Hung kubectl jobitem := by
      rintro ⟨jobitem, hmem, hhung⟩
      exact hrun.answered jobitem (hrun.checked ▸ hmem) hhung
    have hflag := hrun.flag
    rw [FlagOfLast, hrun.checked] at hflag
    have hlast : (∀ jobitem ∈ (awaited tests.zipIdx).getLast?, Succeeded kubectl jobitem) ↔
        ¬ ∃ jobitem ∈ (awaited tests.zipIdx).getLast?, Failed kubectl jobitem := by
      constructor
      · rintro hsucceeded ⟨jobitem, hmem, hfailed⟩
        exact not_succeeded_of_failed hfailed (hsucceeded jobitem hmem)
      · intro hnofail jobitem hmem
        have hawaited := List.mem_of_getLast? hmem
        rcases hung_or_failed_or_succeeded kubectl jobitem with hhung | hfailed | hsucceeded
        · exact absurd ⟨jobitem, hawaited, hhung⟩ hnohang
        · exact absurd ⟨jobitem, hmem, hfailed⟩ hnofail
        · exact hsucceeded
    have hbelow : (∀ jobitem ∈ jobs tests, Succeeded kubectl jobitem) →
        ∀ jobitem ∈ (awaited tests.zipIdx).getLast?, Succeeded kubectl jobitem :=
      fun hsucceeded jobitem hmem =>
        hsucceeded jobitem (awaited_subset _ (List.mem_of_getLast? hmem))
    rw [hall, FlagTellsAll, hflag]
    simp only [hrun.fatal, true_and, hnohang, false_or]
    -- the flag is `Failure` exactly if the last awaited job failed
    by_cases hfailed : ∃ jobitem ∈ (awaited tests.zipIdx).getLast?, Failed kubectl jobitem
    · refine ⟨fun _ => .inl hfailed, fun _ => ⟨fun h => absurd hfailed (hlast.mp h), fun h => ?_⟩⟩
      exact hbelow h.2
    · exact ⟨fun h => .inr (h.mp (hlast.mpr hfailed)),
        fun h => ⟨fun _ => h.resolve_left hfailed, fun _ => hlast.mpr hfailed⟩⟩
  · have hfatal := hstop.fatal
    obtain ⟨jobitem, hawaited, hlaunched, hhung⟩ := hstop.hung
    refine ⟨fun _ => .inl ⟨jobitem, hawaited, hhung⟩, fun _ => ?_⟩
    exact ⟨fun h => absurd h.1 hfatal,
      fun h => absurd (h jobitem hlaunched).2 (not_succeeded_of_hung hhung)⟩

/-- A cluster where every pod of job 0 fails and the other jobs complete. -/
def firstFails : Kubectl := fun idx _ =>
  if idx = 0 then some ⟨none, some 3⟩ else some ⟨some 1, none⟩

/-- Two tests that wait, as a plan without `waitUntilFinish` says. -/
def createThenInvoke : List TestItem :=
  [⟨"create-channel", "CHANNEL_CREATE", 1, none⟩, ⟨"invoke", "CHAINCODE_INVOKE", 1, none⟩]

/-- The second test sets the flag that the first one cleared. -/
theorem failure_masked :
    Reported (moduletest true firstFails createThenInvoke) ∧
      ¬ AllSucceeded firstFails (moduletest true firstFails createThenInvoke) := by
  refine ⟨⟨by decide, by decide, by decide⟩, fun hall => ?_⟩
  have hlaunched : job (⟨"create-channel", "CHANNEL_CREATE", 1, none⟩, 0)
      ∈ (moduletest true firstFails createThenInvoke).launched := by decide
  exact not_succeeded_of_failed ⟨⟨none, some 3⟩, by decide, by decide⟩ (hall _ hlaunched).2

/-- A last test that does not wait is never checked. -/
example :
    (moduletest true firstFails [⟨"invoke", "CHAINCODE_INVOKE", 1, some false⟩]).checked = [] ∧
    (moduletest true firstFails [⟨"invoke", "CHAINCODE_INVOKE", 1, some false⟩]).fatal = none := by
  decide

end Hfrd.Ansible
