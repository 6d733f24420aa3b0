/-
  Hfrd.Api.InProgress

  When `deleting` means that a deletion is in progress.

  `saveJob` sets the flag and one branch of `waitJob` clears it; the other
  exits of `waitJob` leave it set.  The invariant names, for every stored
  network that is deleting, a goroutine of a DELETE job of its service that
  still has to clear it: the one that marked it last.  Until that goroutine
  has queried the service, any mark is ahead of the query; afterwards it holds
  the stored document itself among its rows, at the stored revision, so its
  first put is accepted.

  `givesUp` is the step that breaks this: the goroutine of a DELETE job ends
  or skips its clear while a network of its service is deleting.
-/

import Hfrd.Api.Deletion

namespace Hfrd.Api

open Hfrd.Go Hfrd.Lib

/-- The answer makes a goroutine at `pc` leave `stored` marked. -/
def abandons : Pc → Answer → Network → Bool
  | .poll, .poll listing artifact, _ => match getJobIdByQueueId listing artifact with
    | some (_, status, err) => err.isSome || (status != INPROGRESS && status != SUCCESS)
    | none => false
  | .queryClear, .db fault, _ => fault
  | .forceSaveNetwork (.clear _) .put network, .db fault, stored =>
      fault && network.id == stored.id && network.rev == stored.rev
  | _, _, _ => false

/-- A goroutine of a DELETE job gives up while a network of its service is
    deleting: its poll gives an error or a status other than `INPROGRESS` and
    `SUCCESS`, or a database request of its clear fails. -/
def givesUp (s : State) : Label → Bool
  | .go j answer => match s.goroutines[j]? with
    | some g => g.job.method == DELETE &&
        (getNetworkByServiceId s.networkDB g.job.serviceId).any fun stored =>
          stored.deleting && abandons g.pc answer stored
    | none => false
  | _ => false

/-! ## The goroutine that still has to clear a network -/

/-- The clear of `stored` is ahead of `pc`. -/
def ClearsAhead (job : Job) (stored : Network) : Pc → Prop
  | .queryMark | .poll | .queryClear | .forceSaveJob .jobId _ => True
  | .forceSaveJob .status _ => job.status = SUCCESS
  | .forceSaveNetwork (.mark _) _ _ => True
  | .forceSaveNetwork (.clear rows) stage network =>
      stored ∈ rows ∨ (stage = .put ∧ network.id = stored.id ∧ network.rev = stored.rev)
  | _ => False

/-- The goroutine deletes the service of a stored network and has yet to clear it.
    -/
structure Clears (stored : Network) (g : Goroutine) : Prop where
  deletes : ToDelete g.job
  service : g.job.serviceId = stored.serviceId
  ahead : ClearsAhead g.job stored g.pc

/-- Every stored network that is deleting has a goroutine that clears it. -/
def Marked (s : State) : Prop :=
  ∀ id stored, s.networkDB.get id = some stored → stored.deleting = true →
    ∃ g ∈ s.goroutines, Clears stored g

theorem clears_nextMark {stored : Network} {g : Goroutine} (hdel : ToDelete g.job)
    (hservice : g.job.serviceId = stored.serviceId) (network : Network) (rows : List Network) :
    Clears stored (g.nextMark network rows) := by
  unfold Goroutine.nextMark
  split <;> exact ⟨hdel, hservice, trivial⟩

theorem clears_nextClear {stored : Network} {g : Goroutine} (hdel : ToDelete g.job)
    (hservice : g.job.serviceId = stored.serviceId) (network : Network) {rows : List Network}
    (hmem : stored ∈ rows) : Clears stored (g.nextClear network rows) := by
  cases rows with
  | nil => cases hmem
  | cons row rows =>
      refine ⟨hdel, hservice, ?_⟩
      rcases List.mem_cons.mp hmem with rfl | hmem
      · exact Or.inr ⟨rfl, rfl, rfl⟩
      · exact Or.inl hmem

/-- A mark of `network` is followed by its clear. -/
theorem clears_of_mark {networkDB : NetworkDB} {g : Goroutine} {save : NetworkSave}
    {stage : Stage} {network : Network}
    (h : Holds networkDB g.job (.forceSaveNetwork save stage network))
    (hdeleting : network.deleting = true) (rev : Nat) :
    Clears (RevDoc.withRev network rev) (g.afterSaveNetwork network save) := by
  cases save with
  | mark rows =>
      have hservice : g.job.serviceId = (RevDoc.withRev network rev).serviceId :=
        h.2.1.service.symm
      exact clears_nextMark h.1 hservice network rows
  | store => exact absurd (h.deleting.symm.trans hdeleting) Bool.false_ne_true
  | clear rows => exact absurd (h.2.1.deleting.symm.trans hdeleting) Bool.false_ne_true

theorem clears_savingJob {stored : Network} {g : Goroutine} (h : Clears stored g)
    {save : JobSave} {stage : Stage} (hpc : g.pc = .forceSaveJob save stage) (rev : Nat)
    (next : Stage ⊕ Option Nat) :
    Clears stored (g.savingJob save { g.job with rev := rev } next) := by
  obtain ⟨hdel, hservice, hahead⟩ := h
  rw [hpc] at hahead
  cases save with
  | created => exact hahead.elim
  | env network => exact hahead.elim
  | jobId => rcases next with stage | (_ | rev) <;> exact ⟨hdel, hservice, trivial⟩
  | status =>
      cases next with
      | inl stage => exact ⟨hdel, hservice, hahead⟩
      | inr rev' =>
          -- a failed save of the status is only logged: the clear follows it anyway
          have hlength : g.job.serviceId.length > 0 :=
            Nat.pos_of_ne_zero fun h => hdel.2 (String.length_eq_zero_iff.mp h)
          have hclear := Goroutine.afterSaveJob_delete
            (g := { g with job := { g.job with rev := rev } }) rev' hahead hdel.1 hlength
          simp only [Goroutine.savingJob, hclear]
          exact ⟨hdel, hservice, trivial⟩

theorem clears_afterPoll {stored : Network} {g : Goroutine} (hdel : ToDelete g.job)
    (hservice : g.job.serviceId = stored.serviceId) (hpc : g.pc = .poll) {jobId status : String}
    {err : GoError} (herr : err = none) (hstatus : status = INPROGRESS ∨ status = SUCCESS) :
    Clears stored (g.afterPoll jobId status err) := by
  unfold Goroutine.afterPoll
  by_cases hin : status = INPROGRESS
  · rw [if_pos ⟨herr, hin⟩]
    split
    · exact ⟨hdel, hservice, trivial⟩
    · exact ⟨hdel, hservice, by rw [hpc]; trivial⟩
  · rw [if_neg fun h => hin h.2, if_pos herr]
    exact ⟨hdel, hservice, hstatus.resolve_left hin⟩

/-! ## One step -/

theorem not_abandons {s : State} {j : Nat} {g : Goroutine} {answer : Answer} {stored : Network}
    (hup : givesUp s (.go j answer) = false) (hj : s.goroutines[j]? = some g)
    (hget : s.networkDB.get stored.id = some stored) (hdeleting : stored.deleting = true)
    (hc : Clears stored g) : abandons g.pc answer stored = false := by
  apply Bool.eq_false_iff.mpr
  intro habandons
  have hmem : stored ∈ getNetworkByServiceId s.networkDB g.job.serviceId :=
    mem_getNetworkByServiceId.mpr ⟨hget, hc.service ▸ hc.deletes.2, hc.service.symm⟩
  have hany : (getNetworkByServiceId s.networkDB g.job.serviceId).any
      (fun stored => stored.deleting && abandons g.pc answer stored) = true :=
    List.any_eq_true.mpr ⟨stored, hmem, by rw [hdeleting, habandons]; rfl⟩
  have hmethod : (g.job.method == DELETE) = true := by rw [hc.deletes.1]; rfl
  simp only [givesUp, hj, hany, hmethod, Bool.and_self] at hup
  cases hup

/-- A network that stays stored keeps the goroutine that clears it. -/
theorem clears_goStep {package : Packages} {s t : State} {j : Nat} {g : Goroutine}
    {answer : Answer} {stored : Network} (hj : s.goroutines[j]? = some g)
    (h : GoStep package s j g answer t) (hcrash : crashes (.go j answer) = false)
    (hup : givesUp s (.go j answer) = false)
    (hget : s.networkDB.get stored.id = some stored)
    (hget' : t.networkDB.get stored.id = some stored) (hdeleting : stored.deleting = true)
    (hc : Clears stored g) : ∃ g', t.goroutines = s.goroutines.set j g' ∧ Clears stored g' := by
  have hstay := not_abandons hup hj hget hdeleting hc
  obtain ⟨hdel, hservice, hahead⟩ := id hc
  cases h with
  | saveJob save stage fault jobDB job next hpc hforce =>
      obtain ⟨rev, rfl⟩ := exists_rev_of_forceStep hforce
      exact ⟨_, rfl, clears_savingJob hc hpc rev next⟩
  | saveNetwork save stage network fault networkDB network' next hpc hforce =>
      refine ⟨_, rfl, ?_⟩
      rw [hpc] at hahead hstay
      cases save with
      | mark rows =>
          cases next with
          | inl stage => exact ⟨hdel, hservice, trivial⟩
          | inr rev => exact clears_nextMark hdel hservice network' rows
      | store => exact hahead.elim
      | clear rows =>
          rcases hahead with hrow | ⟨rfl, hid, hrev⟩
          · -- `stored` is still to be scanned
            cases next with
            | inl stage => exact ⟨hdel, hservice, Or.inl hrow⟩
            | inr rev => exact clears_nextClear hdel hservice network' hrow
          · -- the first put of the copy of `stored` is accepted and replaces it
            have hcurrent : network.rev = s.networkDB.currentRev network.id := by
              rw [hid, RevStore.currentRev_of_get hget]
              exact hrev
            cases hforce with
            | saved _ _ _ _ =>
                have hwritten := RevStore.get_write_self s.networkDB network
                have hnew : some stored = some (RevDoc.withRev network (network.rev + 1)) := by
                  rw [← hget', ← hid]
                  exact hwritten
                -- yet `stored` is still there at its old revision
                have hbump : stored.rev = network.rev + 1 :=
                  congrArg Network.rev (Option.some.inj hnew)
                omega
            | conflict _ hput => exact absurd hcurrent (RevStore.put_eq_none.mp hput)
            | failed _ hfault =>
                simp only [abandons, hfault, hid, hrev, beq_self_eq_true, Bool.and_self] at hstay
                cases hstay
  | queryMark fault hpc =>
      refine ⟨_, rfl, ?_⟩
      split
      · exact ⟨hdel, hservice, trivial⟩
      · exact clears_nextMark hdel hservice _ _
  | poll listing artifact jobId status err hpc hanswer =>
      refine ⟨_, rfl, ?_⟩
      rw [hpc] at hstay
      simp only [abandons, hanswer, Bool.or_eq_false_iff, Bool.and_eq_false_iff,
        Option.isSome_eq_false_iff, Option.isNone_iff_eq_none, bne_eq_false_iff_eq] at hstay
      exact clears_afterPoll hdel hservice hpc hstay.1 hstay.2
  | panics listing artifact hpc hanswer =>
      simp only [crashes, hanswer, Option.isNone_none] at hcrash
      cases hcrash
  | serveTar fetched now hpc =>
      rw [hpc] at hahead
      exact hahead.elim
  | queryClear fault hpc =>
      refine ⟨_, rfl, ?_⟩
      rw [hpc] at hstay
      have hfault : fault = false := hstay
      rw [hfault, if_neg Bool.false_ne_true]
      exact clears_nextClear hdel hservice {}
        (mem_getNetworkByServiceId.mpr ⟨hget, hservice ▸ hdel.2, hservice.symm⟩)

theorem clears_stay {package : Packages} {s t : State} {l : Label} {stored : Network}
    (h : ServerStep package s l t) (hcrash : crashes l = false) (hup : givesUp s l = false)
    (hget : s.networkDB.get stored.id = some stored)
    (hget' : t.networkDB.get stored.id = some stored) (hdeleting : stored.deleting = true)
    (hs : ∃ g ∈ s.goroutines, Clears stored g) : ∃ g ∈ t.goroutines, Clears stored g := by
  obtain ⟨g, hg, hc⟩ := hs
  cases h with
  | start _ | init _ _ | scanned _ => exact ⟨g, hg, hc⟩
  | spawn job rows _ | request r _ => exact ⟨g, List.mem_append_left _ hg, hc⟩
  | go j g₀ answer t hj hgo =>
      -- either the clearing goroutine itself moves, or it is untouched
      obtain ⟨g', hset⟩ := goroutines_goStep hgo hcrash
      rcases mem_set_or_eq hj hg with rfl | hmem
      · obtain ⟨g₁, hset₁, hc₁⟩ := clears_goStep hj hgo hcrash hup hget hget' hdeleting hc
        exact ⟨g₁, hset₁ ▸ mem_set_self hj, hc₁⟩
      · exact ⟨g, hset ▸ hmem, hc⟩
  | crash => cases hcrash

theorem marked_step {package : Packages} {s t : State} {l : Label} (hheld : Held s)
    (hs : Marked s) (hcrash : crashes l = false) (hup : givesUp s l = false)
    (h : ServerStep package s l t) : Marked t := by
  intro id stored hget' hdeleting
  obtain rfl := RevStore.key_of_get hget'
  have hold : s.networkDB.get stored.id = some stored →
      ∃ g ∈ t.goroutines, Clears stored g :=
    fun hget => clears_stay h hcrash hup hget hget' hdeleting (hs _ stored hget hdeleting)
  rcases networkDB_step h with
    hsame | ⟨j, g, save, stage, network, -, hj, hpc, -, -, hwrite, hset⟩
  · exact hold (hsame ▸ hget')
  · have hget := hget'
    rw [hwrite] at hget
    rcases RevStore.get_write_cases hget with ⟨-, rfl⟩ | ⟨-, hget⟩
    · -- the write is a mark, and its goroutine goes on to the clear
      have hg := hheld g (List.mem_of_getElem? hj)
      rw [hpc] at hg
      exact ⟨_, hset ▸ mem_set_self hj, clears_of_mark hg hdeleting _⟩
    · exact hold hget

/-- **`deleting` while a deletion is in progress.**  In every run without a
    crash in which no goroutine of a DELETE job gives up while a network of
    its service is deleting, every stored network that is deleting has a live
    goroutine of a DELETE job of its service. -/
theorem deleting_in_progress (package : Packages) (ls : List Label) (s : State)
    (hrun : (server package).Run (fun s l => crashes l = false ∧ givesUp s l = false)
      .initial ls s)
    (id : String) (network : Network) (hget : s.networkDB.get id = some network)
    (hdeleting : network.deleting = true) :
    ∃ g ∈ s.goroutines, g.job.method = DELETE ∧ g.job.serviceId = network.serviceId ∧
      g.pc.live = true := by
  have hstep : ∀ s l t, (Held s ∧ Marked s) → (crashes l = false ∧ givesUp s l = false) →
      (server package).step s l = some t → Held t ∧ Marked t :=
    fun s l t hs hok hst =>
      ⟨held_step s l t hs.1 hst, marked_step hs.1 hs.2 hok.1 hok.2 (serverStep_inv hst)⟩
  have hinitial : Marked .initial := by
    intro id network hnone
    cases (RevStore.get_empty id).symm.trans hnone
  obtain ⟨g, hg, hc⟩ := (hrun.preserves hstep ⟨held_initial, hinitial⟩).2 id network hget hdeleting
  refine ⟨g, hg, hc.deletes.1, hc.service, ?_⟩
  cases hpc : g.pc with
  | exited =>
      have hahead := hc.ahead
      rw [hpc] at hahead
      exact hahead.elim
  | _ => rfl

/-- Goroutine 1 has marked `n1` and not polled the deletion yet. -/
def deleteOnce : List Label :=
  createService ++
    [.request (.deleteService "bx" "s1" "u" "2"), .go 1 (.db false), .go 1 (.db false),
      .go 1 (.db false)]

theorem deleting_in_progress_once :
    ∃ s network, (server onePackage).exec .initial deleteOnce = some s ∧
      s.networkDB.get "n1" = some network ∧ network.deleting = true ∧
      ∃ g ∈ s.goroutines, g.job.method = DELETE ∧ g.job.serviceId = network.serviceId ∧
        g.pc.live = true := by
  refine ⟨_, _, (Option.some_get (by decide)).symm, (Option.some_get (by decide)).symm,
    by decide, ?_⟩
  exact deleting_in_progress onePackage deleteOnce _
    (.of_along (Option.some_get (by decide)).symm (by decide)) "n1" _
    (Option.some_get (by decide)).symm (by decide)

/-- The deletion fails: the goroutine stores the status and returns. -/
def deleteFails : List Label :=
  deleteOnce ++
    [.go 1 (.poll (.ok "<id>8</id><result>FAILURE</result>") (.error "")), .go 1 (.db false)]

/-- No goroutine is left, and `n1` stays marked as deleting. -/
theorem deleting_left_behind :
    ∃ s network, (server onePackage).exec .initial deleteFails = some s ∧
      s.networkDB.get "n1" = some network ∧ network.deleting = true ∧
      ∀ g ∈ s.goroutines, g.pc.live = false := by
  exact ⟨_, _, (Option.some_get (by decide)).symm, (Option.some_get (by decide)).symm,
    by decide, by decide⟩

end Hfrd.Api
