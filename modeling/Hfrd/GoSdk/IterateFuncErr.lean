/-
  Hfrd.GoSdk.IterateFuncErr

  What `IterateFunc` reports.  An error of a call that is not ignored travels
  from the goroutine to `errChan` and from there to the result, and may be
  dropped on the way: the send does not block, the loop takes at most one error
  an iteration and stops at it, and the deferred function stops draining at the
  first.  The invariant `Reports` follows an error through these places:

  - whatever is in the channel, on its way to it or in the result was returned
    by a call and is not ignored;
  - as long as some call has returned such an error, one of the places still
    holds one.  A send that drops its error found the channel full, so not
    empty.

  The flag `ignoreErrors` does not enter: `utility.go` reads it in a package in
  which it is not bound, so a failure stops the loop and is returned with it as
  without it.
-/

import Hfrd.GoSdk.IterateFuncInv

namespace Hfrd.GoSdk

open Hfrd.Go Hfrd.Lib

variable {Shared Local Choice : Type}

/-- An outcome that is an error `goFunc` does not ignore. -/
def reportable : GoError → Bool
  | some err => !ignoredError err
  | none => false

namespace Pc

/-- The error of a goroutine that is still to be offered to `errChan`. -/
def pending : Pc Local → GoError
  | .count (some err) => if ignoredError err then none else some err
  | .send err => some err
  | _ => none

theorem working_of_pending {pc : Pc Local} {err : String} (h : pc.pending = some err) :
    pc.working = true := by
  cases pc <;> simp_all [pending, working]

end Pc

/-- In the deferred function, past the loop over `errChan`. -/
def LoopPc.afterDrain : LoopPc → Bool
  | .closeThrottle | .closeErrChan | .returned => true
  | _ => false

theorem LoopPc.afterWait_of_afterDrain {pc : LoopPc} (h : pc.afterDrain = true) :
    pc.afterWait = true := by
  cases pc <;> simp_all [afterDrain, afterWait]

/-- `iterationCount` is an integer or a duration. -/
def Config.countParses (cfg : Config Shared Local Choice) : Bool :=
  (atoi cfg.iterationCount).isSome || (cfg.parseDuration cfg.iterationCount).isSome

/-- Some call of `iterFunc` has returned `err`, which is not ignored. -/
def State.FailedWith (s : State Shared Local) (err : String) : Prop :=
  ignoredError err = false ∧ ∃ i, (i, some err) ∈ s.returns

/-- An error that must be reported is still in one of the places that lead to
    the result. -/
def State.Remembers (s : State Shared Local) : Prop :=
  s.retErr ≠ none ∨ s.errChan ≠ [] ∨ ∃ g ∈ s.goroutines, g.pc.pending ≠ none

/-- Where the errors of the iterations are: none is made up, and without
    `ignoreErrors` none is lost. -/
structure Reports (cfg : Config Shared Local Choice) (s : State Shared Local) : Prop where
  channel : ∀ err ∈ s.errChan, s.FailedWith err
  inFlight : ∀ g ∈ s.goroutines, ∀ err, g.pc.pending = some err → s.FailedWith err
  result : ∀ err, s.retErr = some err → s.FailedWith err ∧ cfg.ignoring = false
  kept : cfg.ignoring = false → ∀ err, s.FailedWith err → s.Remembers
  drained : cfg.ignoring = false → s.pc.afterDrain = true → s.retErr ≠ none ∨ s.errChan = []

theorem reports_initial (cfg : Config Shared Local Choice) (shared : Shared) (c0 : Int64) :
    Reports cfg (State.initial shared c0) where
  channel := fun _ h => absurd h List.not_mem_nil
  inFlight := fun _ h => absurd h List.not_mem_nil
  result := nofun
  kept := by
    rintro - err ⟨-, i, hi⟩
    exact absurd hi List.not_mem_nil
  drained := nofun

/-! ## The caller -/

/-- With a count that parses, the result changes only to an error taken from
    the channel. -/
theorem retErr_loopStep {cfg : Config Shared Local Choice} {s t : State Shared Local}
    {timerFired : Bool} (hcount : cfg.countParses = true)
    (h : loopStep cfg s timerFired = some t) :
    t.retErr = s.retErr ∨
      ∃ err ∈ s.errChan, t.retErr = some err ∧ cfg.ignoring = false := by
  cases hpc : s.pc with
  | check =>
      simp only [loopStep, hpc] at h
      split at h
      · split at h <;> (cases h; exact Or.inl rfl)
      · split at h
        · split at h <;> (cases h; exact Or.inl rfl)
        · -- the count would be neither an integer nor a duration
          simp_all [Config.countParses]
  | select | drain =>
      simp only [loopStep, hpc] at h
      split at h
      · rename_i err rest he
        split at h <;> cases h
        · exact Or.inl rfl
        · refine Or.inr ⟨err, ?_, rfl, Bool.eq_false_iff.mpr ‹_›⟩
          rw [he]
          exact List.mem_cons_self
      · cases h
        exact Or.inl rfl
  | acquire | deferWait =>
      simp only [loopStep, hpc] at h
      split at h <;> cases h
      exact Or.inl rfl
  | add | spawn | wait | closeThrottle | closeErrChan =>
      simp only [loopStep, hpc] at h
      cases h
      exact Or.inl rfl
  | returned => simp [loopStep, hpc] at h

/-- A step of the caller leaves the log of outcomes alone, takes from the
    channel and starts no goroutine with an error. -/
theorem frame_loopStep {cfg : Config Shared Local Choice} {s t : State Shared Local}
    (h : LoopStep cfg s t) :
    t.returns = s.returns ∧ (∀ err ∈ t.errChan, err ∈ s.errChan) ∧
      (∀ g ∈ s.goroutines, g ∈ t.goroutines) ∧
      ∀ g ∈ t.goroutines, g ∈ s.goroutines ∨ g.pc.pending = none := by
  cases h
  case spawn hpc =>
      refine ⟨rfl, fun _ h => h, fun g hg => List.mem_append_left _ hg, fun g hg => ?_⟩
      rcases List.mem_append.mp hg with hold | hnew
      · exact Or.inl hold
      · rw [List.mem_singleton.mp hnew]
        exact Or.inr rfl
  case next rest hpc he =>
      refine ⟨rfl, fun err herr => ?_, fun _ h => h, fun _ h => Or.inl h⟩
      rcases he with he | ⟨e, he, -⟩
      · rw [he]
        exact herr
      · rw [he]
        exact List.mem_cons_of_mem _ herr
  case breakLoop e rest hpc he hig | drainIgnored e rest hpc he hig
      | drainError e rest hpc he hig =>
      refine ⟨rfl, fun err herr => ?_, fun _ h => h, fun _ h => Or.inl h⟩
      rw [he]
      exact List.mem_cons_of_mem _ herr
  all_goals exact ⟨rfl, fun _ h => h, fun _ h => h, fun _ h => Or.inl h⟩

/-- Without `ignoreErrors` the caller takes an error from the channel only to
    make it the result. -/
theorem remembers_loopStep {cfg : Config Shared Local Choice} {s t : State Shared Local}
    (hig : cfg.ignoring = false) (hs : s.Remembers) (h : LoopStep cfg s t) : t.Remembers := by
  have hkeep : ∀ g ∈ s.goroutines, g ∈ t.goroutines := (frame_loopStep h).2.2.1
  have hstep : t.retErr ≠ none ∨ t.retErr = s.retErr ∧ t.errChan = s.errChan := by
    cases h
    case next rest hpc he =>
        rcases he with he | ⟨e, -, htrue⟩
        · exact Or.inr ⟨rfl, he.symm⟩
        · rw [hig] at htrue
          cases htrue
    case drainIgnored e rest hpc he htrue =>
        rw [hig] at htrue
        cases htrue
    case unparsed err _ _ | breakLoop err _ _ _ _ | drainError err _ _ _ _ =>
        exact Or.inl (Option.some_ne_none err)
    all_goals exact Or.inr ⟨rfl, rfl⟩
  rcases hstep with hret | ⟨hret, hchan⟩
  · exact Or.inl hret
  · rcases hs with hs | hs | ⟨g, hg, hpend⟩
    · exact Or.inl (hret ▸ hs)
    · exact Or.inr (Or.inl (hchan ▸ hs))
    · exact Or.inr (Or.inr ⟨g, hkeep g hg, hpend⟩)

theorem reports_loopStep {cfg : Config Shared Local Choice} {s t : State Shared Local}
    {timerFired : Bool} (hcount : cfg.countParses = true) (hs : Reports cfg s)
    (h : loopStep cfg s timerFired = some t) : Reports cfg t := by
  have hinv := loopStep_inv h
  obtain ⟨hreturns, hchan, -, hgo⟩ := frame_loopStep hinv
  have hfailed : ∀ err, t.FailedWith err ↔ s.FailedWith err := by
    intro err
    unfold State.FailedWith
    rw [hreturns]
  refine ⟨?_, ?_, ?_, ?_, ?_⟩
  · intro err herr
    exact (hfailed err).mpr (hs.channel err (hchan err herr))
  · intro g hg err hpend
    rcases hgo g hg with hold | hnone
    · exact (hfailed err).mpr (hs.inFlight g hold err hpend)
    · rw [hnone] at hpend
      cases hpend
  · intro err herr
    rcases retErr_loopStep hcount h with hsame | ⟨e, he, hset, hig⟩
    · rw [hsame] at herr
      exact ⟨(hfailed err).mpr (hs.result err herr).1, (hs.result err herr).2⟩
    · obtain rfl : e = err := Option.some.inj (hset.symm.trans herr)
      exact ⟨(hfailed e).mpr (hs.channel e he), hig⟩
  · intro hig err hfail
    exact remembers_loopStep hig (hs.kept hig err ((hfailed err).mp hfail)) hinv
  · -- the loop over `errChan` ends with an error found or the channel empty
    intro hig hpc
    cases hinv
    case drainError => exact Or.inl (Option.some_ne_none _)
    case drained _ hempty => exact Or.inr hempty
    case closeThrottle hold | closeErrChan hold =>
        exact hs.drained hig (by rw [hold]; rfl)
    all_goals exact absurd hpc (by simp [LoopPc.afterDrain, *])

/-! ## The goroutines -/

/-- A step of goroutine `j` that loses no error: what it carried is in the
    channel or still carried, and a failure it adds to the log is carried. -/
theorem Reports.move {cfg : Config Shared Local Choice} {s t : State Shared Local} {j : Nat}
    {g : Goroutine Local} (hs : Reports cfg s) (pc : Pc Local)
    (hj : s.goroutines[j]? = some g)
    (hgo : t.goroutines = s.goroutines.set j { g with pc := pc })
    (hret : t.retErr = s.retErr) (hpc : t.pc = s.pc)
    (hreturns : ∀ r ∈ s.returns, r ∈ t.returns)
    (hchan : ∀ err ∈ t.errChan, err ∈ s.errChan ∨ g.pc.pending = some err)
    (hpend : ∀ err, pc.pending = some err → t.FailedWith err)
    (hnew : ∀ err, t.FailedWith err → s.FailedWith err ∨ pc.pending ≠ none)
    (hfull : s.errChan ≠ [] → t.errChan ≠ [])
    (hlost : g.pc.pending ≠ none → t.errChan ≠ [] ∨ pc.pending ≠ none)
    (hdrained : s.pc.afterDrain = true → t.errChan = s.errChan) : Reports cfg t := by
  have hmono : ∀ err, s.FailedWith err → t.FailedWith err := by
    rintro err ⟨hnot, i, hi⟩
    exact ⟨hnot, i, hreturns _ hi⟩
  have hself : ({ g with pc := pc } : Goroutine Local) ∈ t.goroutines :=
    hgo ▸ mem_set_self hj
  refine ⟨?_, ?_, ?_, ?_, ?_⟩
  · intro err herr
    rcases hchan err herr with hold | hcarried
    · exact hmono err (hs.channel err hold)
    · exact hmono err (hs.inFlight g (List.mem_of_getElem? hj) err hcarried)
  · rw [hgo]
    exact forall_mem_set (fun x hx err he => hmono err (hs.inFlight x hx err he)) hpend j
  · intro err herr
    rw [hret] at herr
    exact ⟨hmono err (hs.result err herr).1, (hs.result err herr).2⟩
  · intro hig err hfail
    rcases hnew err hfail with hold | hcarried
    · rcases hs.kept hig err hold with h | h | ⟨x, hx, hxp⟩
      · exact Or.inl (hret ▸ h)
      · exact Or.inr (Or.inl (hfull h))
      · -- the goroutine that carries an error is the one that moves, or stays
        rcases mem_set_or_eq (b := { g with pc := pc }) hj hx with rfl | hstay
        · rcases hlost hxp with h | h
          · exact Or.inr (Or.inl h)
          · exact Or.inr (Or.inr ⟨_, hself, h⟩)
        · exact Or.inr (Or.inr ⟨x, hgo ▸ hstay, hxp⟩)
    · exact Or.inr (Or.inr ⟨_, hself, hcarried⟩)
  · intro hig ha
    rw [hpc] at ha
    rw [hret, hdrained ha]
    exact hs.drained hig ha

/-- A step of a goroutine that carries no error, before it or after it. -/
theorem Reports.quiet {cfg : Config Shared Local Choice} {s t : State Shared Local} {j : Nat}
    {g : Goroutine Local} (hs : Reports cfg s) {pc : Pc Local} (hj : s.goroutines[j]? = some g)
    (hbefore : g.pc.pending = none) (hafter : pc.pending = none)
    (hgo : t.goroutines = s.goroutines.set j { g with pc := pc })
    (hret : t.retErr = s.retErr) (hpc : t.pc = s.pc) (hreturns : t.returns = s.returns)
    (hchan : t.errChan = s.errChan) : Reports cfg t := by
  refine hs.move pc hj hgo hret hpc ?_ ?_ ?_ ?_ ?_ (fun h => absurd hbefore h) (fun _ => hchan)
  · intro r hr
    rw [hreturns]
    exact hr
  · intro err herr
    rw [hchan] at herr
    exact Or.inl herr
  · intro err herr
    rw [hafter] at herr
    cases herr
  · rintro err ⟨hnot, i, hi⟩
    rw [hreturns] at hi
    exact Or.inl ⟨hnot, i, hi⟩
  · rw [hchan]
    exact id

/-- A goroutine that has not exited holds a token, so there is room for one. -/
theorem Threads.limit_pos {cfg : Config Shared Local Choice} {s : State Shared Local}
    (hs : Threads cfg s) {g : Goroutine Local} (hg : g ∈ s.goroutines)
    (hhold : g.pc.holding = true) : 1 ≤ cfg.limit := by
  have hpos : 0 < s.goroutines.countP (·.pc.holding) := List.countP_pos_iff.mpr ⟨g, hg, hhold⟩
  have hth := hs.throttle
  have hlim := hs.limit
  omega

theorem reports_goStep {cfg : Config Shared Local Choice} {s t : State Shared Local} {j : Nat}
    {g : Goroutine Local} (hth : Threads cfg s) (hs : Reports cfg s)
    (hj : s.goroutines[j]? = some g) (h : GoStep cfg s j g t) : Reports cfg t := by
  have hg : g ∈ s.goroutines := List.mem_of_getElem? hj
  cases h with
  | start hpc | body _ _ _ _ hpc | success hpc | done _ hpc | release _ hpc
  | releaseClosed _ hpc =>
      exact hs.quiet hj (by rw [hpc]; rfl) rfl rfl rfl rfl rfl rfl
  | returns l choice shared err hpc hst =>
      -- the outcome is logged; if it must be reported, the goroutine carries it
      refine hs.move (.count err) hj rfl rfl rfl
        (fun _ h => List.mem_append_left _ h) (fun _ h => Or.inl h) ?_ ?_ id
        (fun h => absurd (by rw [hpc]; rfl) h) (fun _ => rfl)
      · intro e he
        cases err with
        | none => cases he
        | some e' =>
            simp only [Pc.pending] at he
            split at he <;> cases he
            exact ⟨Bool.eq_false_iff.mpr ‹_›, g.index,
              List.mem_append_right _ (List.mem_singleton_self _)⟩
      · rintro e ⟨hnot, i, hi⟩
        rcases List.mem_append.mp hi with hold | hnew
        · exact Or.inl ⟨hnot, i, hold⟩
        · refine Or.inr ?_
          cases List.mem_singleton.mp hnew
          rw [Pc.pending, hnot]
          exact Option.some_ne_none e
  | fail err pc hpc hif =>
      -- an ignored error is dropped here, another one goes on to the send
      have hsame : pc.pending = g.pc.pending := by
        rw [hif, hpc, Pc.pending]
        split <;> rfl
      refine hs.move _ hj rfl rfl rfl (fun _ h => h) (fun _ h => Or.inl h) ?_
        (fun _ h => Or.inl h) id (fun h => Or.inr (hsame ▸ h)) (fun _ => rfl)
      intro e he
      exact hs.inFlight g hg e (hsame ▸ he)
  | send err errChan hpc hif =>
      -- a full channel is not empty: some error is in it when this one is dropped
      have hlimit : 1 ≤ cfg.limit := hth.limit_pos hg (by rw [hpc]; rfl)
      have hnonempty : errChan ≠ [] := by
        rw [hif]
        split
        · exact List.append_ne_nil_of_right_ne_nil _ (List.cons_ne_nil err [])
        · next hfull =>
            intro hempty
            rw [hempty] at hfull
            exact hfull hlimit
      refine hs.move _ hj rfl rfl rfl (fun _ h => h) ?_ nofun (fun _ h => Or.inl h)
        (fun _ => hnonempty) (fun _ => Or.inl hnonempty) ?_
      · intro e he
        rw [hif] at he
        split at he
        · rcases List.mem_append.mp he with hold | hnew
          · exact Or.inl hold
          · rw [List.mem_singleton.mp hnew, hpc]
            exact Or.inr rfl
        · exact Or.inl he
      · -- no goroutine is before its send once the caller is past `wg.Wait()`
        intro ha
        have hzero : s.goroutines.countP (·.pc.working) = 0 := by
          have hwg := hth.wg
          rw [hth.settled (LoopPc.afterWait_of_afterDrain ha)] at hwg
          omega
        exact absurd (by rw [hpc]; rfl) (List.countP_eq_zero.mp hzero g hg)

/-! ## Every run -/

theorem reports_step {cfg : Config Shared Local Choice} (hcount : cfg.countParses = true)
    (s : State Shared Local) (l : Label Choice) (t : State Shared Local)
    (hs : Threads cfg s ∧ Reports cfg s) (_ : True) (h : (iterateFunc cfg).step s l = some t) :
    Threads cfg t ∧ Reports cfg t := by
  refine ⟨threads_step s l t hs.1 trivial h, ?_⟩
  cases l with
  | loop timerFired => exact reports_loopStep hcount hs.2 h
  | go j choice =>
      simp only [iterateFunc, iterateStep] at h
      split at h
      · exact reports_goStep hs.1 hs.2 ‹_› (goStep_inv h)
      · cases h

/-- When `IterateFunc` returns a nil error without `ignoreErrors`, no call has
    returned an error that is not ignored. -/
theorem not_failed_of_retErr_none {cfg : Config Shared Local Choice}
    {s : State Shared Local} (hth : Threads cfg s) (hs : Reports cfg s)
    (hret : s.pc = .returned) (hig : cfg.ignoring = false) (hnil : s.retErr = none)
    (err : String) : ¬ s.FailedWith err := by
  intro hfail
  rcases hs.kept hig err hfail with h | h | ⟨g, hg, hpend⟩
  · exact h hnil
  · rcases hs.drained hig (by rw [hret]; rfl) with hset | hempty
    · exact hset hnil
    · exact h hempty
  · -- a goroutine that carries an error has not signalled the wait group
    obtain ⟨e, he⟩ := Option.ne_none_iff_exists'.mp hpend
    have hwork := not_working_of_returned hth hret g hg
    rw [Pc.working_of_pending he] at hwork
    cases hwork

/-- What `IterateFunc` returns: a nil error exactly when no call failed with an
    error that is not in `IGNORED_ERRORS`. -/
theorem retErr_spec {cfg : Config Shared Local Choice} {shared : Shared} {c0 : Int64}
    {ls : List (Label Choice)} {s : State Shared Local}
    (hcount : cfg.countParses = true)
    (hrun : (iterateFunc cfg).exec (State.initial shared c0) ls = some s)
    (hret : s.pc = .returned) : s.retErr = none ↔ ∀ err, ¬ s.FailedWith err := by
  obtain ⟨hth, hrep⟩ := (Lts.Run.of_exec hrun).preserves (reports_step hcount)
    ⟨threads_initial cfg shared c0, reports_initial cfg shared c0⟩
  refine ⟨not_failed_of_retErr_none hth hrep hret cfg.ignoring_eq_false, fun hno => ?_⟩
  cases herr : s.retErr with
  | none => rfl
  | some err => exact absurd (hrep.result err herr).1 (hno err)

/-- A failure in the log is an outcome that is reportable. -/
theorem exists_reportable_iff (s : State Shared Local) :
    (∃ r ∈ s.returns, reportable r.2 = true) ↔ ∃ err, s.FailedWith err := by
  constructor
  · rintro ⟨⟨i, out⟩, hr, hrep⟩
    cases out with
    | none => cases hrep
    | some err => exact ⟨err, by simpa [reportable] using hrep, i, hr⟩
  · rintro ⟨err, hnot, i, hi⟩
    exact ⟨(i, some err), hi, by simp [reportable, hnot]⟩

/-- The result is an error exactly when some executed call returned one that is
    not in `IGNORED_ERRORS`. -/
theorem retErr_ne_none_iff {cfg : Config Shared Local Choice} {shared : Shared} {c0 : Int64}
    {ls : List (Label Choice)} {s : State Shared Local} (hcount : cfg.countParses = true)
    (hrun : (iterateFunc cfg).exec (State.initial shared c0) ls = some s)
    (hret : s.pc = .returned) :
    s.retErr ≠ none ↔ ∃ r ∈ s.returns, reportable r.2 = true := by
  rw [exists_reportable_iff, ne_eq, retErr_spec hcount hrun hret, not_forall_not]

/-- What the flag asks of the result: without it a failure is returned, and
    nothing else is; with it the result is nil. -/
def State.ReportsAsAsked (cfg : Config Shared Local Choice) (s : State Shared Local) : Prop :=
  (upperIsTrue cfg.ignoreErrors = false →
    (s.retErr ≠ none ↔ ∃ r ∈ s.returns, reportable r.2 = true)) ∧
  (upperIsTrue cfg.ignoreErrors = true → s.retErr = none)

/-- **`IterateFunc` reports as it is asked to unless it is asked to ignore a
    failure.**  For every count that parses and every interleaving, the result
    is what the flag asks for if and only if the flag is not `TRUE` or no call
    of `iterFunc` in the run returned an error that is not in
    `IGNORED_ERRORS`. -/
theorem iterateFunc_reports_failures (cfg : Config Shared Local Choice) (shared : Shared)
    (c0 : Int64) (ls : List (Label Choice)) (s : State Shared Local)
    (hcount : cfg.countParses = true)
    (hrun : (iterateFunc cfg).exec (State.initial shared c0) ls = some s)
    (hret : s.pc = .returned) :
    s.ReportsAsAsked cfg ↔
      upperIsTrue cfg.ignoreErrors = false ∨ ∀ r ∈ s.returns, reportable r.2 = false := by
  have hreport := retErr_ne_none_iff hcount hrun hret
  have hquiet : s.retErr = none ↔ ∀ r ∈ s.returns, reportable r.2 = false := by
    rw [← not_iff_not, ← ne_eq, hreport]
    simp
  cases hflag : upperIsTrue cfg.ignoreErrors with
  | false => simp [State.ReportsAsAsked, hflag, ← hreport]
  | true => simp [State.ReportsAsAsked, hflag, hquiet]

/-- Two iterations under a limit of one: the first call fails, its error fills
    the channel and stops the loop. -/
def failingRun : List (Label GoError) :=
  List.replicate 5 (.loop false) ++ [.go 0 none, .go 0 (some "timeout"), .go 0 none,
    .go 0 none, .loop false, .go 0 none, .go 0 none] ++ List.replicate 4 (.loop false)

/-- Two iterations, one after the other. -/
def oneAtATime : Config Unit Unit GoError := { twoIterations with sequential := true }

theorem iterateFunc_reports_failures_timeout :
    ∃ s, (iterateFunc oneAtATime).exec (State.initial () 5) failingRun = some s ∧
      s.returns = [(5, some "timeout")] ∧ s.retErr ≠ none := by
  refine ⟨((iterateFunc oneAtATime).exec (State.initial () 5) failingRun).get (by decide),
    (Option.some_get _).symm, by decide, ?_⟩
  have hasked := (iterateFunc_reports_failures oneAtATime () 5 failingRun _ (by decide)
    (Option.some_get (by decide)).symm (by decide)).mpr (Or.inl (by decide))
  exact (hasked.1 (by decide)).mpr ⟨(5, some "timeout"), by decide, by decide⟩

/-- Three iterations in a gosdk started with `--ignoreErrors true`. -/
def ignoringThree : Config Unit Unit GoError where
  iterFunc := anyOutcome
  sequential := false
  routineLimit := DEFAULT_ROUTINE_LIMIT
  ignoreErrors := "true"
  iterationCount := "3"
  parseDuration _ := none

/-- The first call fails, and the loop ends with its error: the other two
    iterations are never started. -/
theorem iterateFunc_ignores_flag :
    ∃ s, (iterateFunc ignoringThree).exec (State.initial () 0) failingRun = some s ∧
      s.pc = .returned ∧ s.returns = [(0, some "timeout")] ∧ s.retErr = some "timeout" ∧
      ignoringThree.countParses = true ∧ ¬ s.ReportsAsAsked ignoringThree := by
  refine ⟨((iterateFunc ignoringThree).exec (State.initial () 0) failingRun).get (by decide),
    (Option.some_get _).symm, by decide, by decide, by decide, by decide, ?_⟩
  rintro ⟨-, hnil⟩
  exact absurd (hnil (by decide)) (by decide)

end Hfrd.GoSdk
