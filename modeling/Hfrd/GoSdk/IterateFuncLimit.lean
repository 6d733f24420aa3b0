/-
  Hfrd.GoSdk.IterateFuncLimit

  What the concurrency limit does to `IterateFunc`.

  - A call in progress holds a token of `throttle`, so there are never more of
    them than the limit.  Under a limit of one the goroutines run one after the
    other: when one starts, all before it have exited (`Serial`).
  - With a limit of at least one no state is stuck.  Under a limit of zero the
    first send to `throttle` blocks for ever, and `SetRoutineLimit` accepts
    zero.
-/

import Hfrd.GoSdk.IterateFuncInv

namespace Hfrd.GoSdk

open Hfrd.Go Hfrd.Lib

variable {Shared Local Choice : Type}

/-! ## Calls in progress -/

/-- `iterFunc` has been called and has not returned. -/
def Pc.calling : Pc Local → Bool
  | .call _ => true
  | _ => false

theorem Pc.holding_of_calling {pc : Pc Local} (h : pc.calling = true) : pc.holding = true := by
  cases pc <;> simp_all [calling, holding]

/-- The number of calls of `iterFunc` in progress. -/
def State.inProgress (s : State Shared Local) : Nat := s.goroutines.countP (·.pc.calling)

theorem Threads.inProgress_le {cfg : Config Shared Local Choice} {s : State Shared Local}
    (hs : Threads cfg s) : s.inProgress ≤ cfg.limit := by
  have hhold : s.inProgress ≤ s.goroutines.countP (·.pc.holding) :=
    List.countP_mono_left fun g _ h => Pc.holding_of_calling h
  have hth := hs.throttle
  have hlim := hs.limit
  omega

/-- The two logs tell how many calls are in progress. -/
def Logged (s : State Shared Local) : Prop := s.calls.length = s.returns.length + s.inProgress

theorem logged_step {cfg : Config Shared Local Choice} (s : State Shared Local)
    (l : Label Choice) (t : State Shared Local) (hs : Logged s) (_ : True)
    (h : (iterateFunc cfg).step s l = some t) : Logged t := by
  unfold Logged State.inProgress at *
  rcases iterateStep_inv h with hloop | ⟨j, g, hj, hgo⟩
  · -- a goroutine that is only started has made no call yet
    cases hloop
    case spawn =>
        show s.calls.length = s.returns.length
          + (s.goroutines ++ [(⟨s.currentIter, .start⟩ : Goroutine Local)]).countP (·.pc.calling)
        rw [countP_snoc]
        exact hs
    all_goals exact hs
  · cases hgo with
    | start hpc =>
        have hgain := countP_set_gain (p := (·.pc.calling))
          (b := { g with pc := .call (cfg.iterFunc.entry g.index) }) hj (by rw [hpc]; rfl) rfl
        show (s.calls ++ [g.index]).length = s.returns.length + (s.goroutines.set j
          { g with pc := .call (cfg.iterFunc.entry g.index) }).countP (·.pc.calling)
        rw [hgain, List.length_append, List.length_singleton]
        omega
    | returns l choice shared err hpc hst =>
        have hdrop := countP_set_drop (p := (·.pc.calling)) (b := { g with pc := .count err })
          hj (by rw [hpc]; rfl) rfl
        show s.calls.length = (s.returns ++ [(g.index, err)]).length + (s.goroutines.set j
          { g with pc := .count err }).countP (·.pc.calling)
        rw [List.length_append, List.length_singleton]
        omega
    | fail err pc hpc hif =>
        have hnext : pc.calling = false := by
          rw [hif]
          split <;> rfl
        show s.calls.length = s.returns.length
          + (s.goroutines.set j { g with pc := pc }).countP (·.pc.calling)
        rw [countP_set_keep hj (by rw [hpc, hnext]; rfl)]
        exact hs
    | body _ _ _ _ hpc | success hpc | send _ _ hpc | done _ hpc | release _ hpc
    | releaseClosed _ hpc =>
        refine hs.trans (congrArg (s.returns.length + ·) (countP_set_keep hj ?_).symm)
        rw [hpc]
        rfl

/-! ## One at a time -/

/-- Under a limit of one every goroutine but the last has exited, and the logs
    list the goroutines in the order they were started. -/
structure Serial (s : State Shared Local) (old : List (Goroutine Local))
    (last : Option (Goroutine Local)) : Prop where
  goroutines : s.goroutines = old ++ last.toList
  exited : ∀ g ∈ old, g.pc.holding = false
  calls : s.calls = (old ++ (last.filter (·.pc.started)).toList).map (·.index)
  returns : s.returns.map (·.1) = (old ++ (last.filter (·.pc.hasReturned)).toList).map (·.index)

theorem serial_initial (shared : Shared) (c0 : Int64) :
    Serial (State.initial shared c0 : State Shared Local) [] none :=
  ⟨rfl, fun _ h => absurd h List.not_mem_nil, rfl, rfl⟩

/-- A goroutine that has exited takes no step. -/
theorem holding_of_goStep {cfg : Config Shared Local Choice} {s t : State Shared Local} {j : Nat}
    {g : Goroutine Local} (h : GoStep cfg s j g t) : g.pc.holding = true := by
  cases h <;> simp [Pc.holding, *]

@[simp] theorem Pc.started_start : (Pc.start : Pc Local).started = false := rfl

@[simp] theorem Pc.hasReturned_start : (Pc.start : Pc Local).hasReturned = false := rfl

theorem Pc.settled_of_not_holding {pc : Pc Local} (h : pc.holding = false) :
    pc.started = true ∧ pc.hasReturned = true := by
  cases pc <;> simp_all [holding, started, hasReturned]

/-- The goroutine that moves is the last one. -/
theorem Serial.last_of_holding {s : State Shared Local} {old : List (Goroutine Local)}
    {last : Option (Goroutine Local)} (hs : Serial s old last) {j : Nat} {g : Goroutine Local}
    (hj : s.goroutines[j]? = some g) (hg : g.pc.holding = true) :
    last = some g ∧ j = old.length := by
  rw [hs.goroutines] at hj
  -- those before the last have exited
  by_cases hlt : j < old.length
  · rw [List.getElem?_append_left hlt] at hj
    have hfalse := hs.exited g (List.mem_of_getElem? hj)
    rw [hg] at hfalse
    cases hfalse
  · rw [List.getElem?_append_right (by omega)] at hj
    cases last with
    | none => simp at hj
    | some x =>
        obtain ⟨hlen, hx⟩ := List.getElem?_eq_some_iff.mp hj
        simp only [Option.toList_some, List.length_singleton] at hlen
        refine ⟨?_, by omega⟩
        rw [← hx]
        simp

/-- A step of the last goroutine that brings the logs along. -/
theorem Serial.move {s t : State Shared Local} {old : List (Goroutine Local)}
    {g : Goroutine Local} {j : Nat} (hs : Serial s old (some g)) (pc : Pc Local)
    (hjlen : j = old.length) (hgo : t.goroutines = s.goroutines.set j { g with pc := pc })
    (hcalls : t.calls = (old ++ if pc.started then [g] else []).map (·.index))
    (hreturns : t.returns.map (·.1)
      = (old ++ if pc.hasReturned then [g] else []).map (·.index)) :
    Serial t old (some { g with pc := pc }) := by
  refine ⟨?_, hs.exited, ?_, ?_⟩
  · rw [hgo, hs.goroutines, hjlen]
    simp
  · rw [hcalls]
    by_cases h : pc.started = true <;> simp [Option.filter, h]
  · rw [hreturns]
    by_cases h : pc.hasReturned = true <;> simp [Option.filter, h]

/-- A step between two points on the same side of the call and of the return. -/
theorem Serial.keep {s t : State Shared Local} {old : List (Goroutine Local)}
    {g : Goroutine Local} {j : Nat} {pc : Pc Local} (hs : Serial s old (some g))
    (hjlen : j = old.length) (hst : pc.started = g.pc.started)
    (hret : pc.hasReturned = g.pc.hasReturned)
    (hgo : t.goroutines = s.goroutines.set j { g with pc := pc })
    (hcalls : t.calls = s.calls) (hreturns : t.returns = s.returns) :
    Serial t old (some { g with pc := pc }) := by
  refine hs.move pc hjlen hgo ?_ ?_
  · rw [hcalls, hs.calls, hst]
    by_cases h : g.pc.started = true <;> simp [Option.filter, h]
  · rw [hreturns, hs.returns, hret]
    by_cases h : g.pc.hasReturned = true <;> simp [Option.filter, h]

theorem serial_goStep {cfg : Config Shared Local Choice} {s t : State Shared Local} {j : Nat}
    {g : Goroutine Local} {old : List (Goroutine Local)} {last : Option (Goroutine Local)}
    (hs : Serial s old last) (hj : s.goroutines[j]? = some g) (h : GoStep cfg s j g t) :
    ∃ g', Serial t old (some g') := by
  -- only the last goroutine holds the throttle
  obtain ⟨rfl, hjlen⟩ := hs.last_of_holding hj (holding_of_goStep h)
  cases h with
  | start hpc =>
      refine ⟨_, hs.move (.call (cfg.iterFunc.entry g.index)) hjlen rfl ?_ ?_⟩
      · show s.calls ++ [g.index] = _
        rw [hs.calls]
        simp [Option.filter, hpc, Pc.started]
      · show s.returns.map (·.1) = _
        rw [hs.returns]
        simp [Option.filter, hpc, Pc.hasReturned]
  | returns l choice shared err hpc hst =>
      refine ⟨_, hs.move (.count err) hjlen rfl ?_ ?_⟩
      · show s.calls = _
        rw [hs.calls]
        simp [Option.filter, hpc, Pc.started]
      · show (s.returns ++ [(g.index, err)]).map (·.1) = _
        rw [List.map_append, hs.returns]
        simp [Option.filter, hpc, Pc.hasReturned]
  | fail err pc hpc hif =>
      have hnext : pc.started = true ∧ pc.hasReturned = true := by
        rw [hif]
        split <;> exact ⟨rfl, rfl⟩
      exact ⟨_, hs.keep hjlen (by rw [hpc, hnext.1]; rfl) (by rw [hpc, hnext.2]; rfl) rfl rfl rfl⟩
  | body _ _ _ _ hpc | success hpc | send _ _ hpc | done _ hpc | release _ hpc
  | releaseClosed _ hpc =>
      exact ⟨_, hs.keep hjlen (by rw [hpc]; rfl) (by rw [hpc]; rfl) rfl rfl rfl⟩

theorem serial_loopStep {cfg : Config Shared Local Choice} {s t : State Shared Local}
    {old : List (Goroutine Local)} {last : Option (Goroutine Local)} (hone : cfg.limit = 1)
    (hth : Threads cfg s) (hs : Serial s old last) (h : LoopStep cfg s t) :
    ∃ old last, Serial t old last := by
  cases h
  case spawn hpc =>
      -- the token taken for the new goroutine is the only one: the others have exited
      have hth' := hth.throttle
      have hlim := hth.limit
      rw [hpc] at hth'
      have howes : LoopPc.spawn.owesToken.toNat = 1 := rfl
      have hzero : s.goroutines.countP (·.pc.holding) = 0 := by omega
      have hexited : ∀ g ∈ s.goroutines, g.pc.holding = false := fun g hg =>
        Bool.eq_false_iff.mpr (List.countP_eq_zero.mp hzero g hg)
      have hlast : ∀ g ∈ last, g.pc.started = true ∧ g.pc.hasReturned = true := by
        intro g hg
        apply Pc.settled_of_not_holding
        apply hexited
        rw [hs.goroutines, Option.mem_def.mp hg]
        simp
      refine ⟨s.goroutines, some ⟨s.currentIter, .start⟩, rfl, hexited, ?_, ?_⟩
      · show s.calls = _
        rw [hs.calls, hs.goroutines]
        cases last with
        | none => simp [Option.filter]
        | some g => simp [Option.filter, (hlast g rfl).1]
      · show s.returns.map (·.1) = _
        rw [hs.returns, hs.goroutines]
        cases last with
        | none => simp [Option.filter]
        | some g => simp [Option.filter, (hlast g rfl).2]
  all_goals exact ⟨old, last, hs.goroutines, hs.exited, hs.calls, hs.returns⟩

theorem serial_step {cfg : Config Shared Local Choice} (hone : cfg.limit = 1)
    (s : State Shared Local) (l : Label Choice) (t : State Shared Local)
    (hs : Threads cfg s ∧ ∃ old last, Serial s old last) (_ : True)
    (h : (iterateFunc cfg).step s l = some t) :
    Threads cfg t ∧ ∃ old last, Serial t old last := by
  obtain ⟨hth, old, last, hser⟩ := hs
  refine ⟨threads_step s l t hth trivial h, ?_⟩
  rcases iterateStep_inv h with hloop | ⟨j, g, hj, hgo⟩
  · exact serial_loopStep hone hth hser hloop
  · obtain ⟨g', hg'⟩ := serial_goStep hser hj hgo
    exact ⟨old, some g', hg'⟩

/-- The calls that have returned are the first ones of the log of calls. -/
theorem Serial.returned_first {s : State Shared Local} {old : List (Goroutine Local)}
    {last : Option (Goroutine Local)} (hs : Serial s old last) :
    s.returns.map (·.1) = s.calls.take s.returns.length := by
  have hlen : s.returns.length = (s.returns.map (·.1)).length := (List.length_map _).symm
  rw [hlen, hs.returns, hs.calls]
  cases last with
  | none => simp
  | some g =>
      cases hret : g.pc.hasReturned with
      | true => simp [Option.filter, hret, Pc.started_of_hasReturned hret]
      | false =>
          simp only [Option.filter, hret, Bool.false_eq_true, if_false, Option.toList_none,
            List.append_nil, List.map_append, List.length_map]
          have hold : (old.map (·.index)).length = old.length := List.length_map _
          rw [← hold, List.take_left]

/-- Calls are made in the order of the indices. -/
theorem Serial.calls_eq {cfg : Config Shared Local Choice} {c0 : Int64}
    {s : State Shared Local} {old : List (Goroutine Local)} {last : Option (Goroutine Local)}
    (hs : Serial s old last) (hidx : Indices cfg c0 s) :
    s.calls = (List.range s.calls.length).map fun i => c0 + Int64.ofNat i := by
  have hpre : s.calls <+: (List.range s.goroutines.length).map fun i => c0 + Int64.ofNat i := by
    rw [← hidx.index, hs.calls, hs.goroutines]
    refine List.IsPrefix.map _ ((List.prefix_append_right_inj old).mpr ?_)
    cases last with
    | none => exact List.prefix_rfl
    | some g =>
        by_cases h : g.pc.started = true
        · simp [Option.filter, h]
        · simp [Option.filter, h]
  have htake := List.prefix_iff_eq_take.mp hpre
  rw [← List.map_take, List.take_range] at htake
  have hlen := congrArg List.length htake
  simp only [List.length_map, List.length_range] at hlen
  rwa [← hlen] at htake

/-- **The concurrency limit is respected.**  In every reachable state at most
    `limit` calls of `iterFunc` are in progress.  A sequential run makes them
    one after the other: in the order of the indices, and the next one only
    after all before it have returned. -/
theorem iterateFunc_respects_limit (cfg : Config Shared Local Choice) (shared : Shared)
    (c0 : Int64) (ls : List (Label Choice)) (s : State Shared Local)
    (hrun : (iterateFunc cfg).exec (State.initial shared c0) ls = some s) :
    s.inProgress ≤ cfg.limit ∧
    s.calls.length = s.returns.length + s.inProgress ∧
    (cfg.sequential = true →
      s.inProgress ≤ 1 ∧
      s.calls = ((List.range s.calls.length).map fun i => c0 + Int64.ofNat i) ∧
      s.returns.map (·.1) = s.calls.take s.returns.length) := by
  have run := Lts.Run.of_exec hrun
  have hth := run.preserves threads_step (threads_initial cfg shared c0)
  refine ⟨hth.inProgress_le, run.preserves logged_step rfl, fun hseq => ?_⟩
  have hone : cfg.limit = 1 := if_pos hseq
  obtain ⟨-, old, last, hser⟩ := run.preserves (serial_step hone)
    ⟨threads_initial cfg shared c0, [], none, serial_initial shared c0⟩
  have hidx := run.preserves indices_step (indices_initial cfg shared c0)
  exact ⟨hone ▸ hth.inProgress_le, hser.calls_eq hidx, hser.returned_first⟩

/-- Both calls of `twoIterations` in progress, the second one first. -/
def bothCalled : List (Label GoError) :=
  List.replicate 12 (.loop false) ++ [.go 1 none, .go 0 none]

theorem iterateFunc_respects_limit_two :
    ∃ s, (iterateFunc twoIterations).exec (State.initial () 5) bothCalled = some s ∧
      s.calls = [6, 5] ∧ s.returns = [] ∧ s.inProgress ≤ 2 := by
  refine ⟨((iterateFunc twoIterations).exec (State.initial () 5) bothCalled).get (by decide),
    (Option.some_get _).symm, by decide, by decide, ?_⟩
  exact (iterateFunc_respects_limit twoIterations () 5 bothCalled _
    (Option.some_get (by decide)).symm).1

/-! ## No state is stuck -/

/-- Some step of some thread is enabled. -/
def CanStep (cfg : Config Shared Local Choice) (s : State Shared Local) : Prop :=
  ∃ l t, (iterateFunc cfg).step s l = some t

/-- `IterateFunc` has not returned, no call of `iterFunc` is in progress, and
    nothing can move; or the goroutines have all exited and the caller is
    blocked. -/
def Wedged (cfg : Config Shared Local Choice) (s : State Shared Local) : Prop :=
  s.pc ≠ .returned ∧
    ((∀ g ∈ s.goroutines, g.pc.calling = false) ∧ ¬ CanStep cfg s ∨
      (∀ g ∈ s.goroutines, g.pc.holding = false) ∧
        ∀ timerFired, loopStep cfg s timerFired = none)

/-- The loop is entered: the index is below the count, or the count is a
    duration. -/
def Config.entersLoop (cfg : Config Shared Local Choice) (c0 : Int64) : Bool :=
  match atoi cfg.iterationCount with
  | some iterationCount => decide (c0 < iterationCount)
  | none => (cfg.parseDuration cfg.iterationCount).isSome

/-- `SetRoutineLimit` leaves the limit at zero when it is given a zero, or a
    value it ignores while the limit is zero already. -/
theorem setRoutineLimit_eq_zero_iff (routineLimit : Nat) (num : Int) :
    setRoutineLimit routineLimit num = 0 ↔
      num = 0 ∨ routineLimit = 0 ∧ (num < 0 ∨ ROUTINE_UPPER_LIMIT < num) := by
  unfold setRoutineLimit ROUTINE_UPPER_LIMIT
  split
  · omega
  · split <;> omega

/-- The caller is blocked only on a full `throttle` or on the wait group. -/
theorem loopStep_blocked {cfg : Config Shared Local Choice} {s : State Shared Local}
    (h : loopStep cfg s false = none) :
    s.pc = .returned ∨ (s.pc = .acquire ∧ cfg.limit ≤ s.throttle) ∨
      (s.pc = .deferWait ∧ s.wg ≠ 0) := by
  cases hpc : s.pc with
  | returned => exact Or.inl rfl
  | acquire =>
      simp only [loopStep, hpc] at h
      split at h
      · cases h
      · exact Or.inr (Or.inl ⟨rfl, by omega⟩)
  | deferWait =>
      simp only [loopStep, hpc] at h
      split at h
      · cases h
      · exact Or.inr (Or.inr ⟨rfl, ‹_›⟩)
  | check =>
      simp only [loopStep, hpc] at h
      split at h
      · split at h <;> cases h
      · split at h
        · cases h
        · cases h
  -- these take what is there, or go on
  | select | drain =>
      simp only [loopStep, hpc] at h
      split at h
      · split at h <;> cases h
      · cases h
  | add | spawn | wait | closeThrottle | closeErrChan =>
      simp only [loopStep, hpc] at h
      cases h

/-- A goroutine that has not exited and is not inside `iterFunc` can move: the
    token it gives back is in the channel. -/
theorem goStep_isSome {cfg : Config Shared Local Choice} {s : State Shared Local}
    (hth : Threads cfg s) {j : Nat} {g : Goroutine Local} (hj : s.goroutines[j]? = some g)
    (hcall : g.pc.calling = false) (hhold : g.pc.holding = true) (choice : Choice) :
    (goStep cfg s j g choice).isSome = true := by
  cases hpc : g.pc with
  | call l =>
      rw [hpc] at hcall
      cases hcall
  | exited err =>
      rw [hpc] at hhold
      cases hhold
  | start | send err | done err => simp only [goStep, hpc, Option.isSome_some]
  | count err => cases err <;> simp only [goStep, hpc, Option.isSome_some]
  | release err =>
      have hpos : 0 < s.goroutines.countP (·.pc.holding) :=
        List.countP_pos_iff.mpr ⟨g, List.mem_of_getElem? hj, hhold⟩
      have hth' := hth.throttle
      simp only [goStep, hpc, if_pos (show 0 < s.throttle by omega), Option.isSome_some]

/-- When the caller is blocked under a limit of at least one, some goroutine
    has not exited. -/
theorem exists_holding_of_blocked {cfg : Config Shared Local Choice} {s : State Shared Local}
    (hlimit : 1 ≤ cfg.limit) (hth : Threads cfg s) (hret : s.pc ≠ .returned)
    (h : loopStep cfg s false = none) : ∃ g ∈ s.goroutines, g.pc.holding = true := by
  rcases loopStep_blocked h with hpc | ⟨hpc, hfull⟩ | ⟨hpc, hwait⟩
  · exact absurd hpc hret
  · have hth' := hth.throttle
    rw [hpc] at hth'
    have howes : LoopPc.acquire.owesToken.toNat = 0 := rfl
    exact List.countP_pos_iff.mp (by omega)
  · -- the wait group waits for a goroutine that still holds its token
    have hwg := hth.wg
    rw [hpc] at hwg
    have howes : LoopPc.deferWait.owesGoroutine.toNat = 0 := rfl
    obtain ⟨g, hg, hwork⟩ := List.countP_pos_iff.mp
      (show 0 < s.goroutines.countP (·.pc.working) by omega)
    exact ⟨g, hg, by cases hp : g.pc <;> simp_all [Pc.working, Pc.holding]⟩

theorem not_wedged_of_limit_pos {cfg : Config Shared Local Choice} {s : State Shared Local}
    (choice : Choice) (hlimit : 1 ≤ cfg.limit) (hth : Threads cfg s) : ¬ Wedged cfg s := by
  rintro ⟨hret, ⟨hcall, hstuck⟩ | ⟨hexited, hblocked⟩⟩
  · have hloop : loopStep cfg s false = none := by
      cases h : loopStep cfg s false with
      | none => rfl
      | some t => exact absurd ⟨.loop false, t, h⟩ hstuck
    -- the blocked caller waits for a goroutine, and that one can move
    obtain ⟨g, hg, hhold⟩ := exists_holding_of_blocked hlimit hth hret hloop
    obtain ⟨j, hj⟩ := List.getElem?_of_mem hg
    obtain ⟨t, ht⟩ := Option.isSome_iff_exists.mp
      (goStep_isSome hth hj (hcall g hg) hhold choice)
    apply hstuck
    refine ⟨.go j choice, t, ?_⟩
    simp only [iterateFunc, iterateStep, hj]
    exact ht
  · obtain ⟨g, hg, hhold⟩ := exists_holding_of_blocked hlimit hth hret (hblocked false)
    rw [hexited g hg] at hhold
    cases hhold

/-- The condition of the loop holds, on the count or while the timer runs. -/
theorem loopStep_enter {cfg : Config Shared Local Choice} {s : State Shared Local}
    (hpc : s.pc = .check) (henter : cfg.entersLoop s.currentIter = true) :
    loopStep cfg s false = some { s with pc := .acquire } := by
  unfold Config.entersLoop at henter
  cases hn : atoi cfg.iterationCount with
  | some n =>
      simp only [hn, decide_eq_true_eq] at henter
      simp only [loopStep, hpc, hn, if_pos henter]
  | none =>
      simp only [hn] at henter
      obtain ⟨d, hd⟩ := Option.isSome_iff_exists.mp henter
      simp only [loopStep, hpc, hn, hd]
      rfl

/-- The condition of the loop fails, or there is no count. -/
theorem loopStep_skip {cfg : Config Shared Local Choice} {s t : State Shared Local}
    {timerFired : Bool} (hpc : s.pc = .check) (henter : cfg.entersLoop s.currentIter = false)
    (h : loopStep cfg s timerFired = some t) :
    t.pc = .deferWait ∧ t.goroutines = s.goroutines := by
  unfold Config.entersLoop at henter
  cases hn : atoi cfg.iterationCount with
  | some n =>
      simp only [hn, decide_eq_false_iff_not] at henter
      simp only [loopStep, hpc, hn, if_neg henter] at h
      cases h
      exact ⟨rfl, rfl⟩
  | none =>
      simp only [hn] at henter
      have hd := Option.isNone_iff_eq_none.mp (Option.isSome_eq_false_iff.mp henter)
      simp only [loopStep, hpc, hn, hd] at h
      cases h
      exact ⟨rfl, rfl⟩

/-- Before the first iteration the caller has no goroutine to free a token. -/
theorem wedged_of_limit_zero {cfg : Config Shared Local Choice} (shared : Shared) {c0 : Int64}
    (hlimit : cfg.limit = 0) (henter : cfg.entersLoop c0 = true) :
    ∃ ls s, (iterateFunc cfg).exec (State.initial shared c0) ls = some s ∧ Wedged cfg s := by
  have hfirst : loopStep cfg (State.initial shared c0) false
      = some { State.initial shared c0 with pc := .acquire } := loopStep_enter rfl henter
  refine ⟨[.loop false], { (State.initial shared c0 : State Shared Local) with pc := .acquire },
    ?_, nofun, Or.inr ⟨?_, ?_⟩⟩
  · simp only [Lts.exec, iterateFunc, iterateStep, hfirst]
  · exact fun g hg => absurd hg List.not_mem_nil
  · intro timerFired
    simp only [loopStep, State.initial, hlimit]
    rfl

/-- No goroutine is started while the condition of the loop fails at once. -/
def Skipped (c0 : Int64) (s : State Shared Local) : Prop :=
  s.goroutines = [] ∧ (s.pc = .check ∧ s.currentIter = c0 ∨ s.pc.deferred = true)

theorem skipped_step {cfg : Config Shared Local Choice} {c0 : Int64}
    (henter : cfg.entersLoop c0 = false) (s : State Shared Local) (l : Label Choice)
    (t : State Shared Local) (hs : Skipped c0 s) (_ : True)
    (h : (iterateFunc cfg).step s l = some t) : Skipped c0 t := by
  obtain ⟨hempty, hpc⟩ := hs
  cases l with
  | go j choice => simp [iterateFunc, iterateStep, hempty] at h
  | loop timerFired =>
      rcases hpc with ⟨hpc, hiter⟩ | hpc
      · obtain ⟨htpc, htgo⟩ := loopStep_skip hpc (hiter ▸ henter) h
        exact ⟨htgo.trans hempty, Or.inr (by rw [htpc]; rfl)⟩
      · cases loopStep_inv h
        case waited | drainIgnored | drainError | drained | closeThrottle | closeErrChan =>
            exact ⟨hempty, Or.inr rfl⟩
        all_goals exact absurd hpc (by simp [LoopPc.deferred, *])

/-- A loop that is not entered takes no token. -/
theorem not_wedged_of_skipped {cfg : Config Shared Local Choice} {c0 : Int64}
    {s : State Shared Local} (hth : Threads cfg s) (hs : Skipped c0 s) : ¬ Wedged cfg s := by
  obtain ⟨hempty, hpc⟩ := hs
  rintro ⟨hret, hstuck⟩
  have hloop : loopStep cfg s false = none := by
    rcases hstuck with ⟨-, hstuck⟩ | ⟨-, hblocked⟩
    · cases h : loopStep cfg s false with
      | none => rfl
      | some t => exact absurd ⟨.loop false, t, h⟩ hstuck
    · exact hblocked false
  rcases loopStep_blocked hloop with h | ⟨h, -⟩ | ⟨h, hwait⟩
  · exact hret h
  · rcases hpc with ⟨hpc, -⟩ | hpc
    · rw [h] at hpc
      cases hpc
    · rw [h] at hpc
      cases hpc
  · have hwg := hth.wg
    rw [hempty, h] at hwg
    exact hwait hwg

/-- **When a concurrency limit wedges the driver.**  After
    `SetRoutineLimit(num)`, `IterateFunc` has no reachable stuck state exactly
    when the run is sequential, or the limit is not left at zero, or the loop
    is not entered. -/
theorem iterateFunc_never_wedged_iff (iterFunc : IterFunc Shared Local Choice)
    (sequential : Bool) (routineLimit : Nat) (num : Int) (ignoreErrors iterationCount : String)
    (parseDuration : String → Option Int64) (shared : Shared) (c0 : Int64) (choice : Choice)
    (cfg : Config Shared Local Choice)
    (hcfg : cfg = ⟨iterFunc, sequential, setRoutineLimit routineLimit num, ignoreErrors,
      iterationCount, parseDuration⟩) :
    (∀ ls s, (iterateFunc cfg).exec (State.initial shared c0) ls = some s → ¬ Wedged cfg s) ↔
      (sequential = true ∨
        ¬ (num = 0 ∨ routineLimit = 0 ∧ (num < 0 ∨ ROUTINE_UPPER_LIMIT < num)) ∨
        cfg.entersLoop c0 = false) := by
  have hlimit : cfg.limit = 0 ↔ ¬ sequential = true ∧
      (num = 0 ∨ routineLimit = 0 ∧ (num < 0 ∨ ROUTINE_UPPER_LIMIT < num)) := by
    rw [← setRoutineLimit_eq_zero_iff, hcfg]
    unfold Config.limit
    by_cases h : sequential = true <;> simp [h]
  constructor
  · intro hnever
    by_contra hcon
    rw [not_or, not_or, not_not, Bool.not_eq_false] at hcon
    obtain ⟨hseq, hzero, henter⟩ := hcon
    -- with nothing to acquire, the loop waits at its first iteration
    obtain ⟨ls, s, hrun, hw⟩ :=
      wedged_of_limit_zero shared (hlimit.mpr ⟨hseq, hzero⟩) henter
    exact hnever ls s hrun hw
  · intro hcond ls s hrun
    have run := Lts.Run.of_exec hrun
    have hth := run.preserves threads_step (threads_initial cfg shared c0)
    -- otherwise there is room, or the loop is not entered
    by_cases hpos : 1 ≤ cfg.limit
    · exact not_wedged_of_limit_pos choice hpos hth
    · obtain ⟨hseq, hzero⟩ := hlimit.mp (by omega)
      have henter : cfg.entersLoop c0 = false := by
        rcases hcond with h | h | h
        · exact absurd h hseq
        · exact absurd hzero h
        · exact h
      exact not_wedged_of_skipped hth
        (run.preserves (skipped_step henter) ⟨rfl, Or.inl ⟨rfl, rfl⟩⟩)

/-- One iteration under the limit the command line sets. -/
def limitedTo (num : Int) : Config Unit Unit GoError where
  iterFunc := anyOutcome
  sequential := false
  routineLimit := setRoutineLimit DEFAULT_ROUTINE_LIMIT num
  ignoreErrors := "false"
  iterationCount := "1"
  parseDuration _ := none

/-- `--concurrencyLimit 0`: the send to the unbuffered `throttle` waits for a
    receiver that is never started. -/
theorem iterateFunc_wedged_at_zero :
    ∃ s, (iterateFunc (limitedTo 0)).exec (State.initial () 0) [.loop false] = some s ∧
      Wedged (limitedTo 0) s := by
  refine ⟨((iterateFunc (limitedTo 0)).exec (State.initial () 0) [.loop false]).get (by decide),
    (Option.some_get _).symm, by decide, Or.inr ⟨by decide, by decide⟩⟩

/-- With a limit of one the same iteration runs and is never stuck. -/
theorem iterateFunc_never_wedged_one :
    (limitedTo 1).entersLoop 0 = true ∧
    ∀ ls s, (iterateFunc (limitedTo 1)).exec (State.initial () 0) ls = some s →
      ¬ Wedged (limitedTo 1) s :=
  ⟨by decide,
    (iterateFunc_never_wedged_iff anyOutcome false DEFAULT_ROUTINE_LIMIT 1 "false" "1" _ () 0 none
      (limitedTo 1) rfl).mpr (Or.inr (Or.inl (by decide)))⟩

end Hfrd.GoSdk
