/-
  Hfrd.GoSdk.IterateFuncInv

  Invariants of `IterateFunc` over every interleaving, for an arbitrary
  `iterFunc`:

  - `Threads` ties the wait group and the tokens in `throttle` to the
    goroutines that have not signalled, respectively not exited, yet;
  - `Indices` ties `base.currentIter` to the number of goroutines started,
    and says when the loop may end without an error;
  - `Counts` ties the two counters to the calls that have returned.

  Together they give exactly-once execution when `IterateFunc` returns.
-/

import Hfrd.GoSdk.IterateFunc
import Mathlib.Data.List.Nodup

namespace Hfrd.GoSdk

open Hfrd.Go Hfrd.Lib

variable {Shared Local Choice : Type}

/-! ## Program points -/

namespace Pc

/-- `iterFunc` has been called. -/
def started : Pc Local → Bool
  | .start => false
  | _ => true

/-- `iterFunc` has returned. -/
def hasReturned : Pc Local → Bool
  | .start | .call _ => false
  | _ => true

/-- `wg.Done()` has not been executed yet. -/
def working : Pc Local → Bool
  | .release _ | .exited _ => false
  | _ => true

/-- The token has not been given back yet. -/
def holding : Pc Local → Bool
  | .exited _ => false
  | _ => true

/-- A nil error whose `successCount` update is still ahead. -/
def uncountedSuccess : Pc Local → Bool
  | .count none => true
  | _ => false

/-- An error whose `failCount` update is still ahead. -/
def uncountedFail : Pc Local → Bool
  | .count (some _) => true
  | _ => false

theorem settled_of_not_working {pc : Pc Local} (h : pc.working = false) :
    pc.hasReturned = true ∧ pc.uncountedSuccess = false ∧ pc.uncountedFail = false := by
  cases pc <;> simp_all [working, hasReturned, uncountedSuccess, uncountedFail]

theorem started_of_hasReturned {pc : Pc Local} (h : pc.hasReturned = true) :
    pc.started = true := by
  cases pc <;> simp_all [started, hasReturned]

end Pc

namespace LoopPc

/-- In the loop, the next goroutine not started yet. -/
def dispatching : LoopPc → Bool
  | .check | .acquire | .add | .spawn => true
  | _ => false

/-- In the loop, past the condition of the `for`. -/
def entered : LoopPc → Bool
  | .acquire | .add | .spawn => true
  | _ => false

/-- In the loop, past the `go` statement. -/
def spawned : LoopPc → Bool
  | .wait | .select => true
  | _ => false

/-- In the deferred function. -/
def deferred : LoopPc → Bool
  | .deferWait | .drain | .closeThrottle | .closeErrChan | .returned => true
  | _ => false

/-- In the deferred function, past `wg.Wait()`. -/
def afterWait : LoopPc → Bool
  | .drain | .closeThrottle | .closeErrChan | .returned => true
  | _ => false

/-- `wg.Add(1)` executed for a goroutine that is not started yet. -/
def owesGoroutine : LoopPc → Bool
  | .spawn => true
  | _ => false

/-- A token taken for a goroutine that is not started yet. -/
def owesToken : LoopPc → Bool
  | .add | .spawn => true
  | _ => false

end LoopPc

/-! ## Wait group and tokens -/

/-- The wait group counts the goroutines that have not signalled, `throttle`
    those that have not exited, each with the goroutine being started. -/
structure Threads (cfg : Config Shared Local Choice) (s : State Shared Local) : Prop where
  wg : s.wg = s.goroutines.countP (·.pc.working) + s.pc.owesGoroutine.toNat
  throttle : s.throttle = s.goroutines.countP (·.pc.holding) + s.pc.owesToken.toNat
  limit : s.throttle ≤ cfg.limit
  settled : s.pc.afterWait = true → s.wg = 0

theorem threads_initial (cfg : Config Shared Local Choice) (shared : Shared) (c0 : Int64) :
    Threads cfg (State.initial shared c0) :=
  ⟨rfl, rfl, Nat.zero_le _, fun _ => rfl⟩

theorem threads_loopStep {cfg : Config Shared Local Choice} {s t : State Shared Local}
    (hs : Threads cfg s) (h : LoopStep cfg s t) : Threads cfg t := by
  obtain ⟨hwg, hth, hlim, hset⟩ := hs
  cases h
  case acquire hpc hlt =>
      -- the token is taken before the goroutine that will give it back is started
      rw [hpc] at hwg hth
      exact ⟨hwg, by rw [hth]; rfl, hlt, nofun⟩
  case add hpc =>
      rw [hpc] at hwg hth
      exact ⟨by rw [hwg]; rfl, hth, hlim, nofun⟩
  case spawn hpc =>
      rw [hpc] at hwg hth
      refine ⟨?_, ?_, hlim, nofun⟩
      · simp [hwg, Pc.working, LoopPc.owesGoroutine]
      · simp [hth, Pc.holding, LoopPc.owesToken]
  case waited hpc hzero =>
      rw [hpc] at hwg hth
      exact ⟨hwg, hth, hlim, fun _ => hzero⟩
  -- the other steps neither touch a goroutine nor move past `wg.Wait()`
  all_goals
    constructor <;> simp_all [LoopPc.owesGoroutine, LoopPc.owesToken, LoopPc.afterWait]

/-- A goroutine that neither signals nor exits leaves both counts alone. -/
theorem Threads.keep {cfg : Config Shared Local Choice} {s t : State Shared Local} {j : Nat}
    {g : Goroutine Local} {pc : Pc Local} (hs : Threads cfg s)
    (hj : s.goroutines[j]? = some g) (hw : pc.working = g.pc.working)
    (hh : pc.holding = g.pc.holding)
    (hg : t.goroutines = s.goroutines.set j { g with pc := pc })
    (hwg : t.wg = s.wg) (hth : t.throttle = s.throttle) (hpc : t.pc = s.pc) :
    Threads cfg t := by
  constructor
  · rw [hwg, hg, hpc, countP_set_keep hj hw, hs.wg]
  · rw [hth, hg, hpc, countP_set_keep hj hh, hs.throttle]
  · rw [hth]
    exact hs.limit
  · rw [hwg, hpc]
    exact hs.settled

theorem threads_goStep {cfg : Config Shared Local Choice} {s t : State Shared Local} {j : Nat}
    {g : Goroutine Local} (hs : Threads cfg s) (hj : s.goroutines[j]? = some g)
    (h : GoStep cfg s j g t) : Threads cfg t := by
  cases h with
  | start hpc => exact hs.keep hj (by rw [hpc]; rfl) (by rw [hpc]; rfl) rfl rfl rfl rfl
  | body l l' choice shared hpc hst =>
      exact hs.keep hj (by rw [hpc]; rfl) (by rw [hpc]; rfl) rfl rfl rfl rfl
  | returns l choice shared err hpc hst =>
      exact hs.keep hj (by rw [hpc]; rfl) (by rw [hpc]; rfl) rfl rfl rfl rfl
  | success hpc => exact hs.keep hj (by rw [hpc]; rfl) (by rw [hpc]; rfl) rfl rfl rfl rfl
  | fail err pc hpc hif =>
      have hnext : pc.working = true ∧ pc.holding = true := by
        rw [hif]; split <;> exact ⟨rfl, rfl⟩
      exact hs.keep hj (by rw [hpc, hnext.1]; rfl) (by rw [hpc, hnext.2]; rfl) rfl rfl rfl rfl
  | send err errChan hpc hif =>
      exact hs.keep hj (by rw [hpc]; rfl) (by rw [hpc]; rfl) rfl rfl rfl rfl
  | done err hpc =>
      -- the goroutine leaves the wait group and keeps its token
      have hwork := countP_set_drop (p := (·.pc.working)) (b := { g with pc := .release err })
        hj (by rw [hpc]; rfl) rfl
      have hhold := countP_set_keep (p := (·.pc.holding)) (b := { g with pc := .release err })
        hj (by rw [hpc]; rfl)
      have hwg := hs.wg
      refine ⟨?_, ?_, hs.limit, ?_⟩
      · show s.wg - 1 = (s.goroutines.set j { g with pc := .release err }).countP (·.pc.working)
          + s.pc.owesGoroutine.toNat
        omega
      · show s.throttle = (s.goroutines.set j { g with pc := .release err }).countP (·.pc.holding)
          + s.pc.owesToken.toNat
        rw [hhold, hs.throttle]
      · intro ha
        show s.wg - 1 = 0
        rw [hs.settled ha]
  | release err hpc hpos =>
      have hwork := countP_set_keep (p := (·.pc.working)) (b := { g with pc := .exited err })
        hj (by rw [hpc]; rfl)
      have hhold := countP_set_drop (p := (·.pc.holding)) (b := { g with pc := .exited err })
        hj (by rw [hpc]; rfl) rfl
      have hwg := hs.wg
      have hth := hs.throttle
      rw [← hwork] at hwg
      refine ⟨hwg, ?_, Nat.le_trans (Nat.sub_le _ _) hs.limit, hs.settled⟩
      show s.throttle - 1 = (s.goroutines.set j { g with pc := .exited err }).countP (·.pc.holding)
        + s.pc.owesToken.toNat
      omega
  | releaseClosed err hpc hzero hclosed =>
      -- a goroutine that holds a token finds one in the channel
      have hhold := countP_set_drop (p := (·.pc.holding)) (b := { g with pc := .exited err })
        hj (by rw [hpc]; rfl) rfl
      have hth := hs.throttle
      omega

theorem threads_step {cfg : Config Shared Local Choice} (s : State Shared Local)
    (l : Label Choice) (t : State Shared Local) (hs : Threads cfg s) (_ : True)
    (h : (iterateFunc cfg).step s l = some t) : Threads cfg t := by
  rcases iterateStep_inv h with hloop | ⟨j, g, hj, hgo⟩
  · exact threads_loopStep hs hloop
  · exact threads_goStep hs hj hgo

/-- With a limit of one, a goroutine that holds its token is the only one. -/
theorem Threads.eq_or_not_holding {cfg : Config Shared Local Choice} {s : State Shared Local}
    (hs : Threads cfg s) (hlimit : cfg.limit ≤ 1) {j : Nat} {g g' : Goroutine Local}
    (hj : s.goroutines[j]? = some g) (hg : g.pc.holding = true) (hg' : g' ∈ s.goroutines) :
    g' = g ∨ g'.pc.holding = false := by
  have hone : s.goroutines.countP (·.pc.holding) ≤ 1 := by
    have hlim := hs.limit
    have hth := hs.throttle
    omega
  obtain ⟨hlt, hget⟩ := List.getElem?_eq_some_iff.mp hj
  have hself : s.goroutines.set j g = s.goroutines := hget ▸ List.set_getElem_self hlt
  exact eq_or_not_of_mem_set (p := (·.pc.holding)) hj hg hone (hself.symm ▸ hg')

/-! ## Indices -/

/-- The sum of an index and a count that stays below `2 ^ 63` does not wrap. -/
theorem toInt_add_ofNat {c0 : Int64} {k : Nat} (h : c0.toInt + k < 2 ^ 63) :
    (c0 + Int64.ofNat k).toInt = c0.toInt + k := by
  have hlo := c0.le_toInt
  have hsize : Int64.size = 2 ^ 64 := rfl
  rw [Int64.toInt_add, Int64.toInt_ofNat', hsize, Int.add_bmod_bmod]
  exact Int.bmod_eq_of_le (by omega) (by omega)

/-- The goroutines carry `c0, c0 + 1, ..` in the order they were started;
    `base.currentIter` is the index of the one to start next or, past the `go`
    statement, of the last one. -/
structure Indices (cfg : Config Shared Local Choice) (c0 : Int64)
    (s : State Shared Local) : Prop where
  index : s.goroutines.map (·.index)
    = (List.range s.goroutines.length).map fun i => c0 + Int64.ofNat i
  iter : s.pc.dispatching = true → s.currentIter = c0 + Int64.ofNat s.goroutines.length
  last : s.pc.spawned = true → s.currentIter + 1 = c0 + Int64.ofNat s.goroutines.length
  bound : ∀ n, atoi cfg.iterationCount = some n →
    s.goroutines.length ≤ (n.toInt - c0.toInt).toNat
  more : ∀ n, atoi cfg.iterationCount = some n → s.pc.entered = true → s.currentIter < n
  quiet : s.pc.deferred = false → s.retErr = none
  full : s.pc.deferred = true → s.retErr = none → ∀ n, atoi cfg.iterationCount = some n →
    s.goroutines.length = (n.toInt - c0.toInt).toNat

theorem indices_initial (cfg : Config Shared Local Choice) (shared : Shared) (c0 : Int64) :
    Indices cfg c0 (State.initial shared c0) where
  index := rfl
  iter := fun _ => by simp [State.initial]
  last := nofun
  bound := fun _ _ => Nat.zero_le _
  more := nofun
  quiet := fun _ => rfl
  full := nofun

/-- A goroutine's own step leaves the loop and the indices alone. -/
theorem indices_goStep {cfg : Config Shared Local Choice} {c0 : Int64}
    {s t : State Shared Local} {j : Nat} {g : Goroutine Local} (hs : Indices cfg c0 s)
    (hj : s.goroutines[j]? = some g) (h : GoStep cfg s j g t) : Indices cfg c0 t := by
  have hmap : ∀ pc, (s.goroutines.set j { g with pc := pc }).map (·.index)
      = s.goroutines.map (·.index) := by
    intro pc
    obtain ⟨hlt, rfl⟩ := List.getElem?_eq_some_iff.mp hj
    have hself := List.set_getElem_self
      (by simpa using hlt : j < (s.goroutines.map (·.index)).length)
    rw [List.getElem_map] at hself
    rw [List.map_set]
    exact hself
  obtain ⟨hidx, hiter, hlast, hbound, hmore, hquiet, hfull⟩ := hs
  cases h <;>
    exact ⟨by simpa only [State.move, hmap, List.length_set] using hidx,
      by simpa only [State.move, List.length_set] using hiter,
      by simpa only [State.move, List.length_set] using hlast,
      by simpa only [State.move, List.length_set] using hbound, hmore, hquiet,
      by simpa only [State.move, List.length_set] using hfull⟩

/-- A step of the caller that starts no goroutine. -/
theorem Indices.keep {cfg : Config Shared Local Choice} {c0 : Int64}
    {s t : State Shared Local} (hs : Indices cfg c0 s) (hg : t.goroutines = s.goroutines)
    (hiter : t.pc.dispatching = true →
      t.currentIter = c0 + Int64.ofNat s.goroutines.length)
    (hlast : t.pc.spawned = true →
      t.currentIter + 1 = c0 + Int64.ofNat s.goroutines.length)
    (hmore : ∀ n, atoi cfg.iterationCount = some n → t.pc.entered = true → t.currentIter < n)
    (hquiet : t.pc.deferred = false → t.retErr = none)
    (hfull : t.pc.deferred = true → t.retErr = none → ∀ n, atoi cfg.iterationCount = some n →
      s.goroutines.length = (n.toInt - c0.toInt).toNat) : Indices cfg c0 t := by
  rw [← hg] at hiter hlast hfull
  exact ⟨by rw [hg]; exact hs.index, hiter, hlast, by rw [hg]; exact hs.bound, hmore,
    hquiet, hfull⟩

/-- The condition of the `for` compares `c0` plus the goroutines started. -/
theorem Indices.toInt_currentIter {cfg : Config Shared Local Choice} {c0 n : Int64}
    {s : State Shared Local} (hs : Indices cfg c0 s) (hpc : s.pc.dispatching = true)
    (hn : atoi cfg.iterationCount = some n) :
    s.currentIter.toInt = c0.toInt + s.goroutines.length := by
  have hb := hs.bound n hn
  have hhi := n.toInt_lt
  have hlo := c0.toInt_lt
  rw [hs.iter hpc]
  exact toInt_add_ofNat (by omega)

theorem indices_loopStep {cfg : Config Shared Local Choice} {c0 : Int64}
    {s t : State Shared Local} (hs : Indices cfg c0 s) (h : LoopStep cfg s t) :
    Indices cfg c0 t := by
  cases h with
  | countMore n hpc hn hlt =>
      refine hs.keep rfl (fun _ => hs.iter (by rw [hpc]; rfl)) nofun ?_
        (fun _ => hs.quiet (by rw [hpc]; rfl)) nofun
      intro m hm _
      obtain rfl : n = m := Option.some.inj (hn.symm.trans hm)
      exact hlt
  | countEnd n hpc hn hge =>
      -- the loop ends without an error only when the whole count is started
      refine hs.keep rfl nofun nofun nofun nofun ?_
      intro _ _ m hm
      obtain rfl : n = m := Option.some.inj (hn.symm.trans hm)
      have hcur := hs.toInt_currentIter (by rw [hpc]; rfl) hn
      have hb := hs.bound n hn
      rw [Int64.lt_iff_toInt_lt, hcur] at hge
      omega
  | timeMore hpc hn =>
      -- a duration bounds no index
      exact hs.keep rfl (fun _ => hs.iter (by rw [hpc]; rfl)) nofun
        (fun m hm => by cases hn.symm.trans hm) (fun _ => hs.quiet (by rw [hpc]; rfl))
        nofun
  | timeEnd hpc hn =>
      exact hs.keep rfl nofun nofun nofun nofun (fun _ _ m hm => by cases hn.symm.trans hm)
  | unparsed err hpc hn =>
      exact hs.keep rfl nofun nofun nofun nofun nofun
  | acquire hpc hlt =>
      exact hs.keep rfl (fun _ => hs.iter (by rw [hpc]; rfl)) nofun
        (fun m hm _ => hs.more m hm (by rw [hpc]; rfl))
        (fun _ => hs.quiet (by rw [hpc]; rfl)) nofun
  | add hpc =>
      exact hs.keep rfl (fun _ => hs.iter (by rw [hpc]; rfl)) nofun
        (fun m hm _ => hs.more m hm (by rw [hpc]; rfl))
        (fun _ => hs.quiet (by rw [hpc]; rfl)) nofun
  | spawn hpc =>
      have hiter := hs.iter (by rw [hpc]; rfl)
      refine ⟨?_, nofun, ?_, ?_, nofun,
        fun _ => hs.quiet (by rw [hpc]; rfl), nofun⟩
      · simp [List.range_succ, hs.index, hiter]
      · -- `currentIter` is now the index of the goroutine just started
        intro _
        simp only [List.length_append, List.length_singleton, hiter, Int64.ofNat_add,
          Int64.add_assoc]
        rfl
      · intro n hn
        have hcur := hs.toInt_currentIter (by rw [hpc]; rfl) hn
        have hlt := hs.more n hn (by rw [hpc]; rfl)
        rw [Int64.lt_iff_toInt_lt, hcur] at hlt
        simp only [List.length_append, List.length_singleton]
        omega
  | wait hpc =>
      exact hs.keep rfl nofun (fun _ => hs.last (by rw [hpc]; rfl))
        nofun (fun _ => hs.quiet (by rw [hpc]; rfl)) nofun
  | next rest hpc he =>
      exact hs.keep rfl (fun _ => hs.last (by rw [hpc]; rfl)) nofun
        nofun (fun _ => hs.quiet (by rw [hpc]; rfl)) nofun
  | breakLoop err rest hpc he hig | drainError err rest hpc he hig =>
      exact hs.keep rfl nofun nofun nofun nofun nofun
  | waited hpc | drainIgnored err rest hpc | drained hpc | closeThrottle hpc
  | closeErrChan hpc =>
      exact hs.keep rfl nofun nofun nofun nofun (fun _ => hs.full (by rw [hpc]; rfl))

theorem indices_step {cfg : Config Shared Local Choice} {c0 : Int64} (s : State Shared Local)
    (l : Label Choice) (t : State Shared Local) (hs : Indices cfg c0 s) (_ : True)
    (h : (iterateFunc cfg).step s l = some t) : Indices cfg c0 t := by
  rcases iterateStep_inv h with hloop | ⟨j, g, hj, hgo⟩
  · exact indices_loopStep hs hloop
  · exact indices_goStep hs hj hgo

/-! ## Calls, outcomes and counters -/

/-- The ghost logs and the counters agree with the goroutines: a call is logged
    when it starts, its outcome when it returns, and the outcome is in a
    counter once the goroutine is past `count`. -/
structure Counts (s : State Shared Local) : Prop where
  calls : ∀ i, s.calls.count i = s.goroutines.countP fun g => g.pc.started && g.index == i
  returns : ∀ i, (s.returns.map (·.1)).count i
    = s.goroutines.countP fun g => g.pc.hasReturned && g.index == i
  success : UInt64.ofNat (s.returns.countP (·.2.isNone))
    = s.successCount + UInt64.ofNat (s.goroutines.countP (·.pc.uncountedSuccess))
  fail : UInt64.ofNat (s.returns.countP (·.2.isSome))
    = s.failCount + UInt64.ofNat (s.goroutines.countP (·.pc.uncountedFail))

theorem counts_initial (shared : Shared) (c0 : Int64) :
    Counts (State.initial shared c0 : State Shared Local) :=
  ⟨fun _ => rfl, fun _ => rfl, rfl, rfl⟩

/-- The caller touches no counter and starts goroutines that have not called
    `iterFunc` yet. -/
theorem counts_loopStep {cfg : Config Shared Local Choice} {s t : State Shared Local}
    (hs : Counts s) (h : LoopStep cfg s t) : Counts t := by
  obtain ⟨hcalls, hreturns, hsuccess, hfail⟩ := hs
  cases h
  case spawn hpc =>
      refine ⟨?_, ?_, ?_, ?_⟩
      · intro i
        simp [hcalls i, Pc.started]
      · intro i
        simp [hreturns i, Pc.hasReturned]
      · simp [hsuccess, Pc.uncountedSuccess]
      · simp [hfail, Pc.uncountedFail]
  all_goals exact ⟨hcalls, hreturns, hsuccess, hfail⟩

/-- A counter stays in step with its log when log, counter and the outcomes
    still to be counted move by as much as each other. -/
theorem counter_move {logged logged' owed owed' before after : Nat} {counter counter' : UInt64}
    (hold : UInt64.ofNat logged = counter + UInt64.ofNat owed)
    (hset : owed' + before = owed + after)
    (hnew : UInt64.ofNat (logged' + before) + counter
      = UInt64.ofNat (logged + after) + counter') :
    UInt64.ofNat logged' = counter' + UInt64.ofNat owed' := by
  have hset' := congrArg UInt64.ofNat hset
  simp only [UInt64.ofNat_add] at hset' hnew
  grind

/-- A step of a goroutine that moves each log and counter by as much as its
    place in the program asks for. -/
theorem Counts.move {s t : State Shared Local} {j : Nat} {g : Goroutine Local}
    {pc : Pc Local} (hs : Counts s) (hj : s.goroutines[j]? = some g)
    (hg : t.goroutines = s.goroutines.set j { g with pc := pc })
    (hcalls : ∀ i, t.calls.count i + (g.pc.started && g.index == i).toNat
      = s.calls.count i + (pc.started && g.index == i).toNat)
    (hreturns : ∀ i, (t.returns.map (·.1)).count i + (g.pc.hasReturned && g.index == i).toNat
      = (s.returns.map (·.1)).count i + (pc.hasReturned && g.index == i).toNat)
    (hsuccess :
      UInt64.ofNat (t.returns.countP (·.2.isNone) + g.pc.uncountedSuccess.toNat) + s.successCount
      = UInt64.ofNat (s.returns.countP (·.2.isNone) + pc.uncountedSuccess.toNat)
        + t.successCount)
    (hfail :
      UInt64.ofNat (t.returns.countP (·.2.isSome) + g.pc.uncountedFail.toNat) + s.failCount
      = UInt64.ofNat (s.returns.countP (·.2.isSome) + pc.uncountedFail.toNat) + t.failCount) :
    Counts t := by
  -- the goroutine that moves leaves one place and takes another
  have hadd := fun p : Goroutine Local → Bool =>
    countP_set_add (p := p) (b := { g with pc := pc }) hj
  constructor
  · intro i
    have hold := hs.calls i
    have hset := hadd fun g => g.pc.started && g.index == i
    have hnew := hcalls i
    rw [hg]
    simp only at hset
    omega
  · intro i
    have hold := hs.returns i
    have hset := hadd fun g => g.pc.hasReturned && g.index == i
    have hnew := hreturns i
    rw [hg]
    simp only at hset
    omega
  · rw [hg]
    exact counter_move hs.success (hadd (·.pc.uncountedSuccess)) hsuccess
  · rw [hg]
    exact counter_move hs.fail (hadd (·.pc.uncountedFail)) hfail

/-- A goroutine step that is neither the call, nor its return, nor a counter
    update. -/
theorem Counts.keep {s t : State Shared Local} {j : Nat} {g : Goroutine Local}
    {pc : Pc Local} (hs : Counts s) (hj : s.goroutines[j]? = some g)
    (hst : pc.started = g.pc.started) (hret : pc.hasReturned = g.pc.hasReturned)
    (hus : pc.uncountedSuccess = g.pc.uncountedSuccess)
    (huf : pc.uncountedFail = g.pc.uncountedFail)
    (hg : t.goroutines = s.goroutines.set j { g with pc := pc })
    (hcalls : t.calls = s.calls) (hreturns : t.returns = s.returns)
    (hsuccess : t.successCount = s.successCount) (hfail : t.failCount = s.failCount) :
    Counts t := by
  refine hs.move hj hg (fun i => ?_) (fun i => ?_) ?_ ?_
  · rw [hcalls, hst]
  · rw [hreturns, hret]
  · rw [hreturns, hsuccess, hus]
  · rw [hreturns, hfail, huf]

theorem count_snoc (l : List Int64) (a i : Int64) :
    (l ++ [a]).count i = l.count i + (a == i).toNat :=
  countP_snoc (· == i) l a

theorem counts_goStep {cfg : Config Shared Local Choice} {s t : State Shared Local} {j : Nat}
    {g : Goroutine Local} (hs : Counts s) (hj : s.goroutines[j]? = some g)
    (h : GoStep cfg s j g t) : Counts t := by
  cases h with
  | start hpc =>
      refine hs.move hj rfl (fun i => ?_) (fun i => ?_) ?_ ?_
      · rw [hpc, count_snoc]
        rfl
      · rw [hpc]
        rfl
      · rw [hpc]
        rfl
      · rw [hpc]
        rfl
  | body l l' choice shared hpc hst =>
      exact hs.keep hj (by rw [hpc]; rfl) (by rw [hpc]; rfl) (by rw [hpc]; rfl)
        (by rw [hpc]; rfl) rfl rfl rfl rfl rfl
  | returns l choice shared err hpc hst =>
      -- the outcome is logged, and its counter is one behind from now on
      have hsuccess : (Pc.count err : Pc Local).uncountedSuccess = err.isNone := by
        cases err <;> rfl
      have hfail : (Pc.count err : Pc Local).uncountedFail = err.isSome := by cases err <;> rfl
      refine hs.move hj rfl (fun i => ?_) (fun i => ?_) ?_ ?_
      · rw [hpc]
        rfl
      · rw [hpc, List.map_append, List.map_singleton, count_snoc]
        rfl
      · rw [hpc, countP_snoc, hsuccess]
        rfl
      · rw [hpc, countP_snoc, hfail]
        rfl
  | success hpc =>
      -- the counter catches up with the log
      refine hs.move hj rfl (fun i => ?_) (fun i => ?_) ?_ ?_
      · rw [hpc]
        rfl
      · rw [hpc]
        rfl
      · rw [hpc]
        show UInt64.ofNat (_ + 1) + s.successCount = _ + (s.successCount + 1)
        rw [UInt64.ofNat_add, UInt64.add_assoc, UInt64.add_comm s.successCount]
        rfl
      · rw [hpc]
        rfl
  | fail err pc hpc hif =>
      have hnext : pc.started = true ∧ pc.hasReturned = true ∧ pc.uncountedSuccess = false
          ∧ pc.uncountedFail = false := by
        rw [hif]; split <;> exact ⟨rfl, rfl, rfl, rfl⟩
      obtain ⟨hst, hret, hus, huf⟩ := hnext
      refine hs.move hj rfl (fun i => ?_) (fun i => ?_) ?_ ?_
      · rw [hpc, hst]
        rfl
      · rw [hpc, hret]
        rfl
      · rw [hpc, hus]
        rfl
      · rw [hpc, huf]
        show UInt64.ofNat (_ + 1) + s.failCount = _ + (s.failCount + 1)
        rw [UInt64.ofNat_add, UInt64.add_assoc, UInt64.add_comm s.failCount]
        rfl
  | send err errChan hpc hif =>
      exact hs.keep hj (by rw [hpc]; rfl) (by rw [hpc]; rfl) (by rw [hpc]; rfl)
        (by rw [hpc]; rfl) rfl rfl rfl rfl rfl
  | done err hpc =>
      exact hs.keep hj (by rw [hpc]; rfl) (by rw [hpc]; rfl) (by rw [hpc]; rfl)
        (by rw [hpc]; rfl) rfl rfl rfl rfl rfl
  | release err hpc hpos =>
      exact hs.keep hj (by rw [hpc]; rfl) (by rw [hpc]; rfl) (by rw [hpc]; rfl)
        (by rw [hpc]; rfl) rfl rfl rfl rfl rfl
  | releaseClosed err hpc hzero hclosed =>
      exact hs.keep hj (by rw [hpc]; rfl) (by rw [hpc]; rfl) (by rw [hpc]; rfl)
        (by rw [hpc]; rfl) rfl rfl rfl rfl rfl

theorem counts_step {cfg : Config Shared Local Choice} (s : State Shared Local)
    (l : Label Choice) (t : State Shared Local) (hs : Counts s) (_ : True)
    (h : (iterateFunc cfg).step s l = some t) : Counts t := by
  rcases iterateStep_inv h with hloop | ⟨j, g, hj, hgo⟩
  · exact counts_loopStep hs hloop
  · exact counts_goStep hs hj hgo

/-! ## Exactly once -/

/-- Once `IterateFunc` has returned, every goroutine has signalled. -/
theorem not_working_of_returned {cfg : Config Shared Local Choice} {s : State Shared Local}
    (hs : Threads cfg s) (hret : s.pc = .returned) :
    ∀ g ∈ s.goroutines, g.pc.working = false := by
  intro g hg
  have hwg := hs.wg
  rw [hs.settled (by rw [hret]; rfl)] at hwg
  have hzero : s.goroutines.countP (·.pc.working) = 0 := by omega
  exact Bool.eq_false_iff.mpr (List.countP_eq_zero.mp hzero g hg)

/-- Distinct positions get distinct indices, up to the width of an `int`. -/
theorem nodup_indices (c0 : Int64) {k : Nat} (hk : k ≤ 2 ^ 64) :
    ((List.range k).map fun i => c0 + Int64.ofNat i).Nodup := by
  refine List.Nodup.map_on ?_ List.nodup_range
  intro i hi j hj hij
  have hofNat : Int64.ofNat i = Int64.ofNat j := Int64.add_right_inj c0 |>.mp hij
  have hmod : i % 2 ^ 64 = j % 2 ^ 64 := congrArg (fun x => x.toBitVec.toNat) hofNat
  have hi64 := Nat.lt_of_lt_of_le (List.mem_range.mp hi) hk
  have hj64 := Nat.lt_of_lt_of_le (List.mem_range.mp hj) hk
  rwa [Nat.mod_eq_of_lt hi64, Nat.mod_eq_of_lt hj64] at hmod

theorem count_index_eq_countP (s : State Shared Local) (i : Int64) :
    (s.goroutines.map (·.index)).count i = s.goroutines.countP fun g => g.index == i := by
  rw [List.count_eq_countP, List.countP_map]
  rfl

/-- Once `IterateFunc` has returned, the log of outcomes has one entry for each
    goroutine. -/
theorem returns_perm {cfg : Config Shared Local Choice} {s : State Shared Local}
    (hth : Threads cfg s) (hcnt : Counts s) (hret : s.pc = .returned) :
    (s.returns.map (·.1)).Perm (s.goroutines.map (·.index)) := by
  apply List.perm_iff_count.mpr
  intro i
  rw [hcnt.returns i, count_index_eq_countP]
  refine List.countP_congr fun g hg => ?_
  simp [(Pc.settled_of_not_working (not_working_of_returned hth hret g hg)).1]

/-- Once `IterateFunc` has returned, the log of calls has one entry for each
    goroutine. -/
theorem calls_perm {cfg : Config Shared Local Choice} {s : State Shared Local}
    (hth : Threads cfg s) (hcnt : Counts s) (hret : s.pc = .returned) :
    s.calls.Perm (s.goroutines.map (·.index)) := by
  apply List.perm_iff_count.mpr
  intro i
  rw [hcnt.calls i, count_index_eq_countP]
  refine List.countP_congr fun g hg => ?_
  have hsettled := Pc.settled_of_not_working (not_working_of_returned hth hret g hg)
  simp [Pc.started_of_hasReturned hsettled.1]

/-- **`IterateFunc` runs each iteration exactly once and counts it exactly
    once.**  When it returns, the indices passed to `iterFunc` are
    `c0, c0 + 1, ..` (in Go's `int` arithmetic), one call each; every call has
    returned, and the two counters split the calls into those that returned
    nil and those that returned an error (in `uint64` arithmetic, and as
    numbers up to its width, which an integer count never reaches).  With an
    integer count, a nil result means that the whole count was run. -/
theorem iterateFunc_exactly_once (cfg : Config Shared Local Choice) (shared : Shared)
    (c0 : Int64) (ls : List (Label Choice)) (s : State Shared Local)
    (hrun : (iterateFunc cfg).exec (State.initial shared c0) ls = some s)
    (hret : s.pc = .returned) :
    ∃ k : Nat,
      s.calls.Perm ((List.range k).map fun i => c0 + Int64.ofNat i) ∧
      (k ≤ 2 ^ 64 → s.calls.Nodup) ∧
      (s.returns.map (·.1)).Perm s.calls ∧
      s.successCount = UInt64.ofNat (s.returns.countP (·.2.isNone)) ∧
      s.failCount = UInt64.ofNat (s.returns.countP (·.2.isSome)) ∧
      s.returns.countP (·.2.isNone) + s.returns.countP (·.2.isSome) = k ∧
      s.successCount + s.failCount = UInt64.ofNat k ∧
      (k < 2 ^ 64 → s.successCount.toNat = s.returns.countP (·.2.isNone) ∧
        s.failCount.toNat = s.returns.countP (·.2.isSome)) ∧
      (∀ n, atoi cfg.iterationCount = some n → k < 2 ^ 64) ∧
      (∀ n, atoi cfg.iterationCount = some n → s.retErr = none →
        k = (n.toInt - c0.toInt).toNat) := by
  have run := Lts.Run.of_exec hrun
  have hth := run.preserves threads_step (threads_initial cfg shared c0)
  have hidx := run.preserves indices_step (indices_initial cfg shared c0)
  have hcnt := run.preserves (fun s l t => counts_step s l t) (counts_initial shared c0)
  -- every goroutine has called `iterFunc`, returned from it and counted the outcome
  have hall := fun g hg => Pc.settled_of_not_working (not_working_of_returned hth hret g hg)
  have hreturns := returns_perm hth hcnt hret
  have hcalls := calls_perm hth hcnt hret
  have hsuccess : s.successCount = UInt64.ofNat (s.returns.countP (·.2.isNone)) := by
    rw [hcnt.success, List.countP_eq_zero.mpr fun g hg => by simp [(hall g hg).2.1]]
    exact (UInt64.add_zero _).symm
  have hfail : s.failCount = UInt64.ofNat (s.returns.countP (·.2.isSome)) := by
    rw [hcnt.fail, List.countP_eq_zero.mpr fun g hg => by simp [(hall g hg).2.2]]
    exact (UInt64.add_zero _).symm
  have hsum : s.returns.countP (·.2.isNone) + s.returns.countP (·.2.isSome)
      = s.goroutines.length := by
    have hlen := hreturns.length_eq
    simp only [List.length_map] at hlen
    rw [← hlen, List.length_eq_countP_add_countP (fun r => r.2.isNone)]
    exact congrArg _ (List.countP_congr fun r _ => by cases h : r.2 <;> simp)
  refine ⟨s.goroutines.length, hidx.index ▸ hcalls, ?_, hreturns.trans hcalls.symm, hsuccess,
    hfail, hsum, ?_, ?_, ?_, ?_⟩
  · intro hk
    rw [hcalls.nodup_iff, hidx.index]
    exact nodup_indices c0 hk
  · rw [hsuccess, hfail, ← UInt64.ofNat_add, hsum]
  · intro hk
    have hsize : UInt64.size = 2 ^ 64 := rfl
    rw [hsuccess, hfail, UInt64.toNat_ofNat_of_lt' (by omega),
      UInt64.toNat_ofNat_of_lt' (by omega)]
    exact ⟨rfl, rfl⟩
  · -- the indices from `c0` up to an `int` are fewer than `2 ^ 64`
    intro n hn
    have hbound := hidx.bound n hn
    have hhi := n.toInt_lt
    have hlo := c0.le_toInt
    omega
  · intro n hn herr
    exact hidx.full (by rw [hret]; rfl) herr n hn

/-- An `iterFunc` whose outcome is chosen by the environment. -/
def anyOutcome : IterFunc Unit Unit GoError where
  entry _ := ()
  step _ _ err := some ((), .inr err)

/-- Two iterations from index 5 under a limit of two: the second call starts
    and fails with an ignored error before the first one returns. -/
def twoIterations : Config Unit Unit GoError where
  iterFunc := anyOutcome
  sequential := false
  routineLimit := 2
  ignoreErrors := "false"
  iterationCount := "7"
  parseDuration _ := none

/-- A run of two iterations, the second of which fails. -/
def twoIterationsRun : List (Label GoError) :=
  List.replicate 12 (.loop false) ++ [.go 1 none, .go 1 (some "MVCC_READ_CONFLICT"), .go 0 none,
    .go 0 none, .go 1 none, .go 0 none, .go 1 none, .go 0 none, .loop false, .loop false,
    .go 0 none, .loop false, .loop false, .loop false]

theorem iterateFunc_exactly_once_two :
    ∃ s, (iterateFunc twoIterations).exec (State.initial () 5) twoIterationsRun = some s ∧
      s.calls.Perm [5, 6] ∧ s.successCount = 1 ∧ s.failCount = 1 ∧ s.retErr = none := by
  refine ⟨((iterateFunc twoIterations).exec (State.initial () 5) twoIterationsRun).get (by decide),
    (Option.some_get _).symm, ?_, by decide, by decide, by decide⟩
  obtain ⟨k, hperm, -, -, -, -, -, -, -, -, hfull⟩ :=
    iterateFunc_exactly_once twoIterations () 5 twoIterationsRun _
      (Option.some_get (by decide)).symm (by decide)
  have hk : k = 2 := hfull 7 (by decide) (by decide)
  subst hk
  exact hperm

end Hfrd.GoSdk
