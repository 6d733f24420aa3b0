/-
  Hfrd.Metrics.PromPush

  The end of the metrics of `invokeChaincode`: the invoke threads with their
  `NewBase` and `PrintMetrics` (modules/gosdk/common/base.go) and the pushers
  that they start (`WithConfig` and `StopPush` of prompush.go).

  `NewBase` starts one pusher for each target that resolves and hands the stop
  channel of its `Base` to all of them.  A pusher that finds the process-wide
  `stopFlag` set deletes the metrics from the gateway and closes its channel;
  the flag is set by the first thread that prints.

  So two targets close one channel twice, and with two threads the metrics are
  deleted while the other thread is still invoking.  One target with one
  thread, or no target at all, is safe (`shutdown_safe_iff`).

  The goroutine with which each thread waits for SIGINT (it calls
  `PrintMetrics`, which stops the push while the iterations still run, and ends
  the process) is left out: the runs are those without an interrupt.
-/

import Hfrd.Lib.Lts

namespace Hfrd.Metrics

open Hfrd.Lib

/-- The value of a target URL: empty, refused by `net.ResolveTCPAddr`, or
    accepted. -/
inductive Target
  | unset | unresolvable | resolvable
deriving DecidableEq

/-- What the flags and the environment say about threads and targets. -/
structure PushConfig where
  /-- The flag `threads`. -/
  threads : Int
  /-- The `PROMETHEUS_TARGET_URL` of the invoke threads. -/
  prometheus : Target
  /-- It is given by the flag `prometheusTargetUrl`, which each thread sets. -/
  byFlag : Bool
  /-- `METRICS_TARGET_URL` -/
  metrics : Target

namespace PushConfig

/-- "default to 1 go routine" -/
def threadCount (cfg : PushConfig) : Nat := if cfg.threads < 1 then 1 else cfg.threads.toNat

/-- How many pushers a `Base` gets. -/
def targets (cfg : PushConfig) : Nat := [cfg.prometheus, cfg.metrics].count .resolvable

end PushConfig

/-- Where an invoke thread is. -/
inductive ThreadPc
  | start
  /-- In `NewBase`, before the two URLs are read. -/
  | newBase
  | prometheusTarget (prometheus metrics : Target)
  | metricsTarget (metrics : Target)
  | iterating
  /-- `IterateFunc` has returned. -/
  | printing
  | stopPush
  /-- At the `select` on its channel and the timeout. -/
  | waiting
  | finished
deriving DecidableEq

/-- Where a pusher is in the loop of `WithConfig`. -/
inductive PushPc
  | ticking
  /-- Before `atomic.LoadInt32(&stopFlag)`. -/
  | loading
  /-- Before the DELETE. -/
  | deleting
  /-- Before `close(c.metricsStopChan)`. -/
  | closing
  | broken
deriving DecidableEq

/-- A goroutine of `PromPush`. -/
structure Pusher where
  /-- The thread whose `Base` has started it. -/
  base : Nat
  pc : PushPc
deriving DecidableEq

/-- The process: its targets, its threads and the goroutines they started. -/
structure Process where
  prometheusUrl : Target
  metricsUrl : Target
  stopFlag : Bool
  threads : List ThreadPc
  pushers : List Pusher
  /-- The threads whose `metricsStopChan` is closed. -/
  closed : List Nat
deriving DecidableEq

/-- Thread `i`, or pusher `j`, takes a step. -/
inductive PushLabel
  | thread (i : Nat)
  | pusher (j : Nat)

namespace Process

/-- A thread at another place of its code. -/
def moveThread (s : Process) (i : Nat) (pc : ThreadPc) : Process :=
  { s with threads := s.threads.set i pc }

/-- A goroutine of `PromPush` at another place of its code. -/
def movePusher (s : Process) (j : Nat) (p : Pusher) (pc : PushPc) : Process :=
  { s with pushers := s.pushers.set j { p with pc := pc } }

/-- `go PromPush(..)` -/
def promPush (s : Process) (i : Nat) : Process :=
  { s with pushers := s.pushers ++ [⟨i, .ticking⟩] }

end Process

/-- One step of thread `i`, which is at `pc`. -/
def threadStep (cfg : PushConfig) (s : Process) (i : Nat) (pc : ThreadPc) : Option Process :=
  match pc with
  | .start =>
      some { s.moveThread i .newBase with
        prometheusUrl := if cfg.byFlag then cfg.prometheus else s.prometheusUrl }
  | .newBase => some (s.moveThread i (.prometheusTarget s.prometheusUrl s.metricsUrl))
  | .prometheusTarget prometheus metrics =>
      match prometheus with
      | .unset => some (s.moveThread i (.metricsTarget metrics))
      | .unresolvable =>
          some { s.moveThread i (.metricsTarget metrics) with prometheusUrl := .unset }
      | .resolvable => some ((s.moveThread i (.metricsTarget metrics)).promPush i)
  | .metricsTarget metrics =>
      match metrics with
      | .unset => some (s.moveThread i .iterating)
      | .unresolvable => some { s.moveThread i .iterating with metricsUrl := .unset }
      | .resolvable => some ((s.moveThread i .iterating).promPush i)
  | .iterating => some (s.moveThread i .printing)
  | .printing =>
      if s.metricsUrl ≠ .unset ∨ s.prometheusUrl ≠ .unset then some (s.moveThread i .stopPush)
      else some (s.moveThread i .finished)
  | .stopPush => some { s.moveThread i .waiting with stopFlag := true }
  -- the channel is closed, or the timeout has passed
  | .waiting => some (s.moveThread i .finished)
  | .finished => none

/-- One step of pusher `j`, which is `p`. -/
def pusherStep (s : Process) (j : Nat) (p : Pusher) : Option Process :=
  match p.pc with
  | .ticking => some (s.movePusher j p .loading)
  | .loading => some (s.movePusher j p (if s.stopFlag then .deleting else .ticking))
  | .deleting => some (s.movePusher j p .closing)
  | .closing => some { s.movePusher j p .broken with closed := p.base :: s.closed }
  | .broken => none

/-- A step of a thread or of a goroutine; none where it cannot happen. -/
def pushStep (cfg : PushConfig) (s : Process) : PushLabel → Option Process
  | .thread i => s.threads[i]?.bind (threadStep cfg s i)
  | .pusher j => s.pushers[j]?.bind (pusherStep s j)

/-- The process, step after step. -/
def pushSystem (cfg : PushConfig) : Lts Process PushLabel where
  step := pushStep cfg

/-- The threads are about to start; what the flag sets is set already, as no
    thread reads the URL before it has set it. -/
def Process.initial (cfg : PushConfig) : Process where
  prometheusUrl := cfg.prometheus
  metricsUrl := cfg.metrics
  stopFlag := false
  threads := List.replicate cfg.threadCount .start
  pushers := []
  closed := []

/-! ## Safety -/

/-- `IterateFunc` has returned in the thread. -/
def ThreadPc.iterated : ThreadPc → Bool
  | .printing | .stopPush | .waiting | .finished => true
  | _ => false

/-- No DELETE before every `IterateFunc` has returned, and no second close of a
    channel. -/
def safeStep (s : Process) : PushLabel → Prop
  | .thread _ => True
  | .pusher j => ∀ p, s.pushers[j]? = some p →
      (p.pc = .deleting → ∀ pc ∈ s.threads, pc.iterated = true) ∧
      (p.pc = .closing → p.base ∉ s.closed)

/-- Every interleaving is safe. -/
def ShutdownSafe (cfg : PushConfig) : Prop :=
  ∀ ls, (pushSystem cfg).Along (fun s l _ => safeStep s l) (.initial cfg) ls

/-! ## What a step can do -/

/-- The pushers that a thread may still start. -/
def ThreadPc.owed (cfg : PushConfig) : ThreadPc → Int
  | .start | .newBase => cfg.targets
  | .prometheusTarget prometheus metrics => [prometheus, metrics].count .resolvable
  | .metricsTarget metrics => [metrics].count .resolvable
  | _ => 0

/-- The pusher has found the flag set. -/
def PushPc.asked : PushPc → Bool
  | .deleting | .closing | .broken => true
  | .ticking | .loading => false

/-- The URLs are those of the configuration, or emptied. -/
structure Urls (cfg : PushConfig) (prometheusUrl metricsUrl : Target) : Prop where
  prometheus : prometheusUrl = cfg.prometheus ∨ prometheusUrl = .unset
  metrics : metricsUrl = cfg.metrics ∨ metricsUrl = .unset

/-- What a step of thread `i` from `pc` to `pc'` leaves behind. -/
structure ThreadStep (cfg : PushConfig) (s : Process) (i : Nat) (pc pc' : ThreadPc)
    (t : Process) : Prop where
  threads : t.threads = s.threads.set i pc'
  pushers : t.pushers = s.pushers ∧ pc'.owed cfg ≤ pc.owed cfg ∨
    t.pushers = s.pushers ++ [⟨i, .ticking⟩] ∧ pc'.owed cfg + 1 ≤ pc.owed cfg
  urls : Urls cfg t.prometheusUrl t.metricsUrl
  closed : t.closed = s.closed
  iterated : pc.iterated = true → pc'.iterated = true
  stopFlag : t.stopFlag = s.stopFlag ∨ t.stopFlag = true ∧ pc'.iterated = true

/-- Emptying a URL does not make it resolvable. -/
theorem count_emptied {url given : Target} (h : url = given ∨ url = .unset) :
    [url].count .resolvable ≤ [given].count .resolvable := by
  rcases h with rfl | rfl
  · exact Nat.le_refl _
  · exact Nat.zero_le _

theorem owed_newBase {cfg : PushConfig} {s : Process}
    (h : Urls cfg s.prometheusUrl s.metricsUrl) :
    (ThreadPc.prometheusTarget s.prometheusUrl s.metricsUrl).owed cfg ≤ cfg.targets := by
  have hp := count_emptied h.prometheus
  have hm := count_emptied h.metrics
  have hsplit : ∀ a b : Target, [a, b].count .resolvable
      = [a].count .resolvable + [b].count .resolvable := by
    intro a b
    show ([a] ++ [b]).count .resolvable = _
    exact List.count_append
  simp only [ThreadPc.owed, PushConfig.targets, hsplit]
  omega

theorem threadStep_spec {cfg : PushConfig} {s t : Process} {i : Nat} {pc : ThreadPc}
    (hurls : Urls cfg s.prometheusUrl s.metricsUrl) (h : threadStep cfg s i pc = some t) :
    ∃ pc', ThreadStep cfg s i pc pc' t := by
  cases pc with
  | start =>
      obtain rfl := Option.some.inj h
      refine ⟨.newBase, rfl, .inl ⟨rfl, Int.le_refl _⟩, ⟨?_, hurls.metrics⟩, rfl, nofun, .inl rfl⟩
      -- the flag, where it is given, takes the place of the environment
      show (if cfg.byFlag then cfg.prometheus else s.prometheusUrl) = _ ∨ _
      split
      · exact .inl rfl
      · exact hurls.prometheus
  | newBase =>
      obtain rfl := Option.some.inj h
      exact ⟨_, rfl, .inl ⟨rfl, owed_newBase hurls⟩, hurls, rfl, nofun, .inl rfl⟩
  -- a pusher is started only for a target that resolves
  | prometheusTarget prometheus metrics =>
      cases prometheus with
      | unset =>
          obtain rfl := Option.some.inj h
          exact ⟨_, rfl, .inl ⟨rfl, Int.le_refl _⟩, hurls, rfl, nofun, .inl rfl⟩
      | unresolvable =>
          obtain rfl := Option.some.inj h
          exact ⟨_, rfl, .inl ⟨rfl, Int.le_refl _⟩, ⟨.inr rfl, hurls.metrics⟩, rfl, nofun,
            .inl rfl⟩
      | resolvable =>
          obtain rfl := Option.some.inj h
          refine ⟨_, rfl, .inr ⟨rfl, ?_⟩, hurls, rfl, nofun, .inl rfl⟩
          simp [ThreadPc.owed, List.count_cons]
  | metricsTarget metrics =>
      cases metrics with
      | unset =>
          obtain rfl := Option.some.inj h
          exact ⟨_, rfl, .inl ⟨rfl, Int.le_refl _⟩, hurls, rfl, nofun, .inl rfl⟩
      | unresolvable =>
          obtain rfl := Option.some.inj h
          exact ⟨_, rfl, .inl ⟨rfl, Int.le_refl _⟩, ⟨hurls.prometheus, .inr rfl⟩, rfl, nofun,
            .inl rfl⟩
      | resolvable =>
          obtain rfl := Option.some.inj h
          exact ⟨_, rfl, .inr ⟨rfl, Int.le_refl _⟩, hurls, rfl, nofun, .inl rfl⟩
  | iterating =>
      obtain rfl := Option.some.inj h
      exact ⟨.printing, rfl, .inl ⟨rfl, Int.le_refl _⟩, hurls, rfl, fun _ => rfl, .inl rfl⟩
  | printing =>
      simp only [threadStep] at h
      split at h <;> obtain rfl := Option.some.inj h
      · exact ⟨.stopPush, rfl, .inl ⟨rfl, Int.le_refl _⟩, hurls, rfl, fun _ => rfl, .inl rfl⟩
      · exact ⟨.finished, rfl, .inl ⟨rfl, Int.le_refl _⟩, hurls, rfl, fun _ => rfl, .inl rfl⟩
  -- the one step that closes the channel
  | stopPush =>
      obtain rfl := Option.some.inj h
      exact ⟨.waiting, rfl, .inl ⟨rfl, Int.le_refl _⟩, hurls, rfl, fun _ => rfl,
        .inr ⟨rfl, rfl⟩⟩
  | waiting =>
      obtain rfl := Option.some.inj h
      exact ⟨.finished, rfl, .inl ⟨rfl, Int.le_refl _⟩, hurls, rfl, fun _ => rfl, .inl rfl⟩
  | finished => cases h

/-- What a step of pusher `j`, which is `p`, leaves behind. -/
structure PusherStep (s : Process) (j : Nat) (p p' : Pusher) (t : Process) : Prop where
  pushers : t.pushers = s.pushers.set j p'
  threads : t.threads = s.threads
  urls : t.prometheusUrl = s.prometheusUrl ∧ t.metricsUrl = s.metricsUrl
  stopFlag : t.stopFlag = s.stopFlag
  asked : p'.pc.asked = true → p.pc.asked = true ∨ s.stopFlag = true
  broken : p.pc ≠ .broken
  closed : t.closed = s.closed ∨ p'.pc = .broken

theorem pusherStep_spec {s t : Process} {j : Nat} {p : Pusher} (h : pusherStep s j p = some t) :
    ∃ p', PusherStep s j p p' t := by
  simp only [pusherStep] at h
  split at h
  case h_1 hpc =>
      obtain rfl := Option.some.inj h
      exact ⟨_, rfl, rfl, ⟨rfl, rfl⟩, rfl, nofun, by rw [hpc]; nofun, .inl rfl⟩
  case h_2 hpc =>
      obtain rfl := Option.some.inj h
      refine ⟨_, rfl, rfl, ⟨rfl, rfl⟩, rfl, fun hasked => .inr ?_, by rw [hpc]; nofun, .inl rfl⟩
      cases hflag : s.stopFlag with
      | true => rfl
      | false => simp [hflag, PushPc.asked] at hasked
  case h_3 hpc =>
      obtain rfl := Option.some.inj h
      exact ⟨_, rfl, rfl, ⟨rfl, rfl⟩, rfl, fun _ => .inl (by rw [hpc]; rfl), by rw [hpc]; nofun,
        .inl rfl⟩
  case h_4 hpc =>
      obtain rfl := Option.some.inj h
      exact ⟨_, rfl, rfl, ⟨rfl, rfl⟩, rfl, fun _ => .inl (by rw [hpc]; rfl), by rw [hpc]; nofun,
        .inr rfl⟩
  case h_5 => cases h

/-! ## The invariant -/

/-- What holds in every state: there are at most as many pushers as targets for
    each thread, a pusher that stops was asked by a thread that is done, and a
    channel is closed by a pusher that has left its loop. -/
structure Orderly (cfg : PushConfig) (s : Process) : Prop where
  urls : Urls cfg s.prometheusUrl s.metricsUrl
  length : s.threads.length = cfg.threadCount
  pushers : (s.pushers.length : Int) + (s.threads.map (·.owed cfg)).sum
    ≤ cfg.targets * cfg.threadCount
  stopped : s.stopFlag = true → ∃ pc ∈ s.threads, pc.iterated = true
  asked : ∀ p ∈ s.pushers, p.pc.asked = true → s.stopFlag = true
  closed : s.closed ≠ [] → ∃ p ∈ s.pushers, p.pc = .broken

theorem orderly_initial (cfg : PushConfig) : Orderly cfg (.initial cfg) where
  urls := ⟨.inl rfl, .inl rfl⟩
  length := List.length_replicate
  pushers := by
    simp only [Process.initial, List.length_nil, List.map_replicate, List.sum_replicate_int,
      ThreadPc.owed]
    rw [Int.mul_comm]
    simp
  stopped := nofun
  asked := nofun
  closed := fun h => absurd rfl h

theorem orderly_thread {cfg : PushConfig} {s t : Process} {i : Nat} {pc pc' : ThreadPc}
    (hs : Orderly cfg s) (hi : s.threads[i]? = some pc) (h : ThreadStep cfg s i pc pc' t) :
    Orderly cfg t := by
  have howed : ((s.threads.set i pc').map (·.owed cfg)).sum + pc.owed cfg
      = (s.threads.map (·.owed cfg)).sum + pc'.owed cfg := sum_map_set_add hi
  have hcount := hs.pushers
  refine ⟨h.urls, ?_, ?_, fun hflag => ?_, fun p hp hasked => ?_, fun hclosed => ?_⟩
  · rw [h.threads, List.length_set]
    exact hs.length
  · rw [h.threads]
    rcases h.pushers with ⟨hpushers, hle⟩ | ⟨hpushers, hle⟩
    · rw [hpushers]
      omega
    · rw [hpushers, List.length_append, List.length_singleton]
      omega
  · rw [h.threads]
    rcases h.stopFlag with hsame | ⟨-, hdone⟩
    · obtain ⟨x, hx, hxdone⟩ := hs.stopped (hsame ▸ hflag)
      rcases mem_set_or_eq (b := pc') hi hx with rfl | hmem
      · exact ⟨pc', mem_set_self hi, h.iterated hxdone⟩
      · exact ⟨x, hmem, hxdone⟩
    · exact ⟨pc', mem_set_self hi, hdone⟩
  · -- a new pusher has not looked at the flag
    have hold : p ∈ s.pushers := by
      rcases h.pushers with ⟨hpushers, -⟩ | ⟨hpushers, -⟩
      · exact hpushers ▸ hp
      · rw [hpushers] at hp
        rcases List.mem_append.mp hp with hmem | hnew
        · exact hmem
        · rw [List.mem_singleton.mp hnew] at hasked
          cases hasked
    have hflag := hs.asked p hold hasked
    rcases h.stopFlag with hsame | ⟨hset, -⟩
    · rw [hsame]
      exact hflag
    · exact hset
  · rw [h.closed] at hclosed
    obtain ⟨p, hp, hbroken⟩ := hs.closed hclosed
    rcases h.pushers with ⟨hpushers, -⟩ | ⟨hpushers, -⟩
    · exact ⟨p, hpushers ▸ hp, hbroken⟩
    · exact ⟨p, hpushers ▸ List.mem_append_left _ hp, hbroken⟩

theorem orderly_pusher {cfg : PushConfig} {s t : Process} {j : Nat} {p p' : Pusher}
    (hs : Orderly cfg s) (hj : s.pushers[j]? = some p) (h : PusherStep s j p p' t) :
    Orderly cfg t := by
  refine ⟨?_, ?_, ?_, fun hflag => ?_, fun q hq hasked => ?_, fun hclosed => ?_⟩
  · rw [h.urls.1, h.urls.2]
    exact hs.urls
  · rw [h.threads]
    exact hs.length
  · rw [h.threads, h.pushers, List.length_set]
    exact hs.pushers
  · rw [h.threads]
    exact hs.stopped (h.stopFlag ▸ hflag)
  · rw [h.stopFlag]
    rw [h.pushers] at hq
    rcases List.mem_or_eq_of_mem_set hq with hmem | rfl
    · exact hs.asked q hmem hasked
    · rcases h.asked hasked with hbefore | hflag
      · exact hs.asked p (List.mem_of_getElem? hj) hbefore
      · exact hflag
  · rw [h.pushers]
    rcases h.closed with hsame | hbroken
    · obtain ⟨q, hq, hbroken⟩ := hs.closed (hsame ▸ hclosed)
      -- the pusher that moves is not the broken one
      rcases mem_set_or_eq (b := p') hj hq with rfl | hmem
      · exact absurd hbroken h.broken
      · exact ⟨q, hmem, hbroken⟩
    · exact ⟨p', mem_set_self hj, hbroken⟩

theorem orderly_step {cfg : PushConfig} (s : Process) (l : PushLabel) (t : Process)
    (hs : Orderly cfg s) (h : (pushSystem cfg).step s l = some t) : Orderly cfg t := by
  cases l with
  | thread i =>
      obtain ⟨pc, hi, hst⟩ := Option.bind_eq_some_iff.mp h
      obtain ⟨pc', hstep⟩ := threadStep_spec hs.urls hst
      exact orderly_thread hs hi hstep
  | pusher j =>
      obtain ⟨p, hj, hst⟩ := Option.bind_eq_some_iff.mp h
      obtain ⟨p', hstep⟩ := pusherStep_spec hst
      exact orderly_pusher hs hj hstep

/-! ## Which configurations are safe -/

theorem owed_nonneg (cfg : PushConfig) (pc : ThreadPc) : 0 ≤ pc.owed cfg := by
  cases pc <;> simp only [ThreadPc.owed] <;> omega

theorem sum_owed_nonneg (cfg : PushConfig) (threads : List ThreadPc) :
    0 ≤ (threads.map (·.owed cfg)).sum := by
  induction threads with
  | nil => exact Int.le_refl 0
  | cons pc threads ih =>
      have hpc := owed_nonneg cfg pc
      rw [List.map_cons, List.sum_cons]
      omega

/-- At most one pusher for one thread, or none at all. -/
theorem safeStep_of_orderly {cfg : PushConfig} {s : Process} (hs : Orderly cfg s)
    (hfew : cfg.targets = 0 ∨ cfg.targets = 1 ∧ cfg.threadCount = 1) (l : PushLabel) :
    safeStep s l := by
  cases l with
  | thread i => trivial
  | pusher j =>
      intro p hp
      have hsum := sum_owed_nonneg cfg s.threads
      have hcount := hs.pushers
      have hmem := List.mem_of_getElem? hp
      have hpos := List.length_pos_of_mem hmem
      rcases hfew with hnone | ⟨hone, hthread⟩
      · rw [hnone] at hcount
        omega
      · rw [hone, hthread] at hcount
        obtain ⟨q, hq⟩ := List.length_eq_one_iff.mp (by omega : s.pushers.length = 1)
        obtain rfl : p = q := List.mem_singleton.mp (hq ▸ hmem)
        constructor
        · -- the flag was set by the only thread
          intro hpc
          obtain ⟨pc, hpcmem, hdone⟩ := hs.stopped (hs.asked p hmem (by rw [hpc]; rfl))
          obtain ⟨pc', hpc'⟩ := List.length_eq_one_iff.mp (hs.length.trans hthread)
          rw [hpc'] at hpcmem ⊢
          obtain rfl := List.mem_singleton.mp hpcmem
          exact List.forall_mem_singleton.mpr hdone
        · intro hpc hclosed
          obtain ⟨q, hq', hbroken⟩ := hs.closed (List.ne_nil_of_mem hclosed)
          rw [hq, List.mem_singleton] at hq'
          rw [hq', hpc] at hbroken
          cases hbroken

/-- Thread 0 has gone through `PrintMetrics` up to its `select`, with `k + 1`
    pushers, before the `n` others start. -/
def Process.printed (cfg : PushConfig) (k n : Nat) : Process where
  prometheusUrl := if cfg.prometheus = .unresolvable then .unset else cfg.prometheus
  metricsUrl := if cfg.metrics = .unresolvable then .unset else cfg.metrics
  stopFlag := true
  threads := .waiting :: List.replicate n .start
  pushers := List.replicate (k + 1) ⟨0, .ticking⟩
  closed := []

theorem exec_printed {cfg : PushConfig} {k n : Nat} (hk : cfg.targets = k + 1)
    (hn : cfg.threadCount = n + 1) :
    (pushSystem cfg).exec (.initial cfg) (List.replicate 7 (.thread 0))
      = some (.printed cfg k n) := by
  obtain ⟨threads, prometheus, byFlag, metrics⟩ := cfg
  rw [Process.initial, hn]
  cases prometheus <;> cases metrics <;> cases byFlag <;> first | (cases hk; rfl) | cases hk

/-- A second thread has its metrics deleted. -/
theorem not_safe_of_threads {cfg : PushConfig} {k n : Nat} (hk : cfg.targets = k + 1)
    (hn : cfg.threadCount = n + 2) : ¬ ShutdownSafe cfg := by
  intro hsafe
  have hrun := (hsafe (List.replicate 7 (.thread 0) ++ List.replicate 3 (.pusher 0))).drop
    (exec_printed hk hn)
  -- the third step is the DELETE; thread 1 has not even started
  have hdelete : safeStep _ _ := hrun.2.2.1
  have hall := (hdelete _ rfl).1 rfl .start (List.mem_cons_of_mem _ List.mem_cons_self)
  cases hall

/-- The second pusher of a thread closes the channel again. -/
theorem not_safe_of_targets {cfg : PushConfig} {k : Nat} (hk : cfg.targets = k + 2)
    (hn : cfg.threadCount = 1) : ¬ ShutdownSafe cfg := by
  intro hsafe
  have hrun := (hsafe (List.replicate 7 (.thread 0) ++ (List.replicate 3 (.pusher 0)
    ++ List.replicate 3 (.pusher 1) ++ [.pusher 0, .pusher 1]))).drop (exec_printed hk hn)
  have hclose : safeStep _ _ := hrun.2.2.2.2.2.2.2.1
  exact (hclose _ rfl).2 rfl List.mem_cons_self

theorem threadCount_eq_one_iff (cfg : PushConfig) : cfg.threadCount = 1 ↔ cfg.threads ≤ 1 := by
  unfold PushConfig.threadCount
  split <;> omega

/-- **When the shutdown is safe.**  In every interleaving no channel is closed
    twice and the metrics are deleted after every `IterateFunc`, if and only if
    no target is configured, or one target and one thread. -/
theorem shutdown_safe_iff (cfg : PushConfig) :
    ShutdownSafe cfg ↔ cfg.targets = 0 ∨ cfg.targets = 1 ∧ cfg.threads ≤ 1 := by
  rw [← threadCount_eq_one_iff]
  constructor
  · intro hsafe
    by_contra hmany
    have hpos : 0 < cfg.threadCount := by
      unfold PushConfig.threadCount
      split <;> omega
    obtain ⟨k, hk⟩ := Nat.exists_eq_succ_of_ne_zero (fun h => hmany (.inl h))
    by_cases hone : cfg.threadCount = 1
    · obtain ⟨k', rfl⟩ := Nat.exists_eq_succ_of_ne_zero
        (fun h => hmany (.inr ⟨by omega, hone⟩) : k ≠ 0)
      exact not_safe_of_targets hk hone hsafe
    · obtain ⟨n, hn⟩ := Nat.exists_eq_add_of_le (by omega : 2 ≤ cfg.threadCount)
      exact not_safe_of_threads hk (hn.trans (Nat.add_comm 2 n)) hsafe
  · intro hfew ls
    exact Lts.along_of_invariant orderly_step (fun s l hs => safeStep_of_orderly hs hfew l)
      (orderly_initial cfg) ls

/-- Two targets for one thread close a channel twice; one target for two
    threads deletes the metrics of the second while it is invoking. -/
theorem shutdown_not_safe :
    ¬ ShutdownSafe ⟨1, .resolvable, false, .resolvable⟩ ∧
      ¬ ShutdownSafe ⟨2, .resolvable, false, .unset⟩ :=
  ⟨not_safe_of_targets rfl rfl, not_safe_of_threads rfl rfl⟩

end Hfrd.Metrics
