/-
  Hfrd.GoSdk.RunIterateFunc

  A whole call of `IterateFunc`, as the commands make it: a schedule of the
  dispatch loop and the goroutines that ends with the return.  The operations
  of the commands handled here are one call to the network each
  (`atomicFunc`).

  For such a call two rules are enough to reason about a command:

  - what every network call keeps of the network and of the log of outcomes,
    the whole run keeps (`runIterateFunc_effects`);
  - a nil result means that every index of the count was called and no outcome
    had to be reported (`runIterateFunc_nil`).

  `exists_runIterateFunc` gives the run in which the network answers as one
  likes, one iteration after the other.
-/

import Hfrd.GoSdk.IterateFuncErr

namespace Hfrd.GoSdk

open Hfrd.Go Hfrd.Lib

variable {Shared Local Choice : Type}

/-- An operation that is one call to the network: the index of the iteration,
    the state of the network and its answer give the new state and the error. -/
def atomicFunc (call : Int64 → Shared → Choice → Option (Shared × GoError)) :
    IterFunc Shared Int64 Choice where
  entry iterationIndex := iterationIndex
  step shared iterationIndex choice :=
    (call iterationIndex shared choice).map fun r => (r.1, .inr r.2)

/-- `IterateFunc` from call to return, under a schedule. -/
def runIterateFunc (cfg : Config Shared Local Choice) (shared : Shared) (c0 : Int64)
    (schedule : List (Label Choice)) : Option (State Shared Local) :=
  ((iterateFunc cfg).exec (State.initial shared c0) schedule).filter (·.pc == .returned)

theorem runIterateFunc_eq_some_iff {cfg : Config Shared Local Choice} {shared : Shared}
    {c0 : Int64} {schedule : List (Label Choice)} {s : State Shared Local} :
    runIterateFunc cfg shared c0 schedule = some s ↔
      (iterateFunc cfg).exec (State.initial shared c0) schedule = some s ∧ s.pc = .returned := by
  rw [runIterateFunc, Option.filter_eq_some_iff, beq_iff_eq]

/-! ## What a whole run does -/

/-- **A nil result is complete.**  It means that every index of the count has
    been called, and that no outcome is an error that had to be reported. -/
theorem runIterateFunc_nil {cfg : Config Shared Local Choice} {shared : Shared} {c0 n : Int64}
    {schedule : List (Label Choice)} {s : State Shared Local}
    (hn : atoi cfg.iterationCount = some n)
    (hrun : runIterateFunc cfg shared c0 schedule = some s) (hnil : s.retErr = none) :
    (s.returns.map (·.1)).Perm
        ((List.range (n.toInt - c0.toInt).toNat).map fun i => c0 + Int64.ofNat i) ∧
      ∀ r ∈ s.returns, reportable r.2 = false := by
  obtain ⟨hexec, hret⟩ := runIterateFunc_eq_some_iff.mp hrun
  have run := Lts.Run.of_exec hexec
  have hth := run.preserves threads_step (threads_initial cfg shared c0)
  have hidx := run.preserves indices_step (indices_initial cfg shared c0)
  have hcnt := run.preserves (fun s l t => counts_step s l t) (counts_initial shared c0)
  have hcount : cfg.countParses = true := by
    rw [Config.countParses, hn]
    rfl
  constructor
  · -- the loop ran to its end, and every goroutine it started has returned
    have hfull := hidx.full (by rw [hret]; rfl) hnil n hn
    rw [← hfull, ← hidx.index]
    exact returns_perm hth hcnt hret
  · intro r hr
    cases hrep : reportable r.2 with
    | false => rfl
    | true => exact absurd hnil ((retErr_ne_none_iff hcount hexec hret).mpr ⟨r, hr, hrep⟩)

/-- An error result has an outcome that had to be reported. -/
theorem runIterateFunc_error {cfg : Config Shared Local Choice} {shared : Shared}
    {c0 n : Int64} {schedule : List (Label Choice)} {s : State Shared Local}
    (hn : atoi cfg.iterationCount = some n)
    (hrun : runIterateFunc cfg shared c0 schedule = some s) (herr : s.retErr ≠ none) :
    ∃ r ∈ s.returns, reportable r.2 = true := by
  obtain ⟨hexec, hret⟩ := runIterateFunc_eq_some_iff.mp hrun
  have hcount : cfg.countParses = true := by
    rw [Config.countParses, hn]
    rfl
  exact (retErr_ne_none_iff hcount hexec hret).mp herr

/-- Every index called is in the range of the count. -/
theorem runIterateFunc_index {cfg : Config Shared Local Choice} {shared : Shared}
    {c0 n : Int64} {schedule : List (Label Choice)} {s : State Shared Local}
    (hn : atoi cfg.iterationCount = some n)
    (hrun : runIterateFunc cfg shared c0 schedule = some s) :
    ∀ r ∈ s.returns, ∃ k, k < (n.toInt - c0.toInt).toNat ∧ r.1 = c0 + Int64.ofNat k := by
  obtain ⟨hexec, hret⟩ := runIterateFunc_eq_some_iff.mp hrun
  have run := Lts.Run.of_exec hexec
  have hth := run.preserves threads_step (threads_initial cfg shared c0)
  have hidx := run.preserves indices_step (indices_initial cfg shared c0)
  have hcnt := run.preserves (fun s l t => counts_step s l t) (counts_initial shared c0)
  intro r hr
  have hmem := (returns_perm hth hcnt hret).mem_iff.mp (List.mem_map_of_mem hr)
  rw [hidx.index] at hmem
  obtain ⟨k, hk, heq⟩ := List.mem_map.mp hmem
  have hbound := hidx.bound n hn
  have hlt := List.mem_range.mp hk
  exact ⟨k, by omega, heq.symm⟩

/-- A goroutine inside the operation is about to make the call for its index. -/
def OwnIndex (s : State Shared Int64) : Prop :=
  ∀ g ∈ s.goroutines, ∀ l, g.pc = .call l → l = g.index

/-- What every network call keeps, one step keeps. -/
theorem effects_step {cfg : Config Shared Int64 Choice}
    {call : Int64 → Shared → Choice → Option (Shared × GoError)}
    {P : Shared → List (Int64 × GoError) → Prop} (hf : cfg.iterFunc = atomicFunc call)
    (hcall : ∀ shared returns i choice shared' err, P shared returns →
      call i shared choice = some (shared', err) → P shared' (returns ++ [(i, err)]))
    (s : State Shared Int64) (l : Label Choice) (t : State Shared Int64)
    (hs : OwnIndex s ∧ P s.shared s.returns) (_ : True)
    (h : (iterateFunc cfg).step s l = some t) : OwnIndex t ∧ P t.shared t.returns := by
  obtain ⟨hown, hP⟩ := hs
  rcases iterateStep_inv h with hloop | ⟨j, g, hj, hgo⟩
  · cases hloop
    case spawn =>
        refine ⟨fun g hg => ?_, hP⟩
        rcases List.mem_append.mp hg with hold | hnew
        · exact hown g hold
        · rw [List.mem_singleton.mp hnew]
          exact fun _ hl => by cases hl
    all_goals exact ⟨hown, hP⟩
  · have hg := List.mem_of_getElem? hj
    cases hgo with
    | start hpc =>
        refine ⟨forall_mem_set hown (fun l hl => ?_) j, hP⟩
        cases hl
        rw [hf]
        rfl
    | body l l' choice shared hpc hst =>
        -- the call returns: the operation has no further step
        rw [hf] at hst
        simp [atomicFunc] at hst
    | returns l choice shared err hpc hst =>
        refine ⟨forall_mem_set hown (fun _ hl => by cases hl) j, ?_⟩
        rw [hf] at hst
        obtain ⟨r, hr, heq⟩ := Option.map_eq_some_iff.mp hst
        cases heq
        rw [hown g hg l hpc] at hr
        exact hcall _ _ _ _ _ _ hP hr
    | fail err pc hpc hif =>
        refine ⟨forall_mem_set hown (fun l hl => ?_) j, hP⟩
        rw [hif] at hl
        split at hl <;> cases hl
    | success hpc | send _ _ hpc | done _ hpc | release _ hpc | releaseClosed _ hpc =>
        exact ⟨forall_mem_set hown (fun _ hl => by cases hl) j, hP⟩

/-- **The rule for the effects of a run.**  What every network call keeps of
    the network and of the log of outcomes holds when `IterateFunc` returns. -/
theorem runIterateFunc_effects {cfg : Config Shared Int64 Choice}
    {call : Int64 → Shared → Choice → Option (Shared × GoError)}
    (P : Shared → List (Int64 × GoError) → Prop) (hf : cfg.iterFunc = atomicFunc call)
    {shared : Shared} {c0 : Int64} {schedule : List (Label Choice)} {s : State Shared Int64}
    (hrun : runIterateFunc cfg shared c0 schedule = some s) (hinit : P shared [])
    (hcall : ∀ shared returns i choice shared' err, P shared returns →
      call i shared choice = some (shared', err) → P shared' (returns ++ [(i, err)])) :
    P s.shared s.returns :=
  ((Lts.Run.of_exec (runIterateFunc_eq_some_iff.mp hrun).1).preserves (effects_step hf hcall)
    ⟨fun _ h => absurd h List.not_mem_nil, hinit⟩).2

/-! ## The run the network answers at will -/

/-- Between two iterations, every goroutine has given its token back. -/
structure Idle (s : State Shared Int64) : Prop where
  pc : s.pc = .check
  errChan : s.errChan = []
  throttle : s.throttle = 0
  wg : s.wg = 0
  retErr : s.retErr = none

/-- The schedule of one iteration of which `j` is the goroutine. -/
def oneIteration (j : Nat) (choice : Choice) : List (Label Choice) :=
  List.replicate 4 (.loop false) ++ List.replicate 5 (.go j choice)
    ++ List.replicate 2 (.loop false)

theorem exec_oneIteration {cfg : Config Shared Int64 Choice}
    {call : Int64 → Shared → Choice → Option (Shared × GoError)}
    (hf : cfg.iterFunc = atomicFunc call) (hlimit : 1 ≤ cfg.limit) {n : Int64}
    (hn : atoi cfg.iterationCount = some n) {s : State Shared Int64} (hs : Idle s)
    (hlt : s.currentIter < n) {choice : Choice} {shared' : Shared} {err : GoError}
    (hcall : call s.currentIter s.shared choice = some (shared', err))
    (hquiet : reportable err = false) :
    ∃ t, (iterateFunc cfg).exec s (oneIteration s.goroutines.length choice) = some t ∧
      Idle t ∧ t.currentIter = s.currentIter + 1 ∧ t.shared = shared' ∧
      t.returns = s.returns ++ [(s.currentIter, err)] := by
  obtain ⟨hpc, hchan, hth, hwg, herr⟩ := hs
  have hpos : (0 : Nat) < cfg.limit := hlimit
  cases err with
  -- the goroutine runs to its end before the loop goes on, so the run is computed
  | none =>
      simp [oneIteration, List.replicate, Lts.exec, iterateFunc, iterateStep, loopStep, goStep,
        State.move, hpc, hn, hlt, hth, hpos, hf, atomicFunc, hcall, hchan]
      exact ⟨rfl, rfl, rfl, hwg, herr⟩
  | some e =>
      have hignored : ignoredError e = true := by simpa [reportable] using hquiet
      simp [oneIteration, List.replicate, Lts.exec, iterateFunc, iterateStep, loopStep, goStep,
        State.move, hpc, hn, hlt, hth, hpos, hf, atomicFunc, hcall, hchan, hignored]
      exact ⟨rfl, rfl, rfl, hwg, herr⟩

/-- The loop ends at an idle state whose index has reached the count. -/
theorem exec_return {cfg : Config Shared Int64 Choice} {n : Int64}
    (hn : atoi cfg.iterationCount = some n) {s : State Shared Int64} (hs : Idle s)
    (hge : ¬ s.currentIter < n) :
    ∃ t, (iterateFunc cfg).exec s (List.replicate 5 (.loop false)) = some t ∧
      t.pc = .returned ∧ t.retErr = none ∧ t.shared = s.shared ∧ t.returns = s.returns := by
  obtain ⟨hpc, hchan, hth, hwg, herr⟩ := hs
  simp [List.replicate, Lts.exec, iterateFunc, iterateStep, loopStep, hpc, hn, hge, hwg, hchan,
    herr]

/-- **The network may answer at will.**  When `pick` chooses answers that
    never have to be reported, some run gets exactly these answers and returns
    nil. -/
theorem exists_runIterateFunc {cfg : Config Shared Int64 Choice}
    {call : Int64 → Shared → Choice → Option (Shared × GoError)}
    (P : Shared → List (Int64 × GoError) → Prop) (hf : cfg.iterFunc = atomicFunc call)
    (hlimit : 1 ≤ cfg.limit) {n : Int64} (hn : atoi cfg.iterationCount = some n)
    (pick : Int64 → Shared → Choice)
    (hpick : ∀ i shared, ∃ shared' err, call i shared (pick i shared) = some (shared', err) ∧
      reportable err = false)
    (hcall : ∀ shared returns i shared' err, P shared returns →
      call i shared (pick i shared) = some (shared', err) → P shared' (returns ++ [(i, err)]))
    (shared : Shared) (c0 : Int64) (hinit : P shared []) :
    ∃ schedule s, runIterateFunc cfg shared c0 schedule = some s ∧ s.retErr = none ∧
      P s.shared s.returns := by
  -- induction on the iterations that are left, from any idle state
  have hloop : ∀ k (s : State Shared Int64), (n.toInt - s.currentIter.toInt).toNat = k → Idle s →
      P s.shared s.returns → ∃ ls t, (iterateFunc cfg).exec s ls = some t ∧ t.pc = .returned ∧
        t.retErr = none ∧ P t.shared t.returns := by
    intro k
    induction k with
    | zero =>
        intro s hk hs hP
        have hge : ¬ s.currentIter < n := by
          rw [Int64.lt_iff_toInt_lt]
          omega
        obtain ⟨t, hexec, hret, herr, hsh, hre⟩ := exec_return hn hs hge
        exact ⟨_, t, hexec, hret, herr, by rw [hsh, hre]; exact hP⟩
    | succ k ih =>
        intro s hk hs hP
        have hlt : s.currentIter < n := by
          rw [Int64.lt_iff_toInt_lt]
          omega
        obtain ⟨shared', err, hc, hquiet⟩ := hpick s.currentIter s.shared
        obtain ⟨u, hexec, hidle, hiter, hsh, hre⟩ :=
          exec_oneIteration hf hlimit hn hs hlt hc hquiet
        have hnext : u.currentIter.toInt = s.currentIter.toInt + 1 := by
          have hhi := n.toInt_lt
          rw [hiter]
          exact toInt_add_ofNat (k := 1) (by omega)
        obtain ⟨ls, t, hrest, ht⟩ := ih u (by omega) hidle
          (by rw [hsh, hre]; exact hcall _ _ _ _ _ hP hc)
        exact ⟨_ ++ ls, t, (Lts.exec_append hexec).trans hrest, ht⟩
  obtain ⟨ls, t, hexec, hret, herr, hP⟩ :=
    hloop _ (State.initial shared c0) rfl ⟨rfl, rfl, rfl, rfl, rfl⟩ hinit
  exact ⟨ls, t, runIterateFunc_eq_some_iff.mpr ⟨hexec, hret⟩, herr, hP⟩

end Hfrd.GoSdk
