/-
  Hfrd.GoSdk.Invoke

  The iterations of `invokeChaincode` (modules/gosdk/chaincode/invoke.go).

  One `Chaincode` value per thread is shared by all iterations that
  `IterateFunc` runs: an iteration stores its generated arguments, then its
  transient map, and `InvokeChaincode` reads both back to build the request.
  The three steps are atomic on their own but not together, so the request of
  one iteration carries the parameters of another when their steps interleave.

  `overlapFree` is the condition under which they do not: an iteration stores
  its arguments only while no other is between its own store and its send.
  A routine limit of one enforces it.
-/

import Hfrd.GoSdk.IterateFuncInv

namespace Hfrd.GoSdk

open Hfrd.Go Hfrd.Lib

/-- `map[string][]byte`. -/
abbrev TransientMap := List (String × List UInt8)

/-- The fields of `Chaincode` that an iteration writes and reads back. -/
structure Chaincode where
  args : List String
  transientMap : Option TransientMap
deriving DecidableEq

/-- What `GenerateChaincodeParams` returns with a nil error: at least one
    argument, and a dynamic map it has made itself.  The static one is nil
    where it was decoded from `null`. -/
structure Generated where
  chaincodeArgs : List String
  transientStaticMap : Option TransientMap
  transientDynamicMap : Option TransientMap
  required : 1 ≤ chaincodeArgs.length
  madeDynamic : transientDynamicMap.isSome = true

/-- The pair the iteration means to send: its arguments and its transient map,
    which is the dynamic one wherever that is there. -/
def Generated.pair (p : Generated) : Chaincode :=
  { args := p.chaincodeArgs, transientMap := p.transientDynamicMap }

/-- The state shared by the iterations of one thread. -/
structure InvokeShared where
  cc : Chaincode
  /-- Ghost: the pair generated by each iteration, with its index. -/
  generated : List (Int64 × Chaincode)
  /-- Ghost: the pair each iteration read and sent, with its index. -/
  sent : List (Int64 × Chaincode)

/-- Where an iteration is inside `invokeFunc`. -/
inductive InvokePc
  | generate (index : Int64)
  | storeArgs (index : Int64) (p : Generated)
  | storeTransientMap (index : Int64) (p : Generated)
  | send (index : Int64) (p : Generated)

/-- What the environment decides: the outcome of `GenerateChaincodeParams`
    (it draws random values) and the error of `Execute` or `Query`. -/
inductive InvokeChoice
  | params (r : Except String Generated)
  | answer (err : GoError)

/-- One step of `invokeFunc`, with `InvokeChaincode` inlined. -/
def invokeStep (sh : InvokeShared) : InvokePc → InvokeChoice →
    Option (InvokeShared × (InvokePc ⊕ GoError))
  | .generate _, .params (.error err) => some (sh, .inr (some err))
  | .generate i, .params (.ok p) =>
      some ({ sh with generated := sh.generated ++ [(i, p.pair)] }, .inl (.storeArgs i p))
  | .storeArgs i p, _ =>
      some ({ sh with cc := { sh.cc with args := p.chaincodeArgs } },
        .inl (.storeTransientMap i p))
  | .storeTransientMap i p, _ =>
      -- each of the two assignments is skipped for a nil map
      let transientMap := p.transientStaticMap.or sh.cc.transientMap
      let transientMap := p.transientDynamicMap.or transientMap
      some ({ sh with cc := { sh.cc with transientMap := transientMap } }, .inl (.send i p))
  | .send i _, .answer err =>
      -- the request is built from the record, not from what was generated
      some ({ sh with sent := sh.sent ++ [(i, sh.cc)] },
        .inr (withMessage "failed to execute chaincode" err))
  | _, _ => none

/-- `invokeFunc` -/
def invokeFunc : IterFunc InvokeShared InvokePc InvokeChoice where
  entry := .generate
  step := invokeStep

/-- The call `IterateFunc(base, invokeFunc, false)` of one thread. -/
def invokeConfig (routineLimit : Nat) (ignoreErrors iterationCount : String)
    (parseDuration : String → Option Int64) : Config InvokeShared InvokePc InvokeChoice where
  iterFunc := invokeFunc
  sequential := false
  routineLimit := routineLimit
  ignoreErrors := ignoreErrors
  iterationCount := iterationCount
  parseDuration := parseDuration

/-- A fresh `Chaincode`: `args` and the map are nil. -/
def InvokeShared.fresh : InvokeShared :=
  { cc := { args := [], transientMap := none }, generated := [], sent := [] }

/-- `IterateFunc` with the iterations of `chaincode invoke`. -/
abbrev InvokeState := State InvokeShared InvokePc

/-! ## Overlapping iterations -/

/-- Between the store of its arguments and its send. -/
def Pc.stored : Pc InvokePc → Bool
  | .call (.storeTransientMap _ _) | .call (.send _ _) => true
  | _ => false

/-- The pair a goroutine has generated and not sent yet, with its index. -/
def Pc.owed? : Pc InvokePc → Option (Int64 × Chaincode)
  | .call (.storeArgs i p) | .call (.storeTransientMap i p) | .call (.send i p) =>
      some (i, p.pair)
  | _ => none

/-- Arguments are stored only while no iteration is between its own store and
    its send. -/
def overlapFree (s : InvokeState) : Label InvokeChoice → Prop
  | .loop _ => True
  | .go j _ => ∀ g i p, s.goroutines[j]? = some g → g.pc = .call (.storeArgs i p) →
      ∀ g' ∈ s.goroutines, g'.pc.stored = false

/-- What one goroutine that is past its store relies on: the record holds what
    it stored. -/
def Owns (cc : Chaincode) : Pc InvokePc → Prop
  | .call (.storeTransientMap _ p) => cc.args = p.chaincodeArgs
  | .call (.send _ p) => cc = p.pair
  | _ => True

/-- At most one goroutine is past its store, it owns the record, and the pairs
    generated are those sent and those still owed. -/
structure Kept (s : InvokeState) : Prop where
  exclusive : s.goroutines.countP (·.pc.stored) ≤ 1
  owns : ∀ g ∈ s.goroutines, Owns s.shared.cc g.pc
  owed : ∀ x, s.shared.generated.count x
    = s.shared.sent.count x + s.goroutines.countP (·.pc.owed? == some x)

theorem kept_initial (c0 : Int64) : Kept (State.initial .fresh c0) :=
  ⟨Nat.zero_le _, nofun, fun _ => rfl⟩

theorem owns_of_not_stored {cc : Chaincode} {pc : Pc InvokePc} (h : pc.stored = false) :
    Owns cc pc := by
  cases pc with
  | call l =>
      cases l with
      | storeTransientMap i p => cases h
      | send i p => cases h
      | _ => trivial
  | _ => trivial

/-- The dynamic map is never nil, so it is the one that stays. -/
theorem Generated.or_transientMap (p : Generated) (m : Option TransientMap) :
    p.transientDynamicMap.or m = p.transientDynamicMap := by
  cases h : p.transientDynamicMap with
  | none => simpa [h] using p.madeDynamic
  | some d => rfl

/-- A goroutine that moves outside the stores and the send. -/
theorem Kept.quiet {s t : InvokeState} {j : Nat} {g : Goroutine InvokePc} {pc : Pc InvokePc}
    (hs : Kept s) (hj : s.goroutines[j]? = some g) (hout : g.pc.stored = false)
    (hout' : pc.stored = false) (howed : pc.owed? = g.pc.owed?)
    (hg : t.goroutines = s.goroutines.set j { g with pc := pc }) (hsh : t.shared = s.shared) :
    Kept t := by
  constructor
  · rw [hg, countP_set_keep hj (hout'.trans hout.symm)]
    exact hs.exclusive
  · rw [hg, hsh]
    exact forall_mem_set hs.owns (owns_of_not_stored hout') j
  · intro x
    rw [hsh, hg, countP_set_keep hj (by simp only [howed])]
    exact hs.owed x

theorem kept_loopStep {cfg : Config InvokeShared InvokePc InvokeChoice} {s t : InvokeState}
    (hs : Kept s) (h : LoopStep cfg s t) : Kept t := by
  obtain ⟨hexcl, howns, howed⟩ := hs
  cases h
  case spawn hpc =>
      refine ⟨?_, ?_, ?_⟩
      · rw [countP_snoc]
        exact hexcl
      · exact List.forall_mem_append.mpr ⟨howns, List.forall_mem_singleton.mpr trivial⟩
      · intro x
        rw [countP_snoc]
        exact howed x
  all_goals exact ⟨hexcl, howns, howed⟩

/-- How the pairs owed change when a goroutine moves. -/
theorem owed_set {s : InvokeState} {j : Nat} {g : Goroutine InvokePc} (pc : Pc InvokePc)
    (hj : s.goroutines[j]? = some g) (x : Int64 × Chaincode) :
    (s.goroutines.set j { g with pc := pc }).countP (·.pc.owed? == some x)
        + (g.pc.owed? == some x).toNat
      = s.goroutines.countP (·.pc.owed? == some x) + (pc.owed? == some x).toNat :=
  countP_set_add (p := fun g => g.pc.owed? == some x) hj

/-- Where a step of `invokeFunc` takes the goroutine. -/
def invokeNext : InvokePc ⊕ GoError → Pc InvokePc
  | .inl l => .call l
  | .inr err => .count err

section Steps

variable {s t : InvokeState} {j : Nat} {g : Goroutine InvokePc} {i : Int64} {p : Generated}

/-- The pair is generated, and owed from now on. -/
theorem Kept.generate (hs : Kept s) (hj : s.goroutines[j]? = some g)
    (hpc : g.pc = .call (.generate i))
    (hsh : t.shared = { s.shared with generated := s.shared.generated ++ [(i, p.pair)] })
    (hg : t.goroutines = s.goroutines.set j { g with pc := .call (.storeArgs i p) }) :
    Kept t := by
  refine ⟨?_, ?_, ?_⟩
  · rw [hg, countP_set_keep hj (by rw [hpc]; rfl)]
    exact hs.exclusive
  · rw [hg, hsh]
    exact forall_mem_set hs.owns (by trivial) j
  · intro x
    have hset := owed_set (.call (.storeArgs i p)) hj x
    have howed := hs.owed x
    have hbefore : (g.pc.owed? == some x) = false := by
      rw [hpc]
      rfl
    have hafter : ((Pc.call (.storeArgs i p) : Pc InvokePc).owed? == some x)
        = ((i, p.pair) == x) := rfl
    rw [hbefore, hafter, Bool.toNat_false] at hset
    rw [hsh, hg]
    simp only [List.count_eq_countP, countP_snoc] at howed ⊢
    omega

/-- Nobody else is past its store: the record is this goroutine's alone. -/
theorem Kept.storeArgs (hs : Kept s) (hfree : ∀ g' ∈ s.goroutines, g'.pc.stored = false)
    (hj : s.goroutines[j]? = some g) (hpc : g.pc = .call (.storeArgs i p))
    (hsh : t.shared = { s.shared with cc := { s.shared.cc with args := p.chaincodeArgs } })
    (hg : t.goroutines = s.goroutines.set j { g with pc := .call (.storeTransientMap i p) }) :
    Kept t := by
  refine ⟨?_, ?_, ?_⟩
  · have hzero : s.goroutines.countP (·.pc.stored) = 0 :=
      List.countP_eq_zero.mpr fun g' hg' => by simp [hfree g' hg']
    have hgain := countP_set_gain (p := (·.pc.stored))
      (b := { g with pc := Pc.call (.storeTransientMap i p) }) hj (by rw [hpc]; rfl) rfl
    rw [hg]
    omega
  · rw [hg, hsh]
    exact forall_mem_set (fun g' hmem => owns_of_not_stored (hfree g' hmem)) (by rfl) j
  · intro x
    rw [hg, countP_set_keep hj (by rw [hpc]; rfl), hsh]
    exact hs.owed x

/-- The map is stored by the only goroutine that is past its store. -/
theorem Kept.storeTransientMap (hs : Kept s) (hj : s.goroutines[j]? = some g)
    (hpc : g.pc = .call (.storeTransientMap i p))
    (hsh : t.shared = { s.shared with cc := { s.shared.cc with
      transientMap :=
        p.transientDynamicMap.or (p.transientStaticMap.or s.shared.cc.transientMap) } })
    (hg : t.goroutines = s.goroutines.set j { g with pc := .call (.send i p) }) : Kept t := by
  refine ⟨?_, ?_, ?_⟩
  · rw [hg, countP_set_keep hj (by rw [hpc]; rfl)]
    exact hs.exclusive
  · intro g' hg'
    rw [hg] at hg'
    rcases eq_or_not_of_mem_set (p := (·.pc.stored)) hj (by rw [hpc]; rfl) hs.exclusive hg'
      with rfl | hout
    · have hargs : s.shared.cc.args = p.chaincodeArgs := by
        have hown := hs.owns g (List.mem_of_getElem? hj)
        rw [hpc] at hown
        exact hown
      simp only [hsh, Owns, Generated.or_transientMap, hargs, Generated.pair]
    · exact owns_of_not_stored hout
  · intro x
    rw [hg, countP_set_keep hj (by rw [hpc]; rfl), hsh]
    exact hs.owed x

/-- What is sent is the pair that was owed. -/
theorem Kept.send (hs : Kept s) (hj : s.goroutines[j]? = some g)
    (hpc : g.pc = .call (.send i p)) {err : GoError}
    (hsh : t.shared = { s.shared with sent := s.shared.sent ++ [(i, s.shared.cc)] })
    (hg : t.goroutines = s.goroutines.set j { g with pc := .count err }) : Kept t := by
  refine ⟨?_, ?_, ?_⟩
  · have hdrop := countP_set_drop (p := (·.pc.stored))
      (b := { g with pc := Pc.count err }) hj (by rw [hpc]; rfl) rfl
    have hexcl := hs.exclusive
    rw [hg]
    omega
  · rw [hg, hsh]
    exact forall_mem_set hs.owns (by trivial) j
  · intro x
    have hcc : s.shared.cc = p.pair := by
      have hown := hs.owns g (List.mem_of_getElem? hj)
      rw [hpc] at hown
      exact hown
    have hset := owed_set (.count err) hj x
    have howed := hs.owed x
    have hbefore : (g.pc.owed? == some x) = ((i, p.pair) == x) := by
      rw [hpc]
      rfl
    have hafter : ((Pc.count err : Pc InvokePc).owed? == some x) = false := rfl
    rw [hbefore, hafter, Bool.toNat_false] at hset
    rw [hsh, hg, hcc]
    simp only [List.count_eq_countP, countP_snoc] at howed ⊢
    omega

end Steps

theorem kept_invokeStep {s t : InvokeState} {j : Nat} {g : Goroutine InvokePc} {l : InvokePc}
    {choice : InvokeChoice} {r : InvokePc ⊕ GoError} (hs : Kept s)
    (hfree : ∀ i p, l = .storeArgs i p → ∀ g' ∈ s.goroutines, g'.pc.stored = false)
    (hj : s.goroutines[j]? = some g) (hpc : g.pc = .call l)
    (hst : invokeStep s.shared l choice = some (t.shared, r))
    (hg : t.goroutines = s.goroutines.set j { g with pc := invokeNext r }) : Kept t := by
  cases l with
  | generate i =>
      cases choice with
      | answer err => cases hst
      | params res =>
          cases res with
          | error err =>
              simp only [invokeStep, Option.some.injEq, Prod.mk.injEq] at hst
              obtain ⟨hsh, rfl⟩ := hst
              exact hs.quiet hj (by rw [hpc]; rfl) rfl (by rw [hpc]; rfl) hg hsh.symm
          | ok p =>
              simp only [invokeStep, Option.some.injEq, Prod.mk.injEq] at hst
              obtain ⟨hsh, rfl⟩ := hst
              exact hs.generate hj hpc hsh.symm hg
  -- the one step that takes the arguments of another iteration away
  | storeArgs i p =>
      simp only [invokeStep, Option.some.injEq, Prod.mk.injEq] at hst
      obtain ⟨hsh, rfl⟩ := hst
      exact hs.storeArgs (hfree i p rfl) hj hpc hsh.symm hg
  | storeTransientMap i p =>
      simp only [invokeStep, Option.some.injEq, Prod.mk.injEq] at hst
      obtain ⟨hsh, rfl⟩ := hst
      exact hs.storeTransientMap hj hpc hsh.symm hg
  | send i p =>
      cases choice with
      | params res => cases hst
      | answer err =>
          simp only [invokeStep, Option.some.injEq, Prod.mk.injEq] at hst
          obtain ⟨hsh, rfl⟩ := hst
          exact hs.send hj hpc hsh.symm hg

theorem kept_goStep {cfg : Config InvokeShared InvokePc InvokeChoice}
    (hcfg : cfg.iterFunc = invokeFunc) {s t : InvokeState} {j : Nat} {g : Goroutine InvokePc}
    (hs : Kept s)
    (hfree : ∀ i p, g.pc = .call (.storeArgs i p) → ∀ g' ∈ s.goroutines, g'.pc.stored = false)
    (hj : s.goroutines[j]? = some g) (h : GoStep cfg s j g t) : Kept t := by
  cases h with
  | start hpc =>
      rw [hcfg]
      exact hs.quiet hj (by rw [hpc]; rfl) rfl (by rw [hpc]; rfl) rfl rfl
  | body l l' choice shared hpc hst =>
      rw [hcfg] at hst
      exact kept_invokeStep hs (fun i p hl => hfree i p (hl ▸ hpc)) hj hpc hst rfl
  | returns l choice shared err hpc hst =>
      rw [hcfg] at hst
      exact kept_invokeStep hs (fun i p hl => hfree i p (hl ▸ hpc)) hj hpc hst rfl
  | fail err pc hpc hif =>
      have hnext : pc.stored = false ∧ pc.owed? = none := by
        rw [hif]; split <;> exact ⟨rfl, rfl⟩
      exact hs.quiet hj (by rw [hpc]; rfl) hnext.1 (by rw [hpc, hnext.2]; rfl) rfl rfl
  | success hpc | send err errChan hpc hif | done err hpc | release err hpc hpos
  | releaseClosed err hpc hzero hclosed =>
      exact hs.quiet hj (by rw [hpc]; rfl) rfl (by rw [hpc]; rfl) rfl rfl

theorem kept_step {cfg : Config InvokeShared InvokePc InvokeChoice}
    (hcfg : cfg.iterFunc = invokeFunc) (s : InvokeState) (l : Label InvokeChoice)
    (t : InvokeState) (hs : Kept s) (hfree : overlapFree s l)
    (h : (iterateFunc cfg).step s l = some t) : Kept t := by
  cases l with
  | loop timerFired => exact kept_loopStep hs (loopStep_inv h)
  | go j choice =>
      simp only [iterateFunc, iterateStep] at h
      split at h
      case h_1 g hj =>
          exact kept_goStep hcfg hs (fun i p => hfree g i p hj) hj (goStep_inv h)
      case h_2 => cases h

/-! ## Every pair is sent once -/

/-- A goroutine that owes a pair is still working. -/
theorem Pc.owed?_of_not_working {pc : Pc InvokePc} (h : pc.working = false) :
    pc.owed? = none := by
  cases pc with
  | call l => cases h
  | _ => rfl

/-- With a routine limit of one no two iterations are in flight, so every run
    is free of overlaps. -/
theorem overlapFree_of_limit_one {ignoreErrors iterationCount : String}
    {parseDuration : String → Option Int64} {c0 : Int64} {ls : List (Label InvokeChoice)}
    {s : InvokeState}
    (hrun : (iterateFunc (invokeConfig 1 ignoreErrors iterationCount parseDuration)).exec
      (State.initial .fresh c0) ls = some s) :
    (iterateFunc (invokeConfig 1 ignoreErrors iterationCount parseDuration)).Run overlapFree
      (State.initial .fresh c0) ls s := by
  refine (Lts.Run.of_exec hrun).strengthen threads_step ?_ (threads_initial _ _ c0)
  intro s l hs _
  cases l with
  | loop timerFired => trivial
  | go j choice =>
      intro g i p hj hpc g' hg'
      -- the one goroutine in flight is the one at its store
      rcases hs.eq_or_not_holding (le_refl 1) hj (by rw [hpc]; rfl) hg' with rfl | hout
      · rw [hpc]
        rfl
      · cases hpc' : g'.pc with
        | exited err => rfl
        | _ => rw [hpc'] at hout; cases hout

/-- **Arguments are kept while iterations do not overlap.**  In every run whose
    steps are all `overlapFree`, no iteration sends a pair it did not generate
    or sends one twice, and when `IterateFunc` returns, each iteration has sent
    exactly the pair generated for its index. -/
theorem invoke_keeps_arguments (routineLimit : Nat) (ignoreErrors iterationCount : String)
    (parseDuration : String → Option Int64) (c0 : Int64) (ls : List (Label InvokeChoice))
    (s : InvokeState)
    (hrun : (iterateFunc (invokeConfig routineLimit ignoreErrors iterationCount
      parseDuration)).Run overlapFree (State.initial .fresh c0) ls s) :
    (∀ x, s.shared.sent.count x ≤ s.shared.generated.count x) ∧
    (s.pc = .returned → s.shared.sent.Perm s.shared.generated) := by
  have hkept := hrun.preserves (kept_step rfl) (kept_initial c0)
  have hthreads := hrun.preserves (fun s l t hs _ => threads_step s l t hs trivial)
    (threads_initial _ _ c0)
  refine ⟨fun x => ?_, fun hret => List.perm_iff_count.mpr fun x => ?_⟩
  · rw [hkept.owed x]
    exact Nat.le_add_right _ _
  · -- a goroutine that has signalled owes nothing
    have hnone : s.goroutines.countP (·.pc.owed? == some x) = 0 := by
      apply List.countP_eq_zero.mpr
      intro g hg
      rw [Pc.owed?_of_not_working (not_working_of_returned hthreads hret g hg)]
      simp
    rw [hkept.owed x, hnone, Nat.add_zero]

/-- What an iteration with the single argument `arg` generates. -/
def Generated.single (arg : String) : Generated where
  chaincodeArgs := [arg]
  transientStaticMap := some []
  transientDynamicMap := some [(arg, [])]
  required := Nat.le_refl 1
  madeDynamic := rfl

/-- One iteration from dispatch to exit: the steps of goroutine `j`. -/
def iteration (j : Nat) (arg : String) : List (Label InvokeChoice) :=
  [.go j (.answer none), .go j (.params (.ok (.single arg)))] ++
    List.replicate 6 (.go j (.answer none))

/-- Two iterations under a limit of one. -/
def serialRun : List (Label InvokeChoice) :=
  List.replicate 6 (.loop false) ++ iteration 0 "a" ++ List.replicate 6 (.loop false) ++
    iteration 1 "b" ++ List.replicate 5 (.loop false)

theorem invoke_keeps_arguments_serial :
    ∃ s, (iterateFunc (invokeConfig 1 "false" "2" fun _ => none)).exec
        (State.initial .fresh 0) serialRun = some s ∧
      s.pc = .returned ∧ s.shared.sent.Perm s.shared.generated := by
  refine ⟨_, (Option.some_get (by decide)).symm, by decide, ?_⟩
  exact (invoke_keeps_arguments 1 "false" "2" (fun _ => none) 0 serialRun _
    (overlapFree_of_limit_one (Option.some_get (by decide)).symm)).2 (by decide)

/-- Two iterations under a limit of two: the second stores its arguments
    between the store and the send of the first. -/
def overlappingRun : List (Label InvokeChoice) :=
  List.replicate 13 (.loop false) ++
    [.go 0 (.answer none), .go 0 (.params (.ok (.single "a"))), .go 0 (.answer none)] ++
    [.go 1 (.answer none), .go 1 (.params (.ok (.single "b"))), .go 1 (.answer none)] ++
    List.replicate 5 (.go 0 (.answer none)) ++ List.replicate 5 (.go 1 (.answer none)) ++
    List.replicate 4 (.loop false)

/-- The first iteration sends the arguments of the second with its own
    transient map; its own arguments are never sent. -/
theorem invoke_mixes_arguments :
    ∃ s, (iterateFunc (invokeConfig 2 "false" "2" fun _ => none)).exec
        (State.initial .fresh 0) overlappingRun = some s ∧
      s.pc = .returned ∧
      s.shared.generated = [(0, (Generated.single "a").pair), (1, (Generated.single "b").pair)] ∧
      s.shared.sent = [(0, { args := ["b"], transientMap := some [("a", [])] }),
        (1, (Generated.single "b").pair)] ∧
      ¬ s.shared.sent.Perm s.shared.generated := by
  exact ⟨_, (Option.some_get (by decide)).symm, by decide, by decide, by decide, by decide⟩

end Hfrd.GoSdk
