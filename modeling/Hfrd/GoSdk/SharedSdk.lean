/-
  Hfrd.GoSdk.SharedSdk

  The iterations of `SingleChannelUpdate`, `SingleChannelQuery` and
  `ChannelAddOrg` (modules/gosdk/channel/update.go, query.go, addorg.go).

  An iteration writes the temporary config of its channel, builds an SDK from
  it and stores it in the field `c.sdk`, which all iterations share; then it
  reads the field back and makes its ledger client from what it read.  The
  store and the read are two steps, so the store of another iteration between
  them changes the SDK that is used.

  `storeFree` is the condition under which it does not: an iteration stores its
  SDK only while no other is between its own store and its read.  A routine
  limit of one enforces it.
-/

import Hfrd.GoSdk.IterateFuncInv
import Hfrd.Metrics.Operations

namespace Hfrd.GoSdk

open Hfrd.Go Hfrd.Lib

/-- An operation over a channel, with the fields and flags it reads. -/
inductive ChannelOp
  | singleChannelUpdate (namePrefix : String) (flags : Metrics.UpdateFlags)
  | singleChannelQuery (namePrefix : String)
  | channelAddOrg (namePrefix : String)

/-- The calls in which an operation uses an SDK. -/
inductive SdkCall
  | ledgerNew | queryInfo | queryChannelConfigBlock
  | updateChannel | waitUntilUpdateSucc
  | collectSign | addOrgToChannel
deriving DecidableEq

/-- The call is passed the variable `sdk` of the iteration; the others use the
    value of `c.sdk`, or a client made from it. -/
def SdkCall.usesVariable : SdkCall → Bool
  | .collectSign | .addOrgToChannel => true
  | _ => false

namespace ChannelOp

/-- The channel of an iteration. -/
def channelID : ChannelOp → Int64 → String
  | .singleChannelUpdate namePrefix _, iterationIndex => namePrefix ++ itoa iterationIndex
  | .singleChannelQuery namePrefix, _ => namePrefix
  | .channelAddOrg namePrefix, iterationIndex => namePrefix ++ itoa iterationIndex

/-- What is returned where `GetConfigBackends` fails. -/
def backendsError : ChannelOp → String → GoError
  | .singleChannelUpdate _ _, err => some err
  -- `return nil`
  | .singleChannelQuery _, _ | .channelAddOrg _, _ => none

/-- The error between the store of the SDK and its use. -/
def refusal : ChannelOp → GoError
  | .singleChannelUpdate _ flags =>
      if flags.meaningful then none
      else some "Please provide at least one meaningful input argument"
  | .singleChannelQuery _ | .channelAddOrg _ => none

/-- The calls, in their order. -/
def calls : ChannelOp → List SdkCall
  | .singleChannelUpdate _ _ =>
      [.ledgerNew, .queryChannelConfigBlock, .updateChannel, .waitUntilUpdateSucc]
  | .singleChannelQuery _ => [.ledgerNew, .queryInfo, .queryChannelConfigBlock]
  | .channelAddOrg _ => [.ledgerNew, .queryChannelConfigBlock, .collectSign, .addOrgToChannel]

/-- What is returned where a call fails, or the work before the next one;
    `none` where it goes on without a client and panics. -/
def callError : ChannelOp → SdkCall → String → Option GoError
  | .channelAddOrg _, .ledgerNew, _ => none
  | .channelAddOrg _, .collectSign, err => some (some ("CollectSign: " ++ err))
  | .channelAddOrg _, .addOrgToChannel, err =>
      some (some ("AddOrgToChannel transaction: " ++ err))
  | _, _, err => some (some err)

end ChannelOp

/-- An SDK, with the channel that its config names. -/
structure FabricSDK where
  channelID : String
deriving DecidableEq

/-- A call of iteration `index`: the SDK that the iteration created, and the
    one that the call used. -/
structure SdkUse where
  index : Int64
  call : SdkCall
  created : Nat
  used : Option Nat
deriving DecidableEq

/-- The state shared by the iterations; a pointer to an SDK is its position in
    `sdks`. -/
structure SdkShared where
  /-- `c.sdk` -/
  sdk : Option Nat
  sdks : List FabricSDK
  /-- Ghost: the calls made so far. -/
  uses : List SdkUse

/-- Where an iteration is. -/
inductive SdkPc
  | getTempChannelConfigFile (index : Int64)
  | getConfigBackends (index : Int64)
  | fabsdkNew (index : Int64)
  | storeSdk (index : Int64) (sdk : Nat)
  | readSdk (index : Int64) (sdk : Nat)
  /-- Past the read of `c.sdk`, which gave `field`. -/
  | calls (index : Int64) (sdk : Nat) (field : Option Nat) (rest : List SdkCall)
  | panicked
deriving DecidableEq

/-- One step of an operation; the environment answers each of the calls. -/
def channelOpStep (op : ChannelOp) (sh : SdkShared) : SdkPc → GoError →
    Option (SdkShared × (SdkPc ⊕ GoError))
  | .getTempChannelConfigFile i, answer =>
      match answer with
      | some err => some (sh, .inr (some (Metrics.tempConfigError err)))
      | none => some (sh, .inl (.getConfigBackends i))
  | .getConfigBackends i, answer =>
      match answer with
      | some err => some (sh, .inr (op.backendsError err))
      | none => some (sh, .inl (.fabsdkNew i))
  | .fabsdkNew i, answer =>
      match answer with
      | some err => some (sh, .inr (some err))
      | none =>
          some ({ sh with sdks := sh.sdks ++ [⟨op.channelID i⟩] },
            .inl (.storeSdk i sh.sdks.length))
  | .storeSdk i sdk, _ =>
      match op.refusal with
      | some err => some ({ sh with sdk := some sdk }, .inr (some err))
      | none => some ({ sh with sdk := some sdk }, .inl (.readSdk i sdk))
  | .readSdk i sdk, _ => some (sh, .inl (.calls i sdk sh.sdk op.calls))
  | .calls _ _ _ [], _ => some (sh, .inr none)
  | .calls i sdk field (call :: rest), answer =>
      let used := if call.usesVariable then some sdk else field
      let sh := { sh with uses := sh.uses ++ [⟨i, call, sdk, used⟩] }
      match answer with
      | none => some (sh, .inl (.calls i sdk field rest))
      | some err =>
          match op.callError call err with
          | some returned => some (sh, .inr returned)
          | none => some (sh, .inl .panicked)
  | .panicked, _ => none

/-- The iteration function of a channel operation. -/
def channelOpFunc (op : ChannelOp) : IterFunc SdkShared SdkPc GoError where
  entry := .getTempChannelConfigFile
  step := channelOpStep op

/-- The call `IterateFunc(base, updateFunc, false)`, respectively `queryFunc`
    and `addOrgFunc`. -/
def channelOpConfig (op : ChannelOp) (routineLimit : Nat) (ignoreErrors iterationCount : String)
    (parseDuration : String → Option Int64) : Config SdkShared SdkPc GoError where
  iterFunc := channelOpFunc op
  sequential := false
  routineLimit := routineLimit
  ignoreErrors := ignoreErrors
  iterationCount := iterationCount
  parseDuration := parseDuration

/-- `ChannelConfig{base, channelNamePrefix, nil}` -/
def SdkShared.fresh : SdkShared := { sdk := none, sdks := [], uses := [] }

/-- `IterateFunc` with the iterations of a channel operation. -/
abbrev SdkState := State SdkShared SdkPc

/-! ## The SDK of an iteration -/

/-- The call used the SDK created in its iteration, and that one is built from
    the config of the channel of the iteration. -/
def SdkUse.Own (op : ChannelOp) (sdks : List FabricSDK) (u : SdkUse) : Prop :=
  u.used = some u.created ∧ sdks[u.created]? = some ⟨op.channelID u.index⟩

instance (op : ChannelOp) (sdks : List FabricSDK) (u : SdkUse) : Decidable (u.Own op sdks) :=
  inferInstanceAs (Decidable (_ ∧ _))

/-- Between the store of its SDK and the read of the field. -/
def Pc.storedSdk : Pc SdkPc → Bool
  | .call (.readSdk _ _) => true
  | _ => false

/-- The SDK is stored only while no iteration is between its own store and its
    read. -/
def storeFree (s : SdkState) : Label GoError → Prop
  | .loop _ => True
  | .go j _ => ∀ g i sdk, s.goroutines[j]? = some g → g.pc = .call (.storeSdk i sdk) →
      ∀ g' ∈ s.goroutines, g'.pc.storedSdk = false

/-- What a goroutine that has created its SDK relies on. -/
def OwnsSdk (op : ChannelOp) (sh : SdkShared) : Pc SdkPc → Prop
  | .call (.storeSdk i sdk) => sh.sdks[sdk]? = some ⟨op.channelID i⟩
  | .call (.readSdk i sdk) => sh.sdks[sdk]? = some ⟨op.channelID i⟩ ∧ sh.sdk = some sdk
  | .call (.calls i sdk field _) => sh.sdks[sdk]? = some ⟨op.channelID i⟩ ∧ field = some sdk
  | _ => True

/-- At most one goroutine is between its store and its read, and every call
    made so far used its own SDK. -/
structure SdkKept (op : ChannelOp) (s : SdkState) : Prop where
  exclusive : s.goroutines.countP (·.pc.storedSdk) ≤ 1
  owns : ∀ g ∈ s.goroutines, OwnsSdk op s.shared g.pc
  uses : ∀ u ∈ s.shared.uses, u.Own op s.shared.sdks

theorem sdkKept_initial (op : ChannelOp) (c0 : Int64) : SdkKept op (State.initial .fresh c0) :=
  ⟨Nat.zero_le _, nofun, nofun⟩

theorem getElem?_append_of_some {α : Type} {l : List α} {n : Nat} {a : α} (l' : List α)
    (h : l[n]? = some a) : (l ++ l')[n]? = some a := by
  rw [List.getElem?_append_left (List.getElem?_eq_some_iff.mp h).1, h]

/-- SDKs are only added: what a goroutine relies on stays, where the field is
    not stored between its store and its read. -/
theorem OwnsSdk.mono {op : ChannelOp} {sh sh' : SdkShared} {pc : Pc SdkPc} (l : List FabricSDK)
    (hsdks : sh'.sdks = sh.sdks ++ l) (hsdk : pc.storedSdk = true → sh'.sdk = sh.sdk)
    (h : OwnsSdk op sh pc) : OwnsSdk op sh' pc := by
  cases pc with
  | call pc =>
      cases pc with
      | storeSdk i sdk =>
          rw [OwnsSdk, hsdks]
          exact getElem?_append_of_some l h
      | readSdk i sdk =>
          rw [OwnsSdk, hsdks, hsdk rfl]
          exact ⟨getElem?_append_of_some l h.1, h.2⟩
      | calls i sdk field rest =>
          rw [OwnsSdk, hsdks]
          exact ⟨getElem?_append_of_some l h.1, h.2⟩
      | _ => trivial
  | _ => trivial

section Steps

variable {op : ChannelOp} {s t : SdkState} {j : Nat} {g : Goroutine SdkPc} {pc : Pc SdkPc}

/-- A goroutine moves without a store; SDKs and calls may be added. -/
theorem SdkKept.move (hs : SdkKept op s) (hj : s.goroutines[j]? = some g)
    (hout : pc.storedSdk = false) (hg : t.goroutines = s.goroutines.set j { g with pc := pc })
    (l : List FabricSDK) (hsdks : t.shared.sdks = s.shared.sdks ++ l)
    (hsdk : t.shared.sdk = s.shared.sdk) (hpc : OwnsSdk op t.shared pc)
    (huses : ∀ u ∈ t.shared.uses, u ∈ s.shared.uses ∨ u.Own op t.shared.sdks) :
    SdkKept op t := by
  refine ⟨?_, ?_, fun u hu => ?_⟩
  · have hadd := countP_set_add (p := (·.pc.storedSdk)) (b := { g with pc := pc }) hj
    simp only [hout, Bool.toNat_false] at hadd
    have hexcl := hs.exclusive
    rw [hg]
    omega
  · rw [hg]
    exact forall_mem_set (fun g' hg' => (hs.owns g' hg').mono l hsdks fun _ => hsdk) hpc j
  · rcases huses u hu with hold | hown
    · obtain ⟨hused, hchannel⟩ := hs.uses u hold
      exact ⟨hused, hsdks ▸ getElem?_append_of_some l hchannel⟩
    · exact hown

/-- A goroutine moves and leaves the shared state as it is. -/
theorem SdkKept.quiet (hs : SdkKept op s) (hj : s.goroutines[j]? = some g)
    (hout : pc.storedSdk = false) (hg : t.goroutines = s.goroutines.set j { g with pc := pc })
    (hsh : t.shared = s.shared) (hpc : OwnsSdk op s.shared pc) : SdkKept op t :=
  hs.move hj hout hg [] (by simp [hsh]) (by rw [hsh]) (hsh ▸ hpc)
    fun u hu => Or.inl (hsh ▸ hu)

/-- The field is stored while nobody else is about to read it. -/
theorem SdkKept.store (hs : SdkKept op s) (hfree : ∀ g' ∈ s.goroutines, g'.pc.storedSdk = false)
    (hj : s.goroutines[j]? = some g) {sdk : Nat}
    (hsh : t.shared = { s.shared with sdk := some sdk })
    (hg : t.goroutines = s.goroutines.set j { g with pc := pc }) (hpc : OwnsSdk op t.shared pc) :
    SdkKept op t := by
  refine ⟨?_, ?_, ?_⟩
  · have hzero : s.goroutines.countP (·.pc.storedSdk) = 0 :=
      List.countP_eq_zero.mpr fun g' hg' => by simp [hfree g' hg']
    have hadd := countP_set_add (p := (·.pc.storedSdk)) (b := { g with pc := pc }) hj
    have hle := Bool.toNat_le pc.storedSdk
    rw [hg]
    simp only at hadd
    omega
  · rw [hg]
    refine forall_mem_set (fun g' hg' => (hs.owns g' hg').mono [] ?_ fun hstored => ?_) hpc j
    · rw [hsh, List.append_nil]
    · rw [hfree g' hg'] at hstored
      cases hstored
  · rw [hsh]
    exact hs.uses

end Steps

/-- A call that is made: what it uses is the SDK of its iteration. -/
theorem SdkKept.call {op : ChannelOp} {s t : SdkState} {j : Nat} {g : Goroutine SdkPc}
    {pc : Pc SdkPc} {i : Int64} {sdk : Nat} {field : Option Nat} {call : SdkCall}
    {rest : List SdkCall} (hs : SdkKept op s) (hj : s.goroutines[j]? = some g)
    (hat : g.pc = .call (.calls i sdk field (call :: rest))) (hout : pc.storedSdk = false)
    (hsh : t.shared = { s.shared with
      uses := s.shared.uses ++ [⟨i, call, sdk, if call.usesVariable then some sdk else field⟩] })
    (hg : t.goroutines = s.goroutines.set j { g with pc := pc }) (hpc : OwnsSdk op t.shared pc) :
    SdkKept op t := by
  have howns := hs.owns g (List.mem_of_getElem? hj)
  rw [hat] at howns
  obtain ⟨hchannel, rfl⟩ := howns
  refine hs.move hj hout hg [] (by simp [hsh]) (by rw [hsh]) hpc fun u hu => ?_
  rw [hsh] at hu
  rcases List.mem_append.mp hu with hold | hnew
  · exact Or.inl hold
  · rw [List.mem_singleton.mp hnew, hsh]
    exact Or.inr ⟨ite_self _, hchannel⟩

/-- Where a step of an operation takes the goroutine. -/
def channelOpNext : SdkPc ⊕ GoError → Pc SdkPc
  | .inl l => .call l
  | .inr err => .count err

theorem sdkKept_channelOpStep {op : ChannelOp} {s t : SdkState} {j : Nat} {g : Goroutine SdkPc}
    {l : SdkPc} {answer : GoError} {r : SdkPc ⊕ GoError} (hs : SdkKept op s)
    (hfree : ∀ i sdk, l = .storeSdk i sdk → ∀ g' ∈ s.goroutines, g'.pc.storedSdk = false)
    (hj : s.goroutines[j]? = some g) (hpc : g.pc = .call l)
    (hst : channelOpStep op s.shared l answer = some (t.shared, r))
    (hg : t.goroutines = s.goroutines.set j { g with pc := channelOpNext r }) : SdkKept op t := by
  have howns := hs.owns g (List.mem_of_getElem? hj)
  rw [hpc] at howns
  cases l with
  | getTempChannelConfigFile i | getConfigBackends i =>
      cases answer <;>
      · simp only [channelOpStep, Option.some.injEq, Prod.mk.injEq] at hst
        obtain ⟨hsh, rfl⟩ := hst
        exact hs.quiet hj rfl hg hsh.symm trivial
  | fabsdkNew i =>
      cases answer with
      | some err =>
          simp only [channelOpStep, Option.some.injEq, Prod.mk.injEq] at hst
          obtain ⟨hsh, rfl⟩ := hst
          exact hs.quiet hj rfl hg hsh.symm trivial
      | none =>
          simp only [channelOpStep, Option.some.injEq, Prod.mk.injEq] at hst
          obtain ⟨hsh, rfl⟩ := hst
          refine hs.move hj rfl hg [⟨op.channelID i⟩] (by rw [← hsh]) (by rw [← hsh]) ?_
            fun u hu => Or.inl (by rw [← hsh] at hu; exact hu)
          rw [← hsh]
          exact List.getElem?_concat_length
  | storeSdk i sdk =>
      cases hrefusal : op.refusal with
      | some err =>
          simp only [channelOpStep, hrefusal, Option.some.injEq, Prod.mk.injEq] at hst
          obtain ⟨hsh, rfl⟩ := hst
          exact hs.store (hfree i sdk rfl) hj hsh.symm hg trivial
      | none =>
          simp only [channelOpStep, hrefusal, Option.some.injEq, Prod.mk.injEq] at hst
          obtain ⟨hsh, rfl⟩ := hst
          refine hs.store (hfree i sdk rfl) hj hsh.symm hg ?_
          rw [← hsh]
          exact ⟨howns, rfl⟩
  | readSdk i sdk =>
      simp only [channelOpStep, Option.some.injEq, Prod.mk.injEq] at hst
      obtain ⟨hsh, rfl⟩ := hst
      -- the field still holds what this iteration stored
      exact hs.quiet hj rfl hg hsh.symm howns
  | calls i sdk field rest =>
      cases rest with
      | nil =>
          simp only [channelOpStep, Option.some.injEq, Prod.mk.injEq] at hst
          obtain ⟨hsh, rfl⟩ := hst
          exact hs.quiet hj rfl hg hsh.symm trivial
      | cons call rest =>
          cases answer with
          | none =>
              simp only [channelOpStep, Option.some.injEq, Prod.mk.injEq] at hst
              obtain ⟨hsh, rfl⟩ := hst
              refine hs.call hj hpc rfl hsh.symm hg ?_
              rw [← hsh]
              exact howns
          | some err =>
              cases hreturned : op.callError call err <;>
              · simp only [channelOpStep, hreturned, Option.some.injEq, Prod.mk.injEq] at hst
                obtain ⟨hsh, rfl⟩ := hst
                exact hs.call hj hpc rfl hsh.symm hg trivial
  | panicked => cases hst

theorem sdkKept_loopStep {op : ChannelOp} {cfg : Config SdkShared SdkPc GoError} {s t : SdkState}
    (hs : SdkKept op s) (h : LoopStep cfg s t) : SdkKept op t := by
  obtain ⟨hexcl, howns, huses⟩ := hs
  cases h
  case spawn hpc =>
      refine ⟨?_, ?_, huses⟩
      · rw [countP_snoc]
        exact hexcl
      · exact List.forall_mem_append.mpr ⟨howns, List.forall_mem_singleton.mpr trivial⟩
  all_goals exact ⟨hexcl, howns, huses⟩

theorem sdkKept_goStep {op : ChannelOp} {cfg : Config SdkShared SdkPc GoError}
    (hcfg : cfg.iterFunc = channelOpFunc op) {s t : SdkState} {j : Nat} {g : Goroutine SdkPc}
    (hs : SdkKept op s)
    (hfree : ∀ i sdk, g.pc = .call (.storeSdk i sdk) →
      ∀ g' ∈ s.goroutines, g'.pc.storedSdk = false)
    (hj : s.goroutines[j]? = some g) (h : GoStep cfg s j g t) : SdkKept op t := by
  cases h with
  | start hpc =>
      rw [hcfg]
      exact hs.quiet hj rfl rfl rfl trivial
  | body l l' choice shared hpc hst =>
      rw [hcfg] at hst
      exact sdkKept_channelOpStep hs (fun i sdk hl => hfree i sdk (hl ▸ hpc)) hj hpc hst rfl
  | returns l choice shared err hpc hst =>
      rw [hcfg] at hst
      exact sdkKept_channelOpStep hs (fun i sdk hl => hfree i sdk (hl ▸ hpc)) hj hpc hst rfl
  | fail err pc hpc hif =>
      rw [hif]
      split <;> exact hs.quiet hj rfl rfl rfl trivial
  | success hpc | send err errChan hpc hif | done err hpc | release err hpc hpos
  | releaseClosed err hpc hzero hclosed =>
      exact hs.quiet hj rfl rfl rfl trivial

theorem sdkKept_step {op : ChannelOp} {cfg : Config SdkShared SdkPc GoError}
    (hcfg : cfg.iterFunc = channelOpFunc op) (s : SdkState) (l : Label GoError) (t : SdkState)
    (hs : SdkKept op s) (hfree : storeFree s l) (h : (iterateFunc cfg).step s l = some t) :
    SdkKept op t := by
  cases l with
  | loop timerFired => exact sdkKept_loopStep hs (loopStep_inv h)
  | go j answer =>
      simp only [iterateFunc, iterateStep] at h
      split at h
      case h_1 g hj =>
          exact sdkKept_goStep hcfg hs (fun i sdk => hfree g i sdk hj) hj (goStep_inv h)
      case h_2 => cases h

/-! ## Every call uses its own SDK -/

/-- **Calls use their own SDK while stores are free.**  In every run whose steps
    are all `storeFree`, each ledger and resource management call of an
    iteration uses the SDK that the iteration created, and that SDK is built
    from the config of the iteration's channel. -/
theorem calls_use_own_sdk (op : ChannelOp) (routineLimit : Nat)
    (ignoreErrors iterationCount : String) (parseDuration : String → Option Int64) (c0 : Int64)
    (ls : List (Label GoError)) (s : SdkState)
    (hrun : (iterateFunc (channelOpConfig op routineLimit ignoreErrors iterationCount
      parseDuration)).Run storeFree (State.initial .fresh c0) ls s) :
    ∀ u ∈ s.shared.uses, u.Own op s.shared.sdks :=
  (hrun.preserves (sdkKept_step rfl) (sdkKept_initial op c0)).uses

/-- With a routine limit of one no two iterations are in flight, so every store
    is free. -/
theorem storeFree_of_limit_one {op : ChannelOp} {ignoreErrors iterationCount : String}
    {parseDuration : String → Option Int64} {c0 : Int64} {ls : List (Label GoError)}
    {s : SdkState}
    (hrun : (iterateFunc (channelOpConfig op 1 ignoreErrors iterationCount parseDuration)).exec
      (State.initial .fresh c0) ls = some s) :
    (iterateFunc (channelOpConfig op 1 ignoreErrors iterationCount parseDuration)).Run storeFree
      (State.initial .fresh c0) ls s := by
  refine (Lts.Run.of_exec hrun).strengthen threads_step ?_ (threads_initial _ _ c0)
  intro s l hs _
  cases l with
  | loop timerFired => trivial
  | go j answer =>
      intro g i sdk hj hpc g' hg'
      -- the one goroutine in flight is the one at its store
      rcases hs.eq_or_not_holding (le_refl 1) hj (by rw [hpc]; rfl) hg' with rfl | hout
      · rw [hpc]
        rfl
      · cases hpc' : g'.pc with
        | exited err => rfl
        | _ => rw [hpc'] at hout; cases hout

/-- `n` steps of goroutine `j`, in which every call succeeds. -/
def sdkSteps (j n : Nat) : List (Label GoError) := List.replicate n (.go j none)

/-- Two iterations under a limit of one. -/
def sdkSerialRun : List (Label GoError) :=
  List.replicate 6 (.loop false) ++ sdkSteps 0 14 ++ List.replicate 6 (.loop false) ++
    sdkSteps 1 14 ++ List.replicate 5 (.loop false)

/-- The update of one channel. -/
def updateOp : ChannelOp := .singleChannelUpdate "ch" ⟨"2s", false, false, [], []⟩

theorem calls_use_own_sdk_serial :
    ∃ s, (iterateFunc (channelOpConfig updateOp 1 "false" "2" fun _ => none)).exec
        (State.initial .fresh 0) sdkSerialRun = some s ∧
      s.pc = .returned ∧ s.shared.uses.length = 8 ∧
      ∀ u ∈ s.shared.uses, u.Own updateOp s.shared.sdks := by
  refine ⟨_, (Option.some_get (by decide)).symm, by decide, by decide, ?_⟩
  exact calls_use_own_sdk updateOp 1 "false" "2" (fun _ => none) 0 sdkSerialRun _
    (storeFree_of_limit_one (Option.some_get (by decide)).symm)

/-- Two iterations under a limit of two: the second stores its SDK between the
    store and the read of the first. -/
def sdkOverlappingRun : List (Label GoError) :=
  List.replicate 13 (.loop false) ++ sdkSteps 0 5 ++ sdkSteps 1 5 ++ sdkSteps 0 9 ++
    sdkSteps 1 9 ++ List.replicate 4 (.loop false)

/-- Every call of the first iteration, for channel `ch0`, uses the SDK built
    from the config of `ch1`. -/
theorem sdk_of_another_channel :
    ∃ s, (iterateFunc (channelOpConfig updateOp 2 "false" "2" fun _ => none)).exec
        (State.initial .fresh 0) sdkOverlappingRun = some s ∧
      s.pc = .returned ∧
      s.shared.sdks = [⟨updateOp.channelID 0⟩, ⟨updateOp.channelID 1⟩] ∧
      s.shared.uses.take 4 = updateOp.calls.map (⟨0, ·, 0, some 1⟩) ∧
      ¬ ∀ u ∈ s.shared.uses, u.Own updateOp s.shared.sdks := by
  exact ⟨_, (Option.some_get (by decide)).symm, by decide, by decide, by decide, by decide⟩

end Hfrd.GoSdk
