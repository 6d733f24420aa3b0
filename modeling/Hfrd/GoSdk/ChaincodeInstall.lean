/-
  Hfrd.GoSdk.ChaincodeInstall

  `installChaincode` of modules/gosdk/chaincode/install.go.

  Three nested loops, over the organizations of the connection profile, the
  peers of each and the peers requested, select the pairs to install on; each
  selected peer gets an `IterateFunc` over the range of chaincodes.  The state
  is the list of what has been installed, in the order of the calls.

  The organizations are a map; a value of the model lists them in the order the
  loop visits them, so every theorem is about every iteration order.
-/

import Hfrd.GoSdk.ChannelCommand
import Mathlib.Data.List.Nodup

namespace Hfrd.GoSdk

open Hfrd.Go

/-- The settings of `chaincode install`. -/
structure InstallSettings extends Settings where
  /-- `viperConn.Unmarshal(&organizations)` -/
  unmarshalOrganizations : GoError
  organizations : List (String × List String)
  peers : List String
  chaincodeNamePrefix : String
  chaincodeVersion : String
  path : String
  lang : String
  /-- `filepath.Dir` -/
  filepathDir : String → String
  /-- The texts of the errors of `InstallChaincode`. -/
  failures : String → Bool

/-- What one successful `InstallCC` has installed: the request, the endpoint
    and the organization of the context. -/
structure Installation where
  name : String
  version : String
  path : String
  peer : String
  org : String
deriving DecidableEq

/-- A schedule of one `IterateFunc`; a choice is the answer of an install. -/
abbrev InstallSchedule := List (Label GoError)

/-- `for .. range l { .. return err .. }`: the body is run on each element,
    up to the first error. -/
def forEach {α σ : Type} (body : α → σ → Option (σ × GoError)) :
    List α → σ → Option (σ × GoError)
  | [], st => some (st, none)
  | a :: rest, st =>
      match body a st with
      | none => none
      | some (st, some err) => some (st, some err)
      | some (st, none) => forEach body rest st

section Command

variable (env : InstallSettings)

/-- The request that `InstallChaincode` makes; a package in `cds` format has
    its directory for a path. -/
def installation (name peer org : String) : Installation where
  name := name
  version := env.chaincodeVersion
  path := if env.lang = "cds" then env.filepathDir env.path else env.path
  peer := peer
  org := org

/-- `InstallChaincode` -/
def installCC (name peer org : String) (installed : List Installation) (answer : GoError) :
    Option (List Installation × GoError) :=
  match answer with
  | none => some (installed ++ [installation env name peer org], none)
  | some err => if env.failures err then some (installed, some err) else none

/-- `installFunc` -/
def installFunc (peer org : String) : IterFunc (List Installation) Int64 GoError :=
  atomicFunc fun iterationIndex =>
    installCC env (env.chaincodeNamePrefix ++ itoa iterationIndex) peer org

/-- The body of the innermost loop: the range of chaincodes on one peer. -/
def installOn (org peer : String) (st : List Installation × List InstallSchedule) :
    Option ((List Installation × List InstallSchedule) × GoError) :=
  match env.shiftedCount with
  | .error err => some (st, some err)
  | .ok iterationCount =>
      match st.2 with
      -- the run is cut short: it is no run of the command
      | [] => none
      | schedule :: schedules =>
          -- `base` is re-armed: each peer has the whole range, from the offset on
          (runIterateFunc (env.config (installFunc env peer org) false iterationCount) st.1
            env.prefixOffset schedule).map fun s => ((s.shared, schedules), s.retErr)

/-- The loop over the peers provided in the cli parameters. -/
def requestedLoop (org peer : String) :
    List Installation × List InstallSchedule →
      Option ((List Installation × List InstallSchedule) × GoError) :=
  forEach (fun peer1 st => if peer = peer1 then installOn env org peer st else some (st, none))
    env.peers

/-- The steps of `installChaincode` before its loops. -/
def prepareInstall : Except String Unit := do
  returnOn env.getViperInstance
  returnOn
    (withMessage "unmarshall connection profiles from connection profile error" env.unmarshal)
  returnOn (withMessage "unmarshall organizations from connection profile error"
    env.unmarshalOrganizations)
  returnOn env.getConfigBackends
  returnOn env.fabsdkNew

/-- `installChaincode`: what it has installed and the error it returns, under
    one schedule for each `IterateFunc`. -/
def installChaincode (schedules : List InstallSchedule) :
    Option (List Installation × GoError) :=
  match prepareInstall env with
  | .error err => some ([], some err)
  | .ok () =>
      (forEach (fun org st => forEach (requestedLoop env org.1) org.2 st) env.organizations
        ([], schedules)).map fun r => (r.1.1, r.2)

end Command

/-! ## Loops -/

section Loops

variable {α β σ : Type}

theorem forEach_append (body : α → σ → Option (σ × GoError)) (l l' : List α) (st : σ) :
    forEach body (l ++ l') st =
      match forEach body l st with
      | none => none
      | some (st, some err) => some (st, some err)
      | some (st, none) => forEach body l' st := by
  induction l generalizing st with
  | nil => rfl
  | cons a l ih =>
      simp only [List.cons_append, forEach]
      split
      · rfl
      · rfl
      · exact ih _

/-- A loop in a loop is a loop over all the elements. -/
theorem forEach_flatMap (body : β → σ → Option (σ × GoError)) (f : α → List β) (l : List α)
    (st : σ) :
    forEach (fun a st => forEach body (f a) st) l st = forEach body (l.flatMap f) st := by
  induction l generalizing st with
  | nil => rfl
  | cons a l ih =>
      rw [List.flatMap_cons, forEach_append, forEach]
      split
      · simp only [*]
      · simp only [*]
      · simp only [*]

/-- A guarded body runs on the elements that pass the guard. -/
theorem forEach_ite (body : α → σ → Option (σ × GoError)) (p : α → Bool) (l : List α) (st : σ) :
    forEach (fun a st => if p a then body a st else some (st, none)) l st
      = forEach body (l.filter p) st := by
  induction l generalizing st with
  | nil => rfl
  | cons a l ih =>
      cases h : p a with
      | true => simp only [forEach, List.filter_cons, h, if_true, ih]
      | false => simp only [forEach, List.filter_cons, h, Bool.false_eq_true, if_false, ih]

theorem forEach_map (body : β → σ → Option (σ × GoError)) (f : α → β) (l : List α) (st : σ) :
    forEach (fun a st => body (f a) st) l st = forEach body (l.map f) st := by
  induction l generalizing st with
  | nil => rfl
  | cons a l ih => simp only [forEach, List.map_cons, ih]

/-- What every body that ends without an error does to `P`, the loop does. -/
theorem forEach_nil {body : α → σ → Option (σ × GoError)} (P : List α → σ → Prop)
    (hbody : ∀ done a st st', P done st → body a st = some (st', none) → P (done ++ [a]) st')
    (done : List α) {l : List α} {st st' : σ} (hP : P done st)
    (h : forEach body l st = some (st', none)) : P (done ++ l) st' := by
  induction l generalizing done st with
  | nil =>
      cases h
      rwa [List.append_nil]
  | cons a l ih =>
      simp only [forEach] at h
      split at h
      · cases h
      · cases h
      · next heq =>
          have hnext := ih (done ++ [a]) (hbody done a _ _ hP heq) h
          rwa [List.append_assoc] at hnext

/-- When the body can succeed from every state, so can the loop.  A state is
    what has been done and the schedules that are left. -/
theorem exists_forEach {ι κ : Type} (body : α → ι × List κ → Option ((ι × List κ) × GoError))
    (hbody : ∀ a done, ∃ schedules done', ∀ later,
      body a (done, schedules ++ later) = some ((done', later), none)) (l : List α) (done : ι) :
    ∃ schedules done', ∀ later,
      forEach body l (done, schedules ++ later) = some ((done', later), none) := by
  induction l generalizing done with
  | nil => exact ⟨[], done, fun _ => rfl⟩
  | cons a l ih =>
      obtain ⟨first, done1, hfirst⟩ := hbody a done
      obtain ⟨rest, done2, hrest⟩ := ih done1
      refine ⟨first ++ rest, done2, fun later => ?_⟩
      rw [forEach, List.append_assoc, hfirst]
      exact hrest later

end Loops

/-! ## Which peers are selected -/

variable {env : InstallSettings}

/-- The pairs (organization, peer) on which the loops install, in order. -/
def selected (env : InstallSettings) : List (String × String) :=
  env.organizations.flatMap fun org => org.2.flatMap fun peer =>
    (env.peers.filter fun peer1 => decide (peer = peer1)).map fun _ => (org.1, peer)

theorem mem_selected {org peer : String} :
    (org, peer) ∈ selected env ↔
      ∃ listed, (org, listed) ∈ env.organizations ∧ peer ∈ listed ∧ peer ∈ env.peers := by
  simp only [selected, List.mem_flatMap, List.mem_map, List.mem_filter, decide_eq_true_eq]
  constructor
  · rintro ⟨⟨org', listed⟩, horg, peer', hlisted, peer1, ⟨hreq, rfl⟩, heq⟩
    cases heq
    exact ⟨listed, horg, hlisted, hreq⟩
  · rintro ⟨listed, horg, hlisted, hreq⟩
    exact ⟨(org, listed), horg, peer, hlisted, peer, ⟨hreq, rfl⟩, rfl⟩

/-- A peer that is listed once and requested once is selected once. -/
theorem nodup_selected (hlisted : (env.organizations.flatMap (·.2)).Nodup)
    (hpeers : env.peers.Nodup) : (selected env).Nodup := by
  have hsnd : (selected env).map (·.2) = (env.organizations.flatMap (·.2)).flatMap fun peer =>
      List.replicate (env.peers.filter fun peer1 => decide (peer = peer1)).length peer := by
    simp only [selected, List.map_flatMap, List.flatMap_assoc, List.map_const',
      List.map_replicate]
  -- the peers alone are distinct: each stands as often as it is requested
  refine List.Nodup.of_map (·.2) ?_
  rw [hsnd, List.nodup_flatMap]
  refine ⟨fun peer _ => ?_, hlisted.imp fun hne => ?_⟩
  · rw [List.nodup_replicate]
    have hcount := List.nodup_iff_count_le_one.mp hpeers peer
    rw [List.count_eq_countP, List.countP_eq_length_filter] at hcount
    refine le_of_eq_of_le (congrArg List.length (List.filter_congr fun x _ => ?_)) hcount
    rw [Bool.eq_iff_iff, decide_eq_true_eq, beq_iff_eq]
    exact eq_comm
  · intro x hx hy
    rw [List.eq_of_mem_replicate hx] at hy
    exact hne (List.eq_of_mem_replicate hy)

theorem requestedLoop_eq (org peer : String)
    (st : List Installation × List InstallSchedule) :
    requestedLoop env org peer st = forEach (fun sel => installOn env sel.1 sel.2)
      ((env.peers.filter fun peer1 => decide (peer = peer1)).map fun _ => (org, peer)) st := by
  rw [← forEach_map, ← forEach_ite]
  simp only [requestedLoop, decide_eq_true_eq]

/-- The three loops go through the selected pairs. -/
theorem loops_eq (st : List Installation × List InstallSchedule) :
    forEach (fun org st => forEach (requestedLoop env org.1) org.2 st) env.organizations st
      = forEach (fun sel => installOn env sel.1 sel.2) (selected env) st := by
  have hinner : ∀ (org : String × List String) st, forEach (requestedLoop env org.1) org.2 st
      = forEach (fun sel => installOn env sel.1 sel.2) (org.2.flatMap fun peer =>
        (env.peers.filter fun peer1 => decide (peer = peer1)).map fun _ => (org.1, peer)) st := by
    intro org st
    rw [← forEach_flatMap]
    exact congrFun (congrFun (congrArg forEach (funext fun peer => funext fun st =>
      requestedLoop_eq org.1 peer st)) org.2) st
  rw [selected, ← forEach_flatMap]
  exact congrFun (congrFun (congrArg forEach (funext fun org => funext fun st => hinner org st))
    env.organizations) st

/-! ## The range of chaincodes on one peer -/

/-- The installations of `k` chaincodes on one peer, from the offset on. -/
def chaincodes (env : InstallSettings) (k : Nat) (sel : String × String) : List Installation :=
  (List.range k).map fun i => installation env
    (env.chaincodeNamePrefix ++ itoa (env.prefixOffset + Int64.ofNat i)) sel.2 sel.1

/-- The number of iterations that `IterationCount` and `prefixOffset` make. -/
def iterations (env : InstallSettings) (n : Int64) : Nat :=
  ((n + env.prefixOffset).toInt - env.prefixOffset.toInt).toNat

theorem installCC_inv {name peer org : String} {installed installed' : List Installation}
    {answer err : GoError}
    (h : installCC env name peer org installed answer = some (installed', err)) :
    (err = none ∧ installed' = installed ++ [installation env name peer org]) ∨
      ∃ e, err = some e ∧ env.failures e = true ∧ installed' = installed := by
  unfold installCC at h
  cases answer with
  | none =>
      cases h
      exact Or.inl ⟨rfl, rfl⟩
  | some e =>
      simp only at h
      split at h <;> cases h
      exact Or.inr ⟨e, rfl, ‹_›, rfl⟩

/-- An `IterateFunc` that returns nil has installed its range. -/
theorem installOn_nil {n : Int64} (hn : atoi env.iterationCount = some n)
    (hno : ∀ err, env.failures err = true → ignoredError err = false)
    {sel : String × String} {st st' : List Installation × List InstallSchedule}
    (h : installOn env sel.1 sel.2 st = some (st', none)) :
    st'.1.Perm (st.1 ++ chaincodes env (iterations env n) sel) := by
  obtain ⟨installed, schedules⟩ := st
  have hcount : env.shiftedCount = .ok (itoa (n + env.prefixOffset)) := by
    simp only [Settings.shiftedCount, hn]
  simp only [installOn, hcount] at h
  cases schedules with
  | nil => cases h
  | cons schedule schedules =>
      obtain ⟨s, hrun, heq⟩ := Option.map_eq_some_iff.mp h
      obtain ⟨rfl, hnil⟩ := Prod.mk.inj heq
      have hshifted : atoi (env.config (installFunc env sel.2 sel.1) false
        (itoa (n + env.prefixOffset))).iterationCount = some (n + env.prefixOffset) := atoi_itoa _
      obtain ⟨hperm, hquiet⟩ := runIterateFunc_nil hshifted hrun hnil
      -- what is installed follows the log of outcomes
      obtain ⟨hlog, hfail⟩ := runIterateFunc_effects
        (fun shared returns =>
          shared = installed ++ ((returns.filter (·.2.isNone)).map fun r => installation env
            (env.chaincodeNamePrefix ++ itoa r.1) sel.2 sel.1) ∧
          ∀ r ∈ returns, ∀ err, r.2 = some err → env.failures err = true) rfl hrun
        ⟨(List.append_nil _).symm, fun _ h => absurd h List.not_mem_nil⟩ (by
          intro shared returns i answer shared' err hP hcall
          obtain ⟨hlog, hfail⟩ := hP
          rcases installCC_inv hcall with ⟨rfl, rfl⟩ | ⟨e, rfl, he, rfl⟩
          · refine ⟨by rw [hlog]; simp, fun r hr e he => ?_⟩
            rcases List.mem_append.mp hr with hold | hnew
            · exact hfail r hold e he
            · rw [List.mem_singleton.mp hnew] at he
              cases he
          · refine ⟨by rw [hlog]; simp, fun r hr e' he' => ?_⟩
            rcases List.mem_append.mp hr with hold | hnew
            · exact hfail r hold e' he'
            · rw [List.mem_singleton.mp hnew] at he'
              cases he'
              exact he)
      -- every outcome is a success: a failure is not ignored, and would be the result
      have hall : s.returns.filter (·.2.isNone) = s.returns := by
        apply List.filter_eq_self.mpr
        intro r hr
        cases hout : r.2 with
        | none => rfl
        | some err =>
            have hrep := hquiet r hr
            rw [hout, reportable, hno err (hfail r hr err hout)] at hrep
            cases hrep
      rw [hall] at hlog
      show s.shared.Perm (installed ++ _)
      rw [hlog, chaincodes]
      refine List.Perm.append_left _ ?_
      have hmap := hperm.map fun i =>
        installation env (env.chaincodeNamePrefix ++ itoa i) sel.2 sel.1
      rw [List.map_map, List.map_map] at hmap
      exact hmap

/-- Every install may succeed. -/
theorem exists_installOn (hlimit : 1 ≤ env.routineLimit) {n : Int64}
    (hn : atoi env.iterationCount = some n) (sel : String × String)
    (installed : List Installation) :
    ∃ schedules installed', ∀ later : List InstallSchedule,
      installOn env sel.1 sel.2 (installed, schedules ++ later)
        = some ((installed', later), none) := by
  have hcount : env.shiftedCount = .ok (itoa (n + env.prefixOffset)) := by
    simp only [Settings.shiftedCount, hn]
  have hlimit : 1 ≤ (env.config (installFunc env sel.2 sel.1) false
    (itoa (n + env.prefixOffset))).limit := hlimit
  obtain ⟨schedule, s, hrun, hnil, -⟩ := exists_runIterateFunc (fun _ _ => True) rfl hlimit
    (atoi_itoa _) (fun _ _ => none) (fun i shared => ⟨_, none, rfl, rfl⟩)
    (fun _ _ _ _ _ _ _ => trivial) installed env.prefixOffset trivial
  refine ⟨[schedule], s.shared, fun later => ?_⟩
  simp only [installOn, hcount, List.singleton_append, hrun, hnil, Option.map_some]

/-! ## The range of indices -/

/-- The range is the count that was given, unless the sum with the offset
    leaves the range of an `int`: then it is empty. -/
theorem iterations_eq {n : Int64} (hn : 1 ≤ n.toInt) (hoffset : 0 ≤ env.prefixOffset.toInt) :
    iterations env n
      = if env.prefixOffset.toInt + n.toInt < 2 ^ 63 then n.toInt.toNat else 0 := by
  have hhi := n.toInt_lt
  have hohi := env.prefixOffset.toInt_lt
  unfold iterations
  rw [Int64.toInt_add]
  split
  · rw [Int.bmod_eq_of_le (by omega) (by omega)]
    omega
  · -- the sum wraps to a negative number
    have hwrap : (n.toInt + env.prefixOffset.toInt).bmod (2 ^ 64)
        = n.toInt + env.prefixOffset.toInt - 2 ^ 64 := by
      rw [← Int.sub_bmod_right]
      exact Int.bmod_eq_of_le (by omega) (by omega)
    rw [hwrap]
    omega

/-- The index of an iteration, as the integer it stands for. -/
theorem itoa_index {n : Int64} (hfits : env.prefixOffset.toInt + n.toInt < 2 ^ 63) {i : Nat}
    (hi : i < n.toInt.toNat) :
    itoa (env.prefixOffset + Int64.ofNat i) = toString (env.prefixOffset.toInt + i) := by
  rw [itoa, toInt_add_ofNat (by omega)]

theorem nodup_chaincodes {k : Nat} (hk : k ≤ 2 ^ 64) (sel : String × String) :
    (chaincodes env k sel).Nodup := by
  have hindices := nodup_indices env.prefixOffset hk
  have hinj : Function.Injective fun i => installation env (env.chaincodeNamePrefix ++ itoa i)
      sel.2 sel.1 := by
    intro i j hij
    exact itoa_injective (String.append_right_inj _ |>.mp (congrArg Installation.name hij))
  have hmap := hindices.map hinj
  rw [List.map_map] at hmap
  exact hmap

/-- The installations on distinct pairs are distinct. -/
theorem nodup_installations (env : InstallSettings) {k : Nat} (hk : k ≤ 2 ^ 64)
    {sels : List (String × String)} (hsels : sels.Nodup) :
    (sels.flatMap (chaincodes env k)).Nodup := by
  rw [List.nodup_flatMap]
  refine ⟨fun sel _ => nodup_chaincodes hk sel, hsels.imp fun hne x hx hy => ?_⟩
  obtain ⟨i, -, rfl⟩ := List.mem_map.mp hx
  obtain ⟨j, -, heq⟩ := List.mem_map.mp hy
  apply hne
  exact Prod.ext (congrArg Installation.org heq).symm (congrArg Installation.peer heq).symm

/-! ## The command -/

/-- The chaincode `prefix + i` on a peer of an organization. -/
def chaincode (env : InstallSettings) (i : Int) (peer org : String) : Installation :=
  installation env (env.chaincodeNamePrefix ++ toString i) peer org

/-- The peer is listed under the organization. -/
def ListedUnder (env : InstallSettings) (org peer : String) : Prop :=
  ∃ listed, (org, listed) ∈ env.organizations ∧ peer ∈ listed

/-- Every chaincode of the range is installed exactly once on every requested
    peer, under the organization that owns it, and nothing else is. -/
def InstalledExactly (env : InstallSettings) (n : Int64) (installed : List Installation) : Prop :=
  (∀ peer ∈ env.peers, ∃ org, ListedUnder env org peer ∧ ∀ i : Int, env.prefixOffset.toInt ≤ i →
    i < env.prefixOffset.toInt + n.toInt → installed.count (chaincode env i peer org) = 1) ∧
  ∀ x ∈ installed, ∃ peer ∈ env.peers, ∃ org, ListedUnder env org peer ∧ ∃ i : Int,
    env.prefixOffset.toInt ≤ i ∧ i < env.prefixOffset.toInt + n.toInt ∧
      x = chaincode env i peer org

/-- What a successful command has installed, up to the order of the calls. -/
theorem installChaincode_nil {n : Int64} (hn : atoi env.iterationCount = some n)
    (hno : ∀ err, env.failures err = true → ignoredError err = false)
    {schedules : List InstallSchedule} {installed : List Installation}
    (h : installChaincode env schedules = some (installed, none)) :
    prepareInstall env = .ok () ∧
      installed.Perm ((selected env).flatMap (chaincodes env (iterations env n))) := by
  unfold installChaincode at h
  split at h
  · cases h
  · next hok =>
      obtain ⟨⟨st, err⟩, hloop, heq⟩ := Option.map_eq_some_iff.mp h
      obtain ⟨rfl, rfl⟩ := Prod.mk.inj heq
      rw [loops_eq] at hloop
      -- the installations on the pairs that are done
      let P := fun (done : List (String × String))
          (st : List Installation × List InstallSchedule) =>
        st.1.Perm (done.flatMap (chaincodes env (iterations env n)))
      have hbody : ∀ done sel st st', P done st →
          installOn env sel.1 sel.2 st = some (st', none) → P (done ++ [sel]) st' := by
        intro done sel st st' hP hbody
        show st'.1.Perm _
        rw [List.flatMap_append, List.flatMap_singleton]
        exact (installOn_nil hn hno hbody).trans (List.Perm.append_right _ hP)
      exact ⟨hok, forEach_nil P hbody [] (List.Perm.refl _) hloop⟩

theorem exists_installChaincode (hlimit : 1 ≤ env.routineLimit) {n : Int64}
    (hn : atoi env.iterationCount = some n) (hok : prepareInstall env = .ok ()) :
    ∃ schedules installed, installChaincode env schedules = some (installed, none) := by
  obtain ⟨schedules, installed, hloop⟩ := exists_forEach
    (fun sel : String × String => installOn env sel.1 sel.2)
    (fun sel done => exists_installOn hlimit hn sel done) (selected env) []
  refine ⟨schedules ++ [], installed, ?_⟩
  simp only [installChaincode, hok, loops_eq, hloop [], Option.map_some]

/-- A nil result means that what was requested is installed, exactly. -/
def InstallsAll (env : InstallSettings) (n : Int64) : Prop :=
  ∀ schedules installed, installChaincode env schedules = some (installed, none) →
    InstalledExactly env n installed

/-- Every requested peer is listed under an organization of the profile, and
    the range of indices fits an `int`; or the command ends before its loops. -/
def Coverable (env : InstallSettings) (n : Int64) : Prop :=
  (∃ err, prepareInstall env = .error err) ∨
    (∀ peer ∈ env.peers, ∃ org, ListedUnder env org peer) ∧
      (env.peers = [] ∨ env.prefixOffset.toInt + n.toInt < 2 ^ 63)

theorem installedExactly_of_coverable {n : Int64} (hn : 1 ≤ n.toInt)
    (hoffset : 0 ≤ env.prefixOffset.toInt)
    (hlisted : (env.organizations.flatMap (·.2)).Nodup) (hpeers : env.peers.Nodup)
    (howned : ∀ peer ∈ env.peers, ∃ org, ListedUnder env org peer)
    (hfits : env.peers = [] ∨ env.prefixOffset.toInt + n.toInt < 2 ^ 63)
    {installed : List Installation}
    (hperm : installed.Perm ((selected env).flatMap (chaincodes env (iterations env n)))) :
    InstalledExactly env n installed := by
  have hhi := n.toInt_lt
  have hfits : ∀ peer ∈ env.peers, env.prefixOffset.toInt + n.toInt < 2 ^ 63 := by
    intro peer hpeer
    refine hfits.resolve_left fun hnil => ?_
    rw [hnil] at hpeer
    exact absurd hpeer List.not_mem_nil
  have hk : ∀ peer ∈ env.peers, iterations env n = n.toInt.toNat := fun peer hpeer =>
    (iterations_eq hn hoffset).trans (if_pos (hfits peer hpeer))
  constructor
  · intro peer hpeer
    obtain ⟨org, listed, horg, hlist⟩ := howned peer hpeer
    -- the list of installations has no duplicate, so one that is in it is in it once
    refine ⟨org, ⟨listed, horg, hlist⟩, fun i hlo hi => ?_⟩
    have hkn := hk peer hpeer
    have hfew : iterations env n ≤ 2 ^ 64 := by omega
    have hnodup := nodup_installations env hfew (nodup_selected hlisted hpeers)
    rw [hperm.count_eq]
    refine List.count_eq_one_of_mem hnodup ?_
    refine List.mem_flatMap.mpr ⟨(org, peer), mem_selected.mpr ⟨listed, horg, hlist, hpeer⟩, ?_⟩
    refine List.mem_map.mpr ⟨(i - env.prefixOffset.toInt).toNat, ?_, ?_⟩
    · rw [List.mem_range, hkn]
      omega
    · rw [itoa_index (hfits peer hpeer) (by omega), chaincode]
      congr 3
      omega
  · intro x hx
    obtain ⟨⟨org, peer⟩, hsel, hmem⟩ := List.mem_flatMap.mp (hperm.mem_iff.mp hx)
    obtain ⟨listed, horg, hlist, hpeer⟩ := mem_selected.mp hsel
    obtain ⟨j, hj, rfl⟩ := List.mem_map.mp hmem
    rw [List.mem_range, hk peer hpeer] at hj
    refine ⟨peer, hpeer, org, ⟨listed, horg, hlist⟩, env.prefixOffset.toInt + j, by omega,
      by omega, ?_⟩
    rw [itoa_index (hfits peer hpeer) hj, chaincode]

/-- **When a successful install covers the request.**  For every iteration
    order of the organizations: exactly when every requested peer is listed
    under one of them and the range of indices fits an `int`.  That this is
    enough holds for every concurrency limit. -/
theorem installChaincode_covers_iff (env : InstallSettings) (n : Int64)
    (hn : atoi env.iterationCount = some n) (hpos : 1 ≤ n.toInt)
    (hoffset : 0 ≤ env.prefixOffset.toInt)
    (hlisted : (env.organizations.flatMap (·.2)).Nodup) (hpeers : env.peers.Nodup)
    (hno : ∀ err, env.failures err = true → ignoredError err = false) :
    (Coverable env n → InstallsAll env n) ∧
      (1 ≤ env.routineLimit → (InstallsAll env n ↔ Coverable env n)) := by
  have henough : Coverable env n → InstallsAll env n := by
    intro hcov schedules installed hrun
    obtain ⟨hok, hperm⟩ := installChaincode_nil hn hno hrun
    rcases hcov with ⟨err, herr⟩ | ⟨howned, hfits⟩
    · rw [hok] at herr
      cases herr
    · exact installedExactly_of_coverable hpos hoffset hlisted hpeers howned hfits hperm
  refine ⟨henough, fun hlimit => ⟨fun hall => ?_, henough⟩⟩
  cases hok : prepareInstall env with
  | error err => exact Or.inl ⟨err, hok⟩
  | ok =>
      -- the run in which every install succeeds
      obtain ⟨schedules, installed, hrun⟩ := exists_installChaincode hlimit hn hok
      obtain ⟨hreq, -⟩ := hall schedules installed hrun
      refine Or.inr ⟨fun peer hpeer => ?_, ?_⟩
      · obtain ⟨org, howns, -⟩ := hreq peer hpeer
        exact ⟨org, howns⟩
      · cases hlist : env.peers with
        | nil => exact Or.inl rfl
        | cons peer others =>
            -- the first chaincode is installed, so the range is not empty
            refine Or.inr ?_
            obtain ⟨org, -, hcount⟩ := hreq peer (hlist ▸ List.mem_cons_self)
            have hone := hcount env.prefixOffset.toInt (Int.le_refl _) (by omega)
            have hmem := List.count_pos_iff.mp (by rw [hone]; decide)
            obtain ⟨-, hperm⟩ := installChaincode_nil hn hno hrun
            obtain ⟨sel, -, hin⟩ := List.mem_flatMap.mp (hperm.mem_iff.mp hmem)
            obtain ⟨j, hj, -⟩ := List.mem_map.mp hin
            rw [List.mem_range, iterations_eq hpos hoffset] at hj
            by_contra hbig
            rw [if_neg hbig] at hj
            exact absurd hj (Nat.not_lt_zero j)

/-- One chaincode on the requested peers; the profile lists `p1` under
    `org1`. -/
def installCc0 (peers : List String) : InstallSettings where
  toSettings := oneChannel.toSettings
  unmarshalOrganizations := none
  organizations := [("org1", ["p1"])]
  peers := peers
  chaincodeNamePrefix := "cc"
  chaincodeVersion := "v1"
  path := "chaincode/samplecc"
  lang := "golang"
  filepathDir path := path
  failures _ := false

/-- A requested peer that the profile does not list: the command succeeds and
    installs nothing. -/
theorem installChaincode_skips_unlisted :
    installChaincode (installCc0 ["p2"]) [] = some ([], none) ∧
      ¬ InstalledExactly (installCc0 ["p2"]) 1 [] := by
  refine ⟨by decide, fun h => ?_⟩
  obtain ⟨org, -, hcount⟩ := h.1 "p2" List.mem_cons_self
  exact Nat.zero_ne_one (hcount 0 (by decide) (by decide))

theorem installChaincode_covers_p1 : InstallsAll (installCc0 ["p1"]) 1 := by
  refine (installChaincode_covers_iff (installCc0 ["p1"]) 1 (by decide) (by decide) (by decide)
    (by decide) (by decide) nofun).1 (Or.inr ⟨fun peer hpeer => ?_, Or.inr (by decide)⟩)
  exact ⟨"org1", ["p1"], List.mem_cons_self, hpeer⟩

end Hfrd.GoSdk
