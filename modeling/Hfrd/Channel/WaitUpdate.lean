/-
  Hfrd.Channel.WaitUpdate

  `WaitUntilUpdateSucc` (modules/gosdk/channel/utilities/channel.go) polls the
  config of a channel until it shows the update.

  What the queries answer is the input.  The loop compares the batch settings
  with the requested ones, but of the anchor peers it only asks that there are
  some, and of the orderer addresses nothing: the check is commented out.  A
  config that does not have the expected shape is a panic.
-/

import Hfrd.Channel.OrdererAddresses

namespace Hfrd.Channel

open Hfrd.Go

/-- What one turn of the loop gets from the ledger. -/
inductive Observation
  /-- `QueryChannelConfigBlock` fails. -/
  | queryError (err : String)
  /-- `DecodeProto` fails. -/
  | decodeError (err : String)
  | channelGroup (currentChannelGroup : Fields)

/-! ## The loop -/

/-- The `continue`s of a turn. -/
def notYet (updateOptions : UpdateOptions) (config : CurrentConfig) : Bool :=
  updateOptions.ordererOrgUpdate &&
      (timeoutDiffers config updateOptions ||
        numberDiffers config.maxMessageCount updateOptions.maxMessageCount ||
        numberDiffers config.preferredMaxBytes updateOptions.preferredMaxBytes) ||
    updateOptions.peerOrgUpdate && config.anchorPeers.isNone

/-- One turn: `none` goes on polling; otherwise the error that is returned, or a
    panic. -/
def pollOnce (updateOptions : UpdateOptions) : Observation → Option (Except Failure GoError)
  | .queryError err => some (.ok (some err))
  | .decodeError err => some (.ok (some ("Error in decode proto : " ++ err)))
  | .channelGroup currentChannelGroup =>
      match getConfigFromChannelGroup currentChannelGroup updateOptions.mspID with
      | none => some (.error .panic)
      | some config => if notYet updateOptions config then none else some (.ok none)

/-- The loop from a number of turns on, and the turn in which it ends; `none`
    where all answers have been used and it still polls. -/
def waitLoop (updateOptions : UpdateOptions) :
    Nat → List Observation → Option (Nat × Except Failure GoError)
  | _, [] => none
  | waitCount, observation :: rest =>
      match pollOnce updateOptions observation with
      | some result => some (waitCount + 1, result)
      | none => waitLoop updateOptions (waitCount + 1) rest

/-- `waitUntilUpdateSucc` -/
def waitUntilUpdateSucc (updateOptions : UpdateOptions) (observations : List Observation) :
    Option (Nat × Except Failure GoError) :=
  waitLoop updateOptions 0 observations

/-- The loop ends in the first turn that does not go on. -/
theorem waitLoop_eq_some_iff {updateOptions : UpdateOptions} {observations : List Observation}
    {waitCount n : Nat} {result : Except Failure GoError} :
    waitLoop updateOptions waitCount observations = some (n, result) ↔
      ∃ before observation after, observations = before ++ observation :: after ∧
        (∀ earlier ∈ before, pollOnce updateOptions earlier = none) ∧
        pollOnce updateOptions observation = some result ∧
        n = waitCount + before.length + 1 := by
  induction observations generalizing waitCount with
  | nil => simp [waitLoop]
  | cons first rest ih =>
      rw [waitLoop]
      cases hfirst : pollOnce updateOptions first with
      -- the loop ends here, so no earlier observation can have been the last
      | some result' =>
          constructor
          · intro h
            cases h
            exact ⟨[], first, rest, rfl, by simp, hfirst, rfl⟩
          · rintro ⟨before, observation, after, heq, hbefore, hlast, rfl⟩
            cases before with
            | nil =>
                cases heq
                rw [hfirst] at hlast
                cases hlast
                rfl
            | cons earlier before =>
                cases heq
                rw [hbefore first List.mem_cons_self] at hfirst
                cases hfirst
      -- the loop goes on, and the observation is one of those before
      | none =>
          simp only [ih]
          constructor
          · rintro ⟨before, observation, after, rfl, hbefore, hlast, rfl⟩
            refine ⟨first :: before, observation, after, rfl, ?_, hlast, ?_⟩
            · exact List.forall_mem_cons.mpr ⟨hfirst, hbefore⟩
            · rw [List.length_cons]
              omega
          · rintro ⟨before, observation, after, heq, hbefore, hlast, rfl⟩
            cases before with
            | nil =>
                cases heq
                rw [hfirst] at hlast
                cases hlast
            | cons earlier before =>
                cases heq
                refine ⟨before, observation, after, rfl,
                  fun o ho => hbefore o (List.mem_cons_of_mem _ ho), hlast, ?_⟩
                rw [List.length_cons]
                omega

/-! ## What success has to mean -/

section Report

-- `strconv.ParseFloat(s, 32)`, and the addresses that the update wrote
variable (parseFloat : String → Except String Number) (written : List String)

/-- Each requested batch setting is there. -/
def BatchSettled (updateOptions : UpdateOptions) (config : CurrentConfig) : Prop :=
  (updateOptions.batchTimeout ≠ "" → config.batchTimeout = updateOptions.batchTimeout) ∧
    (updateOptions.maxMessageCount.isZero = false →
      config.maxMessageCount.eq updateOptions.maxMessageCount = true) ∧
    (updateOptions.preferredMaxBytes.isZero = false →
      config.preferredMaxBytes.eq updateOptions.preferredMaxBytes = true)

/-- The anchor peers of the organization are the requested ones, as JSON. -/
def AnchorsSettled (updateOptions : UpdateOptions) (config : CurrentConfig) : Prop :=
  ∃ anchorPeerConfig value anchorPeers, config.anchorPeers = some anchorPeerConfig ∧
    (anchorPeerConfig.lookup "value").bind Value.object? = some value ∧
    updateOptions.anchorPeers.mapM (anchorConfig parseFloat) = .ok anchorPeers ∧
    ((value.lookup "anchor_peers").getD .null).text = (Value.array anchorPeers).text

/-- The config shows what the flags say was updated. -/
structure Settled (updateOptions : UpdateOptions) (config : CurrentConfig) : Prop where
  batch : updateOptions.ordererOrgUpdate = true → BatchSettled updateOptions config
  addresses : updateOptions.ordererAddressesUpdate = true → config.orderers.elems = written
  anchorPeers : updateOptions.peerOrgUpdate = true → AnchorsSettled parseFloat updateOptions config

/-- Whatever is returned is nil, with the update in the config observed last,
    or an error. -/
def ReportsSuccess (updateOptions : UpdateOptions) (observations : List Observation) : Prop :=
  ∀ waitCount result,
    waitUntilUpdateSucc updateOptions observations = some (waitCount, result) →
    (result = .ok none ∧ ∃ currentChannelGroup config,
      observations[waitCount - 1]? = some (.channelGroup currentChannelGroup) ∧
      getConfigFromChannelGroup currentChannelGroup updateOptions.mspID = some config ∧
      Settled parseFloat written updateOptions config) ∨
    ∃ err, result = .ok (some err)

/-- A config that lacks a requested batch setting, or any anchor peers. -/
def Lacks (updateOptions : UpdateOptions) (observation : Observation) : Prop :=
  ∃ currentChannelGroup config, observation = .channelGroup currentChannelGroup ∧
    getConfigFromChannelGroup currentChannelGroup updateOptions.mspID = some config ∧
    notYet updateOptions config = true

/-- An error, or a config of the right shape with the addresses that were
    written and the anchor peers that were requested. -/
def Shows (updateOptions : UpdateOptions) (observation : Observation) : Prop :=
  ∀ currentChannelGroup, observation = .channelGroup currentChannelGroup →
    ∃ config, getConfigFromChannelGroup currentChannelGroup updateOptions.mspID = some config ∧
      (updateOptions.ordererAddressesUpdate = true → config.orderers.elems = written) ∧
      (updateOptions.peerOrgUpdate = true → AnchorsSettled parseFloat updateOptions config)

/-- The first answer that lacks nothing shows the rest of the update. -/
def FirstShows (updateOptions : UpdateOptions) (observations : List Observation) : Prop :=
  ∀ before observation after, observations = before ++ observation :: after →
    (∀ earlier ∈ before, Lacks updateOptions earlier) → ¬ Lacks updateOptions observation →
    Shows parseFloat written updateOptions observation

variable {parseFloat written} {updateOptions : UpdateOptions} {config : CurrentConfig}

theorem pollOnce_eq_none_iff {observation : Observation} :
    pollOnce updateOptions observation = none ↔ Lacks updateOptions observation := by
  unfold Lacks pollOnce
  cases observation with
  | queryError err => simp
  | decodeError err => simp
  | channelGroup group =>
      cases hread : getConfigFromChannelGroup group updateOptions.mspID with
      | none => simp [hread]
      | some config => simp [hread]

/-- A turn that does not go on has seen the batch settings. -/
theorem batchSettled_of_notYet (h : notYet updateOptions config = false)
    (hflag : updateOptions.ordererOrgUpdate = true) : BatchSettled updateOptions config := by
  simp only [notYet, hflag, Bool.true_and, Bool.or_eq_false_iff, timeoutDiffers, numberDiffers,
    Bool.and_eq_false_iff, Bool.not_eq_false', bne_eq_false_iff_eq] at h
  obtain ⟨⟨⟨htimeout, hcount⟩, hbytes⟩, -⟩ := h
  refine ⟨fun hset => ?_, fun hset => ?_, fun hset => ?_⟩
  · exact htimeout.resolve_right hset
  · exact hcount.resolve_right (by simp [hset])
  · exact hbytes.resolve_right (by simp [hset])

/-- Nil is right for a config that shows the rest of the update. -/
theorem settled_iff_shows (h : notYet updateOptions config = false) :
    Settled parseFloat written updateOptions config ↔
      (updateOptions.ordererAddressesUpdate = true → config.orderers.elems = written) ∧
      (updateOptions.peerOrgUpdate = true → AnchorsSettled parseFloat updateOptions config) := by
  constructor
  · intro hs
    exact ⟨hs.addresses, hs.anchorPeers⟩
  · rintro ⟨haddresses, hanchors⟩
    exact ⟨batchSettled_of_notYet h, haddresses, hanchors⟩

/-- What the last turn returns is right exactly if its answer shows the rest of
    the update. -/
theorem returned_iff_shows {observation : Observation} {result : Except Failure GoError}
    (hresult : pollOnce updateOptions observation = some result) :
    (result = .ok none ∧ ∃ currentChannelGroup config,
      observation = .channelGroup currentChannelGroup ∧
      getConfigFromChannelGroup currentChannelGroup updateOptions.mspID = some config ∧
      Settled parseFloat written updateOptions config) ∨ (∃ err, result = .ok (some err)) ↔
    Shows parseFloat written updateOptions observation := by
  cases observation with
  | queryError err =>
      cases hresult
      exact iff_of_true (Or.inr ⟨_, rfl⟩) fun _ h => nomatch h
  | decodeError err =>
      cases hresult
      exact iff_of_true (Or.inr ⟨_, rfl⟩) fun _ h => nomatch h
  | channelGroup currentChannelGroup =>
      cases hread : getConfigFromChannelGroup currentChannelGroup updateOptions.mspID with
      | none =>
          -- a panic, and no config that could show anything
          rw [pollOnce, hread] at hresult
          cases hresult
          refine iff_of_false (by simp) fun hshows => ?_
          obtain ⟨config, hread', -⟩ := hshows currentChannelGroup rfl
          cases hread.symm.trans hread'
      | some config =>
          simp only [pollOnce, hread] at hresult
          split at hresult
          · cases hresult
          · next hnot =>
              cases hresult
              have hsettled := @settled_iff_shows parseFloat written updateOptions config
                (Bool.eq_false_of_not_eq_true hnot)
              constructor
              · rintro (⟨-, group, config', hgroup, hread', hright⟩ | ⟨err, herr⟩) group' hgroup'
                · cases hgroup
                  cases hgroup'
                  cases hread.symm.trans hread'
                  exact ⟨config, hread, hsettled.mp hright⟩
                · cases herr
              · intro hshows
                obtain ⟨config', hread', hrest⟩ := hshows currentChannelGroup rfl
                cases hread.symm.trans hread'
                exact Or.inl ⟨rfl, _, config, rfl, hread, hsettled.mpr hrest⟩

theorem getElem?_turn (before after : List Observation) (observation : Observation)
    (waitCount : Nat) (h : waitCount = 0 + before.length + 1) :
    (before ++ observation :: after)[waitCount - 1]? = some observation := by
  rw [h, Nat.zero_add, Nat.add_sub_cancel, List.getElem?_append_right (Nat.le_refl _),
    Nat.sub_self]
  rfl

/-- The success that is reported is that of the update exactly where the first
    config in which the loop can end shows all of the update. -/
theorem reportsSuccess_iff (observations : List Observation) :
    ReportsSuccess parseFloat written updateOptions observations ↔
      FirstShows parseFloat written updateOptions observations := by
  constructor
  · rintro h before observation after rfl hbefore hends
    rw [← pollOnce_eq_none_iff] at hends
    obtain ⟨result, hresult⟩ := Option.ne_none_iff_exists'.mp hends
    have hreturned := h _ result (waitLoop_eq_some_iff.mpr ⟨before, observation, after, rfl,
      fun earlier he => pollOnce_eq_none_iff.mpr (hbefore earlier he), hresult, rfl⟩)
    simp only [getElem?_turn before after observation _ rfl, Option.some.injEq] at hreturned
    exact (returned_iff_shows hresult).mp hreturned
  · intro h waitCount result hrun
    obtain ⟨before, observation, after, rfl, hbefore, hresult, hcount⟩ :=
      waitLoop_eq_some_iff.mp hrun
    have hshows := h before observation after rfl
      (fun earlier he => pollOnce_eq_none_iff.mp (hbefore earlier he))
      (by rw [← pollOnce_eq_none_iff, hresult]; simp)
    simp only [getElem?_turn before after observation _ hcount, Option.some.injEq]
    exact (returned_iff_shows hresult).mpr hshows

end Report

/-- An update of the orderer addresses to `orderer1:7050` and nothing else. -/
def addressesOptions : UpdateOptions :=
  { mspID := "Org1MSP"
    ordererAddressesUpdate := true
    maxMessageCount := ⟨['0'], by decide⟩
    preferredMaxBytes := ⟨['0'], by decide⟩
    ordererAddressesAction := REPLACE_ORDERER_ADDRESS
    ordererAddresses := ["orderer1:7050"] }

/-- The first query still shows the addresses from before the update, and
    success is reported. -/
theorem old_addresses_reported :
    waitUntilUpdateSucc addressesOptions [.channelGroup (exampleChannel ["orderer0:7050"])]
        = some (1, .ok none) ∧
      ¬ ReportsSuccess (fun _ => .error "") ["orderer1:7050"] addressesOptions
        [.channelGroup (exampleChannel ["orderer0:7050"])] := by
  refine ⟨rfl, fun h => ?_⟩
  rcases h 1 (.ok none) rfl with ⟨-, group, config, hlast, hread, hsettled⟩ | ⟨err, herr⟩
  · cases hlast
    cases hread
    exact absurd (hsettled.addresses rfl) (by decide)
  · cases herr

end Hfrd.Channel
