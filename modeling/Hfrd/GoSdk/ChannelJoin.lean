/-
  Hfrd.GoSdk.ChannelJoin

  `joinChannels` of modules/gosdk/channel/join.go.

  The network is the set of the pairs (peer, channel) that are joined.  A join
  adds its pair or fails; which texts a failure can carry is a parameter
  (`failures`), and so is the answer of `QueryChannels`.

  With a list of names the command goes through the channels one by one and
  joins the peers that are not in the channel yet, each by an `IterateFunc` of
  one iteration.  It stops with a nil error at the first channel that all the
  peers have joined, so what comes after it in the list is not looked at.
-/

import Hfrd.GoSdk.ChannelCommand
import Mathlib.Data.Finset.Lattice.Lemmas
import Mathlib.Data.Finset.Sort
import Mathlib.Data.String.Basic

namespace Hfrd.GoSdk

open Hfrd.Go

/-- The pairs (peer, channel) that are joined. -/
abbrev Network := Finset (String × String)

/-- The settings of `channel join`. -/
structure JoinSettings extends ChannelSettings where
  peers : List String
  /-- `resmgmt.New(orgClientContext)` -/
  resmgmtNew : GoError
  queryChannels : Network → String → Except String (List String)
  /-- The texts of the errors of `SingleChannelJoin`. -/
  failures : String → Bool

/-- A schedule of the dispatch loop and the goroutines of one `IterateFunc`;
    a choice is the answer of a join. -/
abbrev JoinSchedule := List (Label GoError)

variable (env : JoinSettings)

/-- `isJoinedChannel` -/
def isJoinedChannel (network : Network) (peer channelID : String) : Except String Bool := do
  let joinedChannels ← env.queryChannels network peer
  return joinedChannels.any (· == channelID)

/-- `FilterJoinedPeers`: the peers, in their order, that are not in the
    channel. -/
def filterJoinedPeers (network : Network) (channelID : String) :
    List String → Except String (List String)
  | [] => return []
  | peer :: rest => do
      let joinStatus ← isJoinedChannel env network peer channelID
      let unJoinedList ← filterJoinedPeers network channelID rest
      return if joinStatus then unJoinedList else peer :: unJoinedList

/-- `SingleChannelJoin` -/
def singleChannelJoin (peer channelName : String) (network : Network) (answer : GoError) :
    Option (Network × GoError) :=
  match answer with
  | none => some (insert (peer, channelName) network, none)
  -- a text that no failure has is no answer of the network
  | some err => if env.failures err then some (network, some err) else none

/-- Where an iteration of prefix mode is: querying the peers, then joining
    those that are not in the channel. -/
inductive JoinPc
  | query (channelId : String) (peers unJoinedList : List String)
  | join (channelId : String) (unJoinedList : List String)

/-- `joinFunc` of prefix mode, one call to the network at a time. -/
def joinFunc : IterFunc Network JoinPc GoError where
  entry iterationIndex := .query (env.channelNamePrefix ++ itoa iterationIndex) env.peers []
  step network pc answer :=
    match pc with
    -- all peers are asked before the first of them joins
    | .query channelId [] unJoinedList => some (network, .inl (.join channelId unJoinedList))
    | .query channelId (peer :: rest) unJoinedList =>
        match isJoinedChannel env network peer channelId with
        | .error err => some (network, .inr (some err))
        | .ok joinStatus =>
            some (network, .inl (.query channelId rest
              (if joinStatus then unJoinedList else unJoinedList ++ [peer])))
    | .join _ [] => some (network, .inr none)
    | .join channelId (peer :: rest) =>
        match singleChannelJoin env peer channelId network answer with
        | some (network, none) => some (network, .inl (.join channelId rest))
        | some (network, some err) => some (network, .inr (some err))
        | none => none

/-- The `IterateFunc` of list mode that joins one peer: one iteration. -/
def joinOnce (peer channelName : String) : Config Network Int64 GoError :=
  env.config (atomicFunc fun _ => singleChannelJoin env peer channelName) false "1"

/-- The loop over the peers that have not joined the channel. -/
def joinPeers (channelName : String) :
    List String → Network → List JoinSchedule → Option (Network × GoError × List JoinSchedule)
  | [], network, schedules => some (network, none, schedules)
  -- the run is cut short: it is no run of the command
  | _ :: _, _, [] => none
  | peer :: rest, network, schedule :: schedules =>
      match runIterateFunc (joinOnce env peer channelName) network 0 schedule with
      | none => none
      | some s =>
          match s.retErr with
          | some err => some (s.shared, some err, schedules)
          | none => joinPeers channelName rest s.shared schedules

/-- The loop over `channelNameList`. -/
def joinList : List String → Network → List JoinSchedule → Option (Network × GoError)
  | [], network, _ => some (network, none)
  | channelName :: rest, network, schedules =>
      match filterJoinedPeers env network channelName env.peers with
      | .error err => some (network, some err)
      -- `return nil`, not `continue`: the names in `rest` are not looked at
      | .ok [] => some (network, none)
      | .ok (peer :: others) =>
          match joinPeers env channelName (peer :: others) network schedules with
          | none => none
          | some (network, some err, _) => some (network, some err)
          | some (network, none, schedules) => joinList rest network schedules

/-- The steps of `joinChannels` before its loop. -/
def prepareJoin : Except String String := do
  let iterationCount ← env.prepare
  returnOn env.resmgmtNew
  return iterationCount

/-- `joinChannels`: the network it leaves and the error it returns, under one
    schedule for each `IterateFunc`. -/
def joinChannels (network : Network) (schedules : List JoinSchedule) :
    Option (Network × GoError) :=
  match prepareJoin env with
  | .error err => some (network, some err)
  | .ok iterationCount =>
      if env.channelNamePrefix ≠ "" ∧ env.channelNameList ≠ [] then
        some (network, some MUTUAL_EXCLUSIVE)
      else if env.channelNamePrefix ≠ "" then
        match schedules with
        | [] => none
        | schedule :: _ =>
            (runIterateFunc (env.config (joinFunc env) false iterationCount) network
              env.prefixOffset schedule).map fun s => (s.shared, s.retErr)
      else if env.channelNameList ≠ [] then joinList env env.channelNameList network schedules
      else some (network, some NO_CHANNEL_NAMES)

/-! ## Queries -/

/-- `QueryChannels` answers the channels of the peer. -/
def QueriesExactly : Prop :=
  ∀ network peer, ∃ channels, env.queryChannels network peer = .ok channels ∧
    ∀ channel, channel ∈ channels ↔ (peer, channel) ∈ network

variable {env}

theorem isJoinedChannel_eq (hquery : QueriesExactly env) (network : Network)
    (peer channelID : String) :
    isJoinedChannel env network peer channelID = .ok (decide ((peer, channelID) ∈ network)) := by
  obtain ⟨channels, hok, hmem⟩ := hquery network peer
  simp only [isJoinedChannel, hok, bind, Except.bind, pure, Except.pure, Except.ok.injEq]
  rw [Bool.eq_iff_iff, List.any_eq_true, decide_eq_true_eq, ← hmem]
  simp

theorem filterJoinedPeers_eq (hquery : QueriesExactly env) (network : Network)
    (channelID : String) (peers : List String) :
    filterJoinedPeers env network channelID peers
      = .ok (peers.filter fun peer => decide ((peer, channelID) ∉ network)) := by
  induction peers with
  | nil => rfl
  | cons peer rest ih =>
      simp only [filterJoinedPeers, isJoinedChannel_eq hquery, ih, bind, Except.bind, pure,
        Except.pure]
      by_cases h : (peer, channelID) ∈ network <;> simp [h]

/-! ## One join -/

/-- The answers `singleChannelJoin` can have, and what they do. -/
theorem singleChannelJoin_inv {peer channelName : String} {network network' : Network}
    {answer err : GoError}
    (h : singleChannelJoin env peer channelName network answer = some (network', err)) :
    (err = none ∧ network' = insert (peer, channelName) network) ∨
      ∃ e, err = some e ∧ env.failures e = true ∧ network' = network := by
  unfold singleChannelJoin at h
  cases answer with
  | none =>
      cases h
      exact Or.inl ⟨rfl, rfl⟩
  | some e =>
      simp only at h
      split at h <;> cases h
      exact Or.inr ⟨e, rfl, ‹_›, rfl⟩

/-- No failure of a join is one that `IterateFunc` ignores. -/
def NoIgnored (env : JoinSettings) : Prop :=
  ∀ err, env.failures err = true → ignoredError err = false

theorem joinOnce_count (peer channelName : String) :
    atoi (joinOnce env peer channelName).iterationCount = some 1 := by
  show atoi "1" = some 1
  decide

/-- A run that joins one peer adds at most its pair and, when it returns nil
    and no failure is ignored, that pair. -/
theorem joinOnce_spec {peer channelName : String} {network : Network} {schedule : JoinSchedule}
    {s : State Network Int64}
    (hrun : runIterateFunc (joinOnce env peer channelName) network 0 schedule = some s) :
    network ⊆ s.shared ∧ s.shared ⊆ insert (peer, channelName) network ∧
      (NoIgnored env → s.retErr = none → (peer, channelName) ∈ s.shared) := by
  -- carried along the calls: an outcome is a success that joined the pair, or a failure
  obtain ⟨hsub, hsup, hall⟩ := runIterateFunc_effects
    (fun shared returns => network ⊆ shared ∧ shared ⊆ insert (peer, channelName) network ∧
      ∀ r ∈ returns, (r.2 = none ∧ (peer, channelName) ∈ shared) ∨
        ∃ err, r.2 = some err ∧ env.failures err = true) rfl hrun
    ⟨Finset.Subset.refl _, Finset.subset_insert _ _, fun _ h => absurd h List.not_mem_nil⟩ (by
      intro shared returns i answer shared' err hP hcall
      obtain ⟨hsub, hsup, hall⟩ := hP
      rcases singleChannelJoin_inv hcall with ⟨rfl, rfl⟩ | ⟨e, rfl, hfail, rfl⟩
      · refine ⟨hsub.trans (Finset.subset_insert _ _),
          Finset.insert_subset (Finset.mem_insert_self _ _) hsup, fun r hr => ?_⟩
        rcases List.mem_append.mp hr with hold | hnew
        · exact (hall r hold).imp_left fun h => ⟨h.1, Finset.mem_insert_of_mem h.2⟩
        · rw [List.mem_singleton.mp hnew]
          exact Or.inl ⟨rfl, Finset.mem_insert_self _ _⟩
      · refine ⟨hsub, hsup, fun r hr => ?_⟩
        rcases List.mem_append.mp hr with hold | hnew
        · exact hall r hold
        · rw [List.mem_singleton.mp hnew]
          exact Or.inr ⟨e, rfl, hfail⟩)
  refine ⟨hsub, hsup, fun hno hnil => ?_⟩
  obtain ⟨hperm, hquiet⟩ := runIterateFunc_nil (joinOnce_count peer channelName) hrun hnil
  -- the count of one has run its only iteration
  obtain ⟨r, hr⟩ : ∃ r, r ∈ s.returns := by
    have hlen := hperm.length_eq
    simp only [List.length_map, List.length_range] at hlen
    exact List.exists_mem_of_length_pos (by rw [hlen]; decide)
  rcases hall r hr with ⟨-, hmem⟩ | ⟨err, hsome, hfail⟩
  · exact hmem
  · have hrep := hquiet r hr
    rw [hsome, reportable, hno err hfail] at hrep
    cases hrep

/-- A join may be answered with success, or with any of the failures. -/
theorem exists_joinOnce (peer channelName : String) {answer : GoError}
    (hlimit : 1 ≤ env.routineLimit)
    (hanswer : ∀ err, answer = some err → env.failures err = true ∧ ignoredError err = true)
    (network : Network) :
    ∃ schedule s, runIterateFunc (joinOnce env peer channelName) network 0 schedule = some s ∧
      s.retErr = none ∧ (answer ≠ none → s.shared = network) := by
  -- the same answer from every state of the network, so that it can be picked blindly
  have hpick : ∀ network : Network, ∃ network' err,
      singleChannelJoin env peer channelName network answer = some (network', err) ∧
        reportable err = false ∧ (answer ≠ none → network' = network) := by
    intro network
    cases answer with
    | none => exact ⟨_, none, rfl, rfl, fun h => absurd rfl h⟩
    | some err =>
        obtain ⟨hfail, hignored⟩ := hanswer err rfl
        exact ⟨network, some err, if_pos hfail, by rw [reportable, hignored]; rfl, fun _ => rfl⟩
  have hlimit : 1 ≤ (joinOnce env peer channelName).limit := hlimit
  refine exists_runIterateFunc (fun shared _ => answer ≠ none → shared = network) rfl hlimit
    (joinOnce_count peer channelName) (fun _ _ => answer) (fun i shared => ?_) ?_ network 0
    (fun _ => rfl)
  · obtain ⟨network', err, hcall, hquiet, -⟩ := hpick shared
    exact ⟨network', err, hcall, hquiet⟩
  · intro shared returns i shared' err hP hcall hne
    obtain ⟨network', err', hcall', -, hsame⟩ := hpick shared
    obtain ⟨rfl, rfl⟩ := Prod.mk.inj (Option.some.inj (hcall.symm.trans hcall'))
    exact (hsame hne).trans (hP hne)

/-! ## The peers of one channel -/

/-- The pairs of one channel. -/
def pairsOf (peers : List String) (channelName : String) : Network :=
  (peers.map fun peer => (peer, channelName)).toFinset

theorem mem_pairsOf {peers : List String} {channelName : String} {pair : String × String} :
    pair ∈ pairsOf peers channelName ↔ pair.1 ∈ peers ∧ pair.2 = channelName := by
  simp only [pairsOf, List.mem_toFinset, List.mem_map]
  constructor
  · rintro ⟨peer, hpeer, rfl⟩
    exact ⟨hpeer, rfl⟩
  · rintro ⟨hpeer, rfl⟩
    exact ⟨pair.1, hpeer, rfl⟩

/-- The loop over the peers of a channel adds at most their pairs and, when it
    ends without an error and no failure is ignored, all of them. -/
theorem joinPeers_spec {channelName : String} {peers : List String}
    {network network' : Network} {schedules schedules' : List JoinSchedule}
    {err : GoError}
    (h : joinPeers env channelName peers network schedules = some (network', err, schedules')) :
    network ⊆ network' ∧ network' ⊆ network ∪ pairsOf peers channelName ∧
      (NoIgnored env → err = none → pairsOf peers channelName ⊆ network') := by
  -- the network grows along the loop, so each peer starts from another one
  induction peers generalizing network schedules with
  | nil =>
      cases h
      exact ⟨Finset.Subset.refl _, Finset.subset_union_left, fun _ _ => by simp [pairsOf]⟩
  | cons peer rest ih =>
      have hhead : insert (peer, channelName) network ⊆
          network ∪ pairsOf (peer :: rest) channelName := by
        refine Finset.insert_subset (Finset.mem_union_right _ ?_) Finset.subset_union_left
        exact mem_pairsOf.mpr ⟨List.mem_cons_self, rfl⟩
      cases schedules with
      | nil => simp [joinPeers] at h
      | cons schedule schedules =>
          simp only [joinPeers] at h
          split at h
          · cases h
          · next s hrun =>
              obtain ⟨hsub, hsup, hjoin⟩ := joinOnce_spec hrun
              split at h
              · cases h
                exact ⟨hsub, hsup.trans hhead, fun _ hnil => by cases hnil⟩
              · next hnil =>
                  obtain ⟨hsub', hsup', hall⟩ := ih h
                  refine ⟨hsub.trans hsub', hsup'.trans ?_, fun hno herr => ?_⟩
                  · refine Finset.union_subset (hsup.trans hhead) fun pair hpair => ?_
                    obtain ⟨hmem, hch⟩ := mem_pairsOf.mp hpair
                    exact Finset.mem_union_right _
                      (mem_pairsOf.mpr ⟨List.mem_cons_of_mem _ hmem, hch⟩)
                  · rintro ⟨p, c⟩ hpair
                    obtain ⟨hmem, rfl⟩ := mem_pairsOf.mp hpair
                    rcases List.mem_cons.mp hmem with rfl | hmem
                    · exact hsub' (hjoin hno hnil)
                    · exact hall hno herr (mem_pairsOf.mpr ⟨hmem, rfl⟩)

/-- All the joins of a channel may be answered in the same way. -/
theorem exists_joinPeers (channelName : String) (answer : GoError)
    (hlimit : 1 ≤ env.routineLimit)
    (hanswer : ∀ err, answer = some err → env.failures err = true ∧ ignoredError err = true)
    (peers : List String) (network : Network) :
    ∃ schedules network', (∀ schedules',
        joinPeers env channelName peers network (schedules ++ schedules')
          = some (network', none, schedules')) ∧
      (answer ≠ none → network' = network) := by
  induction peers generalizing network with
  | nil => exact ⟨[], network, fun _ => rfl, fun _ => rfl⟩
  | cons peer rest ih =>
      obtain ⟨schedule, s, hrun, hnil, hsame⟩ :=
        exists_joinOnce peer channelName hlimit hanswer network
      obtain ⟨schedules, network', hrest, hsame'⟩ := ih s.shared
      refine ⟨schedule :: schedules, network', fun schedules' => ?_,
        fun hne => (hsame' hne).trans (hsame hne)⟩
      simp only [List.cons_append, joinPeers, hrun, hnil]
      exact hrest schedules'

/-! ## The list of channels -/

/-- Every peer has joined the channel. -/
def Full (peers : List String) (network : Network) (channelName : String) : Prop :=
  ∀ peer ∈ peers, (peer, channelName) ∈ network

theorem Full.mono {peers : List String} {network network' : Network} {channelName : String}
    (h : Full peers network channelName) (hsub : network ⊆ network') :
    Full peers network' channelName := fun peer hpeer => hsub (h peer hpeer)

/-- The loop stops at a channel exactly when all the peers have joined it. -/
theorem full_iff_filter_eq_nil {peers : List String} {network : Network} {channelName : String} :
    Full peers network channelName ↔
      (peers.filter fun peer => decide ((peer, channelName) ∉ network)) = [] := by
  rw [List.filter_eq_nil_iff]
  exact forall₂_congr fun peer _ => by simp

/-- A channel is full once the peers that lacked it have joined. -/
theorem full_of_pairsOf {peers : List String} {network network' : Network} {channelName : String}
    (hsub : network ⊆ network')
    (hall : pairsOf (peers.filter fun peer => decide ((peer, channelName) ∉ network)) channelName
      ⊆ network') : Full peers network' channelName := by
  intro peer hpeer
  by_cases h : (peer, channelName) ∈ network
  · exact hsub h
  · exact hall (mem_pairsOf.mpr ⟨List.mem_filter.mpr ⟨hpeer, by simpa using h⟩, rfl⟩)

/-- The peers that the loop joins to a channel. -/
def missing (peers : List String) (network : Network) (channelName : String) : List String :=
  peers.filter fun peer => decide ((peer, channelName) ∉ network)

/-- The loop stops at a channel that is full. -/
theorem joinList_full (hquery : QueriesExactly env) {channelName : String}
    {network : Network} (hfull : Full env.peers network channelName) (rest : List String)
    (schedules : List JoinSchedule) :
    joinList env (channelName :: rest) network schedules = some (network, none) := by
  simp only [joinList, filterJoinedPeers_eq hquery, full_iff_filter_eq_nil.mp hfull]

/-- At any other channel it joins the peers that lack it. -/
theorem joinList_not_full (hquery : QueriesExactly env) {channelName : String}
    {network : Network} (hfull : ¬ Full env.peers network channelName) (rest : List String)
    (schedules : List JoinSchedule) :
    joinList env (channelName :: rest) network schedules =
      match joinPeers env channelName (missing env.peers network channelName) network schedules with
      | none => none
      | some (network, some err, _) => some (network, some err)
      | some (network, none, schedules) => joinList env rest network schedules := by
  rw [full_iff_filter_eq_nil] at hfull
  obtain ⟨peer, others, hcons⟩ := List.exists_cons_of_ne_nil hfull
  simp only [joinList, filterJoinedPeers_eq hquery, missing, hcons]

/-- The loop never takes a pair away. -/
theorem joinList_mono (hquery : QueriesExactly env) {names : List String}
    {network network' : Network} {schedules : List JoinSchedule}
    {err : GoError} (h : joinList env names network schedules = some (network', err)) :
    network ⊆ network' := by
  induction names generalizing network schedules with
  | nil =>
      cases h
      exact Finset.Subset.refl _
  | cons channelName rest ih =>
      by_cases hfull : Full env.peers network channelName
      · rw [joinList_full hquery hfull] at h
        cases h
        exact Finset.Subset.refl _
      · rw [joinList_not_full hquery hfull] at h
        split at h
        · cases h
        · next hjoin =>
            cases h
            exact (joinPeers_spec hjoin).1
        · next hjoin => exact (joinPeers_spec hjoin).1.trans (ih h)

/-- After a channel of `before` has had its turn, its pairs may be new. -/
def Within (network0 network : Network) (before : List String) : Prop :=
  ∀ pair ∈ network, pair ∈ network0 ∨ pair.2 ∈ before

/-- Every channel after one that is full at the start, or listed before it, is
    itself full at the start or listed before that one. -/
def NoGap (peers names : List String) (network : Network) : Prop :=
  ∀ before channelName after, names = before ++ channelName :: after →
    Full peers network channelName ∨ channelName ∈ before →
    ∀ later ∈ after, Full peers network later ∨ later ∈ before

/-- Without a gap a nil result is complete: where the loop stops, the channels
    before have been joined and those after were joined already. -/
theorem joinList_complete (hquery : QueriesExactly env) (hno : NoIgnored env)
    {network0 : Network} (before : List String) {names : List String}
    {network network' : Network} {schedules : List JoinSchedule}
    (hgap : NoGap env.peers (before ++ names) network0)
    (hsub : network0 ⊆ network) (hwithin : Within network0 network before)
    (hbefore : ∀ c ∈ before, Full env.peers network c)
    (h : joinList env names network schedules = some (network', none)) :
    ∀ c ∈ before ++ names, Full env.peers network' c := by
  -- the channels that had their turn are full, and only they have new pairs
  induction names generalizing before network schedules with
  | nil =>
      cases h
      simpa using hbefore
  | cons channelName rest ih =>
      by_cases hfull : Full env.peers network channelName
      · rw [joinList_full hquery hfull] at h
        cases h
        -- what is full now was full at the start, unless the channel had a turn already
        have hstop : Full env.peers network0 channelName ∨ channelName ∈ before := by
          by_cases hmem : channelName ∈ before
          · exact Or.inr hmem
          · exact Or.inl fun peer hpeer => (hwithin _ (hfull peer hpeer)).resolve_right hmem
        intro c hc
        rcases List.mem_append.mp hc with hc | hc
        · exact hbefore c hc
        · rcases List.mem_cons.mp hc with rfl | hc
          · exact hfull
          · rcases hgap before channelName rest rfl hstop c hc with h0 | hmem
            · exact h0.mono hsub
            · exact hbefore c hmem
      · rw [joinList_not_full hquery hfull] at h
        split at h
        · cases h
        · cases h
        · next network1 schedules1 hjoin =>
            obtain ⟨hsub1, hsup1, hall1⟩ := joinPeers_spec hjoin
            -- the channel has had its turn: it goes over to `before`
            have hdone : Full env.peers network1 channelName :=
              full_of_pairsOf hsub1 (hall1 hno rfl)
            have hnext := ih (before ++ [channelName])
              (by rw [List.append_assoc]; exact hgap) (hsub.trans hsub1) ?_ ?_ h
            · rw [List.append_assoc] at hnext
              exact hnext
            · intro pair hpair
              rcases Finset.mem_union.mp (hsup1 hpair) with hold | hnew
              · exact (hwithin pair hold).imp_right (List.mem_append_left _)
              · rw [(mem_pairsOf.mp hnew).2]
                exact Or.inr (List.mem_append_right _ (List.mem_singleton_self _))
            · intro c hc
              rcases List.mem_append.mp hc with hc | hc
              · exact (hbefore c hc).mono hsub1
              · rw [List.mem_singleton.mp hc]
                exact hdone

/-! ## Runs that leave something out -/

/-- When every join fails with an ignored error, the command succeeds and
    nothing is joined. -/
theorem exists_joinList_unchanged (hquery : QueriesExactly env) (hlimit : 1 ≤ env.routineLimit)
    {err : String} (hfail : env.failures err = true) (hignored : ignoredError err = true)
    (names : List String) (network : Network) :
    ∃ schedules, joinList env names network schedules = some (network, none) := by
  induction names with
  | nil => exact ⟨[], rfl⟩
  | cons channelName rest ih =>
      by_cases hfull : Full env.peers network channelName
      · exact ⟨[], joinList_full hquery hfull rest []⟩
      · obtain ⟨later, hlater⟩ := ih
        obtain ⟨schedules, network1, hjoin, hsame⟩ := exists_joinPeers channelName
          (some err) hlimit
          (fun e he => by cases he; exact ⟨hfail, hignored⟩)
          (missing env.peers network channelName) network
        refine ⟨schedules ++ later, ?_⟩
        rw [joinList_not_full hquery hfull, hjoin later, hsame (Option.some_ne_none err)]
        exact hlater

/-- When every join succeeds, the loop stops at a channel that is full at the
    start or listed twice, at the latest, and nothing of what follows has had a
    turn. -/
theorem exists_joinList_stop (hquery : QueriesExactly env) (hno : NoIgnored env)
    (hlimit : 1 ≤ env.routineLimit) {before : List String} {channelName : String}
    (after : List String) {network : Network}
    (hstop : Full env.peers network channelName ∨ channelName ∈ before) :
    ∃ schedules network', joinList env (before ++ channelName :: after) network schedules
        = some (network', none) ∧ Within network network' before := by
  -- a channel that is listed twice is full when its second turn comes
  induction before generalizing network with
  | nil =>
      have hfull := hstop.resolve_right List.not_mem_nil
      exact ⟨[], network, joinList_full hquery hfull after [], fun _ h => Or.inl h⟩
  | cons first before ih =>
      by_cases hfull : Full env.peers network first
      · exact ⟨[], network, joinList_full hquery hfull _ [], fun _ h => Or.inl h⟩
      · obtain ⟨schedules, network1, hjoin, -⟩ := exists_joinPeers first none
          hlimit nofun
          (missing env.peers network first) network
        obtain ⟨hsub1, hsup1, hall1⟩ := joinPeers_spec (hjoin [])
        have hstop1 : Full env.peers network1 channelName ∨ channelName ∈ before := by
          rcases hstop with h | h
          · exact Or.inl (h.mono hsub1)
          · rcases List.mem_cons.mp h with rfl | h
            · exact Or.inl (full_of_pairsOf hsub1 (hall1 hno rfl))
            · exact Or.inr h
        obtain ⟨later, network', hrest, hwithin⟩ := ih hstop1
        refine ⟨schedules ++ later, network', ?_, fun pair hpair => ?_⟩
        · rw [List.cons_append, joinList_not_full hquery hfull, hjoin later]
          exact hrest
        · rcases hwithin pair hpair with h | h
          · rcases Finset.mem_union.mp (hsup1 h) with hold | hnew
            · exact Or.inl hold
            · rw [(mem_pairsOf.mp hnew).2]
              exact Or.inr List.mem_cons_self
          · exact Or.inr (List.mem_cons_of_mem _ h)

/-! ## The command -/

/-- The command reaches its loop over the list. -/
def ReachesList (env : JoinSettings) : Prop :=
  (∃ iterationCount, prepareJoin env = .ok iterationCount) ∧
    env.channelNamePrefix = "" ∧ env.channelNameList ≠ []

theorem joinChannels_list (h : ReachesList env) (network : Network)
    (schedules : List JoinSchedule) :
    joinChannels env network schedules = joinList env env.channelNameList network schedules := by
  obtain ⟨⟨iterationCount, hok⟩, hname, hlist⟩ := h
  simp only [joinChannels, hok, hname, ne_eq, not_true_eq_false, false_and, if_false]
  exact if_pos hlist

/-- A command that does not reach the loop succeeds only with an empty list. -/
theorem channelNameList_eq_nil (h : ¬ ReachesList env) {network network' : Network}
    {schedules : List JoinSchedule}
    (hrun : joinChannels env network schedules = some (network', none)) :
    env.channelNameList = [] := by
  by_contra hlist
  unfold joinChannels at hrun
  split at hrun
  · cases hrun
  · next iterationCount hok =>
      by_cases hname : env.channelNamePrefix = ""
      · exact h ⟨⟨iterationCount, hok⟩, hname, hlist⟩
      · rw [if_pos ⟨hname, hlist⟩] at hrun
        cases hrun

/-- A nil result means that every peer has joined every listed channel. -/
def JoinsAll (env : JoinSettings) (network : Network) : Prop :=
  ∀ schedules network', joinChannels env network schedules = some (network', none) →
    ∀ peer ∈ env.peers, ∀ channelName ∈ env.channelNameList, (peer, channelName) ∈ network'

/-- Nothing is left out: the list is not reached, or all its channels are full
    at the start, or no failure is ignored and the list has no gap. -/
def NothingLeftOut (env : JoinSettings) (network : Network) : Prop :=
  ¬ ReachesList env ∨ (∀ channelName ∈ env.channelNameList, Full env.peers network channelName) ∨
    NoIgnored env ∧ NoGap env.peers env.channelNameList network

theorem joinsAll_of_nothingLeftOut (hquery : QueriesExactly env) {network : Network}
    (h : NothingLeftOut env network) : JoinsAll env network := by
  intro schedules network' hrun peer hpeer channelName hchannel
  by_cases hreach : ReachesList env
  · rw [joinChannels_list hreach] at hrun
    rcases h with hnot | hfull | ⟨hno, hgap⟩
    · exact absurd hreach hnot
    · exact joinList_mono hquery hrun (hfull channelName hchannel peer hpeer)
    · exact joinList_complete hquery hno [] hgap (Finset.Subset.refl _)
        (fun _ h => Or.inl h) (fun _ h => absurd h List.not_mem_nil) hrun channelName hchannel
        peer hpeer
  · rw [channelNameList_eq_nil hreach hrun] at hchannel
    exact absurd hchannel List.not_mem_nil

theorem nothingLeftOut_of_joinsAll (hquery : QueriesExactly env) (hlimit : 1 ≤ env.routineLimit)
    {network : Network} (h : JoinsAll env network) : NothingLeftOut env network := by
  -- each part of the condition has a run that needs it
  by_cases hreach : ReachesList env
  swap
  · exact Or.inl hreach
  by_cases hfull : ∀ channelName ∈ env.channelNameList, Full env.peers network channelName
  · exact Or.inr (Or.inl hfull)
  -- some pair is missing: it stays so when joins fail with an ignored error
  have hno : NoIgnored env := by
    intro err hfail
    cases hignored : ignoredError err with
    | false => rfl
    | true =>
        obtain ⟨schedules, hrun⟩ :=
          exists_joinList_unchanged hquery hlimit hfail hignored env.channelNameList network
        rw [← joinChannels_list hreach] at hrun
        exact absurd (fun c hc peer hpeer => h schedules network hrun peer hpeer c hc) hfull
  -- the run that stops at `channelName` has joined nothing of what follows
  refine Or.inr (Or.inr ⟨hno, fun before channelName after heq hstop later hlater => ?_⟩)
  obtain ⟨schedules, network', hrun, hwithin⟩ :=
    exists_joinList_stop hquery hno hlimit after hstop
  rw [← heq, ← joinChannels_list hreach] at hrun
  have hmem : later ∈ env.channelNameList := by
    rw [heq]
    exact List.mem_append_right _ (List.mem_cons_of_mem _ hlater)
  by_cases hbefore : later ∈ before
  · exact Or.inr hbefore
  · refine Or.inl fun peer hpeer => ?_
    exact (hwithin _ (h schedules network' hrun peer hpeer later hmem)).resolve_right hbefore

/-- **When a successful join is complete.**  Exactly when nothing is left out;
    that this is enough holds for every concurrency limit, that it is needed for
    every limit under which `IterateFunc` can run at all. -/
theorem joinChannels_complete_iff (env : JoinSettings) (network : Network)
    (hquery : QueriesExactly env) :
    (NothingLeftOut env network → JoinsAll env network) ∧
      (1 ≤ env.routineLimit → (JoinsAll env network ↔ NothingLeftOut env network)) :=
  ⟨joinsAll_of_nothingLeftOut hquery, fun hlimit =>
    ⟨nothingLeftOut_of_joinsAll hquery hlimit, joinsAll_of_nothingLeftOut hquery⟩⟩

/-- A `QueryChannels` that reads the network. -/
def readNetwork (network : Network) (peer : String) : Except String (List String) :=
  .ok (((network.filter fun pair => pair.1 = peer).image Prod.snd).sort (· ≤ ·))

/-- Peer `p1` is to join the listed channels. -/
def joinP1 (names : List String) : JoinSettings where
  toChannelSettings := { oneChannel with channelNameList := names }
  peers := ["p1"]
  resmgmtNew := none
  queryChannels := readNetwork
  failures _ := false

theorem queriesExactly_joinP1 (names : List String) : QueriesExactly (joinP1 names) := by
  refine fun network peer => ⟨_, rfl, fun channel => ?_⟩
  simp

/-- The peer is in the first channel already: the command succeeds without
    joining the second. -/
theorem joinChannels_skips_rest :
    QueriesExactly (joinP1 ["ch0", "ch1"]) ∧
      joinChannels (joinP1 ["ch0", "ch1"]) {("p1", "ch0")} [] = some ({("p1", "ch0")}, none) ∧
      ("p1", "ch1") ∉ ({("p1", "ch0")} : Network) := by
  have hquery := queriesExactly_joinP1 ["ch0", "ch1"]
  refine ⟨hquery, ?_, by decide⟩
  rw [joinChannels_list ⟨⟨"1", rfl⟩, rfl, List.cons_ne_nil _ _⟩]
  refine joinList_full hquery (fun peer hpeer => ?_) ["ch1"] []
  rw [List.mem_singleton.mp hpeer]
  decide

theorem joinChannels_complete_ch0 : JoinsAll (joinP1 ["ch0"]) ∅ := by
  refine (joinChannels_complete_iff (joinP1 ["ch0"]) ∅ (queriesExactly_joinP1 ["ch0"])).1
    (Or.inr (Or.inr ⟨nofun, fun before channelName after heq _ later hlater => ?_⟩))
  -- nothing comes after the only channel
  have hlen := congrArg List.length heq
  simp only [joinP1, List.length_append, List.length_cons, List.length_nil] at hlen
  have hafter : after = [] := List.eq_nil_of_length_eq_zero (by omega)
  rw [hafter] at hlater
  exact absurd hlater List.not_mem_nil

end Hfrd.GoSdk
