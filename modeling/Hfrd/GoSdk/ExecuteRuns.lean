/-
  Hfrd.GoSdk.ExecuteRuns

  What holds of `Execute` over all attempts of a request, whatever the SDK, the
  peers and the orderer answer: its attempts succeed exactly with a transaction
  that was seen valid, each attempt asks for things in one order and leaves no
  registration, and retries settle on the endorsers.
-/

import Hfrd.GoSdk.ExecuteHandler

namespace Hfrd.GoSdk

open Hfrd.Lib

variable {a : Answers} {ctx : RequestContext}

/-! ## Valid transactions -/

/-- The status of a valid transaction. -/
abbrev Action.committed : Action := .status (some valid)

theorem count_endorsing {actions : List Action} (h : ∀ x ∈ actions, x.isEndorsing = true) :
    actions.count .committed = 0 :=
  List.count_eq_zero.mpr fun hmem => by simpa [Action.isEndorsing] using h _ hmem

/-- **An attempt succeeds exactly if it sees its transaction valid.** -/
theorem count_handle (a : Answers) (herror : ctx.error = none) :
    (handle a ctx).2.count .committed = if (handle a ctx).1.error = none then 1 else 0 := by
  obtain ⟨ctx', actions, goesOn, hselects, ⟨rfl, h⟩ | ⟨rfl, err, h⟩ | ⟨rfl, h⟩⟩ :=
    handle_cases a ctx
  · rw [h, if_neg (by simpa using hselects.error)]
    exact count_endorsing hselects.isEndorsing
  · rw [h]
    exact (count_endorsing hselects.isEndorsing).trans (if_neg (Option.some_ne_none err)).symm
  · have herror' : ctx'.error = none := by
      have hsame := hselects.error
      rw [if_pos rfl] at hsame
      rw [hsame, herror]
    rw [h]
    simp only [List.count_append, count_endorsing hselects.isEndorsing, Nat.zero_add]
    rcases commitTx_cases a ctx' with ⟨err, hc⟩ | ⟨err, hc⟩ | ⟨err, hc⟩ |
      ⟨next, hc, -, -, -, hnext⟩
    · simp [hc, RequestContext.fail]
    · simp [hc, RequestContext.fail]
    · simp [hc, RequestContext.fail]
    · simp only [hc, hnext herror', List.count_cons, List.count_nil]
      simp

/-- An attempt is the last one, or it failed and another one is wanted. -/
theorem executeStep_cases {r : ExecuteRequest} {s t : ExecuteState}
    (h : (execute r).step s a = some t) :
    s.finished = false ∧ t.attempts = s.attempts ++ [(handle a s.ctx).2] ∧
      ((t.finished = true ∧ t.ctx = (handle a s.ctx).1) ∨
        (t.finished = false ∧ (∃ err, (handle a s.ctx).1.error = some err ∧ a.required err = true) ∧
          t.ctx = (handle a s.ctx).1.reset r.targets)) := by
  have h : executeStep r s a = some t := h
  unfold executeStep at h
  split at h
  · cases h
  · next hfinished =>
      have hfinished : s.finished = false := by simpa using hfinished
      simp only at h
      split at h
      · cases h
        exact ⟨hfinished, rfl, Or.inl ⟨rfl, rfl⟩⟩
      · next err herr =>
          split at h
          · next hrequired =>
              cases h
              exact ⟨hfinished, rfl, Or.inr ⟨rfl, ⟨err, herr, hrequired⟩, rfl⟩⟩
          · cases h
            exact ⟨hfinished, rfl, Or.inl ⟨rfl, rfl⟩⟩

/-- The transactions seen valid, and that a request goes on without an error. -/
structure Counted (s : ExecuteState) : Prop where
  count : s.attempts.flatten.count .committed =
    if s.finished = true ∧ s.ctx.error = none then 1 else 0
  error : s.finished = false → s.ctx.error = none
  last : s.finished = true → s.ctx.error = none →
    ∃ actions, s.attempts.getLast? = some actions ∧ .committed ∈ actions

theorem Counted.step {r : ExecuteRequest} {s t : ExecuteState} (hs : Counted s)
    (h : (execute r).step s a = some t) : Counted t := by
  obtain ⟨hopen, hattempts, hcases⟩ := executeStep_cases h
  have hcount := count_handle a (hs.error hopen)
  have hbefore := hs.count
  rw [hopen, if_neg (by simp)] at hbefore
  have htotal : t.attempts.flatten.count .committed =
      if (handle a s.ctx).1.error = none then 1 else 0 := by
    rw [hattempts, List.flatten_concat, List.count_append, hbefore, hcount, Nat.zero_add]
  rcases hcases with ⟨hfinished, hctx⟩ | ⟨hfinished, ⟨err, herr, -⟩, hctx⟩
  · refine ⟨by rw [htotal, hfinished, hctx]; simp, by simp [hfinished], fun _ herror => ?_⟩
    refine ⟨_, by rw [hattempts, List.getLast?_concat], List.count_pos_iff.mp ?_⟩
    rw [hcount, if_pos (hctx ▸ herror)]
    decide
  · refine ⟨by rw [htotal, herr, hfinished]; simp, fun _ => by rw [hctx]; rfl, ?_⟩
    intro hfinished'
    rw [hfinished] at hfinished'
    cases hfinished'

/-- What a request returned: that it timed out, or what its attempts ended with. -/
def ReturnedBy (s : RequestState) : Prop :=
  ∀ result, s.returned = some result →
    result = some requestTimedOut ∨ s.invoker.finished = true ∧ result = s.invoker.ctx.error

theorem requestStep_keeps {r : ExecuteRequest} {s t : RequestState} {event : RequestEvent}
    (hs : Counted s.invoker ∧ ReturnedBy s) (h : (invokeHandler r).step s event = some t) :
    Counted t.invoker ∧ ReturnedBy t := by
  obtain ⟨hcounted, hreturned⟩ := hs
  have h : requestStep r s event = some t := h
  cases event with
  | attempt a =>
      obtain ⟨invoker, hstep, rfl⟩ := Option.map_eq_some_iff.mp h
      refine ⟨hcounted.step hstep, fun result hresult => ?_⟩
      rcases hreturned result hresult with htimeout | ⟨hfinished, -⟩
      · exact Or.inl htimeout
      -- behind the end of the attempts there is none
      · rw [(executeStep_cases hstep).1] at hfinished
        cases hfinished
  | complete =>
      rw [requestStep] at h
      split at h
      · next hcomplete =>
          obtain rfl := Option.some.inj h
          exact ⟨hcounted, fun result hresult =>
            Or.inr ⟨hcomplete.2, (Option.some.inj hresult).symm⟩⟩
      · cases h
  | done =>
      rw [requestStep] at h
      split at h
      · obtain rfl := Option.some.inj h
        exact ⟨hcounted, fun result hresult => Or.inl (Option.some.inj hresult).symm⟩
      · cases h

/-- What is seen of valid transactions: over all attempts once at most, in the
    last attempt, and exactly if the attempts end without an error. -/
structure CommitsOnce (s : RequestState) : Prop where
  attempts : s.invoker.attempts.flatten.count .committed =
    if s.invoker.finished = true ∧ s.invoker.ctx.error = none then 1 else 0
  last : .committed ∈ s.invoker.attempts.flatten →
    ∃ actions, s.invoker.attempts.getLast? = some actions ∧ .committed ∈ actions
  success : s.returned = some none → s.invoker.attempts.flatten.count .committed = 1
  failure : ∀ err, s.returned = some (some err) → err ≠ requestTimedOut →
    s.invoker.attempts.flatten.count .committed = 0

/-- **A request succeeds only with a transaction that was seen valid, and fails
    without one, unless it timed out.** -/
theorem committed_of_exec {r : ExecuteRequest} {events : List RequestEvent} {s : RequestState}
    (h : (invokeHandler r).exec r.start events = some s) : CommitsOnce s := by
  have hinitial : Counted r.start.invoker ∧ ReturnedBy r.start :=
    ⟨⟨rfl, fun _ => rfl, nofun⟩, nofun⟩
  obtain ⟨hcounted, hreturned⟩ := (Lts.Run.of_exec h).preserves
    (I := fun s => Counted s.invoker ∧ ReturnedBy s)
    (fun _ _ _ hs _ hstep => requestStep_keeps hs hstep) hinitial
  refine ⟨hcounted.count, fun hmem => ?_, fun hnone => ?_, fun err herr hne => ?_⟩
  · have hpos := List.count_pos_iff.mpr hmem
    rw [hcounted.count] at hpos
    split at hpos
    · next hend => exact hcounted.last hend.1 hend.2
    · exact absurd hpos (Nat.lt_irrefl 0)
  · rcases hreturned none hnone with htimeout | ⟨hfinished, herror⟩
    · cases htimeout
    · rw [hcounted.count, if_pos ⟨hfinished, herror.symm⟩]
  · rcases hreturned (some err) herr with htimeout | ⟨-, herror⟩
    · exact absurd (Option.some.inj htimeout) hne
    · rw [hcounted.count, if_neg fun hend => Option.some_ne_none err (herror.trans hend.2)]

/-- The call of a chaincode with one collection. -/
def marblesCalls : List ChaincodeCall := [⟨"marbles", ["collectionMarbles"]⟩]

/-- An attempt whose transaction ends with the status; every error is retried. -/
def answersWith (txStatus : Option Int32) : Answers where
  getEndorsers := fun _ => .ok [⟨"peer0.org1:7051", "Org1MSP"⟩]
  endorse := fun _ => .ok ("tx1", [⟨"peer0.org1:7051", .ok [⟨"marbles", ["collectionMarbles"]⟩]⟩])
  getPrioritized := fun _ _ =>
    .ok [⟨"peer0.org1:7051", "Org1MSP"⟩, ⟨"peer0.org2:7051", "Org2MSP"⟩]
  sendTransactionProposal := fun _ => .ok []
  validate := fun _ => none
  registerTxStatusEvent := none
  createTransaction := none
  sendTransaction := none
  txStatus := txStatus
  required := fun _ => true

/-- A request for that chaincode, without targets. -/
def marblesRequest : ExecuteRequest := ⟨"marbles", [], none, []⟩

/-- A conflict, and a second attempt that is valid. -/
def retried : List Answers := [answersWith (some 11), answersWith (some valid)]

/-- The request after its second attempt. -/
def afterRetry : ExecuteState :=
  ((execute marblesRequest).exec marblesRequest.initial retried).getD marblesRequest.initial

theorem exec_retried :
    (execute marblesRequest).exec marblesRequest.initial retried = some afterRetry := rfl

/-- The attempt that went through. -/
def lastAttempt : List Action := afterRetry.attempts.getLastD []

theorem lastAttempt_mem : lastAttempt ∈ afterRetry.attempts :=
  List.mem_cons_of_mem _ List.mem_cons_self

/-- The request that waits for both attempts, and one that times out between
    them. -/
theorem committed_afterRetry :
    CommitsOnce ⟨afterRetry, some none⟩ ∧
      CommitsOnce ⟨afterRetry, some (some requestTimedOut)⟩ ∧
      afterRetry.attempts.flatten.count .committed = 1 := by
  have hcomplete : (invokeHandler marblesRequest).exec marblesRequest.start
      [.attempt (answersWith (some 11)), .attempt (answersWith (some valid)), .complete] =
        some ⟨afterRetry, some none⟩ := rfl
  have hdone : (invokeHandler marblesRequest).exec marblesRequest.start
      [.attempt (answersWith (some 11)), .done, .attempt (answersWith (some valid))] =
        some ⟨afterRetry, some (some requestTimedOut)⟩ := rfl
  exact ⟨committed_of_exec hcomplete, committed_of_exec hdone, rfl⟩

/-! ## The order of the actions -/

/-- How far an attempt is; the registration that is open. -/
inductive Phase where
  | start
  | proposed
  | selecting
  | proposedMore
  | endorsed
  | registered (txnID : String)
  | sent (txnID : String)
  | measured (txnID : String)
  | answered (txnID : String)
  | closed
  deriving DecidableEq

namespace Phase

/-- The order in which an attempt asks for things. -/
def next : Phase → Action → Option Phase
  | .start, .propose _ => some .proposed
  | .proposed, .selectMore _ => some .selecting
  | .selecting, .proposeMore _ => some .proposedMore
  | .proposed, .trackProposal => some .endorsed
  | .selecting, .trackProposal => some .endorsed
  | .proposedMore, .trackProposal => some .endorsed
  | .endorsed, .register txnID => some (.registered txnID)
  | .registered txnID, .broadcast txnID' => if txnID' = txnID then some (.sent txnID) else none
  | .sent txnID, .trackBroadcast => some (.measured txnID)
  | .measured txnID, .status _ => some (.answered txnID)
  | .registered txnID, .unregister txnID' => if txnID' = txnID then some .closed else none
  | .sent txnID, .unregister txnID' => if txnID' = txnID then some .closed else none
  | .answered txnID, .unregister txnID' => if txnID' = txnID then some .closed else none
  | _, _ => none

/-- The phase after some actions; none where one is out of order. -/
def follow : Phase → List Action → Option Phase
  | phase, [] => some phase
  | phase, x :: xs => (phase.next x).bind fun phase => follow phase xs

/-- The transaction whose status is registered for. -/
def registration : Phase → Option String
  | .registered txnID | .sent txnID | .measured txnID | .answered txnID => some txnID
  | _ => none

theorem follow_append (phase : Phase) (xs ys : List Action) :
    phase.follow (xs ++ ys) = (phase.follow xs).bind fun phase => phase.follow ys := by
  induction xs generalizing phase with
  | nil => rfl
  | cons x xs ih =>
      rw [List.cons_append, follow, follow]
      cases phase.next x with
      | none => rfl
      | some phase => exact ih phase

end Phase

theorem Endorses.follow {ccCalls : Option (List ChaincodeCall)} {next : RequestContext}
    {actions : List Action} {goesOn : Bool} (h : Endorses a ctx ccCalls next actions goesOn) :
    ∃ phase, Phase.start.follow actions = some phase ∧ phase.registration = none ∧
      (goesOn = true → phase = .endorsed) := by
  cases h with
  | failed => exact ⟨.proposed, rfl, rfl, nofun⟩
  | endorsed => exact ⟨.endorsed, rfl, rfl, fun _ => rfl⟩
  | more _ _ _ _ actions _ _ _ _ _ _ _ herror hactions =>
      rcases hactions with rfl | ⟨targets, -, -, ⟨rfl, rfl⟩ | rfl⟩
      · exact ⟨.endorsed, rfl, rfl, fun _ => rfl⟩
      · exact ⟨.proposedMore, rfl, rfl, nofun⟩
      · exact ⟨.endorsed, rfl, rfl, fun _ => rfl⟩

theorem Selects.follow {next : RequestContext} {actions : List Action} {goesOn : Bool}
    (h : Selects a ctx next actions goesOn) :
    ∃ phase, Phase.start.follow actions = some phase ∧ phase.registration = none ∧
      (goesOn = true → phase = .endorsed) := by
  cases h with
  | failed => exact ⟨.start, rfl, rfl, nofun⟩
  | selected _ _ h => exact h.follow
  | given _ h => exact h.follow

theorem follow_commitTx (a : Answers) (ctx : RequestContext) :
    ∃ phase, Phase.endorsed.follow (commitTx a ctx).2 = some phase ∧
      phase.registration = none := by
  rcases commitTx_cases a ctx with ⟨err, h⟩ | ⟨err, h⟩ | ⟨err, h⟩ | ⟨next, h, -⟩
  · exact ⟨.endorsed, by rw [h]; rfl, rfl⟩
  · exact ⟨.closed, by rw [h]; simp [Phase.follow, Phase.next], rfl⟩
  · exact ⟨.closed, by rw [h]; simp [Phase.follow, Phase.next], rfl⟩
  · exact ⟨.closed, by rw [h]; simp [Phase.follow, Phase.next], rfl⟩

theorem follow_handle (a : Answers) (ctx : RequestContext) :
    ∃ phase, Phase.start.follow (handle a ctx).2 = some phase ∧ phase.registration = none := by
  obtain ⟨ctx', actions, goesOn, hselects, hcases⟩ := handle_cases a ctx
  obtain ⟨phase, hphase, hnone, hendorsed⟩ := hselects.follow
  rcases hcases with ⟨-, h⟩ | ⟨-, err, h⟩ | ⟨hgoes, h⟩
  · exact ⟨phase, by rw [h, hphase], hnone⟩
  · exact ⟨phase, by rw [h, hphase], hnone⟩
  · obtain rfl := hendorsed hgoes
    obtain ⟨phase', hphase', hnone'⟩ := follow_commitTx a ctx'
    refine ⟨phase', ?_, hnone'⟩
    rw [h]
    simp only [Phase.follow_append, hphase, Option.bind_some, hphase']

/-- **Every attempt follows the order** and leaves no registration: a transaction
    is broadcast under its own registration only, and after its proposal was
    measured. -/
theorem follow_of_exec {r : ExecuteRequest} {answers : List Answers} {s : ExecuteState}
    (h : (execute r).exec r.initial answers = some s) {actions : List Action}
    (hactions : actions ∈ s.attempts) :
    ∃ phase, Phase.start.follow actions = some phase ∧ phase.registration = none := by
  have hall := (Lts.Run.of_exec h).preserves (I := fun s => ∀ actions ∈ s.attempts,
    ∃ phase, Phase.start.follow actions = some phase ∧ phase.registration = none) ?_ (by simp [
      ExecuteRequest.initial])
  · exact hall actions hactions
  · intro s a t hs _ hstep
    rw [(executeStep_cases hstep).2.1]
    intro actions hmem
    rcases List.mem_append.mp hmem with hmem | hmem
    · exact hs actions hmem
    · rw [List.mem_singleton.mp hmem]
      exact follow_handle a s.ctx

theorem follow_afterRetry :
    ∃ phase, Phase.start.follow lastAttempt = some phase ∧ phase.registration = none :=
  follow_of_exec exec_retried lastAttempt_mem

/-! ## Targets -/

/-- The targets of an attempt: those of the options, or others where there are
    none; more endorsers are of other organizations. -/
def TargetsOk (targets : List Peer) (actions : List Action) : Prop :=
  (targets ≠ [] → ∀ x ∈ actions, x.isEndorsing = true →
    x = .propose targets ∨ x = .trackProposal) ∧
  ∀ ts more, .propose ts ∈ actions → .proposeMore more ∈ actions →
    more ≠ [] ∧ ∀ p ∈ more, ∀ q ∈ ts, p.mspID ≠ q.mspID

theorem Endorses.targets {ccCalls : Option (List ChaincodeCall)} {next : RequestContext}
    {actions : List Action} {goesOn : Bool} (h : Endorses a ctx ccCalls next actions goesOn) :
    (ccCalls = none → ∀ x ∈ actions, x = .propose ctx.targets ∨ x = .trackProposal) ∧
      ∀ ts more, .propose ts ∈ actions → .proposeMore more ∈ actions →
        more ≠ [] ∧ ∀ p ∈ more, ∀ q ∈ ts, p.mspID ≠ q.mspID := by
  cases h with
  | failed => simp
  | endorsed => simp
  | more _ _ _ _ actions _ hchain _ _ _ _ _ _ hactions =>
      refine ⟨fun hnone => absurd (hnone.symm.trans hchain) nofun, fun ts more hts hmore => ?_⟩
      rcases hactions with rfl | ⟨targets, hne, hapart, hactions⟩
      · simp at hmore
      · have heq : ts = ctx.targets ∧ more = targets := by
          rcases hactions with ⟨rfl, -⟩ | rfl
          · exact ⟨by simpa using hts, by simpa using hmore⟩
          · exact ⟨by simpa using hts, by simpa using hmore⟩
        obtain ⟨rfl, rfl⟩ := heq
        refine ⟨hne, fun p hp q hq hmsp => ?_⟩
        have hnot := hapart p hp
        rw [containsMSP, List.any_eq_false] at hnot
        exact hnot q hq (by simpa using hmsp.symm)

theorem Selects.targets {next : RequestContext} {actions : List Action} {goesOn : Bool}
    (h : Selects a ctx next actions goesOn) : TargetsOk ctx.targets actions := by
  cases h with
  | failed _ hnone => exact ⟨fun hne => absurd hnone hne, nofun⟩
  | selected _ hnone h => exact ⟨fun hne => absurd hnone hne, h.targets.2⟩
  | given _ h => exact ⟨fun _ x hx _ => h.targets.1 rfl x hx, h.targets.2⟩

theorem not_endorsing_commitTx (a : Answers) (ctx : RequestContext) :
    ∀ x ∈ (commitTx a ctx).2, x.isEndorsing = false := by
  rcases commitTx_cases a ctx with ⟨err, h⟩ | ⟨err, h⟩ | ⟨err, h⟩ | ⟨next, h, -⟩
  · simp [h]
  · simp [h, Action.isEndorsing]
  · simp [h, Action.isEndorsing]
  · simp [h, Action.isEndorsing]

theorem targetsOk_handle (a : Answers) (ctx : RequestContext) :
    TargetsOk ctx.targets (handle a ctx).2 := by
  obtain ⟨ctx', actions, goesOn, hselects, ⟨-, h⟩ | ⟨-, err, h⟩ | ⟨-, h⟩⟩ := handle_cases a ctx
  · rw [h]
    exact hselects.targets
  · rw [h]
    exact hselects.targets
  · -- the commit asks no endorser
    have hmem : ∀ x, x.isEndorsing = true → x ∈ actions ++ (commitTx a ctx').2 → x ∈ actions := by
      intro x hx hmem
      refine (List.mem_append.mp hmem).resolve_right fun hcommit => ?_
      rw [not_endorsing_commitTx a ctx' x hcommit] at hx
      cases hx
    rw [h]
    refine ⟨fun hne x hx hendorsing => hselects.targets.1 hne x (hmem x hendorsing hx) hendorsing,
      fun ts more hts hmore => hselects.targets.2 ts more (hmem _ rfl hts) (hmem _ rfl hmore)⟩

/-- **Proposals go to the targets of the options**, in every attempt; where there
    are none, more endorsers are asked only of organizations that were not asked
    before in the attempt. -/
theorem targets_of_exec {r : ExecuteRequest} {answers : List Answers} {s : ExecuteState}
    (h : (execute r).exec r.initial answers = some s) {actions : List Action}
    (hactions : actions ∈ s.attempts) : TargetsOk r.targets actions := by
  have hall := (Lts.Run.of_exec h).preserves (I := fun s =>
    (s.finished = false → s.ctx.targets = r.targets) ∧
      ∀ actions ∈ s.attempts, TargetsOk r.targets actions) ?_
    ⟨fun _ => rfl, by simp [ExecuteRequest.initial]⟩
  · exact hall.2 actions hactions
  · rintro s a t ⟨htargets, hs⟩ - hstep
    obtain ⟨hopen, hattempts, hcases⟩ := executeStep_cases hstep
    refine ⟨fun hfinished => ?_, ?_⟩
    · rcases hcases with ⟨hfinished', -⟩ | ⟨-, -, hctx⟩
      · rw [hfinished'] at hfinished
        cases hfinished
      · rw [hctx]
        rfl
    · rw [hattempts]
      intro actions hmem
      rcases List.mem_append.mp hmem with hmem | hmem
      · exact hs actions hmem
      · rw [List.mem_singleton.mp hmem, ← htargets hopen]
        exact targetsOk_handle a s.ctx

theorem targets_afterRetry : TargetsOk [] lastAttempt :=
  targets_of_exec exec_retried lastAttempt_mem

/-! ## The calls of the request -/

/-- The action is the selection of additional endorsers. -/
def Action.isSelectMore : Action → Bool
  | .selectMore _ => true
  | _ => false

/-- The calls of a request change where more endorsers are selected, and only
    there. -/
def ChainStep (a : Answers) (ctx next : RequestContext) (actions : List Action) : Prop :=
  next.chaincodeID = ctx.chaincodeID ∧ next.ccFilter = ctx.ccFilter ∧
    ((next.invocationChain = ctx.invocationChain ∧ actions.countP Action.isSelectMore = 0) ∨
      ∃ targets txnID first rest calls, a.endorse targets = .ok (txnID, first :: rest) ∧
        getInvocationChainFromResponse first = .ok calls ∧
        mergeInvocationChains (newInvocationChain ctx.chaincodeID ctx.invocationChain) calls
          (getCCFilter ctx) = (next.invocationChain, true) ∧
        actions.countP Action.isSelectMore = 1)

theorem Selects.chainStep {next : RequestContext} {actions : List Action} {goesOn : Bool}
    (h : Selects a ctx next actions goesOn) : ChainStep a ctx next actions := by
  cases h with
  | failed => exact ⟨rfl, rfl, Or.inl ⟨rfl, rfl⟩⟩
  | selected peers _ h =>
      cases h with
      | failed => exact ⟨rfl, rfl, Or.inl ⟨rfl, rfl⟩⟩
      | endorsed => exact ⟨rfl, rfl, Or.inl ⟨rfl, rfl⟩⟩
      | more chain calls merged _ actions _ hchain hfirst hmerge hnext hid hfilter _ hactions =>
          obtain ⟨txnID, first, rest, hendorse, hcalls⟩ := hfirst
          obtain rfl := Option.some.inj hchain
          refine ⟨hid, hfilter, Or.inr ⟨peers, txnID, first, rest, calls, hendorse, hcalls, ?_, ?_⟩⟩
          · rw [hnext]
            exact hmerge
          · rcases hactions with rfl | ⟨targets, -, -, ⟨rfl, -⟩ | rfl⟩
            · rfl
            · rfl
            · rfl
  | given _ h =>
      cases h with
      | failed => exact ⟨rfl, rfl, Or.inl ⟨rfl, rfl⟩⟩
      | endorsed => exact ⟨rfl, rfl, Or.inl ⟨rfl, rfl⟩⟩
      | more _ _ _ _ _ _ hchain => cases hchain

theorem chainStep_handle (a : Answers) (ctx : RequestContext) :
    ChainStep a ctx (handle a ctx).1 (handle a ctx).2 := by
  obtain ⟨ctx', actions, goesOn, hselects, ⟨-, h⟩ | ⟨-, err, h⟩ | ⟨-, h⟩⟩ := handle_cases a ctx
  · rw [h]
    exact hselects.chainStep
  · rw [h]
    exact hselects.chainStep
  · have hcommit : (commitTx a ctx').2.countP Action.isSelectMore = 0 := by
      rw [List.countP_eq_zero]
      intro x hx hmore
      have hnot := not_endorsing_commitTx a ctx' x hx
      cases x with
      | selectMore => cases hnot
      | _ => cases hmore
    have hsame : (commitTx a ctx').1.invocationChain = ctx'.invocationChain ∧
        (commitTx a ctx').1.chaincodeID = ctx'.chaincodeID ∧
        (commitTx a ctx').1.ccFilter = ctx'.ccFilter := by
      rcases commitTx_cases a ctx' with ⟨err, hc⟩ | ⟨err, hc⟩ | ⟨err, hc⟩ |
        ⟨next, hc, hchain, hid, hfilter, -⟩
      · rw [hc]; exact ⟨rfl, rfl, rfl⟩
      · rw [hc]; exact ⟨rfl, rfl, rfl⟩
      · rw [hc]; exact ⟨rfl, rfl, rfl⟩
      · rw [hc]; exact ⟨hchain, hid, hfilter⟩
    obtain ⟨hid, hfilter, hchain⟩ := hselects.chainStep
    rw [h]
    refine ⟨hsame.2.1.trans hid, hsame.2.2.trans hfilter, ?_⟩
    simpa only [hsame.1, List.countP_append, hcommit, Nat.add_zero] using hchain

/-- The first endorsement of an attempt has these calls. -/
def Responds (calls : List ChaincodeCall) (a : Answers) : Prop :=
  ∀ targets txnID first rest, a.endorse targets = .ok (txnID, first :: rest) →
    getInvocationChainFromResponse first = .ok calls

/-- More endorsers were not selected, or the calls of the request are merged with
    those of the response. -/
def ChainSettled (r : ExecuteRequest) (calls : List ChaincodeCall) (s : ExecuteState) : Prop :=
  s.ctx.chaincodeID = r.chaincodeID ∧ s.ctx.ccFilter = r.ccFilter ∧
    (s.attempts.flatten.countP Action.isSelectMore = 0 ∨
      s.attempts.flatten.countP Action.isSelectMore = 1 ∧
        ∃ chain, s.ctx.invocationChain =
          (mergeInvocationChains chain calls (getCCFilter s.ctx)).1)

theorem getCCFilter_congr {ctx ctx' : RequestContext} (h : ctx'.ccFilter = ctx.ccFilter) :
    getCCFilter ctx' = getCCFilter ctx := by
  rw [getCCFilter, getCCFilter, h]

theorem ChainSettled.step {r : ExecuteRequest} {calls : List ChaincodeCall} {s t : ExecuteState}
    (hnodup : (calls.map ChaincodeCall.id).Nodup) (hs : ChainSettled r calls s)
    (hresponds : Responds calls a) (h : (execute r).step s a = some t) :
    ChainSettled r calls t := by
  obtain ⟨hid, hfilter, hcount⟩ := hs
  obtain ⟨-, hattempts, hcases⟩ := executeStep_cases h
  -- the reset keeps the calls
  have hctx : t.ctx.chaincodeID = (handle a s.ctx).1.chaincodeID ∧
      t.ctx.ccFilter = (handle a s.ctx).1.ccFilter ∧
      t.ctx.invocationChain = (handle a s.ctx).1.invocationChain := by
    rcases hcases with ⟨-, hctx⟩ | ⟨-, -, hctx⟩
    · rw [hctx]; exact ⟨rfl, rfl, rfl⟩
    · rw [hctx]; exact ⟨rfl, rfl, rfl⟩
  obtain ⟨hid', hfilter', hchain⟩ := chainStep_handle a s.ctx
  have hsame : getCCFilter t.ctx = getCCFilter s.ctx :=
    getCCFilter_congr (hctx.2.1.trans hfilter')
  refine ⟨hctx.1.trans (hid'.trans hid), hctx.2.1.trans (hfilter'.trans hfilter), ?_⟩
  rw [hattempts, List.flatten_concat, List.countP_append, hctx.2.2, hsame]
  rcases hchain with ⟨hkept, hzero⟩ | ⟨targets, txnID, first, rest, calls', hendorse, hcalls,
    hmerge, hone⟩
  · rw [hzero, hkept]
    exact hcount
  · rw [hresponds _ _ _ _ hendorse] at hcalls
    obtain rfl := Except.ok.inj hcalls
    rcases hcount with hzero | ⟨-, chain, hmerged⟩
    · rw [hzero, hone]
      exact Or.inr ⟨rfl, _, by rw [hmerge]⟩
    · -- the calls were merged before, so nothing is added
      have hsettled := @unchanged_of_merged calls (getCCFilter s.ctx) s.ctx.chaincodeID chain hnodup
      rw [← hmerged, hmerge] at hsettled
      cases hsettled

/-- **More endorsers are selected once at most**, however often a request is
    retried, where its endorsements have the same calls. -/
theorem selectMore_of_run {r : ExecuteRequest} {answers : List Answers} {s : ExecuteState}
    {calls : List ChaincodeCall} (hnodup : (calls.map ChaincodeCall.id).Nodup)
    (h : (execute r).Run (fun _ a => Responds calls a) r.initial answers s) :
    s.attempts.flatten.countP Action.isSelectMore ≤ 1 := by
  have hinitial : ChainSettled r calls r.initial := ⟨rfl, rfl, Or.inl rfl⟩
  obtain ⟨-, -, hzero | ⟨hone, -⟩⟩ := h.preserves
    (fun _ _ _ hs hresponds hstep => hs.step hnodup hresponds hstep) hinitial
  · omega
  · omega

theorem selectMore_afterRetry : afterRetry.attempts.flatten.countP Action.isSelectMore ≤ 1 := by
  have hresponds : ∀ code, Responds marblesCalls (answersWith code) := by
    intro code targets txnID first rest h
    obtain ⟨-, h⟩ := Prod.mk.inj (Except.ok.inj h)
    rw [← (List.cons.inj h).1]
    rfl
  exact selectMore_of_run (by decide)
    (.of_along exec_retried ⟨hresponds _, hresponds _, trivial⟩)

end Hfrd.GoSdk
