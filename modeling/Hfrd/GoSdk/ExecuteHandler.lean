/-
  Hfrd.GoSdk.ExecuteHandler

  The handlers of `Execute` and the loop that retries them
  (modules/gosdk/chaincode/utils/handlers.go, invoke.go).

  An attempt selects endorsers, collects endorsements, registers for the status
  of the transaction, broadcasts it and waits for the status.  What the SDK, the
  peers and the orderer answer in an attempt is `Answers`; a run is the list of
  the answers of its attempts.  The state keeps what each of them asked for.

  `InvokeHandler` makes the attempts in a goroutine and waits for their end, or
  for the end of the request, whichever its `select` takes; attempts go on
  behind a request that timed out.  An error in the options or the contexts ends
  it before the first attempt, and is left out.
-/

import Hfrd.GoSdk.InvocationChain
import Hfrd.Lib.Lts

namespace Hfrd.GoSdk

open Hfrd.Lib

/-! ## Data -/

/-- `fab.Peer`, by what is compared. -/
structure Peer where
  url : String
  mspID : String
  deriving DecidableEq

/-- An error, with the texts it was wrapped in. -/
inductive TxError where
  | sdk (text : String)
  | withMessage (cause : TxError) (message : String)
  | status (group : String) (code : Int32) (message : String)
  deriving DecidableEq

/-- A namespace of a read-write set, and the names of its hashed collections. -/
structure NsRwSet where
  nameSpace : String
  collHashedRwSets : List String

/-- `fab.TransactionProposalResponse` -/
structure ProposalResponse where
  endorser : String
  /-- What the payload is decoded to. -/
  rwSets : Except TxError (List NsRwSet)

/-- `pb.TxValidationCode_VALID` -/
def valid : Int32 := 0

/-- `status.Timeout` -/
def timeoutCode : Int32 := 5

/-- What an attempt is answered. -/
structure Answers where
  /-- `Selection.GetEndorsersForChaincode` -/
  getEndorsers : List ChaincodeCall → Except TxError (List Peer)
  /-- The endorsement handler of the SDK: the transaction and its endorsements. -/
  endorse : List Peer → Except TxError (String × List ProposalResponse)
  /-- `Selection.GetEndorsersForChaincode` with a priority. -/
  getPrioritized : List ChaincodeCall → (Peer → Peer → Int) → Except TxError (List Peer)
  sendTransactionProposal : List Peer → Except TxError (List ProposalResponse)
  /-- The validation of the endorsements and of their signatures. -/
  validate : List ProposalResponse → Option TxError
  registerTxStatusEvent : Option TxError
  createTransaction : Option TxError
  sendTransaction : Option TxError
  /-- The status that comes before the request is done. -/
  txStatus : Option Int32
  /-- Whether the retry handler wants another attempt. -/
  required : TxError → Bool

/-- What an attempt asks for. -/
inductive Action where
  | propose (targets : List Peer)
  | selectMore (invocationChain : List ChaincodeCall)
  | proposeMore (targets : List Peer)
  | trackProposal
  | register (txnID : String)
  | broadcast (txnID : String)
  | trackBroadcast
  | status (code : Option Int32)
  | unregister (txnID : String)
  deriving DecidableEq

/-- `invoke.RequestContext`, with its request and the fields of its response. -/
structure RequestContext where
  chaincodeID : String
  invocationChain : List ChaincodeCall
  ccFilter : Option (String → Bool)
  targets : List Peer
  responses : List ProposalResponse := []
  transactionID : String := ""
  txValidationCode : Int32 := valid
  error : Option TxError := none

/-- The request fails. -/
def RequestContext.fail (ctx : RequestContext) (err : TxError) : RequestContext :=
  { ctx with error := some err }

/-! ## Endorsing -/

/-- `lsccFilter` -/
def lsccFilter (ccID : String) : Bool := ccID ≠ "lscc"

/-- `getCCFilter` -/
def getCCFilter (ctx : RequestContext) : String → Bool :=
  match ctx.ccFilter with
  | some ccFilter => fun ccID => lsccFilter ccID && ccFilter ccID
  | none => lsccFilter

/-- `containsMSP` -/
def containsMSP (peers : List Peer) (mspID : String) : Bool := peers.any fun p => p.mspID = mspID

/-- A peer of the URL is among the peers. -/
def containsPeer (peers : List Peer) (peer : Peer) : Bool := peers.any fun p => p.url = peer.url

/-- `prioritizePeers` -/
def prioritizePeers (peers : List Peer) (peer1 peer2 : Peer) : Int :=
  if containsPeer peers peer1 && containsPeer peers peer2 then 0
  else if containsPeer peers peer1 then 1
  else if containsPeer peers peer2 then -1
  else 0

/-- `getInvocationChainFromResponse` -/
def getInvocationChainFromResponse (response : ProposalResponse) :
    Except TxError (List ChaincodeCall) :=
  response.rwSets.map fun rwSets =>
    rwSets.map fun rwSet => ⟨rwSet.nameSpace, rwSet.collHashedRwSets⟩

/-- The endorsers of other organizations that the calls in the first endorsement
    make necessary.  The calls of the request are changed even if this fails. -/
def getAdditionalEndorsers (a : Answers) (ctx : RequestContext)
    (invocationChain : List ChaincodeCall) (response : ProposalResponse) :
    RequestContext × List Action × Except TxError (List Peer) :=
  match getInvocationChainFromResponse response with
  | .error err => (ctx, [],
      .error (err.withMessage "error getting invocation chain from proposal response"))
  | .ok invocationChainFromResponse =>
      let (invocationChain, foundAdditional) :=
        mergeInvocationChains invocationChain invocationChainFromResponse (getCCFilter ctx)
      if foundAdditional = false then (ctx, [], .ok [])
      else
        let ctx := { ctx with invocationChain := invocationChain }
        let ccCalls := newInvocationChain ctx.chaincodeID invocationChain
        (ctx, [.selectMore ccCalls],
          match a.getPrioritized ccCalls (prioritizePeers ctx.targets) with
          | .error err => .error (err.withMessage "error getting additional endorsers")
          | .ok endorsers => .ok (endorsers.filter fun e => !containsMSP ctx.targets e.mspID))

/-- The endorsements of the targets, and of more endorsers where the targets
    were selected for `ccCalls`.  The flag tells that the next handler is
    called. -/
def endorseTargets (a : Answers) (ctx : RequestContext) (ccCalls : Option (List ChaincodeCall)) :
    RequestContext × List Action × Bool :=
  match a.endorse ctx.targets with
  | .error err => (ctx.fail err, [.propose ctx.targets], false)
  | .ok (txnID, responses) =>
      let endorsed := { ctx with transactionID := txnID, responses := responses }
      match ccCalls, responses with
      | some ccCalls, first :: _ =>
          match getAdditionalEndorsers a endorsed ccCalls first with
          -- without more endorsers, or with a warning, the endorsements are kept
          | (next, actions, .error _) =>
              (next, .propose ctx.targets :: actions ++ [.trackProposal], true)
          | (next, actions, .ok []) =>
              (next, .propose ctx.targets :: actions ++ [.trackProposal], true)
          | (next, actions, .ok additionalEndorsers) =>
              let next := { next with targets := additionalEndorsers }
              match a.sendTransactionProposal additionalEndorsers with
              | .error err =>
                  (next.fail (err.withMessage "error sending transaction proposal"),
                    .propose ctx.targets :: actions ++ [.proposeMore additionalEndorsers], false)
              | .ok additionalResponses =>
                  ({ next with responses := responses ++ additionalResponses },
                    .propose ctx.targets :: actions ++
                      [.proposeMore additionalEndorsers, .trackProposal], true)
      | _, _ => (endorsed, [.propose ctx.targets, .trackProposal], true)

/-- `selectAndEndorse`; the flag says whether the next handler runs. -/
def selectAndEndorse (a : Answers) (ctx : RequestContext) : RequestContext × List Action × Bool :=
  if ctx.targets = [] then
    let ccCalls := newInvocationChain ctx.chaincodeID ctx.invocationChain
    match a.getEndorsers ccCalls with
    | .error err => (ctx.fail err, [], false)
    | .ok peers => endorseTargets a { ctx with targets := peers } (some ccCalls)
  else endorseTargets a ctx none

/-! ## Committing -/

/-- `createAndSendTransaction` -/
def createAndSendTransaction (a : Answers) (txnID : String) :
    List Action × Except TxError Unit :=
  match a.createTransaction with
  | some err => ([], .error (err.withMessage "CreateTransaction failed"))
  | none => ([.broadcast txnID], match a.sendTransaction with
    | some err => .error (err.withMessage "SendTransaction failed")
    | none => .ok ())

/-- What is done between the registration and its end. -/
def commitRegistered (a : Answers) (ctx : RequestContext) : RequestContext × List Action :=
  match createAndSendTransaction a ctx.transactionID with
  | (actions, .error err) =>
      (ctx.fail (err.withMessage "CreateAndSendTransaction failed"), actions)
  | (actions, .ok ()) => (match a.txStatus with
      | some code =>
          let ctx := { ctx with txValidationCode := code }
          if code ≠ valid then
            ctx.fail (.status "EventServerStatus" code "received invalid transaction")
          else ctx
      | none => ctx.fail
          (.status "ClientStatus" timeoutCode "Execute didn't receive block event"),
      actions ++ [.trackBroadcast, .status a.txStatus])

/-- `CommitTxHandler.Handle` -/
def commitTx (a : Answers) (ctx : RequestContext) : RequestContext × List Action :=
  match a.registerTxStatusEvent with
  | some err => (ctx.fail (err.withMessage "error registering for TxStatus event"), [])
  | none =>
      let (next, actions) := commitRegistered a ctx
      (next, .register ctx.transactionID :: actions ++ [.unregister ctx.transactionID])

/-- The chain of `newExecuteHandler`. -/
def handle (a : Answers) (ctx : RequestContext) : RequestContext × List Action :=
  match selectAndEndorse a ctx with
  | (ctx, actions, false) => (ctx, actions)
  | (ctx, actions, true) => match a.validate ctx.responses with
    | some err => (ctx.fail err, actions)
    | none =>
        let (next, committed) := commitTx a ctx
        (next, actions ++ committed)

/-! ## Attempts -/

/-- What is asked for, and the targets of the options. -/
structure ExecuteRequest where
  chaincodeID : String
  invocationChain : List ChaincodeCall
  ccFilter : Option (String → Bool)
  targets : List Peer

/-- The invoker of `InvokeHandler`, between two attempts. -/
structure ExecuteState where
  ctx : RequestContext
  /-- What each attempt asked for. -/
  attempts : List (List Action)
  finished : Bool

/-- Before the first attempt. -/
def ExecuteRequest.initial (r : ExecuteRequest) : ExecuteState where
  ctx := {
    chaincodeID := r.chaincodeID
    invocationChain := r.invocationChain
    ccFilter := r.ccFilter
    targets := r.targets }
  attempts := []
  finished := false

/-- Before another attempt the targets, the response and the error are reset;
    the calls of the request are not. -/
def RequestContext.reset (ctx : RequestContext) (targets : List Peer) : RequestContext where
  chaincodeID := ctx.chaincodeID
  invocationChain := ctx.invocationChain
  ccFilter := ctx.ccFilter
  targets := targets

/-- One attempt of the goroutine. -/
def executeStep (r : ExecuteRequest) (s : ExecuteState) (a : Answers) : Option ExecuteState :=
  if s.finished then none
  else
    let (ctx, actions) := handle a s.ctx
    let attempts := s.attempts ++ [actions]
    match ctx.error with
    | none => some ⟨ctx, attempts, true⟩
    | some err =>
        if a.required err then some ⟨ctx.reset r.targets, attempts, false⟩
        else some ⟨ctx, attempts, true⟩

/-- The attempts of a request, one after the other. -/
def execute (r : ExecuteRequest) : Lts ExecuteState Answers := ⟨executeStep r⟩

/-! ## The request -/

/-- What happens while `InvokeHandler` waits. -/
inductive RequestEvent where
  | attempt (a : Answers)
  /-- The `select` takes the end of the attempts. -/
  | complete
  /-- The `select` takes the end of the request. -/
  | done

/-- The invoker, and the goroutine that waits for it. -/
structure RequestState where
  invoker : ExecuteState
  /-- What `InvokeHandler` has returned: an error, or none. -/
  returned : Option (Option TxError)

/-- The error of a request that ends before its attempts do. -/
def requestTimedOut : TxError :=
  .status "ClientStatus" timeoutCode "request timed out or been cancelled"

/-- Before the first attempt, and nothing has returned. -/
def ExecuteRequest.start (r : ExecuteRequest) : RequestState := ⟨r.initial, none⟩

/-- A step of the request; none where it cannot happen. -/
def requestStep (r : ExecuteRequest) (s : RequestState) : RequestEvent → Option RequestState
  | .attempt a => (executeStep r s.invoker a).map fun invoker => { s with invoker := invoker }
  | .complete =>
      if s.returned = none ∧ s.invoker.finished = true then
        some { s with returned := some s.invoker.ctx.error }
      else none
  | .done =>
      if s.returned = none then some { s with returned := some (some requestTimedOut) } else none

/-- `InvokeHandler` with the attempts and its `select`, in any order. -/
def invokeHandler (r : ExecuteRequest) : Lts RequestState RequestEvent := ⟨requestStep r⟩

/-! ## What a handler does -/

variable {a : Answers} {ctx : RequestContext}

/-- A commit fails to register, to create or to send the transaction, or waits
    for its status; it succeeds exactly with a valid one. -/
theorem commitTx_cases (a : Answers) (ctx : RequestContext) :
    (∃ err, commitTx a ctx = (ctx.fail err, [])) ∨
    (∃ err, commitTx a ctx =
      (ctx.fail err, [.register ctx.transactionID, .unregister ctx.transactionID])) ∨
    (∃ err, commitTx a ctx = (ctx.fail err, [.register ctx.transactionID,
      .broadcast ctx.transactionID, .unregister ctx.transactionID])) ∨
    (∃ next, commitTx a ctx = (next, [.register ctx.transactionID,
        .broadcast ctx.transactionID, .trackBroadcast, .status a.txStatus,
        .unregister ctx.transactionID]) ∧
      next.invocationChain = ctx.invocationChain ∧ next.chaincodeID = ctx.chaincodeID ∧
      next.ccFilter = ctx.ccFilter ∧
      (ctx.error = none → (next.error = none ↔ a.txStatus = some valid))) := by
  unfold commitTx
  split
  · exact Or.inl ⟨_, rfl⟩
  · unfold commitRegistered createAndSendTransaction
    cases a.createTransaction with
    | some err => exact Or.inr (Or.inl ⟨_, rfl⟩)
    | none =>
        cases a.sendTransaction with
        | some err => exact Or.inr (Or.inr (Or.inl ⟨_, rfl⟩))
        | none =>
            refine Or.inr (Or.inr (Or.inr ⟨_, rfl, ?_⟩))
            cases a.txStatus with
            | none => exact ⟨rfl, rfl, rfl, fun _ => by simp [RequestContext.fail]⟩
            | some code =>
                -- any other status is an error
                by_cases hcode : code = valid
                · simp [hcode]
                · simp [hcode, RequestContext.fail]

/-- What the calls in a response lead to: nothing, or more endorsers are
    selected for the merged calls. -/
theorem getAdditionalEndorsers_cases (a : Answers) (ctx : RequestContext)
    (invocationChain : List ChaincodeCall) (response : ProposalResponse) :
    (∃ result, getAdditionalEndorsers a ctx invocationChain response = (ctx, [], result) ∧
      ∀ peers, result = .ok peers → peers = []) ∨
    (∃ calls merged result, getInvocationChainFromResponse response = .ok calls ∧
      mergeInvocationChains invocationChain calls (getCCFilter ctx) = (merged, true) ∧
      getAdditionalEndorsers a ctx invocationChain response =
        ({ ctx with invocationChain := merged },
          [.selectMore (newInvocationChain ctx.chaincodeID merged)], result) ∧
      ∀ peers, result = .ok peers → ∀ p ∈ peers, containsMSP ctx.targets p.mspID = false) := by
  unfold getAdditionalEndorsers
  cases hcalls : getInvocationChainFromResponse response with
  | error err => exact Or.inl ⟨_, rfl, nofun⟩
  | ok calls =>
      cases hmerge : mergeInvocationChains invocationChain calls (getCCFilter ctx) with
      | mk merged changed =>
          cases changed with
          | false => exact Or.inl ⟨_, by simp only [hmerge]; rfl,
              fun peers h => (Except.ok.inj h).symm⟩
          | true =>
              refine Or.inr ⟨calls, merged, _, rfl, hmerge, by simp only [hmerge]; rfl, ?_⟩
              intro peers hpeers p hp
              split at hpeers
              · cases hpeers
              · rw [← Except.ok.inj hpeers] at hp
                simpa using (List.mem_filter.mp hp).2

/-- What endorsing may do. -/
inductive Endorses (a : Answers) (ctx : RequestContext) (ccCalls : Option (List ChaincodeCall)) :
    RequestContext → List Action → Bool → Prop
  | failed (err : TxError) :
      Endorses a ctx ccCalls (ctx.fail err) [.propose ctx.targets] false
  | endorsed (txnID : String) (responses : List ProposalResponse) :
      Endorses a ctx ccCalls { ctx with transactionID := txnID, responses := responses }
        [.propose ctx.targets, .trackProposal] true
  | more (chain calls merged : List ChaincodeCall) (next : RequestContext) (actions : List Action)
      (goesOn : Bool) : ccCalls = some chain →
      (∃ txnID first rest, a.endorse ctx.targets = .ok (txnID, first :: rest) ∧
        getInvocationChainFromResponse first = .ok calls) →
      mergeInvocationChains chain calls (getCCFilter ctx) = (merged, true) →
      next.invocationChain = merged → next.chaincodeID = ctx.chaincodeID →
      next.ccFilter = ctx.ccFilter →
      (if goesOn then next.error = ctx.error else next.error ≠ none) →
      (actions = [.trackProposal] ∨ ∃ targets, targets ≠ [] ∧
        (∀ p ∈ targets, containsMSP ctx.targets p.mspID = false) ∧
        (actions = [.proposeMore targets] ∧ goesOn = false ∨
          actions = [.proposeMore targets, .trackProposal])) →
      Endorses a ctx ccCalls next (.propose ctx.targets ::
        .selectMore (newInvocationChain ctx.chaincodeID merged) :: actions) goesOn

theorem endorses_endorseTargets {ccCalls : Option (List ChaincodeCall)} {next : RequestContext}
    {actions : List Action} {goesOn : Bool}
    (h : endorseTargets a ctx ccCalls = (next, actions, goesOn)) :
    Endorses a ctx ccCalls next actions goesOn := by
  unfold endorseTargets at h
  split at h
  · cases h
    exact .failed _
  · next txnID responses hendorse =>
      simp only at h
      split at h
      · next ccCalls first rest =>
          -- whether the response adds calls decides if more endorsers are asked for
          rcases getAdditionalEndorsers_cases a
            { ctx with transactionID := txnID, responses := first :: rest } ccCalls first with
            ⟨result, heq, hnone⟩ | ⟨calls, merged, result, hcalls, hmerge, heq, hapart⟩
          · rw [heq] at h
            cases result with
            | error err =>
                cases h
                exact .endorsed _ _
            | ok peers =>
                obtain rfl := hnone peers rfl
                cases h
                exact .endorsed _ _
          · rw [heq] at h
            -- the merged chain covers the first response
            have hfirst : ∃ txnID first rest, a.endorse ctx.targets = .ok (txnID, first :: rest) ∧
                getInvocationChainFromResponse first = .ok calls :=
              ⟨txnID, first, rest, hendorse, hcalls⟩
            cases result with
            | error err =>
                cases h
                exact .more ccCalls calls merged _ _ _ rfl hfirst hmerge rfl rfl rfl rfl
                  (Or.inl rfl)
            | ok peers =>
                cases peers with
                | nil =>
                    cases h
                    exact .more ccCalls calls merged _ _ _ rfl hfirst hmerge rfl rfl rfl rfl
                      (Or.inl rfl)
                | cons p peers =>
                    simp only at h
                    split at h
                    · cases h
                      exact .more ccCalls calls merged _ _ _ rfl hfirst hmerge rfl rfl rfl
                        (Option.some_ne_none _)
                        (Or.inr ⟨_, List.cons_ne_nil _ _, hapart _ rfl, Or.inl ⟨rfl, rfl⟩⟩)
                    · cases h
                      exact .more ccCalls calls merged _ _ _ rfl hfirst hmerge rfl rfl rfl rfl
                        (Or.inr ⟨_, List.cons_ne_nil _ _, hapart _ rfl, Or.inr rfl⟩)
      · cases h
        exact .endorsed _ _

/-- What selecting and endorsing may do. -/
inductive Selects (a : Answers) (ctx : RequestContext) :
    RequestContext → List Action → Bool → Prop
  | failed (err : TxError) : ctx.targets = [] → Selects a ctx (ctx.fail err) [] false
  | selected (peers : List Peer) {next : RequestContext} {actions : List Action} {goesOn : Bool} :
      ctx.targets = [] →
      Endorses a { ctx with targets := peers }
        (some (newInvocationChain ctx.chaincodeID ctx.invocationChain)) next actions goesOn →
      Selects a ctx next actions goesOn
  | given {next : RequestContext} {actions : List Action} {goesOn : Bool} : ctx.targets ≠ [] →
      Endorses a ctx none next actions goesOn → Selects a ctx next actions goesOn

theorem selects_selectAndEndorse {next : RequestContext} {actions : List Action} {goesOn : Bool}
    (h : selectAndEndorse a ctx = (next, actions, goesOn)) :
    Selects a ctx next actions goesOn := by
  unfold selectAndEndorse at h
  split at h
  · next htargets =>
      simp only at h
      split at h
      · cases h
        exact .failed _ htargets
      · exact .selected _ htargets (endorses_endorseTargets h)
  · next htargets => exact .given htargets (endorses_endorseTargets h)

/-- The chain of handlers stops after endorsing, after validating, or goes on to
    commit. -/
theorem handle_cases (a : Answers) (ctx : RequestContext) :
    ∃ ctx' actions goesOn, Selects a ctx ctx' actions goesOn ∧
      ((goesOn = false ∧ handle a ctx = (ctx', actions)) ∨
        (goesOn = true ∧ ∃ err, handle a ctx = (ctx'.fail err, actions)) ∨
        (goesOn = true ∧ handle a ctx =
          ((commitTx a ctx').1, actions ++ (commitTx a ctx').2))) := by
  cases hselect : selectAndEndorse a ctx with
  | mk ctx' out =>
      obtain ⟨actions, goesOn⟩ := out
      refine ⟨ctx', actions, goesOn, selects_selectAndEndorse hselect, ?_⟩
      cases goesOn with
      | false => exact Or.inl ⟨rfl, by rw [handle, hselect]⟩
      | true =>
          cases hvalidate : a.validate ctx'.responses with
          | some err => exact Or.inr (Or.inl ⟨rfl, err, by simp [handle, hselect, hvalidate]⟩)
          | none => exact Or.inr (Or.inr ⟨rfl, by simp [handle, hselect, hvalidate]⟩)

/-- The actions before a transaction is registered. -/
def Action.isEndorsing : Action → Bool
  | .propose _ | .selectMore _ | .proposeMore _ | .trackProposal => true
  | _ => false

theorem Endorses.isEndorsing {ccCalls : Option (List ChaincodeCall)} {next : RequestContext}
    {actions : List Action} {goesOn : Bool} (h : Endorses a ctx ccCalls next actions goesOn) :
    ∀ x ∈ actions, x.isEndorsing = true := by
  cases h with
  | failed => simp [Action.isEndorsing]
  | endorsed => simp [Action.isEndorsing]
  | more _ _ _ _ actions _ _ _ _ _ _ _ _ hactions =>
      rcases hactions with rfl | ⟨targets, -, -, ⟨rfl, -⟩ | rfl⟩
      · simp [Action.isEndorsing]
      · simp [Action.isEndorsing]
      · simp [Action.isEndorsing]

theorem Endorses.error {ccCalls : Option (List ChaincodeCall)} {next : RequestContext}
    {actions : List Action} {goesOn : Bool} (h : Endorses a ctx ccCalls next actions goesOn) :
    if goesOn then next.error = ctx.error else next.error ≠ none := by
  cases h with
  | failed err => exact Option.some_ne_none err
  | endorsed => exact rfl
  | more _ _ _ _ _ _ _ _ _ _ _ _ herror => exact herror

theorem Selects.isEndorsing {next : RequestContext} {actions : List Action} {goesOn : Bool}
    (h : Selects a ctx next actions goesOn) : ∀ x ∈ actions, x.isEndorsing = true := by
  cases h with
  | failed => exact fun x hx => absurd hx List.not_mem_nil
  | selected _ _ h => exact h.isEndorsing
  | given _ h => exact h.isEndorsing

theorem Selects.error {next : RequestContext} {actions : List Action} {goesOn : Bool}
    (h : Selects a ctx next actions goesOn) :
    if goesOn then next.error = ctx.error else next.error ≠ none := by
  cases h with
  | failed err => exact Option.some_ne_none err
  | selected _ _ h => exact h.error
  | given _ h => exact h.error

end Hfrd.GoSdk
