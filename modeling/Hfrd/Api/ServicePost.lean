/-
  Hfrd.Api.ServicePost

  `ServicePost` (api/resource/service.go), the request for a new network, and
  the filter `CheckEnv` (api/resource/filter/filter.go) in front of it.

  The handler checks the plan and fills in its defaults in one go, and not in
  the same order everywhere: for an enterprise plan on Bluemix the number of
  organizations is checked before it has a default, so the omitted number, 0,
  is out of range.
-/

import Hfrd.Api.Routine
import Hfrd.Go.Map

namespace Hfrd.Api

open Hfrd.Go

/-! ## Constants of api/resource/const.go -/

/-- The parameter of the environment. -/
def ENV : String := "env"
/-- The parameter of the location. -/
def LOCATION : String := "loc"

/-- The staging environment. -/
def BX_STAGING : String := "bxstaging"
/-- The production environment. -/
def BX_PROD : String := "bxproduction"

/-- How many organizations a network has that asks for none. -/
def DEFAULT_NUM_OF_ORGS : Int64 := 1
/-- How many peers an organization has that asks for none. -/
def DEFAULT_NUM_OF_PEERS : Int64 := 2
/-- The parameter of the number of organizations. -/
def NUM_OF_ORGS_KEY : String := "numOfOrgs"
/-- The parameter of the number of peers. -/
def NUM_OF_PEERS_KEY : String := "numOfPeers"
/-- The parameter of the ledger type. -/
def LEDGER_TYPE_KEY : String := "ledgerType"
/-- The ledger type of LevelDB. -/
def LEVELDB : String := "levelDB"

/-- Constants of api/utils/jenkins/const.go. -/
def SERVICE_ID : String := "serviceid"
/-- The parameter of the job that says what it does. -/
def METHOD : String := "method"

/-- The plans of each environment. -/
def SUPPORTED_ENV : Map (List String) :=
  ⟨[(BX_STAGING, [STARTER, ENTERPRISE]), (BX_PROD, [STARTER, ENTERPRISE]), (CM, [ENTERPRISE])]⟩

/-- `%s` and `%v` of a slice of strings. -/
def formatStrings (texts : List String) : String := "[" ++ " ".intercalate texts ++ "]"

/-! ## Plans -/

/-- The configuration in a plan. -/
structure NetworkConfig where
  numOfOrgs : Int64
  numOfPeers : Int64
  ledgerType : String
deriving DecidableEq

/-- The body of the request. -/
structure Plan where
  env : String
  location : String
  name : String
  config : NetworkConfig
deriving DecidableEq

/-- What `CheckEnv` answers to a plan it does not let pass. -/
def checkEnv (plan : Plan) : Option String :=
  if plan.env = "" then some (ENV ++ " is empty")
  else match SUPPORTED_ENV.get? plan.env with
    | some _ => none
    | none => some ("Currently supported env " ++ formatStrings (SUPPORTED_ENV.range.map Prod.fst))

/-! ## The handler -/

/-- The switch on the ledger type: the type that is used, or the answer. -/
def checkLedgerType (ledgerType : String) : Except String String :=
  if ledgerType = LEVELDB ∨ ledgerType = COUCHDB then .ok ledgerType
  else if ledgerType = "" then .ok LEVELDB
  else .error ("Unsupported ledger type: " ++ ledgerType ++ ". We only support " ++
    formatStrings [LEVELDB, COUCHDB])

/-- A job of Jenkins with its parameters, for a plan with its defaults. -/
structure Prepared where
  jobName : String
  plan : Plan
  params : Map String

/-- A number, or the default where it is not positive. -/
def atLeastOne (n default : Int64) : Int64 := if n < 1 then default else n

/-- `case CM` -/
def prepareCM (plan : Plan) : Except String Prepared := do
  let name := if plan.name = "" then ENTERPRISE else plan.name
  let numOfOrgs := atLeastOne plan.config.numOfOrgs DEFAULT_NUM_OF_ORGS
  let numOfPeers := atLeastOne plan.config.numOfPeers DEFAULT_NUM_OF_PEERS
  let ledgerType ← checkLedgerType plan.config.ledgerType
  return {
    jobName := NETWORK_CM
    plan := { plan with name := name, config := ⟨numOfOrgs, numOfPeers, ledgerType⟩ }
    params := (((((({} : Map String).insert ENV plan.env).insert METHOD POST).insert SERVICE_ID "")
      |>.insert LOCATION plan.location).insert NUM_OF_ORGS_KEY (itoa numOfOrgs)
      |>.insert NUM_OF_PEERS_KEY (itoa numOfPeers)).insert LEDGER_TYPE_KEY ledgerType }

/-- `case BX_STAGING, BX_PROD` -/
def prepareBx (plan : Plan) : Except String Prepared :=
  let params := ((({} : Map String).insert ENV plan.env).insert METHOD POST).insert SERVICE_ID ""
  if plan.name = "" then .ok ⟨NETWORK, { plan with name := STARTER }, params⟩
  else if plan.name = ENTERPRISE then do
    let params := (params.insert ENV (plan.env ++ "-" ++ ENTERPRISE)).insert LOCATION plan.location
    -- the number as it was posted
    if plan.config.numOfOrgs > 2 ∨ plan.config.numOfOrgs ≤ 0 then
      throw "Currently we only support no more than 2 Orgs for bx EP"
    let params := params.insert NUM_OF_ORGS_KEY (itoa plan.config.numOfOrgs)
    let numOfPeers := atLeastOne plan.config.numOfPeers DEFAULT_NUM_OF_PEERS
    let params := params.insert NUM_OF_PEERS_KEY (itoa numOfPeers)
    let ledgerType ← checkLedgerType plan.config.ledgerType
    return {
      jobName := NETWORK
      plan := { plan with config := ⟨plan.config.numOfOrgs, numOfPeers, ledgerType⟩ }
      params := params.insert LEDGER_TYPE_KEY ledgerType }
  else .ok ⟨NETWORK, plan, params⟩

/-- The switch on the environment. -/
def prepare (plan : Plan) : Except String Prepared :=
  if plan.env = CM then prepareCM plan
  else if plan.env = BX_STAGING ∨ plan.env = BX_PROD then prepareBx plan
  else .error ("Unsupported environment " ++ plan.env)

/-- The answer to the request. -/
inductive Response
  | badRequest (message : String)
  /-- With the queue id in the header. -/
  | accepted (queueid : String) (message : String)
deriving DecidableEq

/-- The response, the call of `TriggerJob`, and the request whose job is saved. -/
structure Posted where
  response : Response
  triggered : Option (String × Map String)
  request : Option Request

/-- The request is refused: no build is started and nothing is stored. -/
def rejected (message : String) : Posted := ⟨.badRequest message, none, none⟩

/-- `plan` is the one that `CheckEnv` has set, if any. -/
def servicePost (triggerJob : String → Map String → Except String String)
    (contentRepo uid : String) (plan : Option Plan) : Posted :=
  match plan with
  | none => rejected "No valid plan provided"
  | some plan =>
      match prepare plan with
      | .error message => rejected message
      | .ok ⟨jobName, plan, params⟩ =>
          let supported := (SUPPORTED_ENV.get? plan.env).getD []
          if plan.name ∉ supported then
            rejected ("Unsupported plan name " ++ plan.name ++ ", we only support " ++
              formatStrings supported ++ " for " ++ plan.env)
          else
            let params := (params.insert "contentrepo" contentRepo).insert "uid" uid
            match triggerJob jobName params with
            | .error err => ⟨.badRequest err, some (jobName, params), none⟩
            | .ok queueid => {
                response := .accepted queueid
                  ("Your request has been accepted in " ++ plan.env ++ " environment.")
                triggered := some (jobName, params)
                request := some (.servicePost jobName queueid uid plan.name plan.env
                  plan.location plan.config.numOfOrgs.toInt plan.config.numOfPeers.toInt
                  plan.config.ledgerType) }

/-! ## What the checks are to be -/

/-- The type that is used if it is supported. -/
def usedLedgerType (ledgerType : String) : String :=
  if ledgerType = "" then LEVELDB else ledgerType

/-- The ledger types the service knows. -/
def SupportedLedger (ledgerType : String) : Prop := ledgerType = LEVELDB ∨ ledgerType = COUCHDB

/-- The configuration with its defaults in place. -/
def NetworkConfig.withDefaults (config : NetworkConfig) : NetworkConfig where
  numOfOrgs := atLeastOne config.numOfOrgs DEFAULT_NUM_OF_ORGS
  numOfPeers := atLeastOne config.numOfPeers DEFAULT_NUM_OF_PEERS
  ledgerType := usedLedgerType config.ledgerType

/-- The name of the plan that is used. -/
def Plan.usedName (plan : Plan) : String :=
  if plan.name ≠ "" then plan.name else if plan.env = CM then ENTERPRISE else STARTER

/-- The plan with all its defaults. -/
def Plan.withDefaults (plan : Plan) : Plan :=
  { plan with
    name := plan.usedName
    config := if plan.usedName = ENTERPRISE then plan.config.withDefaults else plan.config }

/-- The checks on a plan with its defaults. -/
structure Plan.Supported (plan : Plan) : Prop where
  name : plan.name ∈ (SUPPORTED_ENV.get? plan.env).getD []
  ledgerType : plan.name = ENTERPRISE → SupportedLedger plan.config.ledgerType
  numOfOrgs : plan.name = ENTERPRISE → plan.env ≠ CM → plan.config.numOfOrgs ≤ 2

/-- The parameters for an enterprise plan: as posted, where it was posted. -/
structure Sent (plan : Plan) (params : Map String) : Prop where
  numOfOrgs : ∃ n, params.get? NUM_OF_ORGS_KEY = some (itoa n) ∧ 1 ≤ n ∧
    (1 ≤ plan.config.numOfOrgs → n = plan.config.numOfOrgs)
  numOfPeers : ∃ n, params.get? NUM_OF_PEERS_KEY = some (itoa n) ∧ 1 ≤ n ∧
    (1 ≤ plan.config.numOfPeers → n = plan.config.numOfPeers)
  ledgerType : plan.config.ledgerType ≠ "" →
    params.get? LEDGER_TYPE_KEY = some plan.config.ledgerType

/-- The plan is accepted if it passes the checks with its defaults, and no
    other; an enterprise plan is sent on. -/
structure Agrees (plan : Plan) (posted : Posted) : Prop where
  accepted_iff : (∃ queueid message, posted.response = .accepted queueid message) ↔
    plan.withDefaults.Supported
  sent : ∀ queueid message, posted.response = .accepted queueid message →
    plan.withDefaults.name = ENTERPRISE →
      ∃ jobName params, posted.triggered = some (jobName, params) ∧ Sent plan params

/-- An enterprise plan for Bluemix that only lacks a number of organizations. -/
structure LacksOrgs (plan : Plan) : Prop where
  env : plan.env ≠ CM
  name : plan.name = ENTERPRISE
  numOfOrgs : plan.config.numOfOrgs < 1
  ledgerType : SupportedLedger (usedLedgerType plan.config.ledgerType)

/-! ## Defaults -/

instance (ledgerType : String) : Decidable (SupportedLedger ledgerType) :=
  inferInstanceAs (Decidable (_ ∨ _))

/-- The switch checks the type that is used. -/
theorem checkLedgerType_of_supported {ledgerType : String}
    (h : SupportedLedger (usedLedgerType ledgerType)) :
    checkLedgerType ledgerType = .ok (usedLedgerType ledgerType) := by
  unfold checkLedgerType
  by_cases hempty : ledgerType = ""
  · subst hempty
    rfl
  · simp only [usedLedgerType, hempty, if_false] at h ⊢
    exact if_pos h

theorem checkLedgerType_of_not_supported {ledgerType : String}
    (h : ¬ SupportedLedger (usedLedgerType ledgerType)) :
    ∃ message, checkLedgerType ledgerType = .error message := by
  unfold checkLedgerType
  by_cases hempty : ledgerType = ""
  · subst hempty
    exact absurd (Or.inl rfl) h
  · simp only [usedLedgerType, SupportedLedger, hempty, if_false] at h
    rw [if_neg h, if_neg hempty]
    exact ⟨_, rfl⟩

theorem one_le_atLeastOne {n default : Int64} (h : 1 ≤ default) : 1 ≤ atLeastOne n default := by
  unfold atLeastOne
  split
  · exact h
  · next hn => exact Int64.not_lt.mp hn

theorem atLeastOne_of_le {n default : Int64} (h : 1 ≤ n) : atLeastOne n default = n :=
  if_neg (Int64.not_lt.mpr h)

theorem lt_one_iff {n : Int64} : n < 1 ↔ n ≤ 0 := by
  have hzero : (0 : Int64).toInt = 0 := by decide
  have hone : (1 : Int64).toInt = 1 := by decide
  rw [Int64.lt_iff_toInt_lt, Int64.le_iff_toInt_le, hzero, hone]
  omega

/-- Which environments pass the filter. -/
theorem env_of_checkEnv {plan : Plan} (h : checkEnv plan = none) :
    plan.env = BX_STAGING ∨ plan.env = BX_PROD ∨ plan.env = CM := by
  unfold checkEnv at h
  split at h
  · cases h
  · cases hget : SUPPORTED_ENV.get? plan.env with
    | none => simp [hget] at h
    | some plans =>
        have hmem := Map.mem_of_get? hget
        simp only [SUPPORTED_ENV, List.mem_cons, Prod.mk.injEq, List.not_mem_nil, or_false] at hmem
        rcases hmem with ⟨henv, -⟩ | ⟨henv, -⟩ | ⟨henv, -⟩
        · exact Or.inl henv
        · exact Or.inr (Or.inl henv)
        · exact Or.inr (Or.inr henv)

/-! ## Which plans are accepted -/

section Post

variable {triggerJob : String → Map String → Except String String} {contentRepo uid : String}
  {plan : Plan}

theorem servicePost_of_error {message : String} (h : prepare plan = .error message) :
    servicePost triggerJob contentRepo uid (some plan) = rejected message := by
  simp only [servicePost, h]

theorem servicePost_of_unsupported {prepared : Prepared} (h : prepare plan = .ok prepared)
    (hname : prepared.plan.name ∉ (SUPPORTED_ENV.get? prepared.plan.env).getD []) :
    ∃ message, servicePost triggerJob contentRepo uid (some plan) = rejected message := by
  simp only [servicePost, h, if_pos hname]
  exact ⟨_, rfl⟩

/-- A prepared plan with a supported name is sent to Jenkins. -/
theorem servicePost_of_supported {prepared : Prepared} (h : prepare plan = .ok prepared)
    (hname : prepared.plan.name ∈ (SUPPORTED_ENV.get? prepared.plan.env).getD [])
    (htrigger : ∀ jobName params, ∃ queueid, triggerJob jobName params = .ok queueid) :
    ∃ queueid message, (servicePost triggerJob contentRepo uid (some plan)).response
        = .accepted queueid message ∧
      (servicePost triggerJob contentRepo uid (some plan)).triggered
        = some (prepared.jobName,
          (prepared.params.insert "contentrepo" contentRepo).insert "uid" uid) := by
  obtain ⟨queueid, hqueueid⟩ := htrigger prepared.jobName
    ((prepared.params.insert "contentrepo" contentRepo).insert "uid" uid)
  simp only [servicePost, h, hname, not_true_eq_false, if_false, hqueueid]
  exact ⟨queueid, _, rfl, trivial⟩

end Post

/-! ## The environments -/

theorem plans_CM : (SUPPORTED_ENV.get? CM).getD [] = [ENTERPRISE] := by decide

theorem plans_bx {env : String} (h : env = BX_STAGING ∨ env = BX_PROD) :
    (SUPPORTED_ENV.get? env).getD [] = [STARTER, ENTERPRISE] := by
  rcases h with rfl | rfl <;> decide

theorem supported_CM {plan : Plan} (henv : plan.env = CM) :
    plan.withDefaults.Supported ↔ plan.usedName = ENTERPRISE ∧
      SupportedLedger (usedLedgerType plan.config.ledgerType) := by
  constructor
  · rintro ⟨hname, hledger, -⟩
    have hep : plan.usedName = ENTERPRISE := by
      simpa [Plan.withDefaults, henv, plans_CM] using hname
    have hused := hledger hep
    rw [Plan.withDefaults, if_pos hep] at hused
    exact ⟨hep, hused⟩
  · rintro ⟨hep, hused⟩
    refine ⟨?_, fun _ => ?_, fun _ hne => absurd henv hne⟩
    · simp [Plan.withDefaults, henv, plans_CM, hep]
    · rw [Plan.withDefaults, if_pos hep]
      exact hused

theorem supported_bx {plan : Plan} (henv : plan.env = BX_STAGING ∨ plan.env = BX_PROD) :
    plan.withDefaults.Supported ↔ plan.usedName = STARTER ∨ plan.usedName = ENTERPRISE ∧
      SupportedLedger (usedLedgerType plan.config.ledgerType) ∧
        atLeastOne plan.config.numOfOrgs DEFAULT_NUM_OF_ORGS ≤ 2 := by
  have hne : plan.env ≠ CM := by
    rcases henv with h | h <;> (rw [h]; decide)
  constructor
  · rintro ⟨hname, hledger, horgs⟩
    have hmem : plan.usedName = STARTER ∨ plan.usedName = ENTERPRISE := by
      simpa [Plan.withDefaults, plans_bx henv] using hname
    refine hmem.imp_right fun hep => ?_
    have hused := hledger hep
    have hle := horgs hep hne
    rw [Plan.withDefaults, if_pos hep] at hused hle
    exact ⟨hep, hused, hle⟩
  · intro h
    have hmem : plan.usedName = STARTER ∨ plan.usedName = ENTERPRISE := h.imp_right And.left
    -- the two names differ
    have hstarter : plan.usedName = ENTERPRISE → plan.usedName ≠ STARTER := by
      intro hep
      rw [hep]
      decide
    refine ⟨?_, fun (hep : plan.usedName = ENTERPRISE) => ?_,
      fun (hep : plan.usedName = ENTERPRISE) _ => ?_⟩
    · simpa [Plan.withDefaults, plans_bx henv] using hmem
    · rw [Plan.withDefaults, if_pos hep]
      exact (h.resolve_left (hstarter hep)).2.1
    · rw [Plan.withDefaults, if_pos hep]
      exact (h.resolve_left (hstarter hep)).2.2

/-! ## One request -/

section Agrees

variable {triggerJob : String → Map String → Except String String} {contentRepo uid : String}
  {plan : Plan}

theorem agrees_rejected_iff {posted : Posted} {message : String} (h : posted = rejected message) :
    Agrees plan posted ↔ ¬ plan.withDefaults.Supported := by
  subst h
  constructor
  · intro hagrees hsupported
    obtain ⟨queueid, text, haccepted⟩ := hagrees.accepted_iff.mpr hsupported
    cases haccepted
  · intro hnot
    refine ⟨iff_of_false ?_ hnot, fun queueid text haccepted => ?_⟩
    · rintro ⟨queueid, text, haccepted⟩
      cases haccepted
    · cases haccepted

/-- Two more parameters. -/
theorem Sent.insert_ids {params : Map String} (h : Sent plan params) :
    Sent plan ((params.insert "contentrepo" contentRepo).insert "uid" uid) := by
  have hget : ∀ key, key ≠ "contentrepo" → key ≠ "uid" →
      ((params.insert "contentrepo" contentRepo).insert "uid" uid).get? key = params.get? key := by
    intro key hrepo huid
    rw [Map.get?_insert, if_neg huid, Map.get?_insert, if_neg hrepo]
  refine ⟨?_, ?_, ?_⟩
  · rw [hget _ (by decide) (by decide)]
    exact h.numOfOrgs
  · rw [hget _ (by decide) (by decide)]
    exact h.numOfPeers
  · rw [hget _ (by decide) (by decide)]
    exact h.ledgerType

theorem agrees_of_prepared {prepared : Prepared} (h : prepare plan = .ok prepared)
    (hname : prepared.plan.name ∈ (SUPPORTED_ENV.get? prepared.plan.env).getD [])
    (htrigger : ∀ jobName params, ∃ queueid, triggerJob jobName params = .ok queueid)
    (hsupported : plan.withDefaults.Supported)
    (hsent : plan.usedName = ENTERPRISE → Sent plan prepared.params) :
    Agrees plan (servicePost triggerJob contentRepo uid (some plan)) := by
  obtain ⟨queueid, message, haccepted, htriggered⟩ :=
    @servicePost_of_supported triggerJob contentRepo uid plan prepared h hname htrigger
  refine ⟨iff_of_true ⟨queueid, message, haccepted⟩ hsupported, fun _ _ _ hep => ?_⟩
  exact ⟨_, _, htriggered, (hsent hep).insert_ids⟩

/-- The parameters with the defaults of an enterprise plan. -/
theorem sent_withDefaults {params : Map String}
    (horgs : params.get? NUM_OF_ORGS_KEY = some (itoa plan.config.withDefaults.numOfOrgs))
    (hpeers : params.get? NUM_OF_PEERS_KEY = some (itoa plan.config.withDefaults.numOfPeers))
    (hledger : params.get? LEDGER_TYPE_KEY = some plan.config.withDefaults.ledgerType) :
    Sent plan params where
  numOfOrgs := ⟨_, horgs, one_le_atLeastOne (by decide), fun h => atLeastOne_of_le h⟩
  numOfPeers := ⟨_, hpeers, one_le_atLeastOne (by decide), fun h => atLeastOne_of_le h⟩
  ledgerType h := by
    rw [hledger, NetworkConfig.withDefaults, usedLedgerType, if_neg h]

theorem prepareCM_of_supported (henv : plan.env = CM)
    (h : SupportedLedger (usedLedgerType plan.config.ledgerType)) :
    ∃ prepared, prepareCM plan = .ok prepared ∧ prepared.plan.env = plan.env ∧
      prepared.plan.name = plan.usedName ∧ Sent plan prepared.params := by
  have hname : (if plan.name = "" then ENTERPRISE else plan.name) = plan.usedName := by
    unfold Plan.usedName
    by_cases hempty : plan.name = ""
    · simp [hempty, henv]
    · simp [hempty]
  rw [prepareCM, checkLedgerType_of_supported h]
  exact ⟨_, rfl, rfl, hname, sent_withDefaults rfl rfl rfl⟩

theorem prepareBx_of_supported (hname : plan.name = ENTERPRISE)
    (horgs : ¬ (plan.config.numOfOrgs > 2 ∨ plan.config.numOfOrgs ≤ 0))
    (h : SupportedLedger (usedLedgerType plan.config.ledgerType)) :
    ∃ prepared, prepareBx plan = .ok prepared ∧ prepared.plan.env = plan.env ∧
      prepared.plan.name = ENTERPRISE ∧ Sent plan prepared.params := by
  have hempty : plan.name ≠ "" := by
    rw [hname]
    decide
  have hone : 1 ≤ plan.config.numOfOrgs :=
    Int64.not_lt.mp fun h => horgs (Or.inr (lt_one_iff.mp h))
  have hsame : plan.config.withDefaults.numOfOrgs = plan.config.numOfOrgs := atLeastOne_of_le hone
  rw [prepareBx, if_neg hempty, if_pos hname]
  simp only [horgs, if_false, checkLedgerType_of_supported h]
  exact ⟨_, rfl, rfl, hname, sent_withDefaults (by rw [hsame]; rfl) rfl rfl⟩

/-- On cm the checks come after the defaults. -/
theorem agrees_CM (henv : plan.env = CM)
    (htrigger : ∀ jobName params, ∃ queueid, triggerJob jobName params = .ok queueid) :
    Agrees plan (servicePost triggerJob contentRepo uid (some plan)) := by
  have hprepare : prepare plan = prepareCM plan := if_pos henv
  by_cases hledger : SupportedLedger (usedLedgerType plan.config.ledgerType)
  · obtain ⟨prepared, hok, hsame, hname, hsent⟩ := prepareCM_of_supported henv hledger
    rw [← hprepare] at hok
    by_cases hep : plan.usedName = ENTERPRISE
    · refine agrees_of_prepared hok ?_ htrigger ((supported_CM henv).mpr ⟨hep, hledger⟩)
        fun _ => hsent
      rw [hsame, hname, henv, plans_CM, hep]
      exact List.mem_singleton_self _
    · have hunsupported : prepared.plan.name ∉ (SUPPORTED_ENV.get? prepared.plan.env).getD [] := by
        rw [hsame, hname, henv, plans_CM, List.mem_singleton]
        exact hep
      obtain ⟨message, hrejected⟩ :=
        @servicePost_of_unsupported triggerJob contentRepo uid plan prepared hok hunsupported
      rw [agrees_rejected_iff hrejected, supported_CM henv]
      exact fun h => hep h.1
  · obtain ⟨message, herror⟩ := checkLedgerType_of_not_supported hledger
    have hfails : prepare plan = .error message := by
      rw [hprepare, prepareCM, herror]
      rfl
    rw [agrees_rejected_iff (servicePost_of_error hfails), supported_CM henv]
    exact fun h => hledger h.2

/-- The environments of Bluemix. -/
theorem prepare_bx (henv : plan.env = BX_STAGING ∨ plan.env = BX_PROD) :
    prepare plan = prepareBx plan := by
  have hne : plan.env ≠ CM := by
    rcases henv with h | h <;> (rw [h]; decide)
  rw [prepare, if_neg hne, if_pos henv]

/-- On Bluemix nothing else is checked for a plan that is no enterprise plan. -/
theorem agrees_bx_other (henv : plan.env = BX_STAGING ∨ plan.env = BX_PROD)
    (hname : plan.name ≠ ENTERPRISE)
    (htrigger : ∀ jobName params, ∃ queueid, triggerJob jobName params = .ok queueid) :
    Agrees plan (servicePost triggerJob contentRepo uid (some plan)) := by
  have hne : plan.env ≠ CM := by
    rcases henv with h | h <;> (rw [h]; decide)
  by_cases hempty : plan.name = ""
  -- no name: the plan is taken for a starter plan
  · have hstarter : plan.usedName = STARTER := by simp [Plan.usedName, hempty, hne]
    have hok : prepare plan = .ok ⟨NETWORK, { plan with name := STARTER },
        ((({} : Map String).insert ENV plan.env).insert METHOD POST).insert SERVICE_ID ""⟩ := by
      rw [prepare_bx henv, prepareBx, if_pos hempty]
    refine agrees_of_prepared hok ?_ htrigger ((supported_bx henv).mpr (Or.inl hstarter)) ?_
    · rw [plans_bx henv]
      exact List.mem_cons_self
    · rw [hstarter]
      exact fun h => absurd h (by decide)
  · have hused : plan.usedName = plan.name := if_pos hempty
    have hok : prepare plan = .ok ⟨NETWORK, plan,
        ((({} : Map String).insert ENV plan.env).insert METHOD POST).insert SERVICE_ID ""⟩ := by
      rw [prepare_bx henv, prepareBx, if_neg hempty, if_neg hname]
    by_cases hstarter : plan.name = STARTER
    · refine agrees_of_prepared hok ?_ htrigger
        ((supported_bx henv).mpr (Or.inl (hused.trans hstarter)))
        fun hep => absurd (hused.symm.trans hep) hname
      rw [plans_bx henv, hstarter]
      exact List.mem_cons_self
    -- any other name is refused, and is not supported
    · have hunsupported : plan.name ∉ (SUPPORTED_ENV.get? plan.env).getD [] := by
        rw [plans_bx henv]
        simp [hstarter, hname]
      obtain ⟨message, hrejected⟩ :=
        @servicePost_of_unsupported triggerJob contentRepo uid plan _ hok hunsupported
      rw [agrees_rejected_iff hrejected, supported_bx henv, hused]
      exact fun h => h.elim hstarter fun h => hname h.1

/-- An enterprise plan on Bluemix is checked for the number that was posted. -/
theorem agrees_bx_enterprise (henv : plan.env = BX_STAGING ∨ plan.env = BX_PROD)
    (hname : plan.name = ENTERPRISE)
    (htrigger : ∀ jobName params, ∃ queueid, triggerJob jobName params = .ok queueid) :
    Agrees plan (servicePost triggerJob contentRepo uid (some plan)) ↔ ¬ LacksOrgs plan := by
  have hne : plan.env ≠ CM := by
    rcases henv with h | h <;> (rw [h]; decide)
  have hempty : plan.name ≠ "" := by
    rw [hname]
    decide
  have hused : plan.usedName = ENTERPRISE := (if_pos hempty).trans hname
  have hsupported : plan.withDefaults.Supported ↔
      SupportedLedger (usedLedgerType plan.config.ledgerType) ∧
        atLeastOne plan.config.numOfOrgs DEFAULT_NUM_OF_ORGS ≤ 2 := by
    rw [supported_bx henv, hused]
    exact ⟨fun h => (h.resolve_left (by decide)).2, fun h => Or.inr ⟨rfl, h⟩⟩
  by_cases horgs : plan.config.numOfOrgs > 2 ∨ plan.config.numOfOrgs ≤ 0
  · -- the answer does not depend on the ledger type
    have hfails : prepare plan =
        .error "Currently we only support no more than 2 Orgs for bx EP" := by
      rw [prepare_bx henv, prepareBx, if_neg hempty, if_pos hname]
      simp only [horgs, if_true]
      rfl
    rw [agrees_rejected_iff (servicePost_of_error hfails), hsupported]
    refine not_congr ?_
    by_cases hless : plan.config.numOfOrgs < 1
    · have hone : atLeastOne plan.config.numOfOrgs DEFAULT_NUM_OF_ORGS = 1 := if_pos hless
      rw [hone]
      exact ⟨fun h => ⟨hne, hname, hless, h.1⟩, fun h => ⟨h.ledgerType, by decide⟩⟩
    · refine iff_of_false (fun h => ?_) fun h => hless h.numOfOrgs
      have hle := h.2
      rw [atLeastOne, if_neg hless] at hle
      rcases horgs with hgt | hle'
      · exact absurd hle (Int64.not_le.mpr hgt)
      · exact hless (lt_one_iff.mpr hle')
  · have hone : ¬ plan.config.numOfOrgs < 1 := fun h => horgs (Or.inr (lt_one_iff.mp h))
    rw [iff_true_right fun h : LacksOrgs plan => hone h.numOfOrgs]
    by_cases hledger : SupportedLedger (usedLedgerType plan.config.ledgerType)
    · obtain ⟨prepared, hok, hsame, hprepared, hsent⟩ := prepareBx_of_supported hname horgs hledger
      rw [← prepare_bx henv] at hok
      refine agrees_of_prepared hok ?_ htrigger (hsupported.mpr ⟨hledger, ?_⟩) fun _ => hsent
      · rw [hsame, hprepared, plans_bx henv]
        exact List.mem_cons_of_mem _ (List.mem_singleton_self _)
      · rw [atLeastOne, if_neg hone]
        exact Int64.not_lt.mp fun h => horgs (Or.inl h)
    · obtain ⟨message, herror⟩ := checkLedgerType_of_not_supported hledger
      have hfails : prepare plan = .error message := by
        rw [prepare_bx henv, prepareBx, if_neg hempty, if_pos hname]
        simp only [horgs, if_false, herror]
        rfl
      rw [agrees_rejected_iff (servicePost_of_error hfails), hsupported]
      exact fun h => hledger h.1

end Agrees

/-- **When validation and defaults agree.**  Of the plans whose environment
    passes the filter, the handler accepts those that pass the checks with
    their defaults, and sends an enterprise plan on as posted, except that it
    rejects an enterprise plan for Bluemix without a number of organizations. -/
theorem servicePost_agrees_iff (triggerJob : String → Map String → Except String String)
    (contentRepo uid : String) {plan : Plan} (hpass : checkEnv plan = none)
    (htrigger : ∀ jobName params, ∃ queueid, triggerJob jobName params = .ok queueid) :
    Agrees plan (servicePost triggerJob contentRepo uid (some plan)) ↔ ¬ LacksOrgs plan := by
  rcases or_assoc.mpr (env_of_checkEnv hpass) with henv | henv
  · by_cases hname : plan.name = ENTERPRISE
    · exact agrees_bx_enterprise henv hname htrigger
    · exact iff_of_true (agrees_bx_other henv hname htrigger) fun h => hname h.name
  · exact iff_of_true (agrees_CM henv htrigger) fun h => h.env henv

/-- A plan that leaves its network to the defaults. -/
def defaultPlan (env name : String) : Plan := ⟨env, "", name, ⟨0, 0, ""⟩⟩

/-- Jenkins takes every job. -/
def queued (_ : String) (_ : Map String) : Except String String := .ok "17"

/-- An enterprise plan for cm. -/
theorem servicePost_agrees_iff_cm :
    (servicePost queued "/opt/hfrd" "u1" (some (defaultPlan CM ENTERPRISE))).response =
        .accepted "17" "Your request has been accepted in cm environment." ∧
      Agrees (defaultPlan CM ENTERPRISE)
        (servicePost queued "/opt/hfrd" "u1" (some (defaultPlan CM ENTERPRISE))) := by
  refine ⟨by decide, ?_⟩
  refine (servicePost_agrees_iff queued "/opt/hfrd" "u1" (by decide) fun _ _ => ⟨_, rfl⟩).mpr ?_
  exact fun h => h.env rfl

/-- The same plan for Bluemix is rejected. -/
theorem enterprise_without_orgs :
    checkEnv (defaultPlan BX_STAGING ENTERPRISE) = none ∧
      (servicePost queued "/opt/hfrd" "u1" (some (defaultPlan BX_STAGING ENTERPRISE))).response =
        .badRequest "Currently we only support no more than 2 Orgs for bx EP" ∧
      (defaultPlan BX_STAGING ENTERPRISE).withDefaults.Supported ∧
      ¬ Agrees (defaultPlan BX_STAGING ENTERPRISE)
        (servicePost queued "/opt/hfrd" "u1" (some (defaultPlan BX_STAGING ENTERPRISE))) := by
  have hsupported : (defaultPlan BX_STAGING ENTERPRISE).withDefaults.Supported :=
    ⟨by decide, fun _ => Or.inl rfl, fun _ _ => by decide⟩
  refine ⟨by decide, by decide, hsupported, fun h => ?_⟩
  obtain ⟨queueid, message, haccepted⟩ := h.accepted_iff.mpr hsupported
  cases haccepted

end Hfrd.Api
