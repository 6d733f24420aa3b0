/-
  Hfrd.Metrics.Operations

  The operations of the modules and the metrics they record
  (modules/gosdk/channel, chaincode, execute; `TrackCount`, `TrackTime` and
  `TrackGauge` of modules/gosdk/common/base.go).

  An operation is modelled by what one call of it leaves behind (`Call`): the
  updates it makes in the registry and the error it returns.  What the SDK
  answers, step by step, is the input (`CreateAnswers` and so on).  A step that
  is a function of the repository may also panic, as
  `QueryChannelConfigBlock` does on a block with short metadata; its answer is
  an `Option GoError`, `none` where it panics.

  Most operations record their success in a deferred function that looks at
  the variable `err` of the operation.  This is not the value that the
  operation returns: `Call.exit` takes both, and an exit where they differ
  (a second `err` in an inner scope, an error made on the spot, a `return nil`
  past an error) is written with two different values.
-/

import Hfrd.Go.Strconv

namespace Hfrd.Metrics

open Hfrd.Go

/-- The operation of `channel create`. -/
def CHANNEL_CREATE : String := "channel.create"
/-- The operation of `channel update`. -/
def CHANNEL_UPDATE : String := "channel.update"
/-- The operation of `channel query`. -/
def CHANNEL_QUERY : String := "channel.query"
/-- The operation of `channel join`. -/
def CHANNEL_JOIN : String := "channel.join"
/-- The operation of `chaincode install`. -/
def CC_INSTALL : String := "chaincode.install"
/-- The operation of `chaincode instantiate`. -/
def CC_INSTANTIATE : String := "chaincode.instantiate"
/-- The operation of `chaincode invoke`. -/
def CC_INVOKE : String := "chaincode.invoke"
/-- What is counted where a transaction is sent. -/
def CC_INVOKE_SENT : String := "chaincode.invoke.sent"
/-- The operation of a command that is executed. -/
def EXECUTE_CMD : String := "execute.command"

/-- An update of the registry. -/
inductive Metric
  /-- `TrackCount(name, increment)` -/
  | count (name : String) (increment : Int64)
  /-- `TrackTime(start, name)`: the timer `name` is updated once. -/
  | time (name : String)
  /-- `TrackGauge(name, value)` -/
  | gauge (name : String) (value : Int64)
deriving DecidableEq

/-- What one call leaves behind; `returned` is `none` where it panics. -/
structure Call where
  metrics : List Metric
  returned : Option GoError
deriving DecidableEq

/-- The deferred function of an operation: `err` is the variable it captured. -/
def deferred (name : String) (err : GoError) : List Metric :=
  match err with
  | none => [.count name 1, .time name]
  | some _ => []

namespace Call

/-- The operation returns `returned` while its variable holds `err`. -/
def exit (name : String) (err returned : GoError) : Call := ⟨deferred name err, some returned⟩

/-- The operation panics while its variable holds `err`. -/
def panics (name : String) (err : GoError) : Call := ⟨deferred name err, none⟩

/-- An exit before the deferred function is registered. -/
def early (returned : GoError) : Call := ⟨[], some returned⟩

/-- The updates of the timer `name`. -/
def updates (c : Call) (name : String) : Nat := c.metrics.count (.time name)

end Call

/-- The first error of a sequence of steps, each of which is run only if the
    ones before it succeeded. -/
def firstError (errs : List GoError) : GoError := errs.findSome? id

/-- The same for steps that may panic: what the first of them that does not
    return a nil error comes back with. -/
def firstExit (steps : List (Option GoError)) : Option GoError :=
  (steps.find? (· ≠ some none)).getD (some none)

/-- The text of a failed `GetTempChannelConfigFile`. -/
def tempConfigError (err : String) : String :=
  "Instantiate failed due to errors in GetChannelBackendYaml. " ++ err

/-! ## Channels -/

/-- What the steps of `SingleChannelCreate` answer. -/
structure CreateAnswers where
  mspclientNew : GoError
  getSigningIdentity : GoError
  resmgmtNew : GoError
  creatChannelTxEnvelope : GoError
  saveChannel : GoError
  transactionID : String

/-- `SingleChannelCreate` -/
def singleChannelCreate (a : CreateAnswers) : Call :=
  match firstError [a.mspclientNew, a.getSigningIdentity, a.resmgmtNew,
    a.creatChannelTxEnvelope] with
  | some err => .exit CHANNEL_CREATE (some err) (some err)
  | none => match a.saveChannel with
    -- both branches on the text of the error return it
    | some err => .exit CHANNEL_CREATE (some err) (some err)
    | none =>
        -- `err.Error()` of a nil error
        if a.transactionID = "" then .panics CHANNEL_CREATE none
        else .exit CHANNEL_CREATE none none

/-- What the flags of `channel update` ask for; a number is told by whether it
    differs from zero. -/
structure UpdateFlags where
  batchTimeout : String
  maxMessageCount : Bool
  preferredMaxBytes : Bool
  ordererAddresses : List String
  anchorPeers : List String

/-- Something is asked for. -/
def UpdateFlags.meaningful (flags : UpdateFlags) : Bool :=
  flags.batchTimeout ≠ "" || flags.maxMessageCount || flags.preferredMaxBytes
    || flags.ordererAddresses.length ≠ 0 || flags.anchorPeers.length ≠ 0

/-- What the flags are and the steps of `SingleChannelUpdate` answer. -/
structure UpdateAnswers where
  flags : UpdateFlags
  getTempChannelConfigFile : GoError
  getConfigBackends : GoError
  fabsdkNew : GoError
  ledgerNew : GoError
  queryChannelConfigBlock : Option GoError
  createUpdateEnvelope : Option GoError
  updateChannel : Option GoError
  waitUntilUpdateSucc : Option GoError

/-- `UpdateChannelConfig`; `none` where it panics. -/
def updateChannelConfig (a : UpdateAnswers) : Option GoError :=
  firstExit [some a.ledgerNew, a.queryChannelConfigBlock, a.createUpdateEnvelope,
    a.updateChannel, a.waitUntilUpdateSucc]

/-- `SingleChannelUpdate` -/
def singleChannelUpdate (a : UpdateAnswers) : Call :=
  match a.getTempChannelConfigFile with
  | some err => .exit CHANNEL_UPDATE (some err) (some (tempConfigError err))
  | none => match firstError [a.getConfigBackends, a.fabsdkNew] with
    | some err => .exit CHANNEL_UPDATE (some err) (some err)
    | none =>
        if a.flags.meaningful then
          -- `err := UpdateChannelConfig(..)` is a variable of the inner scope
          match updateChannelConfig a with
          | none => .panics CHANNEL_UPDATE none
          | some (some err) => .exit CHANNEL_UPDATE none (some err)
          | some none => .exit CHANNEL_UPDATE none none
        else
          .exit CHANNEL_UPDATE none (some "Please provide at least one meaningful input argument")

/-- What the steps of `SingleChannelQuery` answer. -/
structure QueryAnswers where
  channelID : String
  getTempChannelConfigFile : GoError
  getConfigBackends : GoError
  fabsdkNew : GoError
  ledgerNew : GoError
  /-- The height that `QueryInfo` finds, or its error. -/
  queryInfo : Except String UInt64
  queryChannelConfigBlock : Option GoError
  decodeProto : Option GoError
  /-- `GetConfigFromChannelGroup` and `PrintMSPidFromChannelGroup` find the
      members they assert in the block. -/
  wellFormed : Bool

/-- The gauge of a height, if it is a positive `int64`. -/
def trackHeight (channelID : String) (height : UInt64) : List Metric :=
  if 0 < height.toInt64 then [.gauge ("channel." ++ channelID ++ ".height") height.toInt64] else []

/-- `SingleChannelQuery` from the registration of its deferred function on.
    Its variable is nil while a step runs. -/
def queryConfig (a : QueryAnswers) : Call :=
  match a.queryChannelConfigBlock with
  | none => .panics CHANNEL_QUERY none
  | some (some err) => .exit CHANNEL_QUERY (some err) (some err)
  | some none => match a.decodeProto with
    | none => .panics CHANNEL_QUERY none
    | some (some err) => .exit CHANNEL_QUERY (some err) (some ("Error in decode proto : " ++ err))
    | some none =>
        if a.wellFormed then .exit CHANNEL_QUERY none none else .panics CHANNEL_QUERY none

/-- `SingleChannelQuery` -/
def singleChannelQuery (a : QueryAnswers) : Call :=
  match a.getTempChannelConfigFile with
  | some err => .early (some (tempConfigError err))
  | none => match a.getConfigBackends with
    -- `return nil`, where the next step returns its error
    | some _ => .early none
    | none => match firstError [a.fabsdkNew, a.ledgerNew] with
      | some err => .early (some err)
      | none => match a.queryInfo with
        | .error err => .early (some err)
        | .ok height =>
            { queryConfig a with
              metrics := trackHeight a.channelID height ++ (queryConfig a).metrics }

/-- What the steps of `SingleChannelJoin` answer. -/
structure JoinAnswers where
  resmgmtNew : GoError
  joinChannel : GoError

/-- `SingleChannelJoin`: the counter is tracked before the deferred function
    tracks the time. -/
def singleChannelJoin (a : JoinAnswers) : Call :=
  match a.resmgmtNew with
  | some err => .early (some err)
  | none => match a.joinChannel with
    | some err => ⟨[], some (some err)⟩
    | none => ⟨[.count CHANNEL_JOIN 1, .time CHANNEL_JOIN], some none⟩

/-! ## Chaincode and commands -/

/-- What the steps of `InstallChaincode` answer. -/
structure InstallAnswers where
  /-- `os.Getenv("GOPATH") + "/" + path` -/
  location : String
  /-- The packager that `lang` selects. -/
  newPackage : GoError
  resmgmtNew : GoError
  installCC : GoError

/-- `InstallChaincode` -/
def installChaincode (a : InstallAnswers) : Call :=
  match a.newPackage with
  | some err => .exit CC_INSTALL (some err)
      (some ("Error packaging cc from path " ++ a.location ++ ": " ++ err))
  | none => match firstError [a.resmgmtNew, a.installCC] with
    | some err => .exit CC_INSTALL (some err) (some err)
    | none => .exit CC_INSTALL none none

/-- The arguments of `InstantiateChaincode` that it reads, and what its steps
    answer. -/
structure InstantiateAnswers where
  name : String
  policystr : String
  resmgmtNew : GoError
  /-- `cauthdsl.FromString(policystr)` -/
  fromString : GoError
  instantiateCC : GoError

/-- The steps of `InstantiateChaincode` before the request. -/
def policyError (a : InstantiateAnswers) : GoError :=
  firstError [a.resmgmtNew, if a.policystr ≠ "" then a.fromString else none]

/-- The error says that the chaincode is there already. -/
def alreadyExists (name err : String) : Bool :=
  contains err ("chaincode with name '" ++ name ++ "' already exists")

/-- `InstantiateChaincode` -/
def instantiateChaincode (a : InstantiateAnswers) : Call :=
  match policyError a with
  | some err => .exit CC_INSTANTIATE (some err) (some err)
  | none => match a.instantiateCC with
    | some err =>
        -- the error is forgiven, but it stays in the variable
        if alreadyExists a.name err then .exit CC_INSTANTIATE (some err) none
        else .exit CC_INSTANTIATE (some err) (some err)
    -- with or without a transaction id: `return err` returns nil as well
    | none => .exit CC_INSTANTIATE none none

/-- `InvokeChaincode`, of which `Query` or `Execute` answers `answer`. -/
def invokeChaincode (answer : GoError) : Call :=
  ⟨.count CC_INVOKE_SENT 1 :: deferred CC_INVOKE answer,
    some (answer.map fun err => "failed to execute chaincode: " ++ err)⟩

/-- What `cmd.Run()` comes back with. -/
inductive CommandResult
  /-- A nil error, with the exit status of the process. -/
  | finished (status : Int)
  | exitError (status : Int)
  /-- Any other error: there is no exit status. -/
  | notRun
deriving DecidableEq

/-- The variable `exitCode` of `ExecuteCommand` after the run. -/
def exitCode : CommandResult → Int
  | .finished status => status
  | .exitError status => status
  -- `defaultFailedCode`
  | .notRun => 1

/-- `ExecuteCommand`: `TrackTime` is deferred without a condition. -/
def executeCommand (r : CommandResult) : Call where
  metrics := [.time EXECUTE_CMD]
  returned :=
    if exitCode r ≠ 0 then
      some (some ("Execute command failed with exitCode " ++ toString (exitCode r) ++ " \n"))
    else some none

/-! ## The eight of them -/

/-- The operations of the modules. -/
inductive Operation
  | singleChannelCreate | singleChannelUpdate | singleChannelQuery | singleChannelJoin
  | installChaincode | instantiateChaincode | invokeChaincode | executeCommand
deriving DecidableEq

namespace Operation

/-- The name that `TrackTime` gets from the operation. -/
def name : Operation → String
  | singleChannelCreate => CHANNEL_CREATE
  | singleChannelUpdate => CHANNEL_UPDATE
  | singleChannelQuery => CHANNEL_QUERY
  | singleChannelJoin => CHANNEL_JOIN
  | installChaincode => CC_INSTALL
  | instantiateChaincode => CC_INSTANTIATE
  | invokeChaincode => CC_INVOKE
  | executeCommand => EXECUTE_CMD

/-- What the steps of one call answer. -/
abbrev Answers : Operation → Type
  | singleChannelCreate => CreateAnswers
  | singleChannelUpdate => UpdateAnswers
  | singleChannelQuery => QueryAnswers
  | singleChannelJoin => JoinAnswers
  | installChaincode => InstallAnswers
  | instantiateChaincode => InstantiateAnswers
  | invokeChaincode => GoError
  | executeCommand => CommandResult

/-- One call of the operation. -/
def call : (op : Operation) → op.Answers → Call
  | singleChannelCreate => Metrics.singleChannelCreate
  | singleChannelUpdate => Metrics.singleChannelUpdate
  | singleChannelQuery => Metrics.singleChannelQuery
  | singleChannelJoin => Metrics.singleChannelJoin
  | installChaincode => Metrics.installChaincode
  | instantiateChaincode => Metrics.instantiateChaincode
  | invokeChaincode => Metrics.invokeChaincode
  | executeCommand => Metrics.executeCommand

end Operation

end Hfrd.Metrics
