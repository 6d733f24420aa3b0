/-
  Hfrd.GoSdk.ChannelCommand

  What the channel commands of modules/gosdk/channel do before their loop.

  A command reads its flags, then opens the connection profile and the SDK,
  and returns the first error.  What these steps answer is part of the input
  (`Settings`, `ChannelSettings`); a command that gets through has its range of
  iterations, from `prefixOffset` on.
-/

import Hfrd.GoSdk.RunIterateFunc

namespace Hfrd.GoSdk

open Hfrd.Go

/-- The flag of the prefix. -/
def CH_NAME_PREFIX : String := "channelNamePrefix"
/-- The flag of the list. -/
def CH_NAME_LIST : String := "channelNameList"

/-- What every command reads and what the steps before its loop answer. -/
structure Settings where
  iterationCount : String
  prefixOffset : Int64
  ignoreErrors : String
  routineLimit : Nat
  parseDuration : String → Option Int64
  /-- The text of the error of `strconv.Atoi`. -/
  atoiError : String → String
  getViperInstance : GoError
  /-- `viperConn.Unmarshal(&connection)` -/
  unmarshal : GoError
  getConfigBackends : GoError
  fabsdkNew : GoError

/-- The settings of a channel command. -/
structure ChannelSettings extends Settings where
  channelNamePrefix : String
  channelNameList : List String
  clientOrganization : String

/-- `if err != nil { return err }` -/
def returnOn (err : GoError) : Except String Unit :=
  match err with
  | some e => .error e
  | none => .ok ()

namespace Settings

variable (env : Settings)

/-- `IterateFunc(base, iterFunc, sequential)` under these settings. -/
def config {Shared Local Choice : Type} (iterFunc : IterFunc Shared Local Choice)
    (sequential : Bool) (iterationCount : String) : Config Shared Local Choice where
  iterFunc := iterFunc
  sequential := sequential
  routineLimit := env.routineLimit
  ignoreErrors := env.ignoreErrors
  iterationCount := iterationCount
  parseDuration := env.parseDuration

/-- `strconv.Itoa(iterationCount + prefixOffset)`, or the error of `Atoi`. -/
def shiftedCount : Except String String :=
  match atoi env.iterationCount with
  | some iterationCount => .ok (itoa (iterationCount + env.prefixOffset))
  | none => .error (env.atoiError env.iterationCount)

end Settings

namespace ChannelSettings

variable (env : ChannelSettings)

/-- The connection profile and the organization of the client. -/
def openProfile : Except String Unit := do
  returnOn (withMessage "get viper instance from connection profile error" env.getViperInstance)
  returnOn
    (withMessage "unmarshall connection profiles from connection profile error" env.unmarshal)
  if env.clientOrganization = "" then
    throw "client.organization is not provided in sdk config yaml"

/-- The SDK that `createChannels` and `joinChannels` open. -/
def openSdk : Except String Unit := do
  returnOn env.getConfigBackends
  returnOn env.fabsdkNew

/-- The steps of `createChannels` and `joinChannels` before their loop: the
    value of `base.IterationCount`, or the error returned. -/
def prepare : Except String String := do
  let iterationCount ← env.shiftedCount
  env.openProfile
  env.openSdk
  return iterationCount

/-- The steps of `updateChannels` before its loop; the count may be a
    duration. -/
def prepareUpdate : Except String String := do
  env.openProfile
  return match atoi env.iterationCount with
    | some iterationCount => itoa (iterationCount + env.prefixOffset)
    -- a count that is no integer stays: it may be a duration
    | none => env.iterationCount

/-- The steps of `instantiateChaincode` before its loop, of which reading the
    collections config answers `collectionsConfig`. -/
def prepareInstantiate (collectionsConfig : GoError) : Except String String := do
  returnOn env.getViperInstance
  if env.clientOrganization = "" then
    throw "client.organization is not provided in sdk config yaml"
  returnOn collectionsConfig
  env.shiftedCount

end ChannelSettings

/-- Both a prefix and a list are given. -/
def MUTUAL_EXCLUSIVE : String :=
  CH_NAME_PREFIX ++ " and " ++ CH_NAME_LIST ++ " are mutual exclusive"

/-- Neither a prefix nor a list is given. -/
def NO_CHANNEL_NAMES : String :=
  "Either " ++ CH_NAME_PREFIX ++ " or " ++ CH_NAME_LIST ++ " should be provided"

/-- Settings under which every step before the loop succeeds. -/
def oneChannel : ChannelSettings where
  iterationCount := "1"
  prefixOffset := 0
  ignoreErrors := "false"
  routineLimit := 500
  parseDuration _ := none
  atoiError _ := "invalid syntax"
  getViperInstance := none
  unmarshal := none
  getConfigBackends := none
  fabsdkNew := none
  channelNamePrefix := ""
  channelNameList := ["ch0"]
  clientOrganization := "org1"

end Hfrd.GoSdk
