/-
  Hfrd.Api.Jenkins

  The answers of Jenkins that the API server interprets: the status of a
  queued build (api/utils/jenkins/jenkins.go, `GetJobIdByQueueId`) and the
  package of a finished one (the tar loop of `waitJob`,
  api/resource/routine.go).

  The HTTP requests themselves are answered by the environment.
-/

import Hfrd.Api.Couch
import Hfrd.Go.Strconv

namespace Hfrd.Api

open Hfrd.Go

/-! ## Status of a build -/

/-- `\d` and `\w` of Go's regular expressions. -/
def isDigit (c : Char) : Bool := '0' ≤ c && c ≤ '9'

/-- The characters of `\w`. -/
def isWord (c : Char) : Bool :=
  isDigit c || ('a' ≤ c && c ≤ 'z') || ('A' ≤ c && c ≤ 'Z') || c == '_'

/-- The run matched by `<tag>[class]*</tag>` at the head of `body`. -/
def matchTag (tag : String) (p : Char → Bool) (body : List Char) : Option (List Char) :=
  let opening := ("<" ++ tag ++ ">").toList
  let closing := ("</" ++ tag ++ ">").toList
  if opening <+: body then
    let rest := body.drop opening.length
    if closing <+: rest.dropWhile p then some (rest.takeWhile p) else none
  else none

/-- The run of the leftmost match in `body`. -/
def findTag (tag : String) (p : Char → Bool) : List Char → Option (List Char)
  | [] => matchTag tag p []
  | c :: cs => match matchTag tag p (c :: cs) with
    | some run => some run
    | none => findTag tag p cs

/-- `getJobStatusByJobId` on the artifact, downloaded and decoded; `none` is
    the panic of the type assertion on a missing or other `status`. -/
def getJobStatusByJobId : Except String (Option JsonMap) → Option (String × GoError)
  | .error err => some ("", some err)
  | .ok body => match mapIndex body "status" with
    | some (.string status) => some (status, none)
    | _ => none

/-- `GetJobIdByQueueId` on the build listing and, where it is read, the status
    artifact: job id, status and error; `none` is a panic. -/
def getJobIdByQueueId (listing : Except String String)
    (artifact : Except String (Option JsonMap)) : Option (String × String × GoError) :=
  match listing with
  | .error err => some ("", "", some err)
  | .ok body =>
      let jobid := String.ofList ((findTag "id" isDigit body.toList).getD [])
      -- no build is listed for the queue id, or not yet
      if jobid == "" then
        some ("", "", some
          "Cannot find the job, the server might be busy. Wait few minutes and try again.")
      else if contains body "<result>FAILURE</result>" then some (jobid, FAIL, none)
      -- a build without a result is still running
      else if (findTag "result" isWord body.toList).isNone then some (jobid, INPROGRESS, none)
      else (getJobStatusByJobId artifact).map fun (result, err) => (jobid, result, err)

/-! ## Package of a finished build -/

/-- Where a build leaves the services. -/
def serviceJsonPath : String := "workdir/results/service.json"
/-- Where a build leaves the network. -/
def networkJsonPath : String := "workdir/results/network.json"

/-- An entry of the package tar up to the end of the archive or the first bad
    header; `content` is `none` where the entry cannot be read in full or does
    not decode into a map. -/
structure TarEntry where
  name : String
  content : Option (Option JsonMap)

/-- The org of network.json that names the network: `PeerOrg1` in an
    enterprise plan, else `org1` in a starter plan. -/
def org1 (content : Option JsonMap) : List (String × Json) :=
  match mapIndex content "PeerOrg1" with
  | some (.object fields) => fields
  | some _ => []
  | none => match mapIndex content "org1" with
    | some (.object fields) => fields
    | _ => []

/-- One entry of the package, read into `network`. -/
def readEntry (network : Network) (entry : TarEntry) : Network :=
  match entry.content with
  | none => network
  | some content =>
      if entry.name = serviceJsonPath then
        match mapIndex content "serviceid" with
        | some (.string serviceIdStr) => { network with serviceId := serviceIdStr }
        | _ => network
      else if entry.name = networkJsonPath then
        -- the map is taken over even where no network id is found in it
        let network := { network with network := content }
        match (org1 content).lookup "network_id" with
        | some (.string networkIdStr) =>
            if networkIdStr.length > 0 then { network with networkId := networkIdStr } else network
        | _ => network
      else network

/-- The loop over the package. -/
def readPackage (network : Network) (entries : List TarEntry) : Network :=
  entries.foldl readEntry network

/-- The network a package describes: the ids it holds, where both are there. -/
def packageIds (entries : List TarEntry) : Option (String × String) :=
  let network := readPackage {} entries
  if network.networkId.length > 0 ∧ network.serviceId.length > 0 then
    some (network.networkId, network.serviceId)
  else none

/-- The flags are not read from a package. -/
theorem readPackage_flags (network : Network) (entries : List TarEntry) :
    (readPackage network entries).deleting = network.deleting ∧
    (readPackage network entries).deleted = network.deleted ∧
    (readPackage network entries).rev = network.rev := by
  induction entries generalizing network with
  | nil => exact ⟨rfl, rfl, rfl⟩
  | cons entry entries ih =>
      have hentry : (readEntry network entry).deleting = network.deleting ∧
          (readEntry network entry).deleted = network.deleted ∧
          (readEntry network entry).rev = network.rev := by
        unfold readEntry
        repeat' split
        all_goals exact ⟨rfl, rfl, rfl⟩
      obtain ⟨hdeleting, hdeleted, hrev⟩ := ih (readEntry network entry)
      exact ⟨hdeleting.trans hentry.1, hdeleted.trans hentry.2.1, hrev.trans hentry.2.2⟩

/-- The ids read do not depend on the other fields of the variable. -/
theorem readPackage_ids (network network' : Network) (entries : List TarEntry)
    (hnetwork : network.networkId = network'.networkId)
    (hservice : network.serviceId = network'.serviceId) :
    (readPackage network entries).networkId = (readPackage network' entries).networkId ∧
    (readPackage network entries).serviceId = (readPackage network' entries).serviceId := by
  induction entries generalizing network network' with
  | nil => exact ⟨hnetwork, hservice⟩
  | cons entry entries ih =>
      refine ih (readEntry network entry) (readEntry network' entry) ?_ ?_
      · unfold readEntry
        repeat' split
        all_goals first | exact hnetwork | rfl
      · unfold readEntry
        repeat' split
        all_goals first | exact hservice | rfl

end Hfrd.Api
