/-
  Hfrd.Api.Couch

  The two databases of the API server (api/utils/couch/couch.go): the
  documents, their views, and reading a row into a Go variable.

  A revision is its generation number: within one database every update of a
  document increments it, and the hash after it adds nothing.  0 is the empty
  `_rev` of a document that was never read.
-/

import Hfrd.Go.Json
import Hfrd.Lib.RevStore

namespace Hfrd.Api

open Hfrd.Go Hfrd.Lib

/-! ## Constants of api/utils/jenkins/const.go -/

/-- The job that makes a package of certificates. -/
def IBPCERTS : String := "ibpcerts"
/-- The job of a network on Bluemix. -/
def NETWORK : String := "network"
/-- The job of a network of the cluster manager. -/
def NETWORK_CM : String := "network-cm"

/-- The build has succeeded. -/
def SUCCESS : String := "SUCCESS"
/-- The build has failed. -/
def FAIL : String := "FAIL"
/-- The build is not over. -/
def INPROGRESS : String := "INPROGRESS"

/-- The method of a creation. -/
def POST : String := "POST"
/-- The method of a deletion. -/
def DELETE : String := "DELETE"

/-- Stands between the parts of a document's id. -/
def SEPARATOR : String := "_"

/-! ## Documents -/

/-- A document of the job DB; the defaults are Go's zero values. -/
structure Job where
  id : String := ""
  rev : Nat := 0
  name : String := ""
  queueId : String := ""
  jobId : String := ""
  status : String := ""
  serviceId : String := ""
  method : String := ""
  user : String := ""
  email : String := ""
  planName : String := ""
  env : String := ""
  location : String := ""
  numOfOrgs : Int := 0
  numOfPeers : Int := 0
  ledgerType : String := ""
deriving DecidableEq

/-- A document of the network DB; `network` holds the key and secret of all
    orgs. -/
structure Network where
  id : String := ""
  rev : Nat := 0
  networkId : String := ""
  serviceId : String := ""
  user : String := ""
  email : String := ""
  network : Option JsonMap := none
  deleting : Bool := false
  deleted : Bool := false
  planName : String := ""
  env : String := ""
  createdAt : Int := 0
  jobId : String := ""
  jobName : String := ""
  location : String := ""
  numOfOrgs : Int := 0
  numOfPeers : Int := 0
  ledgerType : String := ""

instance : RevDoc String Job where
  key := Job.id
  rev := Job.rev
  withRev job rev := { job with rev := rev }
  key_withRev _ _ := rfl
  rev_withRev _ _ := rfl

instance : RevDoc String Network where
  key := Network.id
  rev := Network.rev
  withRev network rev := { network with rev := rev }
  key_withRev _ _ := rfl
  rev_withRev _ _ := rfl

instance : LawfulRevDoc Job where
  withRev_withRev _ _ _ := rfl

instance : LawfulRevDoc Network where
  withRev_withRev _ _ _ := rfl

/-- The database of the jobs, by their ids. -/
abbrev JobDB := RevStore String Job
/-- The database of the networks, by their ids. -/
abbrev NetworkDB := RevStore String Network

/-! ## Views -/

/-- The rows of `PENDING_JOBS_VIEW`, in the order of their ids. -/
def getPendingJobs (jobDB : JobDB) : List Job :=
  (jobDB.all.filter fun doc => doc.status == "" && (doc.method == POST || doc.method == DELETE))
    |>.insertionSort (·.id ≤ ·.id)

/-- The rows of `BY_SERVICEID` under one key, in the order of their ids. -/
def getNetworkByServiceId (networkDB : NetworkDB) (serviceId : String) : List Network :=
  (networkDB.all.filter fun doc => doc.serviceId != "" && doc.serviceId == serviceId)
    |>.insertionSort (·.id ≤ ·.id)

theorem mem_getPendingJobs {jobDB : JobDB} {job : Job} :
    job ∈ getPendingJobs jobDB ↔
      jobDB.get job.id = some job ∧ job.status = "" ∧
        (job.method = POST ∨ job.method = DELETE) := by
  simp only [getPendingJobs, List.mem_insertionSort, List.mem_filter, RevStore.mem_all,
    Bool.and_eq_true, Bool.or_eq_true, beq_iff_eq]
  rfl

theorem mem_getNetworkByServiceId {networkDB : NetworkDB} {serviceId : String}
    {network : Network} :
    network ∈ getNetworkByServiceId networkDB serviceId ↔
      networkDB.get network.id = some network ∧ network.serviceId ≠ "" ∧
        network.serviceId = serviceId := by
  simp only [getNetworkByServiceId, List.mem_insertionSort, List.mem_filter, RevStore.mem_all,
    Bool.and_eq_true, bne_iff_ne, beq_iff_eq]
  rfl

/-! ## Rows -/

/-- `rows.ScanDoc(&network)`: every field of the document is decoded into the
    variable, and `network` into the map the variable already holds. -/
def Network.scanDoc (network doc : Network) : Network :=
  { doc with network := unmarshalMap network.network doc.network }

end Hfrd.Api
