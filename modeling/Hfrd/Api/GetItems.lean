/-
  Hfrd.Api.GetItems

  The listings of a user's networks and tests (`GetItems` of
  api/resource/uiutils.go).

  The uid of the request is an element of the pattern that `filepath.Glob`
  expands, so it is read as a pattern itself: what is listed is whatever
  matches it in the content repository.  The files of an item are then read
  below the directory with the uid as its name.

  `MatchesItself` is the condition under which both are the same directory.
-/

import Hfrd.Go.Glob
import Hfrd.Go.Strconv

namespace Hfrd.Api

open Hfrd.Go

namespace Listing

/-- The file with the queue id. -/
def QUEUEID : String := "queueid"
/-- The file with the path of the chart. -/
def CHARTPATH : String := "chartpath"
/-- The job of a network on ICP. -/
def NETWORK_ICP : String := "network-icp"
/-- The job of a network of the blockchain platform. -/
def NETWORK_IBP : String := "network-ibp"
/-- The job of a network on Kubernetes. -/
def K8SNETWORK : String := "k8snetwork"
/-- The job of a test. -/
def MODULETEST : String := "moduletest"

/-- A row of the page of items. -/
structure HFRDItem where
  id : String
  name : String
  cdate : String
  queueid : String
  jobid : String
  status : String
  chartpath : String
deriving DecidableEq

/-- What the page of items is rendered from. -/
structure HFRDItemList where
  items : List HFRDItem
  uid : String
  consoleBase : String
  apacheBase : String
deriving DecidableEq

/-- The listings that the handlers ask for. -/
inductive Route
  | networkGet | moduleTestGet | ibpnetworkGet | icpNetworkGet

/-- The pattern that a handler passes to `GetItems`. -/
def Route.suffix : Route → String
  | .networkGet => "*-n"
  | .moduleTestGet => "*-t"
  | .ibpnetworkGet => "*-b"
  | .icpNetworkGet => "*-i"

/-- `sort.Sort(ItemList(theList))`: latest first, where the order of items with
    the same date is not specified. -/
structure SortItems where
  sort : List HFRDItem → List HFRDItem
  perm : ∀ theList, (sort theList).Perm theList
  latestFirst : ∀ theList, (sort theList).Pairwise fun a b => b.cdate ≤ a.cdate

/-- The path parameter `uid`: one element of a path. -/
structure Uid where
  name : String
  proper : ProperName name

/-- What a listing depends on besides the request and the content repository. -/
structure Env where
  /-- `jks.GetJobIdAndStatus` -/
  getJobIdAndStatus : String → String → String × String × GoError
  jenkinsBaseUrl : String
  apacheBaseUrl : String
  /-- `url.Parse`, without the user; `none` where it fails. -/
  consoleUrl : String → Option String
  sortItems : SortItems

/-- The directory `contentRepo`, with an entry for each user. -/
structure ContentRepo where
  modTime : String
  entries : List (String × Node)
  wellFormed : (Node.dir modTime entries).WellFormed

/-- The directory of the repository. -/
def ContentRepo.root (repo : ContentRepo) : Node := .dir repo.modTime repo.entries

/-- The directory of a user. -/
def ContentRepo.own (repo : ContentRepo) (uid : String) : Option Node := repo.entries.lookup uid

/-- `strings.HasSuffix` -/
def hasSuffix (s suffix : String) : Bool := decide (suffix.toList <:+ s.toList)

/-- The job that a network or test belongs to, by the end of its id. -/
def jobname (networkid : String) : String :=
  if hasSuffix networkid "-t" then MODULETEST
  else if hasSuffix networkid "-n" then K8SNETWORK
  else if hasSuffix networkid "-i" then NETWORK_ICP
  else if hasSuffix networkid "-b" then NETWORK_IBP
  else ""

/-- The job id and the status of an item that has been queued. -/
def jobStatus (env : Env) (queueid networkid : String) : String × String :=
  match env.getJobIdAndStatus queueid (jobname networkid) with
  -- the job might be in queue and not scheduled yet
  | (jobid, _, some _) => (jobid, "Pending")
  | (jobid, status, none) =>
      (jobid, if jobid.length > 0 && status.length = 0 then "INPROGRESS" else status)

/-- The item at one of the paths that are listed. -/
def hfrdItem (env : Env) (root : Node) (uid : String) (path : List String) : HFRDItem :=
  let cDate := match root.find (path ++ [QUEUEID]) with
    | some file => file.modTime
    | none => "Unavailable"
  let networkid := path.getLastD ""
  let chartpath := (root.readFile [uid, networkid, CHARTPATH]).getD ""
  match root.readFile [uid, networkid, QUEUEID] with
  | none => ⟨networkid, "hfrd", cDate, "", "", "Pending", chartpath⟩
  | some queueid =>
      let (jobid, status) := jobStatus env queueid networkid
      ⟨networkid, "hfrd", cDate, queueid, jobid, status, chartpath⟩

/-- `filepath.ErrBadPattern` -/
def ErrBadPattern : String := "syntax error in pattern"

/-- `GetItems` -/
def getItems (env : Env) (repo : ContentRepo) (uid suffix : String) :
    Except String HFRDItemList :=
  match glob repo.root [uid, suffix] with
  | none => .error ErrBadPattern
  | some paths => .ok
      { items := env.sortItems.sort (paths.map (hfrdItem env repo.root uid))
        uid := uid
        consoleBase := (env.consoleUrl env.jenkinsBaseUrl).getD ""
        apacheBase := env.apacheBaseUrl }

/-! ## Isolation -/

/-- The listing is that of the user's own directory: no other part of the
    content repository has an influence on it, and every item is an entry of
    that directory. -/
structure Isolated (env : Env) (route : Route) (uid : String) : Prop where
  same : ∀ repo repo' : ContentRepo, repo.own uid = repo'.own uid →
    getItems env repo uid route.suffix = getItems env repo' uid route.suffix
  children : ∀ repo list, getItems env repo uid route.suffix = .ok list →
    ∀ item ∈ list.items, (repo.root.find [uid, item.id]).isSome

/-- Read as a pattern, the uid is malformed, or no other name of a directory
    matches it. -/
def MatchesItself (uid : String) : Prop :=
  ∀ terms, parsePattern uid = some terms →
    ∀ name, ProperName name → matchTerms terms name.toList = true → name = uid

/-- The paths that are listed where only the own directory matches. -/
theorem globIn_root {repo : ContentRepo} {uid : String} {terms : List Term}
    (hself : ∀ name, ProperName name → matchTerms terms name.toList = true → name = uid)
    (rest : List Term) :
    globIn [terms, rest] repo.root = if matchTerms terms uid.toList then
        (repo.own uid).toList.flatMap fun own => (globIn [rest] own).map (uid :: ·)
      else [] := by
  obtain ⟨modTime, entries, hwell⟩ := repo
  cases hwell with
  | dir hsorted hproper h =>
      rw [ContentRepo.root, globIn]
      split
      · next hmatch =>
          have hp : ∀ e ∈ entries, matchTerms terms e.1.toList = true ↔ e.1 = uid := fun e he =>
            ⟨hself e.1 (hproper e he), fun heq => heq ▸ hmatch⟩
          rw [filter_entries hsorted hp, List.flatMap_map]
          rfl
      · next hmatch =>
          have hnone : (entries.filter fun e => matchTerms terms e.1.toList) = [] := by
            rw [List.filter_eq_nil_iff]
            intro e he hpe
            exact hmatch (hself e.1 (hproper e he) hpe ▸ hpe)
          rw [hnone, List.flatMap_nil]

/-- What is found below the own directory depends on nothing else. -/
theorem find_root (repo : ContentRepo) (uid : String) (path : List String) :
    repo.root.find (uid :: path) = (repo.own uid).bind (Node.find · path) := by
  rw [ContentRepo.root, Node.find, ContentRepo.own]
  cases repo.entries.lookup uid <;> rfl

theorem own_of_mem_globIn {repo : ContentRepo} {uid : String} {terms rest : List Term}
    (hself : ∀ name, ProperName name → matchTerms terms name.toList = true → name = uid)
    {path : List String} (h : path ∈ globIn [terms, rest] repo.root) :
    ∃ below, path = uid :: below := by
  rw [globIn_root hself] at h
  split at h
  · obtain ⟨own, -, hpath⟩ := List.mem_flatMap.mp h
    obtain ⟨below, -, rfl⟩ := List.mem_map.mp hpath
    exact ⟨below, rfl⟩
  · cases h

theorem hfrdItem_congr (env : Env) {repo repo' : ContentRepo} {uid : String}
    (h : repo.own uid = repo'.own uid) (path : List String) :
    hfrdItem env repo.root uid (uid :: path) = hfrdItem env repo'.root uid (uid :: path) := by
  simp only [hfrdItem, Node.readFile, List.cons_append, find_root, h]

theorem hfrdItem_id (env : Env) (root : Node) (uid : String) (path : List String) :
    (hfrdItem env root uid path).id = path.getLastD "" := by
  simp only [hfrdItem]
  cases root.readFile [uid, path.getLastD "", QUEUEID] <;> rfl

theorem glob_pair (root : Node) (pattern suffix : String) :
    glob root [pattern, suffix] = (parsePattern pattern).bind fun terms =>
      (parsePattern suffix).map fun rest => globIn [terms, rest] root := by
  rw [glob, List.mapM_cons, List.mapM_cons, List.mapM_nil]
  cases parsePattern pattern with
  | none => rfl
  | some terms => cases parsePattern suffix <;> rfl

theorem getItems_of_malformed (env : Env) (repo : ContentRepo) (route : Route) {uid : String}
    (huid : parsePattern uid = none) :
    getItems env repo uid route.suffix = .error ErrBadPattern := by
  rw [getItems, glob_pair, huid]
  rfl

theorem exists_glob_eq (route : Route) {uid : String} {terms : List Term}
    (huid : parsePattern uid = some terms) :
    ∃ rest, ∀ repo : ContentRepo,
      glob repo.root [uid, route.suffix] = some (globIn [terms, rest] repo.root) := by
  cases hsuffix : parsePattern route.suffix with
  | none => exact absurd hsuffix (by cases route <;> exact nofun)
  | some rest =>
      refine ⟨rest, fun repo => ?_⟩
      rw [glob_pair, huid, hsuffix]
      rfl

/-- What matches lies in the own directory of the user, and so do the files that
    are read for it. -/
theorem isolated_of_matchesItself (env : Env) (route : Route) {uid : String}
    (h : MatchesItself uid) : Isolated env route uid := by
  cases huid : parsePattern uid with
  | none =>
      -- a pattern that is no pattern is an error in every repository
      have hbad := fun repo => getItems_of_malformed env repo route huid
      refine ⟨fun repo repo' _ => by rw [hbad, hbad], fun repo list hlist => ?_⟩
      rw [hbad] at hlist
      cases hlist
  | some terms =>
      obtain ⟨rest, hglob⟩ := exists_glob_eq route huid
      have hroot := fun repo : ContentRepo => @globIn_root repo uid terms (h terms huid) rest
      constructor
      · intro repo repo' hown
        have hpaths : globIn [terms, rest] repo.root = globIn [terms, rest] repo'.root := by
          rw [hroot, hroot, hown]
        have hitems : (globIn [terms, rest] repo.root).map (hfrdItem env repo.root uid)
            = (globIn [terms, rest] repo.root).map (hfrdItem env repo'.root uid) := by
          -- the files are read below the directory of the user
          refine List.map_congr_left fun path hpath => ?_
          obtain ⟨below, rfl⟩ := own_of_mem_globIn (h terms huid) hpath
          exact hfrdItem_congr env hown below
        rw [hpaths] at hitems
        rw [getItems, getItems, hglob, hglob, hpaths]
        simp only [hitems]
      · intro repo list hlist item hitem
        rw [getItems, hglob, Except.ok.injEq] at hlist
        subst hlist
        obtain ⟨path, hpath, rfl⟩ :=
          List.mem_map.mp ((env.sortItems.perm _).mem_iff.mp hitem)
        obtain ⟨below, rfl⟩ := own_of_mem_globIn (h terms huid) hpath
        obtain ⟨hlength, hfind⟩ := find_of_mem_globIn repo.wellFormed hpath
        obtain ⟨name, rfl⟩ := List.length_eq_one_iff.mp (Nat.succ.inj hlength)
        rw [hfrdItem_id]
        exact hfind

/-! ## Another user's directory -/

/-- A name that the pattern of a handler matches. -/
def Route.child (route : Route) : String := String.ofList ('5' :: route.suffix.toList.drop 1)

theorem Route.child_matches (route : Route) :
    ∃ rest, parsePattern route.suffix = some rest ∧
      matchTerms rest route.child.toList = true := by
  cases route <;> exact ⟨_, rfl, by decide⟩

theorem Route.child_proper (route : Route) : ProperName route.child := by
  cases route <;> exact ⟨by decide, by decide, by decide, by decide⟩

/-- No user has a directory. -/
def ContentRepo.empty : ContentRepo where
  modTime := ""
  entries := []
  wellFormed := .dir List.Pairwise.nil nofun nofun

theorem Node.wellFormed_single {name : String} (hname : ProperName name) {node : Node}
    (h : node.WellFormed) : (Node.dir "" [(name, node)]).WellFormed := by
  refine .dir (List.pairwise_singleton _ _) ?_ ?_
  · intro e he
    rw [List.mem_singleton.mp he]
    exact hname
  · intro e he
    rw [List.mem_singleton.mp he]
    exact h

/-- One user has a directory, with one item that the route lists. -/
def ContentRepo.single (name : String) (hname : ProperName name) (route : Route) :
    ContentRepo where
  modTime := ""
  entries := [(name, .dir "" [(route.child, .dir "" [])])]
  wellFormed := Node.wellFormed_single hname
    (Node.wellFormed_single route.child_proper (.dir List.Pairwise.nil nofun nofun))

/-- The listing shows the item of the other user. -/
theorem getItems_single (env : Env) (route : Route) {uid name : String} (hname : ProperName name)
    {terms : List Term} (huid : parsePattern uid = some terms)
    (hmatch : matchTerms terms name.toList = true) :
    ∃ list item, getItems env (.single name hname route) uid route.suffix = .ok list ∧
      list.items = [item] ∧ item.id = route.child := by
  obtain ⟨rest, hsuffix, hchild⟩ := route.child_matches
  have hglob : glob (ContentRepo.single name hname route).root [uid, route.suffix]
      = some [[name, route.child]] := by
    rw [glob_pair, huid, hsuffix]
    simp [ContentRepo.root, ContentRepo.single, globIn, hmatch, hchild]
  refine ⟨_, _, by rw [getItems, hglob], List.perm_singleton.mp (env.sortItems.perm _), ?_⟩
  rw [hfrdItem_id]
  rfl

theorem getItems_empty (env : Env) (route : Route) {uid : String} {terms : List Term}
    (huid : parsePattern uid = some terms) :
    ∃ list, getItems env .empty uid route.suffix = .ok list ∧ list.items = [] := by
  obtain ⟨rest, hsuffix, -⟩ := route.child_matches
  have hglob : glob ContentRepo.empty.root [uid, route.suffix] = some [] := by
    rw [glob_pair, huid, hsuffix]
    rfl
  exact ⟨_, by rw [getItems, hglob], List.perm_nil.mp (env.sortItems.perm _)⟩

/-- The other user's directory is no part of the own one, which is not there. -/
theorem own_single {uid name : String} (hname : ProperName name) (route : Route)
    (hne : name ≠ uid) :
    ContentRepo.empty.own uid = (ContentRepo.single name hname route).own uid := by
  rw [ContentRepo.own, ContentRepo.own, ContentRepo.single, List.lookup_cons,
    beq_false_of_ne (Ne.symm hne)]
  rfl

theorem not_isolated_of_match (env : Env) (route : Route) {uid name : String}
    (hname : ProperName name) (hne : name ≠ uid) {terms : List Term}
    (huid : parsePattern uid = some terms) (hmatch : matchTerms terms name.toList = true) :
    ¬ Isolated env route uid := by
  intro h
  obtain ⟨list, hempty, hnone⟩ := getItems_empty env route huid
  obtain ⟨list', item, hsingle, hone, -⟩ := getItems_single env route hname huid hmatch
  have heq := h.same _ _ (own_single hname route hne)
  rw [hempty, hsingle, Except.ok.injEq] at heq
  rw [← heq, hnone] at hone
  cases hone

/-- **Listings are isolated exactly where the uid matches itself only.**  For
    every uid that is one element of a path, the listing of a route depends on
    the own directory of the user alone, and holds entries of it only, exactly
    where the uid, read as a pattern, is malformed or matches no other name. -/
theorem isolated_iff (env : Env) (route : Route) (uid : Uid) :
    Isolated env route uid.name ↔ MatchesItself uid.name := by
  refine ⟨fun h terms huid name hname hmatch => ?_, isolated_of_matchesItself env route⟩
  by_contra hne
  exact not_isolated_of_match env route hname hne huid hmatch h

/-- A uid without special characters matches itself only. -/
theorem matchesItself_of_plain {uid : String} (h : ∀ c ∈ uid.toList, isMeta c = false) :
    MatchesItself uid := by
  intro terms huid name _ hmatch
  rw [parsePattern, parseTerms_of_plain h (Nat.le_of_eq String.length_toList)] at huid
  cases huid
  exact String.toList_injective ((matchTerms_literal _ _).mp hmatch)

/-- The order of the rows: the later date comes first. -/
def laterFirst (a b : HFRDItem) : Bool := decide (b.cdate ≤ a.cdate)

theorem pairwise_laterFirst (theList : List HFRDItem) :
    (theList.mergeSort laterFirst).Pairwise fun a b => b.cdate ≤ a.cdate := by
  have htrans : ∀ a b c, laterFirst a b = true → laterFirst b c = true → laterFirst a c = true :=
    fun a b c hab hbc => decide_eq_true (le_trans (of_decide_eq_true hbc) (of_decide_eq_true hab))
  have htotal : ∀ a b, (laterFirst a b || laterFirst b a) = true := by
    intro a b
    simpa [laterFirst] using le_total b.cdate a.cdate
  exact (List.pairwise_mergeSort htrans htotal theList).imp of_decide_eq_true

/-- A stable sort by date. -/
def sortByDate : SortItems where
  sort theList := theList.mergeSort laterFirst
  perm theList := List.mergeSort_perm theList _
  latestFirst := pairwise_laterFirst

/-- Jenkins does not answer. -/
def offline : Env where
  getJobIdAndStatus _ _ := ("", "", some "connection refused")
  jenkinsBaseUrl := "http://jenkins:8080"
  apacheBaseUrl := "http://apache"
  consoleUrl := some
  sortItems := sortByDate

theorem properName_alice : ProperName "alice" := ⟨by decide, by decide, by decide, by decide⟩

/-- The content repository in which `alice` has run one test. -/
def aliceRepo : ContentRepo := .single "alice" properName_alice .moduleTestGet

/-- The user `*` is shown the test of `alice`, though the content repository
    differs from an empty one in nothing of the user's own. -/
theorem star_lists_others :
    ContentRepo.empty.own "*" = aliceRepo.own "*" ∧
    (∃ list, getItems offline .empty "*" "*-t" = .ok list ∧ list.items = []) ∧
    (∃ list item, getItems offline aliceRepo "*" "*-t" = .ok list ∧ list.items = [item] ∧
      item.id = "5-t") ∧
    ¬ Isolated offline .moduleTestGet "*" := by
  have hstar : parsePattern "*" = some [.star] := by rfl
  have hne : "alice" ≠ "*" := by decide
  exact ⟨own_single properName_alice .moduleTestGet hne,
    getItems_empty offline .moduleTestGet hstar,
    getItems_single offline .moduleTestGet properName_alice hstar (by decide),
    not_isolated_of_match offline .moduleTestGet properName_alice hne hstar (by decide)⟩

end Listing

end Hfrd.Api
