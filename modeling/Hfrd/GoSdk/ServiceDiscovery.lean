/-
  Hfrd.GoSdk.ServiceDiscovery

  The organizations of a connection profile after service discovery
  (`configBackendsWithSD` of modules/gosdk/chaincode/chaincode.go).

  The peers of every organization are cleared, and each discovered peer is
  added to an organization with its MSP id, or to a new one.  The new one is
  put under the MSP id as its name, so it takes the place of an organization
  of the profile with that name and another MSP id.

  Both loops run over maps; a run is given by the orders in which they visit
  the keys (`Rebuilt`), and what is proved holds for all of them.
-/

import Hfrd.Go.Map

namespace Hfrd.GoSdk

open Hfrd.Go

/-- A discovered peer. -/
structure Endorser where
  mspId : String
deriving DecidableEq

/-- An organization of the connection profile. -/
structure Organization where
  mspid : String
  cryptoPath : String
  peers : List String
  certificateAuthorities : List String
deriving DecidableEq

/-! ## The two loops -/

/-- The peer lists are cleaned up; `visit` is what the loop ranges over. -/
def cleanPeers (organizations : Map Organization) (visit : List (String × Organization)) :
    Map Organization :=
  visit.foldl (fun acc entry => acc.insert entry.1 { entry.2 with peers := [] }) organizations

/-- One turn of `endorsersLoop`: the first organization that the inner loop
    visits with the MSP id of the peer, or a new one. -/
def assignPeer (organizations : Map Organization) (visit : List (String × Organization))
    (name : String) (endorser : Endorser) : Map Organization :=
  match visit.find? fun entry => entry.2.mspid == endorser.mspId with
  | some (orgName, org) => organizations.insert orgName { org with peers := org.peers ++ [name] }
  | none =>
      organizations.insert endorser.mspId
        { mspid := endorser.mspId, cryptoPath := "", peers := [name],
          certificateAuthorities := [] }

/-- `endorsersLoop` over these peers, with any order for each inner loop. -/
inductive AssignAll : List (String × Endorser) → Map Organization → Map Organization → Prop
  | nil {o} : AssignAll [] o o
  | cons {name endorser rest o o' visit} : visit.Perm o.range →
      AssignAll rest (assignPeer o visit name endorser) o' →
      AssignAll ((name, endorser) :: rest) o o'

/-- The organizations that are written back. -/
def Rebuilt (endorsers : Map Endorser) (organizations organizations' : Map Organization) : Prop :=
  ∃ visit order, visit.Perm organizations.range ∧ order.Perm endorsers.range ∧
    AssignAll order (cleanPeers organizations visit) organizations'

/-! ## What is asked of them -/

/-- The peer is listed once, in one organization, which has its MSP id. -/
def ListedOnce (organizations : Map Organization) (name mspId : String) : Prop :=
  ∃ orgName org, organizations.get? orgName = some org ∧ org.mspid = mspId ∧
    org.peers.count name = 1 ∧
    ∀ orgName' org', organizations.get? orgName' = some org' → name ∈ org'.peers →
      orgName' = orgName

/-- The organizations of the profile are there with their MSP ids and paths. -/
def OrganizationsKept (organizations organizations' : Map Organization) : Prop :=
  ∀ orgName org, organizations.get? orgName = some org →
    ∃ org', organizations'.get? orgName = some org' ∧ org'.mspid = org.mspid ∧
      org'.cryptoPath = org.cryptoPath

/-- Every discovered peer is assigned to its organization, no other peer is
    listed, and no organization is damaged. -/
structure Assigned (endorsers : Map Endorser) (organizations organizations' : Map Organization) :
    Prop where
  listed : ∀ name endorser, endorsers.get? name = some endorser →
    ListedOnce organizations' name endorser.mspId
  discovered : ∀ orgName org, organizations'.get? orgName = some org →
    ∀ name ∈ org.peers, ∃ endorser, endorsers.get? name = some endorser
  kept : OrganizationsKept organizations organizations'

/-- No organization has this MSP id. -/
def Unknown (organizations : Map Organization) (mspId : String) : Prop :=
  ∀ orgName org, organizations.get? orgName = some org → org.mspid ≠ mspId

/-- The MSP id of a discovered peer that no organization has is not the name
    of an organization either. -/
def NamesApart (endorsers : Map Endorser) (organizations : Map Organization) : Prop :=
  ∀ name endorser, endorsers.get? name = some endorser →
    Unknown organizations endorser.mspId → organizations.get? endorser.mspId = none

/-! ## One turn of each loop -/

/-- The clean-up empties the lists and changes nothing else. -/
theorem get?_cleanPeers {organizations : Map Organization} {visit : List (String × Organization)}
    (hvisit : visit.Perm organizations.range) (orgName : String) :
    (cleanPeers organizations visit).get? orgName =
      (organizations.get? orgName).map fun org => { org with peers := [] } := by
  have hnodup : (visit.map Prod.fst).Nodup :=
    (hvisit.map Prod.fst).nodup_iff.mpr (Map.nodup_range organizations)
  -- every organization is visited once, whatever the order
  have hlookup : visit.lookup orgName = organizations.get? orgName := by
    cases hget : organizations.get? orgName with
    | some org =>
        exact Map.lookup_of_mem hnodup (hvisit.mem_iff.mpr (Map.mem_range.mpr hget))
    | none =>
        rw [List.lookup_eq_none_iff]
        rintro ⟨orgName', org⟩ hmem
        rw [bne_iff_ne]
        rintro rfl
        rw [hvisit.mem_iff, Map.mem_range, hget] at hmem
        cases hmem
  have hfold := Map.foldl_own_key (fun (m : Map Organization) key => m.get? key)
    (fun acc entry => acc.insert entry.1 { entry.2 with peers := [] })
    (fun _ org _ => some { org with peers := [] })
    (fun m key org key' => Map.get?_insert m key key' _) hnodup organizations orgName
  rw [cleanPeers, hfold, hlookup]
  cases organizations.get? orgName <;> rfl

/-- A turn of `endorsersLoop`: some organization has the MSP id and gets the
    peer, or none has it and one is made. -/
theorem assignPeer_cases {o : Map Organization} {visit : List (String × Organization)}
    (hvisit : visit.Perm o.range) (name : String) (endorser : Endorser) :
    (∃ orgName org, o.get? orgName = some org ∧ org.mspid = endorser.mspId ∧
      assignPeer o visit name endorser =
        o.insert orgName { org with peers := org.peers ++ [name] }) ∨
    Unknown o endorser.mspId ∧
      assignPeer o visit name endorser =
        o.insert endorser.mspId ⟨endorser.mspId, "", [name], []⟩ := by
  unfold assignPeer
  cases hfind : visit.find? fun entry => entry.2.mspid == endorser.mspId with
  | some entry =>
      obtain ⟨orgName, org⟩ := entry
      have hmem := hvisit.mem_iff.mp (List.mem_of_find?_eq_some hfind)
      have hmsp := List.find?_some hfind
      exact Or.inl ⟨orgName, org, Map.mem_range.mp hmem, by simpa using hmsp, rfl⟩
  | none =>
      refine Or.inr ⟨fun orgName org hget heq => ?_, rfl⟩
      have hnot := List.find?_eq_none.mp hfind (orgName, org)
        (hvisit.mem_iff.mpr (Map.mem_range.mpr hget))
      simp [heq] at hnot

/-! ## Names that are apart -/

/-- What holds of the organizations after the peers of `done`. -/
structure Progress (profile : Map Organization) (done : List (String × Endorser))
    (o : Map Organization) : Prop where
  kept : OrganizationsKept profile o
  named : ∀ orgName org, o.get? orgName = some org →
    (∃ org', profile.get? orgName = some org' ∧ org'.mspid = org.mspid) ∨ orgName = org.mspid
  listed : ∀ entry ∈ done, ListedOnce o entry.1 entry.2.mspId
  discovered : ∀ orgName org, o.get? orgName = some org →
    ∀ name ∈ org.peers, name ∈ done.map Prod.fst

theorem progress_cleanPeers {profile : Map Organization} {visit : List (String × Organization)}
    (hvisit : visit.Perm profile.range) : Progress profile [] (cleanPeers profile visit) where
  kept orgName org hget := by
    refine ⟨{ org with peers := [] }, ?_, rfl, rfl⟩
    rw [get?_cleanPeers hvisit, hget]
    rfl
  named orgName org hget := by
    rw [get?_cleanPeers hvisit] at hget
    obtain ⟨org', hprofile, rfl⟩ := Option.map_eq_some_iff.mp hget
    exact Or.inl ⟨org', hprofile, rfl⟩
  listed entry hentry := absurd hentry List.not_mem_nil
  discovered orgName org hget name hname := by
    rw [get?_cleanPeers hvisit] at hget
    obtain ⟨org', _, rfl⟩ := Option.map_eq_some_iff.mp hget
    exact absurd hname List.not_mem_nil

section Insert

variable {o : Map Organization} {orgName name : String} {org : Organization}

/-- The peers of an organization, none if it is not there. -/
def peersOf (o : Map Organization) (orgName : String) : List String :=
  ((o.get? orgName).map Organization.peers).getD []

theorem mem_peersOf : name ∈ peersOf o orgName ↔
    ∃ old, o.get? orgName = some old ∧ name ∈ old.peers := by
  unfold peersOf
  cases o.get? orgName with
  | none => simp
  | some old => simp

/-- An organization is written with the MSP id it has and one more peer: a
    peer that is listed already stays so. -/
theorem ListedOnce.insert {other mspId : String} (h : ListedOnce o other mspId)
    (hmspid : ∀ old, o.get? orgName = some old → org.mspid = old.mspid)
    (hpeers : org.peers = peersOf o orgName ++ [name]) (hne : other ≠ name) :
    ListedOnce (o.insert orgName org) other mspId := by
  -- the peer that is added is another one
  have hmem : other ∈ org.peers ↔ other ∈ peersOf o orgName := by simp [hpeers, hne]
  obtain ⟨home, homeOrg, hget, hhome, hone, huniq⟩ := h
  have hothers : ∀ orgName' org', (o.insert orgName org).get? orgName' = some org' →
      other ∈ org'.peers → orgName' = home := by
    intro orgName' org' hget' hother
    rw [Map.get?_insert] at hget'
    split at hget'
    · next heq =>
        cases hget'
        obtain ⟨old, hold, hmemold⟩ := mem_peersOf.mp (hmem.mp hother)
        exact heq ▸ huniq orgName old hold hmemold
    · exact huniq orgName' org' hget' hother
  by_cases heq : home = orgName
  -- its own organization is the one that is written
  · subst heq
    refine ⟨home, org, by rw [Map.get?_insert, if_pos rfl], (hmspid homeOrg hget).trans hhome,
      ?_, hothers⟩
    rw [hpeers, List.count_append, peersOf, hget, Option.map_some, Option.getD_some, hone,
      List.count_singleton, if_neg (by simpa using hne.symm)]
  · exact ⟨home, homeOrg, by rw [Map.get?_insert, if_neg heq, hget], hhome, hone, hothers⟩

/-- The peer that is added is listed once, if it was not listed before. -/
theorem listedOnce_insert_self (hnew : ∀ orgName' org', o.get? orgName' = some org' →
      name ∉ org'.peers) (hpeers : org.peers = peersOf o orgName ++ [name]) :
    ListedOnce (o.insert orgName org) name org.mspid := by
  refine ⟨orgName, org, by rw [Map.get?_insert, if_pos rfl], rfl, ?_, ?_⟩
  · have hnot : name ∉ peersOf o orgName := by
      rw [mem_peersOf]
      rintro ⟨old, hold, hmem⟩
      exact hnew orgName old hold hmem
    rw [hpeers, List.count_append, List.count_eq_zero.mpr hnot, List.count_singleton_self]
  · intro orgName' org' hget' hmem
    rw [Map.get?_insert] at hget'
    split at hget'
    · next heq => exact heq
    · exact absurd hmem (hnew orgName' org' hget')

/-- A turn that writes an organization with the MSP id of the peer. -/
theorem Progress.insert {profile : Map Organization} {done : List (String × Endorser)}
    (h : Progress profile done o) {endorser : Endorser} (hname : name ∉ done.map Prod.fst)
    (hmspid : org.mspid = endorser.mspId) (hpeers : org.peers = peersOf o orgName ++ [name])
    (hsame : ∀ old, o.get? orgName = some old →
      org.mspid = old.mspid ∧ org.cryptoPath = old.cryptoPath)
    (hnamed : (∃ org', profile.get? orgName = some org' ∧ org'.mspid = org.mspid) ∨
      orgName = org.mspid) :
    Progress profile (done ++ [(name, endorser)]) (o.insert orgName org) where
  kept orgName' org' hget := by
    obtain ⟨old, hold, hm, hc⟩ := h.kept orgName' org' hget
    -- the organization that is written keeps what it had
    by_cases heq : orgName' = orgName
    · subst heq
      obtain ⟨hm', hc'⟩ := hsame old hold
      exact ⟨org, by rw [Map.get?_insert, if_pos rfl], hm'.trans hm, hc'.trans hc⟩
    · exact ⟨old, by rw [Map.get?_insert, if_neg heq, hold], hm, hc⟩
  named orgName' org' hget := by
    rw [Map.get?_insert] at hget
    split at hget
    · next heq =>
        cases hget
        exact heq ▸ hnamed
    · exact h.named orgName' org' hget
  listed entry hentry := by
    rcases List.mem_append.mp hentry with hold | hnew
    -- a peer that was there is another one, so it is listed where it was
    · refine (h.listed entry hold).insert (fun old ho => (hsame old ho).1) hpeers ?_
      rintro rfl
      exact hname (List.mem_map_of_mem hold)
    · obtain rfl := List.mem_singleton.mp hnew
      rw [← hmspid]
      -- the peer was in no organization before
      refine listedOnce_insert_self (fun orgName' org' hget hmem => ?_) hpeers
      exact hname (h.discovered orgName' org' hget name hmem)
  discovered orgName' org' hget other hother := by
    rw [List.map_append, List.mem_append]
    rw [Map.get?_insert] at hget
    split at hget
    · cases hget
      rw [hpeers, List.mem_append] at hother
      rcases hother with hold | hnew
      · obtain ⟨old, hget', hmem⟩ := mem_peersOf.mp hold
        exact Or.inl (h.discovered orgName old hget' other hmem)
      · exact Or.inr (by simpa using hnew)
    · exact Or.inl (h.discovered orgName' org' hget other hother)

end Insert

theorem Progress.assignPeer {profile o : Map Organization} {done : List (String × Endorser)}
    (h : Progress profile done o) {visit : List (String × Organization)}
    (hvisit : visit.Perm o.range) {name : String} {endorser : Endorser}
    (hname : name ∉ done.map Prod.fst)
    (hapart : Unknown profile endorser.mspId → profile.get? endorser.mspId = none) :
    Progress profile (done ++ [(name, endorser)]) (assignPeer o visit name endorser) := by
  rcases assignPeer_cases hvisit name endorser with
    ⟨orgName, org, hget, hmspid, heq⟩ | ⟨hunknown, heq⟩
  · rw [heq]
    refine h.insert hname hmspid (by rw [peersOf, hget]; rfl) (fun old hold => ?_)
      (h.named orgName org hget)
    rw [hget] at hold
    cases hold
    exact ⟨rfl, rfl⟩
  -- the new organization replaces none
  · have hunknown' : Unknown profile endorser.mspId := by
      intro orgName org hget hmspid
      obtain ⟨org', hget', hm, _⟩ := h.kept orgName org hget
      exact hunknown orgName org' hget' (hm.trans hmspid)
    have hfree : o.get? endorser.mspId = none := by
      cases hget : o.get? endorser.mspId with
      | none => rfl
      | some org =>
          rcases h.named endorser.mspId org hget with ⟨org', hprofile, _⟩ | hself
          · rw [hapart hunknown'] at hprofile
            cases hprofile
          · exact absurd hself.symm (hunknown endorser.mspId org hget)
    rw [heq]
    refine h.insert hname rfl (by rw [peersOf, hfree]; rfl) (fun old hold => ?_) (Or.inr rfl)
    rw [hfree] at hold
    cases hold

theorem AssignAll.progress {profile o o' : Map Organization}
    {order done : List (String × Endorser)} (hrun : AssignAll order o o')
    (h : Progress profile done o) (hnodup : ((done ++ order).map Prod.fst).Nodup)
    (hapart : ∀ entry ∈ order, Unknown profile entry.2.mspId →
      profile.get? entry.2.mspId = none) :
    Progress profile (done ++ order) o' := by
  induction hrun generalizing done with
  | nil => rwa [List.append_nil]
  | @cons name endorser rest o o' visit hvisit _ ih =>
      rw [List.append_cons] at hnodup ⊢
      have hname : name ∉ done.map Prod.fst := by
        rw [List.map_append, List.map_append, List.append_assoc, List.nodup_append] at hnodup
        exact fun hmem => hnodup.2.2 name hmem name (by simp) rfl
      exact ih (h.assignPeer hvisit hname (hapart (name, endorser) List.mem_cons_self)) hnodup
        fun entry hentry => hapart entry (List.mem_cons_of_mem _ hentry)

/-! ## A name that is an MSP id -/

/-- From the moment a new organization is made for an MSP id, one of that
    name has it; before, none has. -/
def Settled (mspId : String) (o : Map Organization) : Prop :=
  ∃ org, o.get? mspId = some org ∧ org.mspid = mspId

theorem Settled.assignPeer {mspId : String} {o : Map Organization} (h : Settled mspId o)
    {visit : List (String × Organization)} (hvisit : visit.Perm o.range) (name : String)
    (endorser : Endorser) : Settled mspId (assignPeer o visit name endorser) := by
  obtain ⟨org, hget, hmspid⟩ := h
  rcases assignPeer_cases hvisit name endorser with
    ⟨orgName, org', hget', hmspid', heq⟩ | ⟨hunknown, heq⟩
  · rw [heq]
    by_cases hname : mspId = orgName
    · subst hname
      rw [hget] at hget'
      cases hget'
      exact ⟨{ org with peers := org.peers ++ [name] }, by rw [Map.get?_insert, if_pos rfl], hmspid⟩
    · exact ⟨org, by rw [Map.get?_insert, if_neg hname, hget], hmspid⟩
  -- the organization exists, so none is made under its name
  · have hne : mspId ≠ endorser.mspId := by
      rintro rfl
      exact hunknown endorser.mspId org hget hmspid
    rw [heq]
    exact ⟨org, by rw [Map.get?_insert, if_neg hne, hget], hmspid⟩

theorem unknown_or_settled_assignPeer {mspId : String} {o : Map Organization}
    (h : Unknown o mspId) {visit : List (String × Organization)} (hvisit : visit.Perm o.range)
    (name : String) (endorser : Endorser) :
    endorser.mspId ≠ mspId ∧ Unknown (assignPeer o visit name endorser) mspId ∨
      Settled mspId (assignPeer o visit name endorser) := by
  rcases assignPeer_cases hvisit name endorser with
    ⟨orgName, org, hget, hmspid, heq⟩ | ⟨_, heq⟩
  -- the organization that is found has another MSP id, and keeps it
  · have hne : endorser.mspId ≠ mspId := hmspid ▸ h orgName org hget
    refine Or.inl ⟨hne, fun orgName' org' hget' => ?_⟩
    rw [heq, Map.get?_insert] at hget'
    split at hget'
    · cases hget'
      exact h orgName org hget
    · exact h orgName' org' hget'
  · by_cases hne : endorser.mspId = mspId
    -- the organization is made in this turn
    · subst hne
      rw [heq]
      exact Or.inr ⟨_, by rw [Map.get?_insert, if_pos rfl], rfl⟩
    · refine Or.inl ⟨hne, fun orgName' org' hget' => ?_⟩
      rw [heq, Map.get?_insert] at hget'
      split at hget'
      · cases hget'
        exact hne
      · exact h orgName' org' hget'

/-- An MSP id that no organization had is settled once a peer with it has been
    assigned. -/
theorem AssignAll.settled {mspId : String} {order : List (String × Endorser)}
    {o o' : Map Organization} (hrun : AssignAll order o o')
    (h : Settled mspId o ∨ Unknown o mspId ∧ ∃ entry ∈ order, entry.2.mspId = mspId) :
    Settled mspId o' := by
  induction hrun with
  | nil =>
      rcases h with h | ⟨_, entry, hentry, _⟩
      · exact h
      · exact absurd hentry List.not_mem_nil
  | @cons name endorser rest o o' visit hvisit _ ih =>
      rcases h with h | ⟨hunknown, entry, hentry, hmspid⟩
      · exact ih (Or.inl (h.assignPeer hvisit name endorser))
      · rcases unknown_or_settled_assignPeer hunknown hvisit name endorser with ⟨hne, hu⟩ | hs
        · refine ih (Or.inr ⟨hu, entry, ?_, hmspid⟩)
          rcases List.mem_cons.mp hentry with rfl | hrest
          · exact absurd hmspid hne
          · exact hrest
        · exact ih (Or.inl hs)

/-! ## The rebuild -/

/-- The organizations come out right, in every order of the loops, if the MSP
    ids that are new are no names of organizations, and in no order if one of
    them is. -/
theorem assigned_iff {endorsers : Map Endorser} {organizations organizations' : Map Organization}
    (hrun : Rebuilt endorsers organizations organizations') :
    Assigned endorsers organizations organizations' ↔ NamesApart endorsers organizations := by
  obtain ⟨visit, order, hvisit, horder, hall⟩ := hrun
  constructor
  · intro h name endorser hname hunknown
    by_contra hused
    obtain ⟨org, hget⟩ := Option.ne_none_iff_exists'.mp hused
    -- the name is taken, so the peer's organization would overwrite another one
    have hclean : Unknown (cleanPeers organizations visit) endorser.mspId := by
      intro orgName org' hget'
      rw [get?_cleanPeers hvisit] at hget'
      obtain ⟨old, hold, rfl⟩ := Option.map_eq_some_iff.mp hget'
      exact hunknown orgName old hold
    have hmem : (name, endorser) ∈ order := horder.mem_iff.mpr (Map.mem_range.mpr hname)
    obtain ⟨org', hget', hmspid'⟩ :=
      hall.settled (Or.inr ⟨hclean, (name, endorser), hmem, rfl⟩)
    obtain ⟨org'', hget'', hmspid'', _⟩ := h.kept endorser.mspId org hget
    rw [hget'] at hget''
    cases hget''
    exact hunknown endorser.mspId org hget (hmspid''.symm.trans hmspid')
  · intro hapart
    have hnodup : (order.map Prod.fst).Nodup :=
      (horder.map Prod.fst).nodup_iff.mpr (Map.nodup_range endorsers)
    -- each turn of the loop keeps what is settled
    have hprogress := hall.progress (progress_cleanPeers hvisit) hnodup
      fun entry hentry => hapart entry.1 entry.2
        (Map.mem_range.mp (horder.mem_iff.mp hentry))
    rw [List.nil_append] at hprogress
    refine ⟨fun name endorser hname => ?_, fun orgName org hget name hmem => ?_, hprogress.kept⟩
    · exact hprogress.listed (name, endorser) (horder.mem_iff.mpr (Map.mem_range.mpr hname))
    · obtain ⟨entry, hentry, rfl⟩ :=
        List.mem_map.mp (hprogress.discovered orgName org hget name hmem)
      exact ⟨entry.2, Map.mem_range.mp (horder.mem_iff.mp hentry)⟩

/-! ## Runs -/

theorem exists_assignAll (order : List (String × Endorser)) (o : Map Organization) :
    ∃ o', AssignAll order o o' := by
  induction order generalizing o with
  | nil => exact ⟨o, .nil⟩
  | cons entry rest ih =>
      obtain ⟨o', h⟩ := ih (assignPeer o o.range entry.1 entry.2)
      exact ⟨o', .cons (List.Perm.refl _) h⟩

/-- The loops end, in the order of the entries for instance. -/
theorem exists_rebuilt (endorsers : Map Endorser) (organizations : Map Organization) :
    ∃ organizations', Rebuilt endorsers organizations organizations' := by
  obtain ⟨o', h⟩ := exists_assignAll endorsers.range
    (cleanPeers organizations organizations.range)
  exact ⟨o', _, _, List.Perm.refl _, List.Perm.refl _, h⟩

/-- One organization, with a name of its own. -/
def oneOrganization (orgName : String) : Map Organization :=
  ⟨[(orgName, ⟨"Org1MSP", "peerOrganizations/org1", ["peer0"], []⟩)]⟩

theorem get?_oneOrganization {orgName orgName' : String} {org : Organization}
    (h : (oneOrganization orgName).get? orgName' = some org) :
    orgName' = orgName ∧ org = ⟨"Org1MSP", "peerOrganizations/org1", ["peer0"], []⟩ := by
  have hmem := Map.mem_of_get? h
  simpa [oneOrganization] using hmem

/-- A peer of the organization and one of another MSP. -/
def twoEndorsers : Map Endorser := ⟨[("peer1", ⟨"Org1MSP"⟩), ("peer9", ⟨"Org2MSP"⟩)]⟩

theorem assigned_iff_org1 :
    ∃ organizations', Rebuilt twoEndorsers (oneOrganization "org1") organizations' ∧
      Assigned twoEndorsers (oneOrganization "org1") organizations' := by
  obtain ⟨organizations', h⟩ := exists_rebuilt twoEndorsers (oneOrganization "org1")
  refine ⟨organizations', h, (assigned_iff h).mpr fun name endorser hname _ => ?_⟩
  have hmem := Map.mem_of_get? hname
  simp only [twoEndorsers, List.mem_cons, Prod.mk.injEq, List.not_mem_nil, or_false] at hmem
  rcases hmem with ⟨-, rfl⟩ | ⟨-, rfl⟩
  · rfl
  · rfl

/-- The organization is named like the MSP of the other peer: it is gone after
    the rebuild, whatever the order. -/
theorem organization_replaced :
    (∃ organizations', Rebuilt twoEndorsers (oneOrganization "Org2MSP") organizations') ∧
      ∀ organizations', Rebuilt twoEndorsers (oneOrganization "Org2MSP") organizations' →
        ¬ Assigned twoEndorsers (oneOrganization "Org2MSP") organizations' := by
  refine ⟨exists_rebuilt _ _, fun organizations' ⟨visit, order, hvisit, horder, hall⟩ h => ?_⟩
  have hmem : ("peer9", (⟨"Org2MSP"⟩ : Endorser)) ∈ order :=
    horder.mem_iff.mpr (Map.mem_range.mpr rfl)
  have hunknown : Unknown (cleanPeers (oneOrganization "Org2MSP") visit) "Org2MSP" := by
    intro orgName org hget
    rw [get?_cleanPeers hvisit] at hget
    obtain ⟨old, hold, rfl⟩ := Option.map_eq_some_iff.mp hget
    rw [(get?_oneOrganization hold).2]
    decide
  obtain ⟨org, hget, hmspid⟩ := hall.settled (Or.inr ⟨hunknown, _, hmem, rfl⟩)
  obtain ⟨org', hget', hmspid', _⟩ := h.kept "Org2MSP" _ rfl
  rw [hget] at hget'
  cases hget'
  rw [hmspid] at hmspid'
  exact absurd hmspid' (by decide)

end Hfrd.GoSdk
