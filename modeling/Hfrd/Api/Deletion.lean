/-
  Hfrd.Api.Deletion

  What the flags of a stored network can become.

  The three writers (mark, store, clear) overwrite each other through forced
  saves that ignore conflicts, each acting on a copy that may be stale.  None
  of them stores `deleting` together with `deleted`, whatever it overwrites.
  But the retry of a mark puts a copy that was read before the network was
  deleted: it takes a deleted network back, and that is the only way a DELETE
  job can.
-/

import Hfrd.Api.RoutineInv

namespace Hfrd.Api

open Hfrd.Go Hfrd.Lib

/-! ## The forbidden combination -/

/-- No stored network is both deleting and deleted. -/
def Exclusive (s : State) : Prop :=
  ∀ id network, s.networkDB.get id = some network →
    ¬ (network.deleting = true ∧ network.deleted = true)

/-- A copy that a goroutine is saving has at most one flag set. -/
theorem exclusive_of_holds {networkDB : NetworkDB} {job : Job} {save : NetworkSave}
    {stage : Stage} {network : Network}
    (h : Holds networkDB job (.forceSaveNetwork save stage network)) :
    ¬ (network.deleting = true ∧ network.deleted = true) := by
  rintro ⟨hdeleting, hdeleted⟩
  cases save with
  | mark rows => exact Bool.false_ne_true (h.2.1.deleted.symm.trans hdeleted)
  | store => exact Bool.false_ne_true (h.deleted.symm.trans hdeleted)
  | clear rows => exact Bool.false_ne_true (h.2.1.deleting.symm.trans hdeleting)

theorem exclusive_step {package : Packages} {s t : State} {l : Label} (hheld : Held s)
    (hs : Exclusive s) (h : ServerStep package s l t) : Exclusive t := by
  intro id d hd
  rcases networkDB_step h with hsame | ⟨j, g, save, stage, network, -, hj, hpc, -, -, hwrite, -⟩
  · rw [hsame] at hd
    exact hs id d hd
  · have hg := hheld g (List.mem_of_getElem? hj)
    rw [hpc] at hg
    rw [hwrite] at hd
    rcases RevStore.get_write_cases hd with ⟨-, rfl⟩ | ⟨-, hget⟩
    · -- the write replaces the whole document: its flags are those of the copy
      exact fun hboth => exclusive_of_holds hg hboth
    · exact hs id d hget

/-- **The forbidden flag combination never occurs.**  In every state the server
    can reach, no stored network is both deleting and deleted. -/
theorem never_deleting_and_deleted (package : Packages) (ls : List Label) (s : State)
    (hrun : (server package).exec .initial ls = some s) (id : String) (network : Network)
    (hget : s.networkDB.get id = some network) :
    ¬ (network.deleting = true ∧ network.deleted = true) := by
  have hstep : ∀ s l t, (Held s ∧ Exclusive s) → True → (server package).step s l = some t →
      Held t ∧ Exclusive t :=
    fun s l t hs _ hst =>
      ⟨held_step s l t hs.1 hst, exclusive_step hs.1 hs.2 (serverStep_inv hst)⟩
  have hinitial : Exclusive .initial := by
    intro id network hnone
    cases (RevStore.get_empty id).symm.trans hnone
  exact ((Lts.Run.of_exec hrun).preserves hstep ⟨held_initial, hinitial⟩).2 id network hget

/-! ## A service that is deleted twice -/

/-- Every build leaves the package of network `n1` of service `s1`. -/
def onePackage : Packages := fun _ _ =>
  [⟨serviceJsonPath, some (some (Finmap.singleton "serviceid" (.string "s1")))⟩,
    ⟨networkJsonPath,
      some (some (Finmap.singleton "org1" (.object [("network_id", .string "n1")])))⟩]

/-- The answer of a build 7 that has ended, with its status artifact. -/
def polled (status : String) : Answer :=
  .poll (.ok "<id>7</id><result>ENDED</result>")
    (.ok (some (Finmap.singleton "status" (.string status))))

/-- Goroutine 0 creates `n1`. -/
def createService : List Label :=
  [.start, .init false, .spawn, .request (.servicePost NETWORK "1" "u" STARTER "bx" "" 0 0 ""),
    .go 0 (.db false), .go 0 (polled SUCCESS), .go 0 (.db false), .go 0 (.tar true 0),
    .go 0 (.db false)]

/-- Goroutines 1 and 2 delete `s1`: 2 reads the network before 1 runs to its
    end, and then tries to save it. -/
def deleteTwice : List Label :=
  createService ++
    [.request (.deleteService "bx" "s1" "u" "2"), .request (.deleteService "bx" "s1" "u" "3")] ++
    [.go 2 (.db false), .go 2 (.db false)] ++
    [.go 1 (.db false), .go 1 (.db false), .go 1 (.db false), .go 1 (polled SUCCESS),
      .go 1 (.db false), .go 1 (.db false), .go 1 (.db false)] ++
    [.go 2 (.db false), .go 2 (.db false)]

theorem never_deleting_and_deleted_twice :
    ∃ s network, (server onePackage).exec .initial deleteTwice = some s ∧
      s.networkDB.get "n1" = some network ∧ network.deleted = true ∧
      ¬ (network.deleting = true ∧ network.deleted = true) := by
  refine ⟨_, _, (Option.some_get (by decide)).symm, (Option.some_get (by decide)).symm,
    by decide, ?_⟩
  exact never_deleting_and_deleted onePackage deleteTwice _ (Option.some_get (by decide)).symm
    "n1" _ (Option.some_get (by decide)).symm

/-! ## Deletion is permanent -/

/-- A step of a goroutine of a DELETE job. -/
def DeleteStep (s : State) : Label → Prop
  | .go j _ => ∃ g, s.goroutines[j]? = some g ∧ g.job.method = DELETE
  | _ => False

/-- What is stored as deleted stays so. -/
def KeepsDeleted (s t : State) : Prop :=
  ∀ id network, s.networkDB.get id = some network → network.deleted = true →
    ∃ network', t.networkDB.get id = some network' ∧ network'.deleted = true

/-- The retry of a mark, at the revision of a network stored as deleted. -/
def RetriesDeleted (s : State) : Label → Prop
  | .go j (.db false) => ∃ g rows network stored, s.goroutines[j]? = some g ∧
      g.pc = .forceSaveNetwork (.mark rows) .putAgain network ∧
      s.networkDB.get network.id = some stored ∧ stored.rev = network.rev ∧
      stored.deleted = true
  | _ => False

/-- The retry of a mark takes a deleted network back. -/
theorem not_keepsDeleted_of_retries {package : Packages} {s t : State} {l : Label}
    (hheld : Held s) (h : ServerStep package s l t) (hretry : RetriesDeleted s l) :
    DeleteStep s l ∧ ¬ KeepsDeleted s t := by
  cases h with
  | go j g answer t hj hgo =>
      cases answer with
      | db fault =>
          cases fault with
          | true => exact hretry.elim
          | false =>
              obtain ⟨g', rows, network, stored, hj', hpc, hstored, hrev, hdeleted⟩ := hretry
              obtain rfl := Option.some.inj (hj.symm.trans hj')
              have hg := hheld g (List.mem_of_getElem? hj)
              rw [hpc] at hg
              refine ⟨⟨g, hj, hg.1.1⟩, fun hkeeps => ?_⟩
              obtain ⟨network', hget, hdeleted'⟩ := hkeeps network.id stored hstored hdeleted
              have hcurrent : network.rev = s.networkDB.currentRev network.id :=
                hrev.symm.trans (RevStore.currentRev_of_get hstored).symm
              cases hgo with
              | saveNetwork save stage network₀ fault networkDB network₁ next hpc₀ hforce =>
                  obtain ⟨-, rfl, rfl⟩ := Pc.forceSaveNetwork.inj (hpc.symm.trans hpc₀)
                  cases hforce with
                  | saved _ _ _ _ =>
                      -- the copy is stored with `deleted` as it was read
                      have hnew := (RevStore.get_write_self s.networkDB network).symm.trans hget
                      obtain rfl := Option.some.inj hnew
                      exact Bool.false_ne_true (hg.2.1.deleted.symm.trans hdeleted')
                  | failed _ hfault => cases hfault
                  | conflictAgain _ hput => exact RevStore.put_eq_none.mp hput hcurrent
              | saveJob save stage fault jobDB job next hpc₀ _ => cases hpc.symm.trans hpc₀
              | queryMark fault hpc₀ => cases hpc.symm.trans hpc₀
              | queryClear fault hpc₀ => cases hpc.symm.trans hpc₀
      | poll listing artifact => exact hretry.elim
      | tar fetched now => exact hretry.elim
  | start _ | init _ _ | spawn _ _ _ | scanned _ | request _ _ | crash => exact hretry.elim

/-- Every other step of a DELETE job keeps what is deleted. -/
theorem keepsDeleted_of_not_retries {package : Packages} {s t : State} {l : Label}
    (hheld : Held s) (h : ServerStep package s l t) (hdel : DeleteStep s l)
    (hretry : ¬ RetriesDeleted s l) : KeepsDeleted s t := by
  intro id stored hstored hdeleted
  rcases networkDB_step h with
    hsame | ⟨j, g, save, stage, network, rfl, hj, hpc, hget, hrev, hwrite, -⟩
  · exact ⟨stored, by rw [hsame]; exact hstored, hdeleted⟩
  · by_cases hid : id = network.id
    · subst hid
      refine ⟨_, by rw [hwrite]; exact RevStore.get_write_self s.networkDB network, ?_⟩
      obtain ⟨g', hj', hmethod⟩ := hdel
      obtain rfl := Option.some.inj (hj.symm.trans hj')
      have hg := hheld g (List.mem_of_getElem? hj)
      rw [hpc] at hg
      cases save with
      | mark rows =>
          cases stage with
          | get => exact absurd rfl hget
          | put =>
              -- the row this copy was made from is the stored document
              obtain ⟨row, hseen, hkey, hrow, hnot⟩ := hg.2.1.row rfl
              rw [← hkey] at hstored hrev
              have hcurrent : s.networkDB.get row.id = some row :=
                hseen.get_of_rev (hrow.trans hrev)
              obtain rfl := Option.some.inj (hstored.symm.trans hcurrent)
              exact absurd (hnot.symm.trans hdeleted) Bool.false_ne_true
          | putAgain =>
              -- the retry of a mark is the one excluded
              refine absurd ⟨g, rows, network, stored, hj, hpc, hstored, ?_, hdeleted⟩ hretry
              exact (RevStore.currentRev_of_get hstored).symm.trans hrev.symm
      | store => exact absurd (hg.method.symm.trans hmethod) (by decide)
      | clear rows => exact hg.2.1.deleted
    · exact ⟨stored, by rw [hwrite, RevStore.get_write_ne s.networkDB hid]; exact hstored, hdeleted⟩

/-- **When deletion is permanent.**  In every run of the server, no step of a
    DELETE job takes a deleted network back if and only if no retry of a mark
    is made at the revision of a network stored as deleted. -/
theorem deletion_permanent_iff (package : Packages) (ls : List Label) :
    (server package).Along (fun s l t => DeleteStep s l → KeepsDeleted s t) .initial ls ↔
    (server package).Along (fun s l _ => ¬ RetriesDeleted s l) .initial ls := by
  refine Lts.along_congr held_step ?_ held_initial ls
  intro s l t hheld hst
  have h := serverStep_inv hst
  constructor
  · intro hkeeps hretry
    obtain ⟨hdel, hnot⟩ := not_keepsDeleted_of_retries hheld h hretry
    exact hnot (hkeeps hdel)
  · exact fun hretry hdel => keepsDeleted_of_not_retries hheld h hdel hretry

/-- After goroutine 1 has deleted `n1`, the retry of goroutine 2 takes it back. -/
theorem deletion_taken_back :
    ∃ s t network network', (server onePackage).exec .initial deleteTwice = some s ∧
      (server onePackage).step s (.go 2 (.db false)) = some t ∧
      DeleteStep s (.go 2 (.db false)) ∧
      s.networkDB.get "n1" = some network ∧ network.deleted = true ∧
      t.networkDB.get "n1" = some network' ∧ network'.deleted = false := by
  refine ⟨_, _, _, _, (Option.some_get (by decide)).symm, (Option.some_get (by decide)).symm,
    ⟨_, (Option.some_get (by decide)).symm, by decide⟩, (Option.some_get (by decide)).symm,
    by decide, (Option.some_get (by decide)).symm, by decide⟩

end Hfrd.Api
