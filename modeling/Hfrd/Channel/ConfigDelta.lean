/-
  Hfrd.Channel.ConfigDelta

  The update delta is sound and complete: `Compute` finds no difference
  exactly when two groups say the same at every depth, and otherwise its
  write set, applied to the original group, gives the updated one.
-/

import Hfrd.Channel.MapUpdate

namespace Hfrd.Channel

open Hfrd.Go

/-! ## Policies and values -/

section Items

variable {Content : Type} [DecidableEq Content]

theorem compareItems_same_iff {o u : ConfigItem Content} :
    (∃ same, compareItems o u = .same same) ↔ SameItem o u := by
  unfold compareItems SameItem
  split
  · next h => exact ⟨fun _ => h, fun _ => ⟨_, rfl⟩⟩
  · next h =>
      refine ⟨?_, fun hs => absurd hs h⟩
      rintro ⟨same, hc⟩
      cases hc

theorem version_of_compareItems {o u r : ConfigItem Content}
    (h : compareItems o u = .same r ∨ ∃ write, compareItems o u = .modified (some r) write) :
    r.version = o.version := by
  unfold compareItems at h
  split at h
  · rcases h with h | ⟨_, h⟩ <;> cases h
    rfl
  · rcases h with h | ⟨_, h⟩ <;> cases h

theorem applyItem_same {o u same : ConfigItem Content} (h : compareItems o u = .same same) :
    SameItem (applyItem o same) u := by
  rw [applyItem, if_pos (version_of_compareItems (Or.inl h))]
  exact compareItems_same_iff.mp ⟨same, h⟩

/-- The next version is another one, as long as there is a next version. -/
theorem next_version {v : UInt64} (hv : v.toNat < 2 ^ 64 - 1) :
    v + 1 ≠ v ∧ (v + 1).toNat = v.toNat + 1 := by
  have hnext : (v + 1).toNat = v.toNat + 1 := by
    rw [UInt64.toNat_add]
    exact Nat.mod_eq_of_lt (by simp only [UInt64.reduceToNat]; omega)
  refine ⟨fun heq => ?_, hnext⟩
  rw [heq] at hnext
  omega

theorem applyItem_modified {o u write : ConfigItem Content} {read : Option (ConfigItem Content)}
    (hv : o.version.toNat < 2 ^ 64 - 1) (h : compareItems o u = .modified read write) :
    SameItem (applyItem o write) u := by
  unfold compareItems at h
  split at h
  · cases h
  · cases h
    rw [applyItem, if_neg (next_version hv).1, if_pos (next_version hv).2]
    exact ⟨rfl, rfl⟩

end Items

/-! ## Groups -/

/-- What `computeGroupUpdate` returns, over the updates of the three kinds of
    members. -/
inductive GroupCase (original updated : ConfigGroup) (P : MapUpdate ConfigPolicy)
    (V : MapUpdate ConfigValue) (G : MapUpdate ConfigGroup) :
    ConfigGroup × ConfigGroup × Bool → Prop
  | unchanged
      (hequal : original.equal updated P V G = true) (hnone : noneModified P V G = true) :
      GroupCase original updated P V G
        ({ version := original.version }, { version := original.version }, false)
  | modified
      (hequal : original.equal updated P V G = true) (hsome : noneModified P V G = false) :
      GroupCase original updated P V G
        ({ version := original.version
           policies := P.readSet
           values := V.readSet
           groups := G.readSet },
          { version := original.version
            policies := P.writeSet
            values := V.writeSet
            groups := G.writeSet },
          true)
  | members (hequal : original.equal updated P V G = false) :
      GroupCase original updated P V G
        ({ version := original.version
           policies := P.readSet.insertAll P.sameSet
           values := V.readSet.insertAll V.sameSet
           groups := G.readSet.insertAll G.sameSet },
          { version := original.version + 1
            policies := P.writeSet.insertAll P.sameSet
            values := V.writeSet.insertAll V.sameSet
            groups := G.writeSet.insertAll G.sameSet
            modPolicy := updated.modPolicy },
          true)

theorem computeGroupUpdate_cases (original updated : ConfigGroup) :
    ∃ P V G, P = computeMapUpdate compareItems addItem original.policies updated.policies ∧
      V = computeMapUpdate compareItems addItem original.values updated.values ∧
      G = computeMapUpdate compareGroups addGroup original.groups updated.groups ∧
      GroupCase original updated P V G (computeGroupUpdate original updated) := by
  refine ⟨computePoliciesMapUpdate original.policies updated.policies,
    computeValuesMapUpdate original.values updated.values,
    computeGroupsMapUpdate original.groups updated.groups, rfl, rfl,
    computeGroupsMapUpdate_eq _ _, ?_⟩
  rw [computeGroupUpdate]
  split
  · next hequal =>
      split
      · next hnone => exact .unchanged hequal hnone
      · next hsome => exact .modified hequal (Bool.eq_false_iff.mpr hsome)
  · next hequal => exact .members (Bool.eq_false_iff.mpr hequal)

section Cases

variable {original updated : ConfigGroup} {P : MapUpdate ConfigPolicy}
  {V : MapUpdate ConfigValue} {G : MapUpdate ConfigGroup}

theorem ConfigGroup.equal_iff :
    original.equal updated P V G = true ↔
      original.modPolicy = updated.modPolicy ∧ P.updatedMembers = false ∧
      V.updatedMembers = false ∧ G.updatedMembers = false := by
  simp only [ConfigGroup.equal, Bool.not_eq_true', Bool.or_eq_false_iff, bne_eq_false_iff_eq]
  tauto

theorem noneModified_iff :
    noneModified P V G = true ↔
      (P.readSet.len = 0 ∧ P.writeSet.len = 0) ∧ (V.readSet.len = 0 ∧ V.writeSet.len = 0) ∧
      G.readSet.len = 0 ∧ G.writeSet.len = 0 := by
  simp only [noneModified, Bool.and_eq_true, beq_iff_eq, and_assoc]

/-- No update is reported when nothing changed in the group or below. -/
theorem GroupCase.flag_iff {r : ConfigGroup × ConfigGroup × Bool}
    (h : GroupCase original updated P V G r) :
    r.2.2 = false ↔
      original.modPolicy = updated.modPolicy ∧
      (P.updatedMembers = false ∧ P.readSet.len = 0 ∧ P.writeSet.len = 0) ∧
      (V.updatedMembers = false ∧ V.readSet.len = 0 ∧ V.writeSet.len = 0) ∧
      G.updatedMembers = false ∧ G.readSet.len = 0 ∧ G.writeSet.len = 0 := by
  cases h with
  | unchanged hequal hnone =>
      rw [ConfigGroup.equal_iff] at hequal
      rw [noneModified_iff] at hnone
      exact iff_of_true rfl (by tauto)
  | modified hequal hsome =>
      refine iff_of_false (by simp) fun h => ?_
      rw [← Bool.not_eq_true, noneModified_iff] at hsome
      exact hsome (by tauto)
  | members hequal =>
      refine iff_of_false (by simp) fun h => ?_
      rw [← Bool.not_eq_true, ConfigGroup.equal_iff] at hequal
      exact hequal (by tauto)

/-- Without an update both sets are the bare group at its version. -/
theorem GroupCase.bare {r : ConfigGroup × ConfigGroup × Bool}
    (h : GroupCase original updated P V G r) (hflag : r.2.2 = false) :
    r = ({ version := original.version }, { version := original.version }, false) := by
  cases h with
  | unchanged => rfl
  | modified => cases hflag
  | members => cases hflag

end Cases

theorem compareGroups_same {o u same : ConfigGroup} (h : compareGroups o u = .same same) :
    (computeGroupUpdate o u).2.2 = false ∧ same = (computeGroupUpdate o u).1 := by
  unfold compareGroups at h
  split at h
  · next heq =>
      cases h
      rw [heq]
      exact ⟨rfl, rfl⟩
  · cases h

theorem compareGroups_modified {o u write : ConfigGroup} {read : Option ConfigGroup}
    (h : compareGroups o u = .modified read write) :
    read = some (computeGroupUpdate o u).1 ∧ write = (computeGroupUpdate o u).2.1 := by
  unfold compareGroups at h
  split at h
  · cases h
  · next heq =>
      cases h
      rw [heq]
      exact ⟨rfl, rfl⟩

theorem compareGroups_same_iff {o u : ConfigGroup} :
    (∃ same, compareGroups o u = .same same) ↔ (computeGroupUpdate o u).2.2 = false := by
  refine ⟨fun ⟨same, h⟩ => (compareGroups_same h).1, fun h => ?_⟩
  unfold compareGroups
  split
  · exact ⟨_, rfl⟩
  · next heq =>
      rw [heq] at h
      cases h

theorem computeGroupUpdate_bare {o u : ConfigGroup} (h : (computeGroupUpdate o u).2.2 = false) :
    (computeGroupUpdate o u).1 = { version := o.version } := by
  obtain ⟨P, V, G, -, -, -, hcase⟩ := computeGroupUpdate_cases o u
  rw [hcase.bare h]

/-- No update is reported exactly when the groups say the same at every depth. -/
theorem computeGroupUpdate_unchanged_iff (updated : ConfigGroup) :
    ∀ original, (computeGroupUpdate original updated).2.2 = false ↔ original.Agrees updated := by
  induction updated using ConfigGroup.induction with
  | h updated ih =>
      intro original
      obtain ⟨P, V, G, hP, hV, hG, hcase⟩ := computeGroupUpdate_cases original updated
      rw [hcase.flag_iff, ConfigGroup.agrees_iff,
        MapUpdate.unchanged_iff hP fun _ _ _ _ _ => compareItems_same_iff,
        MapUpdate.unchanged_iff hV fun _ _ _ _ _ => compareItems_same_iff,
        MapUpdate.unchanged_iff hG fun name o u _ hu =>
          compareGroups_same_iff.trans (ih name u hu o)]

/-- A new group is written as it is. -/
theorem addGroup_agrees (updated : ConfigGroup) : (addGroup updated).Agrees updated := by
  induction updated using ConfigGroup.induction with
  | h updated ih =>
      obtain ⟨P, V, G, hP, hV, hG, hcase⟩ := computeGroupUpdate_cases {} updated
      have hp := MapUpdate.new_rel (R := SameItem) hP fun _ _ _ => ⟨rfl, rfl⟩
      have hv := MapUpdate.new_rel (R := SameItem) hV fun _ _ _ => ⟨rfl, rfl⟩
      have hg := MapUpdate.new_rel hG ih
      rw [ConfigGroup.agrees_iff, addGroup]
      generalize computeGroupUpdate {} updated = r at hcase
      -- nothing of a new group is the same, so the write set holds all its members
      refine ⟨rfl, ?_⟩
      cases hcase with
      | unchanged hequal hnone =>
          simp only [noneModified_iff, Map.len_eq_zero_iff] at hnone
          obtain ⟨⟨-, hpw⟩, ⟨-, hvw⟩, -, hgw⟩ := hnone
          simp only [hpw, hvw, hgw] at hp hv hg
          exact ⟨fun name => (hp name).1, fun name => (hv name).1, fun name => (hg name).1⟩
      | modified =>
          exact ⟨fun name => (hp name).1, fun name => (hv name).1, fun name => (hg name).1⟩
      | members =>
          refine ⟨fun name => ?_, fun name => ?_, fun name => ?_⟩
          · rw [Map.get?_insertAll, (hp name).2]
            exact (hp name).1
          · rw [Map.get?_insertAll, (hv name).2]
            exact (hv name).1
          · rw [Map.get?_insertAll, (hg name).2]
            exact (hg name).1

/-! ## The write set -/

/-- The write set, applied to the original group, gives the updated one. -/
theorem applyGroup_agrees (updated : ConfigGroup) :
    ∀ original, original.VersionsBelow →
      (applyGroup original (computeGroupUpdate original updated).2.1).Agrees updated := by
  induction updated using ConfigGroup.induction with
  | h updated ih =>
      intro original hbelow
      have hunchanged := computeGroupUpdate_unchanged_iff updated original
      obtain ⟨P, V, G, hP, hV, hG, hcase⟩ := computeGroupUpdate_cases original updated
      generalize computeGroupUpdate original updated = r at hcase hunchanged ⊢
      -- what is written for a member, of the three kinds
      have hp : ∀ name o u read write, original.policies.get? name = some o →
          updated.policies.get? name = some u → compareItems o u = .modified read write →
          SameItem (applyItem o write) u :=
        fun name o u read write ho _ => applyItem_modified (hbelow.policy ho)
      have hv : ∀ name o u read write, original.values.get? name = some o →
          updated.values.get? name = some u → compareItems o u = .modified read write →
          SameItem (applyItem o write) u :=
        fun name o u read write ho _ => applyItem_modified (hbelow.value ho)
      have hg : ∀ name o u read write, original.groups.get? name = some o →
          updated.groups.get? name = some u → compareGroups o u = .modified read write →
          (applyGroup o write).Agrees u := by
        intro name o u read write ho hu hc
        rw [(compareGroups_modified hc).2]
        exact ih name u hu o (hbelow.group ho)
      cases hcase with
      | unchanged hequal hnone =>
          rw [applyGroup_bare]
          exact hunchanged.mp rfl
      | modified hequal hsome =>
          obtain ⟨hmod, hpm, hvm, hgm⟩ := ConfigGroup.equal_iff.mp hequal
          rw [applyGroup_eq, if_pos rfl, ConfigGroup.agrees_iff]
          refine ⟨hmod, MapUpdate.overlay_rel hP ?_ hp hpm, MapUpdate.overlay_rel hV ?_ hv hvm,
            MapUpdate.overlay_rel hG ?_ hg hgm⟩
          · exact fun name o u same _ _ hc => compareItems_same_iff.mp ⟨same, hc⟩
          · exact fun name o u same _ _ hc => compareItems_same_iff.mp ⟨same, hc⟩
          · exact fun name o u same _ _ hc =>
              (computeGroupUpdate_unchanged_iff u o).mp (compareGroups_same hc).1
      | members hequal =>
          -- the group takes its own members: those that are the same are in the write set
          have hversion : original.version.toNat < 2 ^ 64 - 1 := hbelow .self _ rfl
          dsimp only
          rw [applyGroup_eq, if_neg (next_version hversion).1, if_pos (next_version hversion).2,
            ConfigGroup.agrees_iff]
          refine ⟨rfl, MapUpdate.written_rel hP ?_ hp ?_, MapUpdate.written_rel hV ?_ hv ?_,
            MapUpdate.written_rel hG ?_ hg ?_⟩
          · exact fun name o u same _ _ => applyItem_same
          · exact fun name u _ => ⟨rfl, rfl⟩
          · exact fun name o u same _ _ => applyItem_same
          · exact fun name u _ => ⟨rfl, rfl⟩
          · intro name o u same _ _ hc
            obtain ⟨hflag, rfl⟩ := compareGroups_same hc
            rw [computeGroupUpdate_bare hflag, applyGroup_bare]
            exact (computeGroupUpdate_unchanged_iff u o).mp hflag
          · exact fun name u _ => addGroup_agrees u

/-! ## The read set -/

/-- Every entry of a read set was read or is the same in the original. -/
theorem GroupCase.readSet_get? {original updated : ConfigGroup} {P : MapUpdate ConfigPolicy}
    {V : MapUpdate ConfigValue} {G : MapUpdate ConfigGroup}
    {r : ConfigGroup × ConfigGroup × Bool} (h : GroupCase original updated P V G r)
    (name : String) :
    r.1.version = original.version ∧
    (∀ item, r.1.policies.get? name = some item →
      P.readSet.get? name = some item ∨ P.sameSet.get? name = some item) ∧
    (∀ item, r.1.values.get? name = some item →
      V.readSet.get? name = some item ∨ V.sameSet.get? name = some item) ∧
    (∀ child, r.1.groups.get? name = some child →
      G.readSet.get? name = some child ∨ G.sameSet.get? name = some child) := by
  cases h with
  | unchanged => exact ⟨rfl, nofun, nofun, nofun⟩
  | modified => exact ⟨rfl, fun _ => Or.inl, fun _ => Or.inl, fun _ => Or.inl⟩
  | members =>
      refine ⟨rfl, ?_⟩
      simp only [Map.get?_insertAll, Option.or_eq_some_iff]
      exact ⟨fun _ h => h.symm.imp_left And.right, fun _ h => h.symm.imp_left And.right,
        fun _ h => h.symm.imp_left And.right⟩

/-- The read set carries the versions of the original, by induction on the
    place. -/
theorem readSet_versions (path : Path) :
    ∀ {original updated : ConfigGroup} {e : Element},
      (computeGroupUpdate original updated).1.find? path = some e →
      ∃ e', original.find? path = some e' ∧ e'.version = e.version := by
  induction path with
  | self =>
      intro original updated e he
      obtain ⟨P, V, G, -, -, -, hcase⟩ := computeGroupUpdate_cases original updated
      cases he
      exact ⟨_, rfl, (hcase.readSet_get? "").1.symm⟩
  | policy name =>
      intro original updated e he
      obtain ⟨P, V, G, hP, -, -, hcase⟩ := computeGroupUpdate_cases original updated
      obtain ⟨item, hitem, rfl⟩ := Option.map_eq_some_iff.mp he
      obtain ⟨o, u, ho, hc⟩ := MapUpdate.read_spec hP ((hcase.readSet_get? name).2.1 item hitem)
      exact ⟨.policy o, by rw [ConfigGroup.find?, ho]; rfl, (version_of_compareItems hc).symm⟩
  | value name =>
      intro original updated e he
      obtain ⟨P, V, G, -, hV, -, hcase⟩ := computeGroupUpdate_cases original updated
      obtain ⟨item, hitem, rfl⟩ := Option.map_eq_some_iff.mp he
      obtain ⟨o, u, ho, hc⟩ := MapUpdate.read_spec hV ((hcase.readSet_get? name).2.2.1 item hitem)
      exact ⟨.value o, by rw [ConfigGroup.find?, ho]; rfl, (version_of_compareItems hc).symm⟩
  | group name rest ih =>
      intro original updated e he
      obtain ⟨P, V, G, -, -, hG, hcase⟩ := computeGroupUpdate_cases original updated
      obtain ⟨child, hchild, he⟩ := Option.bind_eq_some_iff.mp he
      obtain ⟨o, u, ho, hc⟩ :=
        MapUpdate.read_spec hG ((hcase.readSet_get? name).2.2.2 child hchild)
      -- a group in the read set is the read set of that group
      have hread : child = (computeGroupUpdate o u).1 := by
        rcases hc with hc | ⟨write, hc⟩
        · exact (compareGroups_same hc).2
        · exact Option.some.inj (compareGroups_modified hc).1
      obtain ⟨e', he', hversion⟩ := ih (hread ▸ he)
      exact ⟨e', by rw [ConfigGroup.find?, ho]; exact he', hversion⟩

/-! ## The delta of two configs -/

/-- `Compute` fails for want of a difference exactly when the two groups
    agree.  Otherwise its write set, applied to the original group, gives the
    updated one, and its read set carries the versions of the original. -/
theorem compute_sound_complete (original updated : Config) (group group' : ConfigGroup)
    (horiginal : original.channelGroup = some group)
    (hupdated : updated.channelGroup = some group') (hbelow : group.VersionsBelow) :
    (compute original updated = .error NO_DIFFERENCES ↔ group.Agrees group') ∧
    (¬ group.Agrees group' → ∃ cu, compute original updated = .ok cu ∧
      (applyGroup group cu.writeSet).Agrees group' ∧ cu.readSet.ReadsVersionsOf group) := by
  have hunchanged := computeGroupUpdate_unchanged_iff group' group
  have hwrite := applyGroup_agrees group' group hbelow
  have hread : (computeGroupUpdate group group').1.ReadsVersionsOf group :=
    fun path _ => readSet_versions path
  unfold compute
  simp only [horiginal, hupdated]
  generalize computeGroupUpdate group group' = r at hunchanged hwrite hread ⊢
  obtain ⟨readSet, writeSet, groupUpdated⟩ := r
  cases groupUpdated with
  | false =>
      have hagrees := hunchanged.mp rfl
      exact ⟨iff_of_true rfl hagrees, fun h => absurd hagrees h⟩
  | true =>
      have hdiffers : ¬ group.Agrees group' := fun h => by cases hunchanged.mpr h
      exact ⟨iff_of_false (fun h => by cases h) hdiffers, fun _ => ⟨_, rfl, hwrite, hread⟩⟩

/-- A channel with a batch size and one organization. -/
def channelWithOrg : ConfigGroup :=
  { version := 3
    values := ({} : Map ConfigValue).insert "BatchSize" { version := 1, content := some [10] }
    groups := ({} : Map ConfigGroup).insert "Org1MSP" { version := 7 } }

/-- The same channel with another batch size and without the organization. -/
def channelWithoutOrg : ConfigGroup :=
  { version := 3
    values := ({} : Map ConfigValue).insert "BatchSize" { version := 1, content := some [20] } }

theorem channelWithOrg_versionsBelow : channelWithOrg.VersionsBelow := by
  intro path e he
  cases path with
  | self => cases he; decide
  | policy name => cases he
  | value name =>
      obtain ⟨item, hitem, rfl⟩ := Option.map_eq_some_iff.mp he
      rw [channelWithOrg, Map.get?_insert] at hitem
      split at hitem <;> cases hitem
      decide
  | group name rest =>
      obtain ⟨child, hchild, he⟩ := Option.bind_eq_some_iff.mp he
      rw [channelWithOrg, Map.get?_insert] at hchild
      split at hchild <;> cases hchild
      cases rest <;> cases he
      decide

/-- The change of the batch size and the removal of the organization are found
    and carried over. -/
theorem compute_sound_complete_org :
    ∃ cu, compute { channelGroup := some channelWithOrg }
        { channelGroup := some channelWithoutOrg } = .ok cu ∧
      (applyGroup channelWithOrg cu.writeSet).Agrees channelWithoutOrg ∧
      cu.readSet.ReadsVersionsOf channelWithOrg :=
  (compute_sound_complete _ _ channelWithOrg channelWithoutOrg rfl rfl
    channelWithOrg_versionsBelow).2 fun h => by cases h (.group "Org1MSP" .self)

end Hfrd.Channel
