/-
  Hfrd.Channel.ConfigTree

  What a config group says at each place of its tree, and what a write set
  makes of a group when it is applied to it.
-/

import Hfrd.Channel.ConfigUpdate
import Mathlib.Algebra.Group.Nat.Defs

namespace Hfrd.Channel

open Hfrd.Go

/-! ## What a group says -/

/-- A place in the tree of a group. -/
inductive Path where
  | self
  | policy (name : String)
  | value (name : String)
  | group (name : String) (rest : Path)

/-- What stands at a place: a group without its members, or a member. -/
inductive Element where
  | group (version : UInt64) (modPolicy : String)
  | policy (item : ConfigPolicy)
  | value (item : ConfigValue)

/-- The version of an element. -/
def Element.version : Element → UInt64
  | .group version _ => version
  | .policy item => item.version
  | .value item => item.version

/-- What an element says apart from its version. -/
def Element.withoutVersion : Element → Element
  | .group _ modPolicy => .group 0 modPolicy
  | .policy item => .policy { item with version := 0 }
  | .value item => .value { item with version := 0 }

namespace ConfigGroup

/-- The element at a path. -/
def find? : ConfigGroup → Path → Option Element
  | g, .self => some (.group g.version g.modPolicy)
  | g, .policy name => (g.policies.get? name).map .policy
  | g, .value name => (g.values.get? name).map .value
  | g, .group name rest => (g.groups.get? name).bind fun child => child.find? rest

/-- The same policies, values, sub-groups and mod policies at every depth,
    whatever the versions. -/
def Agrees (g g' : ConfigGroup) : Prop :=
  ∀ path, (g.find? path).map Element.withoutVersion = (g'.find? path).map Element.withoutVersion

/-- No version below the group is the last one. -/
def VersionsBelow (g : ConfigGroup) : Prop :=
  ∀ path e, g.find? path = some e → e.version.toNat < 2 ^ 64 - 1

/-- Every element of a read set carries its version in the original. -/
def ReadsVersionsOf (readSet original : ConfigGroup) : Prop :=
  ∀ path e, readSet.find? path = some e →
    ∃ e', original.find? path = some e' ∧ e'.version = e.version

end ConfigGroup

/-! ## Agreement, member by member -/

/-- The same content and mod policy, whatever the versions. -/
def SameItem {Content : Type} (item item' : ConfigItem Content) : Prop :=
  item.modPolicy = item'.modPolicy ∧ item.content = item'.content

namespace ConfigGroup

theorem policy_agrees_iff {a b : Option ConfigPolicy} :
    (a.map Element.policy).map Element.withoutVersion
      = (b.map Element.policy).map Element.withoutVersion ↔ Option.Rel SameItem a b := by
  cases a <;> cases b <;> simp [Element.withoutVersion, SameItem, and_comm]

theorem value_agrees_iff {a b : Option ConfigValue} :
    (a.map Element.value).map Element.withoutVersion
      = (b.map Element.value).map Element.withoutVersion ↔ Option.Rel SameItem a b := by
  cases a <;> cases b <;> simp [Element.withoutVersion, SameItem, and_comm]

/-- Two groups agree when their mod policies do and their members do, name by
    name. -/
theorem agrees_iff {g g' : ConfigGroup} :
    g.Agrees g' ↔
      g.modPolicy = g'.modPolicy ∧
      (∀ name, Option.Rel SameItem (g.policies.get? name) (g'.policies.get? name)) ∧
      (∀ name, Option.Rel SameItem (g.values.get? name) (g'.values.get? name)) ∧
      ∀ name, Option.Rel Agrees (g.groups.get? name) (g'.groups.get? name) := by
  constructor
  · intro h
    refine ⟨?_, fun name => policy_agrees_iff.mp (h (.policy name)),
      fun name => value_agrees_iff.mp (h (.value name)), fun name => ?_⟩
    · have hself := h .self
      simpa [find?, Element.withoutVersion] using hself
    -- the paths into a group, from the group itself to its last member
    · have hchild := fun rest => h (.group name rest)
      simp only [find?] at hchild
      cases hg : g.groups.get? name with
      | none =>
          cases hg' : g'.groups.get? name with
          | none => exact .none
          | some child' => simpa [hg, hg', find?] using hchild .self
      | some child =>
          cases hg' : g'.groups.get? name with
          | none => simpa [hg, hg', find?] using hchild .self
          | some child' => exact .some fun rest => by simpa [hg, hg'] using hchild rest
  · rintro ⟨hmod, hpolicies, hvalues, hgroups⟩ path
    cases path with
    | self => simp [find?, Element.withoutVersion, hmod]
    | policy name => exact policy_agrees_iff.mpr (hpolicies name)
    | value name => exact value_agrees_iff.mpr (hvalues name)
    | group name rest =>
        simp only [find?]
        have hrel := hgroups name
        generalize g.groups.get? name = child? at hrel ⊢
        generalize g'.groups.get? name = other? at hrel ⊢
        cases hrel with
        | none => rfl
        | some h => exact h rest

end ConfigGroup

theorem ConfigGroup.VersionsBelow.policy {g : ConfigGroup} (h : g.VersionsBelow) {name : String}
    {item : ConfigPolicy} (hitem : g.policies.get? name = some item) :
    item.version.toNat < 2 ^ 64 - 1 :=
  h (.policy name) (.policy item) (by rw [ConfigGroup.find?, hitem]; rfl)

theorem ConfigGroup.VersionsBelow.value {g : ConfigGroup} (h : g.VersionsBelow) {name : String}
    {item : ConfigValue} (hitem : g.values.get? name = some item) :
    item.version.toNat < 2 ^ 64 - 1 :=
  h (.value name) (.value item) (by rw [ConfigGroup.find?, hitem]; rfl)

theorem ConfigGroup.VersionsBelow.group {g : ConfigGroup} (h : g.VersionsBelow) {name : String}
    {child : ConfigGroup} (hchild : g.groups.get? name = some child) : child.VersionsBelow :=
  fun rest e he => h (.group name rest) e (by rw [ConfigGroup.find?, hchild]; exact he)

/-! ## Applying a write set -/

/-- Applies to every written member the original one it stands over. -/
def applyMembers {α : Type} (apply : α → α → α) (original write : Map α) : Map α :=
  write.map fun name item => (original.get? name).elim item fun o => apply o item

/-- A member with the version of the original keeps its content, one with the
    next version takes the written content, and any other is refused. -/
def applyItem {Content : Type} (original write : ConfigItem Content) : ConfigItem Content :=
  if write.version = original.version then original
  else if write.version.toNat = original.version.toNat + 1 then write
  else original

/-- A group with the version of the original overlays its members on the
    original ones, one with the next version has its own members and mod
    policy, and any other is refused. -/
def applyGroup (original write : ConfigGroup) : ConfigGroup :=
  let groups : Map ConfigGroup :=
    ⟨write.groups.entries.map fun entry =>
      (entry.1, (original.groups.get? entry.1).elim entry.2 fun o => applyGroup o entry.2)⟩
  let values := applyMembers applyItem original.values write.values
  let policies := applyMembers applyItem original.policies write.policies
  if write.version = original.version then
    { original with
      groups := original.groups.overlay groups
      values := original.values.overlay values
      policies := original.policies.overlay policies }
  else if write.version.toNat = original.version.toNat + 1 then
    { write with
      groups := groups
      values := values
      policies := policies }
  else original
termination_by sizeOf write
decreasing_by
  exact Nat.lt_trans (sizeOf_lt_of_mem (by assumption)) (sizeOf_groups_lt write)

theorem applyGroup_eq (original write : ConfigGroup) :
    applyGroup original write =
      if write.version = original.version then
        { original with
          groups := original.groups.overlay (applyMembers applyGroup original.groups write.groups)
          values := original.values.overlay (applyMembers applyItem original.values write.values)
          policies :=
            original.policies.overlay (applyMembers applyItem original.policies write.policies) }
      else if write.version.toNat = original.version.toNat + 1 then
        { write with
          groups := applyMembers applyGroup original.groups write.groups
          values := applyMembers applyItem original.values write.values
          policies := applyMembers applyItem original.policies write.policies }
      else original := by
  rw [applyGroup]
  rfl

/-- A bare group at the version of the original changes nothing. -/
theorem applyGroup_bare (original : ConfigGroup) :
    applyGroup original { version := original.version } = original := by
  rw [applyGroup_eq, if_pos rfl]
  cases original
  rfl

end Hfrd.Channel
