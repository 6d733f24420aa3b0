/-
  Hfrd.Channel.ConfigUpdate

  The config tree of a channel and `Compute`
  (`modules/gosdk/channel/utilities/configtxlator/update.go`): the read set
  and the write set that lead from one config to another.

  A policy or a value of a group is one `ConfigItem`, with its content as a
  parameter; the entries of a group's maps are never nil.
-/

import Hfrd.Go.Map

namespace Hfrd.Channel

open Hfrd.Go

/-! ## Configs -/

/-- A byte slice; a nil slice is not deeply equal to an empty one. -/
abbrev Bytes := Option (List UInt8)

/-- `common.Policy` -/
structure Policy where
  type : Int32 := 0
  value : Bytes := none
  deriving DecidableEq

/-- A member of a group that is no group itself; its content may be nil. -/
structure ConfigItem (Content : Type) where
  version : UInt64 := 0
  content : Option Content := none
  modPolicy : String := ""
  deriving DecidableEq

/-- The content is the field `Policy`. -/
abbrev ConfigPolicy := ConfigItem Policy

/-- The content is the field `Value`. -/
abbrev ConfigValue := ConfigItem (List UInt8)

/-- `common.ConfigGroup` -/
structure ConfigGroup where
  version : UInt64 := 0
  groups : Map ConfigGroup := {}
  values : Map ConfigValue := {}
  policies : Map ConfigPolicy := {}
  modPolicy : String := ""

/-- `common.Config` -/
structure Config where
  sequence : UInt64 := 0
  channelGroup : Option ConfigGroup := none

/-- `common.ConfigUpdate` -/
structure ConfigUpdate where
  channelId : String := ""
  readSet : ConfigGroup
  writeSet : ConfigGroup

theorem sizeOf_groups_lt (g : ConfigGroup) : sizeOf g.groups < sizeOf g := by
  cases g
  simp only [ConfigGroup.mk.sizeOf_spec]
  omega

theorem sizeOf_lt_of_mem {m : Map ConfigGroup} {entry : String × ConfigGroup}
    (h : entry ∈ m.entries) : sizeOf entry.2 < sizeOf m := by
  have hmem := List.sizeOf_lt_of_mem h
  cases m
  cases entry
  simp only [Map.mk.sizeOf_spec, Prod.mk.sizeOf_spec] at hmem ⊢
  omega

theorem sizeOf_lt_of_get? {m : Map ConfigGroup} {name : String} {g : ConfigGroup}
    (h : m.get? name = some g) : sizeOf g < sizeOf m :=
  sizeOf_lt_of_mem (Map.mem_of_get? h)

/-- Induction over the sub-groups. -/
theorem ConfigGroup.induction {motive : ConfigGroup → Prop}
    (h : ∀ g, (∀ name child, g.groups.get? name = some child → motive child) → motive g)
    (g : ConfigGroup) : motive g :=
  h g fun _ child hchild =>
    have : sizeOf child < sizeOf g :=
      Nat.lt_trans (sizeOf_lt_of_get? hchild) (sizeOf_groups_lt g)
    ConfigGroup.induction h child
termination_by sizeOf g

/-! ## The members of a group -/

/-- What the update makes of the members of one kind. -/
structure MapUpdate (α : Type) where
  readSet : Map α := {}
  writeSet : Map α := {}
  sameSet : Map α := {}
  updatedMembers : Bool := false

/-- What the update makes of a member that is in both maps. -/
inductive Change (α : Type) where
  | same (item : α)
  | modified (read : Option α) (write : α)

section Members

variable {α : Type} (compare : α → α → Change α) (added : α → α)

/-- An iteration of the loop over the original members. -/
def originalStep (updated : Map α) (acc : MapUpdate α) (entry : String × α) : MapUpdate α :=
  match updated.get? entry.1 with
  -- a removed member shows in the membership only
  | none => { acc with updatedMembers := true }
  | some item =>
      match compare entry.2 item with
      | .same same => { acc with sameSet := acc.sameSet.insert entry.1 same }
      | .modified none write => { acc with writeSet := acc.writeSet.insert entry.1 write }
      | .modified (some read) write =>
          { acc with
            readSet := acc.readSet.insert entry.1 read
            writeSet := acc.writeSet.insert entry.1 write }

/-- An iteration of the loop over the updated members. -/
def updatedStep (original : Map α) (acc : MapUpdate α) (entry : String × α) : MapUpdate α :=
  -- a member of the original map was already handled
  if (original.get? entry.1).isSome then acc
  else
    { acc with
      updatedMembers := true
      writeSet := acc.writeSet.insert entry.1 (added entry.2) }

/-- The two loops of `compute{Policies,Values,Groups}MapUpdate`. -/
def computeMapUpdate (original updated : Map α) : MapUpdate α :=
  updated.range.foldl (updatedStep added original)
    (original.range.foldl (originalStep compare updated) {})

end Members

section Items

variable {Content : Type} [DecidableEq Content]

/-- What an item of both maps adds to the update. -/
def compareItems (original updated : ConfigItem Content) : Change (ConfigItem Content) :=
  if original.modPolicy = updated.modPolicy ∧ original.content = updated.content then
    .same { version := original.version }
  else
    .modified none { updated with version := original.version + 1 }

/-- An item that is new. -/
def addItem (updated : ConfigItem Content) : ConfigItem Content :=
  { updated with version := 0 }

/-- `computePoliciesMapUpdate` -/
def computePoliciesMapUpdate (original updated : Map ConfigPolicy) : MapUpdate ConfigPolicy :=
  computeMapUpdate compareItems addItem original updated

/-- `computeValuesMapUpdate` -/
def computeValuesMapUpdate (original updated : Map ConfigValue) : MapUpdate ConfigValue :=
  computeMapUpdate compareItems addItem original updated

end Items

/-! ## Groups -/

/-- No kind of members changed its membership, and the mod policy is the same. -/
def ConfigGroup.equal (original updated : ConfigGroup) (policies : MapUpdate ConfigPolicy)
    (values : MapUpdate ConfigValue) (groups : MapUpdate ConfigGroup) : Bool :=
  !(policies.updatedMembers || values.updatedMembers || groups.updatedMembers ||
    original.modPolicy != updated.modPolicy)

/-- No entries were modified in any of the maps. -/
def noneModified (policies : MapUpdate ConfigPolicy) (values : MapUpdate ConfigValue)
    (groups : MapUpdate ConfigGroup) : Bool :=
  policies.readSet.len == 0 && policies.writeSet.len == 0 &&
  values.readSet.len == 0 && values.writeSet.len == 0 &&
  groups.readSet.len == 0 && groups.writeSet.len == 0

mutual

-- `attach` and `_h` serve the termination proof: a member is smaller than its map
/-- `computeGroupsMapUpdate` -/
def computeGroupsMapUpdate (original updated : Map ConfigGroup) : MapUpdate ConfigGroup :=
  updated.range.attach.foldl
    (fun acc entry =>
      if (original.get? entry.val.1).isSome then acc
      else
        let writeSet := (computeGroupUpdate {} entry.val.2).2.1
        { acc with
          updatedMembers := true
          writeSet := acc.writeSet.insert entry.val.1
            { version := 0
              modPolicy := entry.val.2.modPolicy
              policies := writeSet.policies
              values := writeSet.values
              groups := writeSet.groups } })
    (original.range.foldl
      (fun acc entry =>
        match _h : updated.get? entry.1 with
        | none => { acc with updatedMembers := true }
        | some updatedGroup =>
            match computeGroupUpdate entry.2 updatedGroup with
            | (readSet, _, false) =>
                { acc with sameSet := acc.sameSet.insert entry.1 readSet }
            | (readSet, writeSet, true) =>
                { acc with
                  readSet := acc.readSet.insert entry.1 readSet
                  writeSet := acc.writeSet.insert entry.1 writeSet })
      {})
termination_by sizeOf updated
decreasing_by
  · exact sizeOf_lt_of_get? (Map.mem_range.mp entry.property)
  · exact sizeOf_lt_of_get? (by assumption)

/-- `computeGroupUpdate` -/
def computeGroupUpdate (original updated : ConfigGroup) : ConfigGroup × ConfigGroup × Bool :=
  let policies := computePoliciesMapUpdate original.policies updated.policies
  let values := computeValuesMapUpdate original.values updated.values
  let groups := computeGroupsMapUpdate original.groups updated.groups
  if original.equal updated policies values groups then
    -- the membership is the same: the sets hold what differs below
    if noneModified policies values groups then
      ({ version := original.version }, { version := original.version }, false)
    else
      ({ version := original.version
         policies := policies.readSet
         values := values.readSet
         groups := groups.readSet },
        { version := original.version
          policies := policies.writeSet
          values := values.writeSet
          groups := groups.writeSet },
        true)
  else
    -- the members that are the same join both sets
    ({ version := original.version
       policies := policies.readSet.insertAll policies.sameSet
       values := values.readSet.insertAll values.sameSet
       groups := groups.readSet.insertAll groups.sameSet },
      { version := original.version + 1
        policies := policies.writeSet.insertAll policies.sameSet
        values := values.writeSet.insertAll values.sameSet
        groups := groups.writeSet.insertAll groups.sameSet
        modPolicy := updated.modPolicy },
      true)
termination_by sizeOf updated
decreasing_by exact sizeOf_groups_lt updated

end

/-- What the update makes of a group that is in both maps. -/
def compareGroups (original updated : ConfigGroup) : Change ConfigGroup :=
  match computeGroupUpdate original updated with
  | (readSet, _, false) => .same readSet
  | (readSet, writeSet, true) => .modified (some readSet) writeSet

/-- What the update makes of a new group. -/
def addGroup (updated : ConfigGroup) : ConfigGroup :=
  { (computeGroupUpdate {} updated).2.1 with version := 0, modPolicy := updated.modPolicy }

/-- The groups map is updated as the other maps are. -/
theorem computeGroupsMapUpdate_eq (original updated : Map ConfigGroup) :
    computeGroupsMapUpdate original updated
      = computeMapUpdate compareGroups addGroup original updated := by
  rw [computeGroupsMapUpdate, computeMapUpdate, ← List.foldl_attach (l := updated.range)]
  congr 2
  funext acc entry
  unfold originalStep compareGroups
  split
  · next h => simp only [h]
  · next h =>
      simp only [h]
      split <;> rfl

/-- The error of an update that changes nothing. -/
def NO_DIFFERENCES : String :=
  "no differences detected between original and updated config"

/-- `Compute` -/
def compute (original updated : Config) : Except String ConfigUpdate :=
  match original.channelGroup, updated.channelGroup with
  | none, _ => .error "no channel group included for original config"
  | some _, none => .error "no channel group included for updated config"
  | some original, some updated =>
      match computeGroupUpdate original updated with
      | (_, _, false) => .error NO_DIFFERENCES
      | (readSet, writeSet, true) => .ok { readSet := readSet, writeSet := writeSet }

end Hfrd.Channel
