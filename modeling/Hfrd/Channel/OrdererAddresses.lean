/-
  Hfrd.Channel.OrdererAddresses

  The orderer addresses of a channel under the three actions, and under any
  other one.
-/

import Hfrd.Channel.GroupResult

namespace Hfrd.Channel

open Hfrd.Go

/-! ## The loops over the addresses -/

theorem contains_eq_none_iff {s : Strings} {e : String} : contains s e = none ↔ e ∉ s.elems := by
  rw [contains, List.findIdx?_eq_none_iff]
  constructor
  · exact fun h hmem => by simpa using h e hmem
  · exact fun h x hx => beq_false_of_ne fun heq => h (heq ▸ hx)

theorem filter_eraseIdx {p : String → Bool} {s : List String} {index : Nat}
    (hlt : index < s.length) (h : p s[index] = false) :
    (s.eraseIdx index).filter p = s.filter p := by
  have hsplit : s.filter p = (s.take index ++ s[index] :: s.drop (index + 1)).filter p := by
    rw [← List.drop_eq_getElem_cons hlt, List.take_append_drop]
  rw [hsplit, List.eraseIdx_eq_take_drop_succ, List.filter_append, List.filter_append,
    List.filter_cons_of_neg (by simp [h])]

/-- The loop of the action `remove` cuts out every occurrence. -/
theorem removeAll_eq (e : String) (s : List String) : removeAll e s = s.filter (· != e) := by
  induction s using removeAll.induct e with
  | case1 s index h ih =>
      obtain ⟨hlt, hfound, -⟩ := List.findIdx?_eq_some_iff_getElem.mp h
      have heq : s[index] = e := eq_of_beq hfound
      rw [removeAll]
      split
      · next index' h' =>
          rw [h] at h'
          cases h'
          rw [ih]
          exact filter_eraseIdx hlt (by rw [heq, bne_self_eq_false])
      · next h' =>
          rw [h] at h'
          cases h'
  | case2 s h =>
      rw [removeAll]
      split
      · next index h' =>
          rw [h] at h'
          cases h'
      · have hnot : e ∉ s := contains_eq_none_iff.mp h
        refine (List.filter_eq_self.mpr fun a ha => bne_iff_ne.mpr ?_).symm
        rintro rfl
        exact hnot ha

theorem foldl_removeAddress (requested : List String) (current : Strings) :
    requested.foldl removeAddress current
      = current.map fun s => s.filter fun a => decide (a ∉ requested) := by
  induction requested generalizing current with
  | nil => simp
  | cons e requested ih =>
      rw [List.foldl_cons, ih, removeAddress, Option.map_map]
      congr 1
      funext s
      rw [Function.comp_apply, removeAll_eq, List.filter_filter]
      refine List.filter_congr fun a _ => ?_
      by_cases h : a = e <;> simp [h]

/-- The loop of the action `add` appends what is not there, each address once. -/
theorem foldl_addAddress_elems (requested : List String) (current : Strings) :
    (requested.foldl addAddress current).elems
      = current.elems ++ (requested.filter fun a => decide (a ∉ current.elems)).eraseDups := by
  induction requested generalizing current with
  | nil => simp
  | cons e requested ih =>
      rw [List.foldl_cons, ih, addAddress]
      split
      · next h =>
          have hnot := contains_eq_none_iff.mp h
          rw [List.filter_cons_of_pos (by simpa using hnot), List.eraseDups_cons,
            List.filter_filter, Strings.append, Strings.elems, Option.getD_some, List.append_assoc]
          refine congrArg (fun l => current.elems ++ e :: List.eraseDups l) ?_
          refine List.filter_congr fun a _ => ?_
          by_cases ha : a = e <;> simp [ha]
      · next h =>
          have hmem : e ∈ current.elems := by
            rw [contains_eq_none_iff] at h
            exact not_not.mp h
          rw [List.filter_cons_of_neg (by simpa using hmem)]

/-! ## The list that is written -/

theorem Strings.decoded_json (s : Strings) : s.json.decoded = s.json := by
  cases s with
  | none => rfl
  | some s =>
      rw [Strings.json, Value.decoded, Value.decodedElements_eq, List.map_map]
      rfl

theorem Strings.json_injective {s t : Strings} (h : s.json = t.json) : s = t := by
  cases s with
  | none =>
      cases t with
      | none => rfl
      | some t => cases h
  | some s =>
      cases t with
      | none => cases h
      | some t =>
          have hstrings : Function.Injective Value.string := fun a b hab => by
            cases hab
            rfl
          rw [Strings.json, Strings.json, Value.array.injEq] at h
          rw [List.map_injective_iff.mpr hstrings h]

/-- The texts differ where the lists do. -/
theorem Strings.text_eq_iff {s t : Strings} : s.json.text = t.json.text ↔ s = t := by
  rw [Go.text_eq_iff, decoded_json, decoded_json]
  exact ⟨json_injective, fun h => by rw [h]⟩

/-! ## The list that is read -/

/-- The addresses that a reader of the config finds. -/
def addressList : Option Value → Option (List String)
  | none => some []
  | some v =>
      match v.decoded with
      | .scalar .null => some []
      | .array elements => elements.mapM Value.string?
      | _ => none

theorem mapM_string (s : List String) : (s.map Value.string).mapM Value.string? = some s := by
  induction s with
  | nil => rfl
  | cons a s ih =>
      rw [List.map_cons, List.mapM_cons, ih]
      rfl

theorem mapM_string?_eq_some {elements : List Value} {s : List String}
    (h : elements.mapM Value.string? = some s) : elements = s.map Value.string := by
  induction elements generalizing s with
  | nil =>
      cases h
      rfl
  | cons v elements ih =>
      rw [List.mapM_cons] at h
      obtain ⟨a, ha, h⟩ := Option.bind_eq_some_iff.mp h
      obtain ⟨t, ht, h⟩ := Option.bind_eq_some_iff.mp h
      cases h
      rw [List.map_cons, ← ih ht, string?_eq_some.mp ha]

theorem addressList_other (s : Strings) : addressList (some (.other s.json)) = some s.elems := by
  rw [addressList, Value.decoded, Strings.decoded_json]
  cases s with
  | none => rfl
  | some s => exact mapM_string s

theorem foldl_append (s : List String) (init : Strings) :
    s.foldl Strings.append init = if s = [] then init else some (init.elems ++ s) := by
  induction s generalizing init with
  | nil => rfl
  | cons a s ih =>
      rw [List.foldl_cons, ih, if_neg (List.cons_ne_nil a s)]
      split
      · next h => rw [h]; rfl
      · rw [Strings.append, Strings.elems, Option.getD_some, List.append_assoc]
        rfl

/-- The slice that a loop of `append` makes of a list. -/
def appended (s : List String) : Strings := if s = [] then none else some s

@[simp] theorem elems_appended (s : List String) : (appended s).elems = s := by
  rw [appended]
  split
  · next h => rw [h]; rfl
  · rfl

theorem readAddresses_eq_some {o : Option Value} {orderers : Strings}
    (h : readAddresses o = some orderers) :
    (o = none ∧ orderers = none) ∨
      ∃ s : List String, o = some (.array (s.map Value.string)) ∧ orderers = appended s := by
  cases o with
  | none =>
      cases h
      exact .inl ⟨rfl, rfl⟩
  | some v =>
      obtain ⟨s, hs, rfl⟩ := Option.map_eq_some_iff.mp h
      obtain ⟨elements, helements, hs⟩ := Option.bind_eq_some_iff.mp hs
      refine .inr ⟨s, ?_, foldl_append s none⟩
      rw [← mapM_string?_eq_some hs]
      cases v with
      | array => cases helements; rfl
      | scalar => cases helements
      | object => cases helements
      | other => cases helements

theorem appended_of_readAddresses {o : Option Value} {orderers : Strings}
    (h : readAddresses o = some orderers) : orderers = appended orderers.elems := by
  rcases readAddresses_eq_some h with ⟨-, rfl⟩ | ⟨s, -, rfl⟩
  · rfl
  · rw [elems_appended]

theorem addressList_of_readAddresses {o : Option Value} {orderers : Strings}
    (h : readAddresses o = some orderers) : addressList o = some orderers.elems := by
  rcases readAddresses_eq_some h with ⟨rfl, rfl⟩ | ⟨s, rfl, rfl⟩
  · rfl
  · have hread : addressList (some (.array (s.map Value.string))) = some s := by
      rw [addressList, Value.decoded, Value.decodedElements_eq, List.map_map]
      exact mapM_string s
    rw [hread, elems_appended]

/-! ## The actions -/

/-- The addresses that an action asks for. -/
def wantedAddresses (action : String) (current requested : List String) :
    Option (List String) :=
  if action = REPLACE_ORDERER_ADDRESS then some requested
  else if action = ADD_ORDERER_ADDRESS then
    some (current ++ (requested.filter fun a => decide (a ∉ current)).eraseDups)
  else if action = REMOVE_ORDERER_ADDRESS then
    some (current.filter fun a => decide (a ∉ requested))
  else none

/-- The actions that the flag allows. -/
def IsAction (action : String) : Prop :=
  action = REPLACE_ORDERER_ADDRESS ∨ action = ADD_ORDERER_ADDRESS ∨
    action = REMOVE_ORDERER_ADDRESS

theorem requestedAddresses_remove (current : Strings) (requested : List String) :
    requestedAddresses REMOVE_ORDERER_ADDRESS current requested
      = current.map fun s => s.filter fun a => decide (a ∉ requested) :=
  foldl_removeAddress requested current

theorem wantedAddresses_of_isAction {action : String} (h : IsAction action) (current : Strings)
    (requested : List String) :
    wantedAddresses action current.elems requested
      = some (requestedAddresses action current requested).elems := by
  rcases h with rfl | rfl | rfl
  · rfl
  · exact congrArg some (foldl_addAddress_elems requested current).symm
  · refine congrArg some ?_
    rw [requestedAddresses_remove]
    cases current <;> rfl

theorem of_not_isAction {action : String} (h : ¬ IsAction action) (current : Strings)
    (requested : List String) :
    requestedAddresses action current requested = none ∧
      wantedAddresses action current.elems requested = none := by
  simp only [IsAction, not_or] at h
  rw [requestedAddresses, wantedAddresses]
  simp only [if_neg h.1, if_neg h.2.1, if_neg h.2.2, and_self]

/-- The addresses of the config that is returned. -/
theorem Steps.addressList_result {parseFloat : String → Except String Number} {group : Fields}
    {options : UpdateOptions} {config : CurrentConfig} {v₁ v₂ v₃ v₄ v₅ : Value}
    {peerOrgUpdate : Bool}
    (h : Steps parseFloat group options config v₁ v₂ v₃ v₄ v₅ peerOrgUpdate)
    (hset : options.ordererAddresses ≠ []) :
    addressList (valueAt v₅ addressesAt) = some (newAddresses config options).elems := by
  obtain ⟨-, -, -, -, -, hread⟩ := getConfig_eq_some_iff.mp h.current
  rw [h.valueAt_addresses]
  split
  · exact addressList_other _
  · next hsame =>
      rw [addressesDiffer, bne_iff_ne.mpr hset, Bool.true_and, bne_iff_ne, not_not,
        Strings.text_eq_iff] at hsame
      rw [← hsame]
      exact addressList_of_readAddresses hread

/-- What an action is to do with the current addresses: the known ones put the
    addresses that they ask for into the config, and any other one is refused or
    leaves them alone. -/
def FollowsAction (parseFloat : String → Except String Number) (group : Fields)
    (options : UpdateOptions) (current : List String) : Prop :=
  match wantedAddresses options.ordererAddressesAction current options.ordererAddresses with
  | some wanted => ∃ group' options',
      updateChannelGroup parseFloat group options = .ok (group', options') ∧
      addressList (valueAt (.object group') addressesAt) = some wanted
  | none =>
      (∃ text, updateChannelGroup parseFloat group options = .error (.error text)) ∨
      ∃ group' options', updateChannelGroup parseFloat group options = .ok (group', options') ∧
        addressList (valueAt (.object group') addressesAt) = some current ∧
        options'.ordererAddressesUpdate = false

section Action

variable {parseFloat : String → Except String Number} {group : Fields} {options : UpdateOptions}
  {current : List String}

/-- What the update does with the addresses, whatever the action is. -/
theorem updateChannelGroup_addresses (h : Updatable parseFloat group options)
    (hcurrent : addressList (valueAt (.object group) addressesAt) = some current)
    (hset : options.ordererAddresses ≠ []) (hflag : options.ordererAddressesUpdate = false) :
    ∃ group' options',
      updateChannelGroup parseFloat group options = .ok (group', options') ∧
      addressList (valueAt (.object group') addressesAt) = some (requestedAddresses
        options.ordererAddressesAction (appended current) options.ordererAddresses).elems ∧
      (options'.ordererAddressesUpdate = false ↔ appended current = requestedAddresses
        options.ordererAddressesAction (appended current) options.ordererAddresses) := by
  obtain ⟨⟨group', options'⟩, hresult⟩ := exists_updateChannelGroup h
  obtain ⟨config, v₁, v₂, v₃, v₄, v₅, flag, w, hsteps, rfl, -, -, hgroup⟩ :=
    updateChannelGroup_result hresult
  obtain ⟨-, -, -, -, -, hread⟩ := getConfig_eq_some_iff.mp hsteps.current
  have horderers : config.orderers = appended current := by
    rw [addressList_of_readAddresses hread] at hcurrent
    rw [← Option.some.inj hcurrent]
    exact appended_of_readAddresses hread
  refine ⟨group', _, hresult, ?_, ?_⟩
  · rw [show addressesAt = "channel_group" :: addressesAt.tail from rfl, hgroup, ← horderers]
    exact hsteps.addressList_result hset
  · rw [flagged, hflag, Bool.false_or, addressesDiffer, bne_iff_ne.mpr hset, Bool.true_and,
      bne_eq_false_iff_eq, Strings.text_eq_iff, newAddresses, horderers]

/-- An unknown action wipes the addresses. -/
theorem followsAction_iff (h : Updatable parseFloat group options)
    (hcurrent : addressList (valueAt (.object group) addressesAt) = some current)
    (hset : options.ordererAddresses ≠ []) (hflag : options.ordererAddressesUpdate = false) :
    FollowsAction parseFloat group options current ↔
      IsAction options.ordererAddressesAction ∨ current = [] := by
  obtain ⟨group', options', hresult, haddresses, hupdate⟩ :=
    updateChannelGroup_addresses h hcurrent hset hflag
  unfold FollowsAction
  by_cases haction : IsAction options.ordererAddressesAction
  · have hwanted := wantedAddresses_of_isAction haction (appended current) options.ordererAddresses
    rw [elems_appended] at hwanted
    rw [hwanted]
    exact ⟨fun _ => .inl haction, fun _ => ⟨group', options', hresult, haddresses⟩⟩
  · obtain ⟨hnone, hwanted⟩ := of_not_isAction haction (appended current) options.ordererAddresses
    rw [elems_appended] at hwanted
    rw [hnone] at haddresses hupdate
    rw [hwanted]
    -- nil is assigned, and nothing is lost only where there was nothing
    constructor
    · rintro (⟨text, herror⟩ | ⟨group'', options'', hok, hlist, -⟩)
      · rw [hresult] at herror
        cases herror
      · rw [hresult] at hok
        cases hok
        rw [haddresses] at hlist
        exact .inr (Option.some.inj hlist).symm
    · rintro (hknown | rfl)
      · exact absurd hknown haction
      · exact .inr ⟨group', options', hresult, haddresses, hupdate.mpr rfl⟩

end Action

/-- A channel with one organization, which has no anchor peers yet. -/
def exampleChannel (addresses : List String) : Fields :=
  [("channel_group", .object [
    ("groups", .object [
      ("Application", .object [("groups", .object [
        ("Org1MSP", .object [("values", .object [])])])]),
      ("Orderer", .object [("values", .object [
        ("BatchSize", .object [("value", .object [
          ("max_message_count", .number ⟨['1', '0'], by decide⟩),
          ("preferred_max_bytes", .number ⟨['5', '1', '2'], by decide⟩)])]),
        ("BatchTimeout", .object [("value", .object [("timeout", .string "2s")])])])])]),
    ("values", .object [("OrdererAddresses", .object [("value", .object [
      ("addresses", .array (addresses.map Value.string))])])])])]

/-- The request of one address, with an action. -/
def exampleOptions (action : String) : UpdateOptions :=
  { mspID := "Org1MSP"
    maxMessageCount := ⟨['2', '0'], by decide⟩
    preferredMaxBytes := ⟨['5', '1', '2'], by decide⟩
    ordererAddressesAction := action
    ordererAddresses := ["orderer1:7050"] }

theorem followsAction_iff_add :
    FollowsAction (fun _ => .error "") (exampleChannel ["orderer0:7050"]) (exampleOptions "add")
        ["orderer0:7050"] ↔
      IsAction "add" ∨ ["orderer0:7050"] = [] :=
  followsAction_iff ⟨rfl, nofun, nofun⟩ rfl (List.cons_ne_nil _ _) rfl

/-- `delete` is no action: the one address of the channel is lost. -/
theorem delete_wipes_addresses :
    ¬ FollowsAction (fun _ => .error "") (exampleChannel ["orderer0:7050"])
        (exampleOptions "delete") ["orderer0:7050"] := by
  rintro (⟨text, herror⟩ | ⟨group', options', hok, -, hflag⟩)
  · cases herror
  · cases hok
    cases hflag

end Hfrd.Channel
