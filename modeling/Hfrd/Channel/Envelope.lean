/-
  Hfrd.Channel.Envelope

  The text of an update envelope (`CreateUpdateEnvelope` and
  `CreateNewOrgEnvelope` of `modules/gosdk/channel/utilities/channel.go`, the
  types of `types.go`): the wrapper is encoded, null members are cut out of the
  text, and the keys of the wrapper are replaced by their lower case wherever
  they occur.

  The config update in the text is the one that was put in exactly when none of
  the keys occurs in it or in the channel id, and no null member has a key that
  ends in a quote and the name of a member that is cut out.
-/

import Hfrd.Go.JsonWords

namespace Hfrd.Channel

open Hfrd.Go Hfrd.Lib

/-! ## The wrapper -/

namespace Envelope

/-- The struct `ChannelHeader`. -/
structure ChannelHeader where
  channelID : String
  type : String

/-- The struct `Header`. -/
structure Header where
  channelHeader : ChannelHeader

/-- The struct `Data`. -/
structure Data where
  configUpdate : ObjectValue

/-- The struct `Payload`. -/
structure Payload where
  header : Header
  data : Data

/-- The struct `ConfigUpdate`. -/
structure ConfigUpdate where
  payload : Payload

/-- The wrapper as `encoding/json` sees it: members have the names of the
    fields, in their order. -/
def ConfigUpdate.json (envelope : ConfigUpdate) : Value :=
  .object [("Payload", .object [
    ("Header", .object [
      ("Channel_header", .object [
        ("Channel_id", .string envelope.payload.header.channelHeader.channelID),
        ("Type", .string envelope.payload.header.channelHeader.type)])]),
    ("Data", .object [
      ("Config_update", .object envelope.payload.data.configUpdate.fields)])])]

end Envelope

/-! ## The text -/

/-- `lowercaseStringWithKeys` -/
def lowercaseStringWithKeys (original : List Char) (keys : List String) : List Char :=
  keys.foldl (fun original key =>
    replaceAll key.toList (key.toList.map Char.toLower) original) original

/-- The keys that are put into lower case. -/
def replaceKeys : List String :=
  ["Payload", "Header", "Channel_header", "Data", "Config_update", "Type", "Channel_id"]

/-- The value that is marshalled. -/
def configUpdateEnvelope (channelID : String) (configUpdate : ObjectValue) :
    Envelope.ConfigUpdate :=
  ⟨⟨⟨⟨channelID, "2"⟩⟩, ⟨configUpdate⟩⟩⟩

/-- The envelope's text; `nullNames` are the names of the null members that are
    cut out. -/
def cuestring (nullNames : List String) (channelID : String) (configUpdate : ObjectValue) :
    List Char :=
  lowercaseStringWithKeys
    (removeNullMembers nullNames (configUpdateEnvelope channelID configUpdate).json.indented)
    replaceKeys

/-- The text of `CreateUpdateEnvelope`. -/
def updateEnvelope : String → ObjectValue → List Char := cuestring ["value", "policy"]

/-- The text of `CreateNewOrgEnvelope`. -/
def newOrgEnvelope : String → ObjectValue → List Char :=
  cuestring ["value", "policy", "signing_identity"]

/-! ## What is read from the text -/

/-- The envelope that is to be read from the text. -/
def envelopeValue (channelID : String) (configUpdate : Fields) : Value :=
  .object [("payload", .object [
    ("data", .object [("config_update", .object configUpdate)]),
    ("header", .object [("channel_header", .object [
      ("channel_id", .string channelID), ("type", .string "2")])])])]

/-- A text from which the channel id and the config update are read as they
    were put in, but for null members of the names that another member
    followed. -/
def Keeps (text : List Char) (nullNames : List String) (channelID : String)
    (configUpdate : ObjectValue) : Prop :=
  unmarshal text = some (envelopeValue channelID
    (Value.withoutNullsFields nullNames configUpdate.fields))

/-- A string with the name of a member of the wrapper in it. -/
def HoldsKey (s : String) : Prop := ∃ key ∈ replaceKeys, key.toList <:+: s.toList

/-- What the rewriting of the text does not touch. -/
structure Untouched (nullNames : List String) (channelID : String) (configUpdate : ObjectValue) :
    Prop where
  channelID : ¬ HoldsKey channelID
  strings : ∀ s ∈ Value.fieldStrings configUpdate.fields, ¬ HoldsKey s
  nullKeys : ∀ name ∈ nullNames, NotQuoted name (Value.fieldNullKeys configUpdate.fields)

/-! ## Lower case -/

/-- A key of the wrapper: letters and underscores, the first one upper case,
    and lower case once it is replaced. -/
def isWord (key : String) : Bool :=
  key.toList.head?.any Char.isUpper && key.toList.all isPlain &&
    (key.toList.map Char.toLower).all fun c => isPlain c && !c.isUpper

theorem isWord_replaceKeys : ∀ key ∈ replaceKeys, isWord key = true := by decide

theorem exists_of_isWord {key : String} (h : isWord key = true) :
    ∃ o word, key.toList = o :: word ∧ o.isUpper = true ∧ (∀ c ∈ o :: word, isPlain c = true) ∧
      (∀ c ∈ key.toList.map Char.toLower, isPlain c = true) ∧
      ∀ c ∈ key.toList.map Char.toLower, c.isUpper = false := by
  rw [isWord, Bool.and_eq_true, Bool.and_eq_true, List.all_eq_true, List.all_eq_true] at h
  obtain ⟨⟨hhead, hplain⟩, hlower⟩ := h
  cases hkey : key.toList with
  | nil =>
      rw [hkey] at hhead
      cases hhead
  | cons o word =>
      rw [hkey] at hhead hplain hlower
      simp only [Bool.and_eq_true, Bool.not_eq_true'] at hlower
      exact ⟨o, word, rfl, hhead, hplain, fun c hc => (hlower c hc).1, fun c hc => (hlower c hc).2⟩

theorem lowercaseStringWithKeys_cons (original : List Char) (key : String) (keys : List String) :
    lowercaseStringWithKeys original (key :: keys) = lowercaseStringWithKeys
      (replaceAll key.toList (key.toList.map Char.toLower) original) keys := rfl

theorem lowercaseStringWithKeys_eq_self {keys : List String} {s : List Char}
    (h : ∀ key ∈ keys, ¬ key.toList <:+: s) : lowercaseStringWithKeys s keys = s := by
  induction keys with
  | nil => rfl
  | cons key keys ih =>
      obtain ⟨hkey, hkeys⟩ := List.forall_mem_cons.mp h
      rw [lowercaseStringWithKeys_cons, replaceAll_eq_self hkey, ih hkeys]

theorem countP_lowercaseStringWithKeys_le {keys : List String}
    (hkeys : ∀ key ∈ keys, isWord key = true) (s : List Char) :
    (lowercaseStringWithKeys s keys).countP Char.isUpper ≤ s.countP Char.isUpper := by
  induction keys generalizing s with
  | nil => exact Nat.le_refl _
  | cons key keys ih =>
      obtain ⟨hkey, hrest⟩ := List.forall_mem_cons.mp hkeys
      obtain ⟨o, word, hword, -, -, -, hlower⟩ := exists_of_isWord hkey
      refine (ih hrest _).trans (countP_isUpper_replaceAll_le ?_ hlower s)
      rw [hword]
      exact List.cons_ne_nil o word

/-- A string with a key in it loses upper case letters. -/
theorem countP_lowercaseStringWithKeys_lt {keys : List String}
    (hkeys : ∀ key ∈ keys, isWord key = true) {s : List Char}
    (h : ∃ key ∈ keys, key.toList <:+: s) :
    (lowercaseStringWithKeys s keys).countP Char.isUpper < s.countP Char.isUpper := by
  induction keys with
  | nil =>
      obtain ⟨key, hkey, -⟩ := h
      cases hkey
  | cons key keys ih =>
      obtain ⟨hkey, hrest⟩ := List.forall_mem_cons.mp hkeys
      rw [lowercaseStringWithKeys_cons]
      by_cases hfound : key.toList <:+: s
      · obtain ⟨o, word, hword, ho, -, -, hlower⟩ := exists_of_isWord hkey
        rw [hword] at hfound
        refine (countP_lowercaseStringWithKeys_le hrest _).trans_lt ?_
        rw [hword] at hlower ⊢
        exact countP_isUpper_replaceAll_lt ho hlower hfound
      · rw [replaceAll_eq_self hfound]
        refine ih hrest ?_
        obtain ⟨key', hkey', hinf⟩ := h
        rcases List.mem_cons.mp hkey' with rfl | hkey'
        · exact absurd hinf hfound
        · exact ⟨key', hkey', hinf⟩

theorem infix_lowercaseStringWithKeys {keys : List String}
    (hkeys : ∀ key ∈ keys, isWord key = true) {s : List Char} (h : ['\\', '\t'] <:+: s) :
    ['\\', '\t'] <:+: lowercaseStringWithKeys s keys := by
  induction keys generalizing s with
  | nil => exact h
  | cons key keys ih =>
      obtain ⟨hkey, hrest⟩ := List.forall_mem_cons.mp hkeys
      obtain ⟨o, word, hword, -, hplain, -, -⟩ := exists_of_isWord hkey
      have hno : ∀ c, isPlain c = false → c ∉ key.toList := fun c hc hmem =>
        absurd (hplain c (hword ▸ hmem)) (by rw [hc]; exact Bool.false_ne_true)
      refine ih hrest (infix_replaceAll ?_ (hno '\\' (by decide)) (hno '\t' (by decide)) h _)
      rw [hword]
      exact List.cons_ne_nil o word

/-- What becomes of a string of the wrapper. -/
def lowered (keys : List String) (s : String) : String :=
  String.ofList (lowercaseStringWithKeys s.toList keys)

theorem lowercaseStringWithKeys_render {keys : List String}
    (hkeys : ∀ key ∈ keys, isWord key = true) (ls : Lines) :
    lowercaseStringWithKeys (render ls) keys = render (mapLines (lowered keys) ls) := by
  induction keys generalizing ls with
  | nil =>
      have hid : mapLines (lowered []) ls = ls :=
        mapLines_of_fixed (fun s => String.ofList_toList) ls
      rw [hid]
      rfl
  | cons key keys ih =>
      obtain ⟨hkey, hrest⟩ := List.forall_mem_cons.mp hkeys
      obtain ⟨o, word, hword, ho, hplain, hnew, -⟩ := exists_of_isWord hkey
      have hpass := replaceAll_render ho hplain hnew ls
      rw [← hword] at hpass
      rw [lowercaseStringWithKeys_cons, hpass, ih hrest, mapLines_mapLines]
      refine congrArg (fun f => render (mapLines f ls)) (funext fun s => ?_)
      rw [lowered, lowered, replaceWord, String.toList_ofList, lowercaseStringWithKeys_cons]

/-! ## The text with its null members cut out -/

/-- What the names of the null members have in common: they are written as they
    are, and hold no key of the wrapper. -/
structure MemberName (name : String) : Prop where
  plain : ∀ c ∈ name.toList, isPlain c = true
  noKey : ¬ HoldsKey name

theorem memberName_of_mem {name : String} (h : name ∈ ["value", "policy", "signing_identity"]) :
    MemberName name := by
  simp only [List.mem_cons, List.not_mem_nil, or_false] at h
  rcases h with rfl | rfl | rfl
  · exact ⟨List.all_eq_true.mp (by decide), by unfold HoldsKey; decide⟩
  · exact ⟨List.all_eq_true.mp (by decide), by unfold HoldsKey; decide⟩
  · exact ⟨List.all_eq_true.mp (by decide), by unfold HoldsKey; decide⟩

section Wrapper

variable {nullNames : List String} (channelID : String) (configUpdate : ObjectValue)

theorem lineNullKeys_json :
    lineNullKeys ((configUpdateEnvelope channelID configUpdate).json.lines 0 none false)
      = Value.fieldNullKeys configUpdate.fields := by
  rw [Value.lineNullKeys_lines]
  simp [Envelope.ConfigUpdate.json, configUpdateEnvelope, Value.nullKeys, Value.fieldNullKeys,
    Value.isNull]

theorem mapStrings_json (f : String → String) :
    ((configUpdateEnvelope channelID configUpdate).json.withoutNulls nullNames).mapStrings f
      = .object [(f "Payload", .object [
          (f "Header", .object [(f "Channel_header", .object [
            (f "Channel_id", .string (f channelID)), (f "Type", .string (f "2"))])]),
          (f "Data", .object [(f "Config_update", .object
            (Value.mapStringsFields f
              (Value.withoutNullsFields nullNames configUpdate.fields)))])])] := by
  simp [Envelope.ConfigUpdate.json, configUpdateEnvelope, Value.withoutNulls,
    Value.withoutNullsFields, Value.mapStrings, Value.mapStringsFields, Value.isNull,
    Scalar.mapStrings]

/-- The members are assigned in the order of their keys. -/
theorem assigned_json (id : String) (fields : Fields) :
    (Value.object [("payload", .object [
        ("header", .object [("channel_header", .object [
          ("channel_id", .string id), ("type", .string "2")])]),
        ("data", .object [("config_update", .object fields)])])]).assigned
      = envelopeValue id (Value.assignedFields [] fields) := by
  have hid : "channel_id" < "type" := String.lt_iff_toList_lt.mpr (by decide)
  have hdata : "data" < "header" := String.lt_iff_toList_lt.mpr (by decide)
  have hnlt : ¬ "type" < "channel_id" := not_lt_of_gt hid
  simp [Value.assigned, Value.assignedFields, setField, hnlt, hdata, envelopeValue]

/-- What is read where the null members are cut out as they should be. -/
theorem unmarshal_cuestring (hnames : ∀ name ∈ nullNames, MemberName name)
    (hkeys : ∀ name ∈ nullNames, NotQuoted name (Value.fieldNullKeys configUpdate.fields)) :
    unmarshal (cuestring nullNames channelID configUpdate)
      = some (envelopeValue (lowered replaceKeys channelID) (Value.assignedFields []
          (Value.mapStringsFields (lowered replaceKeys)
            (Value.withoutNullsFields nullNames configUpdate.fields)))) := by
  set json := (configUpdateEnvelope channelID configUpdate).json with hjson
  set f := lowered replaceKeys with hf
  have hlineKeys : ∀ name ∈ nullNames, NotQuoted name (lineNullKeys (json.lines 0 none false)) := by
    rwa [hjson, lineNullKeys_json]
  obtain ⟨ls, htext, hls⟩ := removeNullMembers_render (fun name hname => (hnames name hname).plain)
    (json.lines_ne_nil 0 none false) (Value.indented_lines (List.cons_ne_nil _ _) none) hlineKeys
  -- the lines that are left are those of the rewritten wrapper
  have hvalue : (mapLines f ls).map Prod.snd
      = (((json.withoutNulls nullNames).mapStrings f).lines 0 none false).map Prod.snd := by
    have hmapped := (json.withoutNulls nullNames).lines_mapStrings f 0 none false
    rw [Option.map_none] at hmapped
    rw [hmapped, Value.lines_withoutNulls nullNames json 0 none false rfl, map_snd_mapLines, hls,
      map_snd_mapLines]
  have htokens : lineTokens (mapLines f ls)
      = ((json.withoutNulls nullNames).mapStrings f).tokens := by
    rw [lineTokens_eq, hvalue, ← lineTokens_eq, Value.lineTokens_lines]
    simp [keyTokens, commaTokens]
  rw [cuestring, Value.indented, htext, lowercaseStringWithKeys_render isWord_replaceKeys,
    unmarshal, parse_render htokens, Value.decoded_mapStrings, hjson, mapStrings_json,
    Option.map_some]
  exact congrArg some (assigned_json _ _)

/-- A key that ends in a quote and a name leaves no JSON. -/
theorem unmarshal_cuestring_broken (hnames : ∀ name ∈ nullNames, MemberName name)
    (hkeys : ¬ ∀ name ∈ nullNames, NotQuoted name (Value.fieldNullKeys configUpdate.fields)) :
    unmarshal (cuestring nullNames channelID configUpdate) = none := by
  have hbroken := removeNullMembers_broken (fun name hname => (hnames name hname).plain)
    (Value.lines_ne_nil _ 0 none false) (Value.indented_lines (List.cons_ne_nil _ _) none)
    (by rwa [← lineNullKeys_json channelID configUpdate] at hkeys)
  have hscan : scan .out (cuestring nullNames channelID configUpdate) = none :=
    scan_eq_none (infix_lowercaseStringWithKeys isWord_replaceKeys hbroken) .out
  rw [unmarshal, parse, hscan]
  rfl

end Wrapper

/-! ## When nothing is touched -/

theorem lowered_of_not_holdsKey {s : String} (h : ¬ HoldsKey s) : lowered replaceKeys s = s := by
  have hno : ∀ key ∈ replaceKeys, ¬ key.toList <:+: s.toList :=
    fun key hkey hinf => h ⟨key, hkey, hinf⟩
  rw [lowered, lowercaseStringWithKeys_eq_self hno, String.ofList_toList]

theorem upperCount_lowered (s : String) :
    upperCount (lowered replaceKeys s)
      = (lowercaseStringWithKeys s.toList replaceKeys).countP Char.isUpper := by
  rw [upperCount, lowered, String.toList_ofList]

theorem upperCount_lowered_le (s : String) : upperCount (lowered replaceKeys s) ≤ upperCount s := by
  rw [upperCount_lowered]
  exact countP_lowercaseStringWithKeys_le isWord_replaceKeys s.toList

/-- A string that holds a key does not keep its upper case letters. -/
theorem not_holdsKey_of_upperCount {s : String}
    (h : upperCount (lowered replaceKeys s) = upperCount s) : ¬ HoldsKey s := by
  intro hkey
  have hlt := countP_lowercaseStringWithKeys_lt isWord_replaceKeys hkey
  rw [← upperCount_lowered, h] at hlt
  exact Nat.lt_irrefl _ hlt

section Keeps

variable {nullNames : List String} (channelID : String) (configUpdate : ObjectValue)

theorem keeps_of_untouched (hnames : ∀ name ∈ nullNames, MemberName name)
    (h : Untouched nullNames channelID configUpdate) :
    Keeps (cuestring nullNames channelID configUpdate) nullNames channelID configUpdate := by
  set fields := Value.withoutNullsFields nullNames configUpdate.fields with hfields
  -- no string of the map is replaced, and its keys are in order already
  have hobject : (Value.object configUpdate.fields).withoutNulls nullNames = .object fields := rfl
  have hmapped : (Value.object fields).mapStrings (lowered replaceKeys) = .object fields := by
    rw [← hobject, Value.mapStrings_of_fixed fun s hs => ?_, Value.decoded_withoutNulls]
    exact lowered_of_not_holdsKey (h.strings s ((Value.mem_strings_withoutNulls _ _).1 hs))
  have hassigned := assigned_eq (configUpdate.wellFormed.withoutNulls nullNames)
  rw [hobject, Value.assigned, Value.object.injEq] at hassigned
  rw [Value.mapStrings, Value.object.injEq] at hmapped
  rw [Keeps, unmarshal_cuestring _ _ hnames h.nullKeys, lowered_of_not_holdsKey h.channelID,
    ← hfields, hmapped, hassigned]

/-- What was read as it was put in had no string changed: the upper case letters
    are all there. -/
theorem untouched_of_keeps (hnames : ∀ name ∈ nullNames, MemberName name)
    (h : Keeps (cuestring nullNames channelID configUpdate) nullNames channelID configUpdate) :
    Untouched nullNames channelID configUpdate := by
  have hkeys : ∀ name ∈ nullNames, NotQuoted name (Value.fieldNullKeys configUpdate.fields) := by
    by_contra hkeys
    rw [Keeps, unmarshal_cuestring_broken _ _ hnames hkeys] at h
    cases h
  rw [Keeps, unmarshal_cuestring _ _ hnames hkeys, Option.some.injEq] at h
  set fields := Value.withoutNullsFields nullNames configUpdate.fields with hfields
  simp only [envelopeValue, Value.object.injEq, List.cons.injEq, Prod.mk.injEq, Value.string,
    Value.scalar.injEq, Scalar.string.injEq, and_true, true_and] at h
  obtain ⟨hassigned, hid⟩ := h
  -- no replacement adds an upper case letter, and reading drops members at most
  have hle := ((Value.object fields).mapStrings (lowered replaceKeys)).upperCount_assigned_le
  rw [Value.mapStrings, Value.assigned, hassigned, Value.upperCount, Value.upperCount,
    ← Value.mapStrings, Value.strings_mapStrings] at hle
  have hsame := eq_of_sum_upperCount_le upperCount_lowered_le hle
  refine ⟨not_holdsKey_of_upperCount (congrArg upperCount hid), fun s hs => ?_, hkeys⟩
  rcases (Value.mem_strings_withoutNulls nullNames (.object configUpdate.fields)).2 hs with hs | hs
  · exact not_holdsKey_of_upperCount (hsame s hs)
  · exact (hnames s hs).noKey

theorem keeps_iff (hnames : ∀ name ∈ nullNames, MemberName name) :
    Keeps (cuestring nullNames channelID configUpdate) nullNames channelID configUpdate
      ↔ Untouched nullNames channelID configUpdate :=
  ⟨untouched_of_keeps channelID configUpdate hnames,
    keeps_of_untouched channelID configUpdate hnames⟩

/-- The envelope of an update, and that of a new organization, hold the config
    update and the channel id as they were put in exactly where the rewriting of
    the text touches neither. -/
theorem updateEnvelope_keeps_iff :
    (Keeps (updateEnvelope channelID configUpdate) ["value", "policy"] channelID configUpdate
      ↔ Untouched ["value", "policy"] channelID configUpdate) ∧
    (Keeps (newOrgEnvelope channelID configUpdate) ["value", "policy", "signing_identity"]
        channelID configUpdate
      ↔ Untouched ["value", "policy", "signing_identity"] channelID configUpdate) := by
  constructor
  · refine keeps_iff channelID configUpdate fun name hname => memberName_of_mem ?_
    exact List.mem_append_left ["signing_identity"] hname
  · exact keeps_iff channelID configUpdate fun name hname => memberName_of_mem hname

end Keeps

/-- An update that adds an organization to the application group. -/
def organizationFields (name : String) : Fields :=
  [("channel_id", .string "mychannel"),
    ("write_set", .object [("groups", .object [("Application", .object [
      ("groups", .object [(name, .object [("mod_policy", .string "Admins")])])])])])]

/-- An update that adds an organization. -/
def organizationUpdate (name : String) : ObjectValue where
  fields := organizationFields name
  wellFormed := .pair "channel_id" "write_set" (by decide) (.scalar _)
    (.single _ (.single _ (.single _ (.single _ (.single _ (.scalar _))))))

/-- An organization with `Data` in its name is given another name. -/
theorem organization_is_renamed :
    unmarshal (updateEnvelope "mychannel" (organizationUpdate "DataOrg1"))
        = some (envelopeValue "mychannel" (organizationFields "dataOrg1")) ∧
      unmarshal (newOrgEnvelope "mychannel" (organizationUpdate "DataOrg1"))
        = some (envelopeValue "mychannel" (organizationFields "dataOrg1")) ∧
      ¬ Keeps (updateEnvelope "mychannel" (organizationUpdate "DataOrg1")) ["value", "policy"]
        "mychannel" (organizationUpdate "DataOrg1") ∧
      ¬ Keeps (newOrgEnvelope "mychannel" (organizationUpdate "DataOrg1"))
        ["value", "policy", "signing_identity"] "mychannel" (organizationUpdate "DataOrg1") := by
  -- the replacements lower the `Data` in the name
  have hread : ∀ nullNames, (∀ name ∈ nullNames, MemberName name) →
      unmarshal (cuestring nullNames "mychannel" (organizationUpdate "DataOrg1"))
        = some (envelopeValue "mychannel" (organizationFields "dataOrg1")) := by
    intro nullNames hnames
    have hnull : Value.fieldNullKeys (organizationUpdate "DataOrg1").fields = [] := rfl
    rw [unmarshal_cuestring _ _ hnames fun name _ key hkey =>
      absurd (hnull ▸ hkey) List.not_mem_nil]
    refine congrArg some (congrArg₂ envelopeValue rfl ?_)
    have hmapped : Value.mapStringsFields (lowered replaceKeys)
        (Value.withoutNullsFields nullNames (organizationUpdate "DataOrg1").fields)
          = (organizationUpdate "dataOrg1").fields := by
      rfl
    have hassigned := assigned_eq (organizationUpdate "dataOrg1").wellFormed
    rw [Value.assigned, Value.object.injEq] at hassigned
    rw [hmapped, hassigned]
    rfl
  have hheld : HoldsKey "DataOrg1" := ⟨"Data", by decide, by decide⟩
  have hmem : "DataOrg1" ∈ Value.fieldStrings (organizationUpdate "DataOrg1").fields := by
    simp [organizationUpdate, organizationFields, Value.fieldStrings, Value.strings, Scalar.strings]
  have htwo : ∀ name ∈ ["value", "policy"], MemberName name := fun name hname =>
    memberName_of_mem (List.mem_append_left ["signing_identity"] hname)
  refine ⟨hread _ htwo, hread _ fun _ => memberName_of_mem, fun h => ?_, fun h => ?_⟩
  -- what is kept has no key in its strings, but this name has one
  · exact (untouched_of_keeps _ _ htwo h).strings _ hmem hheld
  · exact (untouched_of_keeps _ _ (fun _ => memberName_of_mem) h).strings _ hmem hheld

end Hfrd.Channel
