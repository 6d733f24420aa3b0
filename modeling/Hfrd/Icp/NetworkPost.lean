/-
  Hfrd.Icp.NetworkPost

  The configuration of an ICP network: scripts/icp/networkPost.py fills
  scripts/icp/config.tpl (both in backend/jenkins/pipelines) with the values of
  a network spec.

  Each placeholder is replaced in the whole text, one after the other, so a
  placeholder is also replaced in the values of those before it.

  The script runs under Python 2.7 (the `python` of bxbox_alpine), where a value
  that is not ASCII is a `unicode`: `str` of it raises a UnicodeEncodeError, and
  so does the `write` of a text it has got into.
-/

import Hfrd.Lib.ReplaceEach
import Hfrd.Lib.Split
import Mathlib.Data.List.Nodup

namespace Hfrd.Icp

open Hfrd.Lib

/-! ## The network spec -/

/-- What `yaml.load` gives: `other` is a value that is neither a string nor a
    dictionary, with its `str`. -/
inductive Node where
  | none
  | text (value : List Char)
  | other (str : List Char)
  | dict (members : List (String × Node))

/-- `getDictKey`; no result is the AttributeError of a value that has no `get`. -/
def getDictKey : Node → List String → Option Node
  | interDict, [] => some interDict
  | .dict members, key :: keys =>
      match (members.lookup key).getD .none with
      | .none => some (.text [])
      | interDict => getDictKey interDict keys
  | _, _ :: _ => Option.none

/-- One of the replacements: the placeholder, the path of its value, and whether
    the value goes through `str`. -/
structure Replacement where
  placeholder : String
  keys : List String
  str : Bool
  deriving DecidableEq

/-- The replacements, in the order of the script. -/
def replacements : List Replacement := [
  -- icp related config
  ⟨"cluster_ip", ["icp", "cluster_ip"], false⟩,
  ⟨"proxy_ip", ["icp", "proxy_ip"], false⟩,
  ⟨"namespace", ["icp", "namespace"], false⟩,
  ⟨"storage_class", ["icp", "storage_class"], false⟩,
  ⟨"user", ["icp", "user"], false⟩,
  ⟨"password", ["icp", "password"], false⟩,
  -- helm related config
  ⟨"helm_branch", ["helm_branch"], false⟩,
  -- network topology related config
  ⟨"name", ["network", "name"], false⟩,
  ⟨"fabric_version", ["network", "fabric_version"], false⟩,
  ⟨"arch", ["network", "arch"], false⟩,
  ⟨"num_orderers", ["network", "orderer", "num_orderers"], true⟩,
  ⟨"num_orgs", ["network", "peer", "num_orgs"], true⟩,
  ⟨"peers_per_org", ["network", "peer", "peers_per_org"], true⟩,
  -- image repo related config
  ⟨"ca_image_repo", ["images_repo", "ca", "image_repo"], false⟩,
  ⟨"ca_tag", ["images_repo", "ca", "tag"], false⟩,
  ⟨"ca_init_image_repo", ["images_repo", "ca", "init_image_repo"], false⟩,
  ⟨"ca_init_tag", ["images_repo", "ca", "init_image_tag"], false⟩,
  ⟨"orderer_image_repo", ["images_repo", "orderer", "image_repo"], false⟩,
  ⟨"orderer_tag", ["images_repo", "orderer", "tag"], false⟩,
  ⟨"orderer_init_image_repo", ["images_repo", "orderer", "init_image_repo"], false⟩,
  ⟨"orderer_init_tag", ["images_repo", "orderer", "init_image_tag"], false⟩,
  ⟨"peer_image_repo", ["images_repo", "peer", "image_repo"], false⟩,
  ⟨"peer_tag", ["images_repo", "peer", "tag"], false⟩,
  ⟨"peer_dind_image_repo", ["images_repo", "peer", "dind_image_repo"], false⟩,
  ⟨"peer_dind_tag", ["images_repo", "peer", "dind_image_tag"], false⟩,
  ⟨"peer_init_image_repo", ["images_repo", "peer", "init_image_repo"], false⟩,
  ⟨"peer_init_tag", ["images_repo", "peer", "init_image_tag"], false⟩,
  -- ca, orderer, peer pod resource related configurations
  ⟨"ca_cpu", ["network", "ca", "cpu"], true⟩,
  ⟨"ca_c_limit", ["network", "ca", "cpu_limit"], true⟩,
  ⟨"ca_memory", ["network", "ca", "memory"], true⟩,
  ⟨"ca_m_limit", ["network", "ca", "memory_limit"], true⟩,
  ⟨"orderer_cpu", ["network", "orderer", "cpu"], true⟩,
  ⟨"orderer_c_limit", ["network", "orderer", "cpu_limit"], true⟩,
  ⟨"orderer_memory", ["network", "orderer", "memory"], true⟩,
  ⟨"orderer_m_limit", ["network", "orderer", "memory_limit"], true⟩,
  ⟨"peer_cpu", ["network", "peer", "cpu"], true⟩,
  ⟨"peer_c_limit", ["network", "peer", "cpu_limit"], true⟩,
  ⟨"peer_memory", ["network", "peer", "memory"], true⟩,
  ⟨"peer_m_limit", ["network", "peer", "memory_limit"], true⟩,
  -- orderer settings
  ⟨"max_batch_timeout", ["orderer_settings", "max_batch_timeout"], true⟩,
  ⟨"max_message_count", ["orderer_settings", "batch_size", "max_message_count"], true⟩,
  ⟨"absolute_max_bytes", ["orderer_settings", "batch_size", "absolute_max_bytes"], true⟩,
  ⟨"preferred_max_bytes", ["orderer_settings", "batch_size", "preferred_max_bytes"], true⟩]

/-- The lines of config.tpl: a variable and the placeholder of its value. -/
def templateLines : List (String × String) := [
  ("CLUSTER_IP", "cluster_ip"),
  ("PROXY_IP", "proxy_ip"),
  ("NAMESPACE", "namespace"),
  ("STORAGE_CLASS", "storage_class"),
  ("USER", "user"),
  ("PASSWORD", "password"),
  ("HELM_BRANCH", "helm_branch"),
  ("NAME", "name"),
  ("FABRIC_VERSION", "fabric_version"),
  ("ARCH", "arch"),
  ("NUM_ORDERERS", "num_orderers"),
  ("NUM_ORGS", "num_orgs"),
  ("PEERS_PER_ORG", "peers_per_org"),
  ("CA_IMAGE_REPO", "ca_image_repo"),
  ("CA_TAG", "ca_tag"),
  ("CA_INIT_IMAGE_REPO", "ca_init_image_repo"),
  ("CA_INIT_TAG", "ca_init_tag"),
  ("ORDERER_IMAGE_REPO", "orderer_image_repo"),
  ("ORDERER_TAG", "orderer_tag"),
  ("ORDERER_INIT_IMAGE_REPO", "orderer_init_image_repo"),
  ("ORDERER_INIT_TAG", "orderer_init_tag"),
  ("PEER_IMAGE_REPO", "peer_image_repo"),
  ("PEER_TAG", "peer_tag"),
  ("PEER_DIND_IMAGE_REPO", "peer_dind_image_repo"),
  ("PEER_DIND_TAG", "peer_dind_tag"),
  ("PEER_INIT_IMAGE_REPO", "peer_init_image_repo"),
  ("PEER_INIT_TAG", "peer_init_tag"),
  ("ORDERER_CPU", "orderer_cpu"),
  ("ORDERER_CPU_LIMIT", "orderer_c_limit"),
  ("ORDERER_MEMORY", "orderer_memory"),
  ("ORDERER_MEMORY_LIMIT", "orderer_m_limit"),
  ("CA_CPU", "ca_cpu"),
  ("CA_CPU_LIMIT", "ca_c_limit"),
  ("CA_MEMORY", "ca_memory"),
  ("CA_MEMORY_LIMIT", "ca_m_limit"),
  ("PEER_CPU", "peer_cpu"),
  ("PEER_CPU_LIMIT", "peer_c_limit"),
  ("PEER_MEMORY", "peer_memory"),
  ("PEER_MEMORY_LIMIT", "peer_m_limit"),
  ("MAX_BATCH_TIMEOUT", "max_batch_timeout"),
  ("MAX_MESSAGE_COUNT", "max_message_count"),
  ("ABSOLUTE_MAX_BYTES", "absolute_max_bytes"),
  ("PREFERRED_MAX_BYTES", "preferred_max_bytes")]

/-- A line that sets a variable. -/
def setting (name : String) (value : List Char) : List Char := name.toList ++ '=' :: value

/-- The text of config.tpl. -/
def configTpl : List Char :=
  ['\n'].intercalate (templateLines.map fun line => setting line.1 line.2.toList)

/-! ## Filling it -/

section
variable (strDict : List (String × Node) → List Char)

/-- The text can be encoded as ASCII. -/
def isAscii (text : List Char) : Bool := text.all fun c => c.toNat < 128

/-- Python's `str`; no result is a UnicodeEncodeError. -/
def str : Node → Option (List Char)
  | .none => some "None".toList
  | .text value => if isAscii value then some value else Option.none
  | .other s => some s
  | .dict members => some (strDict members)

/-- What a placeholder is replaced by; `replace` takes nothing but strings. -/
def Replacement.value (networkspec : Node) (r : Replacement) : Option (List Char) := do
  let interDict ← getDictKey networkspec r.keys
  if r.str then Icp.str strDict interDict
  else match interDict with
    | .text value => some value
    | _ => none

/-- The text of config.tpl with the placeholders replaced. -/
def fill (networkspec : Node) (rs : List Replacement) (rConfig : List Char) :
    Option (List Char) :=
  rs.foldlM (fun rConfig r => do
    let value ← r.value strDict networkspec
    return replaceAll r.placeholder.toList value rConfig) rConfig

/-- `write` encodes the text; no result is a UnicodeEncodeError, and the file has
    been emptied by then. -/
def write (rConfig : List Char) : Option (List Char) :=
  if isAscii rConfig then some rConfig else none

/-- What is written to config.cf; no result is an exception. -/
def configCf (networkspec : Node) : Option (List Char) :=
  (fill strDict networkspec replacements configTpl).bind write

end

/-! ## Specs of strings -/

/-- Each value that the script asks for is a string of one line, where there is
    one. -/
def StringSpec (networkspec : Node) : Prop :=
  ∀ r ∈ replacements, ∃ value, getDictKey networkspec r.keys = some (.text value) ∧ '\n' ∉ value

/-- The value of a placeholder in a spec of strings. -/
def specValue (networkspec : Node) (r : Replacement) : List Char :=
  match getDictKey networkspec r.keys with
  | some (.text value) => value
  | _ => []

/-- All values of the spec are ASCII. -/
def AsciiSpec (networkspec : Node) : Prop :=
  ∀ r ∈ replacements, isAscii (specValue networkspec r) = true

/-- The replacements of the script as pairs. -/
def specPairs (networkspec : Node) (rs : List Replacement) : List (List Char × List Char) :=
  rs.map fun r => (r.placeholder.toList, specValue networkspec r)

/-- Each value stays the same under the replacements that come after its own. -/
def Untouched (networkspec : Node) : List Replacement → Prop
  | [] => True
  | r :: later => replaceEach (specPairs networkspec later) (specValue networkspec r) =
      specValue networkspec r ∧ Untouched networkspec later

instance decidableUntouched (networkspec : Node) :
    (rs : List Replacement) → Decidable (Untouched networkspec rs)
  | [] => isTrue trivial
  | r :: later =>
      letI := decidableUntouched networkspec later
      inferInstanceAs (Decidable (replaceEach (specPairs networkspec later)
        (specValue networkspec r) = specValue networkspec r ∧ Untouched networkspec later))

/-- It is enough that no value has a later placeholder in it. -/
theorem untouched_of_not_infix {networkspec : Node} {rs : List Replacement}
    (h : rs.Pairwise fun r r' => ¬ r'.placeholder.toList <:+: specValue networkspec r) :
    Untouched networkspec rs := by
  induction rs with
  | nil => trivial
  | cons r later ih =>
      obtain ⟨hr, hlater⟩ := List.pairwise_cons.mp h
      refine ⟨replaceEach_eq_self fun pair hpair => ?_, ih hlater⟩
      obtain ⟨r', hr', rfl⟩ := List.mem_map.mp hpair
      exact hr r' hr'

theorem untouched_iff (networkspec : Node) (rs : List Replacement) :
    Untouched networkspec rs ↔ ∀ before r later, rs = before ++ r :: later →
      replaceEach (specPairs networkspec later) (specValue networkspec r) =
        specValue networkspec r := by
  induction rs with
  | nil => exact iff_of_true trivial fun before r later h => absurd h.symm (by simp)
  | cons first rs ih =>
      rw [Untouched, ih]
      constructor
      · rintro ⟨hfirst, hrest⟩ before r later h
        cases before with
        | nil =>
            obtain ⟨rfl, rfl⟩ := List.cons.inj h
            exact hfirst
        | cons b before => exact hrest before r later (List.cons.inj h).2
      · intro h
        exact ⟨h [] first rs rfl, fun before r later hrs =>
          h (first :: before) r later (by rw [hrs, List.cons_append])⟩

section
variable (strDict : List (String × Node) → List Char) {networkspec : Node}

theorem specValue_line (hspec : StringSpec networkspec) {r : Replacement}
    (hr : r ∈ replacements) : '\n' ∉ specValue networkspec r := by
  obtain ⟨value, hvalue, hline⟩ := hspec r hr
  have hsame : specValue networkspec r = value := by rw [specValue, hvalue]
  rwa [hsame]

/-- A value goes into the text as it is, unless `str` cannot encode it. -/
theorem value_of_stringSpec (hspec : StringSpec networkspec) {r : Replacement}
    (hr : r ∈ replacements) :
    r.value strDict networkspec =
      if r.str && !isAscii (specValue networkspec r) then none
      else some (specValue networkspec r) := by
  obtain ⟨value, hvalue, -⟩ := hspec r hr
  have hsame : specValue networkspec r = value := by rw [specValue, hvalue]
  rw [Replacement.value, hvalue, hsame]
  cases hstr : r.str with
  | false => rfl
  | true => cases hascii : isAscii value <;> simp [str, hascii]

/-- Where all values go in, they are put in one after the other. -/
theorem fill_of_values {rs : List Replacement}
    (h : ∀ r ∈ rs, r.value strDict networkspec = some (specValue networkspec r))
    (rConfig : List Char) :
    fill strDict networkspec rs rConfig =
      some (replaceEach (specPairs networkspec rs) rConfig) := by
  induction rs generalizing rConfig with
  | nil => rfl
  | cons r rs ih =>
      obtain ⟨hr, hrest⟩ := List.forall_mem_cons.mp h
      rw [fill, List.foldlM_cons, hr]
      exact ih hrest _

/-- A text that comes out has all the values in it. -/
theorem values_of_fill (hspec : StringSpec networkspec) {rs : List Replacement}
    (hrs : ∀ r ∈ rs, r ∈ replacements) {rConfig out : List Char}
    (h : fill strDict networkspec rs rConfig = some out) :
    ∀ r ∈ rs, r.value strDict networkspec = some (specValue networkspec r) := by
  induction rs generalizing rConfig with
  | nil => exact fun _ hr => absurd hr List.not_mem_nil
  | cons r rs ih =>
      obtain ⟨hr, hrest⟩ := List.forall_mem_cons.mp hrs
      rw [fill, List.foldlM_cons, value_of_stringSpec strDict hspec hr] at h
      split at h
      · cases h
      · next hencoded =>
          refine List.forall_mem_cons.mpr ⟨?_, ih hrest h⟩
          rw [value_of_stringSpec strDict hspec hr, if_neg hencoded]

theorem write_of_ascii {rConfig : List Char} (h : isAscii rConfig = true) :
    write rConfig = some rConfig :=
  if_pos h

theorem write_eq_some {rConfig out : List Char} (h : write rConfig = some out) :
    rConfig = out ∧ isAscii out = true := by
  rw [write] at h
  split at h
  · next hascii =>
      obtain rfl := Option.some.inj h
      exact ⟨rfl, hascii⟩
  · cases h

/-- A config.cf that is written is the template with the values put in. -/
theorem configCf_eq_some (hspec : StringSpec networkspec) {rConfig : List Char}
    (h : configCf strDict networkspec = some rConfig) :
    rConfig = replaceEach (specPairs networkspec replacements) configTpl ∧
      isAscii rConfig = true := by
  obtain ⟨out, hfill, hwrite⟩ := Option.bind_eq_some_iff.mp h
  have hvalues := values_of_fill strDict hspec (fun _ hr => hr) hfill
  have hout := (fill_of_values strDict hvalues configTpl).symm.trans hfill
  obtain ⟨rfl, hascii⟩ := write_eq_some hwrite
  exact ⟨(Option.some.inj hout).symm, hascii⟩

end

/-! ## The two tables -/

/-- What is computed on the tables: in one go, for the characters of a text are
    computed from its bytes.  Numbers are compared faster than characters. -/
theorem tables_computed :
    ((replacements.map fun r => r.placeholder.toList.map Char.toNat).Pairwise
        fun codes codes' => (codes'.length < codes.length ||
          !codes'.tails.any codes.isPrefixOf) = true) ∧
      (replacements.all fun r => r.placeholder.toList.head?.any fun o => 'a' ≤ o) = true ∧
      (∀ r ∈ replacements, '\n' ∉ r.placeholder.toList) ∧
      (templateLines.all fun line => (setting line.1 []).all fun c => c < 'a') = true ∧
      (∀ line ∈ templateLines, '\n' ∉ line.1.toList ∧ '=' ∉ line.1.toList) ∧
      (templateLines.map Prod.snd).Perm (replacements.map Replacement.placeholder) ∧
      (templateLines.map Prod.fst).Nodup ∧ isAscii configTpl = true := by
  decide +kernel

/-- No placeholder occurs in a later one. -/
theorem replacements_apart : replacements.Pairwise fun r r' =>
    ¬ r.placeholder.toList <:+: r'.placeholder.toList := by
  refine (List.pairwise_map.mp tables_computed.1).imp fun hno hinside => ?_
  have hcodes := List.IsInfix.map Char.toNat hinside
  rcases (Bool.or_eq_true _ _).mp hno with hshorter | hnone
  · exact absurd (of_decide_eq_true hshorter) (Nat.not_lt.mpr hcodes.length_le)
  · obtain ⟨codes, hbegins, hends⟩ := List.infix_iff_prefix_suffix.mp hcodes
    refine Bool.eq_false_iff.mp ((Bool.not_eq_true' _).mp hnone)
      (List.any_eq_true.mpr ⟨codes, ?_, ?_⟩)
    · exact (List.mem_tails _ _).mpr hends
    · exact List.isPrefixOf_iff_prefix.mpr hbegins

/-- A placeholder starts with a small letter, a variable has none. -/
theorem placeholder_head : ∀ r ∈ replacements, ∃ o ∈ r.placeholder.toList.head?, 'a' ≤ o := by
  intro r hr
  obtain ⟨o, ho, hle⟩ :=
    (Option.any_eq_true _ _).mp (List.all_eq_true.mp tables_computed.2.1 r hr)
  exact ⟨o, ho, of_decide_eq_true hle⟩

theorem setting_lt : ∀ line ∈ templateLines, ∀ c ∈ setting line.1 [], c < 'a' := by
  intro line hline c hc
  have hsmall := List.all_eq_true.mp tables_computed.2.2.2.1 line hline
  exact of_decide_eq_true (List.all_eq_true.mp hsmall c hc)

theorem placeholder_line : ∀ r ∈ replacements, '\n' ∉ r.placeholder.toList :=
  tables_computed.2.2.1

theorem templateLines_line :
    ∀ line ∈ templateLines, '\n' ∉ line.1.toList ∧ '=' ∉ line.1.toList :=
  tables_computed.2.2.2.2.1

theorem templateLines_placeholders :
    (templateLines.map Prod.snd).Perm (replacements.map Replacement.placeholder) :=
  tables_computed.2.2.2.2.2.1

theorem nodup_templateLines : (templateLines.map Prod.fst).Nodup :=
  tables_computed.2.2.2.2.2.2.1

theorem isAscii_configTpl : isAscii configTpl = true := tables_computed.2.2.2.2.2.2.2

/-! ## The lines of config.cf -/

theorem setting_inj {line line' : String × String} (hline : line ∈ templateLines)
    (hline' : line' ∈ templateLines) {value value' : List Char}
    (h : setting line.1 value = setting line'.1 value') : line = line' ∧ value = value' := by
  have hpieces := congrArg (split ['=']) h
  have hname : line.1.toList = line'.1.toList := by
    have hparts : ∀ name value : List Char, name ++ '=' :: value = name ++ (['='] ++ value) :=
      fun _ _ => rfl
    rw [setting, setting, hparts, hparts, split_piece (templateLines_line line hline).2,
      split_piece (templateLines_line line' hline').2] at hpieces
    exact (List.cons.inj hpieces).1
  obtain rfl := List.inj_on_of_nodup_map nodup_templateLines hline hline'
    (String.toList_injective hname)
  exact ⟨rfl, (List.cons.inj (List.append_cancel_left h)).2⟩

theorem exists_line {r : Replacement} (hr : r ∈ replacements) :
    ∃ line ∈ templateLines, line.2 = r.placeholder :=
  List.mem_map.mp (templateLines_placeholders.mem_iff.mpr (List.mem_map_of_mem hr))

theorem exists_replacement {line : String × String} (hline : line ∈ templateLines) :
    ∃ r ∈ replacements, r.placeholder = line.2 :=
  List.mem_map.mp (templateLines_placeholders.mem_iff.mp (List.mem_map_of_mem hline))

theorem placeholder_inj {r r' : Replacement} (hr : r ∈ replacements) (hr' : r' ∈ replacements)
    (h : r.placeholder = r'.placeholder) : r = r' := by
  have hnodup : (replacements.map Replacement.placeholder).Nodup :=
    List.pairwise_map.mpr (replacements_apart.imp fun hno heq =>
      hno (by rw [heq]))
  exact List.inj_on_of_nodup_map hnodup hr hr' h

section
variable {networkspec : Node}

theorem specPairs_apart : ∀ pair ∈ specPairs networkspec replacements,
    pair.1 ≠ [] ∧ '\n' ∉ pair.1 := by
  intro pair hpair
  obtain ⟨r, hr, rfl⟩ := List.mem_map.mp hpair
  refine ⟨fun hnil => ?_, placeholder_line r hr⟩
  obtain ⟨o, ho, -⟩ := placeholder_head r hr
  rw [show r.placeholder.toList = [] from hnil] at ho
  exact absurd ho (by simp)

/-- The variable of a line stays. -/
theorem replaceEach_setting {line : String × String} (hline : line ∈ templateLines)
    (s : List Char) :
    replaceEach (specPairs networkspec replacements) (setting line.1 s) =
      setting line.1 (replaceEach (specPairs networkspec replacements) s) := by
  have hname : ∀ s, setting line.1 s = setting line.1 [] ++ s := fun s => by simp [setting]
  rw [hname, hname (replaceEach _ s)]
  refine replaceEach_append_of_head (fun pair hpair => ?_) s
  obtain ⟨r, hr, rfl⟩ := List.mem_map.mp hpair
  obtain ⟨o, ho, hle⟩ := placeholder_head r hr
  obtain ⟨old, hold⟩ := List.head?_eq_some_iff.mp ho
  exact ⟨o, old, hold, fun hmem => Char.not_lt.mpr hle (setting_lt line hline o hmem)⟩

/-- A text with ASCII values put in is ASCII. -/
theorem isAscii_filled (hascii : AsciiSpec networkspec) :
    isAscii (replaceEach (specPairs networkspec replacements) configTpl) = true := by
  refine List.all_eq_true.mpr fun c hc => ?_
  by_contra hno
  refine not_mem_replaceEach (fun pair hpair => ⟨(specPairs_apart pair hpair).1, ?_⟩) ?_ hc
  · obtain ⟨r, hr, rfl⟩ := List.mem_map.mp hpair
    exact fun hmem => hno (List.all_eq_true.mp (hascii r hr) c hmem)
  · exact fun hmem => hno (List.all_eq_true.mp isAscii_configTpl c hmem)

/-- A spec of ASCII strings gives a config.cf. -/
theorem configCf_of_ascii (strDict : List (String × Node) → List Char)
    (hspec : StringSpec networkspec) (hascii : AsciiSpec networkspec) :
    configCf strDict networkspec =
      some (replaceEach (specPairs networkspec replacements) configTpl) := by
  have hvalues : ∀ r ∈ replacements,
      r.value strDict networkspec = some (specValue networkspec r) := by
    intro r hr
    rw [value_of_stringSpec strDict hspec hr, hascii r hr, Bool.not_true, Bool.and_false]
    rfl
  rw [configCf, fill_of_values strDict hvalues, Option.bind_some,
    write_of_ascii (isAscii_filled hascii)]

theorem lines_configCf (hspec : StringSpec networkspec) :
    split ['\n'] (replaceEach (specPairs networkspec replacements) configTpl) =
      templateLines.map fun line => setting line.1
        (replaceEach (specPairs networkspec replacements) line.2.toList) := by
  have hpieces : replaceEach (specPairs networkspec replacements) configTpl =
      ['\n'].intercalate ((templateLines.map fun line => setting line.1 line.2.toList).map
        (replaceEach (specPairs networkspec replacements))) :=
    replaceEach_intercalate specPairs_apart _
  have hlines : ∀ line ∈ templateLines,
      (replaceEach (specPairs networkspec replacements) ∘ fun line => setting line.1 line.2.toList)
        line = setting line.1 (replaceEach (specPairs networkspec replacements) line.2.toList) :=
    fun line hline => by rw [Function.comp_apply, replaceEach_setting hline]
  rw [hpieces, List.map_map, List.map_congr_left hlines]
  have hne : templateLines ≠ [] := List.cons_ne_nil _ _
  refine split_intercalate (List.map_eq_nil_iff.not.mpr hne)
    (List.forall_mem_map.mpr fun line hline => ?_)
  have hvalue : '\n' ∉ replaceEach (specPairs networkspec replacements) line.2.toList := by
    refine not_mem_replaceEach (fun pair hpair => ?_) ?_
    · obtain ⟨r, hr, rfl⟩ := List.mem_map.mp hpair
      exact ⟨(specPairs_apart _ hpair).1, specValue_line hspec hr⟩
    · obtain ⟨r, hr, heq⟩ := exists_replacement hline
      exact heq ▸ placeholder_line r hr
  intro hmem
  rcases List.mem_append.mp hmem with hname | hrest
  · exact (templateLines_line line hline).1 hname
  · exact (List.mem_cons.mp hrest).elim (by decide) hvalue

/-- What comes to stand in the place of a placeholder. -/
theorem replaceEach_placeholder {before later : List Replacement} {r : Replacement}
    (h : replacements = before ++ r :: later) :
    replaceEach (specPairs networkspec replacements) r.placeholder.toList =
      replaceEach (specPairs networkspec later) (specValue networkspec r) := by
  have hr : r ∈ replacements := h ▸ List.mem_append_right before List.mem_cons_self
  have hapart := replacements_apart
  rw [h] at hapart
  have hsplit : specPairs networkspec replacements = specPairs networkspec before ++
      (r.placeholder.toList, specValue networkspec r) :: specPairs networkspec later := by
    rw [h, specPairs, List.map_append, List.map_cons]
    rfl
  rw [hsplit]
  refine @replaceEach_pattern _ _ _ (r.placeholder.toList, specValue networkspec r) ?_
    (fun pair hpair => ?_) _
  · exact (specPairs_apart _ (List.mem_map_of_mem hr)).1
  · obtain ⟨r', hr', rfl⟩ := List.mem_map.mp hpair
    exact (List.pairwise_append.mp hapart).2.2 r' hr' r List.mem_cons_self

/-- A line has its value exactly if the value stays the same under what comes
    after its own replacement. -/
theorem setting_mem_iff (hspec : StringSpec networkspec) {line : String × String}
    (hline : line ∈ templateLines) {before later : List Replacement} {r : Replacement}
    (hsplit : replacements = before ++ r :: later) (hplaceholder : r.placeholder = line.2) :
    setting line.1 (specValue networkspec r) ∈
        split ['\n'] (replaceEach (specPairs networkspec replacements) configTpl) ↔
      replaceEach (specPairs networkspec later) (specValue networkspec r) =
        specValue networkspec r := by
  have hplaced := @replaceEach_placeholder networkspec before later r hsplit
  rw [hplaceholder] at hplaced
  rw [lines_configCf hspec, List.mem_map]
  constructor
  · rintro ⟨line', hline', hsetting⟩
    obtain ⟨rfl, hvalue⟩ := setting_inj hline' hline hsetting
    rw [← hplaced, hvalue]
  · intro hsame
    exact ⟨line, hline, by rw [hplaced, hsame]⟩

end

/-- **When config.cf has the values.**  For a spec of strings, config.cf is
    written and each line of the template comes out with the value of its
    placeholder exactly if all values are ASCII and each stays the same under
    the replacements after its own. -/
theorem configCf_iff (strDict : List (String × Node) → List Char) {networkspec : Node}
    (hspec : StringSpec networkspec) :
    (∃ rConfig, configCf strDict networkspec = some rConfig ∧
      ∀ line ∈ templateLines, ∃ r ∈ replacements, r.placeholder = line.2 ∧
        setting line.1 (specValue networkspec r) ∈ split ['\n'] rConfig) ↔
      AsciiSpec networkspec ∧ Untouched networkspec replacements := by
  rw [untouched_iff]
  constructor
  · rintro ⟨rConfig, hconfig, h⟩
    obtain ⟨heq, hwritten⟩ := configCf_eq_some strDict hspec hconfig
    -- the line of a value
    have hlines : ∀ r ∈ replacements, ∃ line ∈ templateLines, r.placeholder = line.2 ∧
        setting line.1 (specValue networkspec r) ∈ split ['\n'] rConfig := by
      intro r hr
      obtain ⟨line, hline, hplaceholder⟩ := exists_line hr
      obtain ⟨r', hr', hsame, hmem⟩ := h line hline
      obtain rfl : r' = r := placeholder_inj hr' hr (hsame.trans hplaceholder)
      exact ⟨line, hline, hsame, hmem⟩
    constructor
    · intro r hr
      obtain ⟨line, -, -, hmem⟩ := hlines r hr
      refine List.all_eq_true.mpr fun c hc => List.all_eq_true.mp hwritten c ?_
      exact mem_of_mem_split hmem (List.mem_append_right _ (List.mem_cons_of_mem _ hc))
    · intro before r later hsplit
      obtain ⟨line, hline, hplaceholder, hmem⟩ :=
        hlines r (hsplit ▸ List.mem_append_right before List.mem_cons_self)
      rw [heq] at hmem
      exact (setting_mem_iff hspec hline hsplit hplaceholder).mp hmem
  · rintro ⟨hascii, h⟩
    refine ⟨_, configCf_of_ascii strDict hspec hascii, fun line hline => ?_⟩
    obtain ⟨r, hr, heq⟩ := exists_replacement hline
    obtain ⟨before, later, hsplit⟩ := List.append_of_mem hr
    exact ⟨r, hr, heq, (setting_mem_iff hspec hline hsplit heq).mpr (h before r later hsplit)⟩

/-- A string of one line. -/
def isLine : Option Node → Bool
  | some (.text value) => !value.contains '\n'
  | _ => false

instance (networkspec : Node) : Decidable (StringSpec networkspec) :=
  decidable_of_iff (∀ r ∈ replacements, isLine (getDictKey networkspec r.keys) = true)
    (forall₂_congr fun r _ => by
      cases hvalue : getDictKey networkspec r.keys with
      | none => simp [isLine]
      | some node => cases node <;> simp [isLine])

instance (networkspec : Node) : Decidable (AsciiSpec networkspec) :=
  inferInstanceAs (Decidable (∀ r ∈ replacements, isAscii (specValue networkspec r) = true))

/-- A spec with a user, and a network of a name. -/
def smallSpec (user name : String) : Node :=
  .dict [("icp", .dict [("user", .text user.toList)]),
    ("network", .dict [("name", .text name.toList)])]

/-- A user and a network that have nothing in common. -/
theorem configCf_iff_small :
    ∃ rConfig, configCf (fun _ => []) (smallSpec "admin" "net1") = some rConfig ∧
      ∀ line ∈ templateLines, ∃ r ∈ replacements, r.placeholder = line.2 ∧
        setting line.1 (specValue (smallSpec "admin" "net1") r) ∈ split ['\n'] rConfig :=
  (configCf_iff (fun _ => []) (by decide +kernel)).mpr (by decide +kernel)

/-- The name of the network gets into the name of the user; a name with an
    umlaut is not written at all. -/
theorem user_gets_network_name :
    StringSpec (smallSpec "username" "net1") ∧
      (¬ ∃ rConfig, configCf (fun _ => []) (smallSpec "username" "net1") = some rConfig ∧
        ∀ line ∈ templateLines, ∃ r ∈ replacements, r.placeholder = line.2 ∧
          setting line.1 (specValue (smallSpec "username" "net1") r) ∈
            split ['\n'] rConfig) ∧
      StringSpec (smallSpec "jürgen" "net1") ∧
      configCf (fun _ => []) (smallSpec "jürgen" "net1") = none := by
  have hspec : StringSpec (smallSpec "username" "net1") := by decide +kernel
  refine ⟨hspec, ?_, by decide +kernel, by decide +kernel⟩
  rintro ⟨rConfig, hconfig, h⟩
  obtain ⟨hfilled, -⟩ := configCf_eq_some _ hspec hconfig
  rw [hfilled] at h
  obtain ⟨r, hr, heq, hmem⟩ := h ("USER", "user") (by decide +kernel)
  have hsplit : replacements = replacements.take 4 ++
      ⟨"user", ["icp", "user"], false⟩ :: replacements.drop 5 := rfl
  obtain rfl := placeholder_inj hr (hsplit ▸ List.mem_append_right _ List.mem_cons_self) heq
  have hsame := (setting_mem_iff hspec (by decide +kernel) hsplit rfl).mp hmem
  exact absurd hsame (by decide +kernel)

end Hfrd.Icp
