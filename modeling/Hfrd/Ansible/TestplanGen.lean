/-
  Hfrd.Ansible.TestplanGen

  The aliases of a generated test plan
  (backend/jenkins/pipelines/ansible/utils/testplan_gen.py).

  The plan is dumped as YAML that has no anchors, and the anchors are put in
  afterwards by replacing `key:` in the whole text, one key after another.  So
  a key is found at the end of a longer one as well, and in a value; and it is
  not found where the dumper quotes it.
-/

import Hfrd.Lib.ReplaceEach
import Hfrd.Lib.SplitAfter
import Mathlib.Data.List.Nodup

namespace Hfrd.Ansible

open Hfrd.Lib

/-! ## The list of aliases -/

/-- `testplan_dict["peernodeAlias"]`, as pairs of a key and its value. -/
def peernodeAlias (org_list : List (List Char)) (org_anchor_dict : List Char → List Char)
    (org_peers_dict : List Char → List (List Char)) : List (List Char × List Char) :=
  let peer_list := (org_list.flatMap org_peers_dict).eraseDups
  let allAnchor_list := org_list.map org_anchor_dict
  org_list.flatMap (fun orgName =>
      [(orgName ++ "Anchor".toList, org_anchor_dict orgName),
        (orgName ++ "Peers".toList, [','].intercalate (org_peers_dict orgName))]) ++
    [("allAnchors".toList, [','].intercalate allAnchor_list),
      ("allPeers".toList, [','].intercalate peer_list)]

/-- The keys that are used as aliases. -/
def aliasKeys (org_list : List (List Char)) : List (List Char) :=
  org_list.flatMap (fun orgName => [orgName ++ "Anchor".toList, orgName ++ "Peers".toList]) ++
    ["allAnchors".toList, "allPeers".toList]

theorem keys_peernodeAlias (org_list : List (List Char)) (org_anchor_dict : List Char → List Char)
    (org_peers_dict : List Char → List (List Char)) :
    (peernodeAlias org_list org_anchor_dict org_peers_dict).map Prod.fst = aliasKeys org_list := by
  simp [peernodeAlias, aliasKeys, List.map_flatMap]

/-- How PyYAML writes a key, up to the colon, and a value. -/
structure Dumper where
  key : List Char → List Char
  value : List Char → List Char

/-- The characters of a name. -/
def isNameChar (c : Char) : Bool := c.isAlphanum || c == '-' || c == '.'

/-- A key is written plain, between quotes, or behind a question mark with the
    colon on a line of its own; and the lines of an item after its first one are
    indented. -/
structure Dumper.Documented (dumper : Dumper) : Prop where
  key : ∀ key, (∀ c ∈ key, isNameChar c = true) → dumper.key key = key ∨
    ∃ front, dumper.key key = front ++ "'".toList ∨ dumper.key key = front ++ " ".toList
  colon : ∀ key, (∀ c ∈ key, isNameChar c = true) → ':' ∉ dumper.key key
  key_indented : ∀ key, (∀ c ∈ key, isNameChar c = true) → ¬ "\n-".toList <:+: dumper.key key
  value_indented : ∀ value, ¬ "\n-".toList <:+: dumper.value value

/-- An item of the list in the text that is dumped. -/
def itemText (dumper : Dumper) (item : List Char × List Char) : List Char :=
  "- ".toList ++ dumper.key item.1 ++ ": ".toList ++ dumper.value item.2 ++ "\n".toList

/-- The item with the anchor it should have. -/
def anchoredText (dumper : Dumper) (item : List Char × List Char) : List Char :=
  "- ".toList ++ dumper.key item.1 ++ ": &".toList ++ item.1 ++ " ".toList ++
    dumper.value item.2 ++ "\n".toList

/-! ## Putting the anchors in -/

/-- `tempstr.replace(key + ":", key + ": &" + key)` -/
def replaceKey (tempstr key : List Char) : List Char :=
  replaceAll (key ++ ":".toList) (key ++ ": &".toList ++ key) tempstr

/-- The replacements in `connYamlStr`. -/
def insertAnchors (network_type : String) (org_list : List (List Char))
    (connYamlStr : List Char) : List Char :=
  let tempstr := org_list.foldl (fun tempstr orgName =>
    replaceKey (replaceKey tempstr (orgName ++ "Anchor".toList)) (orgName ++ "Peers".toList))
    connYamlStr
  let tempstr := replaceKey tempstr "allAnchors".toList
  let tempstr := replaceKey tempstr "allPeers".toList
  let tempstr := replaceKey tempstr "runid".toList
  if network_type = "ibp" then replaceKey tempstr "networkid".toList else tempstr

/-- The keys that are replaced, in their order. -/
def anchorKeys (network_type : String) (org_list : List (List Char)) : List (List Char) :=
  aliasKeys org_list ++ "runid".toList ::
    (if network_type = "ibp" then ["networkid".toList] else [])

/-- What comes behind the colon of a key. -/
def anchorOf (key : List Char) : List Char := " &".toList ++ key

theorem insertAnchors_eq (network_type : String) (org_list : List (List Char))
    (connYamlStr : List Char) :
    insertAnchors network_type org_list connYamlStr =
      insertBehind ':' anchorOf (anchorKeys network_type org_list) connYamlStr := by
  have hkey : replaceKey = fun tempstr key =>
      replaceAll (key ++ [':']) (key ++ ':' :: anchorOf key) tempstr := by
    funext tempstr key
    rw [replaceKey, List.append_assoc]
    rfl
  have hfold : insertAnchors network_type org_list connYamlStr =
      (anchorKeys network_type org_list).foldl replaceKey connYamlStr := by
    unfold insertAnchors anchorKeys aliasKeys
    split <;> simp [List.foldl_flatMap]
  rw [hfold, insertBehind, replaceEach, List.foldl_map, hkey]

/-! ## Words of name characters -/

theorem not_mem_of_name {key : List Char} (hkey : ∀ c ∈ key, isNameChar c = true) {c : Char}
    (hc : isNameChar c = false) : c ∉ key := fun hmem =>
  Bool.false_ne_true (hc.symm.trans (hkey c hmem))

theorem isNameChar_of_anchorKeys {network_type : String} {org_list : List (List Char)}
    (hnames : ∀ o ∈ org_list, ∀ c ∈ o, isNameChar c = true) :
    ∀ key ∈ anchorKeys network_type org_list, key ≠ [] ∧ ∀ c ∈ key, isNameChar c = true := by
  have hend : ∀ {o ending : List Char}, o ∈ org_list → ending ≠ [] →
      (∀ c ∈ ending, isNameChar c = true) →
      o ++ ending ≠ [] ∧ ∀ c ∈ o ++ ending, isNameChar c = true := fun ho hne hending =>
    ⟨List.append_ne_nil_of_right_ne_nil _ hne, fun c hc =>
      (List.mem_append.mp hc).elim (hnames _ ho c) (hending c)⟩
  intro key hkey
  rcases List.mem_append.mp hkey with halias | hother
  · rcases List.mem_append.mp halias with horg | hall
    · obtain ⟨o, ho, hmem⟩ := List.mem_flatMap.mp horg
      rcases List.mem_pair.mp hmem with rfl | rfl
      · exact hend ho (by decide) (List.all_eq_true.mp (by decide))
      · exact hend ho (by decide) (List.all_eq_true.mp (by decide))
    · rcases List.mem_pair.mp hall with rfl | rfl <;>
        exact ⟨by decide, List.all_eq_true.mp (by decide)⟩
  · split at hother
    · rcases List.mem_pair.mp hother with rfl | rfl <;>
        exact ⟨by decide, List.all_eq_true.mp (by decide)⟩
    · obtain rfl := List.mem_singleton.mp hother
      exact ⟨by decide, List.all_eq_true.mp (by decide)⟩

/-! ## An item after the replacements -/

section
variable {dumper : Dumper} {network_type : String} {org_list : List (List Char)}

/-- An item in the text that is written. -/
def writtenText (dumper : Dumper) (network_type : String) (org_list : List (List Char))
    (item : List Char × List Char) : List Char :=
  let line := "- ".toList ++ dumper.key item.1
  line ++ ':' :: (inserted anchorOf (anchorKeys network_type org_list) line ++
    ' ' :: (insertAnchors network_type org_list (dumper.value item.2) ++ "\n".toList))

/-- A line break is in no key. -/
theorem insertAnchors_append_line (hnames : ∀ o ∈ org_list, ∀ c ∈ o, isNameChar c = true)
    (a b : List Char) :
    insertAnchors network_type org_list (a ++ '\n' :: b) =
      insertAnchors network_type org_list a ++ '\n' :: insertAnchors network_type org_list b := by
  simp only [insertAnchors_eq]
  refine insertBehind_append_cons (by decide) (fun key hkey => ?_) a b
  exact not_mem_of_name (isNameChar_of_anchorKeys hnames key hkey).2 (by decide)

theorem insertAnchors_item (hdumper : dumper.Documented)
    (hnames : ∀ o ∈ org_list, ∀ c ∈ o, isNameChar c = true) {item : List Char × List Char}
    (hitem : ∀ c ∈ item.1, isNameChar c = true) (rest : List Char) :
    insertAnchors network_type org_list (itemText dumper item ++ rest) =
      writtenText dumper network_type org_list item ++
        insertAnchors network_type org_list rest := by
  have hline : ':' ∉ "- ".toList ++ dumper.key item.1 := fun hmem =>
    (List.mem_append.mp hmem).elim (by decide) (hdumper.colon item.1 hitem)
  have hkeys : ∀ key ∈ anchorKeys network_type org_list,
      key ≠ [] ∧ ':' ∉ key ∧ ' ' ∉ key ∧ ':' ∉ anchorOf key := by
    intro key hkey
    obtain ⟨hne, hname⟩ := isNameChar_of_anchorKeys hnames key hkey
    have hcolon : ':' ∉ key := not_mem_of_name hname (by decide)
    refine ⟨hne, hcolon, not_mem_of_name hname (by decide), fun hmem => ?_⟩
    exact (List.mem_append.mp hmem).elim (by decide) hcolon
  have htext : itemText dumper item ++ rest =
      ("- ".toList ++ dumper.key item.1) ++
        ':' :: ([] ++ ' ' :: (dumper.value item.2 ++ '\n' :: rest)) := by
    show "- ".toList ++ dumper.key item.1 ++ ": ".toList ++ dumper.value item.2 ++
      "\n".toList ++ rest = _
    simp only [List.append_assoc]
    rfl
  rw [htext, insertAnchors_eq, insertBehind_line (by decide) hline hkeys List.not_mem_nil,
    ← insertAnchors_eq, insertAnchors_append_line hnames]
  simp [writtenText]

/-- The list in the text that is written. -/
theorem insertAnchors_items (hdumper : dumper.Documented)
    (hnames : ∀ o ∈ org_list, ∀ c ∈ o, isNameChar c = true)
    {items : List (List Char × List Char)}
    (hitems : ∀ item ∈ items, ∀ c ∈ item.1, isNameChar c = true) (rest : List Char) :
    insertAnchors network_type org_list (items.flatMap (itemText dumper) ++ rest) =
      items.flatMap (writtenText dumper network_type org_list) ++
        insertAnchors network_type org_list rest := by
  induction items with
  | nil => rfl
  | cons item items ih =>
      obtain ⟨hitem, hrest⟩ := List.forall_mem_cons.mp hitems
      rw [List.flatMap_cons, List.append_assoc, insertAnchors_item hdumper hnames hitem, ih hrest,
        List.flatMap_cons, List.append_assoc]

/-! ## Items are read off the list -/

theorem not_mem_inserted {c : Char} {line : List Char}
    (hkeys : ∀ key ∈ anchorKeys network_type org_list, c ∉ anchorOf key) :
    c ∉ inserted anchorOf (anchorKeys network_type org_list) line := by
  intro hmem
  obtain ⟨key, hkey, hc⟩ := List.mem_flatMap.mp hmem
  exact hkeys key (List.mem_filter.mp (List.mem_reverse.mp hkey)).1 hc

/-- A line that starts an item, goes on behind the colon with something on the
    same line, and then has an indented value. -/
theorem marked_item {key more value : List Char} (hkey : ¬ "\n-".toList <:+: key)
    (hmore : '\n' ∉ more) (hvalue : ¬ "\n-".toList <:+: value) :
    Marked '\n' '-' ("- ".toList ++ key ++ ':' :: (more ++ ' ' :: (value ++ "\n".toList))) := by
  refine ⟨rfl, ?_, fun h => ?_⟩
  · have hparts : "- ".toList ++ key ++ ':' :: (more ++ ' ' :: (value ++ "\n".toList)) =
        ("- ".toList ++ key ++ ':' :: (more ++ ' ' :: value)) ++ "\n".toList := by
      simp only [List.append_assoc, List.cons_append]
    rw [hparts, List.getLast?_append_of_ne_nil _ (by decide)]
    rfl
  · have hparts : "- ".toList ++ key ++ ':' :: (more ++ ' ' :: (value ++ "\n".toList)) =
        "-".toList ++ ' ' :: (key ++ ':' :: (more ++ ' ' :: (value ++ "\n".toList))) := by
      rw [List.append_assoc]
      rfl
    rw [hparts] at h
    have hdash : ¬ "\n-".toList <:+: "-".toList := by decide
    have hcolon := (infix_of_infix_append_cons (by decide) h).resolve_left hdash
    have hspace := (infix_of_infix_append_cons (by decide) hcolon).resolve_left hkey
    have hend := (infix_of_infix_append_cons (by decide) hspace).resolve_left
      fun h => hmore (h.subset (by decide))
    rcases List.infix_concat_iff.mp hend with hs | hi
    · have hlast : "\n".toList ++ "-".toList <:+ value ++ "\n".toList := hs
      have hlength : "-".toList.length = "\n".toList.length := by decide
      exact absurd ((List.suffix_append_inj_of_length_eq hlength).mp hlast).2 (by decide)
    · exact hvalue hi

theorem marked_writtenText (hdumper : dumper.Documented)
    (hnames : ∀ o ∈ org_list, ∀ c ∈ o, isNameChar c = true) {item : List Char × List Char}
    (hitem : ∀ c ∈ item.1, isNameChar c = true) :
    Marked '\n' '-' (writtenText dumper network_type org_list item) := by
  have hkeys : ∀ key ∈ anchorKeys network_type org_list, key ≠ [] ∧ '\n' ∉ key ∧
      '\n' ∉ anchorOf key := by
    intro key hkey
    obtain ⟨hne, hname⟩ := isNameChar_of_anchorKeys hnames key hkey
    have hbreak : '\n' ∉ key := not_mem_of_name hname (by decide)
    refine ⟨hne, hbreak, fun hmem => ?_⟩
    exact (List.mem_append.mp hmem).elim (by decide) hbreak
  refine marked_item (hdumper.key_indented item.1 hitem)
    (not_mem_inserted fun key hkey => (hkeys key hkey).2.2) fun h => ?_
  rw [insertAnchors_eq] at h
  exact hdumper.value_indented item.2 (infix_of_infix_insertBehind (by decide) hkeys h)

theorem anchoredText_eq (dumper : Dumper) (item : List Char × List Char) :
    anchoredText dumper item = "- ".toList ++ dumper.key item.1 ++
      ':' :: (anchorOf item.1 ++ ' ' :: (dumper.value item.2 ++ "\n".toList)) := by
  show "- ".toList ++ dumper.key item.1 ++ ": &".toList ++ item.1 ++ " ".toList ++
    dumper.value item.2 ++ "\n".toList = _
  simp only [anchorOf, List.append_assoc]
  rfl

theorem marked_anchoredText (hdumper : dumper.Documented) {item : List Char × List Char}
    (hitem : ∀ c ∈ item.1, isNameChar c = true) :
    Marked '\n' '-' (anchoredText dumper item) := by
  rw [anchoredText_eq]
  refine marked_item (hdumper.key_indented item.1 hitem) (fun hmem => ?_)
    (hdumper.value_indented item.2)
  exact (List.mem_append.mp hmem).elim (by decide) (not_mem_of_name hitem (by decide))

/-! ## When an item has its anchor -/

/-- The item has its anchor and nothing else that is new. -/
theorem writtenText_eq_iff (item : List Char × List Char) :
    writtenText dumper network_type org_list item = anchoredText dumper item ↔
      inserted anchorOf (anchorKeys network_type org_list) ("- ".toList ++ dumper.key item.1) ++
          ' ' :: insertAnchors network_type org_list (dumper.value item.2) =
        anchorOf item.1 ++ ' ' :: dumper.value item.2 := by
  have hassoc : ∀ a b : List Char, a ++ ' ' :: (b ++ "\n".toList) = a ++ ' ' :: b ++ "\n".toList :=
    fun a b => by simp
  rw [anchoredText_eq, writtenText, hassoc, hassoc, List.append_cancel_left_eq, List.cons.injEq,
    List.append_cancel_right_eq]
  simp

/-! ## Keys at the end of keys -/

/-- No name ends another one, and none gets in the way of `allPeers`. -/
structure NamesApart (org_list : List (List Char)) : Prop where
  endings : ∀ o ∈ org_list, ∀ o' ∈ org_list, o <:+ o' → o = o'
  all : ∀ o ∈ org_list, ¬ o <:+ "all".toList ∧ ¬ "all".toList <:+ o

/-- The keys that are replaced at the end of a line. -/
def keysEnding (network_type : String) (org_list : List (List Char)) (line : List Char) :
    List (List Char) :=
  (anchorKeys network_type org_list).filter fun key => key <:+ line

theorem not_suffix_of_endings {t t' : List Char} (h : ¬ t <:+ t' ∧ ¬ t' <:+ t) (a b : List Char) :
    ¬ a ++ t <:+ b ++ t' := fun hs =>
  (List.suffix_or_suffix_of_suffix ((List.suffix_append a t).trans hs)
    (List.suffix_append b t')).elim h.1 h.2

/-- Of the keys of each name, only those of the form `f` are left. -/
theorem filter_flatMap_of {α β : Type} {f : α → β} {keys : α → List β} {p : β → Bool}
    (hkeys : ∀ a, (keys a).filter p = [f a].filter p) (l : List α) :
    (l.flatMap keys).filter p = (l.filter fun a => p (f a)).map f := by
  induction l with
  | nil => rfl
  | cons a l ih =>
      rw [List.flatMap_cons, List.filter_append, hkeys, ih]
      by_cases hfa : p (f a) = true <;> simp [hfa]

theorem eq_nil_of_map_append_eq_singleton {α β : Type} {f : α → β} {l : List α} {x y : β}
    (h : l.map f ++ [x] = [y]) : l = [] := by
  have hlength := congrArg List.length h
  simp only [List.length_append, List.length_map, List.length_singleton] at hlength
  exact List.length_eq_zero_iff.mp (by omega)

/-- The other keys end no line that ends as one of the aliases. -/
theorem keysEnding_of_alias (network_type : String) (org_list : List (List Char))
    (name : List Char) {ending : List Char}
    (h : ∀ key ∈ ["runid".toList, "networkid".toList], ¬ key <:+ ending ∧ ¬ ending <:+ key) :
    keysEnding network_type org_list (name ++ ending) =
      (aliasKeys org_list).filter fun key => key <:+ name ++ ending := by
  have hother : ("runid".toList ::
      (if network_type = "ibp" then ["networkid".toList] else [])).filter
        (fun key => decide (key <:+ name ++ ending)) = [] := by
    refine List.filter_eq_nil_iff.mpr fun key hkey hends => ?_
    have hmem : key ∈ ["runid".toList, "networkid".toList] := by
      split at hkey
      · exact hkey
      · exact List.mem_cons.mpr (Or.inl (List.mem_singleton.mp hkey))
    exact not_suffix_of_endings (h key hmem) [] name (of_decide_eq_true hends)
  rw [keysEnding, anchorKeys, List.filter_append, hother, List.append_nil]

theorem keysEnding_anchor (network_type : String) (org_list : List (List Char))
    (name : List Char) :
    keysEnding network_type org_list (name ++ "Anchor".toList) =
      (org_list.filter fun o => o <:+ name).map (· ++ "Anchor".toList) := by
  -- of two endings of which neither ends the other, one rules out the other
  have hkeys : ∀ o : List Char, [o ++ "Anchor".toList, o ++ "Peers".toList].filter
      (fun key => decide (key <:+ name ++ "Anchor".toList)) = [o ++ "Anchor".toList].filter
        fun key => decide (key <:+ name ++ "Anchor".toList) := by
    intro o
    have hpeers : [o ++ "Peers".toList].filter
        (fun key => decide (key <:+ name ++ "Anchor".toList)) = [] :=
      List.filter_cons_of_neg fun h =>
        not_suffix_of_endings (by decide) o name (of_decide_eq_true h)
    rw [List.filter_cons, hpeers, List.filter_cons, List.filter_nil]
  have hall : (["allAnchors".toList, "allPeers".toList].filter
      fun key => decide (key <:+ name ++ "Anchor".toList)) = [] := by
    refine List.filter_eq_nil_iff.mpr fun key hkey hends => ?_
    rcases List.mem_pair.mp hkey with rfl | rfl
    · exact not_suffix_of_endings (by decide) [] name (of_decide_eq_true hends)
    · exact not_suffix_of_endings (by decide) [] name (of_decide_eq_true hends)
  rw [keysEnding_of_alias _ _ _ (by decide), aliasKeys, List.filter_append,
    filter_flatMap_of hkeys, hall, List.append_nil]
  simp only [List.suffix_append_self_iff]

theorem keysEnding_peers (network_type : String) (org_list : List (List Char))
    (name : List Char) :
    keysEnding network_type org_list (name ++ "Peers".toList) =
      (org_list.filter fun o => o <:+ name).map (· ++ "Peers".toList) ++
        (if "all".toList <:+ name then ["allPeers".toList] else []) := by
  have hkeys : ∀ o : List Char, [o ++ "Anchor".toList, o ++ "Peers".toList].filter
      (fun key => decide (key <:+ name ++ "Peers".toList)) = [o ++ "Peers".toList].filter
        fun key => decide (key <:+ name ++ "Peers".toList) := fun o =>
    List.filter_cons_of_neg fun h =>
      not_suffix_of_endings (by decide) o name (of_decide_eq_true h)
  have hanchors : ¬ decide ("allAnchors".toList <:+ name ++ "Peers".toList) = true :=
    fun h => not_suffix_of_endings (by decide) [] name (of_decide_eq_true h)
  have hname : "allPeers".toList = "all".toList ++ "Peers".toList := by decide
  have hends : "allPeers".toList <:+ name ++ "Peers".toList ↔ "all".toList <:+ name := by
    rw [hname]
    exact List.suffix_append_self_iff
  have hall : (["allAnchors".toList, "allPeers".toList].filter
      fun key => decide (key <:+ name ++ "Peers".toList)) =
        if "all".toList <:+ name then ["allPeers".toList] else [] := by
    rw [List.filter_cons_of_neg (p := fun key => decide (key <:+ name ++ "Peers".toList)) hanchors]
    split
    · next h => exact List.filter_cons_of_pos (decide_eq_true (hends.mpr h))
    · next h => exact List.filter_cons_of_neg fun h' => h (hends.mp (of_decide_eq_true h'))
  rw [keysEnding_of_alias _ _ _ (by decide), aliasKeys, List.filter_append,
    filter_flatMap_of hkeys, hall]
  simp only [List.suffix_append_self_iff]

theorem keysEnding_allAnchors (network_type : String) (org_list : List (List Char)) :
    keysEnding network_type org_list "allAnchors".toList = ["allAnchors".toList] := by
  have horgs : ((org_list.flatMap fun o => [o ++ "Anchor".toList, o ++ "Peers".toList]).filter
      fun key => decide (key <:+ "allAnchors".toList)) = [] := by
    refine List.filter_eq_nil_iff.mpr fun key hkey hends => ?_
    obtain ⟨o, -, hmem⟩ := List.mem_flatMap.mp hkey
    rcases List.mem_pair.mp hmem with rfl | rfl
    · exact not_suffix_of_endings (by decide) o [] (of_decide_eq_true hends)
    · exact not_suffix_of_endings (by decide) o [] (of_decide_eq_true hends)
  have hall := @keysEnding_of_alias network_type org_list [] "allAnchors".toList (by decide)
  rw [List.nil_append] at hall
  rw [hall, aliasKeys, List.filter_append, horgs]
  decide

theorem filter_eq_singleton_iff {α : Type} [DecidableEq α] {l : List α} (hnodup : l.Nodup) {a : α}
    (ha : a ∈ l) {p : α → Bool} (hp : p a = true) :
    l.filter p = [a] ↔ ∀ b ∈ l, p b = true → b = a := by
  constructor
  · intro h b hb hpb
    exact List.mem_singleton.mp (h ▸ List.mem_filter.mpr ⟨hb, hpb⟩)
  · intro h
    have hsame : l.filter p = l.filter (· == a) := by
      refine List.filter_congr fun b hb => Bool.eq_iff_iff.mpr ⟨fun hpb => ?_, fun heq => ?_⟩
      · exact beq_iff_eq.mpr (h b hb hpb)
      · rw [beq_iff_eq.mp heq, hp]
    rw [hsame, List.filter_beq, List.count_eq_one_of_mem hnodup ha]
    rfl

/-- Exactly when the names are apart, a key is the only one at its end. -/
theorem namesApart_iff (network_type : String) {org_list : List (List Char)}
    (hdistinct : org_list.Nodup) :
    (∀ key ∈ aliasKeys org_list, keysEnding network_type org_list key = [key]) ↔
      NamesApart org_list := by
  have horg : ∀ {o}, o ∈ org_list →
      ((org_list.filter fun o' => decide (o' <:+ o)) = [o] ↔
        ∀ o' ∈ org_list, o' <:+ o → o' = o) := by
    intro o ho
    rw [filter_eq_singleton_iff hdistinct ho (decide_eq_true List.suffix_rfl)]
    simp only [decide_eq_true_eq]
  have hall : "allPeers".toList = "all".toList ++ "Peers".toList := by decide
  have hmap : ∀ {ending : List Char} {o : List Char} {l : List (List Char)},
      l.map (· ++ ending) = [o ++ ending] ↔ l = [o] := by
    intro ending o l
    rw [List.map_eq_singleton_iff]
    simp only [List.append_cancel_right_eq, exists_eq_right]
  constructor
  · intro h
    have hanchor : ∀ o ∈ org_list, keysEnding network_type org_list (o ++ "Anchor".toList) =
        [o ++ "Anchor".toList] := fun o ho => h _ (List.mem_append_left _
      (List.mem_flatMap.mpr ⟨o, ho, List.mem_cons_self⟩))
    have hpeers : ∀ o ∈ org_list, keysEnding network_type org_list (o ++ "Peers".toList) =
        [o ++ "Peers".toList] := fun o ho => h _ (List.mem_append_left _
      (List.mem_flatMap.mpr ⟨o, ho, List.mem_cons_of_mem _ List.mem_cons_self⟩))
    have hallPeers := h "allPeers".toList (List.mem_append_right _
      (List.mem_cons_of_mem _ List.mem_cons_self))
    refine ⟨fun o ho o' ho' hends => ?_, fun o ho => ⟨fun hends => ?_, fun hends => ?_⟩⟩
    · have hkeys := hanchor o' ho'
      rw [keysEnding_anchor, hmap, horg ho'] at hkeys
      exact hkeys o ho hends
    · rw [hall, keysEnding_peers, if_pos List.suffix_rfl, ← hall] at hallPeers
      -- the key of such a name would end `allPeers` as well
      have hnone := eq_nil_of_map_append_eq_singleton hallPeers
      exact List.filter_eq_nil_iff.mp hnone o ho (decide_eq_true hends)
    · have hkeys := hpeers o ho
      rw [keysEnding_peers, if_pos hends] at hkeys
      -- `allPeers` would end the key of such a name
      have hnone := eq_nil_of_map_append_eq_singleton hkeys
      exact List.filter_eq_nil_iff.mp hnone o ho (decide_eq_true List.suffix_rfl)
  · intro h key hkey
    rcases List.mem_append.mp hkey with horgKey | hallKey
    · obtain ⟨o, ho, hmem⟩ := List.mem_flatMap.mp horgKey
      have honly := (horg ho).mpr fun o' ho' hends => h.endings o' ho' o ho hends
      rcases List.mem_pair.mp hmem with rfl | rfl
      · rw [keysEnding_anchor, honly]
        rfl
      · rw [keysEnding_peers, honly, if_neg (h.all o ho).2]
        rfl
    · rcases List.mem_pair.mp hallKey with rfl | rfl
      · exact keysEnding_allAnchors network_type org_list
      · have hnone : (org_list.filter fun o => decide (o <:+ "all".toList)) = [] :=
          List.filter_eq_nil_iff.mpr fun o ho hends => (h.all o ho).1 (of_decide_eq_true hends)
        rw [hall, keysEnding_peers, hnone, if_pos List.suffix_rfl]
        rfl

theorem not_suffix_concat {key line : List Char} {c : Char} (hne : key ≠ []) (hc : c ∉ key) :
    ¬ key <:+ line ++ [c] := fun h =>
  (List.suffix_concat_iff.mp h).elim hne fun ⟨t, ht, _⟩ =>
    hc (ht ▸ List.mem_append_right t List.mem_cons_self)

/-- When an alias has its anchor and nothing else. -/
theorem writtenText_alias_iff (hdumper : dumper.Documented)
    (hnames : ∀ o ∈ org_list, ∀ c ∈ o, isNameChar c = true) {item : List Char × List Char}
    (hitem : item.1 ∈ aliasKeys org_list) :
    writtenText dumper network_type org_list item = anchoredText dumper item ↔
      dumper.key item.1 = item.1 ∧ keysEnding network_type org_list item.1 = [item.1] ∧
        ∀ key ∈ anchorKeys network_type org_list,
          ¬ key ++ ":".toList <:+: dumper.value item.2 := by
  have hmem : item.1 ∈ anchorKeys network_type org_list := List.mem_append_left _ hitem
  have hkeys := @isNameChar_of_anchorKeys network_type org_list hnames
  have hanchors : ∀ key ∈ anchorKeys network_type org_list, anchorOf key ≠ [] := fun key _ =>
    List.cons_ne_nil _ _
  have hcolon : ∀ key ∈ anchorKeys network_type org_list, ':' ∉ key := fun key hkey =>
    not_mem_of_name (hkeys key hkey).2 (by decide)
  -- a space is in no key, so a key that ends the line is at the end of the item's key
  have hspace : ∀ {key line : List Char}, key ∈ anchorKeys network_type org_list →
      (key <:+ "- ".toList ++ line ↔ key <:+ line) := by
    intro key line hkey
    have hno : ' ' ∉ key := not_mem_of_name (hkeys key hkey).2 (by decide)
    refine ⟨fun h => ?_, List.suffix_append_of_suffix⟩
    rcases List.suffix_or_suffix_of_suffix h (List.suffix_append _ line) with hs | ⟨t, rfl⟩
    · exact hs
    · have ht : t <:+ ['-'] ++ [' '] := List.suffix_append_self_iff.mp h
      rcases List.suffix_concat_iff.mp ht with rfl | ⟨r, rfl, -⟩
      · exact List.suffix_rfl
      · exact absurd (by simp) hno
  rw [writtenText_eq_iff, insertAnchors_eq]
  rcases hdumper.key item.1 (hkeys item.1 hmem).2 with hplain | ⟨front, hquoted⟩
  · rw [hplain, inserted_append_eq_iff hanchors hmem (List.suffix_append _ _)]
    have hfilter : ((anchorKeys network_type org_list).filter
        fun key => key <:+ "- ".toList ++ item.1) = keysEnding network_type org_list item.1 :=
      List.filter_congr fun key hkey => decide_eq_decide.mpr (hspace hkey)
    rw [hfilter]
    exact ⟨fun h => ⟨rfl, h⟩, And.right⟩
  · have hno : ∀ key ∈ anchorKeys network_type org_list,
        ¬ key <:+ "- ".toList ++ dumper.key item.1 := by
      intro key hkey
      obtain ⟨hne, hname⟩ := hkeys key hkey
      rcases hquoted with h | h
      · rw [h, ← List.append_assoc]
        exact not_suffix_concat hne (not_mem_of_name hname (by decide))
      · rw [h, ← List.append_assoc]
        exact not_suffix_concat hne (not_mem_of_name hname (by decide))
    refine iff_of_false ?_ fun h => ?_
    · exact inserted_append_ne (fun key hkey => ⟨(hkeys key hkey).1, hcolon key hkey⟩) hno
        (hanchors item.1 hmem) (fun h => (List.mem_append.mp h).elim (by decide)
          (hcolon item.1 hmem)) (by decide) _
    · refine hno item.1 hmem ?_
      rw [h.1]
      exact List.suffix_append _ _

end

/-! ## The whole list -/

/-- What the replacements rely on: the names are apart, each alias is written
    plain, and no value has a key with a colon in it. -/
structure AnchorsFit (dumper : Dumper) (network_type : String) (org_list : List (List Char))
    (aliases : List (List Char × List Char)) : Prop where
  names : NamesApart org_list
  plain : ∀ item ∈ aliases, dumper.key item.1 = item.1
  values : ∀ item ∈ aliases, ∀ key ∈ anchorKeys network_type org_list,
    ¬ key ++ ":".toList <:+: dumper.value item.2

/-- **When each alias gets its anchor.**  In the text that has the list of
    aliases between two others, the list comes out with one anchor before each
    value and otherwise as it was, exactly if the names, the keys and the values
    are `AnchorsFit`. -/
theorem insertAnchors_aliases_iff {dumper : Dumper} (hdumper : dumper.Documented)
    (network_type : String) {org_list : List (List Char)}
    (hnames : ∀ o ∈ org_list, ∀ c ∈ o, isNameChar c = true) (hdistinct : org_list.Nodup)
    {aliases : List (List Char × List Char)} (hkeys : aliases.map Prod.fst = aliasKeys org_list)
    (before after : List Char) :
    insertAnchors network_type org_list
        (before ++ '\n' :: (aliases.flatMap (itemText dumper) ++ after)) =
      insertAnchors network_type org_list before ++
        '\n' :: (aliases.flatMap (anchoredText dumper) ++
          insertAnchors network_type org_list after) ↔
      AnchorsFit dumper network_type org_list aliases := by
  have halias : ∀ item ∈ aliases, item.1 ∈ aliasKeys org_list := fun item hitem =>
    hkeys ▸ List.mem_map_of_mem hitem
  have hitems : ∀ item ∈ aliases, ∀ c ∈ item.1, isNameChar c = true := fun item hitem =>
    (@isNameChar_of_anchorKeys network_type org_list hnames item.1
      (List.mem_append_left _ (halias item hitem))).2
  rw [insertAnchors_append_line hnames, insertAnchors_items hdumper hnames hitems,
    List.append_cancel_left_eq, List.cons.injEq, List.append_cancel_right_eq]
  -- the texts of the items are marked off, so they agree one by one
  have hparts : aliases.flatMap (writtenText dumper network_type org_list) =
      aliases.flatMap (anchoredText dumper) ↔ ∀ item ∈ aliases,
        writtenText dumper network_type org_list item = anchoredText dumper item := by
    refine ⟨fun h => ?_, List.flatMap_congr⟩
    exact eq_of_flatMap_eq (fun item hitem => marked_writtenText hdumper hnames (hitems item hitem))
      (fun item hitem => marked_anchoredText hdumper (hitems item hitem)) h
  -- that no other key ends a key is a matter of the names alone
  have hending : (∀ item ∈ aliases, keysEnding network_type org_list item.1 = [item.1]) ↔
      NamesApart org_list := by
    rw [← namesApart_iff network_type hdistinct, ← hkeys, List.forall_mem_map]
  rw [hparts, forall₂_congr fun item hitem => writtenText_alias_iff hdumper hnames
    (halias item hitem)]
  constructor
  · rintro ⟨-, h⟩
    exact ⟨hending.mp fun item hitem => (h item hitem).2.1, fun item hitem => (h item hitem).1,
      fun item hitem => (h item hitem).2.2⟩
  · intro h
    exact ⟨rfl, fun item hitem => ⟨h.plain item hitem, hending.mpr h.names item hitem,
      h.values item hitem⟩⟩

/-- A dumper that writes keys plain and values on one line. -/
def plainDumper : Dumper := ⟨fun key => key, fun value => value.filter (· ≠ '\n')⟩

theorem plainDumper_documented : plainDumper.Documented where
  key _ _ := Or.inl rfl
  colon _ hkey := not_mem_of_name hkey (by decide)
  key_indented _ hkey h := not_mem_of_name hkey (by decide) (h.subset List.mem_cons_self)
  value_indented value h := by
    have hmem : '\n' ∈ value.filter (· ≠ '\n') := h.subset List.mem_cons_self
    simp at hmem

/-- The aliases of two organizations with one peer each. -/
def twoOrgs (first second : String) : List (List Char × List Char) :=
  peernodeAlias [first.toList, second.toList] (fun _ => "peer1".toList) fun _ => ["peer1".toList]

theorem isNameChar_of_all {names : List (List Char)}
    (h : (names.all fun o => o.all isNameChar) = true) :
    ∀ o ∈ names, ∀ c ∈ o, isNameChar c = true := fun o ho =>
  List.all_eq_true.mp (List.all_eq_true.mp h o ho)

/-- Two organizations that have their anchors. -/
theorem insertAnchors_aliases_iff_orgs :
    insertAnchors "cello" ["Org1".toList, "Org2".toList] ("peernodeAlias:".toList ++
        '\n' :: ((twoOrgs "Org1" "Org2").flatMap (itemText plainDumper) ++ "runid: x".toList)) =
      insertAnchors "cello" ["Org1".toList, "Org2".toList] "peernodeAlias:".toList ++
        '\n' :: ((twoOrgs "Org1" "Org2").flatMap (anchoredText plainDumper) ++
          insertAnchors "cello" ["Org1".toList, "Org2".toList] "runid: x".toList) :=
  (insertAnchors_aliases_iff plainDumper_documented "cello" (isNameChar_of_all (by decide))
    (by decide) (keys_peernodeAlias _ _ _) _ _).mpr
    ⟨⟨by decide, by decide⟩, by decide +kernel, by decide +kernel⟩

/-- A name at the end of another one: the longer one gets both anchors. -/
theorem anchor_of_other_org :
    insertAnchors "cello" ["Org1".toList, "MyOrg1".toList] "- MyOrg1Anchor: peer1\n".toList =
        "- MyOrg1Anchor: &MyOrg1Anchor &Org1Anchor peer1\n".toList ∧
      insertAnchors "cello" ["Org1".toList, "MyOrg1".toList] ("peernodeAlias:".toList ++
          '\n' :: ((twoOrgs "Org1" "MyOrg1").flatMap (itemText plainDumper) ++ [])) ≠
        insertAnchors "cello" ["Org1".toList, "MyOrg1".toList] "peernodeAlias:".toList ++
          '\n' :: ((twoOrgs "Org1" "MyOrg1").flatMap (anchoredText plainDumper) ++
            insertAnchors "cello" ["Org1".toList, "MyOrg1".toList] []) ∧
      (∀ o ∈ ["Org1".toList, "MyOrg1".toList], ∀ c ∈ o, isNameChar c = true) ∧
      ["Org1".toList, "MyOrg1".toList].Nodup :=
  ⟨by decide +kernel, by decide +kernel, isNameChar_of_all (by decide), by decide⟩

end Hfrd.Ansible
