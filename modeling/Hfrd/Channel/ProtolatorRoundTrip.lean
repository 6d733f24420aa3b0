/-
  Hfrd.Channel.ProtolatorRoundTrip

  `populateTree` undoes `createTree`, whatever is inside what: a message comes
  back from its tree where jsonpb brings back, by itself, each message in it
  (`Kept`), and the methods of the messages look only at fields that are filled
  before (`Ordered`).  Null members may be taken out of the tree in between.
-/

import Hfrd.Channel.Protolator
import Hfrd.Go.JsonExact
import Hfrd.Go.JsonNulls
import Hfrd.Go.Map
import Hfrd.Lib.Fallible
import Mathlib.Logic.Relation

namespace Hfrd.Channel.Protolator

open Hfrd.Go Hfrd.Lib

variable {κ δ π : Type} {w : Proto κ δ π} {kind inner : Kind κ δ} {msg cur nMsg : Message π}
  {field : ProtoField κ} {tree tree' : Fields}

/-! ## What is inside a message -/

/-- The messages of a property, each with its place. -/
def FieldValue.elements : FieldValue π → List (Place × Element π)
  | .single e => [(.field, e)]
  | .slice es => es.zipIdx.map fun entry => (.index entry.2, entry.1)
  | .map es => es.map fun entry => (.key entry.1, entry.2)
  | .nil => []
  | .plain _ => []

/-- The message of an element. -/
def Element.Holds (w : Proto κ δ π) (inner : Kind κ δ) (nMsg : Message π) : Element π → Prop
  | .bytes b => w.unmarshal inner.type b = .ok nMsg
  | .message fields => fields = nMsg

/-- The second message is in a field of the first one. -/
def InField (w : Proto κ δ π) (kind : Kind κ δ) (msg : Message π) (name : String)
    (place : Place) (inner : Kind κ δ) (nMsg : Message π) : Prop :=
  ∃ field ∈ protoFields w kind, field.name = name ∧
    innerKind w kind msg field place = .ok inner ∧
    ∃ e, (place, e) ∈ (msg name).elements ∧ e.Holds w inner nMsg

/-- The second message is directly inside the first one. -/
def Inside (w : Proto κ δ π) (outer inner : Kind κ δ × Message π) : Prop :=
  ∃ name place, InField w outer.1 outer.2 name place inner.1 inner.2

/-! ## Assumptions -/

/-- "In correct dependency order": what a message says of a field depends on
    fields that are filled before it. -/
def Ordered (w : Proto κ δ π) : Prop :=
  ∀ kind done field todo, protoFields w kind = done ++ field :: todo → ∀ msg msg' : Message π,
    (∀ name, name ∉ (field :: todo).map ProtoField.name → msg name = msg' name) →
    ∀ place, innerKind w kind msg field place = innerKind w kind msg' field place

/-- The property is handled by a factory. -/
def isHandled (w : Proto κ δ π) (kind : Kind κ δ) (name : String) : Bool :=
  (protoFields w kind).any (·.name == name)

/-- What jsonpb and the codec do with a message by themselves. -/
structure Kept (w : Proto κ δ π) (kind : Kind κ δ) (msg : Message π) : Prop where
  /-- Every field that is set is written. -/
  written : ∀ {jsonBytes tree}, w.marshalJSON kind.type msg = .ok jsonBytes →
    jsonToMap w jsonBytes = .ok tree → ∀ field ∈ protoFields w kind,
      (msg field.name).isNil = false → (tree.lookup field.name).isSome = true
  /-- A field that is not set is written as `null`, if at all. -/
  unset : ∀ {jsonBytes tree}, w.marshalJSON kind.type msg = .ok jsonBytes →
    jsonToMap w jsonBytes = .ok tree → ∀ field ∈ protoFields w kind,
      msg field.name = .nil → w.new kind.type field.name = .nil ∧
        ∀ v, tree.lookup field.name = some v → v = .null
  /-- The other fields come back, also where null members are left out. -/
  others : ∀ {jsonBytes tree}, w.marshalJSON kind.type msg = .ok jsonBytes →
    jsonToMap w jsonBytes = .ok tree → ∀ rest,
      LessMembers LessNulls (plainFields w kind tree) rest →
      w.unmarshalJSON kind.type (Value.object rest).text (w.new kind.type) =
        .ok fun name => if isHandled w kind name then w.new kind.type name else msg name
  /-- Maps are in the order of their keys. -/
  sorted : ∀ field ∈ protoFields w kind, ∀ es, msg field.name = .map es →
    (es.map Prod.fst).Pairwise (· < ·)
  /-- Bytes are those that the codec writes. -/
  canonical : ∀ field ∈ protoFields w kind, ∀ {place inner nMsg b},
    innerKind w kind msg field place = .ok inner → (place, .bytes b) ∈ (msg field.name).elements →
    w.unmarshal inner.type b = .ok nMsg → w.marshal inner.type nMsg = .ok b

/-- A message that is kept, with all that is inside it. -/
def AllKept (w : Proto κ δ π) (kind : Kind κ δ) (msg : Message π) : Prop :=
  ∀ kind' msg', Relation.ReflTransGen (Inside w) (kind, msg) (kind', msg') → Kept w kind' msg'

theorem AllKept.kept (h : AllKept w kind msg) : Kept w kind msg := h kind msg .refl

theorem AllKept.inField (h : AllKept w kind msg) {name : String} {place : Place}
    (hin : InField w kind msg name place inner nMsg) : AllKept w inner nMsg :=
  fun kind' msg' hrest => h kind' msg' (.head ⟨name, place, hin⟩ hrest)

theorem AllKept.of_inside (h : Kept w kind msg)
    (hin : ∀ {name place inner nMsg}, InField w kind msg name place inner nMsg →
      AllKept w inner nMsg) : AllKept w kind msg := by
  intro kind' msg' hreach
  rcases hreach.cases_head with heq | ⟨x, ⟨name, place, hx⟩, hreach⟩
  · obtain ⟨rfl, rfl⟩ := Prod.mk.inj heq
    exact h
  · exact hin hx kind' msg' hreach

/-! ## Fields -/

/-- A field has one factory. -/
theorem nodup_protoFields (kind : Kind κ δ) :
    ((protoFields w kind).map ProtoField.name).Nodup := by
  rw [protoFields, List.map_flatMap, List.nodup_flatMap]
  have hprops := w.nodup_properties kind.type
  constructor
  · intro factory _
    rw [List.map_map]
    exact (List.filter_sublist.map Property.name).nodup hprops
  · have hnodup : fieldFactories.reverse.Pairwise (· ≠ ·) := by decide
    refine hnodup.imp fun {a b} hne name hname hname' => hne ?_
    simp only [List.map_map, List.mem_map, List.mem_filter, Function.comp_apply,
      beq_iff_eq] at hname hname'
    obtain ⟨p, ⟨hp, hfind⟩, rfl⟩ := hname
    obtain ⟨q, ⟨hq, hfind'⟩, hname⟩ := hname'
    obtain rfl := List.inj_on_of_nodup_map hprops hq hp hname
    exact Option.some.inj (hfind.symm.trans hfind')

/-! ## The tree of a message -/

theorem wellFormed_of_jsonToMap {text : List Char} (h : jsonToMap w text = .ok tree) :
    (Value.object tree).WellFormed := by
  rw [jsonToMap] at h
  split at h
  · next hread =>
      obtain rfl := Except.ok.inj h
      exact wellFormed_of_unmarshal hread
  · obtain rfl := Except.ok.inj h
    exact .object List.Pairwise.nil fun f hf => absurd hf List.not_mem_nil
  · cases h

/-- What `createTree` makes of a message: the tree that jsonpb wrote, with the
    fields that are set replaced. -/
structure Created (w : Proto κ δ π)
    (createTree : Kind κ δ → Message π → Except Failure Fields) (kind : Kind κ δ)
    (msg : Message π) (tree : Fields) (jsonBytes : List Char) (written : Fields) : Prop where
  marshalled : w.marshalJSON kind.type msg = .ok jsonBytes
  read : jsonToMap w jsonBytes = .ok written
  replaced : ∀ field ∈ protoFields w kind, (msg field.name).isNil = false →
    (written.lookup field.name).isSome = true →
    ∃ value, populateTo w createTree kind msg field = .ok value ∧
      tree.lookup field.name = some value
  unset : ∀ field ∈ protoFields w kind, (msg field.name).isNil = true →
    tree.lookup field.name = written.lookup field.name
  others : plainFields w kind tree = plainFields w kind written
  wellFormed : (Value.object tree).WellFormed

theorem filter_setField {p : String → Bool} {key : String} (h : p key = false) (fields : Fields)
    (value : Value) :
    (setField fields key value).filter (fun f => p f.1) = fields.filter fun f => p f.1 := by
  induction fields with
  | nil => simp [setField, h]
  | cons f fields ih =>
      obtain ⟨key', value'⟩ := f
      rw [setField]
      split
      · next heq =>
          subst heq
          simp [h]
      · split
        · simp [h]
        · rw [List.filter_cons, List.filter_cons, ih]

theorem isHandled_of_mem (h : field ∈ protoFields w kind) :
    isHandled w kind field.name = true :=
  List.any_eq_true.mpr ⟨field, h, beq_self_eq_true _⟩

/-- The tree after the rounds for some of the fields. -/
structure Replaced (w : Proto κ δ π)
    (createTree : Kind κ δ → Message π → Except Failure Fields) (kind : Kind κ δ)
    (msg : Message π) (written : Fields) (done : List (ProtoField κ)) (tree : Fields) : Prop where
  replaced : ∀ field ∈ done, (written.lookup field.name).isSome = true →
    ∃ value, populateTo w createTree kind msg field = .ok value ∧
      tree.lookup field.name = some value
  rest : ∀ name, name ∉ done.map ProtoField.name → tree.lookup name = written.lookup name
  others : plainFields w kind tree = plainFields w kind written
  wellFormed : (Value.object tree).WellFormed

theorem Replaced.round {createTree : Kind κ δ → Message π → Except Failure Fields}
    {written : Fields} {done : List (ProtoField κ)}
    (h : Replaced w createTree kind msg written done tree) (hfield : field ∈ protoFields w kind)
    (hnew : field.name ∉ done.map ProtoField.name)
    (hvalues : ∀ value, populateTo w createTree kind msg field = .ok value → value.WellFormed)
    (hround : replaceField w createTree kind msg field tree = .ok tree') :
    Replaced w createTree kind msg written (done ++ [field]) tree' := by
  rw [replaceField, h.rest field.name hnew] at hround
  split at hround
  -- the member is not in the tree, so nothing is replaced
  · next hnone =>
      obtain rfl := Except.ok.inj hround
      refine ⟨fun field' hmem hsome => ?_, fun name hname => h.rest name ?_, h.others,
        h.wellFormed⟩
      · rcases List.mem_append.mp hmem with hmem | hmem
        · exact h.replaced field' hmem hsome
        · rw [List.mem_singleton.mp hmem, hnone] at hsome
          cases hsome
      · rw [List.map_append] at hname
        exact fun hmem => hname (List.mem_append_left _ hmem)
  · rw [Go.bind_eq_ok] at hround
    -- the member is replaced, and the others stay
    obtain ⟨value, hvalue, hround⟩ := hround
    obtain rfl := Except.ok.inj hround
    refine ⟨fun field' hmem hsome => ?_, fun name hname => ?_, ?_,
      h.wellFormed.setField field.name (hvalues value hvalue)⟩
    · rcases List.mem_append.mp hmem with hmem | hmem
      · have hne : field'.name ≠ field.name := fun heq => hnew (heq ▸ List.mem_map_of_mem hmem)
        rw [lookup_setField, if_neg hne]
        exact h.replaced field' hmem hsome
      · rw [List.mem_singleton.mp hmem]
        exact ⟨value, hvalue, by rw [lookup_setField, if_pos rfl]⟩
    · rw [List.map_append, List.mem_append, not_or] at hname
      have hne : name ≠ field.name := fun heq => hname.2 (by simp [heq])
      rw [lookup_setField, if_neg hne]
      exact h.rest name hname.1
    · rw [← h.others]
      refine filter_setField (p := fun name => !isHandled w kind name) ?_ tree value
      rw [isHandled_of_mem hfield]
      rfl

theorem created_of_createTreeStep
    {createTree : Kind κ δ → Message π → Except Failure Fields}
    (hvalues : ∀ field ∈ protoFields w kind, ∀ value,
      populateTo w createTree kind msg field = .ok value → value.WellFormed)
    (h : createTreeStep w createTree kind msg = .ok tree) :
    ∃ jsonBytes written, Created w createTree kind msg tree jsonBytes written := by
  simp only [createTreeStep, mapError_eq_ok, Go.bind_eq_ok, orError] at h
  obtain ⟨fields, hfields, jsonBytes, hjson, written, hwritten, h⟩ := h
  rw [protoFieldsForDecode] at hfields
  split at hfields
  · cases hfields
  obtain rfl := Except.ok.inj hfields
  set fields := (protoFields w kind).filter fun field => !(msg field.name).isNil with hset
  have hsub : ∀ field ∈ fields, field ∈ protoFields w kind ∧ (msg field.name).isNil = false := by
    intro field hfield
    simpa [hset] using hfield
  have hnodup : (fields.map ProtoField.name).Nodup :=
    (List.filter_sublist.map ProtoField.name).nodup (nodup_protoFields kind)
  -- the rounds of the loop, each at a field that was not replaced yet
  have hreplaced : Replaced w createTree kind msg written fields tree := by
    refine foldlM_ok (P := Replaced w createTree kind msg written) ?_ ?_ h
    · intro done field todo t t' hsplit ht hround
      have hfield := hsub field (hsplit ▸ List.mem_append_right done List.mem_cons_self)
      rw [hsplit, List.map_append, List.map_cons] at hnodup
      exact ht.round hfield.1 (fun hmem =>
        (List.nodup_append.mp hnodup).2.2 _ hmem _ List.mem_cons_self rfl)
        (hvalues field hfield.1) hround
    · exact ⟨fun _ hmem => absurd hmem List.not_mem_nil, fun _ _ => rfl, rfl,
        wellFormed_of_jsonToMap hwritten⟩
  -- a field that is not set keeps what jsonpb wrote
  refine ⟨jsonBytes, written, hjson, hwritten, ?_, fun field _ hnil => ?_, hreplaced.others,
    hreplaced.wellFormed⟩
  · exact fun field hfield hisSet => hreplaced.replaced field (by simp [hset, hfield, hisSet])
  · refine hreplaced.rest field.name fun hmem => ?_
    obtain ⟨field', hfield', hname⟩ := List.mem_map.mp hmem
    have hisSet := (hsub field' hfield').2
    rw [hname, hnil] at hisSet
    cases hisSet

/-! ## One element -/

/-- `populateTree` undoes `createTree`, with a bound on the depth. -/
def Undone (w : Proto κ δ π) (createTree : Kind κ δ → Message π → Except Failure Fields)
    (populateTree : Kind κ δ → Fields → Message π → Except Failure (Message π)) : Prop :=
  ∀ {kind msg tree}, AllKept w kind msg → createTree kind msg = .ok tree →
    (Value.object tree).WellFormed ∧ ∀ tree', LessMembers LessNulls tree tree' →
      populateTree kind tree' (w.new kind.type) = .ok msg

section Step

variable {createTree : Kind κ δ → Message π → Except Failure Fields}
  {populateTree : Kind κ δ → Fields → Message π → Except Failure (Message π)}

theorem elementFrom_of_elementTo (hundone : Undone w createTree populateTree)
    (hkept : AllKept w kind msg) (hfield : field ∈ protoFields w kind) {place : Place}
    (hagree : innerKind w kind msg field place = innerKind w kind cur field place)
    {e : Element π} (he : (place, e) ∈ (msg field.name).elements) {v : Value}
    (h : elementTo w createTree kind msg field place e = .ok v) :
    ∃ tree, v = .object tree ∧ (Value.object tree).WellFormed ∧
      ∀ tree', LessMembers LessNulls tree tree' →
        elementFrom w populateTree kind cur field place tree' = .ok e := by
  unfold elementTo at h
  split at h
  -- bytes: the message they stand for is written, and gives the same bytes back
  · next mMsg hopaque =>
      simp only [Go.bind_eq_ok, orError, mapError_eq_ok] at h
      obtain ⟨inner, hinner, nMsg, hunmarshal, tree, htree, h⟩ := h
      obtain rfl := Except.ok.inj h
      have hin : InField w kind msg field.name place inner nMsg :=
        ⟨field, hfield, rfl, hinner, _, he, hunmarshal⟩
      obtain ⟨hwell, hpopulate⟩ := hundone (hkept.inField hin) htree
      refine ⟨tree, rfl, hwell, fun tree' hless => ?_⟩
      have hmarshal := hkept.kept.canonical field hfield hinner he hunmarshal
      simp [elementFrom, ← hagree, hinner, hpopulate tree' hless, hopaque, hmarshal, orError,
        bind, Except.bind, Except.mapError, pure, Except.pure]
  -- a message: written as it is
  · next nMsg hopaque =>
      simp only [Go.bind_eq_ok] at h
      obtain ⟨inner, hinner, tree, htree, h⟩ := h
      obtain rfl := Except.ok.inj h
      have hin : InField w kind msg field.name place inner nMsg :=
        ⟨field, hfield, rfl, hinner, _, he, rfl⟩
      obtain ⟨hwell, hpopulate⟩ := hundone (hkept.inField hin) htree
      refine ⟨tree, rfl, hwell, fun tree' hless => ?_⟩
      simp [elementFrom, ← hagree, hinner, hpopulate tree' hless, hopaque, bind, Except.bind,
        pure, Except.pure]
  · cases h

/-- The same of a value that is to be an object. -/
theorem elementFromValue_of_elementTo (hundone : Undone w createTree populateTree)
    (hkept : AllKept w kind msg) (hfield : field ∈ protoFields w kind) {place : Place}
    (hagree : innerKind w kind msg field place = innerKind w kind cur field place)
    {e : Element π} (he : (place, e) ∈ (msg field.name).elements) {v : Value}
    (h : elementTo w createTree kind msg field place e = .ok v) :
    v.isNull = false ∧ v.WellFormed ∧ ∀ v', LessNulls v v' → ∀ expected at',
      elementFromValue w populateTree kind cur field expected at' place v' = .ok e := by
  obtain ⟨tree, rfl, hwell, helement⟩ :=
    elementFrom_of_elementTo hundone hkept hfield hagree he h
  refine ⟨rfl, hwell, fun v' hless expected at' => ?_⟩
  cases hless with
  | object hless =>
      rw [elementFromValue, mapError_eq_ok]
      exact helement _ hless

/-! ## One field -/

/-- The element at a place comes back from its value. -/
def ComesBack (w : Proto κ δ π)
    (createTree : Kind κ δ → Message π → Except Failure Fields)
    (populateTree : Kind κ δ → Fields → Message π → Except Failure (Message π))
    (kind : Kind κ δ) (msg cur : Message π) (field : ProtoField κ) : Prop :=
  ∀ place e v, (place, e) ∈ (msg field.name).elements →
    elementTo w createTree kind msg field place e = .ok v →
    v.isNull = false ∧ v.WellFormed ∧ ∀ v', LessNulls v v' → ∀ expected at',
      elementFromValue w populateTree kind cur field expected at' place v' = .ok e

theorem populateFrom_map (hback : ComesBack w createTree populateTree kind msg cur field)
    (hshape : field.factory.shape = .map) {es : List (String × Element π)}
    (hvalue : msg field.name = .map es) (hsorted : (es.map Prod.fst).Pairwise (· < ·)) {v : Value}
    (h : populateTo w createTree kind msg field = .ok v) :
    v.isNull = false ∧ v.WellFormed ∧ ∀ v', LessNulls v v' →
      populateFrom w populateTree kind cur field v' = .ok (.map es) := by
  simp only [populateTo, hshape, hvalue, Go.bind_eq_ok, mapM_eq_ok, mapError_eq_ok] at h
  obtain ⟨result, hresult, h⟩ := h
  obtain rfl := Except.ok.inj h
  -- each entry is read back from its own tree
  have hentries : List.Forall₂ (fun entry f => entry.1 = f.1 ∧ f.2.isNull = false ∧
      f.2.WellFormed ∧ ∀ v', LessNulls f.2 v' → ∀ expected at',
        elementFromValue w populateTree kind cur field expected at' (.key entry.1) v' =
          .ok entry.2) es result := by
    have hmem : ∀ entry ∈ es, (Place.key entry.1, entry.2) ∈ (msg field.name).elements := by
      rw [hvalue]
      exact fun entry hentry => List.mem_map_of_mem hentry
    refine ((List.forall₂_and_left _ _).mpr ⟨hmem, hresult⟩).imp ?_
    rintro entry f ⟨hentry, value, hto, hf⟩
    obtain rfl := Except.ok.inj hf
    exact ⟨rfl, hback _ _ _ hentry hto⟩
  have hkeys : es.map Prod.fst = result.map Prod.fst := by
    rw [← List.forall₂_eq_eq_eq, List.forall₂_map_left_iff, List.forall₂_map_right_iff]
    exact hentries.imp fun _ _ h => h.1
  have hall : ∀ f ∈ result, f.2.isNull = false ∧ f.2.WellFormed :=
    forall_mem_of_forall₂ (hentries.imp fun _ _ h => ⟨h.2.1, h.2.2.1⟩)
  refine ⟨rfl, .object (by rwa [SortedKeys, ← hkeys]) fun f hf => (hall f hf).2, ?_⟩
  intro v' hless
  cases hless with
  | object hless =>
      -- no entry is null, so none has been cut out
      have hkept := hless.forall₂ fun f hf => (hall f hf).1
      simp only [populateFrom, hshape, Go.bind_eq_ok, mapM_eq_ok]
      refine ⟨es, forall₂_of_forall₂ (fun entry f f' hentry hf => ?_) hentries hkept, rfl⟩
      obtain ⟨hkey, -, -, hentry⟩ := hentry
      rw [← hf.1, ← hkey]
      exact ⟨entry.2, hentry _ hf.2 _ _, rfl⟩

theorem populateFrom_slice (hback : ComesBack w createTree populateTree kind msg cur field)
    (hshape : field.factory.shape = .slice) {es : List (Element π)}
    (hvalue : msg field.name = .slice es) {v : Value}
    (h : populateTo w createTree kind msg field = .ok v) :
    v.isNull = false ∧ v.WellFormed ∧ ∀ v', LessNulls v v' →
      populateFrom w populateTree kind cur field v' = .ok (.slice es) := by
  simp only [populateTo, hshape, hvalue, Go.bind_eq_ok, mapM_zipIdx_eq_ok, mapError_eq_ok] at h
  obtain ⟨result, ⟨hlen, hresult⟩, h⟩ := h
  obtain rfl := Except.ok.inj h
  have hmem : ∀ i (hi : i < es.length), (Place.index i, es[i]) ∈ (msg field.name).elements := by
    intro i hi
    rw [hvalue]
    exact List.mem_map.mpr ⟨(es[i], i), List.mk_mem_zipIdx_iff_getElem?.mpr
      (List.getElem?_eq_getElem hi), rfl⟩
  have helement := fun i hi hi' => hback _ _ _ (hmem i hi) (hresult i hi hi')
  refine ⟨rfl, .array fun v hv => ?_, fun v' hless => ?_⟩
  · obtain ⟨i, hi, rfl⟩ := List.getElem_of_mem hv
    exact (helement i (hlen ▸ hi) hi).2.1
  · cases hless with
    | @array _ elements' hless =>
        obtain ⟨hlen', hless⟩ := List.forall₂_iff_get.mp hless
        simp only [populateFrom, hshape, Go.bind_eq_ok, mapM_zipIdx_eq_ok]
        refine ⟨es, ⟨by omega, fun i hi hi' => ?_⟩, rfl⟩
        exact (helement i hi' (hlen ▸ hi')).2.2 _ (hless i (hlen ▸ hi') hi) _ _

theorem populateFrom_single (hback : ComesBack w createTree populateTree kind msg cur field)
    (hshape : field.factory.shape = .plain) {v : Value}
    (h : populateTo w createTree kind msg field = .ok v) :
    v.isNull = false ∧ v.WellFormed ∧ ∀ v', LessNulls v v' →
      populateFrom w populateTree kind cur field v' = .ok (msg field.name) := by
  simp only [populateTo, hshape] at h
  split at h
  · cases h
  split at h
  · next e hvalue =>
      rw [mapError_eq_ok] at h
      have he : (Place.field, e) ∈ (msg field.name).elements := by
        rw [hvalue]
        exact List.mem_singleton_self _
      obtain ⟨hnull, hwell, hfrom⟩ := hback _ _ _ he h
      refine ⟨hnull, hwell, fun v' hless => ?_⟩
      simp only [populateFrom, hshape, Go.bind_eq_ok]
      exact ⟨e, hfrom v' hless _ _, by rw [hvalue]; rfl⟩
  · cases h

/-- **A field comes back from its tree.** -/
theorem populateFrom_of_populateTo
    (hback : ComesBack w createTree populateTree kind msg cur field)
    (hsorted : ∀ es, msg field.name = .map es → (es.map Prod.fst).Pairwise (· < ·)) {v : Value}
    (h : populateTo w createTree kind msg field = .ok v) :
    v.isNull = false ∧ v.WellFormed ∧ ∀ v', LessNulls v v' →
      populateFrom w populateTree kind cur field v' = .ok (msg field.name) := by
  cases hshape : field.factory.shape with
  | plain => exact populateFrom_single hback hshape h
  | map =>
      cases hvalue : msg field.name with
      | map es => exact populateFrom_map hback hshape hvalue (hsorted es hvalue) h
      | _ => simp [populateTo, hshape, hvalue] at h
  | slice =>
      cases hvalue : msg field.name with
      | slice es => exact populateFrom_slice hback hshape hvalue h
      | _ => simp [populateTo, hshape, hvalue] at h

/-! ## One message -/

/-- **One round fills the field** as it was, whatever is in the message there. -/
theorem populateField_of_created {jsonBytes : List Char} {written : Fields}
    (hcreated : Created w createTree kind msg tree jsonBytes written) (hkept : Kept w kind msg)
    (hback : ComesBack w createTree populateTree kind msg cur field)
    (hfield : field ∈ protoFields w kind) (hnew : cur field.name = w.new kind.type field.name)
    (hless : LessMembers LessNulls tree tree') :
    populateField w populateTree kind cur field tree' =
      .ok (Function.update cur field.name (msg field.name)) := by
  have hsorted : SortedKeys tree := by
    cases hcreated.wellFormed with
    | object hkeys _ => exact hkeys
  cases hnil : (msg field.name).isNil with
  -- a field that was not set has null in the tree, or nothing where the nulls are cut out
  | true =>
      have hvalue : msg field.name = .nil := by
        cases hmsg : msg field.name <;> simp [hmsg, FieldValue.isNil] at hnil ⊢
      obtain ⟨hunset, hnull⟩ := hkept.unset hcreated.marshalled hcreated.read field hfield hvalue
      have hsame : Function.update cur field.name (msg field.name) = cur := by
        rw [hvalue, ← hunset, ← hnew, Function.update_eq_self]
      rw [← hcreated.unset field hfield hnil] at hnull
      rw [hsame, populateField]
      split
      · rfl
      · rfl
      · next v' hne hlookup =>
          -- what is found there comes from that null, and is no null itself
          exfalso
          cases htree : tree.lookup field.name with
          | none => simp [hless.keys_subset htree] at hlookup
          | some v =>
              rcases hless.lookup hsorted htree with ⟨v'', hlookup', hv⟩ | ⟨-, hnone⟩
              · obtain rfl := Option.some.inj (hlookup.symm.trans hlookup')
                rw [hnull v htree] at hv
                cases hv with
                | scalar => exact hne rfl
              · simp [hnone] at hlookup
  -- a field that was set has a tree that is not null, so it is found again
  | false =>
      obtain ⟨value, hto, htree⟩ := hcreated.replaced field hfield hnil
        (hkept.written hcreated.marshalled hcreated.read field hfield hnil)
      obtain ⟨hnull, -, hfrom⟩ := populateFrom_of_populateTo hback (hkept.sorted field hfield) hto
      rcases hless.lookup hsorted htree with ⟨v', hlookup, hv⟩ | ⟨hnull', -⟩
      · have hnull' := hv.isNull.trans hnull
        rw [populateField, hlookup]
        split
        · next h => cases h
        · next h =>
            obtain rfl := Option.some.inj h
            cases hnull'
        · next h =>
            obtain rfl := Option.some.inj h
            rw [hfrom v' hv]
            rfl
      · rw [hnull] at hnull'
        cases hnull'

/-- The message after the rounds for some of the fields: the fields that are to
    come are those of a new message. -/
def Filled (w : Proto κ δ π) (kind : Kind κ δ) (msg : Message π)
    (done : List (ProtoField κ)) (cur : Message π) : Prop :=
  ∀ name, cur name = if isHandled w kind name = true ∧ name ∉ done.map ProtoField.name then
    w.new kind.type name else msg name

/-- What the methods look at is there. -/
theorem Filled.agree (hordered : Ordered w) {done todo : List (ProtoField κ)}
    (hsplit : protoFields w kind = done ++ field :: todo) (h : Filled w kind msg done cur)
    (place : Place) : innerKind w kind msg field place = innerKind w kind cur field place := by
  refine hordered kind done field todo hsplit msg cur (fun name hname => ?_) place
  rw [h name, if_neg]
  rintro ⟨hhandled, hnot⟩
  obtain ⟨field', hfield', hname'⟩ := List.any_eq_true.mp hhandled
  have hmem : name ∈ (protoFields w kind).map ProtoField.name :=
    List.mem_map.mpr ⟨field', hfield', beq_iff_eq.mp hname'⟩
  rw [hsplit, List.map_append, List.mem_append] at hmem
  exact hmem.elim hnot hname

theorem Filled.round {done : List (ProtoField κ)} (h : Filled w kind msg done cur) :
    Filled w kind msg (done ++ [field]) (Function.update cur field.name (msg field.name)) := by
  intro name
  by_cases hname : name = field.name
  · subst hname
    rw [Function.update_self, if_neg (by simp)]
  · rw [Function.update_of_ne hname, h name]
    simp [hname]

theorem Filled.all (h : Filled w kind msg (protoFields w kind) cur) : cur = msg := by
  funext name
  rw [h name, if_neg]
  rintro ⟨hhandled, hnot⟩
  obtain ⟨field, hfield, hname⟩ := List.any_eq_true.mp hhandled
  exact hnot (List.mem_map.mpr ⟨field, hfield, beq_iff_eq.mp hname⟩)

theorem comesBack_of_undone (hundone : Undone w createTree populateTree)
    (hkept : AllKept w kind msg) (hfield : field ∈ protoFields w kind)
    (hagree : ∀ place, innerKind w kind msg field place = innerKind w kind cur field place) :
    ComesBack w createTree populateTree kind msg cur field :=
  fun place _ _ he hto =>
    elementFromValue_of_elementTo hundone hkept hfield (hagree place) he hto

theorem created_of_undone (hundone : Undone w createTree populateTree)
    (hkept : AllKept w kind msg) (h : createTreeStep w createTree kind msg = .ok tree) :
    ∃ jsonBytes written, Created w createTree kind msg tree jsonBytes written := by
  refine created_of_createTreeStep (fun field hfield value hvalue => ?_) h
  have hback := comesBack_of_undone hundone hkept hfield fun _ => rfl
  exact (populateFrom_of_populateTo hback (hkept.kept.sorted field hfield) hvalue).2.1

theorem undone_step (hordered : Ordered w) (hundone : Undone w createTree populateTree) :
    Undone w (createTreeStep w createTree)
      fun kind tree msg => populateTreeStep w populateTree kind msg tree := by
  intro kind msg tree hkept hcreate
  obtain ⟨jsonBytes, written, hcreated⟩ := created_of_undone hundone hkept hcreate
  refine ⟨hcreated.wellFormed, fun tree' hless => ?_⟩
  have hothers := hkept.kept.others hcreated.marshalled hcreated.read (plainFields w kind tree')
    (by rw [← hcreated.others]; exact hless.filter fun name => !isHandled w kind name)
  have hround : ∀ done field todo cur, protoFields w kind = done ++ field :: todo →
      Filled w kind msg done cur → ∃ t, populateField w populateTree kind cur field tree' = .ok t ∧
        Filled w kind msg (done ++ [field]) t := by
    intro done field todo cur hsplit hcur
    have hfield : field ∈ protoFields w kind :=
      hsplit ▸ List.mem_append_right done List.mem_cons_self
    have hnodup := @nodup_protoFields _ _ _ w kind
    rw [hsplit, List.map_append, List.map_cons] at hnodup
    have hnew : cur field.name = w.new kind.type field.name := by
      rw [hcur, if_pos ⟨isHandled_of_mem hfield, fun hmem =>
        (List.nodup_append.mp hnodup).2.2 _ hmem _ List.mem_cons_self rfl⟩]
    have hback := comesBack_of_undone hundone hkept hfield (hcur.agree hordered hsplit)
    exact ⟨_, populateField_of_created hcreated hkept.kept hback hfield hnew hless, hcur.round⟩
  have hstart : Filled w kind msg [] fun name =>
      if isHandled w kind name then w.new kind.type name else msg name := fun name => by simp
  obtain ⟨t, hfold, ht⟩ := exists_foldlM_ok hround hstart
  obtain rfl := ht.all
  simp only [populateTreeStep, mapError_eq_ok, Go.bind_eq_ok, mapToProto, orError]
  exact ⟨_, hothers, hfold⟩

end Step

/-- **A message comes back from its tree**, and from the tree with null members
    taken out, where no less deep messages are looked for. -/
theorem populateTree_of_createTree (hordered : Ordered w) {depth depth' : Nat}
    (hdepth : depth ≤ depth') : Undone w (createTree w depth) (populateTree w depth') := by
  induction depth generalizing depth' with
  | zero => exact fun _ h => nomatch h
  | succ depth ih =>
      obtain ⟨depth', rfl⟩ := Nat.exists_eq_add_of_le' hdepth
      exact undone_step hordered (ih (Nat.le_add_left depth depth'))

/-! ## Paths -/

/-- A way into a message, field by field. -/
abbrev Path := List (String × Place)

/-- The message at the end of a path. -/
def At (w : Proto κ δ π) : Path → Kind κ δ × Message π → Kind κ δ × Message π → Prop
  | [], x, y => x = y
  | (name, place) :: path, x, y =>
      ∃ z : Kind κ δ × Message π, InField w x.1 x.2 name place z.1 z.2 ∧ At w path z y

/-- What is at a place in the value of a field. -/
def atPlace : Place → Value → Option Value
  | .field, v => some v
  | .index i, .array values => values[i]?
  | .key k, .object fields => fields.lookup k
  | _, _ => none

/-- The tree at the end of a path. -/
def treeAt : Path → Fields → Option Fields
  | [], tree => some tree
  | (name, place) :: path, tree =>
      ((tree.lookup name).bind (atPlace place)).bind fun v => v.object?.bind (treeAt path)

theorem createTree_of_elementTo {createTree : Kind κ δ → Message π → Except Failure Fields}
    {place : Place} {e : Element π} {v : Value}
    (h : elementTo w createTree kind msg field place e = .ok v)
    (hinner : innerKind w kind msg field place = .ok inner) (hmsg : e.Holds w inner nMsg) :
    ∃ tree, v = .object tree ∧ createTree inner nMsg = .ok tree := by
  unfold elementTo at h
  split at h
  · simp only [Go.bind_eq_ok, orError, mapError_eq_ok] at h
    obtain ⟨inner', hinner', nMsg', hunmarshal, tree, htree, h⟩ := h
    obtain rfl := Except.ok.inj (hinner.symm.trans hinner')
    obtain rfl := Except.ok.inj (hmsg.symm.trans hunmarshal)
    exact ⟨tree, (Except.ok.inj h).symm, htree⟩
  · simp only [Go.bind_eq_ok] at h
    obtain ⟨inner', hinner', tree, htree, h⟩ := h
    obtain rfl := Except.ok.inj (hinner.symm.trans hinner')
    obtain rfl := hmsg
    exact ⟨tree, (Except.ok.inj h).symm, htree⟩
  · cases h

/-- The value of a field holds the trees of its elements at their places. -/
theorem atPlace_of_populateTo {createTree : Kind κ δ → Message π → Except Failure Fields}
    {place : Place} {e : Element π} {v : Value} (hwell : v.WellFormed)
    (h : populateTo w createTree kind msg field = .ok v)
    (he : (place, e) ∈ (msg field.name).elements) :
    ∃ v', atPlace place v = some v' ∧ elementTo w createTree kind msg field place e = .ok v' := by
  -- the shapes of the value: one element, a map, a slice
  unfold populateTo at h
  split at h
  · split at h
    · cases h
    split at h
    · next e' hvalue =>
        rw [hvalue] at he
        obtain ⟨rfl, rfl⟩ := Prod.mk.inj (List.mem_singleton.mp he)
        rw [mapError_eq_ok] at h
        exact ⟨v, rfl, h⟩
    · cases h
  · next es hshape hvalue =>
      rw [hvalue] at he
      simp only [Go.bind_eq_ok, mapM_eq_ok, mapError_eq_ok] at h
      obtain ⟨result, hresult, h⟩ := h
      obtain rfl := Except.ok.inj h
      obtain ⟨entry, hentry, heq⟩ := List.mem_map.mp he
      obtain ⟨rfl, rfl⟩ := Prod.mk.inj heq
      obtain ⟨f, hf, value, hvalue, heq⟩ := exists_mem_of_forall₂ hresult hentry
      obtain rfl := Except.ok.inj heq
      cases hwell with
      | object hkeys _ =>
          -- keys are sorted, so the entry is the one under its key
          exact ⟨value, Map.lookup_of_mem (hkeys.imp fun hlt => ne_of_lt hlt) hf, hvalue⟩
  · next es hshape hvalue =>
      rw [hvalue] at he
      simp only [Go.bind_eq_ok, mapM_zipIdx_eq_ok, mapError_eq_ok] at h
      obtain ⟨result, ⟨hlen, hresult⟩, h⟩ := h
      obtain rfl := Except.ok.inj h
      obtain ⟨⟨e', i⟩, hentry, heq⟩ := List.mem_map.mp he
      obtain ⟨rfl, rfl⟩ := Prod.mk.inj heq
      have hget := List.mk_mem_zipIdx_iff_getElem?.mp hentry
      obtain ⟨hi, rfl⟩ := List.getElem?_eq_some_iff.mp hget
      exact ⟨result[i], List.getElem?_eq_getElem (hlen ▸ hi), hresult i hi (hlen ▸ hi)⟩
  · cases h

/-- **The tree at a path is the tree of the message there.** -/
theorem treeAt_of_createTree (hordered : Ordered w) {path : Path} {depth : Nat}
    {x y : Kind κ δ × Message π} (hkept : AllKept w x.1 x.2)
    (h : createTree w depth x.1 x.2 = .ok tree) (hat : At w path x y) :
    ∃ sub, treeAt path tree = some sub ∧ AllKept w y.1 y.2 ∧
      ∃ depth' ≤ depth, createTree w depth' y.1 y.2 = .ok sub := by
  induction path generalizing x depth tree with
  | nil =>
      obtain rfl := hat
      exact ⟨tree, rfl, hkept, depth, le_rfl, h⟩
  | cons step path ih =>
      obtain ⟨name, place⟩ := step
      obtain ⟨z, hin, hat⟩ := hat
      cases depth with
      | zero => cases h
      | succ depth =>
          obtain ⟨jsonBytes, written, hcreated⟩ :=
            created_of_undone (populateTree_of_createTree hordered le_rfl) hkept h
          have hkept' := hkept.inField hin
          obtain ⟨field, hfield, rfl, hinner, e, he, hmsg⟩ := hin
          -- there is an element in the field, so it is set
          have hset : (x.2 field.name).isNil = false := by
            cases hvalue : x.2 field.name <;> simp [hvalue, FieldValue.elements,
              FieldValue.isNil] at he ⊢
          obtain ⟨value, hto, hlookup⟩ := hcreated.replaced field hfield hset
            (hkept.kept.written hcreated.marshalled hcreated.read field hfield hset)
          obtain ⟨v', hplace, helement⟩ :=
            atPlace_of_populateTo (hcreated.wellFormed.field hlookup) hto he
          obtain ⟨sub, rfl, hsub⟩ := createTree_of_elementTo helement hinner hmsg
          -- the rest of the path lies in the tree of the element
          obtain ⟨sub', hat', hkept'', depth', hle, hcreate⟩ := ih hkept' hsub hat
          refine ⟨sub', ?_, hkept'', depth', Nat.le_succ_of_le hle, hcreate⟩
          simp [treeAt, hlookup, hplace, Value.object?, hat']

theorem atPlace_decoded {place : Place} {v v' : Value} (h : atPlace place v = some v') :
    atPlace place v.decoded = some v'.decoded := by
  unfold atPlace at h
  split at h
  · rw [← Option.some.inj h]
    rfl
  · rw [Value.decoded, Value.decodedElements_eq, atPlace, List.getElem?_map, h]
    rfl
  · rw [Value.decoded, atPlace, lookup_decodedFields, h]
    rfl
  · cases h

/-- Writing and reading keeps the tree at a path. -/
theorem treeAt_decodedFields {path : Path} {sub : Fields} (h : treeAt path tree = some sub) :
    treeAt path (Value.decodedFields tree) = some (Value.decodedFields sub) := by
  induction path generalizing tree with
  | nil => rw [← Option.some.inj h, treeAt]
  | cons step path ih =>
      obtain ⟨name, place⟩ := step
      simp only [treeAt, Option.bind_eq_some_iff] at h
      obtain ⟨v', ⟨v, hlookup, hplace⟩, fields, hobject, h⟩ := h
      have hfields : v'.decoded.object? = some (Value.decodedFields fields) := by
        unfold Value.object? at hobject
        split at hobject
        · rw [← Option.some.inj hobject]
          rfl
        · cases hobject
      simp [treeAt, lookup_decodedFields, hlookup, atPlace_decoded hplace, hfields, ih h]

theorem unmarshal_indented {fields : Fields} (h : (Value.object fields).WellFormed) :
    Hfrd.Go.unmarshal (Value.object fields).indented = some (Value.object fields).decoded := by
  have htokens : lineTokens ((Value.object fields).lines 0 none false)
      = (Value.object fields).tokens := by
    rw [Value.lineTokens_lines]
    simp [keyTokens, commaTokens]
  rw [Hfrd.Go.unmarshal, Value.indented, parse_render htokens, Option.map_some,
    assigned_eq h.decoded]

end Hfrd.Channel.Protolator
