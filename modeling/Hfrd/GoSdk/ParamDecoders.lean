/-
  Hfrd.GoSdk.ParamDecoders

  The two decoders of parameters, `GetComplexArgs` and `GetTransientMap`
  (modules/gosdk/utilities/paramGenerator.go), side by side.

  A form `tag~~~fields` of the one has the keyed form `tag~~~key~~~fields` of
  the other.  Both decode into the same `Param`, apart from a UUID, of which
  `GetTransientMap` asks for a single part while it needs a second one for the
  key.
-/

import Hfrd.GoSdk.ParamPanics

namespace Hfrd.GoSdk

open Hfrd.Go Hfrd.Lib

variable {ρ : Type} {maxAlloc : Int64}

/-! ## The parts of a form -/

/-- The tag of a form. -/
def Param.kind : Param → String
  | .literal _ => LITERAL_PARAM
  | .uuid => UUID_PARAM
  | .stringPattern _ => STRING_PATTERN
  | .sequentialString _ => SEQUENTIAL_STRING
  | .intRange _ _ => INTEGER_RANGE
  | .payloadRange _ _ => PAYLOAD_RANGE

/-- The fields behind the tag. -/
def Param.fields : Param → List String
  | .literal value | .sequentialString value => [value]
  | .uuid => []
  | .stringPattern regex => [regex]
  | .intRange min max | .payloadRange min max => [min, max]

theorem parseParam_eq_ok {param : String} {p : Param} :
    parseParam param = .ok p ↔ Go.split param "~~~" = p.kind :: p.fields := by
  constructor
  · intro h
    unfold parseParam at h
    cases hparts : Go.split param "~~~" with
    | nil => rw [hparts] at h; cases h
    | cons kind fields =>
        rw [hparts] at h
        simp only at h
        split_ifs at h with hkind hkind hkind hkind hkind hkind
        -- six kinds, each with one number of fields
        all_goals
          split at h
          · cases h
            rw [hkind]
            rfl
          · cases h
  · intro h
    unfold parseParam
    rw [h]
    cases p <;> rfl

theorem parseTransientParam_eq_ok {param key : String} {p : Param} :
    parseTransientParam param = .ok (key, p) ↔
      Go.split param "~~~" = p.kind :: key :: p.fields ∧ p ≠ .uuid := by
  constructor
  · intro h
    unfold parseTransientParam at h
    -- the kind and the key, then as many fields as the kind has
    rcases hparts : Go.split param "~~~" with - | ⟨kind, - | ⟨mapKey, fields⟩⟩
    · rw [hparts] at h; cases h
    · rw [hparts] at h; cases h
    · rw [hparts] at h
      simp only at h
      split_ifs at h with hkind hkind hkind hkind hkind hkind
      all_goals
        split at h
        · cases h
          rw [hkind]
          exact ⟨rfl, nofun⟩
        · cases h
  · rintro ⟨h, hne⟩
    unfold parseTransientParam
    rw [h]
    cases p with
    | uuid => exact absurd rfl hne
    | literal value => rfl
    | stringPattern regex => rfl
    | sequentialString value => rfl
    | intRange min max => rfl
    | payloadRange min max => rfl

theorem not_mem_kind (p : Param) : '~' ∉ p.kind.toList := by
  have hkinds : ∀ kind ∈ [LITERAL_PARAM, UUID_PARAM, STRING_PATTERN, SEQUENTIAL_STRING,
      INTEGER_RANGE, PAYLOAD_RANGE], '~' ∉ kind.toList := by decide
  exact hkinds p.kind (by cases p <;> simp [Param.kind])

theorem kind_eq_uuid {p : Param} (h : p.kind = UUID_PARAM) : p = .uuid := by
  cases p with
  | uuid => rfl
  | literal value => simp [Param.kind, LITERAL_PARAM, UUID_PARAM] at h
  | stringPattern regex => simp [Param.kind, STRING_PATTERN, UUID_PARAM] at h
  | sequentialString value => simp [Param.kind, SEQUENTIAL_STRING, UUID_PARAM] at h
  | intRange min max => simp [Param.kind, INTEGER_RANGE, UUID_PARAM] at h
  | payloadRange min max => simp [Param.kind, PAYLOAD_RANGE, UUID_PARAM] at h

theorem fields_eq_nil_iff {p : Param} : p.fields = [] ↔ p = .uuid := by
  cases p <;> simp [Param.fields]

/-! ## The keyed form -/

/-- The form with a key behind its tag. -/
def keyedForm (form key : String) : String :=
  match Go.split form "~~~" with
  | kind :: fields => String.intercalate "~~~" (kind :: key :: fields)
  | [] => key

/-- The key does not run into the separators around it. -/
def ProperKey (key : String) : Prop :=
  ¬ "~~~".toList <:+: key.toList ∧ key.toList.getLast? ≠ some '~'

theorem keyedForm_toList {form key kind : String} {fields : List String}
    (h : Go.split form "~~~" = kind :: fields) :
    (keyedForm form key).toList = "~~~".toList.intercalate
      (kind.toList :: key.toList :: fields.map String.toList) := by
  simp only [keyedForm, h, String.toList_intercalate, List.map_cons]

/-- A keyed form decodes into the key and the parameter. -/
theorem parse_keyedForm {form key : String} {p : Param} (h : parseParam form = .ok p)
    (hp : p ≠ .uuid) (hkey : ProperKey key) :
    parseTransientParam (keyedForm form key) = .ok (key, p) := by
  have hparts := parseParam_eq_ok.mp h
  have hfields : p.fields.map String.toList ≠ [] := fun hnil =>
    hp (fields_eq_nil_iff.mp (List.map_eq_nil_iff.mp hnil))
  refine parseTransientParam_eq_ok.mpr ⟨?_, hp⟩
  rw [split_eq_iff_map, keyedForm_toList hparts]
  exact split_insert (n := 2) (split_eq_iff_map.mp hparts) (not_mem_kind p) hfields hkey.1 hkey.2

/-- Under any other key, or for a UUID, it does not. -/
theorem parse_keyedForm_ne {form key : String} {p q : Param} (h : parseParam form = .ok p)
    (hkey : p = .uuid ∨ ¬ ProperKey key) :
    parseTransientParam (keyedForm form key) ≠ .ok (key, q) := by
  have hparts := parseParam_eq_ok.mp h
  intro hparse
  obtain ⟨hq, hne⟩ := parseTransientParam_eq_ok.mp hparse
  rw [split_eq_iff_map, keyedForm_toList hparts] at hq
  by_cases hp : p = .uuid
  -- the first part stays the tag
  · subst hp
    rw [Param.fields, List.map_nil, List.intercalate_cons_cons, List.intercalate_singleton,
      List.append_assoc] at hq
    change Lib.split ('~' :: ['~', '~']) (_ ++ ('~' :: ['~', '~'] ++ _)) = _ at hq
    rw [split_piece (not_mem_kind .uuid)] at hq
    have hkind := String.toList_inj.mp (List.cons_eq_cons.mp hq).1
    exact hne (kind_eq_uuid hkind.symm)
  · have hfields : p.fields.map String.toList ≠ [] := fun hnil =>
      hp (fields_eq_nil_iff.mp (List.map_eq_nil_iff.mp hnil))
    have hbad : List.replicate 3 '~' <:+: key.toList ∨ key.toList.getLast? = some '~' := by
      have hnot := hkey.resolve_left hp
      by_contra hor
      obtain ⟨hoccurs, hlast⟩ := not_or.mp hor
      exact hnot ⟨hoccurs, hlast⟩
    -- the second part ends before the key does
    obtain ⟨short, pieces, hsplit, hlen⟩ := split_insert_short (n := 2)
      (split_eq_iff_map.mp hparts) (not_mem_kind p) hfields hbad
    have hsecond := (List.cons_eq_cons.mp (List.cons_eq_cons.mp (hsplit.symm.trans hq)).2).1
    rw [hsecond] at hlen
    exact Nat.lt_irrefl _ hlen

/-! ## Panics -/

section Panics

variable (maxAlloc : Int64) (parse : String → Except String Regexp) (complexParams : List String)

/-- `GetComplexArgs` returns a value or an error, whatever is drawn. -/
def ArgsNeverPanic : Prop :=
  ∀ (ρ : Type) (src : Source maxAlloc ρ) (loopIndex : Int64) (r : ρ),
    getComplexArgs (src.withReggen parse) complexParams loopIndex r ≠ .error .panic

/-- `GetTransientMap` returns a value or an error, whatever is drawn. -/
def MapNeverPanics : Prop :=
  ∀ (ρ : Type) (src : Source maxAlloc ρ) (loopIndex : Int64) (r : ρ),
    getTransientMap (src.withReggen parse) complexParams loopIndex r ≠ .error (.param .panic)

theorem argsNeverPanic_iff : ArgsNeverPanic maxAlloc parse complexParams ↔
    ¬ Reaches (fun param => argMayReturn maxAlloc parse param = true)
      (fun param => argMayPanic maxAlloc parse param = true) (dropTrailing complexParams) := by
  have hiff := fun loopIndex =>
    (may_getComplexArgs maxAlloc parse loopIndex complexParams).never_iff
  constructor
  · exact fun h => (hiff 0).mp fun ρ src r => h ρ src 0 r
  · exact fun h ρ src loopIndex r => (hiff loopIndex).mpr h ρ src r

theorem mapNeverPanics_iff : MapNeverPanics maxAlloc parse complexParams ↔
    ¬ Reaches (fun param => entryMayReturn maxAlloc parse param = true)
      (fun param => entryMayPanic maxAlloc parse param = true) (dropTrailing complexParams) := by
  have hiff := fun loopIndex =>
    (may_getTransientMap maxAlloc parse loopIndex complexParams).never_iff
  constructor
  · exact fun h => (hiff 0).mp fun ρ src r => h ρ src 0 r
  · exact fun h ρ src loopIndex r => (hiff loopIndex).mpr h ρ src r

end Panics

/-! ## Agreement -/

theorem dropTrailing_single {param : String} (h : param ≠ "") : dropTrailing [param] = [param] := by
  simp [dropTrailing, h]

/-- A single form decodes, and its value is the argument. -/
theorem getComplexArgs_single {src : Source maxAlloc ρ} {form arg : String} {loopIndex : Int64}
    {r r' : ρ} :
    getComplexArgs src [form] loopIndex r = .ok ([arg], r') ↔
      ∃ p, parseParam form = .ok p ∧ p.getValue src loopIndex (src.seed r) = .ok (arg, r') := by
  by_cases hform : form = ""
  · subst hform
    constructor
    · intro h
      cases h
    · rintro ⟨p, hp, -⟩
      have hnone : parseParam "" = .error (.invalidType "") := by decide
      rw [hnone] at hp
      cases hp
  · simp only [getComplexArgs, dropTrailing_single hform, List.length_singleton,
      Nat.one_ne_zero, if_false, complexArgsLoop]
    cases hparse : parseParam form with
    | error failure => simp
    | ok p =>
        cases hvalue : p.getValue src loopIndex (src.seed r) with
        | error failure => simp [hvalue]
        | ok out => simp [hvalue, Prod.ext_iff]

/-- An entry of its own. -/
theorem getTransientMap_single {src : Source maxAlloc ρ} {param : String} (hparam : param ≠ "")
    {loopIndex : Int64} {r r' : ρ} {bytes : List UInt8} :
    getTransientMap src [param] loopIndex r = .ok (bytes, r') ↔
      ∃ mapKey p arg, parseTransientParam param = .ok (mapKey, p) ∧
        p.getValue src loopIndex (src.seed r) = .ok (arg, r') ∧
        utf8 (Value.object [(mapKey, transientValue arg)]).text = bytes := by
  simp only [getTransientMap, dropTrailing_single hparam, List.length_singleton,
    Nat.one_ne_zero, if_false, transientMapLoop]
  cases hparse : parseTransientParam param with
  | error failure => simp
  | ok entry =>
      obtain ⟨mapKey, p⟩ := entry
      cases hvalue : p.getValue src loopIndex (src.seed r) with
      | error failure => simp [hvalue]
      | ok out =>
          simp only [hvalue, setField]
          constructor
          · intro h
            obtain ⟨hbytes, rfl⟩ := Prod.mk.inj (Except.ok.inj h)
            exact ⟨mapKey, p, out.1, rfl, hvalue, hbytes⟩
          · rintro ⟨mapKey', p', arg, hentry, hp, rfl⟩
            obtain ⟨rfl, rfl⟩ := Prod.mk.inj (Except.ok.inj hentry)
            obtain rfl := Except.ok.inj (hvalue.symm.trans hp)
            rfl

/-- The text of an object tells the key of its only field. -/
theorem key_of_text {key key' : String} {v v' : Value}
    (h : utf8 (Value.object [(key, v)]).text = utf8 (Value.object [(key', v')]).text) :
    key = key' := by
  have hdecoded := text_eq_iff.mp (utf8_injective h)
  simp only [Value.decoded, Value.decodedFields] at hdecoded
  have hfields := Value.object.inj hdecoded
  exact (Prod.mk.inj (List.cons_eq_cons.mp hfields).1).1

/-- The keyed form is accepted and maps the key to the value of the form, for
    the same random outcomes. -/
def Agrees (maxAlloc : Int64) (parse : String → Except String Regexp) (form key : String) : Prop :=
  ∀ (ρ : Type) (src : Source maxAlloc ρ) (loopIndex : Int64) (r r' : ρ) (arg : String),
    getComplexArgs (src.withReggen parse) [form] loopIndex r = .ok ([arg], r') →
      getTransientMap (src.withReggen parse) [keyedForm form key] loopIndex r =
        .ok (utf8 (Value.object [(key, transientValue arg)]).text, r')

theorem keyedForm_ne {form key : String} {p : Param} (h : parseParam form = .ok p) :
    keyedForm form key ≠ "" := by
  intro hempty
  have hlist := @keyedForm_toList form key _ _ (parseParam_eq_ok.mp h)
  rw [hempty, List.intercalate_cons_cons] at hlist
  simp at hlist

theorem agrees_iff (maxAlloc : Int64) (parse : String → Except String Regexp) (form key : String) :
    Agrees maxAlloc parse form key ↔
      ∀ p, parseParam form = .ok p → p.mayReturn maxAlloc parse = true →
        p ≠ .uuid ∧ ProperKey key := by
  constructor
  · intro h p hp hmay
    -- some outcome gives a value
    obtain ⟨ρ, src, r, r', arg, hvalue⟩ :=
      (may_seeded (may_getValue parse 0 p)).returns_iff.mpr hmay
    have hargs : getComplexArgs (src.withReggen parse) [form] 0 r = .ok ([arg], r') :=
      getComplexArgs_single.mpr ⟨p, hp, hvalue⟩
    -- the only field of the object has the key of the second part
    obtain ⟨mapKey, q, arg', hparse, -, htext⟩ :=
      (getTransientMap_single (keyedForm_ne hp)).mp (h ρ src 0 r r' arg hargs)
    obtain rfl := key_of_text htext
    by_contra hnot
    refine parse_keyedForm_ne hp ?_ hparse
    by_cases huuid : p = .uuid
    · exact Or.inl huuid
    · exact Or.inr fun hkey => hnot ⟨huuid, hkey⟩
  · intro h ρ src loopIndex r r' arg hargs
    obtain ⟨p, hp, hvalue⟩ := getComplexArgs_single.mp hargs
    have hmay : p.mayReturn maxAlloc parse = true :=
      (may_seeded (may_getValue parse loopIndex p)).returns_iff.mp ⟨ρ, src, r, r', arg, hvalue⟩
    obtain ⟨huuid, hkey⟩ := h p hp hmay
    exact (getTransientMap_single (keyedForm_ne hp)).mpr
      ⟨key, p, arg, parse_keyedForm hp huuid hkey, hvalue, rfl⟩

/-- **When the decoders do what is asked of them.**  Neither panics exactly on
    the arrays that do not reach an item that may panic, and the keyed form
    agrees with a form exactly if the form never has a value, or is no UUID and
    the key does not run into the separators. -/
theorem decoders_iff (maxAlloc : Int64) (parse : String → Except String Regexp) :
    (∀ complexParams, ArgsNeverPanic maxAlloc parse complexParams ↔
      ¬ Reaches (fun param => argMayReturn maxAlloc parse param = true)
        (fun param => argMayPanic maxAlloc parse param = true) (dropTrailing complexParams)) ∧
    (∀ complexParams, MapNeverPanics maxAlloc parse complexParams ↔
      ¬ Reaches (fun param => entryMayReturn maxAlloc parse param = true)
        (fun param => entryMayPanic maxAlloc parse param = true) (dropTrailing complexParams)) ∧
    ∀ form key, Agrees maxAlloc parse form key ↔
      ∀ p, parseParam form = .ok p → p.mayReturn maxAlloc parse = true →
        p ≠ .uuid ∧ ProperKey key :=
  ⟨argsNeverPanic_iff maxAlloc parse, mapNeverPanics_iff maxAlloc parse,
    agrees_iff maxAlloc parse⟩

/-- A difference of bounds that wraps, a payload that cannot be allocated, a
    class without runes, an item without a key, and a UUID under a key. -/
theorem decoders_fail :
    ¬ ArgsNeverPanic linuxMaxAlloc (fun _ => .ok .opEmpty)
        ["intRange~~~-9223372036854775808~~~9223372036854775807"] ∧
      ¬ ArgsNeverPanic linuxMaxAlloc (fun _ => .ok .opEmpty)
        ["payloadRange~~~4611686018427387904~~~4611686018427387904"] ∧
      ¬ ArgsNeverPanic linuxMaxAlloc (fun _ => .ok (.opCharClass []))
        ["stringPattern~~~[^\\s\\S]"] ∧
      ¬ MapNeverPanics linuxMaxAlloc (fun _ => .ok .opEmpty) ["literal"] ∧
      ¬ Agrees linuxMaxAlloc (fun _ => .ok .opEmpty) "uuid" "id" := by
  refine ⟨?_, ?_, ?_, ?_, ?_⟩
  · rw [argsNeverPanic_iff, not_not]
    decide
  · rw [argsNeverPanic_iff, not_not]
    decide
  · rw [argsNeverPanic_iff, not_not]
    decide
  · rw [mapNeverPanics_iff, not_not]
    decide
  · intro h
    exact ((agrees_iff _ _ _ _).mp h .uuid (by decide) rfl).1 rfl

end Hfrd.GoSdk
