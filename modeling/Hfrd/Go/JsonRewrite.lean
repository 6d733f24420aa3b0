/-
  Hfrd.Go.JsonRewrite

  Rewriting the indented text of a value with replacements that know nothing of
  JSON: null members are cut out with the line they are on, and words are
  replaced wherever they occur.

  Each is compared with what it does to the value: `withoutNulls` leaves out the
  null members of some names that another member follows, `mapStrings` changes
  every key and string.
-/

import Hfrd.Go.JsonIndent
import Hfrd.Lib.Replace

namespace Hfrd.Go

/-! ## Values rewritten -/

/-- The scalar with its string mapped. -/
def Scalar.mapStrings (f : String → String) : Scalar → Scalar
  | .string s => .string (f s)
  | s => s

/-- The string of a scalar. -/
def Scalar.strings : Scalar → List String
  | .string s => [s]
  | _ => []

namespace Value

/-- The value is null. -/
def isNull : Value → Bool
  | .scalar s => decide (s = .null)
  | .array _ => false
  | .object _ => false
  | .other json => json.isNull

mutual

/-- The value without the null members of these names that another member
    follows. -/
def withoutNulls (names : List String) : Value → Value
  | .scalar s => .scalar s
  | .array elements => .array (withoutNullsElements names elements)
  | .object fields => .object (withoutNullsFields names fields)
  | .other json => json.withoutNulls names

/-- The elements of an array, each without its null members. -/
def withoutNullsElements (names : List String) : List Value → List Value
  | [] => []
  | v :: elements => v.withoutNulls names :: withoutNullsElements names elements

/-- The members without the null ones that another follows. -/
def withoutNullsFields (names : List String) : Fields → Fields
  | [] => []
  | (key, v) :: fields =>
      if v.isNull && !fields.isEmpty && decide (key ∈ names) then withoutNullsFields names fields
      else (key, v.withoutNulls names) :: withoutNullsFields names fields

end

mutual

/-- The value with every key and string changed. -/
def mapStrings (f : String → String) : Value → Value
  | .scalar s => .scalar (s.mapStrings f)
  | .array elements => .array (mapStringsElements f elements)
  | .object fields => .object (mapStringsFields f fields)
  | .other json => json.mapStrings f

/-- The elements of an array with their strings mapped. -/
def mapStringsElements (f : String → String) : List Value → List Value
  | [] => []
  | v :: elements => v.mapStrings f :: mapStringsElements f elements

/-- The members with their keys and strings mapped. -/
def mapStringsFields (f : String → String) : Fields → Fields
  | [] => []
  | (key, v) :: fields => (f key, v.mapStrings f) :: mapStringsFields f fields

end

mutual

/-- The keys and strings of a value. -/
def strings : Value → List String
  | .scalar s => s.strings
  | .array elements => elementStrings elements
  | .object fields => fieldStrings fields
  | .other json => json.strings

/-- The strings in the elements of an array. -/
def elementStrings : List Value → List String
  | [] => []
  | v :: elements => v.strings ++ elementStrings elements

/-- The keys and strings in the members of an object. -/
def fieldStrings : Fields → List String
  | [] => []
  | (key, v) :: fields => key :: v.strings ++ fieldStrings fields

end

mutual

/-- The keys of the null members that another member follows. -/
def nullKeys : Value → List String
  | .scalar _ => []
  | .array elements => elementNullKeys elements
  | .object fields => fieldNullKeys fields
  | .other json => json.nullKeys

/-- The keys of null members in the elements of an array. -/
def elementNullKeys : List Value → List String
  | [] => []
  | v :: elements => v.nullKeys ++ elementNullKeys elements

/-- The keys of the null members that another follows. -/
def fieldNullKeys : Fields → List String
  | [] => []
  | (key, v) :: fields =>
      (if v.isNull && !fields.isEmpty then [key] else []) ++ v.nullKeys ++ fieldNullKeys fields

end

end Value

/-! ## Rewritten values -/

namespace Value

theorem strings_mapStrings (f : String → String) (v : Value) :
    (v.mapStrings f).strings = v.strings.map f := by
  induction v using Value.induction with
  | scalar s => cases s <;> rfl
  | array elements ih =>
      rw [mapStrings, strings, strings]
      induction elements with
      | nil => rfl
      | cons v elements ih' =>
          rw [mapStringsElements, elementStrings, elementStrings, List.map_append,
            ih v List.mem_cons_self, ih' fun w hw => ih w (List.mem_cons_of_mem v hw)]
  | object fields ih =>
      rw [mapStrings, strings, strings]
      induction fields with
      | nil => rfl
      | cons g fields ih' =>
          rw [mapStringsFields, fieldStrings, fieldStrings, ih g List.mem_cons_self,
            ih' fun h hh => ih h (List.mem_cons_of_mem g hh)]
          simp
  | other json ih => exact ih

/-- Where no string changes, the JSON value is the same. -/
theorem mapStrings_of_fixed {f : String → String} {v : Value} (h : ∀ s ∈ v.strings, f s = s) :
    v.mapStrings f = v.decoded := by
  induction v using Value.induction with
  | scalar s =>
      cases s with
      | string s =>
          -- only strings are mapped
          have hs : f s = s := h s (List.mem_singleton_self s)
          rw [mapStrings, Scalar.mapStrings, hs]
          rfl
      | null => rfl
      | bool => rfl
      | number => rfl
  | array elements ih =>
      rw [mapStrings, decoded]
      congr 1
      induction elements with
      | nil => rfl
      | cons v elements ih' =>
          rw [strings, elementStrings, List.forall_mem_append] at h
          rw [mapStringsElements, decodedElements, ih v List.mem_cons_self h.1,
            ih' (fun w hw => ih w (List.mem_cons_of_mem v hw)) h.2]
  | object fields ih =>
      rw [mapStrings, decoded]
      congr 1
      induction fields with
      | nil => rfl
      | cons g fields ih' =>
          rw [strings, fieldStrings, List.cons_append, List.forall_mem_cons,
            List.forall_mem_append] at h
          rw [mapStringsFields, decodedFields, h.1, ih g List.mem_cons_self h.2.1,
            ih' (fun w hw => ih w (List.mem_cons_of_mem g hw)) h.2.2]
  | other json ih => exact ih h

theorem decoded_mapStrings (f : String → String) (v : Value) :
    (v.mapStrings f).decoded = v.mapStrings f := by
  induction v using Value.induction with
  | scalar s => rfl
  | array elements ih =>
      rw [mapStrings, decoded]
      congr 1
      induction elements with
      | nil => rfl
      | cons v elements ih' =>
          rw [mapStringsElements, decodedElements, ih v List.mem_cons_self,
            ih' fun w hw => ih w (List.mem_cons_of_mem v hw)]
  | object fields ih =>
      rw [mapStrings, decoded]
      congr 1
      induction fields with
      | nil => rfl
      | cons g fields ih' =>
          rw [mapStringsFields, decodedFields, ih g List.mem_cons_self,
            ih' fun h hh => ih h (List.mem_cons_of_mem g hh)]
  | other json ih => exact ih

theorem withoutNullsElements_eq (names : List String) (elements : List Value) :
    withoutNullsElements names elements = elements.map fun v => v.withoutNulls names := by
  induction elements with
  | nil => rfl
  | cons v elements ih => rw [withoutNullsElements, ih, List.map_cons]

/-- The members that are left are those of the value, rewritten. -/
theorem exists_of_mem_withoutNullsFields {names : List String} {fields : Fields}
    {f : String × Value} (h : f ∈ withoutNullsFields names fields) :
    ∃ g ∈ fields, f = (g.1, g.2.withoutNulls names) := by
  induction fields with
  | nil => exact absurd h List.not_mem_nil
  | cons g fields ih =>
      rw [withoutNullsFields] at h
      split at h
      · obtain ⟨g', hg', heq⟩ := ih h
        exact ⟨g', List.mem_cons_of_mem g hg', heq⟩
      · rcases List.mem_cons.mp h with rfl | h
        · exact ⟨g, List.mem_cons_self, rfl⟩
        · obtain ⟨g', hg', heq⟩ := ih h
          exact ⟨g', List.mem_cons_of_mem g hg', heq⟩

theorem sublist_withoutNullsFields (names : List String) (fields : Fields) :
    ((withoutNullsFields names fields).map Prod.fst).Sublist (fields.map Prod.fst) := by
  induction fields with
  | nil => exact List.Sublist.slnil
  | cons g fields ih =>
      rw [withoutNullsFields]
      split
      · exact ih.cons g.1
      · exact ih.cons_cons g.1

theorem WellFormed.withoutNulls {v : Value} (h : v.WellFormed) (names : List String) :
    (v.withoutNulls names).WellFormed := by
  induction h with
  | scalar s => exact .scalar s
  | array _ ih =>
      rw [Value.withoutNulls, withoutNullsElements_eq]
      refine .array fun w hw => ?_
      obtain ⟨v, hv, rfl⟩ := List.mem_map.mp hw
      exact ih v hv
  | object hkeys _ ih =>
      refine .object (hkeys.sublist (sublist_withoutNullsFields names _)) fun f hf => ?_
      obtain ⟨g, hg, rfl⟩ := exists_of_mem_withoutNullsFields hf
      exact ih g hg
  | other _ ih => exact ih

theorem decoded_withoutNulls (names : List String) (v : Value) :
    (v.withoutNulls names).decoded = v.withoutNulls names := by
  induction v using Value.induction with
  | scalar s => rfl
  | array elements ih =>
      rw [withoutNulls, decoded, decodedElements_eq, withoutNullsElements_eq, List.map_map]
      exact congrArg _ (List.map_congr_left fun v hv => ih v hv)
  | object fields ih =>
      rw [withoutNulls, decoded, decodedFields_eq]
      congr 1
      refine (List.map_congr_left fun f hf => ?_).trans (List.map_id _)
      obtain ⟨g, hg, rfl⟩ := exists_of_mem_withoutNullsFields hf
      rw [ih g hg]
      rfl
  | other json ih => exact ih

theorem strings_of_isNull {v : Value} (h : v.isNull = true) : v.strings = [] := by
  induction v using Value.induction with
  | scalar s => rw [strings, of_decide_eq_true h]; rfl
  | array => cases h
  | object => cases h
  | other json ih => exact ih h

/-- The strings that are left are those of the value, but for the names. -/
theorem mem_strings_withoutNulls (names : List String) (v : Value) {s : String} :
    (s ∈ (v.withoutNulls names).strings → s ∈ v.strings) ∧
      (s ∈ v.strings → s ∈ (v.withoutNulls names).strings ∨ s ∈ names) := by
  induction v using Value.induction with
  | scalar t => exact ⟨id, .inl⟩
  | array elements ih =>
      rw [withoutNulls, strings, strings]
      induction elements with
      | nil => exact ⟨id, .inl⟩
      | cons v elements ih' =>
          have hv := ih v List.mem_cons_self
          have hrest := ih' fun w hw => ih w (List.mem_cons_of_mem v hw)
          rw [withoutNullsElements, elementStrings, elementStrings, List.mem_append,
            List.mem_append]
          refine ⟨Or.imp hv.1 hrest.1, ?_⟩
          rintro (h | h)
          · exact (hv.2 h).imp_left .inl
          · exact (hrest.2 h).imp_left .inr
  | object fields ih =>
      rw [withoutNulls, strings, strings]
      induction fields with
      | nil => exact ⟨id, .inl⟩
      | cons g fields ih' =>
          have hg := ih g List.mem_cons_self
          have hrest := ih' fun h hh => ih h (List.mem_cons_of_mem g hh)
          rw [withoutNullsFields]
          split
          -- a member that is left out has its key among the names, and no other string
          · next hcond =>
              simp only [Bool.and_eq_true, decide_eq_true_eq] at hcond
              rw [fieldStrings, strings_of_isNull hcond.1.1, List.singleton_append, List.mem_cons]
              refine ⟨fun h => .inr (hrest.1 h), ?_⟩
              rintro (rfl | h)
              · exact .inr hcond.2
              · exact hrest.2 h
          · rw [fieldStrings, fieldStrings, List.cons_append, List.cons_append, List.mem_cons,
              List.mem_cons, List.mem_append, List.mem_append]
            refine ⟨Or.imp_right (Or.imp hg.1 hrest.1), ?_⟩
            rintro (h | h | h)
            · exact .inl (.inl h)
            · exact (hg.2 h).imp_left fun h => .inr (.inl h)
            · exact (hrest.2 h).imp_left fun h => .inr (.inr h)
  | other json ih => exact ih

end Value

/-! ## Lines rewritten -/

/-- The core is null. -/
def Core.isNull : Core → Bool
  | .scalar s => decide (s = .null)
  | .brackets _ _ => false

/-- The key of a null member that another member follows. -/
def Line.nullKey (l : Line) : Option String := if l.comma && l.core.isNull then l.key else none

/-- The line of a member that is left out. -/
def Line.isDropped (names : List String) (l : Line) : Bool :=
  l.nullKey.any fun key => decide (key ∈ names)

/-- The keys of the lines that hold a null member and a comma. -/
def lineNullKeys (ls : Lines) : List String := ls.filterMap fun l => l.2.nullKey

theorem lineNullKeys_append (ls ls' : Lines) :
    lineNullKeys (ls ++ ls') = lineNullKeys ls ++ lineNullKeys ls' :=
  List.filterMap_append

theorem lineNullKeys_bracketed (depth : Nat) (key : Option String) (comma : Bool)
    {open' close empty : Core} (hopen : open'.isNull = false) (hclose : close.isNull = false)
    (hempty : empty.isNull = false) (inner : Lines) :
    lineNullKeys (bracketed depth key comma open' close empty inner) = lineNullKeys inner := by
  cases inner with
  | nil => simp [bracketed, lineNullKeys, Line.nullKey, hempty]
  | cons l inner =>
      simp [bracketed, lineNullKeys, Line.nullKey, hopen, hclose, List.filterMap_cons]

theorem Value.lineNullKeys_lines (v : Value) :
    ∀ depth key comma, lineNullKeys (v.lines depth key comma)
      = (if comma && v.isNull then key.toList else []) ++ v.nullKeys := by
  induction v using Value.induction with
  | scalar s =>
      intro depth key comma
      cases s <;> cases comma <;> cases key <;> rfl
  | array elements ih =>
      intro depth key comma
      have hinner : ∀ depth, lineNullKeys (elementLines depth elements)
          = elementNullKeys elements := by
        intro depth
        induction elements with
        | nil => rfl
        | cons v elements ih' =>
            rw [elementLines, lineNullKeys_append, ih v List.mem_cons_self,
              ih' fun w hw => ih w (List.mem_cons_of_mem v hw), elementNullKeys]
            simp
      rw [lines, lineNullKeys_bracketed _ _ _ rfl rfl rfl, hinner, isNull, nullKeys, Bool.and_false]
      rfl
  | object fields ih =>
      intro depth key comma
      -- a member has its key in the line, so its nulls are found there
      have hinner : ∀ depth, lineNullKeys (fieldLines depth fields) = fieldNullKeys fields := by
        intro depth
        induction fields with
        | nil => rfl
        | cons f fields ih' =>
            rw [fieldLines, lineNullKeys_append, ih f List.mem_cons_self,
              ih' fun g hg => ih g (List.mem_cons_of_mem f hg), fieldNullKeys, Bool.and_comm]
            rfl
      rw [lines, lineNullKeys_bracketed _ _ _ rfl rfl rfl, hinner, isNull, nullKeys, Bool.and_false]
      rfl
  | other json ih => exact ih

/-! ## The lines of a value without null members -/

theorem isDropped_eq (names : List String) (l : Line) :
    l.isDropped names
      = (l.comma && l.core.isNull && l.key.any fun key => decide (key ∈ names)) := by
  rw [Line.isDropped, Line.nullKey]
  cases l.comma && l.core.isNull <;> rfl

theorem isDropped_of_core {l : Line} (h : l.core.isNull = false) (names : List String) :
    l.isDropped names = false := by
  rw [isDropped_eq, h, Bool.and_false, Bool.false_and]

/-- The lines without those of null members. -/
def keepLines (names : List String) (ls : Lines) : Lines :=
  ls.filter fun l => !l.2.isDropped names

theorem keepLines_append (names : List String) (ls ls' : Lines) :
    keepLines names (ls ++ ls') = keepLines names ls ++ keepLines names ls' :=
  List.filter_append ls ls'

theorem keepLines_bracketed (names : List String) (depth : Nat) (key : Option String)
    (comma : Bool) {open' close empty : Core} (hopen : open'.isNull = false)
    (hclose : close.isNull = false) (hempty : empty.isNull = false) {inner : Lines}
    (hinner : keepLines names inner = [] → inner = []) :
    keepLines names (bracketed depth key comma open' close empty inner)
      = bracketed depth key comma open' close empty (keepLines names inner) := by
  cases inner with
  | nil =>
      simp [bracketed, keepLines, isDropped_of_core (l := ⟨key, empty, comma⟩) hempty]
  | cons l inner =>
      -- brackets with something between them stay on lines of their own
      have hne : keepLines names (l :: inner) ≠ [] := fun h => List.cons_ne_nil _ _ (hinner h)
      have hends : ∀ ls : Lines, ls ≠ [] → bracketed depth key comma open' close empty ls
          = (depth, ⟨key, open', false⟩) :: ls ++ [(depth, ⟨none, close, comma⟩)] := by
        intro ls hls
        cases ls with
        | nil => exact absurd rfl hls
        | cons => rfl
      have hfirst : keepLines names [(depth, ⟨key, open', false⟩)]
          = [(depth, ⟨key, open', false⟩)] := by
        simp [keepLines, isDropped_of_core (l := ⟨key, open', false⟩) hopen]
      have hlast : keepLines names [(depth, ⟨none, close, comma⟩)]
          = [(depth, ⟨none, close, comma⟩)] := by
        simp [keepLines, isDropped_of_core (l := ⟨none, close, comma⟩) hclose]
      rw [hends _ hne, hends _ (List.cons_ne_nil l inner), ← List.singleton_append,
        List.append_assoc, keepLines_append, keepLines_append, hfirst, hlast]
      rfl

theorem Value.withoutNullsFields_eq_nil {names : List String} {fields : Fields}
    (h : withoutNullsFields names fields = []) : fields = [] := by
  induction fields with
  | nil => rfl
  | cons f fields ih =>
      rw [withoutNullsFields] at h
      split at h
      · next hcond =>
          rw [ih h] at hcond
          simp at hcond
      · cases h

theorem Value.isEmpty_withoutNullsFields (names : List String) (fields : Fields) :
    (withoutNullsFields names fields).isEmpty = fields.isEmpty := by
  cases fields with
  | nil => rfl
  | cons f fields =>
      cases h : withoutNullsFields names (f :: fields) with
      | nil => cases withoutNullsFields_eq_nil h
      | cons => rfl

theorem Value.lines_of_isNull {v : Value} (h : v.isNull = true) (depth : Nat)
    (key : Option String) (comma : Bool) :
    v.lines depth key comma = [(depth, ⟨key, .scalar .null, comma⟩)] := by
  induction v using Value.induction with
  | scalar s => rw [lines, of_decide_eq_true h]
  | array => cases h
  | object => cases h
  | other json ih => exact ih h

theorem Value.fieldLines_eq_nil {depth : Nat} {fields : Fields}
    (h : fieldLines depth fields = []) : fields = [] := by
  cases fields with
  | nil => rfl
  | cons f fields => exact absurd (List.append_eq_nil_iff.mp h).1 (f.2.lines_ne_nil _ _ _)

/-- The lines of a value without null members are the other lines of the
    value. -/
theorem Value.lines_withoutNulls (names : List String) (v : Value) :
    ∀ depth key comma, (comma && v.isNull && key.any fun key => decide (key ∈ names)) = false →
      (v.withoutNulls names).lines depth key comma = keepLines names (v.lines depth key comma) := by
  induction v using Value.induction with
  | scalar s =>
      intro depth key comma h
      have hkept : Line.isDropped names ⟨key, .scalar s, comma⟩ = false := by
        rw [isDropped_eq]
        exact h
      rw [withoutNulls, lines, keepLines, List.filter_cons_of_pos (by simp [hkept])]
      rfl
  | array elements ih =>
      rintro depth key comma -
      have hempty : ∀ es, (withoutNullsElements names es).isEmpty = es.isEmpty := fun es => by
        cases es <;> rfl
      have hinner : ∀ depth, elementLines depth (withoutNullsElements names elements)
          = keepLines names (elementLines depth elements) := by
        intro depth
        induction elements with
        | nil => rfl
        | cons v elements ih' =>
            rw [withoutNullsElements, elementLines, elementLines, keepLines_append, hempty,
              ih v List.mem_cons_self _ none _ (Bool.and_false _),
              ih' fun w hw => ih w (List.mem_cons_of_mem v hw)]
      rw [withoutNulls, lines, lines, hinner]
      refine (keepLines_bracketed names _ _ _ rfl rfl rfl fun hnil => ?_).symm
      rw [← hinner] at hnil
      cases elements with
      | nil => rfl
      | cons v elements => exact absurd (List.append_eq_nil_iff.mp hnil).1 (lines_ne_nil _ _ _ _)
  | object fields ih =>
      rintro depth key comma -
      have hinner : ∀ depth, fieldLines depth (withoutNullsFields names fields)
          = keepLines names (fieldLines depth fields) := by
        intro depth
        induction fields with
        | nil => rfl
        | cons f fields ih' =>
            have hrest := ih' fun g hg => ih g (List.mem_cons_of_mem f hg)
            rw [withoutNullsFields, fieldLines, keepLines_append]
            -- the last member stays, so the commas are right
            cases hcond : f.2.isNull && !fields.isEmpty && decide (f.1 ∈ names) with
            | true =>
                simp only [Bool.and_eq_true] at hcond
                obtain ⟨⟨hnull, hmore⟩, hname⟩ := hcond
                have hdropped : keepLines names (f.2.lines depth (some f.1) (!fields.isEmpty))
                    = [] := by
                  rw [lines_of_isNull hnull, keepLines, List.filter_cons_of_neg, List.filter_nil]
                  simpa [isDropped_eq, Core.isNull, hmore] using hname
                rw [if_pos rfl, hdropped, List.nil_append, hrest]
            | false =>
                have hkept : ((!fields.isEmpty) && f.2.isNull
                    && (some f.1).any fun key => decide (key ∈ names)) = false := by
                  rw [Bool.and_comm (!fields.isEmpty)]
                  exact hcond
                rw [if_neg Bool.false_ne_true, fieldLines, isEmpty_withoutNullsFields,
                  ih f List.mem_cons_self _ _ _ hkept, hrest]
      rw [withoutNulls, lines, lines, hinner]
      refine (keepLines_bracketed names _ _ _ rfl rfl rfl fun hnil => ?_).symm
      rw [← hinner] at hnil
      rw [withoutNullsFields_eq_nil (fieldLines_eq_nil hnil)]
      rfl
  | other json ih => exact ih

/-! ## The lines of a value with its strings changed -/

/-- The line with its key and string mapped. -/
def Line.mapStrings (f : String → String) (l : Line) : Line :=
  { l with
    key := l.key.map f
    core := match l.core with
      | .scalar s => .scalar (s.mapStrings f)
      | .brackets cs h => .brackets cs h }

/-- The lines with their keys and strings mapped. -/
def mapLines (f : String → String) (ls : Lines) : Lines :=
  ls.map fun l => (l.1, l.2.mapStrings f)

theorem mapLines_append (f : String → String) (ls ls' : Lines) :
    mapLines f (ls ++ ls') = mapLines f ls ++ mapLines f ls' :=
  List.map_append

theorem map_snd_mapLines (f : String → String) (ls : Lines) :
    (mapLines f ls).map Prod.snd = (ls.map Prod.snd).map (Line.mapStrings f) := by
  rw [mapLines, List.map_map, List.map_map]
  rfl

theorem mapLines_of_fixed {f : String → String} (h : ∀ s, f s = s) (ls : Lines) :
    mapLines f ls = ls := by
  refine (List.map_congr_left fun l _ => ?_).trans (List.map_id ls)
  obtain ⟨n, key, core, comma⟩ := l
  have hkey : key.map f = key := by
    cases key with
    | none => rfl
    | some key => rw [Option.map_some, h]
  cases core with
  | scalar s =>
      have hs : s.mapStrings f = s := by
        cases s with
        | string s => rw [Scalar.mapStrings, h]
        | null => rfl
        | bool => rfl
        | number => rfl
      simp [Line.mapStrings, hkey, hs]
  | brackets => simp [Line.mapStrings, hkey]

theorem mapLines_mapLines (f g : String → String) (ls : Lines) :
    mapLines g (mapLines f ls) = mapLines (fun s => g (f s)) ls := by
  rw [mapLines, mapLines, mapLines, List.map_map]
  refine List.map_congr_left fun l _ => ?_
  obtain ⟨n, key, core, comma⟩ := l
  cases core with
  | scalar s => cases s <;> cases key <;> rfl
  | brackets => cases key <;> rfl

theorem mapLines_bracketed (f : String → String) (depth : Nat) (key : Option String) (comma : Bool)
    {cs cs' cs'' : List Char} (h : cs.all isBracket = true)
    (h' : cs'.all isBracket = true) (h'' : cs''.all isBracket = true) (inner : Lines) :
    mapLines f (bracketed depth key comma (.brackets cs h) (.brackets cs' h')
        (.brackets cs'' h'') inner)
      = bracketed depth (key.map f) comma (.brackets cs h) (.brackets cs' h') (.brackets cs'' h'')
        (mapLines f inner) := by
  cases inner with
  | nil => rfl
  | cons l inner => simp [bracketed, mapLines, Line.mapStrings]

theorem Value.lines_mapStrings (f : String → String) (v : Value) :
    ∀ depth key comma, (v.mapStrings f).lines depth (key.map f) comma
      = mapLines f (v.lines depth key comma) := by
  induction v using Value.induction with
  | scalar s =>
      intro depth key comma
      rfl
  | array elements ih =>
      intro depth key comma
      -- commas stand where they stood, as no element is lost
      have hempty : ∀ es, (mapStringsElements f es).isEmpty = es.isEmpty := fun es => by
        cases es <;> rfl
      have hinner : ∀ depth, elementLines depth (mapStringsElements f elements)
          = mapLines f (elementLines depth elements) := by
        intro depth
        induction elements with
        | nil => rfl
        | cons v elements ih' =>
            rw [mapStringsElements, elementLines, elementLines, mapLines_append, hempty,
              ← ih v List.mem_cons_self, ih' fun w hw => ih w (List.mem_cons_of_mem v hw)]
            rfl
      rw [mapStrings, lines, lines, hinner, mapLines_bracketed]
  | object fields ih =>
      intro depth key comma
      have hempty : ∀ fs, (mapStringsFields f fs).isEmpty = fs.isEmpty := fun fs => by
        cases fs <;> rfl
      have hinner : ∀ depth, fieldLines depth (mapStringsFields f fields)
          = mapLines f (fieldLines depth fields) := by
        intro depth
        induction fields with
        | nil => rfl
        | cons g fields ih' =>
            rw [mapStringsFields, fieldLines, fieldLines, mapLines_append, hempty,
              ← ih g List.mem_cons_self, ih' fun w hw => ih w (List.mem_cons_of_mem g hw)]
            rfl
      rw [mapStrings, lines, lines, hinner, mapLines_bracketed]
  | other json ih => exact ih

end Hfrd.Go
