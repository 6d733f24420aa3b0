/-
  Hfrd.Go.JsonParse

  Parsing JSON, and the round trip: what `json.Marshal` writes is read back
  by `json.Unmarshal`, and two values are written alike only when they stand
  for the same JSON.
-/

import Hfrd.Go.JsonText

namespace Hfrd.Go

/-! ## Parsing -/

/-- A scalar that is no string. -/
def parseWord (w : List Char) : Option Scalar :=
  if w = ['n', 'u', 'l', 'l'] then some .null
  else if w = ['t', 'r', 'u', 'e'] then some (.bool true)
  else if w = ['f', 'a', 'l', 's', 'e'] then some (.bool false)
  else if h : w ≠ [] ∧ w.all isNumeralChar = true then some (.number ⟨w, h⟩)
  else none

mutual

/-- Parses one value; the number bounds the depth of the calls. -/
def parseValue : Nat → List Token → Option (Value × List Token)
  | 0, _ => none
  | _ + 1, [] => none
  | _ + 1, .word w :: tokens => (parseWord w).map fun s => (.scalar s, tokens)
  | _ + 1, .str s :: tokens => some (.string (String.ofList s), tokens)
  | n + 1, .punct c :: tokens =>
      if c = '[' then
        if tokens.head? = some (.punct ']') then some (.array [], tokens.tail)
        else (parseElements n tokens).map fun r => (.array r.1, r.2)
      else if c = '{' then
        if tokens.head? = some (.punct '}') then some (.object [], tokens.tail)
        else (parseFields n tokens).map fun r => (.object r.1, r.2)
      else none

/-- The elements of an array, and the tokens that are left. -/
def parseElements : Nat → List Token → Option (List Value × List Token)
  | 0, _ => none
  | n + 1, tokens =>
      (parseValue n tokens).bind fun r =>
        if r.2.head? = some (.punct ',') then
          (parseElements n r.2.tail).map fun r' => (r.1 :: r'.1, r'.2)
        else if r.2.head? = some (.punct ']') then some ([r.1], r.2.tail)
        else none

/-- The members of an object, and the tokens that are left. -/
def parseFields : Nat → List Token → Option (Fields × List Token)
  | n + 1, .str key :: .punct c :: tokens =>
      if c = ':' then
        (parseValue n tokens).bind fun r =>
          if r.2.head? = some (.punct ',') then
            (parseFields n r.2.tail).map fun r' => ((String.ofList key, r.1) :: r'.1, r'.2)
          else if r.2.head? = some (.punct '}') then some ([(String.ofList key, r.1)], r.2.tail)
          else none
      else none
  | _, _ => none

end

/-- The value a text stands for, with the members as they are written. -/
def parse (text : List Char) : Option Value :=
  (scan .out text).bind fun tokens =>
    (parseValue (tokens.length + 1) tokens).bind fun r => if r.2 = [] then some r.1 else none

/-! ## Parsing what was written -/

theorem parseWord_number (n : Number) : parseWord n.text = some (.number n) := by
  have hfirst : ∀ c ∈ n.text, c ≠ 'n' ∧ c ≠ 't' ∧ c ≠ 'f' := by
    intro c hc
    have hnum := List.all_eq_true.mp n.numeral.2 c hc
    refine ⟨?_, ?_, ?_⟩ <;> rintro rfl <;> exact absurd hnum (by decide)
  have hnull : n.text ≠ ['n', 'u', 'l', 'l'] := fun h => (hfirst 'n' (by simp [h])).1 rfl
  have htrue : n.text ≠ ['t', 'r', 'u', 'e'] := fun h => (hfirst 't' (by simp [h])).2.1 rfl
  have hfalse : n.text ≠ ['f', 'a', 'l', 's', 'e'] := fun h => (hfirst 'f' (by simp [h])).2.2 rfl
  rw [parseWord, if_neg hnull, if_neg htrue, if_neg hfalse, dif_pos n.numeral]

theorem parseValue_scalar (s : Scalar) (n : Nat) (rest : List Token) :
    parseValue (n + 1) (s.token :: rest) = some (.scalar s, rest) := by
  cases s with
  | null => rfl
  | bool b => cases b <;> rfl
  | number m => simp [Scalar.token, parseValue, parseWord_number]
  | string s => simp [Scalar.token, parseValue, Value.string]

/-- No value starts with a closing bracket. -/
theorem Value.head_tokens (v : Value) (rest : List Token) :
    (v.tokens ++ rest).head? ≠ some (.punct ']') ∧
      (v.tokens ++ rest).head? ≠ some (.punct '}') := by
  induction v using Value.induction with
  | scalar s =>
      cases s with
      | null => simp [Value.tokens, Scalar.token]
      | bool b => cases b <;> simp [Value.tokens, Scalar.token]
      | number n => simp [Value.tokens, Scalar.token]
      | string s => simp [Value.tokens, Scalar.token]
  | array elements => simp [Value.tokens]
  | object fields => simp [Value.tokens]
  | other json ih => exact ih

theorem exists_intercalate_cons {α : Type} (sep l : List α) (ls : List (List α)) :
    ∃ tail, sep.intercalate (l :: ls) = l ++ tail := by
  cases ls with
  | nil => exact ⟨[], by simp⟩
  | cons l' ls => exact ⟨sep ++ sep.intercalate (l' :: ls), by simp [List.append_assoc]⟩

theorem Value.intercalate_elementTokens (v v' : Value) (elements : List Value) :
    [Token.punct ','].intercalate (elementTokens (v :: v' :: elements))
      = v.tokens ++ .punct ','
        :: [Token.punct ','].intercalate (elementTokens (v' :: elements)) := by
  simp only [elementTokens, List.intercalate_cons_cons, List.append_assoc, List.singleton_append]

theorem Value.intercalate_fieldTokens (key : String) (v : Value) (f : String × Value)
    (fields : Fields) :
    [Token.punct ','].intercalate (fieldTokens ((key, v) :: f :: fields))
      = .str key.toList :: .punct ':' ::
        (v.tokens ++ .punct ',' :: [Token.punct ','].intercalate (fieldTokens (f :: fields))) := by
  simp only [fieldTokens, List.intercalate_cons_cons, List.append_assoc, List.nil_append,
    List.cons_append]

theorem parseElements_tokens {elements : List Value} (hne : elements ≠ [])
    (ih : ∀ v ∈ elements, ∀ n rest, v.tokens.length < n →
      parseValue n (v.tokens ++ rest) = some (v.decoded, rest)) (n : Nat) (rest : List Token)
    (hn : ([Token.punct ','].intercalate (Value.elementTokens elements)).length + 1 < n) :
    parseElements n
        ([Token.punct ','].intercalate (Value.elementTokens elements) ++ .punct ']' :: rest)
      = some (Value.decodedElements elements, rest) := by
  induction elements generalizing n with
  | nil => exact absurd rfl hne
  | cons v elements ih' =>
      obtain ⟨m, rfl⟩ : ∃ m, n = m + 1 := ⟨n - 1, by omega⟩
      have hv := ih v List.mem_cons_self m
      cases elements with
      | nil =>
          simp only [Value.elementTokens, List.intercalate_singleton] at hn ⊢
          rw [parseElements, hv _ (by omega)]
          simp [Value.decodedElements]
      | cons v' elements =>
          rw [Value.intercalate_elementTokens, List.length_append, List.length_cons] at hn
          have hrest := ih' (List.cons_ne_nil _ _)
            (fun w hw => ih w (List.mem_cons_of_mem v hw)) m (by omega)
          rw [Value.intercalate_elementTokens, List.append_assoc, parseElements, hv _ (by omega)]
          simp only [Option.bind_some, List.cons_append, List.head?_cons, List.tail_cons, if_true,
            hrest, Option.map_some, Value.decodedElements]

theorem parseFields_tokens {fields : Fields} (hne : fields ≠ [])
    (ih : ∀ f ∈ fields, ∀ n rest, f.2.tokens.length < n →
      parseValue n (f.2.tokens ++ rest) = some (f.2.decoded, rest)) (n : Nat) (rest : List Token)
    (hn : ([Token.punct ','].intercalate (Value.fieldTokens fields)).length + 1 < n) :
    parseFields n ([Token.punct ','].intercalate (Value.fieldTokens fields) ++ .punct '}' :: rest)
      = some (Value.decodedFields fields, rest) := by
  induction fields generalizing n with
  | nil => exact absurd rfl hne
  | cons f fields ih' =>
      obtain ⟨m, rfl⟩ : ∃ m, n = m + 1 := ⟨n - 1, by omega⟩
      obtain ⟨key, v⟩ := f
      have hv : ∀ rest, v.tokens.length < m → parseValue m (v.tokens ++ rest)
          = some (v.decoded, rest) := ih (key, v) List.mem_cons_self m
      cases fields with
      | nil =>
          simp only [Value.fieldTokens, List.intercalate_singleton, List.length_cons] at hn ⊢
          rw [List.cons_append, List.cons_append, parseFields, if_pos rfl, hv _ (by omega)]
          simp [Value.decodedFields]
      | cons f' fields =>
          rw [Value.intercalate_fieldTokens, List.length_cons, List.length_cons,
            List.length_append, List.length_cons] at hn
          have hrest := ih' (List.cons_ne_nil _ _)
            (fun g hg => ih g (List.mem_cons_of_mem _ hg)) m (by omega)
          rw [Value.intercalate_fieldTokens, List.cons_append, List.cons_append, parseFields,
            if_pos rfl, List.append_assoc, hv _ (by omega)]
          simp only [Option.bind_some, List.cons_append, List.head?_cons, List.tail_cons, if_true,
            hrest, Option.map_some, Value.decodedFields, String.ofList_toList]

/-- A value is parsed back from its tokens, whatever follows. -/
theorem parseValue_tokens (v : Value) :
    ∀ n rest, v.tokens.length < n → parseValue n (v.tokens ++ rest) = some (v.decoded, rest) := by
  induction v using Value.induction with
  | scalar s =>
      intro n rest hn
      obtain ⟨m, rfl⟩ : ∃ m, n = m + 1 := ⟨n - 1, by omega⟩
      exact parseValue_scalar s m rest
  | array elements ih =>
      intro n rest hn
      obtain ⟨m, rfl⟩ : ∃ m, n = m + 1 := ⟨n - 1, by omega⟩
      cases elements with
      | nil => rfl
      | cons v elements =>
          -- the first element tells the array from an empty one
          obtain ⟨tail, htail⟩ := exists_intercalate_cons [Token.punct ','] v.tokens
            (Value.elementTokens elements)
          have hparse := parseElements_tokens (List.cons_ne_nil v elements) ih m rest (by
            simp only [Value.tokens, List.length_append, List.length_cons, List.length_nil] at hn
            omega)
          have hhead := (v.head_tokens (tail ++ .punct ']' :: rest)).1
          rw [← List.append_assoc, ← htail] at hhead
          simp only [Value.elementTokens] at hparse
          simp only [Value.tokens, Value.elementTokens, List.cons_append, List.append_assoc,
            List.nil_append, parseValue, if_true, if_neg hhead, hparse, Option.map_some,
            Value.decoded]
  | object fields ih =>
      intro n rest hn
      obtain ⟨m, rfl⟩ : ∃ m, n = m + 1 := ⟨n - 1, by omega⟩
      cases fields with
      | nil => rfl
      | cons f fields =>
          obtain ⟨key, v⟩ := f
          obtain ⟨tail, htail⟩ := exists_intercalate_cons [Token.punct ',']
            (.str key.toList :: .punct ':' :: v.tokens) (Value.fieldTokens fields)
          have hparse := parseFields_tokens (List.cons_ne_nil (key, v) fields) ih m rest (by
            simp only [Value.tokens, List.length_append, List.length_cons, List.length_nil] at hn
            omega)
          simp only [Value.fieldTokens] at hparse
          have hhead : ([Token.punct ','].intercalate
              ((.str key.toList :: .punct ':' :: v.tokens) :: Value.fieldTokens fields)
                ++ .punct '}' :: rest).head? ≠ some (.punct '}') := by
            rw [htail]
            simp
          have hne : ¬ '{' = '[' := by decide
          simp only [Value.tokens, Value.fieldTokens, List.cons_append, List.append_assoc,
            List.nil_append, parseValue, if_neg hne, if_true, if_neg hhead, hparse,
            Option.map_some, Value.decoded]
  | other json ih => exact ih

/-- A text is parsed by its tokens. -/
theorem parse_of_scan {text : List Char} {v : Value} (h : scan .out text = some v.tokens) :
    parse text = some v.decoded := by
  have hparse := parseValue_tokens v (v.tokens.length + 1) [] (Nat.lt_succ_self _)
  rw [List.append_nil] at hparse
  rw [parse, h, Option.bind_some, hparse]
  rfl

/-- `json.Unmarshal` of the text of `json.Marshal`. -/
theorem parse_text (v : Value) : parse v.text = some v.decoded := parse_of_scan v.scan_text

theorem Value.text_decoded (v : Value) : v.decoded.text = v.text := by
  induction v using Value.induction with
  | scalar s => rfl
  | array elements ih =>
      have helements : elementTexts (decodedElements elements) = elementTexts elements := by
        induction elements with
        | nil => rfl
        | cons v elements ih' =>
            rw [decodedElements, elementTexts, ih v List.mem_cons_self,
              ih' fun w hw => ih w (List.mem_cons_of_mem v hw), elementTexts]
      rw [decoded, text, helements, text]
  | object fields ih =>
      have hfields : fieldTexts (decodedFields fields) = fieldTexts fields := by
        induction fields with
        | nil => rfl
        | cons f fields ih' =>
            rw [decodedFields, fieldTexts, ih f List.mem_cons_self,
              ih' fun g hg => ih g (List.mem_cons_of_mem f hg), fieldTexts]
      rw [decoded, text, hfields, text]
  | other json ih => exact ih

/-- Two values are written alike exactly when they stand for the same JSON. -/
theorem text_eq_iff {v w : Value} : v.text = w.text ↔ v.decoded = w.decoded := by
  constructor
  · intro h
    have hv := parse_text v
    rw [h, parse_text w] at hv
    exact (Option.some.inj hv).symm
  · intro h
    rw [← v.text_decoded, h, w.text_decoded]

/-! ## Decoding into maps -/

namespace Value

mutual

/-- The members of an object are assigned to a map one by one. -/
def assigned : Value → Value
  | .scalar s => .scalar s
  | .array elements => .array (assignedElements elements)
  | .object fields => .object (assignedFields [] fields)
  | .other json => .other json.assigned

/-- The elements of an array, each as it is assigned. -/
def assignedElements : List Value → List Value
  | [] => []
  | v :: elements => v.assigned :: assignedElements elements

/-- The members as they are assigned, one after the other. -/
def assignedFields (acc : Fields) : Fields → Fields
  | [] => acc
  | (key, v) :: fields => assignedFields (setField acc key v.assigned) fields

end

end Value

/-- `json.Unmarshal` into an `interface{}`. -/
def unmarshal (text : List Char) : Option Value :=
  (parse text).map Value.assigned

/-- A new last key goes to the end. -/
theorem setField_last {acc : Fields} {key : String} (h : ∀ f ∈ acc, f.1 < key) (v : Value) :
    setField acc key v = acc ++ [(key, v)] := by
  induction acc with
  | nil => rfl
  | cons f acc ih =>
      have hf := h f List.mem_cons_self
      rw [setField, if_neg (ne_of_gt hf), if_neg (not_lt_of_gt hf),
        ih fun g hg => h g (List.mem_cons_of_mem f hg)]
      rfl

/-- Assigning the members of a map in order makes the same map. -/
theorem assignedFields_eq {fields : Fields} (h : ∀ f ∈ fields, f.2.assigned = f.2) (acc : Fields)
    (hkeys : SortedKeys (acc ++ fields)) : Value.assignedFields acc fields = acc ++ fields := by
  induction fields generalizing acc with
  | nil => rw [Value.assignedFields, List.append_nil]
  | cons f fields ih =>
      obtain ⟨key, v⟩ := f
      have hlast : ∀ g ∈ acc, g.1 < key := by
        rw [SortedKeys, List.map_append, List.pairwise_append] at hkeys
        exact fun g hg => hkeys.2.2 g.1 (List.mem_map_of_mem hg) key List.mem_cons_self
      have hv : v.assigned = v := h (key, v) List.mem_cons_self
      have hrest := ih (fun g hg => h g (List.mem_cons_of_mem _ hg)) (acc ++ [(key, v)])
        (by rwa [List.append_assoc])
      rw [Value.assignedFields, hv, setField_last hlast, hrest, List.append_assoc]
      rfl

theorem assigned_eq {v : Value} (h : v.WellFormed) : v.assigned = v := by
  induction h with
  | scalar s => rfl
  | @array elements _ ih =>
      have helements : Value.assignedElements elements = elements := by
        clear * - ih
        induction elements with
        | nil => rfl
        | cons v elements ih' =>
            rw [Value.assignedElements, ih v List.mem_cons_self,
              ih' fun w hw => ih w (List.mem_cons_of_mem v hw)]
      rw [Value.assigned, helements]
  | object hkeys _ ih =>
      rw [Value.assigned, assignedFields_eq ih [] hkeys]
      rfl
  | other _ ih => rw [Value.assigned, ih]

theorem Value.WellFormed.decoded {v : Value} (h : v.WellFormed) : v.decoded.WellFormed := by
  induction h with
  | scalar s => exact .scalar s
  | array _ ih =>
      refine .array fun w hw => ?_
      rw [decodedElements_eq] at hw
      obtain ⟨v, hv, rfl⟩ := List.mem_map.mp hw
      exact ih v hv
  | object hkeys _ ih =>
      refine .object ?_ fun g hg => ?_
      · rw [SortedKeys, decodedFields_eq, List.map_map]
        exact hkeys
      · rw [decodedFields_eq] at hg
        obtain ⟨f, hf, rfl⟩ := List.mem_map.mp hg
        exact ih f hf
  | other _ ih => exact ih

/-- A value that is written and read is the JSON value it stands for. -/
theorem unmarshal_text {v : Value} (h : v.WellFormed) : unmarshal v.text = some v.decoded := by
  rw [unmarshal, parse_text, Option.map_some, assigned_eq h.decoded]

end Hfrd.Go
