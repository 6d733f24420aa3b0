/-
  Hfrd.Go.JsonExact

  What is parsed is what is written there: the parser takes the tokens of the
  value that it gives and no others.  A text in quotes that was not escaped is
  read as itself only if it has nothing to escape.
-/

import Hfrd.Go.JsonParse

namespace Hfrd.Go

/-! ## The tokens that are parsed -/

theorem token_of_parseWord {w : List Char} {s : Scalar} (h : parseWord w = some s) :
    s.token = .word w := by
  unfold parseWord at h
  split at h
  · next hw =>
      obtain rfl := Option.some.inj h
      rw [hw]
      rfl
  split at h
  · next hw =>
      obtain rfl := Option.some.inj h
      rw [hw]
      rfl
  split at h
  · next hw =>
      obtain rfl := Option.some.inj h
      rw [hw]
      rfl
  split at h
  · obtain rfl := Option.some.inj h
    rfl
  · cases h

theorem of_head? {α : Type} {l : List α} {a : α} (h : l.head? = some a) : l = a :: l.tail := by
  cases l with
  | nil => cases h
  | cons b l => rw [List.head?_cons] at h; rw [Option.some.inj h]; rfl

/-- `parseValue n` takes the tokens of the value. -/
def ExactValue (n : Nat) : Prop :=
  ∀ {tokens v rest}, parseValue n tokens = some (v, rest) → tokens = v.tokens ++ rest

/-- `parseElements n` takes the tokens of the elements, and the bracket. -/
def ExactElements (n : Nat) : Prop :=
  ∀ {tokens elements rest}, parseElements n tokens = some (elements, rest) → elements ≠ [] ∧
    tokens = [.punct ','].intercalate (Value.elementTokens elements) ++ .punct ']' :: rest

/-- What is parsed as the members of an object are their tokens. -/
def ExactFields (n : Nat) : Prop :=
  ∀ {tokens fields rest}, parseFields n tokens = some (fields, rest) → fields ≠ [] ∧
    tokens = [.punct ','].intercalate (Value.fieldTokens fields) ++ .punct '}' :: rest

theorem exactValue_succ {n : Nat} (helements : ExactElements n) (hfields : ExactFields n) :
    ExactValue (n + 1) := by
  intro tokens v rest h
  cases tokens with
  | nil => cases h
  | cons token tokens =>
      cases token with
      | word w =>
          simp only [parseValue, Option.map_eq_some_iff, Prod.mk.injEq] at h
          obtain ⟨s, hs, rfl, rfl⟩ := h
          rw [Value.tokens, token_of_parseWord hs]
          rfl
      | str s =>
          simp only [parseValue, Option.some.injEq, Prod.mk.injEq] at h
          obtain ⟨rfl, rfl⟩ := h
          simp [Value.tokens, Scalar.token]
      | punct c =>
          simp only [parseValue] at h
          split at h
          · next hc =>
              split at h
              -- a bracket that is closed at once, or elements up to the bracket
              · next hhead =>
                  obtain ⟨rfl, rfl⟩ := Prod.mk.inj (Option.some.inj h)
                  rw [hc, of_head? hhead]
                  simp [Value.tokens, Value.elementTokens]
              · simp only [Option.map_eq_some_iff, Prod.mk.injEq] at h
                obtain ⟨⟨elements, rest'⟩, hparse, rfl, rfl⟩ := h
                rw [hc, (helements hparse).2]
                simp [Value.tokens]
          · split at h
            · next hc =>
                split at h
                · next hhead =>
                    obtain ⟨rfl, rfl⟩ := Prod.mk.inj (Option.some.inj h)
                    rw [hc, of_head? hhead]
                    simp [Value.tokens, Value.fieldTokens]
                · simp only [Option.map_eq_some_iff, Prod.mk.injEq] at h
                  obtain ⟨⟨fields, rest'⟩, hparse, rfl, rfl⟩ := h
                  rw [hc, (hfields hparse).2]
                  simp [Value.tokens]
            · cases h

theorem exactElements_succ {n : Nat} (hvalue : ExactValue n) (helements : ExactElements n) :
    ExactElements (n + 1) := by
  intro tokens elements rest h
  simp only [parseElements, Option.bind_eq_some_iff] at h
  obtain ⟨⟨v, rest'⟩, hparse, h⟩ := h
  rw [hvalue hparse]
  split at h
  · next hcomma =>
      simp only [Option.map_eq_some_iff, Prod.mk.injEq] at h
      obtain ⟨⟨elements', rest''⟩, hrest, rfl, rfl⟩ := h
      obtain ⟨hne, htail⟩ := helements hrest
      refine ⟨List.cons_ne_nil _ _, ?_⟩
      cases elements' with
      | nil => exact absurd rfl hne
      | cons v' elements' =>
          have htokens := of_head? (l := rest') hcomma
          rw [Value.intercalate_elementTokens, htokens, htail]
          simp
  · split at h
    · next hclose =>
        obtain ⟨rfl, rfl⟩ := Prod.mk.inj (Option.some.inj h)
        refine ⟨List.cons_ne_nil _ _, ?_⟩
        have htokens := of_head? (l := rest') hclose
        rw [htokens]
        simp [Value.elementTokens]
    · cases h

theorem exactFields_succ {n : Nat} (hvalue : ExactValue n) (hfields : ExactFields n) :
    ExactFields (n + 1) := by
  intro tokens fields rest h
  unfold parseFields at h
  split at h
  · next n' key c tokens hn =>
      obtain rfl := Nat.succ.inj hn
      split at h
      · next hc =>
          simp only [Option.bind_eq_some_iff] at h
          obtain ⟨⟨v, rest'⟩, hparse, h⟩ := h
          rw [hc, hvalue hparse]
          split at h
          -- a comma: there are more members, and at least one
          · next hcomma =>
              simp only [Option.map_eq_some_iff, Prod.mk.injEq] at h
              obtain ⟨⟨fields', rest''⟩, hrest, rfl, rfl⟩ := h
              obtain ⟨hne, htail⟩ := hfields hrest
              refine ⟨List.cons_ne_nil _ _, ?_⟩
              cases fields' with
              | nil => exact absurd rfl hne
              | cons f fields' =>
                  have htokens := of_head? (l := rest') hcomma
                  rw [Value.intercalate_fieldTokens, htokens, htail]
                  simp
          · split at h
            -- a brace: this was the last one
            · next hclose =>
                obtain ⟨rfl, rfl⟩ := Prod.mk.inj (Option.some.inj h)
                refine ⟨List.cons_ne_nil _ _, ?_⟩
                have htokens := of_head? (l := rest') hclose
                rw [htokens]
                simp [Value.fieldTokens]
            · cases h
      · cases h
  · cases h

/-- **The parser takes exactly the tokens of what it gives.** -/
theorem exact_parse (n : Nat) : ExactValue n ∧ ExactElements n ∧ ExactFields n := by
  induction n with
  | zero => exact ⟨nofun, nofun, by intro _ _ _ h; simp [parseFields] at h⟩
  | succ n ih =>
      obtain ⟨hvalue, helements, hfields⟩ := ih
      exact ⟨exactValue_succ helements hfields, exactElements_succ hvalue helements,
        exactFields_succ hvalue hfields⟩

/-- A text that is parsed has the tokens of its value. -/
theorem scan_of_parse {text : List Char} {v : Value} (h : parse text = some v) :
    scan .out text = some v.tokens := by
  simp only [parse, Option.bind_eq_some_iff] at h
  obtain ⟨tokens, hscan, ⟨v', rest⟩, hparse, h⟩ := h
  split at h
  · next hrest =>
      obtain rfl := Option.some.inj h
      rw [hscan, (exact_parse _).1 hparse]
      simp only at hrest
      rw [hrest, List.append_nil]
  · cases h

/-- The maps that are read are maps: a later member takes the place of an
    earlier one with its key. -/
theorem Value.wellFormed_assigned (v : Value) : v.assigned.WellFormed := by
  induction v using Value.induction with
  | scalar s => exact .scalar s
  | array elements ih =>
      refine .array ?_
      induction elements with
      | nil => exact fun v hv => absurd hv List.not_mem_nil
      | cons v elements ih' =>
          rw [assignedElements]
          exact List.forall_mem_cons.mpr ⟨ih v List.mem_cons_self,
            ih' fun w hw => ih w (List.mem_cons_of_mem v hw)⟩
  | object fields ih =>
      suffices ∀ acc : Fields, (Value.object acc).WellFormed →
          (Value.object (assignedFields acc fields)).WellFormed from
        this [] (.object List.Pairwise.nil fun f hf => absurd hf List.not_mem_nil)
      induction fields with
      | nil => exact fun acc hacc => hacc
      | cons f fields ih' =>
          intro acc hacc
          obtain ⟨key, v⟩ := f
          rw [assignedFields]
          exact ih' (fun g hg => ih g (List.mem_cons_of_mem _ hg)) _
            (hacc.setField key (ih (key, v) List.mem_cons_self))
  | other json ih => exact .other ih

theorem wellFormed_of_unmarshal {text : List Char} {v : Value} (h : unmarshal text = some v) :
    v.WellFormed := by
  rw [unmarshal, Option.map_eq_some_iff] at h
  obtain ⟨v', -, rfl⟩ := h
  exact v'.wellFormed_assigned

/-! ## Texts in quotes without escapes -/

/-- A character that stands for itself between quotes. -/
def isRawChar (c : Char) : Bool := c ≠ '"' && c ≠ '\\' && decide (32 ≤ c.toNat)

/-- The text stands in a string as it is. -/
def isRaw (s : String) : Bool := s.toList.all isRawChar

theorem scanStep_raw {c : Char} (h : isRawChar c = true) (s : List Char) :
    scanStep (.str s none) c = some (.str (c :: s) none, []) := by
  simp only [isRawChar, Bool.and_eq_true, decide_eq_true_eq] at h
  have hlt : ¬ c.toNat < 32 := by omega
  simp only [scanStep, if_neg h.1.1, if_neg h.1.2, if_neg hlt, flush]

theorem scan_raw {cs : List Char} (h : ∀ c ∈ cs, isRawChar c = true) (s rest : List Char) :
    scan (.str s none) (cs ++ rest) = scan (.str (cs.reverse ++ s) none) rest := by
  induction cs generalizing s with
  | nil => rfl
  | cons c cs ih =>
      rw [List.cons_append, scan_move (scanStep_raw (h c List.mem_cons_self) s),
        ih fun d hd => h d (List.mem_cons_of_mem c hd), List.reverse_cons, List.append_assoc]
      rfl

theorem readsAs_raw {s : String} (h : isRaw s = true) :
    ReadsAs ('"' :: s.toList ++ ['"']) [.str s.toList] := by
  intro rest
  have hopen : scanStep .out '"' = some (.str [] none, []) := rfl
  have hclose : ∀ t, scanStep (.str t none) '"' = some (.out, [.str t.reverse]) := fun t => rfl
  rw [List.append_assoc, List.cons_append, scan_move hopen, scan_raw (List.all_eq_true.mp h),
    List.singleton_append, scan_cons, hclose]
  simp

/-- The string that is read from `cs` and what follows it, behind `n` characters:
    it ends with `cs` at the latest, or an escape at the end of `cs` takes the
    quote, and the string ends with the blank before the next one. -/
def Overrun (cs : List Char) (escaped : Bool) (n : Nat) (x : List Char) : Prop :=
  x.length ≤ n + cs.length ∨
    x.getLast? = some ' ' ∧ (cs.getLast? = some '\\' ∨ cs = [] ∧ escaped = true)

/-- A character gives one at most. -/
theorem Overrun.cons {cs x : List Char} {escaped escaped' : Bool} {c : Char} {n m : Nat}
    (h : Overrun cs escaped m x) (hm : m ≤ n + 1) (hc : escaped = true → c = '\\') :
    Overrun (c :: cs) escaped' n x := by
  rcases h with hlen | ⟨hlast, hcs | ⟨rfl, hesc⟩⟩
  · refine Or.inl ?_
    simp only [List.length_cons]
    omega
  · refine Or.inr ⟨hlast, Or.inl ?_⟩
    rw [List.getLast?_cons, hcs, Option.getD_some]
  · exact Or.inr ⟨hlast, Or.inl (by rw [hc hesc]; rfl)⟩

theorem eq_of_scan_quote {s x cs : List Char} {high : Option Nat} {toks : List Token}
    (h : scan (.str s high) ('"' :: cs) = some (.str x :: toks)) : x = (flush s high).reverse := by
  rw [scan_cons] at h
  simp only [scanStep, if_true, Option.bind_some, Option.map_eq_some_iff] at h
  obtain ⟨toks', -, h⟩ := h
  exact (Token.str.inj (List.cons.inj h).1).symm

theorem exists_putAlone (s : List Char) (n : Nat) :
    ∃ s' high', putAlone s n = .str s' high' ∧ (flush s' high').length ≤ s.length + 1 := by
  unfold putAlone
  split
  · exact ⟨_, _, rfl, Nat.le_refl _⟩
  · exact ⟨_, _, rfl, Nat.le_refl _⟩

/-- A code adds one character at most, the first half of a pair included. -/
theorem exists_putCode (s : List Char) (high : Option Nat) (n : Nat) :
    ∃ s' high', putCode s high n = .str s' high' ∧
      (flush s' high').length ≤ (flush s high).length + 1 := by
  unfold putCode
  split
  · split
    · exact ⟨_, _, rfl, Nat.le_succ (s.length + 1)⟩
    · exact exists_putAlone _ n
  · exact exists_putAlone s n

theorem scan_overrun (cs tail : List Char) :
    (∀ s high x toks,
      scan (.str s high) (cs ++ '"' :: ',' :: ' ' :: '"' :: tail) = some (.str x :: toks) →
      Overrun cs false (flush s high).length x) ∧
    (∀ s high x toks, scan (.escape s high) (cs ++ '"' :: ',' :: ' ' :: '"' :: tail) =
      some (.str x :: toks) → Overrun cs true (flush s high).length x) ∧
    (∀ s high left code x toks,
      scan (.hex s high left code) (cs ++ '"' :: ',' :: ' ' :: '"' :: tail) =
        some (.str x :: toks) → Overrun cs false (flush s high).length x) := by
  induction cs with
  | nil =>
      refine ⟨fun s high x toks h => Or.inl ?_,
        fun s high x toks h => Or.inr ⟨?_, Or.inr ⟨rfl, rfl⟩⟩, fun s high left code x toks h => ?_⟩
      · rw [eq_of_scan_quote h, List.length_reverse]
        exact Nat.le_add_right _ _
      -- the escape takes the quote, and the string goes on to the next one
      · have hstep : scanStep (.escape s high) '"' = some (.str ('"' :: flush s high) none, []) :=
          rfl
        rw [List.nil_append, scan_move hstep, scan_move (scanStep_raw (by decide) _),
          scan_move (scanStep_raw (by decide) _)] at h
        rw [eq_of_scan_quote h, List.getLast?_reverse]
        rfl
      · have hstep : scanStep (.hex s high left code) '"' = none := rfl
        rw [List.nil_append, scan_cons, hstep] at h
        cases h
  | cons c cs ih =>
      obtain ⟨ihStr, ihEscape, ihHex⟩ := ih
      refine ⟨fun s high x toks h => ?_, fun s high x toks h => ?_,
        fun s high left code x toks h => ?_⟩
      · by_cases hc : c = '"'
        · subst hc
          rw [List.cons_append] at h
          rw [eq_of_scan_quote h]
          exact Or.inl (by simp)
        by_cases hb : c = '\\'
        · subst hb
          have hstep : scanStep (.str s high) '\\' = some (.escape s high, []) := rfl
          rw [List.cons_append, scan_move hstep] at h
          exact (ihEscape s high x toks h).cons (Nat.le_succ _) fun _ => rfl
        by_cases hlt : c.toNat < 32
        · have hstep : scanStep (.str s high) c = none := by simp [scanStep, hc, hb, hlt]
          rw [List.cons_append, scan_cons, hstep] at h
          cases h
        · have hstep : scanStep (.str s high) c = some (.str (c :: flush s high) none, []) := by
            simp [scanStep, hc, hb, hlt]
          rw [List.cons_append, scan_move hstep] at h
          exact (ihStr _ none x toks h).cons (Nat.le_refl _) (absurd · Bool.false_ne_true)
      · by_cases hu : c = 'u'
        · have hstep : scanStep (.escape s high) c = some (.hex s high 3 0, []) := if_pos hu
          rw [List.cons_append, scan_move hstep] at h
          exact (ihHex s high 3 0 x toks h).cons (Nat.le_succ _) (absurd · Bool.false_ne_true)
        · have hstep : scanStep (.escape s high) c =
              (unescape c).map fun d => (.str (d :: flush s high) none, []) := if_neg hu
          cases hd : unescape c with
          | none =>
              rw [hd] at hstep
              rw [List.cons_append, scan_cons, hstep] at h
              cases h
          | some d =>
              rw [hd] at hstep
              rw [List.cons_append, scan_move hstep] at h
              exact (ihStr _ none x toks h).cons (Nat.le_refl _) (absurd · Bool.false_ne_true)
      · cases hd : hexValue c with
        | none =>
            have hstep : scanStep (.hex s high left code) c = none := by simp [scanStep, hd]
            rw [List.cons_append, scan_cons, hstep] at h
            cases h
        | some d =>
            cases left with
            | zero =>
                have hstep : scanStep (.hex s high 0 code) c =
                    some (putCode s high (16 * code + d), []) := by simp [scanStep, hd]
                obtain ⟨s', high', hput, hle⟩ := exists_putCode s high (16 * code + d)
                rw [List.cons_append, scan_move hstep, hput] at h
                exact (ihStr s' high' x toks h).cons hle (absurd · Bool.false_ne_true)
            | succ left =>
                have hstep : scanStep (.hex s high (left + 1) code) c =
                    some (.hex s high left (16 * code + d), []) := by simp [scanStep, hd]
                rw [List.cons_append, scan_move hstep] at h
                exact (ihHex s high left _ x toks h).cons (Nat.le_succ _)
                  (absurd · Bool.false_ne_true)

/-- **Only a raw text is read as itself**, where a comma, a blank and another
    quote follow. -/
theorem isRaw_of_scan {s : String} {tail : List Char} {toks : List Token}
    (h : scan .out ('"' :: s.toList ++ '"' :: ',' :: ' ' :: '"' :: tail) =
      some (.str s.toList :: toks)) : isRaw s = true := by
  have hopen : scanStep .out '"' = some (.str [] none, []) := rfl
  rw [List.cons_append, scan_move hopen] at h
  suffices ∀ cs acc, scan (.str acc none) (cs ++ '"' :: ',' :: ' ' :: '"' :: tail) =
      some (.str (acc.reverse ++ cs) :: toks) → ∀ c ∈ cs, isRawChar c = true from
    List.all_eq_true.mpr (this s.toList [] (by simpa using h))
  intro cs
  induction cs with
  | nil => exact fun _ _ c hc => absurd hc List.not_mem_nil
  | cons c cs ih =>
      intro acc h
      by_cases hc : isRawChar c = true
      · rw [List.cons_append, scan_move (scanStep_raw hc acc)] at h
        exact List.forall_mem_cons.mpr ⟨hc, ih (c :: acc) (by simpa using h)⟩
      · exfalso
        simp only [isRawChar, Bool.and_eq_true, decide_eq_true_eq, not_and_or, not_not] at hc
        -- a quote would end the string here, a backslash take more than it gives
        rcases hc with (rfl | rfl) | hlt
        · have hlen := congrArg List.length (eq_of_scan_quote h)
          simp [flush] at hlen
        · have hstep : scanStep (.str acc none) '\\' = some (.escape acc none, []) := rfl
          rw [List.cons_append, scan_move hstep] at h
          rcases (scan_overrun cs tail).2.1 acc none _ toks h with hlen | ⟨hlast, hcs | ⟨rfl, -⟩⟩
          · simp [flush] at hlen
          · simp [List.getLast?_append, List.getLast?_cons, hcs] at hlast
          · simp at hlast
        · have hstep : scanStep (.str acc none) c = none := by
            have hc : c ≠ '"' ∧ c ≠ '\\' := by
              constructor
              · rintro rfl
                exact hlt (by decide)
              · rintro rfl
                exact hlt (by decide)
            simp only [scanStep, if_neg hc.1, if_neg hc.2, if_pos (Nat.lt_of_not_le hlt)]
          rw [List.cons_append, scan_cons, hstep] at h
          cases h

end Hfrd.Go
