/-
  Hfrd.Go.JsonIndent

  The text that a `json.Encoder` with `SetIndent("", "\t")` writes: one line
  for each scalar, bracket or pair of brackets with nothing between them, with
  the key of a member in front and a comma behind when another one follows.

  The tokens of the lines are the tokens of the value, however far each line is
  indented.
-/

import Hfrd.Go.JsonParse

namespace Hfrd.Go

/-! ## Lines -/

/-- The brackets of objects and arrays. -/
def isBracket (c : Char) : Bool := c == '{' || c == '}' || c == '[' || c == ']'

/-- What a line holds between its key and its comma. -/
inductive Core where
  | scalar (s : Scalar)
  | brackets (cs : List Char) (h : cs.all isBracket = true)

/-- A line of the indented text, without its indentation. -/
structure Line where
  key : Option String
  core : Core
  comma : Bool

/-- The text of a key. -/
def keyText : Option String → List Char
  | none => []
  | some key => quote key ++ [':', ' ']

/-- The text of a core. -/
def Core.text : Core → List Char
  | .scalar s => s.text
  | .brackets cs _ => cs

/-- The text of a comma, where there is one. -/
def commaText (comma : Bool) : List Char := if comma then [','] else []

/-- A line without its indentation and its end. -/
def Line.body (l : Line) : List Char := keyText l.key ++ l.core.text ++ commaText l.comma

/-- Lines, each with the number of tabs before it. -/
abbrev Lines := List (Nat × Line)

/-- The text of the lines. -/
def render (ls : Lines) : List Char :=
  ls.flatMap fun l => List.replicate l.1 '\t' ++ l.2.body ++ ['\n']

/-- What is between brackets is on lines of its own, if there is any. -/
def bracketed (depth : Nat) (key : Option String) (comma : Bool) (open' close : Core)
    (empty : Core) : Lines → Lines
  | [] => [(depth, ⟨key, empty, comma⟩)]
  | inner => (depth, ⟨key, open', false⟩) :: inner ++ [(depth, ⟨none, close, comma⟩)]

namespace Value

mutual

/-- The lines of a value. -/
def lines (depth : Nat) (key : Option String) (comma : Bool) : Value → Lines
  | .scalar s => [(depth, ⟨key, .scalar s, comma⟩)]
  | .array elements =>
      bracketed depth key comma (.brackets ['['] (by decide)) (.brackets [']'] (by decide))
        (.brackets ['[', ']'] (by decide)) (elementLines (depth + 1) elements)
  | .object fields =>
      bracketed depth key comma (.brackets ['{'] (by decide)) (.brackets ['}'] (by decide))
        (.brackets ['{', '}'] (by decide)) (fieldLines (depth + 1) fields)
  | .other json => lines depth key comma json

/-- The lines of the elements of an array. -/
def elementLines (depth : Nat) : List Value → Lines
  | [] => []
  | v :: elements => lines depth none (!elements.isEmpty) v ++ elementLines depth elements

/-- The lines of the members of an object. -/
def fieldLines (depth : Nat) : Fields → Lines
  | [] => []
  | (key, v) :: fields =>
      lines depth (some key) (!fields.isEmpty) v ++ fieldLines depth fields

end

/-- The text of an encoder with `SetIndent("", "\t")`. -/
def indented (v : Value) : List Char := render (v.lines 0 none false)

end Value

/-! ## The tokens of the lines -/

/-- The tokens of a key. -/
def keyTokens : Option String → List Token
  | none => []
  | some key => [.str key.toList, .punct ':']

/-- The tokens of a core. -/
def Core.tokens : Core → List Token
  | .scalar s => [s.token]
  | .brackets cs _ => cs.map .punct

/-- The token of a comma, where there is one. -/
def commaTokens (comma : Bool) : List Token := if comma then [.punct ','] else []

/-- The tokens of a line. -/
def Line.tokens (l : Line) : List Token := keyTokens l.key ++ l.core.tokens ++ commaTokens l.comma

/-- The tokens of the lines. -/
def lineTokens (ls : Lines) : List Token := ls.flatMap fun l => l.2.tokens

theorem readsAs_keyText (key : Option String) : ReadsAs (keyText key) (keyTokens key) := by
  cases key with
  | none => exact readsAs_nil
  | some key =>
      have hspace := (readsAs_punct (c := ':') (by decide)).append
        (readsAs_space (c := ' ') (by decide))
      exact (readsAs_quote key).append hspace

theorem isPunct_of_isBracket {c : Char} (h : isBracket c = true) : isPunct c = true := by
  rw [isPunct, Bool.or_assoc]
  exact Bool.or_eq_true_iff.mpr (.inl h)

theorem Core.reads (core : Core) : ReadsApart core.text core.tokens := by
  cases core with
  | scalar s => exact s.reads
  | brackets cs h =>
      refine ReadsAs.apart ?_
      induction cs with
      | nil => exact readsAs_nil
      | cons c cs ih =>
          rw [List.all_cons, Bool.and_eq_true] at h
          exact (readsAs_punct (isPunct_of_isBracket h.1)).append (ih h.2)

theorem Line.reads (l : Line) : ReadsApart l.body l.tokens := by
  have hcore := (readsAs_keyText l.key).append_apart l.core.reads
  rw [body, tokens, commaText, commaTokens]
  cases l.comma with
  | true => exact (hcore.append (by decide) (readsAs_punct (c := ',') (by decide))).apart
  | false => simpa using hcore

/-- Every indentation reads the same. -/
theorem render_reads (ls : Lines) : ReadsAs (render ls) (lineTokens ls) := by
  induction ls with
  | nil => exact readsAs_nil
  | cons l ls ih =>
      have htabs : ReadsAs (List.replicate l.1 '\t') [] :=
        readsAs_spaces fun c hc => by rw [List.eq_of_mem_replicate hc]; rfl
      have hline := l.2.reads.append (c := '\n') (by decide) (readsAs_space (by decide))
      have hall := (htabs.append hline).append ih
      simpa [render, lineTokens] using hall

theorem Value.lines_ne_nil (v : Value) (depth : Nat) (key : Option String) (comma : Bool) :
    v.lines depth key comma ≠ [] := by
  induction v using Value.induction with
  | scalar s => exact List.cons_ne_nil _ _
  | array elements _ =>
      rw [lines]
      cases elementLines (depth + 1) elements <;> exact List.cons_ne_nil _ _
  | object fields _ =>
      rw [lines]
      cases fieldLines (depth + 1) fields <;> exact List.cons_ne_nil _ _
  | other json ih => exact ih

theorem lineTokens_append (ls ls' : Lines) :
    lineTokens (ls ++ ls') = lineTokens ls ++ lineTokens ls' :=
  List.flatMap_append

theorem lineTokens_bracketed (depth : Nat) (key : Option String) (comma : Bool)
    {open' close empty : Core} (h : empty.tokens = open'.tokens ++ close.tokens) (inner : Lines) :
    lineTokens (bracketed depth key comma open' close empty inner)
      = keyTokens key ++ (open'.tokens ++ lineTokens inner ++ close.tokens)
        ++ commaTokens comma := by
  cases inner with
  | nil => simp [bracketed, lineTokens, Line.tokens, h]
  | cons l inner => simp [bracketed, lineTokens, Line.tokens, keyTokens, commaTokens]

/-- The lines of a value hold its tokens. -/
theorem Value.lineTokens_lines (v : Value) :
    ∀ depth key comma, lineTokens (v.lines depth key comma)
      = keyTokens key ++ v.tokens ++ commaTokens comma := by
  induction v using Value.induction with
  | scalar s =>
      intro depth key comma
      simp [lines, lineTokens, Line.tokens, Core.tokens, tokens]
  | array elements ih =>
      intro depth key comma
      have hinner : ∀ depth, lineTokens (elementLines depth elements)
          = [Token.punct ','].intercalate (elementTokens elements) := by
        intro depth
        induction elements with
        | nil => rfl
        | cons v elements ih' =>
            rw [elementLines, lineTokens_append, ih v List.mem_cons_self,
              ih' fun w hw => ih w (List.mem_cons_of_mem v hw)]
            cases elements with
            | nil => simp [elementTokens, keyTokens, commaTokens]
            | cons w elements =>
                rw [intercalate_elementTokens]
                simp [keyTokens, commaTokens]
      rw [lines, lineTokens_bracketed _ _ _ rfl, hinner]
      rfl
  | object fields ih =>
      intro depth key comma
      -- the same for members, each behind its key
      have hinner : ∀ depth, lineTokens (fieldLines depth fields)
          = [Token.punct ','].intercalate (fieldTokens fields) := by
        intro depth
        induction fields with
        | nil => rfl
        | cons f fields ih' =>
            rw [fieldLines, lineTokens_append, ih f List.mem_cons_self,
              ih' fun g hg => ih g (List.mem_cons_of_mem f hg)]
            cases fields with
            | nil => simp [fieldTokens, keyTokens, commaTokens]
            | cons g fields =>
                rw [intercalate_fieldTokens]
                simp [keyTokens, commaTokens]
      rw [lines, lineTokens_bracketed _ _ _ rfl, hinner]
      rfl
  | other json ih => exact ih

/-- Lines with the tokens of a value are parsed as the value. -/
theorem parse_render {ls : Lines} {v : Value} (h : lineTokens ls = v.tokens) :
    parse (render ls) = some v.decoded := by
  have hread := render_reads ls []
  rw [List.append_nil] at hread
  refine parse_of_scan ?_
  rw [hread, h]
  simp [scan]

end Hfrd.Go
