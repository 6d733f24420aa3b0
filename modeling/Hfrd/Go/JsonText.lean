/-
  Hfrd.Go.JsonText

  The text that `json.Marshal` writes for a value, and the scanner that gives
  the tokens of a text.  White space between tokens only matters to the
  scanner.
-/

import Hfrd.Go.JsonValue

namespace Hfrd.Go

/-! ## Writing strings -/

/-- A hexadecimal digit below 16. -/
def hexDigit (n : Nat) : Char :=
  if n < 10 then Char.ofNat (48 + n) else Char.ofNat (87 + n)

/-- The characters that are written as `\u` and four digits: the control
    characters, and those that HTML or JavaScript would take for something
    else. -/
def isUnicodeEscaped (c : Char) : Bool :=
  c.toNat < 32 || c == '<' || c == '>' || c == '&' || c.toNat == 0x2028 || c.toNat == 0x2029

/-- A character as it stands in a string. -/
def escapeChar (c : Char) : List Char :=
  if c = '"' then ['\\', '"']
  else if c = '\\' then ['\\', '\\']
  else if c = '\n' then ['\\', 'n']
  else if c = '\r' then ['\\', 'r']
  else if c = '\t' then ['\\', 't']
  else if isUnicodeEscaped c then
    ['\\', 'u', hexDigit (c.toNat / 4096), hexDigit (c.toNat / 256 % 16),
      hexDigit (c.toNat / 16 % 16), hexDigit (c.toNat % 16)]
  else [c]

/-- A string in its quotes. -/
def quote (s : String) : List Char :=
  '"' :: s.toList.flatMap escapeChar ++ ['"']

/-! ## Writing values -/

/-- The text of a scalar. -/
def Scalar.text : Scalar → List Char
  | .null => ['n', 'u', 'l', 'l']
  | .bool true => ['t', 'r', 'u', 'e']
  | .bool false => ['f', 'a', 'l', 's', 'e']
  | .number n => n.text
  | .string s => quote s

namespace Value

mutual

/-- `json.Marshal`. -/
def text : Value → List Char
  | .scalar s => s.text
  | .array elements => '[' :: [','].intercalate (elementTexts elements) ++ [']']
  | .object fields => '{' :: [','].intercalate (fieldTexts fields) ++ ['}']
  | .other json => json.text

/-- The texts of the elements of an array. -/
def elementTexts : List Value → List (List Char)
  | [] => []
  | v :: elements => v.text :: elementTexts elements

/-- The texts of the members of an object. -/
def fieldTexts : Fields → List (List Char)
  | [] => []
  | (key, v) :: fields => (quote key ++ ':' :: v.text) :: fieldTexts fields

end

end Value

/-! ## Scanning -/

/-- A token of a text. -/
inductive Token where
  | punct (c : Char)
  | word (w : List Char)
  | str (s : List Char)
  deriving DecidableEq

/-- The characters between tokens. -/
def isSpace (c : Char) : Bool := c == ' ' || c == '\t' || c == '\n' || c == '\r'

/-- The characters that are a token by themselves. -/
def isPunct (c : Char) : Bool :=
  c == '{' || c == '}' || c == '[' || c == ']' || c == ':' || c == ','

/-- The characters of numbers and of `null`, `true` and `false`. -/
def isWordChar (c : Char) : Bool := c.isAlphanum || c == '-' || c == '+' || c == '.'

/-- The character behind a backslash, apart from `u`. -/
def unescape (c : Char) : Option Char :=
  if c = '"' ∨ c = '\\' ∨ c = '/' then some c
  else if c = 'b' then some '\x08'
  else if c = 'f' then some '\x0c'
  else if c = 'n' then some '\n'
  else if c = 'r' then some '\r'
  else if c = 't' then some '\t'
  else none

/-- The value of a hexadecimal digit. -/
def hexValue (c : Char) : Option Nat :=
  if '0' ≤ c ∧ c ≤ '9' then some (c.toNat - 48)
  else if 'a' ≤ c ∧ c ≤ 'f' then some (c.toNat - 87)
  else if 'A' ≤ c ∧ c ≤ 'F' then some (c.toNat - 55)
  else none

/-- The character of a code; a surrogate is none. -/
def charOfCode (n : Nat) : Char := if n.isValidChar then Char.ofNat n else '\uFFFD'

/-- The first half of a pair of surrogates. -/
def isHighSurrogate (n : Nat) : Bool := 0xD800 ≤ n && n < 0xDC00

/-- The second half of a pair of surrogates. -/
def isLowSurrogate (n : Nat) : Bool := 0xDC00 ≤ n && n < 0xE000

/-- `utf16.DecodeRune` of a pair. -/
def decodeRune (high low : Nat) : Char :=
  charOfCode (0x10000 + (high - 0xD800) * 0x400 + (low - 0xDC00))

/-- Where the scanner is.  What was read of a word or string is kept in
    reverse; in a string, `high` is the first half of a pair that was read just
    before. -/
inductive ScanState where
  | out
  | word (w : List Char)
  | str (s : List Char) (high : Option Nat)
  | escape (s : List Char) (high : Option Nat)
  | hex (s : List Char) (high : Option Nat) (left code : Nat)

/-- What was read of a string, where the first half of a pair stays alone. -/
def flush (s : List Char) : Option Nat → List Char
  | none => s
  | some _ => '\uFFFD' :: s

/-- Behind the escape of a code: the first half of a pair waits for what comes
    next. -/
def putAlone (s : List Char) (n : Nat) : ScanState :=
  if isHighSurrogate n then .str s (some n) else .str (charOfCode n :: s) none

/-- The second half of a pair goes with the first. -/
def putCode (s : List Char) (high : Option Nat) (n : Nat) : ScanState :=
  match high with
  | some h =>
      if isLowSurrogate n then .str (decodeRune h n :: s) none else putAlone (flush s high) n
  | none => putAlone s n

/-- A character that begins a token, or that stands between tokens. -/
def scanOut (c : Char) : Option (ScanState × List Token) :=
  if isSpace c then some (.out, [])
  else if c = '"' then some (.str [] none, [])
  else if isPunct c then some (.out, [.punct c])
  else if isWordChar c then some (.word [c], [])
  else none

/-- The next character of the text, and the tokens that it ends. -/
def scanStep : ScanState → Char → Option (ScanState × List Token)
  | .out, c => scanOut c
  | .word w, c =>
      if isWordChar c then some (.word (c :: w), [])
      else (scanOut c).map fun r => (r.1, .word w.reverse :: r.2)
  | .str s high, c =>
      if c = '"' then some (.out, [.str (flush s high).reverse])
      else if c = '\\' then some (.escape s high, [])
      else if c.toNat < 32 then none
      else some (.str (c :: flush s high) none, [])
  | .escape s high, c =>
      if c = 'u' then some (.hex s high 3 0, [])
      else (unescape c).map fun d => (.str (d :: flush s high) none, [])
  | .hex s high left code, c =>
      (hexValue c).map fun d =>
        match left with
        | 0 => (putCode s high (16 * code + d), [])
        | left + 1 => (.hex s high left (16 * code + d), [])

/-- The tokens of a text. -/
def scan : ScanState → List Char → Option (List Token)
  | .out, [] => some []
  | .word w, [] => some [.word w.reverse]
  | _, [] => none
  | state, c :: cs =>
      (scanStep state c).bind fun r => (scan r.1 cs).map (r.2 ++ ·)

/-! ## Scanning what was written -/

theorem scan_cons (state : ScanState) (c : Char) (cs : List Char) :
    scan state (c :: cs)
      = (scanStep state c).bind fun r => (scan r.1 cs).map (r.2 ++ ·) := by
  cases state <;> rfl

/-- A step that gives no token. -/
theorem scan_move {state state' : ScanState} {c : Char} (h : scanStep state c = some (state', []))
    (cs : List Char) : scan state (c :: cs) = scan state' cs := by
  simp [scan_cons, h]

theorem hexValue_hexDigit {n : Nat} (h : n < 16) : hexValue (hexDigit n) = some n :=
  (by decide : ∀ n < 16, hexValue (hexDigit n) = some n) n h

theorem toNat_lt_of_isUnicodeEscaped {c : Char} (h : isUnicodeEscaped c = true) :
    c.toNat < 65536 := by
  simp only [isUnicodeEscaped, Bool.or_eq_true, decide_eq_true_eq, beq_iff_eq] at h
  rcases h with ((((h | h) | h) | h) | h) | h
  · omega
  · rw [h]; decide
  · rw [h]; decide
  · rw [h]; decide
  · omega
  · omega

theorem charOfCode_toNat (c : Char) : charOfCode c.toNat = c := by
  have hvalid : c.toNat.isValidChar := c.valid
  rw [charOfCode, if_pos hvalid, Char.ofNat_toNat]

theorem scan_backslash (s rest : List Char) :
    scan (.str s none) ('\\' :: rest) = scan (.escape s none) rest :=
  scan_move rfl rest

theorem scan_u (s rest : List Char) :
    scan (.escape s none) ('u' :: rest) = scan (.hex s none 3 0) rest :=
  scan_move rfl rest

theorem scan_short {d c : Char} (hd : d ≠ 'u') (h : unescape d = some c) (s rest : List Char) :
    scan (.str s none) ('\\' :: d :: rest) = scan (.str (c :: s) none) rest := by
  have hstep : scanStep (.escape s none) d = some (.str (c :: s) none, []) := by
    rw [scanStep, if_neg hd, h]
    rfl
  rw [scan_backslash, scan_move hstep]

theorem scan_hex {d : Char} {n left code : Nat} (h : hexValue d = some n) (s rest : List Char) :
    scan (.hex s none (left + 1) code) (d :: rest) = scan (.hex s none left (16 * code + n)) rest :=
  scan_move (by rw [scanStep, h]; rfl) rest

theorem scan_hex_last {d : Char} {n code : Nat} (h : hexValue d = some n) (s rest : List Char) :
    scan (.hex s none 0 code) (d :: rest) = scan (putCode s none (16 * code + n)) rest :=
  scan_move (by rw [scanStep, h]; rfl) rest

/-- The code of a character is no surrogate. -/
theorem putCode_toNat (s : List Char) (c : Char) : putCode s none c.toNat = .str (c :: s) none := by
  have hvalid : c.toNat < 0xD800 ∨ 0xDFFF < c.toNat ∧ c.toNat < 0x110000 := c.valid
  have hhigh : isHighSurrogate c.toNat = false := by
    simp only [isHighSurrogate, Bool.and_eq_false_iff, decide_eq_false_iff_not]
    omega
  rw [putCode, putAlone, if_neg (Bool.eq_false_iff.mp hhigh), charOfCode_toNat]

/-- Inside a string, an escape reads back as its character. -/
theorem scan_escapeChar (s : List Char) (c : Char) (rest : List Char) :
    scan (.str s none) (escapeChar c ++ rest) = scan (.str (c :: s) none) rest := by
  unfold escapeChar
  split
  · next h =>
      subst h
      exact scan_short (by decide) (by decide) s rest
  split
  · next h =>
      subst h
      exact scan_short (by decide) (by decide) s rest
  split
  · next h =>
      subst h
      exact scan_short (by decide) (by decide) s rest
  split
  · next h =>
      subst h
      exact scan_short (by decide) (by decide) s rest
  split
  · next h =>
      subst h
      exact scan_short (by decide) (by decide) s rest
  split
  · next h =>
      -- four digits give the code back, and it is no half of a pair
      have hlt := toNat_lt_of_isUnicodeEscaped h
      have hcode : 16 * (16 * (16 * (16 * 0 + c.toNat / 4096) + c.toNat / 256 % 16)
          + c.toNat / 16 % 16) + c.toNat % 16 = c.toNat := by omega
      simp only [List.cons_append, List.nil_append]
      rw [scan_backslash, scan_u, scan_hex (hexValue_hexDigit (by omega)),
        scan_hex (hexValue_hexDigit (by omega)),
        scan_hex (hexValue_hexDigit (by omega)), scan_hex_last (hexValue_hexDigit (by omega)),
        hcode, putCode_toNat]
  · next hquote hslash _ _ _ hescaped =>
      refine scan_move ?_ rest
      have hcontrol : ¬ c.toNat < 32 := fun hlt => hescaped (by simp [isUnicodeEscaped, hlt])
      rw [scanStep, if_neg hquote, if_neg hslash, if_neg hcontrol]
      rfl

theorem scan_escaped (s cs rest : List Char) :
    scan (.str s none) (cs.flatMap escapeChar ++ rest) =
      scan (.str (cs.reverse ++ s) none) rest := by
  induction cs generalizing s with
  | nil => rfl
  | cons c cs ih =>
      rw [List.flatMap_cons, List.append_assoc, scan_escapeChar, ih, List.reverse_cons,
        List.append_assoc]
      rfl

/-! ## Texts that read as tokens -/

/-- Whatever follows, the text reads as the tokens. -/
def ReadsAs (text : List Char) (tokens : List Token) : Prop :=
  ∀ rest, scan .out (text ++ rest) = (scan .out rest).map (tokens ++ ·)

/-- The text reads as the tokens where it is not followed by more of a word. -/
def ReadsApart (text : List Char) (tokens : List Token) : Prop :=
  ∀ rest, (∀ c ∈ rest.head?, isWordChar c = false) →
    scan .out (text ++ rest) = (scan .out rest).map (tokens ++ ·)

theorem ReadsAs.apart {text : List Char} {tokens : List Token} (h : ReadsAs text tokens) :
    ReadsApart text tokens :=
  fun rest _ => h rest

theorem readsAs_nil : ReadsAs [] [] := fun rest => by
  cases h : scan .out rest <;> simp [h]

theorem ReadsAs.append {text text' : List Char} {tokens tokens' : List Token}
    (h : ReadsAs text tokens) (h' : ReadsAs text' tokens') :
    ReadsAs (text ++ text') (tokens ++ tokens') := by
  intro rest
  rw [List.append_assoc, h, h', Option.map_map]
  simp [Function.comp_def]

theorem ReadsAs.append_apart {text text' : List Char} {tokens tokens' : List Token}
    (h : ReadsAs text tokens) (h' : ReadsApart text' tokens') :
    ReadsApart (text ++ text') (tokens ++ tokens') := by
  intro rest hrest
  rw [List.append_assoc, h, h' rest hrest, Option.map_map]
  simp [Function.comp_def]

/-- A text that does not go on with a word closes a word. -/
theorem ReadsApart.append {c : Char} {text text' : List Char} {tokens tokens' : List Token}
    (h : ReadsApart text tokens) (hc : isWordChar c = false)
    (h' : ReadsAs (c :: text') tokens') :
    ReadsAs (text ++ c :: text') (tokens ++ tokens') := by
  intro rest
  rw [List.append_assoc, h _ (by simpa using hc), h', Option.map_map]
  simp [Function.comp_def]

theorem readsAs_space {c : Char} (h : isSpace c = true) : ReadsAs [c] [] := by
  intro rest
  have hstep : scanStep .out c = some (.out, []) := by rw [scanStep, scanOut, if_pos h]
  rw [List.singleton_append, scan_move hstep]
  exact readsAs_nil rest

theorem readsAs_spaces {cs : List Char} (h : ∀ c ∈ cs, isSpace c = true) : ReadsAs cs [] := by
  induction cs with
  | nil => exact readsAs_nil
  | cons c cs ih =>
      exact (readsAs_space (h c List.mem_cons_self)).append
        (ih fun d hd => h d (List.mem_cons_of_mem c hd))

theorem readsAs_punct {c : Char} (h : isPunct c = true) : ReadsAs [c] [.punct c] := by
  intro rest
  have hne : isSpace c = false ∧ c ≠ '"' := by
    simp only [isPunct, Bool.or_eq_true, beq_iff_eq] at h
    rcases h with ((((rfl | rfl) | rfl) | rfl) | rfl) | rfl <;> decide
  have hstep : scanStep .out c = some (.out, [.punct c]) := by
    simp [scanStep, scanOut, hne, h]
  rw [List.singleton_append, scan_cons, hstep]
  rfl

theorem readsAs_quote (s : String) : ReadsAs (quote s) [.str s.toList] := by
  intro rest
  have hopen : scanStep .out '"' = some (.str [] none, []) := rfl
  have hclose : ∀ t, scanStep (.str t none) '"' = some (.out, [.str t.reverse]) := fun t => rfl
  rw [quote, List.append_assoc, List.cons_append, scan_move hopen, scan_escaped,
    List.singleton_append, scan_cons, hclose]
  simp

/-- A character of a word stands for nothing else outside a string. -/
theorem not_space_of_isWordChar {c : Char} (h : isWordChar c = true) :
    isSpace c = false ∧ c ≠ '"' ∧ isPunct c = false := by
  refine ⟨Bool.eq_false_iff.mpr fun hs => ?_, ?_, Bool.eq_false_iff.mpr fun hp => ?_⟩
  · simp only [isSpace, Bool.or_eq_true, beq_iff_eq] at hs
    rcases hs with ((rfl | rfl) | rfl) | rfl <;> exact absurd h (by decide)
  · rintro rfl
    exact absurd h (by decide)
  · simp only [isPunct, Bool.or_eq_true, beq_iff_eq] at hp
    rcases hp with ((((rfl | rfl) | rfl) | rfl) | rfl) | rfl <;> exact absurd h (by decide)

theorem scan_word {w : List Char} (h : ∀ c ∈ w, isWordChar c = true) (acc : List Char)
    {rest : List Char} (hrest : ∀ c ∈ rest.head?, isWordChar c = false) :
    scan (.word acc) (w ++ rest)
      = (scan .out rest).map ([Token.word (acc.reverse ++ w)] ++ ·) := by
  induction w generalizing acc with
  | nil =>
      cases rest with
      | nil => simp [scan]
      | cons c cs =>
          have hc : isWordChar c = false := hrest c rfl
          rw [List.nil_append, scan_cons, scan_cons]
          simp only [scanStep, hc, Bool.false_eq_true, if_false, List.append_nil]
          cases scanOut c <;> simp [Function.comp_def]
  | cons c w ih =>
      have hstep : scanStep (.word acc) c = some (.word (c :: acc), []) := by
        rw [scanStep, if_pos (h c List.mem_cons_self)]
      rw [List.cons_append, scan_move hstep, ih fun d hd => h d (List.mem_cons_of_mem c hd)]
      simp

theorem readsApart_word {w : List Char} (hne : w ≠ []) (h : ∀ c ∈ w, isWordChar c = true) :
    ReadsApart w [.word w] := by
  intro rest hrest
  cases w with
  | nil => exact absurd rfl hne
  | cons c w =>
      have hc := h c List.mem_cons_self
      obtain ⟨hspace, hquote, hpunct⟩ := not_space_of_isWordChar hc
      have hstep : scanStep .out c = some (.word [c], []) := by
        simp [scanStep, scanOut, hspace, hquote, hpunct, hc]
      have htail : ∀ d ∈ w, isWordChar d = true := fun d hd => h d (List.mem_cons_of_mem c hd)
      rw [List.cons_append, scan_move hstep, scan_word htail _ hrest]
      rfl

/-! ## The tokens of a value -/

/-- The token of a scalar. -/
def Scalar.token : Scalar → Token
  | .null => .word ['n', 'u', 'l', 'l']
  | .bool true => .word ['t', 'r', 'u', 'e']
  | .bool false => .word ['f', 'a', 'l', 's', 'e']
  | .number n => .word n.text
  | .string s => .str s.toList

namespace Value

mutual

/-- The tokens of a value. -/
def tokens : Value → List Token
  | .scalar s => [s.token]
  | .array elements =>
      .punct '[' :: [.punct ','].intercalate (elementTokens elements) ++ [.punct ']']
  | .object fields =>
      .punct '{' :: [.punct ','].intercalate (fieldTokens fields) ++ [.punct '}']
  | .other json => json.tokens

/-- The tokens of the elements of an array. -/
def elementTokens : List Value → List (List Token)
  | [] => []
  | v :: elements => v.tokens :: elementTokens elements

/-- The tokens of the members of an object. -/
def fieldTokens : Fields → List (List Token)
  | [] => []
  | (key, v) :: fields => (.str key.toList :: .punct ':' :: v.tokens) :: fieldTokens fields

end

end Value

theorem isWordChar_of_isNumeralChar {c : Char} (h : isNumeralChar c = true) :
    isWordChar c = true := by
  simp only [isNumeralChar, Bool.or_eq_true, beq_iff_eq] at h
  rcases h with (((h | rfl) | rfl) | rfl) | rfl
  · simp [isWordChar, Char.isAlphanum, h]
  all_goals decide

theorem Scalar.reads (s : Scalar) : ReadsApart s.text [s.token] := by
  cases s with
  | null => exact readsApart_word (by decide) (List.all_eq_true.mp rfl)
  | bool b => cases b <;> exact readsApart_word (by decide) (List.all_eq_true.mp rfl)
  | number n =>
      refine readsApart_word n.numeral.1 fun c hc => isWordChar_of_isNumeralChar ?_
      exact List.all_eq_true.mp n.numeral.2 c hc
  | string s => exact (readsAs_quote s).apart

/-- Texts that are set apart by commas. -/
theorem reads_intercalate {texts : List (List Char)} {tokens : List (List Token)}
    (h : List.Forall₂ ReadsApart texts tokens) :
    ReadsApart ([','].intercalate texts) ([Token.punct ','].intercalate tokens) := by
  induction h with
  | nil => exact readsAs_nil.apart
  | @cons text toks texts tokens h hrest ih =>
      cases hrest with
      | nil => simpa using h
      | cons h' hrest =>
          rw [List.intercalate_cons_cons, List.intercalate_cons_cons]
          exact (h.append (by decide) (readsAs_punct (by decide))).append_apart ih

/-- Texts that are set apart by commas, between brackets. -/
theorem reads_bracketed {open' close : Char} (hopen : isPunct open' = true)
    (hclose : isPunct close = true) (hword : isWordChar close = false)
    {texts : List (List Char)} {tokens : List (List Token)}
    (h : List.Forall₂ ReadsApart texts tokens) :
    ReadsAs (open' :: [','].intercalate texts ++ [close])
      (.punct open' :: [Token.punct ','].intercalate tokens ++ [.punct close]) := by
  have hinner := (reads_intercalate h).append hword (readsAs_punct hclose)
  exact (readsAs_punct hopen).append hinner

theorem Value.reads (v : Value) : ReadsApart v.text v.tokens := by
  induction v using Value.induction with
  | scalar s => exact s.reads
  | array elements ih =>
      refine (reads_bracketed (by decide) (by decide) (by decide) ?_).apart
      induction elements with
      | nil => exact .nil
      | cons v elements ih' =>
          exact .cons (ih v List.mem_cons_self) (ih' fun w hw => ih w (List.mem_cons_of_mem v hw))
  | object fields ih =>
      refine (reads_bracketed (by decide) (by decide) (by decide) ?_).apart
      induction fields with
      | nil => exact .nil
      | cons f fields ih' =>
          refine .cons ?_ (ih' fun g hg => ih g (List.mem_cons_of_mem f hg))
          have hkey := (readsAs_quote f.1).append (readsAs_punct (c := ':') (by decide))
          have hfield := hkey.append_apart (ih f List.mem_cons_self)
          simpa using hfield
  | other json ih => exact ih

theorem Value.scan_text (v : Value) : scan .out v.text = some v.tokens := by
  have h := v.reads [] (by simp)
  simpa [scan] using h

end Hfrd.Go
