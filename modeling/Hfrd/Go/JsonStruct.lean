/-
  Hfrd.Go.JsonStruct

  Reading JSON into a struct with fields of the types `string` and `int`.

  The members of an object are taken one after the other.  A member belongs to
  the field with its name, or else to the first field whose name differs from
  it in the case of the letters only; other members are skipped.  A value that
  does not fit the type of its field is left out, the others are still read,
  and the call reports the error in the end.
-/

import Hfrd.Go.JsonParse
import Hfrd.Go.Strconv

namespace Hfrd.Go

/-! ## Fields -/

/-- The letter that stands for all letters it is equal to, case ignored. -/
def foldChar (c : Char) : Char :=
  if c = 'ſ' then 's' else if c = '\u212A' then 'k' else c.toLower

/-- `bytes.EqualFold`, where one of the texts is a field name of ASCII letters. -/
def equalFold (s t : String) : Bool := s.toList.map foldChar == t.toList.map foldChar

/-- A field of a struct `σ`: its name in JSON, and the assignment to it, which
    is none for a value of another type. -/
structure StructField (σ : Type) where
  name : String
  set : σ → Value → Option σ

variable {σ : Type}

/-- A field of the type `string`. -/
def stringField (name : String) (put : σ → String → σ) : StructField σ where
  name := name
  set s
    | .scalar (.string x) => some (put s x)
    -- `null` is no value for it, and no error either
    | .scalar .null => some s
    | _ => none

/-- A field of the type `int`. -/
def intField (name : String) (put : σ → Int64 → σ) : StructField σ where
  name := name
  set s
    | .scalar (.number n) => (atoi (String.ofList n.text)).map (put s)
    | .scalar .null => some s
    | _ => none

/-- The field that a member of this name is for. -/
def findField (fields : List (StructField σ)) (key : String) : Option (StructField σ) :=
  (fields.find? fun f => f.name = key).or (fields.find? fun f => equalFold key f.name)

/-! ## Reading -/

/-- One member; the flag tells that all values so far were of their types. -/
def readMember (fields : List (StructField σ)) (out : σ × Bool) (member : String × Value) :
    σ × Bool :=
  match findField fields member.1 with
  | none => out
  | some f => match f.set out.1 member.2 with
    | some s => (s, out.2)
    | none => (out.1, false)

/-- `json.Unmarshal` into a struct that is `init` before; the flag tells that
    there was no error. -/
def unmarshalStruct (fields : List (StructField σ)) (init : σ) (text : String) : σ × Bool :=
  match parse text.toList with
  | some (.object members) => members.foldl (readMember fields) (init, true)
  | some (.scalar .null) => (init, true)
  | _ => (init, false)

/-- Reading what was written for an object. -/
theorem unmarshalStruct_text (fields : List (StructField σ)) (init : σ) (members : Fields) :
    unmarshalStruct fields init (String.ofList (Value.object members).text) =
      (Value.decodedFields members).foldl (readMember fields) (init, true) := by
  rw [unmarshalStruct, String.toList_ofList, parse_text]
  rfl

/-! ## Writing an `int` -/

theorem numeral_itoa (i : Int64) :
    (itoa i).toList ≠ [] ∧ (itoa i).toList.all isNumeralChar = true := by
  constructor
  · intro h
    have hread := atoi_itoa i
    simp [atoi, h, signed?] at hread
  · refine List.all_eq_true.mpr fun c hc => ?_
    rcases char_of_atoi (atoi_itoa i) c hc with rfl | rfl | hd
    · rfl
    · rfl
    · have hdigit : c.isDigit = true := by
        simp only [digit?] at hd
        split at hd
        · next h =>
            simp only [Char.isDigit, Bool.and_eq_true, decide_eq_true_eq]
            exact h
        · cases hd
      simp [isNumeralChar, hdigit]

/-- The number that is written for an `int`. -/
def intNumber (i : Int64) : Number := ⟨(itoa i).toList, numeral_itoa i⟩

theorem atoi_intNumber (i : Int64) : atoi (String.ofList (intNumber i).text) = some i := by
  rw [intNumber, String.ofList_toList, atoi_itoa]

end Hfrd.Go
