/-
  Hfrd.Chaincode.Fabcar

  The fabcar chaincode (chaincode/fabcar/fabcar.go).

  Most errors are not looked at: a write that the peer refuses is left out, and
  a car that could not be read is a new one.  The registry of cars below says
  what comes of it.
-/

import Hfrd.Chaincode.Records
import Hfrd.Go.JsonStruct
import Mathlib.Logic.Function.Basic

namespace Hfrd.Chaincode

open Hfrd.Go Hfrd.Lib

/-! ## Cars -/

/-- A car. -/
structure Car where
  make : String := ""
  model : String := ""
  colour : String := ""
  owner : String := ""
  deriving DecidableEq

namespace Car

/-- The fields that are read from the JSON of a car. -/
def fields : List (StructField Car) :=
  [stringField "make" fun c x => { c with make := x },
    stringField "model" fun c x => { c with model := x },
    stringField "colour" fun c x => { c with colour := x },
    stringField "owner" fun c x => { c with owner := x }]

/-- The members of the JSON of a car. -/
def members (c : Car) : Fields :=
  [("make", .string c.make), ("model", .string c.model), ("colour", .string c.colour),
    ("owner", .string c.owner)]

/-- `json.Marshal` -/
def marshal (c : Car) : String := String.ofList (Value.object c.members).text

/-- `json.Unmarshal` into a new car, whether there is an error or not. -/
def unmarshal (text : String) : Car := (unmarshalStruct fields {} text).1

@[simp] theorem unmarshal_marshal (c : Car) : unmarshal c.marshal = c := by
  rw [unmarshal, marshal, unmarshalStruct_text]
  simp [members, Value.decodedFields, Value.decoded, readMember, findField, fields, stringField]

/-- Nothing is read from no bytes. -/
theorem unmarshal_empty : unmarshal "" = {} := by decide

theorem marshal_injective {c c' : Car} (h : c.marshal = c'.marshal) : c = c' := by
  rw [← unmarshal_marshal c, h, unmarshal_marshal]

end Car

namespace Fabcar

/-! ## Functions -/

variable (stub : Stub String String)

/-- The bytes that are read; the error is not looked at. -/
def readState (key : String) : Option String := ((stub.getState key).toOption).join

/-- The write that is saved; the error is not looked at. -/
def saveCar (key : String) (car : Car) : List (Write String String) :=
  accepted (stub.putState key car.marshal)

/-- `queryCar` -/
def queryCar (args : List String) : Except Failure (Endorsement String String) :=
  match args with
  | [key] => pure (readState stub key, [])
  | _ => shimError "Incorrect number of arguments. Expecting 1"

/-- The cars of `initLedger`. -/
def cars : List Car :=
  [⟨"Toyota", "Prius", "blue", "Tomoko"⟩, ⟨"Ford", "Mustang", "red", "Brad"⟩,
    ⟨"Hyundai", "Tucson", "green", "Jin Soo"⟩, ⟨"Volkswagen", "Passat", "yellow", "Max"⟩,
    ⟨"Tesla", "S", "black", "Adriana"⟩, ⟨"Peugeot", "205", "purple", "Michel"⟩,
    ⟨"Chery", "S22L", "white", "Aarav"⟩, ⟨"Fiat", "Punto", "violet", "Pari"⟩,
    ⟨"Tata", "Nano", "indigo", "Valeria"⟩, ⟨"Holden", "Barina", "brown", "Shotaro"⟩]

/-- The key of the car with this number. -/
def carKey (n : Nat) : String := "CAR" ++ Nat.repr n

/-- The keys and the cars of `initLedger`. -/
def numberedCars : List (String × Car) := cars.zipIdx.map fun (car, i) => (carKey i, car)

/-- `initLedger`: the ten cars of the sample. -/
def initLedger : Except Failure (Endorsement String String) :=
  pure (none, numberedCars.flatMap fun (key, car) => saveCar stub key car)

/-- `createCar` -/
def createCar (args : List String) : Except Failure (Endorsement String String) :=
  match args with
  | [key, make, model, colour, owner] =>
      pure (none, saveCar stub key ⟨make, model, colour, owner⟩)
  | _ => shimError "Incorrect number of arguments. Expecting 5"

/-- `queryAllCars` -/
def queryAllCars : Except Failure (Endorsement String String) := do
  let found ← orError id (simpleKeyRange "CAR0" "CAR999")
  let entries ← orError id (stub.answer (.getStateByRange "CAR0" "CAR999")
    (stub.state.select found))
  let buffer ← stub.writeRecords .next false "[" entries
  pure (some (buffer ++ "]"), [])

/-- `changeCarOwner` -/
def changeCarOwner (args : List String) : Except Failure (Endorsement String String) :=
  match args with
  | [key, owner] =>
      let car := Car.unmarshal ((readState stub key).getD "")
      pure (none, saveCar stub key { car with owner := owner })
  | _ => shimError "Incorrect number of arguments. Expecting 2"

/-- `Invoke` -/
def invoke (function : String) (args : List String) : Except Failure (Endorsement String String) :=
  if function = "queryCar" then queryCar stub args
  else if function = "initLedger" then initLedger stub
  else if function = "createCar" then createCar stub args
  else if function = "queryAllCars" then queryAllCars stub
  else if function = "changeCarOwner" then changeCarOwner stub args
  else shimError "Invalid Smart Contract function name."

/-! ## The registry -/

/-- The cars by key. -/
abbrev Registry := String → Option Car

/-- An invocation, and what the peer answers in it. -/
structure Transaction where
  function : String
  args : List String
  peer : Peer String String

namespace Registry

/-- A car is saved unless the peer refuses it. -/
def save (r : Registry) (peer : Peer String String) (key : String) (car : Car) : Registry :=
  if peer.fault (.putState key) = none then Function.update r key (some car) else r

/-- The car whose owner is changed: a new one where there is none, and also
    where the peer does not answer. -/
def read (r : Registry) (peer : Peer String String) (key : String) : Car :=
  if peer.fault (.getState key) = none then (r key).getD {} else {}

/-- The registry after a transaction. -/
def next (r : Registry) (tx : Transaction) : Registry :=
  if tx.function = "initLedger" then
    numberedCars.foldl (fun r (key, car) => r.save tx.peer key car) r
  else if tx.function = "createCar" then
    match tx.args with
    | [key, make, model, colour, owner] => r.save tx.peer key ⟨make, model, colour, owner⟩
    | _ => r
  else if tx.function = "changeCarOwner" then
    match tx.args with
    | [key, owner] => r.save tx.peer key { r.read tx.peer key with owner := owner }
    | _ => r
  else r

end Registry

/-- The invocation on a state. -/
def simulate (s : Ledger String String) (tx : Transaction) :
    Except Failure (Endorsement String String) :=
  invoke ⟨tx.peer, s⟩ tx.function tx.args

/-- The ledger, transaction after transaction. -/
def system : Lts (Ledger String String) Transaction := Ledger.lts simulate

/-- The ledger holds the JSON of the cars, and nothing else. -/
def Holds (s : Ledger String String) (r : Registry) : Prop :=
  ∀ key, s.get key = (r key).map Car.marshal

variable {stub : Stub String String} {s : Ledger String String} {r : Registry}

theorem holds_saveCar (h : Holds s r) (stub : Stub String String) (key : String) (car : Car) :
    Holds (s.apply (saveCar stub key car)) (r.save stub.toPeer key car) := by
  intro key'
  rw [saveCar, Stub.putState, accepted_answer, Registry.save]
  split
  · rw [Ledger.apply_cons, Ledger.apply_nil, Ledger.get_write, Function.update_apply]
    split
    · rfl
    · exact h key'
  · exact h key'

theorem holds_saveCars (h : Holds s r) (stub : Stub String String) (cs : List (String × Car)) :
    Holds (s.apply (cs.flatMap fun (key, car) => saveCar stub key car))
      (cs.foldl (fun r (key, car) => r.save stub.toPeer key car) r) := by
  induction cs generalizing s r with
  | nil => exact h
  | cons c cs ih =>
      rw [List.flatMap_cons, Ledger.apply_append]
      exact ih (holds_saveCar h stub c.1 c.2)

/-- What is read is the car of the registry. -/
theorem unmarshal_readState (h : Holds stub.state r) (key : String) :
    Car.unmarshal ((readState stub key).getD "") = r.read stub.toPeer key := by
  rw [readState, Stub.getState, Peer.answer, Registry.read]
  cases hfault : stub.fault (.getState key) with
  | some err => simp [Except.toOption, Car.unmarshal_empty]
  | none =>
      cases hcar : r key with
      | none => simp [Except.toOption, h key, hcar, Car.unmarshal_empty]
      | some car => simp [Except.toOption, h key, hcar]

theorem holds_createCar (h : Holds s r) (peer : Peer String String) (args : List String) :
    Holds (s.commit (createCar ⟨peer, s⟩ args)) (match args with
      | [key, make, model, colour, owner] => r.save peer key ⟨make, model, colour, owner⟩
      | _ => r) := by
  unfold createCar
  split
  · next key make model colour owner => exact holds_saveCar h ⟨peer, s⟩ key _
  · exact h

theorem holds_changeCarOwner (h : Holds s r) (peer : Peer String String) (args : List String) :
    Holds (s.commit (changeCarOwner ⟨peer, s⟩ args)) (match args with
      | [key, owner] => r.save peer key { r.read peer key with owner := owner }
      | _ => r) := by
  unfold changeCarOwner
  split
  · next key owner =>
      have hread := @unmarshal_readState ⟨peer, s⟩ r h key
      have hsave := holds_saveCar h ⟨peer, s⟩ key { r.read peer key with owner := owner }
      rw [← hread] at hsave ⊢
      exact hsave
  · exact h

/-- A query writes nothing. -/
theorem holds_queryCar (h : Holds s r) (peer : Peer String String) (args : List String) :
    Holds (s.commit (queryCar ⟨peer, s⟩ args)) r := by
  unfold queryCar
  split
  · exact h
  · exact h

theorem queryAllCars_eq_ok {out : Endorsement String String} (h : queryAllCars stub = .ok out) :
    ∃ found text, simpleKeyRange "CAR0" "CAR999" = .ok found ∧ out = (some text, []) ∧
      text.toList = recordsText (stub.state.select found) := by
  simp only [queryAllCars, Go.bind_eq_ok, orError_eq_ok, answer_eq_ok, writeRecords_eq_ok] at h
  obtain ⟨found, hfound, _, ⟨-, rfl⟩, buffer, ⟨-, hbuffer⟩, hout⟩ := h
  exact ⟨found, buffer ++ "]", hfound, (Except.ok.inj hout).symm, toList_closed hbuffer⟩

theorem holds_queryAllCars (h : Holds s r) (peer : Peer String String) :
    Holds (s.commit (queryAllCars ⟨peer, s⟩)) r := by
  cases hquery : queryAllCars ⟨peer, s⟩ with
  | error e => exact h
  | ok out =>
      obtain ⟨-, text, -, rfl, -⟩ := queryAllCars_eq_ok hquery
      exact h

/-- **The registry follows every transaction.** -/
theorem holds_commit (h : Holds s r) (tx : Transaction) :
    Holds (s.commit (simulate s tx)) (r.next tx) := by
  unfold simulate invoke Registry.next
  by_cases hinit : tx.function = "initLedger"
  · rw [hinit, if_neg (by decide), if_pos rfl, if_pos rfl]
    exact holds_saveCars h ⟨tx.peer, s⟩ numberedCars
  by_cases hcreate : tx.function = "createCar"
  · rw [hcreate, if_neg (by decide), if_neg (by decide), if_pos rfl, if_neg (by decide), if_pos rfl]
    exact holds_createCar h tx.peer tx.args
  by_cases hchange : tx.function = "changeCarOwner"
  · rw [hchange, if_neg (by decide), if_neg (by decide), if_neg (by decide), if_neg (by decide),
      if_pos rfl, if_neg (by decide), if_neg (by decide), if_pos rfl]
    exact holds_changeCarOwner h tx.peer tx.args
  · rw [if_neg hinit, if_neg hcreate, if_neg hchange, if_neg hinit, if_neg hcreate, if_neg hchange]
    split
    · exact holds_queryCar h tx.peer tx.args
    split
    · exact holds_queryAllCars h tx.peer
    · exact h

theorem holds_after (txs : List Transaction) : Holds
    (Ledger.after simulate (Ledger.empty String String) txs)
      (txs.foldl Registry.next fun _ => none) := by
  suffices ∀ (s : Ledger String String) (r : Registry), Holds s r →
      Holds (Ledger.after simulate s txs) (txs.foldl Registry.next r) from this _ _ fun _ => rfl
  induction txs with
  | nil => exact fun s r h => h
  | cons tx txs ih => exact fun s r h => ih _ _ (holds_commit h tx)

/-- **The ledger is the registry of cars** after any transactions, whatever
    calls of the peer fail: it holds their JSON and nothing else. -/
theorem cars_of_exec {txs : List Transaction}
    (h : system.exec (Ledger.empty String String) txs = some s) :
    Holds s (txs.foldl Registry.next fun _ => none) := by
  obtain rfl : Ledger.after simulate (Ledger.empty String String) txs = s :=
    Option.some.inj ((Ledger.exec_lts _ _).symm.trans h)
  exact holds_after txs

/-- A transaction that no call of the peer disturbs. -/
def quiet (function : String) (args : List String) : Transaction where
  function := function
  args := args
  peer := ⟨fun _ => none, fun _ => [], fun _ => [], fun _ => none⟩

/-- The owner of a car is changed that is not there. -/
def changeOnly : List Transaction := [quiet "changeCarOwner" ["CAR10", "Dave"]]

theorem cars_changeOnly : ∃ s, system.exec (Ledger.empty String String) changeOnly = some s ∧
    s.get "CAR10" = some (Car.marshal { owner := "Dave" }) :=
  ⟨_, Ledger.exec_lts _ _, cars_of_exec (Ledger.exec_lts _ changeOnly) "CAR10"⟩

/-- The transaction puts another car under the key: it is created, or the peer
    does not answer when its owner is changed. -/
def Replaces (key : String) (tx : Transaction) : Prop :=
  (tx.function = "initLedger" ∧ ∃ c ∈ numberedCars, c.1 = key) ∨
    (tx.function = "createCar" ∧ ∃ make model colour owner,
      tx.args = [key, make, model, colour, owner]) ∨
    (tx.function = "changeCarOwner" ∧ tx.peer.fault (.getState key) ≠ none)

theorem save_of_ne {key key' : String} (hne : key ≠ key') (peer : Peer String String) (car : Car) :
    r.save peer key' car key = r key := by
  rw [Registry.save]
  split
  · exact Function.update_of_ne hne _ _
  · rfl

/-- A transaction saves the cars of `initLedger`, a new car, a car with another
    owner, or nothing. -/
theorem next_cases (r : Registry) (tx : Transaction) :
    r.next tx = r ∨
    (tx.function = "initLedger" ∧
      r.next tx = numberedCars.foldl (fun r (key, car) => r.save tx.peer key car) r) ∨
    (tx.function = "createCar" ∧ ∃ key make model colour owner,
      tx.args = [key, make, model, colour, owner] ∧
      r.next tx = r.save tx.peer key ⟨make, model, colour, owner⟩) ∨
    (tx.function = "changeCarOwner" ∧ ∃ key owner,
      r.next tx = r.save tx.peer key { r.read tx.peer key with owner := owner }) := by
  unfold Registry.next
  split
  · next hf => exact Or.inr (Or.inl ⟨hf, rfl⟩)
  split
  · next hf =>
      split
      · next key make model colour owner hargs =>
          exact Or.inr (Or.inr (Or.inl ⟨hf, key, make, model, colour, owner, hargs, rfl⟩))
      · exact Or.inl rfl
  split
  · next hf =>
      split
      · next key owner hargs => exact Or.inr (Or.inr (Or.inr ⟨hf, key, owner, rfl⟩))
      · exact Or.inl rfl
  · exact Or.inl rfl

theorem saveAll_of_ne {key : String} (peer : Peer String String) {cs : List (String × Car)}
    (hne : ∀ c ∈ cs, key ≠ c.1) :
    cs.foldl (fun r (key, car) => Registry.save r peer key car) r key = r key := by
  induction cs generalizing r with
  | nil => rfl
  | cons c cs ih =>
      obtain ⟨hc, hcs⟩ := List.forall_mem_cons.mp hne
      exact (ih hcs).trans (save_of_ne hc peer c.2)

/-- A transaction changes nothing but the owner of a car that it does not
    replace. -/
theorem next_owner {key : String} {car : Car} (hr : r key = some car) {tx : Transaction}
    (h : ¬ Replaces key tx) : ∃ owner, r.next tx key = some { car with owner := owner } := by
  simp only [Replaces, not_or, not_and, not_not] at h
  obtain ⟨hinit, hcreate, hchange⟩ := h
  have hsame : ∃ owner, r key = some { car with owner := owner } := ⟨car.owner, hr⟩
  rcases next_cases r tx with heq | ⟨hf, heq⟩ | ⟨hf, key', make, model, colour, owner, hargs, heq⟩ |
    ⟨hf, key', owner, heq⟩
  · rwa [heq]
  · rw [heq, saveAll_of_ne tx.peer fun c hc hkey => hinit hf ⟨c, hc, hkey.symm⟩]
    exact hsame
  · have hne : key ≠ key' := by
      rintro rfl
      exact hcreate hf ⟨make, model, colour, owner, hargs⟩
    rwa [heq, save_of_ne hne]
  · by_cases hkey : key = key'
    · subst hkey
      rw [heq, Registry.read, if_pos (hchange hf), hr, Option.getD_some, Registry.save]
      split
      · exact ⟨owner, Function.update_self _ _ _⟩
      · exact hsame
    · rwa [heq, save_of_ne hkey]

/-- **A car keeps its make, model and colour** in a run that does not replace
    it. -/
theorem car_of_run {txs txs' : List Transaction} {t : Ledger String String}
    (hreach : system.exec (Ledger.empty String String) txs = some s) {key : String} {car : Car}
    (hget : s.get key = some car.marshal)
    (h : system.Run (fun _ tx => ¬ Replaces key tx) s txs' t) :
    ∃ owner, t.get key = some { car with owner := owner }.marshal := by
  obtain rfl : Ledger.after simulate (Ledger.empty String String) txs = s :=
    Option.some.inj ((Ledger.exec_lts _ _).symm.trans hreach)
  have hs := holds_after txs
  rw [hs key, Option.map_eq_some_iff] at hget
  obtain ⟨car', hcar, heq⟩ := hget
  obtain rfl := Car.marshal_injective heq
  have hinv := h.preserves (I := fun s => ∃ r owner, Holds s r ∧
    r key = some { car' with owner := owner }) ?_ ⟨_, car'.owner, hs, hcar⟩
  · obtain ⟨r, owner, ht, hr⟩ := hinv
    exact ⟨owner, by rw [ht key, hr, Option.map_some]⟩
  · rintro s tx t ⟨r, owner, hs, hr⟩ hok hstep
    obtain rfl : s.commit (simulate s tx) = t := Option.some.inj hstep
    obtain ⟨owner', hr'⟩ := next_owner hr hok
    exact ⟨_, owner', holds_commit hs tx, hr'⟩

/-- The state after one new car. -/
def oneCar : Ledger String String := Ledger.after simulate (Ledger.empty String String)
  [quiet "createCar" ["CAR10", "Fiat", "500", "red", "Pari"]]

theorem car_oneCar : ∃ t owner,
    system.exec oneCar [quiet "changeCarOwner" ["CAR10", "Dave"]] = some t ∧
    t.get "CAR10" = some (Car.marshal ⟨"Fiat", "500", "red", owner⟩) := by
  have hget : oneCar.get "CAR10" = some (Car.marshal ⟨"Fiat", "500", "red", "Pari"⟩) := by
    decide +kernel
  have hkeeps : ¬ Replaces "CAR10" (quiet "changeCarOwner" ["CAR10", "Dave"]) := by
    rintro (⟨hf, -⟩ | ⟨hf, -⟩ | ⟨-, hfault⟩)
    · exact absurd hf (by decide)
    · exact absurd hf (by decide)
    · exact hfault rfl
  obtain ⟨owner, howner⟩ := car_of_run (Ledger.exec_lts _ _) hget (.cons hkeeps rfl (.nil _))
  exact ⟨_, owner, rfl, howner⟩

/-! ## The range -/

/-- A word of letters up to `top` comes before a word of `top` alone, or begins
    with it. -/
theorem lt_iff_not_prefix {top : Char} {word tops : List Char} (hword : ∀ c ∈ word, c ≤ top)
    (htops : ∀ c ∈ tops, c = top) : word < tops ↔ ¬ tops <+: word := by
  induction tops generalizing word with
  | nil => simp
  | cons d tops ih =>
      obtain ⟨rfl, htops⟩ := List.forall_mem_cons.mp htops
      cases word with
      | nil => simp
      | cons c word =>
          obtain ⟨hc, hword⟩ := List.forall_mem_cons.mp hword
          rw [List.cons_lt_cons_iff, List.cons_prefix_cons, ih hword htops]
          rcases lt_or_eq_of_le hc with hlt | rfl
          · exact iff_of_true (Or.inl hlt) fun h => ne_of_gt hlt h.1
          · simp

theorem toList_carKey (n : Nat) : (carKey n).toList = 'C' :: 'A' :: 'R' :: Nat.toDigits 10 n := by
  rw [carKey, String.toList_append, Nat.toList_repr]
  rfl

theorem digit_bounds {n : Nat} {c : Char} (h : c ∈ Nat.toDigits 10 n) : '0' ≤ c ∧ c ≤ '9' := by
  have hdigit := Nat.isDigit_of_mem_toDigits (by decide) (by decide) h
  simpa [Char.isDigit, Char.le_def] using hdigit

/-- The number of a car is not below 0. -/
theorem le_carKey (n : Nat) : "CAR0" ≤ carKey n := by
  refine not_lt.mp fun hlt => ?_
  have hlist := String.lt_iff_toList_lt.mp hlt
  rw [toList_carKey] at hlist
  have hdigits : Nat.toDigits 10 n < ['0'] := by simpa [List.cons_lt_cons_iff] using hlist
  cases hn : Nat.toDigits 10 n with
  | nil => exact Nat.toDigits_ne_nil hn
  | cons c cs =>
      have hc := (digit_bounds (n := n) (hn ▸ List.mem_cons_self : c ∈ _)).1
      rw [hn] at hdigits
      rcases List.cons_lt_cons_iff.mp hdigits with hlt | ⟨-, hnil⟩
      · exact absurd hlt (not_lt.mpr hc)
      · exact absurd hnil (List.not_lt_nil cs)

/-- **The cars that are listed by their numbers**: all but those whose number
    begins with 999. -/
theorem range_carKey_iff {found : String → Bool} (h : simpleKeyRange "CAR0" "CAR999" = .ok found)
    (n : Nat) : found (carKey n) = true ↔ ¬ ['9', '9', '9'] <+: Nat.toDigits 10 n := by
  rw [simpleKeyRange, if_neg (by decide)] at h
  rw [← Except.ok.inj h, ← lt_iff_not_prefix (fun c hc => (digit_bounds hc).2) (by simp)]
  have hhead : (carKey n).toList.head? ≠ some separator := by
    rw [toList_carKey, List.head?_cons]
    decide
  have hend : carKey n < "CAR999" ↔ Nat.toDigits 10 n < ['9', '9', '9'] := by
    rw [String.lt_iff_toList_lt, toList_carKey]
    simp
  simp [hhead, le_carKey, hend]

/-! ## The list -/

/-- The entry of a car. -/
def carEntry (c : String × Car) : String × Value := (c.1, .object c.2.members)

/-- The array of some cars. -/
def carRecords (cs : List (String × Car)) : Value := .array (recordValues (cs.map carEntry))

theorem decoded_carRecords (cs : List (String × Car)) :
    (carRecords cs).decoded = carRecords cs := by
  have hrecord : ∀ c ∈ cs, (record c.1 (.object c.2.members)).decoded =
      record c.1 (.object c.2.members) := fun c _ => by
    simp [record, Car.members, Value.decoded, Value.decodedFields]
  simp only [carRecords, Value.decoded, Value.decodedElements_eq, recordValues, List.map_map]
  exact congrArg Value.array (List.map_congr_left hrecord)

/-- The cars that are found. -/
def carsIn (s : Ledger String String) (found : String → Bool) : List (String × Car) :=
  (s.select found).map fun e => (e.1, Car.unmarshal e.2)

theorem select_eq_carsIn (h : Holds s r) (found : String → Bool) :
    s.select found = (carsIn s found).map fun c => (c.1, c.2.marshal) := by
  rw [carsIn, List.map_map]
  refine (List.map_id _).symm.trans (List.map_congr_left ?_)
  rintro ⟨key, text⟩ he
  obtain ⟨hget, -⟩ := Ledger.mem_select_iff.mp he
  rw [h key, Option.map_eq_some_iff] at hget
  obtain ⟨car, -, rfl⟩ := hget
  simp

theorem mem_carsIn_iff (h : Holds s r) (found : String → Bool) (c : String × Car) :
    c ∈ carsIn s found ↔ r c.1 = some c.2 ∧ found c.1 = true := by
  have hentry : c ∈ carsIn s found ↔ (c.1, c.2.marshal) ∈ s.select found := by
    rw [select_eq_carsIn h]
    refine ⟨fun hc => List.mem_map.mpr ⟨c, hc, rfl⟩, fun hc => ?_⟩
    obtain ⟨c', hc', heq⟩ := List.mem_map.mp hc
    obtain ⟨hkey, hcar⟩ := Prod.mk.inj heq
    rwa [← Prod.ext hkey (Car.marshal_injective hcar)]
  rw [hentry, Ledger.mem_select_iff, h c.1, Option.map_eq_some_iff]
  refine and_congr_left fun _ => ⟨?_, fun hr => ⟨c.2, hr, rfl⟩⟩
  rintro ⟨car, hr, hcar⟩
  rw [hr, Car.marshal_injective hcar]

theorem sorted_carsIn (s : Ledger String String) (found : String → Bool) :
    (carsIn s found).Pairwise fun c c' => c.1 < c'.1 := by
  have hsorted := Ledger.sorted_filter (fun e => found e.1) s.sorted
  rw [List.pairwise_map] at hsorted
  exact List.pairwise_map.mpr hsorted

/-- **A query of all cars lists the registry**: the cars of the range in the
    order of their keys, which are all numbered cars but those whose number
    begins with 999; the payload is the text of their records, and the JSON of
    the list exactly if no key has to be escaped. -/
theorem queryAllCars_of_exec {txs : List Transaction}
    (h : system.exec (Ledger.empty String String) txs = some s) {tx : Transaction}
    (hf : tx.function = "queryAllCars") {out : Endorsement String String}
    (hout : simulate s tx = .ok out) :
    ∃ found text cs, simpleKeyRange "CAR0" "CAR999" = .ok found ∧ out = (some text, []) ∧
      List.Pairwise (fun c c' : String × Car => c.1 < c'.1) cs ∧
      (∀ c, c ∈ cs ↔ txs.foldl Registry.next (fun _ => none) c.1 = some c.2 ∧ found c.1 = true) ∧
      (∀ n, found (carKey n) = true ↔ ¬ ['9', '9', '9'] <+: Nat.toDigits 10 n) ∧
      text.toList = recordsText (cs.map fun c => (c.1, c.2.marshal)) ∧
      (parse text.toList = some (carRecords cs) ↔ ∀ c ∈ cs, isRaw c.1 = true) := by
  obtain rfl : Ledger.after simulate (Ledger.empty String String) txs = s :=
    Option.some.inj ((Ledger.exec_lts _ _).symm.trans h)
  have hs := holds_after txs
  generalize Ledger.after simulate (Ledger.empty String String) txs = s at hout hs
  have hquery : queryAllCars ⟨tx.peer, s⟩ = .ok out := by
    simpa [simulate, invoke, hf] using hout
  obtain ⟨found, text, hfound, rfl, htext⟩ := queryAllCars_eq_ok hquery
  refine ⟨found, text, carsIn s found, hfound, rfl, sorted_carsIn s found,
    mem_carsIn_iff hs found, range_carKey_iff hfound, select_eq_carsIn hs found ▸ htext, ?_⟩
  have hiff := parse_records_iff ((carsIn s found).map carEntry)
  have htexts : s.select found =
      ((carsIn s found).map carEntry).map fun e => (e.1, String.ofList e.2.text) := by
    rw [select_eq_carsIn hs found, List.map_map]
    rfl
  rw [← carRecords, decoded_carRecords] at hiff
  rw [htext, htexts]
  exact hiff.trans List.forall_mem_map

theorem queryAllCars_oneCar : ∃ text cs,
    simulate oneCar (quiet "queryAllCars" []) = .ok (some text, []) ∧
      List.Pairwise (fun c c' : String × Car => c.1 < c'.1) cs ∧
      (parse text.toList = some (carRecords cs) ↔ ∀ c ∈ cs, isRaw c.1 = true) := by
  have hok : (simulate oneCar (quiet "queryAllCars" [])).toBool = true := by decide +kernel
  cases hout : simulate oneCar (quiet "queryAllCars" []) with
  | error e =>
      rw [hout] at hok
      cases hok
  | ok out =>
      obtain ⟨found, text, cs, -, rfl, hsorted, -, -, -, hiff⟩ :=
        queryAllCars_of_exec (Ledger.exec_lts _ _) rfl hout
      exact ⟨text, cs, rfl, hsorted, hiff⟩

end Fabcar

end Hfrd.Chaincode
