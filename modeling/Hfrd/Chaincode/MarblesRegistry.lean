/-
  Hfrd.Chaincode.MarblesRegistry

  What the marbles chaincode is for: a registry of marbles by name.

  The registry knows nothing of keys, JSON or an index.  Where no call of the
  peer fails, the ledger after any transactions is the registry after the
  operations they ask for.
-/

import Hfrd.Chaincode.MarblesIndex
import Mathlib.Data.List.Forall2
import Mathlib.Logic.Function.Basic

namespace Hfrd.Chaincode

open Hfrd.Go Hfrd.Lib

/-! ## The registry -/

/-- The marbles by name. -/
abbrev Registry := String → Option Marble

/-- What a client may ask for. -/
inductive Request where
  | create (m : Marble)
  | transfer (name owner : String)
  | transferColor (color owner : String)
  | remove (name : String)
  | query

namespace Registry

/-- The registry after a request; none if it is refused. -/
def perform (r : Registry) : Request → Option Registry
  | .create m => if r m.name = none then some (Function.update r m.name (some m)) else none
  | .transfer name owner =>
      (r name).map fun m => Function.update r name (some { m with owner := owner })
  | .transferColor color owner =>
      some fun name => (r name).map fun m =>
        if m.color = color then { m with owner := owner } else m
  | .remove name => if r name = none then none else some (Function.update r name none)
  | .query => some r

end Registry

namespace Marbles

variable {env : Env} {s t : Ledger String String}

/-! ## The registry of a ledger -/

/-- What can be read as a marble. -/
def registry (s : Ledger String String) : Registry := fun name =>
  (s.get name).bind fun text =>
    if (Marble.unmarshal text).2 = true then some (Marble.unmarshal text).1 else none

theorem registry_eq_some_iff (hs : Sound env s) {name : String} {m : Marble} :
    registry s name = some m ↔ m.name = name ∧ s.get m.name = some m.marshal := by
  simp only [registry, Option.bind_eq_some_iff]
  constructor
  · rintro ⟨text, htext, hm⟩
    split at hm
    · next hread =>
        obtain ⟨m', rfl, hm', rfl⟩ := hs.readable htext hread
        obtain rfl : m' = m := hm' ▸ Option.some.inj hm
        exact ⟨rfl, htext⟩
    · cases hm
  · rintro ⟨rfl, hget⟩
    exact ⟨_, hget, by rw [Marble.unmarshal_marshal]; rfl⟩

theorem registry_of_get {m : Marble} {name : String} (h : s.get name = some m.marshal) :
    registry s name = some m := by
  simp [registry, h]

theorem registry_of_none {name : String} (h : s.get name = none) : registry s name = none := by
  simp [registry, h]

theorem registry_of_indexValue {name : String} (h : s.get name = some indexValue) :
    registry s name = none := by
  simp [registry, h, indexValue, Marble.unmarshal_indexValue]

theorem registry_congr {name : String} (h : t.get name = s.get name) :
    registry t name = registry s name := by
  rw [registry, registry, h]

/-- A name that is not in the registry of a sound ledger is free, or a key of
    the index. -/
theorem get_of_registry_none (hs : Sound env s) {name : String} (h : registry s name = none) :
    s.get name = none ∨ s.get name = some indexValue := by
  cases hget : s.get name with
  | none => exact Or.inl rfl
  | some v =>
      cases hs name v hget with
      | marble m key =>
          rw [registry_of_get hget] at h
          cases h
      | index => exact Or.inr rfl

/-- The key of an index entry is no name. -/
theorem registry_key (hs : Sound env s) {attributes : List String} {key : String}
    (hkey : env.keys.createCompositeKey indexName attributes = .ok key) :
    registry s key = none := by
  cases hr : registry s key with
  | none => rfl
  | some m =>
      obtain ⟨hname, hget⟩ := (registry_eq_some_iff hs).mp hr
      obtain ⟨-, -, key', hkey'⟩ := entry_marshal (hs _ _ hget)
      exact absurd hname (name_ne_key hkey' hkey)

theorem get_eq_none_iff (hs : Sound env s) {color name key : String}
    (hkey : env.keys.createCompositeKey indexName [color, name] = .ok key) :
    s.get name = none ↔ registry s name = none := by
  refine ⟨registry_of_none, fun h => (get_of_registry_none hs h).resolve_right fun hindex => ?_⟩
  obtain ⟨m, hkey', -⟩ := entry_indexValue (hs name indexValue hindex)
  exact env.keys.attribute_ne hkey (List.mem_cons_of_mem _ List.mem_cons_self) hkey' rfl

/-! ## Writes and the registry -/

theorem registry_write_marble (s : Ledger String String) (m : Marble) :
    registry (s.write (m.name, some m.marshal)) =
      Function.update (registry s) m.name (some m) := by
  funext name
  by_cases hname : name = m.name
  · rw [hname, Function.update_self]
    exact registry_of_get (by rw [Ledger.get_write, if_pos rfl])
  · rw [Function.update_of_ne hname]
    exact registry_congr (by rw [Ledger.get_write, if_neg hname])

theorem registry_create (hs : Sound env s) {m : Marble} {key : String}
    (hkey : env.keys.createCompositeKey indexName [m.color, m.name] = .ok key)
    {ws : List (Write String String)} (hws : ws = [] ∨ ws = [(key, some indexValue)]) :
    registry (s.apply ((m.name, some m.marshal) :: ws)) =
      Function.update (registry s) m.name (some m) := by
  rcases hws with rfl | rfl
  · exact registry_write_marble s m
  · funext name
    by_cases hk : name = key
    · subst hk
      rw [Function.update_of_ne (Ne.symm (name_ne_key hkey hkey)), registry_key hs hkey]
      exact registry_of_indexValue (by simp [Ledger.get_write])
    · rw [← registry_write_marble]
      exact registry_congr (by simp [Ledger.get_write, hk])

theorem registry_delete (hs : Sound env s) {m : Marble} {key : String}
    (hkey : env.keys.createCompositeKey indexName [m.color, m.name] = .ok key) :
    registry (s.apply [(m.name, none), (key, none)]) =
      Function.update (registry s) m.name none := by
  funext name
  by_cases hname : name = m.name
  · rw [hname, Function.update_self]
    exact registry_of_none (by rw [get_delete]; split <;> simp)
  · rw [Function.update_of_ne hname]
    by_cases hk : name = key
    · rw [hk, registry_key hs hkey]
      exact registry_of_none (by rw [get_delete, if_pos rfl])
    · exact registry_congr (by rw [get_delete, if_neg hk, if_neg hname])

/-! ## All marbles of a color -/

/-- What the query for a color finds are the index entries of that color. -/
theorem mem_select_color_iff (hs : Sound env s) (hi : Indexed env s) {color : String}
    {found : String → Bool} (hfound : env.keys.partialCompositeKey indexName [color] = .ok found)
    {key value : String} :
    (key, value) ∈ s.select found ↔ value = indexValue ∧ ∃ m : Marble, m.color = color ∧
      s.get m.name = some m.marshal ∧
      env.keys.createCompositeKey indexName [m.color, m.name] = .ok key := by
  rw [Ledger.mem_select_iff]
  constructor
  · rintro ⟨hget, hkey⟩
    cases hs key value hget with
    | marble m key' htype hkey' =>
        have hname := env.keys.partial_attribute hfound hkey'
          (List.mem_cons_of_mem _ List.mem_cons_self)
        rw [hkey] at hname
        cases hname
    | index m key' hkey' hget' =>
        have hprefix := (env.keys.partial_create hfound hkey').mp hkey
        exact ⟨rfl, m, (List.cons_prefix_cons.mp hprefix).1.symm, hget', hkey'⟩
  · rintro ⟨rfl, m, rfl, hget, hkey⟩
    obtain ⟨key', hkey', hindex⟩ := hi m hget
    rw [hkey] at hkey'
    obtain rfl := Except.ok.inj hkey'
    exact ⟨hindex, (env.keys.partial_create hfound hkey).mpr
      (List.cons_prefix_cons.mpr ⟨rfl, List.nil_prefix⟩)⟩

section Color

variable {stub : Stub String String} {color newOwner : String} {found : String → Bool}
  {ws : List (Write String String)}

/-- The write for the index entry of a marble. -/
theorem transferred_of_key {m : Marble} {key : String}
    {w : Write String String}
    (hkey : env.keys.createCompositeKey indexName [m.color, m.name] = .ok key)
    (hget : stub.state.get m.name = some m.marshal) (h : Transferred env stub newOwner key w) :
    w = (m.name, some { m with owner := env.toLower newOwner }.marshal) := by
  obtain ⟨-, o, color', name, rest, text, hsplit, -, htext, hread, -, rfl⟩ := h
  rw [env.keys.split_create hkey] at hsplit
  cases Except.ok.inj hsplit
  rw [hget] at htext
  rw [← Option.some.inj htext, Marble.unmarshal_marshal]

theorem mem_writes_iff (hs : Sound env stub.state) (hi : Indexed env stub.state)
    (hfound : env.keys.partialCompositeKey indexName [color] = .ok found)
    (h : List.Forall₂ (fun e w => Transferred env stub newOwner e.1 w)
      (stub.state.select found) ws) {w : Write String String} :
    w ∈ ws ↔ ∃ m : Marble, m.color = color ∧ stub.state.get m.name = some m.marshal ∧
      w = (m.name, some { m with owner := env.toLower newOwner }.marshal) := by
  constructor
  · intro hw
    obtain ⟨i, hi', rfl⟩ := List.getElem_of_mem hw
    have hlt : i < (stub.state.select found).length := h.length_eq ▸ hi'
    have hmem := List.getElem_mem hlt
    obtain ⟨-, m, hcolor, hget, hkey⟩ := (mem_select_color_iff hs hi hfound).mp hmem
    exact ⟨m, hcolor, hget, transferred_of_key hkey hget (h.get hlt hi')⟩
  · rintro ⟨m, hcolor, hget, rfl⟩
    obtain ⟨key, hkey, hindex⟩ := hi m hget
    have hmem := (mem_select_color_iff hs hi hfound).mpr ⟨rfl, m, hcolor, hget, hkey⟩
    obtain ⟨i, hi', heq⟩ := List.getElem_of_mem hmem
    have hlt : i < ws.length := h.length_eq ▸ hi'
    have hw := h.get hi' hlt
    rw [List.get_eq_getElem, heq] at hw
    rw [← transferred_of_key hkey hget hw]
    exact List.getElem_mem hlt

/-- **All marbles of the color get the new owner, and no others.** -/
theorem registry_transferColor (hs : Sound env stub.state) (hi : Indexed env stub.state)
    (hfound : env.keys.partialCompositeKey indexName [color] = .ok found)
    (h : List.Forall₂ (fun e w => Transferred env stub newOwner e.1 w)
      (stub.state.select found) ws) :
    registry (stub.state.apply ws) = fun name => (registry stub.state name).map fun m =>
      if m.color = color then { m with owner := env.toLower newOwner } else m := by
  have hmem := fun w => mem_writes_iff (w := w) hs hi hfound h
  funext name
  -- the write under the name of a marble is the one for that marble
  have hsame : ∀ (m : Marble) (w : Write String String), stub.state.get name = some m.marshal →
      w ∈ ws → w.1 = name → m.color = color ∧
        w.2 = some { m with owner := env.toLower newOwner }.marshal := by
    intro m w hget hw hname
    obtain ⟨m', hcolor, hget', rfl⟩ := (hmem w).mp hw
    rw [← hname, hget'] at hget
    obtain rfl := Marble.marshal_injective (Option.some.inj hget)
    exact ⟨hcolor, rfl⟩
  cases hr : registry stub.state name with
  | none =>
      have hother : ∀ w ∈ ws, w.1 ≠ name := by
        rintro w hw rfl
        obtain ⟨m, -, hget, rfl⟩ := (hmem w).mp hw
        rw [registry_of_get hget] at hr
        cases hr
      rw [registry_congr (Ledger.get_apply_of_not_mem hother), hr]
      rfl
  | some m =>
      obtain ⟨rfl, hget⟩ := (registry_eq_some_iff hs).mp hr
      rw [Option.map_some]
      by_cases hcolor : m.color = color
      · rw [if_pos hcolor]
        exact registry_of_get (Ledger.get_apply_of_mem ((hmem _).mpr ⟨m, hcolor, hget, rfl⟩)
          fun w hw hname => (hsame m w hget hw hname).2)
      · rw [if_neg hcolor, ← hr]
        exact registry_congr (Ledger.get_apply_of_not_mem fun w hw hname =>
          hcolor (hsame m w hget hw hname).1)

end Color

/-! ## Requests -/

/-- What an invocation asks for, if its arguments are well formed. -/
def request (env : Env) (tx : Transaction) : Option Request :=
  if tx.function = "initMarble" then match tx.args with
    | [name, color, size, owner] =>
        if name = "" ∨ color = "" ∨ owner = "" then none
        else (atoi size).map fun n => .create (newMarble env name color n owner)
    | _ => none
  else if tx.function = "transferMarble" then match tx.args with
    | name :: owner :: _ => some (.transfer name (env.toLower owner))
    | _ => none
  else if tx.function = "transferMarblesBasedOnColor" then match tx.args with
    -- the owner goes through `ToLower` here and in `transferMarble`, the color does not
    | color :: owner :: _ => some (.transferColor color (env.toLower (env.toLower owner)))
    | _ => none
  else if tx.function = "delete" then match tx.args with
    | [name] => some (.remove name)
    | _ => none
  else some .query

/-- The keys that a request needs can be made. -/
def keyed (env : Env) : Request → Bool
  | .create m => (env.keys.createCompositeKey indexName [m.color, m.name]).toBool
  | .transferColor color _ => (env.keys.partialCompositeKey indexName [color]).toBool
  | _ => true

/-- The registry after an invocation that nothing disturbs. -/
def next (env : Env) (r : Registry) (tx : Transaction) : Registry :=
  match request env tx with
  | some req => if keyed env req then (r.perform req).getD r else r
  | none => r

theorem toBool_eq_true_iff {ε α : Type} {x : Except ε α} :
    x.toBool = true ↔ ∃ a, x = .ok a := by
  cases x <;> simp [Except.toBool]

/-- An invocation that asks for a change. -/
theorem request_cases {env : Env} {tx : Transaction} {req : Request}
    (h : request env tx = some req) :
    (tx.function = "initMarble" ∧ ∃ name color size owner n, tx.args = [name, color, size, owner] ∧
      name ≠ "" ∧ color ≠ "" ∧ owner ≠ "" ∧ atoi size = some n ∧
      req = .create (newMarble env name color n owner)) ∨
    (tx.function = "transferMarble" ∧ ∃ name owner rest, tx.args = name :: owner :: rest ∧
      req = .transfer name (env.toLower owner)) ∨
    (tx.function = "transferMarblesBasedOnColor" ∧ ∃ color owner rest,
      tx.args = color :: owner :: rest ∧
      req = .transferColor color (env.toLower (env.toLower owner))) ∨
    (tx.function = "delete" ∧ ∃ name, tx.args = [name] ∧ req = .remove name) ∨
    (tx.function ≠ "initMarble" ∧ tx.function ≠ "transferMarble" ∧
      tx.function ≠ "transferMarblesBasedOnColor" ∧ tx.function ≠ "delete" ∧ req = .query) := by
  -- one branch of the source after the other, each with the names refused before it
  unfold request at h
  split at h
  · next hf =>
      split at h
      · next name color size owner hargs =>
          split at h
          · cases h
          · next hne =>
              obtain ⟨n, hn, rfl⟩ := Option.map_eq_some_iff.mp h
              simp only [not_or] at hne
              exact Or.inl ⟨hf, name, color, size, owner, n, hargs, hne.1, hne.2.1, hne.2.2, hn,
                rfl⟩
      · cases h
  · next hinit =>
      split at h
      · next hf =>
          split at h
          · next name owner rest hargs =>
              exact Or.inr (Or.inl ⟨hf, name, owner, rest, hargs, (Option.some.inj h).symm⟩)
          · cases h
      · next htransfer =>
          split at h
          · next hf =>
              split at h
              · next color owner rest hargs =>
                  exact Or.inr (Or.inr (Or.inl ⟨hf, color, owner, rest, hargs,
                    (Option.some.inj h).symm⟩))
              · cases h
          · next hcolor =>
              split at h
              · next hf =>
                  split at h
                  · next name hargs =>
                      exact Or.inr (Or.inr (Or.inr (Or.inl ⟨hf, name, hargs,
                        (Option.some.inj h).symm⟩)))
                  · cases h
              · next hdelete =>
                  exact Or.inr (Or.inr (Or.inr (Or.inr ⟨hinit, htransfer, hcolor, hdelete,
                    (Option.some.inj h).symm⟩)))

/-- **What is endorsed is what was asked for**, whatever calls of the peer
    fail. -/
theorem simulate_performs (hs : Sound env s) (hi : Indexed env s) {tx : Transaction}
    {out : Endorsement String String} (h : simulate env s tx = .ok out) :
    ∃ req, request env tx = some req ∧ keyed env req = true ∧
      (registry s).perform req = some (registry (s.apply out.2)) := by
  -- each function of `Invoke` is one request, and the rest are queries
  have h : invoke env ⟨tx.peer, s⟩ tx.function tx.args = .ok out := h
  by_cases hinit : tx.function = "initMarble"
  · rw [invoke, if_pos hinit] at h
    obtain ⟨name, color, size, owner, n, key, hargs, hname, hcolor, howner, hsize, -, hnew, -, hkey,
      rfl⟩ := initMarble_eq_ok.mp h
    refine ⟨.create (newMarble env name color n owner), ?_, toBool_eq_true_iff.mpr ⟨key, hkey⟩, ?_⟩
    · simp [request, hinit, hargs, hname, hcolor, howner, hsize]
    · have hreg := registry_create hs (m := newMarble env name color n owner) hkey
        (accepted_putState ⟨tx.peer, s⟩ key)
      exact (if_pos (registry_of_none hnew)).trans (congrArg some hreg.symm)
  by_cases htransfer : tx.function = "transferMarble"
  · rw [invoke, if_neg hinit, if_pos htransfer] at h
    obtain ⟨name, owner, rest, text, hargs, -, htext, hread, -, rfl⟩ := transferMarble_eq_ok.mp h
    obtain ⟨m, rfl, hm, rfl⟩ := hs.readable htext hread
    refine ⟨.transfer m.name (env.toLower owner), ?_, rfl, ?_⟩
    · simp [request, htransfer, hargs]
    · rw [Registry.perform, registry_of_get htext, Option.map_some, Ledger.apply_cons,
        Ledger.apply_nil, hm, registry_write_marble s { m with owner := env.toLower owner }]
  by_cases hcolor : tx.function = "transferMarblesBasedOnColor"
  · rw [invoke, if_neg hinit, if_neg htransfer, if_pos hcolor] at h
    obtain ⟨color, owner, rest, found, ws, hargs, hfound, -, hws, rfl⟩ :=
      transferMarblesBasedOnColor_eq_ok.mp h
    refine ⟨.transferColor color (env.toLower (env.toLower owner)), ?_,
      toBool_eq_true_iff.mpr ⟨found, hfound⟩, ?_⟩
    · simp [request, hcolor, hargs]
    · exact congrArg some (registry_transferColor hs hi hfound hws).symm
  by_cases hdelete : tx.function = "delete"
  · rw [invoke, if_neg hinit, if_neg htransfer, if_neg hcolor, if_pos hdelete] at h
    obtain ⟨m, key, hget, hkey, hargs, rfl⟩ := delete_writes hs h
    refine ⟨.remove m.name, ?_, rfl, ?_⟩
    · simp [request, hdelete, hargs]
    · rw [registry_delete hs hkey, Registry.perform, registry_of_get hget]
      exact if_neg (Option.some_ne_none m)
  · refine ⟨.query, ?_, rfl, ?_⟩
    · simp [request, hinit, htransfer, hcolor, hdelete]
    · rw [writes_of_query h hinit htransfer hcolor hdelete]
      rfl

theorem exists_forall₂ {α β : Type} {R : α → β → Prop} {l : List α} (h : ∀ a ∈ l, ∃ b, R a b) :
    ∃ l', List.Forall₂ R l l' := by
  induction l with
  | nil => exact ⟨[], .nil⟩
  | cons a l ih =>
      obtain ⟨b, hb⟩ := h a List.mem_cons_self
      obtain ⟨l', hl'⟩ := ih fun a ha => h a (List.mem_cons_of_mem _ ha)
      exact ⟨b :: l', .cons hb hl'⟩

/-- **What is asked for is endorsed** if it is not refused and no call of the
    peer fails. -/
theorem endorsed_of_perform (hs : Sound env s) (hi : Indexed env s) {tx : Transaction}
    (hfault : ∀ call, tx.peer.fault call = none) {req : Request} {r : Registry}
    (hreq : request env tx = some req) (hkeyed : keyed env req = true)
    (h : (registry s).perform req = some r) (hchange : req ≠ .query) : Endorsed env s tx := by
  suffices ∃ out, invoke env ⟨tx.peer, s⟩ tx.function tx.args = .ok out from this
  rcases request_cases hreq with
    ⟨hf, name, color, size, owner, n, hargs, hname, hcolor, howner, hsize, rfl⟩ |
    ⟨hf, name, owner, rest, hargs, rfl⟩ | ⟨hf, color, owner, rest, hargs, rfl⟩ |
    ⟨hf, name, hargs, rfl⟩ | ⟨-, -, -, -, rfl⟩
  · rw [invoke, if_pos hf]
    obtain ⟨key, hkey⟩ := toBool_eq_true_iff.mp hkeyed
    -- a name that is taken would be refused
    have hnew : registry s name = none := by
      by_contra hold
      have hrefused : (registry s).perform (.create (newMarble env name color n owner)) = none :=
        if_neg hold
      rw [h] at hrefused
      cases hrefused
    exact ⟨_, initMarble_eq_ok.mpr ⟨name, color, size, owner, n, key, hargs, hname, hcolor, howner,
      hsize, hfault _, (get_eq_none_iff hs hkey).mpr hnew, hfault _, hkey, rfl⟩⟩
  · obtain ⟨m, hm, -⟩ := Option.map_eq_some_iff.mp h
    obtain ⟨rfl, hget⟩ := (registry_eq_some_iff hs).mp hm
    rw [invoke, hf, if_neg (by decide), if_pos rfl]
    exact ⟨_, transferMarble_eq_ok.mpr ⟨m.name, owner, rest, m.marshal, hargs, hfault _, hget,
      by rw [Marble.unmarshal_marshal], hfault _, rfl⟩⟩
  · obtain ⟨found, hfound⟩ := toBool_eq_true_iff.mp hkeyed
    rw [invoke, hf, if_neg (by decide), if_neg (by decide), if_pos rfl]
    -- every entry of the index leads to a marble that can be read and written
    obtain ⟨ws, hws⟩ := exists_forall₂ (l := s.select found)
      (R := fun e w => Transferred env ⟨tx.peer, s⟩ (env.toLower owner) e.1 w) (by
        rintro ⟨key, value⟩ hmem
        obtain ⟨-, m, -, hget, hkey⟩ := (mem_select_color_iff hs hi hfound).mp hmem
        exact ⟨_, hfault _, indexName, m.color, m.name, [], m.marshal, env.keys.split_create hkey,
          hfault _, hget, by rw [Marble.unmarshal_marshal], hfault _, rfl⟩)
    exact ⟨_, transferMarblesBasedOnColor_eq_ok.mpr ⟨color, owner, rest, found, ws, hargs, hfound,
      hfault _, hws, rfl⟩⟩
  · rw [invoke, hf, if_neg (by decide), if_neg (by decide), if_neg (by decide), if_pos rfl]
    cases hr : registry s name with
    | none =>
        rw [Registry.perform, if_pos hr] at h
        cases h
    | some m =>
        obtain ⟨rfl, hget⟩ := (registry_eq_some_iff hs).mp hr
        obtain ⟨-, -, key, hkey⟩ := entry_marshal (hs _ _ hget)
        refine ⟨_, delete_eq_ok.mpr ⟨m.name, m.marshal, key, hargs, hfault _, hget, ?_, hfault _,
          ?_, hfault _, rfl⟩⟩
        · rw [Marble.unmarshal_marshal]
        · rw [Marble.unmarshal_marshal]
          exact hkey
  · exact absurd rfl hchange

/-! ## Runs -/

/-- The registry follows an invocation that nothing disturbs. -/
theorem registry_commit (hs : Sound env s) (hi : Indexed env s) {tx : Transaction}
    (hfault : ∀ call, tx.peer.fault call = none) :
    registry (s.commit (simulate env s tx)) = next env (registry s) tx := by
  cases hsim : simulate env s tx with
  | ok out =>
      obtain ⟨req, hreq, hkeyed, hperform⟩ := simulate_performs hs hi hsim
      rw [next, hreq]
      simp only [hkeyed, if_pos, hperform, Option.getD_some]
      rfl
  -- what is not endorsed is refused, or cannot be asked for
  | error e =>
      have hnot : ¬ Endorsed env s tx := fun ⟨out, hout⟩ => by
        rw [hsim] at hout
        cases hout
      rw [next]
      cases hreq : request env tx with
      | none => rfl
      | some req =>
          simp only
          split
          · next hkeyed =>
              cases hperform : (registry s).perform req with
              | none => rfl
              | some r =>
                  by_cases hquery : req = .query
                  · subst hquery
                    exact (Option.some.inj hperform)
                  · exact absurd (endorsed_of_perform hs hi hfault hreq hkeyed hperform hquery)
                      hnot
          · rfl

theorem not_indexRefused {tx : Transaction} (hfault : ∀ call, tx.peer.fault call = none) :
    ¬ IndexRefused env tx := by
  rintro ⟨-, _, _, _, _, key, -, -, hrefused⟩
  exact hrefused (hfault _)

/-- No endorsed invocation loses the index entry of a new marble. -/
abbrev KeepsIndex (env : Env) (s : Ledger String String) (tx : Transaction) : Prop :=
  Endorsed env s tx → ¬ IndexRefused env tx

theorem indexed_of_run {txs : List Transaction}
    (h : (system env).Run (KeepsIndex env) (Ledger.empty String String) txs s) :
    Sound env s ∧ Indexed env s := by
  refine h.preserves (I := fun s => Sound env s ∧ Indexed env s) (fun s tx t hs hok hstep => ?_)
    ⟨sound_empty, indexed_empty⟩
  refine ⟨sound_step hs.1 hstep, Ledger.step_preserves hs.2 (fun out hout => ?_) hstep⟩
  exact (indexed_simulate_iff hs.1 hs.2 hout).mpr (hok ⟨out, hout⟩)

/-- The name that the loop takes from an index key. -/
def nameOfKey (env : Env) (key : String) : String :=
  match env.keys.splitCompositeKey key with
  | .ok (_, _ :: name :: _) => name
  | _ => ""

/-- The names of the marbles whose index entries are found. -/
theorem names_of_select (hs : Sound env s) (hi : Indexed env s) {color : String}
    {found : String → Bool} (hfound : env.keys.partialCompositeKey indexName [color] = .ok found) :
    ((s.select found).map fun e => nameOfKey env e.1).Nodup ∧
      ∀ name, name ∈ (s.select found).map (fun e => nameOfKey env e.1) ↔
        ∃ m, registry s name = some m ∧ m.color = color := by
  -- a key is taken apart into what it was made of
  have hname : ∀ {m : Marble} {key : String},
      env.keys.createCompositeKey indexName [m.color, m.name] = .ok key →
      nameOfKey env key = m.name := by
    intro m key hkey
    rw [nameOfKey, env.keys.split_create hkey]
  constructor
  · refine List.Nodup.map_on ?_ ((s.nodup_select found).of_map Prod.fst)
    rintro ⟨k, v⟩ he ⟨k', v'⟩ he' heq
    obtain ⟨rfl, m, hcolor, -, hkey⟩ := (mem_select_color_iff hs hi hfound).mp he
    obtain ⟨rfl, m', hcolor', -, hkey'⟩ := (mem_select_color_iff hs hi hfound).mp he'
    simp only [hname hkey, hname hkey'] at heq
    -- color and name make the key
    rw [hcolor, heq, ← hcolor', hkey'] at hkey
    rw [Except.ok.inj hkey]
  · intro name
    rw [List.mem_map]
    constructor
    · rintro ⟨⟨key, v⟩, he, rfl⟩
      obtain ⟨rfl, m, hcolor, hget, hkey⟩ := (mem_select_color_iff hs hi hfound).mp he
      exact ⟨m, by rw [hname hkey, registry_of_get hget], hcolor⟩
    · rintro ⟨m, hm, hcolor⟩
      obtain ⟨rfl, hget⟩ := (registry_eq_some_iff hs).mp hm
      obtain ⟨key, hkey, -⟩ := hi m hget
      exact ⟨(key, indexValue), (mem_select_color_iff hs hi hfound).mpr
        ⟨rfl, m, hcolor, hget, hkey⟩, hname hkey⟩

/-- **A color is transferred as a whole**: in every state that is reached
    without losing an index entry, an endorsed transfer gives all marbles of the
    color to the new owner, leaves the others as they are, and counts them. -/
theorem transferColor_of_run {txs : List Transaction}
    (h : (system env).Run (KeepsIndex env) (Ledger.empty String String) txs s) {tx : Transaction}
    (hf : tx.function = "transferMarblesBasedOnColor") {out : Endorsement String String}
    (hout : simulate env s tx = .ok out) :
    ∃ color owner rest names, tx.args = color :: owner :: rest ∧ List.Nodup names ∧
      (∀ name, name ∈ names ↔ ∃ m, registry s name = some m ∧ m.color = color) ∧
      out.1 = some (transferredText names.length color (env.toLower owner)) ∧
      registry (s.apply out.2) = fun name => (registry s name).map fun m =>
        if m.color = color then { m with owner := env.toLower (env.toLower owner) } else m := by
  obtain ⟨hs, hi⟩ := indexed_of_run h
  have hout : invoke env ⟨tx.peer, s⟩ tx.function tx.args = .ok out := hout
  rw [invoke, hf, if_neg (by decide), if_neg (by decide), if_pos rfl] at hout
  obtain ⟨color, owner, rest, found, ws, hargs, hfound, -, hws, rfl⟩ :=
    transferMarblesBasedOnColor_eq_ok.mp hout
  obtain ⟨hnodup, hnames⟩ := names_of_select hs hi hfound
  refine ⟨color, owner, rest, _, hargs, hnodup, hnames, ?_, registry_transferColor hs hi hfound hws⟩
  rw [List.length_map]

theorem transferColor_oneMarble : ∃ out,
    simulate fabricEnv oneMarble (quiet "transferMarblesBasedOnColor" ["blue", "Jerry"]) = .ok out ∧
      registry (oneMarble.apply out.2) = fun name => (registry oneMarble name).map fun m =>
        if m.color = "blue" then
          { m with owner := fabricEnv.toLower (fabricEnv.toLower "Jerry") } else m := by
  have hok : (simulate fabricEnv oneMarble
      (quiet "transferMarblesBasedOnColor" ["blue", "Jerry"])).toBool = true := by decide +kernel
  obtain ⟨out, hout⟩ := toBool_eq_true_iff.mp hok
  obtain ⟨color, owner, rest, names, hargs, -, -, -, hall⟩ := transferColor_of_run
    (.cons (fun _ h => not_indexRefused (fun _ => rfl) h) rfl (.nil _)) rfl hout
  obtain ⟨rfl, hrest⟩ := List.cons.inj hargs
  obtain ⟨rfl, -⟩ := List.cons.inj hrest
  exact ⟨out, hout, hall⟩

/-- **The ledger is the registry**: after transactions that nothing disturbs,
    the marbles are those of the registry after the same requests. -/
theorem registry_of_exec {txs : List Transaction}
    (hfault : ∀ tx ∈ txs, ∀ call, tx.peer.fault call = none) :
    ∃ s, (system env).exec (Ledger.empty String String) txs = some s ∧ Sound env s ∧
      Indexed env s ∧ registry s = txs.foldl (next env) fun _ => none := by
  suffices ∀ s : Ledger String String, Sound env s → Indexed env s →
      ∃ t, (system env).exec s txs = some t ∧ Sound env t ∧ Indexed env t ∧
        registry t = txs.foldl (next env) (registry s) from
    this _ sound_empty indexed_empty
  induction txs with
  | nil => exact fun s hs hi => ⟨s, rfl, hs, hi, rfl⟩
  | cons tx txs ih =>
      intro s hs hi
      have hstep : (system env).step s tx = some (s.commit (simulate env s tx)) := rfl
      have hs' := sound_step hs hstep
      have hi' : Indexed env (s.commit (simulate env s tx)) := by
        cases hsim : simulate env s tx with
        | error e => exact hi
        | ok out =>
            exact (indexed_simulate_iff hs hi hsim).mpr
              (not_indexRefused (hfault tx List.mem_cons_self))
      obtain ⟨t, ht, hst, hit, hr⟩ :=
        ih (fun tx htx => hfault tx (List.mem_cons_of_mem _ htx)) _ hs' hi'
      refine ⟨t, ?_, hst, hit, ?_⟩
      · rw [Lts.exec, hstep]
        exact ht
      · rw [hr, registry_commit hs hi (hfault tx List.mem_cons_self)]
        rfl

/-- Two transactions. -/
def createAndTransfer : List Transaction :=
  [quiet "initMarble" ["marble1", "Blue", "35", "tom"],
    quiet "transferMarble" ["marble1", "Jerry"]]

theorem registry_createAndTransfer : ∃ s,
    (system fabricEnv).exec (Ledger.empty String String) createAndTransfer = some s ∧
      Sound fabricEnv s ∧ Indexed fabricEnv s ∧
      registry s = createAndTransfer.foldl (next fabricEnv) fun _ => none :=
  registry_of_exec (by
    simp only [createAndTransfer, List.forall_mem_cons, List.not_mem_nil, false_implies,
      implies_true, and_true]
    exact ⟨fun _ => rfl, fun _ => rfl⟩)

end Marbles

end Hfrd.Chaincode
