/-
  Hfrd.Chaincode.MarblesIndex

  The index of the marbles chaincode, over whole runs.

  Whatever the calls of the peer are answered, the ledger holds nothing but
  marbles under their names and index entries of marbles that are there.  The
  other direction, an index entry for each marble, is lost exactly where the
  index entry of a new marble is refused, since the chaincode does not look at
  that error.
-/

import Hfrd.Chaincode.Marbles

namespace Hfrd.Chaincode

open Hfrd.Go Hfrd.Lib

namespace Marbles

/-! ## What the ledger holds -/

/-- What may stand under a key. -/
inductive Entry (env : Env) (s : Ledger String String) : String → String → Prop
  | marble (m : Marble) (key : String) : m.objectType = "marble" →
      env.keys.createCompositeKey indexName [m.color, m.name] = .ok key →
      Entry env s m.name m.marshal
  | index (m : Marble) (key : String) :
      env.keys.createCompositeKey indexName [m.color, m.name] = .ok key →
      s.get m.name = some m.marshal → Entry env s key indexValue

/-- Marbles under their names, and index entries of marbles that are there. -/
def Sound (env : Env) (s : Ledger String String) : Prop :=
  ∀ k v, s.get k = some v → Entry env s k v

/-- Every marble is in the index. -/
def Indexed (env : Env) (s : Ledger String String) : Prop :=
  ∀ m : Marble, s.get m.name = some m.marshal →
    ∃ key, env.keys.createCompositeKey indexName [m.color, m.name] = .ok key ∧
      s.get key = some indexValue

variable {env : Env} {s t : Ledger String String}

theorem marshal_ne_indexValue (m : Marble) : m.marshal ≠ indexValue := by
  intro h
  have hread := Marble.unmarshal_indexValue
  rw [← indexValue, ← h, Marble.unmarshal_marshal] at hread
  cases hread

theorem entry_marshal {k : String} {m : Marble} (h : Entry env s k m.marshal) :
    m.name = k ∧ m.objectType = "marble" ∧
      ∃ key, env.keys.createCompositeKey indexName [m.color, m.name] = .ok key := by
  generalize hv : m.marshal = v at h
  cases h with
  | marble m' key htype hkey =>
      obtain rfl := Marble.marshal_injective hv
      exact ⟨rfl, htype, key, hkey⟩
  | index => exact absurd hv (marshal_ne_indexValue m)

theorem entry_indexValue {k : String} (h : Entry env s k indexValue) :
    ∃ m : Marble, env.keys.createCompositeKey indexName [m.color, m.name] = .ok k ∧
      s.get m.name = some m.marshal := by
  generalize hv : indexValue = v at h
  cases h with
  | marble m => exact absurd hv.symm (marshal_ne_indexValue m)
  | index m key hkey hget => exact ⟨m, hkey, hget⟩

/-- Only the JSON of a marble can be read as one. -/
theorem Sound.readable (h : Sound env s) {k text : String} (hget : s.get k = some text)
    (hread : (Marble.unmarshal text).2 = true) :
    ∃ m : Marble, text = m.marshal ∧ (Marble.unmarshal text).1 = m ∧ m.name = k := by
  cases h k text hget with
  | marble m key => exact ⟨m, rfl, by rw [Marble.unmarshal_marshal], rfl⟩
  | index => exact absurd hread (by rw [indexValue, Marble.unmarshal_indexValue]; decide)

/-- The name of a marble is not the key of an index entry. -/
theorem name_ne_key {m : Marble} {key : String} {attributes : List String} {key' : String}
    (hkey : env.keys.createCompositeKey indexName [m.color, m.name] = .ok key)
    (hkey' : env.keys.createCompositeKey indexName attributes = .ok key') : m.name ≠ key' :=
  env.keys.attribute_ne hkey (List.mem_cons_of_mem _ List.mem_cons_self) hkey'

/-- The index key of a marble tells its color and name. -/
theorem of_key_eq {m m' : Marble} {key : String}
    (hkey : env.keys.createCompositeKey indexName [m.color, m.name] = .ok key)
    (hkey' : env.keys.createCompositeKey indexName [m'.color, m'.name] = .ok key) :
    m.color = m'.color ∧ m.name = m'.name := by
  have hattributes := (KeySpace.create_injective hkey hkey').2
  simpa using hattributes

/-! ## Transfers -/

/-- Nothing but owners is different. -/
def OwnersOnly (s t : Ledger String String) : Prop :=
  ∀ k, t.get k = s.get k ∨ ∃ (m : Marble) (owner : String), m.name = k ∧
    s.get k = some m.marshal ∧ t.get k = some { m with owner := owner }.marshal

theorem OwnersOnly.refl (s : Ledger String String) : OwnersOnly s s := fun _ => Or.inl rfl

theorem OwnersOnly.write (h : OwnersOnly s t) {m : Marble} (hget : s.get m.name = some m.marshal)
    (owner : String) :
    OwnersOnly s (t.write (m.name, some { m with owner := owner }.marshal)) := by
  intro k
  rw [Ledger.get_write]
  by_cases hk : k = m.name
  · rw [if_pos hk]
    exact Or.inr ⟨m, owner, hk.symm, hk ▸ hget, rfl⟩
  · rw [if_neg hk]
    exact h k

/-- Writes that each give a marble of `s` another owner. -/
theorem ownersOnly_apply {ws : List (Write String String)}
    (h : ∀ w ∈ ws, ∃ (m : Marble) (owner : String), s.get m.name = some m.marshal ∧
      w = (m.name, some { m with owner := owner }.marshal)) : OwnersOnly s (s.apply ws) := by
  suffices ∀ t, OwnersOnly s t → OwnersOnly s (t.apply ws) from this s (OwnersOnly.refl s)
  induction ws with
  | nil => exact fun t ht => ht
  | cons w ws ih =>
      intro t ht
      obtain ⟨m, owner, hget, rfl⟩ := h w List.mem_cons_self
      exact ih (fun w hw => h w (List.mem_cons_of_mem _ hw)) _ (ht.write hget owner)

theorem OwnersOnly.sound (h : OwnersOnly s t) (hs : Sound env s) : Sound env t := by
  intro k v hv
  rcases h k with heq | ⟨m, owner, rfl, hget, hget'⟩
  · rw [heq] at hv
    cases hs k v hv with
    | marble m key htype hkey => exact .marble m key htype hkey
    | index m key hkey hget =>
        -- the marble of the entry may have another owner now
        rcases h m.name with heq' | ⟨m', owner, -, hget', hnew⟩
        · exact .index m k hkey (heq'.trans hget)
        · rw [hget] at hget'
          obtain rfl := Marble.marshal_injective (Option.some.inj hget')
          exact .index { m with owner := owner } k hkey hnew
  · rw [hget'] at hv
    obtain ⟨-, htype, key, hkey⟩ := entry_marshal (hs _ _ hget)
    rw [← Option.some.inj hv]
    exact .marble { m with owner := owner } key htype hkey

theorem OwnersOnly.indexed (h : OwnersOnly s t) (hs : Indexed env s) : Indexed env t := by
  have hkeep : ∀ key, s.get key = some indexValue → t.get key = some indexValue := by
    intro key hkey
    rcases h key with heq | ⟨m, owner, -, hget, -⟩
    · rw [heq, hkey]
    · rw [hkey] at hget
      exact absurd (Option.some.inj hget).symm (marshal_ne_indexValue m)
  intro m hm
  rcases h m.name with heq | ⟨m', owner, hname, hget, hget'⟩
  · rw [heq] at hm
    obtain ⟨key, hkey, hindex⟩ := hs m hm
    exact ⟨key, hkey, hkeep key hindex⟩
  · rw [hget'] at hm
    obtain rfl := Marble.marshal_injective (Option.some.inj hm)
    rw [← hname] at hget
    obtain ⟨key, hkey, hindex⟩ := hs m' hget
    exact ⟨key, hkey, hkeep key hindex⟩

/-! ## A new marble -/

theorem sound_write_marble (hs : Sound env s) {m : Marble} {key : String}
    (htype : m.objectType = "marble")
    (hkey : env.keys.createCompositeKey indexName [m.color, m.name] = .ok key)
    (hnew : s.get m.name = none) : Sound env (s.write (m.name, some m.marshal)) := by
  intro k v hv
  rw [Ledger.get_write] at hv
  split at hv
  · next hk =>
      rw [hk, ← Option.some.inj hv]
      exact .marble m key htype hkey
  · cases hs k v hv with
    | marble m' key' htype' hkey' => exact .marble m' key' htype' hkey'
    | index m' key' hkey' hget =>
        refine .index m' k hkey' ?_
        -- a marble that is there is not the new one
        have hne : m'.name ≠ m.name := fun heq => by
          rw [heq, hnew] at hget
          cases hget
        rw [Ledger.get_write, if_neg hne, hget]

theorem sound_write_index (hs : Sound env s) {m : Marble} {key : String}
    (hkey : env.keys.createCompositeKey indexName [m.color, m.name] = .ok key)
    (hget : s.get m.name = some m.marshal) : Sound env (s.write (key, some indexValue)) := by
  have hkeep : ∀ {m' : Marble} {key' : String},
      env.keys.createCompositeKey indexName [m'.color, m'.name] = .ok key' →
      s.get m'.name = some m'.marshal →
      (s.write (key, some indexValue)).get m'.name = some m'.marshal := by
    intro m' key' hkey' hget'
    rw [Ledger.get_write, if_neg (name_ne_key hkey' hkey), hget']
  intro k v hv
  rw [Ledger.get_write] at hv
  split at hv
  · next hk =>
      rw [hk, ← Option.some.inj hv]
      exact .index m key hkey (hkeep hkey hget)
  · cases hs k v hv with
    | marble m' key' htype' hkey' => exact .marble m' key' htype' hkey'
    | index m' key' hkey' hget' => exact .index m' k hkey' (hkeep hkey' hget')

theorem get_create {m : Marble} {key : String}
    (hkey : env.keys.createCompositeKey indexName [m.color, m.name] = .ok key)
    {ws : List (Write String String)} (hws : ws = [] ∨ ws = [(key, some indexValue)]) (k : String) :
    (s.apply ((m.name, some m.marshal) :: ws)).get k =
      if k = m.name then some m.marshal
      else if k = key ∧ ws ≠ [] then some indexValue else s.get k := by
  have hne := name_ne_key hkey hkey
  rcases hws with rfl | rfl
  · simp [Ledger.get_write]
  · simp only [Ledger.apply_cons, Ledger.apply_nil, Ledger.get_write]
    by_cases hk : k = key
    · rw [if_pos hk, if_neg (hk ▸ hne.symm), if_pos ⟨hk, List.cons_ne_nil _ _⟩]
    · rw [if_neg hk, if_neg (fun h : k = key ∧ _ => hk h.1)]

theorem sound_create (hs : Sound env s) {m : Marble} {key : String}
    (htype : m.objectType = "marble")
    (hkey : env.keys.createCompositeKey indexName [m.color, m.name] = .ok key)
    (hnew : s.get m.name = none) {ws : List (Write String String)}
    (hws : ws = [] ∨ ws = [(key, some indexValue)]) :
    Sound env (s.apply ((m.name, some m.marshal) :: ws)) := by
  have hmarble := sound_write_marble hs htype hkey hnew
  rcases hws with rfl | rfl
  · exact hmarble
  · refine sound_write_index hmarble hkey ?_
    rw [Ledger.get_write, if_pos rfl]

/-- The key of a marble that is not there is not in the index. -/
theorem get_key_of_new (hs : Sound env s) {m : Marble} {key : String}
    (hkey : env.keys.createCompositeKey indexName [m.color, m.name] = .ok key)
    (hnew : s.get m.name = none) : s.get key ≠ some indexValue := by
  intro hindex
  obtain ⟨m', hkey', hget⟩ := entry_indexValue (hs key indexValue hindex)
  rw [← (of_key_eq hkey hkey').2, hnew] at hget
  cases hget

/-- **The index is complete after a new marble exactly if its entry is saved.** -/
theorem indexed_create_iff (hs : Sound env s) (hi : Indexed env s) {m : Marble} {key : String}
    (hkey : env.keys.createCompositeKey indexName [m.color, m.name] = .ok key)
    (hnew : s.get m.name = none) {ws : List (Write String String)}
    (hws : ws = [] ∨ ws = [(key, some indexValue)]) :
    Indexed env (s.apply ((m.name, some m.marshal) :: ws)) ↔ ws ≠ [] := by
  constructor
  · rintro h rfl
    obtain ⟨key', hkey', hindex⟩ := h m (by simp [Ledger.get_write])
    obtain rfl : key = key' := by
      rw [hkey] at hkey'
      exact Except.ok.inj hkey'
    rw [Ledger.apply_cons, Ledger.apply_nil, Ledger.get_write,
      if_neg (Ne.symm (name_ne_key hkey hkey))] at hindex
    exact get_key_of_new hs hkey hnew hindex
  · intro hne
    obtain rfl := hws.resolve_left hne
    intro m' hm'
    simp only [Ledger.apply_cons, Ledger.apply_nil, Ledger.get_write] at hm' ⊢
    by_cases hname : m'.name = m.name
    · -- the new marble
      have hnk : m'.name ≠ key := hname ▸ name_ne_key hkey hkey
      rw [if_neg hnk, if_pos hname] at hm'
      obtain rfl := Marble.marshal_injective (Option.some.inj hm')
      exact ⟨key, hkey, if_pos rfl⟩
    · have hold : s.get m'.name = some m'.marshal := by
        by_cases hk : m'.name = key
        · rw [if_pos hk] at hm'
          exact absurd (Option.some.inj hm').symm (marshal_ne_indexValue m')
        · rwa [if_neg hk, if_neg hname] at hm'
      obtain ⟨key', hkey', hindex⟩ := hi m' hold
      refine ⟨key', hkey', ?_⟩
      rw [if_neg (Ne.symm (name_ne_key hkey hkey'))]
      split
      · rfl
      · exact hindex

/-! ## A deleted marble -/

theorem get_delete {m : Marble} {key k : String} :
    (s.apply [(m.name, none), (key, none)]).get k =
      if k = key then none else if k = m.name then none else s.get k := by
  simp [Ledger.get_write]

theorem sound_delete (hs : Sound env s) {m : Marble} {key : String}
    (hget : s.get m.name = some m.marshal)
    (hkey : env.keys.createCompositeKey indexName [m.color, m.name] = .ok key) :
    Sound env (s.apply [(m.name, none), (key, none)]) := by
  intro k v hv
  rw [get_delete] at hv
  split at hv
  · cases hv
  · next hk =>
      split at hv
      · cases hv
      · cases hs k v hv with
        | marble m' key' htype' hkey' => exact .marble m' key' htype' hkey'
        | index m' key' hkey' hget' =>
            refine .index m' k hkey' ?_
            -- an entry of the deleted marble would be under the deleted key
            have hne : m'.name ≠ m.name := fun heq => by
              rw [heq, hget] at hget'
              obtain rfl := Marble.marshal_injective (Option.some.inj hget')
              rw [hkey] at hkey'
              exact hk (Except.ok.inj hkey').symm
            rw [get_delete, if_neg (name_ne_key hkey' hkey), if_neg hne, hget']

theorem indexed_delete (hi : Indexed env s) {m : Marble} {key : String}
    (hkey : env.keys.createCompositeKey indexName [m.color, m.name] = .ok key) :
    Indexed env (s.apply [(m.name, none), (key, none)]) := by
  intro m' hm'
  rw [get_delete] at hm'
  split at hm'
  · cases hm'
  · split at hm'
    · cases hm'
    · next hname =>
        obtain ⟨key', hkey', hindex⟩ := hi m' hm'
        refine ⟨key', hkey', ?_⟩
        have hne : key' ≠ key := fun heq => hname (of_key_eq (heq ▸ hkey') hkey).2
        rw [get_delete, if_neg hne, if_neg (Ne.symm (name_ne_key hkey hkey')), hindex]

/-! ## Invocations -/

section Invocations

variable {stub : Stub String String} {args : List String} {out : Endorsement String String}

theorem transferred_owner (hs : Sound env stub.state) {newOwner key : String}
    {w : Write String String} (h : Transferred env stub newOwner key w) :
    ∃ (m : Marble) (owner : String), stub.state.get m.name = some m.marshal ∧
      w = (m.name, some { m with owner := owner }.marshal) := by
  obtain ⟨-, o, color, name, rest, text, -, -, htext, hread, -, rfl⟩ := h
  obtain ⟨m, rfl, hm, rfl⟩ := hs.readable htext hread
  exact ⟨m, env.toLower newOwner, htext, by rw [hm]⟩

theorem transferMarble_ownersOnly (hs : Sound env stub.state)
    (h : transferMarble env stub args = .ok out) :
    OwnersOnly stub.state (stub.state.apply out.2) := by
  obtain ⟨name, owner, rest, text, -, -, htext, hread, -, rfl⟩ := transferMarble_eq_ok.mp h
  obtain ⟨m, rfl, hm, rfl⟩ := hs.readable htext hread
  refine ownersOnly_apply fun w hw => ⟨m, env.toLower owner, htext, ?_⟩
  rw [List.mem_singleton.mp hw, hm]

theorem transferMarblesBasedOnColor_ownersOnly (hs : Sound env stub.state)
    (h : transferMarblesBasedOnColor env stub args = .ok out) :
    OwnersOnly stub.state (stub.state.apply out.2) := by
  obtain ⟨color, owner, rest, found, ws, -, -, -, hws, rfl⟩ :=
    transferMarblesBasedOnColor_eq_ok.mp h
  refine ownersOnly_apply fun w hw => ?_
  obtain ⟨i, hi, rfl⟩ := List.getElem_of_mem hw
  exact transferred_owner hs (hws.get (hws.length_eq ▸ hi) hi)

/-- A new marble, with or without its index entry. -/
theorem initMarble_writes (h : initMarble env stub args = .ok out) :
    ∃ (m : Marble) (key : String), m.objectType = "marble" ∧
      env.keys.createCompositeKey indexName [m.color, m.name] = .ok key ∧
      stub.state.get m.name = none ∧
      out.2 = (m.name, some m.marshal) :: accepted (stub.putState key indexValue) := by
  obtain ⟨name, color, size, owner, n, key, -, -, -, -, -, -, hnew, -, hkey, rfl⟩ :=
    initMarble_eq_ok.mp h
  exact ⟨newMarble env name color n owner, key, rfl, hkey, hnew, rfl⟩

theorem accepted_putState (stub : Stub String String) (key : String) :
    accepted (stub.putState key indexValue) = [] ∨
      accepted (stub.putState key indexValue) = [(key, some indexValue)] := by
  rw [Stub.putState, accepted_answer]
  split
  · exact Or.inr rfl
  · exact Or.inl rfl

theorem delete_writes (hs : Sound env stub.state) (h : delete env stub args = .ok out) :
    ∃ (m : Marble) (key : String), stub.state.get m.name = some m.marshal ∧
      env.keys.createCompositeKey indexName [m.color, m.name] = .ok key ∧
      args = [m.name] ∧ out = (none, [(m.name, none), (key, none)]) := by
  obtain ⟨name, text, key, rfl, -, htext, hread, -, hkey, -, rfl⟩ := delete_eq_ok.mp h
  obtain ⟨m, rfl, hm, rfl⟩ := hs.readable htext hread
  rw [hm] at hkey
  exact ⟨m, key, htext, hkey, rfl, rfl⟩

/-- What an endorsed invocation does: a new marble, one deleted, or other
    owners. -/
theorem invoke_cases (hs : Sound env stub.state) {function : String}
    (h : invoke env stub function args = .ok out) :
    (function = "initMarble" ∧ initMarble env stub args = .ok out) ∨
      (function = "delete" ∧ delete env stub args = .ok out) ∨
      (function ≠ "initMarble" ∧ OwnersOnly stub.state (stub.state.apply out.2)) := by
  by_cases hinit : function = "initMarble"
  · rw [invoke, if_pos hinit] at h
    exact Or.inl ⟨hinit, h⟩
  by_cases htransfer : function = "transferMarble"
  · rw [invoke, if_neg hinit, if_pos htransfer] at h
    exact Or.inr (Or.inr ⟨hinit, transferMarble_ownersOnly hs h⟩)
  by_cases hcolor : function = "transferMarblesBasedOnColor"
  · rw [invoke, if_neg hinit, if_neg htransfer, if_pos hcolor] at h
    exact Or.inr (Or.inr ⟨hinit, transferMarblesBasedOnColor_ownersOnly hs h⟩)
  by_cases hdelete : function = "delete"
  · rw [invoke, if_neg hinit, if_neg htransfer, if_neg hcolor, if_pos hdelete] at h
    exact Or.inr (Or.inl ⟨hdelete, h⟩)
  · rw [writes_of_query h hinit htransfer hcolor hdelete]
    exact Or.inr (Or.inr ⟨hinit, OwnersOnly.refl _⟩)

end Invocations

/-! ## Runs -/

/-- An invocation, and what the peer answers in it. -/
structure Transaction where
  function : String
  args : List String
  peer : Peer String String

/-- One invocation, on the state before it. -/
def simulate (env : Env) (s : Ledger String String) (tx : Transaction) :
    Except Failure (Endorsement String String) :=
  invoke env ⟨tx.peer, s⟩ tx.function tx.args

/-- Transactions one after the other, with whatever answers of the peer. -/
def system (env : Env) : Lts (Ledger String String) Transaction := Ledger.lts (simulate env)

/-- The invocation is endorsed. -/
def Endorsed (env : Env) (s : Ledger String String) (tx : Transaction) : Prop :=
  ∃ out, simulate env s tx = .ok out

theorem sound_simulate (hs : Sound env s) {tx : Transaction} {out : Endorsement String String}
    (h : simulate env s tx = .ok out) : Sound env (s.apply out.2) := by
  have h : invoke env ⟨tx.peer, s⟩ tx.function tx.args = .ok out := h
  rcases invoke_cases hs h with ⟨-, h⟩ | ⟨-, h⟩ | ⟨-, h⟩
  · obtain ⟨m, key, htype, hkey, hnew, hout⟩ := initMarble_writes h
    rw [hout]
    exact sound_create hs htype hkey hnew (accepted_putState _ key)
  · obtain ⟨m, key, hget, hkey, -, rfl⟩ := delete_writes hs h
    exact sound_delete hs hget hkey
  · exact h.sound hs

/-- The index entry of the new marble is refused. -/
def IndexRefused (env : Env) (tx : Transaction) : Prop :=
  tx.function = "initMarble" ∧ ∃ name color size owner key,
    tx.args = [name, color, size, owner] ∧
    env.keys.createCompositeKey indexName [env.toLower color, name] = .ok key ∧
    tx.peer.fault (.putState key) ≠ none

theorem indexed_simulate_iff (hs : Sound env s) (hi : Indexed env s) {tx : Transaction}
    {out : Endorsement String String} (h : simulate env s tx = .ok out) :
    Indexed env (s.apply out.2) ↔ ¬ IndexRefused env tx := by
  have h : invoke env ⟨tx.peer, s⟩ tx.function tx.args = .ok out := h
  rcases invoke_cases hs h with ⟨hf, h⟩ | ⟨hf, h⟩ | ⟨hf, h⟩
  · obtain ⟨name, color, size, owner, n, key, hargs, -, -, -, -, -, hnew, -, hkey, rfl⟩ :=
      initMarble_eq_ok.mp h
    have hcreate := indexed_create_iff hs hi (m := newMarble env name color n owner) hkey hnew
      (accepted_putState ⟨tx.peer, s⟩ key)
    refine hcreate.trans ?_
    rw [Stub.putState, accepted_answer]
    constructor
    · rintro hne ⟨-, name', color', size', owner', key', hargs', hkey', hfault⟩
      rw [hargs] at hargs'
      cases hargs'
      rw [hkey] at hkey'
      cases hkey'
      exact hne (if_neg hfault)
    · intro hnot hnil
      refine hnot ⟨hf, name, color, size, owner, key, hargs, hkey, fun hfault => ?_⟩
      rw [if_pos hfault] at hnil
      cases hnil
  · obtain ⟨m, key, hget, hkey, -, rfl⟩ := delete_writes hs h
    refine iff_of_true (indexed_delete hi hkey) fun hrefused => ?_
    rw [hrefused.1] at hf
    exact absurd hf (by decide)
  · exact iff_of_true (h.indexed hi) fun hrefused => hf hrefused.1

theorem sound_empty : Sound env (Ledger.empty String String) := nofun

theorem indexed_empty : Indexed env (Ledger.empty String String) := nofun

theorem sound_step {tx : Transaction} (hs : Sound env s) (h : (system env).step s tx = some t) :
    Sound env t := Ledger.step_preserves hs (fun _ hout => sound_simulate hs hout) h

/-- **Every state reached is sound.** -/
theorem sound_of_exec {txs : List Transaction} {s : Ledger String String}
    (h : (system env).exec (Ledger.empty String String) txs = some s) : Sound env s :=
  (Lts.Run.of_exec h).preserves (fun _ _ _ hs _ h => sound_step hs h) sound_empty

/-- The keys of Fabric, and the lower case of Lean. -/
def fabricEnv : Env where
  keys := separatedKeys
  toLower := String.toLower
  jsonError := fun _ => "unexpected end of JSON input"

/-- A transaction that no call of the peer disturbs. -/
def quiet (function : String) (args : List String) : Transaction where
  function := function
  args := args
  peer := ⟨fun _ => none, fun _ => [], fun _ => [], fun _ => none⟩

/-- The state after one new marble. -/
def oneMarble : Ledger String String :=
  Ledger.after (simulate fabricEnv) (Ledger.empty String String)
    [quiet "initMarble" ["marble1", "Blue", "35", "tom"]]

theorem sound_oneMarble : oneMarble.entries.length = 2 ∧ Sound fabricEnv oneMarble :=
  ⟨by decide +kernel, sound_of_exec (Ledger.exec_lts _ _)⟩

/-- **The index stays complete along a run exactly if no endorsed invocation
    lost its entry.** -/
theorem along_indexed_iff (txs : List Transaction) :
    (system env).Along (fun _ _ t => Indexed env t) (Ledger.empty String String) txs ↔
      (system env).Along (fun s tx _ => Endorsed env s tx → ¬ IndexRefused env tx)
        (Ledger.empty String String) txs := by
  rw [Lts.along_congr (Q := fun _ _ t => Sound env t ∧ Indexed env t)
    (fun _ _ _ hs h => sound_step hs h) (fun s tx t hs h => (and_iff_right (sound_step hs h)).symm)
    sound_empty txs]
  refine Lts.along_iff_of_step (B := fun t => Sound env t ∧ Indexed env t) (fun s tx t hst h => ?_)
    ⟨sound_empty, indexed_empty⟩ txs
  rw [and_iff_right (sound_step hst.1 h)]
  obtain rfl : s.commit (simulate env s tx) = t := Option.some.inj h
  cases hsim : simulate env s tx with
  | error e =>
      refine iff_of_true hst.2 fun ⟨_, hok⟩ => ?_
      rw [hsim] at hok
      cases hok
  | ok out =>
      refine (indexed_simulate_iff hst.1 hst.2 hsim).trans ?_
      exact ⟨fun h _ => h, fun h => h ⟨out, hsim⟩⟩

end Marbles

end Hfrd.Chaincode
