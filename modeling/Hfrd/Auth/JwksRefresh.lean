/-
  Hfrd.Auth.JwksRefresh

  Which copy of the manager is refreshed and which one is read (`NewJwtAuth` of
  api/resource/auth/jwt/jwt.go, `Init` and `updateJWKS` of jwk/types.go).

  `NewJwtAuth` gets the manager by value.  `Init` fills its parameter and
  starts the goroutine that goes on refreshing it; then the parameter is copied
  into the `JwtAuth`, whose `Handler` reads this copy.  No refresh reaches it.
-/

import Hfrd.Auth.Jwt
import Hfrd.Lib.Lts

namespace Hfrd.Auth

open Hfrd.Lib

/-- A value of `IbmJwksManager`: its keys, and whether `once.Do` has run. -/
structure IbmJwksManager where
  keys : List IbmJWK
  once : Bool
deriving DecidableEq

/-- What comes of downloading the keys: no answer, or the keys that
    `json.Unmarshal` leaves, with or without an error. -/
inductive Download
  | failed
  | answered (keys : List IbmJWK)
deriving DecidableEq

/-- The keys after a download, which is not used unless it has at least one. -/
def Download.refresh (keys : List IbmJWK) : Download → List IbmJWK
  | .failed => keys
  | .answered new => if new.length > 0 then new else keys

/-- `updateJWKS` -/
def updateJWKS (manager : IbmJwksManager) (d : Download) : IbmJwksManager :=
  { manager with keys := d.refresh manager.keys }

/-- `Init`, and whether it has started the ticker. -/
def IbmJwksManager.init (manager : IbmJwksManager) (d : Download) : IbmJwksManager × Bool :=
  if manager.once then (manager, false)
  else ({ updateJWKS manager d with once := true }, true)

/-! ## The gate and its goroutine -/

/-- The two copies of the manager that `NewJwtAuth` leaves behind. -/
structure GateState where
  /-- The parameter of `NewJwtAuth`, which the ticker's goroutine points to. -/
  parameter : IbmJwksManager
  ticking : Bool
  /-- The field `manager` of the `JwtAuth`. -/
  manager : IbmJwksManager
  /-- Ghost: the keys of the latest refresh that returned at least one. -/
  latest : List IbmJWK
deriving DecidableEq

/-- What can happen to the gate. -/
inductive GateLabel
  /-- A tick, with what the download gives. -/
  | refresh (d : Download)
  /-- A request at a time, with its header `Authorization`. -/
  | request (now : Int64) (authorization : String)

/-- `NewJwtAuth`. -/
def newJwtAuth (manager : IbmJwksManager) (d : Download) : GateState :=
  let (parameter, ticking) := manager.init d
  -- `&JwtAuth{manager: manager}` copies what `Init` has left
  { parameter := parameter, ticking := ticking, manager := parameter, latest := parameter.keys }

/-- A step of the gate; none where it cannot happen. -/
def gateStep (s : GateState) : GateLabel → Option GateState
  | .refresh d =>
      if s.ticking then
        some { s with parameter := updateJWKS s.parameter d, latest := d.refresh s.latest }
      else none
  -- `j.manager.VerifySig` only reads
  | .request _ _ => some s

/-- The gate, step after step. -/
def gateSystem : Lts GateState GateLabel where
  step := gateStep

/-- The keys in which the `Handler` looks up a `kid`. -/
def GateState.lookedUp (s : GateState) : List IbmJWK := s.manager.keys

/-- The answer to a request. -/
def GateState.reply (s : GateState) (g : Given) (now : Int64) (authorization : String) : Reply :=
  handler g now s.lookedUp authorization

/-- What is to hold of the state in which a request is handled. -/
def atRequest (P : GateState → Prop) (s : GateState) : GateLabel → GateState → Prop
  | .refresh _, _ => True
  | .request _ _, _ => P s

/-! ## The two copies -/

/-- The goroutine's copy follows the refreshes, the gate's copy stays. -/
structure Copies (loaded : List IbmJWK) (s : GateState) : Prop where
  parameter : s.parameter.keys = s.latest
  manager : s.manager.keys = loaded

theorem copies_newJwtAuth (manager : IbmJwksManager) (d : Download) :
    Copies (newJwtAuth manager d).latest (newJwtAuth manager d) :=
  ⟨rfl, rfl⟩

theorem copies_step {loaded : List IbmJWK} (s : GateState) (l : GateLabel) (t : GateState)
    (hs : Copies loaded s) (h : gateSystem.step s l = some t) : Copies loaded t := by
  cases l with
  | refresh d =>
      simp only [gateSystem, gateStep] at h
      split at h
      · obtain rfl := Option.some.inj h
        refine ⟨?_, hs.manager⟩
        show d.refresh s.parameter.keys = d.refresh s.latest
        rw [hs.parameter]
      · cases h
  | request now authorization =>
      obtain rfl := Option.some.inj h
      exact hs

/-- No refresh changes the answer to any request. -/
theorem reply_unchanged (manager : IbmJwksManager) (d : Download) {ls : List GateLabel}
    {t : GateState} (h : gateSystem.exec (newJwtAuth manager d) ls = some t) (g : Given)
    (now : Int64) (authorization : String) :
    t.reply g now authorization = (newJwtAuth manager d).reply g now authorization := by
  have hcopies : Copies (newJwtAuth manager d).latest t :=
    (Lts.Run.of_exec h).preserves (fun s l u hs _ hstep => copies_step s l u hs hstep)
      (copies_newJwtAuth manager d)
  show handler g now t.manager.keys authorization = _
  rw [hcopies.manager]
  rfl

/-- **When refreshes take effect.**  For every manager, first download and
    history of refreshes and requests: each request is checked with the keys of
    the latest refresh that returned any, if and only if, at each request,
    these are the keys that were loaded at the start. -/
theorem refresh_takes_effect_iff (manager : IbmJwksManager) (d : Download)
    (ls : List GateLabel) :
    gateSystem.Along (atRequest fun s => s.lookedUp = s.latest) (newJwtAuth manager d) ls ↔
      gateSystem.Along (atRequest fun s => s.latest = (newJwtAuth manager d).latest)
        (newJwtAuth manager d) ls := by
  refine Lts.along_congr copies_step (fun s l t hs _ => ?_) (copies_newJwtAuth manager d) ls
  cases l with
  | refresh d => exact Iff.rfl
  | request now authorization =>
      show s.manager.keys = s.latest ↔ s.latest = (newJwtAuth manager d).latest
      rw [hs.manager]
      exact eq_comm

/-- The key k1 is replaced by k2; a request after that is still looked up in
    the set with k1. -/
theorem rotated_keys_not_seen :
    gateSystem.exec (newJwtAuth ⟨[], false⟩ (.answered [⟨"AQ", "AQAB", "k1"⟩]))
        [.refresh (.answered [⟨"Ag", "AQAB", "k2"⟩])]
      = some {
          parameter := ⟨[⟨"Ag", "AQAB", "k2"⟩], true⟩
          ticking := true
          manager := ⟨[⟨"AQ", "AQAB", "k1"⟩], true⟩
          latest := [⟨"Ag", "AQAB", "k2"⟩] } ∧
      ¬ gateSystem.Along (atRequest fun s => s.lookedUp = s.latest)
        (newJwtAuth ⟨[], false⟩ (.answered [⟨"AQ", "AQAB", "k1"⟩]))
        [.refresh (.answered [⟨"Ag", "AQAB", "k2"⟩]), .request 150 "Bearer h.p.s"] := by
  refine ⟨by decide, fun h => ?_⟩
  obtain ⟨-, hrequest, -⟩ := h
  have hsame : [(⟨"AQ", "AQAB", "k1"⟩ : IbmJWK)] = [⟨"Ag", "AQAB", "k2"⟩] := hrequest
  exact absurd hsame (by decide)

end Hfrd.Auth
