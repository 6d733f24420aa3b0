/-
  Hfrd.GoSdk.IterateFunc

  `IterateFunc` of modules/gosdk/common/utility.go as a transition system.

  One thread is the caller of `IterateFunc`: the dispatch loop, then the
  deferred clean-up.  Every `go goFunc(..)` adds a goroutine, which calls
  `iterFunc`, counts the outcome, offers an error to `errChan`, signals the
  wait group and gives its token back.  A step of the system is one step of
  one thread, so all interleavings are runs.

  `iterFunc` itself is a parameter (`IterFunc`): a thread over a shared state
  that ends with a Go error.  What holds of `IterateFunc` holds whatever the
  iterations do; the operations of the modules (chaincode invoke and so on)
  are instances.
-/

import Hfrd.Lib.Lts
import Hfrd.Go.Strconv

namespace Hfrd.GoSdk

open Hfrd.Go Hfrd.Lib

/-- The upper limit `SetRoutineLimit` accepts. -/
def ROUTINE_UPPER_LIMIT : Int := 2000

/-- The value of the variable `routineLimit` before any flag is read. -/
def DEFAULT_ROUTINE_LIMIT : Nat := 500

/-- What the text of an error must contain for the error not to be reported. -/
def IGNORED_ERRORS : List String := ["MVCC_READ_CONFLICT"]

/-- The text of `err` contains an entry of `IGNORED_ERRORS`. -/
def ignoredError (err : String) : Bool := IGNORED_ERRORS.any (contains err)

/-- `errors.WithMessage` -/
def withMessage (message : String) (err : GoError) : GoError :=
  err.map fun e => message ++ ": " ++ e

/-- `SetRoutineLimit`: the new value of the variable `routineLimit`. -/
def setRoutineLimit (routineLimit : Nat) (num : Int) : Nat :=
  if num < 0 then routineLimit
  else if num > ROUTINE_UPPER_LIMIT then routineLimit
  else num.toNat

/-- The packages that gosdk imports under the name `viper`.  Each has a global
    configuration of its own. -/
inductive ViperPackage
  /-- `github.com/spf13/viper`, the one of `main.go` and of the commands. -/
  | spf13
  /-- `github.com/xixuejia/viper`, the one of `utility.go`. -/
  | xixuejia
deriving DecidableEq

/-- `viper.GetString(IGNORE_ERRORS)` in a gosdk started with the value
    `ignoreErrors` of the flag.  `main` binds the flag in `spf13/viper` alone;
    in the other package nothing sets the key, and such a key reads as the
    empty string. -/
def ViperPackage.getIgnoreErrors (viper : ViperPackage) (ignoreErrors : String) : String :=
  match viper with
  | .spf13 => ignoreErrors
  | .xixuejia => ""

/-- The function run by each iteration, as atomic steps over a state shared by
    the iterations.  `Choice` resolves what the step cannot decide itself (an
    answer from the network, a random draw); a call ends with a Go error. -/
structure IterFunc (Shared Local Choice : Type) where
  entry : Int64 → Local
  step : Shared → Local → Choice → Option (Shared × (Local ⊕ GoError))

/-- What a call of `IterateFunc` depends on besides `base.currentIter`:
    its arguments, the fields of `base`, the value of the flag `ignoreErrors`
    and the global `routineLimit`. -/
structure Config (Shared Local Choice : Type) where
  iterFunc : IterFunc Shared Local Choice
  sequential : Bool
  routineLimit : Nat
  ignoreErrors : String
  iterationCount : String
  parseDuration : String → Option Int64

/-- Where a goroutine of `goFunc` is. -/
inductive Pc (Local : Type)
  | start
  | call (l : Local)
  /-- `iterFunc` has returned; the counters are not updated yet. -/
  | count (err : GoError)
  /-- At the non-blocking send of an error that is not ignored. -/
  | send (err : String)
  /-- In the deferred function, at `wg.Done()`. -/
  | done (err : GoError)
  /-- In the deferred function, at `<-throttle`. -/
  | release (err : GoError)
  | exited (err : GoError)
deriving DecidableEq

/-- A goroutine of `goFunc`: its iteration index and where it is. -/
structure Goroutine (Local : Type) where
  index : Int64
  pc : Pc Local
deriving DecidableEq

/-- Where the caller is: the dispatch loop up to `select`, then the deferred
    function. -/
inductive LoopPc
  | check | acquire | add | spawn | wait | select
  | deferWait | drain | closeThrottle | closeErrChan | returned
deriving DecidableEq

/-- The local variables of a call of `IterateFunc`, the state `iterFunc` works
    on and the goroutines the call has started. -/
structure State (Shared Local : Type) where
  shared : Shared
  pc : LoopPc
  currentIter : Int64
  errChan : List String
  throttle : Nat
  throttleClosed : Bool
  errChanClosed : Bool
  wg : Nat
  successCount : UInt64
  failCount : UInt64
  retErr : GoError
  goroutines : List (Goroutine Local)
  /-- Ghost: the indices passed to `iterFunc`, in the order of the calls. -/
  calls : List Int64
  /-- Ghost: the outcome of each call that has returned, with its index. -/
  returns : List (Int64 × GoError)

/-- Who moves: the caller (told what it finds on `timer.C`) or goroutine `j`. -/
inductive Label (Choice : Type)
  | loop (timerFired : Bool)
  | go (j : Nat) (choice : Choice)

variable {Shared Local Choice : Type}

namespace Config

variable (cfg : Config Shared Local Choice)

/-- The capacity of `errChan` and `throttle`. -/
def limit : Nat := if cfg.sequential then 1 else cfg.routineLimit

/-- `utility.go` reads the flag in the package in which it is not bound. -/
def ignoring : Bool :=
  upperIsTrue (ViperPackage.xixuejia.getIgnoreErrors cfg.ignoreErrors)

/-- Whatever the flag is, `IterateFunc` does not find it set. -/
theorem ignoring_eq_false : cfg.ignoring = false := rfl

end Config

/-- The state in which `IterateFunc` is called with `base.currentIter = c0`. -/
def State.initial (shared : Shared) (c0 : Int64) : State Shared Local where
  shared := shared
  pc := .check
  currentIter := c0
  errChan := []
  throttle := 0
  throttleClosed := false
  errChanClosed := false
  wg := 0
  successCount := 0
  failCount := 0
  retErr := none
  goroutines := []
  calls := []
  returns := []

/-- One step of the caller of `IterateFunc`; `none` where it is blocked or has
    returned. -/
def loopStep (cfg : Config Shared Local Choice) (s : State Shared Local)
    (timerFired : Bool) : Option (State Shared Local) :=
  match s.pc with
  | .check =>
      -- an integer count, else a duration, else an error
      match atoi cfg.iterationCount with
      | some iterationCount =>
          if s.currentIter < iterationCount then some { s with pc := .acquire }
          else some { s with pc := .deferWait }
      | none =>
          match cfg.parseDuration cfg.iterationCount with
          | some _ =>
              if timerFired then some { s with pc := .deferWait }
              else some { s with pc := .acquire }
          | none =>
              some { s with
                retErr := some ("Error parsing iterationCount: " ++ cfg.iterationCount)
                pc := .deferWait }
  | .acquire =>
      if s.throttle < cfg.limit then some { s with throttle := s.throttle + 1, pc := .add }
      else none
  | .add => some { s with wg := s.wg + 1, pc := .spawn }
  | .spawn =>
      some { s with goroutines := s.goroutines ++ [⟨s.currentIter, .start⟩], pc := .wait }
  -- `base.Wait()` only lets time pass
  | .wait => some { s with pc := .select }
  | .select =>
      match s.errChan with
      | err :: rest =>
          if cfg.ignoring then
            some { s with errChan := rest, currentIter := s.currentIter + 1, pc := .check }
          else some { s with errChan := rest, retErr := some err, pc := .deferWait }
      | [] => some { s with currentIter := s.currentIter + 1, pc := .check }
  | .deferWait => if s.wg = 0 then some { s with pc := .drain } else none
  | .drain =>
      -- the loop over `errChan` ends at the first error that is not ignored
      match s.errChan with
      | err :: rest =>
          if cfg.ignoring then some { s with errChan := rest }
          else some { s with errChan := rest, retErr := some err, pc := .closeThrottle }
      | [] => some { s with pc := .closeThrottle }
  | .closeThrottle => some { s with throttleClosed := true, pc := .closeErrChan }
  | .closeErrChan => some { s with errChanClosed := true, pc := .returned }
  | .returned => none

/-- Goroutine `j` moves on to `pc`. -/
def State.move (s : State Shared Local) (j : Nat) (g : Goroutine Local) (pc : Pc Local) :
    State Shared Local :=
  { s with goroutines := s.goroutines.set j { g with pc := pc } }

/-- One step of goroutine `j`. -/
def goStep (cfg : Config Shared Local Choice) (s : State Shared Local) (j : Nat)
    (g : Goroutine Local) (choice : Choice) : Option (State Shared Local) :=
  match g.pc with
  | .start =>
      some { s.move j g (.call (cfg.iterFunc.entry g.index)) with calls := s.calls ++ [g.index] }
  | .call l =>
      match cfg.iterFunc.step s.shared l choice with
      | some (shared, .inl l') => some { s.move j g (.call l') with shared := shared }
      | some (shared, .inr err) =>
          some { s.move j g (.count err) with
            shared := shared
            returns := s.returns ++ [(g.index, err)] }
      | none => none
  | .count none =>
      some { s.move j g (.done none) with successCount := s.successCount + 1 }
  | .count (some err) =>
      some { s.move j g (if ignoredError err then .done (some err) else .send err) with
        failCount := s.failCount + 1 }
  | .send err =>
      -- a full `errChan` takes the default branch: the error is dropped
      some { s.move j g (.done (some err)) with
        errChan := if s.errChan.length < cfg.limit then s.errChan ++ [err] else s.errChan }
  | .done err => some { s.move j g (.release err) with wg := s.wg - 1 }
  | .release err =>
      -- a receive from the closed channel does not block
      if 0 < s.throttle then some { s.move j g (.exited err) with throttle := s.throttle - 1 }
      else if s.throttleClosed then some (s.move j g (.exited err))
      else none
  | .exited _ => none

/-- One step of one thread of a call of `IterateFunc`. -/
def iterateStep (cfg : Config Shared Local Choice) (s : State Shared Local) :
    Label Choice → Option (State Shared Local)
  | .loop timerFired => loopStep cfg s timerFired
  | .go j choice =>
      match s.goroutines[j]? with
      | some g => goStep cfg s j g choice
      | none => none

/-- `IterateFunc` as a transition system. -/
def iterateFunc (cfg : Config Shared Local Choice) :
    Lts (State Shared Local) (Label Choice) where
  step := iterateStep cfg

/-! ## What one step can do -/

/-- The steps of the caller. -/
inductive LoopStep (cfg : Config Shared Local Choice) (s : State Shared Local) :
    State Shared Local → Prop
  | countMore (n : Int64) : s.pc = .check → atoi cfg.iterationCount = some n →
      s.currentIter < n → LoopStep cfg s { s with pc := .acquire }
  | countEnd (n : Int64) : s.pc = .check → atoi cfg.iterationCount = some n →
      ¬ s.currentIter < n → LoopStep cfg s { s with pc := .deferWait }
  | timeMore : s.pc = .check → atoi cfg.iterationCount = none →
      LoopStep cfg s { s with pc := .acquire }
  | timeEnd : s.pc = .check → atoi cfg.iterationCount = none →
      LoopStep cfg s { s with pc := .deferWait }
  | unparsed (err : String) : s.pc = .check → atoi cfg.iterationCount = none →
      LoopStep cfg s { s with retErr := some err, pc := .deferWait }
  | acquire : s.pc = .acquire → s.throttle < cfg.limit →
      LoopStep cfg s { s with throttle := s.throttle + 1, pc := .add }
  | add : s.pc = .add → LoopStep cfg s { s with wg := s.wg + 1, pc := .spawn }
  | spawn : s.pc = .spawn →
      LoopStep cfg s
        { s with goroutines := s.goroutines ++ [⟨s.currentIter, .start⟩], pc := .wait }
  | wait : s.pc = .wait → LoopStep cfg s { s with pc := .select }
  | next (rest : List String) : s.pc = .select →
      (s.errChan = rest ∨ ∃ err, s.errChan = err :: rest ∧ cfg.ignoring = true) →
      LoopStep cfg s { s with errChan := rest, currentIter := s.currentIter + 1, pc := .check }
  | breakLoop (err : String) (rest : List String) : s.pc = .select →
      s.errChan = err :: rest → cfg.ignoring = false →
      LoopStep cfg s { s with errChan := rest, retErr := some err, pc := .deferWait }
  | waited : s.pc = .deferWait → s.wg = 0 → LoopStep cfg s { s with pc := .drain }
  | drainIgnored (err : String) (rest : List String) : s.pc = .drain →
      s.errChan = err :: rest → cfg.ignoring = true →
      LoopStep cfg s { s with errChan := rest, pc := .drain }
  | drainError (err : String) (rest : List String) : s.pc = .drain →
      s.errChan = err :: rest → cfg.ignoring = false →
      LoopStep cfg s { s with errChan := rest, retErr := some err, pc := .closeThrottle }
  | drained : s.pc = .drain → s.errChan = [] → LoopStep cfg s { s with pc := .closeThrottle }
  | closeThrottle : s.pc = .closeThrottle →
      LoopStep cfg s { s with throttleClosed := true, pc := .closeErrChan }
  | closeErrChan : s.pc = .closeErrChan →
      LoopStep cfg s { s with errChanClosed := true, pc := .returned }

/-- The steps of a goroutine `g` at position `j`. -/
inductive GoStep (cfg : Config Shared Local Choice) (s : State Shared Local) (j : Nat)
    (g : Goroutine Local) : State Shared Local → Prop
  | start : g.pc = .start →
      GoStep cfg s j g
        { s.move j g (.call (cfg.iterFunc.entry g.index)) with calls := s.calls ++ [g.index] }
  | body (l l' : Local) (choice : Choice) (shared : Shared) : g.pc = .call l →
      cfg.iterFunc.step s.shared l choice = some (shared, .inl l') →
      GoStep cfg s j g { s.move j g (.call l') with shared := shared }
  | returns (l : Local) (choice : Choice) (shared : Shared) (err : GoError) : g.pc = .call l →
      cfg.iterFunc.step s.shared l choice = some (shared, .inr err) →
      GoStep cfg s j g
        { s.move j g (.count err) with
          shared := shared
          returns := s.returns ++ [(g.index, err)] }
  | success : g.pc = .count none →
      GoStep cfg s j g { s.move j g (.done none) with successCount := s.successCount + 1 }
  | fail (err : String) (pc : Pc Local) : g.pc = .count (some err) →
      pc = (if ignoredError err then .done (some err) else .send err) →
      GoStep cfg s j g { s.move j g pc with failCount := s.failCount + 1 }
  | send (err : String) (errChan : List String) : g.pc = .send err →
      errChan = (if s.errChan.length < cfg.limit then s.errChan ++ [err] else s.errChan) →
      GoStep cfg s j g { s.move j g (.done (some err)) with errChan := errChan }
  | done (err : GoError) : g.pc = .done err →
      GoStep cfg s j g { s.move j g (.release err) with wg := s.wg - 1 }
  | release (err : GoError) : g.pc = .release err → 0 < s.throttle →
      GoStep cfg s j g { s.move j g (.exited err) with throttle := s.throttle - 1 }
  | releaseClosed (err : GoError) : g.pc = .release err → s.throttle = 0 →
      s.throttleClosed = true → GoStep cfg s j g (s.move j g (.exited err))

/-- Inversion of `loopStep`. -/
theorem loopStep_inv {cfg : Config Shared Local Choice} {s t : State Shared Local}
    {timerFired : Bool} (h : loopStep cfg s timerFired = some t) : LoopStep cfg s t := by
  cases hpc : s.pc with
  -- the count is a number, a duration, or neither
  | check =>
      simp only [loopStep, hpc] at h
      cases hn : atoi cfg.iterationCount with
      | some n =>
          simp only [hn] at h
          split at h <;> (cases h)
          · exact .countMore n hpc hn ‹_›
          · exact .countEnd n hpc hn ‹_›
      | none =>
          simp only [hn] at h
          split at h
          · split at h <;> (cases h)
            · exact .timeEnd hpc hn
            · exact .timeMore hpc hn
          · cases h
            exact .unparsed _ hpc hn
  | acquire =>
      simp only [loopStep, hpc] at h
      split at h <;> (cases h)
      exact .acquire hpc ‹_›
  | add =>
      simp only [loopStep, hpc] at h
      cases h
      exact .add hpc
  | spawn =>
      simp only [loopStep, hpc] at h
      cases h
      exact .spawn hpc
  | wait =>
      simp only [loopStep, hpc] at h
      cases h
      exact .wait hpc
  -- an error that is waiting ends the loop, unless it is to be ignored
  | select =>
      simp only [loopStep, hpc] at h
      split at h
      · rename_i err rest he
        split at h <;> (cases h)
        · exact .next rest hpc (Or.inr ⟨err, he, ‹_›⟩)
        · exact .breakLoop err rest hpc he (Bool.eq_false_iff.mpr ‹_›)
      · cases h
        exact .next s.errChan hpc (Or.inl rfl)
  | deferWait =>
      simp only [loopStep, hpc] at h
      split at h <;> (cases h)
      exact .waited hpc ‹_›
  -- the deferred function keeps the last error it finds
  | drain =>
      simp only [loopStep, hpc] at h
      split at h
      · rename_i err rest he
        split at h <;> (cases h)
        · exact .drainIgnored err rest hpc he ‹_›
        · exact .drainError err rest hpc he (Bool.eq_false_iff.mpr ‹_›)
      · cases h
        exact .drained hpc ‹_›
  | closeThrottle =>
      simp only [loopStep, hpc] at h
      cases h
      exact .closeThrottle hpc
  | closeErrChan =>
      simp only [loopStep, hpc] at h
      cases h
      exact .closeErrChan hpc
  | returned => simp [loopStep, hpc] at h

/-- Inversion of `goStep`. -/
theorem goStep_inv {cfg : Config Shared Local Choice} {s t : State Shared Local} {j : Nat}
    {g : Goroutine Local} {choice : Choice} (h : goStep cfg s j g choice = some t) :
    GoStep cfg s j g t := by
  cases hpc : g.pc with
  | start =>
      simp only [goStep, hpc] at h
      cases h
      exact .start hpc
  | call l =>
      simp only [goStep, hpc] at h
      split at h <;> (cases h)
      · exact .body l _ choice _ hpc ‹_›
      · exact .returns l choice _ _ hpc ‹_›
  -- the outcome of the call decides what is counted and what is sent
  | count err =>
      cases err with
      | none =>
          simp only [goStep, hpc] at h
          cases h
          exact .success hpc
      | some err =>
          simp only [goStep, hpc] at h
          cases h
          exact .fail err _ hpc rfl
  | send err =>
      simp only [goStep, hpc] at h
      cases h
      exact .send err _ hpc rfl
  | done err =>
      simp only [goStep, hpc] at h
      cases h
      exact .done err hpc
  -- a receive from an empty channel waits, unless the channel is closed
  | release err =>
      simp only [goStep, hpc] at h
      split at h
      · cases h
        exact .release err hpc ‹_›
      · split at h <;> (cases h)
        exact .releaseClosed err hpc (by omega) ‹_›
  | exited err => simp [goStep, hpc] at h

/-- Every step of the system is a step of the caller or of one goroutine. -/
theorem iterateStep_inv {cfg : Config Shared Local Choice} {s t : State Shared Local}
    {l : Label Choice} (h : (iterateFunc cfg).step s l = some t) :
    LoopStep cfg s t ∨ ∃ j g, s.goroutines[j]? = some g ∧ GoStep cfg s j g t := by
  cases l with
  | loop timerFired => exact Or.inl (loopStep_inv h)
  | go j choice =>
      simp only [iterateFunc, iterateStep] at h
      split at h
      · exact Or.inr ⟨j, _, ‹_›, goStep_inv h⟩
      · cases h

end Hfrd.GoSdk
