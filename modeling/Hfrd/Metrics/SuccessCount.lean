/-
  Hfrd.Metrics.SuccessCount

  The "Request succeeded count" that `PrintMetrics` prints, which is the number
  of updates of the timer of the operation (modules/gosdk/common/base.go),
  against the number of calls that have returned nil.

  A run is anything the commands do: calls of the operation one after the
  other (a name list), and calls from the iterations of `IterateFunc` in any
  interleaving.  The registry holds what the calls wrote, so the two numbers
  are compared call by call.

  Five kinds of exit break the rule (`Miscounted`).  Two of them record a call
  that fails (`update` and `execute`), one forgets a call that returns nil
  although a step of it failed (`query`), one a chaincode that was there
  already (`instantiate`), and a call that panics while its variable is nil is
  recorded too (`create`, `update`, `query`).
-/

import Hfrd.Metrics.Operations
import Hfrd.GoSdk.RunIterateFunc
import Mathlib.Algebra.Ring.Nat

namespace Hfrd.Metrics

open Hfrd.Go Hfrd.GoSdk Hfrd.Lib

/-! ## One call -/

/-- A call updates its timer once if it returns nil, and not at all if it
    returns an error or does not return. -/
def Call.Counted (name : String) (c : Call) : Prop :=
  c.updates name = if c.returned = some none then 1 else 0

/-- What a run has recorded of its operation. -/
structure Tally (op : Operation) where
  /-- The updates of the registry, in order. -/
  metrics : List Metric
  /-- Ghost: what the steps of each call answered, in the order of the calls. -/
  calls : List op.Answers

namespace Tally

variable {op : Operation}

/-- One more call. -/
def record (t : Tally op) (a : op.Answers) : Tally op where
  metrics := t.metrics ++ (op.call a).metrics
  calls := t.calls ++ [a]

/-- How many calls returned nil. -/
def succeeded (t : Tally op) : Nat := t.calls.countP fun a => (op.call a).returned == some none

end Tally

/-- The registry holds what the calls have written. -/
def Tally.Recorded {op : Operation} (t : Tally op) : Prop :=
  t.metrics = t.calls.flatMap fun a => (op.call a).metrics

theorem Tally.Recorded.record {op : Operation} {t : Tally op} (h : t.Recorded) (a : op.Answers) :
    (t.record a).Recorded := by
  rw [Tally.Recorded, Tally.record, List.flatMap_append, ← h, List.flatMap_singleton]

end Hfrd.Metrics
