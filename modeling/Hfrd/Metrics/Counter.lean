/-
  Hfrd.Metrics.Counter

  One counter of the default registry under any number of workers and pushers
  (`TrackCount` of modules/gosdk/common/base.go, `prometheus` of prompush.go).

  A worker adds to the counter.  A pusher, one for each `Base` and configured
  target, reads the counter, clears it and pushes what it has read; `Inc`,
  `Snapshot` and `Clear` are atomic, but nothing joins the read and the clear.
  What is added between the two is cleared away, and two pushers that read
  before either clears push the same count twice.

  The books are balanced as long as every `Clear` finds the value that its
  `Snapshot` has read, and the first `Clear` that does not unbalances them
  (`counter_conserved_iff`).  A counter of go-metrics is an `int64`; the books
  are kept in its arithmetic.
-/

import Hfrd.Lib.Lts

namespace Hfrd.Metrics

open Hfrd.Lib

/-- Where a pusher is inside `prometheus`. -/
inductive PusherPc
  | idle
  /-- `count := metric.Snapshot().Count()` -/
  | read (count : Int64)
  /-- `metric.Clear()`: the count is in the buffer. -/
  | cleared (count : Int64)
deriving DecidableEq

/-- The counter, the pushers, and what the books are balanced with. -/
structure Books where
  /-- The value of the counter. -/
  counter : Int64
  pushers : List PusherPc
  /-- Ghost: the sum of the counts that the gateway has received. -/
  pushed : Int64
  /-- Ghost: the sum of all increments. -/
  increments : Int64
deriving DecidableEq

/-- A step of a worker, of `NewBase` or of pusher `j`. -/
inductive CounterLabel
  /-- A worker calls `TrackCount`. -/
  | trackCount (increment : Int64)
  /-- `NewBase` starts a `PromPush`. -/
  | promPush
  | snapshot (j : Nat)
  | clear (j : Nat)
  | push (j : Nat)

/-- Pusher `j` moves on to `pc`. -/
def Books.move (s : Books) (j : Nat) (pc : PusherPc) : Books :=
  { s with pushers := s.pushers.set j pc }

/-- One atomic step on the counter; `none` where pusher `j` is not at that
    step. -/
def counterStep (s : Books) : CounterLabel → Option Books
  | .trackCount increment =>
      some { s with
        counter := s.counter + increment
        increments := s.increments + increment }
  | .promPush => some { s with pushers := s.pushers ++ [.idle] }
  | .snapshot j =>
      match s.pushers[j]? with
      | some .idle => some (s.move j (.read s.counter))
      | _ => none
  | .clear j =>
      match s.pushers[j]? with
      | some (.read count) => some { s.move j (.cleared count) with counter := 0 }
      | _ => none
  | .push j =>
      match s.pushers[j]? with
      | some (.cleared count) => some { s.move j .idle with pushed := s.pushed + count }
      | _ => none

/-- The workers and pushers of one counter as a transition system. -/
def counterSystem : Lts Books CounterLabel where
  step := counterStep

/-- A registered counter before its first increment. -/
def Books.initial : Books where
  counter := 0
  pushers := []
  pushed := 0
  increments := 0

/-! ## The books -/

/-- What a pusher has taken out of the counter and not pushed yet.  A count
    that is read and not cleared is still the counter's value. -/
def PusherPc.taken : PusherPc → Int64
  | .cleared count => count
  | .idle | .read _ => 0

/-- Pushed, taken and in the counter: the sum of all increments. -/
def Books.Balanced (s : Books) : Prop :=
  s.pushed + (s.pushers.map PusherPc.taken).sum + s.counter = s.increments

/-- A `Clear` finds the counter as the pusher has read it. -/
def clearsWhatItRead (s : Books) : CounterLabel → Prop
  | .clear j => ∀ count, s.pushers[j]? = some (.read count) → s.counter = count
  | _ => True

/-- What the pushers have taken changes by what the one that moves takes. -/
theorem taken_move (s : Books) {j : Nat} {a : PusherPc} (pc : PusherPc)
    (hj : s.pushers[j]? = some a) :
    ((s.move j pc).pushers.map PusherPc.taken).sum + a.taken
      = (s.pushers.map PusherPc.taken).sum + pc.taken :=
  sum_map_set_add hj

theorem balanced_initial : Books.initial.Balanced := rfl

/-- One step keeps the books balanced exactly when it is no `Clear` of a value
    that has changed since it was read. -/
theorem balanced_step_iff (s : Books) (l : CounterLabel) (t : Books) (hs : s.Balanced)
    (h : counterSystem.step s l = some t) : t.Balanced ↔ clearsWhatItRead s l := by
  unfold Books.Balanced at hs
  cases l with
  | trackCount increment =>
      obtain rfl := Option.some.inj h
      simp only [Books.Balanced, clearsWhatItRead, iff_true]
      grind
  | promPush =>
      obtain rfl := Option.some.inj h
      simp only [Books.Balanced, clearsWhatItRead, iff_true, List.map_append, List.sum_append,
        List.map_cons, List.map_nil, List.sum_cons, List.sum_nil, PusherPc.taken]
      grind
  | snapshot j =>
      simp only [counterSystem, counterStep] at h
      split at h
      case h_1 hj =>
          obtain rfl := Option.some.inj h
          have htaken := taken_move s (.read s.counter) hj
          simp only [PusherPc.taken] at htaken
          simp only [Books.Balanced, clearsWhatItRead, iff_true]
          show s.pushed + ((s.move j _).pushers.map PusherPc.taken).sum + s.counter = s.increments
          grind
      case h_2 => cases h
  | clear j =>
      simp only [counterSystem, counterStep] at h
      split at h
      case h_1 count hj =>
          obtain rfl := Option.some.inj h
          -- the count moves to the pusher, the value of the counter is gone
          have htaken := taken_move s (.cleared count) hj
          simp only [PusherPc.taken] at htaken
          simp only [Books.Balanced, clearsWhatItRead]
          show s.pushed + ((s.move j _).pushers.map PusherPc.taken).sum + 0 = s.increments ↔ _
          constructor
          · intro hbal count' hj'
            rw [hj] at hj'
            cases hj'
            grind
          · intro hread
            have hcount := hread count hj
            grind
      case h_2 => cases h
  | push j =>
      simp only [counterSystem, counterStep] at h
      split at h
      case h_1 count hj =>
          obtain rfl := Option.some.inj h
          have htaken := taken_move s .idle hj
          simp only [PusherPc.taken] at htaken
          simp only [Books.Balanced, clearsWhatItRead, iff_true]
          show s.pushed + count + ((s.move j _).pushers.map PusherPc.taken).sum + s.counter
            = s.increments
          grind
      case h_2 => cases h

/-- **Increments are conserved exactly where no `Clear` meets a changed value.**
    For any number of workers and pushers and every interleaving, the books are
    balanced in every state of a run if and only if each `Clear` of the run
    finds the counter as its pusher has read it. -/
theorem counter_conserved_iff (ls : List CounterLabel) :
    counterSystem.Along (fun _ _ t => t.Balanced) .initial ls ↔
      counterSystem.Along (fun s l _ => clearsWhatItRead s l) .initial ls :=
  Lts.along_iff_of_step balanced_step_iff balanced_initial ls

/-- An increment between the read and the clear is lost. -/
def lostIncrement : List CounterLabel :=
  [.promPush, .trackCount 1, .snapshot 0, .trackCount 1, .clear 0, .push 0]

/-- Two pushers read before either clears. -/
def pushedTwice : List CounterLabel :=
  [.promPush, .promPush, .trackCount 1, .snapshot 0, .snapshot 1, .clear 0, .clear 1, .push 0,
    .push 1]

/-- With every pusher idle and the counter at zero, one of two increments has
    been pushed, or one increment twice. -/
theorem counter_not_conserved :
    counterSystem.exec .initial lostIncrement
        = some { counter := 0, pushers := [.idle], pushed := 1, increments := 2 } ∧
      counterSystem.exec .initial pushedTwice
        = some { counter := 0, pushers := [.idle, .idle], pushed := 2, increments := 1 } := by
  decide

end Hfrd.Metrics
