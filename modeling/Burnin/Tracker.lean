/-
The sequence tracker (`burnin/tracker/tracker.go`), as the code computes it:
sequence numbers, the watermark and the window's words are `UInt64` and wrap,
a `uint64` passed as a bit position goes through `int` (`goInt`), and the map
of suspected losses is a finite set of `UInt64`.

The counters count calls and map entries, one at a time, and are `Nat`. The
mutex makes every method atomic, so a method is a function on the state.
-/
import Mathlib.Data.Finset.Card
import Mathlib.Data.List.AList
import Burnin.Bitset

namespace Burnin

/-- The conversion `int(x)` of a `uint64`. -/
def goInt (x : UInt64) : Int := x.toInt64.toInt

/-- A reorder window the tracker can allocate: `New` takes any `int`, but
`make` panics on a negative length, so `reorderWindow + 63` does not overflow
`int` in any tracker that has recorded something. -/
structure ReorderWindow where
  size : Nat
  pos : 1 ≤ size
  fits : size + 63 < 2 ^ 63

/-- `uint64(t.reorderWindow)`. -/
def ReorderWindow.u64 (w : ReorderWindow) : UInt64 := UInt64.ofNat w.size

/-- `(t.reorderWindow+63)/64`, the length of a producer's window. -/
def ReorderWindow.words (w : ReorderWindow) : Nat := (w.size + 63) / 64

structure ProducerState where
  highContiguous : UInt64
  window : List UInt64
  received : Nat := 0
  duplicates : Nat := 0
  outOfOrder : Nat := 0
  confirmedLost : Nat := 0
  pendingLost : Finset UInt64 := ∅
  lastReportedLost : Nat := 0
  lastSeen : UInt64
  deriving DecidableEq

/-- The map `producers`. -/
abbrev Producers := AList fun _ : String => ProducerState

structure Tracker where
  reorderWindow : ReorderWindow
  producers : Producers

namespace ProducerState

/-- The loop of `advanceContiguous`, which shifts the window while its first
bit is set. -/
def advanceLoop : Nat → ProducerState → ProducerState
  | 0, ps => ps
  | fuel + 1, ps =>
    if getBit ps.window 0 then
      advanceLoop fuel
        { ps with highContiguous := ps.highContiguous + 1, window := shiftLeft ps.window }
    else ps

/-- `advanceContiguous`: a window of `n` words is clear after `64 * n` shifts
(`advanceContiguous_stops`). -/
def advanceContiguous (ps : ProducerState) : ProducerState := advanceLoop (64 * ps.window.length) ps

/-- The first loop of `slideWindow`: of the first `slideDist` positions of the
window, those never seen become suspected. -/
def evict (ps : ProducerState) (slideDist : Nat) : Finset UInt64 :=
  (List.range slideDist).foldl
    (fun pending (i : Nat) =>
      if !getBit ps.window i then insert (ps.highContiguous + 1 + UInt64.ofNat i) pending else pending)
    ps.pendingLost

/-- `if int(offset) < t.reorderWindow { setBit(ps.window, int(offset)) }`. -/
def markOffset (w : ReorderWindow) (ps : ProducerState) (offset : UInt64) : ProducerState :=
  if goInt offset < w.size then { ps with window := setBit ps.window (goInt offset) } else ps

/-- `slideWindow`. -/
def slideWindow (w : ReorderWindow) (ps : ProducerState) (newSeq : UInt64) : ProducerState :=
  let newHigh := newSeq - w.u64 - 1
  if newHigh ≤ ps.highContiguous then
    markOffset w ps (newSeq - ps.highContiguous - 1)
  else
    let dist := newHigh - ps.highContiguous
    let slideDist := if dist > w.u64 then w.u64 else dist
    let pendingLost := evict ps slideDist.toNat
    let slid : ProducerState :=
      { ps with
        pendingLost
        confirmedLost := pendingLost.card
        window := shiftLeft^[slideDist.toNat] ps.window
        highContiguous := newHigh }
    advanceContiguous (markOffset w slid (newSeq - newHigh - 1))

/-- A producer's first arrival. -/
def first (w : ReorderWindow) (seq : UInt64) : ProducerState :=
  advanceContiguous
    { highContiguous := seq - 1
      window := setBit (List.replicate w.words 0) 0
      lastSeen := seq
      received := 1 }

/-- What `Record` does before it looks at the watermark: whether the arrival is
out of order, and the state with its counters. -/
def arrive (ps : ProducerState) (seq : UInt64) : ProducerState × Bool :=
  let isOutOfOrder := seq < ps.lastSeen
  ({ ps with
      received := ps.received + 1
      outOfOrder := if isOutOfOrder then ps.outOfOrder + 1 else ps.outOfOrder
      lastSeen := seq }, isOutOfOrder)

/-- What `Record` does after that, and whether the arrival is a duplicate. -/
def place (w : ReorderWindow) (ps : ProducerState) (seq : UInt64) : ProducerState × Bool :=
  if seq ≤ ps.highContiguous then
    if seq ∈ ps.pendingLost then
      let pendingLost := ps.pendingLost.erase seq
      ({ ps with pendingLost, confirmedLost := pendingLost.card }, false)
    else ({ ps with duplicates := ps.duplicates + 1 }, true)
  else
    let offset := seq - ps.highContiguous - 1
    if offset ≥ w.u64 then (slideWindow w ps seq, false)
    else if getBit ps.window (goInt offset) then ({ ps with duplicates := ps.duplicates + 1 }, true)
    else (advanceContiguous { ps with window := setBit ps.window (goInt offset) }, false)

end ProducerState

/-- The two results of `Record`. -/
structure Recorded where
  isDuplicate : Bool
  isOutOfOrder : Bool
  deriving DecidableEq, Repr

/-- `Record` on the state of its producer, none before the first arrival. -/
def recordProducer (w : ReorderWindow) : Option ProducerState → UInt64 → ProducerState × Recorded
  | .none, seq => (ProducerState.first w seq, ⟨false, false⟩)
  | .some ps, seq =>
    let (ps, isOutOfOrder) := ps.arrive seq
    let (ps, isDuplicate) := ps.place w seq
    (ps, ⟨isDuplicate, isOutOfOrder⟩)

namespace Tracker

/-- `New`. -/
def new (reorderWindow : ReorderWindow) : Tracker := ⟨reorderWindow, ∅⟩

/-- `Record`. -/
def record (t : Tracker) (producerID : String) (seq : UInt64) : Tracker × Recorded :=
  let (ps, r) := recordProducer t.reorderWindow (t.producers.lookup producerID) seq
  ({ t with producers := t.producers.insert producerID ps }, r)

/-- `Reset`. -/
def reset (t : Tracker) : Tracker := { t with producers := ∅ }

/-- `ps.lastReportedLost = current` in the loop of `DetectGaps`. -/
def report (ps : ProducerState) : ProducerState := { ps with lastReportedLost := ps.confirmedLost }

/-- The producers, each changed by `f`. -/
def mapProducers (f : ProducerState → ProducerState) (m : Producers) : Producers where
  entries := m.entries.map fun e => ⟨e.1, f e.2⟩
  nodupKeys := by
    have : List.keys (m.entries.map fun e => (⟨e.1, f e.2⟩ : Sigma fun _ => ProducerState)) =
        m.keys := by
      simp [List.keys, AList.keys, Function.comp_def]
    rw [List.NodupKeys, this]
    exact m.keys_nodup

/-- `DetectGaps`: the positive deltas, in the order of iteration. -/
def detectGaps (t : Tracker) : Tracker × List (String × Nat) :=
  ({ t with producers := mapProducers report t.producers },
    t.producers.entries.filterMap fun e =>
      if e.2.confirmedLost > e.2.lastReportedLost then
        .some (e.1, e.2.confirmedLost - e.2.lastReportedLost)
      else .none)

/-- `sum`. -/
def sum (t : Tracker) (f : ProducerState → Nat) : Nat := (t.producers.entries.map fun e => f e.2).sum

def totalLost (t : Tracker) : Nat := t.sum (·.confirmedLost)
def totalOutOfOrder (t : Tracker) : Nat := t.sum (·.outOfOrder)

end Tracker

end Burnin
