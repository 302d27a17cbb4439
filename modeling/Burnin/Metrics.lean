/-
What a worker measures itself with (`burnin/metrics/metrics.go`): latencies in
a histogram, the rate over the last 30 ticks, and the peak over any 10 ticks.

The histogram is a library's. All that is said about it is that its readings
are functions of the values recorded since it was last reset. Averages are
rationals, taken exactly.
-/
import Mathlib.Algebra.Order.Field.Rat

namespace Burnin

/-- The readings of the histogram library, of the values recorded. -/
structure Histogram where
  totalCount : List Int → Int
  valueAtQuantile : List Int → ℚ → Int
  totalCount_nil : totalCount [] = 0

/-- The values recorded, in microseconds. -/
structure LatencyAccumulator where
  values : List Int := []
  deriving DecidableEq

structure Percentiles where
  p50 : ℚ := 0
  p95 : ℚ := 0
  p99 : ℚ := 0
  p999 : ℚ := 0
  deriving DecidableEq

namespace LatencyAccumulator

/-- `Record`, of a duration in nanoseconds. -/
def record (a : LatencyAccumulator) (d : Int) : LatencyAccumulator :=
  { values := a.values ++ [d.tdiv 1000] }

/-- `Percentiles`. -/
def percentiles (hist : Histogram) (a : LatencyAccumulator) : Percentiles where
  p50 := hist.valueAtQuantile a.values 50 / 1000
  p95 := hist.valueAtQuantile a.values 95 / 1000
  p99 := hist.valueAtQuantile a.values 99 / 1000
  p999 := hist.valueAtQuantile a.values (999 / 10) / 1000

/-- `Reset`. -/
def reset (_ : LatencyAccumulator) : LatencyAccumulator := {}

/-- `Count`. -/
def count (hist : Histogram) (a : LatencyAccumulator) : Int := hist.totalCount a.values

end LatencyAccumulator

/-- `slidingWindowSize`. -/
def slidingWindowSize : Nat := 30

structure SlidingRateWindow where
  buckets : List Int := .replicate slidingWindowSize 0
  idx : Nat := 0
  total : Int := 0
  ticks : Nat := 0
  deriving DecidableEq

namespace SlidingRateWindow

/-- `Record`. -/
def record (w : SlidingRateWindow) : SlidingRateWindow :=
  { w with buckets := w.buckets.modify w.idx (· + 1), total := w.total + 1 }

/-- `Advance`. -/
def advance (w : SlidingRateWindow) : SlidingRateWindow :=
  let idx := (w.idx + 1) % slidingWindowSize
  { idx
    total := w.total - w.buckets.getD idx 0
    buckets := w.buckets.set idx 0
    ticks := w.ticks + 1 }

/-- `Rate`. -/
def rate (w : SlidingRateWindow) : ℚ :=
  let window := if w.ticks > slidingWindowSize then slidingWindowSize else w.ticks
  if window = 0 then 0 else w.total / window

/-- `Reset`. -/
def reset (w : SlidingRateWindow) : SlidingRateWindow :=
  { buckets := w.buckets.map fun _ => 0, total := 0, idx := 0, ticks := 0 }

end SlidingRateWindow

/-- `peakWindowSize`. -/
def peakWindowSize : Nat := 10

structure PeakRateTracker where
  buckets : List Int := .replicate peakWindowSize 0
  idx : Nat := 0
  peak : ℚ := 0
  deriving DecidableEq

namespace PeakRateTracker

/-- `Record`. -/
def record (p : PeakRateTracker) : PeakRateTracker :=
  { p with buckets := p.buckets.modify p.idx (· + 1) }

/-- `Advance`. -/
def advance (p : PeakRateTracker) : PeakRateTracker :=
  let avg : ℚ := p.buckets.sum / peakWindowSize
  let idx := (p.idx + 1) % peakWindowSize
  { peak := if avg > p.peak then avg else p.peak
    idx
    buckets := p.buckets.set idx 0 }

end PeakRateTracker

end Burnin
