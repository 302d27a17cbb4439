/-
The two rate meters of a worker over whole histories of calls
(`SlidingRateWindow` and `PeakRateTracker` of `burnin/metrics/metrics.go`).

Both count `Record` calls in a ring of buckets, one for each tick, and `Advance`
ends a tick. A tick is named by the number of `Advance` calls before it, so the
open one is `advances`. `Metered` says that a ring holds the counts of the last
ticks (`Rotating.Holds`); everything else about the meters follows from it.

* `SlidingRateWindow.after_ring`: the running total is what the ring holds;
* `PeakRateTracker.peak_eq_window_maximum`: the peak is the largest average over
  ten ticks;
* `SlidingRateWindow.rate_eq_completed_iff`: the rate read right after `Advance`
  is the average over the last completed ticks for as long as the ring has not
  wrapped. From then on the ring has one completed tick less than the rate is
  divided by.

`ChannelRun.meters` says which calls the run of a channel makes, and
`actualRate_eq` and `captured_peakRate_isGreatest` what the engine reports of a
group of them.
-/
import Mathlib.Algebra.BigOperators.Intervals
import Burnin.Lib.Past
import Burnin.Lib.Rotating
import Burnin.Group
import Burnin.RpcFacts

namespace Burnin

/-- The calls that both meters have. -/
inductive MeterCall where
  | record | advance
  deriving DecidableEq, Repr

namespace MeterCall

def advances (H : List MeterCall) : Nat := H.count .advance

/-- The tick of every `Record` call: how many `Advance` calls came before it. -/
def stamps (H : List MeterCall) : List Nat :=
  Past.collect (fun H call => if call = .record then [advances H] else []) H

/-- How many `Record` calls came after the `lo`-th `Advance` call, the start if
`lo` is 0, and before the `hi`-th. -/
def recordsBetween (H : List MeterCall) (lo hi : Nat) : Nat :=
  (stamps H).countP fun tick => decide (lo ≤ tick ∧ tick < hi)

@[simp] theorem advances_nil : advances [] = 0 := rfl

@[simp] theorem advances_snoc_record (H : List MeterCall) : advances (H ++ [.record]) = advances H := by
  simp [advances]

@[simp] theorem advances_snoc_advance (H : List MeterCall) :
    advances (H ++ [.advance]) = advances H + 1 := by
  simp [advances]

@[simp] theorem stamps_nil : stamps [] = [] := rfl

@[simp] theorem stamps_snoc_record (H : List MeterCall) :
    stamps (H ++ [.record]) = stamps H ++ [advances H] := by
  rw [stamps, Past.collect_snoc]
  rfl

@[simp] theorem stamps_snoc_advance (H : List MeterCall) : stamps (H ++ [.advance]) = stamps H := by
  rw [stamps, Past.collect_snoc]
  exact List.append_nil _

theorem length_stamps (H : List MeterCall) : (stamps H).length = H.count .record := by
  induction H using List.reverseRecOn with
  | nil => rfl
  | append_singleton H call ih => cases call <;> simp [ih]

theorem le_advances_of_mem_stamps {H : List MeterCall} {tick : Nat} (h : tick ∈ stamps H) :
    tick ≤ advances H := by
  induction H using List.reverseRecOn with
  | nil => simp at h
  | append_singleton H call ih =>
    cases call with
    | record =>
      rw [stamps_snoc_record, List.mem_append, List.mem_singleton] at h
      rw [advances_snoc_record]
      exact h.elim ih Nat.le_of_eq
    | advance =>
      rw [stamps_snoc_advance] at h
      rw [advances_snoc_advance]
      exact Nat.le_succ_of_le (ih h)

theorem advances_append (H K : List MeterCall) : advances (H ++ K) = advances H + advances K := by
  simp [advances]

theorem stamps_append (H K : List MeterCall) :
    stamps (H ++ K) = stamps H ++ (stamps K).map (advances H + ·) := by
  induction K using List.reverseRecOn with
  | nil => simp
  | append_singleton K call ih =>
    rw [← List.append_assoc]
    cases call with
    | record =>
      rw [stamps_snoc_record, stamps_snoc_record, ih, advances_append, List.map_append,
        List.append_assoc]
      rfl
    | advance => rw [stamps_snoc_advance, stamps_snoc_advance, ih]

/-! ### Record calls between two ticks -/

@[simp] theorem recordsBetween_snoc_advance (H : List MeterCall) (lo hi : Nat) :
    recordsBetween (H ++ [.advance]) lo hi = recordsBetween H lo hi := by
  rw [recordsBetween, stamps_snoc_advance, recordsBetween]

theorem recordsBetween_snoc_record {H : List MeterCall} (lo : Nat) {hi : Nat} (h : hi ≤ advances H) :
    recordsBetween (H ++ [.record]) lo hi = recordsBetween H lo hi := by
  have hout : ¬ (lo ≤ advances H ∧ advances H < hi) := by omega
  rw [recordsBetween, stamps_snoc_record, List.countP_append, recordsBetween]
  simp [hout]

theorem recordsBetween_eq_sum (H : List MeterCall) (lo hi : Nat) :
    recordsBetween H lo hi = ∑ tick ∈ Finset.Ico lo hi, (stamps H).count tick := by
  unfold recordsBetween
  induction stamps H with
  | nil => simp
  | cons tick ticks ih =>
    simp only [List.countP_cons, List.count_cons, Finset.sum_add_distrib, ih]
    simp [Finset.sum_ite_eq]

theorem recordsBetween_add (H : List MeterCall) {lo mid hi : Nat} (h₁ : lo ≤ mid) (h₂ : mid ≤ hi) :
    recordsBetween H lo hi = recordsBetween H lo mid + recordsBetween H mid hi := by
  simp only [recordsBetween_eq_sum]
  exact (Finset.sum_Ico_consecutive _ h₁ h₂).symm

theorem recordsBetween_of_advances_lt {H : List MeterCall} {lo : Nat} (h : advances H < lo) (hi : Nat) :
    recordsBetween H lo hi = 0 := by
  rw [recordsBetween, List.countP_eq_zero]
  intro tick htick
  have := le_advances_of_mem_stamps htick
  simp only [decide_eq_true_eq]
  omega

theorem recordsBetween_zero {H : List MeterCall} {hi : Nat} (h : advances H < hi) :
    recordsBetween H 0 hi = H.count .record := by
  rw [recordsBetween, ← length_stamps, List.countP_eq_length]
  intro tick htick
  have := le_advances_of_mem_stamps htick
  simp only [decide_eq_true_eq]
  omega

theorem recordsBetween_append (H K : List MeterCall) (lo hi : Nat) :
    recordsBetween (H ++ K) lo hi =
      recordsBetween H lo hi + recordsBetween K (lo - advances H) (hi - advances H) := by
  unfold recordsBetween
  rw [stamps_append, List.countP_append, List.countP_map]
  congr 2
  funext tick
  simp only [Function.comp_apply, decide_eq_decide]
  omega

theorem recordsBetween_advance_cons (H K : List MeterCall) :
    recordsBetween (H ++ .advance :: K) (advances H + 1) (advances H + advances K + 2) =
      K.count .record := by
  have h : H ++ .advance :: K = (H ++ [.advance]) ++ K := by simp
  rw [h, recordsBetween_append, advances_snoc_advance, recordsBetween_snoc_advance,
    recordsBetween_of_advances_lt (Nat.lt_succ_self _), Nat.zero_add, Nat.sub_self,
    recordsBetween_zero (by omega)]

theorem exists_advance_cons {H : List MeterCall} {k : Nat} (h : k < advances H) :
    ∃ H₁ H₂, H = H₁ ++ .advance :: H₂ ∧ advances H₂ = k := by
  induction H with
  | nil => exact absurd h (Nat.not_lt_zero k)
  | cons call H ih =>
    by_cases hk : k < advances H
    · obtain ⟨H₁, H₂, hH, hcount⟩ := ih hk
      exact ⟨call :: H₁, H₂, congrArg (call :: ·) hH, hcount⟩
    · cases call with
      | record => exact absurd (by simpa [advances] using h) hk
      | advance =>
        have hlast : advances (.advance :: H) = advances H + 1 := by simp [advances]
        exact ⟨[], H, rfl, by omega⟩

end MeterCall

open MeterCall

/-! ## One ring -/

/-- A ring of `n` buckets at `idx`, after the calls `H`: it holds the counts of
the last `n` ticks. -/
structure Metered (n : Nat) (H : List MeterCall) (buckets : List Int) (idx : Nat) : Prop where
  holds : Rotating.Holds n (fun tick => ((stamps H).count tick : Int)) (advances H) buckets
  idx_eq : idx = advances H % n

namespace Metered

variable {n idx : Nat} {H : List MeterCall} {buckets : List Int}

theorem nil (hn : 0 < n) : Metered n [] (.replicate n 0) 0 where
  holds := .replicate hn
  idx_eq := (Nat.zero_mod n).symm

theorem record (h : Metered n H buckets idx) :
    Metered n (H ++ [.record]) (buckets.modify idx (· + 1)) idx where
  holds := by
    have hcount : (fun tick => ((stamps (H ++ [.record])).count tick : Int)) =
        Function.update (fun tick => ((stamps H).count tick : Int)) (advances H)
          ((stamps H).count (advances H) + 1) := by
      funext tick
      rw [stamps_snoc_record, List.count_append, List.count_singleton]
      by_cases ht : tick = advances H
      · simp [ht]
      · simp [ht, Ne.symm ht]
    rw [advances_snoc_record, hcount, h.idx_eq]
    exact h.holds.modify (· + 1)
  idx_eq := by rw [advances_snoc_record, h.idx_eq]

theorem advance (h : Metered n H buckets idx) :
    Metered n (H ++ [.advance]) (buckets.set ((idx + 1) % n) 0) ((idx + 1) % n) := by
  have hidx : (idx + 1) % n = advances (H ++ [.advance]) % n := by
    rw [h.idx_eq, advances_snoc_advance, Nat.mod_add_mod]
  refine ⟨?_, hidx⟩
  rw [hidx, stamps_snoc_advance, advances_snoc_advance]
  exact h.holds.rotate

theorem idx_lt (h : Metered n H buckets idx) : idx < n := by
  rw [h.idx_eq]
  exact Nat.mod_lt _ h.holds.pos

theorem sum (h : Metered n H buckets idx) :
    buckets.sum = (recordsBetween H (advances H + 1 - n) (advances H + 1) : Nat) := by
  rw [h.holds.sum, recordsBetween_eq_sum, Nat.cast_sum]

/-- No bucket is negative or more than what was recorded in all. -/
theorem bucket_bounds (h : Metered n H buckets idx) {x : Int} (hx : x ∈ buckets) :
    0 ≤ x ∧ x ≤ H.count .record := by
  obtain ⟨tick, rfl⟩ := h.holds.exists_of_mem hx
  have hle : (stamps H).count tick ≤ H.count .record := (length_stamps H) ▸ List.count_le_length
  exact ⟨Int.natCast_nonneg _, Int.ofNat_le.mpr hle⟩

end Metered

/-! ## The sliding window -/

/-- The calls of a `SlidingRateWindow`. -/
inductive WindowCall where
  | meter (call : MeterCall)
  | reset
  deriving DecidableEq, Repr

/-- The calls made since the last `Reset` call. -/
def callsSinceReset (H : List WindowCall) : List MeterCall :=
  H.foldl (fun L call =>
    match call with
    | .meter call => L ++ [call]
    | .reset => []) []

@[simp] theorem callsSinceReset_snoc_meter (H : List WindowCall) (call : MeterCall) :
    callsSinceReset (H ++ [.meter call]) = callsSinceReset H ++ [call] := by
  simp [callsSinceReset]

@[simp] theorem callsSinceReset_snoc_reset (H : List WindowCall) :
    callsSinceReset (H ++ [.reset]) = [] := by
  simp [callsSinceReset]

theorem callsSinceReset_map_meter (L : List MeterCall) : callsSinceReset (L.map .meter) = L := by
  induction L using List.reverseRecOn with
  | nil => rfl
  | append_singleton L call ih =>
    rw [List.map_append, List.map_singleton, callsSinceReset_snoc_meter, ih]

namespace SlidingRateWindow

def call (w : SlidingRateWindow) : WindowCall → SlidingRateWindow
  | .meter .record => w.record
  | .meter .advance => w.advance
  | .reset => w.reset

/-- A new window after the calls `H`. -/
def after (H : List WindowCall) : SlidingRateWindow := H.foldl call {}

theorem after_snoc (H : List WindowCall) (c : WindowCall) : after (H ++ [c]) = (after H).call c := by
  simp [after]

/-- The window after the calls `L`, none of them `Reset`. -/
structure Counts (w : SlidingRateWindow) (L : List MeterCall) : Prop where
  metered : Metered slidingWindowSize L w.buckets w.idx
  ticks : w.ticks = advances L
  total : w.total = w.buckets.sum

namespace Counts

variable {w : SlidingRateWindow} {L : List MeterCall}

theorem new : Counts {} [] where
  metered := .nil (by decide)
  ticks := rfl
  total := rfl

theorem record (h : w.Counts L) : w.record.Counts (L ++ [.record]) where
  metered := h.metered.record
  ticks := by rw [advances_snoc_record]; exact h.ticks
  total := by
    have hidx : w.idx < w.buckets.length := h.metered.idx_lt.trans_eq h.metered.holds.length.symm
    show w.total + 1 = (w.buckets.modify w.idx (· + 1)).sum
    rw [List.modify_eq_set_getElem?, h.total]
    simp [hidx, List.sum_set']

theorem advance (h : w.Counts L) : w.advance.Counts (L ++ [.advance]) where
  metered := h.metered.advance
  ticks := by rw [advances_snoc_advance, ← h.ticks]; rfl
  total := by
    -- The bucket that is cleared is the one that was subtracted.
    have hidx : (w.idx + 1) % slidingWindowSize < w.buckets.length :=
      h.metered.advance.idx_lt.trans_eq h.metered.holds.length.symm
    show w.total - w.buckets.getD ((w.idx + 1) % slidingWindowSize) 0 =
      (w.buckets.set ((w.idx + 1) % slidingWindowSize) 0).sum
    rw [List.sum_set', dif_pos hidx, List.getD_eq_getElem _ _ hidx, h.total]
    omega

theorem reset_eq (h : w.Counts L) : w.reset = {} := by
  have hlen : w.buckets.length = slidingWindowSize := h.metered.holds.length
  simp [reset, List.map_const', hlen]

end Counts

theorem counts_after (H : List WindowCall) : (after H).Counts (callsSinceReset H) := by
  induction H using List.reverseRecOn with
  | nil => exact .new
  | append_singleton H c ih =>
    rw [after_snoc]
    cases c with
    | meter c =>
      rw [callsSinceReset_snoc_meter]
      cases c with
      | record => exact ih.record
      | advance => exact ih.advance
    | reset =>
      rw [callsSinceReset_snoc_reset]
      show (after H).reset.Counts []
      rw [ih.reset_eq]
      exact .new

theorem total_after (H : List WindowCall) :
    let L := callsSinceReset H
    (after H).total = (recordsBetween L (advances L + 1 - 30) (advances L + 1) : Nat) := by
  have h := counts_after H
  exact h.total.trans h.metered.sum

/-- Neither the buckets nor the total leave the range of the code's `int64` in
the first `2 ^ 63` records. -/
theorem after_bounds (H : List WindowCall) :
    ∀ x ∈ (after H).total :: (after H).buckets, 0 ≤ x ∧ x ≤ (callsSinceReset H).count .record := by
  intro x hx
  rcases List.mem_cons.mp hx with rfl | hx
  · have hle : ∀ lo hi, recordsBetween (callsSinceReset H) lo hi ≤
        (callsSinceReset H).count .record := by
      intro lo hi
      rw [← length_stamps]
      exact List.countP_le_length
    rw [total_after]
    exact ⟨Int.natCast_nonneg _, Int.ofNat_le.mpr (hle _ _)⟩
  · exact (counts_after H).metered.bucket_bounds hx

/-- **The ring over any history.** The index stays in the ring, the total is the
sum of the buckets, and both are what was recorded after the 30th most recent
`Advance` since `Reset`, everything when there is none. -/
theorem after_ring (H : List WindowCall) :
    let w := after H
    let L := callsSinceReset H
    w.idx < 30 ∧ w.buckets.length = 30 ∧ w.total = w.buckets.sum ∧ 0 ≤ w.total ∧
      (L.count .advance < 30 → w.total = L.count .record) ∧
      (30 ≤ L.count .advance → ∃ L₁ L₂, L = L₁ ++ .advance :: L₂ ∧ L₂.count .advance = 29 ∧
        w.total = L₂.count .record) := by
  intro w L
  have h : w.Counts L := counts_after H
  have htotal : w.total = (recordsBetween L (advances L + 1 - 30) (advances L + 1) : Nat) :=
    total_after H
  refine ⟨h.metered.idx_lt, h.metered.holds.length, h.total, ?_, fun hfew => ?_, fun hmany => ?_⟩
  · exact (after_bounds H w.total List.mem_cons_self).1
  · have hlo : advances L + 1 - 30 = 0 := Nat.sub_eq_zero_of_le hfew
    rw [htotal, hlo, recordsBetween_zero (Nat.lt_succ_self _)]
  · obtain ⟨L₁, L₂, hL, hcount⟩ := exists_advance_cons hmany
    refine ⟨L₁, L₂, hL, hcount, ?_⟩
    have hadv : advances L = advances L₁ + 30 := by
      rw [hL, advances_append]
      show advances L₁ + (.advance :: L₂).count .advance = _
      rw [List.count_cons_self]
      exact congrArg _ (congrArg (· + 1) hcount)
    have hlo : advances L + 1 - 30 = advances L₁ + 1 := by omega
    have hhi : advances L + 1 = advances L₁ + advances L₂ + 2 := by omega
    rw [htotal, hlo, hhi, hL, recordsBetween_advance_cons]

/-! ### The rate right after an advance -/

/-- Nothing has been recorded in the tick that `Advance` opens, so the rate is
that of the completed ticks of the ring, at most 29 of them. -/
theorem rate_advanced (H : List WindowCall) :
    let L := callsSinceReset (H ++ [.meter .advance])
    (after (H ++ [.meter .advance])).rate =
      (recordsBetween L (advances L - 29) (advances L) : ℚ) / (min (advances L) 30 : Nat) := by
  intro L
  have h : (after (H ++ [.meter .advance])).Counts L := counts_after _
  have htotal : (after (H ++ [.meter .advance])).total =
      (recordsBetween L (advances L + 1 - 30) (advances L + 1) : Nat) := total_after _
  have hL : L = callsSinceReset H ++ [.advance] := callsSinceReset_snoc_meter H .advance
  have hopen : recordsBetween L (advances L) (advances L + 1) = 0 := by
    rw [hL, recordsBetween_snoc_advance, recordsBetween_of_advances_lt]
    rw [advances_snoc_advance]
    exact Nat.lt_succ_self _
  have hclosed : recordsBetween L (advances L + 1 - 30) (advances L + 1) =
      recordsBetween L (advances L - 29) (advances L) := by
    rw [recordsBetween_add L (show advances L + 1 - 30 ≤ advances L by omega) (Nat.le_succ _), hopen]
    rfl
  have hpos : 0 < advances L := by
    rw [hL, advances_snoc_advance]
    exact Nat.succ_pos _
  have hwindow : (if (after (H ++ [.meter .advance])).ticks > slidingWindowSize then slidingWindowSize
      else (after (H ++ [.meter .advance])).ticks) = min (advances L) 30 := by
    rw [h.ticks]
    show (if advances L > 30 then 30 else advances L) = min (advances L) 30
    split <;> omega
  unfold rate
  rw [hwindow, if_neg (by omega), htotal, hclosed, Int.cast_natCast]

/-- **When the rate is the average over the last completed ticks.** The divisor
counts `min a 30` completed ticks. Once the ring has wrapped it holds 29 of them
beside the empty one just opened, so the rate is short by the 30th. -/
theorem rate_eq_completed_iff (H : List WindowCall) :
    let L := callsSinceReset (H ++ [.meter .advance])
    let a := advances L
    (after (H ++ [.meter .advance])).rate = (recordsBetween L (a - min a 30) a : ℚ) / (min a 30 : Nat) ↔
      a < 30 ∨ recordsBetween L (a - 30) (a - 29) = 0 := by
  intro L a
  have hpos : 0 < a := by
    show 0 < advances (callsSinceReset (H ++ [.meter .advance]))
    rw [callsSinceReset_snoc_meter, advances_snoc_advance]
    exact Nat.succ_pos _
  have hdiv : ((min a 30 : Nat) : ℚ) ≠ 0 := Nat.cast_ne_zero.mpr (by omega)
  have hrate : (after (H ++ [.meter .advance])).rate =
      (recordsBetween L (a - 29) a : ℚ) / (min a 30 : Nat) :=
    rate_advanced H
  rw [hrate, div_left_inj' hdiv, Nat.cast_inj]
  by_cases ha : a < 30
  · have hlo : a - min a 30 = a - 29 := by omega
    rw [hlo]
    exact iff_of_true rfl (.inl ha)
  · have hlo : a - min a 30 = a - 30 := by omega
    have hsplit := recordsBetween_add L (show a - 30 ≤ a - 29 by omega) (Nat.sub_le a 29)
    rw [hlo, hsplit]
    omega

/-- A steady load: `c` records in each of `a` ticks. -/
def steady (c a : Nat) : List MeterCall :=
  (List.replicate a (List.replicate c .record ++ [.advance])).flatten

/-- One record in every tick: the 30th `Advance` takes the first of them out of
the total, and the rate is divided by 30 for the first time. -/
theorem rate_thirty_ticks :
    let H := (steady 1 29).map WindowCall.meter ++ [.meter .record]
    let L := callsSinceReset (H ++ [.meter .advance])
    advances L = 30 ∧ (after (H ++ [.meter .advance])).rate = 29 / 30 ∧
      (recordsBetween L (30 - min 30 30) 30 : ℚ) / (min 30 30 : Nat) = 1 := by
  decide +kernel

theorem steady_succ (c a : Nat) :
    steady c (a + 1) = steady c a ++ List.replicate c .record ++ [.advance] := by
  simp [steady, List.replicate_succ', List.append_assoc]

theorem advances_replicate_record (c : Nat) : advances (List.replicate c .record) = 0 := by
  simp [advances, List.count_replicate]

@[simp] theorem advances_steady (c a : Nat) : advances (steady c a) = a := by
  induction a with
  | zero => rfl
  | succ a ih =>
    rw [steady_succ, advances_snoc_advance, advances_append, ih, advances_replicate_record, Nat.add_zero]

theorem stamps_replicate_record (c : Nat) : stamps (List.replicate c .record) = List.replicate c 0 := by
  induction c with
  | zero => rfl
  | succ c ih =>
    rw [List.replicate_succ', stamps_snoc_record, ih, advances_replicate_record, ← List.replicate_succ']

theorem count_stamps_steady (c a tick : Nat) :
    (stamps (steady c a)).count tick = if tick < a then c else 0 := by
  induction a with
  | zero => simp [steady]
  | succ a ih =>
    rw [steady_succ, stamps_snoc_advance, stamps_append, List.count_append, ih, stamps_replicate_record,
      advances_steady, List.map_replicate, List.count_replicate]
    rcases Nat.lt_trichotomy tick a with h | rfl | h
    · simp [h, h.ne', Nat.lt_succ_of_lt h]
    · simp
    · simp [h.ne, Nat.not_lt.mpr h.le, Nat.not_lt.mpr (Nat.succ_le_of_lt h)]

theorem recordsBetween_steady (c : Nat) {a hi : Nat} (h : hi ≤ a) (lo : Nat) :
    recordsBetween (steady c a) lo hi = (hi - lo) * c := by
  rw [recordsBetween_eq_sum, ← Nat.card_Ico, ← smul_eq_mul, ← Finset.sum_const]
  refine Finset.sum_congr rfl fun tick htick => ?_
  have hlt : tick < a := (Finset.mem_Ico.mp htick).2.trans_le h
  rw [count_stamps_steady, if_pos hlt]

/-- A steady load is read as it is for 29 ticks, and a thirtieth too low from
then on. -/
theorem rate_steady (c a : Nat) :
    (after ((steady c (a + 1)).map .meter)).rate = if a + 1 < 30 then (c : ℚ) else 29 / 30 * c := by
  have hH : (steady c (a + 1)).map WindowCall.meter =
      (steady c a ++ List.replicate c MeterCall.record).map .meter ++ [.meter .advance] := by
    rw [steady_succ, List.map_append]
    rfl
  have hrate := rate_advanced ((steady c a ++ List.replicate c MeterCall.record).map .meter)
  rw [← hH, callsSinceReset_map_meter] at hrate
  dsimp only at hrate
  rw [hrate, advances_steady, recordsBetween_steady c (Nat.le_refl _)]
  split
  · next ha =>
    have h₁ : a + 1 - (a + 1 - 29) = a + 1 := by omega
    have h₂ : min (a + 1) 30 = a + 1 := by omega
    rw [h₁, h₂, Nat.cast_mul, mul_div_cancel_left₀ _ (Nat.cast_ne_zero.mpr (Nat.succ_ne_zero a))]
  · next ha =>
    have h₁ : a + 1 - (a + 1 - 29) = 29 := by omega
    have h₂ : min (a + 1) 30 = 30 := by omega
    rw [h₁, h₂, Nat.cast_mul, mul_div_right_comm]
    rfl

end SlidingRateWindow

/-! ## The peak -/

namespace PeakRateTracker

def call (p : PeakRateTracker) : MeterCall → PeakRateTracker
  | .record => p.record
  | .advance => p.advance

/-- A new tracker after the calls `H`. -/
def after (H : List MeterCall) : PeakRateTracker := H.foldl call {}

theorem after_snoc (H : List MeterCall) (c : MeterCall) : after (H ++ [c]) = (after H).call c := by
  simp [after]

theorem metered_after (H : List MeterCall) :
    Metered peakWindowSize H (after H).buckets (after H).idx := by
  induction H using List.reverseRecOn with
  | nil => exact .nil (by decide)
  | append_singleton H c ih =>
    rw [after_snoc]
    cases c with
    | record => exact ih.record
    | advance => exact ih.advance

/-- The averages over ten ticks: for every `Advance` call, a tenth of what was
recorded since the tenth before it, or since the start. -/
def windowAverages (H : List MeterCall) : Set ℚ :=
  { q | ∃ j, 1 ≤ j ∧ j ≤ advances H ∧ q = recordsBetween H (j - 10) j / 10 }

theorem windowAverages_nil : windowAverages [] = ∅ := by
  ext q
  refine iff_of_false (fun h => ?_) (Set.notMem_empty q)
  obtain ⟨j, h₁, h₂, -⟩ := h
  exact absurd (h₁.trans h₂) (by decide)

theorem windowAverages_snoc_record (H : List MeterCall) :
    windowAverages (H ++ [.record]) = windowAverages H := by
  ext q
  refine exists_congr fun j => and_congr_right fun _ => ?_
  rw [advances_snoc_record]
  refine and_congr_right fun hj => ?_
  rw [recordsBetween_snoc_record _ hj]

theorem windowAverages_snoc_advance (H : List MeterCall) :
    windowAverages (H ++ [.advance]) =
      insert (recordsBetween H (advances H + 1 - 10) (advances H + 1) / 10 : ℚ) (windowAverages H) := by
  ext q
  simp only [windowAverages, advances_snoc_advance, recordsBetween_snoc_advance, Set.mem_ofPred_eq,
    Set.mem_insert_iff]
  constructor
  · intro h
    obtain ⟨j, h₁, h₂, hq⟩ := h
    rcases Nat.le_succ_iff.mp h₂ with hj | rfl
    · exact .inr ⟨j, h₁, hj, hq⟩
    · exact .inl hq
  · intro h
    rcases h with hq | ⟨j, h₁, h₂, hq⟩
    · exact ⟨advances H + 1, Nat.succ_pos _, Nat.le_refl _, hq⟩
    · exact ⟨j, h₁, Nat.le_succ_of_le h₂, hq⟩

theorem peak_advance (p : PeakRateTracker) :
    p.advance.peak = max p.peak (p.buckets.sum / peakWindowSize : ℚ) :=
  (max_def_lt _ _).symm

/-- The ring is summed before it is rotated, so it then has the last ten
completed ticks. -/
theorem peak_isGreatest (H : List MeterCall) : IsGreatest (insert 0 (windowAverages H))
    (after H).peak := by
  induction H using List.reverseRecOn with
  | nil =>
    rw [windowAverages_nil, LawfulSingleton.insert_empty_eq]
    exact isGreatest_singleton
  | append_singleton H c ih =>
    rw [after_snoc]
    cases c with
    | record =>
      rw [windowAverages_snoc_record]
      exact ih
    | advance =>
      have hsum : ((after H).buckets.sum / peakWindowSize : ℚ) =
          recordsBetween H (advances H + 1 - 10) (advances H + 1) / 10 := by
        rw [(metered_after H).sum, Int.cast_natCast]
        rfl
      show IsGreatest _ (after H).advance.peak
      rw [windowAverages_snoc_advance, Set.insert_comm, peak_advance, hsum, max_comm]
      exact ih.insert _

/-- **The peak is the largest average over ten ticks** of the whole history, 0
if there is none. -/
theorem peak_eq_window_maximum (H : List MeterCall) :
    (after H).peak =
      (Finset.Icc 1 (advances H)).fold max 0 fun j => (recordsBetween H (j - 10) j : ℚ) / 10 := by
  obtain ⟨hmem, hbound⟩ := peak_isGreatest H
  apply le_antisymm
  · rw [Finset.le_fold_max]
    rcases hmem with hzero | ⟨j, h₁, h₂, hq⟩
    · exact .inl hzero.le
    · exact .inr ⟨j, Finset.mem_Icc.mpr ⟨h₁, h₂⟩, hq.le⟩
  · rw [Finset.fold_max_le]
    refine ⟨hbound (Set.mem_insert 0 _), fun j hj => hbound (Set.mem_insert_of_mem 0 ?_)⟩
    obtain ⟨h₁, h₂⟩ := Finset.mem_Icc.mp hj
    exact ⟨j, h₁, h₂, rfl⟩

end PeakRateTracker

/-! ## The meters of a worker -/

/-- What an event of a worker calls on its sliding window. -/
def AnyEvent.windowCall : AnyEvent → Option WindowCall
  | .plain (.send .accepted) => .some (.meter .record)
  | .plain .tick => .some (.meter .advance)
  | .plain .resetAfterWarmup => .some .reset
  | .rpc (.requester _ (.request .accepted)) => .some (.meter .record)
  | .rpc .tick => .some (.meter .advance)
  | .rpc .resetAfterWarmup => .some .reset
  | _ => .none

/-- The calls on the sliding window in a run. -/
def windowCalls (es : List AnyEvent) : List WindowCall := es.filterMap AnyEvent.windowCall

namespace BaseWorker

/-- The meters are those that the calls `H` leave: `ResetAfterWarmup` resets the
window and makes a new peak tracker. -/
structure MetersAfter (b : BaseWorker) (H : List WindowCall) : Prop where
  rateWindow : b.rateWindow = .after H
  peakRate : b.peakRate = .after (callsSinceReset H)

def meters (b : BaseWorker) : SlidingRateWindow × PeakRateTracker := (b.rateWindow, b.peakRate)

theorem meters_unwritten : Unwritten meters :=
  ⟨fun _ => rfl, fun _ _ => rfl, fun _ _ => rfl, fun _ => rfl, fun _ => rfl⟩

theorem meters_recordEnvelope (b : BaseWorker) (m : Option Envelope) :
    (b.recordEnvelope m).meters = b.meters := by
  cases m with
  | none => rfl
  | some m =>
    refine (meters_unwritten.recordTracked _ m.producerID m.seq).trans ?_
    split
    · exact meters_unwritten.corrupted b
    · rfl

theorem meters_accountReply (b : BaseWorker) (verifyOutcome : Bool) (reply : Reply) (wantCorr : String)
    (elapsed : Int) : (b.accountReply verifyOutcome reply wantCorr elapsed).meters = b.meters := by
  rw [accountReply_eq]
  split
  · exact b.meters_recordEnvelope reply.envelope
  · rfl

end BaseWorker

namespace BaseWorker.MetersAfter

variable {b b' : BaseWorker} {H : List WindowCall}

theorem new (c : RunnableConfig) (name : WorkerName) (idx : Nat) :
    (BaseWorker.new c name idx).MetersAfter [] :=
  ⟨rfl, rfl⟩

theorem same (h : b.MetersAfter H) (hs : b'.meters = b.meters) : b'.MetersAfter (H ++ []) := by
  obtain ⟨hrate, hpeak⟩ := Prod.mk.inj hs
  rw [List.append_nil]
  exact ⟨hrate.trans h.rateWindow, hpeak.trans h.peakRate⟩

theorem recordSent (h : b.MetersAfter H) : b.recordSent.MetersAfter (H ++ [.meter .record]) where
  rateWindow := by
    rw [SlidingRateWindow.after_snoc, ← h.rateWindow]
    rfl
  peakRate := by
    rw [callsSinceReset_snoc_meter, PeakRateTracker.after_snoc, ← h.peakRate]
    rfl

theorem advanceRateWindows (h : b.MetersAfter H) :
    b.advanceRateWindows.MetersAfter (H ++ [.meter .advance]) where
  rateWindow := by
    rw [SlidingRateWindow.after_snoc, ← h.rateWindow]
    rfl
  peakRate := by
    rw [callsSinceReset_snoc_meter, PeakRateTracker.after_snoc, ← h.peakRate]
    rfl

theorem resetAfterWarmup (h : b.MetersAfter H) : b.resetAfterWarmup.MetersAfter (H ++ [.reset]) where
  rateWindow := by
    rw [SlidingRateWindow.after_snoc, ← h.rateWindow]
    rfl
  peakRate := by
    rw [callsSinceReset_snoc_reset]
    rfl

end BaseWorker.MetersAfter

theorem windowCalls_snoc (es : List AnyEvent) (e : AnyEvent) :
    windowCalls (es ++ [e]) = windowCalls es ++ e.windowCall.toList := by
  unfold windowCalls
  rw [List.filterMap_append]
  cases h : e.windowCall <;> simp [h]

theorem Worker.step_meters {w : Worker} {H : List WindowCall} (h : w.base.MetersAfter H)
    (e : Worker.Event) :
    (w.step e).base.MetersAfter (H ++ (AnyEvent.plain e).windowCall.toList) := by
  cases e with
  | send o =>
    cases o with
    | accepted => exact h.recordSent
    | failed => exact h.same rfl
    | cancelled => exact h.same rfl
  | deliver sub seq crcMismatch latency => exact h.same (BaseWorker.meters_unwritten.handle w sub _)
  | untracked sub => exact h.same (BaseWorker.meters_unwritten.handle w sub .none)
  | tick => exact h.advanceRateWindows
  | resetAfterWarmup => exact h.resetAfterWarmup
  | _ => exact h.same rfl

theorem RpcRequester.Moves.meters {verifyOutcome : Bool} {rq rq' : RpcRequester} {b b' : BaseWorker}
    {e : RpcRequester.Event} {H : List WindowCall} (hm : rq.Moves verifyOutcome b e rq' b')
    (h : b.MetersAfter H) (k : Nat) :
    b'.MetersAfter (H ++ (AnyEvent.rpc (.requester k e)).windowCall.toList) := by
  cases hm with
  | request _ o =>
    cases o with
    | accepted => exact h.recordSent
    | failed => exact h.same rfl
    | cancelled => exact h.same rfl
  | reply _ r elapsed => exact h.same (b.meters_accountReply _ _ _ _)
  | _ => exact h.same rfl

theorem RpcWorker.step_meters {w w' : RpcWorker} {e : RpcWorker.Event} {H : List WindowCall}
    (hs : w.step e = .some w') (h : w.base.MetersAfter H) :
    w'.base.MetersAfter (H ++ (AnyEvent.rpc e).windowCall.toList) := by
  cases e with
  | requester k e =>
    obtain ⟨rq, rq', base, -, hm, rfl⟩ := step_requester hs
    exact hm.meters h k
  | startProducers =>
    simp only [step] at hs
    split at hs
    · cases hs
      exact h.same rfl
    · cases hs
  | tick =>
    cases hs
    exact h.advanceRateWindows
  | resetAfterWarmup =>
    cases hs
    exact h.resetAfterWarmup
  | _ =>
    cases hs
    exact h.same rfl

theorem AnyWorker.step_meters {w w' : AnyWorker} {e : AnyEvent} {H : List WindowCall}
    (hs : w.step e = .some w') (h : w.base.MetersAfter H) :
    w'.base.MetersAfter (H ++ e.windowCall.toList) := by
  cases w with
  | plain w =>
    cases e with
    | plain e =>
      cases hs
      exact Worker.step_meters h e
    | rpc e => cases hs
  | rpc w =>
    cases e with
    | plain e => cases hs
    | rpc e =>
      obtain ⟨w', hw, rfl⟩ := Option.map_eq_some_iff.mp hs
      exact RpcWorker.step_meters hw h

/-- **The meters along any run of a channel**: the sliding window has had every
call, and the peak tracker those since the reset after warmup. -/
theorem ChannelRun.meters {c : RunnableConfig} {name : WorkerName} (r : ChannelRun c name) :
    r.worker.base.MetersAfter (windowCalls r.events) := by
  have h₀ : (AnyWorker.new c r.idx name).base.MetersAfter [] := by
    cases name <;> exact .new c _ r.idx
  refine Machine.exec_rec (P := fun es w => w.base.MetersAfter (windowCalls es)) h₀ ?_ r.ran
  intro es w e w' _ h hs
  rw [windowCalls_snoc]
  exact AnyWorker.step_meters hs h

/-! ## What the engine reports -/

/-- The rate that a round of `rateAdvancer` reports for a group: the windows of
each worker are advanced, and then its rate is read. -/
def actualRate (ws : List AnyWorker) : ℚ :=
  ws.foldl (fun totalRate w => totalRate + w.base.advanceRateWindows.rateWindow.rate) 0

/-- What `rateAdvancer` reports is the completed ticks of each channel's ring,
at most 29, over up to 30. -/
theorem actualRate_eq {c : RunnableConfig} {name : WorkerName} (runs : List (ChannelRun c name)) :
    actualRate (runs.map (·.worker)) =
      (runs.map fun r =>
        let L := callsSinceReset (windowCalls r.events ++ [.meter .advance])
        (recordsBetween L (advances L - 29) (advances L) : ℚ) / (min (advances L) 30 : Nat)).sum := by
  have hfold : actualRate (runs.map (·.worker)) =
      (runs.map fun r => r.worker.base.advanceRateWindows.rateWindow.rate).sum := by
    rw [actualRate, List.sum_eq_foldl, List.foldl_map, List.foldl_map]
  rw [hfold]
  refine congrArg List.sum (List.map_congr_left fun r _ => ?_)
  rw [r.meters.advanceRateWindows.rateWindow]
  exact SlidingRateWindow.rate_advanced _

theorem captured_peakRate_snoc (hist : Histogram) {c : RunnableConfig} {name : WorkerName}
    (runs : List (ChannelRun c name)) (r : ChannelRun c name) :
    (captured hist (runs ++ [r])).peakRate =
      max (captured hist runs).peakRate r.worker.base.peakRate.peak := by
  unfold captured captureWorkerSnapshot
  rw [List.map_append, List.foldl_append]
  exact (max_def_lt _ _).symm

/-- **The peak of a group** is the largest average over ten ticks of any of its
channels since the reset after warmup, 0 if there is none. -/
theorem captured_peakRate_isGreatest (hist : Histogram) {c : RunnableConfig} {name : WorkerName}
    (runs : List (ChannelRun c name)) :
    IsGreatest
      (insert 0 (⋃ r ∈ runs, PeakRateTracker.windowAverages (callsSinceReset (windowCalls r.events))))
      (captured hist runs).peakRate := by
  induction runs using List.reverseRecOn with
  | nil =>
    have hzero : (captured hist ([] : List (ChannelRun c name))).peakRate = 0 := rfl
    rw [hzero]
    simp
  | append_singleton runs r ih =>
    have hr := PeakRateTracker.peak_isGreatest (callsSinceReset (windowCalls r.events))
    rw [← r.meters.peakRate] at hr
    have hsplit : (⋃ r' ∈ runs ++ [r],
        PeakRateTracker.windowAverages (callsSinceReset (windowCalls r'.events))) =
        PeakRateTracker.windowAverages (callsSinceReset (windowCalls r.events)) ∪
          ⋃ r' ∈ runs, PeakRateTracker.windowAverages (callsSinceReset (windowCalls r'.events)) := by
      ext q
      simp [or_comm]
    rw [captured_peakRate_snoc, hsplit, Set.insert_union_distrib, max_comm]
    exact hr.union ih

end Burnin
