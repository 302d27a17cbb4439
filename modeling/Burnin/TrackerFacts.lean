/-
The tracker's producer state refines the gap detector on unbounded numbers
(`Gap.record`): no wrap of the 64-bit arithmetic is ever visible at the end of
a call, and the bitset is the set of numbers seen above the watermark.

`Refines` relates the two states; `recordProducer_refines` says that one call
of `Record` keeps it and calls the same arrivals duplicates. Two facts of the
code show up here and nowhere else: the offset at which `slideWindow` would
re-insert the arrival is always the window's size, so it is never re-inserted
(`markOffset_slide`), and the slide distance is clamped to the window's size
while the watermark is not.
-/
import Burnin.Tracker
import Burnin.Lib.Gap
import Burnin.Lib.Loop

namespace Burnin

/-! ## Machine arithmetic -/

theorem goInt_of_lt {x : UInt64} (h : x.toNat < 2 ^ 63) : goInt x = x.toNat := by
  have hb : x.toInt64.toBitVec = x.toBitVec := rfl
  rw [goInt, Int64.toInt, hb, BitVec.toInt_eq_toNat_of_lt]
  · rfl
  · show 2 * x.toNat < _
    omega

theorem ReorderWindow.toNat_u64 (w : ReorderWindow) : w.u64.toNat = w.size :=
  UInt64.toNat_ofNat_of_lt' (Nat.lt_of_le_of_lt (Nat.le_add_right _ 63)
    (Nat.lt_trans w.fits (by decide)))

theorem ReorderWindow.size_le_words (w : ReorderWindow) : w.size ≤ 64 * w.words := by
  unfold words; omega

theorem toNat_sub_sub_one {x y : UInt64} (h : y.toNat < x.toNat) :
    (x - y - 1).toNat = x.toNat - y.toNat - 1 := by
  have h1 : (x - y).toNat = x.toNat - y.toNat :=
    UInt64.toNat_sub_of_le x y (UInt64.le_iff_toNat_le.mpr (Nat.le_of_lt h))
  have h2 : (x - y - 1).toNat = (x - y).toNat - (1 : UInt64).toNat := by
    refine UInt64.toNat_sub_of_le _ _ (UInt64.le_iff_toNat_le.mpr ?_)
    rw [h1, UInt64.toNat_one]
    omega
  rw [h2, h1, UInt64.toNat_one]

theorem toNat_add_ofNat {x : UInt64} {k : Nat} (h : x.toNat + k < 2 ^ 64) :
    (x + UInt64.ofNat k).toNat = x.toNat + k := by
  rw [UInt64.toNat_add, UInt64.toNat_ofNat_of_lt'
    (show k < UInt64.size from (by have := h; simp [UInt64.size]; omega)),
    Nat.mod_eq_of_lt h]

namespace ProducerState

/-! ## The loops -/

/-- The loop of `advanceContiguous` consumes exactly the leading run of set
bits. -/
theorem advanceLoop_eq {ps : ProducerState} {k fuel : Nat}
    (hrun : ∀ j < k, getBit ps.window (j : Nat) = true) (hstop : getBit ps.window (k : Nat) = false)
    (hfuel : k ≤ fuel) :
    advanceLoop fuel ps =
      { ps with
        highContiguous := ps.highContiguous + UInt64.ofNat k
        window := shiftLeft^[k] ps.window } := by
  induction k generalizing ps fuel with
  | zero =>
    have h0 : getBit ps.window 0 = false := hstop
    cases fuel <;> simp [advanceLoop, h0]
  | succ k ih =>
    obtain ⟨fuel, rfl⟩ : ∃ f, fuel = f + 1 := ⟨fuel - 1, by omega⟩
    have h0 : getBit ps.window 0 = true := hrun 0 (by omega)
    simp only [advanceLoop, h0, if_true]
    rw [ih (fun j hj => by rw [getBit_shiftLeft]; exact hrun (j + 1) (by omega))
      (by rw [getBit_shiftLeft]; exact hstop) (by omega)]
    simp only [Function.iterate_succ_apply, mk.injEq, and_true]
    rw [UInt64.add_assoc]
    congr 1
    rw [UInt64.ofNat_add, UInt64.add_comm]
    rfl

theorem advanceContiguous_eq {ps : ProducerState} {k : Nat}
    (hrun : ∀ j < k, getBit ps.window (j : Nat) = true) (hstop : getBit ps.window (k : Nat) = false) :
    advanceContiguous ps =
      { ps with
        highContiguous := ps.highContiguous + UInt64.ofNat k
        window := shiftLeft^[k] ps.window } := by
  refine advanceLoop_eq hrun hstop (Nat.le_of_not_lt fun h => ?_)
  have h1 := hrun _ h
  rw [getBit_ge (Nat.le_refl _)] at h1
  exact Bool.false_ne_true h1

theorem advanceContiguous_eq_leadingRun (ps : ProducerState) :
    advanceContiguous ps =
      { ps with
        highContiguous := ps.highContiguous + UInt64.ofNat (leadingRun ps.window)
        window := shiftLeft^[leadingRun ps.window] ps.window } :=
  advanceContiguous_eq (fun _ hj => getBit_of_lt_leadingRun hj) (getBit_leadingRun ps.window)

/-- The loop of `advanceContiguous` ends with the first bit clear, whatever the
window holds. -/
theorem advanceContiguous_stops (ps : ProducerState) :
    getBit (advanceContiguous ps).window 0 = false := by
  rw [advanceContiguous_eq_leadingRun]
  show getBit (shiftLeft^[leadingRun ps.window] ps.window) (0 : Nat) = false
  rw [getBit_iterate_shiftLeft, Nat.zero_add]
  exact getBit_leadingRun ps.window

/-- The body of the loop of `advanceContiguous`. -/
def advanceRound (ps : ProducerState) : ProducerState :=
  { ps with highContiguous := ps.highContiguous + 1, window := shiftLeft ps.window }

theorem iterate_advanceRound (ps : ProducerState) (k : Nat) :
    advanceRound^[k] ps =
      { ps with
        highContiguous := ps.highContiguous + UInt64.ofNat k
        window := shiftLeft^[k] ps.window } := by
  induction k with
  | zero =>
    show ps = { ps with highContiguous := ps.highContiguous + 0, window := ps.window }
    rw [UInt64.add_zero]
  | succ k ih =>
    rw [Function.iterate_succ_apply', ih, Function.iterate_succ_apply', UInt64.ofNat_add,
      ← UInt64.add_assoc]
    rfl

/-- The loop, written without a bound on its rounds, is left after as many of
them as the window has leading bits set. -/
theorem runs_advanceRound (ps : ProducerState) :
    Loop.Runs (fun ps => getBit ps.window 0) advanceRound (leadingRun ps.window) ps
      (advanceContiguous ps) := by
  have hbit : ∀ j : Nat, getBit (advanceRound^[j] ps).window 0 = getBit ps.window j := by
    intro j
    rw [iterate_advanceRound]
    show getBit (shiftLeft^[j] ps.window) (0 : Nat) = getBit ps.window j
    rw [getBit_iterate_shiftLeft, Nat.zero_add]
  rw [Loop.runs_iff]
  refine ⟨fun j hj => ?_, ?_, ?_⟩
  · rw [hbit]
    exact getBit_of_lt_leadingRun hj
  · rw [hbit]
    exact getBit_leadingRun ps.window
  · rw [iterate_advanceRound, advanceContiguous_eq_leadingRun]

/-- **`advanceContiguous` terminates and consumes exactly the leading run.** The
loop leaves after `leadingRun` rounds and in no other way. The watermark grows
as a `uint64`, so by `k` unless it passes `2 ^ 64`. -/
theorem advanceContiguous_consumes_leadingRun (ps : ProducerState) :
    let k := leadingRun ps.window
    k ≤ 64 * ps.window.length ∧
      (∀ j < k, getBit ps.window (j : Nat) = true) ∧ getBit ps.window (k : Nat) = false ∧
      (∀ (m : Nat) (ps' : ProducerState),
        Loop.Runs (fun ps => getBit ps.window 0) advanceRound m ps ps' ↔ m = k ∧
          ps' = advanceContiguous ps) ∧
      (advanceContiguous ps).highContiguous = ps.highContiguous + UInt64.ofNat k ∧
      (ps.highContiguous.toNat + k < 2 ^ 64 →
        (advanceContiguous ps).highContiguous.toNat = ps.highContiguous.toNat + k) ∧
      (∀ i : Nat, getBit (advanceContiguous ps).window i = getBit ps.window (i + k : Nat)) ∧
      getBit (advanceContiguous ps).window 0 = false := by
  have hruns := runs_advanceRound ps
  have hend := advanceContiguous_eq_leadingRun ps
  refine ⟨leadingRun_le ps.window, fun j hj => getBit_of_lt_leadingRun hj, getBit_leadingRun ps.window,
    fun m ps' => ⟨hruns.unique, ?_⟩, ?_, fun hlt => ?_, fun i => ?_, advanceContiguous_stops ps⟩
  · intro h
    obtain ⟨rfl, rfl⟩ := h
    exact hruns
  · rw [hend]
  · rw [hend]
    exact toNat_add_ofNat hlt
  · rw [hend]
    exact getBit_iterate_shiftLeft ps.window (leadingRun ps.window) i

theorem mem_evict {ps : ProducerState} {n : Nat} {q : UInt64} :
    q ∈ evict ps n ↔ q ∈ ps.pendingLost ∨
      ∃ i < n, getBit ps.window (i : Nat) = false ∧ q = ps.highContiguous + 1 + UInt64.ofNat i := by
  unfold evict
  induction n with
  | zero => simp
  | succ n ih =>
    rw [List.range_succ, List.foldl_append, List.foldl_cons, List.foldl_nil]
    have hsplit : (∃ i < n + 1, getBit ps.window (i : Nat) = false ∧
        q = ps.highContiguous + 1 + UInt64.ofNat i) ↔
        (∃ i < n, getBit ps.window (i : Nat) = false ∧ q = ps.highContiguous + 1 + UInt64.ofNat i) ∨
          (getBit ps.window (n : Nat) = false ∧ q = ps.highContiguous + 1 + UInt64.ofNat n) := by
      constructor
      · intro h
        obtain ⟨i, hi, h⟩ := h
        rcases Nat.lt_succ_iff_lt_or_eq.mp hi with hi | rfl
        · exact .inl ⟨i, hi, h⟩
        · exact .inr h
      · intro h
        rcases h with ⟨i, hi, h⟩ | h
        · exact ⟨i, by omega, h⟩
        · exact ⟨n, by omega, h⟩
    rw [hsplit, ← or_assoc, ← ih]
    split
    · next h =>
      rw [Finset.mem_insert, or_comm]
      exact or_congr_right ⟨fun hq => ⟨by simpa using h, hq⟩, fun hq => hq.2⟩
    · next h =>
      refine ⟨.inl, fun hq => hq.resolve_right fun hq' => h (by simp [hq'.1])⟩

end ProducerState

/-! ## The refinement -/

open ProducerState

/-- A producer's state is the gap detector's, its window the bitset of `seen`
above the watermark. -/
structure Refines (w : ReorderWindow) (ps : ProducerState) (st : Gap.State) : Prop where
  high : ps.highContiguous.toNat = st.high
  length : ps.window.length = w.words
  bits : ∀ i : Nat, getBit ps.window i = true ↔ st.high + 1 + i ∈ st.seen
  seen_le : ∀ q ∈ st.seen, q ≤ st.high + w.size
  seen_lt : ∀ q ∈ st.seen, q < 2 ^ 64
  pending : ∀ q : UInt64, q ∈ ps.pendingLost ↔ q.toNat ∈ st.pending
  lost : ps.confirmedLost = ps.pendingLost.card

namespace Refines

variable {w : ReorderWindow} {ps : ProducerState} {st : Gap.State}

theorem bit_false (h : Refines w ps st) (i : Nat) :
    getBit ps.window i = false ↔ st.high + 1 + i ∉ st.seen := by
  rw [← h.bits, Bool.not_eq_true]

theorem bit_lt (h : Refines w ps st) {i : Nat} (hi : getBit ps.window i = true) :
    ps.highContiguous.toNat + 1 + i < 2 ^ 64 := by
  rw [h.high]
  exact h.seen_lt _ ((h.bits i).mp hi)

/-- The counters that the detector does not have are free. -/
theorem counters (h : Refines w ps st) {ps' : ProducerState}
    (h1 : ps'.highContiguous = ps.highContiguous) (h2 : ps'.window = ps.window)
    (h3 : ps'.pendingLost = ps.pendingLost) (h4 : ps'.confirmedLost = ps.confirmedLost) :
    Refines w ps' st :=
  ⟨h1 ▸ h.high, h2 ▸ h.length, h2 ▸ h.bits, h.seen_le, h.seen_lt, h3 ▸ h.pending,
    by rw [h4, h3]; exact h.lost⟩

theorem advance (h : Refines w ps st) : Refines w (advanceContiguous ps) st.advance := by
  have hrun : ∀ j < Gap.lead st.seen st.high, getBit ps.window (j : Nat) = true := fun j hj =>
    (h.bits j).mpr (Gap.lead_run hj)
  rw [advanceContiguous_eq hrun ((h.bit_false _).mpr (Gap.lead_stop _ _))]
  -- The last number of the run is below `2^64`, so the watermark does not wrap.
  have hlt : ps.highContiguous.toNat + Gap.lead st.seen st.high < 2 ^ 64 := by
    have h1 := ps.highContiguous.toNat_lt
    rcases Nat.eq_zero_or_pos (Gap.lead st.seen st.high) with h0 | h0
    · omega
    · have hlast : Gap.lead st.seen st.high - 1 < Gap.lead st.seen st.high := by omega
      have h2 := h.seen_lt _ (Gap.lead_run hlast)
      have h3 := h.high
      omega
  refine
    { high := ?_, length := ?_, bits := fun i => ?_, seen_le := fun q hq => ?_, seen_lt := fun q hq => ?_
      pending := h.pending, lost := h.lost }
  · simp only [Gap.State.advance]
    rw [toNat_add_ofNat hlt, h.high]
  · simp only
    rw [length_iterate_shiftLeft, h.length]
  · simp only [Gap.State.advance, Finset.mem_filter]
    rw [getBit_iterate_shiftLeft, h.bits, show st.high + 1 + (i + Gap.lead st.seen st.high) =
      st.high + Gap.lead st.seen st.high + 1 + i by omega]
    exact ⟨fun hm => ⟨hm, by omega⟩, fun hm => hm.1⟩
  · simp only [Gap.State.advance, Finset.mem_filter] at hq ⊢
    have := h.seen_le q hq.1
    omega
  · exact h.seen_lt q (Finset.mem_filter.mp hq).1

theorem advance_self (h : Refines w ps st) (hs : Gap.Settled st) : advanceContiguous ps = ps := by
  have h0 : getBit ps.window (0 : Nat) = false := (h.bit_false 0).mpr hs.gap
  rw [advanceContiguous_eq (k := 0) (fun j hj => by omega) h0]
  simp

theorem insert (h : Refines w ps st) {seq : UInt64} (hgt : st.high < seq.toNat)
    (hle : seq.toNat ≤ st.high + w.size) :
    Refines w { ps with window := setBit ps.window (goInt (seq - ps.highContiguous - 1)) }
      { st with seen := insert seq.toNat st.seen } := by
  have hoff : (seq - ps.highContiguous - 1).toNat = seq.toNat - st.high - 1 := by
    rw [toNat_sub_sub_one (by rw [h.high]; exact hgt), h.high]
  have hfits := w.fits
  have hint : goInt (seq - ps.highContiguous - 1) = ((seq.toNat - st.high - 1 : Nat) : Int) := by
    rw [goInt_of_lt (by omega), hoff]
  have hin : seq.toNat - st.high - 1 < 64 * ps.window.length := by
    have := w.size_le_words
    rw [h.length]
    omega
  rw [hint]
  refine
    { high := h.high, length := by rw [length_setBit, h.length], bits := fun i => ?_
      seen_le := fun q hq => ?_, seen_lt := fun q hq => ?_, pending := h.pending, lost := h.lost }
  · rw [getBit_setBit, Bool.or_eq_true, h.bits, Finset.mem_insert, decide_eq_true_eq, or_comm]
    refine or_congr_left ⟨fun he => ?_, fun he => ⟨?_, hin⟩⟩
    · simp only; omega
    · simp only at he; omega
  · rcases Finset.mem_insert.mp hq with rfl | hq
    · exact hle
    · exact h.seen_le q hq
  · rcases Finset.mem_insert.mp hq with rfl | hq
    · exact seq.toNat_lt
    · exact h.seen_lt q hq

end Refines

/-- `slideWindow` never re-inserts its arrival: its offset from the new
watermark is the window's size. -/
theorem markOffset_slide {w : ReorderWindow} {ps : ProducerState} {newSeq high : UInt64}
    (h : high.toNat + w.size + 1 = newSeq.toNat) : markOffset w ps (newSeq - high - 1) = ps := by
  have hoff : (newSeq - high - 1).toNat = w.size := by
    rw [toNat_sub_sub_one (by omega)]
    omega
  have hfits := w.fits
  have hint : goInt (newSeq - high - 1) = w.size := by rw [goInt_of_lt (by omega), hoff]
  rw [markOffset, hint, if_neg (by omega)]

theorem toNat_newHigh {w : ReorderWindow} {newSeq : UInt64} (h : w.size < newSeq.toNat) :
    (newSeq - w.u64 - 1).toNat = newSeq.toNat - w.size - 1 := by
  rw [toNat_sub_sub_one (by rw [w.toNat_u64]; exact h), w.toNat_u64]

theorem toNat_slideDist (w : ReorderWindow) (dist : UInt64) :
    (if dist > w.u64 then w.u64 else dist).toNat = min dist.toNat w.size := by
  split
  · next hc =>
    rw [gt_iff_lt, UInt64.lt_iff_toNat_lt, w.toNat_u64] at hc
    rw [w.toNat_u64]
    omega
  · next hc =>
    rw [gt_iff_lt, UInt64.lt_iff_toNat_lt, w.toNat_u64] at hc
    omega

theorem toNat_position {high : UInt64} {i : Nat} (h : high.toNat + 1 + i < 2 ^ 64) :
    (high + 1 + UInt64.ofNat i).toNat = high.toNat + 1 + i := by
  rw [UInt64.add_assoc, show (1 : UInt64) + UInt64.ofNat i = UInt64.ofNat (1 + i) by
    rw [UInt64.ofNat_add]; rfl, toNat_add_ofNat (by omega)]
  omega

/-- What `slideWindow` suspects after it looked at `d` positions. -/
theorem Refines.mem_evict_iff {w : ReorderWindow} {ps : ProducerState} {st : Gap.State}
    (h : Refines w ps st) {d : Nat} (hd : st.high + d < 2 ^ 64) (q : UInt64) :
    q ∈ evict ps d ↔ q.toNat ∈ st.pending ∪ (Finset.Ioc st.high (st.high + d) \ st.seen) := by
  have hhigh := h.high
  rw [mem_evict, h.pending, Finset.mem_union, Finset.mem_sdiff, Finset.mem_Ioc]
  refine or_congr_right ⟨?_, ?_⟩
  · intro h
    obtain ⟨i, hi, hbit, rfl⟩ := h
    rw [toNat_position (by omega), hhigh]
    exact ⟨⟨by omega, by omega⟩, (h.bit_false i).mp hbit⟩
  · intro h
    obtain ⟨⟨h1, h2⟩, hmem⟩ := h
    have hqi : st.high + 1 + (q.toNat - st.high - 1) = q.toNat := by omega
    refine ⟨q.toNat - st.high - 1, by omega, (h.bit_false _).mpr (by rw [hqi]; exact hmem), ?_⟩
    rw [← UInt64.toNat_inj, toNat_position (by omega), hhigh, hqi]

theorem Refines.toNat_dist {w : ReorderWindow} {ps : ProducerState} {st : Gap.State}
    (h : Refines w ps st) {seq : UInt64} (hb : st.high + w.size < seq.toNat) :
    (seq - w.u64 - 1 - ps.highContiguous).toNat = seq.toNat - w.size - 1 - st.high := by
  have hnew : (seq - w.u64 - 1).toNat = seq.toNat - w.size - 1 := toNat_newHigh (by omega)
  have hhigh := h.high
  rw [UInt64.toNat_sub_of_le _ _ (UInt64.le_iff_toNat_le.mpr (by omega)), hnew, hhigh]

theorem Refines.slid {w : ReorderWindow} {ps : ProducerState} {st : Gap.State} (h : Refines w ps st)
    {seq : UInt64} (hb : st.high + w.size < seq.toNat) {d : Nat}
    (hd : d = min (seq.toNat - w.size - 1 - st.high) w.size) :
    Refines w
      { ps with
        pendingLost := evict ps d
        confirmedLost := (evict ps d).card
        window := shiftLeft^[d] ps.window
        highContiguous := seq - w.u64 - 1 }
      { high := seq.toNat - w.size - 1
        seen := st.seen.filter (seq.toNat - w.size - 1 < ·)
        pending := st.pending ∪
          (Finset.Ioc st.high (min (seq.toNat - w.size - 1) (st.high + w.size)) \ st.seen) } := by
  refine
    { high := toNat_newHigh (by omega), length := by rw [length_iterate_shiftLeft, h.length],
      bits := fun i => ?_
      seen_le := fun q hq => ?_, seen_lt := fun q hq => h.seen_lt q (Finset.mem_filter.mp hq).1
      pending := fun q => ?_, lost := rfl }
  · rw [getBit_iterate_shiftLeft, h.bits, Finset.mem_filter]
    simp only
    by_cases hc : seq.toNat - w.size - 1 - st.high ≤ w.size
    · rw [show st.high + 1 + (i + d) = seq.toNat - w.size - 1 + 1 + i by omega]
      exact ⟨fun hm => ⟨hm, by omega⟩, fun hm => hm.1⟩
    · -- Past a clamped slide both sides are beyond the old window.
      refine ⟨fun hm => ?_, fun hm => ?_⟩
      · have := h.seen_le _ hm; omega
      · have := h.seen_le _ hm.1; omega
  · have := h.seen_le q (Finset.mem_filter.mp hq).1
    simp only
    omega
  · have h1 := seq.toNat_lt
    rw [h.mem_evict_iff (by omega),
      show st.high + d = min (seq.toNat - w.size - 1) (st.high + w.size) by omega]

theorem slideWindow_refines {w : ReorderWindow} {ps : ProducerState} {st : Gap.State}
    (h : Refines w ps st) (hs : Gap.Settled st) {seq : UInt64} (hb : st.high + w.size < seq.toNat) :
    Refines w (slideWindow w ps seq) (st.slide w.size seq.toNat) := by
  have hnew : (seq - w.u64 - 1).toNat = seq.toNat - w.size - 1 := toNat_newHigh (by omega)
  have hhigh := h.high
  simp only [slideWindow]
  split
  · next hle =>
    -- The arrival is one past the window: the watermark stays.
    rw [UInt64.le_iff_toNat_le, hnew, hhigh] at hle
    have htop : seq.toNat - w.size - 1 = st.high := by omega
    rw [markOffset_slide (by omega)]
    have hslide : Refines w ps
        { high := seq.toNat - w.size - 1
          seen := st.seen.filter (seq.toNat - w.size - 1 < ·)
          pending := st.pending ∪
            (Finset.Ioc st.high (min (seq.toNat - w.size - 1) (st.high + w.size)) \ st.seen) } := by
      rw [htop, min_eq_left (by omega), Finset.Ioc_self, Finset.empty_sdiff, Finset.union_empty,
        Finset.filter_true_of_mem hs.seen_gt]
      exact h
    have := hslide.advance
    rwa [h.advance_self hs] at this
  · rw [markOffset_slide (by simp only [hnew]; omega), toNat_slideDist, h.toNat_dist hb]
    exact (h.slid hb rfl).advance

theorem getBit_first (w : ReorderWindow) (i : Nat) :
    getBit (setBit (List.replicate w.words 0) 0) i = decide (i = 0) := by
  have hpos := w.pos
  have hwords : 0 < w.words := by unfold ReorderWindow.words; omega
  have := getBit_setBit (List.replicate w.words 0) 0 i
  rw [getBit_replicate] at this
  simpa [hwords] using this

/-- A producer's first arrival: the watermark is the arrival, also when the
arrival is 0 and `seq - 1` wraps. -/
theorem first_eq (w : ReorderWindow) (seq : UInt64) :
    ProducerState.first w seq =
      { highContiguous := seq
        window := shiftLeft (setBit (List.replicate w.words 0) 0)
        lastSeen := seq
        received := 1 } := by
  rw [ProducerState.first, advanceContiguous_eq (k := 1) (fun j hj => ?_) ?_]
  · simp only [ProducerState.mk.injEq, and_true]
    exact ⟨by rw [show UInt64.ofNat 1 = 1 from rfl, UInt64.sub_add_cancel], rfl⟩
  · rw [getBit_first]
    rfl
  · rw [getBit_first]
    exact decide_eq_true (by omega)

theorem first_refines (w : ReorderWindow) (seq : UInt64) :
    Refines w (ProducerState.first w seq) ⟨seq.toNat, ∅, ∅⟩ := by
  rw [first_eq]
  refine
    { high := rfl, length := ?_, bits := fun i => ?_, seen_le := by simp, seen_lt := by simp
      pending := by simp, lost := by simp }
  · simp only
    rw [length_shiftLeft, length_setBit, List.length_replicate]
  · simp only
    rw [getBit_shiftLeft, getBit_first]
    simp

/-- **One call of `Record`** keeps the refinement, and calls a duplicate what
the detector calls one. -/
theorem recordProducer_refines {w : ReorderWindow} {ps : ProducerState} {st : Gap.State}
    (h : Refines w ps st) (hs : Gap.Settled st) (seq : UInt64) :
    Refines w (recordProducer w (.some ps) seq).1 (Gap.record w.size (.some st) seq.toNat).1 ∧
      (recordProducer w (.some ps) seq).2.isDuplicate = (Gap.record w.size (.some st) seq.toNat).2 := by
  have ha : Refines w (ps.arrive seq).1 st := h.counters rfl rfl rfl rfl
  simp only [recordProducer]
  generalize (ps.arrive seq).1 = ps₁ at ha
  simp only [place, Gap.record]
  have hhigh := ha.high
  by_cases hle : seq ≤ ps₁.highContiguous
  · have hle' : seq.toNat ≤ st.high := by rw [← hhigh]; exact UInt64.le_iff_toNat_le.mp hle
    simp only [hle, hle', if_true]
    by_cases hp : seq ∈ ps₁.pendingLost
    · simp only [hp, (ha.pending seq).mp hp, if_true, and_true]
      exact
        { high := ha.high, length := ha.length, bits := ha.bits, seen_le := ha.seen_le
          seen_lt := ha.seen_lt, lost := rfl
          pending := fun q => by
            rw [Finset.mem_erase, Finset.mem_erase, ha.pending, ne_eq, ne_eq, UInt64.toNat_inj] }
    · have hp' : seq.toNat ∉ st.pending := fun hm => hp ((ha.pending seq).mpr hm)
      simp only [hp, hp', if_false, and_true]
      exact ha.counters rfl rfl rfl rfl
  · have hgt : st.high < seq.toNat := by
      rw [UInt64.le_iff_toNat_le, hhigh] at hle
      omega
    have hoff : (seq - ps₁.highContiguous - 1).toNat = seq.toNat - st.high - 1 := by
      rw [toNat_sub_sub_one (by rw [hhigh]; exact hgt), hhigh]
    simp only [hle, Nat.not_le.mpr hgt, if_false]
    by_cases hb : st.high + w.size < seq.toNat
    · have hb' : seq - ps₁.highContiguous - 1 ≥ w.u64 := by
        rw [ge_iff_le, UInt64.le_iff_toNat_le, hoff, w.toNat_u64]
        omega
      simp only [hb, hb', if_true, and_true]
      exact slideWindow_refines ha hs hb
    · have hb' : ¬ seq - ps₁.highContiguous - 1 ≥ w.u64 := by
        rw [ge_iff_le, UInt64.le_iff_toNat_le, hoff, w.toNat_u64]
        omega
      have hfits := w.fits
      have hbit : getBit ps₁.window (goInt (seq - ps₁.highContiguous - 1)) = true ↔
          seq.toNat ∈ st.seen := by
        rw [goInt_of_lt (by omega), hoff, ha.bits, show st.high + 1 + (seq.toNat - st.high - 1) =
          seq.toNat by omega]
      simp only [hb, hb', if_false]
      by_cases hm : seq.toNat ∈ st.seen
      · simp only [hbit.mpr hm, hm, if_true, and_true]
        exact ha.counters rfl rfl rfl rfl
      · have hf : getBit ps₁.window (goInt (seq - ps₁.highContiguous - 1)) = false :=
          Bool.eq_false_of_not_eq_true fun ht => hm (hbit.mp ht)
        simp only [hf, hm, if_false, Bool.false_eq_true, and_true]
        exact (ha.insert hgt (by omega)).advance

/-! ## The fields a call leaves alone

Each equation is one to rewrite with once: the fields that do change stand as
themselves on the right. -/

namespace ProducerState

theorem advanceLoop_fields (fuel : Nat) (ps : ProducerState) :
    advanceLoop fuel ps =
      { ps with
        highContiguous := (advanceLoop fuel ps).highContiguous
        window := (advanceLoop fuel ps).window } := by
  induction fuel generalizing ps with
  | zero => rfl
  | succ fuel ih =>
    simp only [advanceLoop]
    split
    · exact ih _
    · rfl

theorem advanceContiguous_fields (ps : ProducerState) :
    advanceContiguous ps =
      { ps with
        highContiguous := (advanceContiguous ps).highContiguous
        window := (advanceContiguous ps).window } :=
  advanceLoop_fields _ ps

theorem markOffset_fields (w : ReorderWindow) (ps : ProducerState) (offset : UInt64) :
    markOffset w ps offset = { ps with window := (markOffset w ps offset).window } := by
  simp only [markOffset]
  split <;> rfl

theorem slideWindow_fields (w : ReorderWindow) (ps : ProducerState) (newSeq : UInt64) :
    slideWindow w ps newSeq =
      { ps with
        highContiguous := (slideWindow w ps newSeq).highContiguous
        window := (slideWindow w ps newSeq).window
        pendingLost := (slideWindow w ps newSeq).pendingLost
        confirmedLost := (slideWindow w ps newSeq).confirmedLost } := by
  simp only [slideWindow]
  split
  · rw [markOffset_fields]
  · rw [advanceContiguous_fields, markOffset_fields]

theorem place_fields (w : ReorderWindow) (ps : ProducerState) (seq : UInt64) :
    (place w ps seq).1 =
      { ps with
        highContiguous := (place w ps seq).1.highContiguous
        window := (place w ps seq).1.window
        duplicates := ps.duplicates + if (place w ps seq).2 then 1 else 0
        pendingLost := (place w ps seq).1.pendingLost
        confirmedLost := (place w ps seq).1.confirmedLost } := by
  simp only [place]
  split
  · split <;> rfl
  · split
    · rw [slideWindow_fields]
      rfl
    · split
      · rfl
      · rw [advanceContiguous_fields]
        rfl

end ProducerState

theorem recordProducer_duplicates (w : ReorderWindow) (ps : ProducerState) (seq : UInt64) :
    (recordProducer w (.some ps) seq).1.duplicates =
      ps.duplicates + if (recordProducer w (.some ps) seq).2.isDuplicate then 1 else 0 := by
  simp only [recordProducer]
  rw [place_fields]
  rfl

theorem recordProducer_received (w : ReorderWindow) (ps : ProducerState) (seq : UInt64) :
    (recordProducer w (.some ps) seq).1.received = ps.received + 1 := by
  simp only [recordProducer]
  rw [place_fields]
  rfl

theorem recordProducer_lastSeen (w : ReorderWindow) (ps : ProducerState) (seq : UInt64) :
    (recordProducer w (.some ps) seq).1.lastSeen = seq := by
  simp only [recordProducer]
  rw [place_fields]
  rfl

theorem recordProducer_outOfOrder (w : ReorderWindow) (ps : ProducerState) (seq : UInt64) :
    (recordProducer w (.some ps) seq).1.outOfOrder =
      ps.outOfOrder + if (recordProducer w (.some ps) seq).2.isOutOfOrder then 1 else 0 := by
  simp only [recordProducer]
  rw [place_fields]
  simp only [arrive, decide_eq_true_eq]
  split <;> rfl

theorem first_counts (w : ReorderWindow) (seq : UInt64) :
    (ProducerState.first w seq).received = 1 ∧ (ProducerState.first w seq).duplicates = 0 ∧
      (ProducerState.first w seq).outOfOrder = 0 ∧ (ProducerState.first w seq).lastSeen = seq := by
  rw [first_eq]
  exact ⟨rfl, rfl, rfl, rfl⟩

end Burnin
