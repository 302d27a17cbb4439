/-
The tracker's machine arithmetic, operation by operation.

`Record` is written once more, over any numbers (`Words.Arith`) and with every
`uint64` operation, conversion and bit position in its trace: `WordState` has
the counters as numbers too. On `UInt64` it is the code, on `ℤ` the same
algorithm without a bound. Both agree with `recordProducer` at the end of every
call (`record_sim`), and no operation of the machine run wraps, but for a first
arrival of 0: there `seq - 1` wraps, and so does the increment that brings the
watermark back (`first_inexact`).
-/
import Burnin.Lib.Words
import Burnin.TrackerShift

namespace Burnin

open Past Words

/-- A producer's state over numbers of type `α`; `lastReportedLost` is left to
`DetectGaps`. -/
structure WordState (α : Type) where
  highContiguous : α
  window : List UInt64
  received : α
  duplicates : α
  outOfOrder : α
  confirmedLost : α
  pendingLost : Finset α
  lastSeen : α

namespace WordState

variable {α : Type} [Arith α] [DecidableEq α]

def advanceLoop : Nat → WordState α → Calc α (WordState α)
  | 0, ps => pure ps
  | fuel + 1, ps =>
    if getBit ps.window 0 then do
      let highContiguous ← Calc.add ps.highContiguous (Arith.ofNat 1)
      advanceLoop fuel { ps with highContiguous, window := shiftLeft ps.window }
    else pure ps

def advanceContiguous (ps : WordState α) : Calc α (WordState α) := advanceLoop (64 * ps.window.length) ps

/-- The body of the first loop of `slideWindow`. -/
def evictAt (ps : WordState α) (i : α) (pendingLost : Finset α) : Calc α (Finset α) := do
  let pos ← Calc.toInt i
  Calc.index pos
  if getBit ps.window pos then pure pendingLost
  else do
    let q ← Calc.add ps.highContiguous (Arith.ofNat 1)
    let q ← Calc.add q i
    pure (insert q pendingLost)

/-- The first loop of `slideWindow`, with `n` iterations to go. -/
def evictLoop (ps : WordState α) : Nat → α → Finset α → Calc α (Finset α)
  | 0, _, pendingLost => pure pendingLost
  | n + 1, i, pendingLost => do
    let pendingLost ← evictAt ps i pendingLost
    let i ← Calc.add i (Arith.ofNat 1)
    evictLoop ps n i pendingLost

/-- The second loop of `slideWindow`, with `n` iterations to go. -/
def shiftLoop : Nat → α → List UInt64 → Calc α (List UInt64)
  | 0, _, window => pure window
  | n + 1, i, window => do
    let i ← Calc.add i (Arith.ofNat 1)
    shiftLoop n i (shiftLeft window)

/-- `x - y - 1`. -/
def offset (x y : α) : Calc α α := do
  let d ← Calc.sub x y
  Calc.sub d (Arith.ofNat 1)

def markOffset (w : ReorderWindow) (ps : WordState α) (offset : α) : Calc α (WordState α) := do
  let o ← Calc.toInt offset
  if o < w.size then do
    let pos ← Calc.toInt offset
    Calc.index pos
    pure { ps with window := setBit ps.window pos }
  else pure ps

/-- The part of `slideWindow` that moves the watermark. -/
def slideTo (w : ReorderWindow) (ps : WordState α) (newSeq newHigh : α) : Calc α (WordState α) := do
  let dist ← Calc.sub newHigh ps.highContiguous
  let reorderWindow ← Calc.ofNat w.size
  let slideDist := if Arith.val dist > Arith.val reorderWindow then reorderWindow else dist
  let pendingLost ← evictLoop ps (Arith.val slideDist).toNat (Arith.ofNat 0) ps.pendingLost
  let confirmedLost ← Calc.ofNat pendingLost.card
  let window ← shiftLoop (Arith.val slideDist).toNat (Arith.ofNat 0 : α) ps.window
  let o ← offset newSeq newHigh
  let ps ← markOffset w { ps with pendingLost, confirmedLost, window, highContiguous := newHigh } o
  advanceContiguous ps

def slideWindow (w : ReorderWindow) (ps : WordState α) (newSeq : α) : Calc α (WordState α) := do
  let reorderWindow ← Calc.ofNat w.size
  let newHigh ← offset newSeq reorderWindow
  if Arith.val newHigh ≤ Arith.val ps.highContiguous then do
    let o ← offset newSeq ps.highContiguous
    markOffset w ps o
  else slideTo w ps newSeq newHigh

def first (w : ReorderWindow) (seq : α) : Calc α (WordState α) := do
  let highContiguous ← Calc.sub seq (Arith.ofNat 1)
  Calc.index 0
  let received ← Calc.add (Arith.ofNat 0 : α) (Arith.ofNat 1)
  advanceContiguous
    { highContiguous
      window := setBit (List.replicate w.words 0) 0
      received
      duplicates := Arith.ofNat 0
      outOfOrder := Arith.ofNat 0
      confirmedLost := Arith.ofNat 0
      pendingLost := ∅
      lastSeen := seq }

def arrive (ps : WordState α) (seq : α) : Calc α (WordState α × Bool) := do
  let received ← Calc.add ps.received (Arith.ofNat 1)
  let isOutOfOrder := decide (Arith.val seq < Arith.val ps.lastSeen)
  let outOfOrder ← if isOutOfOrder then Calc.add ps.outOfOrder (Arith.ofNat 1) else pure ps.outOfOrder
  pure ({ ps with received, outOfOrder, lastSeen := seq }, isOutOfOrder)

/-- `ps.duplicates.Add(1)`. -/
def repeated (ps : WordState α) : Calc α (WordState α × Bool) := do
  let duplicates ← Calc.add ps.duplicates (Arith.ofNat 1)
  pure ({ ps with duplicates }, true)

def place (w : ReorderWindow) (ps : WordState α) (seq : α) : Calc α (WordState α × Bool) :=
  if Arith.val seq ≤ Arith.val ps.highContiguous then
    if seq ∈ ps.pendingLost then do
      let pendingLost := ps.pendingLost.erase seq
      let confirmedLost ← Calc.ofNat pendingLost.card
      pure ({ ps with pendingLost, confirmedLost }, false)
    else repeated ps
  else do
    let o ← offset seq ps.highContiguous
    let reorderWindow ← Calc.ofNat w.size
    if Arith.val o ≥ Arith.val reorderWindow then do
      let ps ← slideWindow w ps seq
      pure (ps, false)
    else do
      let pos ← Calc.toInt o
      Calc.index pos
      if getBit ps.window pos then repeated ps
      else do
        let pos ← Calc.toInt o
        Calc.index pos
        let ps ← advanceContiguous { ps with window := setBit ps.window pos }
        pure (ps, false)

/-- `Record` on the state of its producer, none before the first arrival. -/
def record (w : ReorderWindow) : Option (WordState α) → α → Calc α (WordState α × Recorded)
  | .none, seq => do
    let ps ← first w seq
    pure (ps, ⟨false, false⟩)
  | .some ps, seq => do
    let (ps, isOutOfOrder) ← arrive ps seq
    let (ps, isDuplicate) ← place w ps seq
    pure (ps, ⟨isDuplicate, isOutOfOrder⟩)

/-- The state after a history of one producer. -/
def after (w : ReorderWindow) (seqs : List α) : Option (WordState α) :=
  seqs.foldl (fun ps seq => .some (record w ps seq).value.1) .none

theorem after_snoc (w : ReorderWindow) (seqs : List α) (seq : α) :
    after w (seqs ++ [seq]) = .some (record w (after w seqs) seq).value.1 := by
  simp [after, List.foldl_append]

end WordState

/-! ## The two runs agree with the tracker -/

/-- The suspects as integers. -/
def integers (s : Finset UInt64) : Finset ℤ := s.image fun q => (q.toNat : ℤ)

/-- The machine state and the integer state are both the producer's. -/
structure WordsAgree (gs : WordState UInt64) (zs : WordState ℤ) (ps : ProducerState) : Prop where
  high : Is ps.highContiguous.toNat gs.highContiguous zs.highContiguous
  window : gs.window = ps.window ∧ zs.window = ps.window
  received : Is ps.received gs.received zs.received
  duplicates : Is ps.duplicates gs.duplicates zs.duplicates
  outOfOrder : Is ps.outOfOrder gs.outOfOrder zs.outOfOrder
  confirmedLost : Is ps.confirmedLost gs.confirmedLost zs.confirmedLost
  pending : gs.pendingLost = ps.pendingLost ∧ zs.pendingLost = integers ps.pendingLost
  lastSeen : Is ps.lastSeen.toNat gs.lastSeen zs.lastSeen

theorem WordsAgree.setWindow {gs : WordState UInt64} {zs : WordState ℤ} {ps : ProducerState}
    (h : WordsAgree gs zs ps) (window : List UInt64) :
    WordsAgree { gs with window } { zs with window } { ps with window } :=
  { h with window := ⟨rfl, rfl⟩ }

theorem integers_card (s : Finset UInt64) : (integers s).card = s.card :=
  Finset.card_image_of_injective _ fun a b hab => UInt64.toNat_inj.mp (by simpa using hab)

theorem mem_integers {s : Finset UInt64} {q : UInt64} {z : ℤ} (hz : z = q.toNat) :
    z ∈ integers s ↔ q ∈ s := by
  rw [hz, integers, Finset.mem_image]
  constructor
  · rintro ⟨r, hr, he⟩
    rwa [UInt64.toNat_inj.mp (Nat.cast_inj.mp he)] at hr
  · exact fun hq => ⟨q, hq, rfl⟩

theorem integers_insert (s : Finset UInt64) (q : UInt64) :
    integers (insert q s) = insert (q.toNat : ℤ) (integers s) := Finset.image_insert _ _ _

theorem integers_erase (s : Finset UInt64) (q : UInt64) :
    integers (s.erase q) = (integers s).erase (q.toNat : ℤ) :=
  Finset.image_erase (fun a b hab => UInt64.toNat_inj.mp (by simpa using hab)) _ _

theorem card_le_of_lt {s : Finset UInt64} {b : Nat} (h : ∀ q ∈ s, q.toNat < b) : s.card ≤ b := by
  have himage : s.image UInt64.toNat ⊆ Finset.range b := fun n hn => by
    obtain ⟨q, hq, rfl⟩ := Finset.mem_image.mp hn
    exact Finset.mem_range.mpr (h q hq)
  rw [← Finset.card_image_of_injective s fun a b hab => UInt64.toNat_inj.mp hab, ← Finset.card_range b]
  exact Finset.card_le_card himage

namespace WordState

section
variable {gs : WordState UInt64} {zs : WordState ℤ} {ps : ProducerState} (h : WordsAgree gs zs ps)
include h

/-- The loop increments the watermark to numbers that were recorded. -/
theorem advanceLoop_sim (hlt : ∀ i : Nat, getBit ps.window i = true →
    ps.highContiguous.toNat + 1 + i < 2 ^ 64)
    (fuel : Nat) :
    Sim (fun a b => WordsAgree a b (ProducerState.advanceLoop fuel ps)) (advanceLoop fuel gs)
      (advanceLoop fuel zs) := by
  induction fuel generalizing gs zs ps with
  | zero => exact .pure h
  | succ fuel ih =>
    simp only [advanceLoop, ProducerState.advanceLoop, h.window.1, h.window.2]
    by_cases hbit : getBit ps.window 0 = true
    · simp only [hbit, if_true]
      have hsum : ps.highContiguous.toNat + 1 < 2 ^ 64 := hlt 0 hbit
      have hnext : (ps.highContiguous + 1).toNat = ps.highContiguous.toNat + 1 :=
        toNat_add_ofNat (k := 1) hsum
      refine .bind (.add h.high (.ofNat (by decide)) hsum) fun b c hbc => ih ?_ fun i hi => ?_
      · exact { h with high := hnext.symm ▸ hbc, window := ⟨rfl, rfl⟩ }
      · simp only at hi ⊢
        rw [getBit_shiftLeft] at hi
        have := hlt _ hi
        omega
    · simp only [hbit, if_false, Bool.false_eq_true]
      exact .pure h

theorem advanceContiguous_sim {w : ReorderWindow} {st : Gap.State} (hr : Refines w ps st) :
    Sim (fun a b => WordsAgree a b ps.advanceContiguous) (advanceContiguous gs)
      (advanceContiguous zs) := by
  rw [advanceContiguous, advanceContiguous, h.window.1, h.window.2]
  exact advanceLoop_sim h (fun i => hr.bit_lt) _

theorem evictAt_sim {k : Nat} (hint : k < 2 ^ 63) (hword : ps.highContiguous.toNat + 1 + k < 2 ^ 64)
    {i : UInt64} {i' : ℤ} (hi : Is k i i') (s : Finset UInt64) :
    Sim
      (fun a b =>
        a = (if !getBit ps.window k then insert (ps.highContiguous + 1 + UInt64.ofNat k) s else s) ∧
          b = integers a)
      (evictAt gs i s) (evictAt zs i' (integers s)) := by
  simp only [evictAt, h.window.1, h.window.2]
  refine .bind (.toInt hi hint) fun pos pos' hpos => .bind (.index (by omega)) fun _ _ _ => ?_
  obtain ⟨rfl, rfl⟩ := hpos
  by_cases hbit : getBit ps.window k = true
  · simp only [hbit, if_true, Bool.not_true, Bool.false_eq_true, if_false]
    exact .pure ⟨rfl, rfl⟩
  · simp only [hbit, if_false, Bool.not_false, if_true, Bool.false_eq_true]
    refine .bind (.add h.high (.ofNat (by decide)) (by omega)) fun q q' hq =>
      .bind (.add hq hi (by omega)) fun q q' hq => .pure ?_
    have hpos : (ps.highContiguous + 1 + UInt64.ofNat k).toNat = ps.highContiguous.toNat + 1 + k :=
      toNat_position hword
    obtain rfl : q = ps.highContiguous + 1 + UInt64.ofNat k :=
      UInt64.toNat_inj.mp (hq.word.trans hpos.symm)
    exact ⟨rfl, by rw [integers_insert, hpos, hq.int]⟩

theorem evictLoop_sim {k n : Nat} (hint : k + n < 2 ^ 63)
    (hword : ps.highContiguous.toNat + k + n < 2 ^ 64) {i : UInt64} {i' : ℤ} (hi : Is k i i')
    (s : Finset UInt64) :
    Sim
      (fun a b => a = (List.range' k n).foldl (fun pending (j : Nat) =>
          if !getBit ps.window j then insert (ps.highContiguous + 1 + UInt64.ofNat j) pending
            else pending) s ∧
        b = integers a)
      (evictLoop gs n i s) (evictLoop zs n i' (integers s)) := by
  induction n generalizing k i i' s with
  | zero => exact .pure ⟨rfl, rfl⟩
  | succ n ih =>
    simp only [evictLoop, List.range'_succ, List.foldl_cons]
    refine .bind (evictAt_sim h (by omega) (by omega) hi s) fun a b hab => ?_
    obtain ⟨rfl, rfl⟩ := hab
    exact .bind (.add hi (.ofNat (by decide)) (by omega)) fun j j' hj => ih (by omega) (by omega) hj _

end

theorem shiftLoop_sim {k n : Nat} (hword : k + n < 2 ^ 64) {i : UInt64} {i' : ℤ} (hi : Is k i i')
    (window : List UInt64) :
    Sim (fun a b => a = shiftLeft^[n] window ∧ b = shiftLeft^[n] window) (shiftLoop n i window)
      (shiftLoop n i' window) := by
  induction n generalizing k i i' window with
  | zero => exact .pure ⟨rfl, rfl⟩
  | succ n ih =>
    simp only [shiftLoop, Function.iterate_succ_apply]
    exact .bind (.add hi (.ofNat (by decide)) (by omega)) fun j j' hj => ih (by omega) hj _

theorem offset_sim {m n : Nat} {x y : UInt64} {x' y' : ℤ} (hx : Is m x x') (hy : Is n y y')
    (hlt : n < m) : Sim (Is (m - n - 1)) (offset x y) (offset x' y') :=
  .bind (.sub hx hy (by omega)) fun _ _ hd => .sub hd (.ofNat (by decide)) (by omega)

section
variable {w : ReorderWindow} {gs : WordState UInt64} {zs : WordState ℤ} {ps : ProducerState}
  (h : WordsAgree gs zs ps)
include h

theorem markOffset_sim {off o : UInt64} {o' : ℤ} (ho : Is off.toNat o o') (hint : off.toNat < 2 ^ 63) :
    Sim (fun a b => WordsAgree a b (ps.markOffset w off)) (markOffset w gs o) (markOffset w zs o') := by
  simp only [markOffset, ProducerState.markOffset, goInt_of_lt hint, h.window.1, h.window.2]
  refine .bind (.toInt ho hint) fun pos pos' hpos => ?_
  obtain ⟨rfl, rfl⟩ := hpos
  by_cases hlt : (off.toNat : ℤ) < w.size
  · simp only [hlt, if_true]
    refine .bind (.toInt ho hint) fun pos pos' hpos => .bind (.index (by omega)) fun _ _ _ => .pure ?_
    obtain ⟨rfl, rfl⟩ := hpos
    exact h.setWindow _
  · simp only [hlt, if_false]
    exact .pure h

theorem slideTo_sim {st : Gap.State} (hr : Refines w ps st) (hs : Gap.Settled st)
    {seq newSeq newHigh : UInt64} {newSeq' newHigh' : ℤ} (hseq : Is seq.toNat newSeq newSeq')
    (hnew : Is (seq.toNat - w.size - 1) newHigh newHigh') (hb : st.high + w.size < seq.toNat)
    {d : Nat} (hd : d = min (seq.toNat - w.size - 1 - st.high) w.size) :
    Sim
      (fun a b => WordsAgree a b (ProducerState.advanceContiguous
        { ps with
          pendingLost := ps.evict d
          confirmedLost := (ps.evict d).card
          window := shiftLeft^[d] ps.window
          highContiguous := seq - w.u64 - 1 }))
      (slideTo w gs newSeq newHigh) (slideTo w zs newSeq' newHigh') := by
  have hhigh := hr.high
  have hfits := w.fits
  have hlt := seq.toNat_lt
  have hrs := hr.slid hb hd
  rw [slideTo, slideTo, h.pending.1, h.pending.2, h.window.1, h.window.2]
  refine .bind (.sub hnew h.high (by omega)) fun dist dist' hdist =>
    .bind (.ofNat (by omega)) fun W W' hW => ?_
  -- The clamped distance is `d` in both runs.
  have hdist : Is d (if Arith.val dist > Arith.val W then W else dist)
      (if Arith.val dist' > Arith.val W' then W' else dist') := by
    simp only [gt_iff_lt, hW.lt_word hdist, hW.lt_int hdist]
    split
    · exact (show w.size = d by omega) ▸ hW
    · exact (show seq.toNat - w.size - 1 - ps.highContiguous.toNat = d by omega) ▸ hdist
  simp only [hdist.val_word, hdist.val_int, Int.toNat_natCast]
  refine .bind (evictLoop_sim h (by omega) (by omega)
    (.ofNat (by decide)) ps.pendingLost) fun a b hab => ?_
  rw [← List.range_eq_range', ← ProducerState.evict] at hab
  obtain ⟨rfl, rfl⟩ := hab
  have hcard : (ps.evict d).card < 2 ^ 64 := by
    have hle := card_le_of_lt (s := ps.evict d) (b := seq.toNat - w.size) fun q hq => by
      rw [hr.mem_evict_iff (by omega), Finset.mem_union, Finset.mem_sdiff, Finset.mem_Ioc] at hq
      rcases hq with hq | hq
      · have := hs.pending_le _ hq
        omega
      · omega
    omega
  rw [integers_card]
  refine .bind (.ofNat hcard) fun lost lost' hlost =>
    .bind (shiftLoop_sim (by omega) (.ofNat (by decide)) ps.window) fun a b hab => ?_
  obtain ⟨rfl, rfl⟩ := hab
  refine .bind (offset_sim hseq hnew (by omega)) fun o o' ho => ?_
  have hnewHigh : (seq - w.u64 - 1).toNat = seq.toNat - w.size - 1 := toNat_newHigh (by omega)
  have hoff : (seq - (seq - w.u64 - 1) - 1).toNat = seq.toNat - (seq.toNat - w.size - 1) - 1 := by
    rw [toNat_sub_sub_one (by omega), hnewHigh]
  rw [← hoff] at ho
  have hslid : WordsAgree
      { gs with
        pendingLost := ps.evict d, confirmedLost := lost, window :=
          shiftLeft^[d] ps.window, highContiguous := newHigh }
      { zs with
        pendingLost := integers (ps.evict d), confirmedLost := lost', window := shiftLeft^[d] ps.window
        highContiguous := newHigh' }
      { ps with
        pendingLost := ps.evict d, confirmedLost := (ps.evict d).card, window := shiftLeft^[d] ps.window
        highContiguous := seq - w.u64 - 1 } :=
    { h with
      high := hnewHigh.symm ▸ hnew, window := ⟨rfl, rfl⟩, confirmedLost := hlost, pending := ⟨rfl, rfl⟩ }
  refine .bind (markOffset_sim (w := w) hslid ho (by omega)) fun a b hab => ?_
  rw [markOffset_slide (by simp only [hnewHigh]; omega)] at hab
  exact advanceContiguous_sim hab hrs

theorem slideWindow_sim {st : Gap.State} (hr : Refines w ps st) (hs : Gap.Settled st)
    {seq newSeq : UInt64} {newSeq' : ℤ} (hseq : Is seq.toNat newSeq newSeq')
    (hb : st.high + w.size < seq.toNat) :
    Sim (fun a b => WordsAgree a b (ps.slideWindow w seq)) (slideWindow w gs newSeq)
      (slideWindow w zs newSeq') := by
  have hhigh := hr.high
  have hfits := w.fits
  have hnewHigh : (seq - w.u64 - 1).toNat = seq.toNat - w.size - 1 := toNat_newHigh (by omega)
  simp only [slideWindow, ProducerState.slideWindow]
  refine .bind (.ofNat (by omega)) fun W W' hW =>
    .bind (offset_sim hseq hW (by omega)) fun newHigh newHigh' hnew => ?_
  refine .ite ((hnew.le_word h.high).trans (hnew.le_int h.high).symm) (fun hle => ?_) fun hgt => ?_
  · rw [hnew.le_word h.high] at hle
    rw [if_pos (UInt64.le_iff_toNat_le.mpr (by omega))]
    have hoff : (seq - ps.highContiguous - 1).toNat = seq.toNat - ps.highContiguous.toNat - 1 :=
      toNat_sub_sub_one (by omega)
    exact .bind (offset_sim hseq h.high (by omega)) fun o o' ho =>
      markOffset_sim h (hoff ▸ ho) (by omega)
  · rw [hnew.le_word h.high] at hgt
    rw [if_neg fun hle => hgt (by rw [← hnewHigh]; exact UInt64.le_iff_toNat_le.mp hle), toNat_slideDist,
      hr.toNat_dist hb, markOffset_slide (by simp only [hnewHigh]; omega)]
    exact slideTo_sim h hr hs hseq hnew hb rfl

theorem arrive_sim {seq x : UInt64} {x' : ℤ} (hseq : Is seq.toNat x x')
    (hreceived : ps.received + 1 < 2 ^ 64) (hout : ps.outOfOrder + 1 < 2 ^ 64) :
    Sim (fun a b => WordsAgree a.1 b.1 (ps.arrive seq).1 ∧ a.2 = (ps.arrive seq).2 ∧
      b.2 = (ps.arrive seq).2)
      (arrive gs x) (arrive zs x') := by
  simp only [arrive, ProducerState.arrive, hseq.lt_word h.lastSeen, hseq.lt_int h.lastSeen,
    UInt64.lt_iff_toNat_lt, decide_eq_true_eq]
  refine .bind (.add h.received (.ofNat (by decide)) hreceived) fun r r' hr => ?_
  by_cases hlt : seq.toNat < ps.lastSeen.toNat
  · simp only [hlt, if_true]
    refine .bind (.add h.outOfOrder (.ofNat (by decide)) hout) fun o o' ho => .pure ⟨?_, rfl, rfl⟩
    exact { h with received := hr, outOfOrder := ho, lastSeen := hseq }
  · simp only [hlt, if_false]
    exact .pure ⟨{ h with received := hr, lastSeen := hseq }, rfl, rfl⟩

theorem repeated_sim (hdup : ps.duplicates + 1 < 2 ^ 64) :
    Sim (fun a b => WordsAgree a.1 b.1 { ps with duplicates := ps.duplicates + 1 } ∧
      a.2 = true ∧ b.2 = true)
      (repeated gs) (repeated zs) :=
  .bind (.add h.duplicates (.ofNat (by decide)) hdup) fun _ _ hd =>
    .pure ⟨{ h with duplicates := hd }, rfl, rfl⟩

theorem place_sim {st : Gap.State} (hr : Refines w ps st) (hs : Gap.Settled st) {seq x : UInt64} {x' : ℤ}
    (hseq : Is seq.toNat x x') (hdup : ps.duplicates + 1 < 2 ^ 64) :
    Sim (fun a b => WordsAgree a.1 b.1 (ps.place w seq).1 ∧ a.2 = (ps.place w seq).2 ∧
      b.2 = (ps.place w seq).2)
      (place w gs x) (place w zs x') := by
  have hhigh := hr.high
  have hfits := w.fits
  obtain rfl : x = seq := hseq.eq
  simp only [place, ProducerState.place]
  refine .ite ((hseq.le_word h.high).trans (hseq.le_int h.high).symm) (fun hle => ?_) fun hgt => ?_
  · rw [hseq.le_word h.high, ← UInt64.le_iff_toNat_le] at hle
    rw [if_pos hle]
    refine .ite ?_ (fun hp => ?_) fun hp => ?_
    · rw [h.pending.1, h.pending.2, mem_integers hseq.int]
    · rw [h.pending.1] at hp
      rw [if_pos hp, h.pending.1, h.pending.2, hseq.int, ← integers_erase, integers_card]
      -- One suspect less than all numbers up to the watermark.
      have hcard : (ps.pendingLost.erase x).card < 2 ^ 64 := by
        have hle := card_le_of_lt (s := ps.pendingLost) (b := 2 ^ 64) fun q _ => q.toNat_lt
        exact Nat.lt_of_lt_of_le (Finset.card_erase_lt_of_mem hp) hle
      refine .bind (.ofNat hcard) fun lost lost' hlost => .pure ⟨?_, rfl, rfl⟩
      exact { h with confirmedLost := hlost, pending := ⟨rfl, rfl⟩ }
    · rw [h.pending.1] at hp
      rw [if_neg hp]
      exact repeated_sim h hdup
  · rw [hseq.le_word h.high] at hgt
    have hoff : (x - ps.highContiguous - 1).toNat = x.toNat - ps.highContiguous.toNat - 1 :=
      toNat_sub_sub_one (by omega)
    rw [if_neg fun hle => hgt (UInt64.le_iff_toNat_le.mp hle)]
    refine .bind (offset_sim hseq h.high (by omega)) fun o o' ho =>
      .bind (.ofNat (by omega)) fun W W' hW => ?_
    refine .ite ((hW.le_word ho).trans (hW.le_int ho).symm) (fun hge => ?_) fun hlt => ?_
    · rw [ge_iff_le, hW.le_word ho] at hge
      have hbeyond : x - ps.highContiguous - 1 ≥ w.u64 := by
        rw [ge_iff_le, UInt64.le_iff_toNat_le, hoff, w.toNat_u64]
        exact hge
      rw [if_pos hbeyond]
      exact .bind (slideWindow_sim h hr hs hseq (by omega)) fun a b hab => .pure ⟨hab, rfl, rfl⟩
    · rw [ge_iff_le, hW.le_word ho] at hlt
      have hin : ¬ x - ps.highContiguous - 1 ≥ w.u64 := by
        rw [ge_iff_le, UInt64.le_iff_toNat_le, hoff, w.toNat_u64]
        exact hlt
      have hint : x.toNat - ps.highContiguous.toNat - 1 < 2 ^ 63 := by omega
      rw [if_neg hin, goInt_of_lt (by omega), hoff, h.window.1, h.window.2]
      refine .bind (.toInt ho hint) fun pos pos' hpos => .bind (.index (by omega)) fun _ _ _ => ?_
      obtain ⟨rfl, rfl⟩ := hpos
      by_cases hbit : getBit ps.window (x.toNat - ps.highContiguous.toNat - 1 : Nat) = true
      · simp only [hbit, if_true]
        exact repeated_sim h hdup
      · simp only [hbit, if_false, Bool.false_eq_true]
        refine .bind (.toInt ho hint) fun pos pos' hpos => .bind (.index (by omega)) fun _ _ _ => ?_
        obtain ⟨rfl, rfl⟩ := hpos
        have hins := hr.insert (show st.high < x.toNat by omega) (by omega)
        rw [goInt_of_lt (by omega), hoff] at hins
        exact .bind (advanceContiguous_sim (h.setWindow _) hins) fun a b hab => .pure ⟨hab, rfl, rfl⟩

/-- **One call after the first**: both runs return what the tracker does and
agree with its state, and no operation of the machine wraps. -/
theorem record_sim {st : Gap.State} (hr : Refines w ps st) (hs : Gap.Settled st) (seq : UInt64)
    (hreceived : ps.received + 1 < 2 ^ 64) (hout : ps.outOfOrder + 1 < 2 ^ 64)
    (hdup : ps.duplicates + 1 < 2 ^ 64) :
    Sim
      (fun a b => WordsAgree a.1 b.1 (recordProducer w (.some ps) seq).1 ∧
        a.2 = (recordProducer w (.some ps) seq).2 ∧
        b.2 = (recordProducer w (.some ps) seq).2)
      (record w (.some gs) seq) (record w (.some zs) (seq.toNat : ℤ)) := by
  refine .bind (arrive_sim h (.refl seq) hreceived hout) fun a b hab => ?_
  obtain ⟨ha, h2, h2'⟩ := hab
  refine .bind (place_sim ha (hr.counters rfl rfl rfl rfl) hs (.refl seq) hdup) fun c d hcd => .pure ?_
  obtain ⟨hc, h3, h3'⟩ := hcd
  exact ⟨hc, by rw [h3, h2]; rfl, by rw [h3', h2']; rfl⟩

end

theorem first_run {α : Type} [Arith α] (w : ReorderWindow) (seq : α) :
    first w seq =
      ⟨{ highContiguous := Arith.add (Arith.sub seq (Arith.ofNat 1)) (Arith.ofNat 1)
         window := shiftLeft (setBit (List.replicate w.words 0) 0)
         received := Arith.add (Arith.ofNat 0) (Arith.ofNat 1)
         duplicates := Arith.ofNat 0
         outOfOrder := Arith.ofNat 0
         confirmedLost := Arith.ofNat 0
         pendingLost := ∅
         lastSeen := seq },
        [.sub seq (Arith.ofNat 1), .index 0, .add (Arith.ofNat 0) (Arith.ofNat 1),
          .add (Arith.sub seq (Arith.ofNat 1)) (Arith.ofNat 1)]⟩ := by
  have hset : getBit (setBit (List.replicate w.words 0) 0) (0 : Nat) = true := by rw [getBit_first]; rfl
  have hclear : getBit (shiftLeft (setBit (List.replicate w.words 0) 0)) (0 : Nat) = false := by
    rw [getBit_shiftLeft, getBit_first]
    rfl
  have hpos := w.pos
  obtain ⟨n, hn⟩ : ∃ n, 64 * (setBit (List.replicate w.words 0) 0).length = n + 2 := by
    rw [length_setBit, List.length_replicate, ReorderWindow.words]
    exact ⟨64 * ((w.size + 63) / 64) - 2, by omega⟩
  simp only [Nat.cast_zero] at hset hclear
  simp only [first, advanceContiguous, hn, advanceLoop, hset, hclear, if_true, if_false,
    Bool.false_eq_true]
  rfl

theorem first_agree (w : ReorderWindow) (seq : UInt64) :
    WordsAgree (first w seq).value (first w (seq.toNat : ℤ)).value (ProducerState.first w seq) := by
  rw [first_run, first_run, first_eq]
  have hzero : Is 0 (Arith.ofNat 0) (Arith.ofNat 0) := .ofNat (by decide)
  refine ⟨⟨?_, ?_⟩, ⟨rfl, rfl⟩, .ofNat (n := 1) (by decide), hzero, hzero, hzero, ⟨rfl, rfl⟩, .refl seq⟩
  · exact congrArg UInt64.toNat (UInt64.sub_add_cancel seq 1)
  · exact Int.sub_add_cancel (seq.toNat : ℤ) 1

/-- **What wraps on a first arrival**: the subtraction of 1 from 0, and the
increment that brings the watermark back. -/
theorem first_inexact (w : ReorderWindow) (seq : UInt64) :
    inexact (first w seq).ops = if seq = 0 then [.sub 0 1, .add (0 - 1) 1] else [] := by
  rw [first_run]
  split
  · next hz =>
    subst hz
    show inexact [.sub (0 : UInt64) 1, .index 0, .add 0 1, .add (0 - 1) 1] = _
    decide
  · next hz =>
    have hpos : 1 ≤ seq.toNat := Nat.pos_of_ne_zero fun h => hz (UInt64.toNat_inj.mp h)
    have hlt := seq.toNat_lt
    have hone : Is 1 (Arith.ofNat 1) (Arith.ofNat 1) := .ofNat (by decide)
    have hsub := Sim.sub (.refl seq) hone hpos
    have hadd := Sim.add hsub.value hone (by omega)
    refine List.filter_eq_nil_iff.mpr ?_
    simp only [List.mem_cons, List.not_mem_nil, or_false, decide_eq_true_eq, not_not]
    rintro op (rfl | rfl | rfl | rfl)
    · exact hsub.exact _ (List.mem_singleton_self _)
    · exact Int.le_refl 0
    · decide
    · exact hadd.exact _ (List.mem_singleton_self _)

end WordState

/-! ## Histories -/

/-- The three states of a history. -/
def AgreedStates : Option (WordState UInt64) → Option (WordState ℤ) → Option ProducerState → Prop
  | .none, .none, .none => True
  | .some gs, .some zs, .some ps => WordsAgree gs zs ps
  | _, _, _ => False

theorem AgreedStates.exists_some {ogs : Option (WordState UInt64)} {ozs : Option (WordState ℤ)}
    {ps : ProducerState} (h : AgreedStates ogs ozs (.some ps)) :
    ∃ gs zs, ogs = .some gs ∧ ozs = .some zs ∧ WordsAgree gs zs ps := by
  cases ogs with
  | none => cases ozs <;> exact h.elim
  | some gs =>
    cases ozs with
    | none => exact h.elim
    | some zs => exact ⟨gs, zs, rfl, rfl, h⟩

/-- A history over unbounded integers. -/
def unbounded (seqs : List UInt64) : List ℤ := seqs.map fun seq => (seq.toNat : ℤ)

/-- One call after the history `pre`, in the three versions. -/
structure CallAgrees (w : ReorderWindow) (p : String) (pre : List UInt64) (seq : UInt64) : Prop where
  states : AgreedStates (WordState.after w (pre ++ [seq])) (WordState.after w (unbounded (pre ++ [seq])))
    ((Tracker.calls w (recordAll p (pre ++ [seq]))).producers.lookup p)
  machine : (WordState.record w (WordState.after w pre) seq).value.2 =
    ((Tracker.calls w (recordAll p pre)).record p seq).2
  integer : (WordState.record w (WordState.after w (unbounded pre)) (seq.toNat : ℤ)).value.2 =
    ((Tracker.calls w (recordAll p pre)).record p seq).2
  wraps : inexact (WordState.record w (WordState.after w pre) seq).ops =
    if pre = [] ∧ seq = 0 then [.sub 0 1, .add (0 - 1) 1] else []

theorem recordAll_snoc (p : String) (pre : List UInt64) (seq : UInt64) :
    recordAll p (pre ++ [seq]) = recordAll p pre ++ [.record p seq] := by simp [recordAll]

theorem callAgrees_first (w : ReorderWindow) (p : String) (seq : UInt64) : CallAgrees w p [] seq := by
  refine ⟨?_, rfl, rfl, ?_⟩
  · have hlook : (Tracker.calls w (recordAll p ([] ++ [seq]))).producers.lookup p =
        .some (ProducerState.first w seq) := by
      rw [recordAll_snoc, lookup_snoc_record]
      rfl
    rw [hlook]
    exact WordState.first_agree w seq
  · rw [if_congr (and_iff_right rfl) rfl rfl, ← WordState.first_inexact w]
    show inexact (_ ++ []) = _
    rw [List.append_nil]

theorem callAgrees {w : ReorderWindow} {p : String} {pre : List UInt64} (hlen : pre.length + 1 < 2 ^ 64)
    (hpre : AgreedStates (WordState.after w pre) (WordState.after w (unbounded pre))
      ((Tracker.calls w (recordAll p pre)).producers.lookup p))
        (seq : UInt64) : CallAgrees w p pre seq := by
  cases hps : (Tracker.calls w (recordAll p pre)).producers.lookup p with
  | none =>
    have hnil := lookup_eq_none.mp hps
    rw [numbers_recordAll, List.map_eq_nil_iff] at hnil
    subst hnil
    exact callAgrees_first w p seq
  | some ps =>
    rw [hps] at hpre
    have hne : pre ≠ [] := by
      rintro rfl
      cases hps
    obtain ⟨st, hst, hr⟩ := exists_state hps
    -- The counters count at most the calls so far.
    have hreceived := received_eq hps
    obtain ⟨hdup, hout⟩ := counts_eq hps
    have hresults := results_length w p (recordAll p pre)
    rw [numbers_recordAll, List.length_map] at hreceived hresults
    have hdup_le := (results w p (recordAll p pre)).countP_le_length (p := (·.isDuplicate))
    have hout_le := (results w p (recordAll p pre)).countP_le_length (p := (·.isOutOfOrder))
    obtain ⟨gs, zs, hgs, hzs, hagree⟩ := hpre.exists_some
    have hsim := WordState.record_sim hagree hr (Gap.ledger_after hst).toSettled seq (by omega)
      (by omega) (by omega)
    have hunb : unbounded (pre ++ [seq]) = unbounded pre ++ [(seq.toNat : ℤ)] := by simp [unbounded]
    refine ⟨?_, ?_, ?_, ?_⟩
    · rw [hunb, recordAll_snoc, lookup_snoc_record, WordState.after_snoc, WordState.after_snoc,
        hgs, hzs, hps]
      exact hsim.value.1
    · rw [hgs, hsim.value.2.1, Tracker.record, hps, Tracker.calls_reorderWindow]
    · rw [hzs, hsim.value.2.2, Tracker.record, hps, Tracker.calls_reorderWindow]
    · rw [hgs, hsim.inexact_eq_nil, if_neg fun h => hne h.1]

theorem agreedStates {w : ReorderWindow} {p : String} {seqs : List UInt64} (h : seqs.length < 2 ^ 64) :
    AgreedStates (WordState.after w seqs) (WordState.after w (unbounded seqs))
      ((Tracker.calls w (recordAll p seqs)).producers.lookup p) := by
  induction seqs using List.reverseRecOn with
  | nil => exact trivial
  | append_singleton pre seq ih =>
    rw [List.length_append, List.length_singleton] at h
    exact (callAgrees h (ih (by omega)) seq).states

/-- **The tracker's machine arithmetic is exact**, in histories of fewer than
`2^64` calls. After every call the machine state, the integer state and the
tracker's agree, every call returns the same in all three, and its machine
operations are exact: positions are not negative, and nothing wraps but the
two operations of a first arrival of 0. -/
theorem arithmetic_exact (w : ReorderWindow) (p : String) {seqs : List UInt64}
    (h : seqs.length < 2 ^ 64) :
    Always (CallAgrees w p) seqs ∧
      Always (fun pre seq => ∀ pos,
        .index pos ∈ (WordState.record w (WordState.after w pre) seq).ops → 0 ≤ pos)
        seqs := by
  have hcalls : Always (CallAgrees w p) seqs := by
    intro pre seq post hseqs
    have hlen : pre.length + 1 + post.length = seqs.length := by
      rw [hseqs, List.length_append, List.length_cons]
      omega
    exact callAgrees (by omega) (agreedStates (by omega)) seq
  refine ⟨hcalls, fun pre seq post hseqs pos hpos => ?_⟩
  by_contra hneg
  -- A negative position would be among what is not exact.
  have hmem : .index pos ∈ inexact (WordState.record w (WordState.after w pre) seq).ops :=
    List.mem_filter.mpr ⟨hpos, by simpa [Op.Exact] using hneg⟩
  rw [(hcalls pre seq post hseqs).wraps] at hmem
  split at hmem <;> simp at hmem

/-- A history from 0 to the largest sequence. -/
theorem arithmetic_exact_extremes :
    ∃ seqs : List UInt64, seqs = [0, 18446744073709551615] ∧ seqs.length < 2 ^ 64 ∧
      CallAgrees minReorderWindow "p" [0] 18446744073709551615 := by
  have hlen : List.length [(0 : UInt64), 18446744073709551615] < 2 ^ 64 := by decide
  exact ⟨_, rfl, hlen, (arithmetic_exact minReorderWindow "p" hlen).1 [0] _ [] rfl⟩

/-- The increment of the watermark wraps too. -/
theorem increment_wraps :
    ∃ op ∈ (WordState.record minReorderWindow .none (0 : UInt64)).ops, ¬ op.Exact ∧ op ≠ .sub 0 1 := by
  refine ⟨.add (0 - 1) 1, ?_, by decide, by decide⟩
  have hmem : .add (0 - 1) 1 ∈ inexact (WordState.first minReorderWindow (0 : UInt64)).ops := by
    rw [WordState.first_inexact]
    decide
  exact List.mem_append_left _ (List.mem_of_mem_filter hmem)

end Burnin
