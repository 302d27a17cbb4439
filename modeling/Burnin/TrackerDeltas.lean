/-
What `DetectGaps` reports of one producer over a history of calls, whichever
task of the engine makes them.

`confirmedLost` rises when the window slides and falls when a suspected loss is
recovered, and each `DetectGaps` reports its rise since the last one, none when
it fell. What was reported is therefore the current value and what the samples
fell in between (`deltas_telescope`).
-/
import Burnin.TrackerInvariant

namespace Burnin

open Past Tracker ProducerState

/-! ## Samples of a counter -/

/-- How far a sampled counter fell from one sample to the next, in all. -/
def fallen : List Nat → Nat
  | a :: b :: samples => (a - b) + fallen (b :: samples)
  | _ => 0

theorem fallen_snoc (samples : List Nat) (b : Nat) :
    fallen (samples ++ [b]) = fallen samples + (samples.getLastD 0 - b) := by
  induction samples with
  | nil => simp [fallen]
  | cons a samples ih =>
    cases samples with
    | nil => simp [fallen]
    | cons a' samples =>
      simp only [List.cons_append, fallen, List.getLastD_cons] at ih ⊢
      rw [ih, Nat.add_assoc]

theorem fallen_eq_zero {samples : List Nat} : fallen samples = 0 ↔ samples.Pairwise (· ≤ ·) := by
  rw [← List.isChain_iff_pairwise]
  induction samples with
  | nil => simp [fallen]
  | cons a samples ih =>
    cases samples with
    | nil => simp [fallen]
    | cons b samples =>
      rw [fallen, Nat.add_eq_zero_iff, ih, List.isChain_cons_cons, Nat.sub_eq_zero_iff_le]

/-! ## Deltas and samples -/

namespace Tracker

/-- The delta that a call reports for producer `p`, if it reports one. -/
def delta (t : Tracker) (p : String) : Call → List Nat
  | .record _ _ => []
  | .detectGaps => (t.detectGaps.2.filter fun d => d.1 = p).map (·.2)

/-- The `confirmedLost` of producer `p` that a call reads, if it reads it. -/
def sample (t : Tracker) (p : String) : Call → List Nat
  | .record _ _ => []
  | .detectGaps => ((t.producers.lookup p).map (·.confirmedLost)).toList

theorem delta_detectGaps (t : Tracker) (p : String) :
    t.delta p .detectGaps = (t.producers.lookup p).toList.filterMap fun ps =>
      if ps.confirmedLost > ps.lastReportedLost then
        .some (ps.confirmedLost - ps.lastReportedLost)
      else .none := by
  rw [AList.lookup, ← List.lookupAll_eq_dlookup p t.producers.nodupKeys]
  simp only [delta, detectGaps]
  generalize t.producers.entries = entries
  induction entries with
  | nil => rfl
  | cons e entries ih =>
    obtain ⟨k, ps⟩ := e
    by_cases hk : k = p
    · subst hk
      rw [List.lookupAll_cons_eq]
      by_cases hr : ps.confirmedLost > ps.lastReportedLost
      · simp [hr, ih]
      · simp [hr, ih]
    · rw [List.lookupAll_cons_ne _ _ (Ne.symm hk), ← ih]
      by_cases hr : ps.confirmedLost > ps.lastReportedLost
      · simp [hr, hk]
      · simp [hr]

end Tracker

/-- All that was reported for the producer. -/
def deltas (w : ReorderWindow) (p : String) : List Call → List Nat :=
  collect fun pre c => (calls w pre).delta p c

/-- The values of its `confirmedLost` that were read. -/
def samples (w : ReorderWindow) (p : String) : List Call → List Nat :=
  collect fun pre c => (calls w pre).sample p c

namespace Tracker

/-- What `DetectGaps` last read of producer `p`, 0 before it read anything. -/
def reported (t : Tracker) (p : String) : Nat := (t.producers.lookup p).elim 0 (·.lastReportedLost)

end Tracker

theorem reported_record (w : ReorderWindow) (cs : List Call) (p p' : String) (seq : UInt64) :
    (calls w (cs ++ [.record p' seq])).reported p = (calls w cs).reported p := by
  by_cases hp : p' = p
  · subst hp
    rw [reported, lookup_snoc_record, reported]
    cases (calls w cs).producers.lookup p' with
    | none => rw [recordProducer, first_eq]; rfl
    | some ps =>
      simp only [recordProducer]
      rw [place_fields]
      rfl
  · rw [calls_snoc, reported, call, Tracker.record, AList.lookup_insert_ne (Ne.symm hp), reported]

theorem reported_detectGaps (w : ReorderWindow) (cs : List Call) (p : String) :
    (calls w (cs ++ [.detectGaps])).reported p =
      ((calls w cs).producers.lookup p).elim 0 (·.confirmedLost) := by
  rw [calls_snoc, reported, call, detectGaps, lookup_mapProducers]
  cases (calls w cs).producers.lookup p <;> rfl

/-- What was reported is the last sample and what the samples fell. -/
structure Telescopes (w : ReorderWindow) (p : String) (cs : List Call) : Prop where
  last : (samples w p cs).getLastD 0 = (calls w cs).reported p
  sum : (deltas w p cs).sum = (calls w cs).reported p + fallen (samples w p cs)

/-- **One more call.** A sample adds its rise over the last one to the sum, or
its fall below it to what the samples fell. -/
theorem Telescopes.step {w : ReorderWindow} {p : String} {cs : List Call}
    (h : Telescopes w p cs) (c : Call) : Telescopes w p (cs ++ [c]) := by
  cases c with
  | record p' seq =>
    have hd : deltas w p (cs ++ [.record p' seq]) = deltas w p cs := by
      rw [deltas, collect_snoc, delta, List.append_nil]
    have hs : samples w p (cs ++ [.record p' seq]) = samples w p cs := by
      rw [samples, collect_snoc, sample, List.append_nil]
    refine ⟨?_, ?_⟩
    · rw [hs, reported_record]
      exact h.last
    · rw [hd, hs, reported_record]
      exact h.sum
  | detectGaps =>
    have hd : deltas w p (cs ++ [.detectGaps]) = deltas w p cs ++ (calls w cs).delta p .detectGaps := by
      rw [deltas, collect_snoc]
    have hs : samples w p (cs ++ [.detectGaps]) = samples w p cs ++
        (calls w cs).sample p .detectGaps := by
      rw [samples, collect_snoc]
    have hnow := reported_detectGaps w cs p
    rw [delta_detectGaps] at hd
    rw [sample] at hs
    cases hps : (calls w cs).producers.lookup p with
    | none =>
      have hlast : (calls w cs).reported p = 0 := by rw [reported, hps]; rfl
      rw [hps] at hd hs hnow
      simp only [Option.toList_none, List.filterMap_nil, Option.map_none, List.append_nil,
        Option.elim_none] at hd hs hnow
      refine ⟨?_, ?_⟩
      · rw [hs, hnow, h.last, hlast]
      · rw [hd, hs, hnow, ← hlast]
        exact h.sum
    | some ps =>
      have hlast : (calls w cs).reported p = ps.lastReportedLost := by rw [reported, hps]; rfl
      rw [hps] at hd hs hnow
      simp only [Option.toList_some, Option.map_some, Option.elim_some] at hd hs hnow
      refine ⟨?_, ?_⟩
      · rw [hs, hnow, List.getLastD_concat]
      · have hsum := h.sum
        have hfall := fallen_snoc (samples w p cs) ps.confirmedLost
        rw [h.last, hlast] at hfall
        rw [hlast] at hsum
        rw [hd, hs, hnow, List.sum_append, hsum, hfall]
        by_cases hr : ps.confirmedLost > ps.lastReportedLost
        · simp only [List.filterMap_cons, List.filterMap_nil, if_pos hr, List.sum_singleton]
          omega
        · simp only [List.filterMap_cons, List.filterMap_nil, if_neg hr, List.sum_nil]
          omega

theorem telescopes (w : ReorderWindow) (p : String) (cs : List Call) : Telescopes w p cs := by
  induction cs using List.reverseRecOn with
  | nil => exact ⟨rfl, rfl⟩
  | append_singleton cs c ih => exact ih.step c

/-- There are fewer suspects than sequences, so a `uint64` counts them. -/
theorem confirmedLost_lt {w : ReorderWindow} {cs : List Call} {p : String} {ps : ProducerState}
    (h : ps ∈ (calls w cs).producers.lookup p) : ps.confirmedLost < 2 ^ 64 := by
  have hset : {q | Suspected w p cs q} = (ps.pendingLost : Set UInt64) := by
    ext q
    exact (mem_pendingLost h).symm
  have hle : {q | Suspected w p cs q}.ncard ≤ 2 ^ 64 - 1 :=
    ncard_suspected_le fun seq _ => Nat.le_sub_one_of_lt seq.toNat_lt
  rw [hset, Set.ncard_coe_finset, ← confirmedLost_eq h] at hle
  omega

theorem mem_delta {w : ReorderWindow} {p : String} {cs : List Call} {d : Nat}
    (h : d ∈ (calls w cs).delta p .detectGaps) :
    ∃ ps ∈ (calls w cs).producers.lookup p,
      ps.lastReportedLost < ps.confirmedLost ∧ d + ps.lastReportedLost = ps.confirmedLost ∧
        (UInt64.ofNat ps.confirmedLost - UInt64.ofNat ps.lastReportedLost).toNat = d := by
  rw [delta_detectGaps, List.mem_filterMap] at h
  obtain ⟨ps, hps, hd⟩ := h
  rw [Option.mem_toList] at hps
  by_cases hr : ps.confirmedLost > ps.lastReportedLost
  · rw [if_pos hr, Option.some.injEq] at hd
    have hlt := confirmedLost_lt hps
    have hcur : (UInt64.ofNat ps.confirmedLost).toNat = ps.confirmedLost := UInt64.toNat_ofNat_of_lt' hlt
    have hlast : (UInt64.ofNat ps.lastReportedLost).toNat = ps.lastReportedLost :=
      UInt64.toNat_ofNat_of_lt' (Nat.lt_trans hr hlt)
    refine ⟨ps, hps, hr, by omega, ?_⟩
    rw [UInt64.toNat_sub_of_le _ _ (UInt64.le_iff_toNat_le.mpr (by omega)), hcur, hlast, hd]
  · rw [if_neg hr] at hd
    cases hd

theorem one_le_of_mem_deltas {w : ReorderWindow} {p : String} {cs : List Call} {d : Nat}
    (h : d ∈ deltas w p cs) : 1 ≤ d := by
  induction cs using List.reverseRecOn with
  | nil => cases h
  | append_singleton cs c ih =>
    rw [deltas, collect_snoc, List.mem_append] at h
    rcases h with h | h
    · exact ih h
    cases c with
    | record p' seq => cases h
    | detectGaps =>
      obtain ⟨ps, -, hlt, hd, -⟩ := mem_delta h
      omega

/-- **The deltas of a producer telescope.** After any calls since `New` or
`Reset`: a delta that `DetectGaps` reports is at least 1 and is the exact
difference of the two counters, which the `uint64` subtraction computes without
underflow; and after a `DetectGaps` the deltas reported so far add up to the
current `confirmedLost` and what its samples fell in between. -/
theorem deltas_telescope (w : ReorderWindow) (p : String) (cs : List Call) :
    (∀ d ∈ deltas w p cs, 1 ≤ d) ∧
      (∀ d ∈ (calls w cs).delta p .detectGaps, ∃ ps ∈ (calls w cs).producers.lookup p,
        ps.lastReportedLost < ps.confirmedLost ∧ d + ps.lastReportedLost = ps.confirmedLost ∧
          (UInt64.ofNat ps.confirmedLost - UInt64.ofNat ps.lastReportedLost).toNat = d) ∧
      ∀ ps ∈ (calls w (cs ++ [.detectGaps])).producers.lookup p,
        let sum := (deltas w p (cs ++ [.detectGaps])).sum
        let sampled := samples w p (cs ++ [.detectGaps])
        sum = ps.confirmedLost + fallen sampled ∧ ps.confirmedLost ≤ sum ∧
          (sum = ps.confirmedLost ↔ sampled.Pairwise (· ≤ ·)) := by
  refine ⟨fun d hd => one_le_of_mem_deltas hd, fun d hd => mem_delta hd, ?_⟩
  intro ps hps sum sampled
  have hcur : (calls w (cs ++ [.detectGaps])).reported p = ps.confirmedLost := by
    rw [reported, hps]
    rw [calls_snoc, call, detectGaps, lookup_mapProducers, Option.mem_map] at hps
    obtain ⟨ps₀, -, rfl⟩ := hps
    rfl
  have hsum : sum = ps.confirmedLost + fallen sampled :=
    hcur ▸ (telescopes w p (cs ++ [.detectGaps])).sum
  refine ⟨hsum, by omega, ?_⟩
  rw [← fallen_eq_zero, hsum]
  omega

end Burnin
