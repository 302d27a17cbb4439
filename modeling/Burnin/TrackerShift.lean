/-
Translation invariance of the tracker: with a constant added to every sequence
of a producer, call by call the same results, and a state shifted by it
(`translation_invariant`). The workers keep their sequence counters after
warmup, so a measurement starts at any offset.

What a call returns is a function of the numbers recorded before
(`result_eq`), the counters count results (`counts_eq`), and the gap detector
commutes with a shift (`Gap.after_shift`). A shift down is a shift up read the
other way.
-/
import Burnin.TrackerReorder

namespace Burnin

open Past Tracker ProducerState

/-! ## Results -/

/-- What the calls of producer `p` returned, oldest first. -/
def results (w : ReorderWindow) (p : String) : List Call → List Recorded :=
  collect fun pre c => match c with
    | .record p' seq => if p' = p then [((calls w pre).record p seq).2] else []
    | .detectGaps => []

section
variable {w : ReorderWindow} {p : String} {cs : List Call}

theorem results_snoc_record {seq : UInt64} :
    results w p (cs ++ [.record p seq]) = results w p cs ++ [((calls w cs).record p seq).2] := by
  rw [results, collect_snoc]
  simp

theorem results_snoc_none {c : Call} (hc : c.number p = .none) :
    results w p (cs ++ [c]) = results w p cs := by
  rw [results, collect_snoc]
  cases c with
  | record p' seq =>
    have hp : ¬ p' = p := by
      rintro rfl
      simp [Call.number] at hc
    simp [hp]
  | detectGaps => simp

theorem results_length (w : ReorderWindow) (p : String) (cs : List Call) :
    (results w p cs).length = (numbers p cs).length := by
  induction cs using List.reverseRecOn with
  | nil => rfl
  | append_singleton cs c ih =>
    rcases Call.record_or_none p c with ⟨seq, rfl⟩ | hc
    · rw [results_snoc_record, numbers_snoc_record, List.length_append, List.length_append, ih]
      rfl
    · rw [results_snoc_none hc, numbers_snoc_none hc, ih]

theorem lastSeen_eq {ps : ProducerState} (h : ps ∈ (calls w cs).producers.lookup p) :
    (numbers p cs).getLast? = .some ps.lastSeen.toNat := by
  refine calls_rec (motive := fun cs ps => (numbers p cs).getLast? = .some ps.lastSeen.toNat)
    (fun cs seq _ => ?_) (fun cs ps seq _ _ => ?_) (fun cs ps c n hc ih => ?_) h
  · rw [numbers_snoc_record, List.getLast?_concat, (first_counts w seq).2.2.2]
  · rw [numbers_snoc_record, List.getLast?_concat, recordProducer_lastSeen]
  · rw [numbers_snoc_none hc]
    exact ih

/-- **What a call returns**, in terms of the numbers recorded before. -/
theorem result_eq (seq : UInt64) :
    ((calls w cs).record p seq).2 =
      ⟨(Gap.record w.size (Gap.after w.size (numbers p cs)) seq.toNat).2,
        (numbers p cs).getLast?.any (seq.toNat < ·)⟩ := by
  simp only [Tracker.record, calls_reorderWindow]
  cases hps : (calls w cs).producers.lookup p with
  | none =>
    rw [lookup_eq_none.mp hps]
    rfl
  | some ps =>
    obtain ⟨st, hst, hr⟩ := exists_state hps
    have hd := (recordProducer_refines hr (Gap.ledger_after hst).toSettled seq).2
    rw [hst, lastSeen_eq hps, ← hd]
    simp only [recordProducer, arrive, Option.any_some, UInt64.lt_iff_toNat_lt]

theorem counts_eq {ps : ProducerState} (h : ps ∈ (calls w cs).producers.lookup p) :
    ps.duplicates = (results w p cs).countP (·.isDuplicate) ∧
      ps.outOfOrder = (results w p cs).countP (·.isOutOfOrder) := by
  refine calls_rec
    (motive := fun cs ps => ps.duplicates = (results w p cs).countP (·.isDuplicate) ∧
      ps.outOfOrder = (results w p cs).countP (·.isOutOfOrder))
    (fun cs seq hn => ?_) (fun cs ps seq hps ih => ?_) (fun cs ps c n hc ih => ?_) h
  · obtain ⟨-, h2, h3, -⟩ := first_counts w seq
    have hnil : results w p cs = [] := List.eq_nil_of_length_eq_zero (by rw [results_length, hn]; rfl)
    rw [results_snoc_record, hnil, h2, h3]
    simp [Tracker.record, lookup_eq_none.mpr hn, recordProducer]
  · rw [results_snoc_record, recordProducer_duplicates, recordProducer_outOfOrder, List.countP_append,
      List.countP_append, ih.1, ih.2]
    simp only [Tracker.record, hps, calls_reorderWindow, List.countP_singleton, and_self]
  · rw [results_snoc_none hc]
    exact ih

end

/-! ## The shift -/

/-- The sequence `s` with `c` added, which is it when it is a `uint64`. -/
def shiftSeq (c : ℤ) (s : UInt64) : UInt64 := UInt64.ofNat (s.toNat + c).toNat

/-- The result of the addition is a `uint64`. -/
def Shiftable (c : ℤ) (s : UInt64) : Prop := 0 ≤ s.toNat + c ∧ s.toNat + c < 2 ^ 64

theorem Shiftable.toNat_shiftSeq {c : ℤ} {s : UInt64} (h : Shiftable c s) :
    ((shiftSeq c s).toNat : ℤ) = s.toNat + c := by
  obtain ⟨h0, h1⟩ := h
  rw [shiftSeq, UInt64.toNat_ofNat_of_lt' (by simp only [UInt64.size]; omega), Int.toNat_of_nonneg h0]

/-- A history of one producer. -/
def recordAll (p : String) (seqs : List UInt64) : List Call := seqs.map (.record p)

theorem numbers_recordAll (p : String) (seqs : List UInt64) :
    numbers p (recordAll p seqs) = seqs.map UInt64.toNat := by
  rw [recordAll, numbers, List.filterMap_map]
  simp [Function.comp_def, Call.number]

/-- The state `ps'` is `ps` shifted by `c`. -/
structure ShiftedState (c : ℤ) (ps ps' : ProducerState) : Prop where
  received : ps'.received = ps.received
  duplicates : ps'.duplicates = ps.duplicates
  outOfOrder : ps'.outOfOrder = ps.outOfOrder
  confirmedLost : ps'.confirmedLost = ps.confirmedLost
  window : ps'.window = ps.window
  highContiguous : (ps'.highContiguous.toNat : ℤ) = ps.highContiguous.toNat + c
  lastSeen : (ps'.lastSeen.toNat : ℤ) = ps.lastSeen.toNat + c
  pendingLost : ps'.pendingLost.image (fun q => (q.toNat : ℤ)) = ps.pendingLost.image fun q =>
    (q.toNat : ℤ) + c

theorem ShiftedState.symm {c : ℤ} {ps ps' : ProducerState} (h : ShiftedState c ps ps') :
    ShiftedState (-c) ps' ps where
  received := h.received.symm
  duplicates := h.duplicates.symm
  outOfOrder := h.outOfOrder.symm
  confirmedLost := h.confirmedLost.symm
  window := h.window.symm
  highContiguous := by have := h.highContiguous; omega
  lastSeen := by have := h.lastSeen; omega
  pendingLost := by
    have himage := congrArg (Finset.image (· + -c)) h.pendingLost
    rw [Finset.image_image, Finset.image_image] at himage
    simpa [Function.comp_def] using himage.symm

theorem pendingLost_shift {w : ReorderWindow} {c : ℕ} {ps ps' : ProducerState} {st : Gap.State}
    (hs : Gap.Settled st) (hr : Refines w ps st) (hr' : Refines w ps' (st.shift c)) :
    ps'.pendingLost.image (fun q => (q.toNat : ℤ)) = ps.pendingLost.image fun q =>
      (q.toNat : ℤ) + c := by
  ext z
  simp only [Finset.mem_image]
  constructor
  · rintro ⟨q', hq', rfl⟩
    obtain ⟨q, hq, he⟩ := Finset.mem_map.mp ((hr'.pending q').mp hq')
    have he : q + c = q'.toNat := he
    have hlt := q'.toNat_lt
    have hto : (UInt64.ofNat q).toNat = q :=
      UInt64.toNat_ofNat_of_lt' (by simp only [UInt64.size]; omega)
    refine ⟨UInt64.ofNat q, (hr.pending _).mpr (hto.symm ▸ hq), ?_⟩
    rw [hto]
    omega
  · rintro ⟨q, hq, rfl⟩
    -- The shifted suspect is at most the shifted watermark.
    have hle := hs.pending_le _ ((hr.pending q).mp hq)
    have hhigh : ps'.highContiguous.toNat = st.high + c := hr'.high
    have hlt := ps'.highContiguous.toNat_lt
    have hto : (UInt64.ofNat (q.toNat + c)).toNat = q.toNat + c :=
      UInt64.toNat_ofNat_of_lt' (by simp only [UInt64.size]; omega)
    refine ⟨UInt64.ofNat (q.toNat + c), (hr'.pending _).mpr ?_, ?_⟩
    · rw [hto]
      exact Gap.add_mem_map_add.mpr ((hr.pending q).mp hq)
    · rw [hto]
      omega

section
variable {w : ReorderWindow} {p : String} {c : ℕ} {seqs : List UInt64} (h : ∀ s ∈ seqs, Shiftable c s)
include h

theorem numbers_shift :
    numbers p (recordAll p (seqs.map (shiftSeq c))) = (numbers p (recordAll p seqs)).map (· + c) := by
  rw [numbers_recordAll, numbers_recordAll, List.map_map, List.map_map]
  refine List.map_congr_left fun s hs => ?_
  have := (h s hs).toNat_shiftSeq
  simp only [Function.comp_apply]
  omega

theorem results_shift : results w p (recordAll p (seqs.map (shiftSeq c))) =
    results w p (recordAll p seqs) := by
  induction seqs using List.reverseRecOn with
  | nil => rfl
  | append_singleton seqs s ih =>
    have hs := (h s (by simp)).toNat_shiftSeq
    have hseqs : ∀ s ∈ seqs, Shiftable c s := fun s hs => h s (by simp [hs])
    have hs : (shiftSeq c s).toNat = s.toNat + c := by omega
    have hnum := numbers_shift (p := p) hseqs
    have ih := ih hseqs
    simp only [recordAll, List.map_append, List.map_singleton] at hnum ih ⊢
    rw [results_snoc_record, results_snoc_record, ih, result_eq, result_eq, hnum, hs, Gap.after_shift,
      Gap.record_shift, List.getLast?_map]
    congr 3
    cases (numbers p (seqs.map (Call.record p))).getLast? with
    | none => rfl
    | some n => simp

theorem shiftedState_up :
    Option.Rel (ShiftedState c) ((calls w (recordAll p seqs)).producers.lookup p)
      ((calls w (recordAll p (seqs.map (shiftSeq c)))).producers.lookup p) := by
  have hnum := numbers_shift (p := p) h
  have hres := results_shift (w := w) (p := p) h
  have hst' := Gap.after_shift w.size c (numbers p (recordAll p seqs))
  rw [← hnum] at hst'
  cases hps : (calls w (recordAll p seqs)).producers.lookup p with
  | none =>
    rw [lookup_eq_none.mp hps] at hnum
    rw [lookup_eq_none.mpr hnum]
    exact .none
  | some ps =>
    obtain ⟨st, hst, hr⟩ := exists_state hps
    rw [hst] at hst'
    obtain ⟨ps', hps', hr'⟩ := exists_producer hst'
    rw [hps']
    have hpend := pendingLost_shift (Gap.ledger_after hst).toSettled hr hr'
    have hlast := lastSeen_eq hps'
    rw [hnum, List.getLast?_map, lastSeen_eq hps] at hlast
    refine .some
      { received := by rw [received_eq hps, received_eq hps', hnum, List.length_map]
        duplicates := by rw [(counts_eq hps).1, (counts_eq hps').1, hres]
        outOfOrder := by rw [(counts_eq hps).2, (counts_eq hps').2, hres]
        confirmedLost := ?_
        window := window_ext (hr'.length.trans hr.length.symm) fun i => Bool.eq_iff_iff.mpr ?_
        highContiguous := by rw [hr.high, hr'.high]; rfl
        lastSeen := ?_
        pendingLost := hpend }
    · have hcard := congrArg Finset.card hpend
      rw [Finset.card_image_of_injective _ fun a b hab => UInt64.toNat_inj.mp (by simpa using hab),
        Finset.card_image_of_injective _ fun a b hab =>
          UInt64.toNat_inj.mp (by simpa using hab)] at hcard
      rw [hr.lost, hr'.lost, hcard]
    · rw [hr.bits, hr'.bits]
      simp only [Gap.State.shift]
      rw [show st.high + c + 1 + i = st.high + 1 + i + c by omega, Gap.add_mem_map_add]
    · have hlast := Option.some.inj hlast
      simp only at hlast
      omega

end

/-- **Translation invariance**: with `c` added to every sequence of a
producer's history since `New` or `Reset`, none leaving `uint64`, the calls
return the same and the state is shifted. -/
theorem translation_invariant {w : ReorderWindow} {p : String} {c : ℤ} {seqs : List UInt64}
    (h : ∀ s ∈ seqs, Shiftable c s) :
    results w p (recordAll p (seqs.map (shiftSeq c))) = results w p (recordAll p seqs) ∧
      Option.Rel (ShiftedState c) ((calls w (recordAll p seqs)).producers.lookup p)
        ((calls w (recordAll p (seqs.map (shiftSeq c)))).producers.lookup p) := by
  obtain ⟨n, rfl | rfl⟩ := c.eq_nat_or_neg
  · exact ⟨results_shift h, shiftedState_up h⟩
  · -- The given history is the shifted one, shifted up.
    have hup : ∀ s ∈ seqs.map (shiftSeq (-n)), Shiftable n s := by
      intro s' hs'
      obtain ⟨s, hs, rfl⟩ := List.mem_map.mp hs'
      have hto := (h s hs).toNat_shiftSeq
      have hlt := s.toNat_lt
      constructor <;> omega
    have hback : (seqs.map (shiftSeq (-n))).map (shiftSeq n) = seqs := by
      rw [List.map_map]
      refine (List.map_congr_left fun s hs => ?_).trans (List.map_id seqs)
      have hto := (h s hs).toNat_shiftSeq
      have hto' := (hup _ (List.mem_map_of_mem hs)).toNat_shiftSeq
      refine UInt64.toNat_inj.mp ?_
      simp only [Function.comp_apply, id_eq]
      omega
    have hres := results_shift (w := w) (p := p) hup
    have hrel := shiftedState_up (w := w) (p := p) hup
    rw [hback] at hres hrel
    refine ⟨hres.symm, ?_⟩
    generalize (calls w (recordAll p seqs)).producers.lookup p = ops,
      (calls w (recordAll p (seqs.map (shiftSeq (-n))))).producers.lookup p = ops' at hrel
    cases hrel with
    | none => exact .none
    | some h => exact .some h.symm

/-- A history from 0 on with a late sequence, and the same from 1000 on. -/
theorem translation_from_zero :
    ∃ seqs : List UInt64, seqs = [0, 2, 1] ∧ (∀ s ∈ seqs, Shiftable 1000 s) ∧
      results minReorderWindow "p" (recordAll "p" [1000, 1002, 1001]) =
        results minReorderWindow "p" (recordAll "p" seqs) := by
  have hs : ∀ s ∈ [(0 : UInt64), 2, 1], Shiftable 1000 s := by simp [Shiftable]
  have hmap : [(0 : UInt64), 2, 1].map (shiftSeq 1000) = [1000, 1002, 1001] := by simp [shiftSeq]
  refine ⟨_, rfl, hs, ?_⟩
  rw [← hmap]
  exact (translation_invariant hs).1

end Burnin
