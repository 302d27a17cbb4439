/-
The tracker over whole histories of calls: what it calls lost and what it
calls a duplicate, against what was recorded.

A history is the list of calls since `New` (a `Reset` tracker is a new one,
`reset_eq_new`). By `calls_related` each producer's state after a history is
the gap detector's after the producer's own numbers, so its ledger
(`Gap.ledger_after`) speaks about calls. Four properties a caller would want
of the tracker do not hold of it, and for each it is proved exactly when it
does:

* no sequence that was recorded is suspected (`NoFalseLoss`);
* below the watermark, what was not recorded is suspected (`NoMissedLoss`);
* a repeat is called a duplicate (`Flagged`);
* only a repeat is called a duplicate.

What `TotalLost` is, for calls of one producer, closes the module
(`totalLost_calls`).
-/
import Mathlib.Data.FinEnum
import Mathlib.Data.Set.Card
import Burnin.TrackerFacts

namespace Burnin

open Past

inductive Call where
  | record (producerID : String) (seq : UInt64)
  | detectGaps
  deriving DecidableEq

namespace Tracker

def call (t : Tracker) : Call → Tracker
  | .record producerID seq => (t.record producerID seq).1
  | .detectGaps => t.detectGaps.1

/-- The tracker after a history of calls. -/
def calls (w : ReorderWindow) (cs : List Call) : Tracker := cs.foldl call (new w)

theorem reset_eq_new (t : Tracker) : t.reset = new t.reorderWindow := rfl

theorem calls_snoc (w : ReorderWindow) (cs : List Call) (c : Call) :
    calls w (cs ++ [c]) = (calls w cs).call c := by
  simp [calls, List.foldl_append]

theorem calls_reorderWindow (w : ReorderWindow) (cs : List Call) : (calls w cs).reorderWindow = w := by
  induction cs using List.reverseRecOn with
  | nil => rfl
  | append_singleton cs c ih =>
    rw [calls_snoc]
    cases c <;> exact ih

theorem lookup_mapProducers (f : ProducerState → ProducerState) (m : Producers) (p : String) :
    (mapProducers f m).lookup p = (m.lookup p).map f := by
  obtain ⟨entries, hn⟩ := m
  simp only [AList.lookup, mapProducers]
  clear hn
  induction entries with
  | nil => rfl
  | cons e entries ih =>
    obtain ⟨k, ps⟩ := e
    by_cases hk : p = k
    · subst hk; simp
    · rw [List.map_cons, List.dlookup_cons_ne _ _ hk, List.dlookup_cons_ne _ _ hk, ih]

end Tracker

/-- The number a call records for producer `p`. -/
def Call.number (p : String) : Call → Option Nat
  | .record p' seq => if p' = p then .some seq.toNat else .none
  | .detectGaps => .none

/-- The numbers recorded for producer `p`, oldest first. -/
def numbers (p : String) (cs : List Call) : List Nat := cs.filterMap (Call.number p)

theorem Call.number_eq_some {p : String} {c : Call} {n : Nat} :
    c.number p = .some n ↔ ∃ seq : UInt64, c = .record p seq ∧ seq.toNat = n := by
  cases c with
  | record p' seq =>
    simp only [Call.number, Call.record.injEq]
    by_cases hp : p' = p
    · simp [hp]
    · simp [hp]
  | detectGaps => simp [Call.number]

theorem mem_numbers {p : String} {cs : List Call} {q : UInt64} :
    q.toNat ∈ numbers p cs ↔ .record p q ∈ cs := by
  simp only [numbers, List.mem_filterMap, Call.number_eq_some]
  constructor
  · intro h
    obtain ⟨c, hc, seq, rfl, hq⟩ := h
    rwa [UInt64.toNat_inj.mp hq] at hc
  · exact fun h => ⟨_, h, q, rfl, rfl⟩

theorem numbers_snoc_record {p : String} {cs : List Call} {seq : UInt64} :
    numbers p (cs ++ [.record p seq]) = numbers p cs ++ [seq.toNat] := by
  simp [numbers, List.filterMap_append, Call.number]

theorem numbers_snoc_none {p : String} {cs : List Call} {c : Call} (h : c.number p = .none) :
    numbers p (cs ++ [c]) = numbers p cs := by
  simp [numbers, List.filterMap_append, h]

open Tracker

theorem Call.record_or_none (p : String) (c : Call) :
    (∃ seq, c = .record p seq) ∨ c.number p = .none := by
  cases hn : c.number p with
  | none => exact .inr rfl
  | some n =>
    obtain ⟨seq, rfl, -⟩ := Call.number_eq_some.mp hn
    exact .inl ⟨seq, rfl⟩

section
variable (w : ReorderWindow) (cs : List Call) {p : String}

theorem lookup_snoc_record (seq : UInt64) :
    (calls w (cs ++ [.record p seq])).producers.lookup p =
      .some (recordProducer w ((calls w cs).producers.lookup p) seq).1 := by
  rw [calls_snoc]
  simp only [call, Tracker.record, calls_reorderWindow, AList.lookup_insert]

/-- A call that records nothing for a producer leaves all of its state but what
`DetectGaps` has reported. -/
theorem lookup_snoc_none {c : Call} (hc : c.number p = .none) :
    ∃ reported : ProducerState → Nat, (calls w (cs ++ [c])).producers.lookup p =
      ((calls w cs).producers.lookup p).map fun ps => { ps with lastReportedLost := reported ps } := by
  rw [calls_snoc]
  cases c with
  | record p' seq =>
    have hp : p ≠ p' := by
      rintro rfl
      simp [Call.number] at hc
    refine ⟨(·.lastReportedLost), ?_⟩
    simp only [call, Tracker.record]
    rw [AList.lookup_insert_ne hp, Option.map_id']
  | detectGaps => exact ⟨(·.confirmedLost), lookup_mapProducers report _ p⟩

end

/-- **The tracker refines one gap detector per producer**, whatever the calls
of the others and of `DetectGaps` in between. -/
theorem calls_related (w : ReorderWindow) (cs : List Call) (p : String) :
    Option.Rel (Refines w) ((calls w cs).producers.lookup p) (Gap.after w.size (numbers p cs)) := by
  induction cs using List.reverseRecOn with
  | nil => exact .none
  | append_singleton cs c ih =>
    rcases Call.record_or_none p c with ⟨seq, rfl⟩ | hc
    · rw [lookup_snoc_record, numbers_snoc_record, Gap.after_snoc]
      cases hst : Gap.after w.size (numbers p cs) with
      | none =>
        rw [hst] at ih
        generalize (calls w cs).producers.lookup p = ops at ih
        cases ih with
        | none => exact .some (first_refines w seq)
      | some st =>
        rw [hst] at ih
        generalize (calls w cs).producers.lookup p = ops at ih
        cases ih with
        | some h => exact .some (recordProducer_refines h (Gap.ledger_after hst).toSettled seq).1
    · obtain ⟨reported, hl⟩ := lookup_snoc_none w cs hc
      rw [hl, numbers_snoc_none hc]
      generalize (calls w cs).producers.lookup p = ops, Gap.after w.size (numbers p cs) = ost at ih
      cases ih with
      | none => exact .none
      | some h => exact .some (h.counters rfl rfl rfl rfl)

theorem exists_state {w : ReorderWindow} {cs : List Call} {p : String} {ps : ProducerState}
    (h : ps ∈ (calls w cs).producers.lookup p) :
    ∃ st, Gap.after w.size (numbers p cs) = .some st ∧ Refines w ps st := by
  have hr := calls_related w cs p
  rw [Option.mem_def] at h
  rw [h] at hr
  cases hst : Gap.after w.size (numbers p cs) with
  | none => rw [hst] at hr; cases hr
  | some st =>
    rw [hst] at hr
    cases hr with
    | some hr => exact ⟨st, rfl, hr⟩

theorem exists_producer {w : ReorderWindow} {cs : List Call} {p : String} {st : Gap.State}
    (h : Gap.after w.size (numbers p cs) = .some st) :
    ∃ ps, (calls w cs).producers.lookup p = .some ps ∧ Refines w ps st := by
  have hr := calls_related w cs p
  rw [h] at hr
  cases hps : (calls w cs).producers.lookup p with
  | none => rw [hps] at hr; cases hr
  | some ps =>
    rw [hps] at hr
    cases hr with
    | some hr => exact ⟨ps, rfl, hr⟩

theorem lookup_eq_none {w : ReorderWindow} {cs : List Call} {p : String} :
    (calls w cs).producers.lookup p = .none ↔ numbers p cs = [] := by
  rw [← Gap.after_eq_none (W := w.size)]
  have hr := calls_related w cs p
  generalize (calls w cs).producers.lookup p = ops, Gap.after w.size (numbers p cs) = ost at hr
  cases hr with
  | none => simp
  | some => simp

/-! ## What an arrival does to the window

Each is a condition on the tracker before the arrival `seq` of producer `p`,
in terms of the producer's watermark. -/

/-- `seq` is beyond the window, so that `Record` hands it to `slideWindow`. -/
def Beyond (t : Tracker) (p : String) (seq : UInt64) : Prop :=
  ∃ ps ∈ t.producers.lookup p, ps.highContiguous.toNat + t.reorderWindow.size < seq.toNat

/-- `seq` slides the watermark over `q`, which is inside the window. -/
def Evicts (t : Tracker) (p : String) (seq q : UInt64) : Prop :=
  ∃ ps ∈ t.producers.lookup p, ps.highContiguous.toNat < q.toNat ∧
    q.toNat ≤ ps.highContiguous.toNat + t.reorderWindow.size ∧
    q.toNat + t.reorderWindow.size < seq.toNat

/-- `seq` slides the watermark over `q`, which is itself beyond the window. -/
def Skips (t : Tracker) (p : String) (seq q : UInt64) : Prop :=
  ∃ ps ∈ t.producers.lookup p, ps.highContiguous.toNat + t.reorderWindow.size < q.toNat ∧
    q.toNat + t.reorderWindow.size < seq.toNat

/-- Some call recorded `q` when it was not beyond the window. -/
def Tracked (w : ReorderWindow) (p : String) (cs : List Call) (q : UInt64) : Prop :=
  Once (fun pre c => c = .record p q ∧ ¬ Beyond (calls w pre) p q) cs

/-- Some call slid the watermark over `q` from inside the window. -/
def Evicted (w : ReorderWindow) (p : String) (cs : List Call) (q : UInt64) : Prop :=
  Once (fun pre c => ∃ seq, c = .record p seq ∧ Evicts (calls w pre) p seq q) cs

/-- Some call slid the watermark over `q`, which was not tracked, from inside
the window, and `q` has not been recorded since. -/
def Suspected (w : ReorderWindow) (p : String) (cs : List Call) (q : UInt64) : Prop :=
  Since (fun pre c => ∃ seq, c = .record p seq ∧ Evicts (calls w pre) p seq q ∧ ¬ Tracked w p pre q)
    (· = .record p q) cs

/-- Some call slid the watermark over `q` from beyond the window. -/
def Skipped (w : ReorderWindow) (p : String) (cs : List Call) (q : UInt64) : Prop :=
  Once (fun pre c => ∃ seq, c = .record p seq ∧ Skips (calls w pre) p seq q) cs

section
variable {w : ReorderWindow} {p : String} {cs : List Call} {seq q : UInt64}

theorem exists_high_iff {P : Nat → Prop} :
    (∃ ps ∈ (calls w cs).producers.lookup p, P ps.highContiguous.toNat) ↔
      ∃ st ∈ Gap.after w.size (numbers p cs), P st.high := by
  constructor
  · intro ⟨ps, hps, h⟩
    obtain ⟨st, hst, hr⟩ := exists_state hps
    exact ⟨st, hst, hr.high ▸ h⟩
  · intro ⟨st, hst, h⟩
    obtain ⟨ps, hps, hr⟩ := exists_producer hst
    exact ⟨ps, hps, hr.high.symm ▸ h⟩

theorem beyond_iff_gap : Beyond (calls w cs) p seq ↔ Gap.Beyond w.size (numbers p cs) seq.toNat := by
  rw [Beyond, Gap.Beyond, calls_reorderWindow]
  exact exists_high_iff (P := fun high => high + w.size < seq.toNat)

theorem evicts_iff_gap :
    Evicts (calls w cs) p seq q ↔ Gap.Evicts w.size (numbers p cs) seq.toNat q.toNat := by
  rw [Evicts, Gap.Evicts, calls_reorderWindow]
  exact exists_high_iff
    (P := fun high => high < q.toNat ∧ q.toNat ≤ high + w.size ∧ q.toNat + w.size < seq.toNat)

theorem skips_iff_gap : Skips (calls w cs) p seq q ↔
    Gap.Skips w.size (numbers p cs) seq.toNat q.toNat := by
  rw [Skips, Gap.Skips, calls_reorderWindow]
  exact exists_high_iff (P := fun high => high + w.size < q.toNat ∧ q.toNat + w.size < seq.toNat)

theorem tracked_iff_gap : Tracked w p cs q ↔ Gap.Tracked w.size (numbers p cs) q.toNat := by
  rw [Gap.Tracked, numbers, once_filterMap]
  refine once_congr fun pre c => ?_
  simp only [Lift, Call.number_eq_some]
  constructor
  · intro h
    obtain ⟨rfl, hb⟩ := h
    exact ⟨_, ⟨q, rfl, rfl⟩, rfl, fun h => hb (beyond_iff_gap.mpr h)⟩
  · intro h
    obtain ⟨_, ⟨seq, rfl, rfl⟩, hq, hb⟩ := h
    obtain rfl := UInt64.toNat_inj.mp hq
    exact ⟨rfl, fun h => hb (beyond_iff_gap.mp h)⟩

theorem skipped_iff_gap : Skipped w p cs q ↔ Gap.Skipped w.size (numbers p cs) q.toNat := by
  rw [Gap.Skipped, numbers, once_filterMap]
  refine once_congr fun pre c => ?_
  simp only [Lift, Call.number_eq_some]
  constructor
  · intro h
    obtain ⟨seq, rfl, hs⟩ := h
    exact ⟨_, ⟨seq, rfl, rfl⟩, skips_iff_gap.mp hs⟩
  · intro h
    obtain ⟨_, ⟨seq, rfl, rfl⟩, hs⟩ := h
    exact ⟨seq, rfl, skips_iff_gap.mpr hs⟩

theorem suspected_iff_gap : Suspected w p cs q ↔ Gap.Suspected w.size (numbers p cs) q.toNat := by
  rw [Gap.Suspected, numbers, since_filterMap]
  constructor
  · intro h
    obtain ⟨pre, c, post, rfl, ⟨seq, rfl, he, ht⟩, hpost⟩ := h
    refine ⟨pre, _, post, rfl, ⟨_, Call.number_eq_some.mpr ⟨seq, rfl, rfl⟩, evicts_iff_gap.mp he,
      fun h => ht (tracked_iff_gap.mpr h)⟩, ?_⟩
    rintro c hc ⟨_, hn, rfl⟩
    obtain ⟨seq', rfl, hq⟩ := Call.number_eq_some.mp hn
    exact hpost _ hc (by rw [UInt64.toNat_inj.mp hq])
  · intro h
    obtain ⟨pre, c, post, rfl, ⟨_, hc, he, ht⟩, hpost⟩ := h
    obtain ⟨seq, rfl, rfl⟩ := Call.number_eq_some.mp hc
    refine ⟨pre, _, post, rfl, ⟨seq, rfl, evicts_iff_gap.mpr he, fun h => ht (tracked_iff_gap.mp h)⟩, ?_⟩
    rintro c hc rfl
    exact hpost _ hc ⟨_, Call.number_eq_some.mpr ⟨q, rfl, rfl⟩, rfl⟩

/-- Of what is never recorded, the suspected is what was evicted. -/
theorem suspected_iff_evicted (hq : .record p q ∉ cs) : Suspected w p cs q ↔ Evicted w p cs q := by
  constructor
  · intro ⟨pre, c, post, hcs, ⟨seq, hc, he, _⟩, _⟩
    exact ⟨pre, c, post, hcs, seq, hc, he⟩
  · intro ⟨pre, c, post, hcs, seq, hc, he⟩
    refine ⟨pre, c, post, hcs, ⟨seq, hc, he, fun ht => ?_⟩, ?_⟩
    · have := mem_numbers.mp (tracked_iff_gap.mp ht).mem
      exact hq (hcs ▸ List.mem_append_left _ this)
    · intro c' hc' he'
      exact hq (hcs ▸ List.mem_append_right _ (List.mem_cons_of_mem _ (he' ▸ hc')))

end

/-! ## No false loss -/

/-- What the tracker counts as lost was never recorded: `confirmedLost` is the
size of `pendingLost`, `TotalLost` their sum, and no recorded sequence is in
`pendingLost`. -/
structure NoFalseLoss (w : ReorderWindow) (cs : List Call) : Prop where
  not_pending : ∀ p, ∀ ps ∈ (calls w cs).producers.lookup p, ∀ q, .record p q ∈ cs → q ∉ ps.pendingLost
  confirmed : ∀ p, ∀ ps ∈ (calls w cs).producers.lookup p, ps.confirmedLost = ps.pendingLost.card
  total : (calls w cs).totalLost = ((calls w cs).producers.entries.map fun e => e.2.pendingLost.card).sum

theorem confirmedLost_eq {w : ReorderWindow} {cs : List Call} {p : String} {ps : ProducerState}
    (h : ps ∈ (calls w cs).producers.lookup p) : ps.confirmedLost = ps.pendingLost.card := by
  obtain ⟨st, -, hr⟩ := exists_state h
  exact hr.lost

theorem totalLost_eq (w : ReorderWindow) (cs : List Call) :
    (calls w cs).totalLost = ((calls w cs).producers.entries.map fun e => e.2.pendingLost.card).sum := by
  rw [totalLost, Tracker.sum]
  congr 1
  refine List.map_congr_left fun e he => ?_
  exact confirmedLost_eq (p := e.1) (AList.mem_lookup_iff.mpr he)

/-- `pendingLost` after a history: what was evicted untracked and has not been
recorded since. -/
theorem mem_pendingLost {w : ReorderWindow} {cs : List Call} {p : String} {ps : ProducerState}
    (h : ps ∈ (calls w cs).producers.lookup p) {q : UInt64} :
    q ∈ ps.pendingLost ↔ Suspected w p cs q := by
  obtain ⟨st, hst, hr⟩ := exists_state h
  rw [hr.pending, (Gap.ledger_after hst).pending_iff, suspected_iff_gap]

/-- **When there is no false loss.** In every state a history reaches what is
counted lost was never recorded, exactly when no call of the history slides
the watermark over a recorded sequence of the window every recording of which
came from beyond the window. -/
theorem no_false_loss_iff (w : ReorderWindow) (cs : List Call) :
    (∀ pre, pre <+: cs → NoFalseLoss w pre) ↔
      Always (fun pre c => ∀ p seq q, c = .record p seq → Evicts (calls w pre) p seq q →
        .record p q ∈ pre → Tracked w p pre q) cs := by
  constructor
  · rintro h pre c post rfl p seq q rfl he hq
    by_contra ht
    -- The eviction itself puts `q` into `pendingLost`.
    have hn := h (pre ++ [.record p seq]) ⟨post, by simp⟩
    obtain ⟨ps, hps⟩ : ∃ ps, ps ∈ (calls w (pre ++ [.record p seq])).producers.lookup p := by
      rw [calls_snoc]
      simp only [call, Tracker.record, AList.lookup_insert]
      exact ⟨_, rfl⟩
    refine hn.not_pending p ps hps q (by simp [hq]) ((mem_pendingLost hps).mpr ?_)
    exact ⟨pre, _, [], rfl, ⟨seq, rfl, he, ht⟩, by simp⟩
  · rintro h pre ⟨rest, rfl⟩
    refine ⟨fun p ps hps q hq hp => ?_, fun p ps hps => confirmedLost_eq hps, totalLost_eq w pre⟩
    obtain ⟨pre₁, c, post, rfl, ⟨seq, rfl, he, ht⟩, hpost⟩ := (mem_pendingLost hps).mp hp
    -- Recorded, but not since the eviction nor by the evicting call.
    have hq₁ : .record p q ∈ pre₁ := by
      rcases List.mem_append.mp hq with hq | hq
      · exact hq
      rcases List.mem_cons.mp hq with hq | hq
      · obtain ⟨ps₁, -, -, -, hlt⟩ := he
        rw [(Call.record.inj hq).2] at hlt
        omega
      · exact absurd rfl (hpost _ hq)
    exact ht (h pre₁ _ (post ++ rest) (by simp) p seq q rfl he hq₁)

/-- The smallest reorder window that `Validate` admits. -/
def minReorderWindow : ReorderWindow := ⟨100, by decide, by decide⟩

set_option maxRecDepth 20000 in
/-- 102 arrives one past the window and is dropped; 203 then slides the window
over it. -/
theorem recorded_then_suspected :
    ¬ NoFalseLoss minReorderWindow [.record "p" 1, .record "p" 102, .record "p" 202,
      .record "p" 203] := by
  intro h
  have hlost : ((calls minReorderWindow
      [.record "p" 1, .record "p" 102, .record "p" 202, .record "p" 203]).producers.lookup "p").any
      (fun ps => decide (102 ∈ ps.pendingLost)) = true := by decide +kernel
  obtain ⟨ps, hps, hm⟩ := (Option.any_eq_true _ _).mp hlost
  exact h.not_pending "p" ps hps 102 (by simp) (of_decide_eq_true hm)

/-! ## No missed loss -/

/-- From the first recorded sequence up to the watermark, what was not
recorded is suspected. -/
def NoMissedLoss (w : ReorderWindow) (p : String) (cs : List Call) : Prop :=
  ∀ ps ∈ (calls w cs).producers.lookup p, ∀ s₀ ∈ (numbers p cs).head?, ∀ q : UInt64,
    s₀ ≤ q.toNat → q ≤ ps.highContiguous → .record p q ∈ cs ∨ q ∈ ps.pendingLost

/-- `seq` is at most two windows and one above the watermark; or one more, and
the sequence right behind the window was recorded. -/
def ShortJump (w : ReorderWindow) (p : String) (cs : List Call) (seq : UInt64) : Prop :=
  ∀ ps ∈ (calls w cs).producers.lookup p,
    seq.toNat ≤ ps.highContiguous.toNat + 2 * w.size + 1 ∨
      seq.toNat = ps.highContiguous.toNat + 2 * w.size + 2 ∧
        ∃ q : UInt64, q.toNat = ps.highContiguous.toNat + w.size + 1 ∧ .record p q ∈ cs

/-- A jump is short when all it skips was recorded: nothing recorded is more
than one past the window. -/
theorem shortJump_iff {w : ReorderWindow} {p : String} {cs : List Call} {seq : UInt64} :
    ShortJump w p cs seq ↔ ∀ q, Skips (calls w cs) p seq q → .record p q ∈ cs := by
  have hlt := seq.toNat_lt
  constructor
  · rintro h q ⟨ps, hps, h1, h2⟩
    rw [calls_reorderWindow] at h1 h2
    rcases h ps hps with h | ⟨h, q', hq', hm⟩
    · omega
    · have : q' = q := UInt64.toNat_inj.mp (by omega)
      exact this ▸ hm
  · intro h ps hps
    obtain ⟨st, hst, hr⟩ := exists_state hps
    by_cases hle : seq.toNat ≤ ps.highContiguous.toNat + 2 * w.size + 1
    · exact .inl hle
    -- The first and the second sequence behind the window.
    have skipped : ∀ k, 1 ≤ k → ps.highContiguous.toNat + 2 * w.size + k < seq.toNat →
        ∃ q : UInt64, q.toNat = ps.highContiguous.toNat + w.size + k ∧
          .record p q ∈ cs := fun k hk hs => by
      have hq : (UInt64.ofNat (ps.highContiguous.toNat + w.size + k)).toNat =
          ps.highContiguous.toNat + w.size + k :=
            UInt64.toNat_ofNat_of_lt' (by simp [UInt64.size]; omega)
      refine ⟨_, hq, h _ ⟨ps, hps, ?_, ?_⟩⟩
      · rw [calls_reorderWindow, hq]; omega
      · rw [calls_reorderWindow, hq]; omega
    refine .inr ⟨?_, skipped 1 (by omega) (by omega)⟩
    by_contra hne
    obtain ⟨q, hq, hm⟩ := skipped 2 (by omega) (by omega)
    have := (Gap.ledger_after hst).mem_le _ (mem_numbers.mpr hm)
    have := hr.high
    omega

/-- **When no loss is missed.** In every state a history reaches the sequences
below the producer's watermark are recorded or suspected, exactly when every
arrival of the producer is a short jump. -/
theorem no_missed_loss_iff (w : ReorderWindow) (p : String) (cs : List Call) :
    (∀ pre, pre <+: cs → NoMissedLoss w p pre) ↔
      Always (fun pre c => ∀ seq, c = .record p seq → ShortJump w p pre seq) cs := by
  simp only [shortJump_iff]
  constructor
  · rintro h pre c post rfl seq rfl q hs
    have hn := h (pre ++ [.record p seq]) ⟨post, by simp⟩
    -- Skipped by the last call, `q` is below the watermark and not suspected.
    have hsk : Gap.Skipped w.size (numbers p (pre ++ [.record p seq])) q.toNat :=
      skipped_iff_gap.mp (once_snoc.mpr (.inr ⟨seq, rfl, hs⟩))
    obtain ⟨ps₀, hps₀, h1, h2⟩ := hs
    obtain ⟨st₀, hst₀, hr₀⟩ := exists_state hps₀
    have hst := Gap.after_snoc w.size (numbers p pre) seq.toNat
    rw [← numbers_snoc_record] at hst
    obtain ⟨ps, hps, hr⟩ := exists_producer hst
    obtain ⟨hle, hnp⟩ := (Gap.ledger_after hst).skipped _ hsk
    obtain ⟨s₀, hs₀⟩ := Gap.exists_head hst₀
    have hfirst := (Gap.ledger_after hst₀).first_le s₀ hs₀
    have hhigh := hr₀.high
    have hs₀' : s₀ ∈ (numbers p (pre ++ [.record p seq])).head? := by
      rw [numbers_snoc_record, List.head?_append, Option.mem_def.mp hs₀]
      rfl
    rcases hn ps hps s₀ hs₀' q (by omega)
      (by rw [UInt64.le_iff_toNat_le, hr.high]; exact hle) with hq | hq
    · rcases List.mem_append.mp hq with hq | hq
      · exact hq
      · rw [List.mem_singleton, Call.record.injEq] at hq
        rw [hq.2] at h2
        omega
    · exact absurd ((hr.pending q).mp hq) hnp
  · rintro h pre ⟨rest, rfl⟩ ps hps s₀ hs₀ q h1 h2
    obtain ⟨st, hst, hr⟩ := exists_state hps
    rw [UInt64.le_iff_toNat_le, hr.high] at h2
    rcases (Gap.ledger_after hst).passed s₀ hs₀ _ h1 h2 with ht | hp | hs
    · exact .inl (mem_numbers.mp ht.mem)
    · exact .inr ((hr.pending q).mpr hp)
    · obtain ⟨pre₁, c, post, rfl, seq, rfl, hskip⟩ := skipped_iff_gap.mpr hs
      have := h pre₁ _ (post ++ rest) (by simp) seq rfl q hskip
      exact .inl (by simp [this])

set_option maxRecDepth 20000 in
/-- 1000 slides the watermark to 899, and only 2 to 101 become suspected. -/
theorem skipped_not_suspected :
    ¬ NoMissedLoss minReorderWindow "p" [.record "p" 1, .record "p" 1000] := by
  intro h
  have hlost : ((calls minReorderWindow [.record "p" 1, .record "p" 1000]).producers.lookup "p").any
      (fun ps => decide (500 ≤ ps.highContiguous ∧ 500 ∉ ps.pendingLost)) = true := by decide +kernel
  obtain ⟨ps, hps, hm⟩ := (Option.any_eq_true _ _).mp hlost
  obtain ⟨hle, hnp⟩ := of_decide_eq_true hm
  rcases h ps hps 1 rfl 500 (by decide) hle with hr | hp
  · simp at hr
  · exact hnp hp

/-! ## Duplicates -/

/-- What `Record` calls a duplicate: a sequence some recording of which was
tracked, one that was skipped, and one below the first recorded. -/
theorem isDuplicate_iff {w : ReorderWindow} {p : String} {cs : List Call} {q : UInt64} :
    ((calls w cs).record p q).2.isDuplicate = true ↔
      Tracked w p cs q ∨ Skipped w p cs q ∨ ∃ s₀ ∈ (numbers p cs).head?, q.toNat < s₀ := by
  rw [tracked_iff_gap, skipped_iff_gap]
  simp only [Tracker.record, calls_reorderWindow]
  cases hps : (calls w cs).producers.lookup p with
  | none =>
    simp [recordProducer, lookup_eq_none.mp hps, Gap.Tracked, Gap.Skipped]
  | some ps =>
    obtain ⟨st, hst, hr⟩ := exists_state hps
    rw [(recordProducer_refines hr (Gap.ledger_after hst).toSettled q).2]
    exact Gap.dup_iff hst q.toNat

theorem isDuplicate_of_above {w : ReorderWindow} {p : String} {cs : List Call} {q : UInt64}
    (h : ∀ n ∈ numbers p cs, n < q.toNat) : ((calls w cs).record p q).2.isDuplicate = false := by
  refine Bool.eq_false_of_not_eq_true fun hd => ?_
  rcases isDuplicate_iff.mp hd with ht | hs | ⟨s₀, hs₀, hlt⟩
  · exact Nat.lt_irrefl _ (h _ (tracked_iff_gap.mp ht).mem)
  · obtain ⟨H₁, s, H₂, hH, st, -, -, hs⟩ := skipped_iff_gap.mp hs
    have := h s (by rw [hH]; simp)
    omega
  · have := h s₀ (List.mem_of_mem_head? hs₀)
    omega

/-- The next `Record` of `q` is called a duplicate and counted as one. -/
def Flagged (t : Tracker) (p : String) (q : UInt64) : Prop :=
  (t.record p q).2.isDuplicate = true ∧
    ∀ ps ∈ t.producers.lookup p, ∀ ps' ∈ (t.record p q).1.producers.lookup p,
      ps'.duplicates = ps.duplicates + 1

/-- **When a repeat is flagged.** `q` was recorded, and recording it again is
called a duplicate exactly when one of its recordings was tracked, or an
arrival skipped it. -/
theorem repeat_flagged_iff {w : ReorderWindow} {p : String} {cs : List Call} {q : UInt64}
    (hq : .record p q ∈ cs) :
    Flagged (calls w cs) p q ↔ Tracked w p cs q ∨ Skipped w p cs q := by
  have hcount : ((calls w cs).record p q).2.isDuplicate = true →
      ∀ ps ∈ (calls w cs).producers.lookup p, ∀ ps' ∈ ((calls w cs).record p q).1.producers.lookup p,
        ps'.duplicates = ps.duplicates + 1 := by
    intro hd ps hps ps' hps'
    simp only [Tracker.record, AList.lookup_insert, Option.mem_def.mp hps,
      Option.mem_some_iff] at hd hps'
    rw [← hps', recordProducer_duplicates, hd, if_pos rfl]
  rw [Flagged, and_iff_left_of_imp hcount, isDuplicate_iff]
  refine ⟨?_, Or.imp_right .inl⟩
  intro h
  rcases h with h | h | ⟨s₀, hs₀, hlt⟩
  · exact .inl h
  · exact .inr h
  · -- Below the first recorded nothing is beyond the window.
    obtain ⟨st, hst⟩ : ∃ st, Gap.after w.size (numbers p cs) = .some st := by
      rw [← Option.isSome_iff_exists, Option.isSome_iff_ne_none, ne_eq, Gap.after_eq_none]
      rintro hnil
      simp [hnil] at hs₀
    exact .inl (tracked_iff_gap.mpr
      ((Gap.ledger_after hst).low_tracked s₀ hs₀ _ (mem_numbers.mpr hq) hlt))

/-- A repeat of the first recorded sequence. -/
theorem first_repeat_flagged :
    Flagged (calls minReorderWindow [.record "p" 1]) "p" 1 :=
  (repeat_flagged_iff (by simp)).mpr (.inl ⟨[], _, [], rfl, rfl, by simp [Beyond, calls, new]⟩)

set_option maxRecDepth 20000 in
/-- 102 is one past the window, so its recording leaves no trace. -/
theorem repeat_not_flagged :
    ¬ Flagged (calls minReorderWindow [.record "p" 1, .record "p" 102]) "p" 102 := by
  intro h
  have hd : ((calls minReorderWindow
      [.record "p" 1, .record "p" 102]).record "p" 102).2.isDuplicate = false := by
    decide +kernel
  rw [h.1] at hd
  exact Bool.false_ne_true hd.symm

/-- **When only a repeat is called a duplicate.** Either `q` was recorded, or it
is not below the first recorded sequence of its producer and no arrival
skipped it. -/
theorem no_false_duplicate_iff (w : ReorderWindow) (p : String) (cs : List Call) (q : UInt64) :
    (((calls w cs).record p q).2.isDuplicate = true → .record p q ∈ cs) ↔
      .record p q ∈ cs ∨ ((∀ s₀ ∈ (numbers p cs).head?, s₀ ≤ q.toNat) ∧ ¬ Skipped w p cs q) := by
  rw [isDuplicate_iff]
  constructor
  · intro h
    by_cases hq : .record p q ∈ cs
    · exact .inl hq
    · refine .inr ⟨fun s₀ hs₀ => Nat.le_of_not_lt fun hlt => ?_, fun hs => ?_⟩
      · exact hq (h (.inr (.inr ⟨s₀, hs₀, hlt⟩)))
      · exact hq (h (.inr (.inl hs)))
  · rintro (hq | ⟨hle, hs⟩) (h | h | ⟨s₀, hs₀, hlt⟩)
    · exact hq
    · exact hq
    · exact hq
    · exact mem_numbers.mp (tracked_iff_gap.mp h).mem
    · exact absurd h hs
    · exact absurd (hle s₀ hs₀) (Nat.not_le.mpr hlt)

set_option maxRecDepth 20000 in
/-- A late 3 after the first arrival 5 is called a duplicate. -/
theorem late_arrival_called_duplicate :
    ((calls minReorderWindow [.record "p" 5]).record "p" 3).2.isDuplicate = true ∧
      .record "p" 3 ∉ [Call.record "p" 5] := by
  refine ⟨by decide +kernel, by simp⟩

/-! ## What is reported of one producer -/

theorem sum_lookup {m : Producers} {p : String} (hp : ∀ e ∈ m.entries, e.1 = p)
    (f : ProducerState → Nat) : (m.entries.map fun e => f e.2).sum = (m.lookup p).elim 0 f := by
  obtain ⟨entries, hn⟩ := m
  cases entries with
  | nil => rfl
  | cons e entries =>
    cases entries with
    | nil =>
      obtain ⟨k, ps⟩ := e
      obtain rfl : k = p := hp ⟨k, ps⟩ (List.mem_singleton_self _)
      simp [AList.lookup]
    | cons e' entries =>
      -- Two entries would have one key.
      have he : e.1 = e'.1 := (hp e (by simp)).trans (hp e' (by simp)).symm
      simp [List.NodupKeys, List.keys, he] at hn

theorem exists_lookup {w : ReorderWindow} {p : String} {cs : List Call} {seq : UInt64}
    (h : .record p seq ∈ cs) : ∃ ps, (calls w cs).producers.lookup p = .some ps := by
  cases hst : Gap.after w.size (numbers p cs) with
  | none =>
    have := mem_numbers.mpr h
    rw [Gap.after_eq_none.mp hst] at this
    simp at this
  | some st =>
    obtain ⟨ps, hps, -⟩ := exists_producer hst
    exact ⟨ps, hps⟩

theorem Suspected.recorded {w : ReorderWindow} {p : String} {cs : List Call} {q : UInt64}
    (h : Suspected w p cs q) : ∃ seq, .record p seq ∈ cs ∧ 0 < q.toNat ∧ q.toNat < seq.toNat := by
  obtain ⟨pre, c, post, rfl, ⟨seq, rfl, ⟨ps, -, h1, -, h3⟩, -⟩, -⟩ := h
  exact ⟨seq, by simp, by omega, by omega⟩

/-- **What the tracker of one producer reports**: the number of suspects. -/
theorem totalLost_calls {w : ReorderWindow} {p : String} {cs : List Call}
    (hp : ∀ p' seq, .record p' seq ∈ cs → p' = p) :
    (calls w cs).totalLost = {q | Suspected w p cs q}.ncard := by
  have hkeys : ∀ e ∈ (calls w cs).producers.entries, e.1 = p := by
    intro e he
    obtain ⟨st, hst, -⟩ := exists_state (AList.mem_lookup_iff.mpr he)
    cases hnum : numbers e.1 cs with
    | nil => rw [hnum] at hst; simp at hst
    | cons n ns =>
      obtain ⟨c, hc, hn⟩ := List.mem_filterMap.mp (hnum ▸ List.mem_cons_self : n ∈ numbers e.1 cs)
      obtain ⟨seq, rfl, -⟩ := Call.number_eq_some.mp hn
      exact hp e.1 seq hc
  rw [totalLost, Tracker.sum, sum_lookup hkeys]
  cases hps : (calls w cs).producers.lookup p with
  | none =>
    have hempty : {q | Suspected w p cs q} = ∅ := by
      refine Set.eq_empty_of_forall_notMem fun q hq => ?_
      obtain ⟨seq, hseq, -⟩ := Suspected.recorded hq
      obtain ⟨ps, h⟩ := exists_lookup (w := w) hseq
      rw [hps] at h
      cases h
    rw [hempty, Set.ncard_empty]
    rfl
  | some ps =>
    have hset : {q | Suspected w p cs q} = (ps.pendingLost : Set UInt64) := by
      ext q
      exact (mem_pendingLost hps).symm
    rw [hset, Set.ncard_coe_finset]
    exact confirmedLost_eq hps

/-- Fewer suspects than there are sequences: 0 is never one, nor is anything
past the highest recorded. -/
theorem ncard_suspected_le {w : ReorderWindow} {p : String} {cs : List Call} {n : Nat}
    (hn : ∀ seq, .record p seq ∈ cs → seq.toNat ≤ n) : {q | Suspected w p cs q}.ncard ≤ n := by
  have hmaps : ∀ q ∈ {q | Suspected w p cs q}, q.toNat ∈ (Finset.Icc 1 n : Set Nat) := by
    intro q hq
    obtain ⟨seq, hseq, hpos, hlt⟩ := Suspected.recorded hq
    have := hn seq hseq
    rw [Finset.mem_coe, Finset.mem_Icc]
    omega
  have hle := Set.ncard_le_ncard_of_injOn UInt64.toNat hmaps fun _ _ _ _ h => UInt64.toNat_inj.mp h
  rwa [Set.ncard_coe_finset, Nat.card_Icc, Nat.add_sub_cancel] at hle

/-- A tracker suspects something when the gap detector does. -/
theorem exists_suspected_iff_gap {w : ReorderWindow} {p : String} {cs : List Call} :
    (∃ q, Suspected w p cs q) ↔ ∃ n, Gap.Suspected w.size (numbers p cs) n := by
  constructor
  · intro ⟨q, hq⟩
    exact ⟨q.toNat, suspected_iff_gap.mp hq⟩
  · intro ⟨n, hn⟩
    have ⟨pre, s, post, hH, ⟨⟨st, _, _, _, hlt⟩, _⟩, _⟩ := hn
    have hs : s ∈ numbers p cs := by simp [hH]
    obtain ⟨c, _, hc⟩ := List.mem_filterMap.mp hs
    obtain ⟨seq, _, rfl⟩ := Call.number_eq_some.mp hc
    have := seq.toNat_lt
    refine ⟨.ofNat n, suspected_iff_gap.mpr ?_⟩
    rw [UInt64.toNat_ofNat', Nat.mod_eq_of_lt (by omega)]
    exact hn

end Burnin
