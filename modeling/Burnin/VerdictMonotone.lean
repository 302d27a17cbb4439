/-
The engine's verdict as a relation between runs: the order in which the
snapshots are visited does not show in it, worse snapshots never turn a failed
verdict into another one, and neither does the growth of the memory.

A verdict fails when a gate of some worker does (`computeVerdict_failed`), so
what is compared is one worker's gates on two snapshots (`WithinGates.of_worse`).
-/
import Burnin.VerdictFacts

namespace Burnin

/-! ## Percentages -/

theorem pct_le_pct {x x' : UInt64} (h : x ≤ x') (y : UInt64) : pct x y ≤ pct x' y := by
  have hx : (x.toNat : ℚ) ≤ x'.toNat := by exact_mod_cast UInt64.le_iff_toNat_le.mp h
  unfold pct
  gcongr

theorem share_le_share {a t t' : ℚ} (ha : 0 ≤ a) (hpos : 0 < a + t) (h : t ≤ t') :
    t / (a + t) ≤ t' / (a + t') := by
  rw [div_le_div_iff₀ hpos (by linarith)]
  nlinarith

theorem pct_failed {success timeout error : UInt64}
    (h : success.toNat + timeout.toNat + error.toNat < 2 ^ 64) :
    (success + timeout + error).toNat = success.toNat + (timeout.toNat + error.toNat) ∧
      pct (timeout + error) (success + timeout + error) =
        (timeout.toNat + error.toNat : ℚ) / (success.toNat + (timeout.toNat + error.toNat)) * 100 := by
  have hfailed : (timeout + error).toNat = timeout.toNat + error.toNat := by
    rw [UInt64.toNat_add, Nat.mod_eq_of_lt (by omega)]
  have htotal : (success + timeout + error).toNat = success.toNat + (timeout.toNat + error.toNat) := by
    rw [UInt64.toNat_add, UInt64.toNat_add,
      Nat.mod_eq_of_lt (a := success.toNat + timeout.toNat) (by omega), Nat.mod_eq_of_lt h,
      Nat.add_assoc]
  refine ⟨htotal, ?_⟩
  rw [pct, htotal, hfailed]
  push_cast
  rfl

/-! ## Worse snapshots -/

/-- As much sent, received and answered, and nothing else better; the RPC
outcomes of the second add up without overflow. -/
structure WorkerSnapshot.Worse (snap snap' : WorkerSnapshot) : Prop where
  sent : snap.sent = snap'.sent
  received : snap.received = snap'.received
  rpcSuccess : snap.rpcSuccess = snap'.rpcSuccess
  lost : snap.lost ≤ snap'.lost
  duplicated : snap.duplicated ≤ snap'.duplicated
  corrupted : snap.corrupted ≤ snap'.corrupted
  fidelityFailures : snap.fidelityFailures ≤ snap'.fidelityFailures
  eventsDropped : snap.eventsDropped ≤ snap'.eventsDropped
  errors : snap.errors ≤ snap'.errors
  latencyP50 : snap.latencyP50 ≤ snap'.latencyP50
  latencyP95 : snap.latencyP95 ≤ snap'.latencyP95
  latencyP99 : snap.latencyP99 ≤ snap'.latencyP99
  latencyP999 : snap.latencyP999 ≤ snap'.latencyP999
  downtimeSeconds : snap.downtimeSeconds ≤ snap'.downtimeSeconds
  rpcTimeout : snap.rpcTimeout ≤ snap'.rpcTimeout
  rpcError : snap.rpcError ≤ snap'.rpcError
  noOverflow : snap'.rpcSuccess.toNat + snap'.rpcTimeout.toNat + snap'.rpcError.toNat < 2 ^ 64

/-- The same workers, each with worse counters. -/
def Snapshots.Worse (snaps snaps' : Snapshots) : Prop :=
  ∀ name, Option.Rel WorkerSnapshot.Worse (snaps.lookup name) (snaps'.lookup name)

section
variable {cfg : Config} {d : Int} {name : WorkerName} {snap snap' : WorkerSnapshot}

theorem latency_of_le {value value' threshold : ℚ} (h : value ≤ value')
    (hgate : 0 < value' → 0 < threshold → value' ≤ threshold) :
    0 < value → 0 < threshold → value ≤ threshold :=
  fun hv ht => le_trans h (hgate (lt_of_lt_of_le hv h) ht)

theorem WorkerSnapshot.Worse.rpc_le (h : snap.Worse snap')
    (hpos : 0 < snap.rpcSuccess + snap.rpcTimeout + snap.rpcError) :
    0 < snap'.rpcSuccess + snap'.rpcTimeout + snap'.rpcError ∧
      pct (snap.rpcTimeout + snap.rpcError) (snap.rpcSuccess + snap.rpcTimeout + snap.rpcError) ≤
        pct (snap'.rpcTimeout + snap'.rpcError)
          (snap'.rpcSuccess + snap'.rpcTimeout + snap'.rpcError) := by
  have htimeout := UInt64.le_iff_toNat_le.mp h.rpcTimeout
  have herror := UInt64.le_iff_toNat_le.mp h.rpcError
  have hover' := h.noOverflow
  rw [h.rpcSuccess] at hpos ⊢
  have hover : snap'.rpcSuccess.toNat + snap.rpcTimeout.toNat + snap.rpcError.toNat < 2 ^ 64 := by omega
  obtain ⟨htotal, hpct⟩ := pct_failed hover
  obtain ⟨htotal', hpct'⟩ := pct_failed hover'
  rw [UInt64.lt_iff_toNat_lt, htotal, UInt64.toNat_zero] at hpos
  refine ⟨?_, ?_⟩
  · rw [UInt64.lt_iff_toNat_lt, htotal', UInt64.toNat_zero]
    omega
  · rw [hpct, hpct']
    have hfailed : (snap.rpcTimeout.toNat + snap.rpcError.toNat : ℚ) ≤
        snap'.rpcTimeout.toNat + snap'.rpcError.toNat := by exact_mod_cast Nat.add_le_add htimeout herror
    have hposq : (0 : ℚ) < snap'.rpcSuccess.toNat + (snap.rpcTimeout.toNat + snap.rpcError.toNat) := by
      exact_mod_cast hpos
    have hshare := share_le_share (Nat.cast_nonneg _) hposq hfailed
    gcongr

/-- **What passes the gates on a worse snapshot passes them.** -/
theorem WithinGates.of_worse (h : snap.Worse snap') (hg : WithinGates cfg d name snap') :
    WithinGates cfg d name snap where
  corrupted := by
    have hc := h.corrupted
    rw [hg.corrupted] at hc
    exact UInt64.le_zero_iff.mp hc
  fidelity := UInt64.le_trans h.fidelityFailures hg.fidelity
  dropped := by
    intro hn
    have hd := h.eventsDropped
    rw [hg.dropped hn] at hd
    exact UInt64.le_zero_iff.mp hd
  loss := by
    rw [h.sent]
    intro hs
    have hle := pct_le_pct h.lost snap'.sent
    exact (hg.loss hs).imp (le_trans hle) (le_trans hle)
  duplication := by
    rw [h.received]
    exact fun hr => le_trans (pct_le_pct h.duplicated _) (hg.duplication hr)
  p50 := latency_of_le h.latencyP50 hg.p50
  p95 := latency_of_le h.latencyP95 hg.p95
  p99 := latency_of_le h.latencyP99 hg.p99
  p999 := latency_of_le h.latencyP999 hg.p999
  errors := by
    rw [h.sent, h.received]
    exact fun ht => le_trans (pct_le_pct h.errors _) (hg.errors ht)
  throughput := by
    rw [h.sent]
    exact hg.throughput
  downtime := by
    intro hd hdown
    have hsec : 0 < seconds d := by
      unfold seconds
      positivity
    refine le_trans ?_ (hg.downtime hd (lt_of_lt_of_le hdown h.downtimeSeconds))
    have hle := h.downtimeSeconds
    gcongr
  rpc := by
    intro hn hpos
    obtain ⟨hpos', hle⟩ := h.rpc_le hpos
    exact le_trans hle (hg.rpc hn hpos')

end

/-! ## Verdicts of runs -/

section
variable {cfg : Config} {d : Int} {baseline peak : UInt64}
  {es es' : List (Sigma fun _ : WorkerName => WorkerSnapshot)}

theorem computeVerdict_failed :
    (computeVerdict cfg d baseline peak es).result = .failed ↔
      ∃ e ∈ es, ¬ WithinGates cfg d e.1 e.2 := by
  have hresult : (computeVerdict cfg d baseline peak es).result = .failed ↔
      ¬ (computeVerdict cfg d baseline peak es).passed = true := by
    simp only [computeVerdict, foldl_fail]
    by_cases hn : (es.flatMap fun e => failures cfg d e.1 e.2) = []
    · simp only [hn, if_true]
      split <;> simp
    · simp only [hn, if_false]
      split <;> simp
  rw [hresult, computeVerdict_passed]
  push Not
  rfl

/-- **The order of the loop does not show**, but in the order of the warnings. -/
theorem computeVerdict_perm (h : es.Perm es') :
    (computeVerdict cfg d baseline peak es).passed = (computeVerdict cfg d baseline peak es').passed ∧
      (computeVerdict cfg d baseline peak es).result = (computeVerdict cfg d baseline peak es').result ∧
      (computeVerdict cfg d baseline peak es).warnings.Perm
        (computeVerdict cfg d baseline peak es').warnings := by
  have hperm := h.flatMap_right fun e => failures cfg d e.1 e.2
  simp only [computeVerdict, foldl_fail]
  generalize (es.flatMap fun e => failures cfg d e.1 e.2) = ms at hperm ⊢
  generalize (es'.flatMap fun e => failures cfg d e.1 e.2) = ms' at hperm ⊢
  by_cases hn : ms = []
  · have hn' : ms' = [] := (hn ▸ hperm).nil_eq.symm
    rw [if_pos hn, if_pos hn']
    exact ⟨rfl, rfl, .refl _⟩
  · have hn' : ms' ≠ [] := fun he => hn (he ▸ hperm).eq_nil
    rw [if_neg hn, if_neg hn']
    simp only [List.nil_append]
    split
    · exact ⟨rfl, rfl, hperm.append_right _⟩
    · exact ⟨rfl, rfl, hperm⟩

end

theorem Snapshots.Worse.exists_failed {cfg : Config} {d : Int} {snaps snaps' : Snapshots}
    (h : snaps.Worse snaps') {range : Range snaps} {range' : Range snaps'}
    (hf : ∃ e ∈ range.entries, ¬ WithinGates cfg d e.1 e.2) :
    ∃ e ∈ range'.entries, ¬ WithinGates cfg d e.1 e.2 := by
  obtain ⟨⟨name, snap⟩, hmem, hbad⟩ := hf
  have hlook : snaps.lookup name = .some snap := AList.mem_lookup_iff.mpr (range.perm.mem_iff.mp hmem)
  have hrel := h name
  rw [hlook] at hrel
  cases hlook' : snaps'.lookup name with
  | none =>
    rw [hlook'] at hrel
    cases hrel
  | some snap' =>
    rw [hlook'] at hrel
    cases hrel with
    | some hworse =>
      refine ⟨⟨name, snap'⟩, range'.perm.mem_iff.mpr (AList.mem_lookup_iff.mp hlook'), ?_⟩
      exact fun hg => hbad (.of_worse hworse hg)

/-- **The verdict is monotone and does not depend on the order**, for every
configuration and measurement duration: two orders of the loop give the same
flag and result and the same warnings up to order; when the first of two maps of
snapshots fails, a worse one does; and no growth of the memory turns a failed
result into another one. -/
theorem verdict_monotone (cfg : Config) (measurementDuration : Int) :
    (∀ (baseline peak : UInt64) (snaps : Snapshots) (range range' : Range snaps),
      let v := computeVerdict cfg measurementDuration baseline peak range.entries
      let v' := computeVerdict cfg measurementDuration baseline peak range'.entries
      v.passed = v'.passed ∧ v.result = v'.result ∧ v.warnings.Perm v'.warnings) ∧
    (∀ snaps snaps' : Snapshots, snaps.Worse snaps' →
      ∀ (baseline peak baseline' peak' : UInt64) (range : Range snaps) (range' : Range snaps'),
        (computeVerdict cfg measurementDuration baseline peak range.entries).result = .failed →
          (computeVerdict cfg measurementDuration baseline' peak' range'.entries).result = .failed) ∧
    ∀ (baseline peak baseline' peak' : UInt64) (snaps : Snapshots) (range : Range snaps),
      (computeVerdict cfg measurementDuration baseline peak range.entries).result = .failed ↔
        (computeVerdict cfg measurementDuration baseline' peak' range.entries).result = .failed := by
  refine ⟨?_, ?_, ?_⟩
  · intro baseline peak snaps range range'
    exact computeVerdict_perm (range.perm.trans range'.perm.symm)
  · intro snaps snaps' hworse baseline peak baseline' peak' range range' hf
    rw [computeVerdict_failed] at hf ⊢
    exact hworse.exists_failed hf
  · intro baseline peak baseline' peak' snaps range
    rw [computeVerdict_failed, computeVerdict_failed]

end Burnin
