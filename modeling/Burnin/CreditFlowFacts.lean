/-
What the credit invariants that the credit_flow worker asserts come to: exact
credit, the detection of a delivery past it, and that nothing else is taken for
one.

`Moves` says what one step of `creditCycle` can do, and each fact about a run is
derived from it. The credit of the link is an account of grants, pushes and
drains (`credit_after`), so exact credit is a matter of when a grant is made.
The worker never compares deliveries with credit: a surplus delivery counts only
if it lies in the cache at the second look of a drain pass (`fails_after`).
-/
import Burnin.CreditFlow

namespace Burnin

open Machine Past

namespace CreditCycle

variable {b : CreditBatch} {base : BaseWorker}

/-- What a step can do. -/
inductive Moves (b : CreditBatch) (s : CreditCycle) : Event → CreditCycle → Prop
  | push (m : Option Envelope) (h : s.pc ≠ .returned) :
    Moves b s (.push m) { s with credit := s.credit - 1, cache := s.cache ++ [m] }
  | cancelled (h : s.pc ≠ .returned) : Moves b s .cancelled { s with pc := .returned }
  | issued (h : s.pc = .top) : Moves b s (.issue true) { s with
      credit := s.credit + b.size, pc := .batch 0 }
  | issueFailed (h : s.pc = .top) : Moves b s (.issue false) { s.recordError with pc := .returned }
  | received {k : Nat} {m : Option Envelope} {cache : List (Option Envelope)} (h : s.pc = .batch k)
      (hc : s.cache = m :: cache) :
    Moves b s (.receive true)
      { s with cache, base := s.base.handleDelivery m, pc := if k + 1 < b.size then .batch (k + 1)
        else .batchEnd }
  | receiveRefused {k : Nat} {m : Option Envelope} {cache : List (Option Envelope)} (h : s.pc = .batch k)
      (hc : s.cache = m :: cache) :
    Moves b s (.receive false)
      { s with cache, base := (s.base.handleDelivery m).recordError, pc := .returned }
  | timeout {k : Nat} (h : s.pc = .batch k) : Moves b s .timeout { s with pc := .batchEnd }
  | drainDue (due : Bool) (h : s.pc = .batchEnd) :
    Moves b s (.drainDue due) { s with pc := if due then .draining else .top }
  | drained (h : s.pc = .draining) : Moves b s (.drain .completed) { s with credit := 0, pc := .absorb }
  | linkError (h : s.pc = .draining) : Moves b s (.drain .linkError) { s with pc := .returned }
  | hung (h : s.pc = .draining) :
    Moves b s (.drain .hung) { s with base := s.base.recordError.recordFidelityGap 1, pc := .returned }
  | absorbed {m : Option Envelope} {cache : List (Option Envelope)} (h : s.pc = .absorb)
      (hc : s.cache = m :: cache) :
    Moves b s (.prefetched true) { s with cache, base := s.base.handleDelivery m }
  | absorbRefused {m : Option Envelope} {cache : List (Option Envelope)} (h : s.pc = .absorb)
      (hc : s.cache = m :: cache) :
    Moves b s (.prefetched false)
      { s with cache, base := (s.base.handleDelivery m).recordError, pc := .window }
  | absorbEnd (h : s.pc = .absorb) (hc : s.cache = []) : Moves b s .empty { s with pc := .window }
  | slept (h : s.pc = .window) : Moves b s .slept { s with pc := .verify 0 }
  | counted {n : Nat} {m : Option Envelope} {cache : List (Option Envelope)} (h : s.pc = .verify n)
      (hc : s.cache = m :: cache) :
    Moves b s (.prefetched true) { s with cache, base := s.base.handleDelivery m, pc := .verify (n + 1) }
  | countRefused {n : Nat} {m : Option Envelope} {cache : List (Option Envelope)} (h : s.pc = .verify n)
      (hc : s.cache = m :: cache) :
    Moves b s (.prefetched false)
      (verified { s with cache, base := (s.base.handleDelivery m).recordError } n)
  | verifyEnd {n : Nat} (h : s.pc = .verify n) (hc : s.cache = []) : Moves b s .empty (s.verified n)

theorem take_map_eq_some {s s' : CreditCycle} {f : CreditCycle → CreditCycle}
    (h : s.take.map f = .some s') :
    ∃ m cache, s.cache = m :: cache ∧ f { s with cache, base := s.base.handleDelivery m } = s' := by
  unfold take at h
  split at h
  · next m cache hc => exact ⟨m, cache, hc, Option.some.inj h⟩
  · cases h

theorem step_moves {s s' : CreditCycle} {e : Event} (h : step b s e = .some s') : Moves b s e s' := by
  unfold step at h
  split at h
  case h_1 => cases h
  case h_2 hpc => cases h; exact .push _ hpc
  case h_3 hpc => cases h; exact .cancelled (by simp [hpc])
  case h_4 hpc => cases h; exact .issued hpc
  case h_5 hpc => cases h; exact .issueFailed hpc
  case h_6 hpc => cases h; exact .cancelled (by simp [hpc])
  case h_7 hpc =>
    obtain ⟨m, cache, hc, rfl⟩ := take_map_eq_some h
    exact .received hpc hc
  case h_8 hpc =>
    obtain ⟨m, cache, hc, rfl⟩ := take_map_eq_some h
    exact .receiveRefused hpc hc
  case h_9 hpc => cases h; exact .timeout hpc
  case h_10 hpc => cases h; exact .drainDue _ hpc
  case h_11 hpc => cases h; exact .cancelled (by simp [hpc])
  case h_12 hpc => cases h; exact .drained hpc
  case h_13 hpc => cases h; exact .linkError hpc
  case h_14 hpc => cases h; exact .hung hpc
  case h_15 hpc =>
    obtain ⟨m, cache, hc, rfl⟩ := take_map_eq_some (f := id) (by simpa using h)
    exact .absorbed hpc hc
  case h_16 hpc =>
    obtain ⟨m, cache, hc, rfl⟩ := take_map_eq_some h
    exact .absorbRefused hpc hc
  case h_17 hpc =>
    split at h
    · next hc => cases h; exact .absorbEnd hpc hc
    · cases h
  case h_18 hpc => cases h; exact .slept hpc
  case h_19 hpc => cases h; exact .cancelled (by simp [hpc])
  case h_20 hpc =>
    obtain ⟨m, cache, hc, rfl⟩ := take_map_eq_some h
    exact .counted hpc hc
  case h_21 hpc =>
    obtain ⟨m, cache, hc, rfl⟩ := take_map_eq_some h
    exact .countRefused hpc hc
  case h_22 hpc =>
    split at h
    · next hc => cases h; exact .verifyEnd hpc hc
    · cases h
  case h_23 => cases h

theorem pc_ne_returned {s s' : CreditCycle} {e : Event} (h : step b s e = .some s') :
    s.pc ≠ .returned := by
  intro hpc
  simp [step, hpc] at h

/-! ## Exact credit -/

/-- What an event does to the credit of the link. -/
def Event.op : Event → Option Credit.Op
  | .push _ => .some .use
  | .issue true => .some .grant
  | .drain .completed => .some .drain
  | _ => .none

theorem op_eq_grant (e : Event) : e.op = .some .grant ↔ e = .issue true := by
  cases e with
  | issue ok => cases ok <;> simp [Event.op]
  | drain result => cases result <;> simp [Event.op]
  | _ => simp [Event.op]

/-- What a run does to the credit of its link. -/
def ops (H : List Event) : List Credit.Op := H.filterMap Event.op

/-- **The credit of the link** after a run is the account of its pushes, grants
and completed drains. -/
theorem credit_after {H : List Event} {s : CreditCycle} (h : after b base H = .some s) :
    s.credit = Credit.outstanding b.size (ops H) := by
  refine exec_rec (P := fun H s => s.credit = Credit.outstanding b.size (ops H)) rfl ?_ h
  intro H s e s' _ ih hs
  -- A step with an operation does it; one without leaves the credit as it is.
  have op : ∀ {o}, e.op = .some o → s'.credit = Credit.step b.size s.credit o →
      s'.credit = Credit.outstanding b.size (ops (H ++ [e])) := by
    intro o he hc
    have hops : ops (H ++ [e]) = ops H ++ [o] := by simp [ops, he]
    rw [hops, Credit.outstanding_snoc, ← ih, hc]
  have keep : e.op = .none → s'.credit = s.credit →
      s'.credit = Credit.outstanding b.size (ops (H ++ [e])) := by
    intro he hc
    have hops : ops (H ++ [e]) = ops H := by simp [ops, he]
    rw [hops, ← ih, hc]
  cases step_moves hs with
  | push => exact op rfl rfl
  | issued => exact op rfl rfl
  | drained => exact op rfl rfl
  | _ => exact keep rfl rfl

theorem after_of_prefix {H pre : List Event} {s : CreditCycle} (h : after b base H = .some s)
    (hp : pre <+: H) : ∃ t, after b base pre = .some t := by
  obtain ⟨post, rfl⟩ := hp
  obtain ⟨t, ht, -⟩ := exec_append_eq_some.mp h
  exact ⟨t, ht⟩

theorem credit_le_iff {H : List Event} {s : CreditCycle} (h : after b base H = .some s) :
    (∀ pre t, pre <+: H → after b base pre = .some t → t.credit ≤ b.size ∧ t.credit ≤ 1024) ↔
      ∀ pre, pre <+: H → Credit.outstanding b.size (ops pre) ≤ b.size := by
  refine ⟨fun hc pre hp => ?_, fun hc pre t hp ht => ?_⟩
  · obtain ⟨t, ht⟩ := after_of_prefix h hp
    rw [← credit_after ht]
    exact (hc pre t hp ht).1
  · have hle := hc pre hp
    rw [← credit_after ht] at hle
    exact ⟨hle, hle.trans b.le⟩

end CreditCycle

open CreditCycle in
/-- **When the credit is exact.** Along a run of `creditCycle` the outstanding
credit stays within a batch, and so within the ceiling of the link, exactly when
each `IssueCredit` finds the batch before spent: a drain has completed since, or
as many deliveries were pushed. A batch that a `Receive` timeout ends early
leaves its rest outstanding. -/
theorem credit_exact_iff (b : CreditBatch) (base : BaseWorker) {H : List CreditCycle.Event}
    {s : CreditCycle} (h : after b base H = .some s) :
    (∀ pre t, pre <+: H → after b base pre = .some t → t.credit ≤ b.size ∧ t.credit ≤ 1024) ↔
      Always (fun pre e => e = .issue true → Credit.Spent b.size (ops pre)) H :=
  calc (∀ pre t, pre <+: H → after b base pre = .some t → t.credit ≤ b.size ∧ t.credit ≤ 1024)
      ↔ ∀ pre, pre <+: H → Credit.outstanding b.size (ops pre) ≤ b.size := credit_le_iff h
    _ ↔ ∀ os, os <+: ops H → Credit.outstanding b.size os ≤ b.size :=
        (forall_prefix_filterMap _ (T := fun os => Credit.outstanding b.size os ≤ b.size)).symm
    _ ↔ Always (fun os o => o = .grant → Credit.Spent b.size os) (ops H) := Credit.le_iff _ _
    _ ↔ Always (fun pre e => ∀ o, e.op = .some o → o = .grant → Credit.Spent b.size (ops pre)) H :=
        always_filterMap _
    _ ↔ Always (fun pre e => e = .issue true → Credit.Spent b.size (ops pre)) H :=
        ⟨fun hc pre e post he heq => hc pre e post he _ ((op_eq_grant e).mpr heq) rfl,
          fun hc pre e post he _ ho hg => hc pre e post he ((op_eq_grant e).mp (hg ▸ ho))⟩

/-- The batch of the defaults. -/
example : defaultConfig.creditBatch.size = 100 := by decide

/-- One batch, received whole, and then the next. -/
def wholeBatches : List CreditCycle.Event :=
  [.issue true, .push .none, .receive true, .drainDue false, .issue true]

/-- A batch of one. -/
def oneCredit : Config := { defaultConfig with amqp10 := { defaultConfig.amqp10 with credit := 1 } }

open CreditCycle in
/-- With a batch of one, each grant is spent by a push. -/
theorem credit_exact_wholeBatches :
    (after oneCredit.creditBatch (.new smallWindow .creditFlow 0) wholeBatches).isSome = true ∧
      ∀ pre t, pre <+: wholeBatches →
        after oneCredit.creditBatch (.new smallWindow .creditFlow 0) pre = .some t →
          t.credit ≤ oneCredit.creditBatch.size ∧ t.credit ≤ 1024 := by
  have hrun : (after oneCredit.creditBatch (.new smallWindow .creditFlow 0) wholeBatches).isSome =
      true := by
    decide +kernel
  obtain ⟨s, hs⟩ := Option.isSome_iff_exists.mp hrun
  refine ⟨hrun, (credit_exact_iff oneCredit.creditBatch _ hs).mpr ?_⟩
  refine (always_snoc (H := wholeBatches.take 4)).mpr
    ⟨fun pre e post he heq => ?_, fun _ => .inr (.inr (by decide))⟩
  cases pre with
  | nil => exact .inl List.not_mem_nil
  | cons e' pre =>
    have hmem : e ∈ (wholeBatches.take 4).tail := by rw [he]; simp
    rw [heq] at hmem
    exact absurd hmem (by decide)

/-- Two batches of the defaults on an idle queue: each `Receive` times out. -/
def idleBatches : List CreditCycle.Event := [.issue true, .timeout, .drainDue false, .issue true]

open CreditCycle in
/-- The second grant comes on top of the first. -/
theorem credit_exceeds_batch :
    (after defaultConfig.creditBatch (.new smallWindow .creditFlow 0) idleBatches).map (·.credit) =
      .some 200 ∧
      ¬ ∀ pre t, pre <+: idleBatches →
        after defaultConfig.creditBatch (.new smallWindow .creditFlow 0) pre = .some t →
          t.credit ≤ defaultConfig.creditBatch.size ∧ t.credit ≤ 1024 := by
  have hcredit : (after defaultConfig.creditBatch (.new smallWindow .creditFlow 0) idleBatches).map
      (·.credit) = .some 200 := by decide +kernel
  refine ⟨hcredit, fun h => ?_⟩
  obtain ⟨t, ht, hc⟩ := Option.map_eq_some_iff.mp hcredit
  have hle := (h idleBatches t List.prefix_rfl ht).1
  rw [hc] at hle
  exact absurd hle (by decide)

/-! ## Over-delivery -/

/-- The body of a message fails its crc tag. -/
def corrupt (m : Option Envelope) : Bool := m.any (·.crcMismatch)

theorem BaseWorker.handleDelivery_fidelityFails (w : BaseWorker) (m : Option Envelope) :
    (w.handleDelivery m).fidelityFails = w.fidelityFails + (corrupt m).toNat := by
  cases m with
  | none => rfl
  | some m =>
    have htracked : ∀ w : BaseWorker, (w.recordTracked m.producerID m.seq).fidelityFails =
        w.fidelityFails := by
      intro w
      unfold recordTracked
      dsimp only
      split <;> rfl
    have hinspect : (w.inspect m).fidelityFails = w.fidelityFails + m.crcMismatch.toNat := by
      unfold inspect
      cases m.latency <;> cases m.crcMismatch <;> rfl
    exact (htracked _).trans hinspect

namespace CreditCycle

variable {b : CreditBatch} {base : BaseWorker}

/-- The step handles a corrupt delivery. -/
def HandlesCorrupt (s : CreditCycle) (e : Event) : Prop :=
  (∃ accepted, e = .receive accepted ∨ e = .prefetched accepted) ∧
    ∃ m cache, s.cache = m :: cache ∧ corrupt m = true

/-- The second look of `drainAndVerify` finds a delivery in the cache, and
`AcceptMessage` succeeds. -/
def SecondLookFinds (s : CreditCycle) (e : Event) : Prop :=
  (∃ n, s.pc = .verify n) ∧ s.cache ≠ [] ∧ e = .prefetched true

/-- With the step, `drainAndVerify` returns true. -/
def EndsPass (s : CreditCycle) (e : Event) : Prop :=
  (∃ n, s.pc = .verify n) ∧ (e = .empty ∨ e = .prefetched false)

/-- What the second look has found so far. -/
def found : CreditPc → Nat
  | .verify n => n
  | _ => 0

theorem verified_fidelityFails (s : CreditCycle) (n : Nat) :
    (s.verified n).base.fidelityFails = s.base.fidelityFails + n := by
  rcases Nat.eq_zero_or_pos n with rfl | hpos
  · rfl
  · simp [verified, hpos, BaseWorker.recordFidelityGap]

theorem handlesCorrupt_iff {s : CreditCycle} {e : Event} {m : Option Envelope}
    {cache : List (Option Envelope)} (hc : s.cache = m :: cache)
    (he : ∃ accepted, e = .receive accepted ∨ e = .prefetched accepted) :
    s.HandlesCorrupt e ↔ corrupt m = true := by
  simp [HandlesCorrupt, he, hc]

/-- **What a step adds to the fidelity failures**, those that the second look is
still counting included. -/
theorem fails_step {s s' : CreditCycle} {e : Event} (h : Moves b s e s') (hr : s'.pc ≠ .returned) :
    0 < s'.base.fidelityFails + found s'.pc ↔
      0 < s.base.fidelityFails + found s.pc ∨ s.HandlesCorrupt e ∨ s.SecondLookFinds e := by
  -- A step that takes no delivery from the cache.
  have quiet : (∀ accepted, e ≠ .receive accepted ∧ e ≠ .prefetched accepted) →
      s'.base.fidelityFails + found s'.pc = s.base.fidelityFails + found s.pc →
      (0 < s'.base.fidelityFails + found s'.pc ↔
        0 < s.base.fidelityFails + found s.pc ∨ s.HandlesCorrupt e ∨ s.SecondLookFinds e) := by
    intro he hfails
    have h1 : ¬ s.HandlesCorrupt e := fun hh => by
      obtain ⟨⟨accepted, ha | ha⟩, -⟩ := hh
      · exact (he accepted).1 ha
      · exact (he accepted).2 ha
    have h2 : ¬ s.SecondLookFinds e := fun hh => (he true).2 hh.2.2
    simp only [hfails, h1, h2, or_false]
  -- A step that takes one, but not as a find of the second look.
  have takes : ∀ {m cache}, s.cache = m :: cache →
      (∃ accepted, e = .receive accepted ∨ e = .prefetched accepted) →
      ¬ s.SecondLookFinds e →
      s'.base.fidelityFails + found s'.pc = s.base.fidelityFails + found s.pc + (corrupt m).toNat →
      (0 < s'.base.fidelityFails + found s'.pc ↔
        0 < s.base.fidelityFails + found s.pc ∨ s.HandlesCorrupt e ∨ s.SecondLookFinds e) := by
    intro m cache hc he h2 hfails
    rw [hfails, handlesCorrupt_iff hc he]
    cases corrupt m <;> simp [h2]
  have hhandle := fun m => s.base.handleDelivery_fidelityFails m
  cases h with
  | push m hpc => exact quiet (by simp) rfl
  | cancelled | issueFailed | receiveRefused | linkError | hung => exact absurd rfl hr
  | issued hpc => exact quiet (by simp) (by simp [found, hpc])
  | timeout hpc => exact quiet (by simp) (by simp [found, hpc])
  | drainDue due hpc => exact quiet (by simp) (by cases due <;> simp [found, hpc])
  | drained hpc => exact quiet (by simp) (by simp [found, hpc])
  | absorbEnd hpc hc => exact quiet (by simp) (by simp [found, hpc])
  | slept hpc => exact quiet (by simp) (by simp [found, hpc])
  | verifyEnd hpc hc =>
    refine quiet (by simp) ?_
    rw [verified_fidelityFails, hpc]
    rfl
  | received hpc hc =>
    refine takes hc ⟨true, .inl rfl⟩ (by simp [SecondLookFinds]) ?_
    dsimp only
    split <;> simp [hhandle, found, hpc]
  | absorbed hpc hc =>
    refine takes hc ⟨true, .inr rfl⟩ (by simp [SecondLookFinds, hpc]) ?_
    simp [hhandle, found, hpc]
  | absorbRefused hpc hc =>
    refine takes hc ⟨false, .inr rfl⟩ (by simp [SecondLookFinds]) ?_
    simp [BaseWorker.recordError, hhandle, found, hpc]
  | countRefused hpc hc =>
    refine takes hc ⟨false, .inr rfl⟩ (by simp [SecondLookFinds]) ?_
    rw [verified_fidelityFails]
    simp only [BaseWorker.recordError, hhandle, verified, found, hpc]
    omega
  | counted hpc hc =>
    exact iff_of_true (by simp [found]) (.inr (.inr ⟨⟨_, hpc⟩, by simp [hc], rfl⟩))

/-- `Q` holds at a step of a run, in the state before it. -/
def At (b : CreditBatch) (base : BaseWorker) (Q : CreditCycle → Event → Prop) (pre : List Event)
    (e : Event) : Prop :=
  ∃ t, after b base pre = .some t ∧ Q t e

theorem once_at_snoc {H : List Event} {s : CreditCycle} (h : after b base H = .some s)
    {Q : CreditCycle → Event → Prop} {e : Event} :
    Once (At b base Q) (H ++ [e]) ↔ Once (At b base Q) H ∨ Q s e := by
  simp [once_snoc, At, h]

theorem fails_after {H : List Event} {s : CreditCycle} (h : after b base H = .some s) :
    s.pc ≠ .returned → (0 < s.base.fidelityFails + found s.pc ↔
      0 < base.fidelityFails ∨ Once (At b base HandlesCorrupt) H ∨
        Once (At b base SecondLookFinds) H) := by
  refine exec_rec (P := fun H s => s.pc ≠ .returned → (0 < s.base.fidelityFails + found s.pc ↔
    0 < base.fidelityFails ∨ Once (At b base HandlesCorrupt) H ∨
      Once (At b base SecondLookFinds) H)) ?_ ?_ h
  · intro _
    simp [found]
  · intro H s e s' hs ih he hr
    have hm := step_moves he
    have hpc := pc_ne_returned he
    rw [fails_step hm hr, ih hpc, once_at_snoc hs, once_at_snoc hs, or_assoc, or_or_or_comm]

/-- After the first look of a pass and not after the second. -/
def betweenLooks : CreditPc → Bool
  | .window | .verify _ => true
  | _ => false

/-- The broker pushes a delivery between the two looks. -/
def PushedLate (s : CreditCycle) (e : Event) : Prop := (∃ m, e = .push m) ∧ betweenLooks s.pc = true

/-- **What is pushed between the looks is found**, or still in the cache, as
long as no `AcceptMessage` of a look fails; and nothing else is. -/
theorem late_after {H : List Event} {s : CreditCycle} (h : after b base H = .some s) :
    .prefetched false ∉ H → s.pc ≠ .returned →
      (Once (At b base PushedLate) H ↔
        Once (At b base SecondLookFinds) H ∨ betweenLooks s.pc = true ∧ s.cache ≠ []) := by
  refine exec_rec (P := fun H s => .prefetched false ∉ H → s.pc ≠ .returned →
    (Once (At b base PushedLate) H ↔
      Once (At b base SecondLookFinds) H ∨ betweenLooks s.pc = true ∧ s.cache ≠ [])) ?_ ?_ h
  · intro _ _
    simp [betweenLooks]
  · intro H s e s' hs ih he hacc hr
    have hpc := pc_ne_returned he
    have ih := ih (fun hmem => hacc (by simp [hmem])) hpc
    rw [once_at_snoc hs, once_at_snoc hs, ih]
    cases step_moves he with
    | push m => cases hb : betweenLooks s.pc <;> simp [PushedLate, SecondLookFinds, hb]
    | counted hpc hc => simp [PushedLate, SecondLookFinds, betweenLooks, hpc, hc]
    | absorbRefused | countRefused => simp at hacc
    | cancelled | issueFailed | receiveRefused | linkError | hung => exact absurd rfl hr
    | received hpc hc =>
      dsimp only
      split <;> simp [PushedLate, SecondLookFinds, betweenLooks, hpc]
    | drainDue due hpc => cases due <;> simp [PushedLate, SecondLookFinds, betweenLooks, hpc]
    | absorbEnd hpc hc | verifyEnd hpc hc =>
      simp [PushedLate, SecondLookFinds, betweenLooks, verified, hpc, hc]
    | issued hpc | timeout hpc | drained hpc | absorbed hpc _ | slept hpc =>
      simp [PushedLate, SecondLookFinds, betweenLooks, hpc]

end CreditCycle

open CreditCycle in
/-- **When over-delivery is flagged.** At the end of every `drainAndVerify` pass
that returns true, whatever was pushed before it and with whatever credit, the
worker has counted a fidelity failure exactly when it had one before the cycle,
or has handled a corrupt delivery, or the second look of this or an earlier pass
has found a delivery in the cache and accepted it. As long as no accept of a look
fails, there is such a delivery exactly when the broker has pushed between the
two looks of a pass; what it pushes at any other time goes unnoticed. -/
theorem over_delivery_flagged_iff (b : CreditBatch) (base : BaseWorker) {H : List CreditCycle.Event}
    {e : CreditCycle.Event} {s s' : CreditCycle} (hs : after b base H = .some s)
    (he : step b s e = .some s') (hpass : s.EndsPass e) :
    (1 ≤ s'.base.fidelityFails ↔
      0 < base.fidelityFails ∨ Once (At b base HandlesCorrupt) (H ++ [e]) ∨
        Once (At b base SecondLookFinds) H) ∧
      (.prefetched false ∉ H ++ [e] →
        (Once (At b base SecondLookFinds) H ↔ Once (At b base PushedLate) H)) := by
  have hrun : after b base (H ++ [e]) = .some s' := exec_snoc_eq_some.mpr ⟨s, hs, he⟩
  obtain ⟨⟨n, hpc⟩, hend⟩ := hpass
  have htop : s'.pc = .top := by
    rcases hend with rfl | rfl
    · cases step_moves he with
      | absorbEnd h => rw [hpc] at h; cases h
      | verifyEnd => rfl
    · cases step_moves he with
      | absorbRefused h => rw [hpc] at h; cases h
      | countRefused => rfl
  -- The step that ends a pass neither finds nor pushes.
  have hlook : ¬ s.SecondLookFinds e := fun h => by
    rcases hend with rfl | rfl <;> cases h.2.2
  have hpush : ¬ s.PushedLate e := fun h => by
    obtain ⟨⟨m, hm⟩, -⟩ := h
    rcases hend with rfl | rfl <;> cases hm
  refine ⟨?_, fun hacc => ?_⟩
  · have hfails := fails_after hrun (by simp [htop])
    rw [once_at_snoc hs (Q := SecondLookFinds), or_iff_left hlook] at hfails
    simpa [htop, found, Nat.one_le_iff_ne_zero, Nat.pos_iff_ne_zero] using hfails
  · have hlate := late_after hrun hacc (by simp [htop])
    rw [once_at_snoc hs, once_at_snoc hs, or_iff_left hlook, or_iff_left hpush, htop] at hlate
    simpa [betweenLooks] using hlate.symm

/-- A message of the worker's own producer. -/
def ownMessage (seq : UInt64) : Option Envelope := .some { producerID := channel .creditFlow 0, seq }

/-- A drain pass between whose looks a delivery is pushed. -/
def pushedLate : List CreditCycle.Event :=
  [.issue true, .timeout, .drainDue true, .drain .completed, .empty, .push (ownMessage 1), .slept,
    .prefetched true]

set_option maxRecDepth 20000 in
open CreditCycle in
/-- It is flagged. -/
theorem over_delivery_flagged_pushedLate :
    ∃ s s', after oneCredit.creditBatch (.new smallWindow .creditFlow 0) pushedLate = .some s ∧
      step oneCredit.creditBatch s .empty = .some s' ∧ 1 ≤ s'.base.fidelityFails := by
  have hfound : (after oneCredit.creditBatch (.new smallWindow .creditFlow 0) (pushedLate.take 7)).map
      (fun t => (t.pc, t.cache)) = .some (.verify 0, [ownMessage 1]) := by decide +kernel
  have hpc : (after oneCredit.creditBatch (.new smallWindow .creditFlow 0) pushedLate).map
      (fun s => (s.pc, s.cache)) = .some (.verify 1, []) := by decide +kernel
  obtain ⟨t, ht, htpc⟩ := Option.map_eq_some_iff.mp hfound
  obtain ⟨s, hs, hspc⟩ := Option.map_eq_some_iff.mp hpc
  obtain ⟨hp, hc⟩ := Prod.mk.inj htpc
  obtain ⟨hp', hc'⟩ := Prod.mk.inj hspc
  have hstep : step oneCredit.creditBatch s .empty = .some (s.verified 1) := by simp [step, hp', hc']
  refine ⟨s, _, hs, hstep, ?_⟩
  refine (over_delivery_flagged_iff _ _ hs hstep ⟨⟨1, hp'⟩, .inl rfl⟩).1.mpr (.inr (.inr ?_))
  exact ⟨pushedLate.take 7, .prefetched true, [], rfl, t, ht, ⟨0, hp⟩, by simp [hc], rfl⟩

/-- With a batch of one, a second delivery is pushed before fresh credit; the
next batch takes it, and then comes a drain pass. -/
def overDelivered : List CreditCycle.Event :=
  [.issue true, .push (ownMessage 1), .push (ownMessage 2), .receive true, .drainDue false, .issue true,
    .receive true, .drainDue true, .drain .completed, .empty, .slept, .empty]

set_option maxRecDepth 20000 in
open CreditCycle in
/-- The second delivery is pushed at zero credit, the pass returns true, and no
fidelity failure is counted. -/
theorem over_delivery_unflagged :
    (after oneCredit.creditBatch (.new smallWindow .creditFlow 0) (overDelivered.take 2)).map
      (·.credit) = .some 0 ∧
      (after oneCredit.creditBatch (.new smallWindow .creditFlow 0) (overDelivered.take 11)).map (·.pc) =
        .some (.verify 0) ∧
      (after oneCredit.creditBatch (.new smallWindow .creditFlow 0) overDelivered).map
        (fun s => (s.pc, s.base.received, s.base.fidelityFails)) = .some (.top, 2, 0) := by
  decide +kernel

/-! ## No false alarm -/

/-- The fidelity failures that are not corrupt deliveries. -/
def BaseWorker.gapFails (w : BaseWorker) : Int := w.fidelityFails - w.corrupted

theorem BaseWorker.handleDelivery_gapFails (w : BaseWorker) (m : Option Envelope) :
    (w.handleDelivery m).gapFails = w.gapFails := by
  cases m with
  | none => rfl
  | some m =>
    have htracked : ∀ w : BaseWorker, (w.recordTracked m.producerID m.seq).gapFails = w.gapFails := by
      intro w
      unfold recordTracked
      dsimp only
      split <;> rfl
    have hcorrupted : w.recordCorrupted.gapFails = w.gapFails := by simp [gapFails, recordCorrupted]
    have hinspect : (w.inspect m).gapFails = w.gapFails := by
      unfold inspect
      cases m.latency <;> cases m.crcMismatch <;> first | rfl | exact hcorrupted
    exact (htracked _).trans hinspect

namespace CreditCycle

variable {b : CreditBatch} {base : BaseWorker}

/-- The step calls `recordFidelityGap`. -/
def RecordsGap (s : CreditCycle) (e : Event) : Prop :=
  (s.pc = .draining ∧ e = .drain .hung) ∨ ∃ n > 0, s.pc = .verify n ∧
    (e = .empty ∨ e = .prefetched false)

/-- What is assumed of the broker and the library at a step: no push without
credit, no drain that hangs on a live link, and no `AcceptMessage` that succeeds
once one has failed. -/
structure Behaves (b : CreditBatch) (base : BaseWorker) (pre : List Event) (e : Event) : Prop where
  credited : ∀ m, e = .push m → ∀ t, after b base pre = .some t → 0 < t.credit
  drains : e ≠ .drain .hung
  refuses : .receive false ∈ pre ∨ .prefetched false ∈ pre → e ≠ .receive true ∧ e ≠ .prefetched true

/-- What the account of a drain pass rests on: from the drain to the end of the
pass there is no credit, and after the first look nothing is in the cache, or
what is there cannot be accepted. -/
structure Calm (H : List Event) (s : CreditCycle) : Prop where
  credit : s.pc = .absorb ∨ betweenLooks s.pc = true → s.credit = 0
  cache : betweenLooks s.pc = true → s.cache = [] ∨ .prefetched false ∈ H
  found : found s.pc = 0

theorem Calm.of_pc {H : List Event} {s : CreditCycle} (ha : s.pc ≠ .absorb)
    (hb : betweenLooks s.pc = false) : Calm H s where
  credit h := by
    rcases h with h | h
    · exact absurd h ha
    · rw [hb] at h
      cases h
  cache h := by
    rw [hb] at h
    cases h
  found := by
    cases hpc : s.pc with
    | verify n => rw [hpc] at hb; cases hb
    | _ => rfl

theorem Calm.step {H : List Event} {s s' : CreditCycle} {e : Event} (h : Calm H s)
    (hs : after b base H = .some s) (he : step b s e = .some s') (hb : Behaves b base H e) :
    Calm (H ++ [e]) s' := by
  cases step_moves he with
  | push m hpc =>
    -- There is credit, so the cycle is not in the second half of a pass.
    have hpos := hb.credited m rfl s hs
    refine .of_pc (fun ha => ?_) (Bool.eq_false_of_not_eq_true fun hl => ?_)
    · have := h.credit (.inl ha)
      omega
    · have := h.credit (.inr hl)
      omega
  | drained hpc => exact ⟨fun _ => rfl, by simp [betweenLooks], rfl⟩
  | absorbed hpc hc =>
    have hcredit := h.credit (.inl hpc)
    exact ⟨fun _ => hcredit, by simp [betweenLooks, hpc], by simp [CreditCycle.found, hpc]⟩
  | absorbRefused hpc hc => exact ⟨fun _ => h.credit (.inl hpc), fun _ => .inr (by simp), rfl⟩
  | absorbEnd hpc hc => exact ⟨fun _ => h.credit (.inl hpc), fun _ => .inl hc, rfl⟩
  | slept hpc =>
    have hl : betweenLooks s.pc = true := by rw [hpc]; rfl
    exact ⟨fun _ => h.credit (.inr hl), fun _ => (h.cache hl).imp_right (List.mem_append_left _), rfl⟩
  | counted hpc hc =>
    -- What is still in the cache was refused, and would be again.
    have hrefused := (h.cache (by rw [hpc]; rfl)).resolve_left (by simp [hc])
    exact absurd rfl (hb.refuses (.inr hrefused)).2
  | received hpc hc =>
    refine .of_pc ?_ ?_
    · dsimp only
      split <;> simp
    · dsimp only
      split <;> rfl
  | drainDue due hpc => cases due <;> exact .of_pc (by simp) rfl
  | countRefused | verifyEnd => exact .of_pc (by simp [verified]) rfl
  | _ => exact .of_pc (by simp) rfl

theorem calm_after {H : List Event} {s : CreditCycle} (h : after b base H = .some s) :
    Always (Behaves b base) H → Calm H s := by
  refine exec_rec (P := fun H s => Always (Behaves b base) H →
    Calm H s) (fun _ => .of_pc (by simp) rfl) ?_ h
  intro H s e s' hs ih he hb
  obtain ⟨hH, hb⟩ := always_snoc.mp hb
  exact (ih hH).step hs he hb

/-- Only `recordFidelityGap` and corrupt deliveries make fidelity failures. -/
theorem gapFails_step {s s' : CreditCycle} {e : Event} (h : Moves b s e s') (hg : ¬ s.RecordsGap e) :
    s'.base.gapFails = s.base.gapFails := by
  have hhandle := fun m => s.base.handleDelivery_gapFails m
  -- A pass that has found nothing records nothing.
  have hzero : ∀ {n}, s.pc = .verify n → e = .empty ∨ e = .prefetched false → n = 0 :=
    fun {n} hpc hend => Nat.eq_zero_of_not_pos fun hpos => hg (.inr ⟨n, hpos, hpc, hend⟩)
  cases h with
  | received hpc hc | receiveRefused hpc hc | absorbed hpc hc | absorbRefused hpc hc | counted hpc hc =>
    exact hhandle _
  | countRefused hpc hc =>
    obtain rfl := hzero hpc (.inr rfl)
    exact hhandle _
  | verifyEnd hpc hc =>
    obtain rfl := hzero hpc (.inl rfl)
    rfl
  | hung hpc => exact absurd (.inl ⟨hpc, rfl⟩) hg
  | _ => rfl

end CreditCycle

open CreditCycle in
/-- **No false alarm.** Along every run of `creditCycle` on which the broker
never pushes without credit, no drain hangs on a live link, and a receiver that
failed to accept a message keeps failing, no step calls `recordFidelityGap`:
fidelity failures are corrupt deliveries. -/
theorem no_false_alarm (b : CreditBatch) (base : BaseWorker) {H : List CreditCycle.Event}
    {s : CreditCycle} (h : after b base H = .some s) (hb : Always (Behaves b base) H) :
    ¬ Once (At b base RecordsGap) H ∧ s.base.gapFails = base.gapFails := by
  refine exec_rec (P := fun H s => Always (Behaves b base) H →
    ¬ Once (At b base RecordsGap) H ∧ s.base.gapFails = base.gapFails) ?_ ?_ h hb
  · intro _
    exact ⟨not_once_nil, rfl⟩
  · intro H s e s' hs ih he hb
    obtain ⟨hH, hb⟩ := always_snoc.mp hb
    obtain ⟨hnone, hfails⟩ := ih hH
    have hcalm := calm_after hs hH
    have hg : ¬ s.RecordsGap e := fun hg => by
      rcases hg with ⟨-, rfl⟩ | ⟨n, hpos, hpc, -⟩
      · exact hb.drains rfl
      · have hfound := hcalm.found
        rw [hpc] at hfound
        exact absurd hfound (Nat.ne_of_gt hpos)
    refine ⟨fun honce => ?_, (gapFails_step (step_moves he) hg).trans hfails⟩
    rcases (once_at_snoc hs).mp honce with honce | hlast
    · exact hnone honce
    · exact hg hlast

/-- A delivery is still in the cache when the drain completes, and the link goes
down before it is accepted. -/
def refusedPass : List CreditCycle.Event :=
  [.issue true, .push (ownMessage 1), .timeout, .drainDue true, .drain .completed,
    .prefetched false, .slept, .empty]

set_option maxRecDepth 20000 in
open CreditCycle in
/-- The pass raises no alarm. -/
theorem no_false_alarm_refusedPass :
    ∃ s, after oneCredit.creditBatch (.new smallWindow .creditFlow 0) refusedPass = .some s ∧
      s.pc = .top ∧
      ¬ Once (At oneCredit.creditBatch (.new smallWindow .creditFlow 0) RecordsGap) refusedPass ∧
      s.base.gapFails = 0 := by
  have hpc : (after oneCredit.creditBatch (.new smallWindow .creditFlow 0) refusedPass).map (·.pc) =
      .some .top := by
    decide +kernel
  have hcredit : (after oneCredit.creditBatch (.new smallWindow .creditFlow 0)
      (refusedPass.take 1)).map (·.credit) = .some 1 := by decide +kernel
  obtain ⟨s, hs, hp⟩ := Option.map_eq_some_iff.mp hpc
  refine ⟨s, hs, hp, no_false_alarm _ _ hs fun pre e post he => ⟨fun m hm t ht => ?_, ?_, fun hr => ?_⟩⟩
  · -- The one push is the second step.
    obtain rfl : pre = refusedPass.take 1 := by
      rcases pre with _ | ⟨e₁, _ | ⟨e₂, pre⟩⟩
      · simp [refusedPass, hm] at he
      · simp only [refusedPass, List.cons_append, List.nil_append, List.cons.injEq] at he
        rw [← he.1]
        rfl
      · have hmem : e ∈ refusedPass.drop 2 := by rw [he]; simp
        rw [hm] at hmem
        simp [refusedPass] at hmem
    rw [ht] at hcredit
    have hone : t.credit = 1 := Option.some.inj hcredit
    omega
  · have hmem : e ∈ refusedPass := by rw [he]; simp
    rintro rfl
    simp [refusedPass] at hmem
  · have hmem : e ∈ refusedPass := by rw [he]; simp
    refine ⟨?_, ?_⟩ <;> (rintro rfl; simp [refusedPass] at hmem)

end Burnin
