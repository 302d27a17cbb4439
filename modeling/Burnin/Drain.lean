/-
The wait for deliveries that are on their way (`drainToQuiescence` in
`burnin/engine/engine.go`), against the consumers that go on counting.

`totalReceived` reads the counters of the workers one after the other, so what it
returns need not have been the total at any one time: it is at least the total
when it began and at most the total when it ended. That is enough. Counters only
grow, so when a poll returns what an earlier one did, nothing was counted between
the end of the earlier and the beginning of this one; the loop compares with the
first of a series of equal polls, so four of them make a quiet second
(`drain_quiescent`).
-/
import Burnin.Measurement
import Burnin.Lib.Machine
import Mathlib.Algebra.Order.BigOperators.Group.List

namespace Burnin

/-- Where `drainToQuiescence` is. -/
inductive DrainPc where
  | entering
  /-- in `totalReceived`: the workers it has yet to read, the total so far, and
  `prev` and `stable` (none in the call before the loop) -/
  | reading (todo : List WorkerKey) (total : UInt64) (prev : Option (UInt64 × Nat))
  /-- before `time.Now().Before(deadline)` -/
  | looping (prev : UInt64) (stable : Nat)
  | sleeping (wake : Int) (prev : UInt64) (stable : Nat)
  /-- with the `return` in the loop, or past its end -/
  | returned (quiescent : Bool)
  deriving DecidableEq

structure Draining where
  /-- the counter `received` of each worker -/
  received : WorkerKey → UInt64
  now : Int
  deadline : Int := 0
  pc : DrainPc := .entering

inductive DrainAct where
  /-- a consumer of the worker counts a delivery -/
  | deliver (key : WorkerKey)
  | pass (d : Nat)
  /-- up to the first `totalReceived`, which visits the workers in this order -/
  | enter (order : List WorkerKey)
  /-- `time.Now().Before(deadline)` -/
  | check
  /-- `time.Sleep` has returned; the next `totalReceived` visits the workers in
  this order -/
  | wake (order : List WorkerKey)
  /-- `totalReceived` reads a counter, or returns -/
  | read
  deriving DecidableEq

namespace Draining

/-- In nanoseconds. -/
def pollInterval : Int := 250 * 10 ^ 6

def stablePolls : Nat := 4

/-- `if maxWait <= 0 { maxWait = time.Second }`. -/
def waitOf (maxWait : Int) : Int := if maxWait ≤ 0 then 10 ^ 9 else maxWait

/-- The comparison after a poll. -/
def compare (cur : UInt64) : Option (UInt64 × Nat) → DrainPc
  | .none => .looping cur 0
  | .some (prev, stable) =>
    if cur = prev then
      if stable + 1 ≥ stablePolls then .returned true else .looping prev (stable + 1)
    else .looping cur 0

/-- One step of `drainToQuiescence(maxWait)` over the workers `keys`, or of what
goes on beside it. -/
def step (keys : List WorkerKey) (maxWait : Int) (s : Draining) : DrainAct → Option Draining
  | .deliver key => .some { s with received := Function.update s.received key (s.received key + 1) }
  | .pass d => .some { s with now := s.now + d }
  | .enter order =>
    match s.pc with
    | .entering =>
      if order.Perm keys then .some { s with
        deadline := s.now + waitOf maxWait, pc := .reading order 0 .none } else .none
    | _ => .none
  | .check =>
    match s.pc with
    | .looping prev stable =>
      .some { s with
        pc := if s.now < s.deadline then .sleeping (s.now + pollInterval) prev stable
          else .returned false }
    | _ => .none
  | .wake order =>
    match s.pc with
    | .sleeping wake prev stable =>
      if wake ≤ s.now ∧ order.Perm keys then
        .some { s with pc := .reading order 0 (.some (prev, stable)) }
      else .none
    | _ => .none
  | .read =>
    match s.pc with
    | .reading (key :: todo) total prev =>
      .some { s with pc := .reading todo (total + s.received key) prev }
    | .reading [] total prev => .some { s with pc := compare total prev }
    | _ => .none

/-- The sum of the counters, as they are. -/
def total (keys : List WorkerKey) (received : WorkerKey → UInt64) : Nat :=
  (keys.map fun key => (received key).toNat).sum

end Draining

/-- A delivery that one of the workers counts. -/
def DrainAct.counts (keys : List WorkerKey) : DrainAct → Bool
  | .deliver key => decide (key ∈ keys)
  | _ => false

/-- A poll of the loop. -/
def DrainAct.isPoll : DrainAct → Bool
  | .wake _ => true
  | _ => false

namespace Draining

/-! ## The counters -/

section
variable {keys : List WorkerKey} {maxWait : Int} {s s' : Draining}

theorem total_deliver {received : WorkerKey → UInt64} {l : List WorkerKey} (key : WorkerKey)
    (hfit : key ∈ l → (received key).toNat + 1 < 2 ^ 64) :
    total l (Function.update received key (received key + 1)) = total l received + l.count key := by
  induction l with
  | nil => rfl
  | cons k l ih =>
    have ih := ih fun hk => hfit (List.mem_cons_of_mem k hk)
    simp only [total, List.map_cons, List.sum_cons, List.count_cons] at ih ⊢
    rw [ih]
    by_cases hk : k = key
    · subst hk
      have hlt := hfit (List.mem_cons_self)
      have hone : (received k + 1).toNat = (received k).toNat + 1 := by
        rw [UInt64.toNat_add]
        exact Nat.mod_eq_of_lt hlt
      simp only [Function.update_self, hone, beq_self_eq_true, if_true]
      omega
    · have hne : (k == key) = false := by simp [hk]
      simp only [Function.update_of_ne hk, hne, Bool.false_eq_true, if_false]
      omega

theorem received_le_total {received : WorkerKey → UInt64} {key : WorkerKey} (h : key ∈ keys) :
    (received key).toNat ≤ total keys received :=
  List.le_sum_of_mem (List.mem_map.mpr ⟨key, h, rfl⟩)

/-- Only a delivery writes a counter, and time does not go back. -/
theorem step_frame {a : DrainAct} (h : s.step keys maxWait a = .some s') :
    ((∀ key, a ≠ .deliver key) → s'.received = s.received) ∧ s.now ≤ s'.now := by
  cases a with
  | deliver key =>
    cases h
    exact ⟨fun ha => absurd rfl (ha key), le_rfl⟩
  | pass d =>
    cases h
    exact ⟨fun _ => rfl, by simp⟩
  | enter order | wake order =>
    simp only [step] at h
    split at h
    · rw [Option.ite_none_right_eq_some] at h
      obtain ⟨-, h⟩ := h
      cases h
      exact ⟨fun _ => rfl, le_rfl⟩
    · cases h
  | check =>
    simp only [step] at h
    split at h
    · cases h
      exact ⟨fun _ => rfl, le_rfl⟩
    · cases h
  | read =>
    simp only [step] at h
    split at h
    · cases h
      exact ⟨fun _ => rfl, le_rfl⟩
    · cases h
      exact ⟨fun _ => rfl, le_rfl⟩
    · cases h

theorem now_exec {H : List DrainAct} (h : Machine.exec (step keys maxWait) s H = .some s') :
    s.now ≤ s'.now :=
  Machine.invariant (I := fun t => s.now ≤ t.now) le_rfl
    (fun _ _ _ ht hs => ht.trans (step_frame hs).2) h

theorem total_step (hnd : keys.Nodup) {a : DrainAct} (h : s.step keys maxWait a = .some s')
    (hfit : total keys s.received + 1 < 2 ^ 64) :
    total keys s'.received = total keys s.received + if a.counts keys then 1 else 0 := by
  by_cases ha : ∃ key, a = .deliver key
  · obtain ⟨key, rfl⟩ := ha
    cases h
    have hkey : key ∈ keys → (s.received key).toNat + 1 < 2 ^ 64 := fun hk => by
      have hle : (s.received key).toNat ≤ total keys s.received := received_le_total hk
      omega
    rw [total_deliver key hkey, hnd.count]
    simp only [DrainAct.counts, decide_eq_true_eq]
  · have hne : ∀ key, a ≠ .deliver key := fun key he => ha ⟨key, he⟩
    have hcounts : a.counts keys = false := by
      cases a with
      | deliver key => exact absurd rfl (hne key)
      | _ => rfl
    rw [hcounts, total, (step_frame h).1 hne]
    rfl

theorem total_exec (hnd : keys.Nodup) {H : List DrainAct}
    (h : Machine.exec (step keys maxWait) s H = .some s')
    (hfit : total keys s.received + H.length < 2 ^ 64) :
    total keys s'.received = total keys s.received + H.countP (·.counts keys) := by
  revert hfit
  refine Machine.exec_rec (P := fun H s' => total keys s.received + H.length < 2 ^ 64 →
    total keys s'.received = total keys s.received + H.countP (·.counts keys)) (fun _ => rfl) ?_ h
  intro H t a t' _ ih ha hfit
  simp only [List.length_append, List.length_singleton] at hfit
  have hle := List.countP_le_length (p := (·.counts keys)) (l := H)
  have ih := ih (by omega)
  rw [total_step hnd ha (by omega), ih, List.countP_append, List.countP_singleton]
  omega

end

/-! ## The polls -/

section
variable (keys : List WorkerKey) (maxWait : Int) (s₀ : Draining)

/-- Some time ago the total was `prev` or more, and since then, up to `t`, a
number of poll intervals has gone by. -/
def Since (H : List DrainAct) (prev : UInt64) (intervals : Nat) (t : Int) : Prop :=
  ∃ pre mid a, H = pre ++ mid ∧ Machine.exec (step keys maxWait) s₀ pre = .some a ∧
    prev.toNat ≤ total keys a.received ∧
    intervals * pollInterval ≤ t - a.now

/-- The same, up to the beginning of the present poll, from which on the total is
at most `bound`. -/
def Polled (H : List DrainAct) (prev : UInt64) (intervals bound : Nat) : Prop :=
  ∃ pre mid post a b, H = pre ++ mid ++ post ∧ Machine.exec (step keys maxWait) s₀ pre = .some a ∧
    Machine.exec (step keys maxWait) a mid = .some b ∧ prev.toNat ≤ total keys a.received ∧
    intervals * pollInterval ≤ b.now - a.now ∧ total keys b.received ≤ bound

/-- A part of the run, of a number of poll intervals, in which nothing was
counted. -/
def Quiet (H : List DrainAct) : Prop :=
  ∃ pre mid post a b, H = pre ++ mid ++ post ∧ Machine.exec (step keys maxWait) s₀ pre = .some a ∧
    Machine.exec (step keys maxWait) a mid = .some b ∧ stablePolls * pollInterval ≤ b.now - a.now ∧
    ∀ act ∈ mid, act.counts keys = false

/-- What the loop knows at each place. -/
def Knows (H : List DrainAct) (s : Draining) : Prop :=
  match s.pc with
  | .entering => True
  | .reading todo t prev =>
    (∃ done, (done ++ todo).Perm keys) ∧ t.toNat + total todo s.received ≤ total keys s.received ∧
      ∀ p n, prev = .some (p, n) → n < stablePolls ∧
        Polled keys maxWait s₀ H p (n + 1) (t.toNat + total todo s.received)
  | .looping prev stable => stable < stablePolls ∧ Since keys maxWait s₀ H prev stable s.now
  | .sleeping wake prev stable => stable < stablePolls ∧ Since keys maxWait s₀ H prev (stable + 1) wake
  | .returned quiescent => quiescent = true → Quiet keys maxWait s₀ H

end

section
variable {keys : List WorkerKey} {maxWait : Int} {s₀ s s' : Draining} {H : List DrainAct}

theorem Since.later {prev : UInt64} {n : Nat} {t t' : Int} (h : Since keys maxWait s₀ H prev n t)
    (a : DrainAct) (ht : t ≤ t') : Since keys maxWait s₀ (H ++ [a]) prev n t' := by
  obtain ⟨pre, mid, b, rfl, hpre, hprev, hn⟩ := h
  exact ⟨pre, mid ++ [a], b, by simp, hpre, hprev, by omega⟩

theorem Polled.later {prev : UInt64} {n bound bound' : Nat}
    (h : Polled keys maxWait s₀ H prev n bound) (a : DrainAct) (hb : bound ≤ bound') :
    Polled keys maxWait s₀ (H ++ [a]) prev n bound' := by
  obtain ⟨pre, mid, post, b, c, rfl, hpre, hmid, hprev, hn, htotal⟩ := h
  exact ⟨pre, mid, post ++ [a], b, c, by simp, hpre, hmid, hprev, hn, by omega⟩

theorem Quiet.later (h : Quiet keys maxWait s₀ H) (a : DrainAct) : Quiet keys maxWait s₀ (H ++ [a]) := by
  obtain ⟨pre, mid, post, b, c, rfl, hrest⟩ := h
  exact ⟨pre, mid, post ++ [a], b, c, by simp, hrest⟩

/-- A poll that returns what the first of the series did: nothing was counted
between the end of that one and its own beginning. -/
theorem Polled.quiet {prev : UInt64} (hnd : keys.Nodup)
    (hfit : total keys s₀.received + H.length < 2 ^ 64)
    (h : Polled keys maxWait s₀ H prev stablePolls prev.toNat) : Quiet keys maxWait s₀ H := by
  obtain ⟨pre, mid, post, a, b, rfl, hpre, hmid, hprev, hn, htotal⟩ := h
  refine ⟨pre, mid, post, a, b, rfl, hpre, hmid, hn, ?_⟩
  simp only [List.length_append] at hfit
  have ha := total_exec hnd hpre (by omega)
  have hcount := List.countP_le_length (p := (·.counts keys)) (l := pre)
  have hb := total_exec hnd hmid (by omega)
  have hzero : mid.countP (·.counts keys) = 0 := by omega
  exact fun act hact => Bool.eq_false_iff.mpr (List.countP_eq_zero.mp hzero act hact)

theorem Knows.deliver (h : Knows keys maxWait s₀ H s) (key : WorkerKey)
    (hfit : total keys s.received + 1 < 2 ^ 64) :
    Knows keys maxWait s₀ (H ++ [.deliver key])
      { s with received := Function.update s.received key (s.received key + 1) } := by
  cases hpc : s.pc with
  | entering => simp only [Knows]
  | reading todo t prev =>
    simp only [Knows, hpc] at h ⊢
    obtain ⟨⟨done, hperm⟩, hle, hpolled⟩ := h
    have hone : key ∈ keys → (s.received key).toNat + 1 < 2 ^ 64 := fun hk => by
      have hle : (s.received key).toNat ≤ total keys s.received := received_le_total hk
      omega
    have hkeys := total_deliver key hone
    have htodo := total_deliver (l := todo) key fun hk =>
      hone (hperm.mem_iff.mp (List.mem_append_right done hk))
    have hcount : todo.count key ≤ keys.count key := by
      rw [← hperm.count_eq, List.count_append]
      omega
    refine ⟨⟨done, hperm⟩, by rw [htodo, hkeys]; omega, fun p n hp => ?_⟩
    exact ⟨(hpolled p n hp).1, (hpolled p n hp).2.later _ (by rw [htodo]; omega)⟩
  | looping prev stable | sleeping wake prev stable =>
    simp only [Knows, hpc] at h ⊢
    exact ⟨h.1, h.2.later _ le_rfl⟩
  | returned quiescent =>
    simp only [Knows, hpc] at h ⊢
    exact fun hq => (h hq).later _

theorem Knows.pass (h : Knows keys maxWait s₀ H s) (d : Nat) :
    Knows keys maxWait s₀ (H ++ [.pass d]) { s with now := s.now + d } := by
  cases hpc : s.pc with
  | entering => simp only [Knows]
  | reading todo t prev =>
    simp only [Knows, hpc] at h ⊢
    obtain ⟨hdone, hle, hpolled⟩ := h
    exact ⟨hdone, hle, fun p n hp => ⟨(hpolled p n hp).1, (hpolled p n hp).2.later _ le_rfl⟩⟩
  | looping prev stable =>
    simp only [Knows, hpc] at h ⊢
    exact ⟨h.1, h.2.later _ (by omega)⟩
  | sleeping wake prev stable =>
    simp only [Knows, hpc] at h ⊢
    exact ⟨h.1, h.2.later _ le_rfl⟩
  | returned quiescent =>
    simp only [Knows, hpc] at h ⊢
    exact fun hq => (h hq).later _

theorem total_perm {received : WorkerKey → UInt64} {l l' : List WorkerKey} (h : l.Perm l') :
    total l received = total l' received := (h.map _).sum_eq

theorem Knows.wake (hrun : Machine.exec (step keys maxWait) s₀ H = .some s)
    (h : Knows keys maxWait s₀ H s) {order : List WorkerKey}
    (hs : s.step keys maxWait (.wake order) = .some s') :
    Knows keys maxWait s₀ (H ++ [.wake order]) s' := by
  simp only [step] at hs
  split at hs
  · next wake prev stable hpc =>
    simp only [Knows, hpc] at h
    obtain ⟨hlt, pre, mid, a, rfl, hpre, hprev, hn⟩ := h
    rw [Option.ite_none_right_eq_some] at hs
    obtain ⟨⟨hnow, hperm⟩, hs⟩ := hs
    cases hs
    obtain ⟨a', ha', hmid⟩ := Machine.exec_append_eq_some.mp hrun
    cases hpre.symm.trans ha'
    have htotal : total order s.received = total keys s.received := total_perm hperm
    refine ⟨⟨[], hperm⟩, by rw [htotal]; simp [total], fun p n hp => ?_⟩
    cases hp
    refine ⟨hlt, pre, mid, [.wake order], a, s, rfl, hpre, hmid, hprev, by omega, ?_⟩
    rw [htotal]
    omega
  · cases hs

theorem Knows.enter {order : List WorkerKey} (hs : s.step keys maxWait (.enter order) = .some s') :
    Knows keys maxWait s₀ (H ++ [.enter order]) s' := by
  simp only [step] at hs
  split at hs
  · rw [Option.ite_none_right_eq_some] at hs
    obtain ⟨hperm, hs⟩ := hs
    cases hs
    refine ⟨⟨[], hperm⟩, ?_, fun p n hp => nomatch hp⟩
    have htotal : total order s.received = total keys s.received := total_perm hperm
    exact (Nat.zero_add _).trans_le htotal.le
  · cases hs

theorem Knows.check (h : Knows keys maxWait s₀ H s) (hs : s.step keys maxWait .check = .some s') :
    Knows keys maxWait s₀ (H ++ [.check]) s' := by
  simp only [step] at hs
  split at hs
  · next prev stable hpc =>
    simp only [Knows, hpc] at h
    obtain ⟨hlt, pre, mid, a, rfl, hpre, hprev, hn⟩ := h
    cases hs
    by_cases hnow : s.now < s.deadline
    · simp only [Knows, if_pos hnow]
      refine ⟨hlt, pre, mid ++ [.check], a, by simp, hpre, hprev, ?_⟩
      push_cast
      rw [add_mul]
      omega
    · simp only [Knows, if_neg hnow]
      exact fun hq => nomatch hq
  · cases hs

/-- `totalReceived` reads one more counter, or returns. -/
theorem Knows.read (hnd : keys.Nodup) (hrun : Machine.exec (step keys maxWait) s₀ H = .some s)
    (h : Knows keys maxWait s₀ H s) (hfit : total keys s₀.received + (H.length + 1) < 2 ^ 64)
    (hs : s.step keys maxWait .read = .some s') : Knows keys maxWait s₀ (H ++ [.read]) s' := by
  have htotal := total_exec hnd hrun (by omega)
  have hcount := List.countP_le_length (p := (·.counts keys)) (l := H)
  simp only [step] at hs
  split at hs
  · next key todo t prev hpc =>
    simp only [Knows, hpc] at h
    obtain ⟨⟨done, hperm⟩, hle, hpolled⟩ := h
    cases hs
    have hcons : total (key :: todo) s.received = (s.received key).toNat +
        total todo s.received := by simp [total]
    have hadd : (t + s.received key).toNat = t.toNat + (s.received key).toNat := by
      rw [UInt64.toNat_add]
      exact Nat.mod_eq_of_lt (by omega)
    simp only [Knows]
    refine ⟨⟨done ++ [key], by simpa using hperm⟩, ?_,
      fun p n hp => ⟨(hpolled p n hp).1, (hpolled p n hp).2.later _ ?_⟩⟩
    · rw [hadd]
      omega
    · rw [hadd]
      omega
  · next t prev hpc =>
    simp only [Knows, hpc] at h
    obtain ⟨-, hle, hpolled⟩ := h
    cases hs
    have hnil : total [] s.received = 0 := rfl
    -- The poll is over now; the series of equal polls begins or goes on.
    have hfresh : Since keys maxWait s₀ (H ++ [.read]) t 0 s.now := by
      refine ⟨H, [.read], s, rfl, hrun, by omega, ?_⟩
      simp
    cases prev with
    | none => exact ⟨by decide, hfresh⟩
    | some p =>
      obtain ⟨prev, stable⟩ := p
      obtain ⟨hlt, hpoll⟩ := hpolled prev stable rfl
      simp only [compare]
      split_ifs with heq hstable
      · subst heq
        have hfour : stable + 1 = stablePolls := by omega
        rw [hfour, hnil, Nat.add_zero] at hpoll
        exact fun _ => (hpoll.quiet hnd (by omega)).later _
      · obtain ⟨pre, mid, post, a, b, rfl, hpre, hmid, hprev, hn, -⟩ := hpoll
        refine ⟨by omega, pre, mid ++ post ++ [.read], a, by simp, hpre, hprev, ?_⟩
        rw [List.append_assoc] at hrun
        obtain ⟨a', ha', hrest⟩ := Machine.exec_append_eq_some.mp hrun
        cases hpre.symm.trans ha'
        obtain ⟨b', hb', hpost⟩ := Machine.exec_append_eq_some.mp hrest
        cases hmid.symm.trans hb'
        have hmono := now_exec hpost
        push_cast at hn ⊢
        omega
      · exact ⟨by decide, hfresh⟩
  · cases hs

theorem Knows.step (hnd : keys.Nodup) (hrun : Machine.exec (step keys maxWait) s₀ H = .some s)
    (h : Knows keys maxWait s₀ H s) (hfit : total keys s₀.received + (H.length + 1) < 2 ^ 64)
    {a : DrainAct} (hs : s.step keys maxWait a = .some s') : Knows keys maxWait s₀ (H ++ [a]) s' := by
  cases a with
  | deliver key =>
    have htotal := total_exec hnd hrun (by omega)
    have hcount := List.countP_le_length (p := (·.counts keys)) (l := H)
    cases hs
    exact h.deliver key (by omega)
  | pass d =>
    cases hs
    exact h.pass d
  | enter order => exact .enter hs
  | check => exact h.check hs
  | wake order => exact h.wake hrun hs
  | read => exact h.read hnd hrun hfit hs

/-! ## The deadline -/

theorem waitOf_pos (maxWait : Int) : 0 < waitOf maxWait := by
  unfold waitOf
  split <;> omega

/-- After a number of polls: each has taken an interval, and the last of them
began before the deadline. -/
def Timed (maxWait : Int) (s₀ : Draining) (polls : Nat) (s : Draining) : Prop :=
  match s.pc with
  | .entering => polls = 0 ∧ s₀.now ≤ s.now
  | .reading _ _ _ | .looping _ _ =>
    polls * pollInterval ≤ s.now - (s.deadline - waitOf maxWait) ∧ s₀.now ≤ s.deadline - waitOf maxWait ∧
      polls * pollInterval < waitOf maxWait + pollInterval
  | .sleeping wake _ _ =>
    polls * pollInterval + pollInterval ≤ wake - (s.deadline - waitOf maxWait) ∧
      s₀.now ≤ s.deadline - waitOf maxWait ∧
      polls * pollInterval < waitOf maxWait
  | .returned quiescent =>
    polls * pollInterval < waitOf maxWait + pollInterval ∧
      (quiescent = false → waitOf maxWait ≤ s.now - s₀.now)

theorem Timed.other {polls : Nat} (h : Timed maxWait s₀ polls s) {a : DrainAct} (ha : a.isPoll = false)
    (hs : s.step keys maxWait a = .some s') : Timed maxWait s₀ polls s' := by
  have hwait := waitOf_pos maxWait
  cases a with
  | deliver key =>
    cases hs
    exact h
  | pass d =>
    cases hs
    cases hpc : s.pc with
    | returned quiescent =>
      simp only [Timed, hpc] at h ⊢
      refine ⟨h.1, fun hq => ?_⟩
      have hgone := h.2 hq
      omega
    | _ =>
      simp only [Timed, hpc] at h ⊢
      omega
  | enter order =>
    simp only [Draining.step] at hs
    split at hs
    · next hpc =>
      rw [Option.ite_none_right_eq_some] at hs
      obtain ⟨-, hs⟩ := hs
      cases hs
      simp only [Timed, hpc] at h
      obtain ⟨rfl, hnow⟩ := h
      simp only [Timed, Nat.cast_zero, zero_mul]
      have hinterval : 0 < pollInterval := by decide
      omega
    · cases hs
  | check =>
    simp only [Draining.step] at hs
    split at hs
    · next prev stable hpc =>
      cases hs
      simp only [Timed, hpc] at h
      by_cases hnow : s.now < s.deadline
      · simp only [Timed, if_pos hnow]
        omega
      · simp only [Timed, if_neg hnow]
        omega
    · cases hs
  | wake order => cases ha
  | read =>
    simp only [Draining.step] at hs
    split at hs
    · next key todo t prev hpc =>
      cases hs
      simpa only [Timed, hpc] using h
    · next t prev hpc =>
      cases hs
      simp only [Timed, hpc] at h
      have hloop : ∀ p n, Timed maxWait s₀ polls { s with pc := .looping p n } := fun _ _ => h
      cases prev with
      | none => exact hloop _ _
      | some p =>
        simp only [compare]
        split_ifs
        · exact ⟨h.2.2, fun hq => nomatch hq⟩
        · exact hloop _ _
        · exact hloop _ _
    · cases hs

theorem Timed.wake {polls : Nat} (h : Timed maxWait s₀ polls s) {order : List WorkerKey}
    (hs : s.step keys maxWait (.wake order) = .some s') : Timed maxWait s₀ (polls + 1) s' := by
  simp only [Draining.step] at hs
  split at hs
  · next wake prev stable hpc =>
    rw [Option.ite_none_right_eq_some] at hs
    obtain ⟨⟨hnow, -⟩, hs⟩ := hs
    cases hs
    simp only [Timed, hpc] at h
    simp only [Timed, Nat.cast_add, Nat.cast_one, add_mul, one_mul]
    omega
  · cases hs

theorem timed_exec (h₀ : s₀.pc = .entering)
    (h : Machine.exec (Draining.step keys maxWait) s₀ H = .some s) :
    Timed maxWait s₀ (H.countP (·.isPoll)) s := by
  refine Machine.exec_rec (P := fun H s => Timed maxWait s₀ (H.countP (·.isPoll)) s) ?_ ?_ h
  · simp only [Timed, h₀]
    exact ⟨rfl, le_rfl⟩
  · intro H s a s' _ ih hs
    rw [List.countP_append, List.countP_singleton]
    cases ha : a.isPoll with
    | false => exact ih.other ha hs
    | true =>
      cases a with
      | wake order => exact ih.wake hs
      | _ => cases ha

end

end Draining

open Draining in
/-- **When the drain ends.** Whatever the consumers count meanwhile, and in
whatever order the workers are read: `drainToQuiescence` makes at most as many
polls as `maxWait` has poll intervals, rounded up (`maxWait` is one second when it
is not positive). If it returns from the loop, there was a stretch of at least
four poll intervals in which no worker of the run counted a delivery; otherwise
`maxWait` has gone by. -/
theorem drain_quiescent (cfg : Config) (i : Nat) (maxWait : Int) {s₀ s : Draining}
    (h₀ : s₀.pc = .entering) {acts : List DrainAct}
    (h : Machine.exec (step (cfg.fleetKeys i) maxWait) s₀ acts = .some s)
    (hfit : total (cfg.fleetKeys i) s₀.received + acts.length < 2 ^ 64) :
    acts.countP (·.isPoll) * pollInterval < waitOf maxWait + pollInterval ∧
      (s.pc = .returned true → Quiet (cfg.fleetKeys i) maxWait s₀ acts) ∧
      (s.pc = .returned false → waitOf maxWait ≤ s.now - s₀.now) := by
  have hnd := Fleet.nodup_fleetKeys cfg i
  have hknows : Knows (cfg.fleetKeys i) maxWait s₀ acts s := by
    revert hfit
    refine Machine.exec_rec (P := fun H s => total (cfg.fleetKeys i) s₀.received + H.length < 2 ^ 64 →
      Knows (cfg.fleetKeys i) maxWait s₀ H s) (fun _ => by simp only [Knows, h₀]) ?_ h
    intro H t a t' hrun ih ha hfit
    rw [List.length_append, List.length_singleton] at hfit
    exact (ih (by omega)).step hnd hrun hfit ha
  have htimed := timed_exec h₀ h
  have hpos : 0 < waitOf maxWait := waitOf_pos maxWait
  have hinterval : 0 < pollInterval := by decide
  refine ⟨?_, fun hpc => ?_, fun hpc => ?_⟩
  · cases hpc : s.pc <;> simp only [Timed, hpc] at htimed
    case entering =>
      rw [htimed.1, Nat.cast_zero, zero_mul]
      omega
    all_goals omega
  · simp only [Knows, hpc] at hknows
    exact hknows trivial
  · simp only [Timed, hpc] at htimed
    exact htimed.2 trivial

/-- One poll after an interval, over a single worker. -/
def quietPoll (keys : List WorkerKey) : List DrainAct :=
  [.check, .pass 250000000, .wake keys, .read, .read]

/-- A delivery comes during the first interval, and none after it. -/
def lateDelivery : List DrainAct :=
  let keys := onlyQueues.fleetKeys 0
  [.enter keys, .read, .read, .deliver ⟨0, .queues, 1⟩] ++ quietPoll keys ++ quietPoll keys ++
    quietPoll keys ++ quietPoll keys ++ quietPoll keys

open Draining in
/-- The first poll sees the delivery, and the four after it end the drain. -/
theorem drain_quiescent_lateDelivery :
    ∃ s, Machine.exec (step (onlyQueues.fleetKeys 0) (10 * 10 ^ 9))
      ⟨fun _ => 0, 0, 0, .entering⟩ lateDelivery = .some s ∧
      s.pc = .returned true ∧ Quiet (onlyQueues.fleetKeys 0) (10 * 10 ^ 9)
        ⟨fun _ => 0, 0, 0, .entering⟩ lateDelivery := by
  have hpc : ((Machine.exec (step (onlyQueues.fleetKeys 0) (10 * 10 ^ 9)) ⟨fun _ => 0, 0, 0, .entering⟩
      lateDelivery).map (·.pc)) = .some (.returned true) := by decide +kernel
  obtain ⟨s, hs, hpc⟩ := Option.map_eq_some_iff.mp hpc
  exact ⟨s, hs, hpc, (drain_quiescent onlyQueues 0 _ rfl hs (by decide)).2.1 hpc⟩

end Burnin
