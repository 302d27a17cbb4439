/-
The producers of a run, and what its snapshot counts as sent: how `runLoop`
starts and stops the producers of its groups, worker by worker, first in
`warmup`, which then resets the workers, and once more from T0 to
`shutdownWorkers`.

`StartProducers` makes a context for a worker's producers and keeps its cancel
function in the worker, where `StopProducers` finds it before it waits for all
goroutines of the worker. A producer counts a message after `Send` has returned
nil, in a step of its own. A machine over the fleet's: its steps are those of
the fleet, of the runs' loops over the groups and of the producers.

While starts are settled no producer is live between the two windows or after
the second, and the snapshot has what was sent in the second
(`sent_in_window`). The groups are those in `e.workerGroups`, so when two runs
overlap a run may stop the producers of the other and leave its own.
-/
import Burnin.Fleet
import Burnin.Consumers
import Burnin.Lib.Held

namespace Burnin

open Past

/-- When a producer was started: in the warmup of a run or at its T0. -/
inductive Window where
  | warmup | measurement
  deriving DecidableEq, Repr

inductive SenderPhase where
  | looping
  /-- `Send` has returned nil, before `recordSent` -/
  | accepted
  | returned
  deriving DecidableEq, Repr

/-- A goroutine that `StartProducers` of a worker has started. -/
structure Sender where
  key : WorkerKey
  window : Window
  /-- the context it was given -/
  ctx : Nat
  phase : SenderPhase := .looping
  /-- its `Send` calls that returned nil -/
  nilSends : Nat := 0
  /-- its `recordSent` calls -/
  recorded : Nat := 0
  tally : nilSends = recorded + (if phase = .accepted then 1 else 0) := by rfl

namespace Sender

def accept (s : Sender) (h : s.phase = .looping) : Sender :=
  { s with phase := .accepted, nilSends := s.nilSends + 1, tally := by have := s.tally; simp_all }

def record (s : Sender) (h : s.phase = .accepted) : Sender :=
  { s with phase := .looping, recorded := s.recorded + 1, tally := by have := s.tally; simp_all }

def exit (s : Sender) (h : s.phase = .looping) : Sender :=
  { s with phase := .returned, tally := by have := s.tally; simp_all }

/-- The goroutine has not returned. -/
def Live (s : Sender) : Prop := s.phase ≠ .returned

end Sender

/-- The loops of a run over its groups that have to do with producers, and the
wait before the reset. -/
inductive Lap where
  /-- `warmup` starts the producers -/
  | warm
  /-- `warmup` stops them -/
  | cool
  /-- the wait for deliveries that are on their way -/
  | settle
  /-- `warmup` resets the workers -/
  | reset
  /-- the producers are started at T0 -/
  | start
  /-- `shutdownWorkers` stops them -/
  | stop
  deriving DecidableEq, Repr

namespace Lap

/-- The section that comes after the loop. -/
def pc : Lap → Pc
  | .warm | .cool | .settle | .reset => .warmup
  | .start => .markRunning
  | .stop => .capture

/-- The window of the producers that the loop starts. -/
def starts : Lap → Option Window
  | .warm => .some .warmup
  | .start => .some .measurement
  | _ => .none

def stops : Lap → Bool
  | .cool | .stop => true
  | _ => false

end Lap

/-- A run and its producers: where it is in a loop, with the types of workers
and the workers of the present group to come. -/
structure Producing where
  lap : Lap := .warm
  names : List WorkerName := allWorkerNames
  workers : List WorkerKey := []
  /-- `StopProducers` of the next worker waits -/
  waiting : Bool := false
  /-- the goroutines that the run has started -/
  senders : List Sender := []
  /-- what `captureWorkerSnapshots` stored -/
  captured : Option Snapshots := .none

namespace Producing

/-- The loop is through. -/
def Through (p : Producing) : Prop := p.names = [] ∧ p.workers = []

instance (p : Producing) : Decidable p.Through := inferInstanceAs (Decidable (_ ∧ _))

/-- The `Send` calls that returned nil in the producers of one type that the
run started at T0. -/
def nilSends (p : Producing) (name : WorkerName) : Nat :=
  ((p.senders.filter fun s => s.window = .measurement ∧ s.key.name = name).map (·.nilSends)).sum

end Producing

structure Measurement where
  fleet : Fleet := {}
  producing : Nat → Producing := fun _ => {}
  /-- how many contexts `StartProducers` has made -/
  contexts : Nat := 0
  cancelledCtxs : List Nat := []
  /-- the context that a worker's `producerCancel` cancels -/
  producerCancel : WorkerKey → Option Nat := fun _ => .none
  /-- the counter `sent` of each worker -/
  sent : WorkerKey → Nat := fun _ => 0

inductive MeasureAct where
  | fleet (a : FleetAct)
  /-- the loop of run `i` takes the next group -/
  | enter (i : Nat)
  /-- `StartProducers` of the next worker -/
  | startWorker (i : Nat)
  /-- `StopProducers` of the next worker cancels, and then waits -/
  | cancelWorker (i : Nat)
  /-- the wait is over -/
  | waitWorker (i : Nat)
  /-- run `i` goes on to the next loop -/
  | turn (i : Nat)
  /-- `warmup` returns before the reset -/
  | skipReset (i : Nat)
  | resetWorker (i : Nat) (key : WorkerKey)
  /-- `Send` of producer `k` of run `i` returns nil -/
  | accept (i k : Nat)
  | record (i k : Nat)
  | exit (i k : Nat)

namespace Measurement

def setProducing (m : Measurement) (i : Nat) (p : Producing) : Measurement :=
  { m with producing := Function.update m.producing i p }

/-- Run `i` is in the loop that it says it is in. -/
def InLap (m : Measurement) (i : Nat) : Prop := m.fleet.At i (m.producing i).lap.pc

instance (m : Measurement) (i : Nat) : Decidable (m.InLap i) :=
  inferInstanceAs (Decidable (m.fleet.At _ _))

/-- Run `i` is through the loops that come before its next section. -/
def Waited (m : Measurement) (i : Nat) : Prop :=
  (m.fleet.At i .warmup → (m.producing i).lap = .reset ∧ (m.producing i).Through) ∧
    (m.fleet.At i .markRunning → (m.producing i).lap = .start ∧ (m.producing i).Through) ∧
    (m.fleet.At i .capture → (m.producing i).lap = .stop ∧ (m.producing i).Through)

instance (m : Measurement) (i : Nat) : Decidable (m.Waited i) := inferInstanceAs (Decidable (_ ∧ _ ∧ _))

/-- `Sent` of a type of worker, as `captureWorkerSnapshots` adds it up. -/
def groupSent (m : Measurement) (name : WorkerName) : Option UInt64 :=
  match m.fleet.group name with
  | [] => .none
  | keys => .some (.ofNat (keys.map m.sent).sum)

/-- The snapshots have `Sent` from the counters of the workers. -/
def Reads (m : Measurement) (snapshots : Snapshots) : Prop :=
  ∀ name ∈ allWorkerNames, (snapshots.lookup name).map (·.sent) = m.groupSent name

instance (m : Measurement) (snapshots : Snapshots) : Decidable (m.Reads snapshots) :=
  inferInstanceAs (Decidable (∀ name ∈ allWorkerNames, _))

/-- `StartProducers` of a worker, by run `i`. -/
def startProducers (m : Measurement) (i : Nat) (window : Window) (key : WorkerKey)
    (workers : List WorkerKey) : Measurement :=
  let loops := (m.fleet.engine.runs[key.run]?).elim 0 fun r => r.cfg.producerLoops key.name
  { m with
    producing := Function.update m.producing i
      { m.producing i with
        workers
        senders := (m.producing i).senders ++ .replicate loops { key, window, ctx := m.contexts } }
    contexts := m.contexts + 1
    producerCancel := Function.update m.producerCancel key (.some m.contexts) }

/-- All goroutines of a worker have returned. -/
def AllReturned (m : Measurement) (key : WorkerKey) : Prop :=
  ∀ j < m.fleet.engine.runs.length, ∀ s ∈ (m.producing j).senders, s.key = key → s.phase = .returned

instance (m : Measurement) (key : WorkerKey) : Decidable (m.AllReturned key) :=
  inferInstanceAs (Decidable (∀ j < _, _))

/-- Producer `k` of run `i` is `s` from now on. -/
def setSender (m : Measurement) (i k : Nat) (s : Sender) : Measurement :=
  m.setProducing i { m.producing i with senders := (m.producing i).senders.set k s }

/-- The loop after the one that run `i` is in. -/
def turn (m : Measurement) (i : Nat) : Option Producing :=
  let p := m.producing i
  match p.lap with
  | .warm =>
    if m.fleet.At i .warmup ∧ p.Through then
      .some { p with lap := .cool, names := allWorkerNames }
    else .none
  | .cool => if m.fleet.At i .warmup ∧ p.Through then .some { p with lap := .settle } else .none
  | .settle =>
    if m.fleet.At i .warmup then .some { p with
      lap := .reset, workers := allWorkerNames.flatMap m.fleet.group }
    else .none
  | .reset =>
    if m.fleet.At i .markRunning then
      .some { p with lap := .start, names := allWorkerNames }
    else .none
  | .start =>
    if m.fleet.At i .capture then .some { p with lap := .stop, names := allWorkerNames } else .none
  | .stop => .none

/-- The step that an action takes, if it is enabled. -/
def move (m : Measurement) : MeasureAct → Option Measurement
  | .fleet (.capture i snapshots now) =>
    if m.Waited i ∧ m.Reads snapshots then
      (m.fleet.move (.capture i snapshots now)).map fun fleet =>
        { m with fleet }.setProducing i { m.producing i with captured := .some snapshots }
    else .none
  | .fleet a =>
    if ∀ i ∈ a.run, m.Waited i then (m.fleet.move a).map fun fleet => { m with fleet } else .none
  | .enter i =>
    match (m.producing i).names, (m.producing i).workers with
    | name :: names, [] =>
      if m.InLap i then
        .some (m.setProducing i { m.producing i with names, workers := m.fleet.group name })
      else .none
    | _, _ => .none
  | .startWorker i =>
    match (m.producing i).lap.starts, (m.producing i).workers with
    | .some window, key :: workers =>
      if m.InLap i then .some (m.startProducers i window key workers) else .none
    | _, _ => .none
  | .cancelWorker i =>
    match (m.producing i).workers with
    | [] => .none
    | key :: _ =>
      if m.InLap i ∧ (m.producing i).lap.stops = true ∧ (m.producing i).waiting = false then
        .some { m.setProducing i { m.producing i with waiting := true } with
          cancelledCtxs := m.cancelledCtxs ++ (m.producerCancel key).toList }
      else .none
  | .waitWorker i =>
    match (m.producing i).workers with
    | [] => .none
    | key :: workers =>
      if m.InLap i ∧ (m.producing i).lap.stops = true ∧ (m.producing i).waiting = true ∧
          m.AllReturned key then
        .some (m.setProducing i { m.producing i with workers, waiting := false })
      else .none
  | .turn i => (m.turn i).map (m.setProducing i)
  | .skipReset i =>
    if m.fleet.At i .warmup ∧ (m.producing i).lap = .settle ∧
        (m.fleet.engine.runs[i]?).any (·.cancelled) then
      .some (m.setProducing i { m.producing i with lap := .reset })
    else .none
  | .resetWorker i key =>
    if m.InLap i ∧ (m.producing i).lap = .reset ∧ key ∈ (m.producing i).workers then
      .some { m.setProducing i { m.producing i with workers := (m.producing i).workers.erase key } with
        sent := Function.update m.sent key 0 }
    else .none
  | .accept i k =>
    match (m.producing i).senders[k]? with
    | .none => .none
    | .some s => if h : s.phase = .looping then .some (m.setSender i k (s.accept h)) else .none
  | .record i k =>
    match (m.producing i).senders[k]? with
    | .none => .none
    | .some s =>
      if h : s.phase = .accepted then
        .some { m.setSender i k (s.record h) with
          sent := Function.update m.sent s.key (m.sent s.key + 1) }
      else .none
  | .exit i k =>
    match (m.producing i).senders[k]? with
    | .none => .none
    | .some s =>
      if h : s.phase = .looping then
        if s.ctx ∈ m.cancelledCtxs then .some (m.setSender i k (s.exit h)) else .none
      else .none

/-- One step; an action that is not enabled changes nothing. -/
def step (m : Measurement) (a : MeasureAct) : Measurement := (m.move a).getD m

/-- The state after a run of the machine, from `New`. -/
def after (acts : List MeasureAct) : Measurement := acts.foldl step {}

/-! ## The property -/

/-- Run `i` is between the end of the loop in which `warmup` stops the producers
and T0. -/
def Between (m : Measurement) (i : Nat) : Prop :=
  (m.fleet.At i .warmup ∧ (((m.producing i).lap = .cool ∧ (m.producing i).Through) ∨
    (m.producing i).lap = .settle ∨
      (m.producing i).lap = .reset)) ∨
    m.fleet.At i .startProducers ∨ (m.fleet.At i .markRunning ∧ (m.producing i).lap = .reset)

/-- Run `i` is between the end of the loop in which `shutdownWorkers` stops the
producers and the snapshot. -/
def Drained (m : Measurement) (i : Nat) : Prop :=
  m.fleet.At i .capture ∧ (m.producing i).lap = .stop ∧ (m.producing i).Through

/-- No producer goroutine is live. -/
def NoneLive (m : Measurement) : Prop := ∀ j, ∀ s ∈ (m.producing j).senders, ¬ s.Live

/-- What is sent counts in its window. -/
structure InWindow (m : Measurement) : Prop where
  between : ∀ i, m.Between i → m.NoneLive
  drained : ∀ i, m.Drained i → m.NoneLive
  sent : ∀ i r snapshots, m.fleet.engine.runs[i]? = .some r →
    (m.producing i).captured = .some snapshots →
    ∀ name, (snapshots.lookup name).map (·.sent) =
      if (r.cfg.getWorkerConfig name).enabled then
        .some (.ofNat ((m.producing i).nilSends name))
      else .none

/-- A start is accepted in a settled engine only. -/
def StartsSettled (m : Measurement) : MeasureAct → Prop
  | .fleet a => m.fleet.StartsSettled a
  | _ => True

end Measurement

/-! ## The invariant -/

namespace Sender

/-- What the producers of a worker that were started at T0 have counted. -/
def measured (senders : List Sender) (key : WorkerKey) : Nat :=
  ((senders.filter fun s => s.window = .measurement ∧ s.key = key).map (·.recorded)).sum

def Quiet (senders : List Sender) : Prop := ∀ s ∈ senders, ¬ s.Live

/-- Only producers of the warmup of run `i` have been started, and of its own
workers. -/
def Warming (senders : List Sender) (cfg : Config) (i : Nat) : Prop :=
  ∀ s ∈ senders, s.window = .warmup ∧ s.key ∈ cfg.fleetKeys i

/-- The counters have what the producers of run `i` have counted since T0. -/
structure Counting (senders : List Sender) (sent : WorkerKey → Nat) (cfg : Config) (i : Nat) : Prop where
  own : ∀ s ∈ senders, s.key ∈ cfg.fleetKeys i
  live : ∀ s ∈ senders, s.Live → s.window = .measurement
  sent : ∀ key ∈ cfg.fleetKeys i, sent key = measured senders key

end Sender

namespace Producing

open Sender

variable (p : Producing) (sent : WorkerKey → Nat) (cfg : Config) (i : Nat)

/-- The workers that the loop has still to come to. -/
def toCome : List WorkerKey := p.workers ++ p.names.flatMap (cfg.groupKeys i)

/-- The warmup is over and has left nothing. -/
structure Clean : Prop where
  lap : p.lap = .reset
  through : p.Through
  quiet : Quiet p.senders
  warming : Warming p.senders cfg i
  sent : ∀ key ∈ cfg.fleetKeys i, sent key = 0

/-- The producers of a run in the loop it is in. -/
def InLoop (cancelled : Bool) : Prop :=
  match p.lap with
  | .warm => Warming p.senders cfg i ∧ ∀ key ∈ p.workers, key ∈ cfg.fleetKeys i
  | .cool => Warming p.senders cfg i ∧ ∀ s ∈ p.senders, s.Live → s.key ∈ p.toCome cfg i
  | .settle => Warming p.senders cfg i ∧ Quiet p.senders ∧ p.Through
  | .reset =>
    Warming p.senders cfg i ∧ Quiet p.senders ∧ p.names = [] ∧
      (cancelled = true ∨ ∀ key ∈ cfg.fleetKeys i, key ∉ p.workers → sent key = 0)
  | .start => Counting p.senders sent cfg i ∧ ∀ key ∈ p.workers, key ∈ cfg.fleetKeys i
  | .stop => Counting p.senders sent cfg i ∧ ∀ s ∈ p.senders, s.Live → s.key ∈ p.toCome cfg i

/-- The snapshot that the run has captured has what was sent from T0 on. -/
def Exact : Prop :=
  ∀ snapshots, p.captured = .some snapshots → ∀ name, (snapshots.lookup name).map (·.sent) =
    if (cfg.getWorkerConfig name).enabled then .some (.ofNat (p.nilSends name)) else .none

/-- The producers of run `i`, where it is at `r`. -/
def Fits (groups : Option Nat) (r : Run) : Prop :=
  match r.pc with
  | .build => p = {}
  | .consumers => groups = .some i ∧ p = {}
  | .warmup => p.captured = .none ∧ groups = .some i ∧ p.lap.pc = .warmup ∧
      p.InLoop sent r.cfg i r.cancelled
  | .startProducers => p.captured = .none ∧ groups = .some i ∧ p.Clean sent r.cfg i
  | .markRunning =>
    p.captured = .none ∧ groups = .some i ∧
      (p.Clean sent r.cfg i ∨ (p.lap = .start ∧ p.InLoop sent r.cfg i r.cancelled))
  | .measure | .stopProducers =>
    p.captured = .none ∧ groups = .some i ∧ p.lap = .start ∧ p.Through ∧ Counting p.senders sent r.cfg i
  | .capture =>
    p.captured = .none ∧ groups = .some i ∧
      ((p.lap = .start ∧ p.Through ∧ Counting p.senders sent r.cfg i) ∨
        (p.lap = .stop ∧ p.InLoop sent r.cfg i r.cancelled))
  | .lastSample | .verdict | .summary | .deferred | .closing _ | .finished =>
    Quiet p.senders ∧ p.Exact r.cfg

variable {p sent i}

/-- Where a run is in a loop, the loop is all that counts. -/
theorem fits_iff {groups : Option Nat} {r : Run} (h : r.pc = p.lap.pc) :
    p.Fits sent i groups r ↔ p.captured = .none ∧ groups = .some i ∧
      p.InLoop sent r.cfg i r.cancelled := by
  have hclean : p.lap = .start → ¬ p.Clean sent r.cfg i := fun hl hc => nomatch hl.symm.trans hc.lap
  cases hl : p.lap with
  | warm | cool | settle | reset =>
    rw [hl] at h
    simp only [Fits, h, hl, Lap.pc, true_and]
  | start =>
    rw [hl] at h
    simp [Fits, h, hl, Lap.pc, hclean hl]
  | stop =>
    rw [hl] at h
    simp [Fits, h, hl, Lap.pc]

end Producing

namespace Measurement

/-- What holds of the machine while starts are settled. -/
structure Measured (m : Measurement) : Prop where
  lifecycle : m.fleet.engine.Lifecycle
  fresh : ∀ i, m.fleet.engine.runs.length ≤ i → m.producing i = {}
  run : ∀ i r, m.fleet.engine.runs[i]? = .some r → (m.producing i).Fits m.sent i m.fleet.groups r

theorem measured_new : Measured {} := ⟨Engine.lifecycle_new, fun _ _ => rfl, by simp⟩

theorem Measured.own {m m' : Measurement} {i : Nat} {r : Run} (h : m.Measured)
    (hr : m.fleet.engine.runs[i]? = .some r) (pc : Pc) (hlive : r.pc ≠ .finished)
    (hlife : m'.fleet.engine.Lifecycle)
    (hruns : ∀ j, m'.fleet.engine.runs[j]? = if j = i then .some { r with pc }
      else m.fleet.engine.runs[j]?)
    (hothers : ∀ j ≠ i, m'.producing j = m.producing j)
    (hown : (m'.producing i).Fits m'.sent i m'.fleet.groups { r with pc }) : m'.Measured := by
  refine ⟨hlife, fun j hj => ?_, fun j rj hj => ?_⟩
  · have hnone := hruns j
    rw [List.getElem?_eq_none hj] at hnone
    have hji : j ≠ i := by
      rintro rfl
      simp at hnone
    rw [if_neg hji] at hnone
    rw [hothers j hji]
    exact h.fresh j (List.getElem?_eq_none_iff.mp hnone.symm)
  · rw [hruns] at hj
    by_cases hji : j = i
    · rw [if_pos hji] at hj
      cases hj
      exact hji ▸ hown
    · -- Another run has finished, so its producers are all that counts.
      rw [if_neg hji] at hj
      have hfin := h.lifecycle.others hr hlive hj hji
      have hfits := h.run j rj hj
      simp only [Producing.Fits, hfin] at hfits ⊢
      rw [hothers j hji]
      exact hfits

theorem Measured.keep {m m' : Measurement} {i : Nat} {r : Run} (h : m.Measured)
    (hr : m.fleet.engine.runs[i]? = .some r) (hlive : r.pc ≠ .finished) (hfleet : m'.fleet = m.fleet)
    (hothers : ∀ j ≠ i, m'.producing j = m.producing j)
    (hown : (m'.producing i).Fits m'.sent i m.fleet.groups r) : m'.Measured := by
  refine h.own hr r.pc hlive (hfleet ▸ h.lifecycle) (fun j => ?_) hothers (hfleet ▸ hown)
  rw [hfleet]
  exact Fleet.runs_same hr j

theorem setProducing_of_ne (m : Measurement) {i j : Nat} (p : Producing) (hj : j ≠ i) :
    (m.setProducing i p).producing j = m.producing j :=
  Function.update_of_ne hj _ _

@[simp]
theorem setProducing_self (m : Measurement) (i : Nat) (p : Producing) :
    (m.setProducing i p).producing i = p :=
  Function.update_self _ _ _

end Measurement

/-! ### The producers -/

namespace Sender

variable {senders : List Sender} {sent sent' : WorkerKey → Nat} {cfg : Config} {i k : Nat}
  {s s' : Sender}

theorem forall_set {Q : Sender → Prop} (h : ∀ t ∈ senders, Q t) (hs : Q s') :
    ∀ t ∈ senders.set k s', Q t := by
  intro t ht
  rcases List.mem_or_eq_of_mem_set ht with ht | rfl
  · exact h t ht
  · exact hs

theorem measured_set (hk : senders[k]? = .some s) (hkey : s'.key = s.key)
    (hwindow : s'.window = s.window) (key : WorkerKey) :
    measured (senders.set k s') key + (if s.window = .measurement ∧ s.key = key then s.recorded else 0) =
      measured senders key + (if s.window = .measurement ∧ s.key = key then s'.recorded else 0) := by
  have hperm :=
    (((Held.set_perm hk s').filter fun s => s.window = .measurement ∧ s.key = key).map
      (·.recorded)).sum_eq
  rw [List.filter_append, List.filter_append, List.map_append, List.map_append, List.sum_append,
    List.sum_append] at hperm
  by_cases hw : s.window = .measurement ∧ s.key = key
  · simpa [measured, hkey, hwindow, hw] using hperm
  · simpa [measured, hkey, hwindow, hw] using hperm

theorem Counting.sender (h : Counting senders sent cfg i) (hk : senders[k]? = .some s) (hlive : s.Live)
    (hkey : s'.key = s.key) (hwindow : s'.window = s.window)
    (hsent : ∀ key, sent' key + (if s.key = key then s.recorded else 0) =
      sent key + (if s.key = key then s'.recorded else 0)) :
    Counting (senders.set k s') sent' cfg i := by
  have hmem := List.mem_of_getElem? hk
  have hmeasured := h.live s hmem hlive
  refine ⟨forall_set h.own (hkey ▸ h.own s hmem),
    forall_set h.live fun _ => hwindow.trans hmeasured, fun key hin => ?_⟩
  have h₁ := h.sent key hin
  have h₂ := hsent key
  have h₃ := measured_set hk hkey hwindow key
  simp only [hmeasured, true_and] at h₃
  omega

end Sender

namespace Producing

open Sender

variable {p : Producing} {sent sent' : WorkerKey → Nat} {cfg : Config} {i k : Nat} {s s' : Sender}

theorem InLoop.sender {cancelled : Bool} (h : p.InLoop sent cfg i cancelled)
    (hk : p.senders[k]? = .some s) (hlive : s.Live) (hkey : s'.key = s.key)
    (hwindow : s'.window = s.window)
    (hsent : ∀ key, sent' key + (if s.key = key then s.recorded else 0) =
      sent key + (if s.key = key then s'.recorded else 0)) :
    InLoop { p with senders := p.senders.set k s' } sent' cfg i cancelled := by
  have hmem := List.mem_of_getElem? hk
  have hquiet : ¬ Quiet p.senders := fun hq => hq s hmem hlive
  have hwarming : Warming p.senders cfg i → Warming (p.senders.set k s') cfg i := fun hw =>
    forall_set hw (by rw [hkey, hwindow]; exact hw s hmem)
  have htoCome : (∀ s ∈ p.senders, s.Live → s.key ∈ p.toCome cfg i) →
      ∀ t ∈ p.senders.set k s', t.Live → t.key ∈ p.toCome cfg i := fun ht =>
    forall_set ht fun _ => hkey ▸ ht s hmem hlive
  cases hl : p.lap <;> simp only [InLoop, hl] at h ⊢
  case warm => exact ⟨hwarming h.1, h.2⟩
  case cool => exact ⟨hwarming h.1, htoCome h.2⟩
  case settle => exact (hquiet h.2.1).elim
  case reset => exact (hquiet h.2.1).elim
  case start => exact ⟨h.1.sender hk hlive hkey hwindow hsent, h.2⟩
  case stop => exact ⟨h.1.sender hk hlive hkey hwindow hsent, htoCome h.2⟩

/-- **A step of a live producer** fits where its run is. -/
theorem Fits.sender {groups : Option Nat} {r : Run} (h : p.Fits sent i groups r)
    (hk : p.senders[k]? = .some s) (hlive : s.Live) (hkey : s'.key = s.key)
    (hwindow : s'.window = s.window)
    (hsent : ∀ key, sent' key + (if s.key = key then s.recorded else 0) =
      sent key + (if s.key = key then s'.recorded else 0)) :
    Fits { p with senders := p.senders.set k s' } sent' i groups r := by
  have hquiet : ¬ Quiet p.senders := fun hq => hq s (List.mem_of_getElem? hk) hlive
  have hempty : p ≠ {} := by
    rintro rfl
    simp at hk
  cases hpc : r.pc <;> simp only [Fits, hpc] at h ⊢
  case build => exact (hempty h).elim
  case consumers => exact (hempty h.2).elim
  case warmup => exact ⟨h.1, h.2.1, h.2.2.1, h.2.2.2.sender hk hlive hkey hwindow hsent⟩
  case startProducers => exact (hquiet h.2.2.quiet).elim
  case markRunning =>
    refine ⟨h.1, h.2.1, h.2.2.imp (fun hclean => (hquiet hclean.quiet).elim) fun hloop => ?_⟩
    exact ⟨hloop.1, hloop.2.sender hk hlive hkey hwindow hsent⟩
  case capture =>
    refine ⟨h.1, h.2.1, h.2.2.imp (fun hstart => ?_) fun hstop => ?_⟩
    · exact ⟨hstart.1, hstart.2.1, hstart.2.2.sender hk hlive hkey hwindow hsent⟩
    · exact ⟨hstop.1, hstop.2.sender hk hlive hkey hwindow hsent⟩
  case measure | stopProducers =>
    exact ⟨h.1, h.2.1, h.2.2.1, h.2.2.2.1, h.2.2.2.2.sender hk hlive hkey hwindow hsent⟩
  all_goals exact (hquiet h.1).elim

end Producing

namespace Measurement

theorem Measured.sender {m m' : Measurement} {i k : Nat} {s : Sender} (s' : Sender) (h : m.Measured)
    (hk : (m.producing i).senders[k]? = .some s) (hlive : s.Live) (hkey : s'.key = s.key)
    (hwindow : s'.window = s.window) (hfleet : m'.fleet = m.fleet)
    (hproducing : m'.producing = (m.setSender i k s').producing)
    (hsent : ∀ key, m'.sent key + (if s.key = key then s.recorded else 0) =
      m.sent key + (if s.key = key then s'.recorded else 0)) : m'.Measured := by
  have hlt : i < m.fleet.engine.runs.length := by
    by_contra hge
    rw [h.fresh i (Nat.le_of_not_lt hge)] at hk
    simp at hk
  have hr : m.fleet.engine.runs[i]? = .some m.fleet.engine.runs[i] := List.getElem?_eq_getElem hlt
  have hfits := h.run i _ hr
  have hrun : (m.fleet.engine.runs[i]).pc ≠ .finished := by
    intro hpc
    simp only [Producing.Fits, hpc] at hfits
    exact hfits.1 s (List.mem_of_getElem? hk) hlive
  refine h.keep hr hrun hfleet (fun j hj => ?_) ?_
  · rw [hproducing]
    exact setProducing_of_ne m _ hj
  · rw [hproducing, setSender, setProducing_self]
    exact hfits.sender hk hlive hkey hwindow hsent

end Measurement

/-! ### Sections -/

theorem Config.groupKeys_ne_nil (c : Config) (i : Nat) (name : WorkerName) :
    c.groupKeys i name ≠ [] ↔ (c.getWorkerConfig name).enabled = true := by
  have := c.getWorkerChannels_pos name
  unfold groupKeys
  split
  · simp_all
    omega
  · simp_all

namespace Producing

open Sender

variable {p : Producing} {sent : WorkerKey → Nat} {cfg : Config} {i : Nat}

theorem exact_of_none (h : p.captured = .none) : p.Exact cfg := fun _ hc => nomatch h.symm.trans hc

theorem Fits.exact {groups : Option Nat} {r : Run} (h : p.Fits sent i groups r) : p.Exact r.cfg := by
  cases hpc : r.pc <;> simp only [Fits, hpc] at h
  case build => exact exact_of_none (h ▸ rfl)
  case consumers => exact exact_of_none (h.2 ▸ rfl)
  case warmup | startProducers | markRunning | measure | stopProducers | capture =>
    exact exact_of_none h.1
  all_goals exact h.2

theorem toCome_of_through (h : p.Through) : p.toCome cfg i = [] := by
  simp [toCome, h.1, h.2]

theorem quiet_of_through (h : p.Through) (hlive : ∀ s ∈ p.senders, s.Live → s.key ∈ p.toCome cfg i) :
    Quiet p.senders := by
  intro s hs hl
  have := hlive s hs hl
  rw [toCome_of_through h] at this
  exact List.not_mem_nil this

theorem Clean.counting (h : p.Clean sent cfg i) : Counting p.senders sent cfg i := by
  refine ⟨fun s hs => (h.warming s hs).2, fun s hs hlive => (h.quiet s hs hlive).elim, fun key hin => ?_⟩
  have hnone : p.senders.filter (fun s => s.window = .measurement ∧ s.key = key) = [] := by
    refine List.filter_eq_nil_iff.mpr fun s hs => ?_
    simp [(h.warming s hs).1]
  rw [h.sent key hin, measured, hnone]
  rfl

end Producing

namespace Sender

variable {senders : List Sender} {sent : WorkerKey → Nat} {cfg : Config} {i : Nat}

/-- When all producers have returned, the counters of a group have what was
sent from T0 on. -/
theorem Counting.sum_sent (h : Counting senders sent cfg i) (hq : Quiet senders) (name : WorkerName) :
    ((cfg.groupKeys i name).map sent).sum =
      ((senders.filter fun s => s.window = .measurement ∧ s.key.name = name).map (·.nilSends)).sum := by
  have hname : ∀ s ∈ senders, s.key ∈ cfg.groupKeys i name ↔ s.key.name = name := by
    intro s hs
    refine ⟨fun hk => (Fleet.mem_groupKeys hk).2, fun hn => ?_⟩
    obtain ⟨name', -, hk⟩ := List.mem_flatMap.mp (h.own s hs)
    rwa [← hn, (Fleet.mem_groupKeys hk).2]
  have hnodup : (cfg.groupKeys i name).Nodup :=
    (List.nodup_flatMap.mp (Fleet.nodup_fleetKeys cfg i)).1 name (mem_allWorkerNames name)
  calc ((cfg.groupKeys i name).map sent).sum
      = ((cfg.groupKeys i name).map (measured senders)).sum := by
        rw [List.map_congr_left fun key hk => h.sent key (Fleet.mem_fleetKeys hk)]
    _ = ((senders.filter fun s => s.window = .measurement ∧ s.key ∈ cfg.groupKeys i name).map
      (·.recorded)).sum :=
        Held.sum_filter_key (fun s : Sender => s.window = .measurement) (·.key)
          (·.recorded) hnodup senders
    _ = ((senders.filter fun s => s.window = .measurement ∧ s.key.name = name).map
      (·.recorded)).sum := by
        refine congrArg (fun l : List Sender => (l.map (·.recorded)).sum)
          (List.filter_congr fun s hs => ?_)
        simp only [hname s hs]
    _ = ((senders.filter fun s => s.window = .measurement ∧ s.key.name = name).map
      (·.nilSends)).sum := by
        refine congrArg List.sum (List.map_congr_left fun s hs => ?_)
        have hret : s.phase = .returned := not_not.mp (hq s (List.mem_filter.mp hs).1)
        rw [s.tally, hret]
        rfl

end Sender

namespace Measurement

/-- **A section of a run** that is through with its loops. -/
theorem Measured.section_fits {m : Measurement} {i : Nat} {r : Run} {pc : Pc} {ev : Event}
    (h : m.Measured) (hr : m.fleet.engine.runs[i]? = .some r) (hw : m.Waited i)
    (hg : r.pc.Goes r.cancelled ev pc) (hcapture : r.pc ≠ .capture) :
    (m.producing i).Fits m.sent i (if r.pc = .build then .some i else m.fleet.groups) { r with pc } := by
  have hfits := h.run i r hr
  have hat : ∀ {pc₀ : Pc}, r.pc = pc₀ → m.fleet.At i pc₀ := fun hpc => Fleet.at_iff.mpr ⟨r, hr, hpc⟩
  generalize hpc : r.pc = pc₀ at hg hcapture ⊢
  simp only [Producing.Fits, hpc] at hfits
  cases hg with
  | build => exact ⟨rfl, hfits⟩
  | failed msg =>
    rw [hfits.2]
    exact ⟨fun _ hs => absurd hs List.not_mem_nil, Producing.exact_of_none rfl⟩
  | consumers =>
    obtain ⟨hgroups, hp⟩ := hfits
    rw [hp]
    by_cases hc : r.cancelled = true
    · rw [if_pos hc]
      exact ⟨fun _ hs => absurd hs List.not_mem_nil, Producing.exact_of_none rfl⟩
    · rw [if_neg hc]
      exact ⟨rfl, hgroups, rfl, fun _ hs => absurd hs List.not_mem_nil,
        fun _ hk => absurd hk List.not_mem_nil⟩
  | warmup =>
    obtain ⟨hlap, hthrough⟩ := hw.1 (hat hpc)
    obtain ⟨hcaptured, hgroups, -, hin⟩ := hfits
    simp only [Producing.InLoop, hlap] at hin
    obtain ⟨hwarming, hquiet, -, hreset⟩ := hin
    by_cases hc : r.cancelled = true
    · rw [if_pos hc]
      exact ⟨hquiet, Producing.exact_of_none hcaptured⟩
    · rw [if_neg hc]
      exact ⟨hcaptured, hgroups, hlap, hthrough, hquiet, hwarming, fun key hk =>
        hreset.resolve_left hc key hk (by simp [hthrough.2])⟩
  | startProducers => exact ⟨hfits.1, hfits.2.1, .inl hfits.2.2⟩
  | markRunning =>
    obtain ⟨hlap, hthrough⟩ := hw.2.1 (hat hpc)
    obtain ⟨hcaptured, hgroups, hclean | ⟨-, hin⟩⟩ := hfits
    · exact nomatch hclean.lap.symm.trans hlap
    · simp only [Producing.InLoop, hlap] at hin
      exact ⟨hcaptured, hgroups, hlap, hthrough, hin.1⟩
  | stopProducers =>
    obtain ⟨hcaptured, hgroups, hlap, hthrough, hcounting⟩ := hfits
    exact ⟨hcaptured, hgroups, .inl ⟨hlap, hthrough, hcounting⟩⟩
  | captured snapshots => exact (hcapture rfl).elim
  | _ => exact hfits

theorem Measured.fleetRun {m : Measurement} {a : FleetAct} {i : Nat} {fleet : Fleet} (h : m.Measured)
    (ha : a.run = .some i) (hw : m.Waited i) (hm : m.fleet.move a = .some fleet)
    (hcapture : ∀ snapshots now, a ≠ .capture i snapshots now) : Measured { m with fleet } := by
  rcases Fleet.move_run ha hm with ⟨hengine, hgroups⟩ | ⟨r, pc, ev, hr, hg, hs, hgroups, hcap⟩
  · exact ⟨hengine ▸ h.lifecycle, fun j hj => h.fresh j (hengine ▸ hj),
      fun j r hj => hgroups ▸ h.run j r (hengine ▸ hj)⟩
  · have hne : r.pc ≠ .capture := fun hpc => by
      obtain ⟨snapshots, now, ha⟩ := hcap hpc
      exact hcapture snapshots now ha
    refine h.own hr pc hs.live (h.lifecycle.section hr hs) hs.runs (fun _ _ => rfl) ?_
    simp only [hgroups]
    exact h.section_fits hr hw hg hne

/-- The capture: all producers of the run have returned, and the snapshots have
what they sent. -/
theorem Measured.capture {m : Measurement} {i : Nat} {snapshots : Snapshots} {now : Int} {fleet : Fleet}
    (h : m.Measured) (hw : m.Waited i) (hreads : m.Reads snapshots)
    (hm : m.fleet.move (.capture i snapshots now) = .some fleet) :
    ({ m with fleet }.setProducing i { m.producing i with captured := .some snapshots }).Measured := by
  simp only [Fleet.move] at hm
  split at hm
  case isFalse => cases hm
  case isTrue hat =>
    cases hm
    obtain ⟨r, hr, hpc⟩ := Fleet.at_iff.mp hat
    obtain ⟨pc, hg, hs⟩ := Engine.step_of_isSome hr (.captured snapshots) now (by rw [hpc]; rfl)
    rw [hpc] at hg
    cases hg
    obtain ⟨hlap, hthrough⟩ := hw.2.2 hat
    obtain ⟨-, hgroups, hin⟩ := (Producing.fits_iff (by rw [hlap, hpc]; rfl)).mp (h.run i r hr)
    simp only [Producing.InLoop, hlap] at hin
    obtain ⟨hcounting, hlive⟩ := hin
    have hquiet := Producing.quiet_of_through hthrough hlive
    refine h.own hr _ hs.live (h.lifecycle.section hr hs) hs.runs
      (fun j hj => setProducing_of_ne _ _ hj) ?_
    rw [setProducing_self]
    refine ⟨hquiet, fun snapshots' hc name => ?_⟩
    cases hc
    have hgroup := Fleet.groupKeys_eq_group hgroups hr name
    rw [hreads name (mem_allWorkerNames name), groupSent]
    split
    case h_1 hnil =>
      have hne : ¬ (r.cfg.getWorkerConfig name).enabled = true := fun hen =>
        (r.cfg.groupKeys_ne_nil i name).mpr hen (hgroup ▸ hnil)
      rw [if_neg hne]
    case h_2 hne =>
      have hen := (r.cfg.groupKeys_ne_nil i name).mp fun hnil => hne (hgroup.trans hnil)
      rw [if_pos hen, hgroup, hcounting.sum_sent hquiet name]
      rfl

end Measurement

/-! ### Requests -/

theorem Producing.InLoop.cancel {p : Producing} {sent : WorkerKey → Nat} {cfg : Config} {i : Nat}
    {cancelled : Bool} (h : p.InLoop sent cfg i cancelled) (b : Bool) :
    p.InLoop sent cfg i (cancelled || b) := by
  cases hl : p.lap <;> simp only [InLoop, hl] at h ⊢
  case reset => exact ⟨h.1, h.2.1, h.2.2.1, h.2.2.2.imp_left fun hc => by rw [hc]; rfl⟩
  all_goals exact h

theorem Producing.Fits.cancel {p : Producing} {sent : WorkerKey → Nat} {i : Nat}
    {groups : Option Nat} {r : Run} (h : p.Fits sent i groups r) (b : Bool) :
    p.Fits sent i groups { r with cancelled := r.cancelled || b } := by
  cases hpc : r.pc <;> simp only [Fits, hpc] at h ⊢
  case warmup => exact ⟨h.1, h.2.1, h.2.2.1, h.2.2.2.cancel b⟩
  case markRunning => exact ⟨h.1, h.2.1, h.2.2.imp_right fun hloop => ⟨hloop.1, hloop.2.cancel b⟩⟩
  case capture => exact ⟨h.1, h.2.1, h.2.2.imp_right fun hstop => ⟨hstop.1, hstop.2.cancel b⟩⟩
  all_goals exact h

namespace Measurement

theorem Measured.cancel {m : Measurement} (h : m.Measured) (i : Nat) :
    Measured { m with fleet := { m.fleet with engine := m.fleet.engine.cancel i } } := by
  refine ⟨h.lifecycle.cancel i, fun j hj => h.fresh j (by simpa using hj), fun j r hj => ?_⟩
  rw [Engine.cancel_runs, Option.map_eq_some_iff] at hj
  obtain ⟨r, hr, rfl⟩ := hj
  exact (h.run j r hr).cancel _

theorem Measured.stop {m : Measurement} (h : m.Measured) :
    Measured { m with fleet := m.fleet.stepEngine .stop } := by
  rcases m.fleet.engine.step_stop with he | ⟨c, he⟩
  · rwa [Fleet.stepEngine, he]
  · rw [Fleet.stepEngine, he]
    exact h.cancel c

theorem Measured.start {m : Measurement} (h : m.Measured) {cfg : Config} {randomID : String} {now : Int}
    (hs : m.fleet.engine.StartsSettled (.start cfg randomID now)) :
    Measured { m with fleet := m.fleet.stepEngine (.start cfg randomID now) } := by
  have hlife : (m.fleet.engine.step (.start cfg randomID now)).Lifecycle := h.lifecycle.step hs
  cases he : m.fleet.engine.startRunFromConfig cfg randomID now with
  | error msg =>
    have hstep : m.fleet.stepEngine (.start cfg randomID now) = m.fleet := by
      simp [Fleet.stepEngine, Engine.step, he]
    rw [hstep]
    exact h
  | ok e' =>
    have hstep : m.fleet.engine.step (.start cfg randomID now) = e' := by simp [Engine.step, he]
    obtain ⟨-, -, -, hruns, -⟩ := Engine.startRunFromConfig_ok he
    rw [hstep] at hlife
    simp only [Fleet.stepEngine, hstep]
    refine ⟨hlife, fun j hj => h.fresh j ?_, fun j r hj => ?_⟩
    · simp only [hruns, List.length_append, List.length_singleton] at hj
      omega
    · rcases Engine.startRunFromConfig_runs he hj with ⟨rfl, rfl⟩ | ⟨-, hj⟩
      · exact h.fresh _ (Nat.le_refl _)
      · exact h.run j r hj


/-! ### The loops -/

theorem lap_pc_ne_finished (lap : Lap) : lap.pc ≠ .finished := by
  cases lap <;> decide

theorem Measured.loop {m m' : Measurement} {i : Nat} (h : m.Measured) (hlap : m.InLap i)
    (hfleet : m'.fleet = m.fleet) (hothers : ∀ j ≠ i, m'.producing j = m.producing j)
    (hl : (m'.producing i).lap = (m.producing i).lap)
    (hc : (m'.producing i).captured = (m.producing i).captured)
    (hown : ∀ r, m.fleet.engine.runs[i]? = .some r → m.fleet.groups = .some i →
      (m.producing i).InLoop m.sent r.cfg i r.cancelled →
        (m'.producing i).InLoop m'.sent r.cfg i r.cancelled) :
    m'.Measured := by
  obtain ⟨r, hr, hpc⟩ := Fleet.at_iff.mp hlap
  obtain ⟨hcaptured, hgroups, hin⟩ := (Producing.fits_iff hpc).mp (h.run i r hr)
  refine h.keep hr (hpc ▸ lap_pc_ne_finished _) hfleet hothers ?_
  exact (Producing.fits_iff (by rw [hl]; exact hpc)).mpr
    ⟨hc.trans hcaptured, hgroups, hown r hr hgroups hin⟩

theorem mem_fleetKeys_of_group {m : Measurement} {i : Nat} {r : Run} (hg : m.fleet.groups = .some i)
    (hr : m.fleet.engine.runs[i]? = .some r) {name : WorkerName} {key : WorkerKey}
    (hk : key ∈ m.fleet.group name) :
    key ∈ r.cfg.fleetKeys i := by
  rw [Fleet.groupKeys_eq_group hg hr] at hk
  exact Fleet.mem_fleetKeys hk

theorem Measured.enter {m : Measurement} {i : Nat} (h : m.Measured) (hlap : m.InLap i)
    {name : WorkerName} {names : List WorkerName} (hnames : (m.producing i).names = name :: names)
    (hworkers : (m.producing i).workers = []) :
    (m.setProducing i { m.producing i with names, workers := m.fleet.group name }).Measured := by
  refine h.loop hlap rfl (fun j hj => setProducing_of_ne m _ hj) (by simp)
    (by simp) fun r hr hgroups hin => ?_
  rw [setProducing_self]
  have hto : m.fleet.group name ++ names.flatMap (r.cfg.groupKeys i) =
      (m.producing i).toCome r.cfg i := by
    simp [Producing.toCome, hnames, hworkers, Fleet.groupKeys_eq_group hgroups hr]
  cases hl : (m.producing i).lap <;> simp only [Producing.InLoop, hl] at hin ⊢
  case warm | start => exact ⟨hin.1, fun key hk => mem_fleetKeys_of_group hgroups hr hk⟩
  case cool | stop =>
    refine ⟨hin.1, fun s hs hlive => ?_⟩
    rw [Producing.toCome, hto]
    exact hin.2 s hs hlive
  case settle => exact nomatch hnames.symm.trans hin.2.2.1
  case reset => exact nomatch hnames.symm.trans hin.2.2.1

theorem measured_new_senders {senders : List Sender} (n : Nat) {s : Sender} (hs : s.recorded = 0)
    (key : WorkerKey) :
    Sender.measured (senders ++ .replicate n s) key = Sender.measured senders key := by
  rw [Sender.measured, List.filter_append, List.map_append, List.sum_append, Sender.measured]
  simp [List.filter_replicate, apply_ite, hs]

theorem Measured.startProducers {m : Measurement} {i : Nat} (h : m.Measured) (hlap : m.InLap i)
    {window : Window} (hstarts : (m.producing i).lap.starts = .some window) {key : WorkerKey}
    {workers : List WorkerKey} (hworkers : (m.producing i).workers = key :: workers) :
    (m.startProducers i window key workers).Measured := by
  refine h.loop hlap rfl (fun j hj => Function.update_of_ne hj _ _)
    (by simp [Measurement.startProducers])
    (by simp [Measurement.startProducers]) fun r hr hgroups hin => ?_
  simp only [Measurement.startProducers, Function.update_self]
  generalize (m.fleet.engine.runs[key.run]?).elim 0 _ = n
  have hsub : (∀ k ∈ (m.producing i).workers, k ∈ r.cfg.fleetKeys i) →
      key ∈ r.cfg.fleetKeys i ∧ ∀ k ∈ workers, k ∈ r.cfg.fleetKeys i := by
    rw [hworkers]
    exact List.forall_mem_cons.mp
  -- A sender of the loop is one of before, or new.
  have hmem : ∀ {s : Sender}, s ∈ (m.producing i).senders ++
      List.replicate n { key, window, ctx := m.contexts } →
      s ∈ (m.producing i).senders ∨ s = { key, window, ctx := m.contexts } := fun hs =>
    (List.mem_append.mp hs).imp_right List.eq_of_mem_replicate
  cases hl : (m.producing i).lap <;> rw [hl] at hstarts <;> simp only [Producing.InLoop, hl] at hin ⊢
  case warm =>
    cases hstarts
    obtain ⟨hkey, hrest⟩ := hsub hin.2
    refine ⟨fun s hs => ?_, hrest⟩
    rcases hmem hs with hs | rfl
    · exact hin.1 s hs
    · exact ⟨rfl, hkey⟩
  case start =>
    cases hstarts
    obtain ⟨hkey, hrest⟩ := hsub hin.2
    refine ⟨⟨fun s hs => ?_, fun s hs hlive => ?_, fun k hk => ?_⟩, hrest⟩
    · rcases hmem hs with hs | rfl
      · exact hin.1.own s hs
      · exact hkey
    · rcases hmem hs with hs | rfl
      · exact hin.1.live s hs hlive
      · rfl
    · rw [measured_new_senders n rfl]
      exact hin.1.sent k hk
  case cool | settle | reset | stop => cases hstarts

theorem Measured.waited {m : Measurement} {i : Nat} (h : m.Measured) (hlap : m.InLap i)
    (hstops : (m.producing i).lap.stops = true) {key : WorkerKey} {workers : List WorkerKey}
    (hworkers : (m.producing i).workers = key :: workers) (hret : m.AllReturned key) :
    (m.setProducing i { m.producing i with workers, waiting := false }).Measured := by
  refine h.loop hlap rfl (fun j hj => setProducing_of_ne m _ hj) (by simp)
    (by simp) fun r hr hgroups hin => ?_
  rw [setProducing_self]
  have hto : (∀ s ∈ (m.producing i).senders, s.Live → s.key ∈ (m.producing i).toCome r.cfg i) →
      ∀ s ∈ (m.producing i).senders, s.Live →
        s.key ∈ Producing.toCome { m.producing i with workers, waiting := false } r.cfg i := by
    intro hlive s hs hl
    have hmem := hlive s hs hl
    rw [Producing.toCome, hworkers, List.cons_append] at hmem
    refine (List.mem_cons.mp hmem).resolve_left fun he => ?_
    exact hl (hret i (List.getElem?_eq_some_iff.mp hr).1 s hs he)
  cases hl : (m.producing i).lap <;> rw [hl] at hstops <;> simp only [Producing.InLoop, hl] at hin ⊢
  case cool | stop => exact ⟨hin.1, hto hin.2⟩
  case warm | settle | reset | start => cases hstops

theorem Measured.waiting {m : Measurement} {i : Nat} (h : m.Measured) (hlap : m.InLap i)
    (ctxs : List Nat) :
    Measured { m.setProducing i { m.producing i with waiting := true } with cancelledCtxs := ctxs } := by
  refine h.loop hlap rfl (fun j hj => setProducing_of_ne m _ hj) ?_ ?_ fun r hr hgroups hin => ?_
  · simp [setProducing]
  · simp [setProducing]
  · simp only [setProducing, Function.update_self]
    cases hl : (m.producing i).lap <;> simp only [Producing.InLoop, hl] at hin ⊢ <;> exact hin

theorem Measured.resetWorker {m : Measurement} {i : Nat} (h : m.Measured) (hlap : m.InLap i)
    (hreset : (m.producing i).lap = .reset) (key : WorkerKey) :
    Measured { m.setProducing i { m.producing i with workers := (m.producing i).workers.erase key } with
      sent := Function.update m.sent key 0 } := by
  refine h.loop hlap rfl (fun j hj => setProducing_of_ne m _ hj) ?_ ?_ fun r hr hgroups hin => ?_
  · simp [setProducing]
  · simp [setProducing]
  · simp only [setProducing, Function.update_self]
    simp only [Producing.InLoop, hreset] at hin ⊢
    refine ⟨hin.1, hin.2.1, hin.2.2.1, hin.2.2.2.imp_right fun hzero k hk hnot => ?_⟩
    by_cases hkk : k = key
    · rw [hkk, Function.update_self]
    · rw [Function.update_of_ne hkk]
      exact hzero k hk fun hmem => hnot ((List.mem_erase_of_ne hkk).mpr hmem)

theorem Measured.setLoop {m : Measurement} {i : Nat} {p : Producing} (h : m.Measured) {pc : Pc}
    (hat : m.fleet.At i pc) (hpc : pc ≠ .finished)
    (hown : ∀ r, m.fleet.engine.runs[i]? = .some r → r.pc = pc →
      (m.producing i).Fits m.sent i m.fleet.groups r → p.Fits m.sent i m.fleet.groups r) :
    (m.setProducing i p).Measured := by
  obtain ⟨r, hr, hp⟩ := Fleet.at_iff.mp hat
  refine h.keep hr (hp ▸ hpc) rfl (fun j hj => setProducing_of_ne m _ hj) ?_
  rw [setProducing_self]
  exact hown r hr hp (h.run i r hr)

theorem Measured.turn {m : Measurement} {i : Nat} {p : Producing} (h : m.Measured)
    (ht : m.turn i = .some p) : (m.setProducing i p).Measured := by
  have hfleetKeys (cfg : Config) : allWorkerNames.flatMap (cfg.groupKeys i) = cfg.fleetKeys i := rfl
  cases hl : (m.producing i).lap <;> simp only [Measurement.turn, hl] at ht
  case stop => cases ht
  all_goals
    split at ht
    case isFalse => cases ht
  case warm.isTrue hat =>
    cases ht
    refine h.setLoop hat.1 (by decide) fun r hr hpc hfits => ?_
    obtain ⟨hcaptured, hgroups, hin⟩ := (Producing.fits_iff (by rw [hl, hpc]; rfl)).mp hfits
    simp only [Producing.InLoop, hl] at hin
    refine (Producing.fits_iff hpc).mpr ⟨hcaptured, hgroups, hin.1, fun s hs _ => ?_⟩
    rw [Producing.toCome, hat.2.2, List.nil_append, hfleetKeys]
    exact (hin.1 s hs).2
  case cool.isTrue hat =>
    cases ht
    refine h.setLoop hat.1 (by decide) fun r hr hpc hfits => ?_
    obtain ⟨hcaptured, hgroups, hin⟩ := (Producing.fits_iff (by rw [hl, hpc]; rfl)).mp hfits
    simp only [Producing.InLoop, hl] at hin
    exact (Producing.fits_iff hpc).mpr
      ⟨hcaptured, hgroups, hin.1, Producing.quiet_of_through hat.2 hin.2, hat.2⟩
  case settle.isTrue hat =>
    cases ht
    refine h.setLoop hat (by decide) fun r hr hpc hfits => ?_
    obtain ⟨hcaptured, hgroups, hin⟩ := (Producing.fits_iff (by rw [hl, hpc]; rfl)).mp hfits
    simp only [Producing.InLoop, hl] at hin
    obtain ⟨hwarming, hquiet, hthrough⟩ := hin
    refine (Producing.fits_iff hpc).mpr ⟨hcaptured, hgroups, hwarming, hquiet, hthrough.1,
      .inr fun key hk hnot => ?_⟩
    refine (hnot ?_).elim
    rw [show m.fleet.group = r.cfg.groupKeys i from funext (Fleet.groupKeys_eq_group hgroups hr),
      hfleetKeys]
    exact hk
  case reset.isTrue hat =>
    cases ht
    refine h.setLoop hat (by decide) fun r hr hpc hfits => ?_
    simp only [Producing.Fits, hpc] at hfits
    obtain ⟨hcaptured, hgroups, hclean | ⟨hstart, -⟩⟩ := hfits
    · refine (Producing.fits_iff hpc).mpr ⟨hcaptured, hgroups, hclean.counting, fun key hk => ?_⟩
      rw [hclean.through.2] at hk
      exact absurd hk List.not_mem_nil
    · exact nomatch hl.symm.trans hstart
  case start.isTrue hat =>
    cases ht
    refine h.setLoop hat (by decide) fun r hr hpc hfits => ?_
    simp only [Producing.Fits, hpc] at hfits
    obtain ⟨hcaptured, hgroups, ⟨-, hthrough, hcounting⟩ | ⟨hstop, -⟩⟩ := hfits
    · refine (Producing.fits_iff hpc).mpr ⟨hcaptured, hgroups, hcounting, fun s hs _ => ?_⟩
      rw [Producing.toCome, hthrough.2, List.nil_append, hfleetKeys]
      exact hcounting.own s hs
    · exact nomatch hl.symm.trans hstop

theorem Measured.skipReset {m : Measurement} {i : Nat} (h : m.Measured) (hat : m.fleet.At i .warmup)
    (hl : (m.producing i).lap = .settle) (hc : (m.fleet.engine.runs[i]?).any (·.cancelled) = true) :
    (m.setProducing i { m.producing i with lap := .reset }).Measured := by
  refine h.setLoop hat (by decide) fun r hr hpc hfits => ?_
  obtain ⟨hcaptured, hgroups, hin⟩ := (Producing.fits_iff (by rw [hl, hpc]; rfl)).mp hfits
  simp only [Producing.InLoop, hl] at hin
  obtain ⟨hwarming, hquiet, hthrough⟩ := hin
  rw [hr] at hc
  exact (Producing.fits_iff hpc).mpr ⟨hcaptured, hgroups, hwarming, hquiet, hthrough.1, .inl hc⟩

/-! ### One step -/

theorem Measured.fleet {m m' : Measurement} {a : FleetAct} (h : m.Measured)
    (hs : m.fleet.StartsSettled a) (hm : m.move (.fleet a) = .some m') : m'.Measured := by
  have hrun : ∀ {i : Nat}, a.run = .some i → (∀ snapshots now, a ≠ .capture i snapshots now) →
      m.move (.fleet a) = (if ∀ i ∈ a.run, m.Waited i then (m.fleet.move a).map fun fleet =>
        { m with fleet } else .none) →
      m'.Measured := by
    intro i hi hne heq
    rw [heq] at hm
    split at hm
    · next hw =>
      obtain ⟨fleet, hf, rfl⟩ := Option.map_eq_some_iff.mp hm
      exact h.fleetRun hi (hw i hi) hf hne
    · cases hm
  cases a with
  | start cfg randomID now =>
    simp only [move, FleetAct.run, Fleet.move] at hm
    cases hm
    exact h.start hs
  | stop =>
    simp only [move, FleetAct.run, Fleet.move] at hm
    cases hm
    exact h.stop
  | cancel i =>
    simp only [move, FleetAct.run, Fleet.move] at hm
    cases hm
    exact h.cancel i
  | capture i snapshots now =>
    simp only [move] at hm
    split at hm
    · next hw =>
      obtain ⟨fleet, hf, rfl⟩ := Option.map_eq_some_iff.mp hm
      exact h.capture hw.1 hw.2 hf
    · cases hm
  | _ => exact hrun rfl (by simp) rfl

/-- **One step** keeps the account of the producers, while starts are settled. -/
theorem Measured.move {m m' : Measurement} {a : MeasureAct} (h : m.Measured) (hs : m.StartsSettled a)
    (hm : m.move a = .some m') : m'.Measured := by
  cases a with
  | fleet a => exact h.fleet hs hm
  | enter i =>
    simp only [Measurement.move] at hm
    split at hm
    · next name names hnames hworkers =>
      split at hm
      · next hlap => cases hm; exact h.enter hlap hnames hworkers
      · cases hm
    · cases hm
  | startWorker i =>
    simp only [Measurement.move] at hm
    split at hm
    · next window key workers hstarts hworkers =>
      split at hm
      · next hlap => cases hm; exact h.startProducers hlap hstarts hworkers
      · cases hm
    · cases hm
  | cancelWorker i =>
    simp only [Measurement.move] at hm
    split at hm
    · cases hm
    · split at hm
      · next hlap => cases hm; exact h.waiting hlap.1 _
      · cases hm
  | waitWorker i =>
    simp only [Measurement.move] at hm
    split at hm
    · cases hm
    · next key workers hworkers =>
      split at hm
      · next hlap => cases hm; exact h.waited hlap.1 hlap.2.1 hworkers hlap.2.2.2
      · cases hm
  | turn i =>
    obtain ⟨p, hp, rfl⟩ := Option.map_eq_some_iff.mp hm
    exact h.turn hp
  | skipReset i =>
    simp only [Measurement.move] at hm
    split at hm
    · next hat => cases hm; exact h.skipReset hat.1 hat.2.1 hat.2.2
    · cases hm
  | resetWorker i key =>
    simp only [Measurement.move] at hm
    split at hm
    · next hlap => cases hm; exact h.resetWorker hlap.1 hlap.2.1 key
    · cases hm
  | accept i k =>
    simp only [Measurement.move] at hm
    split at hm
    · cases hm
    · next s hk =>
      split at hm
      · next hp =>
        cases hm
        exact h.sender (s.accept hp) hk (by rw [Sender.Live, hp]; decide) rfl rfl rfl rfl fun _ => rfl
      · cases hm
  | record i k =>
    simp only [Measurement.move] at hm
    split at hm
    · cases hm
    · next s hk =>
      split at hm
      · next hp =>
        cases hm
        refine h.sender (s.record hp) hk (by rw [Sender.Live, hp]; decide) rfl rfl rfl rfl fun key => ?_
        -- The counter of the worker and the producer's own go up together.
        by_cases hkey : s.key = key
        · subst hkey
          simp only [Function.update_self, if_true, Sender.record]
          omega
        · simp only [if_neg hkey, Function.update_of_ne (Ne.symm hkey)]
      · cases hm
  | exit i k =>
    simp only [Measurement.move] at hm
    split at hm
    · cases hm
    · next s hk =>
      split at hm
      · next hp =>
        split at hm
        · cases hm
          exact h.sender (s.exit hp) hk (by rw [Sender.Live, hp]; decide) rfl rfl rfl rfl fun _ => rfl
        · cases hm
      · cases hm

theorem Measured.step {m : Measurement} {a : MeasureAct} (h : m.Measured) (hs : m.StartsSettled a) :
    (m.step a).Measured := by
  unfold Measurement.step
  cases hm : m.move a with
  | none => exact h
  | some m' => exact h.move hs hm

/-! ## What a snapshot counts as sent -/

/-- When the producers of a live run are quiet, those of all runs are. -/
theorem Measured.noneLive {m : Measurement} (h : m.Measured) {i : Nat} {r : Run}
    (hr : m.fleet.engine.runs[i]? = .some r) (hlive : r.pc ≠ .finished)
    (hq : Sender.Quiet (m.producing i).senders) :
    m.NoneLive := by
  intro j
  by_cases hji : j = i
  · exact hji ▸ hq
  · cases hj : m.fleet.engine.runs[j]? with
    | none =>
      rw [h.fresh j (List.getElem?_eq_none_iff.mp hj)]
      exact fun s hs => absurd hs List.not_mem_nil
    | some rj =>
      have hfin := h.lifecycle.others hr hlive hj hji
      have hfits := h.run j rj hj
      simp only [Producing.Fits, hfin] at hfits
      exact hfits.1

theorem Measured.between {m : Measurement} (h : m.Measured) {i : Nat} (hb : m.Between i) :
    m.NoneLive := by
  rcases hb with ⟨hat, hlap⟩ | hat | ⟨hat, hlap⟩ <;> obtain ⟨r, hr, hpc⟩ := Fleet.at_iff.mp hat <;>
    refine h.noneLive hr (by rw [hpc]; decide) ?_ <;> have hfits := h.run i r hr <;>
    simp only [Producing.Fits, hpc] at hfits
  · obtain ⟨-, -, -, hin⟩ := hfits
    rcases hlap with ⟨hl, hthrough⟩ | hl | hl <;> simp only [Producing.InLoop, hl] at hin
    · exact Producing.quiet_of_through hthrough hin.2
    · exact hin.2.1
    · exact hin.2.1
  · exact hfits.2.2.quiet
  · obtain ⟨-, -, hclean | ⟨hstart, -⟩⟩ := hfits
    · exact hclean.quiet
    · exact nomatch hlap.symm.trans hstart

theorem Measured.drained {m : Measurement} (h : m.Measured) {i : Nat} (hd : m.Drained i) :
    m.NoneLive := by
  obtain ⟨hat, hl, hthrough⟩ := hd
  obtain ⟨r, hr, hpc⟩ := Fleet.at_iff.mp hat
  obtain ⟨-, -, hin⟩ := (Producing.fits_iff (by rw [hl, hpc]; rfl)).mp (h.run i r hr)
  simp only [Producing.InLoop, hl] at hin
  exact h.noneLive hr (by rw [hpc]; decide) (Producing.quiet_of_through hthrough hin.2)

theorem Measured.inWindow {m : Measurement} (h : m.Measured) : m.InWindow where
  between _ := h.between
  drained _ := h.drained
  sent i r snapshots hr hc := (h.run i r hr).exact snapshots hc

end Measurement

open Measurement in
/-- **Sent counts the measurement window.** While starts are settled, in every
state that a run of the machine reaches, whatever the interleaving of the
producers with the phases of the runs and wherever these are cancelled: no
producer goroutine is live from the end of the loop in which a run's `warmup`
stops them until its T0, nor from the end of the loop in which `shutdownWorkers`
stops them until the snapshot, and `Sent` of a snapshot is the number of `Send`
calls that returned nil in the producers that the run started at T0. -/
theorem sent_in_window (acts : List MeasureAct)
    (hs : Always (fun pre a => (after pre).StartsSettled a) acts) :
    ∀ pre, pre <+: acts → (after pre).InWindow := by
  intro pre hpre
  exact (Always.invariant measured_new (fun _ _ h hs => h.step hs) (hs.of_prefix hpre)).inWindow

/-! ### Runs -/

/-- A configuration of the queues worker alone. -/
def onlyQueues : Config :=
  let off (wc : WorkerConfig) : WorkerConfig := { wc with enabled := false }
  let ws := defaultConfig.workers
  { defaultConfig with
    workers :=
      { queues := ws.queues
        events := off ws.events
        eventsStore := off ws.eventsStore
        commands := off ws.commands
        queries := off ws.queries
        creditFlow := off ws.creditFlow } }

/-- A loop of run `i` over the groups, of which the first has a worker. -/
def lapRun (i : Nat) (acts : List MeasureAct) : List MeasureAct :=
  .enter i :: acts ++ .replicate 5 (.enter i)

/-- Run `i` builds its groups, starts its consumers and begins to wait for them. -/
def consumersUp (i : Nat) : List FleetAct :=
  [.build i 1, .enter i, .startWorker i .none 2] ++ .replicate 5 (.enter i) ++ [.started i, .enter i]

/-- The consumers of run `i` are ready. -/
def consumersReady (i : Nat) : List FleetAct :=
  consumersUp i ++ [.awaitWorker i true 3] ++ .replicate 5 (.enter i) ++ [.ready i 4]

/-- Run `i` goes on from the stop of its warmup's producers, with the groups of
run `o`, to the loop in which `shutdownWorkers` stops those that it starts at
T0; `acts` is what these do. -/
def upToCapture (i o : Nat) (acts : List MeasureAct) : List MeasureAct :=
  [.turn i, .turn i, .resetWorker i ⟨o, .queues, 1⟩, .fleet (.advance i .next 5),
    .fleet (.advance i .next 6), .turn i] ++
    lapRun i [.startWorker i] ++ acts ++
    [.fleet (.advance i .next 7), .fleet (.advance i .durationReached 8),
      .fleet (.advance i .next 9), .turn i] ++
    lapRun i [.cancelWorker i, .exit i 1, .waitWorker i]

/-- A run in which one message is sent in the warmup and one from T0 on. -/
def oneEach : List MeasureAct :=
  [.fleet (.start onlyQueues "a" 0)] ++ (consumersReady 0).map .fleet ++
    lapRun 0 [.startWorker 0] ++ [.accept 0 0, .record 0 0, .turn 0] ++
    lapRun 0 [.cancelWorker 0, .exit 0 0, .waitWorker 0] ++ upToCapture 0 0 [.accept 0 1, .record 0 1] ++
    [.fleet (.capture 0 ((∅ : Snapshots).insert .queues { sent := 1 }) 10)]

open Measurement in
set_option maxRecDepth 20000 in
theorem sent_in_window_oneEach :
    ((after oneEach).producing 0).captured.map
      (fun snapshots => (snapshots.lookup .queues).map (·.sent)) =
        .some (.some 1) ∧
      ∀ pre, pre <+: oneEach → (after pre).InWindow := by
  refine ⟨by decide +kernel, sent_in_window oneEach fun pre a post h => ?_⟩
  cases a with
  | fleet a =>
    cases a with
    | start cfg randomID now =>
      cases pre with
      | nil => exact fun _ r hr => absurd hr List.not_mem_nil
      | cons b pre =>
        have hmem : MeasureAct.fleet (.start cfg randomID now) ∈ oneEach.tail := by rw [h]; simp
        simp [oneEach, lapRun, consumersUp, consumersReady, upToCapture] at hmem
    | _ => trivial
  | _ => trivial

/-- The consumers of a first run are not ready in time, and a second run is
started before the first's deferred section, which then stops the engine. -/
def earlySecond : List FleetAct :=
  [.start onlyQueues "a" 0] ++ consumersUp 0 ++
    [.awaitWorker 0 false 3, .start onlyQueues "b" 4, .advance 0 .next 5]

/-- A third run is started, and builds its groups, while the second is in its
warmup. -/
def overlap : List MeasureAct :=
  earlySecond.map .fleet ++ (consumersReady 1).map .fleet ++ lapRun 1 [.startWorker 1] ++
    [.fleet (.start onlyQueues "c" 10), .fleet (.build 2 11), .turn 1] ++
    lapRun 1 [.cancelWorker 1, .waitWorker 1]

/-- The second run goes on to the snapshot. -/
def overlapCapture : List MeasureAct :=
  overlap ++ upToCapture 1 2 [] ++
    [.fleet (.capture 1 ((∅ : Snapshots).insert .queues { sent := 0 }) 12)]

open Measurement in
set_option maxRecDepth 20000 in
/-- **Overlapping runs.** The second run stops the producers of the third, which
has none, and its own are live when it goes on; it gets to the snapshot so. -/
theorem overlap_leaves_producers :
    ((after overlap).Between 1 ∧
        ((after overlap).producing 1).senders.map (fun s => (s.window, s.phase)) =
          [(.warmup, .looping)]) ∧
      ((after overlapCapture).producing 1).captured.isSome = true ∧
      ((after overlapCapture).producing 1).senders.map (fun s => (s.window, s.phase)) =
        [(.warmup, .looping), (.measurement, .returned)] := by
  refine ⟨⟨.inl ⟨by decide +kernel, .inl ⟨by decide +kernel, by decide +kernel⟩⟩,
    by decide +kernel⟩, by decide +kernel, by decide +kernel⟩

end Burnin
