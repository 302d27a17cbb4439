/-
The six workers behind one interface (`worker.Worker`), and the groups of them
that the engine drives (`burnin/engine/worker_group.go`).
-/
import Burnin.Rpc
import Burnin.WorkerFacts

namespace Burnin

open Machine

/-- How many goroutines `StartProducers` of a worker starts: the requesters of an
RPC worker, one when the configuration has none, and one producer otherwise. -/
def Config.producerLoops (c : Config) (name : WorkerName) : Nat :=
  let n := (c.getWorkerConfig name).sendersPerChannel
  if name.isRPCWorker then (if n < 1 then 1 else n.toNat) else 1

/-- A `worker.Worker`: one with a producer loop, or an RPC worker. -/
inductive AnyWorker where
  | plain (w : Worker)
  | rpc (w : RpcWorker)

inductive AnyEvent where
  | plain (e : Worker.Event)
  | rpc (e : RpcWorker.Event)

namespace AnyWorker

/-- The `switch` of `NewWorkerGroup`. -/
def new (c : RunnableConfig) (idx : Nat) : WorkerName → AnyWorker
  | .queues => .plain (.newQueuesWorker c idx)
  | .events => .plain (.newEventsWorker c idx)
  | .eventsStore => .plain (.newEventsStoreWorker c idx)
  | .commands => .rpc (.newCommandsWorker c idx)
  | .queries => .rpc (.newQueriesWorker c idx)
  | .creditFlow => .plain (.newCreditFlowWorker c idx)

/-- The worker as `captureWorkerSnapshots` reads it. -/
def toWorker : AnyWorker → Worker
  | .plain w => w
  | .rpc w => w.toWorker

def base (w : AnyWorker) : BaseWorker := w.toWorker.base

def step : AnyWorker → AnyEvent → Option AnyWorker
  | .plain w, .plain e => .some (.plain (w.step e))
  | .rpc w, .rpc e => (w.step e).map .rpc
  | _, _ => .none

/-- `ResetAfterWarmup`, which all workers inherit. -/
def resetAfterWarmup : AnyWorker → AnyWorker
  | .plain w => .plain { w with base := w.base.resetAfterWarmup }
  | .rpc w => .rpc { w with base := w.base.resetAfterWarmup }

/-! ## Runs -/

/-- A constructor of a worker makes one with a producer loop or an RPC worker. -/
theorem new_cases (c : RunnableConfig) (idx : Nat) (name : WorkerName) :
    (∃ pat : Pattern, pat.name = name ∧ new c idx name = .plain (.new c idx pat)) ∨
      ∃ pat : RpcPattern, pat.name = name ∧ new c idx name = .rpc (.new c idx pat) := by
  cases name with
  | queues => exact .inl ⟨.queues, rfl, rfl⟩
  | events => exact .inl ⟨.events, rfl, rfl⟩
  | eventsStore => exact .inl ⟨.eventsStore, rfl, rfl⟩
  | commands => exact .inr ⟨.commands, rfl, rfl⟩
  | queries => exact .inr ⟨.queries, rfl, rfl⟩
  | creditFlow => exact .inl ⟨.creditFlow, rfl, rfl⟩

theorem new_plain (c : RunnableConfig) (idx : Nat) (pat : Pattern) :
    new c idx pat.name = .plain (.new c idx pat) := by
  cases pat <;> rfl

/-- The events of a worker with a producer loop, in a run. -/
def plains (es : List AnyEvent) : List Worker.Event :=
  es.filterMap fun
    | .plain e => .some e
    | .rpc _ => .none

theorem plains_map (es : List Worker.Event) : plains (es.map .plain) = es := by
  simp [plains, List.filterMap_map]

theorem exec_plain {w₀ : Worker} {es : List AnyEvent} {w : AnyWorker}
    (h : exec step (.plain w₀) es = .some w) : w = .plain (w₀.after (plains es)) := by
  refine exec_rec (P := fun es w => w = .plain (w₀.after (plains es))) rfl ?_ h
  intro es w e w' _ hw hs
  obtain rfl := hw
  cases e with
  | plain e =>
    cases hs
    simp [plains, Worker.after_snoc]
  | rpc e => cases hs

theorem exec_map_plain (w₀ : Worker) (es : List Worker.Event) :
    exec step (.plain w₀) (es.map .plain) = .some (.plain (w₀.after es)) := by
  induction es using List.reverseRecOn with
  | nil => rfl
  | append_singleton es e ih =>
    rw [List.map_append, exec_append, ih, Worker.after_snoc]
    rfl

theorem exec_rpc {w₀ : RpcWorker} {es : List AnyEvent} {w : AnyWorker}
    (h : exec step (.rpc w₀) es = .some w) : ∃ w', w = .rpc w' := by
  refine invariant (I := fun w => ∃ w', w = .rpc w') ⟨w₀, rfl⟩ ?_ h
  intro w e w' hw hs
  obtain ⟨w, rfl⟩ := hw
  cases e with
  | plain e => cases hs
  | rpc e =>
    obtain ⟨w', -, rfl⟩ := Option.map_eq_some_iff.mp hs
    exact ⟨w', rfl⟩

end AnyWorker

/-- A run of one channel of a group. -/
structure ChannelRun (c : RunnableConfig) (name : WorkerName) where
  idx : Nat
  events : List AnyEvent
  worker : AnyWorker
  ran : exec AnyWorker.step (.new c idx name) events = .some worker

theorem ChannelRun.worker_plain {c : RunnableConfig} {pat : Pattern} (r : ChannelRun c pat.name) :
    r.worker = .plain ((Worker.new c r.idx pat).after (AnyWorker.plains r.events)) := by
  have h := r.ran
  rw [AnyWorker.new_plain] at h
  exact AnyWorker.exec_plain h

/-- A run of a worker with a producer loop. -/
def ChannelRun.ofPlain (c : RunnableConfig) (pat : Pattern) (idx : Nat) (es : List Worker.Event) :
    ChannelRun c pat.name where
  idx := idx
  events := es.map .plain
  worker := .plain ((Worker.new c idx pat).after es)
  ran := by rw [AnyWorker.new_plain, AnyWorker.exec_map_plain]

/-- What `captureWorkerSnapshots` reads after runs of the channels of a group. -/
def captured (hist : Histogram) {c : RunnableConfig} {name : WorkerName}
    (runs : List (ChannelRun c name)) : WorkerSnapshot :=
  captureWorkerSnapshot hist name (runs.map (·.worker.toWorker))

theorem captured_counter {hist : Histogram} {c : RunnableConfig} {name : WorkerName}
    {f : WorkerSnapshot → UInt64} {g : BaseWorker → Nat} (h₀ : f {} = 0)
    (h : ∀ snap b, f (Capture.addCounters name snap b) = f snap + .ofNat (g b))
    (hc : ∀ (c : Capture) (extraLost : UInt64), f (c.conclude hist extraLost) = f c.snap)
    (runs : List (ChannelRun c name)) :
    f (captured hist runs) = .ofNat (runs.map fun r => g r.worker.base).sum := by
  rw [captured, captureWorkerSnapshot, hc, Capture.counter_foldl h, h₀, zero_add, List.map_map]
  rfl

/-- `GetWorkerChannels`. -/
def Config.getWorkerChannels (c : Config) (name : WorkerName) : Nat :=
  let channels := (c.getWorkerConfig name).channels
  if channels > 0 then channels.toNat else 1

end Burnin
