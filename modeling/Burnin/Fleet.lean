/-
The consumers of a run: what `runLoop` does with its worker groups when it
starts them, waits for them and, in `shutdownWorkers`, stops them, worker by
worker.

`Start` makes a worker's consumer context from the context of the run, and keeps
its cancel function in the worker, where `StopConsumers` finds it. So a context
is cancelled when its worker's last `Start` made it and the worker is stopped,
or when the run that started it is cancelled. The groups are those in
`e.workerGroups`, which the last run to build groups has put there.

A machine over the engine's: its steps are requests, the sections of the
engine's machine, and the steps of the three loops over the groups. The
sections that come before or after a loop wait for it.
-/
import Burnin.EngineFacts
import Burnin.Group

namespace Burnin

open Past

/-- A worker: the run that built it, its type and its channel. -/
structure WorkerKey where
  run : Nat
  name : WorkerName
  channel : Nat
  deriving DecidableEq

/-- A context that `Start` made for the consumers of a worker. -/
structure ConsumerCtx where
  key : WorkerKey
  /-- the run whose context it was made from -/
  parent : Nat
  /-- its own cancel function was called -/
  stopped : Bool := false
  deriving DecidableEq

/-- The three loops of a run over its groups. -/
inductive Stage where
  | starting | waiting | stopping
  deriving DecidableEq, Repr

/-- Where a run is in a loop: the types of workers to come, and the workers to
come of the group that it is in. -/
structure GroupLoop where
  stage : Stage := .starting
  names : List WorkerName := allWorkerNames
  workers : List WorkerKey := []

structure Fleet where
  engine : Engine := {}
  /-- the run that built `e.workerGroups` -/
  groups : Option Nat := .none
  ctxs : List ConsumerCtx := []
  /-- the context that a worker's `consumerCancel` cancels -/
  consumerCancel : WorkerKey → Option Nat := fun _ => .none
  loops : Nat → GroupLoop := fun _ => {}

inductive FleetAct where
  /-- a request, or the cancellation of a run's context by `GracefulShutdown` -/
  | start (cfg : Config) (randomID : String) (now : Int)
  | stop
  | cancel (i : Nat)
  /-- a section of run `i` with no loop before or after it -/
  | advance (i : Nat) (event : Event) (now : Int)
  | build (i : Nat) (now : Int)
  /-- the loop of run `i` takes the next group -/
  | enter (i : Nat)
  /-- `Start` of the next worker returns, with an error or without -/
  | startWorker (i : Nat) (err : Option String) (now : Int)
  /-- run `i` has started all consumers -/
  | started (i : Nat)
  /-- the wait for the next worker is over, in time or not -/
  | awaitWorker (i : Nat) (ready : Bool) (now : Int)
  /-- run `i` has waited for all consumers -/
  | ready (i : Nat) (now : Int)
  | capture (i : Nat) (snapshots : Snapshots) (now : Int)
  | stopWorker (i : Nat)
  | lastSample (i : Nat) (sys : UInt64) (now : Int)

/-- The run whose goroutine takes a step of the fleet. -/
def FleetAct.run : FleetAct → Option Nat
  | .start _ _ _ | .stop | .cancel _ => .none
  | .advance i _ _ | .build i _ | .enter i | .startWorker i _ _ | .started i | .awaitWorker i _ _
  | .ready i _ | .capture i _ _ | .stopWorker i | .lastSample i _ _ => .some i

/-- The workers of one type that run `i` builds. -/
def Config.groupKeys (c : Config) (i : Nat) (name : WorkerName) : List WorkerKey :=
  if (c.getWorkerConfig name).enabled then
    (List.range' 1 (c.getWorkerChannels name)).map (⟨i, name, ·⟩)
  else []

/-- All workers that run `i` builds. -/
def Config.fleetKeys (c : Config) (i : Nat) : List WorkerKey := allWorkerNames.flatMap (c.groupKeys i)

namespace Fleet

/-- The run `i` is at `pc`. -/
def At (f : Fleet) (i : Nat) (pc : Pc) : Prop := (f.engine.runs[i]?).map (·.pc) = .some pc

instance (f : Fleet) (i : Nat) (pc : Pc) : Decidable (f.At i pc) := inferInstanceAs (Decidable (_ = _))

/-- The workers of `e.workerGroups[name]`. -/
def group (f : Fleet) (name : WorkerName) : List WorkerKey :=
  match f.groups with
  | .none => []
  | .some o => (f.engine.runs[o]?).elim [] fun r => r.cfg.groupKeys o name

/-- The run `i` is at the loop `l` from now on. -/
def setLoop (f : Fleet) (i : Nat) (l : GroupLoop) : Fleet :=
  { f with loops := Function.update f.loops i l }

/-- `Start` of a worker, by run `i`. -/
def startConsumers (f : Fleet) (i : Nat) (key : WorkerKey) : Fleet :=
  { f with
    ctxs := f.ctxs ++ [{ key, parent := i }]
    consumerCancel := Function.update f.consumerCancel key (.some f.ctxs.length) }

/-- `StopConsumers` of a worker. -/
def stopConsumers (f : Fleet) (key : WorkerKey) : Fleet :=
  match f.consumerCancel key with
  | .none => f
  | .some c => { f with ctxs := f.ctxs.modify c fun ctx => { ctx with stopped := true } }

/-- The engine's machine takes a step. -/
def stepEngine (f : Fleet) (a : Act) : Fleet := { f with engine := f.engine.step a }

/-- The error of `StartConsumers`. -/
def startError (key : WorkerKey) (err : String) : Message :=
  ⟨"start consumers: %v",
    [.str ("start consumer for " ++ key.name.text ++ "/" ++ channel key.name key.channel ++
      ": " ++ err)]⟩

/-- The error of `WaitForConsumerReady`. -/
def readyError (key : WorkerKey) : Message :=
  ⟨"consumer ready: %v",
    [.str ("consumer ready timeout for " ++ key.name.text ++ "/" ++ channel key.name key.channel)]⟩

/-- The step that an action takes, if it is enabled. -/
def move (f : Fleet) : FleetAct → Option Fleet
  | .start cfg randomID now => .some (f.stepEngine (.start cfg randomID now))
  | .stop => .some (f.stepEngine .stop)
  | .cancel i => .some { f with engine := f.engine.cancel i }
  | .advance i event now =>
    if f.At i .build ∨ f.At i .consumers ∨ f.At i .capture ∨ f.At i .lastSample then .none
    else .some (f.stepEngine (.run i event now))
  | .build i now =>
    if f.At i .build then .some { (f.stepEngine (.run i .next now)).setLoop i {} with
      groups := .some i } else .none
  | .enter i =>
    if f.At i .consumers ∨ f.At i .lastSample then
      match (f.loops i).names, (f.loops i).workers with
      | name :: names, [] => .some (f.setLoop i { f.loops i with names, workers := f.group name })
      | _, _ => .none
    else .none
  | .startWorker i err now =>
    if f.At i .consumers ∧ (f.loops i).stage = .starting then
      match (f.loops i).workers with
      | [] => .none
      | key :: workers =>
        let f' := (f.startConsumers i key).setLoop i { f.loops i with workers }
        match err with
        | .none => .some f'
        | .some err => .some (f'.stepEngine (.run i (.consumersFailed (startError key err)) now))
    else .none
  | .started i =>
    if f.At i .consumers ∧ (f.loops i).stage = .starting ∧ (f.loops i).names = [] ∧
        (f.loops i).workers = [] then
      .some (f.setLoop i { stage := .waiting })
    else .none
  | .awaitWorker i ready now =>
    if f.At i .consumers ∧ (f.loops i).stage = .waiting then
      match (f.loops i).workers with
      | [] => .none
      | key :: workers =>
        if ready then .some (f.setLoop i { f.loops i with workers })
        else .some (f.stepEngine (.run i (.consumersFailed (readyError key)) now))
    else .none
  | .ready i now =>
    if f.At i .consumers ∧ (f.loops i).stage = .waiting ∧ (f.loops i).names = [] ∧
        (f.loops i).workers = [] then
      .some (f.stepEngine (.run i .next now))
    else .none
  | .capture i snapshots now =>
    if f.At i .capture then
      .some ((f.stepEngine (.run i (.captured snapshots) now)).setLoop i { stage := .stopping })
    else .none
  | .stopWorker i =>
    if f.At i .lastSample then
      match (f.loops i).workers with
      | [] => .none
      | key :: workers => .some ((f.stopConsumers key).setLoop i { f.loops i with workers })
    else .none
  | .lastSample i sys now =>
    if f.At i .lastSample ∧ (f.loops i).names = [] ∧ (f.loops i).workers = [] then
      .some (f.stepEngine (.run i (.sampled sys false) now))
    else .none

/-- One step; an action that is not enabled changes nothing. -/
def step (f : Fleet) (a : FleetAct) : Fleet := (f.move a).getD f

/-- The fleet after a run of the machine, from `New`. -/
def after (acts : List FleetAct) : Fleet := acts.foldl step {}

end Fleet

/-- The run has published its last state or is about to. -/
def Pc.Over : Pc → Prop
  | .deferred | .closing _ | .finished => True
  | _ => False

namespace Fleet

/-- No consumer of a run that is over is left: every context that it started
one with is cancelled, itself or with the run. -/
def NoneLeft (f : Fleet) : Prop :=
  ∀ i r, f.engine.runs[i]? = .some r → r.pc.Over →
    ∀ ctx ∈ f.ctxs, ctx.parent = i → ctx.stopped = true ∨ r.cancelled = true

/-- A start is accepted in a settled engine only. -/
def StartsSettled (f : Fleet) : FleetAct → Prop
  | .start cfg randomID now => f.engine.StartsSettled (.start cfg randomID now)
  | _ => True

/-- A worker fails to start, or is not ready in time, in a run that is already
cancelled only. -/
def FailsCancelled (f : Fleet) (a : FleetAct) : Prop :=
  match a with
  | .startWorker i (.some _) _ | .awaitWorker i false _ =>
    (f.move a).isSome = true → ∀ r, f.engine.runs[i]? = .some r → r.cancelled = true
  | _ => True

/-! ## The invariant -/

/-- The workers that the loop of run `i` has still to come to. -/
def toCome (f : Fleet) (i : Nat) (cfg : Config) : List WorkerKey :=
  (f.loops i).workers ++ (f.loops i).names.flatMap (cfg.groupKeys i)

/-- Run `i` has started the worker, and it is not stopped. -/
def Started (f : Fleet) (i : Nat) (key : WorkerKey) : Prop :=
  ∃ ctx ∈ f.ctxs, ctx.parent = i ∧ ctx.key = key ∧ ctx.stopped = false

/-- The contexts that run `i` has started, where it is at `r`. -/
def RunTidy (f : Fleet) (i : Nat) (r : Run) : Prop :=
  match r.pc with
  | .build => ∀ ctx ∈ f.ctxs, ctx.parent ≠ i
  | .consumers =>
    f.groups = .some i ∧
      match (f.loops i).stage with
      | .starting =>
        (f.toCome i r.cfg).Nodup ∧ (∀ key ∈ f.toCome i r.cfg, key ∈ r.cfg.fleetKeys i) ∧
          (∀ key ∈ r.cfg.fleetKeys i, key ∈ f.toCome i r.cfg ∨ f.Started i key) ∧
          ∀ ctx ∈ f.ctxs, ctx.parent = i → ctx.key ∉ f.toCome i r.cfg
      | .waiting =>
        (∀ key ∈ f.toCome i r.cfg, key ∈ r.cfg.fleetKeys i) ∧ ∀ key ∈ r.cfg.fleetKeys i, f.Started i key
      | .stopping => False
  | .warmup | .startProducers | .markRunning | .measure | .stopProducers | .capture => f.groups = .some i
  | .lastSample =>
    f.groups = .some i ∧ ∀ ctx ∈ f.ctxs, ctx.parent = i → ctx.stopped = true ∨ ctx.key ∈ f.toCome i r.cfg
  | .verdict | .summary => ∀ ctx ∈ f.ctxs, ctx.parent = i → ctx.stopped = true
  | .deferred | .closing _ | .finished =>
    ∀ ctx ∈ f.ctxs, ctx.parent = i → ctx.stopped = true ∨ r.cancelled = true

/-- What holds of the fleet while starts are settled. -/
structure Tidy (f : Fleet) : Prop where
  lifecycle : f.engine.Lifecycle
  listed : ∀ ctx ∈ f.ctxs, ∃ r, f.engine.runs[ctx.parent]? = .some r ∧
    ctx.key ∈ r.cfg.fleetKeys ctx.parent
  cancels : ∀ c ctx, f.ctxs[c]? = .some ctx → f.consumerCancel ctx.key = .some c
  run : ∀ i r, f.engine.runs[i]? = .some r → f.RunTidy i r

theorem mem_groupKeys {c : Config} {i : Nat} {name : WorkerName} {key : WorkerKey}
    (h : key ∈ c.groupKeys i name) : key.run = i ∧ key.name = name := by
  unfold Config.groupKeys at h
  split at h
  · obtain ⟨channel, -, rfl⟩ := List.mem_map.mp h
    exact ⟨rfl, rfl⟩
  · cases h

theorem mem_fleetKeys {c : Config} {i : Nat} {name : WorkerName} {key : WorkerKey}
    (h : key ∈ c.groupKeys i name) : key ∈ c.fleetKeys i :=
  List.mem_flatMap.mpr ⟨name, mem_allWorkerNames name, h⟩

theorem mem_fleetKeys_run {c : Config} {i : Nat} {key : WorkerKey} (h : key ∈ c.fleetKeys i) :
    key.run = i := by
  obtain ⟨name, -, h⟩ := List.mem_flatMap.mp h
  exact (mem_groupKeys h).1

theorem nodup_fleetKeys (c : Config) (i : Nat) : (c.fleetKeys i).Nodup := by
  refine List.nodup_flatMap.mpr ⟨fun name _ => ?_, ?_⟩
  · unfold Config.groupKeys
    split
    · exact List.Nodup.map (fun a b h => (WorkerKey.mk.inj h).2.2) List.nodup_range'
    · exact List.nodup_nil
  · have hnames : allWorkerNames.Nodup := by decide
    refine hnames.imp ?_
    intro a b hne key ha hb
    exact hne ((mem_groupKeys ha).2.symm.trans (mem_groupKeys hb).2)

theorem tidy_new : Tidy {} := ⟨Engine.lifecycle_new, by simp, by simp, by simp⟩

/-- A step of a live run `i` that leaves the contexts of the others. -/
theorem Tidy.own {f f' : Fleet} {i : Nat} {r : Run} (h : f.Tidy)
    (hr : f.engine.runs[i]? = .some r) (pc : Pc) (hlive : r.pc ≠ .finished) (hlife : f'.engine.Lifecycle)
    (hruns : ∀ j, f'.engine.runs[j]? = if j = i then .some { r with pc } else f.engine.runs[j]?)
    (hlisted : ∀ ctx ∈ f'.ctxs, (∃ ctx₀ ∈ f.ctxs, ctx₀.parent = ctx.parent ∧ ctx₀.key = ctx.key ∧
        (ctx₀.stopped = true → ctx.stopped = true)) ∨ (ctx.parent = i ∧ ctx.key ∈ r.cfg.fleetKeys i))
    (hcancels : ∀ c ctx, f'.ctxs[c]? = .some ctx → f'.consumerCancel ctx.key = .some c)
    (hown : f'.RunTidy i { r with pc }) : f'.Tidy := by
  refine ⟨hlife, fun ctx hctx => ?_, hcancels, fun j rj hj => ?_⟩
  · rcases hlisted ctx hctx with ⟨ctx₀, h₀, hp, hk, -⟩ | ⟨hp, hk⟩
    · obtain ⟨r₀, hr₀, hmem⟩ := h.listed ctx₀ h₀
      rw [hp] at hr₀ hmem
      rw [hruns]
      by_cases hpi : ctx.parent = i
      · rw [if_pos hpi]
        rw [hpi, hr] at hr₀
        cases hr₀
        exact ⟨_, rfl, hk ▸ hmem⟩
      · rw [if_neg hpi]
        exact ⟨r₀, hr₀, hk ▸ hmem⟩
    · rw [hruns, hp, if_pos rfl]
      exact ⟨_, rfl, hk⟩
  · rw [hruns] at hj
    by_cases hji : j = i
    · rw [if_pos hji] at hj
      cases hj
      exact hji ▸ hown
    · -- Another run has finished, and its contexts are as they were, or stopped.
      rw [if_neg hji] at hj
      have hfin := h.lifecycle.others hr hlive hj hji
      have htidy := h.run j rj hj
      simp only [RunTidy, hfin] at htidy ⊢
      intro ctx hctx hp
      rcases hlisted ctx hctx with ⟨ctx₀, h₀, hp₀, -, hs⟩ | ⟨hpi, -⟩
      · exact (htidy ctx₀ h₀ (hp₀.trans hp)).imp_left hs
      · exact absurd (hp.symm.trans hpi) hji

theorem Tidy.keep {f f' : Fleet} {i : Nat} {r : Run} (h : f.Tidy)
    (hr : f.engine.runs[i]? = .some r) (pc : Pc) (hlive : r.pc ≠ .finished) (hlife : f'.engine.Lifecycle)
    (hruns : ∀ j, f'.engine.runs[j]? = if j = i then .some { r with pc } else f.engine.runs[j]?)
    (hctxs : f'.ctxs = f.ctxs) (hcancel : f'.consumerCancel = f.consumerCancel)
    (hown : f'.RunTidy i { r with pc }) : f'.Tidy := by
  refine h.own hr pc hlive hlife hruns (fun ctx hctx => ?_) ?_ hown
  · exact .inl ⟨ctx, hctxs ▸ hctx, rfl, rfl, id⟩
  · rw [hctxs, hcancel]
    exact h.cancels

theorem Tidy.section {f f' : Fleet} {i : Nat} {r : Run} {pc : Pc} (h : f.Tidy)
    (hr : f.engine.runs[i]? = .some r) (hs : Engine.Section f.engine f'.engine i r pc)
    (hctxs : f'.ctxs = f.ctxs) (hcancel : f'.consumerCancel = f.consumerCancel)
    (hown : f'.RunTidy i { r with pc }) : f'.Tidy :=
  h.keep hr pc hs.live (h.lifecycle.section hr hs) hs.runs hctxs hcancel hown

theorem runs_same {f : Fleet} {i : Nat} {r : Run} (hr : f.engine.runs[i]? = .some r) (j : Nat) :
    f.engine.runs[j]? = if j = i then .some { r with pc := r.pc } else f.engine.runs[j]? := by
  by_cases hji : j = i
  · rw [if_pos hji, hji, hr]
  · rw [if_neg hji]

theorem at_iff {f : Fleet} {i : Nat} {pc : Pc} :
    f.At i pc ↔ ∃ r, f.engine.runs[i]? = .some r ∧ r.pc = pc :=
  Option.map_eq_some_iff

/-! ### Requests -/

theorem RunTidy.cancel {f : Fleet} {i : Nat} {r : Run} (h : f.RunTidy i r) (b : Bool) :
    f.RunTidy i { r with cancelled := r.cancelled || b } := by
  cases hpc : r.pc with
  | deferred | closing done | finished =>
    simp only [RunTidy, hpc] at h ⊢
    intro ctx hctx hp
    exact (h ctx hctx hp).imp_right fun hc => by rw [hc]; rfl
  | _ => simpa only [RunTidy, hpc] using h

theorem Tidy.cancel {f : Fleet} (h : f.Tidy) (i : Nat) :
    Tidy { f with engine := f.engine.cancel i } := by
  refine ⟨h.lifecycle.cancel i, fun ctx hctx => ?_, h.cancels, fun j r hj => ?_⟩
  · obtain ⟨r, hr, hk⟩ := h.listed ctx hctx
    refine ⟨{ r with cancelled := r.cancelled || decide (i = ctx.parent) }, ?_, hk⟩
    rw [Engine.cancel_runs, hr]
    rfl
  · rw [Engine.cancel_runs, Option.map_eq_some_iff] at hj
    obtain ⟨r, hr, rfl⟩ := hj
    exact (h.run j r hr).cancel _

theorem Tidy.start {f : Fleet} (h : f.Tidy) {cfg : Config} {randomID : String} {now : Int}
    (hs : f.engine.StartsSettled (.start cfg randomID now)) :
    (f.stepEngine (.start cfg randomID now)).Tidy := by
  have hlife : (f.engine.step (.start cfg randomID now)).Lifecycle := h.lifecycle.step hs
  cases he : f.engine.startRunFromConfig cfg randomID now with
  | error msg =>
    have hstep : f.stepEngine (.start cfg randomID now) = f := by simp [stepEngine, Engine.step, he]
    rw [hstep]
    exact h
  | ok e' =>
    have hstep : f.engine.step (.start cfg randomID now) = e' := by simp [Engine.step, he]
    obtain ⟨-, -, -, hruns, -⟩ := Engine.startRunFromConfig_ok he
    have hold : ∀ {j : Nat} {r : Run}, f.engine.runs[j]? = .some r →
        e'.runs[j]? = .some r := fun {j r} hj => by
      rw [hruns, List.getElem?_append_left (List.getElem?_eq_some_iff.mp hj).1, hj]
    rw [hstep] at hlife
    simp only [stepEngine, hstep]
    refine ⟨hlife, fun ctx hctx => ?_, h.cancels, fun j r hj => ?_⟩
    · obtain ⟨r, hr, hk⟩ := h.listed ctx hctx
      exact ⟨r, hold hr, hk⟩
    · rcases Engine.startRunFromConfig_runs he hj with ⟨rfl, rfl⟩ | ⟨-, hj⟩
      · intro ctx hctx hp
        obtain ⟨r, hr, -⟩ := h.listed ctx hctx
        rw [hp] at hr
        simp at hr
      · exact h.run j r hj

theorem Tidy.stop {f : Fleet} (h : f.Tidy) : (f.stepEngine .stop).Tidy := by
  rcases f.engine.step_stop with he | ⟨c, he⟩
  · rwa [stepEngine, he]
  · rw [stepEngine, he]
    exact h.cancel c

/-! ### Sections -/

theorem Tidy.otherSection {f : Fleet} (h : f.Tidy) {i : Nat} {event : Event} {now : Int}
    (hat : ¬ (f.At i .build ∨ f.At i .consumers ∨ f.At i .capture ∨ f.At i .lastSample)) :
    (f.stepEngine (.run i event now)).Tidy := by
  rcases f.engine.step_run i event now with he | ⟨r, pc, hr, hg, hs⟩
  · rw [stepEngine, he]
    exact h
  · refine h.section hr hs rfl rfl ?_
    have htidy := h.run i r hr
    simp only [at_iff, hr, Option.some.injEq, exists_eq_left'] at hat
    generalize hpc : r.pc = pc₀ at hg hat
    simp only [RunTidy, hpc] at htidy
    cases hg with
    | build | failed | consumers | captured | lastSample => simp at hat
    | warmup =>
      by_cases hc : r.cancelled = true
      · rw [if_pos hc]
        exact fun ctx _ _ => .inr hc
      · rw [if_neg hc]
        exact htidy
    | summary => exact fun ctx hctx hp => .inl (htidy ctx hctx hp)
    | _ => exact htidy

theorem groupKeys_eq_group {f : Fleet} {i : Nat} {r : Run} (hg : f.groups = .some i)
    (hr : f.engine.runs[i]? = .some r) (name : WorkerName) : f.group name = r.cfg.groupKeys i name := by
  simp [group, hg, hr]

theorem Tidy.build {f : Fleet} (h : f.Tidy) {i : Nat} {now : Int} (hat : f.At i .build) :
    Tidy { (f.stepEngine (.run i .next now)).setLoop i {} with groups := .some i } := by
  obtain ⟨r, hr, hpc⟩ := at_iff.mp hat
  obtain ⟨pc, hg, hs⟩ := Engine.step_of_isSome hr .next now (by rw [hpc]; rfl)
  have htidy := h.run i r hr
  simp only [RunTidy, hpc] at htidy
  rw [hpc] at hg
  cases hg
  refine h.section hr hs rfl rfl ⟨rfl, ?_⟩
  have htoCome : toCome { (f.stepEngine (.run i .next now)).setLoop i {} with
      groups := .some i } i r.cfg = r.cfg.fleetKeys i := by
    simp [toCome, setLoop, Config.fleetKeys]
  simp only [setLoop, Function.update_self]
  refine ⟨?_, fun key hk => ?_, fun key hk => .inl ?_, fun ctx hctx hp => absurd hp (htidy ctx hctx)⟩
  · exact htoCome ▸ nodup_fleetKeys r.cfg i
  · exact htoCome ▸ hk
  · exact htoCome ▸ hk

theorem toCome_cons {f : Fleet} {i : Nat} {key : WorkerKey} {workers : List WorkerKey}
    (hworkers : (f.loops i).workers = key :: workers) (cfg : Config) (g : Fleet) :
    f.toCome i cfg = key :: (g.setLoop i { f.loops i with workers }).toCome i cfg := by
  simp [toCome, setLoop, hworkers]

/-- The loop of run `i` takes the next group: what is to come stays the same. -/
theorem toCome_enter {f : Fleet} {i : Nat} {cfg : Config} {name : WorkerName} {names : List WorkerName}
    (hnames : (f.loops i).names = name :: names) (hworkers : (f.loops i).workers = [])
    (hgroup : f.group name = cfg.groupKeys i name) :
    (f.setLoop i { f.loops i with names, workers := f.group name }).toCome i cfg = f.toCome i cfg := by
  simp [toCome, setLoop, hnames, hworkers, hgroup]

theorem Tidy.enter {f f' : Fleet} (h : f.Tidy) {i : Nat} (hm : f.move (.enter i) = .some f') :
    f'.Tidy := by
  simp only [move] at hm
  split at hm
  · next hat =>
    split at hm
    · next name names hnames hworkers =>
      cases hm
      obtain ⟨r, hr, hpc⟩ : ∃ r, f.engine.runs[i]? = .some r ∧
          (r.pc = .consumers ∨ r.pc = .lastSample) := by
        rcases hat with hat | hat <;> obtain ⟨r, hr, hpc⟩ := at_iff.mp hat
        · exact ⟨r, hr, .inl hpc⟩
        · exact ⟨r, hr, .inr hpc⟩
      refine h.keep hr r.pc (by rcases hpc with hpc | hpc <;> simp [hpc]) h.lifecycle
        (runs_same hr) rfl rfl ?_
      have htidy := h.run i r hr
      have hgroups : f.groups = .some i := by
        rcases hpc with hpc | hpc <;> simp only [RunTidy, hpc] at htidy <;> exact htidy.1
      have hto := toCome_enter hnames hworkers (groupKeys_eq_group hgroups hr name)
      rcases hpc with hpc | hpc
      · simp only [RunTidy, hpc, hto] at htidy ⊢
        simpa [setLoop, Started] using htidy
      · simp only [RunTidy, hpc, hto] at htidy ⊢
        exact htidy
    · cases hm
  · cases hm

theorem Tidy.startConsumers {f : Fleet} (h : f.Tidy) {i : Nat} {r : Run}
    (hr : f.engine.runs[i]? = .some r) (hpc : r.pc = .consumers)
    (hstage : (f.loops i).stage = .starting) {key : WorkerKey} {workers : List WorkerKey}
    (hworkers : (f.loops i).workers = key :: workers) :
    ((f.startConsumers i key).setLoop i { f.loops i with workers }).Tidy := by
  have htidy := h.run i r hr
  simp only [RunTidy, hpc, hstage] at htidy
  obtain ⟨hgroups, hnodup, hsub, hall, hfresh⟩ := htidy
  rw [toCome_cons hworkers r.cfg (f.startConsumers i key)] at hnodup hsub hall hfresh
  generalize hto : ((f.startConsumers i key).setLoop i { f.loops i with workers }).toCome i r.cfg =
    rest at hnodup hsub hall hfresh
  have hkey := hsub key List.mem_cons_self
  -- The worker is new, so nothing that its cancel function would be for is lost.
  have hnew : ∀ ctx ∈ f.ctxs, ctx.key ≠ key := by
    intro ctx hctx he
    obtain ⟨r', -, hk⟩ := h.listed ctx hctx
    have hp : ctx.parent = i := by rw [← mem_fleetKeys_run hk, he, mem_fleetKeys_run hkey]
    exact hfresh ctx hctx hp (he ▸ List.mem_cons_self)
  refine h.own hr r.pc (by simp [hpc]) h.lifecycle (runs_same hr) (fun ctx hctx => ?_)
    (fun c ctx hc => ?_) ?_
  · rcases List.mem_append.mp hctx with hctx | hctx
    · exact .inl ⟨ctx, hctx, rfl, rfl, id⟩
    · obtain rfl := List.mem_singleton.mp hctx
      exact .inr ⟨rfl, hkey⟩
  · simp only [setLoop, Fleet.startConsumers] at hc ⊢
    rcases Nat.lt_trichotomy c f.ctxs.length with hlt | rfl | hgt
    · rw [List.getElem?_append_left hlt] at hc
      rw [Function.update_of_ne (hnew ctx (List.mem_of_getElem? hc))]
      exact h.cancels c ctx hc
    · rw [List.getElem?_concat_length] at hc
      cases hc
      rw [Function.update_self]
    · rw [List.getElem?_eq_none (by simp; omega)] at hc
      cases hc
  · have hstage' : (((f.startConsumers i key).setLoop i { f.loops i with workers }).loops i).stage =
        .starting := by
      simp [setLoop, hstage]
    simp only [RunTidy, hpc, hstage', hto]
    refine ⟨hgroups, hnodup.of_cons, fun k hk => hsub k (List.mem_cons_of_mem _ hk), fun k hk => ?_,
      fun ctx hctx hp => ?_⟩
    · rcases hall k hk with hk | ⟨ctx, hctx, hs⟩
      · rcases List.mem_cons.mp hk with rfl | hk
        · exact .inr ⟨_, List.mem_append_right _ (List.mem_singleton_self _), rfl, rfl, rfl⟩
        · exact .inl hk
      · exact .inr ⟨ctx, List.mem_append_left _ hctx, hs⟩
    · rcases List.mem_append.mp hctx with hctx | hctx
      · exact fun hm => hfresh ctx hctx hp (List.mem_cons_of_mem _ hm)
      · obtain rfl := List.mem_singleton.mp hctx
        exact (List.nodup_cons.mp hnodup).1

theorem Tidy.fail {f : Fleet} (h : f.Tidy) {i : Nat} {r : Run} (hr : f.engine.runs[i]? = .some r)
    (hpc : r.pc = .consumers) (hc : r.cancelled = true) (msg : Message) (now : Int) :
    (f.stepEngine (.run i (.consumersFailed msg) now)).Tidy := by
  obtain ⟨pc, hg, hs⟩ := Engine.step_of_isSome hr (.consumersFailed msg) now (by rw [hpc]; rfl)
  rw [hpc] at hg
  cases hg
  exact h.section hr hs rfl rfl fun ctx _ _ => .inr hc

theorem toCome_nil {f : Fleet} {i : Nat} {cfg : Config} (hn : (f.loops i).names = [])
    (hw : (f.loops i).workers = []) : f.toCome i cfg = [] := by
  simp [toCome, hn, hw]

theorem toCome_fresh (f : Fleet) (i : Nat) (cfg : Config) (stage : Stage) :
    (f.setLoop i { stage }).toCome i cfg = cfg.fleetKeys i := by
  simp [toCome, setLoop, Config.fleetKeys]

theorem Tidy.started {f : Fleet} (h : f.Tidy) {i : Nat} (hat : f.At i .consumers)
    (hstage : (f.loops i).stage = .starting) (hn : (f.loops i).names = [])
    (hw : (f.loops i).workers = []) :
    (f.setLoop i { stage := .waiting }).Tidy := by
  obtain ⟨r, hr, hpc⟩ := at_iff.mp hat
  have htidy := h.run i r hr
  simp only [RunTidy, hpc, hstage, toCome_nil hn hw] at htidy
  obtain ⟨hgroups, -, -, hall, -⟩ := htidy
  refine h.keep hr r.pc (by simp [hpc]) h.lifecycle (runs_same hr) rfl rfl ?_
  have hstage' : ((f.setLoop i { stage := .waiting }).loops i).stage = .waiting := by simp [setLoop]
  simp only [RunTidy, hpc, hstage', toCome_fresh]
  exact ⟨hgroups, fun _ hk => hk, fun key hk => (hall key hk).resolve_left List.not_mem_nil⟩

theorem Tidy.awaitReady {f : Fleet} (h : f.Tidy) {i : Nat} {r : Run} (hr : f.engine.runs[i]? = .some r)
    (hpc : r.pc = .consumers) (hstage : (f.loops i).stage = .waiting) {key : WorkerKey}
    {workers : List WorkerKey} (hworkers : (f.loops i).workers = key :: workers) :
    (f.setLoop i { f.loops i with workers }).Tidy := by
  have htidy := h.run i r hr
  simp only [RunTidy, hpc, hstage] at htidy
  obtain ⟨hgroups, hsub, hall⟩ := htidy
  refine h.keep hr r.pc (by simp [hpc]) h.lifecycle (runs_same hr) rfl rfl ?_
  have hstage' : ((f.setLoop i { f.loops i with workers }).loops i).stage = .waiting := by
    simp [setLoop, hstage]
  rw [toCome_cons hworkers r.cfg f] at hsub
  simp only [RunTidy, hpc, hstage']
  exact ⟨hgroups, fun k hk => hsub k (List.mem_cons_of_mem _ hk), hall⟩

theorem Tidy.ready {f : Fleet} (h : f.Tidy) {i : Nat} (hat : f.At i .consumers) (now : Int) :
    (f.stepEngine (.run i .next now)).Tidy := by
  obtain ⟨r, hr, hpc⟩ := at_iff.mp hat
  obtain ⟨pc, hg, hs⟩ := Engine.step_of_isSome hr .next now (by rw [hpc]; rfl)
  have htidy := h.run i r hr
  simp only [RunTidy, hpc] at htidy
  rw [hpc] at hg
  cases hg
  refine h.section hr hs rfl rfl ?_
  by_cases hc : r.cancelled = true
  · rw [if_pos hc]
    exact fun ctx _ _ => .inr hc
  · rw [if_neg hc]
    exact htidy.1

theorem Tidy.capture {f : Fleet} (h : f.Tidy) {i : Nat} (hat : f.At i .capture)
    (snapshots : Snapshots) (now : Int) :
    ((f.stepEngine (.run i (.captured snapshots) now)).setLoop i { stage := .stopping }).Tidy := by
  obtain ⟨r, hr, hpc⟩ := at_iff.mp hat
  obtain ⟨pc, hg, hs⟩ := Engine.step_of_isSome hr (.captured snapshots) now (by rw [hpc]; rfl)
  have htidy := h.run i r hr
  simp only [RunTidy, hpc] at htidy
  rw [hpc] at hg
  cases hg
  refine h.section hr hs rfl rfl ⟨htidy, fun ctx hctx hp => .inr ?_⟩
  rw [toCome_fresh]
  obtain ⟨r', hr', hk⟩ := h.listed ctx hctx
  rw [hp, hr] at hr'
  cases hr'
  exact hp ▸ hk

theorem Tidy.stopConsumers {f : Fleet} (h : f.Tidy) {i : Nat} {r : Run}
    (hr : f.engine.runs[i]? = .some r) (hpc : r.pc = .lastSample) {key : WorkerKey}
    {workers : List WorkerKey} (hworkers : (f.loops i).workers = key :: workers) :
    ((f.stopConsumers key).setLoop i { f.loops i with workers }).Tidy := by
  have htidy := h.run i r hr
  simp only [RunTidy, hpc] at htidy
  obtain ⟨hgroups, hleft⟩ := htidy
  rw [toCome_cons hworkers r.cfg f] at hleft
  unfold Fleet.stopConsumers
  cases hc : f.consumerCancel key with
  | none =>
    -- The worker was not started.
    refine h.keep hr r.pc (by simp [hpc]) h.lifecycle (runs_same hr) rfl rfl ?_
    simp only [RunTidy, hpc]
    refine ⟨hgroups, fun ctx hctx hp => (hleft ctx hctx hp).imp_right fun hm => ?_⟩
    rcases List.mem_cons.mp hm with rfl | hm
    · obtain ⟨c, hget⟩ := List.getElem?_of_mem hctx
      rw [h.cancels c ctx hget] at hc
      cases hc
    · exact hm
  | some c =>
    have hget : ∀ {c' : Nat} {ctx' : ConsumerCtx},
        (f.ctxs.modify c fun ctx : ConsumerCtx => { ctx with stopped := true })[c']? = .some ctx' →
        ∃ ctx, f.ctxs[c']? = .some ctx ∧
          ctx' = { ctx with stopped := ctx.stopped || decide (c = c') } := by
      intro c' ctx' hc'
      rw [List.getElem?_modify] at hc'
      obtain ⟨ctx, hctx, rfl⟩ := Option.map_eq_some_iff.mp hc'
      refine ⟨ctx, hctx, ?_⟩
      by_cases hcc : c = c' <;> simp [hcc]
    refine h.own hr r.pc (by simp [hpc]) h.lifecycle (runs_same hr) (fun ctx' hctx' => ?_)
      (fun c' ctx' hc' => ?_) ?_
    · obtain ⟨c', hc'⟩ := List.getElem?_of_mem hctx'
      obtain ⟨ctx, hctx, rfl⟩ := hget hc'
      exact .inl ⟨ctx, List.mem_of_getElem? hctx, rfl, rfl, fun hs => by rw [hs]; rfl⟩
    · obtain ⟨ctx, hctx, rfl⟩ := hget hc'
      exact h.cancels c' ctx hctx
    · simp only [RunTidy, hpc]
      refine ⟨hgroups, fun ctx' hctx' hp => ?_⟩
      obtain ⟨c', hc'⟩ := List.getElem?_of_mem hctx'
      obtain ⟨ctx, hctx, rfl⟩ := hget hc'
      rcases hleft ctx (List.mem_of_getElem? hctx) hp with hs | hm
      · exact .inl (by rw [hs]; rfl)
      · rcases List.mem_cons.mp hm with hk | hm
        · have hcc := h.cancels c' ctx hctx
          rw [hk, hc] at hcc
          exact .inl (by simp [Option.some.inj hcc])
        · exact .inr hm

theorem Tidy.lastSample {f : Fleet} (h : f.Tidy) {i : Nat} (hat : f.At i .lastSample)
    (hn : (f.loops i).names = []) (hw : (f.loops i).workers = []) (sys : UInt64) (now : Int) :
    (f.stepEngine (.run i (.sampled sys false) now)).Tidy := by
  obtain ⟨r, hr, hpc⟩ := at_iff.mp hat
  obtain ⟨pc, hg, hs⟩ := Engine.step_of_isSome hr (.sampled sys false) now (by rw [hpc]; rfl)
  have htidy := h.run i r hr
  simp only [RunTidy, hpc, toCome_nil hn hw] at htidy
  rw [hpc] at hg
  cases hg
  exact h.section hr hs rfl rfl fun ctx hctx hp => (htidy.2 ctx hctx hp).resolve_right List.not_mem_nil

/-! ### One step -/

theorem move_startWorker {f f' : Fleet} {i : Nat} {err : Option String} {now : Int}
    (hm : f.move (.startWorker i err now) = .some f') :
    ∃ r key workers, f.engine.runs[i]? = .some r ∧ r.pc = .consumers ∧ (f.loops i).stage = .starting ∧
      (f.loops i).workers = key :: workers ∧
      f' = err.elim ((f.startConsumers i key).setLoop i { f.loops i with workers }) fun err =>
        ((f.startConsumers i key).setLoop i { f.loops i with workers }).stepEngine
          (.run i (.consumersFailed (startError key err)) now) := by
  simp only [move] at hm
  split at hm
  · next hat =>
    obtain ⟨r, hr, hpc⟩ := at_iff.mp hat.1
    split at hm
    · cases hm
    · next key workers hw => cases err <;> (cases hm; exact ⟨r, key, workers, hr, hpc, hat.2, hw, rfl⟩)
  · cases hm

theorem move_awaitWorker {f f' : Fleet} {i : Nat} {ready : Bool} {now : Int}
    (hm : f.move (.awaitWorker i ready now) = .some f') :
    ∃ r key workers, f.engine.runs[i]? = .some r ∧ r.pc = .consumers ∧ (f.loops i).stage = .waiting ∧
      (f.loops i).workers = key :: workers ∧
      f' = if ready then f.setLoop i { f.loops i with workers }
        else f.stepEngine (.run i (.consumersFailed (readyError key)) now) := by
  simp only [move] at hm
  split at hm
  · next hat =>
    obtain ⟨r, hr, hpc⟩ := at_iff.mp hat.1
    split at hm
    · cases hm
    · next key workers hw => cases ready <;> (cases hm; exact ⟨r, key, workers, hr, hpc, hat.2, hw, rfl⟩)
  · cases hm

/-- **What a run's step does to the engine**: nothing, or a section of the run.
Only `build` changes the groups, and only `capture` is the section of its name. -/
theorem move_run {f f' : Fleet} {a : FleetAct} {i : Nat} (ha : a.run = .some i)
    (hm : f.move a = .some f') :
    (f'.engine = f.engine ∧ f'.groups = f.groups) ∨
      ∃ r pc ev, f.engine.runs[i]? = .some r ∧ r.pc.Goes r.cancelled ev pc ∧
        Engine.Section f.engine f'.engine i r pc ∧
        f'.groups = (if r.pc = .build then .some i else f.groups) ∧
        (r.pc = .capture → ∃ snapshots now, a = .capture i snapshots now) := by
  -- A section of run `i` that leaves the groups.
  have run : ∀ {g : Fleet} (ev : Event) (now : Int), g.engine = f.engine → g.groups = f.groups →
      ¬ f.At i .build →
      (f.At i .capture → ∃ snapshots now, a = .capture i snapshots now) →
      ((g.stepEngine (.run i ev now)).engine = f.engine ∧
        (g.stepEngine (.run i ev now)).groups = f.groups) ∨
        ∃ r pc ev', f.engine.runs[i]? = .some r ∧ r.pc.Goes r.cancelled ev' pc ∧
          Engine.Section f.engine (g.stepEngine (.run i ev now)).engine i r pc ∧
          (g.stepEngine (.run i ev now)).groups = (if r.pc = .build then .some i else f.groups) ∧
          (r.pc = .capture → ∃ snapshots now, a = .capture i snapshots now) := by
    intro g ev now he hgroups hat hcapture
    simp only [stepEngine, he, hgroups]
    rcases f.engine.step_run i ev now with hsame | ⟨r, pc, hr, hg, hs⟩
    · exact .inl ⟨hsame, trivial⟩
    · have hne : r.pc ≠ .build := fun hpc => hat (at_iff.mpr ⟨r, hr, hpc⟩)
      exact .inr ⟨r, pc, ev, hr, hg, hs, (if_neg hne).symm,
        fun hpc => hcapture (at_iff.mpr ⟨r, hr, hpc⟩)⟩
  have other : ∀ {pc pc' : Pc}, pc ≠ pc' → f.At i pc → ¬ f.At i pc' := by
    intro pc pc' hne hat hat'
    exact hne (Option.some.inj (hat.symm.trans hat'))
  cases a with
  | start | stop | cancel => cases ha
  | advance j event now =>
    cases ha
    simp only [move] at hm
    split at hm
    · cases hm
    · next hat =>
      cases hm
      exact run event now rfl rfl (fun h => hat (.inl h)) fun h => (hat (.inr (.inr (.inl h)))).elim
  | build j now =>
    cases ha
    simp only [move] at hm
    split at hm
    · next hat =>
      cases hm
      obtain ⟨r, hr, hpc⟩ := at_iff.mp hat
      obtain ⟨pc, hg, hs⟩ := Engine.step_of_isSome hr .next now (by rw [hpc]; rfl)
      exact .inr ⟨r, pc, .next, hr, hg, hs, (if_pos hpc).symm, fun hpc' => nomatch hpc.symm.trans hpc'⟩
    · cases hm
  | enter j =>
    cases ha
    simp only [move] at hm
    split at hm
    · split at hm <;> cases hm
      exact .inl ⟨rfl, rfl⟩
    · cases hm
  | startWorker j err now =>
    cases ha
    obtain ⟨r, key, workers, hr, hpc, -, -, rfl⟩ := move_startWorker hm
    cases err with
    | none => exact .inl ⟨rfl, rfl⟩
    | some err =>
      have hat := at_iff.mpr ⟨r, hr, hpc⟩
      exact run _ now rfl rfl (other (by decide) hat) fun h => (other (by decide) hat h).elim
  | started j =>
    cases ha
    simp only [move] at hm
    split at hm <;> cases hm
    exact .inl ⟨rfl, rfl⟩
  | awaitWorker j ready now =>
    cases ha
    obtain ⟨r, key, workers, hr, hpc, -, -, rfl⟩ := move_awaitWorker hm
    cases ready with
    | true => exact .inl ⟨rfl, rfl⟩
    | false =>
      have hat := at_iff.mpr ⟨r, hr, hpc⟩
      exact run _ now rfl rfl (other (by decide) hat) fun h => (other (by decide) hat h).elim
  | ready j now =>
    cases ha
    simp only [move] at hm
    split at hm
    · next hat =>
      cases hm
      exact run _ now rfl rfl (other (by decide) hat.1) fun h => (other (by decide) hat.1 h).elim
    · cases hm
  | capture j snapshots now =>
    cases ha
    simp only [move] at hm
    split at hm
    · next hat =>
        cases hm; exact run _ now rfl rfl (other (by decide) hat) fun _ => ⟨snapshots, now, rfl⟩
    · cases hm
  | stopWorker j =>
    cases ha
    simp only [move] at hm
    split at hm
    · split at hm
      · cases hm
      · next key workers _ =>
        cases hm
        refine .inl ?_
        unfold Fleet.stopConsumers
        split <;> exact ⟨rfl, rfl⟩
    · cases hm
  | lastSample j sys now =>
    cases ha
    simp only [move] at hm
    split at hm
    · next hat =>
      cases hm
      exact run _ now rfl rfl (other (by decide) hat.1) fun h => (other (by decide) hat.1 h).elim
    · cases hm

theorem Tidy.move {f f' : Fleet} {a : FleetAct} (h : f.Tidy) (hs : f.StartsSettled a)
    (hf : f.FailsCancelled a) (hm : f.move a = .some f') : f'.Tidy := by
  cases a with
  | start cfg randomID now => cases hm; exact h.start hs
  | stop => cases hm; exact h.stop
  | cancel i => cases hm; exact h.cancel i
  | advance i event now =>
    simp only [Fleet.move] at hm
    split at hm
    · cases hm
    · next hat => cases hm; exact h.otherSection hat
  | build i now =>
    simp only [Fleet.move] at hm
    split at hm
    · next hat => cases hm; exact h.build hat
    · cases hm
  | enter i => exact h.enter hm
  | startWorker i err now =>
    obtain ⟨r, key, workers, hr, hpc, hstage, hw, rfl⟩ := move_startWorker hm
    have h' := h.startConsumers hr hpc hstage hw
    cases err with
    | none => exact h'
    | some err => exact h'.fail hr hpc (hf (Option.isSome_of_eq_some hm) r hr) _ now
  | started i =>
    simp only [Fleet.move] at hm
    split at hm
    · next hat => cases hm; exact h.started hat.1 hat.2.1 hat.2.2.1 hat.2.2.2
    · cases hm
  | awaitWorker i ready now =>
    obtain ⟨r, key, workers, hr, hpc, hstage, hw, rfl⟩ := move_awaitWorker hm
    cases ready with
    | true => exact h.awaitReady hr hpc hstage hw
    | false => exact h.fail hr hpc (hf (Option.isSome_of_eq_some hm) r hr) _ now
  | ready i now =>
    simp only [Fleet.move] at hm
    split at hm
    · next hat => cases hm; exact h.ready hat.1 now
    · cases hm
  | capture i snapshots now =>
    simp only [Fleet.move] at hm
    split at hm
    · next hat => cases hm; exact h.capture hat snapshots now
    · cases hm
  | stopWorker i =>
    simp only [Fleet.move] at hm
    split at hm
    · next hat =>
      obtain ⟨r, hr, hpc⟩ := at_iff.mp hat
      split at hm
      · cases hm
      · next key workers hw => cases hm; exact h.stopConsumers hr hpc hw
    · cases hm
  | lastSample i sys now =>
    simp only [Fleet.move] at hm
    split at hm
    · next hat => cases hm; exact h.lastSample hat.1 hat.2.1 hat.2.2 sys now
    · cases hm

theorem Tidy.step {f : Fleet} {a : FleetAct} (h : f.Tidy) (hs : f.StartsSettled a)
    (hf : f.FailsCancelled a) : (f.step a).Tidy := by
  unfold Fleet.step
  cases hm : f.move a with
  | none => exact h
  | some f' => exact h.move hs hf hm

theorem Tidy.noneLeft {f : Fleet} (h : f.Tidy) : f.NoneLeft := by
  intro i r hr hover
  have htidy := h.run i r hr
  cases hpc : r.pc with
  | deferred | closing done | finished => simpa only [RunTidy, hpc] using htidy
  | _ => rw [hpc] at hover; exact hover.elim

/-- The consumers of a run that is not cancelled fail, and those that were
started are left. -/
theorem not_noneLeft_of_fail {f : Fleet} {i : Nat} {r : Run} (hr : f.engine.runs[i]? = .some r)
    (hpc : r.pc = .consumers) (hc : r.cancelled ≠ true) {ctx : ConsumerCtx} (hctx : ctx ∈ f.ctxs)
    (hp : ctx.parent = i) (hs : ctx.stopped = false) (msg : Message) (now : Int) :
    ¬ (f.stepEngine (.run i (.consumersFailed msg) now)).NoneLeft := by
  obtain ⟨pc, hg, hsec⟩ := Engine.step_of_isSome hr (.consumersFailed msg) now (by rw [hpc]; rfl)
  rw [hpc] at hg
  cases hg
  intro hleft
  rcases hleft i { r with pc := .deferred }
    (by rw [stepEngine, hsec.runs, if_pos rfl]) trivial ctx hctx hp with h | h
  · rw [hs] at h
    cases h
  · exact hc h

theorem Tidy.not_noneLeft {f : Fleet} {a : FleetAct} (h : f.Tidy) (hf : ¬ f.FailsCancelled a) :
    ¬ (f.step a).NoneLeft := by
  cases a with
  | startWorker i err now =>
    cases err with
    | none => exact absurd trivial hf
    | some err =>
      simp only [FailsCancelled, not_forall] at hf
      obtain ⟨hsome, r, hr, hc⟩ := hf
      obtain ⟨f', hm⟩ := Option.isSome_iff_exists.mp hsome
      obtain ⟨r', key, workers, hr', hpc, hstage, hw, rfl⟩ := move_startWorker hm
      rw [hr] at hr'
      cases hr'
      have hctx : ConsumerCtx.mk key i false ∈
          ((f.startConsumers i key).setLoop i { f.loops i with workers }).ctxs :=
        List.mem_append_right _ (List.mem_singleton_self _)
      have hleft := not_noneLeft_of_fail
        (f := (f.startConsumers i key).setLoop i { f.loops i with workers }) hr hpc hc
        hctx rfl rfl (startError key err) now
      rw [Fleet.step, hm]
      exact hleft
  | awaitWorker i ready now =>
    cases ready with
    | true => exact absurd trivial hf
    | false =>
      simp only [FailsCancelled, not_forall] at hf
      obtain ⟨hsome, r, hr, hc⟩ := hf
      obtain ⟨f', hm⟩ := Option.isSome_iff_exists.mp hsome
      obtain ⟨r', key, workers, hr', hpc, hstage, hw, rfl⟩ := move_awaitWorker hm
      rw [hr] at hr'
      cases hr'
      have htidy := h.run i r hr
      simp only [RunTidy, hpc, hstage] at htidy
      obtain ⟨-, hsub, hall⟩ := htidy
      obtain ⟨ctx, hctx, hp, -, hs⟩ := hall key (hsub key (by simp [toCome, hw]))
      rw [Fleet.step, hm]
      exact not_noneLeft_of_fail hr hpc hc hctx hp hs _ now
  | _ => exact absurd trivial hf

end Fleet

open Fleet in
/-- **When a finished run leaves no consumer behind.** While starts are settled,
every consumer context that a run has started is cancelled when the run is over,
in every state that a run of the machine reaches, exactly when a worker fails to
start or is not ready in time only in a run that is already cancelled. -/
theorem none_left_iff (acts : List FleetAct)
    (hs : Always (fun pre a => (after pre).StartsSettled a) acts) :
    (∀ pre, pre <+: acts → (after pre).NoneLeft) ↔
      Always (fun pre a => (after pre).FailsCancelled a) acts :=
  always_iff_within tidy_new (fun _ _ h hs hf => h.step hs hf) (fun _ h => h.noneLeft)
    (fun _ _ h _ hf => h.not_noneLeft hf) hs

/-- A worker fails to start after the run was stopped. -/
def stoppedStart : List FleetAct :=
  [.start defaultConfig "a" 0, .build 0 1, .enter 0, .stop, .startWorker 0 (.some "refused") 2]

set_option maxRecDepth 20000 in
open Fleet in
/-- Its consumers go with the run. -/
theorem none_left_stoppedStart :
    (after stoppedStart).engine.state = .error ∧ ∀ pre, pre <+: stoppedStart → (after pre).NoneLeft := by
  refine ⟨by decide +kernel, (none_left_iff stoppedStart fun pre a post h => ?_).mpr ?_⟩
  · cases a with
    | start cfg randomID now =>
      cases pre with
      | nil => exact fun _ r hr => absurd hr List.not_mem_nil
      | cons b pre =>
        have hmem : FleetAct.start cfg randomID now ∈ stoppedStart.tail := by rw [h]; simp
        simp [stoppedStart] at hmem
    | _ => trivial
  · refine (always_snoc (H := stoppedStart.take 4)).mpr ⟨fun pre a post h => ?_, fun _ r hr => ?_⟩
    · have hmem : a ∈ stoppedStart.take 4 := by rw [h]; simp
      cases a with
      | startWorker i err now => simp [stoppedStart] at hmem
      | awaitWorker i ready now => simp [stoppedStart] at hmem
      | _ => trivial
    · have hc : ((after (stoppedStart.take 4)).engine.runs[0]?).map (·.cancelled) = .some true := by
        decide +kernel
      rw [hr] at hc
      exact Option.some.inj hc

/-- All consumers of the defaults are started, and the first is not ready in
time; then the run ends. -/
def readyTimeout : List FleetAct :=
  [.start defaultConfig "a" 0, .build 0 1] ++
    (List.replicate 6 [FleetAct.enter 0, .startWorker 0 .none 2]).flatten ++
    [.started 0, .enter 0, .awaitWorker 0 false 3, .advance 0 .next 4, .advance 0 .next 5]

set_option maxRecDepth 20000 in
open Fleet in
/-- The run has finished in state error, no context was cancelled, and the
consumers of all six workers go on. -/
theorem ready_timeout_leaves_consumers :
    (after readyTimeout).engine.state = .error ∧
      (after readyTimeout).engine.runs.map (fun r => (r.pc, r.cancelled)) = [(.finished, false)] ∧
      (after readyTimeout).ctxs.map (fun ctx => (ctx.key.name, ctx.parent, ctx.stopped)) =
        allWorkerNames.map (·, 0, false) ∧
      ¬ (after readyTimeout).NoneLeft := by
  have hrun : ((after readyTimeout).engine.runs[0]?).map (fun r => (r.pc, r.cancelled)) =
      .some (.finished, false) := by decide +kernel
  have hctx : ConsumerCtx.mk ⟨0, .queues, 1⟩ 0 false ∈ (after readyTimeout).ctxs := by decide +kernel
  refine ⟨by decide +kernel, by decide +kernel, by decide +kernel, fun h => ?_⟩
  obtain ⟨r, hr, hpc⟩ := Option.map_eq_some_iff.mp hrun
  obtain ⟨hpc, hc⟩ := Prod.mk.inj hpc
  rcases h 0 r hr (by rw [hpc]; trivial) _ hctx rfl with hs | hcancelled
  · cases hs
  · rw [hc] at hcancelled
    cases hcancelled

end Burnin
