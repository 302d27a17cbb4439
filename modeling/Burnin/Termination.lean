/-
How long a shutdown takes. Every section of the main goroutine or of the run that
it waits for lowers `rank`, no other step raises it, and a cancelled run is never
stuck (`cancelled_goes`); so from the first section of `GracefulShutdown` the
program comes to its exit within a fixed number of moves (`shutdown_terminates`).
-/
import Burnin.Process

namespace Burnin

/-- The sections that a run still has to take. -/
def Pc.left : Pc → Nat
  | .build => 13
  | .consumers => 12
  | .warmup => 11
  | .startProducers => 10
  | .markRunning => 9
  | .measure => 8
  | .stopProducers => 7
  | .capture => 6
  | .lastSample => 5
  | .verdict => 4
  | .summary => 3
  | .deferred => 2
  | .closing _ => 1
  | .finished => 0

/-- Every section but a round of the memory tracker brings a run closer to its
end. -/
theorem Pc.Goes.left {cancelled : Bool} {pc pc' : Pc} {ev : Event} (h : pc.Goes cancelled ev pc') :
    pc' = pc ∨ pc'.left < pc.left := by
  cases h with
  | sampled sys baseline => exact .inl rfl
  | consumers | warmup =>
    cases cancelled
    · exact .inr (by decide)
    · exact .inr (by decide)
  | _ => exact .inr (by simp [Pc.left])

/-- A cancelled run that has not finished is never stuck. -/
theorem Engine.cancelled_goes (e : Engine) (i : Nat) {r : Run} (now : Int) (hc : r.cancelled = true)
    (hpc : r.pc ≠ .finished) :
    ∃ ev, (e.runLoop i r now r.pc ev).isSome = true ∧ ∀ pc', r.pc.Goes r.cancelled ev pc' →
      pc' ≠ r.pc := by
  obtain ⟨cfg, cancelled, pc⟩ := r
  obtain rfl : cancelled = true := hc
  cases pc with
  | capture => exact ⟨.captured ∅, rfl, fun pc' hg => by cases hg; simp⟩
  | lastSample => exact ⟨.sampled 0 false, rfl, fun pc' hg => by cases hg; simp⟩
  | verdict => exact ⟨.ranged .stored, rfl, fun pc' hg => by cases hg; simp⟩
  | finished => exact absurd rfl hpc
  | _ => exact ⟨.next, rfl, fun pc' hg => by cases hg; all_goals simp⟩

namespace Engine

/-- The sections that the last run still has to take. -/
def left (e : Engine) : Nat := (e.runs.getLast?).elim 0 (·.pc.left)

/-- Where the runs are. -/
def pcs (e : Engine) : List Pc := e.runs.map (·.pc)

theorem pcs_cancel (e : Engine) (c : Nat) : (e.cancel c).pcs = e.pcs := by
  refine List.ext_getElem? fun j => ?_
  simp only [pcs, List.getElem?_map, cancel_runs]
  cases e.runs[j]? <;> rfl

theorem left_eq_pcs (e : Engine) : e.left = (e.pcs.getLast?).elim 0 (·.left) := by
  rw [left, pcs, List.getLast?_map]
  cases e.runs.getLast? <;> rfl

theorem pcs_section {e e' : Engine} {i : Nat} {r : Run} {pc : Pc} (hs : Section e e' i r pc) (j : Nat) :
    e'.pcs[j]? = if j = i then .some pc else e.pcs[j]? := by
  simp only [pcs, List.getElem?_map, hs.runs]
  split <;> rfl

/-- A step that accepts no start moves the last run on, or leaves every run where
it is. -/
theorem pcs_step {e : Engine} {a : Act} (h : e.Lifecycle) (hno : ¬ e.Accepts a) :
    (e.step a).pcs = e.pcs ∨ (e.step a).left < e.left := by
  rcases step_cases hno with he | ⟨c, he⟩ | ⟨i, r, ev, now, pc, hr, -, hg, hs⟩
  · exact .inl (by rw [he])
  · exact .inl (by rw [he, pcs_cancel])
  · have hi : e.pcs[i]? = .some r.pc := by simp [pcs, hr]
    rcases hg.left with hsame | hlt
    · refine .inl (List.ext_getElem? fun j => ?_)
      rw [pcs_section hs]
      split
      · next hj => rw [hj, hi, hsame]
      · rfl
    · have hlast := h.last hr hs.live
      have hidx : (e.step a).runs.length - 1 = i := by
        rw [hs.length]
        omega
      have hidx' : e.runs.length - 1 = i := by omega
      refine .inr ?_
      rw [left, left, List.getLast?_eq_getElem?, List.getLast?_eq_getElem?, hidx, hidx', hs.runs,
        if_pos rfl, hr]
      exact hlt

end Engine

namespace Process

/-- The sections that the main goroutine still has to take. -/
def mainLeft : MainPc → Nat
  | .launching => 7
  | .waiting => 6
  | .leaving => 5
  | .shuttingDown (.cancelling _ _) => 4
  | .shuttingDown (.waiting _) => 3
  | .shuttingDown .reading => 2
  | .shuttingDown (.returned _) => 1
  | .exited _ => 0

def rank (p : Process) : Nat := mainLeft p.pc + p.observed.engine.left

/-- A step that moves a goroutine on. -/
def Moves (inv : Invocation) (p : Process) (a : ProcessAct) : Prop :=
  (p.step inv a).pc ≠ p.pc ∨ (p.step inv a).observed.engine.pcs ≠ p.observed.engine.pcs

instance (inv : Invocation) (p : Process) (a : ProcessAct) : Decidable (Moves inv p a) :=
  inferInstanceAs (Decidable (_ ∨ _))

/-- The shutdown has begun. -/
def Closing (p : Process) : Prop := (∃ pc, p.pc = .shuttingDown pc) ∨ ∃ code, p.pc = .exited code

section
variable {inv : Invocation} {p : Process} {a : ProcessAct}

theorem rank_of_stays (h : p.step inv a = p) :
    rank (p.step inv a) + (if Moves inv p a then 1 else 0) ≤ rank p := by
  have hstill : ¬ Moves inv p a := by simp [Moves, h]
  rw [if_neg hstill, h]
  exact le_rfl

theorem rank_of_lt (h : rank (p.step inv a) < rank p) :
    rank (p.step inv a) + (if Moves inv p a then 1 else 0) ≤ rank p := by
  split <;> omega

theorem rank_call (inv : Invocation) (hi : p.Invariant) {pc : ShutdownPc} (hpc : p.pc = .shuttingDown pc)
    (ha : a = .main ∨ a = .timeout) :
    (p.step inv a = p ∨ rank (p.step inv a) < rank p) ∧ (p.step inv a).Closing := by
  obtain ⟨o, pc₀, found, timedOut⟩ := p
  obtain rfl : pc₀ = .shuttingDown pc := hpc
  have hphase := hi.phase
  have stays : ∀ {q : Process}, q = ⟨o, .shuttingDown pc, found, timedOut⟩ →
      (q = ⟨o, .shuttingDown pc, found, timedOut⟩ ∨
        rank q < rank ⟨o, .shuttingDown pc, found, timedOut⟩) ∧ q.Closing :=
    fun hq => ⟨.inl hq, hq ▸ .inl ⟨pc, rfl⟩⟩
  rcases ha with rfl | rfl
  · cases pc with
    | cancelling cancel done =>
      obtain ⟨i, -, rfl, rfl⟩ := hphase
      have hleft : (o.engine.cancel i).left = o.engine.left := by
        rw [Engine.left_eq_pcs, Engine.pcs_cancel, ← Engine.left_eq_pcs]
      have hrank : 3 + (o.engine.cancel i).left < 4 + o.engine.left := by omega
      exact ⟨.inr hrank, .inl ⟨_, rfl⟩⟩
    | waiting done =>
      by_cases hclosed : Shutdown.closed o.engine done = true
      · have hstep : step inv ⟨o, .shuttingDown (.waiting done), found, timedOut⟩ .main =
            ⟨o, .shuttingDown .reading, found, timedOut⟩ := by
          simp [step, ofShutdown, shutdown, Shutdown.step, hclosed]
        rw [hstep]
        have hrank : 2 + o.engine.left < 3 + o.engine.left := by omega
        exact ⟨.inr hrank, .inl ⟨_, rfl⟩⟩
      · exact stays (by simp [step, ofShutdown, shutdown, Shutdown.step, hclosed])
    | reading =>
      have hrank : 1 + o.engine.left < 2 + o.engine.left := by omega
      exact ⟨.inr hrank, .inl ⟨_, rfl⟩⟩
    | returned passed =>
      have hrank : 0 + o.engine.left < 1 + o.engine.left := by omega
      exact ⟨.inr hrank, .inr ⟨_, rfl⟩⟩
  · cases pc with
    | waiting done =>
      have hrank : 2 + o.engine.left < 3 + o.engine.left := by omega
      exact ⟨.inr hrank, .inl ⟨_, rfl⟩⟩
    | _ => exact stays rfl

/-- No step of a shutdown raises the rank, and each one that moves a goroutine
lowers it. -/
theorem rank_step (hi : p.Invariant) (hc : p.Closing) (ha : p.Orderly a) :
    rank (p.step inv a) + (if Moves inv p a then 1 else 0) ≤ rank p ∧ (p.step inv a).Closing := by
  obtain ⟨o, pc, found, timedOut⟩ := p
  rcases hc with ⟨pc', rfl⟩ | ⟨code, rfl⟩
  · cases a with
    | launch randomID now => exact ⟨rank_of_stays rfl, .inl ⟨pc', rfl⟩⟩
    | signal => exact ⟨rank_of_stays rfl, .inl ⟨pc', rfl⟩⟩
    | tick => exact ⟨rank_of_stays rfl, .inl ⟨pc', rfl⟩⟩
    | main =>
      obtain ⟨hmove, hclosing⟩ := rank_call inv hi rfl (.inl rfl)
      exact ⟨hmove.elim rank_of_stays rank_of_lt, hclosing⟩
    | timeout =>
      obtain ⟨hmove, hclosing⟩ := rank_call inv hi rfl (.inr rfl)
      exact ⟨hmove.elim rank_of_stays rank_of_lt, hclosing⟩
    | engine act =>
      refine ⟨?_, .inl ⟨pc', rfl⟩⟩
      have hno : ¬ o.engine.Accepts act := ha.2 ⟨pc', rfl⟩
      rcases Engine.pcs_step hi.consistent.faithful.lifecycle hno with hsame | hlt
      · have hstill : ¬ Moves inv ⟨o, .shuttingDown pc', found, timedOut⟩ (.engine act) := by
          simp [Moves, step, hsame]
        rw [if_neg hstill]
        simp [rank, step, Engine.left_eq_pcs, hsame]
      · exact rank_of_lt (by simpa [rank, step] using hlt)
  · have hstays : step inv ⟨o, .exited code, found, timedOut⟩ a =
        ⟨o, .exited code, found, timedOut⟩ := by
      cases a <;> rfl
    exact ⟨rank_of_stays hstays, by rw [hstays]; exact .inr ⟨code, rfl⟩⟩

/-- A shutdown is never stuck, with its timer left aside. -/
theorem closing_moves (hi : p.Invariant) (hc : p.Closing) (now : Int)
    (hlive : ∀ code, p.pc ≠ .exited code) :
    ∃ a, (a = .main ∨ ∃ i ev, a = .engine (.run i ev now)) ∧ p.Orderly a ∧ Moves inv p a := by
  obtain ⟨o, pc, found, timedOut⟩ := p
  rcases hc with ⟨pc', rfl⟩ | ⟨code, rfl⟩
  · have hphase := hi.phase
    cases pc' with
    | cancelling cancel done =>
      obtain ⟨i, -, rfl, rfl⟩ := hphase
      exact ⟨.main, .inl rfl, trivial,
        .inl (by simp [step, ofShutdown, shutdown, Shutdown.step, Shutdown.wait])⟩
    | reading =>
      exact ⟨.main, .inl rfl, trivial, .inl (by simp [step, ofShutdown, shutdown, Shutdown.step])⟩
    | returned passed => exact ⟨.main, .inl rfl, trivial, .inl (by simp [step])⟩
    | waiting done =>
      by_cases hclosed : Shutdown.closed o.engine done = true
      · exact ⟨.main, .inl rfl, trivial,
          .inl (by simp [step, ofShutdown, shutdown, Shutdown.step, hclosed])⟩
      · -- The run that the call waits for goes on, since it is cancelled.
        obtain ⟨r, hr, -, hcancelled⟩ := hphase
        have hr : o.engine.runs[done]? = .some r := hr
        have hpc : r.pc ≠ .finished := by
          intro hfin
          rw [Shutdown.closed, hi.consistent.faithful.lifecycle.closed_once done r hr,
            if_pos hfin] at hclosed
          exact hclosed rfl
        obtain ⟨ev, hsome, hmoves⟩ := o.engine.cancelled_goes done now hcancelled hpc
        obtain ⟨pc', hg, hs⟩ := Engine.step_of_isSome hr ev now hsome
        refine ⟨.engine (.run done ev now), .inr ⟨done, ev, rfl⟩, ⟨trivial, fun _ => id⟩,
          .inr fun hsame => ?_⟩
        have hnew : (o.engine.step (.run done ev now)).pcs[done]? = .some pc' := by
          rw [Engine.pcs_section hs, if_pos rfl]
        have hold : o.engine.pcs[done]? = .some r.pc := by simp [Engine.pcs, hr]
        have hsame : (o.engine.step (.run done ev now)).pcs = o.engine.pcs := hsame
        rw [hsame, hold] at hnew
        exact hmoves pc' hg (Option.some.inj hnew).symm
  · exact absurd rfl (hlive code)

theorem Closing.rank_le (hc : p.Closing) : rank p ≤ 17 := by
  have hleft : p.observed.engine.left ≤ 13 := by
    rw [Engine.left]
    cases p.observed.engine.runs.getLast? with
    | none => exact Nat.zero_le _
    | some r =>
      simp only [Option.elim_some]
      cases r.pc <;> simp [Pc.left]
  have hmain : mainLeft p.pc ≤ 4 := by
    rcases hc with ⟨pc, hpc⟩ | ⟨code, hpc⟩
    · rw [hpc]
      cases pc <;> simp [mainLeft]
    · simp [hpc, mainLeft]
  rw [rank]
  omega

end

end Process

open Process in
/-- **A shutdown ends**, of a program whose runs were each started with the done
channels of the earlier ones closed. From its first section on, whatever comes in
between (stop requests, refused starts, rounds of the memory tracker): the
goroutines make at most 17 moves, and until the program has exited there is always
one that the main goroutine or the run it waits for can make, without the timer. -/
theorem shutdown_terminates (inv : Invocation) {acts more : List ProcessAct}
    (h : Past.Always (fun pre a => (after inv pre).Orderly a) (acts ++ more))
    (hc : (after inv acts).Closing) :
    (Past.marked (step inv) (after inv acts) (Moves inv) more).length ≤ 17 ∧
      ((∃ code, (after inv (acts ++ more)).pc = .exited code) ∨
        ∀ now, ∃ a, (a = .main ∨ ∃ i ev, a = .engine (.run i ev now)) ∧
          (after inv (acts ++ more)).Orderly a ∧
          Moves inv (after inv (acts ++ more)) a) := by
  have hi := invariant_after (h.of_prefix (List.prefix_append acts more))
  have hmore : Past.Always (fun pre a => (pre.foldl (step inv) (after inv acts)).Orderly a) more := by
    intro pre a post he
    have ha : (after inv (acts ++ pre)).Orderly a :=
      h (acts ++ pre) a post (by rw [he, List.append_assoc])
    rwa [after_append] at ha
  have hkeep : ∀ p a, Invariant p ∧ Closing p → Orderly p a → Invariant (p.step inv a) ∧
      Closing (p.step inv a) :=
    fun p a hp ha => ⟨hp.1.step ha, (rank_step hp.1 hp.2 ha).2⟩
  have hcount := hmore.length_marked_le (M := Moves inv) (r := rank) ⟨hi, hc⟩ hkeep
    fun p a hp ha => (rank_step hp.1 hp.2 ha).1
  have hbound := hc.rank_le
  have hend : Invariant (after inv (acts ++ more)) ∧ Closing (after inv (acts ++ more)) := by
    rw [after_append]
    exact hmore.invariant ⟨hi, hc⟩ hkeep
  refine ⟨by omega, ?_⟩
  by_cases hexit : ∃ code, (after inv (acts ++ more)).pc = .exited code
  · exact .inl hexit
  · exact .inr fun now => closing_moves hend.1 hend.2 now fun code hpc => hexit ⟨code, hpc⟩

/-- It starts no run. -/
def ProcessAct.startsNone : ProcessAct → Bool
  | .launch _ _ | .engine (.start _ _ _) => false
  | _ => true

theorem Process.orderly_of_startsNone {a : ProcessAct} (h : a.startsNone = true) (p : Process) :
    p.Orderly a := by
  cases a with
  | launch randomID now => cases h
  | engine act =>
    cases act with
    | start cfg randomID now => cases h
    | _ => exact ⟨trivial, fun _ => id⟩
  | _ => trivial

open Process in
theorem orderly_launch {inv : Invocation} {randomID : String} {now : Int} {rest : List ProcessAct}
    (h : rest.all ProcessAct.startsNone = true) :
    Past.Always (fun pre a => (after inv pre).Orderly a) (.launch randomID now :: rest) := by
  intro pre a post he
  cases pre with
  | nil =>
    obtain ⟨rfl, -⟩ := List.cons.inj he
    intro _ _ r hr
    cases hr
  | cons b pre =>
    obtain ⟨-, rfl⟩ := List.cons.inj he
    exact orderly_of_startsNone (List.all_eq_true.mp h a (by simp)) _

/-- A signal while the run measures, and the first section of the shutdown. -/
def interrupted : List ProcessAct :=
  [.launch "a" 0, .engine (.run 0 .next 0), .engine (.run 0 .next 0), .engine (.run 0 .next 0),
    .engine (.run 0 .next 0), .engine (.run 0 .next 0), .signal, .main]

/-- The shutdown cancels the run, which leaves its measurement. -/
def cancelled : List ProcessAct := [.main, .engine (.run 0 .next 1)]

set_option maxRecDepth 20000 in
open Process in
theorem shutdown_terminates_interrupted :
    (after defaultRun interrupted).pc = .shuttingDown (.cancelling (.some 0) (.some 0)) ∧
      (after defaultRun (interrupted ++ cancelled)).observed.engine.pcs = [.stopProducers] ∧
      (Past.marked (step defaultRun) (after defaultRun interrupted)
        (Moves defaultRun) cancelled).length ≤ 17 ∧
      ∀ now, ∃ a, (a = .main ∨ ∃ i ev, a = .engine (.run i ev now)) ∧
        (after defaultRun (interrupted ++ cancelled)).Orderly a ∧
        Moves defaultRun (after defaultRun (interrupted ++ cancelled)) a := by
  have hcancelling : (after defaultRun interrupted).pc =
      .shuttingDown (.cancelling (.some 0) (.some 0)) := by
    decide +kernel
  have hwaiting : (after defaultRun (interrupted ++ cancelled)).pc =
      .shuttingDown (.waiting 0) := by decide +kernel
  have horderly : Past.Always (fun pre a => (after defaultRun pre).Orderly a)
      (interrupted ++ cancelled) :=
    orderly_launch (by decide)
  obtain ⟨hcount, hmoves⟩ := shutdown_terminates defaultRun horderly (.inl ⟨_, hcancelling⟩)
  refine ⟨hcancelling, by decide +kernel, hcount, hmoves.resolve_left ?_⟩
  rintro ⟨code, hexit⟩
  cases hwaiting.symm.trans hexit

end Burnin
