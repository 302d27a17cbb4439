/-
The durations of the configuration (`parseDuration` and `parseDurations` in
`burnin/config/config.go`).

A duration is an `int64` of nanoseconds. Go's own parser refuses a text that does
not fit; the suffix for days, which it does not know, is multiplied out here and
wraps. `dayExact_iff` says for which numbers of days the result is the duration
that was written.
-/
import Burnin.Engine
import Burnin.Lib.Text
import Burnin.Lib.Words

namespace Burnin

/-- An error: its text, and the error that the text wraps with `%w`, if it wraps
one. -/
inductive Failure where
  | text (m : Message)
  | wrap (m : Message) (err : Failure)
  deriving DecidableEq

/-- The errors of `time.ParseDuration`. -/
def durationFailure (s : String) : Text.DurationError → Failure
  | .invalid => .text ⟨"time: invalid duration %q", [.str s]⟩
  | .missingUnit => .text ⟨"time: missing unit in duration %q", [.str s]⟩
  | .unknownUnit unit => .text ⟨"time: unknown unit %q in duration %q", [.str unit, .str s]⟩

/-- `time.Hour`. -/
def timeHour : Int := 3600 * 10 ^ 9

/-- `parseDuration`. -/
def parseDuration (s : String) : Except Failure Int :=
  if s.toList.getLast? = .some 'd' then
    let s := String.ofList s.toList.dropLast
    match Text.parseInt s with
    | .none => .error (.text ⟨"invalid day duration: %s", [.str s]⟩)
    | .some days => .ok (Words.wrap (Words.wrap (days * 24) * timeHour))
  else
    match Text.parseDuration s with
    | .error err => .error (durationFailure s err)
    | .ok d => .ok d

/-- One field in `parseDurations`: an empty text is passed over, and so is a
text in `skipped`. -/
def parseField (format : String) (skipped : List String) (s : String) (parsed : Int) :
    Except Failure Int :=
  if s = "" ∨ s ∈ skipped then .ok parsed
  else
    match parseDuration s with
    | .error err => .error (.wrap ⟨format, [.str s]⟩ err)
    | .ok d => .ok d

/-- `parseDurations`. -/
def parseDurations (c : Config) : Except Failure Config := do
  let durationParsed ← parseField "invalid duration %q: %w" ["0"] c.duration c.durationParsed
  let warmupDurationParsed ←
    parseField "invalid warmup_duration %q: %w" [] c.warmupDuration c.warmupDurationParsed
  let reportIntervalParsed ←
    parseField "invalid metrics.report_interval %q: %w"
      [] c.metrics.reportInterval c.reportIntervalParsed
  let forcedDisconnInterval ←
    parseField "invalid forced_disconnect.interval %q: %w"
      ["0"] c.forcedDisconnect.interval c.forcedDisconnInterval
  let forcedDisconnDuration ←
    parseField "invalid forced_disconnect.duration %q: %w"
      [] c.forcedDisconnect.duration c.forcedDisconnDuration
  let reconnectInterval ←
    parseField "invalid recovery.reconnect_interval %q: %w"
      [] c.recovery.reconnectInterval c.reconnectInterval
  let reconnectMaxInterval ←
    parseField "invalid recovery.reconnect_max_interval %q: %w" [] c.recovery.reconnectMaxInterval
      c.reconnectMaxInterval
  let maxDurationParsed ←
    parseField "invalid thresholds.max_duration %q: %w" [] c.thresholds.maxDuration c.maxDurationParsed
  return { c with
    durationParsed, warmupDurationParsed, reportIntervalParsed, forcedDisconnInterval,
    forcedDisconnDuration
    reconnectInterval, reconnectMaxInterval, maxDurationParsed }

-- The parsed durations of the defaults are those of their texts.
example : parseDurations defaultConfig = .ok defaultConfig := by decide +kernel

/-! ## Days -/

theorem parseDuration_days {s : String} {n : Int} (h : Text.parseInt s = .some n) :
    parseDuration (s ++ "d") = .ok (Words.wrap (n * (24 * timeHour))) := by
  have hlist : (s ++ "d").toList = s.toList ++ ['d'] := String.toList_append
  rw [parseDuration, hlist, if_pos List.getLast?_concat, List.dropLast_concat, String.ofList_toList]
  simp only [h, Words.wrap_wrap_mul, Int.mul_assoc]

theorem parseField_days (format s : String) (parsed : Int) :
    parseField format ["0"] (s ++ "d") parsed =
      match parseDuration (s ++ "d") with
      | .error err => .error (.wrap ⟨format, [.str (s ++ "d")]⟩ err)
      | .ok d => .ok d := by
  have hlast : (s ++ "d").toList.getLast? = .some 'd' := by
    rw [String.toList_append]
    exact List.getLast?_concat
  have hkept : ¬ (s ++ "d" = "" ∨ s ++ "d" ∈ ["0"]) := by
    rintro (h | h)
    · rw [h] at hlast
      cases hlast
    · rw [List.mem_singleton.mp h] at hlast
      exact absurd hlast (by decide)
  rw [parseField, if_neg hkept]

/-- What `parseDurations` makes of the field `duration`, and that it changes
nothing but the parsed durations. -/
theorem parseDurations_ok {c c' : Config} (h : parseDurations c = .ok c') :
    parseField "invalid duration %q: %w" ["0"] c.duration c.durationParsed = .ok c'.durationParsed ∧
      c' = { c with
        durationParsed := c'.durationParsed
        warmupDurationParsed := c'.warmupDurationParsed
        reportIntervalParsed := c'.reportIntervalParsed
        forcedDisconnInterval := c'.forcedDisconnInterval
        forcedDisconnDuration := c'.forcedDisconnDuration
        reconnectInterval := c'.reconnectInterval
        reconnectMaxInterval := c'.reconnectMaxInterval
        maxDurationParsed := c'.maxDurationParsed } := by
  rw [parseDurations] at h
  obtain ⟨d, hd, h⟩ := Text.bind_eq_ok.mp h
  obtain ⟨_, -, h⟩ := Text.bind_eq_ok.mp h
  obtain ⟨_, -, h⟩ := Text.bind_eq_ok.mp h
  obtain ⟨_, -, h⟩ := Text.bind_eq_ok.mp h
  obtain ⟨_, -, h⟩ := Text.bind_eq_ok.mp h
  obtain ⟨_, -, h⟩ := Text.bind_eq_ok.mp h
  obtain ⟨_, -, h⟩ := Text.bind_eq_ok.mp h
  obtain ⟨_, -, h⟩ := Text.bind_eq_ok.mp h
  cases h
  exact ⟨hd, rfl⟩

/-- **A number of days is exact**: the duration is the one that was written, and
a configuration with a positive one has its run end by the clock. -/
structure DayExact (s : String) (n : Int) : Prop where
  exact : parseDuration (s ++ "d") = .ok (n * 86400 * 10 ^ 9)
  bounded : 0 < n → ∀ c c' : Config, c.duration = s ++ "d" → parseDurations c = .ok c' →
    0 < c'.durationParsed ∧
      ∀ (e : Engine) (i : Nat) (r : Run) (now : Int), r.cfg = c' →
        (e.runLoop i r now .measure .durationReached).isSome = true

/-- **Which numbers of days are exact**: those of up to 292 years. -/
theorem dayExact_iff {s : String} {n : Int} (h : Text.parseInt s = .some n) :
    DayExact s n ↔ -106751 ≤ n ∧ n ≤ 106751 := by
  have hdays := parseDuration_days h
  have hunit : n * (24 * timeHour) = n * 86400 * 10 ^ 9 := by
    simp only [timeHour]
    omega
  rw [hunit] at hdays
  constructor
  · intro hd
    have hwrap : Words.wrap (n * 86400 * 10 ^ 9) = n * 86400 * 10 ^ 9 :=
      Except.ok.inj (hdays.symm.trans hd.exact)
    have hrange := Words.wrap_range (n * 86400 * 10 ^ 9)
    omega
  · intro hn
    have hexact : parseDuration (s ++ "d") = .ok (n * 86400 * 10 ^ 9) := by
      rw [hdays, Words.wrap_of_range (by omega) (by omega)]
    refine ⟨hexact, fun hpos c c' hc hp => ?_⟩
    have hparsed : 0 < c'.durationParsed := by
      have hfield := (parseDurations_ok hp).1
      rw [hc, parseField_days, hexact] at hfield
      have hparsed : n * 86400 * 10 ^ 9 = c'.durationParsed := Except.ok.inj hfield
      omega
    refine ⟨hparsed, fun e i r now hr => ?_⟩
    rw [Engine.runLoop, hr, if_pos hparsed]
    rfl

theorem dayExact_last : Text.parseInt "106751" = .some 106751 ∧ DayExact "106751" 106751 := by
  have h : Text.parseInt "106751" = .some 106751 := by decide +kernel
  exact ⟨h, (dayExact_iff h).mpr (by decide)⟩

/-- One day more: the duration is negative, and the run has no timer. -/
theorem day_wraps :
    Text.parseInt "106752" = .some 106752 ∧ ¬ DayExact "106752" 106752 ∧
      ∃ c, parseDurations { defaultConfig with duration := "106752d" } = .ok c ∧ c.Accepted ∧
        c.durationParsed = 106752 * 86400 * 10 ^ 9 - 2 ^ 64 ∧
        ∀ (e : Engine) (i : Nat) (r : Run) (now : Int), r.cfg = c →
          e.runLoop i r now .measure .durationReached = .none := by
  have hwraps : parseDuration ("106752" ++ "d") = .ok (106752 * 86400 * 10 ^ 9 - 2 ^ 64) := by
    decide +kernel
  refine ⟨by decide +kernel, fun h => ?_, ?_⟩
  · have heq := Except.ok.inj (h.exact.symm.trans hwraps)
    exact absurd heq (by decide)
  · refine ⟨{ defaultConfig with
      duration := "106752d", durationParsed := 106752 * 86400 * 10 ^ 9 - 2 ^ 64 },
      by decide +kernel, by decide +kernel, rfl, fun e i r now hr => ?_⟩
    rw [Engine.runLoop, hr, if_neg (by decide)]

end Burnin
