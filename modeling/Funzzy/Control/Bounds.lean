import Funzzy.Lib.Times
import Funzzy.Config.Readers
import Funzzy.Control.Protocol

/-! The bound of an await, from the command line to both ends of the socket (`parse_duration` and
    `finish_await` in `cli/control.rs`, `await_generation` in `control_client.rs` and `awaiting.rs`,
    `await_params` in `control.rs`).

    The bound is parsed and scaled with a check for overflow, and travels in milliseconds. The client adds a
    margin to it for its own read, without such a check. -/

namespace Funzzy

open Times (Duration Instant)

namespace ControlCommand

/-- Parses a CLI duration bound: `<number>` (seconds), or `<number>ms`/`s`/`m`. -/
def parseDuration (input : String) : Except String Duration :=
  let input := trim input.toList
  let shown := String.ofList input
  let (digits, multiplier) := durationUnit input
  match parseU64 (trim digits) with
  | none => .error ("invalid duration '" ++ shown
      ++ "': expected <number> with optional ms/s/m suffix (bare number = seconds)")
  | some 0 => .error ("invalid duration '" ++ shown ++ "': must be positive")
  | some value =>
    if value * multiplier < 2 ^ 64 then .ok (.fromMillis (.ofNat (value * multiplier)))
    else .error ("invalid duration '" ++ shown ++ "': bound is too large")

/-- `timeout.as_millis() as u64` in `finish_await` -/
def timeoutMs (timeout : Duration) : UInt64 := .ofNat timeout.asMillis

end ControlCommand

namespace ControlClient

def awaitReadMarginMs : UInt64 := 2000

inductive AwaitMode where
  | after (generation : UInt64)
  | exact (generation : UInt64)
  deriving DecidableEq

open Control (Json)

/-- The request that `await_generation` sends. -/
def awaitRequest (id : UInt64) (mode : AwaitMode) (timeoutMs : UInt64) : Json :=
  let number (n : UInt64) : Json := .number (.int n.toNat)
  let field := match mode with
    | .after generation => ("after", number generation)
    | .exact generation => ("generation", number generation)
  .object [("jsonrpc", .string "2.0"), ("id", number id), ("method", .string "await"),
    ("params", .object [field, ("timeoutMs", number timeoutMs)])]

/-- `timeout_ms + AWAIT_READ_MARGIN_MS` as the read bound. Where the sum overflows a build with overflow
    checks panics, and one without goes on with what is left of it. -/
def readBound (overflowChecks : Bool) (timeoutMs : UInt64) : Option Duration :=
  if timeoutMs.toNat + awaitReadMarginMs.toNat < 2 ^ 64 then some (.fromMillis (timeoutMs + awaitReadMarginMs))
  else if overflowChecks then none
  else some (.fromMillis (timeoutMs + awaitReadMarginMs))

end ControlClient

namespace Control

/-- `params.timeout` in `handle_await` -/
def AwaitParams.timeout : AwaitParams → Duration
  | .after _ timeoutMs | .exact _ timeoutMs => .fromMillis (.ofNat timeoutMs)

/-- `Instant::now() + timeout` in the coordinator's `await_generation`, which panics on overflow. -/
def awaitDeadline (now : Instant) (timeout : Duration) : Option Instant := now.checkedAdd timeout

end Control

/-- An await of `timeout` goes through: nothing overflows, and the client waits longer for its answer than the
    server takes at most. -/
def Outlasts (overflowChecks : Bool) (timeout : Duration) (id : UInt64) (mode : ControlClient.AwaitMode)
    (now : Instant) : Prop :=
  ∃ params deadline read,
    Control.awaitParams (ControlClient.awaitRequest id mode (ControlCommand.timeoutMs timeout)) = .ok params ∧
    Control.awaitDeadline now params.timeout = some deadline ∧
    ControlClient.readBound overflowChecks (ControlCommand.timeoutMs timeout) = some read ∧
    params.timeout < read

/-! ### What the client asks for -/

/-- The milliseconds that a bound stands for. -/
def spelledMillis (input : String) : Nat :=
  (parseU64 (trim (durationUnit (trim input.toList)).1)).getD 0 * (durationUnit (trim input.toList)).2

theorem durationUnit_pos (raw : List Char) : 0 < (durationUnit raw).2 := by
  unfold durationUnit
  split
  · exact Nat.succ_pos _
  · split
    · exact Nat.succ_pos _
    · split <;> exact Nat.succ_pos _

theorem parseDuration_ok {input : String} {timeout : Duration} (h : ControlCommand.parseDuration input = .ok timeout) :
    0 < spelledMillis input ∧ spelledMillis input < 2 ^ 64 ∧
      timeout = .fromMillis (.ofNat (spelledMillis input)) := by
  have hunit := durationUnit_pos (trim input.toList)
  rw [ControlCommand.parseDuration] at h
  rw [spelledMillis]
  dsimp only at h
  split at h
  · cases h
  · cases h
  · next value hzero hvalue =>
    split at h
    · next hbound =>
      rw [hvalue, Option.getD_some]
      exact ⟨Nat.mul_pos (Nat.pos_of_ne_zero hzero) hunit, hbound, (Except.ok.inj h).symm⟩
    · cases h

theorem timeoutMs_fromMillis (millis : UInt64) : ControlCommand.timeoutMs (.fromMillis millis) = millis := by
  rw [ControlCommand.timeoutMs, Duration.asMillis_fromMillis, UInt64.ofNat_toNat]

/-! ### What the server makes of it -/

open Control (Json) in
theorem asU64_number (n : UInt64) : Json.asU64 (.number (.int n.toNat)) = some n.toNat := by
  have hn := n.toNat_lt
  rw [Json.asU64, if_pos (by omega)]
  rfl

open Control (Json) in
theorem awaitParams_after {request params : Json} {generation timeout : Nat}
    (hparams : (request.get "params").filter Json.isObject = some params)
    (hafter : (params.get "after").bind Json.asU64 = some generation)
    (hgeneration : (params.get "generation").bind Json.asU64 = none)
    (htimeout : (params.get "timeoutMs").bind Json.asU64 = some timeout) (hpos : 0 < timeout) :
    Control.awaitParams request = .ok (.after generation timeout) := by
  have hpositive : (some timeout).filter (0 < ·) = some timeout := by simp [Option.filter, hpos]
  simp only [Control.awaitParams, hparams, Option.bind_some, hafter, hgeneration, htimeout, hpositive]

open Control (Json) in
theorem awaitParams_exact {request params : Json} {generation timeout : Nat}
    (hparams : (request.get "params").filter Json.isObject = some params)
    (hafter : (params.get "after").bind Json.asU64 = none)
    (hgeneration : (params.get "generation").bind Json.asU64 = some generation)
    (htimeout : (params.get "timeoutMs").bind Json.asU64 = some timeout) (hpos : 0 < timeout) :
    Control.awaitParams request = .ok (.exact generation timeout) := by
  have hpositive : (some timeout).filter (0 < ·) = some timeout := by simp [Option.filter, hpos]
  simp only [Control.awaitParams, hparams, Option.bind_some, hafter, hgeneration, htimeout, hpositive]

/-- The server waits as long as it is asked to. -/
theorem awaitParams_awaitRequest (id : UInt64) (mode : ControlClient.AwaitMode) {millis : UInt64} (h : 0 < millis.toNat) :
    ∃ params, Control.awaitParams (ControlClient.awaitRequest id mode millis) = .ok params ∧
      params.timeout = .fromMillis millis := by
  cases mode with
  | after generation =>
    let params : Control.Json := .object
      [("after", .number (.int generation.toNat)), ("timeoutMs", .number (.int millis.toNat))]
    have hafter : params.get "after" = some (.number (.int generation.toNat)) := rfl
    have htimeout : params.get "timeoutMs" = some (.number (.int millis.toNat)) := rfl
    refine ⟨.after generation.toNat millis.toNat, @awaitParams_after _ params _ _ rfl ?_ rfl ?_ h, ?_⟩
    · rw [hafter, Option.bind_some, asU64_number]
    · rw [htimeout, Option.bind_some, asU64_number]
    · rw [Control.AwaitParams.timeout, UInt64.ofNat_toNat]
  | exact generation =>
    let params : Control.Json := .object
      [("generation", .number (.int generation.toNat)), ("timeoutMs", .number (.int millis.toNat))]
    have hgeneration : params.get "generation" = some (.number (.int generation.toNat)) := rfl
    have htimeout : params.get "timeoutMs" = some (.number (.int millis.toNat)) := rfl
    refine ⟨.exact generation.toNat millis.toNat, @awaitParams_exact _ params _ _ rfl rfl ?_ ?_ h, ?_⟩
    · rw [hgeneration, Option.bind_some, asU64_number]
    · rw [htimeout, Option.bind_some, asU64_number]
    · rw [Control.AwaitParams.timeout, UInt64.ofNat_toNat]

/-! ### The read bound -/

theorem toNat_margin : ControlClient.awaitReadMarginMs.toNat = 2000 := rfl

theorem readBound_of_fits (overflowChecks : Bool) {millis : UInt64} (h : millis.toNat + 2000 < 2 ^ 64) :
    ControlClient.readBound overflowChecks millis = some (.fromMillis (millis + ControlClient.awaitReadMarginMs)) ∧
      millis < millis + ControlClient.awaitReadMarginMs := by
  refine ⟨if_pos h, ?_⟩
  rw [UInt64.lt_iff_toNat_lt, UInt64.toNat_add, toNat_margin]
  omega

/-- Whatever is left of a sum that overflows is less than the summand. -/
theorem not_lt_of_overflow (overflowChecks : Bool) {millis : UInt64} (h : ¬millis.toNat + 2000 < 2 ^ 64) {read : Duration}
    (hread : ControlClient.readBound overflowChecks millis = some read) : ¬Duration.fromMillis millis < read := by
  rw [ControlClient.readBound, toNat_margin, if_neg h] at hread
  split at hread
  · cases hread
  · have hmillis := millis.toNat_lt
    rw [← Option.some.inj hread, Duration.fromMillis_lt_iff, UInt64.lt_iff_toNat_lt, UInt64.toNat_add, toNat_margin]
    omega

/-- The client outlasts the server if the margin still fits behind the bound, and the clock can tell the
    deadline. -/
theorem outlasts_iff {input : String} {timeout : Duration} (h : ControlCommand.parseDuration input = .ok timeout)
    (overflowChecks : Bool) (id : UInt64) (mode : ControlClient.AwaitMode) (now : Instant) :
    Outlasts overflowChecks timeout id mode now ↔
      spelledMillis input + 2000 < 2 ^ 64 ∧
      now.toNanos + spelledMillis input * 1000000 < 2 ^ 63 * Times.second := by
  obtain ⟨hpos, hlt, rfl⟩ := parseDuration_ok h
  have hmillis : (UInt64.ofNat (spelledMillis input)).toNat = spelledMillis input := UInt64.toNat_ofNat_of_lt' hlt
  obtain ⟨params, hparams, htimeout⟩ := awaitParams_awaitRequest id mode (hmillis.symm ▸ hpos)
  rw [Outlasts, timeoutMs_fromMillis]
  constructor
  · rintro ⟨params', deadline, read, hparams', hdeadline, hread, hlonger⟩
    obtain rfl : params = params' := Except.ok.inj (hparams.symm.trans hparams')
    rw [htimeout] at hdeadline hlonger
    constructor
    · by_contra hfits
      exact not_lt_of_overflow overflowChecks (by rwa [hmillis]) hread hlonger
    · have hsome := Instant.checkedAdd_isSome_iff.mp (Option.isSome_of_eq_some hdeadline)
      rw [Duration.toNanos_fromMillis, hmillis] at hsome
      omega
  · rintro ⟨hfits, hclock⟩
    obtain ⟨hread, hlonger⟩ := readBound_of_fits overflowChecks (hmillis.symm ▸ hfits)
    have hsome : (now.checkedAdd (.fromMillis (.ofNat (spelledMillis input)))).isSome := by
      rw [Instant.checkedAdd_isSome_iff, Duration.toNanos_fromMillis, hmillis]
      omega
    obtain ⟨deadline, hdeadline⟩ := Option.isSome_iff_exists.mp hsome
    refine ⟨params, deadline, _, hparams, ?_, hread, ?_⟩
    · rw [htimeout]
      exact hdeadline
    · rw [htimeout, Duration.fromMillis_lt_iff]
      exact hlonger

/-- Five minutes, on a clock that has just started. -/
theorem outlasts_five_minutes :
    Outlasts true (.fromMillis 300000) 1 (.after 0) ⟨0, 0, by decide, by decide, by decide⟩ :=
  (@outlasts_iff "5m" _ (by decide +kernel) true 1 (.after 0) ⟨0, 0, by decide, by decide, by decide⟩).mpr
    (by decide +kernel)

/-- The longest bound: the sum panics, or leaves less than two seconds for the read. -/
theorem margin_overflows :
    ControlCommand.parseDuration "18446744073709551615ms" = .ok (.fromMillis 18446744073709551615) ∧
      ControlClient.readBound true 18446744073709551615 = none ∧
      ControlClient.readBound false 18446744073709551615 = some (.fromMillis 1999) ∧
      ¬Outlasts true (.fromMillis 18446744073709551615) 1 (.after 0) ⟨0, 0, by decide, by decide, by decide⟩ := by
  refine ⟨by decide +kernel, by decide +kernel, by decide +kernel, ?_⟩
  rintro ⟨params, deadline, read, -, -, hread, -⟩
  rw [timeoutMs_fromMillis] at hread
  exact Option.some_ne_none read (hread.symm.trans (by decide +kernel))

end Funzzy
