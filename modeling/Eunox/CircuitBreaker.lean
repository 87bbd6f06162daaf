import Mathlib.Data.List.Basic
import Mathlib.Tactic

/-! The circuit breaker of `pkg/circuitbreaker`: its three states, the critical
sections that move between them, and the outcome `Do` reports for the call it
guards. Instants and durations count nanoseconds; the zero time is 0. Every
method reads the clock at most once, so the reading is an argument. -/
namespace Eunox.CircuitBreaker

inductive State where
  | closed
  | «open»
  | halfOpen
deriving DecidableEq, Repr

structure Config where
  failureThreshold : ℤ
  cooldownDuration : ℤ
  halfOpenMaxProbes : ℤ
deriving DecidableEq, Repr

def defaultConfig : Config where
  failureThreshold := 5
  cooldownDuration := 30 * 1000000000
  halfOpenMaxProbes := 1

structure Breaker where
  config : Config
  state : State
  consecutiveFails : ℤ
  lastFailureTime : ℤ
  halfOpenProbes : ℤ
  halfOpenSuccess : ℤ
  -- a uint64 in the source, which no breaker lives long enough to wrap
  halfOpenGen : ℕ
  lastTransitionAt : ℤ
  totalFailures : ℤ
  totalSuccesses : ℤ
deriving DecidableEq, Repr

/-- A non-positive field takes its default. -/
def Config.effective (cfg : Config) : Config where
  failureThreshold :=
    if cfg.failureThreshold ≤ 0 then defaultConfig.failureThreshold else cfg.failureThreshold
  cooldownDuration :=
    if cfg.cooldownDuration ≤ 0 then defaultConfig.cooldownDuration else cfg.cooldownDuration
  halfOpenMaxProbes :=
    if cfg.halfOpenMaxProbes ≤ 0 then defaultConfig.halfOpenMaxProbes else cfg.halfOpenMaxProbes

def new (cfg : Config) : Breaker where
  config := cfg.effective
  state := .closed
  consecutiveFails := 0
  lastFailureTime := 0
  halfOpenProbes := 0
  halfOpenSuccess := 0
  halfOpenGen := 0
  lastTransitionAt := 0
  totalFailures := 0
  totalSuccesses := 0

namespace Breaker

section
variable (b : Breaker)

variable (gen : ℕ) (now : ℤ)

/-- The source's `Sub` saturates, which no comparison with a `Duration` sees. -/
def cooledDown : Bool := b.config.cooldownDuration ≤ now - b.lastFailureTime

/-- A new half-open window, whose first probe holds its first slot. -/
def halfOpened : Breaker :=
  { b with
    state := .halfOpen
    halfOpenGen := b.halfOpenGen + 1
    halfOpenProbes := 1
    halfOpenSuccess := 0
    consecutiveFails := 0
    -- the instant the cooldown elapsed, not that of the first probe
    lastTransitionAt := b.lastFailureTime + b.config.cooldownDuration }

@[simp] theorem halfOpened_state : b.halfOpened.state = .halfOpen := rfl

@[simp] theorem halfOpened_halfOpenGen : b.halfOpened.halfOpenGen = b.halfOpenGen + 1 := rfl

@[simp] theorem halfOpened_config : b.halfOpened.config = b.config := rfl

/-- Whether a call is admitted, and the generation it belongs to. -/
def allow : Breaker × Bool × ℕ :=
  match b.state with
  -- a closed breaker stamps its generation but reserves no slot
  | .closed => (b, true, b.halfOpenGen)
  | .open =>
    if b.cooledDown now then
      let b := b.halfOpened
      (b, true, b.halfOpenGen)
    else (b, false, b.halfOpenGen)
  | .halfOpen =>
    if b.halfOpenProbes < b.config.halfOpenMaxProbes then
      ({ b with halfOpenProbes := b.halfOpenProbes + 1 }, true, b.halfOpenGen)
    else (b, false, b.halfOpenGen)

def recordSuccess : Breaker :=
  let b := { b with totalSuccesses := b.totalSuccesses + 1 }
  if b.state = .open then b
  else if gen ≠ b.halfOpenGen then b
  else
    let b := { b with consecutiveFails := 0 }
    if b.state = .halfOpen then
      let b := { b with halfOpenSuccess := b.halfOpenSuccess + 1 }
      if b.config.halfOpenMaxProbes ≤ b.halfOpenSuccess then
        { b with
          state := .closed
          halfOpenProbes := 0
          halfOpenSuccess := 0
          halfOpenGen := b.halfOpenGen + 1
          lastTransitionAt := now }
      else b
    else b

def recordDrop : Breaker :=
  if b.state ≠ .halfOpen ∨ gen ≠ b.halfOpenGen then b
  else if 0 < b.halfOpenProbes then { b with halfOpenProbes := b.halfOpenProbes - 1 }
  else b

def recordFailure : Breaker :=
  let b := { b with totalFailures := b.totalFailures + 1 }
  if b.state = .open then b
  else if gen ≠ b.halfOpenGen then b
  else
    let b := { b with consecutiveFails := b.consecutiveFails + 1, lastFailureTime := now }
    match b.state with
    | .closed =>
      if b.config.failureThreshold ≤ b.consecutiveFails then
        { b with state := .open, lastTransitionAt := now }
      else b
    | .halfOpen =>
      { b with
        state := .open
        halfOpenSuccess := 0
        -- pinned, so a re-trip never reads past the threshold
        consecutiveFails := b.config.failureThreshold
        lastTransitionAt := now }
    | .open => b

/-- The logical state, failure count and last transition an observer is shown. -/
def projectedState : State × ℤ × ℤ :=
  if b.state = .open ∧ b.cooledDown now then
    (.halfOpen, 0, b.lastFailureTime + b.config.cooldownDuration)
  else (b.state, b.consecutiveFails, b.lastTransitionAt)

/-- What an observer is shown is what the next call to ask finds. -/
theorem projectedState_eq_allow : b.projectedState now =
      ((b.allow now).1.state, (b.allow now).1.consecutiveFails, (b.allow now).1.lastTransitionAt) := by
  unfold projectedState allow
  cases at_ : b.state with
  | closed => simp [at_]
  | «open» => by_cases elapsed : b.cooledDown now <;> simp [at_, elapsed, halfOpened]
  | halfOpen => by_cases room : b.halfOpenProbes < b.config.halfOpenMaxProbes <;> simp [at_, room]

end

end Breaker

/-- The one thing an admitted call reports. -/
inductive Outcome where
  | success
  | failure
  | drop
deriving DecidableEq, Repr

/-- The three methods of a probe admitted under this generation. -/
def Outcome.record (o : Outcome) (b : Breaker) (gen : ℕ) (now : ℤ) : Breaker :=
  match o with
  | .success => b.recordSuccess gen now
  | .failure => b.recordFailure gen now
  | .drop => b.recordDrop gen

/-- The throughput totals count every report but a drop. -/
def Outcome.tally (o : Outcome) (b : Breaker) : Breaker :=
  match o with
  | .success => { b with totalSuccesses := b.totalSuccesses + 1 }
  | .failure => { b with totalFailures := b.totalFailures + 1 }
  | .drop => b

/-- A report to an open breaker, or of another generation, is only counted. -/
theorem Outcome.record_ignored (o : Outcome) (now : ℤ) (ignored : b.state = .open ∨ gen ≠ b.halfOpenGen) :
    o.record b gen now = o.tally b := by
  cases o with
  | success =>
    rcases ignored with tripped | stale
    · simp [record, tally, Breaker.recordSuccess, tripped]
    · simp [record, tally, Breaker.recordSuccess, stale]
  | failure =>
    rcases ignored with tripped | stale
    · simp [record, tally, Breaker.recordFailure, tripped]
    · simp [record, tally, Breaker.recordFailure, stale]
  | drop =>
    have slotless : b.state ≠ .halfOpen ∨ gen ≠ b.halfOpenGen := by
      rcases ignored with tripped | stale
      · exact .inl (by simp [tripped])
      · exact .inr stale
    simp [record, tally, Breaker.recordDrop, slotless]

section
variable (o : Outcome) (b : Breaker)

@[simp] theorem Outcome.tally_frame : (o.tally b).config = b.config ∧ (o.tally b).state = b.state ∧
    (o.tally b).halfOpenGen = b.halfOpenGen ∧ (o.tally b).consecutiveFails = b.consecutiveFails ∧
    (o.tally b).halfOpenProbes = b.halfOpenProbes ∧ (o.tally b).halfOpenSuccess = b.halfOpenSuccess := by
  cases o <;> exact ⟨rfl, rfl, rfl, rfl, rfl, rfl⟩

end

variable (b : Breaker) (gen : ℕ) (now : ℤ) in
/-- Everything a report of this generation can do to a breaker. -/
inductive Recorded : Outcome → Breaker → Prop where
  | ignored (o : Outcome) (deaf : b.state = .open ∨ gen ≠ b.halfOpenGen) :
      Recorded o (o.tally b)
  | cleared (at_ : b.state = .closed) (own : gen = b.halfOpenGen) :
      Recorded .success { Outcome.success.tally b with consecutiveFails := 0 }
  | counted (at_ : b.state = .closed) (own : gen = b.halfOpenGen)
      (below : b.consecutiveFails + 1 < b.config.failureThreshold) :
      Recorded .failure { Outcome.failure.tally b with
        consecutiveFails := b.consecutiveFails + 1, lastFailureTime := now }
  | tripped (at_ : b.state = .closed) (own : gen = b.halfOpenGen)
      (reached : b.config.failureThreshold ≤ b.consecutiveFails + 1) :
      Recorded .failure { Outcome.failure.tally b with
        state := .open, consecutiveFails := b.consecutiveFails + 1
        lastFailureTime := now, lastTransitionAt := now }
  | slotless (at_ : b.state = .closed) : Recorded .drop b
  | proving (at_ : b.state = .halfOpen) (own : gen = b.halfOpenGen)
      (below : b.halfOpenSuccess + 1 < b.config.halfOpenMaxProbes) :
      Recorded .success { Outcome.success.tally b with
        consecutiveFails := 0, halfOpenSuccess := b.halfOpenSuccess + 1 }
  | proved (at_ : b.state = .halfOpen) (own : gen = b.halfOpenGen)
      (reached : b.config.halfOpenMaxProbes ≤ b.halfOpenSuccess + 1) :
      Recorded .success { Outcome.success.tally b with
        state := .closed, consecutiveFails := 0, halfOpenProbes := 0, halfOpenSuccess := 0
        halfOpenGen := b.halfOpenGen + 1, lastTransitionAt := now }
  | retripped (at_ : b.state = .halfOpen) (own : gen = b.halfOpenGen) :
      Recorded .failure { Outcome.failure.tally b with
        state := .open, consecutiveFails := b.config.failureThreshold, halfOpenSuccess := 0
        lastFailureTime := now, lastTransitionAt := now }
  | released (at_ : b.state = .halfOpen) (own : gen = b.halfOpenGen)
      (reserved : 0 < b.halfOpenProbes) :
      Recorded .drop { b with halfOpenProbes := b.halfOpenProbes - 1 }
  | unreserved (at_ : b.state = .halfOpen) (own : gen = b.halfOpenGen)
      (idle : b.halfOpenProbes ≤ 0) : Recorded .drop b

theorem Outcome.record_recorded (o : Outcome) (b : Breaker) (gen : ℕ) (now : ℤ) :
    Recorded b gen now o (o.record b gen now) := by
  by_cases deaf : b.state = .open ∨ gen ≠ b.halfOpenGen
  · rw [o.record_ignored now deaf]
    exact .ignored o deaf
  · obtain ⟨live, own⟩ : b.state ≠ .open ∧ gen = b.halfOpenGen := by simpa using deaf
    cases at_ : b.state with
    | «open» => exact absurd at_ live
    | closed =>
      cases o with
      | success => simpa [record, Breaker.recordSuccess, at_, own, tally] using @Recorded.cleared b gen now at_ own
      | failure =>
        by_cases reached : b.config.failureThreshold ≤ b.consecutiveFails + 1
        · simpa [record, Breaker.recordFailure, at_, own, tally, reached] using
            @Recorded.tripped b gen now at_ own reached
        · simpa [record, Breaker.recordFailure, at_, own, tally, reached] using
            @Recorded.counted b gen now at_ own (not_le.mp reached)
      | drop => simpa [record, Breaker.recordDrop, at_] using Recorded.slotless at_
    | halfOpen =>
      cases o with
      | success =>
        by_cases reached : b.config.halfOpenMaxProbes ≤ b.halfOpenSuccess + 1
        · simpa [record, Breaker.recordSuccess, at_, own, tally, reached] using
            @Recorded.proved b gen now at_ own reached
        · simpa [record, Breaker.recordSuccess, at_, own, tally, reached] using
            @Recorded.proving b gen now at_ own (not_le.mp reached)
      | failure =>
        simpa [record, Breaker.recordFailure, at_, own, tally] using @Recorded.retripped b gen now at_ own
      | drop =>
        by_cases reserved : 0 < b.halfOpenProbes
        · simpa [record, Breaker.recordDrop, at_, own, reserved] using @Recorded.released b gen now at_ own reserved
        · simpa [record, Breaker.recordDrop, own, reserved] using
            @Recorded.unreserved b gen now at_ own (not_lt.mp reserved)

inductive ContextError where
  | canceled
  | deadlineExceeded
deriving DecidableEq, Repr

/-- An error of the guarded call, by the one thing `Do` asks of it: whether
`errors.Is` finds `context.Canceled` in its chain. -/
structure CallError where
  wrapsCanceled : Bool
deriving DecidableEq, Repr

/-- How the guarded call came back. -/
inductive Ending where
  | panicked
  | returned (err : Option CallError)
deriving DecidableEq, Repr

/-- Both the call's error and the caller's own context say canceled. -/
def clientCanceled (ctxErr : Option ContextError) (err : CallError) : Bool :=
  err.wrapsCanceled && ctxErr == some .canceled

/-- The outcome `Do` reports for the call it guarded. -/
def reportedOutcome (ctxErr : Option ContextError) : Ending → Outcome
  | .panicked => .failure
  | .returned (some err) => if clientCanceled ctxErr err then .drop else .failure
  | .returned none => .success

/-- What `Do` answers before it runs the call. -/
inductive Admission where
  | contextDone (err : ContextError)
  | errOpen
  | admitted (generation : ℕ)
deriving DecidableEq, Repr

/-- The part of `Do` before the guarded call. -/
def enter (b : Breaker) (ctxErr : Option ContextError) (now : ℤ) : Breaker × Admission :=
  match ctxErr with
  | some err => (b, .contextDone err)
  | none =>
    match b.allow now with
    | (b, true, gen) => (b, .admitted gen)
    | (b, false, _) => (b, .errOpen)

end Eunox.CircuitBreaker
