import Eunox.CircuitBreaker

/-! Interleaved `Do` calls on one breaker. Admission and outcome are separate
critical sections, so the calls of different generations report in any order.
The run keeps what the breaker itself forgets: every call it ever admitted with
the generation and state of its admission, and every outcome in the order it
was reported. -/
namespace Eunox.CircuitBreaker

/-- One admitted call: the generation it was stamped with, the state it was
admitted in, and its outcome once reported. -/
structure Call where
  generation : ℕ
  during : State
  outcome : Option Outcome
deriving DecidableEq, Repr

/-- A breaker in use. -/
structure Usage where
  breaker : Breaker
  calls : List Call
  reports : List (ℕ × Outcome)
deriving DecidableEq, Repr

/-- The two critical sections of a `Do` call, as other calls see them. -/
inductive Event where
  | enter (ctxErr : Option ContextError) (now : ℤ)
  | leave (id : ℕ) (ctxErr : Option ContextError) (ending : Ending) (now : ℤ)
deriving DecidableEq, Repr

/-- The call at this index reports; a call that has reported has returned. -/
def Usage.report (u : Usage) (id : ℕ) (o : Outcome) (now : ℤ) : Usage :=
  match u.calls[id]? with
  | some ⟨gen, during, none⟩ =>
    { breaker := o.record u.breaker gen now
      calls := u.calls.set id ⟨gen, during, some o⟩
      reports := u.reports ++ [(gen, o)] }
  | _ => u

def Usage.step (u : Usage) : Event → Usage
  | .enter ctxErr now =>
    match enter u.breaker ctxErr now with
    | (b, .admitted gen) => { u with breaker := b, calls := u.calls ++ [⟨gen, b.state, none⟩] }
    | (b, _) => { u with breaker := b }
  | .leave id ctxErr ending now => u.report id (reportedOutcome ctxErr ending) now

section
variable (outcomes : List Outcome) (cfg : Config)

def Usage.start : Usage := ⟨new cfg, [], []⟩

def Usage.run (events : List Event) : Usage := events.foldl Usage.step (.start cfg)

/-- The calls of a generation that satisfy a test. -/
def callsOf (g : ℕ) (test : Call → Bool) (calls : List Call) : ℕ :=
  calls.countP fun c => decide (c.generation = g) && test c

def Call.outstanding (c : Call) : Bool := c.outcome.isNone
def Call.ended (o : Outcome) (c : Call) : Bool := c.outcome == some o

/-- A probe of a half-open window that still holds its slot there. -/
def Call.holdsSlot (c : Call) : Bool := c.during == .halfOpen && (c.outstanding || c.ended .success)

/-- The outcomes calls of this generation have reported, in order. -/
def outcomesOf (g : ℕ) (reports : List (ℕ × Outcome)) : List Outcome :=
  (reports.filter fun r => decide (r.1 = g)).map Prod.snd

/-- Failures with no success after them. -/
def streak : ℕ := (outcomes.reverse.takeWhile (· != .success)).count .failure

@[simp] theorem streak_nil : streak [] = 0 := rfl

@[simp] theorem streak_success : streak (outcomes ++ [.success]) = 0 := by
  simp [streak]

@[simp] theorem streak_failure : streak (outcomes ++ [.failure]) = streak outcomes + 1 := by
  simp [streak]

@[simp] theorem streak_drop : streak (outcomes ++ [.drop]) = streak outcomes := by
  simp [streak]

theorem outcomesOf_append_self (g : ℕ) (reports : List (ℕ × Outcome)) (o : Outcome) :
    outcomesOf g (reports ++ [(g, o)]) = outcomesOf g reports ++ [o] := by
  simp [outcomesOf]

theorem outcomesOf_append_other (apart : h ≠ g) (reports : List (ℕ × Outcome)) (o : Outcome) :
    outcomesOf g (reports ++ [(h, o)]) = outcomesOf g reports := by
  simp [outcomesOf, apart]

/-- No report can name a generation that has not been stamped yet. -/
theorem outcomesOf_fresh (below : ∀ r ∈ reports, r.1 < g) : outcomesOf g reports = [] := by
  simp only [outcomesOf, List.map_eq_nil_iff, List.filter_eq_nil_iff]
  intro r mem
  simp [(below r mem).ne]

theorem callsOf_fresh (test : Call → Bool) (below : ∀ c ∈ calls, c.generation < g) : callsOf g test calls = 0 := by
  simp only [callsOf, List.countP_eq_zero]
  intro c mem
  simp [(below c mem).ne]

@[simp] theorem callsOf_append (g : ℕ) (test : Call → Bool) (calls : List Call) (c : Call) :
    callsOf g test (calls ++ [c]) = callsOf g test calls + if c.generation = g ∧ test c then 1 else 0 := by
  by_cases ours : c.generation = g <;> cases hit : test c <;> simp [callsOf, ours, hit]

/-- Replacing one call moves a count by what it is now less what it was. -/
theorem callsOf_set {id : ℕ} (found : calls[id]? = some c)
    (g : ℕ) (test : Call → Bool) (d : Call) (same : d.generation = c.generation) :
    callsOf g test (calls.set id d) + (if c.generation = g ∧ test c then 1 else 0) =
      callsOf g test calls + if c.generation = g ∧ test d then 1 else 0 := by
  induction calls generalizing id with
  | nil => simp at found
  | cons head tail ih =>
    cases id with
    | zero =>
      obtain rfl : head = c := by simpa using found
      by_cases ours : head.generation = g <;> cases was : test head <;> cases is : test d <;>
        simp [callsOf, ours, was, is, same]
    | succ id =>
      have rest := ih (show tail[id]? = some c by simpa using found)
      simp only [callsOf, List.set_cons_succ, List.countP_cons] at rest ⊢
      omega

/-- What one event can do to a breaker in use. -/
inductive Usage.Move (u : Usage) : Usage → Prop where
  | idle : Move u u
  | pass (at_ : u.breaker.state = .closed) :
      Move u { u with calls := u.calls ++ [⟨u.breaker.halfOpenGen, .closed, none⟩] }
  | reopen (at_ : u.breaker.state = .open) :
      Move u { u with
        breaker := u.breaker.halfOpened
        calls := u.calls ++ [⟨u.breaker.halfOpenGen + 1, .halfOpen, none⟩] }
  | probe (at_ : u.breaker.state = .halfOpen)
      (room : u.breaker.halfOpenProbes < u.breaker.config.halfOpenMaxProbes) :
      Move u { u with
        breaker := { u.breaker with halfOpenProbes := u.breaker.halfOpenProbes + 1 }
        calls := u.calls ++ [⟨u.breaker.halfOpenGen, .halfOpen, none⟩] }
  | report (id gen : ℕ) (during : State) (o : Outcome) (now : ℤ)
      (found : u.calls[id]? = some ⟨gen, during, none⟩) :
      Move u
        { breaker := o.record u.breaker gen now
          calls := u.calls.set id ⟨gen, during, some o⟩
          reports := u.reports ++ [(gen, o)] }

theorem Usage.report_move (u : Usage) (id : ℕ) (o : Outcome) (now : ℤ) : u.Move (u.report id o now) := by
  unfold Usage.report
  split
  · rename_i gen during found
    exact .report id gen during o now found
  · exact .idle

theorem Usage.step_move (u : Usage) (e : Event) : u.Move (u.step e) := by
  cases e with
  | leave id ctxErr ending now => exact u.report_move id _ now
  | enter ctxErr now =>
    cases ctxErr with
    | some err => exact .idle
    | none =>
      unfold Usage.step enter Breaker.allow
      cases at_ : u.breaker.state with
      | closed => simpa [at_] using Usage.Move.pass at_
      | «open» =>
        by_cases elapsed : u.breaker.cooledDown now
        · simpa [elapsed] using Usage.Move.reopen at_
        · simpa [elapsed] using Usage.Move.idle
      | halfOpen =>
        by_cases room : u.breaker.halfOpenProbes < u.breaker.config.halfOpenMaxProbes
        · simpa [room, at_] using Usage.Move.probe at_ room
        · simpa [room] using Usage.Move.idle

/-- The counters of a closed breaker, read off what was reported to it. -/
structure Usage.Counting (u : Usage) : Prop where
  fails : u.breaker.consecutiveFails = streak (outcomesOf u.breaker.halfOpenGen u.reports)
  untripped : u.breaker.consecutiveFails < u.breaker.config.failureThreshold

/-- The counters of a half-open breaker, read off the calls it admitted. -/
structure Usage.Probing (u : Usage) : Prop where
  probes : u.breaker.halfOpenProbes = callsOf u.breaker.halfOpenGen Call.holdsSlot u.calls
  room : u.breaker.halfOpenProbes ≤ u.breaker.config.halfOpenMaxProbes
  successes : u.breaker.halfOpenSuccess =
    callsOf u.breaker.halfOpenGen (Call.ended .success) u.calls
  unproved : u.breaker.halfOpenSuccess < u.breaker.config.halfOpenMaxProbes
  unfailed : callsOf u.breaker.halfOpenGen (Call.ended .failure) u.calls = 0
  window : ∀ c ∈ u.calls, c.generation = u.breaker.halfOpenGen → c.during = .halfOpen

/-- What holds of a breaker after any run. -/
structure Usage.Sound (u : Usage) : Prop where
  threshold : 0 < u.breaker.config.failureThreshold
  budget : 0 < u.breaker.config.halfOpenMaxProbes
  stamped : ∀ c ∈ u.calls, c.generation ≤ u.breaker.halfOpenGen
  reported : ∀ r ∈ u.reports, r.1 ≤ u.breaker.halfOpenGen
  slots : ∀ g, (callsOf g Call.holdsSlot u.calls : ℤ) ≤ u.breaker.config.halfOpenMaxProbes
  closed : u.breaker.state = .closed → u.Counting
  halfOpen : u.breaker.state = .halfOpen → u.Probing

theorem Config.effective_pos :
    0 < cfg.effective.failureThreshold ∧ 0 < cfg.effective.halfOpenMaxProbes := by
  constructor
  · simp only [Config.effective, defaultConfig]
    split <;> omega
  · simp only [Config.effective, defaultConfig]
    split <;> omega

theorem Usage.start_sound : (Usage.start cfg).Sound where
  threshold := cfg.effective_pos.1
  budget := cfg.effective_pos.2
  stamped := by simp [Usage.start]
  reported := by simp [Usage.start]
  slots := by
    simpa [Usage.start, callsOf, new] using cfg.effective_pos.2.le
  closed := fun _ => ⟨by simp [Usage.start, new, outcomesOf], cfg.effective_pos.1⟩
  halfOpen := nofun

end

section Report

variable {u : Usage} {id gen : ℕ} {during : State}

section
variable (found : u.calls[id]? = some ⟨gen, during, none⟩) (o : Outcome)
include found

/-- A report never takes a slot: only an admission does. -/
theorem callsOf_holdsSlot_set (g : ℕ) : callsOf g Call.holdsSlot (u.calls.set id ⟨gen, during, some o⟩) ≤
      callsOf g Call.holdsSlot u.calls := by
  have moved := callsOf_set found g Call.holdsSlot ⟨gen, during, some o⟩ rfl
  have kept : Call.holdsSlot ⟨gen, during, some o⟩ → Call.holdsSlot ⟨gen, during, none⟩ := by
    simp only [Call.holdsSlot, Call.outstanding]
    cases during <;> simp
  by_cases now : gen = g ∧ Call.holdsSlot ⟨gen, during, some o⟩
  · have before : gen = g ∧ Call.holdsSlot ⟨gen, during, none⟩ := ⟨now.1, kept now.2⟩
    simp only [if_pos now, if_pos before] at moved
    omega
  · simp only [if_neg now] at moved
    omega

/-- The counts of every other generation stay as they were. -/
theorem callsOf_set_other (apart : gen ≠ g) (test : Call → Bool) :
    callsOf g test (u.calls.set id ⟨gen, during, some o⟩) = callsOf g test u.calls := by
  simpa [apart] using callsOf_set found g test ⟨gen, during, some o⟩ rfl

theorem stamped_set {P : ℕ → State → Prop} (all : ∀ c ∈ u.calls, P c.generation c.during) :
    ∀ c ∈ u.calls.set id ⟨gen, during, some o⟩, P c.generation c.during := by
  intro c mem
  rcases List.mem_or_eq_of_mem_set mem with old | rfl
  · exact all c old
  · exact all ⟨gen, during, none⟩ (List.mem_of_getElem? found)

theorem callsOf_ended_report (p : Outcome) :
    callsOf gen (Call.ended p) (u.calls.set id ⟨gen, during, some o⟩) =
      callsOf gen (Call.ended p) u.calls + if o = p then 1 else 0 := by
  simpa [Call.ended] using callsOf_set found gen (Call.ended p) ⟨gen, during, some o⟩ rfl

end

/-- A probe that reports keeps its slot only by succeeding. -/
theorem callsOf_holdsSlot_report (found : u.calls[id]? = some ⟨gen, during, none⟩) (probe : during = .halfOpen)
    (o : Outcome) : callsOf gen Call.holdsSlot (u.calls.set id ⟨gen, during, some o⟩) +
      (if o = .success then 0 else 1) = callsOf gen Call.holdsSlot u.calls := by
  subst probe
  have moved := callsOf_set found gen Call.holdsSlot ⟨gen, .halfOpen, some o⟩ rfl
  cases o <;> simpa [Call.holdsSlot, Call.outstanding, Call.ended] using moved

/-- A report leaves the configuration alone and never goes back a generation. -/
theorem Recorded.forward (step : Recorded b gen now o c) : c.config = b.config ∧ b.halfOpenGen ≤ c.halfOpenGen := by
  cases step <;> simp

section
variable (s : u.Sound) (found : u.calls[id]? = some ⟨gen, during, none⟩) (step : Recorded u.breaker gen now o b)
include s found step

/-- A closed breaker after a report still counts the failures since its last
success, and a breaker the report closes starts over in its new generation. -/
theorem Usage.Sound.report_counting (closed : b.state = .closed) :
    Usage.Counting ⟨b, u.calls.set id ⟨gen, during, some o⟩, u.reports ++ [(gen, o)]⟩ := by
  cases step with
  | ignored o deaf =>
    have at_ : u.breaker.state = .closed := by simpa using closed
    have stale : gen ≠ u.breaker.halfOpenGen := deaf.resolve_left (by simp [at_])
    obtain ⟨fails, untripped⟩ := s.closed at_
    exact ⟨by simpa [outcomesOf_append_other stale] using fails, by simpa using untripped⟩
  | cleared at_ own =>
    subst own
    exact ⟨by simp [outcomesOf_append_self], by simpa using s.threshold⟩
  | counted at_ own below =>
    subst own
    have fails := (s.closed at_).fails
    exact ⟨by simp [outcomesOf_append_self, fails], by simpa using below⟩
  | slotless at_ =>
    obtain ⟨fails, untripped⟩ := s.closed at_
    refine ⟨?_, untripped⟩
    by_cases own : gen = u.breaker.halfOpenGen
    · subst own
      simpa [outcomesOf_append_self] using fails
    · simpa [outcomesOf_append_other own] using fails
  | proved at_ own reached =>
    have fresh : ∀ r ∈ u.reports ++ [(gen, Outcome.success)], r.1 < u.breaker.halfOpenGen + 1 :=
      List.forall_mem_append.mpr ⟨fun r old => Nat.lt_succ_of_le (s.reported r old), by simp [own]⟩
    exact ⟨by simp [outcomesOf_fresh fresh], by simpa using s.threshold⟩
  | tripped => simp at closed
  | proving at_ => simp [at_] at closed
  | retripped => simp at closed
  | released at_ | unreserved at_ => simp [at_] at closed

/-- A breaker still half-open after a report of its own window has had no
failure there, and moved only the count of that report's kind. -/
theorem Usage.Sound.report_probing (halfOpen : b.state = .halfOpen) :
    Usage.Probing ⟨b, u.calls.set id ⟨gen, during, some o⟩, u.reports ++ [(gen, o)]⟩ := by
  have inWindow : u.breaker.state = .halfOpen → ∀ c ∈ u.calls.set id ⟨gen, during, some o⟩,
      c.generation = u.breaker.halfOpenGen → c.during = .halfOpen := fun at_ =>
    stamped_set (P := fun g d => g = u.breaker.halfOpenGen → d = .halfOpen) found o (s.halfOpen at_).window
  have report (at_ : u.breaker.state = .halfOpen) (own : gen = u.breaker.halfOpenGen) :=
    callsOf_holdsSlot_report found ((s.halfOpen at_).window _ (List.mem_of_getElem? found) own) o
  have won := callsOf_ended_report found o .success
  have lost := callsOf_ended_report found o .failure
  cases step with
  | ignored o deaf =>
    have at_ : u.breaker.state = .halfOpen := by simpa using halfOpen
    have stale : gen ≠ u.breaker.halfOpenGen := deaf.resolve_left (by simp [at_])
    obtain ⟨probes, room, successes, unproved, unfailed, window⟩ := s.halfOpen at_
    constructor
    · simpa [callsOf_set_other found o stale] using probes
    · simpa using room
    · simpa [callsOf_set_other found o stale] using successes
    · simpa using unproved
    · simpa [callsOf_set_other found o stale] using unfailed
    · simpa using inWindow at_
  | proving at_ own below =>
    obtain ⟨probes, room, successes, unproved, unfailed, -⟩ := s.halfOpen at_
    have held := report at_ own
    subst own
    constructor
    · simpa [← held] using probes
    · simpa using room
    · simpa [won] using successes
    · simpa using below
    · simpa [lost] using unfailed
    · simpa using inWindow at_
  | released at_ own reserved =>
    obtain ⟨probes, room, successes, unproved, unfailed, -⟩ := s.halfOpen at_
    have held := report at_ own
    subst own
    constructor
    · simp only [reduceCtorEq, if_false] at held
      simp only [probes, ← held]
      push_cast
      omega
    · simp only
      omega
    · simpa [won] using successes
    · exact unproved
    · simpa [lost] using unfailed
    · exact inWindow at_
  | unreserved at_ own empty =>
    -- the reporting probe itself holds a slot
    have probes := (s.halfOpen at_).probes
    have held := report at_ own
    subst own
    simp only [reduceCtorEq, if_false] at held
    omega
  | slotless at_ | cleared at_ | counted at_ => simp [at_] at halfOpen
  | tripped | proved | retripped => simp at halfOpen

theorem Usage.Sound.report :
    Usage.Sound ⟨b, u.calls.set id ⟨gen, during, some o⟩, u.reports ++ [(gen, o)]⟩ := by
  obtain ⟨config, forward⟩ := step.forward
  have stamp : gen ≤ u.breaker.halfOpenGen := s.stamped ⟨gen, during, none⟩ (List.mem_of_getElem? found)
  constructor
  · simpa [config] using s.threshold
  · simpa [config] using s.budget
  · exact stamped_set (P := fun g _ => g ≤ b.halfOpenGen) found o fun c mem => (s.stamped c mem).trans forward
  · exact List.forall_mem_append.mpr ⟨fun r old => (s.reported r old).trans forward,
      List.forall_mem_singleton.mpr (stamp.trans forward)⟩
  · intro g
    have shrunk := callsOf_holdsSlot_set found o g
    have bound := s.slots g
    simp only [config]
    omega
  · exact s.report_counting found step
  · exact s.report_probing found step

end

end Report

/-- Admitting one more call in the generation now current. -/
theorem stamped_append {calls : List Call} (stamped : ∀ c ∈ calls, c.generation ≤ g)
    (forward : g ≤ h) (d : State) : ∀ c ∈ calls ++ [⟨h, d, none⟩], c.generation ≤ h :=
  List.forall_mem_append.mpr ⟨fun c old => (stamped c old).trans forward, List.forall_mem_singleton.mpr le_rfl⟩

theorem Usage.Sound.move {u v : Usage} (s : u.Sound) (step : u.Move v) : v.Sound := by
  cases step with
  | idle => exact s
  | report id gen during o now found => exact s.report found (o.record_recorded _ _ _)
  | pass at_ =>
    refine { s with
      stamped := stamped_append s.stamped le_rfl _
      slots := fun g => by simpa [Call.holdsSlot] using s.slots g
      closed := fun c => ⟨(s.closed c).fails, (s.closed c).untripped⟩
      halfOpen := fun h => ?_ }
    simp [at_] at h
  | reopen at_ =>
    have below : ∀ c ∈ u.calls, c.generation < u.breaker.halfOpenGen + 1 := fun c mem =>
      Nat.lt_succ_of_le (s.stamped c mem)
    constructor
    · exact s.threshold
    · exact s.budget
    · exact stamped_append s.stamped (Nat.le_succ _) _
    · exact fun r mem => (s.reported r mem).trans (Nat.le_succ _)
    · intro g
      have bound := s.slots g
      have budget := s.budget
      by_cases fresh : u.breaker.halfOpenGen + 1 = g
      · subst fresh
        simp [callsOf_fresh _ below, Call.holdsSlot, Call.outstanding]
        omega
      · simpa [fresh] using bound
    · simp
    · intro _
      have budget := s.budget
      constructor
      · simp [callsOf_fresh _ below, Call.holdsSlot, Call.outstanding, Breaker.halfOpened]
      · simp only [Breaker.halfOpened]
        omega
      · simp [callsOf_fresh _ below, Call.ended, Breaker.halfOpened]
      · simpa [Breaker.halfOpened] using budget
      · simp [callsOf_fresh _ below, Call.ended]
      · exact List.forall_mem_append.mpr ⟨fun c old own => absurd own (below c old).ne, by simp⟩
  | probe at_ room =>
    obtain ⟨probes, _, successes, unproved, unfailed, window⟩ := s.halfOpen at_
    constructor
    · exact s.threshold
    · exact s.budget
    · exact stamped_append s.stamped le_rfl _
    · exact s.reported
    · intro g
      have bound := s.slots g
      by_cases own : u.breaker.halfOpenGen = g
      · subst own
        simp [Call.holdsSlot, Call.outstanding]
        omega
      · simpa [own] using bound
    · simp [at_]
    · intro _
      constructor
      · simp [Call.holdsSlot, Call.outstanding, probes]
      · simpa using room
      · simpa [Call.ended] using successes
      · exact unproved
      · simpa [Call.ended] using unfailed
      · exact List.forall_mem_append.mpr ⟨window, by simp⟩

theorem Usage.Sound.run {u : Usage} (s : u.Sound) (events : List Event) : (events.foldl Usage.step u).Sound := by
  induction events generalizing u with
  | nil => exact s
  | cons e rest ih => exact ih (s.move (u.step_move e))

theorem Usage.run_sound (cfg : Config) (events : List Event) : (Usage.run cfg events).Sound :=
  (Usage.start_sound cfg).run events

theorem Usage.Move.config {u v : Usage} (step : u.Move v) : v.breaker.config = u.breaker.config := by
  cases step with
  | report id gen during o now found => exact (o.record_recorded u.breaker gen now).forward.1
  | _ => rfl

theorem Usage.run_config (cfg : Config) (events : List Event) :
    (Usage.run cfg events).breaker.config = cfg.effective := by
  unfold Usage.run
  induction events using List.reverseRecOn with
  | nil => rfl
  | append_singleton before e ih =>
    rw [List.foldl_append]
    exact (Usage.step_move _ e).config.trans ih

/-- A closed breaker opens on the failure that completes the streak. -/
theorem Usage.Sound.trips {u v : Usage} (s : u.Sound) (closed : u.breaker.state = .closed)
    (step : u.Move v) : v.breaker.state = .open ↔ (streak (outcomesOf u.breaker.halfOpenGen v.reports) : ℤ) =
        u.breaker.config.failureThreshold := by
  obtain ⟨fails, untripped⟩ := s.closed closed
  have quiet : (streak (outcomesOf u.breaker.halfOpenGen u.reports) : ℤ) ≠
      u.breaker.config.failureThreshold := by omega
  cases step with
  | idle | pass => simp [closed, quiet]
  | reopen at_ | probe at_ => simp [closed] at at_
  | report id gen during o now found =>
    by_cases own : gen = u.breaker.halfOpenGen
    · subst own
      simp only [outcomesOf_append_self]
      have threshold := s.threshold
      cases o with
      | success => simp [Outcome.record, Breaker.recordSuccess, closed, threshold.ne]
      | failure =>
        simp only [Outcome.record, Breaker.recordFailure, closed, streak_failure]
        by_cases reached : u.breaker.config.failureThreshold ≤ u.breaker.consecutiveFails + 1
        · simp [reached]
          omega
        · simp [reached]
          omega
      | drop => simp [Outcome.record, Breaker.recordDrop, closed, quiet]
    · rw [o.record_ignored now (.inr own), outcomesOf_append_other own]
      simp [closed, quiet]

/-- A half-open breaker closes on the success that completes its window's
count, and opens again on the window's first failure. -/
theorem Usage.Sound.settles {u v : Usage} (s : u.Sound) (halfOpen : u.breaker.state = .halfOpen)
    (step : u.Move v) : (v.breaker.state = .closed ↔
      (callsOf u.breaker.halfOpenGen (Call.ended .success) v.calls : ℤ) =
        u.breaker.config.halfOpenMaxProbes) ∧ (v.breaker.state = .open ↔
      0 < callsOf u.breaker.halfOpenGen (Call.ended .failure) v.calls) := by
  obtain ⟨_, _, successes, unproved, unfailed, _⟩ := s.halfOpen halfOpen
  have quiet : (callsOf u.breaker.halfOpenGen (Call.ended .success) u.calls : ℤ) ≠
      u.breaker.config.halfOpenMaxProbes := by omega
  cases step with
  | idle => simp [halfOpen, quiet, unfailed]
  | pass at_ | reopen at_ => simp [halfOpen] at at_
  | probe => simp [halfOpen, quiet, unfailed, Call.ended]
  | report id gen during o now found =>
    by_cases own : gen = u.breaker.halfOpenGen
    · subst own
      simp only [callsOf_ended_report found, unfailed]
      cases o with
      | success =>
        simp only [Outcome.record, Breaker.recordSuccess, halfOpen]
        by_cases reached : u.breaker.config.halfOpenMaxProbes ≤ u.breaker.halfOpenSuccess + 1
        · simp [reached]
          omega
        · simp [reached]
          omega
      | failure => simp [Outcome.record, Breaker.recordFailure, halfOpen, quiet]
      | drop =>
        by_cases reserved : 0 < u.breaker.halfOpenProbes <;>
          simp [Outcome.record, Breaker.recordDrop, halfOpen, quiet, reserved]
    · rw [o.record_ignored now (.inr own)]
      simp [callsOf_set_other found o own, halfOpen, quiet, unfailed]

/-- The breaker without its observability totals, which nothing else reads. -/
def Breaker.machine (b : Breaker) : Breaker := { b with totalFailures := 0, totalSuccesses := 0 }

theorem Outcome.tally_machine (o : Outcome) (b : Breaker) : (o.tally b).machine = b.machine := by
  cases o <;> rfl

theorem Usage.report_stale {u : Usage} {id : ℕ} (found : u.calls[id]? = some c)
    (earlier : c.generation < u.breaker.halfOpenGen) (o : Outcome) (now : ℤ) :
    (u.report id o now).breaker.machine = u.breaker.machine := by
  obtain ⟨gen, during, outcome⟩ := c
  cases outcome with
  | some _ => simp [Usage.report, found]
  | none =>
    have stale : gen ≠ u.breaker.halfOpenGen := Nat.ne_of_lt earlier
    simp only [Usage.report, found]
    rw [o.record_ignored now (.inr stale), o.tally_machine]

/-- Each slot of a window without outstanding calls is held by a success. -/
theorem callsOf_holdsSlot_idle (idle : callsOf g Call.outstanding calls = 0) :
    callsOf g Call.holdsSlot calls ≤ callsOf g (Call.ended .success) calls := by
  simp only [callsOf, List.countP_eq_zero] at idle
  apply List.countP_mono_left
  intro c mem held
  have settled := idle c mem
  simp only [Call.holdsSlot, Bool.and_eq_true, Bool.or_eq_true, decide_eq_true_eq] at held settled ⊢
  refine ⟨held.1, held.2.2.resolve_left fun waiting => settled ⟨held.1, waiting⟩⟩

/-- With nothing outstanding the window has a slot left for another probe. -/
theorem Usage.Sound.admits {u : Usage} (s : u.Sound) (halfOpen : u.breaker.state = .halfOpen)
    (idle : callsOf u.breaker.halfOpenGen Call.outstanding u.calls = 0) (now : ℤ) :
    enter u.breaker none now = ({ u.breaker with halfOpenProbes := u.breaker.halfOpenProbes + 1 },
      .admitted u.breaker.halfOpenGen) := by
  obtain ⟨probes, _, successes, unproved, _, _⟩ := s.halfOpen halfOpen
  have held := callsOf_holdsSlot_idle idle
  have room : u.breaker.halfOpenProbes < u.breaker.config.halfOpenMaxProbes := by omega
  simp [enter, Breaker.allow, halfOpen, room]

/-- The state machine over every interleaving of `Do` calls. A closed breaker
opens exactly on the failure that makes a threshold of them, among the calls of
its generation, with no success between. A half-open one closes only once its
window has the full count of successes and no failure, and any failure of the
window opens it. A call of an earlier generation changes nothing. No window
ever has more probes outstanding or succeeded than its budget, and one with
none outstanding admits the next call. -/
theorem breaker_state_machine (cfg : Config) (threshold : 0 < cfg.failureThreshold)
    (budget : 0 < cfg.halfOpenMaxProbes) (events : List Event) :
    let u := Usage.run cfg events
    let g := u.breaker.halfOpenGen
    (u.breaker.state = .closed → ∀ e, ((u.step e).breaker.state = .open ↔
        (streak (outcomesOf g (u.step e).reports) : ℤ) = cfg.failureThreshold)) ∧
    (u.breaker.state = .halfOpen → ∀ e, ((u.step e).breaker.state = .closed →
        (callsOf g (Call.ended .success) (u.step e).calls : ℤ) = cfg.halfOpenMaxProbes ∧
        callsOf g (Call.ended .failure) (u.step e).calls = 0) ∧
      (0 < callsOf g (Call.ended .failure) (u.step e).calls → (u.step e).breaker.state = .open)) ∧
    (∀ (id : ℕ) (c : Call), u.calls[id]? = some c → c.generation < g → ∀ ctxErr ending now,
        (u.step (.leave id ctxErr ending now)).breaker.machine = u.breaker.machine) ∧
    (∀ window, (callsOf window Call.holdsSlot u.calls : ℤ) ≤ cfg.halfOpenMaxProbes) ∧
    (u.breaker.state = .halfOpen → callsOf g Call.outstanding u.calls = 0 →
      ∀ now, (enter u.breaker none now).2 = .admitted g) := by
  intro u g
  have sound : u.Sound := Usage.run_sound cfg events
  have config : u.breaker.config = cfg.effective := Usage.run_config cfg events
  have failures : u.breaker.config.failureThreshold = cfg.failureThreshold := by
    simp [config, Config.effective, not_le.mpr threshold]
  have probes : u.breaker.config.halfOpenMaxProbes = cfg.halfOpenMaxProbes := by
    simp [config, Config.effective, not_le.mpr budget]
  refine ⟨?_, ?_, ?_, ?_, ?_⟩
  · intro closed e
    rw [← failures]
    exact sound.trips closed (u.step_move e)
  · intro halfOpen e
    obtain ⟨closes, opens⟩ := sound.settles halfOpen (u.step_move e)
    refine ⟨fun closed => ⟨probes ▸ closes.mp closed, ?_⟩, opens.mpr⟩
    by_contra failed
    have tripped := opens.mpr (Nat.pos_of_ne_zero failed)
    simp [closed] at tripped
  · intro id c found earlier ctxErr ending now
    exact Usage.report_stale found earlier _ now
  · intro window
    exact probes ▸ sound.slots window
  · intro halfOpen idle now
    rw [sound.admits halfOpen idle now]

/-- Three calls admitted while closed, two of which fail and trip the breaker
before the third reports into the half-open window a later call has opened. -/
def tripAndProbe : List Event :=
  [.enter none 0, .enter none 1, .enter none 2,
   .leave 0 none .panicked 3, .leave 1 none (.returned (some ⟨false⟩)) 4,
   .enter none 20, .leave 2 none (.returned (some ⟨false⟩)) 21,
   .leave 3 none (.returned none) 22]

theorem breaker_state_machine_probing : (Usage.run ⟨2, 10, 2⟩ tripAndProbe).breaker.state = .halfOpen ∧
    (∀ now, (enter (Usage.run ⟨2, 10, 2⟩ tripAndProbe).breaker none now).2 = .admitted 1) := by
  have law := breaker_state_machine ⟨2, 10, 2⟩ (by decide) (by decide) tripAndProbe
  exact ⟨by decide, law.2.2.2.2 (by decide) (by decide)⟩

end Eunox.CircuitBreaker
