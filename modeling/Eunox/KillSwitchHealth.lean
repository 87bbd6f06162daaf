import Eunox.KillSwitchRefresh

/-! When a manager in fail-closed mode may answer "not killed". The three
readers agree: exactly when it was started, has no wiring fault, its context
still lives, and the last refresh to finish succeeded within the staleness
bound. A kill it holds blocks however stale the rest is. -/
namespace Eunox.KillSwitch

open ByteString (Bytes lit)

/-- How the last refresh went, as the switch's own fields record it. -/
def World.Recorded (w : World) : Prop :=
  match w.lastRefresh with
  | none => w.switch.lastRefreshErr = none
  | some none => w.switch.lastRefreshErr ≠ none
  | some (some t) => w.switch.lastRefreshErr = none ∧ w.switch.lastRefreshOK = t ∧ 0 < t

/-- The life cycle of a manager over any run. -/
structure World.Orderly (w : World) : Prop where
  closed : w.switch.failOpen = false
  clock : 0 < w.now
  begun : w.switch.startedOnce = true → w.switch.runCtx ≠ none
  initial : ∀ p, w.pass = some p → p.initial = true → w.switch.startedOnce = true
  loaded : w.loaded = true → w.switch.startedOnce = true ∧ w.lastRefresh ≠ none
  started : w.switch.started = true → w.loaded = true
  recorded : w.Recorded

/-- Started without a wiring fault, still live, and refreshed in time. -/
def World.Confirmed (w : World) : Prop :=
  w.switch.started = true ∧ w.switch.wiringFault = none ∧ w.switch.runCtx = some false ∧
    ∃ t, w.lastRefresh = some (some t) ∧ Redis.sinceSaturated w.now t ≤ w.switch.staleness

section
variable {w : World} (orderly : w.Orderly)
include orderly

/-- A life-cycle step that never unmakes a start. -/
theorem World.Orderly.live (closed : r.failOpen = w.switch.failOpen) (begun : r.startedOnce = true → r.runCtx ≠ none)
    (once : w.switch.startedOnce = true → r.startedOnce = true) (started : r.started = true → w.loaded = true)
    (err : r.lastRefreshErr = w.switch.lastRefreshErr) (ok : r.lastRefreshOK = w.switch.lastRefreshOK) :
    World.Orderly { w with switch := r } := by
  constructor
  · exact closed.trans orderly.closed
  · exact orderly.clock
  · exact begun
  · exact fun p under first => once (orderly.initial p under first)
  · exact fun done => ⟨once (orderly.loaded done).1, (orderly.loaded done).2⟩
  · exact started
  · have recorded := orderly.recorded
    unfold World.Recorded at recorded ⊢
    simpa only [err, ok] using recorded

/-- Only what lies outside the cache matters to the life cycle. -/
theorem World.Orderly.recore (same : r.core = w.switch.core) : World.Orderly { w with switch := r } := by
  have once : r.startedOnce = w.switch.startedOnce := (congrArg Redis.startedOnce same :)
  have ctx : r.runCtx = w.switch.runCtx := (congrArg Redis.runCtx same :)
  have begun : r.started = w.switch.started := (congrArg Redis.started same :)
  exact orderly.live (congrArg Redis.failOpen same :) (by rw [once, ctx]; exact orderly.begun)
    (by rw [once]; exact id) (by rw [begun]; exact orderly.started) (congrArg Redis.lastRefreshErr same :)
    (congrArg Redis.lastRefreshOK same :)

/-- A refresh that ends, either way, leaves a record of itself. -/
theorem World.Orderly.ended (under : w.pass = some p) (closed : r.failOpen = w.switch.failOpen)
    (once : r.startedOnce = w.switch.startedOnce) (ctx : r.runCtx = w.switch.runCtx)
    (begun : r.started = w.switch.started) (last : Option ℤ)
    (recorded : World.Recorded ⟨r, w.keys, none, w.loaded || p.initial, w.now, some last⟩) :
    World.Orderly ⟨r, w.keys, none, w.loaded || p.initial, w.now, some last⟩ where
  closed := closed.trans orderly.closed
  clock := orderly.clock
  begun on := ctx ▸ orderly.begun (once.symm.trans on)
  initial := nofun
  loaded done := by
    refine ⟨once.trans ?_, Option.some_ne_none _⟩
    rcases Bool.or_eq_true_iff.mp done with before | first
    · exact (orderly.loaded before).1
    · exact orderly.initial p under first
  started on := by
    show (w.loaded || p.initial) = true
    rw [orderly.started (begun.symm.trans on), Bool.true_or]
  recorded := recorded

theorem World.Orderly.failPass (under : w.pass = some p) (err : KillError) : (w.failPass p err).Orderly :=
  orderly.ended (r := w.switch.recordRefreshErr err) under rfl rfl rfl rfl none (by simp [World.Recorded, Redis.recordRefreshErr])

theorem World.Orderly.install (under : w.pass = some p) (global : Bool) (scanned : Redis.Scanned) :
    (w.install p global scanned).Orderly := by
  have core := w.switch.commitRefreshLocked_core global scanned w.now
  exact orderly.ended (r := (w.switch.commitRefreshLocked global scanned w.now).1) under
    (congrArg Redis.failOpen core :) (congrArg Redis.startedOnce core :)
    (congrArg Redis.runCtx core :) (congrArg Redis.started core :) (some w.now)
    ⟨(congrArg Redis.lastRefreshErr core :), (congrArg Redis.lastRefreshOK core :), orderly.clock⟩

/-- A refresh under way keeps whose it is. -/
theorem World.Orderly.restage (under : w.pass = some p) (same : q.initial = p.initial) :
    World.Orderly { w with pass := some q } :=
  { orderly with
    initial := by
      intro x is first
      obtain rfl := Option.some.inj is
      exact orderly.initial p under (same ▸ first) }

theorem World.Orderly.passStep (under : w.pass = some p) (e : Event) : (w.passStep p e).Orderly :=
  w.passStep_rule p e orderly (fun _ same _ => orderly.restage under same) (orderly.failPass under) (orderly.install under)

theorem World.Orderly.probe (answer : Option Bool) :
    World.Orderly { w with switch := w.switch.probeServerTopology answer } := by
  unfold Redis.probeServerTopology
  split
  · exact orderly.live rfl orderly.begun id orderly.started rfl rfl
  · split <;> exact orderly.live rfl orderly.begun id orderly.started rfl rfl

theorem World.Orderly.start (answer : Option Bool) :
    World.Orderly { w with switch := w.switch.startEnter answer } := by
  have probed : World.Orderly { w with switch :=
      (if w.switch.wiringErr = none then w.switch.probeServerTopology answer else w.switch) } := by
    split
    · exact orderly.probe answer
    · exact orderly
  unfold Redis.startEnter
  split
  · exact orderly
  dsimp only
  split
  · exact probed
  · exact probed.live rfl (fun _ => by simp) (fun _ => rfl) probed.started rfl rfl

theorem World.Orderly.step (e : Event) : (w.step e).Orderly := by
  cases e with
  | advance d =>
    have clock := orderly.clock
    exact { orderly with clock := by simp only [World.step]; omega }
  | redisSet key => exact { orderly with }
  | redisDel key =>
    refine { orderly with initial := fun q is first => ?_ }
    obtain ⟨p, was, rfl⟩ := Option.map_eq_some_iff.mp is
    exact orderly.initial p was first
  | block kill d id => exact orderly.recore (w.switch.setBlockCache_core kill d id)
  | global active | reset => exact orderly.recore rfl
  | deliver payload => exact orderly.recore (w.switch.handlePubSubMessage_core payload).1
  | refresh first =>
    simp only [World.step]
    split
    · exact orderly
    split
    · exact orderly
    rename_i refused
    refine { orderly with initial := fun q is begins => ?_ }
    obtain rfl := Option.some.inj is
    have first : first = true := begins
    cases once : w.switch.startedOnce with
    | true => rfl
    | false => exact absurd ⟨first, by simp [once]⟩ refused
  | refuse =>
    simp only [World.step]
    split
    · rename_i err fault
      exact { orderly with
        loaded := fun done => ⟨(orderly.loaded done).1, by simp⟩
        recorded := by simp [World.Recorded, Redis.recordRefreshErr] }
    · exact orderly
  | probe answer => exact orderly.probe answer
  | start answer => exact orderly.start answer
  | started =>
    simp only [World.step]
    split
    · rename_i done
      exact orderly.live rfl orderly.begun id (fun _ => done) rfl rfl
    · exact orderly
  | stop =>
    refine orderly.live rfl (fun on => ?_) id orderly.started rfl rfl
    simpa [Redis.stop, Redis.canceled] using orderly.begun on
  | cancel =>
    refine orderly.live rfl (fun on => ?_) id orderly.started rfl rfl
    simpa [Redis.canceled] using orderly.begun on
  | _ =>
    simp only [World.step]
    split
    · rename_i p under
      exact orderly.passStep under _
    · exact orderly

omit orderly in
theorem World.start_orderly {o : Options} {now : ℤ} (closed : o.failOpen = false)
    (clock : 0 < now) : (World.start o now).Orderly where
  closed := closed
  clock := clock
  begun := nofun
  initial := nofun
  loaded := nofun
  started := nofun
  recorded := rfl

theorem World.Orderly.run (events : List Event) : (w.run events).Orderly := by
  induction events generalizing w with
  | nil => exact orderly
  | cons e rest ih => exact ih (orderly.step e)

/-! ## The readers -/

/-- A started switch is live exactly when its context is and its last refresh
succeeded in time. -/
theorem World.Orderly.live_iff (started : w.switch.started = true) :
    w.switch.livenessLocked w.now = .live ↔ w.switch.runCtx = some false ∧
      ∃ t, w.lastRefresh = some (some t) ∧ Redis.sinceSaturated w.now t ≤ w.switch.staleness := by
  obtain ⟨once, finished⟩ := orderly.loaded (orderly.started started)
  have context := orderly.begun once
  have recorded := orderly.recorded
  unfold World.Recorded at recorded
  unfold Redis.livenessLocked
  match ctx : w.switch.runCtx with
  | none => exact absurd ctx context
  | some true => simp
  | some false =>
    match last : w.lastRefresh with
    | none => exact absurd last finished
    | some none =>
      simp only [last] at recorded
      obtain ⟨err, failed⟩ := Option.ne_none_iff_exists'.mp recorded
      simp [failed]
    | some (some t) =>
      simp only [last] at recorded
      obtain ⟨healthy, stamp, positive⟩ := recorded
      simp [healthy, Redis.staleLocked, stamp, positive.ne']

theorem World.Orderly.confirmed_iff : w.Confirmed ↔
      w.switch.started = true ∧ w.switch.wiringFault = none ∧ w.switch.livenessLocked w.now = .live :=
  and_congr_right fun started => and_congr_right fun _ => (orderly.live_iff started).symm

omit orderly in
/-- In fail-closed mode only a live switch serves a non-match. -/
theorem Redis.refusal_eq_none {r : Redis} (closed : r.failOpen = false) (now : ℤ) :
    r.refusal now = none ↔ r.livenessLocked now = .live := by
  unfold Redis.refusal
  cases r.livenessLocked now <;> simp [closed]

theorem World.Orderly.healthStatus_eq_none : w.switch.healthStatus w.now = none ↔ w.Confirmed := by
  rw [orderly.confirmed_iff]
  unfold Redis.healthStatus
  cases w.switch.wiringFault <;> cases w.switch.started <;> cases w.switch.livenessLocked w.now <;> simp

theorem World.Orderly.status_ok : (∃ status, w.switch.status w.now = .ok status) ↔ w.Confirmed := by
  rw [orderly.confirmed_iff, ← Redis.refusal_eq_none orderly.closed]
  unfold Redis.status
  cases w.switch.wiringFault <;> cases w.switch.started <;> cases w.switch.refusal w.now <;> simp

theorem World.Orderly.shouldBlock_clear {subj : Subject}
    (quiet : w.switch.globalActive = false) (unmatched : w.switch.anyKilled subj = false) :
    w.switch.shouldBlock w.now subj = (false, none) ↔ w.Confirmed := by
  rw [orderly.confirmed_iff, ← Redis.refusal_eq_none orderly.closed]
  unfold Redis.shouldBlock
  cases w.switch.wiringFault <;> cases w.switch.started <;> simp [quiet, unmatched]

end

/-- What the switch already holds blocks without a look at its confidence. -/
theorem Redis.shouldBlock_held {r : Redis} (fault : r.wiringFault = none)
    (started : r.started = true) {subj : Subject}
    (held : r.globalActive = true ∨ r.anyKilled subj = true) (now : ℤ) :
    r.shouldBlock now subj = (true, none) := by
  unfold Redis.shouldBlock
  rcases held with active | matched
  · simp [fault, started, active]
  · simp [fault, started, matched]

/-- **Confirmability.** In every state a fail-closed manager can reach, the
three readers give the all-clear together and only when the cache is confirmed,
and a started manager blocks what it holds however stale it is. -/
theorem all_clear_iff_confirmed {o : Options} {now : ℤ} (closed : o.failOpen = false)
    (clock : 0 < now) (events : List Event) :
    let w := (World.start o now).run events
    (∀ subj, w.switch.globalActive = false → w.switch.anyKilled subj = false →
      (w.switch.shouldBlock w.now subj = (false, none) ↔ w.Confirmed)) ∧
    (w.switch.healthStatus w.now = none ↔ w.Confirmed) ∧
    ((∃ status, w.switch.status w.now = .ok status) ↔ w.Confirmed) ∧
    (w.switch.started = true → w.switch.wiringFault = none → ∀ subj,
      w.switch.globalActive = true ∨ w.switch.anyKilled subj = true →
        w.switch.shouldBlock w.now subj = (true, none)) := by
  have orderly := (World.start_orderly closed clock).run events
  refine ⟨fun subj quiet unmatched => ?_, ?_, ?_, fun started fault subj held => ?_⟩
  · exact orderly.shouldBlock_clear quiet unmatched
  · exact orderly.healthStatus_eq_none
  · exact orderly.status_ok
  · exact Redis.shouldBlock_held fault started held _

/-- A subject that names only the session. -/
def sessionSubject : Subject := { agentID := [], sessionID := someSession, jti := [] }

/-- Just after its start the switch confirms the session is not killed. -/
theorem all_clear_iff_confirmed_started : ((World.start plainOptions 1).run freshStart).Confirmed := by
  have clear : ((World.start plainOptions 1).run freshStart).switch.healthStatus
      ((World.start plainOptions 1).run freshStart).now = none := by
    decide
  have readers := all_clear_iff_confirmed (o := plainOptions) rfl (one_pos : (0 : ℤ) < 1) freshStart
  exact readers.2.1.mp clear

/-- A kill cached before the start is answered with the error of a switch not
started, not as blocked. -/
theorem held_kill_unreported_before_start :
    let w := (World.start plainOptions 1).run [.block true .session someSession]
    w.switch.anyKilled sessionSubject = true ∧
      w.switch.shouldBlock w.now sessionSubject = (false, some .notStarted) := by
  decide

end Eunox.KillSwitch
