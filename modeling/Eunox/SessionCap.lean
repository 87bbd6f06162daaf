import Eunox.SessionSafety

/-! The cap on sessions, the reap generation, and the guarantees of the whole
lifecycle. -/
namespace Eunox.SessionLifecycle
open IndexedList
open ByteString (Bytes)
open KillSwitch (Subject)

/-! The cap. -/

section Cap
variable {maxSessions : ℤ} {p q : Proxy} {e : Event} {s t : ℕ} {sess sess' : Session}

theorem mem_held : s ∈ p.held ↔ ∃ sess, p.objects[s]? = some sess ∧ sess.stage.holds = true := by
  simp only [Proxy.held, Finset.mem_filter]
  cases found : p.objects[s]? with
  | none => simp
  | some sess => simp [lt_of_found found]

theorem mem_live : s ∈ p.live ↔ p.Registered s ∨ s ∈ p.held := by
  simp only [Proxy.live, Finset.mem_filter, Finset.mem_range, and_iff_right_iff_imp]
  rintro (⟨sess, found, -⟩ | holding)
  · exact lt_of_found found
  · obtain ⟨sess, found, -⟩ := mem_held.mp holding
    exact lt_of_found found

/-- What is live takes a place in the registry or a reservation. -/
theorem card_live_le (p : Proxy) : p.live.card ≤ p.sessions.entries.length + p.held.card := by
  have part : p.live ⊆ p.snapshotSessions.toFinset ∪ p.held := by
    intro s mem
    rcases mem_live.mp mem with ⟨sess, -, filed⟩ | holding
    · refine Finset.mem_union_left _ (List.mem_toFinset.mpr (List.mem_map.mpr ⟨⟨sess.id, s⟩, ?_, rfl⟩))
      exact AList.mem_lookup_iff.mp filed
    · exact Finset.mem_union_right _ holding
  calc p.live.card ≤ (p.snapshotSessions.toFinset ∪ p.held).card := Finset.card_le_card part
    _ ≤ p.snapshotSessions.toFinset.card + p.held.card := Finset.card_union_le _ _
    _ ≤ p.sessions.entries.length + p.held.card := by
      have := p.snapshotSessions.toFinset_card_le
      simp only [Proxy.snapshotSessions, List.length_map] at this ⊢
      omega

/-- The sessions being established, where one changed. -/
theorem held_put (found : p.objects[s]? = some sess) (objects : q.objects = p.objects) :
    (q.put s sess').held = if sess'.stage.holds then insert s p.held else p.held.erase s := by
  ext t
  rw [mem_held, Proxy.put, objects]
  by_cases same : t = s
  · subst same
    cases holding : sess'.stage.holds <;> simp [holding, lt_of_found found]
  · cases sess'.stage.holds <;> simp [same, Ne.symm same, mem_held]

theorem held_same (found : p.objects[s]? = some sess) (objects : q.objects = p.objects)
    (holds : sess'.stage.holds = sess.stage.holds) : (q.put s sess').held = p.held := by
  rw [held_put found objects, holds]
  cases holding : sess.stage.holds with
  | true => simp [mem_held, found, holding]
  | false =>
    rw [if_neg (by simp)]
    refine Finset.erase_eq_of_notMem fun mem => ?_
    obtain ⟨other, at_s, on⟩ := mem_held.mp mem
    obtain rfl := Option.mem_unique found at_s
    simp [holding] at on

/-- Where the registry and the reservations lose only, so does what is live. -/
theorem live_subset (ids : ∀ t, q.Registered t → p.Registered t ∨ t ∈ p.held) (held : q.held ⊆ p.held) :
    q.live ⊆ p.live := by
  intro t mem
  rcases mem_live.mp mem with filed | holding
  · exact mem_live.mpr (ids t filed)
  · exact mem_live.mpr (.inr (held holding))

theorem registered_put (found : p.objects[s]? = some sess) (objects : q.objects = p.objects)
    (sameId : sess'.id = sess.id) (registry : ∀ id t, q.getSession id = some t → p.getSession id = some t) :
    ∀ t, (q.put s sess').Registered t → p.Registered t ∨ t ∈ p.held := by
  rintro t ⟨other, at_t, filed⟩
  rw [Proxy.put, objects] at at_t
  rcases set_cases at_t with ⟨rfl, rfl⟩ | ⟨-, old⟩
  · exact .inl ⟨sess, found, registry _ _ (sameId ▸ filed)⟩
  · exact .inl ⟨other, old, registry _ _ filed⟩

/-- The counter is the number of reservations, and no more is live than the cap. -/
structure Capped (maxSessions : ℤ) (p : Proxy) : Prop where
  counted : p.establishing = p.held.card
  bounded : (p.live.card : ℤ) ≤ maxSessions

theorem Capped.shrink (capped : Capped maxSessions p) (establishing : q.establishing = p.establishing)
    (held : q.held = p.held) (ids : ∀ t, q.Registered t → p.Registered t ∨ t ∈ p.held) : Capped maxSessions q where
  counted := by rw [establishing, held, capped.counted]
  bounded := (Int.ofNat_le.mpr (Finset.card_le_card (live_subset ids held.subset))).trans capped.bounded

theorem Capped.step (positive : 0 < maxSessions) (kept : Kept p) (capped : Capped maxSessions p)
    (does : Does maxSessions p e q) : Capped maxSessions q := by
  cases does with
  | stays => exact capped
  | captures id claims =>
    have held : ({ p with objects := p.objects ++
        [{ id := id, claims := claims, startGen := p.reapGen }] } : Proxy).held = p.held := by
      ext t
      simp only [mem_held]
      rcases lt_trichotomy t p.objects.length with inside | rfl | beyond
      · rw [List.getElem?_append_left inside]
      · simp [Stage.holds]
      · rw [List.getElem?_eq_none (by simpa using beyond), List.getElem?_eq_none beyond.le]
    refine capped.shrink rfl held fun t registered => .inl ?_
    obtain ⟨other, found, filed⟩ := registered
    obtain ⟨old, at_t, named, -⟩ := kept.registry other.id t filed
    exact ⟨old, at_t, named.symm ▸ filed⟩
  | moves found move =>
    exact capped.shrink rfl (held_same found rfl move.holds)
      (registered_put found rfl move.sameId fun _ _ => id)
  | @reserves s sess establishing found here slot =>
    obtain ⟨room, rfl⟩ := slot positive
    have fresh : s ∉ p.held := fun mem => by
      obtain ⟨other, at_s, on⟩ := mem_held.mp mem
      obtain rfl := Option.mem_unique found at_s
      simp [here, Stage.holds] at on
    have count := Finset.card_insert_of_notMem fresh
    refine ⟨?_, (Int.ofNat_le.mpr (card_live_le _)).trans ?_⟩
    · rw [held_put found, if_pos (by simp [Stage.holds]), count, ← capped.counted]
      all_goals rfl
    · rw [held_put found, if_pos (by simp [Stage.holds]), count, ← capped.counted]
      · exact_mod_cast (Int.add_assoc ..).symm.trans_le room
      · rfl
  | @registers s sess found here =>
    refine capped.shrink rfl (held_same found rfl (by simp [here, Stage.holds])) fun t registered => ?_
    obtain ⟨other, at_t, filed⟩ := registered
    rcases set_cases at_t with ⟨rfl, -⟩ | ⟨differ, old⟩
    · exact .inr (mem_held.mpr ⟨sess, found, by simp [here, Stage.holds]⟩)
    · exact .inl ⟨other, old, (getSession_insert filed).resolve_right fun own => differ own.1⟩
  | unregisters sessions found move reason loses =>
    exact capped.shrink rfl (held_same found rfl move.holds) (registered_put found rfl move.sameId loses)
  | @releases s sess establishing found here slot =>
    obtain rfl := slot positive
    have holding : s ∈ p.held := mem_held.mpr ⟨sess, found, by simp [here, Stage.holds]⟩
    refine ⟨?_, (Int.ofNat_le.mpr (Finset.card_le_card (live_subset ?_ ?_))).trans capped.bounded⟩
    · rw [held_put found, if_neg (by simp [Stage.holds]), Finset.card_erase_of_mem holding, ← capped.counted]
      all_goals rfl
    · exact registered_put found rfl rfl fun _ _ => id
    · rw [held_put found, if_neg (by simp [Stage.holds])]
      · exact Finset.erase_subset _ _
      · rfl
  | kills | sweeps | visits | rechecks => exact capped.shrink rfl rfl fun _ filed => .inl filed
  | tears =>
    refine capped.shrink rfl rfl fun t registered => .inl ?_
    obtain ⟨other, found, filed⟩ := registered
    exact ⟨other, found, getSession_erase filed⟩
  | drains =>
    refine capped.shrink rfl rfl fun t registered => ?_
    obtain ⟨other, found, filed⟩ := registered
    simp [Proxy.getSession, Proxy.drainAllSessions] at filed
  | closes found => exact capped.shrink rfl (held_same found rfl rfl) (registered_put found rfl rfl fun _ _ => id)

end Cap

/-! The reap generation. -/

section Generation
variable {maxSessions : ℤ} {p q : Proxy} {e : Event} {s : ℕ}

/-- No session is of a generation to come. -/
def Dated (s : ℕ) (p : Proxy) : Prop := ∀ sess, p.objects[s]? = some sess → sess.startGen ≤ p.reapGen

/-- A session of an earlier generation is not in the registry. -/
structure Swept (s : ℕ) (p : Proxy) : Prop where
  earlier : ∃ sess, p.objects[s]? = some sess ∧ sess.startGen < p.reapGen
  out : ∀ id, p.getSession id ≠ some s

/-- The proxy is shutting down and its registry is empty. -/
structure Down (p : Proxy) : Prop where
  latched : p.shuttingDown = true
  out : ∀ id s, p.getSession id ≠ some s

/-- A step captures a session, of the current generation, or changes one, or none, and takes back
neither the generation nor the shutdown. -/
theorem Does.objects (does : Does maxSessions p e q) :
    p.reapGen ≤ q.reapGen ∧ (p.shuttingDown = true → q.shuttingDown = true) ∧
      (q.objects = p.objects ∨ (∃ new, q.objects = p.objects ++ [new] ∧ new.startGen = p.reapGen) ∨
        ∃ t old new, p.objects[t]? = some old ∧ q.objects = p.objects.set t new ∧ new.startGen = old.startGen) := by
  cases does with
  | captures => exact ⟨le_rfl, id, .inr (.inl ⟨_, rfl, rfl⟩)⟩
  | moves found move | unregisters _ found move =>
    exact ⟨le_rfl, id, .inr (.inr ⟨_, _, _, found, rfl, move.startGen⟩)⟩
  | reserves _ found | registers found | releases _ found | closes found =>
    exact ⟨le_rfl, id, .inr (.inr ⟨_, _, _, found, rfl, rfl⟩)⟩
  | drains later latched => exact ⟨later, latched, .inl rfl⟩
  | _ => exact ⟨le_rfl, id, .inl rfl⟩

/-- A session stays, with its generation. -/
theorem Does.stays_dated (does : Does maxSessions p e q) (found : p.objects[s]? = some sess) :
    ∃ sess', q.objects[s]? = some sess' ∧ sess'.startGen = sess.startGen := by
  obtain ⟨-, -, same | ⟨new, added, -⟩ | ⟨t, old, new, at_t, moved, gen⟩⟩ := does.objects
  · exact ⟨sess, same ▸ found, rfl⟩
  · exact ⟨sess, added ▸ append_old found, rfl⟩
  · rw [moved]
    rcases exchanged (a := new) at_t found with ⟨-, rfl, here⟩ | ⟨-, here⟩
    · exact ⟨new, here, gen⟩
    · exact ⟨sess, here, rfl⟩

/-- A session keeps its generation, and a new one has the current. -/
theorem Does.dated (does : Does maxSessions p e q) (dated : Dated s p) : Dated s q := by
  intro sess found
  obtain ⟨later, -, same | ⟨new, added, gen⟩ | ⟨t, old, new, at_t, moved, gen⟩⟩ := does.objects
  · exact (dated sess (same ▸ found)).trans later
  · rw [added] at found
    rcases append_cases found with ⟨-, found⟩ | ⟨-, rfl⟩
    · exact (dated sess found).trans later
    · exact gen.trans_le later
  · rw [moved] at found
    rcases set_cases found with ⟨rfl, rfl⟩ | ⟨-, kept⟩
    · exact (gen.trans_le (dated old at_t)).trans later
    · exact (dated sess kept).trans later

theorem Swept.step (swept : Swept s p) (does : Does maxSessions p e q) : Swept s q := by
  obtain ⟨sess, found, earlier⟩ := swept.earlier
  have later := does.objects.1
  obtain ⟨sess', found', gen⟩ := does.stays_dated found
  refine ⟨⟨sess', found', by omega⟩, fun id filed => ?_⟩
  rcases does.registry filed with filed | ⟨other, -, at_s, -, current, -⟩
  · exact swept.out id filed
  · obtain rfl := Option.mem_unique found at_s
    omega

theorem Down.step (down : Down p) (does : Does maxSessions p e q) : Down q := by
  refine ⟨does.objects.2.1 down.latched, fun id s filed => ?_⟩
  rcases does.registry filed with filed | ⟨-, -, -, -, -, serving, -⟩
  · exact down.out id s filed
  · simp [down.latched] at serving

end Generation

/-! What is outstanding. -/

section Outstanding
variable {p q : Proxy} {s w : ℕ} {sess : Session}

/-- What the goroutine that establishes a session does at a stage. -/
def ownStep (s : ℕ) (startOk driftOk : Bool) (faults : List Subject) : Stage → Event
  | .captured => .reserve s
  | .reserved => .start s startOk
  | .started => .register s
  | .registered => .drift s driftOk
  | .drifted => .driftClose s
  | .torn => .driftUnregister s
  | .finishing => .finish s
  | .looking => .look s
  | .asking => .ask s faults
  | .reclaiming => .reclaim s faults
  | .closing => .reclaimClose s
  | .releasing | .over => .release s

def openStages : List Stage :=
  [.captured, .reserved, .started, .registered, .drifted, .torn, .finishing, .looking, .asking, .reclaiming, .closing,
    .releasing]

/-- The rest of a session's establishment, the rest of a sweep, and the second looks and closes of the
session that are under way or come of these. The steps of a stage the session is past do nothing. -/
def outstanding (p : Proxy) (w s : ℕ) (startOk driftOk : Bool) (faults : List Subject) : List Event :=
  let pending := p.sweeps[w]?.getD []
  let rechecks := p.reclaims.count s + pending.length
  openStages.map (ownStep s startOk driftOk faults) ++ pending.map (.visit w · faults) ++
    List.replicate rechecks (.recheck s faults) ++ List.replicate (p.owed.count s + rechecks) (.close s)

/-- The session has come to its `n`th stage, and nothing changed for the others. -/
structure Stands (p : Proxy) (s n : ℕ) (q : Proxy) : Prop where
  reached : ∃ sess, q.objects[s]? = some sess ∧ n ≤ sess.stage.ctorIdx
  length : q.objects.length = p.objects.length
  sweeps : q.sweeps = p.sweeps
  reclaims : q.reclaims = p.reclaims
  owed : q.owed = p.owed

theorem Stands.put (stands : Stands p s n q) {q' : Proxy} {sess' : Session} (objects : q'.objects = q.objects)
    (later : m ≤ sess'.stage.ctorIdx) (sweeps : q'.sweeps = q.sweeps) (reclaims : q'.reclaims = q.reclaims)
    (owed : q'.owed = q.owed) : Stands p s m (q'.put s sess') := by
  obtain ⟨sess, found, -⟩ := stands.reached
  refine ⟨⟨sess', ?_, later⟩, ?_, sweeps.trans stands.sweeps, reclaims.trans stands.reclaims, owed.trans stands.owed⟩
  · exact set_self (objects ▸ found)
  · simp [Proxy.put, objects, stands.length]

/-- A session that stands at the stage moves on; one that is past it stays. -/
theorem Stands.onStage (stands : Stands p s stage.ctorIdx q)
    (goes : ∀ sess, sess.stage = stage → Stands p s (stage.ctorIdx + 1) (next sess)) :
    Stands p s (stage.ctorIdx + 1) (q.onStage s stage next) := by
  obtain ⟨sess, found, least⟩ := stands.reached
  simp only [Proxy.onStage, found]
  split
  · next here => exact goes sess here
  · next past =>
    have differ : sess.stage.ctorIdx ≠ stage.ctorIdx := fun same =>
      past (by rw [← Stage.ofNat_ctorIdx sess.stage, same, Stage.ofNat_ctorIdx])
    exact { stands with reached := ⟨sess, found, by omega⟩ }

variable (maxSessions : ℤ) (startOk driftOk : Bool) (faults : List Subject)

theorem Stands.own (stage : Stage) (unfinished : stage ≠ .over)
    (stands : Stands p s stage.ctorIdx q) :
    Stands p s (stage.ctorIdx + 1) (q.step maxSessions (ownStep s startOk driftOk faults stage)) := by
  have moved {sess' : Session} (later : stage.ctorIdx < sess'.stage.ctorIdx) :
      Stands p s (stage.ctorIdx + 1) (q.put s sess') := stands.put rfl later rfl rfl rfl
  cases stage with
  | captured =>
    refine stands.onStage fun sess here => ?_
    split
    · next slot =>
      obtain ⟨-, rfl⟩ | ⟨-, rfl⟩ := tryReserve_cases slot <;>
        exact stands.put rfl (Nat.le_of_ble_eq_true rfl) rfl rfl rfl
    · exact moved (Nat.le_of_ble_eq_true rfl)
  | reserved =>
    refine stands.onStage fun sess here => moved ?_
    cases startOk <;> exact Nat.le_of_ble_eq_true rfl
  | started =>
    refine stands.onStage fun sess here => ?_
    split
    · next ok =>
      obtain ⟨-, -, -, rfl⟩ := register_cases ok
      exact stands.put rfl (Nat.le_of_ble_eq_true rfl) rfl rfl rfl
    · exact moved (Nat.le_of_ble_eq_true rfl)
  | registered | looking | asking | reclaiming =>
    refine stands.onStage fun sess here => moved ?_
    dsimp only
    split <;> decide
  | torn | releasing =>
    refine stands.onStage fun sess here => ?_
    first | rw [unregisterSession_eq] | rw [releaseSessionSlot_eq]
    exact stands.put rfl (Nat.le_of_ble_eq_true rfl) rfl rfl rfl
  | drifted | finishing | closing => exact stands.onStage fun sess here => moved (Nat.le_of_ble_eq_true rfl)
  | _ => exact absurd rfl unfinished

theorem Stands.run (stands : Stands p s n q) {stages : List Stage}
    (unfinished : .over ∉ stages) (order : stages.map Stage.ctorIdx = List.range' n stages.length) :
    Stands p s (n + stages.length) (q.run maxSessions (stages.map (ownStep s startOk driftOk faults))) := by
  induction stages generalizing n q with
  | nil => exact stands
  | cons stage rest ih =>
    simp only [List.map_cons, List.length_cons, List.range'_succ, List.cons.injEq] at order
    obtain ⟨rfl, order⟩ := order
    obtain ⟨here, later⟩ := not_or.mp (List.mem_cons.not.mp unfinished)
    rw [List.length_cons, ← Nat.add_assoc, Nat.add_right_comm]
    exact ih (stands.own maxSessions startOk driftOk faults stage (Ne.symm here)) later order

/-- A sweep comes to its end, and asks about each session of its snapshot again at most once. -/
theorem visits_over (s : ℕ) (sweep : p.sweeps[w]? = some pending)
    (inside : ∀ t ∈ pending, t < p.objects.length) : ∃ q, p.run maxSessions (pending.map (.visit w · faults)) = q ∧
      q.objects = p.objects ∧ q.owed = p.owed ∧ q.sweeps[w]? = some [] ∧
      q.reclaims.count s ≤ p.reclaims.count s + pending.length := by
  induction pending generalizing p with
  | nil => exact ⟨p, rfl, rfl, rfl, sweep, le_rfl⟩
  | cons t rest ih =>
    have found := List.getElem?_eq_getElem (inside t (.head _))
    obtain ⟨asked, step, more⟩ : ∃ asked, p.visit w t faults =
        { p with sweeps := p.sweeps.set w rest, reclaims := asked } ∧ asked.count s ≤ p.reclaims.count s + 1 := by
      simp only [Proxy.visit, sweep, found, List.mem_cons_self, if_true, List.erase_cons_head]
      refine ⟨_, rfl, ?_⟩
      split
      · omega
      · rw [List.count_cons]
        split <;> omega
    obtain ⟨q, run, objects, owed, swept, few⟩ := @ih { p with sweeps := p.sweeps.set w rest, reclaims := asked }
      (set_self sweep) fun u mem => inside u (.tail _ mem)
    refine ⟨q, ?_, objects, owed, swept, few.trans ?_⟩
    · rw [← run, ← step]
      rfl
    · rw [List.length_cons]
      dsimp only
      omega

/-- Enough second looks leave none outstanding, and so many closes more at most. -/
theorem rechecks_over (found : p.objects[s]? = some sess)
    (enough : p.reclaims.count s ≤ n) : ∃ q, p.run maxSessions (List.replicate n (.recheck s faults)) = q ∧
      q.objects = p.objects ∧ q.sweeps = p.sweeps ∧ s ∉ q.reclaims ∧ q.owed.count s ≤ p.owed.count s + n := by
  induction n generalizing p with
  | zero => exact ⟨p, rfl, rfl, rfl, List.count_eq_zero.mp (Nat.le_zero.mp enough), le_rfl⟩
  | succ n ih =>
    have one : (p.recheck s faults).objects = p.objects ∧ (p.recheck s faults).sweeps = p.sweeps ∧
        (p.recheck s faults).reclaims.count s ≤ n ∧ (p.recheck s faults).owed.count s ≤ p.owed.count s + 1 := by
      by_cases due : s ∈ p.reclaims
      · simp only [Proxy.recheck, found, due, if_true, List.count_erase_self, true_and]
        refine ⟨by omega, ?_⟩
        split <;> simp
      · simp [Proxy.recheck, found, due, List.count_eq_zero.mpr due]
    obtain ⟨q, run, objects, sweeps, settled, few⟩ := @ih (p.recheck s faults) (one.1 ▸ found) one.2.2.1
    exact ⟨q, run, objects.trans one.1, sweeps.trans one.2.1, settled, by omega⟩

/-- Enough closes leave none outstanding. -/
theorem closes_over (found : p.objects[s]? = some sess) (enough : p.owed.count s ≤ n) :
    ∃ q sess', p.run maxSessions (List.replicate n (.close s)) = q ∧ q.objects[s]? = some sess' ∧
      sess'.stage = sess.stage ∧ q.sweeps = p.sweeps ∧ q.reclaims = p.reclaims ∧ s ∉ q.owed := by
  induction n generalizing p sess with
  | zero => exact ⟨p, sess, rfl, found, rfl, rfl, rfl, List.count_eq_zero.mp (Nat.le_zero.mp enough)⟩
  | succ n ih =>
    by_cases due : s ∈ p.owed
    · have step : p.closeOwed s = { p with owed := p.owed.erase s }.put s { sess with closed := true } := by
        simp [Proxy.closeOwed, found, due]
      have fewer : (p.owed.erase s).count s ≤ n := by
        rw [List.count_erase_self]
        omega
      obtain ⟨q, sess', run, rest⟩ := @ih ({ p with owed := p.owed.erase s }.put s { sess with closed := true })
        { sess with closed := true } (set_self found) fewer
      exact ⟨q, sess', by rw [← run, ← step]; rfl, rest⟩
    · have step : p.closeOwed s = p := by simp [Proxy.closeOwed, found, due]
      obtain ⟨q, sess', run, rest⟩ := ih found (by simp [List.count_eq_zero.mpr due])
      exact ⟨q, sess', by rw [← run]; exact congrArg (Proxy.run maxSessions · _) step, rest⟩

end Outstanding

/-! Whole runs. -/

section Runs
variable (maxSessions : ℤ) (es later : List Event)

/-- The proxy after these events. -/
def reach : Proxy := Proxy.empty.run maxSessions es

variable {maxSessions} {p q : Proxy} {e : Event} {s t w : ℕ} {sess : Session} {k : Kill}

/-- What every step keeps, every run keeps. -/
theorem run_keeps {Keeps : Proxy → Prop} (step : ∀ p e q, Kept p → Keeps p → Does maxSessions p e q → Keeps q)
    (kept : Kept p) (start : Keeps p) : Keeps (p.run maxSessions es) := by
  induction es generalizing p with
  | nil => exact start
  | cons e rest ih =>
    have does := step_does maxSessions p e
    exact ih (kept.step does) (step p e _ kept start does)

theorem run_append : p.run maxSessions (es ++ later) = (p.run maxSessions es).run maxSessions later := List.foldl_append

theorem reach_append : reach maxSessions (es ++ later) = (reach maxSessions es).run maxSessions later :=
  run_append es later

theorem reach_concat (e : Event) : reach maxSessions (es ++ [e]) = (reach maxSessions es).step maxSessions e := by
  simp [reach, Proxy.run]

theorem kept_empty : Kept Proxy.empty :=
  ⟨by simp [Proxy.empty, Proxy.getSession], by simp [Proxy.empty], by simp [Proxy.empty]⟩

theorem kept_reach : Kept (reach maxSessions es) :=
  run_keeps es (fun _ _ _ kept _ does => kept.step does) kept_empty kept_empty

theorem capped_reach (positive : 0 < maxSessions) : Capped maxSessions (reach maxSessions es) := by
  have nothing : Proxy.empty.live = ∅ := rfl
  have empty : Capped maxSessions Proxy.empty := ⟨rfl, by simpa [nothing] using positive.le⟩
  exact run_keeps es (fun _ _ _ kept capped does => capped.step positive kept does) kept_empty empty

theorem dated_reach (s : ℕ) : Dated s (reach maxSessions es) :=
  run_keeps es (fun _ _ _ _ dated does => does.dated dated) kept_empty (by simp [Dated, Proxy.empty])

/-- A sweep has everything that is registered before it. -/
theorem due_sweep : Due p.sweeps.length (p.step maxSessions .sweep) s sess := by
  by_cases filed : p.getSession sess.id = some s
  · refine .inr (.inr (.inr (.inr (.inr ⟨p.snapshotSessions, ?_, ?_⟩))))
    · simp [Proxy.step]
    · exact List.mem_map.mpr ⟨⟨sess.id, s⟩, AList.mem_lookup_iff.mp filed, rfl⟩
  · exact .inl filed

/-- From a sweep on, a session that stays killed is dealt with or to be. -/
theorem due_run (kept : Kept p) (due : ∀ sess, p.objects[s]? = some sess → Due w p s sess)
    (answered : ∀ e ∈ later, e.faults = [])
    (killed : ∀ part, part <+: later → ∀ sess, (p.run maxSessions part).objects[s]? = some sess →
      (p.run maxSessions part).sessionKilled sess [] = true) :
    ∀ sess, (p.run maxSessions later).objects[s]? = some sess → Due w (p.run maxSessions later) s sess := by
  induction later generalizing p with
  | nil => exact due
  | cons e rest ih =>
    have does := step_does maxSessions p e
    refine ih (kept.step does) (due_step kept does (answered e (.head _)) ?_ due)
      (fun e mem => answered e (.tail _ mem)) fun part front => ?_
    · exact killed [] List.nil_prefix
    · exact killed (e :: part) (List.cons_prefix_cons.mpr ⟨rfl, front⟩)

/-- A kill stays until it is revived. -/
theorem Does.kept_kill (does : Does maxSessions p e q) (there : k ∈ p.kills) (unrevived : e ≠ .revive k) :
    k ∈ q.kills := by
  cases does with
  | kills kills keeps => exact keeps k there unrevived
  | _ => exact there

theorem run_kills (there : k ∈ p.kills) (not_revived : .revive k ∉ es) :
    k ∈ (p.run maxSessions es).kills := by
  induction es generalizing p with
  | nil => exact there
  | cons e rest ih =>
    obtain ⟨here, later⟩ := not_or.mp (List.mem_cons.not.mp not_revived)
    exact ih ((step_does maxSessions p e).kept_kill there (Ne.symm here)) later

theorem sessionKilled_of_kill (there : k ∈ p.kills)
    (named : ∃ subj ∈ sess.subjects, k.names subj = true) : p.sessionKilled sess [] = true := by
  obtain ⟨subj, mem, names⟩ := named
  refine List.any_eq_true.mpr ⟨subj, mem, ?_⟩
  simpa using ⟨k, there, names⟩

/-- Registration is told by the registry. -/
theorem not_registered (out : ∀ id, p.getSession id ≠ some s) : ¬ p.Registered s := by
  rintro ⟨sess, -, filed⟩
  exact out sess.id filed

/-- Unregistering one session leaves every other where it is. -/
theorem registered_unregister (differ : t ≠ s) (registered : p.Registered t) (e : Event)
    (which : e = .cleanup s ∨ e = .driftUnregister s) : (p.step maxSessions e).Registered t := by
  have unregistered (sess : Session) : (p.unregisterSession s sess).Registered t := by
    obtain ⟨other, at_t, filed⟩ := registered
    exact ⟨other, by rwa [unregisterSession_eq], getSession_unregister differ filed⟩
  rcases which with rfl | rfl
  · change (p.finishSessionCleanup s).Registered t
    unfold Proxy.finishSessionCleanup
    split
    · split
      · exact unregistered _
      · exact registered
    · exact registered
  · change (p.onStage s .torn _).Registered t
    unfold Proxy.onStage
    split
    · next sess found =>
      split
      · obtain ⟨other, at_t, filed⟩ := unregistered sess
        exact ⟨other, (List.getElem?_set_ne differ.symm).trans at_t, filed⟩
      · exact registered
    · exact registered

/-- Sweep `w` is over, and so is everything else that concerns the session. -/
structure Settled (p : Proxy) (w s : ℕ) (sess : Session) : Prop where
  found : p.objects[s]? = some sess
  established : sess.stage = .over
  closes : s ∉ p.owed
  reclaims : s ∉ p.reclaims
  swept : p.sweeps[w]? = some []

/-- What becomes of a session that a kill names. -/
def Reclaimed (p : Proxy) (s : ℕ) (sess : Session) : Prop :=
  sess.closed = true ∨
    (¬ p.Registered s ∧ (sess.done = true ∨ sess.failure = some .start ∨ sess.failure = some .drift)) ∨
    sess.failure = some .limit ∨ ∃ err, sess.failure = some (.refused err)

theorem reclaimed_of_due (kept : Kept p) (settled : Settled p w s sess) (due : Due w p s sess) :
    Reclaimed p s sess := by
  have out : sess.closed = true ∨ ¬ p.Registered s := by
    rcases due with out | closed | close | reclaim | unchecked | ⟨pending, sweep, mem⟩
    · refine .inr fun ⟨other, at_s, filed⟩ => ?_
      obtain rfl := Option.mem_unique settled.found at_s
      exact out filed
    · exact .inl closed
    · exact absurd close settled.closes
    · exact absurd reclaim settled.reclaims
    · simp [settled.established, Stage.unchecked] at unchecked
    · obtain rfl := Option.mem_unique settled.swept sweep
      exact absurd mem List.not_mem_nil
  rcases out with closed | out
  · exact .inl closed
  rcases kept.accounted s sess settled.found with new | filed | closed | close | gone | failed
  · simp [settled.established, Stage.unpublished] at new
  · exact absurd ⟨sess, settled.found, filed⟩ out
  · exact .inl closed
  · exact absurd close settled.closes
  · exact .inr (.inl ⟨out, .inl gone⟩)
  obtain ⟨failure, is⟩ := Option.ne_none_iff_exists'.mp failed
  cases failure with
  | limit => exact .inr (.inr (.inl is))
  | start => exact .inr (.inl ⟨out, .inr (.inl is)⟩)
  | refused err => exact .inr (.inr (.inr ⟨err, is⟩))
  | drift => exact .inr (.inl ⟨out, .inr (.inr is)⟩)

/-- What a sweep has still to look at was established. -/
def Recorded (p : Proxy) : Prop := ∀ pending ∈ p.sweeps, ∀ t ∈ pending, t < p.objects.length

theorem Recorded.step (kept : Kept p) (recorded : Recorded p) (does : Does maxSessions p e q) : Recorded q := by
  have longer : p.objects.length ≤ q.objects.length := by
    obtain ⟨-, -, same | ⟨new, added, -⟩ | ⟨t, old, new, -, moved, -⟩⟩ := does.objects <;> simp [*]
  have part : ∀ pending ∈ q.sweeps, pending = p.snapshotSessions ∨ ∃ old ∈ p.sweeps, pending ⊆ old := by
    intro pending mem
    cases does with
    | sweeps =>
      rcases List.mem_append.mp mem with old | new
      · exact .inr ⟨pending, old, List.Subset.refl _⟩
      · exact .inl (List.mem_singleton.mp new)
    | visits sweep found =>
      rcases List.mem_or_eq_of_mem_set mem with old | rfl
      · exact .inr ⟨pending, old, List.Subset.refl _⟩
      · exact .inr ⟨_, List.mem_of_getElem? sweep, List.erase_subset⟩
    | _ => exact .inr ⟨pending, mem, List.Subset.refl _⟩
  intro pending mem t waiting
  refine lt_of_lt_of_le ?_ longer
  rcases part pending mem with rfl | ⟨old, before, sub⟩
  · obtain ⟨⟨id, s⟩, entry, rfl⟩ := List.mem_map.mp waiting
    obtain ⟨sess, found, -⟩ := kept.registry id s (AList.mem_lookup_iff.mpr entry)
    exact lt_of_found found
  · exact recorded old before t (sub waiting)

theorem recorded_reach : Recorded (reach maxSessions es) :=
  run_keeps es (fun _ _ _ kept recorded does => recorded.step kept does) kept_empty (by simp [Recorded, Proxy.empty])

/-- The outstanding steps end the establishment, the sweep and every close of the session. -/
theorem outstanding_settles (recorded : Recorded p) (begun : w < p.sweeps.length) (inside : s < p.objects.length)
    (startOk driftOk : Bool) (faults : List Subject) :
    ∃ sess, Settled (p.run maxSessions (outstanding p w s startOk driftOk faults)) w s sess := by
  have sweep := List.getElem?_eq_getElem begun
  have start : Stands p s 0 p := ⟨⟨_, List.getElem?_eq_getElem inside, Nat.zero_le _⟩, rfl, rfl, rfl, rfl⟩
  have ended := @Stands.run p p s maxSessions startOk driftOk faults 0 start openStages (by decide) (by decide)
  simp only [outstanding, sweep, Option.getD_some, run_append]
  generalize p.run maxSessions (openStages.map (ownStep s startOk driftOk faults)) = p₁ at ended ⊢
  obtain ⟨sess, found, last⟩ := ended.reached
  have finished : sess.stage = .over := by
    cases is : sess.stage <;> first | rfl | (rw [is] at last; exact absurd last (by decide))
  obtain ⟨p₂, rfl, objects₂, owed₂, swept, few⟩ := visits_over maxSessions faults s (by rw [ended.sweeps, sweep])
    (fun t mem => ended.length.symm ▸ recorded _ (List.getElem_mem begun) t mem)
  rw [ended.reclaims] at few
  rw [ended.owed] at owed₂
  rw [← objects₂] at found
  obtain ⟨p₃, rfl, objects₃, sweeps₃, asked, few⟩ := rechecks_over maxSessions faults found few
  rw [owed₂] at few
  rw [← objects₃] at found
  obtain ⟨p₄, sess', rfl, found, stage, sweeps₄, reclaims₄, closed⟩ := closes_over maxSessions found few
  refine ⟨sess', found, stage.trans finished, closed, reclaims₄ ▸ asked, ?_⟩
  rw [sweeps₄, sweeps₃, swept]

/-- The run of a sweep after these events. -/
theorem reach_sweep : reach maxSessions (es ++ .sweep :: later) =
    ((reach maxSessions es).step maxSessions .sweep).run maxSessions later := reach_append es _

/-- A sweep that a kill was applied before, and the end of each establishment, reach every session
the kill names. -/
theorem kill_reaches (there : k ∈ (reach maxSessions es).kills)
    (unrevived : .revive k ∉ later) (answered : ∀ e ∈ later, e.faults = [])
    (named : ∀ part, part <+: later → ∀ sess, (reach maxSessions (es ++ .sweep :: part)).objects[s]? = some sess →
      ∃ subj ∈ sess.subjects, k.names subj = true)
    (settled : Settled (reach maxSessions (es ++ .sweep :: later)) (reach maxSessions es).sweeps.length s sess) :
    Reclaimed (reach maxSessions (es ++ .sweep :: later)) s sess := by
  have killed (part : List Event) (front : part <+: later) (sess : Session)
      (found : (((reach maxSessions es).step maxSessions .sweep).run maxSessions part).objects[s]? = some sess) :
      (((reach maxSessions es).step maxSessions .sweep).run maxSessions part).sessionKilled sess [] = true := by
    have swept : k ∈ ((reach maxSessions es).step maxSessions .sweep).kills := there
    rw [← reach_sweep] at found
    exact sessionKilled_of_kill (run_kills _ swept fun revived => unrevived (front.subset revived))
      (named part front sess found)
  have kept : Kept ((reach maxSessions es).step maxSessions .sweep) :=
    (kept_reach es).step (step_does maxSessions _ .sweep)
  have due := due_run later kept (fun _ _ => due_sweep) answered killed sess
    (by rw [← reach_sweep]; exact settled.found)
  rw [← reach_sweep] at due
  exact reclaimed_of_due (kept_reach _) settled due

/-- Whatever the interleaving: what is registered or being established stays within a positive cap,
and the counter of reservations is the number of those who hold one, so that none is released
twice; a cleanup tail or a failed drift check removes no other session; a session whose generation
was captured before a global kill's sweep, or before the shutdown, is not registered after it; a
session that a kill names and that is not revived is, once the kill's sweep and its own
establishment are over and no close of it is under way, closed, or out of the registry for its
upstream's end or its failure to establish, or was refused; and from every state the outstanding steps of the
sweep, the establishment and the closes, however they are answered, come to that point. -/
theorem session_lifecycle_safe (maxSessions : ℤ) (es : List Event) :
    (0 < maxSessions → ((reach maxSessions es).live.card : ℤ) ≤ maxSessions ∧
      (reach maxSessions es).establishing = (reach maxSessions es).held.card) ∧
    (∀ s t, t ≠ s → (reach maxSessions es).Registered t → (reach maxSessions (es ++ [.cleanup s])).Registered t ∧
        (reach maxSessions (es ++ [.driftUnregister s])).Registered t) ∧
    (∀ s < (reach maxSessions es).objects.length, ∀ later : List Event,
      ¬ (reach maxSessions (es ++ .globalKill :: later)).Registered s ∧
        ¬ (reach maxSessions (es ++ .shutdown :: later)).Registered s) ∧
    (∀ (k : Kill) (between later : List Event) (s : ℕ) (sess : Session),
      .revive k ∉ between ++ later → (∀ e ∈ later, e.faults = []) →
      (∀ part, part <+: later → ∀ sess,
        (reach maxSessions (es ++ .kill k :: between ++ .sweep :: part)).objects[s]? = some sess →
          ∃ subj ∈ sess.subjects, k.names subj = true) →
      Settled (reach maxSessions (es ++ .kill k :: between ++ .sweep :: later))
        (reach maxSessions (es ++ .kill k :: between)).sweeps.length s sess →
      Reclaimed (reach maxSessions (es ++ .kill k :: between ++ .sweep :: later)) s sess) ∧
    ∀ w < (reach maxSessions es).sweeps.length, ∀ s < (reach maxSessions es).objects.length,
      ∀ (startOk driftOk : Bool) (faults : List Subject), ∃ sess, Settled
        (reach maxSessions (es ++ outstanding (reach maxSessions es) w s startOk driftOk faults)) w s sess := by
  refine ⟨fun positive => ?_, fun s t differ registered => ?_, fun s inside later => ?_, ?_, ?_⟩
  · exact ⟨(capped_reach es positive).bounded, (capped_reach es positive).counted⟩
  · rw [reach_concat, reach_concat]
    exact ⟨registered_unregister differ registered _ (.inl rfl), registered_unregister differ registered _ (.inr rfl)⟩
  · rw [reach_append, reach_append]
    have found := List.getElem?_eq_getElem inside
    have drained (id : Bytes) (t : ℕ) : (reach maxSessions es).drainAllSessions.getSession id ≠ some t := by
      simp [Proxy.getSession, Proxy.drainAllSessions]
    have swept : Swept s ((reach maxSessions es).step maxSessions .globalKill) :=
      ⟨⟨_, found, Nat.lt_succ_of_le (dated_reach es s _ found)⟩, fun id => drained id s⟩
    have down : Down ((reach maxSessions es).step maxSessions .shutdown) := ⟨rfl, drained⟩
    have kept (e : Event) := (kept_reach es).step (step_does maxSessions (reach maxSessions es) e)
    exact ⟨not_registered (run_keeps later (fun _ _ _ _ swept does => swept.step does) (kept _) swept).out,
      not_registered fun id => (run_keeps later (fun _ _ _ _ down does => down.step does) (kept _) down).out id s⟩
  · intro k between later s sess unrevived answered named settled
    obtain ⟨before, after⟩ := not_or.mp (List.mem_append.not.mp unrevived)
    have there : k ∈ (reach maxSessions (es ++ .kill k :: between)).kills := by
      have applied : k ∈ ((reach maxSessions es).step maxSessions (.kill k)).kills := .head _
      rw [reach_append]
      exact run_kills between applied before
    exact kill_reaches _ _ there after answered named settled
  · intro w begun s inside startOk driftOk faults
    rw [reach_append]
    exact outstanding_settles (recorded_reach es) begun inside startOk driftOk faults

/-- One session, the only one there may be, is established. -/
def establishment : List Event :=
  [.capture [115] none, .reserve 0, .start 0 true, .register 0, .drift 0 true, .finish 0, .look 0, .ask 0 [],
    .release 0]

/-- Then it is killed by its id. -/
def killing : List Event := establishment ++ .kill (.named .session [115]) :: []

/-- The rest of the kill's sweep. -/
def closing : List Event := outstanding (reach 1 (killing ++ [.sweep])) 0 0 true true []

theorem session_lifecycle_safe_killed : ∃ sess, (reach 1 (killing ++ .sweep :: closing)).objects[0]? = some sess ∧
    sess.closed = true ∧ Reclaimed (reach 1 (killing ++ .sweep :: closing)) 0 sess := by
  have run : killing ++ .sweep :: closing = (killing ++ [.sweep]) ++ closing := by simp
  obtain ⟨sess, settled⟩ := (session_lifecycle_safe 1 (killing ++ [.sweep])).2.2.2.2 0 (by decide) 0
    (by decide) true true []
  rw [← closing, ← run] at settled
  have named : ∀ part ∈ closing.inits, ∀ sess ∈ (reach 1 (killing ++ .sweep :: part)).objects[0]?,
      ∃ subj ∈ sess.subjects, (Kill.named .session [115]).names subj = true := by
    decide
  have closed : ∀ sess ∈ (reach 1 (killing ++ .sweep :: closing)).objects[0]?, sess.closed = true := by
    decide
  refine ⟨sess, settled.found, closed sess settled.found, ?_⟩
  refine (session_lifecycle_safe 1 establishment).2.2.2.1 (.named .session [115]) [] closing 0 sess
    (by simp [closing, outstanding, openStages, ownStep]) (by decide) ?_ settled
  exact fun part front => named part ((List.mem_inits part _).mpr front)

end Runs

end Eunox.SessionLifecycle
