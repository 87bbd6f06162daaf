import Mathlib.Tactic
import Eunox.IndexedList
import Eunox.SessionLifecycle

/-! What every interleaving of the session goroutines keeps. -/
namespace Eunox.SessionLifecycle
open IndexedList
open ByteString (Bytes)
open KillSwitch (Subject)

/-! Stages. -/

/-- Not in the registry yet. -/
def Stage.unpublished : Stage → Bool
  | .captured | .reserved | .started => true
  | _ => false

/-- Before the last look at the kill switch is over. -/
def Stage.unchecked : Stage → Bool
  | .releasing | .over => false
  | _ => true

/-- Where a session may be initializing. -/
def Stage.initializes : Stage → Bool
  | .reserved | .started | .registered | .drifted | .torn | .finishing => true
  | _ => false

theorem Stage.unchecked_of_initializes {stage : Stage} (on : stage.initializes = true) : stage.unchecked = true := by
  cases stage <;> first | rfl | cases on

def Session.Initializes (sess : Session) : Prop := sess.initInProgress = true → sess.stage.initializes = true

/-- What a goroutine that touches nothing else does to a session. -/
structure Move (p : Proxy) (faults : List Subject) (s : ℕ) (sess sess' : Session) : Prop where
  sameId : sess'.id = sess.id
  startGen : sess'.startGen = sess.startGen
  holds : sess'.stage.holds = sess.stage.holds
  closed : sess.closed = true → sess'.closed = true
  done : sess.done = true → sess'.done = true
  failure : sess.failure ≠ none → sess'.failure ≠ none
  published : sess.stage.unpublished = true → sess'.stage.unpublished = true ∨ sess'.failure ≠ none
  forward : sess'.stage.unpublished = true → sess.stage.unpublished = true
  initializing : sess.Initializes → sess'.Initializes
  /-- A session that is killed leaves its last check closed, or out of the registry. -/
  checked : sess.stage.unchecked = true → faults = [] → p.sessionKilled sess [] = true →
    sess'.stage.unchecked = true ∨ sess'.closed = true ∨ p.getSession sess.id ≠ some s ∨
      sess.stage.unpublished = true

theorem Move.refl (p : Proxy) (faults : List Subject) (s : ℕ) (sess : Session) : Move p faults s sess sess :=
  ⟨rfl, rfl, rfl, id, id, id, .inl, id, id, fun on _ _ => .inl on⟩

/-- Whether the goroutine may go from a stage to the next, with a failure or not, still initializing or not. -/
def Stage.leads (stage next : Stage) (fails on : Bool) : Bool :=
  next.holds == stage.holds && (!stage.unpublished || next.unpublished || fails) &&
    (!next.unpublished || stage.unpublished) && (!on || !stage.initializes || next.initializes)

theorem Move.leads (here : sess.stage = stage) (close on : Bool) (failed : Option Failure)
    (leads : stage.leads next failed.isSome on = true)
    (checked : next.unchecked = true ∨ close = true ∨ p.getSession sess.id ≠ some s ∨ stage.unpublished = true) :
    Move p faults s sess { sess with
      stage := next, closed := close || sess.closed, initInProgress := on && sess.initInProgress
      failure := failed.or sess.failure } := by
  simp only [Stage.leads, Bool.and_eq_true, beq_iff_eq, Bool.or_eq_true, Bool.not_eq_true'] at leads
  obtain ⟨⟨⟨holds, published⟩, forward⟩, initializing⟩ := leads
  subst here
  refine ⟨rfl, rfl, holds, by simp +contextual, id, ?_, fun early => ?_, fun early => ?_, fun own init => ?_,
    fun _ _ _ => checked.imp_right (Or.imp_left (by simp [·]))⟩
  · cases failed <;> simp
  · cases failed <;> simp_all
  · exact forward.resolve_left (by simp [early])
  · simp_all [Session.Initializes]

/-- A session that asks about itself goes on towards its close only where it is killed. -/
theorem Move.asks (here : sess.stage = .asking ∧ next = .reclaiming ∨ sess.stage = .reclaiming ∧ next = .closing) :
    Move p faults s sess { sess with stage := if p.sessionKilled sess faults then next else .releasing } := by
  obtain ⟨here, rfl⟩ | ⟨here, rfl⟩ := here
  all_goals
    refine ⟨rfl, rfl, ?_, id, id, id, by simp [here, Stage.unpublished], ?_,
      fun on init => by simpa [here, Stage.initializes] using on init, fun _ faultless killed => .inl ?_⟩
    · dsimp only
      split <;> simp [here, Stage.holds]
    · dsimp only
      split <;> simp [Stage.unpublished]
    · obtain rfl := faultless
      simp [killed, Stage.unchecked]

section Registry
variable {maxSessions : ℤ} {p q : Proxy} {e : Event} {s t : ℕ} {sess sess' : Session} {id : Bytes}

theorem getSession_erase (found : (p.sessions.erase gone).lookup id = some t) : p.getSession id = some t := by
  by_cases same : id = gone
  · subst same
    simp at found
  · rwa [AList.lookup_erase_ne same] at found

theorem getSession_insert (found : (p.sessions.insert new s).lookup id = some t) :
    p.getSession id = some t ∨ (t = s ∧ id = new) := by
  by_cases same : id = new
  · subst same
    rw [AList.lookup_insert] at found
    exact .inr ⟨(Option.some.inj found).symm, rfl⟩
  · rw [AList.lookup_insert_ne same] at found
    exact .inl found

/-- Unregistering a session removes no other. -/
theorem getSession_unregister (other : t ≠ s) (found : p.getSession id = some t) :
    (p.unregisterSession s sess).getSession id = some t := by
  unfold Proxy.unregisterSession
  split
  · next own =>
    have differ : id ≠ sess.id := by
      rintro rfl
      exact other (Option.mem_unique found own)
    exact (AList.lookup_erase_ne differ).trans found
  · exact found

theorem getSession_of_unregister (found : (p.unregisterSession s sess).getSession id = some t) :
    p.getSession id = some t := by
  unfold Proxy.unregisterSession at found
  split at found
  · exact getSession_erase found
  · exact found

theorem tryReserve_cases (slot : p.tryReserveSessionSlot maxSessions = some q) : (maxSessions ≤ 0 ∧ q = p) ∨
      (p.sessions.entries.length + p.establishing < maxSessions ∧ q = { p with establishing := p.establishing + 1 }) := by
  unfold Proxy.tryReserveSessionSlot at slot
  split at slot
  · next unlimited => exact .inl ⟨unlimited, (Option.some.inj slot).symm⟩
  split at slot
  · cases slot
  · next room => exact .inr ⟨not_le.mp room, (Option.some.inj slot).symm⟩

theorem register_cases (ok : p.registerSession maxSessions s sess = .ok q) :
    p.shuttingDown = false ∧ p.reapGen = sess.startGen ∧ p.getSession sess.id = none ∧
      q = { p with sessions := p.sessions.insert sess.id s } := by
  unfold Proxy.registerSession at ok
  split at ok
  · cases ok
  next serving =>
  split at ok
  · cases ok
  next current =>
  split at ok
  · cases ok
  split at ok
  · cases ok
  next free =>
  exact ⟨by simpa using serving, by simpa using current, by simpa using free, (Except.ok.inj ok).symm⟩

end Registry

variable (maxSessions : ℤ) (p : Proxy) (e : Event) in
/-- What a step does, with what it was done on. -/
inductive Does : Proxy → Prop
  | stays : Does p
  | captures (id : Bytes) (claims : Option Claims) : Does
      { p with objects := p.objects ++ [{ id := id, claims := claims, startGen := p.reapGen }] }
  | moves {s : ℕ} {sess sess' : Session} (found : p.objects[s]? = some sess)
      (move : Move p e.faults s sess sess') : Does (p.put s sess')
  | reserves {s : ℕ} {sess : Session} (establishing : ℕ) (found : p.objects[s]? = some sess)
      (here : sess.stage = .captured) (slot : 0 < maxSessions →
        p.sessions.entries.length + p.establishing < maxSessions ∧ establishing = p.establishing + 1) :
      Does ({ p with establishing := establishing }.put s
        { sess with stage := .reserved, initInProgress := true })
  | registers {s : ℕ} {sess : Session} (found : p.objects[s]? = some sess) (here : sess.stage = .started)
      (serving : p.shuttingDown = false) (current : p.reapGen = sess.startGen) (free : p.getSession sess.id = none) :
      Does ({ p with sessions := p.sessions.insert sess.id s }.put s
        { sess with stage := .registered, published := true })
  | unregisters {s : ℕ} {sess sess' : Session} (sessions : AList fun _ : Bytes => ℕ)
      (found : p.objects[s]? = some sess) (move : Move p e.faults s sess sess')
      (reason : sess'.done = true ∨ sess'.failure ≠ none)
      (loses : ∀ id t, sessions.lookup id = some t → p.getSession id = some t)
      (keeps : ∀ id t, t ≠ s → p.getSession id = some t → sessions.lookup id = some t) :
      Does ({ p with sessions := sessions }.put s sess')
  | releases {s : ℕ} {sess : Session} (establishing : ℕ) (found : p.objects[s]? = some sess)
      (here : sess.stage = .releasing) (slot : 0 < maxSessions → establishing = p.establishing - 1) :
      Does ({ p with establishing := establishing }.put s { sess with stage := .over })
  | kills (kills : List Kill) (unrevived : ∀ k ∈ p.kills, e ≠ .revive k → k ∈ kills) :
      Does { p with kills := kills }
  | sweeps : Does { p with sweeps := p.sweeps ++ [p.snapshotSessions] }
  | visits {w s : ℕ} {pending : List ℕ} {sess : Session} (sweep : p.sweeps[w]? = some pending)
      (found : p.objects[s]? = some sess) : Does
      { p with
        sweeps := p.sweeps.set w (pending.erase s)
        reclaims := if sess.initInProgress || !p.sessionKilled sess e.faults then p.reclaims else s :: p.reclaims }
  | rechecks {s : ℕ} {sess : Session} (found : p.objects[s]? = some sess) : Does
      { p with
        reclaims := p.reclaims.erase s
        owed := if p.sessionKilled sess e.faults then s :: p.owed else p.owed }
  | tears {id : Bytes} {s : ℕ} (found : p.getSession id = some s) : Does
      { p with sessions := p.sessions.erase id, owed := s :: p.owed }
  | drains {gen : ℕ} {down : Bool} (later : p.reapGen ≤ gen) (latched : p.shuttingDown = true → down = true) :
      Does { p.drainAllSessions with reapGen := gen, shuttingDown := down }
  | closes {s : ℕ} {sess : Session} (found : p.objects[s]? = some sess) : Does
      ({ p with owed := p.owed.erase s }.put s { sess with closed := true })

section Steps
variable {maxSessions : ℤ} {p : Proxy} {e : Event}

/-- A step of the session's own goroutine does what it does where the goroutine stands there. -/
theorem onStage_does
    (does : ∀ sess, p.objects[s]? = some sess → sess.stage = stage → Does maxSessions p e (next sess)) :
    Does maxSessions p e (p.onStage s stage next) := by
  unfold Proxy.onStage
  split
  · next sess found =>
    split
    · next here => exact does sess found here
    · exact .stays
  · exact .stays

theorem update_does (move : ∀ sess, Move p e.faults s sess (f sess)) : Does maxSessions p e (p.update s f) := by
  unfold Proxy.update
  split
  · next sess found => exact .moves found (move sess)
  · exact .stays

theorem unregister_does (found : p.objects[s]? = some sess) (move : Move p e.faults s sess sess')
    (reason : sess'.done = true ∨ sess'.failure ≠ none) :
    Does maxSessions p e ((p.unregisterSession s sess).put s sess') := by
  rw [unregisterSession_eq]
  exact .unregisters _ found move reason (fun _ _ => getSession_of_unregister) fun _ _ => getSession_unregister

variable (maxSessions p)

theorem establish_does (e : Event) : Does maxSessions p e (p.establish maxSessions e) := by
  cases e with
  | reserve s =>
    refine onStage_does fun sess found here => ?_
    split
    · next p' slot =>
      obtain ⟨unlimited, rfl⟩ | ⟨room, rfl⟩ := tryReserve_cases slot
      · exact .reserves p'.establishing found here fun positive => absurd positive (not_lt.mpr unlimited)
      · exact .reserves _ found here fun _ => ⟨room, rfl⟩
    · exact .moves found (.leads here false true (some .limit) rfl (.inr (.inr (.inr rfl))))
  | start s ok =>
    refine onStage_does fun sess found here => .moves found ?_
    cases ok with
    | true => exact .leads here false true none rfl (.inl rfl)
    | false => exact .leads here false true (some .start) rfl (.inl rfl)
  | register s =>
    refine onStage_does fun sess found here => ?_
    split
    · next p' ok =>
      obtain ⟨serving, current, free, rfl⟩ := register_cases ok
      exact .registers found here serving current free
    · next err _ => exact .moves found (.leads here false true (some (.refused err)) rfl (.inl rfl))
  | drift s ok =>
    refine onStage_does fun sess found here => .moves found ?_
    cases ok <;> exact .leads here false true none rfl (.inl rfl)
  | driftClose s =>
    exact onStage_does fun sess found here => .moves found (.leads here true true none rfl (.inl rfl))
  | driftUnregister s =>
    refine onStage_does fun sess found here => unregister_does found ?_ (.inr (by simp))
    exact .leads here false true (some .drift) rfl (.inl rfl)
  | finish s =>
    exact onStage_does fun sess found here => .moves found (.leads here false false none rfl (.inl rfl))
  | look s =>
    refine onStage_does fun sess found here => .moves found ?_
    by_cases there : p.getSession sess.id = some s
    · simp only [if_pos there]
      exact .leads here false true none rfl (.inl rfl)
    · simp only [if_neg there]
      exact .leads here false true none rfl (.inr (.inr (.inl there)))
  | ask s faults => exact onStage_does fun sess found here => .moves found (.asks (.inl ⟨here, rfl⟩))
  | reclaim s faults =>
    exact onStage_does fun sess found here => .moves found (.asks (.inr ⟨here, rfl⟩))
  | reclaimClose s =>
    exact onStage_does fun sess found here =>
      .moves found (.leads here true true none rfl (.inr (.inl rfl)))
  | release s =>
    refine onStage_does fun sess found here => ?_
    rw [releaseSessionSlot_eq]
    exact .releases _ found here fun positive => by rw [Proxy.releaseSessionSlot, if_neg (not_le.mpr positive)]
  | _ => exact .stays

theorem step_does (e : Event) : Does maxSessions p e (p.step maxSessions e) := by
  cases e with
  | capture id claims => exact .captures id claims
  | present s token =>
    refine update_does fun sess => ?_
    unfold Session.noteLiveTokenID
    split
    · exact .refl p _ s sess
    · exact ⟨rfl, rfl, rfl, id, id, id, .inl, id, id, fun on _ _ => .inl on⟩
  | kill k => exact .kills _ fun _ there _ => .tail _ there
  | revive k =>
    refine .kills _ fun k' there other => List.mem_filter.mpr ⟨there, ?_⟩
    simpa using fun same : k' = k => other (same ▸ rfl)
  | sweep => exact .sweeps
  | visit w s faults =>
    change Does _ _ _ (p.visit w s faults)
    unfold Proxy.visit
    split
    · next pending sess sweep found =>
      split
      · exact .visits sweep found
      · exact .stays
    · exact .stays
  | recheck s faults =>
    change Does _ _ _ (p.recheck s faults)
    unfold Proxy.recheck
    split
    · next sess found =>
      split
      · exact .rechecks found
      · exact .stays
    · exact .stays
  | teardown id =>
    change Does _ _ _ (p.teardownSessionByID id)
    unfold Proxy.teardownSessionByID
    split
    · next s found => exact .tears found
    · exact .stays
  | globalKill => exact .drains (Nat.le_succ _) id
  | shutdown => exact .drains le_rfl fun _ => rfl
  | close s =>
    change Does _ _ _ (p.closeOwed s)
    unfold Proxy.closeOwed
    split
    · next sess found =>
      split
      · exact .closes found
      · exact .stays
    · exact .stays
  | upstreamEnd s =>
    refine update_does fun sess => ?_
    split
    · exact ⟨rfl, rfl, rfl, id, fun _ => rfl, id, .inl, id, id, fun on _ _ => .inl on⟩
    · exact .refl p _ s sess
  | cleanup s =>
    change Does _ _ _ (p.finishSessionCleanup s)
    unfold Proxy.finishSessionCleanup
    split
    · next sess found =>
      split
      · next gone =>
        have same : (p.unregisterSession s sess).put s sess = p.unregisterSession s sess := by
          obtain ⟨inside, rfl⟩ := List.getElem?_eq_some_iff.mp found
          rw [unregisterSession_eq]
          simp [Proxy.put]
        rw [← same]
        exact unregister_does found (.refl p _ s sess) (.inl gone)
      · exact .stays
    · exact .stays
  | _ => exact establish_does maxSessions p _

end Steps

/-! Where every session is. -/

section Kept
variable {maxSessions : ℤ} {p q : Proxy} {e : Event} {s t : ℕ} {sess sess' : Session} {id : Bytes}

theorem mem_ite {l l' : List ℕ} {c : Prop} [Decidable c] (left : t ∈ l) (right : t ∈ l') : t ∈ if c then l else l' := by
  split
  · exact left
  · exact right

/-- A session is to be published, in the registry, closed or about to be, or out of it for a reason. -/
def Accounted (p : Proxy) (s : ℕ) (sess : Session) : Prop :=
  sess.stage.unpublished = true ∨ p.getSession sess.id = some s ∨ sess.closed = true ∨ s ∈ p.owed ∨
    sess.done = true ∨ sess.failure ≠ none

/-- What holds in every state. -/
structure Kept (p : Proxy) : Prop where
  /-- The registry holds published sessions under their own ids. -/
  registry : ∀ id s, p.getSession id = some s →
    ∃ sess, p.objects[s]? = some sess ∧ sess.id = id ∧ sess.stage.unpublished = false
  accounted : ∀ (s : ℕ) (sess : Session), p.objects[s]? = some sess → Accounted p s sess
  initializing : ∀ (s : ℕ) (sess : Session), p.objects[s]? = some sess → sess.Initializes

/-- What changes of the goroutines' state alone keep. -/
theorem Kept.same (kept : Kept p) (objects : q.objects = p.objects)
    (registry : ∀ id t, q.getSession id = some t → p.getSession id = some t)
    (accounted : ∀ t sess, p.objects[t]? = some sess → Accounted p t sess → Accounted q t sess) : Kept q := by
  constructor
  · intro id t found
    rw [objects]
    exact kept.registry id t (registry id t found)
  · intro t sess found
    rw [objects] at found
    exact accounted t sess found (kept.accounted t sess found)
  · intro t sess found
    rw [objects] at found
    exact kept.initializing t sess found

/-- What a change of one session keeps. -/
theorem Kept.change (kept : Kept p) (found : p.objects[s]? = some sess) (objects : q.objects = p.objects.set s sess')
    (sameId : sess'.id = sess.id) (forward : sess'.stage.unpublished = true → sess.stage.unpublished = true)
    (registry : ∀ id t, q.getSession id = some t → p.getSession id = some t ∨
      (t = s ∧ id = sess.id ∧ sess'.stage.unpublished = false))
    (others : ∀ t other, t ≠ s → Accounted p t other → Accounted q t other)
    (here : Accounted q s sess') (initializing : sess'.Initializes) : Kept q := by
  constructor
  · intro id t filed
    rw [objects]
    rcases registry id t filed with old | ⟨rfl, rfl, published⟩
    · obtain ⟨other, at_t, named, published⟩ := kept.registry id t old
      rcases exchanged (a := sess') found at_t with ⟨rfl, rfl, new⟩ | ⟨-, new⟩
      · refine ⟨sess', new, sameId.trans named, Bool.eq_false_iff.mpr fun on => ?_⟩
        simp [forward on] at published
      · exact ⟨other, new, named, published⟩
    · exact ⟨sess', set_self found, sameId, published⟩
  · intro t other at_t
    rw [objects] at at_t
    rcases set_cases at_t with ⟨rfl, rfl⟩ | ⟨differ, old⟩
    · exact here
    · exact others t other differ (kept.accounted t other old)
  · intro t other at_t
    rw [objects] at at_t
    rcases set_cases at_t with ⟨rfl, rfl⟩ | ⟨-, old⟩
    · exact initializing
    · exact kept.initializing t other old

theorem Accounted.mono (accounted : Accounted p s sess)
    (registry : p.getSession sess.id = some s → q.getSession sess.id = some s ∨ s ∈ q.owed)
    (owed : s ∈ p.owed → s ∈ q.owed) : Accounted q s sess := by
  unfold Accounted at accounted ⊢
  tauto

theorem Move.accounted (move : Move p faults s sess sess') (accounted : Accounted p s sess) :
    Accounted p s sess' := by
  rw [Accounted, move.sameId]
  rcases accounted with new | held
  · exact (move.published new).imp_right (.inr ∘ .inr ∘ .inr ∘ .inr)
  · exact .inr (held.imp_right (.imp move.closed (.imp_right (.imp move.done move.failure))))

theorem Kept.step (kept : Kept p) (does : Does maxSessions p e q) : Kept q := by
  cases does with
  | stays => exact kept
  | captures id claims =>
    refine ⟨fun id t filed => ?_, fun t other found => ?_, fun t other found => ?_⟩
    · obtain ⟨other, found, rest⟩ := kept.registry id t filed
      exact ⟨other, append_old found, rest⟩
    · rcases append_cases found with ⟨-, found⟩ | ⟨-, rfl⟩
      · exact kept.accounted t other found
      · exact .inl rfl
    · rcases append_cases found with ⟨-, found⟩ | ⟨-, rfl⟩
      · exact kept.initializing t other found
      · exact nofun
  | @moves s sess sess' found move =>
    exact kept.change found rfl move.sameId move.forward (fun _ _ => .inl) (fun _ _ _ => id)
      (move.accounted (kept.accounted s sess found)) (move.initializing (kept.initializing s sess found))
  | reserves establishing found here =>
    exact kept.change found rfl rfl (fun _ => by simp [here, Stage.unpublished]) (fun _ _ => .inl)
      (fun _ _ _ => id) (.inl rfl) fun _ => rfl
  | @registers s sess found here serving current free =>
    refine kept.change found rfl rfl (by simp [Stage.unpublished]) (fun id t filed => ?_) (fun t other differ held => ?_)
      (.inr (.inl (AList.lookup_insert _))) fun _ => rfl
    · exact (getSession_insert filed).imp_right fun ⟨own, named⟩ => ⟨own, named, rfl⟩
    · refine held.mono (fun filed => .inl ?_) id
      have differ : other.id ≠ sess.id := by
        intro same
        rw [same, free] at filed
        cases filed
      exact (AList.lookup_insert_ne differ).trans filed
  | @unregisters s sess sess' sessions found move reason loses keeps =>
    refine kept.change found rfl move.sameId move.forward (fun id t filed => .inl (loses id t filed))
      (fun t other differ held => ?_) ?_ (move.initializing (kept.initializing s sess found))
    · exact held.mono (fun filed => .inl (keeps _ t differ filed)) id
    · rcases reason with gone | failed
      · exact .inr (.inr (.inr (.inr (.inl gone))))
      · exact .inr (.inr (.inr (.inr (.inr failed))))
  | @releases s sess establishing found here =>
    refine kept.change found rfl rfl (by simp [Stage.unpublished]) (fun _ _ => .inl) (fun _ _ _ => id) ?_ fun on => ?_
    · rcases kept.accounted s sess found with new | rest
      · simp [here, Stage.unpublished] at new
      · exact .inr rest
    · have := kept.initializing s sess found on
      simp [here, Stage.initializes] at this
  | kills | sweeps | visits => exact kept.same rfl (fun _ _ => id) fun _ _ _ => id
  | @rechecks s sess found =>
    exact kept.same rfl (fun _ _ => id) fun t other at_t held =>
      held.mono .inl fun due => mem_ite (.tail _ due) due
  | @tears id s filed =>
    refine kept.same rfl (fun _ _ => getSession_erase) fun t other at_t held => held.mono (fun found => ?_)
      (List.mem_cons_of_mem _)
    by_cases same : other.id = id
    · obtain rfl := Option.some.inj ((same ▸ filed).symm.trans found)
      exact .inr (.head _)
    · exact .inl ((AList.lookup_erase_ne same).trans found)
  | drains later latched =>
    refine kept.same rfl (fun id t found => ?_) fun t other at_t held => held.mono (fun found => .inr ?_)
      (List.mem_append_right _)
    · simp [Proxy.getSession, Proxy.drainAllSessions] at found
    · refine List.mem_append_left _ (List.mem_map.mpr ⟨⟨other.id, t⟩, ?_, rfl⟩)
      exact AList.mem_lookup_iff.mp found
  | @closes s sess found =>
    refine kept.change found rfl rfl id (fun _ _ => .inl) (fun t other differ held => ?_)
      (.inr (.inr (.inl rfl))) (kept.initializing s sess found)
    exact held.mono .inl fun due => (List.mem_erase_of_ne differ).mpr due

/-! A kill reaches the session it names. -/

variable {w : ℕ}

/-- A killed session that nothing is left to do about is closed, or out of the registry. -/
def Due (w : ℕ) (p : Proxy) (s : ℕ) (sess : Session) : Prop :=
  p.getSession sess.id ≠ some s ∨ sess.closed = true ∨ s ∈ p.owed ∨ s ∈ p.reclaims ∨
    sess.stage.unchecked = true ∨ ∃ pending, p.sweeps[w]? = some pending ∧ s ∈ pending

theorem Due.mono (due : Due w p s sess) (registry : q.getSession sess.id = some s → p.getSession sess.id = some s)
    (owed : s ∈ p.owed → s ∈ q.owed) (reclaims : s ∈ p.reclaims → s ∈ q.reclaims)
    (sweeps : (∃ pending, p.sweeps[w]? = some pending ∧ s ∈ pending) →
      ∃ pending, q.sweeps[w]? = some pending ∧ s ∈ pending) : Due w q s sess :=
  due.imp (mt registry) (.imp_right (.imp owed (.imp reclaims (.imp_right sweeps))))

/-- The same where only the session's own goroutine moved. -/
theorem Move.due (move : Move p faults s sess sess') (kept : Kept p) (found : p.objects[s]? = some sess)
    (faultless : faults = []) (killed : p.sessionKilled sess [] = true) (due : Due w p s sess) : Due w p s sess' := by
  rcases due with out | closed | close | reclaim | unchecked | pending
  · exact .inl (move.sameId.symm ▸ out)
  · exact .inr (.inl (move.closed closed))
  · exact .inr (.inr (.inl close))
  · exact .inr (.inr (.inr (.inl reclaim)))
  · rcases move.checked unchecked faultless killed with still | closed | out | new
    · exact .inr (.inr (.inr (.inr (.inl still))))
    · exact .inr (.inl closed)
    · exact .inl (move.sameId.symm ▸ out)
    refine .inl fun filed => ?_
    obtain ⟨other, at_s, -, published⟩ := kept.registry _ _ filed
    obtain rfl := Option.mem_unique found at_s
    simp [new] at published
  · exact .inr (.inr (.inr (.inr (.inr pending))))

/-- The registry loses sessions only, but for one that is registered. -/
theorem Does.registry (does : Does maxSessions p e q) {other : ℕ} (filed : q.getSession id = some other) :
    p.getSession id = some other ∨
      ∃ sess sess', p.objects[other]? = some sess ∧ sess.stage = .started ∧ p.reapGen = sess.startGen ∧
        p.shuttingDown = false ∧ q.objects[other]? = some sess' ∧ sess'.stage = .registered := by
  cases does with
  | @registers s sess found here serving current free =>
    refine (getSession_insert filed).imp_right ?_
    rintro ⟨rfl, -⟩
    exact ⟨sess, _, found, here, current, serving, set_self found, rfl⟩
  | unregisters sessions found move reason loses => exact .inl (loses _ _ filed)
  | tears => exact .inl (getSession_erase filed)
  | drains => simp [Proxy.getSession, Proxy.drainAllSessions] at filed
  | _ => exact .inl filed

/-- What is due of one session, where another changed, or itself. -/
theorem due_change (due : ∀ sess, p.objects[s]? = some sess → Due w p s sess) (found : p.objects[t]? = some sess)
    (objects : q.objects = p.objects.set t sess') (here : s = t → Due w p s sess → Due w q s sess')
    (others : s ≠ t → ∀ other, Due w p s other → Due w q s other) :
    ∀ sess, q.objects[s]? = some sess → Due w q s sess := by
  intro other at_s
  rw [objects] at at_s
  rcases set_cases at_s with ⟨rfl, rfl⟩ | ⟨differ, old⟩
  · exact here rfl (due sess found)
  · exact others differ other (due other old)

/-- While a session stays killed, every step leaves it to be dealt with or dealt with. -/
theorem due_step (kept : Kept p) (does : Does maxSessions p e q) (faultless : e.faults = [])
    (killed : ∀ sess, p.objects[s]? = some sess → p.sessionKilled sess [] = true)
    (due : ∀ sess, p.objects[s]? = some sess → Due w p s sess) :
    ∀ sess, q.objects[s]? = some sess → Due w q s sess := by
  cases does with
  | stays => exact due
  | captures id claims =>
    intro sess found
    rcases append_cases found with ⟨-, found⟩ | ⟨-, rfl⟩
    · exact due sess found
    · exact .inr (.inr (.inr (.inr (.inl rfl))))
  | @moves t sess sess' found move =>
    refine due_change due found rfl (fun same here => ?_) fun _ _ => id
    subst same
    exact move.due kept found faultless (killed sess found) here
  | reserves establishing found =>
    exact due_change due found rfl (fun _ _ => .inr (.inr (.inr (.inr (.inl rfl))))) fun _ _ => id
  | @registers t sess found =>
    refine due_change due found rfl (fun _ _ => .inr (.inr (.inr (.inr (.inl rfl))))) fun differ other here => ?_
    exact here.mono (fun filed => (getSession_insert filed).resolve_right fun own => differ own.1)
      id id id
  | @unregisters t sess sess' sessions found move reason loses =>
    have lift {other : Session} (here : Due w p s other) : Due w ({ p with sessions := sessions }.put t sess') s other :=
      here.mono (loses _ s) id id id
    refine due_change due found rfl (fun same here => ?_) fun _ _ => lift
    subst same
    exact lift (move.due kept found faultless (killed sess found) here)
  | @releases t sess establishing found stage =>
    refine due_change due found rfl (fun _ here => ?_) fun _ _ => id
    have checked : ¬ sess.stage.unchecked = true := by simp [stage, Stage.unchecked]
    unfold Due at here ⊢
    tauto
  | kills => exact due
  | sweeps =>
    intro sess found
    exact (due sess found).mono id id id (Exists.imp fun _ => And.imp_left append_old)
  | @visits w' t pending' visited sweep' found' =>
    intro sess found
    by_cases same : s = t
    · -- Initializing, it will ask about itself; otherwise it is found killed.
      subst same
      obtain rfl := Option.mem_unique found' found
      by_cases initializing : visited.initInProgress = true
      · exact .inr (.inr (.inr (.inr (.inl
          (Stage.unchecked_of_initializes (kept.initializing s visited found initializing))))))
      · refine .inr (.inr (.inr (.inl ?_)))
        simp [initializing, faultless, killed visited found]
    · refine (due sess found).mono id id (fun due => mem_ite due (.tail _ due)) ?_
      rintro ⟨pending, sweep, mem⟩
      rcases exchanged (a := pending'.erase t) sweep' sweep with ⟨-, rfl, new⟩ | ⟨-, new⟩
      · exact ⟨_, new, (List.mem_erase_of_ne same).mpr mem⟩
      · exact ⟨pending, new, mem⟩
  | @rechecks t asked found' =>
    intro sess found
    by_cases same : s = t
    · subst same
      obtain rfl := Option.mem_unique found' found
      refine .inr (.inr (.inl ?_))
      simp [faultless, killed asked found]
    · exact (due sess found).mono id (fun due => mem_ite (.tail _ due) due) (List.mem_erase_of_ne same).mpr id
  | @tears id t filed =>
    intro sess found
    exact (due sess found).mono getSession_erase (List.mem_cons_of_mem _) (fun due => due) fun sweep => sweep
  | drains => exact fun sess _ => .inl (by simp [Proxy.getSession, Proxy.drainAllSessions])
  | @closes t sess found =>
    refine due_change due found rfl (fun _ _ => .inr (.inl rfl)) fun differ other here => ?_
    exact here.mono id (List.mem_erase_of_ne differ).mpr id id

end Kept

end Eunox.SessionLifecycle
