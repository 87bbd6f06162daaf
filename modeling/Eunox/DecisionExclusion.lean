import Eunox.DecisionFifo

/-! Every event of a serializer in use keeps the turns in order, as long as its
callers take tickets only on queues they hold pinned and wait again on a ticket
only once the calls before have given up. -/
namespace Eunox.DecisionTurn
open TicketQueue IndexedList KeyedRegistry

variable {K : Type}

/-- What a handle on this queue reads. -/
def Usage.queue (u : Usage K) (v : ℕ) : TicketQueue := u.queues.value .fresh v

/-- The invariant of a serializer in use, but for what the registry keeps. -/
structure Core (u : Usage K) : Prop where
  shelf : Shelf u.queues.key u.queues.refs u.queue u.queues.entries u.pins
  ledger : Ledger u.queues.key u.queue u.queues.entries u.tickets
  turns : Turns u.queue u.tickets u.waits u.order
  awake : Awake u.queue u.tickets u.waits

/-- Every filed queue but possibly this one is in use. -/
def KeptBut (refs : ℕ → ℤ) (queue : ℕ → TicketQueue) (entries : K → Option ℕ) (v : ℕ) : Prop :=
  ∀ a w, w ≠ v → entries a = some w → 0 < refs w ∨ (queue w).handed ≠ (queue w).serving

structure Fifo (u : Usage K) : Prop extends Core u where
  kept : Kept u.queues.refs u.queue u.queues.entries

/-- What the callers owe: `takeOn` only on a queue held pinned, and no second
call on a ticket while an earlier one waits, holds the turn or has had it. -/
def Usage.Allows (u : Usage K) : Event K → Prop
  | .takeOn i => (u.pins[i]?).all (·.live) = true
  | .begin k _ _ _ => ∀ w ∈ u.waits, w.ticket = k → w.phase = .gaveUp
  | _ => True

instance (u : Usage K) (e : Event K) : Decidable (u.Allows e) := by
  cases e <;> (unfold Usage.Allows; infer_instance)

theorem start_fifo : Fifo (Usage.start : Usage K) where
  shelf := by
    constructor <;> simp [Usage.start, KeyedRegistry.empty, key, refs, livePins]
  ledger := by
    constructor <;> simp [Usage.start, KeyedRegistry.empty, value, Usage.queue, fresh]
  turns := by
    constructor
    · intro v
      constructor <;> simp [Usage.start, KeyedRegistry.empty, value, Usage.queue, fresh]
    · simp [Usage.start]
    · intro i j w x found
      simp [Usage.start] at found
    · intro k t found
      simp [Usage.start] at found
    · simp [Usage.start, At]
    · simp [Usage.start]
  awake := by simp [Awake, Usage.start]
  kept := by simp [Kept, Usage.start, KeyedRegistry.empty]

section Steps

variable {u : Usage K}

/-- What the handles on a registry read. -/
def Reads (r : KeyedRegistry K TicketQueue) (key : ℕ → Option K) (refs : ℕ → ℤ) (queue : ℕ → TicketQueue)
    (entries : K → Option ℕ) : Prop :=
  r.key = key ∧ r.refs = refs ∧ r.value .fresh = queue ∧ r.entries = entries

theorem reads_update (keyed : u.queues.key v = some a) (f : TicketQueue → TicketQueue) :
    Reads (u.queues.update v f) u.queues.key u.queues.refs (Function.update u.queue v (f (u.queue v)))
      u.queues.entries :=
  ⟨key_update .., refs_update .., value_update .fresh keyed f, rfl⟩

theorem reads_addRefs (keyed : u.queues.key v = some a) (change : ℤ) :
    Reads (u.queues.addRefs v change) u.queues.key
      (Function.update u.queues.refs v (u.queues.refs v + change)) u.queue u.queues.entries :=
  ⟨key_addRefs .., refs_addRefs keyed change, value_addRefs .., rfl⟩

section
variable {r : KeyedRegistry K TicketQueue} {keys : ℕ → Option K} {counts : ℕ → ℤ} {queue : ℕ → TicketQueue}
  {files : K → Option ℕ} {pins : List (Pin K)} {tickets : List (Ticket K)} {waits : List Wait} {order : List ℕ}
  (reads : Reads r keys counts queue files)
include reads

theorem KeptBut.seen (kept : KeptBut counts queue files v) : KeptBut r.refs (r.value .fresh) r.entries v := by
  obtain ⟨-, rfl, rfl, rfl⟩ := reads
  exact kept

variable (shelf : Shelf keys counts queue files pins) (ledger : Ledger keys queue files tickets)
  (turns : Turns queue tickets waits order) (awake : Awake queue tickets waits)
include shelf ledger turns awake

theorem Core.seen : Core ⟨r, tickets, pins, waits, order⟩ := by
  obtain ⟨rfl, rfl, rfl, rfl⟩ := reads
  exact ⟨shelf, ledger, turns, awake⟩

theorem Fifo.seen (kept : Kept counts queue files) : Fifo ⟨r, tickets, pins, waits, order⟩ := by
  obtain ⟨rfl, rfl, rfl, rfl⟩ := reads
  exact ⟨⟨shelf, ledger, turns, awake⟩, kept⟩

end

/-- A ticket taken on a filed queue. -/
theorem Core.reserve (core : Core u) (filed : u.queues.entries a = some v)
    (kept : KeptBut u.queues.refs u.queue u.queues.entries v) : Fifo (u.reserve a v) := by
  have keyed := core.shelf.filed a v filed
  have shape : u.reserve a v = { u with
        queues := u.queues.update v ticket
        tickets := u.tickets ++ [⟨a, v, (u.queue v).handed⟩] } := by
    simp [Usage.reserve, objects_of_key keyed .fresh, Usage.queue]
  rw [shape]
  refine .seen (reads_update keyed ticket) (core.shelf.revalue fun b w keyedW unfiled => ?_)
    (core.ledger.reserve keyed filed) (core.turns.reserve a v) (fun w mem waiting parked t found => ?_)
    fun b w filedW => ?_
  · rw [Function.update_of_ne (core.shelf.apart filed keyedW unfiled)]
    exact (core.shelf.reclaimed b w keyedW unfiled).2
  · rw [@update_keeps (u.queue v).ticket v u.queue _ serving rfl]
    rw [List.getElem?_append_left (core.turns.known w mem)] at found
    exact core.awake w mem waiting parked t found
  · by_cases here : w = v
    · subst here
      have bound := (core.turns.bounded w).serving
      simp only [Function.update_self, ticket]
      omega
    · rw [Function.update_of_ne here]
      exact kept b w here filedW

/-- What a call can find when it looks: its ticket's place on a built queue. -/
theorem Core.place (core : Core u) (mem : w ∈ u.waits) :
    ∃ t, u.tickets[w.ticket]? = some t ∧ u.queues.key t.queue = some t.anchor ∧
      u.queues.objects[t.queue]? = some (⟨t.anchor, u.queues.refs t.queue⟩, u.queue t.queue) := by
  have known := core.turns.known w mem
  have found := List.getElem?_eq_getElem known
  have keyed := (core.ledger.placed _ (List.mem_of_getElem? found)).1
  exact ⟨_, found, keyed, objects_of_key keyed _⟩

theorem map_set_same {α β : Type} {f : α → β} {xs : List α} {x y : α}
    (found : xs[i]? = some x) (same : f y = f x) : (xs.set i y).map f = xs.map f := by
  obtain ⟨bound, rfl⟩ := List.getElem?_eq_some_iff.mp found
  rw [List.map_set, same, ← List.getElem_map f (h := by simpa using bound)]
  exact List.set_getElem_self _

/-- A round of the loop either lets the call through, marks its ticket
abandoned, or leaves it waiting; in each case as its queue has it. -/
theorem Fifo.examine (fifo : Fifo u) {i : ℕ} {w : Wait} (found : u.waits[i]? = some w)
    (waiting : w.phase = .waiting) (now : ℤ) : Fifo (u.examine i now) := by
  obtain ⟨t, at_, keyed, object⟩ := fifo.place (List.mem_of_getElem? found)
  set x := w.examine (u.queue t.queue).serving t.n now with round
  have ticket : x.ticket = w.ticket := w.examine_ticket _ _ _
  -- whoever still sleeps afterwards is not the one served
  have awake : ((u.queue t.queue).serving = t.n → x.phase ≠ .waiting) →
      Awake u.queue u.tickets (u.waits.set i x) := by
    intro notMissed y mem asleep parked s place
    rcases List.mem_or_eq_of_mem_set mem with old | rfl
    · exact fifo.awake y old asleep parked s place
    intro served
    rw [ticket] at place
    obtain rfl := Option.mem_unique at_ place
    exact notMissed served asleep
  rcases w.examine_cases (u.queue t.queue).serving t.n now waiting with
    ⟨served, phase⟩ | ⟨unserved, phase⟩ | ⟨unserved, phase⟩
  · rw [← round] at phase
    have shape : u.examine i now = { u with waits := u.waits.set i x, order := u.order ++ [w.ticket] } := by
      simp [Usage.examine, found, at_, object, ← round, phase]
    rw [shape]
    exact { fifo with
      turns := fifo.turns.begin found fifo.ledger at_ ticket fifo.shelf waiting served phase
      awake := awake fun _ => by simp [phase] }
  · rw [← round] at phase
    have shape : u.examine i now = { u with
          waits := u.waits.set i x
          queues := u.queues.update t.queue (abandonLocked t.n) } := by
      simp [Usage.examine, found, at_, object, ← round, phase]
    rw [shape]
    have handed := @update_keeps ((u.queue t.queue).abandonLocked t.n) t.queue u.queue _ handed rfl
    have serving := @update_keeps ((u.queue t.queue).abandonLocked t.n) t.queue u.queue _ serving rfl
    refine .seen (reads_update keyed _) (fifo.shelf.revalue fun a v keyedV unfiled => ?_)
      (fifo.ledger.revalue handed) (fifo.turns.giveUp found fifo.ledger at_ ticket waiting unserved phase)
      (fun y mem asleep parked s place => ?_) fun a v filed => ?_
    · rw [handed, serving]
      exact (fifo.shelf.reclaimed a v keyedV unfiled).2
    · rw [serving]
      exact awake (fun served => absurd served unserved) y mem asleep parked s place
    · rw [handed, serving]
      exact fifo.kept a v filed
  · rw [← round] at phase
    have shape : u.examine i now = { u with waits := u.waits.set i x } := by
      simp [Usage.examine, found, at_, object, ← round, phase]
    rw [shape]
    refine { fifo with
      turns := fifo.turns.rewait (map_set_same found ?_)
      awake := awake fun served => absurd served unserved }
    rw [ticket, phase, waiting]

/-- A call that enters the loop looks once before it can sleep. -/
theorem Fifo.call (fifo : Fifo u) {k : ℕ} (allowed : u.Allows (.begin k rule fired now)) :
    Fifo (u.call k rule fired now) := by
  unfold Usage.call
  split
  · exact fifo
  rename_i t at_
  have keyed := (fifo.ledger.placed t (List.mem_of_getElem? at_)).1
  simp only [objects_of_key keyed fresh]
  have entered : Fifo { u with waits := u.waits ++ [(
      { ticket := k, rule, deadline := now + rule.total, holder := (u.queue t.queue).serving
        expired := rule.bounded && fired, parked := false, phase := .waiting } : Wait)] } :=
    { fifo with
      turns := fifo.turns.call (lt_of_found at_) rfl allowed
      awake := List.forall_mem_append.mpr ⟨fifo.awake, by simp⟩ }
  exact entered.examine List.getElem?_concat_length rfl now

/-- Waking sleepers and resetting timers moves nobody. -/
theorem broadcast_standing (v : ℕ) : (u.broadcast v).waits.map (fun w => (w.ticket, w.phase)) =
      u.waits.map fun w => (w.ticket, w.phase) := by
  simp only [Usage.broadcast, List.map_map]
  apply List.map_congr_left
  intro w _
  simp only [Function.comp]
  split <;> rfl

/-- After a broadcast whoever sleeps is on another queue. -/
theorem asleep_after_broadcast (mem : w ∈ (u.broadcast v).waits) (parked : w.parked = true) :
    w ∈ u.waits ∧ ∀ t, u.tickets[w.ticket]? = some t → t.queue ≠ v := by
  obtain ⟨x, old, rfl⟩ := List.mem_map.mp mem
  by_cases on : (u.tickets[x.ticket]?).any (·.queue == v) = true
  · simp [on] at parked
  · simp only [if_neg on] at parked ⊢
    refine ⟨old, fun t found here => on ?_⟩
    simp [found, here]

theorem Fifo.timer (fifo : Fifo u) {i : ℕ} {w : Wait} (found : u.waits[i]? = some w) (v : ℕ) :
    Fifo (Usage.broadcast { u with waits := u.waits.set i { w with expired := true } } v) := by
  have standing := broadcast_standing (u := { u with
    waits := u.waits.set i { w with expired := true } }) v
  refine { fifo with turns := fifo.turns.rewait (standing.trans (map_set_same found rfl)), awake := ?_ }
  intro y mem waiting parked t place
  obtain ⟨old, -⟩ := asleep_after_broadcast mem parked
  rcases List.mem_or_eq_of_mem_set old with still | rfl
  · exact fifo.awake y still waiting parked t place
  · exact fifo.awake w (List.mem_of_getElem? found) waiting parked t place

variable [DecidableEq K]

/-- Dropping the queue if nothing needs it. -/
theorem Core.reap (core : Core u) (keyed : u.queues.key v = some a)
    (kept : KeptBut u.queues.refs u.queue u.queues.entries v) :
    Fifo { u with queues := u.queues.reapLocked idleQueue v } := by
  have reads : Reads (u.queues.reapLocked idleQueue v) u.queues.key u.queues.refs u.queue
      (if u.queues.refs v ≤ 0 ∧ idleQueue (u.queue v) = true ∧ u.queues.entries a = some v then
        Function.update u.queues.entries a none else u.queues.entries) :=
    ⟨key_reapLocked .., refs_reapLocked .., value_reapLocked .., entries_reapLocked fresh idleQueue keyed⟩
  split_ifs at reads with drop
  · obtain ⟨unpinned, idle, filed⟩ := drop
    refine .seen reads (core.shelf.reap filed unpinned (by simpa [idleQueue] using idle))
      (core.ledger.reap a) core.turns core.awake fun b w filedW => ?_
    by_cases here : b = a
    · simp [here] at filedW
    rw [Function.update_of_ne here] at filedW
    refine kept b w ?_ filedW
    rintro rfl
    exact here (Option.some.inj ((core.shelf.filed b w filedW).symm.trans keyed))
  · refine .seen reads core.shelf core.ledger core.turns core.awake fun b w filedW => ?_
    by_cases here : w = v
    · subst here
      obtain rfl := Option.some.inj ((core.shelf.filed b w filedW).symm.trans keyed)
      by_contra unused
      push Not at unused
      exact drop ⟨unused.1, by simp [idleQueue, unused.2], filedW⟩
    · exact kept b w here filedW

variable (fifo : Fifo u)
include fifo

/-- Looking an anchor's queue up leaves it filed. -/
theorem Fifo.entry (a : K) :
    let r := u.queues.entryLocked .fresh a
    Core { u with queues := r.1 } ∧ r.1.entries a = some r.2 ∧
      KeptBut r.1.refs (r.1.value .fresh) r.1.entries r.2 := by
  intro r
  obtain ⟨value, refs, entries, hit | ⟨absent, unbuilt, key⟩⟩ := u.queues.entryLocked_spec fresh a
  · obtain ⟨filed, key⟩ := hit
    rw [← filed, Function.update_eq_self] at entries
    have reads : Reads r.1 _ _ _ _ := ⟨key, refs, value, entries⟩
    exact ⟨.seen reads fifo.shelf fifo.ledger fifo.turns fifo.awake, entries ▸ filed,
      .seen reads fun b w _ => fifo.kept b w⟩
  · have reads : Reads r.1 _ _ _ _ := ⟨key, refs, value, entries⟩
    refine ⟨.seen reads (fifo.shelf.file absent unbuilt) (fifo.ledger.file unbuilt) fifo.turns fifo.awake,
      by rw [entries, Function.update_self], .seen reads fun b w apart filedW => ?_⟩
    by_cases here : b = a
    · rw [here, Function.update_self] at filedW
      exact absurd (Option.some.inj filedW).symm apart
    · rw [Function.update_of_ne here] at filedW
      exact fifo.kept b w filedW

theorem Fifo.take (a : K) : Fifo (u.step (.take a)) := by
  obtain ⟨core, filed, kept⟩ := fifo.entry a
  exact core.reserve filed kept

theorem Fifo.takeOn (allowed : u.Allows (.takeOn i)) : Fifo (u.step (.takeOn i)) := by
  simp only [Usage.step]
  split
  · exact fifo
  rename_i p found
  have live : p.live = true := by simpa [Usage.Allows, found] using allowed
  have filed := fifo.shelf.filed_of_pin (List.mem_of_getElem? found) live
  exact fifo.reserve filed fun b w _ => fifo.kept b w

theorem Fifo.hold (a : K) : Fifo (u.step (.hold a)) := by
  obtain ⟨core, filed, kept⟩ := fifo.entry a
  refine .seen (reads_addRefs (core.shelf.filed _ _ filed) 1) (core.shelf.pin filed) core.ledger core.turns
    core.awake fun b w filedW => ?_
  by_cases here : w = (u.queues.entryLocked .fresh a).2
  · have count := core.shelf.pinned (u.queues.entryLocked .fresh a).2
    rw [here, Function.update_self]
    dsimp only at count ⊢
    omega
  · rw [Function.update_of_ne here]
    exact kept b w here filedW

theorem Fifo.unpin (i : ℕ) : Fifo (u.step (.unpin i)) := by
  simp only [Usage.step]
  split
  · exact fifo
  rename_i p found
  by_cases live : p.live = true
  · rw [if_pos live]
    have keyed := fifo.shelf.pinKey p (List.mem_of_getElem? found)
    have reads := reads_addRefs keyed (-1)
    have core := Core.seen reads (fifo.shelf.unpin found live) fifo.ledger fifo.turns fifo.awake
    refine core.reap (by simpa using keyed) (.seen reads fun b w apart filedW => ?_)
    rw [Function.update_of_ne apart]
    exact fifo.kept b w filedW
  · rw [if_neg live]
    exact fifo

/-- The turn is handed on, the queue dropped if that was its last, and everyone
on it woken. -/
theorem Fifo.finish (i : ℕ) : Fifo (u.finish i) := by
  unfold Usage.finish
  split
  case h_2 => exact fifo
  rename_i w found
  by_cases running : w.phase = .begun
  case neg => rwa [if_neg running]
  rw [if_pos running]
  obtain ⟨t, at_, keyed, -⟩ := fifo.place (List.mem_of_getElem? found)
  simp only [at_]
  have placed := fifo.ledger.placed t (List.mem_of_getElem? at_)
  have served : t.n = (u.queue t.queue).serving := (fifo.turns.standing _ t at_).begun ⟨i, w, found, rfl, running⟩
  have filed : u.queues.entries t.anchor = some t.queue := fifo.shelf.filed_of_busy keyed (by omega)
  obtain ⟨handed, -⟩ := (u.queue t.queue).advanceLocked_spec
  set advanced := u.queues.update t.queue advanceLocked
  set waits := u.waits.set i { w with phase := .ended }
  have reads := reads_update keyed advanceLocked
  have turns := fifo.turns.finish found fifo.ledger at_ (x := { w with phase := .ended }) rfl running rfl
  -- the queue's own sleepers are woken; elsewhere nothing moved
  have woken : Core (Usage.broadcast { u with queues := advanced, waits } t.queue) := by
    refine .seen reads (fifo.shelf.revalue fun a v keyedV unfiled => ?_)
      (fifo.ledger.revalue (update_keeps handed)) (turns.rewait (broadcast_standing _))
      fun y mem waiting parked s place => ?_
    · rw [Function.update_of_ne (fifo.shelf.apart filed keyedV unfiled)]
      exact (fifo.shelf.reclaimed a v keyedV unfiled).2
    · obtain ⟨old, elsewhere⟩ := asleep_after_broadcast mem parked
      rw [Function.update_of_ne (elsewhere s place)]
      rcases List.mem_or_eq_of_mem_set old with still | rfl
      · exact fifo.awake y still waiting parked s place
      · cases waiting
  refine woken.reap (v := t.queue) (a := t.anchor) (by simpa [advanced, Usage.broadcast] using keyed)
    (.seen reads fun b v apart filedV => ?_)
  rw [Function.update_of_ne apart]
  exact fifo.kept b v filedV

/-- Every event its callers may cause keeps the invariant. -/
theorem Fifo.step (e : Event K) (allowed : u.Allows e) : Fifo (u.step e) := by
  cases e with
  | take a => exact fifo.take a
  | takeOn i => exact fifo.takeOn allowed
  | hold a => exact fifo.hold a
  | unpin i => exact fifo.unpin i
  | begin k rule fired now => exact fifo.call allowed
  | «end» i => exact fifo.finish i
  | timer i =>
    simp only [Usage.step]
    split
    · rename_i w found
      split_ifs
      · obtain ⟨t, at_, -⟩ := fifo.place (List.mem_of_getElem? found)
        simp only [at_]
        exact fifo.timer found t.queue
      · exact fifo
    · exact fifo
  | wake i now =>
    simp only [Usage.step]
    split
    · rename_i w found
      split_ifs with awake
      · exact fifo.examine found awake.1 now
      · exact fifo
    · exact fifo

end Steps

section Runs

variable [DecidableEq K] {u : Usage K}

/-- A run whose callers keep to what they owe. -/
def Usage.Proper : Usage K → List (Event K) → Prop
  | _, [] => True
  | u, e :: rest => u.Allows e ∧ (u.step e).Proper rest

theorem Fifo.run (fifo : Fifo u) {events : List (Event K)} (proper : u.Proper events) :
    Fifo (events.foldl Usage.step u) := by
  induction events generalizing u with
  | nil => exact fifo
  | cons e rest ih => exact ih (fifo.step e proper.1) proper.2

theorem run_fifo {events : List (Event K)} (proper : Usage.start.Proper events) : Fifo (Usage.run events) :=
  start_fifo.run proper

section
variable (core : Core u) {k : ℕ} {t : Ticket K} (at_ : u.tickets[k]? = some t)
include core at_
omit [DecidableEq K]

/-- A ticket between begin and end is neither ended nor abandoned. -/
theorem Core.unsettled_of_begun (running : At u.waits k .begun) : ¬Settled u.waits k := by
  have standing := core.turns.standing k t at_
  rintro (ended | gaveUp)
  · have equal := standing.begun running
    have below := standing.ended ended
    omega
  · exact (standing.never gaveUp).1 running

/-- The queue of an unserved ticket is the one filed under its anchor. -/
theorem Core.filed_of_unsettled (unserved : ¬Settled u.waits k) : u.queues.entries t.anchor = some t.queue := by
  obtain ⟨keyed, below⟩ := core.ledger.placed t (List.mem_of_getElem? at_)
  apply core.shelf.filed_of_busy keyed
  have ahead : ¬t.n < (u.queue t.queue).serving := fun passed =>
    unserved ((core.turns.standing k t at_).passed passed)
  omega

/-- The ticket whose number is served has not ended and is not abandoned. -/
theorem Core.unsettled_of_served (served : (u.queue t.queue).serving = t.n) : ¬Settled u.waits k := by
  have standing := core.turns.standing k t at_
  rintro (ended | gaveUp)
  · have below := standing.ended ended
    omega
  · rcases standing.gaveUp gaveUp with below | skipped
    · omega
    · exact ((core.turns.bounded _).abandoned _ skipped).1 served.symm

/-- Once every earlier ticket of its anchor is settled, an unserved ticket is
the one served. -/
theorem Core.served (unserved : ¬Settled u.waits k)
    (earlier : ∀ (j : ℕ) (s : Ticket K), j < k → u.tickets[j]? = some s → s.anchor = t.anchor →
      Settled u.waits j) : (u.queue t.queue).serving = t.n := by
  obtain ⟨keyed, below⟩ := core.ledger.placed t (List.mem_of_getElem? at_)
  have ahead : ¬t.n < (u.queue t.queue).serving := fun passed =>
    unserved ((core.turns.standing k t at_).passed passed)
  by_contra waiting
  -- otherwise the number served belongs to an earlier ticket of the same queue
  obtain ⟨j, s, found, queues, number⟩ := core.ledger.numbered t.queue (u.queue t.queue).serving (by omega)
  have before := (core.ledger.ordered j k s t found at_ queues).mpr (by omega)
  have keyedS := (core.ledger.placed s (List.mem_of_getElem? found)).1
  have anchors : s.anchor = t.anchor := by
    rw [queues, keyed] at keyedS
    exact (Option.some.inj keyedS).symm
  exact core.unsettled_of_served found (by rw [queues, number]) (earlier j s before found anchors)

end

omit [DecidableEq K] in
/-- Looking at a served ticket lets the call through. -/
theorem examine_served {i : ℕ} (found : u.waits[i]? = some w) (at_ : u.tickets[w.ticket]? = some t)
    (object : u.queues.objects[t.queue]? = some q) (served : q.2.serving = t.n) (now : ℤ) :
    At (u.examine i now).waits w.ticket .begun := by
  simp only [Usage.examine, found, at_, object, Wait.examine, served]
  exact ⟨i, _, set_self found, rfl, rfl⟩

/-- Turns of one anchor are exclusive and come in the order its tickets were
taken. An abandoned ticket is never let through, and holds nobody up: a ticket
whose predecessors have all ended or been abandoned is the one served, no call
on it sleeps, and its next look lets it through. Unserved tickets of an anchor
share a queue, and the registry keeps a queue only for a pin or for one of
them. -/
theorem decision_turns_fifo {events : List (Event K)} (proper : Usage.start.Proper events) :
    let u := Usage.run events
    (∀ (j k : ℕ) (s t : Ticket K), u.tickets[j]? = some s → u.tickets[k]? = some t →
      s.anchor = t.anchor → At u.waits j .begun → At u.waits k .begun → j = k) ∧
    (u.order.Pairwise fun j k => ∀ s t : Ticket K,
      u.tickets[j]? = some s → u.tickets[k]? = some t → s.anchor = t.anchor → j < k) ∧
    (∀ k, At u.waits k .gaveUp → k ∉ u.order) ∧
    (∀ (k : ℕ) (t : Ticket K), u.tickets[k]? = some t → ¬Settled u.waits k →
      (∀ (j : ℕ) (s : Ticket K), j < k → u.tickets[j]? = some s → s.anchor = t.anchor → Settled u.waits j) →
      (∀ (i : ℕ) (w : Wait), u.waits[i]? = some w → w.ticket = k → w.phase = .waiting →
        ∀ now, At (u.step (.wake i now)).waits k .begun) ∧
      (∀ rule fired now, At (u.step (.begin k rule fired now)).waits k .begun)) ∧
    (∀ (j k : ℕ) (s t : Ticket K), u.tickets[j]? = some s → u.tickets[k]? = some t →
      s.anchor = t.anchor → ¬Settled u.waits j → ¬Settled u.waits k → s.queue = t.queue) ∧
    (∀ (a : K) (v : ℕ), u.queues.entries a = some v → (∃ p ∈ u.pins, p.live = true ∧ p.queue = v) ∨
      ∃ (k : ℕ) (t : Ticket K), u.tickets[k]? = some t ∧ t.queue = v ∧ ¬Settled u.waits k) := by
  intro u
  have fifo : Fifo u := run_fifo proper
  have shared : ∀ (j k : ℕ) (s t : Ticket K), u.tickets[j]? = some s → u.tickets[k]? = some t →
      s.anchor = t.anchor → ¬Settled u.waits j → ¬Settled u.waits k → s.queue = t.queue := by
    intro j k s t left right anchors unservedJ unservedK
    have filedS := fifo.filed_of_unsettled left unservedJ
    have filedT := fifo.filed_of_unsettled right unservedK
    rw [anchors, filedT] at filedS
    exact (Option.some.inj filedS).symm
  refine ⟨?_, fifo.turns.increasing, ?_, ?_, shared, ?_⟩
  · intro j k s t left right anchors runningJ runningK
    have queues := shared j k s t left right anchors (fifo.unsettled_of_begun left runningJ)
      (fifo.unsettled_of_begun right runningK)
    apply fifo.ledger.same left right queues
    rw [(fifo.turns.standing j s left).begun runningJ, (fifo.turns.standing k t right).begun runningK, queues]
  · intro k gaveUp through
    have known := gaveUp.known fifo.turns
    have never := (fifo.turns.standing k _ (List.getElem?_eq_getElem known)).never gaveUp
    rcases (fifo.turns.letThrough k).mp through with running | ended
    · exact never.1 running
    · exact never.2 ended
  · intro k t at_ unserved earlier
    have served := fifo.served at_ unserved earlier
    have keyed := (fifo.ledger.placed t (List.mem_of_getElem? at_)).1
    have object := objects_of_key keyed fresh
    constructor
    · rintro i w found rfl waiting now
      have awake : w.parked = false := by
        by_contra asleep
        exact fifo.awake w (List.mem_of_getElem? found) waiting (by simpa using asleep) t at_ served
      simp only [Usage.step, found, waiting, awake]
      exact examine_served found at_ object served now
    · intro rule fired now
      simp only [Usage.step, Usage.call, at_, object]
      let w : Wait := ⟨k, rule, now + rule.total, (u.queue t.queue).serving, rule.bounded && fired, false, .waiting⟩
      exact examine_served (u := { u with waits := u.waits ++ [w] }) (w := w)
        List.getElem?_concat_length at_ object served now
  · intro a v filed
    rcases fifo.kept a v filed with pinned | busy
    · left
      rw [fifo.shelf.pinned] at pinned
      obtain ⟨p, member, held⟩ := List.countP_pos_iff.mp (Int.natCast_pos.mp pinned)
      exact ⟨p, member, by simpa using held⟩
    · right
      have bound := (fifo.turns.bounded v).serving
      obtain ⟨k, t, found, rfl, number⟩ := fifo.ledger.numbered v (u.queue v).serving (by omega)
      exact ⟨k, t, found, rfl, fifo.unsettled_of_served found number.symm⟩

instance decidableProper : (u : Usage K) → (events : List (Event K)) → Decidable (u.Proper events)
  | _, [] => .isTrue trivial
  | u, e :: rest =>
    have := decidableProper (u.step e) rest
    inferInstanceAs (Decidable (u.Allows e ∧ (u.step e).Proper rest))

end Runs

/-- Three tickets on one anchor: the first holds the turn while the second,
bounded, gives up, and the third is served once the first ends. -/
def giveUpBetween : List (Event ℕ) :=
  [.hold 7, .take 7, .takeOn 0, .take 7, .begin 0 ⟨0, 0⟩ false 0, .begin 1 ⟨5, 20⟩ false 1,
   .begin 2 ⟨0, 0⟩ false 2, .timer 1, .wake 1 6, .end 0, .end 0, .unpin 0, .unpin 0]

theorem decision_turns_fifo_give_up :
    At (Usage.run giveUpBetween).waits 1 .gaveUp ∧ 1 ∉ (Usage.run giveUpBetween).order ∧
    ∀ now, At ((Usage.run giveUpBetween).step (.wake 2 now)).waits 2 .begun := by
  obtain ⟨_, _, never, served, _⟩ := decision_turns_fifo (show Usage.start.Proper giveUpBetween by decide)
  have quit : At (Usage.run giveUpBetween).waits 1 .gaveUp := by decide
  refine ⟨quit, never 1 quit, ?_⟩
  refine (served 2 ⟨7, 0, 2⟩ (by decide) (by decide) ?_).1 2
    ⟨2, ⟨0, 0⟩, 2, 0, false, false, .waiting⟩ (by decide) rfl rfl
  intro j s earlier _ _
  rcases (by omega : j = 0 ∨ j = 1) with rfl | rfl
  · exact .inl (by decide)
  · exact .inr quit

/-- Two calls on the first of three tickets, each of which ends its turn. -/
def beginTwice : List (Event ℕ) :=
  [.take 7, .take 7, .take 7, .begin 0 ⟨0, 0⟩ false 0, .begin 0 ⟨0, 0⟩ false 1, .end 0,
   .begin 1 ⟨0, 0⟩ false 2, .end 1, .begin 2 ⟨0, 0⟩ false 3]

/-- A ticket let through twice is ended twice, and its second end passes over
the turn of the ticket running by then. -/
theorem decision_turns_overlap : At (Usage.run beginTwice).waits 1 .begun ∧ At (Usage.run beginTwice).waits 2 .begun ∧
    (Usage.run beginTwice).tickets = [⟨7, 0, 0⟩, ⟨7, 0, 1⟩, ⟨7, 0, 2⟩] := by
  decide

end Eunox.DecisionTurn
