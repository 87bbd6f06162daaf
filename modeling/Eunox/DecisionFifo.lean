import Eunox.DecisionTurn
import Eunox.IndexedList

/-! Turns are exclusive and first come, first served on each anchor. The
invariant has three parts, each over the functions a handle reads a queue
through: which queues the registry keeps, which places its tickets reserve, and
where every wait on a ticket stands. -/
namespace Eunox.DecisionTurn
open IndexedList

variable {K : Type}

/-- Some call was made on this ticket and stands in this phase. -/
def At (waits : List Wait) (k : ℕ) (phase : Phase) : Prop :=
  ∃ (i : ℕ) (w : Wait), waits[i]? = some w ∧ w.ticket = k ∧ w.phase = phase

/-- Ended or abandoned: the ticket waits for nothing any more. -/
def Settled (waits : List Wait) (k : ℕ) : Prop := At waits k .ended ∨ At waits k .gaveUp

theorem at_iff_mem (waits : List Wait) (k : ℕ) (phase : Phase) :
    (∃ w ∈ waits, w.ticket = k ∧ w.phase = phase) ↔ At waits k phase := by
  constructor
  · rintro ⟨w, mem, stands⟩
    obtain ⟨i, found⟩ := List.mem_iff_getElem?.mp mem
    exact ⟨i, w, found, stands⟩
  · rintro ⟨i, w, found, stands⟩
    exact ⟨w, List.mem_of_getElem? found, stands⟩

instance (waits : List Wait) (k : ℕ) (phase : Phase) : Decidable (At waits k phase) :=
  decidable_of_iff _ (at_iff_mem waits k phase)

instance (waits : List Wait) (k : ℕ) : Decidable (Settled waits k) :=
  inferInstanceAs (Decidable (_ ∨ _))

section At

variable {waits : List Wait} {i : ℕ} {w x : Wait}

theorem at_append (k : ℕ) (phase : Phase) (new : Wait) :
    At (waits ++ [new]) k phase ↔ At waits k phase ∨ (new.ticket = k ∧ new.phase = phase) := by
  rw [← at_iff_mem, ← at_iff_mem]
  simp [or_and_right, exists_or]

/-- Some other call on this ticket stands in this phase. -/
def Beside (waits : List Wait) (i k : ℕ) (phase : Phase) : Prop :=
  ∃ (j : ℕ) (w : Wait), i ≠ j ∧ waits[j]? = some w ∧ w.ticket = k ∧ w.phase = phase

theorem at_set (found : waits[i]? = some w) (x : Wait) (k : ℕ) (phase : Phase) :
    At (waits.set i x) k phase ↔ (x.ticket = k ∧ x.phase = phase) ∨ Beside waits i k phase := by
  constructor
  · rintro ⟨j, y, at_, is, stands⟩
    rcases set_cases at_ with ⟨rfl, rfl⟩ | ⟨apart, old⟩
    · exact .inl ⟨is, stands⟩
    · exact .inr ⟨j, y, apart.symm, old, is, stands⟩
  · rintro (⟨is, stands⟩ | ⟨j, y, apart, at_, is, stands⟩)
    · exact ⟨i, x, set_self found, is, stands⟩
    · exact ⟨j, y, by rwa [List.getElem?_set_ne apart], is, stands⟩

theorem at_iff_beside (found : waits[i]? = some w) (k : ℕ) (phase : Phase) :
    At waits k phase ↔ (w.ticket = k ∧ w.phase = phase) ∨ Beside waits i k phase := by
  have kept := at_set found w k phase
  obtain ⟨bound, rfl⟩ := List.getElem?_eq_some_iff.mp found
  rwa [List.set_getElem_self] at kept

/-- Moving one call changes only its own ticket's standing. -/
theorem at_set_other (found : waits[i]? = some w) (same : x.ticket = w.ticket)
    (apart : k ≠ w.ticket) (phase : Phase) : At (waits.set i x) k phase ↔ At waits k phase := by
  rw [at_set found, at_iff_beside found, same]
  simp [Ne.symm apart]

end At

/-- At most one call on a ticket has not given up. -/
def Single (waits : List Wait) : Prop :=
  ∀ (i j : ℕ) (w x : Wait), waits[i]? = some w → waits[j]? = some x → i ≠ j → w.ticket = x.ticket →
    w.phase = .gaveUp ∨ x.phase = .gaveUp

section Single

variable {waits : List Wait} {i : ℕ} {w x : Wait}

section
variable (single : Single waits) (found : waits[i]? = some w) (live : w.phase ≠ .gaveUp)
include single found live

/-- Beside a call that has not given up, only given-up ones are on its ticket. -/
theorem Single.beside (other : Beside waits i w.ticket phase) : phase = .gaveUp := by
  obtain ⟨j, y, apart, at_, is, stands⟩ := other
  exact stands.symm.trans ((single i j w y found at_ apart is.symm).resolve_left live)

theorem Single.at_set (same : x.ticket = w.ticket) (phase : Phase) : At (waits.set i x) w.ticket phase ↔
      x.phase = phase ∨ (phase = .gaveUp ∧ At waits w.ticket .gaveUp) := by
  rw [DecisionTurn.at_set found, at_iff_beside found, same]
  simp only [true_and, live, false_or]
  refine or_congr_right ⟨fun other => ?_, ?_⟩
  · obtain rfl := single.beside found live other
    exact ⟨rfl, other⟩
  · rintro ⟨rfl, other⟩
    exact other

theorem Single.at_self (other : phase ≠ .gaveUp) : At waits w.ticket phase ↔ w.phase = phase := by
  rw [at_iff_beside found]
  constructor
  · rintro (⟨-, stands⟩ | beside)
    · exact stands
    · exact absurd (single.beside found live beside) other
  · exact fun stands => .inl ⟨rfl, stands⟩

theorem Single.set (same : x.ticket = w.ticket) : Single (waits.set i x) := by
  -- every other call on the moved one's ticket has given up
  have others : ∀ j y, waits[j]? = some y → i ≠ j → y.ticket = w.ticket → y.phase = .gaveUp :=
    fun j y at_ apart is => (single i j w y found at_ apart is.symm).resolve_left live
  intro j k y z at_j at_k apart is
  rcases set_cases at_j with ⟨rfl, rfl⟩ | ⟨left, old_j⟩ <;> rcases set_cases at_k with ⟨rfl, rfl⟩ | ⟨right, old_k⟩
  · exact absurd rfl apart
  · exact .inr (others k z old_k apart (is.symm.trans same))
  · exact .inl (others j y old_j left.symm (is.trans same))
  · exact single j k y z old_j old_k apart is

end

theorem Single.append (single : Single waits) (quit : ∀ w ∈ waits, w.ticket = new.ticket → w.phase = .gaveUp) :
    Single (waits ++ [new]) := by
  intro i j w x at_i at_j apart is
  rcases append_cases at_i with ⟨-, old_i⟩ | ⟨rfl, rfl⟩ <;>
    rcases append_cases at_j with ⟨-, old_j⟩ | ⟨rfl, rfl⟩
  · exact single i j w x old_i old_j apart is
  · exact .inl (quit w (List.mem_of_getElem? old_i) is)
  · exact .inr (quit x (List.mem_of_getElem? old_j) is.symm)
  · exact absurd rfl apart

end Single

/-- The live pins on a queue. -/
def livePins (v : ℕ) (pins : List (Pin K)) : ℕ := pins.countP fun p => p.live && p.queue == v

/-- What the registry keeps: a queue is filed under its own key, and one that
is not filed has no pin and owes no turn. -/
structure Shelf (key : ℕ → Option K) (refs : ℕ → ℤ) (queue : ℕ → TicketQueue)
    (entries : K → Option ℕ) (pins : List (Pin K)) : Prop where
  filed : ∀ a v, entries a = some v → key v = some a
  reclaimed : ∀ a v, key v = some a → entries a ≠ some v →
    refs v = 0 ∧ (queue v).handed = (queue v).serving
  pinned : ∀ v, refs v = livePins v pins
  pinKey : ∀ p ∈ pins, key p.queue = some p.anchor

/-- Which places the tickets hold: every number handed out, in the order they
were taken, and those on a queue no longer filed before those on its successor. -/
structure Ledger (key : ℕ → Option K) (queue : ℕ → TicketQueue) (entries : K → Option ℕ)
    (tickets : List (Ticket K)) : Prop where
  placed : ∀ t ∈ tickets, key t.queue = some t.anchor ∧ t.n < (queue t.queue).handed
  numbered : ∀ v n, n < (queue v).handed →
    ∃ (k : ℕ) (t : Ticket K), tickets[k]? = some t ∧ t.queue = v ∧ t.n = n
  ordered : ∀ (j k : ℕ) (s t : Ticket K), tickets[j]? = some s → tickets[k]? = some t →
    s.queue = t.queue → (j < k ↔ s.n < t.n)
  aged : ∀ (j k : ℕ) (s t : Ticket K), tickets[j]? = some s → tickets[k]? = some t →
    s.anchor = t.anchor → entries t.anchor = some t.queue →
    entries s.anchor ≠ some s.queue → j < k

/-- Where a ticket can stand, given its number and its queue. -/
structure Standing (waits : List Wait) (k n : ℕ) (q : TicketQueue) : Prop where
  begun : At waits k .begun → n = q.serving
  ended : At waits k .ended → n < q.serving
  gaveUp : At waits k .gaveUp → n < q.serving ∨ n ∈ q.abandoned
  passed : n < q.serving → Settled waits k
  skipped : n ∈ q.abandoned → At waits k .gaveUp
  never : At waits k .gaveUp → ¬At waits k .begun ∧ ¬At waits k .ended

/-- A turn never runs past the tickets handed out, and no abandoned number
holds it. -/
structure Bounded (q : TicketQueue) : Prop where
  serving : q.serving ≤ q.handed
  abandoned : ∀ n ∈ q.abandoned, n ≠ q.serving ∧ n < q.handed

/-- How the waits stand against the turns. -/
structure Turns (queue : ℕ → TicketQueue) (tickets : List (Ticket K)) (waits : List Wait)
    (order : List ℕ) : Prop where
  bounded : ∀ v, Bounded (queue v)
  known : ∀ w ∈ waits, w.ticket < tickets.length
  single : Single waits
  standing : ∀ (k : ℕ) (t : Ticket K), tickets[k]? = some t → Standing waits k t.n (queue t.queue)
  letThrough : ∀ k, k ∈ order ↔ At waits k .begun ∨ At waits k .ended
  increasing : order.Pairwise fun j k => ∀ s t : Ticket K,
    tickets[j]? = some s → tickets[k]? = some t → s.anchor = t.anchor → j < k

/-- No call sleeps through its turn. -/
def Awake (queue : ℕ → TicketQueue) (tickets : List (Ticket K)) (waits : List Wait) : Prop :=
  ∀ w ∈ waits, w.phase = .waiting → w.parked = true →
    ∀ t : Ticket K, tickets[w.ticket]? = some t → (queue t.queue).serving ≠ t.n

/-- The registry keeps no queue it has no use for. -/
def Kept (refs : ℕ → ℤ) (queue : ℕ → TicketQueue) (entries : K → Option ℕ) : Prop :=
  ∀ a v, entries a = some v → 0 < refs v ∨ (queue v).handed ≠ (queue v).serving

/-- What a move of one queue leaves as it was. -/
theorem update_keeps {queue : ℕ → TicketQueue} {β : Type} {f : TicketQueue → β} (same : f q = f (queue v)) (w : ℕ) :
    f (Function.update queue v q w) = f (queue w) := by
  by_cases here : w = v
  · rw [here, Function.update_self, same]
  · rw [Function.update_of_ne here]

section Shelf

variable {key : ℕ → Option K} {refs : ℕ → ℤ} {queue : ℕ → TicketQueue}
  {entries : K → Option ℕ} {pins : List (Pin K)}

variable (shelf : Shelf key refs queue entries pins)
include shelf

/-- A queue that owes a turn is filed. -/
theorem Shelf.filed_of_busy (keyed : key v = some a) (busy : (queue v).handed ≠ (queue v).serving) :
    entries a = some v := by
  by_contra unfiled
  exact busy (shelf.reclaimed a v keyed unfiled).2

theorem Shelf.filed_of_pin (mem : p ∈ pins) (live : p.live = true) : entries p.anchor = some p.queue := by
  by_contra unfiled
  have unpinned := (shelf.reclaimed _ _ (shelf.pinKey p mem) unfiled).1
  rw [shelf.pinned] at unpinned
  have held : 0 < livePins p.queue pins := List.countP_pos_iff.mpr ⟨p, mem, by simp [live]⟩
  omega

theorem Shelf.apart (filed : entries a = some v) (keyed : key w = some b) (unfiled : entries b ≠ some w) : w ≠ v := by
  rintro rfl
  obtain rfl := Option.mem_unique (shelf.filed a w filed) keyed
  exact unfiled filed

/-- Pins come and go on a filed queue. -/
theorem Shelf.repin (filed : entries a = some v) {pins' : List (Pin K)}
    (pinned : ∀ w, Function.update refs v r w = livePins w pins') (keys : ∀ p ∈ pins', key p.queue = some p.anchor) :
    Shelf key (Function.update refs v r) queue entries pins' := by
  refine ⟨shelf.filed, fun b w keyed unfiled => ?_, pinned, keys⟩
  rw [Function.update_of_ne (shelf.apart filed keyed unfiled)]
  exact shelf.reclaimed b w keyed unfiled

theorem Shelf.pin (filed : entries a = some v) :
    Shelf key (Function.update refs v (refs v + 1)) queue entries (pins ++ [⟨a, v, true⟩]) := by
  refine shelf.repin filed (fun w => ?_)
    (List.forall_mem_append.mpr ⟨shelf.pinKey, List.forall_mem_singleton.mpr (shelf.filed a v filed)⟩)
  by_cases here : w = v
  · subst here
    simp [livePins, shelf.pinned w]
  · rw [Function.update_of_ne here, shelf.pinned w]
    simp [livePins, Ne.symm here]

omit shelf in
/-- Releasing one pin leaves one live pin less on its queue. -/
theorem livePins_release (found : pins[i]? = some p) (live : p.live = true) (w : ℕ) :
    livePins w (pins.set i { p with live := false }) + (if p.queue = w then 1 else 0) = livePins w pins := by
  induction pins generalizing i with
  | nil => simp at found
  | cons head tail ih =>
    cases i with
    | zero =>
      obtain rfl : head = p := by simpa using found
      by_cases here : head.queue = w <;> simp [livePins, live, here]
    | succ i =>
      have rest := ih (show tail[i]? = some p by simpa using found)
      simp only [livePins, List.set_cons_succ, List.countP_cons] at rest ⊢
      omega

theorem Shelf.unpin (found : pins[i]? = some p) (live : p.live = true) :
    Shelf key (Function.update refs p.queue (refs p.queue + -1)) queue entries
      (pins.set i { p with live := false }) := by
  have member := List.mem_of_getElem? found
  refine shelf.repin (shelf.filed_of_pin member live) ?_ ?_
  · intro w
    have released := livePins_release found live w
    by_cases here : w = p.queue
    · subst here
      rw [Function.update_self, shelf.pinned]
      simp only [if_true] at released
      omega
    · rw [Function.update_of_ne here, shelf.pinned]
      simp only [if_neg (Ne.symm here)] at released
      omega
  · intro q here
    rcases List.mem_or_eq_of_mem_set here with old | rfl
    · exact shelf.pinKey q old
    · exact shelf.pinKey p member

/-- A queue may move freely as long as an unfiled one still owes no turn. -/
theorem Shelf.revalue (idle : ∀ a v, key v = some a → entries a ≠ some v → (queue' v).handed = (queue' v).serving) :
    Shelf key refs queue' entries pins :=
  { shelf with
    reclaimed := fun a v keyed unfiled => ⟨(shelf.reclaimed a v keyed unfiled).1, idle a v keyed unfiled⟩ }

variable [DecidableEq K]

theorem Shelf.file (absent : entries a = none) (unbuilt : key v = none) :
    Shelf (Function.update key v (some a)) refs queue (Function.update entries a (some v)) pins := by
  have keeps : ∀ w b, key w = some b → Function.update key v (some a) w = some b := by
    intro w b keyed
    rwa [Function.update_of_ne]
    rintro rfl
    simp [unbuilt] at keyed
  constructor
  · intro b w filed
    by_cases here : b = a
    · subst here
      obtain rfl : v = w := by simpa using filed
      simp
    · rw [Function.update_of_ne here] at filed
      exact keeps w b (shelf.filed b w filed)
  · intro b w keyed unfiled
    by_cases fresh : w = v
    · subst fresh
      obtain rfl : a = b := by simpa using keyed
      simp at unfiled
    · rw [Function.update_of_ne fresh] at keyed
      apply shelf.reclaimed b w keyed
      by_cases here : b = a
      · simp [here, absent]
      · rwa [Function.update_of_ne here] at unfiled
  · exact shelf.pinned
  · exact fun p mem => keeps _ _ (shelf.pinKey p mem)

theorem Shelf.reap (filed : entries a = some v) (unpinned : refs v ≤ 0) (idle : (queue v).handed = (queue v).serving) :
    Shelf key refs queue (Function.update entries a none) pins := by
  constructor
  · intro b w here
    by_cases same : b = a
    · simp [same] at here
    · exact shelf.filed b w (by rwa [Function.update_of_ne same] at here)
  · intro b w keyed unfiled
    by_cases same : entries b = some w
    · obtain rfl : b = a := by
        by_contra other
        rw [Function.update_of_ne other] at unfiled
        exact unfiled same
      obtain rfl := Option.mem_unique filed same
      have count := shelf.pinned v
      exact ⟨by omega, idle⟩
    · exact shelf.reclaimed b w keyed same
  · exact shelf.pinned
  · exact shelf.pinKey

end Shelf

section Ledger

variable {key : ℕ → Option K} {queue : ℕ → TicketQueue} {entries : K → Option ℕ}
  {tickets : List (Ticket K)} (ledger : Ledger key queue entries tickets)
include ledger

/-- Two tickets with one number on one queue are one ticket. -/
theorem Ledger.same {j k : ℕ} {s t : Ticket K}
    (left : tickets[j]? = some s) (right : tickets[k]? = some t) (queues : s.queue = t.queue)
    (numbers : s.n = t.n) : j = k := by
  have forth := ledger.ordered j k s t left right queues
  have back := ledger.ordered k j t s right left queues.symm
  omega

/-- Only how many tickets each queue handed out matters to the ledger. -/
theorem Ledger.revalue (handed : ∀ v, (queue' v).handed = (queue v).handed) : Ledger key queue' entries tickets where
  placed := fun t mem => by simpa [handed] using ledger.placed t mem
  numbered := fun v n below => ledger.numbered v n (by simpa [handed] using below)
  ordered := ledger.ordered
  aged := ledger.aged

theorem Ledger.reserve {a : K} {v : ℕ} (keyed : key v = some a) (filed : entries a = some v) :
    Ledger key (Function.update queue v (queue v).ticket) entries (tickets ++ [⟨a, v, (queue v).handed⟩]) := by
  have grown : ∀ w, (queue w).handed ≤ (Function.update queue v (queue v).ticket w).handed := by
    intro w
    by_cases here : w = v
    · subst here
      simp [TicketQueue.ticket]
    · rw [Function.update_of_ne here]
  constructor
  · refine List.forall_mem_append.mpr ⟨fun t old => ?_, List.forall_mem_singleton.mpr ⟨keyed, by simp [TicketQueue.ticket]⟩⟩
    obtain ⟨keyedT, below⟩ := ledger.placed t old
    exact ⟨keyedT, below.trans_le (grown _)⟩
  · intro w n below
    have old : n < (queue w).handed → ∃ (k : ℕ) (t : Ticket K), (tickets ++ [⟨a, v, (queue v).handed⟩])[k]? = some t ∧
          t.queue = w ∧ t.n = n := by
      intro held
      obtain ⟨k, t, found, on, is⟩ := ledger.numbered w n held
      exact ⟨k, t, append_old found, on, is⟩
    by_cases here : w = v
    · subst here
      simp only [Function.update_self, TicketQueue.ticket] at below
      rcases Nat.lt_succ_iff_lt_or_eq.mp below with held | rfl
      · exact old held
      · exact ⟨tickets.length, ⟨a, w, (queue w).handed⟩, by simp, rfl, rfl⟩
    · rw [Function.update_of_ne here] at below
      exact old below
  · intro j k s t left right queues
    have below : ∀ {i : ℕ} {x : Ticket K}, tickets[i]? = some x → x.queue = v →
        x.n < (queue v).handed := fun at_ on =>
      on ▸ (ledger.placed _ (List.mem_of_getElem? at_)).2
    rcases append_cases left with ⟨before, left⟩ | ⟨rfl, rfl⟩ <;>
      rcases append_cases right with ⟨after, right⟩ | ⟨rfl, rfl⟩
    · exact ledger.ordered j k s t left right queues
    · have less := below left queues
      simp [before, less]
    · have less := below right queues.symm
      simp only
      omega
    · simp
  · intro j k s t left right anchors filedT unfiledS
    rcases append_cases left with ⟨before, left⟩ | ⟨rfl, rfl⟩
    · rcases append_cases right with ⟨after, right⟩ | ⟨rfl, rfl⟩
      · exact ledger.aged j k s t left right anchors filedT unfiledS
      · exact before
    · exact absurd filed unfiledS

variable [DecidableEq K]

/-- A fresh queue holds no ticket yet. -/
theorem Ledger.file (unbuilt : key v = none) :
    Ledger (Function.update key v (some a)) queue (Function.update entries a (some v)) tickets := by
  have elsewhere : ∀ t ∈ tickets, t.queue ≠ v := by
    rintro t mem rfl
    have keyed := (ledger.placed t mem).1
    simp [unbuilt] at keyed
  constructor
  · intro t mem
    rw [Function.update_of_ne (elsewhere t mem)]
    exact ledger.placed t mem
  · exact ledger.numbered
  · exact ledger.ordered
  · intro j k s t left right anchors filed unfiled
    by_cases here : t.anchor = a
    · rw [here, Function.update_self] at filed
      exact absurd (Option.some.inj filed).symm (elsewhere t (List.mem_of_getElem? right))
    · rw [Function.update_of_ne here] at filed
      rw [anchors, Function.update_of_ne here] at unfiled
      exact ledger.aged j k s t left right anchors filed (anchors ▸ unfiled)

theorem Ledger.reap (a : K) : Ledger key queue (Function.update entries a none) tickets :=
  { ledger with
    aged := by
      intro j k s t left right anchors filed unfiled
      by_cases here : t.anchor = a
      · simp [here] at filed
      · rw [Function.update_of_ne here] at filed
        rw [anchors, Function.update_of_ne here] at unfiled
        exact ledger.aged j k s t left right anchors filed (anchors ▸ unfiled) }

end Ledger

/-- A ticket's standing depends on the calls that are past waiting, and on the
number served and the numbers abandoned. -/
theorem Standing.congr {waits waits' : List Wait} {k n : ℕ} (standing : Standing waits k n q)
    (same : ∀ phase, phase ≠ .waiting → (At waits' k phase ↔ At waits k phase))
    (serving : q'.serving = q.serving) (abandoned : q'.abandoned = q.abandoned) :
    Standing waits' k n q' := by
  have begun := same .begun (by decide)
  have ended := same .ended (by decide)
  have gaveUp := same .gaveUp (by decide)
  cases standing
  constructor <;> simpa only [Settled, begun, ended, gaveUp, serving, abandoned]

section Turns

variable {key : ℕ → Option K} {refs : ℕ → ℤ} {queue : ℕ → TicketQueue}
  {entries : K → Option ℕ} {pins : List (Pin K)} {tickets : List (Ticket K)}
  {waits : List Wait} {order : List ℕ} {i : ℕ} {w : Wait} {t : Ticket K}

section
variable (turns : Turns queue tickets waits order)
include turns

theorem At.known {k : ℕ} {phase : Phase} (at_ : At waits k phase) : k < tickets.length := by
  obtain ⟨i, w, found, rfl, -⟩ := at_
  exact turns.known w (List.mem_of_getElem? found)

theorem Turns.known_of_order {k : ℕ} (mem : k ∈ order) : k < tickets.length := by
  rcases (turns.letThrough k).mp mem with running | over_
  · exact running.known turns
  · exact over_.known turns

/-- A new ticket stands last in its queue, and nobody waits on it yet. -/
theorem Turns.reserve (a : K) (v : ℕ) :
    Turns (Function.update queue v (queue v).ticket) (tickets ++ [⟨a, v, (queue v).handed⟩]) waits order := by
  constructor
  · refine (Function.forall_update_iff queue (p := fun _ => Bounded)).mpr ⟨?_, fun w _ => turns.bounded w⟩
    obtain ⟨serving, abandoned⟩ := turns.bounded v
    exact ⟨Nat.le_succ_of_le serving, fun n mem => ⟨(abandoned n mem).1, Nat.lt_succ_of_lt (abandoned n mem).2⟩⟩
  · intro w mem
    simpa using Nat.lt_succ_of_lt (turns.known w mem)
  · exact turns.single
  · intro k t found
    have serving := @update_keeps (queue v).ticket v queue _ TicketQueue.serving rfl t.queue
    have abandoned := @update_keeps (queue v).ticket v queue _ TicketQueue.abandoned rfl t.queue
    rcases append_cases found with ⟨_, old⟩ | ⟨rfl, rfl⟩
    · exact (turns.standing k t old).congr (fun _ _ => Iff.rfl) serving abandoned
    have nobody : ∀ {phase}, ¬At waits tickets.length phase := fun at_ => lt_irrefl _ (at_.known turns)
    have bound := turns.bounded v
    constructor
    · exact fun at_ => absurd at_ nobody
    · exact fun at_ => absurd at_ nobody
    · exact fun at_ => absurd at_ nobody
    · intro below
      rw [serving] at below
      exact absurd bound.serving (not_le.mpr below)
    · intro mem
      rw [abandoned] at mem
      exact absurd (bound.abandoned _ mem).2 (lt_irrefl _)
    · exact fun at_ => absurd at_ nobody
  · exact turns.letThrough
  · apply List.Pairwise.imp_of_mem _ turns.increasing
    intro j k memberJ memberK earlier s t left right anchors
    rw [List.getElem?_append_left (turns.known_of_order memberJ)] at left
    rw [List.getElem?_append_left (turns.known_of_order memberK)] at right
    exact earlier s t left right anchors

/-- Calls that only wait do not matter to the turns. -/
theorem Turns.congr (known : ∀ w ∈ waits', w.ticket < tickets.length) (single : Single waits')
    (same : ∀ k phase, phase ≠ .waiting → (At waits' k phase ↔ At waits k phase)) :
    Turns queue tickets waits' order where
  bounded := turns.bounded
  known := known
  single := single
  standing k t found := (turns.standing k t found).congr (same k) rfl rfl
  letThrough k := by
    rw [same k _ (by decide), same k _ (by decide)]
    exact turns.letThrough k
  increasing := turns.increasing

/-- A call on a ticket nobody else still waits on. -/
theorem Turns.call (known : new.ticket < tickets.length) (waiting : new.phase = .waiting)
    (quit : ∀ w ∈ waits, w.ticket = new.ticket → w.phase = .gaveUp) :
    Turns queue tickets (waits ++ [new]) order := by
  refine turns.congr (List.forall_mem_append.mpr ⟨turns.known, List.forall_mem_singleton.mpr known⟩)
    (turns.single.append quit) fun k phase other => ?_
  rw [at_append]
  constructor
  · rintro (old | ⟨_, stands⟩)
    · exact old
    · exact absurd (stands.symm.trans waiting) other
  · exact .inl

/-- Only the phase and the ticket of a call matter to the turns. -/
theorem Turns.rewait (same : waits'.map (fun w => (w.ticket, w.phase)) = waits.map fun w => (w.ticket, w.phase)) :
    Turns queue tickets waits' order := by
  have shared : ∀ (i : ℕ) (w : Wait), waits'[i]? = some w →
      ∃ x, waits[i]? = some x ∧ x.ticket = w.ticket ∧ x.phase = w.phase := by
    intro i w found
    have read := congrArg (·[i]?) same
    simp only [List.getElem?_map, found, Option.map_some] at read
    obtain ⟨x, at_, is⟩ := Option.map_eq_some_iff.mp read.symm
    exact ⟨x, at_, congrArg Prod.fst is, congrArg Prod.snd is⟩
  refine turns.congr ?_ ?_ fun k phase _ => ?_
  · intro w mem
    obtain ⟨i, found⟩ := List.mem_iff_getElem?.mp mem
    obtain ⟨x, at_, ticket, -⟩ := shared i w found
    exact ticket ▸ turns.known x (List.mem_of_getElem? at_)
  · intro i j w x atI atJ apart is
    obtain ⟨w', foundI, ticketI, phaseI⟩ := shared i w atI
    obtain ⟨x', foundJ, ticketJ, phaseJ⟩ := shared j x atJ
    rw [← phaseI, ← phaseJ]
    exact turns.single i j w' x' foundI foundJ apart (ticketI.trans (is.trans ticketJ.symm))
  · have read (l : List Wait) : At l k phase ↔ (k, phase) ∈ l.map fun w => (w.ticket, w.phase) := by
      rw [← at_iff_mem]
      simp
    rw [read, read, same]

variable (found : waits[i]? = some w)
include found

theorem Turns.known_set (same : x.ticket = w.ticket) : ∀ y ∈ waits.set i x, y.ticket < tickets.length := by
  intro y mem
  rcases List.mem_or_eq_of_mem_set mem with old | rfl
  · exact turns.known y old
  · exact same ▸ turns.known w (List.mem_of_getElem? found)

/-- A call that is let through neither before nor after, or both, leaves the order as it was. -/
theorem Turns.through (live : w.phase ≠ .gaveUp) (same : x.ticket = w.ticket)
    (kept : w.phase = .begun ∨ w.phase = .ended ↔ x.phase = .begun ∨ x.phase = .ended) (k : ℕ) :
    k ∈ order ↔ At (waits.set i x) k .begun ∨ At (waits.set i x) k .ended := by
  rw [turns.letThrough]
  by_cases apart : k = w.ticket
  · rw [apart, turns.single.at_set found live same, turns.single.at_set found live same,
      turns.single.at_self found live (by decide), turns.single.at_self found live (by decide)]
    simpa using kept
  · rw [at_set_other found same apart, at_set_other found same apart]

variable (ledger : Ledger key queue entries tickets) (at_ : tickets[w.ticket]? = some t)
include ledger at_

/-- A ticket not yet let through stands after every one of its anchor that was. -/
theorem Turns.after_order (shelf : Shelf key refs queue entries pins) (waiting : w.phase = .waiting)
    (served : (queue t.queue).serving = t.n) {j : ℕ}
    (mem : j ∈ order) (left : tickets[j]? = some s) (anchors : s.anchor = t.anchor) : j < w.ticket := by
  have placed := ledger.placed t (List.mem_of_getElem? at_)
  have filed : entries t.anchor = some t.queue := shelf.filed_of_busy placed.1 (by omega)
  by_cases queues : s.queue = t.queue
  · have standing := turns.standing j s left
    rcases (turns.letThrough j).mp mem with running | over_
    · -- the running one would be this very ticket, whose only live call still waits
      have same : j = w.ticket := by
        refine ledger.same left at_ queues ?_
        rw [standing.begun running, queues, served]
      rw [same, turns.single.at_self found (by simp [waiting]) (by decide), waiting] at running
      cases running
    · have below := standing.ended over_
      rw [queues, served] at below
      exact (ledger.ordered j w.ticket s t left at_ queues).mpr below
  · refine ledger.aged j w.ticket s t left at_ anchors filed ?_
    rw [anchors, filed]
    exact fun same => queues (Option.some.inj same).symm

variable {x : Wait} (same : x.ticket = w.ticket)
include same

/-- One call moves on, and its queue with it: the other tickets of the queue are to stand as well there. -/
theorem Turns.move (live : w.phase ≠ .gaveUp) (bounded : Bounded q) (own : Standing (waits.set i x) w.ticket t.n q)
    (others : ∀ k n, n ≠ t.n → Standing waits k n (queue t.queue) → Standing waits k n q)
    (through : ∀ k, k ∈ order' ↔ At (waits.set i x) k .begun ∨ At (waits.set i x) k .ended)
    (increasing : order'.Pairwise fun j k => ∀ s t : Ticket K,
      tickets[j]? = some s → tickets[k]? = some t → s.anchor = t.anchor → j < k) :
    Turns (Function.update queue t.queue q) tickets (waits.set i x) order' := by
  constructor
  · exact (Function.forall_update_iff queue (p := fun _ => Bounded)).mpr ⟨bounded, fun v _ => turns.bounded v⟩
  · exact turns.known_set found same
  · exact turns.single.set found live same
  · intro k s here
    by_cases apart : k = w.ticket
    · subst apart
      obtain rfl := Option.mem_unique at_ here
      rwa [Function.update_self]
    · have standing := turns.standing k s here
      have stands (phase : Phase) (_ : phase ≠ .waiting) := at_set_other found same apart phase
      by_cases queues : s.queue = t.queue
      · have numbers : s.n ≠ t.n := fun equal => apart (ledger.same here at_ queues equal)
        rw [queues] at standing ⊢
        rw [Function.update_self]
        exact (others k s.n numbers standing).congr stands rfl rfl
      · rw [Function.update_of_ne queues]
        exact standing.congr stands rfl rfl
  · exact through
  · exact increasing

/-- The call whose number is served is let through. -/
theorem Turns.begin (shelf : Shelf key refs queue entries pins) (waiting : w.phase = .waiting)
    (served : (queue t.queue).serving = t.n) (begun : x.phase = .begun) :
    Turns queue tickets (waits.set i x) (order ++ [w.ticket]) := by
  have live : w.phase ≠ .gaveUp := by simp [waiting]
  have standing := turns.standing _ t at_
  have notQuit : ¬At waits w.ticket .gaveUp := by
    intro quit
    rcases standing.gaveUp quit with below | skipped
    · omega
    · exact ((turns.bounded _).abandoned _ skipped).1 served.symm
  have own : ∀ phase, At (waits.set i x) w.ticket phase ↔ phase = .begun := by
    intro phase
    rw [turns.single.at_set found live same, begun]
    simp [notQuit, eq_comm]
  have moved : Turns (Function.update queue t.queue (queue t.queue)) tickets (waits.set i x) (order ++ [w.ticket]) := by
    refine turns.move found ledger at_ same live (turns.bounded _) ?_ (fun _ _ _ stands => stands) ?_ ?_
    · constructor
      · exact fun _ => served.symm
      · simp [own]
      · simp [own]
      · intro below
        omega
      · exact fun skipped => absurd (standing.skipped skipped) notQuit
      · simp [own]
    · intro k
      rw [List.mem_append, List.mem_singleton]
      by_cases apart : k = w.ticket
      · simp [apart, own]
      · rw [at_set_other found same apart, at_set_other found same apart, ← turns.letThrough k]
        simp [apart]
    · refine List.pairwise_append.mpr ⟨turns.increasing, List.pairwise_singleton _ _, ?_⟩
      intro j mem k last s t' left right anchors
      obtain rfl : k = w.ticket := by simpa using last
      obtain rfl := Option.mem_unique at_ right
      exact turns.after_order found ledger at_ shelf waiting served mem left anchors
  rwa [Function.update_eq_self] at moved

/-- A call that gives up marks its number, which is not the one served. -/
theorem Turns.giveUp (waiting : w.phase = .waiting) (unserved : (queue t.queue).serving ≠ t.n) (gaveUp : x.phase = .gaveUp) :
    Turns (Function.update queue t.queue ((queue t.queue).abandonLocked t.n)) tickets (waits.set i x) order := by
  have live : w.phase ≠ .gaveUp := by simp [waiting]
  have own : ∀ phase, At (waits.set i x) w.ticket phase ↔ phase = .gaveUp := by
    intro phase
    rw [turns.single.at_set found live same, gaveUp]
    constructor
    · rintro (rfl | both)
      · rfl
      · exact both.1
    · exact fun is => .inl is.symm
  have bound := turns.bounded t.queue
  refine turns.move found ledger at_ same live ⟨bound.serving, fun n mem => ?_⟩ ?_ ?_
    (turns.through found live same (by simp [waiting, gaveUp])) turns.increasing
  · rcases Finset.mem_insert.mp mem with rfl | old
    · exact ⟨Ne.symm unserved, (ledger.placed t (List.mem_of_getElem? at_)).2⟩
    · exact bound.abandoned n old
  · constructor
    · simp [own]
    · simp [own]
    · exact fun _ => .inr (Finset.mem_insert_self _ _)
    · exact fun _ => .inr ((own _).mpr rfl)
    · exact fun _ => (own _).mpr rfl
    · simp [own]
  · intro k n numbers standing
    exact { standing with
      gaveUp := fun at_ => (standing.gaveUp at_).imp_right Finset.mem_insert_of_mem
      skipped := fun mem => standing.skipped ((Finset.mem_insert.mp mem).resolve_left numbers) }

/-- The call holding the turn hands it on. -/
theorem Turns.finish (running : w.phase = .begun) (ended : x.phase = .ended) :
    Turns (Function.update queue t.queue (queue t.queue).advanceLocked) tickets (waits.set i x) order := by
  have live : w.phase ≠ .gaveUp := by simp [running]
  have standing := turns.standing _ t at_
  have served : t.n = (queue t.queue).serving := standing.begun ⟨i, w, found, rfl, running⟩
  have notQuit : ¬At waits w.ticket .gaveUp := fun quit => (standing.never quit).1 ⟨i, w, found, rfl, running⟩
  have own : ∀ phase, At (waits.set i x) w.ticket phase ↔ phase = .ended := by
    intro phase
    rw [turns.single.at_set found live same, ended]
    simp [notQuit, eq_comm]
  obtain ⟨handed, forward, stop, between, left⟩ := (queue t.queue).advanceLocked_spec
  have bound := turns.bounded t.queue
  have placed := ledger.placed t (List.mem_of_getElem? at_)
  have reach : (queue t.queue).advanceLocked.serving ≤ (queue t.queue).handed := by
    by_contra beyond
    have last := between (queue t.queue).handed (by omega) (by omega)
    exact absurd (bound.abandoned _ last).2 (lt_irrefl _)
  refine turns.move found ledger at_ same live ⟨handed ▸ reach, fun n mem => ?_⟩ ?_ ?_
    (turns.through found live same (by simp [running, ended])) turns.increasing
  · obtain ⟨old, -⟩ := (left n).mp mem
    exact ⟨fun equal => stop (equal ▸ old), handed ▸ (bound.abandoned n old).2⟩
  · constructor
    · simp [own]
    · intro _
      omega
    · simp [own]
    · exact fun _ => .inl ((own _).mpr rfl)
    · intro mem
      exact absurd (standing.skipped ((left _).mp mem).1) notQuit
    · simp [own]
  · intro k n numbers standing
    constructor
    · intro at_
      exact absurd ((standing.begun at_).trans served.symm) numbers
    · intro at_
      exact (standing.ended at_).trans forward
    · intro at_
      rcases standing.gaveUp at_ with below | skipped
      · exact .inl (below.trans forward)
      · by_cases beyond : (queue t.queue).advanceLocked.serving ≤ n
        · exact .inr ((left _).mpr ⟨skipped, .inr beyond⟩)
        · exact .inl (not_le.mp beyond)
    · intro below
      rcases lt_trichotomy n (queue t.queue).serving with early | equal | late
      · exact standing.passed early
      · exact absurd (equal.trans served.symm) numbers
      · exact .inr (standing.skipped (between _ late below))
    · intro mem
      exact standing.skipped ((left _).mp mem).1
    · exact standing.never

end

end Turns

end Eunox.DecisionTurn
