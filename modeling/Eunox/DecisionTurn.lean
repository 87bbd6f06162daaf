import Mathlib.Data.Finset.Basic
import Eunox.KeyedRegistry

/-! The decision turns of `internal/transport/serialize.go`. A ticket reserves
a place in its anchor's queue; `begin` and `beginWithin` wait for the place to
come up, and the function they return hands the turn on. Each critical section
of the registry's mutex is one event, and so is a bounded waiter's timer. -/
namespace Eunox.DecisionTurn

/-- One anchor's turn; its key and pin count are the registry's. -/
structure TicketQueue where
  handed : ℕ
  serving : ℕ
  abandoned : Finset ℕ
deriving DecidableEq

namespace TicketQueue

def fresh : TicketQueue := ⟨0, 0, ∅⟩

def idleQueue (q : TicketQueue) : Bool := q.handed == q.serving

/-- Handing a ticket out; its number is the count before. -/
def ticket (q : TicketQueue) : TicketQueue := { q with handed := q.handed + 1 }

def abandonLocked (n : ℕ) (q : TicketQueue) : TicketQueue := { q with abandoned := insert n q.abandoned }

/-- The loop of `advanceLocked`; each round takes a number off the set, so the
size of the set is fuel enough. -/
def skipAbandoned : ℕ → TicketQueue → TicketQueue
  | 0, q => q
  | fuel + 1, q =>
    if q.serving ∈ q.abandoned then
      skipAbandoned fuel
        { q with abandoned := q.abandoned.erase q.serving, serving := q.serving + 1 }
    else q

def advanceLocked (q : TicketQueue) : TicketQueue :=
  skipAbandoned q.abandoned.card { q with serving := q.serving + 1 }

/-- The loop stops at the first number not abandoned, having taken the ones it
passed off the set. -/
theorem skipAbandoned_spec (fuel : ℕ) (q : TicketQueue) (enough : q.abandoned.card ≤ fuel) :
    (skipAbandoned fuel q).handed = q.handed ∧ q.serving ≤ (skipAbandoned fuel q).serving ∧
    (skipAbandoned fuel q).serving ∉ q.abandoned ∧
    (∀ m, q.serving ≤ m → m < (skipAbandoned fuel q).serving → m ∈ q.abandoned) ∧
    (∀ m, m ∈ (skipAbandoned fuel q).abandoned ↔
      m ∈ q.abandoned ∧ (m < q.serving ∨ (skipAbandoned fuel q).serving ≤ m)) := by
  induction fuel generalizing q with
  | zero =>
    have nobody : q.abandoned = ∅ := Finset.card_eq_zero.mp (Nat.le_zero.mp enough)
    refine ⟨rfl, le_rfl, by simp [nobody], fun m low high => ?_, fun m => by simp [skipAbandoned, nobody]⟩
    exact absurd high (not_lt.mpr low)
  | succ fuel ih =>
    by_cases skipped : q.serving ∈ q.abandoned
    · have fewer : (q.abandoned.erase q.serving).card ≤ fuel := by
        rw [Finset.card_erase_of_mem skipped]
        omega
      obtain ⟨handed, forward, stop, between, left⟩ :=
        ih { q with abandoned := q.abandoned.erase q.serving, serving := q.serving + 1 } fewer
      simp only [skipAbandoned, if_pos skipped]
      dsimp only at forward between left
      simp only [Finset.mem_erase] at stop between left
      refine ⟨handed, by omega, ?_, ?_, ?_⟩
      · exact fun mem => stop ⟨by omega, mem⟩
      · intro m low high
        rcases Nat.eq_or_lt_of_le low with rfl | beyond
        · exact skipped
        · exact (between m beyond high).2
      · intro m
        rw [left m]
        constructor
        · rintro ⟨⟨moved, mem⟩, outside⟩
          exact ⟨mem, by omega⟩
        · rintro ⟨mem, outside⟩
          exact ⟨⟨by omega, mem⟩, by omega⟩
    · simp only [skipAbandoned, if_neg skipped]
      refine ⟨trivial, le_rfl, skipped, fun m low high => absurd high (not_lt.mpr low), fun m => ?_⟩
      exact ⟨fun mem => ⟨mem, by omega⟩, fun both => both.1⟩

/-- The turn moves to the first later number not abandoned. -/
theorem advanceLocked_spec (q : TicketQueue) : q.advanceLocked.handed = q.handed ∧
    q.serving < q.advanceLocked.serving ∧ q.advanceLocked.serving ∉ q.abandoned ∧
    (∀ m, q.serving < m → m < q.advanceLocked.serving → m ∈ q.abandoned) ∧
    (∀ m, m ∈ q.advanceLocked.abandoned ↔ m ∈ q.abandoned ∧ (m ≤ q.serving ∨ q.advanceLocked.serving ≤ m)) := by
  obtain ⟨handed, forward, stop, between, left⟩ :=
    skipAbandoned_spec q.abandoned.card { q with serving := q.serving + 1 } le_rfl
  refine ⟨handed, forward, stop, fun m low high => between m low high, fun m => ?_⟩
  exact (left m).trans (and_congr_right fun _ => or_congr_left Nat.lt_succ_iff)

end TicketQueue

/-- A bounded waiter's rule: how long one holder may keep the turn, and how
long the wait may last at all. -/
structure TurnWait where
  perHolder : ℤ
  total : ℤ
deriving DecidableEq, Repr

def TurnWait.bounded (w : TurnWait) : Bool := 0 < w.perHolder

/-- How long to wait before looking again. -/
def TurnWait.window (w : TurnWait) (deadline now : ℤ) : ℤ :=
  let rest := deadline - now
  if rest < w.perHolder then rest else w.perHolder

/-- Where a call of `begin` or `beginWithin` stands. -/
inductive Phase where
  | waiting
  | begun
  | ended
  | gaveUp
deriving DecidableEq, Repr

/-- One call of `begin` or `beginWithin`, by the ticket it was given. A parked
call sleeps on its queue's condition until the next broadcast. -/
structure Wait where
  ticket : ℕ
  rule : TurnWait
  deadline : ℤ
  holder : ℕ
  expired : Bool
  parked : Bool
  phase : Phase
deriving DecidableEq, Repr

/-- One round of the waiting loop, for ticket number `n`. -/
def Wait.examine (w : Wait) (serving n : ℕ) (now : ℤ) : Wait :=
  if serving = n then { w with phase := .begun, parked := false }
  else if w.expired then
    if serving = w.holder then { w with phase := .gaveUp, parked := false }
    else if w.rule.window w.deadline now ≤ 0 then { w with phase := .gaveUp, parked := false }
    -- the queue moved: a new window for the new holder
    else { w with holder := serving, expired := false, parked := true }
  else { w with parked := true }

@[simp] theorem Wait.examine_ticket (w : Wait) (serving n : ℕ) (now : ℤ) :
    (w.examine serving n now).ticket = w.ticket := by
  unfold Wait.examine
  split_ifs <;> rfl

/-- A round lets the call through exactly when its number is served; otherwise
the call gives up or waits on. -/
theorem Wait.examine_cases (w : Wait) (serving n : ℕ) (now : ℤ) (waiting : w.phase = .waiting) :
    (serving = n ∧ (w.examine serving n now).phase = .begun) ∨
    (serving ≠ n ∧ (w.examine serving n now).phase = .gaveUp) ∨
    (serving ≠ n ∧ (w.examine serving n now).phase = .waiting) := by
  unfold Wait.examine
  by_cases served : serving = n
  · simp [served]
  right
  split_ifs
  · exact .inl ⟨served, rfl⟩
  · exact .inl ⟨served, rfl⟩
  · exact .inr ⟨served, waiting⟩
  · exact .inr ⟨served, waiting⟩

/-- A reserved place, with the anchor it was reserved for. -/
structure Ticket (K : Type) where
  anchor : K
  queue : ℕ
  n : ℕ
deriving DecidableEq, Repr

/-- A pin taken by `hold`, live until its release is called. -/
structure Pin (K : Type) where
  anchor : K
  queue : ℕ
  live : Bool
deriving DecidableEq, Repr

/-- A serializer in use: its registry of queues, and everything its callers
hold. `order` lists the tickets let through, oldest first. -/
structure Usage (K : Type) where
  queues : KeyedRegistry K TicketQueue
  tickets : List (Ticket K)
  pins : List (Pin K)
  waits : List Wait
  order : List ℕ

inductive Event (K : Type) where
  | take (anchor : K)
  | takeOn (pin : ℕ)
  | hold (anchor : K)
  | unpin (pin : ℕ)
  -- `fired`: the timer started just before the lock has already gone off
  | begin (ticket : ℕ) (rule : TurnWait) (fired : Bool) (now : ℤ)
  | timer (wait : ℕ)
  | wake (wait : ℕ) (now : ℤ)
  | «end» (wait : ℕ)
deriving DecidableEq, Repr

namespace Usage

variable {K : Type}

def start : Usage K := ⟨.empty, [], [], [], []⟩

/-- `ticketQueue.ticket` on the queue with this identity. -/
def reserve (u : Usage K) (anchor : K) (v : ℕ) : Usage K :=
  match u.queues.objects[v]? with
  | none => u
  | some (_, q) =>
    { u with
      queues := u.queues.update v TicketQueue.ticket
      tickets := u.tickets ++ [⟨anchor, v, q.handed⟩] }

/-- Wakes every call parked on the queue. -/
def broadcast (u : Usage K) (v : ℕ) : Usage K :=
  { u with waits := u.waits.map fun w =>
      if (u.tickets[w.ticket]?).any (·.queue == v) then { w with parked := false } else w }

/-- One round of the loop of this call, and what follows when the loop ends. -/
def examine (u : Usage K) (i : ℕ) (now : ℤ) : Usage K :=
  match u.waits[i]? with
  | none => u
  | some w =>
    match u.tickets[w.ticket]? with
    | none => u
    | some t =>
      match u.queues.objects[t.queue]? with
      | none => u
      | some (_, q) =>
        let w' := w.examine q.serving t.n now
        let u := { u with waits := u.waits.set i w' }
        match w'.phase with
        | .begun => { u with order := u.order ++ [w.ticket] }
        | .gaveUp => { u with queues := u.queues.update t.queue (TicketQueue.abandonLocked t.n) }
        | _ => u

/-- The critical section `beginWithin` enters the loop with. -/
def call (u : Usage K) (k : ℕ) (rule : TurnWait) (fired : Bool) (now : ℤ) : Usage K :=
  match u.tickets[k]? with
  | none => u
  | some t =>
    match u.queues.objects[t.queue]? with
    | none => u
    | some (_, q) =>
      let w : Wait :=
        { ticket := k, rule, deadline := now + rule.total, holder := q.serving
          expired := rule.bounded && fired, parked := false, phase := .waiting }
      examine { u with waits := u.waits ++ [w] } u.waits.length now

variable [DecidableEq K]

/-- The function a call returned, which acts only the first time. -/
def finish (u : Usage K) (i : ℕ) : Usage K :=
  match u.waits[i]? with
  | some w =>
    if w.phase = .begun then
      match u.tickets[w.ticket]? with
      | none => u
      | some t =>
        broadcast
          { u with
            queues := (u.queues.update t.queue TicketQueue.advanceLocked).reapLocked
              TicketQueue.idleQueue t.queue
            waits := u.waits.set i { w with phase := .ended } } t.queue
    else u
  | none => u

def step (u : Usage K) : Event K → Usage K
  | .take anchor =>
    let (queues, v) := u.queues.entryLocked .fresh anchor
    reserve { u with queues } anchor v
  | .takeOn i =>
    match u.pins[i]? with
    | none => u
    | some p => u.reserve p.anchor p.queue
  | .hold anchor =>
    let (queues, v) := u.queues.hold .fresh anchor
    { u with queues, pins := u.pins ++ [⟨anchor, v, true⟩] }
  | .unpin i =>
    match u.pins[i]? with
    | none => u
    | some p =>
      if p.live then
        { u with
          queues := u.queues.drop TicketQueue.idleQueue p.queue
          pins := u.pins.set i { p with live := false } }
      else u
  | .begin k rule fired now => u.call k rule fired now
  | .timer i =>
    match u.waits[i]? with
    | some w =>
      if w.rule.bounded ∧ w.phase = .waiting then
        match u.tickets[w.ticket]? with
        | none => u
        | some t => broadcast { u with waits := u.waits.set i { w with expired := true } } t.queue
      else u
    | none => u
  | .wake i now =>
    match u.waits[i]? with
    | some w => if w.phase = .waiting ∧ !w.parked then u.examine i now else u
    | none => u
  | .end i => u.finish i

def run (events : List (Event K)) : Usage K := events.foldl step start

end Usage

end Eunox.DecisionTurn
