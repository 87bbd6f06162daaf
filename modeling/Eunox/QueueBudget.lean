import Mathlib.Algebra.BigOperators.Ring.Finset
import Mathlib.Logic.Relation

/-! The byte budget of the audit queue, `enqueue` and `drain` of `internal/audit/audit.go`. A call of `enqueue` holds
the read lock throughout and `Close` takes the write lock, so no call is under way when the sink is closed. Every
operation on the counters and the channel is a step of its own. -/
namespace Eunox.QueueBudget

def auditQueueByteBudget : ℕ := 268435456

/-- Where a call of `enqueue` is. -/
inductive Phase where
  /-- It has the lock, and the size of its record. -/
  | entered
  /-- Its bytes are reserved, within the budget. -/
  | reserved
  /-- Its bytes are reserved, and it will drop the record. -/
  | refunding
  | dropping

variable {Record : Type}

structure Call (Record : Type) where
  record : Record
  phase : Phase

structure Sink (Record : Type) where
  closed : Bool := false
  /-- An `atomic.Int64`, which does not wrap: it counts records that are in memory, see `Reserved.counter`. -/
  queuedBytes : ℤ := 0
  records : List Record := []
  calls : List (Call Record) := []
  /-- The record the drainer has received and not yet credited. -/
  draining : Option Record := none
  /-- The drainer has left its loop. -/
  exited : Bool := false
  dropped : ℕ := 0
  /-- Every record handed to `enqueue`, received by the drainer, and counted in `dropped`. -/
  handed : List Record := []
  delivered : List Record := []
  lost : List Record := []

/-- The sink with this call taken out of those under way. -/
@[simp]
def Sink.left (s : Sink Record) (before after : List (Call Record)) : Sink Record := { s with calls := before ++ after }

@[simp]
def Sink.moved (s : Sink Record) (before after : List (Call Record)) (r : Record) (phase : Phase) : Sink Record :=
  { s with calls := before ++ ⟨r, phase⟩ :: after }

@[simp]
def Sink.drop (s : Sink Record) (r : Record) : Sink Record := { s with dropped := s.dropped + 1, lost := r :: s.lost }

variable (queuedSize : Record → ℕ) (capacity : ℕ)

variable (s : Sink Record) in
inductive Step : Sink Record → Prop
  | enter (r : Record) : Step { s with calls := ⟨r, .entered⟩ :: s.calls, handed := r :: s.handed }
  | shut (at_ : s.calls = before ++ ⟨r, .entered⟩ :: after) (closed : s.closed = true) :
      Step ((s.left before after).drop r)
  | reserve (at_ : s.calls = before ++ ⟨r, .entered⟩ :: after) (open_ : s.closed = false) :
      Step { s.moved before after r
          (if (auditQueueByteBudget : ℤ) < s.queuedBytes + queuedSize r then .refunding else .reserved) with
        queuedBytes := s.queuedBytes + queuedSize r }
  | send (at_ : s.calls = before ++ ⟨r, .reserved⟩ :: after) (room : s.records.length < capacity) :
      Step { s.left before after with records := s.records ++ [r] }
  | full (at_ : s.calls = before ++ ⟨r, .reserved⟩ :: after) (filled : capacity ≤ s.records.length) :
      Step (s.moved before after r .refunding)
  | refund (at_ : s.calls = before ++ ⟨r, .refunding⟩ :: after) :
      Step { s.moved before after r .dropping with queuedBytes := s.queuedBytes - queuedSize r }
  | drop (at_ : s.calls = before ++ ⟨r, .dropping⟩ :: after) : Step ((s.left before after).drop r)
  | receive (idle : s.draining = none) (waiting : s.records = r :: rest) :
      Step { s with records := rest, draining := some r, delivered := r :: s.delivered }
  | credit (writing : s.draining = some r) :
      Step { s with draining := none, queuedBytes := s.queuedBytes - queuedSize r }
  | exit (closed : s.closed = true) (idle : s.draining = none) (empty : s.records = []) :
      Step { s with exited := true }
  | close (unlocked : s.calls = []) : Step { s with closed := true }

abbrev Reachable (s : Sink Record) : Prop := Relation.ReflTransGen (Step queuedSize capacity) {} s

/-! What the counter counts. -/

@[simp]
def total (records : List Record) : ℕ := (records.map queuedSize).sum

/-- The bytes a call has reserved. -/
@[simp]
def Call.reservation (c : Call Record) : ℕ :=
  match c.phase with
  | .reserved | .refunding => queuedSize c.record
  | _ => 0

/-- Those of a call that may still send. -/
@[simp]
def Call.sendable (c : Call Record) : ℕ :=
  match c.phase with
  | .reserved => queuedSize c.record
  | _ => 0

/-- What is queued, and what the drainer has not credited. -/
@[simp]
def Sink.uncredited (s : Sink Record) : ℕ := total queuedSize s.records + s.draining.elim 0 queuedSize

theorem sendable_le (calls : List (Call Record)) :
    (calls.map (Call.sendable queuedSize)).sum ≤ (calls.map (Call.reservation queuedSize)).sum := by
  induction calls with
  | nil => simp
  | cons c rest ih =>
    have own : c.sendable queuedSize ≤ c.reservation queuedSize := by
      rcases c with ⟨r, _ | _ | _ | _⟩ <;> simp
    simp only [List.map_cons, List.sum_cons]
    omega

/-- Only a call whose own reservation came out within the budget may send, so what is queued stays within it too. -/
structure Reserved (s : Sink Record) : Prop where
  counter : s.queuedBytes = s.uncredited queuedSize + (s.calls.map (Call.reservation queuedSize)).sum
  budget : s.uncredited queuedSize + (s.calls.map (Call.sendable queuedSize)).sum ≤ auditQueueByteBudget

/-- A record is with a call, in the queue, delivered or lost. -/
structure Conserved [DecidableEq Record] (s : Sink Record) : Prop where
  once : ∀ r, s.handed.count r =
    (s.calls.map Call.record).count r + s.records.count r + s.delivered.count r + s.lost.count r
  dropped : s.dropped = s.lost.length

/-- A closed sink has no call past its check, so nothing is sent on the closed channel. -/
structure Shut (s : Sink Record) : Prop where
  entered : s.closed = true → ∀ c ∈ s.calls, c.phase = .entered
  exited : s.exited = true → s.closed = true ∧ s.records = []

variable {queuedSize capacity}

theorem Reserved.step (h : Reserved queuedSize s) (step : Step queuedSize capacity s t) : Reserved queuedSize t := by
  obtain ⟨counter, budget⟩ := h
  have sendable := sendable_le queuedSize s.calls
  cases step with
  | reserve at_ open_ =>
    simp only [at_] at counter budget sendable
    split_ifs with past
    · constructor <;> simp at counter budget ⊢ <;> omega
    · constructor <;> simp [-Nat.cast_list_sum] at counter budget sendable past ⊢ <;> omega
  | _ => constructor <;> simp_all <;> omega

theorem Conserved.step [DecidableEq Record] (h : Conserved s) (step : Step queuedSize capacity s t) : Conserved t := by
  obtain ⟨once, dropped⟩ := h
  constructor
  · intro r
    have := once r
    cases step <;> simp_all [List.count_cons] <;> omega
  · cases step <;> simpa using dropped

theorem Shut.open_ (h : Shut s) (at_ : s.calls = before ++ c :: after) (past : c.phase ≠ .entered) :
    s.closed = false :=
  Bool.eq_false_iff.mpr fun closed => past (h.entered closed c (by simp [at_]))

theorem Shut.step (h : Shut s) (step : Step queuedSize capacity s t) : Shut t := by
  obtain ⟨entered, exited⟩ := id h
  cases step with
  | enter r => exact ⟨fun closed c mem => (List.mem_cons.mp mem).elim (· ▸ rfl) (entered closed c), exited⟩
  | shut at_ closed => exact ⟨fun _ c mem => entered closed c (by simp_all; tauto), exited⟩
  | reserve at_ open_ => constructor <;> simp_all
  | send at_ _ | full at_ _ | refund at_ | drop at_ =>
    have := h.open_ at_ (by simp)
    constructor <;> simp_all
  | receive idle waiting => exact ⟨entered, fun done => by simp_all⟩
  | credit _ => exact ⟨entered, exited⟩
  | exit closed _ empty => exact ⟨entered, fun _ => ⟨closed, empty⟩⟩
  | close unlocked => exact ⟨by simp [unlocked], by simp_all⟩

/-- In any interleaving: what is queued is within the budget and within the counter, which is exact when nothing is
under way; every record handed over is with a call, queued, received or lost, and the lost ones are counted. -/
theorem queue_budget [DecidableEq Record] (reach : Reachable queuedSize capacity s) :
    total queuedSize s.records ≤ auditQueueByteBudget ∧
      (total queuedSize s.records : ℤ) ≤ s.queuedBytes ∧
      (s.calls = [] → s.draining = none → s.queuedBytes = total queuedSize s.records) ∧
      (∀ r, s.handed.count r =
        (s.calls.map Call.record).count r + s.records.count r + s.delivered.count r + s.lost.count r) ∧
      s.dropped = s.lost.length ∧ (s.exited = true → s.records = []) := by
  obtain ⟨⟨counter, budget⟩, ⟨once, dropped⟩, shut⟩ : Reserved queuedSize s ∧ Conserved s ∧ Shut s := by
    induction reach with
    | refl => exact ⟨⟨by simp, by simp⟩, ⟨by simp, rfl⟩, ⟨by simp, by simp⟩⟩
    | tail _ step ih => exact ⟨ih.1.step step, ih.2.1.step step, ih.2.2.step step⟩
  refine ⟨?_, ?_, fun idle drained => ?_, once, dropped, fun done => (shut.exited done).2⟩
  · unfold Sink.uncredited at budget
    omega
  · rw [counter]
    unfold Sink.uncredited
    omega
  · simp [counter, idle, drained]

-- A record of three bytes is received and credited; one past the budget is refunded and dropped.
theorem queue_budget_received : ∃ s : Sink ℕ, Reachable id 1 s ∧ s.delivered = [3] ∧ s.queuedBytes = 0 ∧
    s.handed.count 268435457 = 1 ∧ s.lost.count 268435457 = 1 ∧ s.dropped = s.lost.length := by
  have sent : Reachable id 1 { queuedBytes := 3, records := [3], handed := [3] } :=
    ((Relation.ReflTransGen.refl.tail (.enter 3)).tail (@Step.reserve _ _ _ _ [] [] 3 rfl rfl)).tail
      (@Step.send _ _ _ _ [] [] 3 rfl Nat.zero_lt_one)
  have credited := (sent.tail (.receive rfl rfl)).tail (.credit rfl)
  have refunded := ((credited.tail (.enter 268435457)).tail (@Step.reserve _ _ _ _ [] [] 268435457 rfl rfl)).tail
    (@Step.refund _ _ _ _ [] [] 268435457 rfl)
  have lost := refunded.tail (@Step.drop _ _ _ _ [] [] 268435457 rfl)
  obtain ⟨-, -, exact_, once, dropped, -⟩ := queue_budget lost
  exact ⟨_, lost, rfl, exact_ rfl rfl, rfl, rfl, dropped⟩

end Eunox.QueueBudget
