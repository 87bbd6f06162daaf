import Mathlib.Data.List.Basic

/-! Programs that ask an environment, one query at a time, and go on by its
answers. What the environment answers is not the program's to say: a run is any
list of answered queries. Programs that run at the same time are runs of each of
them, woven together. -/
namespace Interaction

inductive Prog (Q : Type) (A : Q → Type) (α : Type) : Type where
  | ret (a : α)
  | ask (q : Q) (next : A q → Prog Q A α)

/-- A query with the answer it got. -/
abbrev Event (Q : Type) (A : Q → Type) : Type := (q : Q) × A q

variable {Q : Type} {A : Q → Type} {α β : Type}

def Prog.bind : Prog Q A α → (α → Prog Q A β) → Prog Q A β
  | .ret a, f => f a
  | .ask q next, f => .ask q fun answer => (next answer).bind f

instance : Monad (Prog Q A) where
  pure := .ret
  bind := .bind

/-- A query on its own. -/
def ask (q : Q) : Prog Q A (A q) := .ask q .ret

/-- The runs of a program: what was asked and answered, and the result. -/
inductive Runs : Prog Q A α → List (Event Q A) → α → Prop where
  | ret (a : α) : Runs (.ret a) [] a
  | ask {q : Q} {next : A q → Prog Q A α} {answer : A q} {events : List (Event Q A)} {a : α}
      (later : Runs (next answer) events a) : Runs (.ask q next) (⟨q, answer⟩ :: events) a

@[simp] theorem runs_ret : Runs (.ret a) events b ↔ events = [] ∧ b = a := by
  constructor
  · rintro ⟨⟩
    exact ⟨rfl, rfl⟩
  · rintro ⟨rfl, rfl⟩
    exact .ret b

@[simp] theorem runs_pure : Runs (pure a : Prog Q A α) events b ↔ events = [] ∧ b = a := runs_ret

theorem runs_ask_next : Runs (.ask q next) events b ↔
      ∃ answer rest, events = ⟨q, answer⟩ :: rest ∧ Runs (next answer) rest b := by
  constructor
  · rintro ⟨⟩
    exact ⟨_, _, rfl, by assumption⟩
  · rintro ⟨answer, rest, rfl, later⟩
    exact .ask later

/-- A run of one program and then another is a run of each. -/
theorem runs_bind : Runs (p >>= f) events b ↔
      ∃ front a back, events = front ++ back ∧ Runs p front a ∧ Runs (f a) back b := by
  show Runs (p.bind f) events b ↔ _
  induction p generalizing events with
  | ret a =>
    constructor
    · intro run
      exact ⟨[], a, events, rfl, .ret a, run⟩
    · rintro ⟨front, c, back, rfl, first, later⟩
      obtain ⟨rfl, rfl⟩ := runs_ret.mp first
      exact later
  | ask q next ih =>
    rw [Prog.bind, runs_ask_next]
    constructor
    · rintro ⟨answer, rest, rfl, run⟩
      obtain ⟨front, a, back, rfl, first, later⟩ := (ih answer).mp run
      exact ⟨_, a, back, rfl, .ask first, later⟩
    · rintro ⟨front, a, back, rfl, first, later⟩
      obtain ⟨answer, rest, rfl, inner⟩ := runs_ask_next.mp first
      exact ⟨answer, rest ++ back, rfl, (ih answer).mpr ⟨rest, a, back, rfl, inner, later⟩⟩

/-- A query and what follows its answer. -/
theorem runs_ask : Runs (ask q >>= f) events b ↔
      ∃ answer rest, events = ⟨q, answer⟩ :: rest ∧ Runs (f answer) rest b :=
  runs_ask_next

@[simp] theorem runs_ask_alone : Runs (ask q) events answer ↔ events = [⟨q, answer⟩] := by
  rw [ask, runs_ask_next]
  constructor
  · rintro ⟨got, rest, rfl, last⟩
    obtain ⟨rfl, rfl⟩ := runs_ret.mp last
    rfl
  · rintro rfl
    exact ⟨answer, [], rfl, .ret answer⟩

theorem runs_map : Runs (f <$> p) events b ↔ ∃ a, Runs p events a ∧ b = f a := by
  show Runs (p >>= fun a => pure (f a)) events b ↔ _
  rw [runs_bind]
  constructor
  · rintro ⟨front, a, back, rfl, first, last⟩
    obtain ⟨rfl, rfl⟩ := runs_pure.mp last
    exact ⟨a, by rwa [List.append_nil], rfl⟩
  · rintro ⟨a, first, rfl⟩
    exact ⟨events, a, [], by simp, first, .ret _⟩

/-- A program that answers by what the last one before it gave. -/
theorem runs_bind_pure {f : α → β} : Runs (p >>= fun a => pure (f a)) events b ↔ ∃ a, Runs p events a ∧ b = f a :=
  runs_map

/-- A run of a choice is one of a branch. -/
theorem runs_ite {c : Prop} [Decidable c] {p q : Prog Q A α} (run : Runs (if c then p else q) events a) :
    Runs p events a ∨ Runs q events a := by
  split at run
  · exact .inl run
  · exact .inr run

/-! One environment. -/

/-- The run against an environment that answers by what was asked so far. -/
def Prog.against (answer : List (Event Q A) → (q : Q) → A q) :
    Prog Q A α → List (Event Q A) → List (Event Q A) × α
  | .ret a, _ => ([], a)
  | .ask q next, past =>
    let event : Event Q A := ⟨q, answer past q⟩
    let later := (next (answer past q)).against answer (past ++ [event])
    (event :: later.1, later.2)

theorem against_runs (answer : List (Event Q A) → (q : Q) → A q) (p : Prog Q A α)
    (past : List (Event Q A)) : Runs p (p.against answer past).1 (p.against answer past).2 := by
  induction p generalizing past with
  | ret a => exact .ret a
  | ask q next ih => exact .ask (ih _ _)

/-! Programs at the same time. -/

/-- What one of the programs asked. -/
def own (i : ℕ) (events : List (ℕ × Event Q A)) : List (Event Q A) :=
  (events.filter fun event => event.1 = i).map Prod.snd

theorem mem_own : event ∈ own i events ↔ (i, event) ∈ events := by
  simp [own]

theorem own_append (i : ℕ) (front back : List (ℕ × Event Q A)) :
    own i (front ++ back) = own i front ++ own i back := by
  simp [own]

/-- Programs woven together in any order, each to its end. -/
structure Woven (programs : List (Prog Q A α)) where
  events : List (ℕ × Event Q A)
  results : ℕ → α
  each : ∀ i p, programs[i]? = some p → Runs p (own i events) (results i)

/-- A program that has asked nothing so far asks it all from here. -/
theorem own_later (fresh : own i front = []) : own i (front ++ back) = own i back := by
  rw [own_append, fresh, List.nil_append]

end Interaction
