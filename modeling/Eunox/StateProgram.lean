import Mathlib.Tactic.Choose

/-! State-passing programs `σ → α × σ`, and properties of programs that
composing them keeps. A property shown of the operations a program is composed
of is then one of the whole program. -/
namespace StateProgram
variable {σ : Type}

/-- A property that answering and composing keep. -/
structure Compositional (P : ∀ {α : Type}, (σ → α × σ) → Prop) : Prop where
  answer : ∀ {α : Type} (a : α), P fun s => (a, s)
  andThen : ∀ {α β : Type} {f : σ → α × σ} {g : α → σ → β × σ},
    P f → (∀ a, P (g a)) → P fun s => g (f s).1 (f s).2

theorem of_eq {P : ∀ {α : Type}, (σ → α × σ) → Prop} {α : Type} {f g : σ → α × σ}
    (same : ∀ s, f s = g s) (holds : P g) : P f := funext same ▸ holds

theorem of_ite {P : ∀ {α : Type}, (σ → α × σ) → Prop} {α : Type} {c : Prop} [Decidable c]
    {f g : σ → α × σ} (yes : c → P f) (no : ¬ c → P g) : P fun s => if c then f s else g s := by
  by_cases holds : c
  · simpa only [holds, ↓reduceIte] using yes holds
  · simpa only [holds, ↓reduceIte] using no holds

/-- What is left of a program at the states it reaches is a program with the
property. -/
abbrev Continues (P : ∀ {α : Type}, (σ → α × σ) → Prop) {β : Type} (reach : σ → σ → Prop)
    (h : σ → β × σ) : Prop :=
  ∃ g : σ → β × σ, P g ∧ ∀ s s', reach s s' → h s = g s'

section Compositional
variable {P : ∀ {α : Type}, (σ → α × σ) → Prop} (rules : Compositional P) {α β : Type}
include rules

/-- A program that starts with another one and goes on by what it answers. -/
theorem Compositional.after {f : σ → α × σ} {h : σ → β × σ} (first : P f)
    (later : ∀ a, Continues P (fun s s' => f s = (a, s')) h) : P h := by
  choose g holds same using later
  exact of_eq (fun s => same _ s _ rfl) (rules.andThen first holds)

/-- Only what the first program can answer matters. -/
theorem Compositional.afterReached [Nonempty σ] {f : σ → α × σ} {h : σ → β × σ} (first : P f)
    (later : ∀ a, (∃ s, (f s).1 = a) → Continues P (fun s s' => f s = (a, s')) h) : P h := by
  refine rules.after first fun a => ?_
  by_cases reached : ∃ s, (f s).1 = a
  · exact later a reached
  · refine ⟨_, rules.answer (h (Classical.arbitrary σ)).1, fun s s' ran => ?_⟩
    exact absurd ⟨s, congrArg Prod.fst ran⟩ reached

/-- Going on with one more program. -/
theorem Compositional.continue {reach : σ → σ → Prop} {f : σ → α × σ} {h : σ → β × σ} (next : P f)
    (later : ∀ a, Continues P (fun s s'' => ∃ s', reach s s' ∧ f s' = (a, s'')) h) :
    Continues P reach h := by
  choose g holds same using later
  exact ⟨_, rules.andThen next holds, fun s s' reached => same _ s _ ⟨s', reached, rfl⟩⟩

theorem Compositional.unless {a : α} {f : σ → α × σ} {c : Prop} [Decidable c] (no : ¬ c → P f) :
    P fun s => if c then (a, s) else f s := of_ite (fun _ => rules.answer a) no

theorem Compositional.mapAnswer {f : σ → α × σ} (first : P f) (h : α → β) : P fun s => (h (f s).1, (f s).2) :=
  rules.andThen first fun a => rules.answer (h a)

end Compositional

/-- From related states the program answers alike and ends in related states,
unless a run ends badly; a bad state stays one. -/
structure Respects (R : σ → σ → Prop) (bad : σ → Prop) {α : Type} (f : σ → α × σ) : Prop where
  stays : ∀ ⦃s : σ⦄, bad s → bad (f s).2
  alike : ∀ ⦃s s' : σ⦄, R s s' → ¬ bad (f s).2 → ¬ bad (f s').2 →
    (f s').1 = (f s).1 ∧ R (f s).2 (f s').2

/-- The program leaves a state related to the one it started in. -/
def Hidden (R : σ → σ → Prop) {α : Type} (f : σ → α × σ) : Prop := ∀ ⦃s : σ⦄, R s s → R s (f s).2

theorem respects_compositional (R : σ → σ → Prop) (bad : σ → Prop) : Compositional (Respects R bad) where
  answer := fun _ => ⟨fun _ => id, fun _ _ related _ _ => ⟨rfl, related⟩⟩
  andThen := by
    intro α β f g first second
    refine ⟨fun s begins => (second _).stays (first.stays begins), fun s s' related good good' => ?_⟩
    have mid : ¬ bad (f s).2 := fun worse => good ((second _).stays worse)
    have mid' : ¬ bad (f s').2 := fun worse => good' ((second _).stays worse)
    obtain ⟨same, next⟩ := first.alike related mid mid'
    simp only [same] at good' ⊢
    exact (second (f s).1).alike next good good'

theorem hidden_compositional {R : σ → σ → Prop} (trans : ∀ {a b c : σ}, R a b → R b c → R a c)
    (right : ∀ {a b : σ}, R a b → R b b) : Compositional (Hidden R) where
  answer := fun _ _ related => related
  andThen := by
    intro α β f g first second s related
    have next := first related
    exact trans next (second (f s).1 (right next))

end StateProgram
