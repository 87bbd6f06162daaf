import Mathlib.Data.List.Basic
import Mathlib.Logic.Function.Basic
import Mathlib.Tactic

/-! The keyed registry of `internal/transport/keyed_registry.go`: one
reference-counted value per key, dropped once nothing refers to it and its
embedder's predicate agrees. A value's identity is the position it was built
at, so a handle outlives the registry's own entry for it. Every operation is
one critical section of the registry's mutex. -/
namespace Eunox

structure KeyedEntry (K : Type) where
  key : K
  refs : ℤ
deriving DecidableEq, Repr

/-- Every value ever built, by identity, and the one filed under each key. -/
structure KeyedRegistry (K T : Type) where
  objects : List (KeyedEntry K × T)
  entries : K → Option ℕ

namespace KeyedRegistry

variable {K T : Type}

def empty : KeyedRegistry K T := ⟨[], fun _ => none⟩

section
variable (r : KeyedRegistry K T)

/-- The same value with its reference count moved. -/
def addRefs (v : ℕ) (change : ℤ) : KeyedRegistry K T :=
  { r with objects := r.objects.modify v fun o => ({ o.1 with refs := o.1.refs + change }, o.2) }

/-- The same value with its own state moved. -/
def update (v : ℕ) (f : T → T) : KeyedRegistry K T :=
  { r with objects := r.objects.modify v fun o => (o.1, f o.2) }

@[simp] theorem addRefs_entries (v : ℕ) (change : ℤ) :
    (r.addRefs v change).entries = r.entries := rfl

@[simp] theorem update_entries (v : ℕ) (f : T → T) : (r.update v f).entries = r.entries := rfl

/-- What a handle reads, with an unbuilt identity reading as a fresh value. -/
def value (build : T) (r : KeyedRegistry K T) (v : ℕ) : T := (r.objects[v]?.map Prod.snd).getD build

def refs (r : KeyedRegistry K T) (v : ℕ) : ℤ := (r.objects[v]?.map (·.1.refs)).getD 0

def key (r : KeyedRegistry K T) (v : ℕ) : Option K := r.objects[v]?.map (·.1.key)

theorem objects_of_key {r : KeyedRegistry K T} (keyed : r.key v = some a) (build : T) :
    r.objects[v]? = some (⟨a, r.refs v⟩, r.value build v) := by
  obtain ⟨⟨⟨k, n⟩, t⟩, found, rfl⟩ := Option.map_eq_some_iff.mp keyed
  simp [refs, value, found]

@[simp] theorem key_addRefs (v : ℕ) (change : ℤ) : (r.addRefs v change).key = r.key := by
  funext w
  simp only [key, addRefs, List.getElem?_modify, Option.map_eq_map, Option.map_map]
  congr 1
  funext o
  split <;> rfl

@[simp] theorem value_addRefs (build : T) (r : KeyedRegistry K T) (v : ℕ) (change : ℤ) :
    (r.addRefs v change).value build = r.value build := by
  funext w
  simp only [value, addRefs, List.getElem?_modify, Option.map_eq_map, Option.map_map]
  congr 2
  funext o
  split <;> rfl

theorem refs_addRefs {r : KeyedRegistry K T} (keyed : r.key v = some a) (change : ℤ) :
    (r.addRefs v change).refs = Function.update r.refs v (r.refs v + change) := by
  funext w
  by_cases same : v = w
  · subst same
    obtain ⟨o, found, -⟩ := Option.map_eq_some_iff.mp keyed
    simp [refs, addRefs, found]
  · simp [refs, addRefs, same, Ne.symm same]

@[simp] theorem key_update (v : ℕ) (f : T → T) : (r.update v f).key = r.key := by
  funext w
  simp only [key, update, List.getElem?_modify, Option.map_eq_map, Option.map_map]
  congr 1
  funext o
  split <;> rfl

@[simp] theorem refs_update (v : ℕ) (f : T → T) : (r.update v f).refs = r.refs := by
  funext w
  simp only [refs, update, List.getElem?_modify, Option.map_eq_map, Option.map_map]
  congr 2
  funext o
  split <;> rfl

end

theorem value_update (build : T) {r : KeyedRegistry K T} (keyed : r.key v = some a) (f : T → T) :
    (r.update v f).value build = Function.update (r.value build) v (f (r.value build v)) := by
  funext w
  by_cases same : v = w
  · subst same
    obtain ⟨o, found, -⟩ := Option.map_eq_some_iff.mp keyed
    simp [value, update, found]
  · simp [value, update, same, Ne.symm same]

variable [DecidableEq K]

/-- The key's value, built and filed if there is none. It takes no reference. -/
def entryLocked (build : T) (r : KeyedRegistry K T) (key : K) : KeyedRegistry K T × ℕ :=
  match r.entries key with
  | some v => (r, v)
  | none =>
    let v := r.objects.length
    ({ objects := r.objects ++ [(⟨key, 0⟩, build)]
       entries := Function.update r.entries key (some v) }, v)

def hold (build : T) (r : KeyedRegistry K T) (key : K) : KeyedRegistry K T × ℕ :=
  let (r, v) := r.entryLocked build key
  (r.addRefs v 1, v)

section
variable (idle : T → Bool) (r : KeyedRegistry K T) (v : ℕ)

/-- Drops the value unless it is referenced, busy, or no longer the one filed. -/
def reapLocked : KeyedRegistry K T :=
  match r.objects[v]? with
  | none => r
  | some (e, t) =>
    if 0 < e.refs then r
    else if !idle t then r
    else if r.entries e.key = some v then
      { r with entries := Function.update r.entries e.key none }
    else r

def drop : KeyedRegistry K T := (r.addRefs v (-1)).reapLocked idle v

@[simp] theorem reapLocked_objects : (r.reapLocked idle v).objects = r.objects := by
  unfold reapLocked
  split
  · rfl
  · split_ifs <;> rfl

@[simp] theorem key_reapLocked : (r.reapLocked idle v).key = r.key := by
  funext w
  simp [key]

@[simp] theorem refs_reapLocked : (r.reapLocked idle v).refs = r.refs := by
  funext w
  simp [refs]

end

@[simp] theorem value_reapLocked (build : T) (idle : T → Bool) (r : KeyedRegistry K T) (v : ℕ) :
    (r.reapLocked idle v).value build = r.value build := by
  funext w
  simp [value]

/-- Reaping unfiles exactly a filed value that is unreferenced and idle. -/
theorem entries_reapLocked (build : T) (idle : T → Bool) {r : KeyedRegistry K T} (keyed : r.key v = some a) :
    (r.reapLocked idle v).entries =
      if r.refs v ≤ 0 ∧ idle (r.value build v) = true ∧ r.entries a = some v then
        Function.update r.entries a none else r.entries := by
  unfold reapLocked
  simp only [objects_of_key keyed build]
  by_cases held : 0 < r.refs v
  · simp [held]
  cases quiet : idle (r.value build v) with
  | false => simp [held]
  | true =>
    by_cases filed : r.entries a = some v
    · simp [held, filed]
    · simp [filed]

/-- Looking a key up finds the value filed under it or files a fresh one, and
no handle reads anything else for it. -/
theorem entryLocked_spec (build : T) (r : KeyedRegistry K T) (a : K) :
    (r.entryLocked build a).1.value build = r.value build ∧
    (r.entryLocked build a).1.refs = r.refs ∧ (r.entryLocked build a).1.entries =
      Function.update r.entries a (some (r.entryLocked build a).2) ∧
    ((r.entries a = some (r.entryLocked build a).2 ∧ (r.entryLocked build a).1.key = r.key) ∨
      (r.entries a = none ∧ r.key (r.entryLocked build a).2 = none ∧ (r.entryLocked build a).1.key =
          Function.update r.key (r.entryLocked build a).2 (some a))) := by
  unfold entryLocked
  cases filed : r.entries a with
  | some v => exact ⟨rfl, rfl, by simp [← filed], .inl ⟨rfl, rfl⟩⟩
  | none =>
    have view : ∀ w, (r.objects ++ [((⟨a, 0⟩ : KeyedEntry K), build)])[w]? =
        if w = r.objects.length then some (⟨a, 0⟩, build) else r.objects[w]? := by
      intro w
      rcases lt_trichotomy w r.objects.length with below | rfl | above
      · simp [List.getElem?_append_left below, below.ne]
      · simp
      · simp [above.ne', List.getElem?_eq_none (Nat.le_of_lt above),
          List.getElem?_eq_none (show (r.objects ++ [((⟨a, 0⟩ : KeyedEntry K), build)]).length ≤ w by
            simpa using above)]
    refine ⟨?_, ?_, rfl, .inr ⟨rfl, by simp [key], ?_⟩⟩
    · funext w
      simp only [value, view]
      split
      · rename_i last
        simp [last]
      · rfl
    · funext w
      simp only [refs, view]
      split
      · rename_i last
        simp [last]
      · rfl
    · funext w
      simp only [key, Function.update_apply]
      split <;> simp_all

end KeyedRegistry

end Eunox
