import Mathlib.Data.List.AList
import Eunox.FlowLabel

/-! The in-process flow-label store, `flowlabelstore.InMemory`: one label set per
anchor key. Instants are nanoseconds. Warnings and the goroutine that runs the
sweep have no effect on a decision and are left out. -/
namespace Eunox.FlowLabelStore
open ByteString CallCounter

structure LabelSet where
  labels : List Bytes
  touched : ℤ

structure InMemory where
  sets : AList fun _ : Bytes => LabelSet
  /-- Zero leaves the number of anchors unbounded. -/
  maxKeys : ℤ
  /-- Zero disables idle reclamation. -/
  ttl : ℤ
  /-- When the sweep at the ceiling last ran. -/
  lastReclaim : Option ℤ

def newInMemory (maxKeys ttl : ℤ) : InMemory where
  sets := ∅
  maxKeys := maxKeys
  ttl := ttl
  lastReclaim := none

/-- Five minutes. -/
def defaultCleanupInterval : ℤ := 300 * second

section
variable (m : InMemory)

def InMemory.effectiveTTL : ℤ :=
  if m.ttl ≤ 0 then 0 else if m.ttl < second then second else m.ttl

/-- Whether a set went untouched for the whole TTL. -/
def InMemory.idle (set : LabelSet) (now : ℤ) : Bool := 0 < m.effectiveTTL && m.effectiveTTL ≤ now - set.touched

variable (now : ℤ) (anchorKey : Bytes)

/-- The anchor's set, unless it idled out. -/
def InMemory.live (anchorKey : Bytes) (now : ℤ) : Option LabelSet :=
  (m.sets.lookup anchorKey).filter fun set => !m.idle set now

def InMemory.store (set : LabelSet) : InMemory := { m with sets := m.sets.insert anchorKey set }

def InMemory.erase (anchorKey : Bytes) : InMemory := { m with sets := m.sets.erase anchorKey }

/-- Drops every idled-out anchor, at most once per cleanup interval; reports
whether it ran. -/
def InMemory.reclaimIdle : Bool × InMemory :=
  let tooSoon := match m.lastReclaim with
    | some last => now - last < defaultCleanupInterval
    | none => false
  if m.effectiveTTL ≤ 0 || tooSoon then (false, m)
  else (true, (m.sets.entries.filter fun kv => m.idle kv.2 now).foldl (fun m kv => m.erase kv.1)
    { m with lastReclaim := some now })

/-- Whether the store is at its ceiling. -/
def InMemory.full : Bool := 0 < m.maxKeys && m.maxKeys ≤ m.sets.entries.length

def InMemory.sessionLimit : Message := [.text "flowlabelstore: session limit reached (", .int m.maxKeys, .text ")"]

def InMemory.admitNewKey : Except Message Unit × InMemory :=
  if !m.full then (.ok (), m)
  else
    let (ran, m) := m.reclaimIdle now
    if ran && !m.full then (.ok (), m)
    else (.error m.sessionLimit, m)

/-- Unions labels into the anchor's set. -/
def InMemory.add (labels : List Bytes) : Except Message Unit × InMemory :=
  if labels.isEmpty then (.ok (), m)
  else match m.live anchorKey now with
    | some set => (.ok (), m.store anchorKey ⟨labels ∪ set.labels, now⟩)
    | none =>
      match (m.erase anchorKey).admitNewKey now with
      | (.error e, m) => (.error e, m)
      | (.ok (), m) => (.ok (), m.store anchorKey ⟨labels.dedup, now⟩)

/-- The sorted set; reading it counts as activity. -/
def InMemory.get : List Bytes × InMemory :=
  match m.live anchorKey now with
  | none => ([], m)
  | some set => (sortStrings set.labels, m.store anchorKey { set with touched := now })

/-- Deletes labels, and the anchor with its last one. -/
def InMemory.remove (labels : List Bytes) : InMemory :=
  if labels.isEmpty then m
  else match m.live anchorKey now with
    | none => m.erase anchorKey
    | some set =>
      let left := set.labels.filter fun l => !labels.contains l
      if left.isEmpty then m.erase anchorKey else m.store anchorKey { set with labels := left }

/-- The labels an anchor holds. -/
def InMemory.held : List Bytes :=
  match m.sets.lookup anchorKey with
  | some set => set.labels
  | none => []

@[simp] theorem held_store (key key' : Bytes) (set : LabelSet) :
    (m.store key set).held key' = if key' = key then set.labels else m.held key' := by
  by_cases same : key' = key
  · subst key'
    simp [InMemory.held, InMemory.store]
  · simp [InMemory.held, InMemory.store, same]

@[simp] theorem held_erase (key key' : Bytes) : (m.erase key).held key' = if key' = key then [] else m.held key' := by
  by_cases same : key' = key
  · subst key'
    simp [InMemory.held, InMemory.erase]
  · simp [InMemory.held, InMemory.erase, same]

end

/-- Same bounds, and no anchor expires. -/
structure Steady (m m' : InMemory) : Prop where
  maxKeys : m'.maxKeys = m.maxKeys
  ttl : m'.ttl = m.ttl

theorem Steady.refl (m : InMemory) : Steady m m := ⟨rfl, rfl⟩

theorem Steady.trans (first : Steady a b) (second : Steady b c) : Steady a c :=
  ⟨second.maxKeys.trans first.maxKeys, second.ttl.trans first.ttl⟩

section NoIdleExpiry
variable {m : InMemory} (keeps : m.ttl ≤ 0)
include keeps

variable (now : ℤ) (key : Bytes)

theorem live_eq_lookup (key : Bytes) (now : ℤ) : m.live key now = m.sets.lookup key := by
  have never : ∀ set : LabelSet, m.idle set now = false := by
    simp [InMemory.idle, InMemory.effectiveTTL, keeps]
  cases found : m.sets.lookup key with
  | none => simp [InMemory.live, found]
  | some set => simp [InMemory.live, found, never]

theorem admitNewKey_steady : m.admitNewKey now = (.ok (), m) ∨
      m.full = true ∧ m.admitNewKey now = (.error m.sessionLimit, m) := by
  unfold InMemory.admitNewKey
  cases ceiling : m.full with
  | false => exact .inl (by simp)
  | true =>
    refine .inr ⟨rfl, ?_⟩
    simp [InMemory.reclaimIdle, InMemory.effectiveTTL, keeps]

theorem get_spec : (m.get now key).1 = sortStrings (m.held key) ∧
      (∀ key', (m.get now key).2.held key' = m.held key') ∧ Steady m (m.get now key).2 := by
  unfold InMemory.get
  rw [live_eq_lookup keeps]
  cases found : m.sets.lookup key with
  | none => exact ⟨by simp [InMemory.held, found, sortStrings], fun _ => rfl, .refl m⟩
  | some set =>
    refine ⟨by simp [InMemory.held, found], fun key' => ?_, ⟨rfl, rfl⟩⟩
    rw [held_store]
    split
    · subst key'
      simp [InMemory.held, found]
    · rfl

/-- A refused add leaves every set; an accepted one adds the labels at its key. -/
theorem add_spec (labels : List Bytes) : Steady m (m.add now key labels).2 ∧
      (((m.add now key labels).1 = .ok () ∧ ∀ key' l, l ∈ (m.add now key labels).2.held key' ↔
            l ∈ m.held key' ∨ key' = key ∧ l ∈ labels) ∨
        (∃ e, (m.add now key labels).1 = .error e) ∧
          0 < m.maxKeys ∧ ∀ key', (m.add now key labels).2.held key' = m.held key') := by
  unfold InMemory.add
  by_cases empty : labels.isEmpty = true
  · rw [if_pos empty]
    rw [List.isEmpty_iff] at empty
    exact ⟨.refl m, .inl ⟨rfl, by simp [empty]⟩⟩
  rw [if_neg empty, live_eq_lookup keeps]
  cases found : m.sets.lookup key with
  | some set =>
    refine ⟨⟨rfl, rfl⟩, .inl ⟨rfl, fun key' l => ?_⟩⟩
    rw [held_store]
    split
    · subst key'
      simp [InMemory.held, found, or_comm]
    · simp [*]
  | none =>
    have bare : ∀ key', (m.erase key).held key' = m.held key' := by
      intro key'
      rw [held_erase]
      split
      · subst key'
        simp [InMemory.held, found]
      · rfl
    rcases admitNewKey_steady (m := m.erase key) keeps now with room | ⟨ceiling, refused⟩
    · simp only [room]
      refine ⟨⟨rfl, rfl⟩, .inl ⟨trivial, fun key' l => ?_⟩⟩
      rw [held_store]
      split
      · subst key'
        simp [InMemory.held, found]
      · simp [*]
    · simp only [refused]
      refine ⟨⟨rfl, rfl⟩, .inr ⟨⟨_, rfl⟩, ?_, bare⟩⟩
      simp only [InMemory.full, Bool.and_eq_true, decide_eq_true_eq] at ceiling
      exact ceiling.1

theorem remove_spec (labels : List Bytes) :
    Steady m (m.remove now key labels) ∧ ∀ key' l, l ∈ (m.remove now key labels).held key' ↔
        l ∈ m.held key' ∧ ¬ (key' = key ∧ l ∈ labels) := by
  unfold InMemory.remove
  by_cases empty : labels.isEmpty = true
  · rw [if_pos empty]
    rw [List.isEmpty_iff] at empty
    exact ⟨.refl m, by simp [empty]⟩
  rw [if_neg empty, live_eq_lookup keeps]
  cases found : m.sets.lookup key with
  | none =>
    refine ⟨⟨rfl, rfl⟩, fun key' l => ?_⟩
    simp only [held_erase]
    split
    · subst key'
      simp [InMemory.held, found]
    · simp [*]
  | some set =>
    have left : ∀ l, l ∈ set.labels.filter (fun l => !labels.contains l) ↔ l ∈ set.labels ∧ l ∉ labels := by simp
    by_cases gone : (set.labels.filter fun l => !labels.contains l).isEmpty = true
    · simp only [gone, ↓reduceIte]
      refine ⟨⟨rfl, rfl⟩, fun key' l => ?_⟩
      rw [held_erase]
      split
      · subst key'
        rw [List.isEmpty_iff] at gone
        have absent := left l
        rw [gone] at absent
        simpa [InMemory.held, found] using absent
      · simp [*]
    · simp only [gone, Bool.false_eq_true, ↓reduceIte]
      refine ⟨⟨rfl, rfl⟩, fun key' l => ?_⟩
      rw [held_store]
      split
      · subst key'
        simp [InMemory.held, found]
      · simp [*]

end NoIdleExpiry

/-- The set at a key, when there is one. -/
def InMemory.heldSet (m : InMemory) (anchorKey : Bytes) : Option (List Bytes) :=
  (m.sets.lookup anchorKey).map LabelSet.labels

theorem heldSet_store (m : InMemory) (key key' : Bytes) (set : LabelSet) :
    (m.store key set).heldSet key' = if key' = key then some set.labels else m.heldSet key' := by
  by_cases same : key' = key
  · subst key'
    simp [InMemory.heldSet, InMemory.store]
  · simp [InMemory.heldSet, InMemory.store, same]

theorem heldSet_erase (m : InMemory) (key key' : Bytes) :
    (m.erase key).heldSet key' = if key' = key then none else m.heldSet key' := by
  by_cases same : key' = key
  · subst key'
    simp [InMemory.heldSet, InMemory.erase]
  · simp [InMemory.heldSet, InMemory.erase, same]

/-- Reading only touches the set, whatever the TTL. -/
theorem get_heldSet (m : InMemory) (now : ℤ) (key key' : Bytes) :
    (m.get now key).2.heldSet key' = m.heldSet key' := by
  unfold InMemory.get
  split
  · rfl
  rename_i set found
  rw [heldSet_store]
  split
  · subst key'
    rw [InMemory.live, Option.filter_eq_some_iff] at found
    simp [InMemory.heldSet, found.1]
  · rfl

/-- A store that took labels holds them. -/
theorem add_held {m m' : InMemory} (added : m.add now key labels = (.ok (), m')) : ∀ l ∈ labels, l ∈ m'.held key := by
  intro l mem
  unfold InMemory.add at added
  split at added
  · rename_i empty
    rw [List.isEmpty_iff.mp empty] at mem
    cases mem
  split at added
  · obtain ⟨-, rfl⟩ := Prod.mk.inj added
    simp [mem]
  · split at added
    · cases added
    · obtain ⟨-, rfl⟩ := Prod.mk.inj added
      simp [mem]

/-- Two stores that keep everything and agree on one key. -/
structure Alike (key : Bytes) (m m' : InMemory) : Prop where
  keeps : m.ttl ≤ 0
  keeps' : m'.ttl ≤ 0
  set : m'.heldSet key = m.heldSet key

section Alike
variable {key : Bytes} {m m' : InMemory}

theorem Alike.refl (keeps : m.ttl ≤ 0) : Alike key m m := ⟨keeps, keeps, rfl⟩

theorem Alike.trans (first : Alike key m m') (second : Alike key m' m'') : Alike key m m'' :=
  ⟨first.keeps, second.keeps', second.set.trans first.set⟩

section
variable (alike : Alike key m m')
include alike

theorem Alike.lookup : m.sets.lookup key = none ∧ m'.sets.lookup key = none ∨
      ∃ set set' : LabelSet, m.sets.lookup key = some set ∧ m'.sets.lookup key = some set' ∧
        set'.labels = set.labels := by
  have same := alike.set
  unfold InMemory.heldSet at same
  cases left : m.sets.lookup key with
  | none => exact .inl ⟨rfl, by simpa [left] using same⟩
  | some set =>
    cases right : m'.sets.lookup key with
    | none => simp [left, right] at same
    | some set' => exact .inr ⟨set, set', rfl, rfl, by simpa [left, right] using same⟩

theorem Alike.store {set set' : LabelSet} (same : set'.labels = set.labels) (at_ : Bytes) :
    Alike key (m.store at_ set) (m'.store at_ set') :=
  ⟨alike.keeps, alike.keeps', by rw [heldSet_store, heldSet_store, same, alike.set]⟩

theorem Alike.erase (at_ : Bytes) : Alike key (m.erase at_) (m'.erase at_) :=
  ⟨alike.keeps, alike.keeps', by rw [heldSet_erase, heldSet_erase, alike.set]⟩

theorem get_alike (now : ℤ) :
    (m'.get now key).1 = (m.get now key).1 ∧ Alike key (m.get now key).2 (m'.get now key).2 := by
  unfold InMemory.get
  rw [live_eq_lookup alike.keeps, live_eq_lookup alike.keeps']
  rcases alike.lookup with ⟨left, right⟩ | ⟨set, set', left, right, same⟩
  · simpa [left, right] using alike
  · simp only [left, right]
    exact ⟨congrArg sortStrings same, alike.store (by exact same) key⟩

/-- Two stores that both took a write still agree. -/
theorem add_alike {now : ℤ}
    (added : m.add now key labels = (.ok (), next)) (added' : m'.add now key labels = (.ok (), next')) :
    Alike key next next' := by
  unfold InMemory.add at added added'
  by_cases empty : labels.isEmpty = true
  · rw [if_pos empty] at added added'
    obtain ⟨-, rfl⟩ := Prod.mk.inj added
    obtain ⟨-, rfl⟩ := Prod.mk.inj added'
    exact alike
  rw [if_neg empty, live_eq_lookup alike.keeps] at added
  rw [if_neg empty, live_eq_lookup alike.keeps'] at added'
  rcases alike.lookup with ⟨left, right⟩ | ⟨set, set', left, right, same⟩
  · have erased := alike.erase key
    simp only [left, right] at added added'
    rcases admitNewKey_steady erased.keeps now with room | ⟨-, refused⟩
    · rcases admitNewKey_steady erased.keeps' now with room' | ⟨-, refused'⟩
      · rw [room] at added
        rw [room'] at added'
        obtain ⟨-, rfl⟩ := Prod.mk.inj added
        obtain ⟨-, rfl⟩ := Prod.mk.inj added'
        exact erased.store rfl key
      · rw [refused'] at added'
        cases added'
    · rw [refused] at added
      cases added
  · simp only [left, right] at added added'
    obtain ⟨-, rfl⟩ := Prod.mk.inj added
    obtain ⟨-, rfl⟩ := Prod.mk.inj added'
    exact alike.store (by simp [same]) key

theorem remove_alike (now : ℤ) (labels : List Bytes) :
    Alike key (m.remove now key labels) (m'.remove now key labels) := by
  unfold InMemory.remove
  by_cases empty : labels.isEmpty = true
  · simpa [empty] using alike
  rw [if_neg empty, if_neg empty, live_eq_lookup alike.keeps, live_eq_lookup alike.keeps']
  rcases alike.lookup with ⟨left, right⟩ | ⟨set, set', left, right, same⟩
  · simp only [left, right]
    exact alike.erase key
  · simp only [left, right, same]
    split
    · exact alike.erase key
    · refine alike.store ?_ key
      rfl

end

variable {other : Bytes} (elsewhere : key ≠ other) (keeps : m.ttl ≤ 0)
include elsewhere keeps

theorem Alike.store_outside (set : LabelSet) : Alike key m (m.store other set) :=
  ⟨keeps, keeps, by rw [heldSet_store, if_neg elsewhere]⟩

theorem Alike.erase_outside : Alike key m (m.erase other) := ⟨keeps, keeps, by rw [heldSet_erase, if_neg elsewhere]⟩

theorem get_outside (now : ℤ) : Alike key m (m.get now other).2 := by
  unfold InMemory.get
  split
  · exact .refl keeps
  · exact .store_outside elsewhere keeps _

theorem add_outside (now : ℤ) (labels : List Bytes) : Alike key m (m.add now other labels).2 := by
  unfold InMemory.add
  split
  · exact .refl keeps
  split
  · exact .store_outside elsewhere keeps _
  have erased := Alike.erase_outside elsewhere keeps
  rcases admitNewKey_steady erased.keeps' now with room | ⟨-, refused⟩
  · rw [room]
    exact erased.trans (.store_outside elsewhere erased.keeps' _)
  · rw [refused]
    exact erased

theorem remove_outside (now : ℤ) (labels : List Bytes) : Alike key m (m.remove now other labels) := by
  unfold InMemory.remove
  split
  · exact .refl keeps
  split
  · exact .erase_outside elsewhere keeps
  dsimp only
  split
  · exact .erase_outside elsewhere keeps
  · exact .store_outside elsewhere keeps _

end Alike
end Eunox.FlowLabelStore
