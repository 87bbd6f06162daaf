import Eunox.CallCounterFrame
import Eunox.EngineOutcome

/-! The sequence history: one marker per target, under the subject's key, holding
the instant of the target's latest recorded call. -/
namespace Eunox
open ByteString CallCounter

variable {e : Engine} {req : EnforceRequest} {w w' : World}

/-- Where a target's marker is stored. -/
def Engine.markerSlot (e : Engine) (req : EnforceRequest) (targetType target : Bytes) : Bytes :=
  storageKey (e.sequenceHistoryKey req targetType target) sequenceHistoryWindowSec

/-- A marker is armed while one of its instants is in the window. -/
theorem armed_iff (instant : ℤ) (targetType target : Bytes) : Armed e instant req targetType target w ↔
      ∃ entry, w.counter.entries.lookup (e.markerSlot req targetType target) = some entry ∧ ∃ ts ∈ entry.timestamps,
          floorToMicro instant - windowNanos sequenceHistoryWindowSec < ts := by
  have valid : checkWindowSec sequenceHistoryWindowSec = .ok () := by decide
  unfold Armed Engine.historyCount peek Engine.markerSlot
  rw [valid]
  cases w.counter.entries.lookup
      (storageKey (e.sequenceHistoryKey req targetType target) sequenceHistoryWindowSec) with
  | none => simp
  | some entry =>
    simp only [Except.ok.injEq, Option.some.injEq]
    constructor
    · rintro ⟨count, positive, rfl⟩
      simpa using positive
    · intro live
      exact ⟨_, by simpa using live, rfl⟩

theorem armed_congr (same : w'.counter = w.counter) (instant : ℤ) (targetType target : Bytes) :
    Armed e instant req targetType target w' ↔ Armed e instant req targetType target w := by
  rw [armed_iff, armed_iff, same]

/-- Keeping one entry keeps the newest. -/
theorem trimOldest_single (valid : List ℤ) (weights : Option (List Binary64)) (now : ℤ) :
    (trimOldest (valid ++ [now]) weights 1).1 = [now] := by
  unfold trimOldest
  cases valid with
  | nil => simp
  | cons first rest =>
    have long : ¬ (((first :: rest ++ [now]).length : ℤ) ≤ 1) := by simp
    rw [if_neg long]
    simp

theorem incrementEntry_single (entry : Entry) (now windowSec : ℤ) :
    (incrementEntry entry now windowSec 1).timestamps = [now] :=
  trimOldest_single _ _ now

/-- What writing a marker can do: fail untouched at the key ceiling, or leave the
marker at this instant. -/
theorem recordMarker_cases (e : Engine) (instant : ℤ) (req : EnforceRequest) (targetType target : Bytes) (w : World) :
    (∃ err, e.recordMarker instant req targetType target w = (.error err, { w with faulted := true })) ∨
    ∃ counter entry, e.recordMarker instant req targetType target w = (.ok (), { w with counter := counter }) ∧
      entry.timestamps = [floorToMicro instant] ∧
      counter = w.counter.store (e.markerSlot req targetType target) entry := by
  have entries : checkMaxEntries sequenceHistoryMaxEntries = .ok () := by decide
  unfold Engine.recordMarker incrementAndGet Engine.markerSlot
  simp only [entries]
  cases w.counter.entries.lookup
      (storageKey (e.sequenceHistoryKey req targetType target) sequenceHistoryWindowSec) with
  | some entry => exact .inr ⟨_, _, rfl, incrementEntry_single _ _ _, rfl⟩
  | none =>
    cases w.counter.admitNewKey with
    | error err => exact .inl ⟨_, rfl⟩
    | ok _ => exact .inr ⟨_, _, rfl, incrementEntry_single _ _ _, rfl⟩

/-- A call at or after the instant is on record. -/
def OnRecord (instant : ℤ) (held : Option Entry) : Prop :=
  ∃ entry, held = some entry ∧ ∃ ts ∈ entry.timestamps, instant ≤ ts

theorem OnRecord.armed (kept : OnRecord instant (w.counter.entries.lookup (e.markerSlot req targetType target)))
    (recent : floorToMicro later - windowNanos sequenceHistoryWindowSec < instant) :
    Armed e later req targetType target w := by
  obtain ⟨entry, held, ts, mem, late⟩ := kept
  exact (armed_iff ..).mpr ⟨entry, held, ts, mem, by omega⟩

theorem recordMarker_onRecord (recorded : e.recordMarker instant req targetType target w = (.ok (), w')) :
    OnRecord (floorToMicro instant) (w'.counter.entries.lookup (e.markerSlot req targetType target)) := by
  rcases recordMarker_cases e instant req targetType target w with
    ⟨err, failed⟩ | ⟨counter, entry, ran, newest, rfl⟩
  · rw [failed] at recorded
    cases recorded
  · rw [ran] at recorded
    obtain ⟨-, rfl⟩ := Prod.mk.inj recorded
    exact ⟨entry, by rw [lookup_store, if_pos rfl], floorToMicro instant, by simp [newest], le_rfl⟩

/-- Writing a marker touches no other entry. -/
theorem recordMarker_other (instant : ℤ) (targetType target : Bytes)
    (elsewhere : slot ≠ e.markerSlot req targetType target) :
    (e.recordMarker instant req targetType target w).2.counter.entries.lookup slot =
      w.counter.entries.lookup slot := by
  rcases recordMarker_cases e instant req targetType target w with
    ⟨err, failed⟩ | ⟨counter, entry, ran, -, rfl⟩
  · rw [failed]
  · rw [ran]
    exact (lookup_store ..).trans (if_neg elsewhere)

/-- Recording a call writes no counter but markers. -/
theorem recordSessionCall_other (instant : ℤ)
    (elsewhere : ∀ targetType target, slot ≠ e.markerSlot req targetType target) :
    (e.recordSessionCall instant req w).2.counter.entries.lookup slot = w.counter.entries.lookup slot := by
  have marker := fun (v : World) targetType target =>
    recordMarker_other (w := v) instant targetType target (elsewhere targetType target)
  unfold Engine.recordSessionCall
  split
  · rfl
  split
  · rfl
  split
  · rfl
  dsimp only
  split
  · rfl
  split
  · have first := marker w (splitEnginePrefix (sessionTargetKey req).2).1
      (splitEnginePrefix (sessionTargetKey req).2).2
    split
    · rename_i failed
      rwa [failed] at first
    · rename_i noted
      rw [noted] at first
      exact (marker _ _ _).trans first
  · exact marker w _ _

/-- Both markers of a recorded call. -/
theorem recordSessionCall_onRecord (recorded : e.recordSessionCall instant req w = (.ok (), w'))
    (records : e.skipAntecedentRecording = false) (wired : e.counterWired = true)
    (anchor : (e.resolveAnchor req).id ≠ []) (named : (sessionTargetKey req).2 ≠ []) :
    OnRecord (floorToMicro instant) (w'.counter.entries.lookup
        (e.markerSlot req (sessionTargetKey req).1 (sessionTargetKey req).2)) ∧
      let plain := splitEnginePrefix (sessionTargetKey req).2
      (plain.2 ≠ (sessionTargetKey req).2 → OnRecord (floorToMicro instant)
        (w'.counter.entries.lookup (e.markerSlot req plain.1 plain.2))) := by
  unfold Engine.recordSessionCall at recorded
  rw [if_neg (by simp [records, wired])] at recorded
  split at recorded
  · cases recorded
  rw [if_neg (by simpa using anchor)] at recorded
  dsimp only at recorded
  rw [if_neg (by simpa using named)] at recorded
  split at recorded
  · split at recorded
    · cases recorded
    rename_i marked
    have primary := recordMarker_onRecord recorded
    refine ⟨primary, fun _ => ?_⟩
    by_cases same : e.markerSlot req (splitEnginePrefix (sessionTargetKey req).2).1
        (splitEnginePrefix (sessionTargetKey req).2).2 =
      e.markerSlot req (sessionTargetKey req).1 (sessionTargetKey req).2
    · rwa [same]
    have kept := recordMarker_other (w := ‹World›) instant _ _ same
    rw [recorded] at kept
    rw [kept]
    exact recordMarker_onRecord marked
  · rename_i same
    exact ⟨recordMarker_onRecord recorded, fun other => absurd other same⟩

end Eunox
