import Mathlib.Data.Rat.Lemmas
import Mathlib.Tactic

/-! The metering of refusal records, `internal/transport/record_limiter.go`: a token bucket that
rolls what it elides into the next record it admits, and the gate of a saturated pool, which admits
one record for an episode and leaves the rest to the bucket's count. Instants are nanoseconds from
the zero `time.Time`; tokens are exact. -/
namespace Eunox.RecordLimiter

/-- What a bucket is made with. -/
structure Budget where
  ratePerSec : ℚ
  burst : ℚ
  rate_nonneg : 0 ≤ ratePerSec
  burst_nonneg : 0 ≤ burst

structure RecordRateLimiter where
  budget : Budget
  tokens : ℚ
  /-- The zero instant until the clock is read. -/
  last : ℤ
  suppressed : ℕ

def newRecordRateLimiter (budget : Budget) : RecordRateLimiter := ⟨budget, budget.burst, 0, 0⟩

/-- `Time.Sub`, which stays within a `Duration`. -/
def sub (now last : ℤ) : ℤ := max (-2 ^ 63) (min (2 ^ 63 - 1) (now - last))

def seconds (duration : ℤ) : ℚ := duration / 10 ^ 9

namespace RecordRateLimiter

/-- The refill of `admit`. -/
def refill (l : RecordRateLimiter) (now : ℤ) : RecordRateLimiter :=
  let l := if l.last = 0 then { l with last := now } else l
  let elapsed := seconds (sub now l.last)
  if 0 < elapsed then
    let tokens := l.tokens + elapsed * l.budget.ratePerSec
    { l with last := now, tokens := if l.budget.burst < tokens then l.budget.burst else tokens }
  else l

/-- The count of what was elided since the last record, when this one is admitted. -/
def admits (l : RecordRateLimiter) (now : ℤ) : Option ℕ × RecordRateLimiter :=
  let l := l.refill now
  if l.tokens < 1 then (none, { l with suppressed := l.suppressed + 1 })
  else (some l.suppressed, { l with tokens := l.tokens - 1, suppressed := 0 })

def suppress (l : RecordRateLimiter) : RecordRateLimiter := { l with suppressed := l.suppressed + 1 }

end RecordRateLimiter

def saturationBudget : Budget := ⟨5, 20, by norm_num, by norm_num⟩

structure SaturationGate where
  recorded : Bool
  limiter : RecordRateLimiter

/-- A gate before its first use, over a bucket of this budget. -/
def SaturationGate.new (budget : Budget) : SaturationGate := ⟨false, newRecordRateLimiter budget⟩

/-- A call on the bucket itself, or on the gate over it. -/
inductive Call where
  | admitRecord (now : ℤ)
  | suppress
  | admitEpisode (now : ℤ)
  | clear
  deriving DecidableEq

/-- What a call read of the clock, and what it answered. -/
structure Entry where
  call : Call
  reading : Option ℤ := none
  /-- The count an admitted call reports. -/
  admitted : Option ℕ := none
  deriving DecidableEq

namespace SaturationGate

def step (g : SaturationGate) : Call → Entry × SaturationGate
  | .admitRecord now =>
    let answer := g.limiter.admits now
    (⟨.admitRecord now, some now, answer.1⟩, { g with limiter := answer.2 })
  | .suppress => (⟨.suppress, none, none⟩, { g with limiter := g.limiter.suppress })
  | .admitEpisode now =>
    if g.recorded then (⟨.admitEpisode now, none, none⟩, { g with limiter := g.limiter.suppress })
    else
      let answer := g.limiter.admits now
      (⟨.admitEpisode now, some now, answer.1⟩, ⟨answer.1.isSome, answer.2⟩)
  | .clear => (⟨.clear, none, none⟩, { g with recorded := false })

def run (g : SaturationGate) : List Call → List Entry × SaturationGate
  | [] => ([], g)
  | c :: cs => ((g.step c).1 :: ((g.step c).2.run cs).1, ((g.step c).2.run cs).2)

end SaturationGate

/-! What a run comes to. -/

def readings (es : List Entry) : List ℤ := es.filterMap Entry.reading

def admissions (es : List Entry) : ℕ := es.countP fun e => e.admitted.isSome

/-- The refusals of a run that got no record. -/
def elided (es : List Entry) : ℕ := es.countP fun e => e.call ≠ .clear ∧ e.admitted = none

def reported (es : List Entry) : ℕ := (es.map fun e => e.admitted.getD 0).sum

/-- The records the gate admitted. -/
def episodes (es : List Entry) : ℕ :=
  es.countP fun e => e.admitted.isSome && (match e.call with
    | .admitEpisode _ => true
    | _ => false)

/-! One call. -/

theorem seconds_sub_pos : 0 < seconds (sub now last) ↔ last < now := by
  have positive : 0 < sub now last ↔ last < now := by
    unfold sub
    omega
  rw [← positive, seconds]
  constructor
  · intro above
    have := (div_pos_iff_of_pos_right (by norm_num : (0 : ℚ) < 10 ^ 9)).mp above
    exact_mod_cast this
  · intro above
    positivity

theorem seconds_mono (le : short ≤ long) : seconds short ≤ seconds long := by
  unfold seconds
  gcongr

theorem seconds_add (left right : ℤ) : seconds (left + right) = seconds left + seconds right := by
  unfold seconds
  push_cast
  ring

/-- What the refill does; nothing else of the bucket changes. -/
theorem refill_eq (l : RecordRateLimiter) (now : ℤ) :
    l.refill now = { l with last := if l.last = 0 then now else max l.last now, tokens :=
      if l.last ≠ 0 ∧ l.last < now then min l.budget.burst (l.tokens + seconds (sub now l.last) * l.budget.ratePerSec)
      else l.tokens } := by
  have clamp (tokens : ℚ) : (if l.budget.burst < tokens then l.budget.burst else tokens) = min l.budget.burst tokens := by
    split
    · exact (min_eq_left (le_of_lt ‹_›)).symm
    · exact (min_eq_right (not_lt.mp ‹_›)).symm
  by_cases unread : l.last = 0
  · have still : ¬ 0 < seconds (sub now now) := by simp [seconds_sub_pos]
    simp [RecordRateLimiter.refill, unread, still]
  · by_cases later : l.last < now
    · simp [RecordRateLimiter.refill, unread, later, seconds_sub_pos, clamp, max_eq_right (le_of_lt later)]
    · simp [RecordRateLimiter.refill, unread, later, seconds_sub_pos, max_eq_left (not_lt.mp later)]

/-- What a bucket may still admit of records until an instant, if its clock reads no later one. -/
def worth (t : ℤ) (l : RecordRateLimiter) : ℚ := l.tokens + l.budget.ratePerSec * seconds (max 0 (t - l.last))

theorem refill_tokens_le {l : RecordRateLimiter} (full : l.tokens ≤ l.budget.burst) (now : ℤ) :
    (l.refill now).tokens ≤ l.budget.burst := by
  rw [refill_eq]
  split
  · exact min_le_left _ _
  · exact full

/-- Reading the clock adds nothing, unless the zero instant was read and the clock is set back. -/
theorem worth_refill (before : now ≤ t) (forward : l.last = 0 → 0 ≤ now) : worth t (l.refill now) ≤ worth t l := by
  have nonneg := l.budget.rate_nonneg
  rw [refill_eq]
  unfold worth
  by_cases unread : l.last = 0
  · have shorter := seconds_mono (show max 0 (t - now) ≤ max 0 (t - l.last) by have := forward unread; omega)
    rw [if_pos unread, if_neg fun both => both.1 unread]
    have := mul_le_mul_of_nonneg_left shorter nonneg
    linarith
  · rw [if_neg unread]
    by_cases later : l.last < now
    · rw [if_pos ⟨unread, later⟩, max_eq_right (le_of_lt later)]
      have gained := min_le_right l.budget.burst (l.tokens + seconds (sub now l.last) * l.budget.ratePerSec)
      have split : seconds (sub now l.last) + seconds (max 0 (t - now)) ≤ seconds (max 0 (t - l.last)) := by
        rw [← seconds_add]
        refine seconds_mono ?_
        unfold sub
        omega
      have := mul_le_mul_of_nonneg_left split nonneg
      linarith
    · rw [if_neg fun both => later both.2, max_eq_left (not_lt.mp later)]

/-- After a reading the bucket is worth no more than a full one at that instant. -/
theorem worth_read {l : RecordRateLimiter} (full : l.tokens ≤ l.budget.burst) (before : now ≤ t) :
    worth t (l.refill now) ≤ l.budget.burst + l.budget.ratePerSec * seconds (t - now) := by
  have tokens := refill_tokens_le full now
  have since : now ≤ (l.refill now).last := by
    rw [refill_eq]
    dsimp only
    split
    · exact le_refl _
    · exact le_max_right _ _
  have budget : (l.refill now).budget = l.budget := by rw [refill_eq]
  have shorter := seconds_mono (show max 0 (t - (l.refill now).last) ≤ t - now by omega)
  have := mul_le_mul_of_nonneg_left shorter l.budget.rate_nonneg
  unfold worth
  rw [budget]
  linarith

/-- A call declines and counts, or admits, pays a token and reports the count. -/
theorem admits_cases (l : RecordRateLimiter) (now : ℤ) :
    (l.admits now = (none, { l.refill now with suppressed := l.suppressed + 1 }) ∧ (l.refill now).tokens < 1) ∨
      l.admits now = (some l.suppressed, { l.refill now with tokens := (l.refill now).tokens - 1, suppressed := 0 }) ∧
        1 ≤ (l.refill now).tokens := by
  have count : (l.refill now).suppressed = l.suppressed := by rw [refill_eq]
  unfold RecordRateLimiter.admits
  by_cases empty : (l.refill now).tokens < 1
  · exact .inl ⟨by simp [empty, count], empty⟩
  · exact .inr ⟨by simp [empty, count], not_lt.mp empty⟩

/-! What a call does to the bucket: it reads the clock and asks, or it only counts. -/
inductive Does (l : RecordRateLimiter) : Entry → RecordRateLimiter → Prop where
  | declined {e : Entry} {now : ℤ} (read : e.reading = some now) (declined : e.admitted = none) (refusal : e.call ≠ .clear)
      (empty : (l.refill now).tokens < 1) : Does l e { l.refill now with suppressed := l.suppressed + 1 }
  | admitted {e : Entry} {now : ℤ} (read : e.reading = some now) (admits : e.admitted = some l.suppressed)
      (refusal : e.call ≠ .clear) (paid : 1 ≤ (l.refill now).tokens) :
      Does l e { l.refill now with tokens := (l.refill now).tokens - 1, suppressed := 0 }
  | counted {e : Entry} (unread : e.reading = none) (declined : e.admitted = none) (refusal : e.call ≠ .clear) :
      Does l e { l with suppressed := l.suppressed + 1 }
  | cleared {e : Entry} (unread : e.reading = none) (declined : e.admitted = none) (clear : e.call = .clear) : Does l e l

theorem does_admits (l : RecordRateLimiter) (now : ℤ) (refusal : call ≠ .clear) :
    Does l ⟨call, some now, (l.admits now).1⟩ (l.admits now).2 := by
  rcases admits_cases l now with ⟨answer, empty⟩ | ⟨answer, paid⟩
  · rw [answer]
    exact .declined rfl rfl refusal empty
  · rw [answer]
    exact .admitted rfl rfl refusal paid

theorem step_does (g : SaturationGate) (c : Call) : Does g.limiter (g.step c).1 (g.step c).2.limiter := by
  cases c with
  | admitRecord now => exact does_admits _ now (by simp)
  | suppress => exact .counted rfl rfl (by simp [SaturationGate.step])
  | admitEpisode now =>
    by_cases recorded : g.recorded = true
    · rw [SaturationGate.step, if_pos recorded]
      exact .counted rfl rfl (by simp)
    · rw [SaturationGate.step, if_neg recorded]
      exact does_admits _ now (by simp)
  | clear => exact .cleared rfl rfl rfl

/-- A bucket between empty and full. -/
structure Within (budget : Budget) (l : RecordRateLimiter) : Prop where
  same : l.budget = budget
  full : l.tokens ≤ l.budget.burst
  nonneg : 0 ≤ l.tokens

theorem within_new (budget : Budget) : Within budget (newRecordRateLimiter budget) :=
  ⟨rfl, le_refl _, budget.burst_nonneg⟩

theorem refill_nonneg {l : RecordRateLimiter} (nonneg : 0 ≤ l.tokens) (now : ℤ) : 0 ≤ (l.refill now).tokens := by
  rw [refill_eq]
  split
  · rename_i later
    have := mul_nonneg (le_of_lt (seconds_sub_pos.mpr later.2)) l.budget.rate_nonneg
    exact le_min l.budget.burst_nonneg (by linarith)
  · exact nonneg

theorem Within.step {budget : Budget} (within : Within budget l) (does : Does l e l') : Within budget l' := by
  obtain ⟨rfl, full, nonneg⟩ := within
  have budget (now : ℤ) : (l.refill now).budget = l.budget := by rw [refill_eq]
  cases does with
  | declined => exact ⟨budget _, by simpa [budget] using refill_tokens_le full _, refill_nonneg nonneg _⟩
  | @admitted now _ _ _ paid =>
    have := refill_tokens_le full now
    exact ⟨budget now, by simp only [budget]; linarith, by simp only; linarith⟩
  | counted | cleared => exact ⟨rfl, full, nonneg⟩

/-! Runs. -/

variable {g : SaturationGate}

theorem within_run {budget : Budget} (within : Within budget g.limiter) (cs : List Call) :
    Within budget (g.run cs).2.limiter := by
  induction cs generalizing g with
  | nil => exact within
  | cons c cs ih => exact ih (within.step (step_does g c))

/-- What one call reports and leaves pending is what was pending and what it elides. -/
theorem Does.conserves (does : Does l e l') : reported [e] + l'.suppressed = l.suppressed + elided [e] := by
  cases does with
  | declined _ none refusal => simp [reported, elided, none, refusal]
  | admitted _ some refusal => simp [reported, elided, some]
  | counted _ none refusal => simp [reported, elided, none, refusal]
  | cleared _ none clear => simp [reported, elided, none, clear]

theorem reported_cons (e : Entry) (es : List Entry) : reported (e :: es) = reported [e] + reported es := by
  simp [reported]

theorem elided_cons (e : Entry) (es : List Entry) : elided (e :: es) = elided [e] + elided es := by
  simp [elided, List.countP_cons, Nat.add_comm]

/-- No refusal is lost: what is reported and what is pending are what was elided. -/
theorem reported_run (g : SaturationGate) (cs : List Call) :
    reported (g.run cs).1 + (g.run cs).2.limiter.suppressed = g.limiter.suppressed + elided (g.run cs).1 := by
  induction cs generalizing g with
  | nil => simp [SaturationGate.run, reported, elided]
  | cons c cs ih =>
    have here := (step_does g c).conserves
    have rest := ih (g.step c).2
    rw [SaturationGate.run, reported_cons, elided_cons]
    dsimp only
    omega

/-- After the zero instant no earlier one is read. -/
def Forward (readings : List ℤ) : Prop := readings.Pairwise fun earlier later => earlier = 0 → 0 ≤ later

instance (readings : List ℤ) : Decidable (Forward readings) := by
  unfold Forward
  infer_instance

theorem last_refill {l : RecordRateLimiter} (zero : (l.refill now).last = 0) : now = 0 := by
  rw [refill_eq] at zero
  dsimp only at zero
  split at zero
  · exact zero
  · omega

/-- A call that reads the clock pays for its record out of what the bucket is worth. -/
theorem Does.pays (does : Does l e l') (read : e.reading = some now) (t : ℤ) :
    (admissions [e] : ℚ) + worth t l' = worth t (l.refill now) ∧ (l'.last = 0 → now = 0) := by
  cases does with
  | declined read' none =>
    obtain rfl := Option.mem_unique read read'
    exact ⟨by simp [admissions, none, worth], last_refill⟩
  | admitted read' some =>
    obtain rfl := Option.mem_unique read read'
    refine ⟨?_, last_refill⟩
    have one : admissions [e] = 1 := by simp [admissions, some]
    rw [one]
    simp only [worth]
    ring
  | counted unread | cleared unread => simp [unread] at read

theorem Does.idle (does : Does l e l') (unread : e.reading = none) :
    admissions [e] = 0 ∧ l'.budget = l.budget ∧ l'.tokens = l.tokens ∧ l'.last = l.last := by
  cases does with
  | declined read | admitted read => simp [unread] at read
  | counted _ none | cleared _ none => simp [admissions, none]

theorem admissions_cons (e : Entry) (es : List Entry) : admissions (e :: es) = admissions [e] + admissions es := by
  simp [admissions, List.countP_cons, Nat.add_comm]

theorem worth_nonneg (within : Within budget l) (t : ℤ) : 0 ≤ worth t l := by
  have time : 0 ≤ seconds (max 0 (t - l.last)) := by
    have := seconds_mono (le_max_left 0 (t - l.last))
    simpa [seconds] using this
  have := mul_nonneg l.budget.rate_nonneg time
  have := within.nonneg
  unfold worth
  linarith

/-- A run admits no more than its bucket is worth once its first reading has refilled it. -/
theorem admissions_le_worth (within : Within budget g.limiter)
    (cs : List Call) (before : ∀ now ∈ readings (g.run cs).1, now ≤ t) (forward : Forward (readings (g.run cs).1)) :
    (admissions (g.run cs).1 : ℚ) ≤
      ((readings (g.run cs).1).head?.map fun first => worth t (g.limiter.refill first)).getD 0 := by
  induction cs generalizing g with
  | nil => simp [SaturationGate.run, admissions, readings]
  | cons c cs ih =>
    have does := step_does g c
    rw [SaturationGate.run] at before forward ⊢
    rw [admissions_cons, Nat.cast_add]
    cases read : (g.step c).1.reading with
    | none =>
      simp only [readings, List.filterMap_cons, read] at before forward ⊢
      obtain ⟨declined, same, tokens, last⟩ := does.idle read
      have rest := ih (within.step does) before forward
      rw [declined]
      simpa [readings, worth, refill_eq, same, tokens, last] using rest
    | some now =>
      simp only [readings, List.filterMap_cons, read] at before forward ⊢
      obtain ⟨pays, zero⟩ := does.pays read t
      obtain ⟨ahead, later⟩ := List.pairwise_cons.mp forward
      have rest := ih (within.step does) (fun r mem => before r (.tail _ mem)) later
      rw [List.head?_cons, Option.map_some, Option.getD_some, ← pays]
      refine add_le_add_right (rest.trans ?_) _
      cases next : (readings ((g.step c).2.run cs).1).head? with
      | none => exact worth_nonneg (within.step does) t
      | some next' =>
        have mem := List.mem_of_head? next
        exact worth_refill (before _ (.tail _ mem)) fun unread => ahead _ mem (zero unread)

/-- A window of calls admits no more than a full bucket and what the rate adds. -/
theorem admissions_le {budget : Budget} (within : Within budget g.limiter)
    (cs : List Call) (starts : (readings (g.run cs).1).head? = some first)
    (before : ∀ now ∈ readings (g.run cs).1, now ≤ t) (forward : Forward (readings (g.run cs).1)) :
    (admissions (g.run cs).1 : ℚ) ≤ budget.burst + budget.ratePerSec * seconds (t - first) := by
  have paid := admissions_le_worth within cs before forward
  have full := worth_read within.full (before first (List.mem_of_head? starts))
  rw [starts] at paid
  rw [within.same] at full
  exact paid.trans full

/-! Episodes. -/

theorem episodes_cons (e : Entry) (es : List Entry) : episodes (e :: es) = episodes [e] + episodes es := by
  simp [episodes, List.countP_cons, Nat.add_comm]

/-- Until the next clear the gate is latched exactly by the one record it admitted. -/
theorem episodes_run (cs : List Call) (open_ : .clear ∉ cs) :
    g.recorded.toNat + episodes (g.run cs).1 = (g.run cs).2.recorded.toNat := by
  induction cs generalizing g with
  | nil => simp [SaturationGate.run, episodes]
  | cons c cs ih =>
    have rest := ih (g := (g.step c).2) (fun mem => open_ (.tail _ mem))
    rw [SaturationGate.run, episodes_cons, ← rest]
    cases c with
    | admitRecord now | suppress => simp [SaturationGate.step, episodes]
    | admitEpisode now =>
      by_cases recorded : g.recorded = true
      · simp [SaturationGate.step, episodes, recorded]
      · cases answer : (g.limiter.admits now).1 <;> simp [SaturationGate.step, episodes, recorded, answer]
    | clear => exact absurd (.head _) open_

theorem run_append (g : SaturationGate) (cs more : List Call) :
    g.run (cs ++ more) = ((g.run cs).1 ++ ((g.run cs).2.run more).1, ((g.run cs).2.run more).2) := by
  induction cs generalizing g with
  | nil => simp [SaturationGate.run]
  | cons c cs ih => simp [SaturationGate.run, ih]

/-- Every refusal that got no record is in a count that was reported or is pending; a window of calls
that reads no instant past `t`, and none before the zero instant once that was read, admits at most a
burst and what the rate adds from its first reading to `t`; and from one clear to the next the gate
admits at most one record, and is latched only by it. -/
theorem refusals_metered (budget : Budget) (past calls : List Call) :
    reported ((SaturationGate.new budget).run past).1 + ((SaturationGate.new budget).run past).2.limiter.suppressed =
      elided ((SaturationGate.new budget).run past).1 ∧
    (∀ first t, (readings (((SaturationGate.new budget).run past).2.run calls).1).head? = some first →
      (∀ now ∈ readings (((SaturationGate.new budget).run past).2.run calls).1, now ≤ t) →
      Forward (readings (((SaturationGate.new budget).run past).2.run calls).1) →
      (admissions (((SaturationGate.new budget).run past).2.run calls).1 : ℚ) ≤
        budget.burst + budget.ratePerSec * seconds (t - first)) ∧
    (past = [] ∨ past.getLast? = some .clear → .clear ∉ calls →
      episodes (((SaturationGate.new budget).run past).2.run calls).1 ≤ 1 ∧
      ((((SaturationGate.new budget).run past).2.run calls).2.recorded = true ↔
        episodes (((SaturationGate.new budget).run past).2.run calls).1 = 1)) := by
  have within := within_run (g := .new budget) (within_new budget) past
  refine ⟨?_, ?_, ?_⟩
  · have conserved := reported_run (.new budget) past
    simpa [SaturationGate.new, newRecordRateLimiter] using conserved
  · intro first t starts before forward
    exact admissions_le within calls starts before forward
  · intro begins unbroken
    have reopened : ((SaturationGate.new budget).run past).2.recorded = false := by
      rcases begins with rfl | cleared
      · rfl
      · obtain ⟨front, rfl⟩ := List.getLast?_eq_some_iff.mp cleared
        rw [run_append]
        rfl
    have latch := episodes_run (g := ((SaturationGate.new budget).run past).2) calls unbroken
    rw [reopened] at latch
    cases recorded : (((SaturationGate.new budget).run past).2.run calls).2.recorded with
    | true =>
      rw [recorded] at latch
      simp at latch
      simp [latch]
    | false =>
      rw [recorded] at latch
      simp at latch
      simp [latch]

/-- Twenty records at the zero instant, one refusal ten seconds before it, and twenty more. -/
def setBack : List Call :=
  List.replicate 20 (.admitRecord 0) ++ .admitRecord (-10 ^ 10) :: List.replicate 20 (.admitRecord 0)

/-- Set back from the zero instant, which stands for no reading, the bucket fills again. -/
theorem zero_instant_refills : (readings ((SaturationGate.new saturationBudget).run setBack).1).head? = some 0 ∧
    (∀ now ∈ readings ((SaturationGate.new saturationBudget).run setBack).1, now ≤ 0) ∧
    ¬ (admissions ((SaturationGate.new saturationBudget).run setBack).1 : ℚ) ≤
      saturationBudget.burst + saturationBudget.ratePerSec * seconds (0 - 0) := by
  have run : readings ((SaturationGate.new saturationBudget).run setBack).1 =
      List.replicate 20 0 ++ -10 ^ 10 :: List.replicate 20 0 ∧
      admissions ((SaturationGate.new saturationBudget).run setBack).1 = 40 := by decide +kernel
  rw [run.2]
  refine ⟨rfl, by decide, ?_⟩
  norm_num [saturationBudget, seconds]

theorem refusals_metered_burst :
    (admissions (((SaturationGate.new saturationBudget).run [.admitRecord 5, .clear]).2.run
      [.admitEpisode 7, .admitEpisode 3]).1 : ℚ) ≤ 20 + 5 * seconds (7 - 7) ∧
    episodes (((SaturationGate.new saturationBudget).run [.admitRecord 5, .clear]).2.run
      [.admitEpisode 7, .admitEpisode 3]).1 ≤ 1 := by
  obtain ⟨-, rate, gate⟩ := refusals_metered saturationBudget [.admitRecord 5, .clear] [.admitEpisode 7, .admitEpisode 3]
  exact ⟨rate 7 7 (by decide +kernel) (by decide +kernel) (by decide +kernel), (gate (.inr rfl) (by decide)).1⟩

end Eunox.RecordLimiter
