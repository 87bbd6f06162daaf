import Eunox.KillSwitchRefresh

/-! Managers that share one Redis and hear each other's kills and revives. A
kill or a revive is three separate steps, the durable write, the cache update
and the publish, so messages may arrive in another order than the writes were
made in. The listener applies a revive it hears without looking at Redis. -/
namespace Eunox.KillSwitch

open ByteString (Bytes lit cutPrefix)

/-! ## What a published message says -/

namespace Redis

variable (kill : Bool) {id : Bytes}

/-- What a message carries before its id. -/
def blockHead (d : Dimension) : Bytes := d.name ++ lit ":" ++ action kill ++ lit ":"

/-- No head of a message begins another. -/
theorem blockHead_apart (verb : Bool) (d e : Dimension) :
    blockHead verb e <+: blockHead kill d → verb = kill ∧ e = d := by
  cases kill <;> cases verb <;> cases d <;> cases e <;> decide

/-- No message is another verb's or another dimension's. -/
theorem cutKillID_blockMessage (verb : Bool) (d e : Dimension) (id : Bytes) :
    cutKillID (blockMessage kill d id) verb e = if verb = kill ∧ e = d then id else [] := by
  show (cutPrefix (blockHead verb e) (blockHead kill d ++ id)).getD [] = _
  by_cases same : verb = kill ∧ e = d
  · obtain ⟨rfl, rfl⟩ := same
    simp
  · have clash : ¬ blockHead verb e <+: blockHead kill d ++ id := by
      intro start
      -- of two beginnings of one message, one would begin the other
      rcases List.prefix_or_prefix_of_prefix start (List.prefix_append _ id) with inner | outer
      · exact same (blockHead_apart kill verb d e inner)
      · obtain ⟨verbs, dims⟩ := blockHead_apart verb kill e d outer
        exact same ⟨verbs.symm, dims.symm⟩
    simp [cutPrefix, clash, same]

/-- The listener reads back the verb, the dimension and the id. -/
theorem parseBlock_blockMessage (d : Dimension) (named : id ≠ []) :
    parseBlock (blockMessage kill d id) killDimensions = some (kill, d, id) := by
  cases d <;> cases kill <;>
    simp [killDimensions, parseBlock, cutKillID_blockMessage, named]

theorem blockMessage_injective {kill verb : Bool} {x : Bytes}
    (named : id ≠ []) (same : blockMessage kill d id = blockMessage verb e x) :
    kill = verb ∧ d = e ∧ id = x := by
  have read := cutKillID_blockMessage verb kill e d x
  rw [← same, cutKillID_blockMessage] at read
  simp only [and_self, if_true] at read
  split_ifs at read with is
  · exact ⟨is.1, is.2, read⟩
  · exact absurd read named

/-- A kill or a revive is none of the messages without an id. -/
theorem blockMessage_plain (d : Dimension) (named : id ≠ []) :
    blockMessage kill d id ≠ lit "global:activate" ∧
    blockMessage kill d id ≠ lit "global:deactivate" ∧ blockMessage kill d id ≠ lit "reset" := by
  have parsed := parseBlock_blockMessage kill d named
  refine ⟨?_, ?_, ?_⟩ <;>
  · intro same
    rw [same] at parsed
    exact absurd (parsed.symm.trans (by decide : _ = none)) (by simp)

/-- What hearing a kill or a revive does to the cache. -/
theorem mem_handle_block (r : Redis) (kill : Bool) (d e : Dimension) (x : Bytes)
    (named : id ≠ []) : x ∈ e.cache (r.handlePubSubMessage (blockMessage kill d id)).1 ↔
      if e = d ∧ x = id then kill = true else x ∈ e.cache r := by
  rw [mem_handlePubSubMessage, if_neg (blockMessage_plain kill d named).2.2, parseBlock_blockMessage kill d named]
  by_cases here : e = d ∧ x = id
  · obtain ⟨rfl, rfl⟩ := here
    cases kill <;> simp
  · have other : ∀ verb, some (kill, d, id) ≠ some (verb, e, x) := by
      rintro verb same
      simp only [Option.some.injEq, Prod.mk.injEq] at same
      exact here ⟨same.2.1.symm, same.2.2.symm⟩
    rw [if_neg (other true), if_neg (other false), if_neg here]

theorem globalActive_handle_block (r : Redis) (kill : Bool) (d : Dimension) (named : id ≠ []) :
    (r.handlePubSubMessage (blockMessage kill d id)).1.globalActive = r.globalActive := by
  obtain ⟨activate, deactivate, reset⟩ := blockMessage_plain kill d named
  unfold handlePubSubMessage applyMessage
  simp only [if_neg activate, if_neg deactivate, if_neg reset, parseBlock_blockMessage kill d named]
  cases kill <;> simp

end Redis

/-- The readers' confidence lies outside the cache. -/
theorem Redis.refusal_congr {r s : Redis} (same : r.core = s.core) (now : ℤ) : r.refusal now = s.refusal now := by
  have confidence : ∀ q : Redis, q.refusal now = q.core.refusal now := fun _ => rfl
  rw [confidence r, confidence s, same]

theorem Redis.anyKilled_iff (r : Redis) (subj : Subject) :
    r.anyKilled subj = true ↔ ∃ d : Dimension, d.subject subj ≠ [] ∧ d.subject subj ∈ d.cache r := by
  simp [Redis.anyKilled, mem_killDimensions]

/-- When a started switch answers "not killed". -/
theorem Redis.shouldBlock_eq_clear {r : Redis} (fault : r.wiringFault = none)
    (started : r.started = true) (now : ℤ) (subj : Subject) :
    r.shouldBlock now subj = (false, none) ↔
      r.globalActive = false ∧ r.anyKilled subj = false ∧ r.refusal now = none := by
  unfold Redis.shouldBlock
  cases active : r.globalActive <;> cases hit : r.anyKilled subj <;> simp [fault, started]

/-- A switch that answered "killed" has started without a fault. -/
theorem Redis.shouldBlock_eq_blocked {r : Redis} {subj : Subject} (blocked : r.shouldBlock now subj = (true, none)) :
    r.wiringFault = none ∧ r.started = true := by
  unfold Redis.shouldBlock at blocked
  cases fault : r.wiringFault <;> cases started : r.started <;> simp [fault, started] at blocked ⊢

/-! ## The fleet -/

/-- The step a kill or a revive takes next. -/
inductive Phase where
  | write
  | cache
  | publish
deriving DecidableEq, Repr

/-- A `setBlock` under way on one manager. -/
structure Op (ι : Type) where
  manager : ι
  kill : Bool
  dim : Dimension
  id : Bytes
  phase : Phase

/-- Managers over one Redis, with the messages each has yet to handle. -/
structure Fleet (ι : Type) where
  managers : ι → Redis
  keys : Finset Bytes
  ops : List (Op ι)
  inbox : ι → List Bytes

inductive FleetEvent (ι : Type) where
  /-- A manager is asked for a kill or a revive. -/
  | call (i : ι) (kill : Bool) (d : Dimension) (id : Bytes)
  /-- The operation at this place takes its next step; a publish reaches those
  listening. -/
  | advance (n : ℕ) (heard : ι → Bool)
  /-- Redis refuses the operation's write, and it returns the error. -/
  | abort (n : ℕ)
  /-- A tombstone reaches the end of its lifetime. -/
  | expire (key : Bytes)
  /-- A manager handles the next message. -/
  | deliver (i : ι)

namespace Fleet

variable {ι : Type} [DecidableEq ι]

def start (managers : ι → Redis) (keys : Finset Bytes) : Fleet ι := ⟨managers, keys, [], fun _ => []⟩

/-- One step of a `setBlock`: write, then cache, then publish. -/
def opStep (s : Fleet ι) (n : ℕ) (op : Op ι) (heard : ι → Bool) : Fleet ι :=
  match op.phase with
  | .write =>
    let key := op.dim.keyPrefix ++ op.id
    { s with
      keys := if op.kill then insert key s.keys else s.keys.erase key
      ops := s.ops.set n { op with phase := .cache } }
  | .cache =>
    { s with
      managers := Function.update s.managers op.manager
        ((s.managers op.manager).setBlockCache op.kill op.dim op.id).1
      ops := s.ops.set n { op with phase := .publish } }
  | .publish =>
    let payload := Redis.blockMessage op.kill op.dim op.id
    { s with
      inbox := fun i => if heard i then s.inbox i ++ [payload] else s.inbox i
      ops := s.ops.eraseIdx n }

def step (s : Fleet ι) : FleetEvent ι → Fleet ι
  | .call i kill d id =>
    match (s.managers i).setBlockRefusal kill d id with
    | some _ => s
    | none => { s with ops := s.ops ++ [⟨i, kill, d, id, .write⟩] }
  | .advance n heard =>
    match s.ops[n]? with
    | some op => s.opStep n op heard
    | none => s
  | .abort n => { s with ops := s.ops.eraseIdx n }
  | .expire key => { s with keys := s.keys.erase key }
  | .deliver i =>
    match s.inbox i with
    | [] => s
    | payload :: rest =>
      { s with
        managers := Function.update s.managers i ((s.managers i).handlePubSubMessage payload).1
        inbox := Function.update s.inbox i rest }

def run (s : Fleet ι) (events : List (FleetEvent ι)) : Fleet ι := events.foldl step s

/-- Every operation names an id, and every message is some operation's. -/
structure Genuine (s : Fleet ι) : Prop where
  named : ∀ op ∈ s.ops, op.id ≠ []
  published : ∀ i, ∀ payload ∈ s.inbox i, ∃ kill d id,
    id ≠ [] ∧ payload = Redis.blockMessage kill d id

section
variable {s : Fleet ι} (genuine : s.Genuine)
include genuine

theorem Genuine.opStep (here : op ∈ s.ops) (heard : ι → Bool) : (s.opStep n op heard).Genuine := by
  have named := genuine.named op here
  have renamed : ∀ phase, ∀ other ∈ s.ops.set n { op with phase := phase }, other.id ≠ [] := by
    intro phase other mem
    rcases List.mem_or_eq_of_mem_set mem with old | rfl
    · exact genuine.named other old
    · exact named
  unfold Fleet.opStep
  cases op.phase with
  | write => exact ⟨renamed .cache, genuine.published⟩
  | cache => exact ⟨renamed .publish, genuine.published⟩
  | publish =>
    refine ⟨fun other mem => genuine.named other (List.mem_of_mem_eraseIdx mem), ?_⟩
    intro i payload mem
    dsimp only at mem
    split at mem
    · rcases List.mem_append.mp mem with old | new
      · exact genuine.published i payload old
      · exact ⟨op.kill, op.dim, op.id, named, List.mem_singleton.mp new⟩
    · exact genuine.published i payload mem

theorem Genuine.step (e : FleetEvent ι) : (s.step e).Genuine := by
  cases e with
  | call i kill d id =>
    simp only [Fleet.step]
    split
    · exact genuine
    rename_i accepted
    refine ⟨List.forall_mem_append.mpr ⟨genuine.named, List.forall_mem_singleton.mpr ?_⟩, genuine.published⟩
    -- `setBlock` has refused an empty id
    rintro (rfl : id = [])
    unfold Redis.setBlockRefusal at accepted
    split at accepted <;> simp at accepted
  | advance n heard =>
    simp only [Fleet.step]
    split
    · rename_i op here
      exact genuine.opStep (List.mem_of_getElem? here) heard
    · exact genuine
  | abort n => exact ⟨fun op mem => genuine.named op (List.mem_of_mem_eraseIdx mem), genuine.published⟩
  | expire key => exact ⟨genuine.named, genuine.published⟩
  | deliver i =>
    simp only [Fleet.step]
    split
    · exact genuine
    rename_i payload rest waiting
    refine ⟨genuine.named, fun j other mem => ?_⟩
    dsimp only at mem
    by_cases here : j = i
    · subst here
      rw [Function.update_self] at mem
      exact genuine.published j other (waiting ▸ List.mem_cons_of_mem payload mem)
    · rw [Function.update_of_ne here] at mem
      exact genuine.published j other mem

theorem Genuine.run (events : List (FleetEvent ι)) : (s.run events).Genuine := by
  induction events generalizing s with
  | nil => exact genuine
  | cons e rest ih => exact ih (genuine.step e)

end

omit [DecidableEq ι] in
theorem start_genuine (managers : ι → Redis) (keys : Finset Bytes) : (start managers keys).Genuine := ⟨nofun, nofun⟩

end Fleet

/-! ## When a delivery lifts a kill -/

/-- No other field of the subject is killed here, and no stop is active. -/
def Redis.OnlyHolds (r : Redis) (d : Dimension) (subj : Subject) : Prop :=
  r.globalActive = false ∧
    ∀ e : Dimension, e ≠ d → e.subject subj ≠ [] → e.subject subj ∉ e.cache r

/-- Hearing a kill or a revive on a started switch that holds the kill. -/
theorem Redis.handle_block_clears {r : Redis} (fault : r.wiringFault = none)
    (started : r.started = true) {subj : Subject} (named : d.subject subj ≠ [])
    (held : d.subject subj ∈ d.cache r) (kill : Bool) {id : Bytes} (carried : id ≠ []) (now : ℤ) :
    (r.handlePubSubMessage (blockMessage kill e id)).1.shouldBlock now subj = (false, none) ↔
      (kill = false ∧ e = d ∧ id = d.subject subj) ∧ r.OnlyHolds d subj ∧ r.refusal now = none := by
  have core := (r.handlePubSubMessage_core (blockMessage kill e id)).1
  have member := fun (f : Dimension) (x : Bytes) => r.mem_handle_block kill e f x carried
  have global := r.globalActive_handle_block kill e carried
  set after := (r.handlePubSubMessage (blockMessage kill e id)).1
  have sound : after.wiringFault = none := by
    have outside : ∀ q : Redis, q.wiringFault = q.core.wiringFault := fun _ => rfl
    rw [outside, core, ← outside, fault]
  have on : after.started = true := (congrArg Redis.started core :).trans started
  rw [Redis.shouldBlock_eq_clear sound on, Redis.refusal_congr core, global,
    ← Bool.not_eq_true, ← Bool.not_eq_true, Redis.anyKilled_iff]
  simp only [member, not_exists, not_and]
  constructor
  · rintro ⟨quiet, unmatched, confident⟩
    have lifted := unmatched d named
    split_ifs at lifted with is
    · refine ⟨⟨by simpa using lifted, is.1.symm, is.2.symm⟩, ⟨by simpa using quiet, ?_⟩, confident⟩
      intro f apart present
      have gone := unmatched f present
      rwa [if_neg (fun same => apart (same.1.trans is.1.symm))] at gone
    · exact absurd held lifted
  · rintro ⟨⟨rfl, rfl, rfl⟩, ⟨quiet, others⟩, confident⟩
    refine ⟨by simpa using quiet, fun f present => ?_, confident⟩
    by_cases same : f = e
    · subst same
      simp
    · rw [if_neg (fun is => same is.1)]
      exact others f same present

/-- **What a delivery does to a killed id.** In every state the fleet can
reach, for an id whose kill a manager has applied and whose tombstone is in
Redis, handling the next message makes that manager answer "not killed",
tombstone and all, exactly when the message is a revive of that very id, nothing
else blocks the subject, and the manager serves non-matches at that time. -/
theorem delivery_lifts_kill_iff {ι : Type} [DecidableEq ι] (managers : ι → Redis)
    (keys : Finset Bytes) (events : List (FleetEvent ι)) (i : ι) (d : Dimension) (subj : Subject)
    (payload : Bytes) (rest : List Bytes) (before after : ℤ)
    (waiting : ((Fleet.start managers keys).run events).inbox i = payload :: rest)
    (named : d.subject subj ≠ [])
    (applied : d.subject subj ∈ d.cache (((Fleet.start managers keys).run events).managers i))
    (durable : d.keyPrefix ++ d.subject subj ∈ ((Fleet.start managers keys).run events).keys)
    (blocked : (((Fleet.start managers keys).run events).managers i).shouldBlock before subj = (true, none)) :
    d.keyPrefix ++ d.subject subj ∈ (((Fleet.start managers keys).run events).step (.deliver i)).keys ∧
    (((((Fleet.start managers keys).run events).step (.deliver i)).managers i).shouldBlock
        after subj = (false, none) ↔
      payload = Redis.blockMessage false d (d.subject subj) ∧
        (((Fleet.start managers keys).run events).managers i).OnlyHolds d subj ∧
        (((Fleet.start managers keys).run events).managers i).refusal after = none) := by
  have genuine := (Fleet.start_genuine managers keys).run events
  set s := (Fleet.start managers keys).run events
  obtain ⟨fault, started⟩ := Redis.shouldBlock_eq_blocked blocked
  obtain ⟨kill, e, id, carried, is⟩ := genuine.published i payload (waiting ▸ (.head _))
  have handled : (s.step (.deliver i)).managers i = ((s.managers i).handlePubSubMessage payload).1 := by
    simp [Fleet.step, waiting]
  have unchanged : (s.step (.deliver i)).keys = s.keys := by
    simp [Fleet.step, waiting]
  refine ⟨unchanged ▸ durable, ?_⟩
  rw [handled, is, Redis.handle_block_clears fault started named applied kill carried]
  refine and_congr_left fun _ => ⟨?_, fun same => Redis.blockMessage_injective carried same⟩
  rintro ⟨rfl, rfl, rfl⟩
  rfl

/-- Managers that have just started over an empty Redis. -/
def freshManagers : Bool → Redis := fun _ => ((World.start plainOptions 1).run freshStart).switch

def startedPair : Fleet Bool := Fleet.start freshManagers ∅

/-- A manager that kills a session and has yet to hear itself. -/
def announcedKill : List (FleetEvent Bool) :=
  [.call true true .session someSession, .advance 0 fun _ => true, .advance 0 fun _ => true,
    .advance 0 fun _ => true]

/-- Hearing the kill itself does not lift it. -/
theorem delivery_lifts_kill_iff_announced :
    ((((Fleet.start freshManagers ∅).run announcedKill).step (.deliver true)).managers
      true).shouldBlock 1 ⟨[], someSession, []⟩ ≠ (false, none) := by
  have waiting : ((Fleet.start freshManagers ∅).run announcedKill).inbox true =
      [Redis.blockMessage true .session someSession] := by
    decide
  have applied : someSession ∈ Dimension.session.cache
      (((Fleet.start freshManagers ∅).run announcedKill).managers true) := by
    decide
  have durable : someTombstone ∈ ((Fleet.start freshManagers ∅).run announcedKill).keys := by
    decide
  have blocked : (((Fleet.start freshManagers ∅).run announcedKill).managers true).shouldBlock 1
      ⟨[], someSession, []⟩ = (true, none) := by
    decide
  have outcome := delivery_lifts_kill_iff freshManagers ∅ announcedKill true Dimension.session
    ⟨[], someSession, []⟩ (Redis.blockMessage true .session someSession) [] (1 : ℤ) (1 : ℤ)
    waiting (by decide) applied durable blocked
  intro cleared
  have revive := (outcome.2.mp cleared).1
  exact absurd revive (by decide)

/-- One manager revives a session it killed, another kills it again before the
revive is published. -/
def overtakenRevive : List (FleetEvent Bool) :=
  [.call false false .session someSession, .advance 0 fun _ => true,
    .call true true .session someSession, .advance 1 fun _ => true, .advance 1 fun _ => true,
    .advance 1 fun _ => true, .advance 0 fun _ => true, .advance 0 fun _ => true,
    .deliver true]

/-- A revive and then a kill, each to its end, on one manager that has yet to
hear its own messages. -/
def lateEcho : List (FleetEvent Bool) :=
  [.call false false .session someSession, .advance 0 fun _ => true, .advance 0 fun _ => true,
    .advance 0 fun _ => true, .call false true .session someSession, .advance 0 fun _ => true,
    .advance 0 fun _ => true, .advance 0 fun _ => true]

/-- The revive, published last, lifts the newer kill on the manager that made
it, and no message is left to put it back; the late echo of a manager's own
revive lifts its later kill too. -/
theorem stale_revive_lifts_kill :
    let s := startedPair.run overtakenRevive
    let echo := startedPair.run lateEcho
    (someTombstone ∈ s.keys ∧ (s.managers true).shouldBlock 1 ⟨[], someSession, []⟩ = (true, none) ∧
      someTombstone ∈ (s.step (.deliver true)).keys ∧ (s.step (.deliver true)).inbox true = [] ∧
      ((s.step (.deliver true)).managers true).shouldBlock 1 ⟨[], someSession, []⟩ = (false, none)) ∧
    (someTombstone ∈ echo.keys ∧ (echo.managers false).shouldBlock 1 ⟨[], someSession, []⟩ = (true, none) ∧
      ((echo.step (.deliver false)).managers false).shouldBlock 1 ⟨[], someSession, []⟩ = (false, none)) := by
  decide

end Eunox.KillSwitch
