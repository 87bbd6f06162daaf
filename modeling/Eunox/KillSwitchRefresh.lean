import Eunox.KillSwitch

/-! One manager over a shared Redis. A refresh reads the keyspace page by page
without the cache's lock, so every step of it is an event that others may come
between; so is every critical section of the writers, of the listener and of
the life cycle, and every write to Redis, whoever makes it. Of a scan we assume
what Redis promises: it returns every key that was there from its first page to
its last. -/
namespace Eunox.KillSwitch

open ByteString (Bytes lit cutPrefix)

/-- Where a refresh stands in its loop. -/
inductive Stage where
  | capture
  | get (startGen : ℕ)
  /-- Scanning one dimension, with the ids found so far, the ids there ever
  since the scan began, and the dimensions still to come. -/
  | scan (startGen : ℕ) (global : Bool) (scanned : Redis.Scanned) (d : Dimension)
      (found steady : Finset Bytes) (rest : List Dimension)
  | commit (startGen : ℕ) (global : Bool) (scanned : Redis.Scanned)

/-- The refresh that holds `refreshMu`; `initial` marks the one `Start` makes. -/
structure Pass where
  initial : Bool
  attempt : ℕ
  stage : Stage

/-- A manager, the keys in Redis, the refresh under way and the clock.
`lastRefresh` remembers how the last refresh to finish went, and when. -/
structure World where
  switch : Redis
  keys : Finset Bytes
  pass : Option Pass
  loaded : Bool
  now : ℤ
  lastRefresh : Option (Option ℤ)

inductive Event where
  | advance (by_ : ℕ)
  | redisSet (key : Bytes)
  | redisDel (key : Bytes)
  -- the cache halves of the writers
  | block (kill : Bool) (d : Dimension) (id : Bytes)
  | global (active : Bool)
  | reset
  | deliver (payload : Bytes)
  -- the steps of `serializedRefresh`
  | refresh (initial : Bool)
  | capture
  | get
  | page (keys : List Bytes)
  | scanned
  | commit
  | fail (cause : Bytes)
  -- `refreshState` on a latched wiring fault
  | refuse
  | probe (answer : Option Bool)
  | start (answer : Option Bool)
  | started
  | stop
  | cancel

/-- The ids of the keys of one dimension. -/
def idsUnder (d : Dimension) (keys : Finset Bytes) : Finset Bytes :=
  (keys.filter (d.keyPrefix <+: ·)).image (·.drop d.keyPrefix.length)

theorem mem_idsUnder {id : Bytes} : id ∈ idsUnder d keys ↔ d.keyPrefix ++ id ∈ keys := by
  simp only [idsUnder, Finset.mem_image, Finset.mem_filter]
  constructor
  · rintro ⟨key, ⟨mem, tail, rfl⟩, rfl⟩
    simpa using mem
  · intro mem
    exact ⟨d.keyPrefix ++ id, ⟨mem, List.prefix_append _ _⟩, by simp⟩

/-- A key gone from Redis is not there throughout any scan. -/
def Stage.forget (keys : Finset Bytes) : Stage → Stage
  | .scan gen global scanned d found steady rest =>
    .scan gen global scanned d found (steady.filter fun id => d.keyPrefix ++ id ∈ keys) rest
  | stage => stage

namespace World

def start (o : Options) (now : ℤ) : World where
  switch := newRedis o
  keys := ∅
  pass := none
  loaded := false
  now := now
  lastRefresh := none

variable (w : World) (p : Pass)

/-- The refresh ends without a snapshot. -/
def failPass (err : KillError) : World :=
  { w with
    switch := w.switch.recordRefreshErr err
    pass := none
    loaded := w.loaded || p.initial
    lastRefresh := some none }

/-- The refresh ends by installing this snapshot. -/
def install (global : Bool) (scanned : Redis.Scanned) : World :=
  { w with
    switch := (w.switch.commitRefreshLocked global scanned w.now).1
    pass := none
    loaded := w.loaded || p.initial
    lastRefresh := some (some w.now) }

/-- The end of one attempt: commit if nothing raced it, else try again, and
after the last attempt commit the union with the cache. -/
def commitPass (startGen : ℕ) (global : Bool) (scanned : Redis.Scanned) :
    World :=
  if w.switch.cacheGen = startGen then w.install p global scanned
  else if p.attempt + 1 < Redis.maxRefreshAttempts then
    { w with pass := some { p with attempt := p.attempt + 1, stage := .capture } }
  else w.install p (global || w.switch.globalActive) (w.switch.unionCache scanned)

/-- A dimension's scan is over: on to the next one, or to the commit. -/
def scanNext (startGen : ℕ) (global : Bool) (scanned : Redis.Scanned) :
    List Dimension → World
  | [] => { w with pass := some { p with stage := .commit startGen global scanned } }
  | d :: rest =>
    { w with pass := some { p with
        stage := .scan startGen global scanned d ∅ (idsUnder d w.keys) rest } }

/-- One step of the refresh under way, for an event that is its turn. -/
def passStep : Event → World
  | .capture =>
    match p.stage with
    | .capture => { w with pass := some { p with stage := .get w.switch.cacheGen } }
    | _ => w
  | .get =>
    match p.stage with
    | .get gen => w.scanNext p gen (redisGlobalKey ∈ w.keys) (fun _ => none) killDimensions
    | _ => w
  | .page keys =>
    match p.stage with
    | .scan gen global scanned d found steady rest =>
      let found := found ∪ (keys.filterMap (cutPrefix d.keyPrefix)).toFinset
      { w with pass := some { p with stage := .scan gen global scanned d found steady rest } }
    | _ => w
  | .scanned =>
    match p.stage with
    | .scan gen global scanned d found steady rest =>
      -- the scan cannot have missed a key that was there throughout
      if steady ⊆ found then
        w.scanNext p gen global (Function.update scanned d (some found)) rest
      else w
    | _ => w
  | .commit =>
    match p.stage with
    | .commit gen global scanned => w.commitPass p gen global scanned
    | _ => w
  | .fail cause =>
    match p.stage with
    | .get _ | .scan .. => w.failPass p (.refreshFailed cause)
    | _ => w
  | _ => w

def step : Event → World
  | .advance d => { w with now := w.now + d }
  | .redisSet key => { w with keys := insert key w.keys }
  | .redisDel key =>
    { w with
      keys := w.keys.erase key
      pass := w.pass.map fun p => { p with stage := p.stage.forget (w.keys.erase key) } }
  | .block kill d id => { w with switch := (w.switch.setBlockCache kill d id).1 }
  | .global active => { w with switch := (w.switch.setGlobalCache active).1 }
  | .reset => { w with switch := w.switch.resetCache }
  | .deliver payload => { w with switch := (w.switch.handlePubSubMessage payload).1 }
  | .refresh initial =>
    match w.pass with
    | some _ => w
    | none =>
      if initial = true ∧ (!w.switch.startedOnce || w.loaded) then w
      else { w with pass := some ⟨initial, 0, .capture⟩ }
  | .refuse =>
    match w.switch.wiringFault with
    | some err => { w with switch := w.switch.recordRefreshErr err, lastRefresh := some none }
    | none => w
  | .probe answer => { w with switch := w.switch.probeServerTopology answer }
  | .start answer => { w with switch := w.switch.startEnter answer }
  | .started => if w.loaded then { w with switch := { w.switch with started := true } } else w
  | .stop => { w with switch := w.switch.stop }
  | .cancel => { w with switch := w.switch.canceled }
  | e =>
    match w.pass with
    | some p => w.passStep p e
    | none => w

def run (events : List Event) : World := events.foldl step w

end World

/-! ## A refresh never erases a live kill -/

/-- The generation an attempt started from, once it has read it. -/
def Stage.gen : Stage → Option ℕ
  | .capture => none
  | .get gen => some gen
  | .scan gen .. => some gen
  | .commit gen .. => some gen

/-- The attempt would commit the id if nothing raced it: it has found it, is
bound to find it, or has yet to look. -/
def Stage.Carries (d : Dimension) (id : Bytes) (now : ℕ) : Stage → Prop
  | .capture => True
  | .get _ => True
  | .scan gen _ scanned e found steady rest =>
    gen = now → if d = e then id ∈ steady ∨ id ∈ found
      else (∃ ids, scanned d = some ids ∧ id ∈ ids) ∨ d ∈ rest
  | .commit gen _ scanned => gen = now → ∃ ids, scanned d = some ids ∧ id ∈ ids

/-- An attempt from an earlier generation promises nothing. -/
theorem Stage.carries_of_stale {stage : Stage} (stale : ∀ g ∈ stage.gen, g < now) (d : Dimension) (id : Bytes) :
    stage.Carries d id now := by
  cases stage with
  | capture | get gen => trivial
  | scan gen global scanned e found steady rest => exact fun same => absurd same (stale gen rfl).ne
  | commit gen global scanned => exact fun same => absurd same (stale gen rfl).ne

/-- No attempt runs ahead of the cache. -/
def World.Paced (w : World) : Prop := ∀ p, w.pass = some p → ∀ g ∈ p.stage.gen, g ≤ w.switch.cacheGen

/-- The kill is cached and durable, and the refresh under way carries it. -/
structure World.Held (w : World) (d : Dimension) (id : Bytes) : Prop where
  durable : d.keyPrefix ++ id ∈ w.keys
  cached : id ∈ d.cache w.switch
  carried : ∀ p, w.pass = some p → p.stage.Carries d id w.switch.cacheGen

/-- The refresh under way has its snapshot and is about to commit. -/
def World.Committing (w : World) : Prop :=
  ∃ p gen global scanned, w.pass = some p ∧ p.stage = .commit gen global scanned

/-- Can put this kill into the cache: a local kill of it, its kill message, or
the commit of a snapshot. -/
def World.AppliesKill (w : World) (d : Dimension) (id : Bytes) : Event → Prop
  | .block kill e x => kill = true ∧ e = d ∧ x = id
  | .deliver payload => Redis.parseBlock payload killDimensions = some (true, d, id)
  | .commit => w.Committing
  | _ => False

/-- Takes this kill out of the cache: its own revive, or a reset of them all. -/
def Event.Withdraws (d : Dimension) (id : Bytes) : Event → Prop
  | .block kill e x => kill = false ∧ e = d ∧ x = id
  | .deliver payload => payload = lit "reset" ∨ Redis.parseBlock payload killDimensions = some (false, d, id)
  | .reset => True
  | _ => False

instance (d : Dimension) (id : Bytes) (e : Event) : Decidable (e.Withdraws d id) := by
  cases e <;> (unfold Event.Withdraws; infer_instance)

/-- Two managers that differ at most outside the cache. -/
structure Redis.SameCache (r s : Redis) : Prop where
  cache : ∀ d : Dimension, d.cache s = d.cache r
  gen : s.cacheGen = r.cacheGen

theorem Redis.sameCache_probe (r : Redis) (answer : Option Bool) : r.SameCache (r.probeServerTopology answer) := by
  unfold Redis.probeServerTopology
  split
  · exact ⟨fun d => by cases d <;> rfl, rfl⟩
  · split <;> exact ⟨fun d => by cases d <;> rfl, rfl⟩

theorem Redis.sameCache_startEnter (r : Redis) (answer : Option Bool) : r.SameCache (r.startEnter answer) := by
  have probed : r.SameCache (if r.wiringErr = none then r.probeServerTopology answer else r) := by
    split
    · exact r.sameCache_probe answer
    · exact ⟨fun _ => rfl, rfl⟩
  unfold Redis.startEnter
  split
  · exact ⟨fun _ => rfl, rfl⟩
  dsimp only
  split
  · exact probed
  · exact ⟨fun d => by rw [← probed.cache d]; cases d <;> rfl, probed.gen⟩

theorem World.Held.sameCache {w : World} {id : Bytes} (held : w.Held d id) (same : w.switch.SameCache r) :
    World.Held { w with switch := r } d id where
  durable := held.durable
  cached := by
    rw [same.cache]
    exact held.cached
  carried := fun p under => by
    rw [same.gen]
    exact held.carried p under

/-- A change of the cache that keeps the id outdates the refresh under way. -/
theorem World.Held.mutate {w : World} {id : Bytes} (paced : w.Paced)
    (durable : d.keyPrefix ++ id ∈ w.keys) (bumped : r.cacheGen = w.switch.cacheGen + 1)
    (cached : id ∈ d.cache r) : World.Held { w with switch := r } d id where
  durable := durable
  cached := cached
  carried := fun p under => by
    refine p.stage.carries_of_stale (fun g started => ?_) d id
    rw [bumped]
    exact Nat.lt_succ_of_le (paced p under g started)

/-- It is enough to look at the refresh now under way. -/
theorem World.Paced.under {w : World} (under : w.pass = some p)
    (bound : ∀ g ∈ p.stage.gen, g ≤ w.switch.cacheGen) : w.Paced := by
  intro q also
  obtain rfl : p = q := Option.mem_unique under also
  exact bound

theorem World.Paced.over {w : World} (ended : w.pass = none) : w.Paced := by
  intro p under
  simp [ended] at under

/-- All that a step of the refresh under way can come to. -/
theorem World.passStep_rule {P : World → Prop} (w : World) (p : Pass) (e : Event) (idle : P w)
    (staged : ∀ q : Pass, q.initial = p.initial →
      (∀ g ∈ q.stage.gen, g ∈ p.stage.gen ∨ g = w.switch.cacheGen) → P { w with pass := some q })
    (failed : ∀ err, P (w.failPass p err)) (installed : ∀ global scanned, P (w.install p global scanned)) :
    P (w.passStep p e) := by
  obtain ⟨initial, attempt, stage⟩ := p
  have next (gen : ℕ) (global : Bool) (scanned : Redis.Scanned) (dims : List Dimension) (started : gen ∈ stage.gen) :
      P (w.scanNext ⟨initial, attempt, stage⟩ gen global scanned dims) := by
    cases dims <;> exact staged _ rfl fun g same => .inl (Option.some.inj same ▸ started)
  cases e <;> cases stage <;> try exact idle
  case capture.capture => exact staged _ rfl fun g same => .inr (Option.some.inj same).symm
  case get.get gen => exact next gen (redisGlobalKey ∈ w.keys) _ killDimensions rfl
  case page.scan => exact staged _ rfl fun g same => .inl same
  case scanned.scan =>
    simp only [World.passStep]
    split
    · exact next _ _ _ _ rfl
    · exact idle
  case commit.commit =>
    simp only [World.passStep, World.commitPass]
    split
    · exact installed _ _
    · split
      · exact staged _ rfl fun g absent => nomatch absent
      · exact installed _ _
  all_goals exact failed _

section
variable {w : World} (paced : w.Paced)
include paced

theorem World.Paced.passStep (under : w.pass = some p) (e : Event) : (w.passStep p e).Paced := by
  refine w.passStep_rule p e paced (fun q _ started => .under rfl fun g same => ?_) (fun _ => .over rfl) fun _ _ => .over rfl
  exact (started g same).elim (paced p under g) le_of_eq

/-- A switch whose generation does not go back leaves the refresh paced. -/
theorem World.Paced.switch (gen : w.switch.cacheGen ≤ r.cacheGen) : World.Paced { w with switch := r } :=
  fun p under g started => (paced p under g started).trans gen

omit paced in
theorem Stage.forget_gen (keys : Finset Bytes) (stage : Stage) : (stage.forget keys).gen = stage.gen := by
  cases stage <;> rfl

theorem World.Paced.step (e : Event) : (w.step e).Paced := by
  cases e with
  | advance d | redisSet key => exact paced
  | redisDel key =>
    intro q under g started
    obtain ⟨p, was, rfl⟩ := Option.map_eq_some_iff.mp under
    rw [Stage.forget_gen] at started
    exact paced p was g started
  | block kill d id => exact paced.switch (by cases d <;> exact Nat.le_succ _)
  | global active | reset => exact paced.switch (Nat.le_succ _)
  | deliver payload => exact paced.switch ((w.switch.handlePubSubMessage_core payload).2 ▸ Nat.le_succ _)
  | refresh initial =>
    simp only [World.step]
    split
    · exact paced
    · split
      · exact paced
      · exact .under rfl fun g absent => nomatch absent
  | refuse =>
    simp only [World.step]
    split
    · exact paced.switch le_rfl
    · exact paced
  | probe answer => exact paced.switch (w.switch.sameCache_probe answer).gen.ge
  | start answer => exact paced.switch (w.switch.sameCache_startEnter answer).gen.ge
  | started =>
    simp only [World.step]
    split
    · exact paced.switch le_rfl
    · exact paced
  | stop | cancel => exact paced.switch le_rfl
  | _ =>
    simp only [World.step]
    split
    · rename_i p under
      exact paced.passStep under _
    · exact paced

theorem World.Paced.run (events : List Event) : (w.run events).Paced := by
  induction events generalizing w with
  | nil => exact paced
  | cons e rest ih => exact ih (paced.step e)

end

section Held

variable {w : World} {d : Dimension} {id : Bytes} {p : Pass}

section
variable (held : w.Held d id)
include held

/-- The pass moves on. -/
theorem World.Held.move (carries : p.stage.Carries d id w.switch.cacheGen) :
    World.Held { w with pass := some p } d id := by
  refine ⟨held.durable, held.cached, fun q under => ?_⟩
  obtain rfl := Option.some.inj under
  exact carries

/-- A scan that begins while the key is there is bound to find it. -/
theorem World.Held.scanNext (covered : gen = w.switch.cacheGen →
      (∃ ids, scanned d = some ids ∧ id ∈ ids) ∨ d ∈ dims) :
    (w.scanNext p gen global scanned dims).Held d id := by
  cases dims with
  | nil => exact held.move fun current => (covered current).resolve_right List.not_mem_nil
  | cons e rest =>
    refine held.move fun current => ?_
    by_cases here : d = e
    · rw [if_pos here]
      exact .inl (here ▸ mem_idsUnder.mpr held.durable)
    · rw [if_neg here]
      rcases covered current with done | ahead
      · exact .inl done
      · exact .inr ((List.mem_cons.mp ahead).resolve_left here)

theorem World.Held.install (kept : id ∈ (scanned d).getD (d.cache w.switch)) :
    (w.install p global scanned).Held d id := by
  refine ⟨held.durable, ?_, fun q under => nomatch under⟩
  show id ∈ d.cache (w.switch.commitRefreshLocked global scanned w.now).1
  rwa [Redis.cache_commitRefreshLocked]

/-- Both arms of the commit keep the id: the one that matched generations
because the scan found it, the union because the cache holds it. -/
theorem World.Held.commitPass (carried : gen = w.switch.cacheGen → ∃ ids, scanned d = some ids ∧ id ∈ ids) :
    (w.commitPass p gen global scanned).Held d id := by
  unfold World.commitPass
  split
  · rename_i current
    obtain ⟨ids, found, mem⟩ := carried current.symm
    exact held.install (by rwa [found])
  · split
    · exact held.move trivial
    apply held.install
    simp only [Redis.unionCache]
    cases scanned d with
    | none => exact held.cached
    | some ids => exact Finset.mem_union_right _ held.cached

theorem World.Held.passStep (under : w.pass = some p) (e : Event) :
    (w.passStep p e).Held d id := by
  have carried := held.carried p under
  obtain ⟨initial, attempt, stage⟩ := p
  cases e <;> try exact held
  case capture =>
    cases stage <;> try exact held
    exact held.move trivial
  case get =>
    cases stage <;> try exact held
    exact held.scanNext fun _ => .inr (mem_killDimensions d)
  case page keys =>
    cases stage <;> try exact held
    refine held.move fun current => ?_
    have before := carried current
    split at before
    · rename_i here
      rw [if_pos here]
      exact before.imp_right (Finset.mem_union_left _)
    · rename_i elsewhere
      rw [if_neg elsewhere]
      exact before
  case scanned =>
    cases stage <;> try exact held
    rename_i gen global scanned e found steady rest
    simp only [World.passStep]
    split
    · rename_i complete
      refine held.scanNext fun current => ?_
      have before := carried current
      split at before
      · rename_i here
        subst here
        have mem : id ∈ found := before.elim (complete ·) (·)
        exact .inl ⟨found, Function.update_self .., mem⟩
      · rename_i elsewhere
        rw [Function.update_of_ne elsewhere]
        exact before
    · exact held
  case commit =>
    cases stage <;> try exact held
    exact held.commitPass carried
  case fail cause =>
    cases stage <;> first
      | exact held
      | exact ⟨held.durable, held.cached, fun q absent => nomatch absent⟩

end

/-- Deleting some other key disturbs no scan's hold on this one. -/
theorem Stage.Carries.forget {stage : Stage} {now : ℕ}
    (carries : stage.Carries d id now) (durable : d.keyPrefix ++ id ∈ keys) :
    (stage.forget keys).Carries d id now := by
  cases stage <;> try exact carries
  intro current
  have before := carries current
  split at before
  · rename_i here
    subst here
    rw [if_pos rfl]
    exact before.imp_left fun mem => Finset.mem_filter.mpr ⟨mem, durable⟩
  · rename_i elsewhere
    rw [if_neg elsewhere]
    exact before

/-- No event but a withdrawal takes a live kill out of the cache. -/
theorem World.Held.step (held : w.Held d id) (paced : w.Paced) {e : Event}
    (standing : ¬e.Withdraws d id) (durable : d.keyPrefix ++ id ∈ (w.step e).keys) :
    (w.step e).Held d id := by
  cases e with
  | advance d => exact ⟨held.durable, held.cached, held.carried⟩
  | redisSet key => exact ⟨durable, held.cached, held.carried⟩
  | redisDel key =>
    refine ⟨durable, held.cached, fun q under => ?_⟩
    obtain ⟨p, was, rfl⟩ := Option.map_eq_some_iff.mp under
    exact (held.carried p was).forget durable
  | block kill e x =>
    refine .mutate paced held.durable (by cases e <;> rfl) ?_
    rw [Redis.mem_setBlockCache]
    split
    · rename_i here
      by_contra revive
      exact standing ⟨by simpa using revive, here.1.symm, here.2.symm⟩
    · exact held.cached
  | global active => exact .mutate paced held.durable rfl (by cases d <;> exact held.cached)
  | reset => exact absurd trivial standing
  | deliver payload =>
    refine .mutate paced held.durable (w.switch.handlePubSubMessage_core payload).2 ?_
    rw [Redis.mem_handlePubSubMessage]
    split_ifs with reset kill revive
    · exact standing (.inl reset)
    · exact standing (.inr revive)
    · exact held.cached
  | refresh initial =>
    simp only [World.step]
    split
    · exact held
    · split
      · exact held
      · exact held.move trivial
  | refuse =>
    simp only [World.step]
    split
    · exact ⟨held.durable, by cases d <;> exact held.cached, held.carried⟩
    · exact held
  | probe answer => exact held.sameCache (w.switch.sameCache_probe answer)
  | start answer => exact held.sameCache (w.switch.sameCache_startEnter answer)
  | started =>
    simp only [World.step]
    split
    · exact held.sameCache ⟨fun d => by cases d <;> rfl, rfl⟩
    · exact held
  | stop | cancel => exact held.sameCache ⟨fun d => by cases d <;> rfl, rfl⟩
  | _ =>
    simp only [World.step]
    split
    · rename_i p under
      exact held.passStep under _
    · exact held

/-- A kill stands through every run that neither withdraws it nor lets its key
go. -/
theorem World.Held.run (held : w.Held d id) (paced : w.Paced) {events : List Event}
    (standing : ∀ e ∈ events, ¬e.Withdraws d id)
    (durable : ∀ front, front <+: events → d.keyPrefix ++ id ∈ (w.run front).keys) :
    (w.run events).Held d id := by
  induction events generalizing w with
  | nil => exact held
  | cons e rest ih =>
    refine ih (held.step paced (standing e (.head _)) ?_) (paced.step e)
      (fun x mem => standing x (List.mem_cons_of_mem e mem)) ?_
    · exact durable [e] ⟨rest, rfl⟩
    · intro front start
      exact durable (e :: front) (List.cons_prefix_cons.mpr ⟨rfl, start⟩)

/-- The event that puts the kill into the cache leaves it held. -/
theorem World.Paced.applied (paced : w.Paced) {e : Event} (applies : w.AppliesKill d id e)
    (cached : id ∈ d.cache (w.step e).switch) (durable : d.keyPrefix ++ id ∈ (w.step e).keys) :
    (w.step e).Held d id := by
  cases e with
  | block kill f x => exact .mutate paced durable (by cases f <;> rfl) cached
  | deliver payload => exact .mutate paced durable (w.switch.handlePubSubMessage_core payload).2 cached
  | commit =>
    obtain ⟨p, gen, global, scanned, under, stage⟩ := applies
    refine ⟨durable, cached, fun q after => ?_⟩
    -- the pass is over, or starts its next attempt
    simp only [World.step, under, World.passStep, stage, World.commitPass] at after ⊢
    split at after
    · cases after
    split at after
    · obtain rfl := Option.some.inj after
      trivial
    · cases after
  | _ => exact applies.elim

end Held

theorem World.start_paced (o : Options) (now : ℤ) : (World.start o now).Paced := .over rfl

theorem World.run_append (w : World) (front rest : List Event) : w.run (front ++ rest) = (w.run front).run rest :=
  List.foldl_append

/-- A kill that has been put into the cache, whose key has been in Redis ever
since and which neither its revive nor a reset has withdrawn is still cached,
whatever refreshes ran and however their scans raced; so a started switch
without a wiring fault still blocks its subject. -/
theorem refresh_keeps_live_kill (o : Options) (now : ℤ) (before : List Event) (e : Event)
    (after : List Event) (d : Dimension) (id : Bytes)
    (applies : ((World.start o now).run before).AppliesKill d id e)
    (applied : id ∈ d.cache ((World.start o now).run (before ++ [e])).switch)
    (durable : ∀ front, front <+: after → d.keyPrefix ++ id ∈ ((World.start o now).run (before ++ e :: front)).keys)
    (standing : ∀ x ∈ after, ¬x.Withdraws d id) :
    let w := (World.start o now).run (before ++ e :: after)
    id ∈ d.cache w.switch ∧
    ∀ subj : Subject, d.subject subj = id → id ≠ [] → w.switch.wiringFault = none →
      w.switch.started = true → w.switch.shouldBlock w.now subj = (true, none) := by
  intro w
  have paced := (World.start_paced o now).run before
  have reached : ∀ rest, (World.start o now).run (before ++ e :: rest) =
      ((((World.start o now).run before)).step e).run rest := fun rest =>
    World.run_append _ before (e :: rest)
  have held := paced.applied applies (by rw [reached []] at applied; exact applied)
    (by have first := durable [] List.nil_prefix; rw [reached []] at first; exact first)
  have still : w.Held d id := by
    show ((World.start o now).run (before ++ e :: after)).Held d id
    rw [reached after]
    refine held.run (paced.step e) standing fun front start => ?_
    rw [← reached front]
    exact durable front start
  refine ⟨still.cached, ?_⟩
  rintro subj rfl named sound started
  exact Redis.shouldBlock_killed sound started named still.cached w.now

/-- A plain client in the default, fail-closed mode. -/
def plainOptions : Options := ⟨false, .singleNode, .unknown, false, none, none⟩

/-- One attempt that finds no key. -/
def emptyScan : List Event := [.capture, .get, .scanned, .scanned, .scanned]

/-- A start whose initial refresh finds nothing. -/
def freshStart : List Event := [.start (some false), .refresh true] ++ emptyScan ++ [.commit, .started]

/-- A session and its tombstone. -/
def someSession : Bytes := lit "s1"
def someTombstone : Bytes := Dimension.session.keyPrefix ++ someSession

/-- A refresh over a keyspace that holds the tombstone. -/
def sessionScan : List Event :=
  [.refresh false, .capture, .get, .scanned, .page [someTombstone], .scanned, .scanned, .commit]

/-- A started switch, with the tombstone already written. -/
def tombstoned : List Event := freshStart ++ [.redisSet someTombstone]

theorem refresh_keeps_live_kill_session : someSession ∈ Dimension.session.cache ((World.start plainOptions 1).run
      (tombstoned ++ .block true .session someSession :: sessionScan)).switch := by
  have durable : ∀ front ∈ sessionScan.inits,
      Dimension.session.keyPrefix ++ someSession ∈ ((World.start plainOptions 1).run
        (tombstoned ++ .block true .session someSession :: front)).keys := by
    decide
  have applied : someSession ∈ Dimension.session.cache ((World.start plainOptions 1).run
      (tombstoned ++ [.block true .session someSession])).switch := by
    decide
  have kept := refresh_keeps_live_kill plainOptions (1 : ℤ) tombstoned
    (Event.block true Dimension.session someSession) sessionScan Dimension.session someSession
    ⟨rfl, rfl, rfl⟩ applied (fun front start => durable front ((List.mem_inits _ _).mpr start))
    (by decide)
  exact kept.1

/-- Three attempts raced by a change of the cache, and the scan of a fourth. -/
def racedAttempts : List Event :=
  freshStart ++ [.refresh false] ++ emptyScan ++ [.global false, .commit] ++
    emptyScan ++ [.global false, .commit] ++ emptyScan ++ [.global false, .commit] ++ emptyScan

/-- A reset message handled between a kill and the union arm's commit leaves
the live kill out of the cache, and a switch not yet started answers with its
error whatever it holds. -/
theorem refresh_drops_reset_kill : (∀ front ∈ [Event.deliver (lit "reset"), .commit].inits,
      someTombstone ∈ ((World.start plainOptions 1).run (racedAttempts ++ .redisSet someTombstone ::
          .block true .session someSession :: front)).keys) ∧
    ((World.start plainOptions 1).run (racedAttempts ++ .redisSet someTombstone ::
          [.block true .session someSession, .deliver (lit "reset"), .commit])).switch.shouldBlock 1
      ⟨[], someSession, []⟩ = (false, none) ∧
    ((World.start plainOptions 1).run
        ([.redisSet someTombstone, .block true .session someSession, .start (some false),
          .refresh true, .capture, .get, .scanned, .page [someTombstone], .scanned, .scanned,
          .commit])).switch.shouldBlock 1
      ⟨[], someSession, []⟩ = (false, some .notStarted) := by
  decide

/-! ## A refresh adopts every durable kill -/

/-- The refresh under way has found the id or is bound to, whatever races it. -/
def World.Finds (w : World) (d : Dimension) (id : Bytes) : Prop :=
  ∀ p, w.pass = some p → ∀ now, p.stage.Carries d id now

section Finds
variable {w : World} {d : Dimension} {id : Bytes} {e : Event} (finds : w.Finds d id) (durable : d.keyPrefix ++ id ∈ w.keys)
include finds durable

theorem World.Finds.passStep (under : w.pass = some p) : (w.passStep p e).Finds d id := by
  intro q after now
  -- were the id cached, at whatever generation, the kill would be held
  let r : Redis := { (w.switch.setBlockCache true d id).1 with cacheGen := now }
  have inserted := (w.switch.mem_setBlockCache true d d id id).mpr (by simp)
  have held : World.Held { w with switch := r } d id :=
    ⟨durable, by cases d <;> exact inserted, fun p under => finds p under now⟩
  have carried := (held.passStep under e).carried q
  obtain ⟨initial, attempt, stage⟩ := p
  cases e <;> cases stage <;> try first | exact carried after | exact Option.some.inj after ▸ trivial
  case scanned.scan rest =>
    simp only [World.passStep] at after carried
    split_ifs at after carried
    · cases rest <;> exact carried after
    · exact carried after
  case commit.commit =>
    simp only [World.passStep, World.commitPass] at after
    split_ifs at after <;> cases after
    trivial

theorem World.Finds.step (still : d.keyPrefix ++ id ∈ (w.step e).keys) : (w.step e).Finds d id := by
  cases e with
  | redisDel key =>
    intro q after now
    obtain ⟨p, was, rfl⟩ := Option.map_eq_some_iff.mp after
    exact (finds p was now).forget still
  | _ =>
    -- any other event lets the refresh be, begins one or moves it on
    simp only [World.step]
    repeat' split
    all_goals first
      | exact finds
      | exact finds.passStep durable ‹_›
      | exact fun q after now => Option.some.inj after ▸ trivial

omit durable in
theorem World.Finds.run (durable : ∀ front, front <+: events → d.keyPrefix ++ id ∈ (w.run front).keys) :
    (w.run events).Finds d id := by
  induction events generalizing w with
  | nil => exact finds
  | cons e rest ih =>
    refine ih (finds.step (durable [] List.nil_prefix) (durable [e] ⟨rest, rfl⟩)) fun front start => ?_
    exact durable (e :: front) (List.cons_prefix_cons.mpr ⟨rfl, start⟩)

end Finds

/-- A refresh that is through has adopted every kill whose key was in Redis while it ran, however
often it was raced. -/
theorem refresh_adopts_durable_kill {w : World} {events : List Event} {d : Dimension} {id : Bytes} (idle : w.pass = none)
    (durable : ∀ front, front <+: events → d.keyPrefix ++ id ∈ (w.run front).keys) (ready : (w.run events).Committing)
    (through : ((w.run events).step .commit).pass = none) : id ∈ d.cache ((w.run events).step .commit).switch := by
  obtain ⟨p, gen, global, scanned, under, stage⟩ := ready
  have finds : w.Finds d id := by simp [World.Finds, idle]
  have carried := finds.run durable p under gen
  rw [stage] at carried
  obtain ⟨ids, found, mem⟩ := carried rfl
  simp only [World.step, under, World.passStep, stage, World.commitPass] at through ⊢
  split_ifs at through ⊢ <;> simp [World.install, Redis.cache_commitRefreshLocked, Redis.unionCache, found, mem]

theorem refresh_adopts_durable_kill_session : someSession ∈ Dimension.session.cache
    ((World.start plainOptions 1).run (tombstoned ++ sessionScan)).switch := by
  have durable : ∀ front ∈ sessionScan.dropLast.inits,
      someTombstone ∈ (((World.start plainOptions 1).run tombstoned).run front).keys := by
    decide
  have adopted := refresh_adopts_durable_kill (by decide)
    (fun front start => durable front ((List.mem_inits _ _).mpr start)) ⟨_, _, _, _, rfl, rfl⟩ (by decide)
  exact adopted

end Eunox.KillSwitch
