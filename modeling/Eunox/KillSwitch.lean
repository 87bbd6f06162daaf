import Mathlib.Data.Finset.Basic
import Mathlib.Data.Finset.Sort
import Mathlib.Data.List.Lex
import Mathlib.Data.UInt
import Eunox.ByteString

/-! The Redis-backed kill switch of `pkg/killswitch`: what one manager keeps in
its local cache, how the writers, the pub/sub listener and a refresh change it,
and what its three readers answer from it. Instants and durations count
nanoseconds; the zero time is 0. A function that reads the clock takes the
reading as an argument. -/
namespace Eunox.KillSwitch

open ByteString (Bytes lit cutPrefix)

/-- The revocable axes, but for the global stop. -/
inductive Dimension where
  | agent
  | session
  | jti
deriving DecidableEq, Repr

namespace Dimension

def name : Dimension → Bytes
  | agent => lit "agent"
  | session => lit "session"
  | jti => lit "jti"

def killMethod : Dimension → Bytes
  | agent => lit "KillAgent"
  | session => lit "KillSession"
  | jti => lit "RevokeJTI"

def reviveMethod : Dimension → Bytes
  | agent => lit "ReviveAgent"
  | session => lit "ReviveSession"
  | jti => lit "ReviveJTI"

def idField : Dimension → Bytes
  | agent => lit "agentID"
  | session => lit "sessionID"
  | jti => lit "jti"

def keyPrefix : Dimension → Bytes
  | agent => lit "killswitch:agent:"
  | session => lit "killswitch:session:"
  | jti => lit "killswitch:jti:"

/-- Only a session's tombstone carries the configured lifetime. -/
def expires : Dimension → Bool
  | session => true
  | _ => false

def ttl (d : Dimension) (sessionKillTTL : ℤ) : ℤ := if d.expires then sessionKillTTL else 0

end Dimension

def killDimensions : List Dimension := [.agent, .session, .jti]

section
variable (d : Dimension)

theorem mem_killDimensions : d ∈ killDimensions := by
  cases d <;> decide

def redisGlobalKey : Bytes := lit "killswitch:global"

/-- The identity a check is asked about; an empty field is not evaluated. -/
structure Subject where
  agentID : Bytes
  sessionID : Bytes
  jti : Bytes
deriving DecidableEq, Repr

def Dimension.subject (s : Subject) : Bytes :=
  match d with
  | .agent => s.agentID
  | .session => s.sessionID
  | .jti => s.jti

/-- One kill a local view has just gained. -/
structure Revocation where
  global : Bool
  agentID : Bytes
  sessionID : Bytes
  jti : Bytes
deriving DecidableEq, Repr

def Dimension.event (id : Bytes) : Revocation :=
  match d with
  | .agent => ⟨false, id, [], []⟩
  | .session => ⟨false, [], id, []⟩
  | .jti => ⟨false, [], [], id⟩

def globalEvent : Revocation := ⟨true, [], [], []⟩

/-- How a client spreads its keyspace, as far as that is known. -/
inductive Topology where
  | unknown
  | singleNode
  | sharded
deriving DecidableEq, Repr

inductive Reconciliation where
  | settled (topology : Topology)
  | undetermined
  | contradicted
deriving DecidableEq, Repr

/-- A declaration fills an unknown topology and never overrides a known one. -/
def reconcile (classified declared : Topology) : Reconciliation :=
  if declared = .unknown then
    if classified = .unknown then .undetermined else .settled classified
  else if classified = .unknown then .settled declared
  else if declared ≠ classified then .contradicted
  else .settled classified

/-- The errors of the switch, by the sentinel a caller tests for. -/
inductive KillError where
  | nilClient
  | unknownTopology
  | topologyContradicted
  | serverClustered
  | notStarted
  | stopped
  | backendUnreachable
  /-- The raw error of a refresh that failed. -/
  | refreshFailed (cause : Bytes)
  /-- No refresh has succeeded for longer than this. -/
  | notConverging (bound : ℤ)
  | emptyID (method idField : Bytes)
deriving DecidableEq, Repr

/-- One manager. -/
structure Redis where
  wiringErr : Option KillError
  topology : Topology
  failOpen : Bool
  reconcileInterval : ℤ
  sessionKillTTL : ℤ
  serverClustered : Bool
  serverProbed : Bool
  globalActive : Bool
  killedAgents : Finset Bytes
  killedSessions : Finset Bytes
  revokedJTIs : Finset Bytes
  lastRefreshErr : Option KillError
  lastRefreshOK : ℤ
  cacheGen : ℕ
  startedOnce : Bool
  stopped : Bool
  started : Bool
  -- whether the context of `Start` is canceled, once there is one
  runCtx : Option Bool
  -- the coalescing channel, once there is one, and whether a signal is in it
  refreshTrigger : Option Bool
deriving DecidableEq

def defaultReconcileInterval : ℤ := 30 * 1000000000

def maxRefreshCycleBudget : ℤ := 30 * 1000000000

def defaultSessionKillTTL : ℤ := 30 * 24 * 3600 * 1000000000

/-- What a manager is built from: the client as its type shows it, and the
options. -/
structure Options where
  nilClient : Bool
  classified : Topology
  declared : Topology
  failOpen : Bool
  reconcileInterval : Option ℤ
  sessionKillTTLEffective : Option ℤ
deriving DecidableEq, Repr

/-- The topology to use, or the wiring fault to latch. -/
def resolveTopology (o : Options) : Except KillError Topology :=
  if o.nilClient then .error .nilClient
  else
    match reconcile o.classified o.declared with
    | .undetermined => .error .unknownTopology
    | .contradicted => .error .topologyContradicted
    | .settled topology => .ok topology

def newRedis (o : Options) : Redis where
  wiringErr :=
    match resolveTopology o with
    | .error err => some err
    | .ok _ => none
  topology :=
    match resolveTopology o with
    | .error _ => o.classified
    | .ok topology => topology
  failOpen := o.failOpen
  reconcileInterval :=
    match o.reconcileInterval with
    | some d => if d ≤ 0 then defaultReconcileInterval else d
    | none => defaultReconcileInterval
  sessionKillTTL :=
    match o.sessionKillTTLEffective with
    | some d => if d < 0 then 0 else d
    | none => defaultSessionKillTTL
  serverClustered := false
  serverProbed := false
  globalActive := false
  killedAgents := ∅
  killedSessions := ∅
  revokedJTIs := ∅
  lastRefreshErr := none
  lastRefreshOK := 0
  cacheGen := 0
  startedOnce := false
  stopped := false
  started := false
  runCtx := none
  refreshTrigger := none

def Dimension.cache (r : Redis) : Finset Bytes :=
  match d with
  | .agent => r.killedAgents
  | .session => r.killedSessions
  | .jti => r.revokedJTIs

def Dimension.replace (r : Redis) (ids : Finset Bytes) : Redis :=
  match d with
  | .agent => { r with killedAgents := ids }
  | .session => { r with killedSessions := ids }
  | .jti => { r with revokedJTIs := ids }

end

namespace Redis

section
variable (r : Redis)

/-- The latched fault the manager can never serve past. -/
def wiringFault : Option KillError :=
  match r.wiringErr with
  | some err => some err
  | none => if r.serverClustered then some .serverClustered else none

/-- The server's answer to whether it is a cluster node, if it gave one. -/
def probeServerTopology (answer : Option Bool) : Redis :=
  if r.topology ≠ .singleNode then { r with serverProbed := true }
  else
    match answer with
    | none => r
    | some clustered => { r with serverClustered := r.serverClustered || clustered, serverProbed := true }

/-! ## The readers -/

/-- A `Duration` wraps. -/
def wrapDuration (d : ℤ) : ℤ := Int.bmod d (2 ^ 64)

variable (kill : Bool) (d : Dimension) (now : ℤ) (payload id : Bytes)

/-- `Time.Sub` saturates. -/
def sinceSaturated (t : ℤ) : ℤ := max (-2 ^ 63) (min (2 ^ 63 - 1) (now - t))

/-- How old a confirmed refresh may be. -/
def staleness : ℤ :=
  let iv := if r.reconcileInterval ≤ 0 then defaultReconcileInterval else r.reconcileInterval
  let budget := max (wrapDuration (2 * iv)) (wrapDuration (iv + maxRefreshCycleBudget))
  if budget ≤ 0 then maxRefreshCycleBudget else budget

def staleLocked : Bool :=
  if r.lastRefreshOK = 0 then false
  else r.staleness < sinceSaturated now r.lastRefreshOK

inductive Liveness where
  | live
  | stopped
  | refreshFailed (err : KillError)
  | stale
deriving DecidableEq, Repr

/-- Why a non-match cannot be served as an all-clear, if it cannot. -/
def livenessLocked : Liveness :=
  if r.runCtx = some true then .stopped
  else
    match r.lastRefreshErr with
    | some err => .refreshFailed err
    | none => if r.staleLocked now then .stale else .live

def healthStatus : Option KillError :=
  match r.wiringFault with
  | some err => some err
  | none =>
    if !r.started then some .notStarted
    else
      match r.livenessLocked now with
      | .stopped => some .stopped
      | .refreshFailed err => some err
      | .stale => some (.notConverging r.staleness)
      | .live => none

/-- Some dimension of the subject is in the cache. -/
def anyKilled (subj : Subject) : Bool :=
  killDimensions.any fun d => d.subject subj != [] && decide (d.subject subj ∈ d.cache r)

/-- The sentinel a reader answers an unconfirmable cache with. -/
def refusal : Option KillError :=
  match r.livenessLocked now with
  | .stopped => some .stopped
  | .refreshFailed _ | .stale => if r.failOpen then none else some .backendUnreachable
  | .live => none

def shouldBlock (subj : Subject) : Bool × Option KillError :=
  match r.wiringFault with
  | some err => (false, some err)
  | none =>
    if !r.started then (false, some .notStarted)
    else if r.globalActive then (true, none)
    else if r.anyKilled subj then (true, none)
    else (false, r.refusal now)

structure Status where
  globalActive : Bool
  killedAgents : List Bytes
  killedSessions : List Bytes
  revokedJTIs : List Bytes

def sortedKeys (ids : Finset Bytes) : List Bytes := ids.sort (· ≤ ·)

def status : Except KillError Status :=
  match r.wiringFault with
  | some err => .error err
  | none =>
    if !r.started then .error .notStarted
    else
      match r.refusal now with
      | some err => .error err
      | none => .ok
        { globalActive := r.globalActive
          killedAgents := sortedKeys r.killedAgents
          killedSessions := sortedKeys r.killedSessions
          revokedJTIs := sortedKeys r.revokedJTIs }

/-! ## The writers -/

/-- `setBlock` refuses a faulty switch and an empty id before it writes. -/
def setBlockRefusal : Option KillError :=
  match r.wiringFault with
  | some err => some err
  | none =>
    if id = [] then some (.emptyID (if kill then d.killMethod else d.reviveMethod) d.idField)
    else none

/-- The cache half of `setBlock`, with the kill it gained. -/
def setBlockCache : Redis × Finset Revocation :=
  let held := d.cache r
  let gained := if kill ∧ id ∉ held then {d.event id} else ∅
  let r := d.replace r (if kill then insert id held else held.erase id)
  ({ r with cacheGen := r.cacheGen + 1 }, gained)

/-- The cache half of `ActivateGlobal` and `DeactivateGlobal`. -/
def setGlobalCache (active : Bool) : Redis × Finset Revocation :=
  let gained := if active ∧ !r.globalActive then {globalEvent} else ∅
  ({ r with globalActive := active, cacheGen := r.cacheGen + 1 }, gained)

/-- Empty caches, as a reset leaves them. -/
def cleared : Redis := killDimensions.foldl (fun r d => d.replace r ∅) { r with globalActive := false }

/-- The cache half of `Reset`. -/
def resetCache : Redis :=
  let r := r.cleared
  { r with cacheGen := r.cacheGen + 1 }

/-! ## The listener -/

/-- The word an event carries for its verb. -/
def action : Bytes := if kill then lit "kill" else lit "revive"

/-- The message `setBlock` publishes. -/
def blockMessage : Bytes :=
  d.name ++ lit ":" ++ action kill ++ lit ":" ++ id

/-- The id a message of this verb carries, empty for any other message. -/
def cutKillID (payload : Bytes) (kill : Bool) (d : Dimension) : Bytes :=
  (cutPrefix (d.name ++ lit ":" ++ action kill ++ lit ":") payload).getD []

/-- The first dimension and verb whose message this is. -/
def parseBlock (payload : Bytes) : List Dimension → Option (Bool × Dimension × Bytes)
  | [] => none
  | d :: rest =>
    if cutKillID payload true d ≠ [] then some (true, d, cutKillID payload true d)
    else if cutKillID payload false d ≠ [] then some (false, d, cutKillID payload false d)
    else parseBlock payload rest

/-- The cache update for one message: the switch, the kills it gained, and
whether a full refresh is called for. -/
def applyMessage : Redis × Finset Revocation × Bool :=
  if payload = lit "global:activate" then
    ({ r with globalActive := true }, if r.globalActive then ∅ else {globalEvent}, false)
  else if payload = lit "global:deactivate" then
    ({ r with globalActive := false }, ∅, false)
  else if payload = lit "reset" then (r.cleared, ∅, true)
  else
    match parseBlock payload killDimensions with
    | some (true, d, id) => (d.replace r (insert id (d.cache r)), if id ∈ d.cache r then ∅ else {d.event id}, false)
    | some (false, d, id) => (d.replace r ((d.cache r).erase id), ∅, false)
    -- an unknown message
    | none => (r, ∅, true)

def handlePubSubMessage : Redis × Finset Revocation :=
  let (r, gained, shouldRefresh) := r.applyMessage payload
  let r := { r with cacheGen := r.cacheGen + 1 }
  let r := if shouldRefresh then { r with refreshTrigger := r.refreshTrigger.map fun _ => true } else r
  (r, gained)

/-! ## The refresh -/

def recordRefreshErr (err : KillError) : Redis := { r with lastRefreshErr := some err }

/-- What a scan found, by dimension; a dimension it never reached is absent. -/
abbrev Scanned := Dimension → Option (Finset Bytes)

/-- Installs a snapshot and stamps the refresh healthy. -/
def commitRefreshLocked (global : Bool) (scanned : Scanned) (now : ℤ) :
    Redis × Finset Revocation :=
  let gainedGlobal : Finset Revocation := if global ∧ !r.globalActive then {globalEvent} else ∅
  let gained := killDimensions.foldl (fun acc d =>
    acc ∪ (((scanned d).getD ∅).filter (· ∉ d.cache r)).image d.event) gainedGlobal
  let r := killDimensions.foldl (fun r d =>
    match scanned d with
    | some found => d.replace r found
    | none => r) { r with globalActive := global }
  ({ r with lastRefreshErr := none, lastRefreshOK := now }, gained)

/-- The snapshot with what the cache holds added to each dimension. -/
def unionCache (scanned : Scanned) : Scanned := fun d => (scanned d).map (· ∪ d.cache r)

def maxRefreshAttempts : ℕ := 4

/-! ## The life cycle -/

/-- `Start` up to its initial refresh. -/
def startEnter (answer : Option Bool) : Redis :=
  if r.startedOnce || r.stopped then r
  else
    let r := if r.wiringErr = none then r.probeServerTopology answer else r
    match r.wiringFault with
    | some _ => r
    | none => { r with startedOnce := true, runCtx := some false, refreshTrigger := some false }

/-- `Stop`, or the caller's own context ending. -/
def canceled : Redis := { r with runCtx := r.runCtx.map fun _ => true }

def stop : Redis := { r.canceled with stopped := true }

end

end Redis

section Frames
variable (r : Redis) (ids : Finset Bytes) (global : Bool) (scanned : Redis.Scanned) (now : ℤ) (payload : Bytes)
  (d : Dimension)

@[simp] theorem Dimension.cache_replace_self : d.cache (d.replace r ids) = ids := by
  cases d <;> rfl

theorem Dimension.cache_replace_other {d e : Dimension} (apart : e ≠ d) : e.cache (d.replace r ids) = e.cache r := by
  cases d <;> cases e <;> first | rfl | exact absurd rfl apart

/-- Everything but the cache. -/
def Redis.core : Redis :=
  { r with
    globalActive := false, killedAgents := ∅, killedSessions := ∅, revokedJTIs := ∅
    cacheGen := 0, refreshTrigger := none }

@[simp] theorem Dimension.replace_frame : (d.replace r ids).core = r.core ∧
    (d.replace r ids).cacheGen = r.cacheGen ∧ (d.replace r ids).globalActive = r.globalActive := by
  cases d <;> exact ⟨rfl, rfl, rfl⟩

@[simp] theorem Redis.cleared_frame : r.cleared.core = r.core ∧ r.cleared.cacheGen = r.cacheGen := ⟨rfl, rfl⟩

theorem Redis.setBlockCache_core (kill : Bool) (d : Dimension) (id : Bytes) :
    (r.setBlockCache kill d id).1.core = r.core := by
  cases d <;> rfl

/-- A kill or a revive moves its own id only. -/
theorem Redis.mem_setBlockCache (kill : Bool) (d e : Dimension) (id x : Bytes) :
    x ∈ e.cache (r.setBlockCache kill d id).1 ↔
      if e = d ∧ x = id then kill = true else x ∈ e.cache r := by
  have same : e.cache (r.setBlockCache kill d id).1 =
      e.cache (d.replace r (if kill then insert id (d.cache r) else (d.cache r).erase id)) := by
    cases e <;> rfl
  rw [same]
  by_cases here : e = d
  · subst here
    cases kill <;> by_cases is : x = id <;> simp [is]
  · rw [Dimension.cache_replace_other _ _ here]
    simp [here]

theorem Redis.applyMessage_core : (r.applyMessage payload).1.core = r.core ∧
    (r.applyMessage payload).1.cacheGen = r.cacheGen := by
  unfold Redis.applyMessage
  split
  · exact ⟨rfl, rfl⟩
  split
  · exact ⟨rfl, rfl⟩
  split
  · exact ⟨rfl, rfl⟩
  split
  · simp
  · simp
  · exact ⟨rfl, rfl⟩

theorem Redis.handlePubSubMessage_core : (r.handlePubSubMessage payload).1.core = r.core ∧
    (r.handlePubSubMessage payload).1.cacheGen = r.cacheGen + 1 := by
  obtain ⟨core, gen⟩ := r.applyMessage_core payload
  unfold Redis.handlePubSubMessage
  constructor
  · rw [← core]
    dsimp only
    split <;> rfl
  · rw [← gen]
    dsimp only
    split <;> rfl

/-- A message moves a cached id only by a verb of its own, or by clearing all. -/
theorem Redis.mem_handlePubSubMessage (x : Bytes) :
    x ∈ d.cache (r.handlePubSubMessage payload).1 ↔ if payload = lit "reset" then False
      else if parseBlock payload killDimensions = some (true, d, x) then True
      else if parseBlock payload killDimensions = some (false, d, x) then False
      else x ∈ d.cache r := by
  have same : d.cache (r.handlePubSubMessage payload).1 = d.cache (r.applyMessage payload).1 := by
    unfold Redis.handlePubSubMessage
    dsimp only
    split <;> cases d <;> rfl
  rw [same]
  unfold Redis.applyMessage
  by_cases activate : payload = lit "global:activate"
  · subst activate
    have neither : parseBlock (lit "global:activate") killDimensions = none := by decide
    simp only [neither]
    cases d <;> simp [Dimension.cache, show lit "global:activate" ≠ lit "reset" by decide]
  · by_cases deactivate : payload = lit "global:deactivate"
    · subst deactivate
      have neither : parseBlock (lit "global:deactivate") killDimensions = none := by decide
      simp only [if_neg activate, neither]
      cases d <;> simp [Dimension.cache, show lit "global:deactivate" ≠ lit "reset" by decide]
    · by_cases reset : payload = lit "reset"
      · simp only [if_neg activate, if_neg deactivate, if_pos reset]
        cases d <;> simp [Dimension.cache, Redis.cleared, killDimensions, Dimension.replace]
      · simp only [if_neg activate, if_neg deactivate, if_neg reset]
        cases parsed : parseBlock payload killDimensions with
        | none => simp
        | some block =>
          obtain ⟨kill, e, id⟩ := block
          by_cases here : d = e
          · subst here
            cases kill <;> by_cases is : x = id <;> simp [is, eq_comm]
          · cases kill <;> simp [Dimension.cache_replace_other _ _ here, Ne.symm here]

/-- The cache a commit installs. -/
theorem Redis.cache_commitRefreshLocked :
    d.cache (r.commitRefreshLocked global scanned now).1 = (scanned d).getD (d.cache r) := by
  cases agents : scanned .agent <;> cases sessions : scanned .session <;>
    cases tokens : scanned .jti <;> cases d <;>
    simp [Redis.commitRefreshLocked, killDimensions, agents, sessions, tokens, Dimension.replace, Dimension.cache]

theorem Redis.commitRefreshLocked_core : (r.commitRefreshLocked global scanned now).1.core =
      { r.core with lastRefreshErr := none, lastRefreshOK := now } := by
  cases agents : scanned .agent <;> cases sessions : scanned .session <;>
    cases tokens : scanned .jti <;>
    simp [Redis.commitRefreshLocked, killDimensions, agents, sessions, tokens, Dimension.replace, Redis.core]

end Frames

/-- A started switch without a fault blocks what it holds a kill for. -/
theorem Redis.shouldBlock_killed (sound : r.wiringFault = none)
    (started : r.started = true) {d : Dimension} (named : d.subject subj ≠ [])
    (killed : d.subject subj ∈ d.cache r) (now : ℤ) : r.shouldBlock now subj = (true, none) := by
  have hit : r.anyKilled subj = true := List.any_eq_true.mpr ⟨d, mem_killDimensions d, by simp [named, killed]⟩
  simp only [Redis.shouldBlock, started, hit]
  split_ifs <;> simp_all

end Eunox.KillSwitch
