import Mathlib.Data.List.AList
import Mathlib.Data.Finset.Card
import Eunox.KillSwitch

/-! The sessions of the HTTP proxy, from the capture of the reap generation to the
cleanup tail. Every critical section of the proxy's lock, every load or store of an
atomic, and every call of `close` is one event, so that any interleaving of the
proxy's goroutines is a list of events. A session's identity is the position it
was built at; its id may be another's. -/
namespace Eunox.SessionLifecycle
open ByteString (Bytes)
open KillSwitch (Subject Dimension)

/-! Kills. -/

inductive Kill where
  | global
  | named (d : Dimension) (id : Bytes)
  deriving DecidableEq

def Kill.names (subj : Subject) : Kill → Bool
  | .global => true
  | .named d id => !id.isEmpty && d.subject subj == id

/-- The claims a session was established with, as far as a kill reads them. -/
structure Claims where
  agentID : Bytes
  tokenID : Bytes
  deriving DecidableEq

/-! Sessions. -/

inductive RegisterError where
  | shuttingDown
  | racedReap
  | sessionLimit
  | sessionExists
  deriving DecidableEq

/-- Why an establishment came to nothing. -/
inductive Failure where
  /-- No slot was left. -/
  | limit
  /-- The upstream did not start. -/
  | start
  | refused (err : RegisterError)
  | drift
  deriving DecidableEq

/-- Where the goroutine that establishes a session stands. -/
inductive Stage where
  /-- The reap generation is read. -/
  | captured
  /-- The slot is reserved. -/
  | reserved
  | started
  /-- The session is published; its drift check is under way. -/
  | registered
  /-- The drift check failed: the session is to be closed, -/
  | drifted
  /-- and taken out of the registry. -/
  | torn
  /-- `finishEstablishing` is next. -/
  | finishing
  /-- The session is no longer initializing; it looks itself up, -/
  | looking
  /-- asks the kill switch about itself, -/
  | asking
  /-- asks again, -/
  | reclaiming
  /-- and closes. -/
  | closing
  /-- The reservation is to be released. -/
  | releasing
  | over
  deriving DecidableEq

/-- A reservation is held from its taking to its release. -/
def Stage.holds : Stage → Bool
  | .captured | .over => false
  | _ => true

structure Session where
  id : Bytes
  claims : Option Claims
  liveTokenIDs : List Bytes := []
  startGen : ℕ
  stage : Stage := .captured
  initInProgress : Bool := false
  /-- The goroutines that read the upstream and clean up after it run. -/
  published : Bool := false
  /-- `close` was called. -/
  closed : Bool := false
  /-- The upstream is gone. -/
  done : Bool := false
  failure : Option Failure := none
  deriving DecidableEq

def maxLiveTokenIDs : ℕ := 8

/-- The oldest falls off at the bound. -/
def Session.noteLiveTokenID (sess : Session) (token : Bytes) : Session :=
  if token.isEmpty || sess.liveTokenIDs.contains token then sess
  else { sess with liveTokenIDs := sess.liveTokenIDs.drop (sess.liveTokenIDs.length + 1 - maxLiveTokenIDs) ++ [token] }

/-- Whom the kill switch is asked about: the session as it was established, and with each
other credential it was used with. -/
def Session.subjects (sess : Session) : List Subject :=
  let agentID := (sess.claims.map Claims.agentID).getD []
  let tokenID := sess.claims.map Claims.tokenID
  ⟨agentID, sess.id, tokenID.getD []⟩ ::
    (sess.liveTokenIDs.filter fun token => some token != tokenID).map fun token => ⟨agentID, sess.id, token⟩

/-! The proxy. -/

structure Proxy where
  objects : List Session
  sessions : AList fun _ : Bytes => ℕ
  /-- Slots reserved for sessions still being established. -/
  establishing : ℕ
  reapGen : ℕ
  shuttingDown : Bool
  kills : List Kill
  /-- What each sweep has still to look at. -/
  sweeps : List (List ℕ)
  /-- The killed sessions a sweep asks about again. -/
  reclaims : List ℕ
  /-- The sessions some goroutine is about to close. -/
  owed : List ℕ

def Proxy.empty : Proxy := ⟨[], ∅, 0, 0, false, [], [], [], []⟩

namespace Proxy

variable (p : Proxy)

/-- The session's goroutine, at this stage. -/
def onStage (s : ℕ) (stage : Stage) (next : Session → Proxy) : Proxy :=
  match p.objects[s]? with
  | some sess => if sess.stage = stage then next sess else p
  | none => p

def put (s : ℕ) (sess : Session) : Proxy := { p with objects := p.objects.set s sess }

def getSession (id : Bytes) : Option ℕ := p.sessions.lookup id

def snapshotSessions : List ℕ := p.sessions.entries.map Sigma.snd

/-- `faults` are the lookups that fail: a failed one is not a kill. The source looks up one subject after another;
here that is one step, so that no kill or revival falls between two lookups of one call. -/
def sessionKilled (sess : Session) (faults : List Subject) : Bool :=
  sess.subjects.any fun subj => !faults.contains subj && p.kills.any (Kill.names subj)

def unregisterSession (s : ℕ) (sess : Session) : Proxy :=
  if p.getSession sess.id = some s then { p with sessions := p.sessions.erase sess.id } else p

/-- The registry is emptied; everything that was in it is to be closed. -/
def drainAllSessions : Proxy := { p with sessions := ∅, owed := p.snapshotSessions ++ p.owed }

end Proxy

inductive Event where
  /-- A request that may create a session reads the generation. -/
  | capture (id : Bytes) (claims : Option Claims)
  | reserve (s : ℕ)
  | start (s : ℕ) (ok : Bool)
  | register (s : ℕ)
  | drift (s : ℕ) (ok : Bool)
  | driftClose (s : ℕ)
  | driftUnregister (s : ℕ)
  | finish (s : ℕ)
  | look (s : ℕ)
  | ask (s : ℕ) (faults : List Subject)
  | reclaim (s : ℕ) (faults : List Subject)
  | reclaimClose (s : ℕ)
  | release (s : ℕ)
  /-- A message on the session presents a credential. -/
  | present (s : ℕ) (token : Bytes)
  | kill (k : Kill)
  | revive (k : Kill)
  /-- `sweepKilledSessions` takes its snapshot, -/
  | sweep
  /-- looks at one session of it, -/
  | visit (w s : ℕ) (faults : List Subject)
  /-- and asks again before it closes. -/
  | recheck (s : ℕ) (faults : List Subject)
  /-- A session is deleted by its id, to be closed. -/
  | teardown (id : Bytes)
  | globalKill
  | shutdown
  /-- A close that was owed. -/
  | close (s : ℕ)
  | upstreamEnd (s : ℕ)
  | cleanup (s : ℕ)

/-- The lookups of the event that fail. -/
def Event.faults : Event → List Subject
  | .ask _ faults | .reclaim _ faults | .visit _ _ faults | .recheck _ faults => faults
  | _ => []

section Steps
variable (maxSessions : ℤ)

namespace Proxy

section
variable (p : Proxy)

def tryReserveSessionSlot : Option Proxy :=
  if maxSessions ≤ 0 then some p
  else if maxSessions ≤ p.sessions.entries.length + p.establishing then none
  else some { p with establishing := p.establishing + 1 }

def releaseSessionSlot : Proxy :=
  if maxSessions ≤ 0 then p else { p with establishing := p.establishing - 1 }

def registerSession (s : ℕ) (sess : Session) : Except RegisterError Proxy :=
  if p.shuttingDown then .error .shuttingDown
  else if p.reapGen ≠ sess.startGen then .error .racedReap
  else if 0 < maxSessions ∧ maxSessions ≤ p.sessions.entries.length then .error .sessionLimit
  else if (p.getSession sess.id).isSome then .error .sessionExists
  else .ok { p with sessions := p.sessions.insert sess.id s }

/-- The goroutine that establishes the session, step by step. -/
def establish : Event → Proxy
  | .reserve s => p.onStage s .captured fun sess =>
    match p.tryReserveSessionSlot maxSessions with
    | some p => p.put s { sess with stage := .reserved, initInProgress := true }
    | none => p.put s { sess with stage := .over, failure := some .limit }
  | .start s ok => p.onStage s .reserved fun sess => p.put s
    (if ok then { sess with stage := .started } else { sess with stage := .finishing, failure := some .start })
  | .register s => p.onStage s .started fun sess =>
    match p.registerSession maxSessions s sess with
    | .ok p => p.put s { sess with stage := .registered, published := true }
    | .error err => p.put s { sess with stage := .finishing, failure := some (.refused err) }
  | .drift s ok => p.onStage s .registered fun sess => p.put s
    { sess with stage := if ok then .finishing else .drifted }
  | .driftClose s => p.onStage s .drifted fun sess => p.put s { sess with stage := .torn, closed := true }
  | .driftUnregister s => p.onStage s .torn fun sess =>
    (p.unregisterSession s sess).put s { sess with stage := .finishing, failure := some .drift }
  | .finish s => p.onStage s .finishing fun sess => p.put s { sess with stage := .looking, initInProgress := false }
  | .look s => p.onStage s .looking fun sess => p.put s
    { sess with stage := if p.getSession sess.id = some s then .asking else .releasing }
  | .ask s faults => p.onStage s .asking fun sess => p.put s
    { sess with stage := if p.sessionKilled sess faults then .reclaiming else .releasing }
  | .reclaim s faults => p.onStage s .reclaiming fun sess => p.put s
    { sess with stage := if p.sessionKilled sess faults then .closing else .releasing }
  | .reclaimClose s => p.onStage s .closing fun sess => p.put s { sess with stage := .releasing, closed := true }
  | .release s => p.onStage s .releasing fun sess =>
    (p.releaseSessionSlot maxSessions).put s { sess with stage := .over }
  | _ => p

/-- One pass of a sweep over one session of its snapshot. -/
def visit (w s : ℕ) (faults : List Subject) : Proxy :=
  match p.sweeps[w]?, p.objects[s]? with
  | some pending, some sess =>
    if s ∈ pending then
      { p with
        sweeps := p.sweeps.set w (pending.erase s)
        reclaims := if sess.initInProgress || !p.sessionKilled sess faults then p.reclaims else s :: p.reclaims }
    else p
  | _, _ => p

/-- `reclaimKilledSession`, up to its close. -/
def recheck (s : ℕ) (faults : List Subject) : Proxy :=
  match p.objects[s]? with
  | some sess =>
    if s ∈ p.reclaims then
      { p with
        reclaims := p.reclaims.erase s
        owed := if p.sessionKilled sess faults then s :: p.owed else p.owed }
    else p
  | none => p

def teardownSessionByID (id : Bytes) : Proxy :=
  match p.getSession id with
  | some s => { p with sessions := p.sessions.erase id, owed := s :: p.owed }
  | none => p

/-- The session of another goroutine than its own. -/
def update (s : ℕ) (f : Session → Session) : Proxy :=
  match p.objects[s]? with
  | some sess => p.put s (f sess)
  | none => p

def closeOwed (s : ℕ) : Proxy :=
  match p.objects[s]? with
  | some sess => if s ∈ p.owed then { p with owed := p.owed.erase s }.put s { sess with closed := true } else p
  | none => p

/-- The end of a cleanup goroutine, once the upstream is gone. -/
def finishSessionCleanup (s : ℕ) : Proxy :=
  match p.objects[s]? with
  | some sess => if sess.done then p.unregisterSession s sess else p
  | none => p

def step : Event → Proxy
  | .capture id claims => { p with objects := p.objects ++ [{ id := id, claims := claims, startGen := p.reapGen }] }
  | .present s token => p.update s fun sess => sess.noteLiveTokenID token
  | .kill k => { p with kills := k :: p.kills }
  | .revive k => { p with kills := p.kills.filter (· ≠ k) }
  | .sweep => { p with sweeps := p.sweeps ++ [p.snapshotSessions] }
  | .visit w s faults => p.visit w s faults
  | .recheck s faults => p.recheck s faults
  | .teardown id => p.teardownSessionByID id
  | .globalKill => { p.drainAllSessions with reapGen := p.reapGen + 1 }
  | .shutdown => { p.drainAllSessions with shuttingDown := true }
  | .close s => p.closeOwed s
  | .upstreamEnd s => p.update s fun sess => if sess.published then { sess with done := true } else sess
  | .cleanup s => p.finishSessionCleanup s
  | e => p.establish maxSessions e

def run (es : List Event) : Proxy := es.foldl (step maxSessions) p

end

end Proxy
end Steps

/-! What unregistering and releasing leave alone. -/

section Frames
variable (maxSessions : ℤ) (p : Proxy) (s : ℕ) (sess : Session)

theorem unregisterSession_eq :
    p.unregisterSession s sess = { p with sessions := (p.unregisterSession s sess).sessions } := by
  unfold Proxy.unregisterSession
  split <;> rfl

theorem releaseSessionSlot_eq :
    p.releaseSessionSlot maxSessions = { p with establishing := (p.releaseSessionSlot maxSessions).establishing } := by
  unfold Proxy.releaseSessionSlot
  split <;> rfl

end Frames

/-! What is counted. -/

namespace Proxy

/-- The registry holds this session, not another of its id. -/
def Registered (p : Proxy) (s : ℕ) : Prop := ∃ sess, p.objects[s]? = some sess ∧ p.getSession sess.id = some s

instance (p : Proxy) (s : ℕ) : Decidable (p.Registered s) :=
  match found : p.objects[s]? with
  | some sess => decidable_of_iff (p.getSession sess.id = some s) (by simp [Registered, found])
  | none => isFalse (by simp [Registered, found])

/-- The sessions still being established. -/
def held (p : Proxy) : Finset ℕ :=
  (Finset.range p.objects.length).filter fun s => (p.objects[s]?.map (·.stage.holds)).getD false

/-- The sessions that are registered or still being established. -/
def live (p : Proxy) : Finset ℕ := (Finset.range p.objects.length).filter fun s => p.Registered s ∨ s ∈ p.held

end Proxy
end Eunox.SessionLifecycle
