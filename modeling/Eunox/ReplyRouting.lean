import Eunox.IndexedList
import Eunox.MessageId
import Eunox.RpcParams

/-! Replies of an upstream on their way to the calls that wait for them. A call
goes out under a nonce of the proxy's own, and what comes back is routed by that
nonce. Every critical section of the router's mutex and every channel operation
is a step of its own; the upstream sends what it likes. -/
namespace Eunox.ReplyRouting
open ByteString JsonText IndexedList

/-! Nonces. -/

/-- The id of a number, as a JSON value. The number is the `uint64` of the router,
which is never asked for so many that it wraps. -/
def upstreamNonce (seq : ℕ) : Text := .string (quote (lit "eunox-up-" ++ decimal seq))

/-- `upstreamNonceID`: the id on the wire. -/
def upstreamNonceID (seq : ℕ) : Bytes := (upstreamNonce seq).print

def nonceKey (seq : ℕ) : Bytes := msgKey (some (upstreamNonceID seq))

theorem nonceKey_eq (seq : ℕ) : nonceKey seq = lit "s:" ++ (lit "eunox-up-" ++ decimal seq) := by
  refine msgKey_plain fun byte mem => ?_
  rcases List.mem_append.mp mem with front | digit
  · have all : ∀ byte ∈ lit "eunox-up-", byte < 0x80 ∧ htmlSafe byte = true := by decide +kernel
    exact all byte front
  · have bounds := decimal_digits digit
    exact forall_bytes (p := fun byte => 48 ≤ byte.toNat ∧ byte.toNat ≤ 57 → byte < 0x80 ∧ htmlSafe byte = true)
      (by decide +kernel) byte bounds

/-- No two numbers share a key. -/
theorem nonceKey_injective : Function.Injective nonceKey := by
  intro m n same
  rw [nonceKey_eq, nonceKey_eq] at same
  exact decimal_injective (List.append_cancel_left (List.append_cancel_left same))

theorem readText_upstreamNonceID (seq : ℕ) : readText (upstreamNonceID seq) = some (upstreamNonce seq, []) := by
  have legal : (upstreamNonce seq).WellFormed := quote_stringBody _
  have shallow : (upstreamNonce seq).depth ≤ maxNestingDepth := Nat.zero_le _
  have read : readText (upstreamNonceID seq ++ []) = some (upstreamNonce seq, []) :=
    readText_print legal shallow (by rintro literal ⟨⟩)
  rwa [List.append_nil] at read

/-! Calls. -/

inductive CallFault where
  | duplicateID
  | sendFailed
  | transport
  | notAResponse
  | contextDone
  | upstreamExited
  deriving DecidableEq, Repr

/-- `upstreamResult`: a message or a transport failure. A message carries which
arrival it was. -/
inductive UpstreamResult where
  | reply (arrival : ℕ) (msg : RpcMsg)
  | failure
  deriving DecidableEq, Repr

inductive Outcome where
  | reply (arrival : ℕ) (msg : RpcMsg)
  | fault (fault : CallFault)
  deriving DecidableEq, Repr

/-- Where a call of `awaitNonced` is: before its registration, registered but not
sent, waiting, past its wait, and returned. -/
inductive Stage where
  | entered
  | registered
  | waiting
  | ended
  | returned
  deriving DecidableEq, Repr

structure Call where
  hostID : Option Bytes
  stage : Stage := .entered
  /-- The number the registration minted. -/
  nonce : Option ℕ := none
  /-- The channel of one slot. -/
  channel : Option UpstreamResult := none
  outcome : Option Outcome := none
  deriving DecidableEq, Repr

section
variable (w : World) (i : ℕ) (c : Call)

def Call.hostKey : Bytes := msgKey c.hostID

/-- Its entries are in the routing maps. -/
def Call.inFlight : Bool := c.stage = .registered || c.stage = .waiting || c.stage = .ended

def Call.over : Bool := c.stage = .ended || c.stage = .returned

def isMalformedResponse (resp : RpcMsg) : Bool := resp.result.isNone == resp.error.isNone

/-- What `awaitNonced` makes of what it received. -/
def outcomeOf : UpstreamResult → Outcome
  | .failure => .fault .transport
  | .reply arrival msg =>
    if !msg.isResponse || isMalformedResponse msg then .fault .notAResponse else .reply arrival msg

/-- Where a message or failure is between the wire and a channel. -/
inductive Transit where
  /-- Read from the upstream. -/
  | arrived (arrival : ℕ) (msg : RpcMsg)
  /-- A request whose id was seen to be a live nonce. -/
  | live (arrival : ℕ) (msg : RpcMsg)
  /-- The channel of this call was looked up for it. -/
  | found (call : ℕ) (result : UpstreamResult)
  deriving DecidableEq, Repr

structure World where
  calls : List Call := []
  byUpstreamID : Bytes → Option ℕ := fun _ => none
  hostToUp : Bytes → Option Bytes := fun _ => none
  seq : ℕ := 0
  exited : Bool := false
  transit : List Transit := []
  /-- Every message read so far, with the calls that were over by then. -/
  arrivals : List (RpcMsg × List ℕ) := []

/-- The calls that are over. -/
def World.over (w : World) : List ℕ :=
  (List.range w.calls.length).filter fun i => (w.calls[i]?.map Call.over).getD false

def World.setCall : World := { w with calls := w.calls.set i c }

/-- The registration's critical section. -/
def World.register : World :=
  { w with
    calls := w.calls.set i { c with stage := .registered, nonce := some (w.seq + 1) }
    seq := w.seq + 1
    byUpstreamID := Function.update w.byUpstreamID (nonceKey (w.seq + 1)) (some i)
    hostToUp := Function.update w.hostToUp c.hostKey (some (upstreamNonceID (w.seq + 1))) }

/-- The deferred removal. -/
def World.remove (n : ℕ) : World :=
  { w with
    calls := w.calls.set i { c with stage := .returned }
    byUpstreamID := Function.update w.byUpstreamID (nonceKey n) none
    hostToUp := Function.update w.hostToUp c.hostKey none }

/-- A message is read off the wire. -/
def World.arrive (msg : RpcMsg) : World :=
  { w with
    transit := w.transit ++ [.arrived w.arrivals.length msg]
    arrivals := w.arrivals ++ [(msg, w.over)] }

/-- The lookup of `sendUpstreamResult`. -/
def World.lookup (key : Bytes) (result : UpstreamResult) : List Transit :=
  ((w.byUpstreamID key).map fun i => Transit.found i result).toList

end

variable (w : World) in
inductive Step : World → Prop where
  | enter (hostID : Option Bytes) : Step { w with calls := w.calls ++ [⟨hostID, .entered, none, none, none⟩] }
  | refuse (i : ℕ) (c : Call) (here : w.calls[i]? = some c) (entered : c.stage = .entered)
      (pending : w.hostToUp c.hostKey ≠ none) :
      Step (w.setCall i { c with stage := .returned, outcome := some (.fault .duplicateID) })
  | register (i : ℕ) (c : Call) (here : w.calls[i]? = some c) (entered : c.stage = .entered)
      (free : w.hostToUp c.hostKey = none) : Step (w.register i c)
  | send (i : ℕ) (c : Call) (here : w.calls[i]? = some c) (registered : c.stage = .registered) :
      Step (w.setCall i { c with stage := .waiting })
  | sendFails (i : ℕ) (c : Call) (here : w.calls[i]? = some c) (registered : c.stage = .registered) :
      Step (w.setCall i { c with stage := .ended, outcome := some (.fault .sendFailed) })
  | receive (i : ℕ) (c : Call) (result : UpstreamResult) (here : w.calls[i]? = some c)
      (waiting : c.stage = .waiting) (ready : c.channel = some result) :
      Step (w.setCall i { c with stage := .ended, channel := none, outcome := some (outcomeOf result) })
  | giveUp (i : ℕ) (c : Call) (here : w.calls[i]? = some c) (waiting : c.stage = .waiting) :
      Step (w.setCall i { c with stage := .ended, outcome := some (.fault .contextDone) })
  | exit : Step { w with exited := true }
  | seeExit (i : ℕ) (c : Call) (here : w.calls[i]? = some c) (waiting : c.stage = .waiting)
      (exited : w.exited = true) :
      Step (w.setCall i { c with stage := .ended, outcome := some (.fault .upstreamExited) })
  | remove (i : ℕ) (c : Call) (n : ℕ) (here : w.calls[i]? = some c) (ended : c.stage = .ended)
      (minted : c.nonce = some n) : Step (w.remove i c n)
  | arrive (msg : RpcMsg) : Step (w.arrive msg)
  /-- A notification, a request no call waits for, or a message of neither kind is
  no business of the router. -/
  | pass (transit : w.transit = before ++ .arrived a msg :: after)
      (foreign : msg.isResponse = false ∧
        (msg.isRequest = true → w.byUpstreamID (msgKey msg.id) = none)) : Step { w with transit := before ++ after }
  | seeLive (transit : w.transit = before ++ .arrived a msg :: after)
      (request : msg.isRequest = true) (live : w.byUpstreamID (msgKey msg.id) ≠ none) :
      Step { w with transit := before ++ .live a msg :: after }
  | look (transit : w.transit = before ++ .arrived a msg :: after) (response : msg.isResponse = true) :
      Step { w with transit := before ++ (w.lookup (msgKey msg.id) (.reply a msg) ++ after) }
  | lookLive (transit : w.transit = before ++ .live a msg :: after) :
      Step { w with transit := before ++ (w.lookup (msgKey msg.id) (.reply a msg) ++ after) }
  /-- A transport failure reported for whatever key. -/
  | fail (key : Bytes) : Step { w with transit := w.transit ++ w.lookup key .failure }
  | deliver (transit : w.transit = before ++ .found i result :: after) (here : w.calls[i]? = some c)
      (free : c.channel = none) :
      Step { w with transit := before ++ after, calls := w.calls.set i { c with channel := some result } }
  /-- A full channel drops what is sent. -/
  | drop (transit : w.transit = before ++ .found i result :: after) (here : w.calls[i]? = some c)
      (full : c.channel ≠ none) : Step { w with transit := before ++ after }

inductive Reachable : World → Prop where
  | start : Reachable {}
  | step {w w' : World} (run : Reachable w) (step : Step w w') : Reachable w'

/-! Cancels. -/

def methodNotificationsCancelled : Bytes := lit "notifications/cancelled"

/-- The assignment to a key that is there. -/
def setField (fields : List (Bytes × Text)) (key : Bytes) (value : Text) : List (Bytes × Text) :=
  fields.map fun field => if field.1 = key then (key, value) else field

/-- `rewriteCancelToNonce`; nothing where the cancel is dropped. -/
def rewriteCancelToNonce (fold : Bytes → Bytes) (hostToUp : Bytes → Option Bytes) (msg : RpcMsg) :
    Option RpcMsg :=
  if msg.method ≠ methodNotificationsCancelled || msg.params.isEmpty then none
  else
    match decodeFields fold msg.params with
    | none => none
    | some fields =>
      match fields.lookup (lit "requestId") with
      | none => none
      | some requestID =>
        match hostToUp (msgKey (some requestID.print)) with
        | none => none
        | some upID =>
          -- A raw value that is not JSON would fail to marshal.
          (readText upID).map fun value =>
            { msg with params := marshalFields (setField fields (lit "requestId") value.1) }

/-! What holds of every world. A message bound to a call names the nonce of that
call, wherever it is on its way; the maps hold the calls in flight and no others. -/

section Tables
variable (seq : ℕ) (byUpstreamID : Bytes → Option ℕ) (hostToUp : Bytes → Option Bytes) (calls : List Call)
variable (arrivals : List (RpcMsg × List ℕ))

/-- The message arrived and names the nonce of the call. -/
def Bound (c : Call) (a : ℕ) (msg : RpcMsg) : Prop :=
  (∃ n, c.nonce = some n ∧ msgKey msg.id = nonceKey n) ∧ ∃ gone, arrivals[a]? = some (msg, gone)

structure CallOk (i : ℕ) (c : Call) : Prop where
  minted : ∀ n, c.nonce = some n → n ≤ seq
  fresh : c.stage = .entered → c.nonce = none
  routed : c.inFlight = true → ∃ n, c.nonce = some n ∧ byUpstreamID (nonceKey n) = some i ∧
    hostToUp c.hostKey = some (upstreamNonceID n)
  held : ∀ a msg, c.channel = some (.reply a msg) → Bound arrivals c a msg
  given : ∀ a msg, c.outcome = some (.reply a msg) → Bound arrivals c a msg ∧
    msg.isResponse = true ∧ isMalformedResponse msg = false ∧
    ∀ gone, arrivals[a]? = some (msg, gone) → i ∉ gone

/-- Every route leads to a call in flight. -/
def RoutesOk : Prop := ∀ key i, byUpstreamID key = some i →
  ∃ (c : Call) (n : ℕ), calls[i]? = some c ∧ c.inFlight = true ∧ c.nonce = some n ∧ key = nonceKey n

def HostsOk : Prop := ∀ key up, hostToUp key = some up → ∃ (i : ℕ) (c : Call) (n : ℕ),
  calls[i]? = some c ∧ c.inFlight = true ∧ c.hostKey = key ∧ c.nonce = some n ∧ up = upstreamNonceID n

end Tables

/-- What is on its way arrived, and what was looked up is bound to the call found. -/
def TransitOk (w : World) : Transit → Prop
  | .arrived a msg => ∃ gone, w.arrivals[a]? = some (msg, gone)
  | .live a msg => ∃ gone, w.arrivals[a]? = some (msg, gone)
  | .found i (.reply a msg) => ∃ c : Call, w.calls[i]? = some c ∧ Bound w.arrivals c a msg
  | .found _ .failure => True

structure Sound (w : World) : Prop where
  call : ∀ (i : ℕ) (c : Call), w.calls[i]? = some c → CallOk w.seq w.byUpstreamID w.hostToUp w.arrivals i c
  routes : RoutesOk w.byUpstreamID w.calls
  hosts : HostsOk w.hostToUp w.calls
  apart : ∀ (i j : ℕ) (c d : Call) (n : ℕ), w.calls[i]? = some c → w.calls[j]? = some d → c.nonce = some n →
    d.nonce = some n → i = j
  moving : ∀ t ∈ w.transit, TransitOk w t
  overs : ∀ (a : ℕ) (msg : RpcMsg) (gone : List ℕ), w.arrivals[a]? = some (msg, gone) → ∀ i ∈ gone,
    ∃ c : Call, w.calls[i]? = some c ∧ c.over = true

theorem Sound.start : Sound {} := by
  constructor <;> simp [RoutesOk, HostsOk]

/-- A call in flight has a nonce, and the map of host ids leads to it. -/
theorem Sound.host_unique (sound : Sound w) {i j : ℕ} {c d : Call}
    (first : w.calls[i]? = some c) (second : w.calls[j]? = some d) (flies : c.inFlight = true)
    (flies' : d.inFlight = true) (same : c.hostKey = d.hostKey) : i = j := by
  obtain ⟨m, minted, -, host⟩ := (sound.call i c first).routed flies
  obtain ⟨n, minted', -, host'⟩ := (sound.call j d second).routed flies'
  rw [same, host'] at host
  have equal := nonceKey_injective (congrArg (fun id => msgKey (some id)) (Option.some.inj host))
  exact sound.apart i j c d m first second minted (equal ▸ minted')

/-- What is on its way is in order as long as what arrived is kept and calls keep their nonces. -/
theorem TransitOk.mono (fine : TransitOk w t)
    (arrivals : ∀ {a : ℕ} {entry}, w.arrivals[a]? = some entry → w'.arrivals[a]? = some entry)
    (calls : ∀ {i : ℕ} {c : Call}, w.calls[i]? = some c →
      ∃ c' : Call, w'.calls[i]? = some c' ∧ ∀ n, c.nonce = some n → c'.nonce = some n) : TransitOk w' t := by
  rcases t with _ | _ | ⟨i, _ | _⟩
  · exact fine.imp fun _ => arrivals
  · exact fine.imp fun _ => arrivals
  · obtain ⟨c, old, ⟨n, minted, key⟩, gone, arrived⟩ := fine
    obtain ⟨c', new, nonce⟩ := calls old
    exact ⟨c', new, ⟨n, nonce n minted, key⟩, gone, arrivals arrived⟩
  · trivial

section Exchange
variable {w : World} (sound : Sound w) {i : ℕ} {c c' : Call} (here : w.calls[i]? = some c)
include sound here

/-- One call is exchanged for one with the same nonce that is over if it was. What
was said of the traffic and of the calls that are over stays. -/
theorem Sound.exchange
    (nonce : ∀ n, c.nonce = some n → c'.nonce = some n) (gone : c.over = true → c'.over = true)
    (hcall : ∀ (j : ℕ) (d : Call), (w.calls.set i c')[j]? = some d → CallOk seq table index w.arrivals j d)
    (hroutes : RoutesOk table (w.calls.set i c')) (hhosts : HostsOk index (w.calls.set i c'))
    (hapart : ∀ j d n, j ≠ i → w.calls[j]? = some d → d.nonce = some n → c'.nonce ≠ some n) :
    Sound { w with calls := w.calls.set i c', seq := seq, byUpstreamID := table, hostToUp := index } := by
  refine ⟨hcall, hroutes, hhosts, fun j k d e n first second minted minted' => ?_, fun t mem => ?_,
    fun a msg ended arrived j mem => ?_⟩
  · rcases set_cases first with ⟨rfl, rfl⟩ | ⟨other, old⟩
    · rcases set_cases second with ⟨rfl, rfl⟩ | ⟨other', old'⟩
      · rfl
      · exact absurd minted (hapart k e n other' old' minted')
    · rcases set_cases second with ⟨rfl, rfl⟩ | ⟨other', old'⟩
      · exact absurd minted' (hapart j d n other old minted)
      · exact sound.apart j k d e n old old' minted minted'
  · refine (sound.moving t mem).mono id fun old => ?_
    rcases exchanged (a := c') here old with ⟨-, rfl, new⟩ | ⟨-, new⟩
    · exact ⟨c', new, nonce⟩
    · exact ⟨_, new, fun _ => id⟩
  · obtain ⟨d, old, ended'⟩ := sound.overs a msg ended arrived j mem
    rcases exchanged (a := c') here old with ⟨-, rfl, new⟩ | ⟨-, new⟩
    · exact ⟨c', new, gone ended'⟩
    · exact ⟨d, new, ended'⟩

/-- One call moves on and keeps its nonce, with the maps as they were. -/
theorem Sound.move (host : c'.hostID = c.hostID) (nonce : c'.nonce = c.nonce)
    (flight : c'.inFlight = c.inFlight) (gone : c.over = true → c'.over = true)
    (ok : CallOk w.seq w.byUpstreamID w.hostToUp w.arrivals i c') : Sound (w.setCall i c') := by
  refine sound.exchange here (fun n minted => nonce.trans minted) gone (fun j d found => ?_)
    (fun key j route => ?_) (fun key up entry => ?_) (fun j d n other old minted minted' => ?_)
  · rcases set_cases found with ⟨rfl, rfl⟩ | ⟨-, old⟩
    · exact ok
    · exact sound.call j d old
  · obtain ⟨d, n, old, flies, minted, rfl⟩ := sound.routes key j route
    rcases exchanged (a := c') here old with ⟨-, rfl, new⟩ | ⟨-, new⟩
    · exact ⟨c', n, new, flight.trans flies, nonce.trans minted, rfl⟩
    · exact ⟨d, n, new, flies, minted, rfl⟩
  · obtain ⟨j, d, n, old, flies, rfl, minted, rfl⟩ := sound.hosts key up entry
    rcases exchanged (a := c') here old with ⟨-, rfl, new⟩ | ⟨-, new⟩
    · exact ⟨j, c', n, new, flight.trans flies, congrArg msgKey host, nonce.trans minted, rfl⟩
    · exact ⟨j, d, n, new, flies, rfl, minted, rfl⟩
  · exact other (sound.apart j i d c n old here minted (nonce ▸ minted'))

theorem Sound.register (entered : c.stage = .entered) (free : w.hostToUp c.hostKey = none) :
    Sound (w.register i c) := by
  have ok := sound.call i c here
  have unminted := ok.fresh entered
  have lands : c.inFlight = false := by simp [Call.inFlight, entered]
  -- Every number in use is an older one.
  have older : ∀ {j : ℕ} {d : Call} {n : ℕ}, w.calls[j]? = some d → d.nonce = some n → n ≠ w.seq + 1 := by
    intro j d n old minted
    have := (sound.call j d old).minted n minted
    omega
  refine sound.exchange here (fun n minted => ?_) (fun gone => ?_) (fun j d found => ?_)
    (fun key j route => ?_) (fun key up entry => ?_) (fun j d n other old minted minted' => ?_)
  · rw [unminted] at minted
    cases minted
  · simp [Call.over, entered] at gone
  · rcases set_cases found with ⟨rfl, rfl⟩ | ⟨other, old⟩
    · refine ⟨fun n minted => ?_, by simp, fun _ => ⟨w.seq + 1, rfl, by simp, by simp [Call.hostKey]⟩,
        fun a msg held => ?_, fun a msg given => ?_⟩
      · exact (Option.some.inj minted).ge
      · obtain ⟨⟨n, minted, -⟩, -⟩ := ok.held a msg held
        rw [unminted] at minted
        cases minted
      · obtain ⟨⟨⟨n, minted, -⟩, -⟩, -⟩ := ok.given a msg given
        rw [unminted] at minted
        cases minted
    · have ok' := sound.call j d old
      refine ⟨fun n minted => Nat.le_succ_of_le (ok'.minted n minted), ok'.fresh, fun flies => ?_,
        ok'.held, ok'.given⟩
      obtain ⟨n, minted, route, host⟩ := ok'.routed flies
      refine ⟨n, minted, ?_, ?_⟩
      · rwa [Function.update_of_ne fun same => older old minted (nonceKey_injective same)]
      · rwa [Function.update_of_ne]
        rintro same
        rw [same, free] at host
        cases host
  · by_cases new : key = nonceKey (w.seq + 1)
    · subst new
      obtain rfl : i = j := by simpa using route
      exact ⟨_, w.seq + 1, set_self here, by simp [Call.inFlight], rfl, rfl⟩
    · rw [Function.update_of_ne new] at route
      obtain ⟨d, n, old, flies, rest⟩ := sound.routes key j route
      exact ⟨d, n, set_other here old (by rintro rfl; simp [lands] at flies), flies, rest⟩
  · by_cases new : key = c.hostKey
    · subst new
      obtain rfl : upstreamNonceID (w.seq + 1) = up := by simpa using entry
      exact ⟨i, _, w.seq + 1, set_self here, by simp [Call.inFlight], rfl, rfl, rfl⟩
    · rw [Function.update_of_ne new] at entry
      obtain ⟨j, d, n, old, flies, rest⟩ := sound.hosts key up entry
      exact ⟨j, d, n, set_other here old (by rintro rfl; simp [lands] at flies), flies, rest⟩
  · exact older old minted (Option.some.inj minted').symm

theorem Sound.remove {n : ℕ} (ended : c.stage = .ended) (minted : c.nonce = some n) : Sound (w.remove i c n) := by
  have flies : c.inFlight = true := by simp [Call.inFlight, ended]
  have ok := sound.call i c here
  refine sound.exchange here (fun _ => id) (fun _ => by simp [Call.over]) (fun j d found => ?_)
    (fun key j route => ?_) (fun key up entry => ?_) (fun j d m other old minted' same => ?_)
  · rcases set_cases found with ⟨rfl, rfl⟩ | ⟨other, old⟩
    · exact ⟨ok.minted, by simp, by simp [Call.inFlight], ok.held, ok.given⟩
    have ok' := sound.call j d old
    refine ⟨ok'.minted, ok'.fresh, fun flies' => ?_, ok'.held, ok'.given⟩
    obtain ⟨m, minted', route, host⟩ := ok'.routed flies'
    refine ⟨m, minted', ?_, ?_⟩
    · rw [Function.update_of_ne, route]
      intro same
      obtain rfl := nonceKey_injective same
      exact other (sound.apart j i d c m old here minted' minted)
    · rw [Function.update_of_ne, host]
      exact fun same => other (sound.host_unique old here flies' flies same)
  · by_cases gone : key = nonceKey n
    · simp [gone] at route
    rw [Function.update_of_ne gone] at route
    obtain ⟨d, m, old, flies', minted', rfl⟩ := sound.routes key j route
    refine ⟨d, m, set_other here old ?_, flies', minted', rfl⟩
    rintro rfl
    exact gone (congrArg nonceKey (Option.mem_unique minted' minted))
  · by_cases gone : key = c.hostKey
    · simp [gone] at entry
    · rw [Function.update_of_ne gone] at entry
      obtain ⟨j, d, m, old, flies', rfl, rest⟩ := sound.hosts key up entry
      exact ⟨j, d, m, set_other here old fun same => gone (congrArg Call.hostKey same), flies', rfl, rest⟩
  · exact other (sound.apart j i d c m old here minted' same)

end Exchange

section Steps
variable {w : World} (sound : Sound w)
include sound

/-- Only what is on its way changes. -/
theorem Sound.carry (moving : ∀ t ∈ transit, TransitOk w t) : Sound { w with transit := transit } where
  call := sound.call
  routes := sound.routes
  hosts := sound.hosts
  apart := sound.apart
  moving t mem := (moving t mem).mono id fun old => ⟨_, old, fun _ => id⟩
  overs := sound.overs

/-- A lookup binds a message to the call whose nonce it names. -/
theorem Sound.lookup {a : ℕ} (arrived : ∃ gone, w.arrivals[a]? = some (msg, gone))
    (mem : t ∈ w.lookup (msgKey msg.id) (.reply a msg)) : TransitOk w t := by
  unfold World.lookup at mem
  cases route : w.byUpstreamID (msgKey msg.id) with
  | none => simp [route] at mem
  | some i =>
    obtain rfl : t = .found i (.reply a msg) := by simpa [route] using mem
    obtain ⟨c, n, found, -, minted, key⟩ := sound.routes _ i route
    exact ⟨c, found, ⟨n, minted, key⟩, arrived⟩

/-- The message at one place of the transit moves on. -/
theorem Sound.replace (moved : List Transit) (transit : w.transit = before ++ t :: after) (moving : ∀ t ∈ moved, TransitOk w t) :
    Sound { w with transit := before ++ (moved ++ after) } := by
  have all := sound.moving
  rw [transit, List.forall_mem_append, List.forall_mem_cons] at all
  exact sound.carry (List.forall_mem_append.mpr ⟨all.1, List.forall_mem_append.mpr ⟨moving, all.2.2⟩⟩)

theorem Sound.enter (hostID : Option Bytes) :
    Sound { w with calls := w.calls ++ [⟨hostID, .entered, none, none, none⟩] } := by
  refine ⟨fun j d found => ?_, fun key j route => ?_, fun key up entry => ?_,
    fun j k d e n first second minted minted' => ?_, fun t mem => ?_, fun a msg gone arrived j mem => ?_⟩
  · rcases append_cases found with ⟨-, old⟩ | ⟨-, rfl⟩
    · exact sound.call j d old
    · exact ⟨by simp, by simp, by simp [Call.inFlight], by simp, by simp⟩
  · obtain ⟨d, n, old, rest⟩ := sound.routes key j route
    exact ⟨d, n, append_old old, rest⟩
  · obtain ⟨j, d, n, old, rest⟩ := sound.hosts key up entry
    exact ⟨j, d, n, append_old old, rest⟩
  · rcases append_cases first with ⟨-, old⟩ | ⟨-, rfl⟩
    · rcases append_cases second with ⟨-, old'⟩ | ⟨-, rfl⟩
      · exact sound.apart j k d e n old old' minted minted'
      · simp at minted'
    · simp at minted
  · exact (sound.moving t mem).mono id fun old => ⟨_, append_old old, fun _ => id⟩
  · obtain ⟨d, old, gone'⟩ := sound.overs a msg gone arrived j mem
    exact ⟨d, append_old old, gone'⟩

theorem Sound.arrive (msg : RpcMsg) : Sound (w.arrive msg) := by
  have bound : ∀ {c : Call} {a : ℕ} {m : RpcMsg}, Bound w.arrivals c a m →
      Bound (w.arrivals ++ [(msg, w.over)]) c a m := by
    rintro c a m ⟨named, gone, arrived⟩
    exact ⟨named, gone, append_old arrived⟩
  refine ⟨fun j d found => ?_, sound.routes, sound.hosts, sound.apart, List.forall_mem_append.mpr ⟨fun t old => ?_,
    List.forall_mem_singleton.mpr ⟨w.over, by simp [World.arrive]⟩⟩, fun a m gone arrived j mem => ?_⟩
  · have ok := sound.call j d found
    refine ⟨ok.minted, ok.fresh, ok.routed, fun a m held => bound (ok.held a m held), fun a m given => ?_⟩
    obtain ⟨here, response, formed, later⟩ := ok.given a m given
    refine ⟨bound here, response, formed, fun gone arrived => ?_⟩
    obtain ⟨-, gone', arrived'⟩ := here
    obtain rfl : gone' = gone := by simpa using (append_old arrived').symm.trans arrived
    exact later gone' arrived'
  · exact (sound.moving t old).mono append_old fun here => ⟨_, here, fun _ => id⟩
  · rcases append_cases arrived with ⟨-, old⟩ | ⟨-, new⟩
    · exact sound.overs a m gone old j mem
    obtain rfl := (Prod.mk.inj new).2
    have ended := (List.mem_filter.mp mem).2
    cases here : w.calls[j]? with
    | none => simp [here] at ended
    | some c => exact ⟨c, here, by simpa [here] using ended⟩

/-- What came through the channel of a waiting call, made its outcome. -/
theorem CallOk.receive (here : w.calls[i]? = some c) (waiting : c.stage = .waiting) (ready : c.channel = some result) :
    CallOk w.seq w.byUpstreamID w.hostToUp w.arrivals i
      { c with stage := .ended, channel := none, outcome := some (outcomeOf result) } := by
  have ok := sound.call i c here
  refine ⟨ok.minted, by simp, fun _ => ok.routed (by simp [Call.inFlight, waiting]), by simp, fun a msg given => ?_⟩
  have received := Option.some.inj given
  unfold outcomeOf at received
  split at received
  · cases received
  split at received
  · cases received
  rename_i valid
  obtain ⟨rfl, rfl⟩ := Outcome.reply.inj received
  simp only [Bool.not_eq_true, Bool.or_eq_false_iff, Bool.not_eq_eq_eq_not, Bool.not_false] at valid
  refine ⟨ok.held _ _ ready, valid.1, valid.2, fun gone arrived ended => ?_⟩
  -- A call that was over when the message arrived is not waiting now.
  obtain ⟨d, found, late⟩ := sound.overs _ _ gone arrived i ended
  obtain rfl := Option.mem_unique here found
  simp [Call.over, waiting] at late

/-- A call in flight ends with a fault of its own. -/
theorem Sound.fault (here : w.calls[i]? = some c) (flies : c.inFlight = true) (fault : CallFault) :
    Sound (w.setCall i { c with stage := .ended, outcome := some (.fault fault) }) := by
  have ok := sound.call i c here
  exact sound.move here rfl rfl (by simpa [Call.inFlight] using flies) (by simp [Call.over])
    ⟨ok.minted, by simp, fun _ => ok.routed flies, ok.held, by simp⟩

end Steps

/-- One step keeps what holds. -/
theorem Step.sound {w w' : World} (step : Step w w') (sound : Sound w) : Sound w' := by
  cases step with
  | enter hostID => exact sound.enter hostID
  | refuse i c here entered pending =>
    have ok := sound.call i c here
    exact sound.move here rfl rfl (by simp [Call.inFlight, entered]) (by simp [Call.over])
      ⟨ok.minted, by simp, by simp [Call.inFlight], ok.held, by simp⟩
  | register i c here entered free => exact sound.register here entered free
  | send i c here registered =>
    have ok := sound.call i c here
    exact sound.move here rfl rfl (by simp [Call.inFlight, registered]) (by simp [Call.over, registered])
      ⟨ok.minted, by simp, fun _ => ok.routed (by simp [Call.inFlight, registered]), ok.held, ok.given⟩
  | sendFails i c here registered => exact sound.fault here (by simp [Call.inFlight, registered]) _
  | receive i c result here waiting ready =>
    exact sound.move here rfl rfl (by simp [Call.inFlight, waiting]) (by simp [Call.over])
      (.receive sound here waiting ready)
  | giveUp i c here waiting | seeExit i c here waiting => exact sound.fault here (by simp [Call.inFlight, waiting]) _
  | exit =>
    exact ⟨sound.call, sound.routes, sound.hosts, sound.apart,
      fun t mem => (sound.moving t mem).mono id fun old => ⟨_, old, fun _ => id⟩, sound.overs⟩
  | remove i c n here ended minted => exact sound.remove here ended minted
  | arrive msg => exact sound.arrive msg
  | pass transit foreign => exact sound.replace [] transit (by simp)
  | @seeLive _ _ a msg transit request live =>
    have arrived := sound.moving (.arrived a msg) (by simp [transit])
    exact sound.replace [.live a msg] transit (by rintro t ⟨⟩; exacts [arrived, by contradiction])
  | @look _ _ a msg transit response =>
    have arrived := sound.moving (.arrived a msg) (by simp [transit])
    exact sound.replace _ transit fun t mem => sound.lookup arrived mem
  | @lookLive _ _ a msg transit =>
    have arrived := sound.moving (.live a msg) (by simp [transit])
    exact sound.replace _ transit fun t mem => sound.lookup arrived mem
  | fail key =>
    refine sound.carry (List.forall_mem_append.mpr ⟨sound.moving, fun t new => ?_⟩)
    obtain ⟨i, -, rfl⟩ : ∃ i, w.byUpstreamID key = some i ∧ .found i .failure = t := by
      simpa [World.lookup] using new
    trivial
  | @deliver _ _ i c result transit here free =>
    have bound := sound.moving (.found i result) (by simp [transit])
    have ok := sound.call i c here
    have lighter := sound.replace [] transit (by simp)
    refine lighter.move here rfl rfl rfl id ⟨ok.minted, ok.fresh, ok.routed, fun a msg held => ?_, ok.given⟩
    obtain rfl := Option.some.inj held
    obtain ⟨d, found, bound⟩ := bound
    obtain rfl := Option.mem_unique here found
    exact bound
  | drop transit here full => exact sound.replace [] transit (by simp)

theorem Reachable.sound {w : World} (run : Reachable w) : Sound w := by
  induction run with
  | start => exact Sound.start
  | step run step ih => exact step.sound ih

/-! Cancels and results. -/

/-- A translated cancel is the cancel with the nonce of the call in flight under the
id it named. -/
theorem Sound.cancel {w : World} (sound : Sound w)
    (translated : rewriteCancelToNonce fold w.hostToUp msg = some out) :
    ∃ (i : ℕ) (c : Call) (n : ℕ) (fields : List (Bytes × Text)) (requestID : Text),
      w.calls[i]? = some c ∧ c.inFlight = true ∧ c.nonce = some n ∧
      decodeFields fold msg.params = some fields ∧
      fields.lookup (lit "requestId") = some requestID ∧ c.hostKey = msgKey (some requestID.print) ∧
      out = { msg with params := marshalFields (setField fields (lit "requestId") (upstreamNonce n)) } := by
  unfold rewriteCancelToNonce at translated
  split at translated
  · cases translated
  split at translated
  · cases translated
  rename_i fields decoded
  split at translated
  · cases translated
  rename_i requestID named
  split at translated
  · cases translated
  rename_i upID entry
  obtain ⟨i, c, n, found, flies, host, minted, rfl⟩ := sound.hosts _ upID entry
  refine ⟨i, c, n, fields, requestID, found, flies, minted, decoded, named, host, ?_⟩
  rw [readText_upstreamNonceID, Option.map_some] at translated
  exact (Option.some.inj translated).symm

/-- A message and the nonce of the call it is bound to. -/
theorem Sound.bound_unique (sound : Sound w) {i j a : ℕ}
    (first : w.calls[i]? = some c) (second : w.calls[j]? = some d) (minted : c.nonce = some n)
    (named : msgKey msg.id = nonceKey n) (bound : Bound w.arrivals d a msg) : j = i := by
  obtain ⟨⟨m, minted', named'⟩, -⟩ := bound
  obtain rfl := nonceKey_injective (named'.symm.trans named)
  exact sound.apart j i d c m second first minted' minted

/-- Replies reach their own calls. Whatever calls, cancels, readers and the upstream do
and in whatever order: a call that has a message has one that names its nonce, with no
method and one of result and error; nonces are never shared; a reply to a call that was
over when it arrived becomes no call's outcome, and no channel but that call's own holds
it; one host id is in flight once; a translated cancel carries the nonce of the call in
flight under the id; and once all calls have returned the maps are empty. -/
theorem replies_reach_their_calls (fold : Bytes → Bytes) {w : World} (run : Reachable w) :
    (∀ (i : ℕ) (c : Call) (a : ℕ) (msg : RpcMsg), w.calls[i]? = some c → c.outcome = some (.reply a msg) →
      (∃ n, c.nonce = some n ∧ msgKey msg.id = msgKey (some (upstreamNonceID n))) ∧
      msg.method = [] ∧ (msg.result.isSome = !msg.error.isSome) ∧
      ∃ gone, w.arrivals[a]? = some (msg, gone) ∧ i ∉ gone) ∧
    (∀ (i j : ℕ) (c d : Call) (n : ℕ), w.calls[i]? = some c → w.calls[j]? = some d →
      c.nonce = some n → d.nonce = some n → i = j) ∧
    (∀ (i : ℕ) (c : Call) (n a : ℕ) (msg : RpcMsg) (gone : List ℕ), w.calls[i]? = some c →
      c.nonce = some n → msgKey msg.id = msgKey (some (upstreamNonceID n)) →
      w.arrivals[a]? = some (msg, gone) → i ∈ gone →
      ∀ (j : ℕ) (d : Call), w.calls[j]? = some d →
        d.outcome ≠ some (.reply a msg) ∧ (d.channel = some (.reply a msg) → j = i)) ∧
    (∀ (i j : ℕ) (c d : Call), w.calls[i]? = some c → w.calls[j]? = some d →
      c.inFlight = true → d.inFlight = true → msgKey c.hostID = msgKey d.hostID → i = j) ∧
    (∀ msg out : RpcMsg, rewriteCancelToNonce fold w.hostToUp msg = some out →
      ∃ (i : ℕ) (c : Call) (n : ℕ) (fields : List (Bytes × Text)) (requestID : Text),
        w.calls[i]? = some c ∧ c.inFlight = true ∧ c.nonce = some n ∧
        decodeFields fold msg.params = some fields ∧
        fields.lookup (lit "requestId") = some requestID ∧
        msgKey c.hostID = msgKey (some requestID.print) ∧
        out = { msg with
          params := marshalFields (setField fields (lit "requestId") (upstreamNonce n)) }) ∧
    ((∀ (i : ℕ) (c : Call), w.calls[i]? = some c → c.stage = .returned) →
      (∀ key, w.byUpstreamID key = none) ∧ ∀ key, w.hostToUp key = none) := by
  have sound := run.sound
  refine ⟨fun i c a msg found given => ?_, sound.apart, fun i c n a msg gone found minted named
    arrived late j d found' => ⟨fun given => ?_, fun held => ?_⟩,
    fun i j c d found found' => sound.host_unique found found',
    fun msg out translated => sound.cancel translated, fun returned => ⟨fun key => ?_, fun key => ?_⟩⟩
  · obtain ⟨⟨named, gone, arrived⟩, response, formed, early⟩ := (sound.call i c found).given a msg given
    have silent : msg.id.isSome = true ∧ msg.method = [] := by
      simpa [RpcMsg.isResponse] using response
    refine ⟨named, silent.2, ?_, gone, arrived, early gone arrived⟩
    cases result : msg.result <;> cases error : msg.error <;>
      simp [isMalformedResponse, result, error] at formed ⊢
  · obtain ⟨bound, -, -, early⟩ := (sound.call j d found').given a msg given
    obtain rfl := sound.bound_unique found found' minted named bound
    exact early gone arrived late
  · exact sound.bound_unique found found' minted named ((sound.call j d found').held a msg held)
  · refine Option.eq_none_iff_forall_ne_some.mpr fun i route => ?_
    obtain ⟨c, n, found, flies, -⟩ := sound.routes key i route
    simp [Call.inFlight, returned i c found] at flies
  · refine Option.eq_none_iff_forall_ne_some.mpr fun up entry => ?_
    obtain ⟨i, c, n, found, flies, -⟩ := sound.hosts key up entry
    simp [Call.inFlight, returned i c found] at flies

/-- A reply with the first nonce, as an upstream would send it. -/
def firstReply : RpcMsg :=
  { jsonrpc := lit "2.0", id := some (upstreamNonceID 1), method := [], params := [],
    result := some (lit "\x7b\x7d"), error := none }

/-- One call, answered and returned after its removal. -/
theorem replies_reach_their_calls_answered : ∃ w : World, Reachable w ∧
    w.calls = [⟨some (lit "7"), .returned, some 1, none, some (.reply 0 firstReply)⟩] ∧
    ((∀ (i : ℕ) (c : Call), w.calls[i]? = some c → c.stage = .returned) →
      (∀ key, w.byUpstreamID key = none) ∧ ∀ key, w.hostToUp key = none) := by
  have entered := Reachable.start.step (.enter (some (lit "7")))
  have registered := entered.step (.register 0 ⟨some (lit "7"), .entered, none, none, none⟩ rfl rfl rfl)
  have waiting := registered.step (.send 0 ⟨some (lit "7"), .registered, some 1, none, none⟩ rfl rfl)
  have arrived := waiting.step (.arrive firstReply)
  have looked := arrived.step (@Step.look _ [] [] 0 firstReply rfl rfl)
  have delivered := looked.step (@Step.deliver _ [] [] 0 ⟨some (lit "7"), .waiting, some 1, none, none⟩
    (.reply 0 firstReply) (by simp [World.lookup, World.arrive, World.setCall, World.register,
      firstReply, nonceKey]) rfl rfl)
  have received := delivered.step (.receive 0
    ⟨some (lit "7"), .waiting, some 1, some (.reply 0 firstReply), none⟩ (.reply 0 firstReply) rfl rfl rfl)
  have returned := received.step (.remove 0
    ⟨some (lit "7"), .ended, some 1, none, some (.reply 0 firstReply)⟩ 1 rfl rfl rfl)
  exact ⟨_, returned, rfl, (replies_reach_their_calls id returned).2.2.2.2.2⟩

end Eunox.ReplyRouting
