import Eunox.ServerForward
import Eunox.CompleteMediation

/-! Nothing crosses the proxy unrecorded, whatever crosses at the same time. -/
namespace Eunox.Transport
open ByteString Interaction

/-! Records of a request. -/

def Allowed (sessionID method : Bytes) (events : List Happening) : Prop :=
  ∃ record ∈ allows events, record.sessionID = sessionID ∧ record.method = method

/-- The request has a record of its own session and method. -/
def Recorded (sessionID method : Bytes) (events : List Happening) : Prop :=
  Allowed sessionID method events ∨ ∃ observe, Denied sessionID method observe events

section Exit
variable {recorder : Bool} {sessionID method : Bytes} {msg : RpcMsg} {passed : List Happening → Prop}
  {relays : UpstreamReply → RpcMsg → Prop} {events : List Happening} {reply : RpcMsg}

theorem Denied.mono (denied : Denied sessionID method observe events) (part : denies events ⊆ denies front) :
    Denied sessionID method observe front := by
  obtain ⟨record, mem, same⟩ := denied
  exact ⟨record, part mem, same⟩

section
variable (exit : Exit recorder sessionID method msg passed relays events reply)
include exit

/-- An allow is written only where the reply of the upstream is relayed. -/
theorem Exit.allowed (allow : allows events ≠ []) :
    ∃ up, (⟨.callUpstream msg, .ok up⟩ : Happening) ∈ events ∧ relays up reply := by
  cases exit with
  | held inert => exact absurd inert.allowed allow
  | failed before pass inert =>
    refine absurd ?_ allow
    rw [allows_append, before.allowed]
    exact inert.allowed
  | relayed before pass sent allowed session called same => exact ⟨_, by simp, same⟩

/-- A result is the one of the upstream, relayed and recorded as allowed. -/
theorem Exit.result (wired : recorder = true) {result : Bytes} (got : reply.result = some result) :
    Allowed sessionID method events ∧ ∃ up, (⟨.callUpstream msg, .ok up⟩ : Happening) ∈ events ∧ relays up reply := by
  cases exit with
  | held inert own | failed before pass inert denied own => simp [own] at got
  | @relayed front back up record reply before pass sent allowed session called same =>
    refine ⟨⟨record, ?_, session, called⟩, up, by simp, same⟩
    have written : record ∈ allows back := by simp [allowed, wired]
    rw [allows_append]
    exact List.mem_append_right _ written

theorem Exit.recorded
    (wired : recorder = true) (crossed : upstreamCalls events ≠ []) : Recorded sessionID method events := by
  cases exit with
  | held inert => exact absurd inert.sent crossed
  | failed before pass inert denied own =>
    refine .inr ⟨false, (denied wired).mono fun record mem => ?_⟩
    rw [denies_append]
    exact List.mem_append_right _ mem
  | @relayed front back up record reply before pass sent allowed session called same =>
    refine .inl ⟨record, ?_, session, called⟩
    have written : record ∈ allows back := by simp [allowed, wired]
    rw [allows_append]
    exact List.mem_append_right _ written

end

end Exit

/-! Host requests. -/

/-- A host request with its leg: enforced or a listing, and with a tape to record on. -/
structure HostRequest where
  leg : DispatchParams
  msg : RpcMsg
  rev : Bytes
  wired : leg.recorder = true
  covered : (tablesFor rev).enforces msg.method = true ∨ (tablesFor rev).here msg.method = some .list

/-- The obligations of a decision were applied to the result of the upstream. -/
def Applied (x : Externals) (dec : Verdict) (raw result : Bytes) : Prop :=
  if dec.obligations.isEmpty then result = raw else x.applyRedactObligs raw dec.obligations = some result

/-- The reply has an error that no answer of the upstream had, up to its free-form data. -/
def OwnError (msg : RpcMsg) (events : List Happening) (reply : RpcMsg) : Prop :=
  ∃ error, reply.error = some error ∧
    ∀ (up : UpstreamReply) (theirs : RpcError), (⟨.callUpstream msg, .ok up⟩ : Happening) ∈ events →
      up.msg.error = some theirs → error ≠ theirs ∧ error ≠ { theirs with data := none }

/-- What holds of one host request, by what happened for it and its reply. -/
structure HostRequest.Accounted (r : HostRequest) (x : Externals) (events : List Happening)
    (reply : RpcMsg) : Prop where
  recorded : upstreamCalls events ≠ [] → Recorded r.leg.sessionID r.msg.method events
  result : ∀ result, reply.result = some result →
    Allowed r.leg.sessionID r.msg.method events ∧
    ∃ (up : UpstreamReply) (raw : Bytes), (⟨.callUpstream r.msg, .ok up⟩ : Happening) ∈ events ∧
      up.msg.result = some raw ∧ ∀ asked ∈ questions events, Applied x asked.2 raw result
  ownError : OwnError r.msg events reply → allows events = []
  before : upstreamCalls events ≠ [] →
    ∃ (front : List Happening) (answer : Answer (.callUpstream r.msg)) (back : List Happening),
      events = front ++ ⟨.callUpstream r.msg, answer⟩ :: back ∧
      upstreamCalls events = [r.msg] ∧
      GateOpen r.leg.requireAuditStrict true front ∧
      ∀ asked ∈ questions events, asked.2.decision ≠ decisionAllow →
        Denied r.leg.sessionID r.msg.method true front

section Host
variable {x : Externals} {msg : RpcMsg} {dec : Verdict} {up : UpstreamReply} {sent reply : RpcMsg}
  {events : List Happening}

theorem replyFor_some (got : (replyFor msg sent).result = some result) : sent.result = some result := by
  unfold replyFor at got
  split at got
  · cases got
  · exact got

theorem replyFor_error (got : (replyFor msg sent).error = some error) : sent.error = some error := by
  unfold replyFor at got
  split at got
  · cases got
  · exact got

theorem Relays.applied (relays : Relays x msg dec up sent) (got : sent.result = some result) :
    ∃ raw, up.msg.result = some raw ∧ Applied x dec raw result := by
  obtain ⟨resp, redacted, rfl⟩ := relays
  obtain ⟨kept, redaction, rfl⟩ := Option.map_eq_some_iff.mp redacted
  have same : kept.result = some result := by
    rw [← got]
    split <;> rfl
  cases raw : up.msg.result with
  | none =>
    rw [raw] at redaction
    cases redaction
    simp [raw] at same
  | some raw' =>
    rw [raw] at redaction
    dsimp only at redaction
    refine ⟨raw', rfl, ?_⟩
    unfold Applied
    split at redaction
    · next empty =>
      cases redaction
      rw [if_pos empty]
      exact Option.mem_unique same raw
    · next some' =>
      obtain ⟨masked, applied, rfl⟩ := Option.map_eq_some_iff.mp redaction
      cases same
      rw [if_neg some', applied]

theorem Relays.error (relays : Relays x msg dec up sent) {error : RpcError} (got : sent.error = some error) :
    ∃ theirs, up.msg.error = some theirs ∧ (error = theirs ∨ error = { theirs with data := none }) := by
  obtain ⟨resp, redacted, rfl⟩ := relays
  obtain ⟨kept, redaction, rfl⟩ := Option.map_eq_some_iff.mp redacted
  have same : kept.error = up.msg.error := by
    split at redaction
    · cases redaction; rfl
    split at redaction
    · cases redaction; rfl
    · obtain ⟨masked, -, rfl⟩ := Option.map_eq_some_iff.mp redaction
      rfl
  split at got
  · obtain ⟨theirs, found, rfl⟩ := Option.map_eq_some_iff.mp got
    exact ⟨theirs, same ▸ found, .inr rfl⟩
  · exact ⟨error, same ▸ got, .inl rfl⟩

/-- A request is accounted for by its exit. -/
theorem HostRequest.accounted_of_exit (r : HostRequest) {passed : List Happening → Prop}
    {relays : UpstreamReply → RpcMsg → Prop}
    (exit : Exit r.leg.recorder r.leg.sessionID r.msg.method r.msg passed relays events sent)
    (pass : ∀ front, passed front → GateOpen r.leg.requireAuditStrict true front ∧
      ∀ asked ∈ questions events, asked.2.decision ≠ decisionAllow → Denied r.leg.sessionID r.msg.method true front)
    (applied : ∀ up result, relays up sent → sent.result = some result →
      ∃ raw, up.msg.result = some raw ∧ ∀ asked ∈ questions events, Applied x asked.2 raw result)
    (kept : ∀ up error, relays up sent → sent.error = some error →
      ∃ theirs, up.msg.error = some theirs ∧ (error = theirs ∨ error = { theirs with data := none })) :
    r.Accounted x events (replyFor r.msg sent) where
  recorded crossed := exit.recorded r.wired crossed
  result result got := by
    obtain ⟨allowed, up, mem, relayed⟩ := exit.result r.wired (replyFor_some got)
    obtain ⟨raw, found, all⟩ := applied up result relayed (replyFor_some got)
    exact ⟨allowed, up, raw, mem, found, all⟩
  ownError := by
    rintro ⟨error, got, foreign⟩
    by_contra allow
    obtain ⟨up, mem, relayed⟩ := exit.allowed allow
    obtain ⟨theirs, found, same⟩ := kept up error relayed (replyFor_error got)
    obtain ⟨differs, stripped⟩ := foreign up theirs mem found
    exact same.elim differs stripped
  before crossed := by
    obtain nothing | ⟨one, front, answer, back, split, through⟩ := exit.sent
    · exact absurd nothing crossed
    · exact ⟨front, answer, back, split, one, pass front through⟩

theorem HostRequest.accounted_of_held (r : HostRequest) (inert : Inert events) (own : sent.result = none) :
    r.Accounted x events (replyFor r.msg sent) := by
  have exit : Exit r.leg.recorder r.leg.sessionID r.msg.method r.msg (fun _ => False) (fun _ _ => False)
      events sent := .held inert own
  exact r.accounted_of_exit exit nofun nofun nofun

/-- Every request of the host is accounted for. -/
theorem HostRequest.accounted (r : HostRequest)
    (run : Runs (dispatchRequest x r.leg r.msg r.rev) events reply) : r.Accounted x events reply := by
  obtain ⟨sent, rfl, ends⟩ := dispatchRequest_ends run
  cases ends with
  | held undecided inert own =>
    have list : (tablesFor r.rev).here r.msg.method = some .list := by
      simpa [RevisionTables.enforces, undecided] using r.covered
    exact r.accounted_of_held inert (own.resolve_right (not_not_intro list))
  | @listing rest _ undecided here listed listing =>
    -- A listing has no decision, so nothing to apply and nothing to downgrade.
    obtain ⟨unasked, exit⟩ := dispatchList_exit listing
    have asked : questions (⟨.checkKill r.leg.sessionID, (none : Option Verdict)⟩ :: rest) = [] := unasked
    have kill : Inert [⟨.checkKill r.leg.sessionID, (none : Option Verdict)⟩] := ⟨rfl, rfl⟩
    refine r.accounted_of_exit (exit.after kill fun front passed => ?_)
      (fun front passed => ⟨passed, by simp [asked]⟩) ?_ ?_
    · have gate := passed.gate.append [⟨.checkKill r.leg.sessionID, (none : Option Verdict)⟩] []
      rw [r.wired, List.append_nil] at gate
      exact gate
    · rintro up result ⟨-, -, same⟩ got
      rw [got] at same
      obtain ⟨raw, found⟩ := Option.isSome_iff_exists.mp same.symm
      exact ⟨raw, found, by simp [asked]⟩
    · rintro up error ⟨-, same, -⟩ got
      exact ⟨error, same ▸ got, .inl rfl⟩
  | enforced decided ends =>
    obtain ⟨inert, own⟩ | ⟨target, question, dec, rest, -, -, -, rfl, once, exit⟩ := ends
    · exact r.accounted_of_held inert own
    have asked : questions (⟨.decide r.leg.sessionID r.leg.sourceIP question, dec⟩ :: rest) = [(question, dec)] :=
      congrArg ((question, dec) :: ·) once
    have point : Inert [⟨.decide r.leg.sessionID r.leg.sourceIP question, dec⟩] := ⟨rfl, rfl⟩
    refine r.accounted_of_exit (exit.after point fun front passed => ?_) (fun front passed => passed) ?_ ?_
    · have gate := passed.2.gate.append [⟨.decide r.leg.sessionID r.leg.sourceIP question, dec⟩] []
      rw [r.wired, List.append_nil] at gate
      refine ⟨gate, fun ask mem deny => ?_⟩
      obtain rfl : ask = (question, dec) := by simpa [asked] using mem
      exact (passed.2.recorded (by simpa using deny) r.wired).mono fun record => id
    · rintro up result ⟨relay, relayed, rfl⟩ got
      obtain ⟨raw, found, applied⟩ := relayed.applied (replyFor_some got)
      refine ⟨raw, found, fun ask mem => ?_⟩
      obtain rfl : ask = (question, dec) := by simpa [asked] using mem
      exact applied
    · rintro up error ⟨relay, relayed, rfl⟩ got
      exact relayed.error (replyFor_error got)

end Host

/-! Server-initiated requests. -/

/-- The ends of a server-initiated request once it is decided: it is held, or the host gets
it, past the gate and recorded where it was delivered. -/
inductive ServerRequestParams.Ends (fp : ServerRequestParams) (msg : RpcMsg) (method : Bytes)
    (passed : List Happening → Prop) : List Happening → Prop
  | held {events : List Happening} (contained : Contained events) : fp.Ends msg method passed events
  | forwarded {front back : List Happening} {outcome : ForwardOutcome} (before : Contained front)
      (through : passed front) (gate : GateOpen fp.requireAuditStrict fp.recs.recorder front)
      (after : Contained back)
      (recorded : outcome = .delivered → fp.recs.recorder = true → Allowed fp.sessionID method back) :
      fp.Ends msg method passed (front ++ ⟨.forward msg, outcome⟩ :: back)

section Server
variable {x : Externals} {fp : ServerRequestParams} {msg : RpcMsg} {events : List Happening}
  {identifier method : Bytes} {dec : Verdict} {auditOnly : Bool} {detail : AuditDetails}

theorem recordForwardOutcome_runs {outcome : ForwardOutcome}
    (run : Runs (fp.recordForwardOutcome identifier method outcome auditOnly dec detail) events u) :
    Contained events ∧ (outcome = .delivered → fp.recs.recorder = true → Allowed fp.sessionID method events) := by
  cases outcome with
  | refused =>
    obtain ⟨rfl, -⟩ := runs_pure.mp run
    exact ⟨⟨rfl, rfl, rfl⟩, nofun⟩
  | undelivered =>
    obtain ⟨front, written, back, rfl, wrote, checks⟩ := warnIfStrictAuditJustDegraded_runs run
    obtain ⟨asked, admitted, last, rfl, category, rolled⟩ := runs_bind.mp wrote
    obtain ⟨ahead, behind⟩ := List.forall_mem_append.mp (books_of_checks checks)
    have refusal := (forCategory_runs category).append (recordRolledUp_runs rolled)
    exact ⟨(Books.append ahead (refusal.append behind)).quiet.1, nofun⟩
  | delivered =>
    obtain ⟨contained, allowed⟩ := warned_allow_runs run
    exact ⟨contained, fun _ wired => ⟨_, by rw [allowed, if_pos wired]; exact .head _, rfl, rfl⟩⟩

theorem strictServerRequestAuditDenial_runs {tripped : Bool}
    (run : Runs (fp.strictServerRequestAuditDenial msg identifier method dec) events tripped) :
    Contained events ∧ (tripped = false → GateOpen fp.requireAuditStrict fp.recs.recorder events) := by
  obtain ⟨asked, state, rest, rfl, gate, later⟩ := runs_bind.mp run
  obtain ⟨books, whole⟩ := auditGateTripped_runs gate
  cases state with
  | none =>
    obtain ⟨rfl, -⟩ := runs_pure.mp later
    rw [List.append_nil]
    exact ⟨books.quiet.1, fun _ => whole rfl⟩
  | some state =>
    obtain ⟨written, ⟨⟩, last, rfl, wrote, answer⟩ := runs_bind.mp later
    obtain ⟨⟨⟩, rest, rfl, done⟩ := runs_ask.mp answer
    obtain ⟨rfl, rfl⟩ := runs_pure.mp done
    exact ⟨books.quiet.1.append ((recordDeny_runs wrote).1.quiet.1.append ⟨rfl, rfl, rfl⟩), nofun⟩

/-- From the gate on. -/
theorem gateAndForward_ends {downgrade : Action Unit} (still : ∀ written, Runs downgrade written () → Contained written)
    (run : Runs (fp.gateAndForward msg identifier method dec downgrade auditOnly detail) events u) :
    fp.Ends msg method (fun front => ∃ gated written, front = gated ++ written ∧ Runs downgrade written ())
      events := by
  obtain ⟨gated, tripped, rest, rfl, gate, later⟩ := runs_bind.mp run
  obtain ⟨contained, whole⟩ := strictServerRequestAuditDenial_runs gate
  cases tripped with
  | true =>
    obtain ⟨rfl, -⟩ := runs_pure.mp later
    exact .held (by simpa using contained)
  | false =>
    obtain ⟨written, ⟨⟩, last, rfl, wrote, forward⟩ := runs_bind.mp later
    obtain ⟨outcome, back, rfl, record⟩ := runs_ask.mp forward
    obtain ⟨after, allowed⟩ := recordForwardOutcome_runs record
    rw [← List.append_assoc]
    exact .forwarded (contained.append (still written wrote)) ⟨gated, written, rfl, wrote⟩
      ((whole rfl).append [] written) after allowed

theorem refuse_runs (run : Runs (fp.refuse msg record what) events u) : Contained events := by
  obtain ⟨written, ⟨⟩, last, rfl, wrote, answer⟩ := runs_bind.mp run
  obtain rfl := runs_ask_alone.mp answer
  exact (recordDeny_runs wrote).1.quiet.1.append ⟨rfl, rfl, rfl⟩

theorem pure_runs {written : List Happening} (run : Runs (pure () : Action Unit) written ()) : Contained written := by
  obtain ⟨rfl, -⟩ := runs_pure.mp run
  exact ⟨rfl, rfl, rfl⟩

/-- Nothing crossed while sampling was decided, and the decision point's answer is the decision. -/
structure Sampled (dec : Verdict) (events : List Happening) : Prop where
  called : upstreamCalls events = []
  forwarded : hostForwards events = []
  asked : ∀ ask ∈ questions events, ask.2 = dec

theorem Contained.sampled (contained : Contained events) : Sampled dec events :=
  ⟨contained.called, contained.forwarded, by simp [contained.asked]⟩

theorem Sampled.between {front back : List Happening} (sampled : Sampled dec events) (before : Contained front)
    (after : Contained back) : Sampled dec (front ++ (events ++ back)) :=
  ⟨by simp [before.called, sampled.called, after.called],
    by simp [before.forwarded, sampled.forwarded, after.forwarded],
    by simpa [before.asked, after.asked] using sampled.asked⟩

theorem Sampled.after {front : List Happening} (sampled : Sampled dec events) (before : Contained front) :
    Sampled dec (front ++ events) := by
  have none' : Contained [] := ⟨rfl, rfl, rfl⟩
  simpa using sampled.between before none'

theorem askSampling_runs (run : Runs (askSampling fp) events dec) : Sampled dec events := by
  obtain rfl := runs_ask_alone.mp run
  refine ⟨rfl, rfl, fun ask mem => ?_⟩
  obtain rfl := List.mem_singleton.mp mem
  rfl

theorem spansAnchors_runs (run : Runs fp.spansAnchors events split) : Contained events := by
  obtain run | run := runs_ite run
  · obtain rfl := runs_ask_alone.mp run
    exact ⟨rfl, rfl, rfl⟩
  · obtain ⟨rfl, -⟩ := runs_pure.mp run
    exact ⟨rfl, rfl, rfl⟩

theorem decideInTurn_runs (run : Runs fp.decideInTurn events dec) : Sampled dec events := by
  obtain ⟨front, split, rest, rfl, spans, later⟩ := runs_bind.mp run
  obtain ⟨asked, decision, last, rfl, decides, turn⟩ := runs_bind.mp later
  obtain ⟨⟨⟩, done, rfl, last⟩ := runs_ask.mp turn
  obtain ⟨rfl, rfl⟩ := runs_pure.mp last
  refine Sampled.between ?_ (spansAnchors_runs spans) ⟨rfl, rfl, rfl⟩
  cases split with
  | true =>
    obtain ⟨rfl, -⟩ := runs_pure.mp decides
    exact Contained.sampled ⟨rfl, rfl, rfl⟩
  | false => exact askSampling_runs decides

theorem decideSampling_runs (run : Runs fp.decideSampling events dec) : Sampled dec events := by
  obtain ⟨front, split, rest, rfl, spans, later⟩ := runs_bind.mp run
  refine Sampled.after ?_ (spansAnchors_runs spans)
  cases split with
  | true =>
    obtain ⟨rfl, -⟩ := runs_pure.mp later
    exact Contained.sampled ⟨rfl, rfl, rfl⟩
  | false =>
    rw [if_neg Bool.false_ne_true] at later
    split at later
    · exact askSampling_runs later
    obtain ⟨entered, turn, rfl, decides⟩ := runs_ask.mp later
    have lock : Contained [⟨.decideLock, entered⟩] := ⟨rfl, rfl, rfl⟩
    refine Sampled.after ?_ lock
    cases entered with
    | true => exact decideInTurn_runs decides
    | false =>
      obtain ⟨rfl, -⟩ := runs_pure.mp decides
      exact Contained.sampled ⟨rfl, rfl, rfl⟩

/-- A denial that is forwarded all the same was recorded as one. -/
theorem forwardSampling_ends {u : Unit} (run : Runs (fp.forwardSampling msg dec) events u) :
    fp.Ends msg methodSamplingCreateMessage (fun front => dec.decision ≠ decisionAllow →
      fp.recs.recorder = true → Denied fp.sessionID methodSamplingCreateMessage true front) events := by
  unfold ServerRequestParams.forwardSampling at run
  dsimp only at run
  split at run
  · next allow =>
    cases gateAndForward_ends (fun _ => pure_runs) run with
    | held contained => exact .held contained
    | forwarded before through gate after recorded =>
      exact .forwarded before (fun deny => absurd allow deny) gate after recorded
  · split at run
    · cases gateAndForward_ends (fun _ wrote => (recordDeny_runs wrote).1.quiet.1) run with
      | held contained => exact .held contained
      | forwarded before through gate after recorded =>
        refine .forwarded before (fun _ wired => ?_) gate after recorded
        obtain ⟨gated, written, rfl, wrote⟩ := through
        have denied := (recordDeny_runs wrote).2
        rw [if_pos wired] at denied
        exact ⟨_, by rw [denies_append, denied]; exact List.mem_append_right _ (.head _), rfl, rfl, rfl⟩
    · exact .held (refuse_runs run)

theorem auditIdentity_request (request : msg.isRequest = true) : (auditIdentity msg).2 = msg.method := by
  unfold RpcMsg.isRequest at request
  unfold auditIdentity RpcMsg.isResponse
  simp only [Bool.and_eq_true, Bool.not_eq_true'] at request
  simp only [request.1, request.2, Bool.and_false, Bool.false_eq_true, if_false]
  split <;> rfl

theorem forwardUndecided_ends (request : msg.isRequest = true) {u : Unit}
    (run : Runs (fp.forwardUndecided msg) events u) : fp.Ends msg msg.method (fun _ => True) events := by
  obtain ⟨answer, rest, rfl, later⟩ := runs_ask.mp run
  have kill : Contained [⟨.checkKill fp.sessionID, answer⟩] := ⟨rfl, rfl, rfl⟩
  cases answer with
  | some deny => exact .held (kill.append (refuse_runs later))
  | none =>
    have ends := gateAndForward_ends (fun _ => pure_runs) later
    rw [auditIdentity_request request] at ends
    cases ends with
    | held contained => exact .held (kill.append contained)
    | forwarded before through gate after recorded =>
      exact .forwarded (kill.append before) trivial (by simpa using gate.append [_] []) after recorded

end Server

/-- A server-initiated request with its leg, and a tape to record on. -/
structure ServerRequest where
  leg : ServerRequestParams
  msg : RpcMsg
  wired : leg.recs.recorder = true
  request : msg.isRequest = true

/-- What holds of one server-initiated request, by what happened for it. -/
structure ServerRequest.Accounted (r : ServerRequest) (events : List Happening) : Prop where
  called : upstreamCalls events = []
  recorded : ∀ sent, (sent, .delivered) ∈ hostForwards events →
    Recorded r.leg.sessionID r.msg.method events
  before : hostForwards events ≠ [] →
    ∃ (front : List Happening) (outcome : ForwardOutcome) (back : List Happening),
      events = front ++ ⟨.forward r.msg, outcome⟩ :: back ∧ hostForwards events = [(r.msg, outcome)] ∧
      GateOpen r.leg.requireAuditStrict true front ∧
      ∀ asked ∈ questions events, asked.2.decision ≠ decisionAllow →
        Denied r.leg.sessionID r.msg.method true front

section Served
variable {x : Externals} {events : List Happening}

theorem ServerRequest.accounted_of_contained (r : ServerRequest) (contained : Contained events) :
    r.Accounted events :=
  ⟨contained.called, by simp [contained.forwarded], fun crossed => absurd contained.forwarded crossed⟩

/-- A request is accounted for by its end and what was asked before. -/
theorem ServerRequest.accounted_of_ends (r : ServerRequest)
    {passed : List Happening → Prop} (sampled : Sampled dec earlier)
    (ends : r.leg.Ends r.msg r.msg.method passed events)
    (denied : ∀ front, passed front → dec.decision ≠ decisionAllow →
      Denied r.leg.sessionID r.msg.method true front) : r.Accounted (earlier ++ events) := by
  cases ends with
  | held contained =>
    exact ⟨by simp [sampled.called, contained.called], by simp [sampled.forwarded, contained.forwarded],
      fun crossed => absurd (by simp [sampled.forwarded, contained.forwarded]) crossed⟩
  | @forwarded front back outcome before through gate after recorded =>
    have once : hostForwards (earlier ++ (front ++ ⟨.forward r.msg, outcome⟩ :: back)) = [(r.msg, outcome)] := by
      rw [hostForwards_append, sampled.forwarded, hostForwards_append, before.forwarded]
      exact congrArg ((r.msg, outcome) :: ·) after.forwarded
    have tail : questions (⟨.forward r.msg, outcome⟩ :: back) = [] := after.asked
    refine ⟨?_, fun sent mem => ?_, fun _ => ⟨earlier ++ front, outcome, back, by simp, once, ?_, ?_⟩⟩
    · rw [upstreamCalls_append, sampled.called, upstreamCalls_append, before.called]
      exact after.called
    · rw [once, List.mem_singleton, Prod.mk.injEq] at mem
      obtain ⟨record, written, same⟩ := recorded mem.2.symm r.wired
      refine .inl ⟨record, ?_, same⟩
      rw [allows_append, allows_append]
      exact List.mem_append_right _ (List.mem_append_right _ written)
    · have gate := gate.append earlier []
      rwa [r.wired, List.append_nil] at gate
    · intro ask mem deny
      rw [questions_append, questions_append, before.asked, tail, List.append_nil, List.append_nil] at mem
      rw [sampled.asked ask mem] at deny
      refine (denied front through deny).mono fun record written => ?_
      rw [denies_append]
      exact List.mem_append_right _ written

/-- Every request of the upstream is accounted for. -/
theorem ServerRequest.accounted (r : ServerRequest) {u : Unit}
    (run : Runs (forwardServerRequest r.leg r.msg) events u) : r.Accounted events := by
  unfold forwardServerRequest at run
  split at run
  · next text refused =>
    obtain ⟨asked, admitted, rest, rfl, category, later⟩ := runs_bind.mp run
    obtain ⟨written, ⟨⟩, last, rfl, rolled, answer⟩ := runs_bind.mp later
    obtain rfl := runs_ask_alone.mp answer
    exact r.accounted_of_contained ((forCategory_runs category).quiet.1.append
      ((recordRolledUp_runs rolled).quiet.1.append ⟨rfl, rfl, rfl⟩))
  · split at run
    · have nothing : Sampled { decision := decisionAllow } [] := ⟨rfl, rfl, by simp [questions]⟩
      exact r.accounted_of_ends nothing (forwardUndecided_ends r.request run) fun front _ deny => absurd rfl deny
    · next sampling =>
      obtain ⟨asked, dec, rest, rfl, decided, later⟩ := runs_bind.mp run
      have ends := forwardSampling_ends later
      rw [← not_not.mp sampling] at ends
      exact r.accounted_of_ends (decideSampling_runs decided) ends fun front passed deny => passed deny r.wired

end Served

/-! Runs. -/

inductive Request where
  | host (r : HostRequest)
  | server (r : ServerRequest)

/-- A request and, for the host's, its reply. -/
def Request.program (x : Externals) : Request → Action (Option RpcMsg)
  | .host r => some <$> dispatchRequest x r.leg r.msg r.rev
  | .server r => (fun _ => none) <$> forwardServerRequest r.leg r.msg

/-- Whether the request is served under `--require-audit=strict`. -/
def Request.strict : Request → Bool
  | .host r => r.leg.requireAuditStrict
  | .server r => r.leg.requireAuditStrict

/-- Once the trail is reported degraded it stays so. -/
def Sticky (events : List (ℕ × Happening)) : Prop :=
  ∀ (front back : List (ℕ × Happening)) (k : ℕ) (state : Degradation),
    events = front ++ (k, ⟨.auditDegraded, state⟩) :: back → state.degraded = true →
    ∀ (j : ℕ) (later : Degradation), (j, ⟨.auditDegraded, later⟩) ∈ back → later.degraded = true

/-- A gate that was open stands against a report of a degraded trail before it. -/
theorem gate_not_open {k i : ℕ} (sticky : Sticky events)
    (split : events = front ++ (k, ⟨.auditDegraded, state⟩) :: back) (degraded : state.degraded = true)
    (fresh : own i front = []) (whole : own i events = before ++ after) :
    ¬ GateOpen true true before := by
  intro gate
  obtain ⟨seen, mem, clean⟩ := gate rfl rfl
  have mine : (⟨.auditDegraded, seen⟩ : Happening) ∈ own i ((k, ⟨.auditDegraded, state⟩) :: back) := by
    rw [← own_later fresh, ← split, whole]
    exact List.mem_append_left _ mem
  rcases List.mem_cons.mp (mem_own.mp mine) with first | later
  · obtain ⟨-, same⟩ := Prod.mk.inj first
    obtain rfl := eq_of_heq (Sigma.mk.inj same).2
    rw [degraded] at clean
    cases clean
  · rw [sticky front back k state split degraded i seen later] at clean
    cases clean

/-- The request reached the other side. -/
def Request.Crossed : Request → List Happening → Prop
  | .host _, events => upstreamCalls events ≠ []
  | .server _, events => hostForwards events ≠ []

section Runs
variable {x : Externals} {requests : List Request} (run : Woven (requests.map (Request.program x)))

theorem host_accounted {r : HostRequest} (at' : requests[i]? = some (.host r)) :
    ∃ reply, run.results i = some reply ∧ r.Accounted x (own i run.events) reply := by
  have mine := run.each i _ (by rw [List.getElem?_map, at']; rfl)
  obtain ⟨reply, served, same⟩ := runs_map.mp mine
  exact ⟨reply, same, r.accounted served⟩

theorem server_accounted {r : ServerRequest} (at' : requests[i]? = some (.server r)) :
    r.Accounted (own i run.events) := by
  have mine := run.each i _ (by rw [List.getElem?_map, at']; rfl)
  obtain ⟨u, served, -⟩ := runs_map.mp mine
  exact r.accounted served

/-- What crosses under the strict gate found it open before. -/
theorem crossed_gate {r : Request} (at' : requests[i]? = some r) (strict : r.strict = true)
    (crossed : r.Crossed (own i run.events)) :
    ∃ before after, own i run.events = before ++ after ∧ GateOpen true true before := by
  cases r with
  | host r =>
    obtain ⟨reply, -, accounted⟩ := host_accounted run at'
    obtain ⟨front, answer, back, split, -, gate, -⟩ := accounted.before crossed
    rw [show r.leg.requireAuditStrict = true from strict] at gate
    exact ⟨front, _, split, gate⟩
  | server r =>
    obtain ⟨front, outcome, back, split, -, gate, -⟩ := (server_accounted run at').before crossed
    rw [show r.leg.requireAuditStrict = true from strict] at gate
    exact ⟨front, _, split, gate⟩

end Runs

/-- Whatever runs at the same time, every request that crosses is recorded under its own
session and method, the host sees a result only with an allow and its obligations applied,
and nothing crosses once the strict gate has seen the trail degraded. -/
theorem nothing_crosses_unrecorded (x : Externals) (requests : List Request)
    (run : Woven (requests.map (Request.program x))) :
    (∀ (i : ℕ) (r : HostRequest), requests[i]? = some (.host r) →
      ∃ reply, run.results i = some reply ∧ r.Accounted x (own i run.events) reply) ∧
    (∀ (i : ℕ) (r : ServerRequest), requests[i]? = some (.server r) → r.Accounted (own i run.events)) ∧
    (Sticky run.events → ∀ (front back : List (ℕ × Happening)) (k : ℕ) (state : Degradation),
        run.events = front ++ (k, ⟨.auditDegraded, state⟩) :: back → state.degraded = true →
        ∀ (i : ℕ) (r : Request), requests[i]? = some r → r.strict = true → own i front = [] →
          ¬ r.Crossed (own i run.events)) := by
  refine ⟨fun i r => host_accounted run, fun i r => server_accounted run, ?_⟩
  intro sticky front back k state split degraded i r at' strict fresh crossed
  obtain ⟨before, after, whole, gate⟩ := crossed_gate run at' strict crossed
  exact gate_not_open sticky split degraded fresh whole gate

/-- One program after the other. -/
def inTurn (first second : Action (Option RpcMsg)) (answer : (q : Query) → Answer q) :
    Woven [first, second] where
  events := (first.against (fun _ => answer) []).1.map (Prod.mk 0) ++
    (second.against (fun _ => answer) []).1.map (Prod.mk 1)
  results := fun i => if i = 0 then (first.against (fun _ => answer) []).2 else (second.against (fun _ => answer) []).2
  each := by
    intro i p at'
    match i, at' with
    | 0, at' =>
      cases at'
      simpa [own, List.filter_map, Function.comp_def] using against_runs (fun _ => answer) first []
    | 1, at' =>
      cases at'
      simpa [own, List.filter_map, Function.comp_def] using against_runs (fun _ => answer) second []

def toolCall : HostRequest where
  leg := plainLeg
  msg := toolRequest
  rev := []
  wired := rfl
  covered := by decide

def rootsRequest : ServerRequest where
  leg := { audit := false, sessionID := lit "s", sourceIP := [], revision := [], recs := ⟨true, false⟩
           undelivered := [], untranslatable := [], decideLock := false, anchorSplit := false
           requireAuditStrict := true }
  msg := { id := some (lit "7"), method := lit "roots/list" }
  wired := rfl
  request := rfl

/-- The call and the upstream's request in turn. -/
def callThenRoots : Woven ([Request.host toolCall, .server rootsRequest].map (Request.program plainExternals)) :=
  inTurn ((Request.host toolCall).program plainExternals) ((Request.server rootsRequest).program plainExternals)
    allowing

theorem nothing_crosses_unrecorded_in_turn : Recorded (lit "s") methodToolsCall (own 0 callThenRoots.events) ∧
      Recorded (lit "s") (lit "roots/list") (own 1 callThenRoots.events) := by
  obtain ⟨host, server, -⟩ :=
    nothing_crosses_unrecorded plainExternals [.host toolCall, .server rootsRequest] callThenRoots
  obtain ⟨reply, -, accounted⟩ := host 0 toolCall rfl
  refine ⟨accounted.recorded (by decide), (server 1 rootsRequest rfl).recorded rootsRequest.msg ?_⟩
  decide

end Eunox.Transport
