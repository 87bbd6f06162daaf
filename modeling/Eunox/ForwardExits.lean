import Eunox.ForwardCore

/-! Every way out of the forwarding core. A call either stays here, or crosses once
and is recorded on its way back; what each exit asked and recorded is said once. -/
namespace Eunox.Transport
open ByteString Interaction

/-! What happened. -/

def upstreamCalls (events : List Happening) : List RpcMsg :=
  events.filterMap fun event => match event.1 with
    | .callUpstream msg => some msg
    | _ => none

/-- What the decision point was asked, and what it answered. -/
def questions (events : List Happening) : List (Question × Verdict) :=
  events.filterMap fun
    | ⟨.decide _ _ question, answer⟩ => some (question, answer)
    | _ => none

/-- What the host was sent, and what became of it. -/
def hostForwards (events : List Happening) : List (RpcMsg × ForwardOutcome) :=
  events.filterMap fun
    | ⟨.forward msg, outcome⟩ => some (msg, outcome)
    | _ => none

def allows (events : List Happening) : List AllowRecord :=
  events.filterMap fun event => match event.1 with
    | .recordAllow record => some record
    | _ => none

def denies (events : List Happening) : List DenyRecord :=
  events.filterMap fun event => match event.1 with
    | .recordDeny record => some record
    | _ => none

section Append
variable (front back : List Happening)

@[simp] theorem upstreamCalls_append : upstreamCalls (front ++ back) = upstreamCalls front ++ upstreamCalls back :=
  List.filterMap_append

@[simp] theorem questions_append : questions (front ++ back) = questions front ++ questions back :=
  List.filterMap_append

@[simp] theorem hostForwards_append : hostForwards (front ++ back) = hostForwards front ++ hostForwards back :=
  List.filterMap_append

@[simp] theorem allows_append : allows (front ++ back) = allows front ++ allows back := List.filterMap_append

@[simp] theorem denies_append : denies (front ++ back) = denies front ++ denies back := List.filterMap_append

end Append

/-- Bookkeeping of a refusal: nothing of it lets a call pass. -/
def Query.books : Query → Bool
  | .auditDegraded | .recordDeny _ | .endDecision | .admitRefusal _ => true
  | _ => false

/-- What happened crossed nowhere, and no decision was asked. -/
structure Contained (events : List Happening) : Prop where
  called : upstreamCalls events = []
  forwarded : hostForwards events = []
  asked : questions events = []

theorem Contained.append (first : Contained front) (second : Contained back) : Contained (front ++ back) :=
  ⟨by simp [first.called, second.called], by simp [first.forwarded, second.forwarded],
    by simp [first.asked, second.asked]⟩

def Books (events : List Happening) : Prop := ∀ event ∈ events, event.1.books = true

theorem Books.nil : Books [] := by simp [Books]

theorem Books.append (first : Books front) (second : Books back) : Books (front ++ back) :=
  List.forall_mem_append.mpr ⟨first, second⟩

theorem Books.cons (head : event.1.books = true) (tail : Books events) : Books (event :: events) :=
  List.forall_mem_cons.mpr ⟨head, tail⟩

/-- Bookkeeping passes nothing and asks nothing. -/
theorem Books.quiet (books : Books events) : Contained events ∧ allows events = [] := by
  refine ⟨⟨?_, ?_, ?_⟩, ?_⟩
  all_goals
    refine List.filterMap_eq_nil_iff.mpr ?_
    rintro ⟨q, answer⟩ mem
    have head : q.books = true := books _ mem
    cases q <;> first | rfl | exact absurd head Bool.false_ne_true

/-! Records and the gate. -/

/-- A deny of this session and method is among what happened. -/
def Denied (sessionID method : Bytes) (observe : Bool) (events : List Happening) : Prop :=
  ∃ record ∈ denies events, record.sessionID = sessionID ∧ record.method = method ∧ record.observe = observe

theorem recordDeny_runs (run : Runs (recordDeny recorder record) events u) :
    Books events ∧ denies events = if recorder then [record] else [] := by
  cases recorder with
  | false =>
    obtain ⟨rfl, -⟩ := runs_pure.mp run
    exact ⟨.nil, rfl⟩
  | true =>
    obtain rfl := runs_ask_alone.mp run
    exact ⟨.cons rfl .nil, rfl⟩

theorem recordAllow_runs (run : Runs (recordAllow recorder record) events u) :
    Contained events ∧ allows events = if recorder then [record] else [] := by
  cases recorder with
  | false =>
    obtain ⟨rfl, -⟩ := runs_pure.mp run
    exact ⟨⟨rfl, rfl, rfl⟩, rfl⟩
  | true =>
    obtain rfl := runs_ask_alone.mp run
    exact ⟨⟨rfl, rfl, rfl⟩, rfl⟩

/-- Around a record the trail may be asked after, and nothing else. -/
theorem warnIfStrictAuditJustDegraded_runs
    (run : Runs (warnIfStrictAuditJustDegraded strict recorder recordFn) events u) :
    ∃ front written back, events = front ++ (written ++ back) ∧ Runs recordFn written () ∧
      (∀ event ∈ front ++ back, event.1 = .auditDegraded) := by
  unfold warnIfStrictAuditJustDegraded at run
  split at run
  · exact ⟨[], events, [], by simp, run, by simp⟩
  obtain ⟨pre, rest, rfl, later⟩ := runs_ask.mp run
  obtain ⟨written, ⟨⟩, back, rfl, wrote, tail⟩ := runs_bind.mp later
  refine ⟨[⟨.auditDegraded, pre⟩], written, back, rfl, wrote, ?_⟩
  split at tail
  · obtain ⟨rfl, -⟩ := runs_pure.mp tail
    simp
  · obtain ⟨post, last, rfl, done⟩ := runs_ask.mp tail
    obtain ⟨rfl, -⟩ := runs_pure.mp done
    simp

theorem books_of_checks (checks : ∀ event ∈ events, event.1 = .auditDegraded) : Books events := by
  intro event mem
  rw [checks event mem]
  rfl

/-- A deny with the trail asked after around it. -/
theorem warned_deny_runs
    (run : Runs (warnIfStrictAuditJustDegraded strict recorder (recordDeny recorder record)) events u) :
    Books events ∧ (recorder = true → Denied record.sessionID record.method record.observe events) := by
  obtain ⟨front, written, back, rfl, wrote, checks⟩ := warnIfStrictAuditJustDegraded_runs run
  obtain ⟨books, denied⟩ := recordDeny_runs wrote
  obtain ⟨ahead, behind⟩ := List.forall_mem_append.mp (books_of_checks checks)
  exact ⟨.append ahead (.append books behind), fun wired => ⟨record, by simp [denied, wired], rfl, rfl, rfl⟩⟩

theorem warned_allow_runs
    (run : Runs (warnIfStrictAuditJustDegraded strict recorder (recordAllow recorder record)) events u) :
    Contained events ∧ allows events = if recorder then [record] else [] := by
  obtain ⟨front, written, back, rfl, wrote, checks⟩ := warnIfStrictAuditJustDegraded_runs run
  obtain ⟨contained, allowed⟩ := recordAllow_runs wrote
  obtain ⟨ahead, behind⟩ := List.forall_mem_append.mp (books_of_checks checks)
  obtain ⟨⟨first, none'⟩, last, none''⟩ := And.intro (Books.quiet ahead) (Books.quiet behind)
  exact ⟨first.append (contained.append last), by simp [allowed, none', none'']⟩

/-! Exits. -/

/-- Nothing was sent to the upstream and no allow was written. -/
structure Inert (events : List Happening) : Prop where
  sent : upstreamCalls events = []
  allowed : allows events = []

theorem Books.inert (books : Books events) : Inert events := ⟨books.quiet.1.called, books.quiet.2⟩

theorem Inert.append (first : Inert front) (second : Inert back) :
    Inert (front ++ back) := ⟨by simp [first.sent, second.sent], by simp [first.allowed, second.allowed]⟩

variable (recorder : Bool) (sessionID method : Bytes) (msg : RpcMsg) (passed : List Happening → Prop)
  (relays : UpstreamReply → RpcMsg → Prop) in
/-- How a request that may be forwarded ends: what happened and the reply. `passed` is what
holds of all that came before the call of the upstream, `relays` how its reply becomes the
host's. -/
inductive Exit : List Happening → RpcMsg → Prop
  | held {events : List Happening} {reply : RpcMsg} (inert : Inert events)
      (own : reply.result = none) : Exit events reply
  | failed {front back : List Happening} {answer : Answer (.callUpstream msg)} {reply : RpcMsg}
      (before : Inert front) (through : passed front) (inert : Inert back)
      (denied : recorder = true → Denied sessionID method false back) (own : reply.result = none) :
      Exit (front ++ ⟨.callUpstream msg, answer⟩ :: back) reply
  | relayed {front back : List Happening} {up : UpstreamReply} {record : AllowRecord} {reply : RpcMsg}
      (before : Inert front) (through : passed front) (sent : upstreamCalls back = [])
      (allowed : allows back = if recorder then [record] else [])
      (session : record.sessionID = sessionID) (called : record.method = method) (same : relays up reply) :
      Exit
        (front ++ ⟨.callUpstream msg, .ok up⟩ :: back) reply

section Exit
variable {recorder : Bool} {sessionID method : Bytes} {msg : RpcMsg}
  {passed passed' : List Happening → Prop} {relays relays' : UpstreamReply → RpcMsg → Prop}
  {events : List Happening} {reply : RpcMsg}

section
variable (exit : Exit recorder sessionID method msg passed relays events reply)
include exit

/-- What comes before a request is asked belongs to what came before its forward. -/
theorem Exit.after (inert : Inert earlier) (through : ∀ front, passed front → passed' (earlier ++ front)) :
    Exit recorder sessionID method msg passed' relays (earlier ++ events) reply := by
  cases exit with
  | held quiet own => exact .held (inert.append quiet) own
  | failed before pass quiet denied own =>
    rw [← List.append_assoc]
    exact .failed (inert.append before) (through _ pass) quiet denied own
  | relayed before pass sent allowed session called same =>
    rw [← List.append_assoc]
    exact .relayed (inert.append before) (through _ pass) sent allowed session called same

/-- The reply passed on. -/
theorem Exit.replied (through : ∀ front, passed front → passed' front)
    (own : reply.result = none → reply'.result = none) (same : ∀ up, relays up reply → relays' up reply') :
    Exit recorder sessionID method msg passed' relays' events reply' := by
  cases exit with
  | held quiet none => exact .held quiet (own none)
  | failed before pass quiet denied none => exact .failed before (through _ pass) quiet denied (own none)
  | relayed before pass sent allowed session called relay =>
    exact .relayed before (through _ pass) sent allowed session called (same _ relay)

/-- At most one message crosses, the request itself, and what came before it passed. -/
theorem Exit.sent : upstreamCalls events = [] ∨ upstreamCalls events = [msg] ∧
      ∃ front answer back, events = front ++ ⟨.callUpstream msg, answer⟩ :: back ∧ passed front := by
  cases exit with
  | held quiet => exact .inl quiet.sent
  | failed before pass quiet =>
    refine .inr ⟨?_, _, _, _, rfl, pass⟩
    rw [upstreamCalls_append, before.sent]
    exact congrArg (msg :: ·) quiet.sent
  | relayed before pass sent =>
    refine .inr ⟨?_, _, _, _, rfl, pass⟩
    rw [upstreamCalls_append, before.sent]
    exact congrArg (msg :: ·) sent

end

end Exit

/-! The core. -/

/-- The gate of the audit trail let a call pass. -/
def GateOpen (strict recorder : Bool) (events : List Happening) : Prop :=
  strict = true → recorder = true →
    ∃ state : Degradation, ⟨.auditDegraded, state⟩ ∈ events ∧ state.degraded = false

theorem GateOpen.append (gate : GateOpen strict recorder events) (earlier later : List Happening) :
    GateOpen strict recorder (earlier ++ (events ++ later)) := by
  intro strict recorder
  obtain ⟨state, mem, whole⟩ := gate strict recorder
  exact ⟨state, by simp [mem], whole⟩

@[simp] theorem refusalResponse_result (x : Externals) (id : Option Bytes) (code : DenialCode)
    (conditionType target argument : Bytes) :
    (refusalResponse x id code conditionType target argument).result = none := by
  unfold refusalResponse
  split <;> rfl

@[simp] theorem refusalError_result (id : Option Bytes) (code : ℤ) (message : Bytes) :
    (refusalError id code message).result = none := by
  unfold refusalError
  split <;> rfl

section Core
variable {x : Externals} {fp : ForwardParams} {msg : RpcMsg} {id : CallIdentity} {dec : Verdict}
  {recordObligations : Bool} {allowDetails : UpstreamReply → AuditDetails}
  {events : List Happening} {reply : RpcMsg}

theorem finishDecision_runs (run : Runs fp.finishDecision events u) : Books events := by
  unfold ForwardParams.finishDecision at run
  split at run
  · obtain rfl := runs_ask_alone.mp run
    exact .cons rfl .nil
  · obtain ⟨rfl, -⟩ := runs_pure.mp run
    exact .nil

theorem recordUpstreamFailure_runs (run : Runs (fp.recordUpstreamFailure msg id err detail) events reply) :
    Books events ∧ (fp.recorder = true → Denied fp.sessionID id.method false events) ∧ reply.result = none := by
  obtain ⟨⟨⟩, wrote, rfl⟩ := runs_bind_pure.mp run
  obtain ⟨books, denied⟩ := warned_deny_runs wrote
  exact ⟨books, denied, refusalError_result ..⟩

theorem refuseUpstreamless_runs (run : Runs (fp.refuseUpstreamless x msg id dec) events reply) :
    Books events ∧ reply.result = none := by
  obtain ⟨⟨⟩, wrote, rfl⟩ := runs_bind_pure.mp run
  exact ⟨(recordDeny_runs wrote).1, refusalResponse_result ..⟩

theorem auditGateTripped_runs (run : Runs (auditGateTripped recorder strict) events tripped) :
    Books events ∧ (tripped = none → GateOpen strict recorder events) := by
  unfold auditGateTripped at run
  split at run
  · next off =>
    obtain ⟨rfl, -⟩ := runs_pure.mp run
    refine ⟨.nil, fun _ strict wired => ?_⟩
    simp [strict, wired] at off
  · obtain ⟨state, last, rfl, done⟩ := runs_ask.mp run
    obtain ⟨rfl, rfl⟩ := runs_pure.mp done
    refine ⟨.cons rfl .nil, fun whole _ _ => ⟨state, .head _, ?_⟩⟩
    simpa using whole

/-- The gate either lets the call pass, or is its end. -/
theorem strictAuditDenial_runs (run : Runs (fp.strictAuditDenial x msg id dec) events refused) :
    Books events ∧ (refused = none ∧ GateOpen fp.requireAuditStrict fp.recorder events ∨
      ∃ denied, refused = some denied ∧ denied.result = none) := by
  obtain ⟨asked, tripped, rest, rfl, gate, later⟩ := runs_bind.mp run
  have answered := auditGateTripped_runs gate
  cases tripped with
  | none =>
    obtain ⟨rfl, rfl⟩ := runs_pure.mp later
    rw [List.append_nil]
    exact ⟨answered.1, .inl ⟨rfl, answered.2 rfl⟩⟩
  | some state =>
    obtain ⟨⟨⟩, wrote, rfl⟩ := runs_bind_pure.mp later
    exact ⟨answered.1.append (recordDeny_runs wrote).1, .inr ⟨_, rfl, refusalResponse_result ..⟩⟩

/-- A reply of the upstream is recorded as allowed and relayed with the obligations applied,
or it is not relayed at all. -/
theorem relayReply_runs (run : Runs (fp.relayReply x msg id dec recordObligations allowDetails up) events reply) :
    (Books events ∧ (fp.recorder = true → Denied fp.sessionID id.method false events) ∧ reply.result = none) ∨
    ∃ resp record, redactReply x dec up.msg = some resp ∧ reply = { resp with id := msg.id } ∧
      Contained events ∧ (allows events = if fp.recorder then [record] else []) ∧
      record.sessionID = fp.sessionID ∧ record.method = id.method := by
  unfold ForwardParams.relayReply at run
  cases redacted : redactReply x dec up.msg with
  | none =>
    rw [redacted] at run
    obtain ⟨⟨⟩, wrote, rfl⟩ := runs_bind_pure.mp run
    obtain ⟨books, denied⟩ := warned_deny_runs wrote
    exact .inl ⟨books, denied, refusalError_result ..⟩
  | some resp =>
    rw [redacted] at run
    obtain ⟨ended, ⟨⟩, rest, rfl, ending, later⟩ := runs_bind.mp run
    obtain ⟨⟨⟩, wrote, rfl⟩ := runs_bind_pure.mp later
    obtain ⟨before, nothing⟩ := (finishDecision_runs ending).quiet
    obtain ⟨contained, allowed⟩ := warned_allow_runs wrote
    exact .inr ⟨resp, _, rfl, rfl, before.append contained, by rw [allows_append, nothing]; exact allowed, rfl, rfl⟩

/-- What came before a call of the upstream: the gate was open, and a denial that is
forwarded all the same was recorded as one. -/
structure ForwardParams.Passed (fp : ForwardParams) (method : Bytes) (observe : Bool)
    (events : List Happening) : Prop where
  gate : GateOpen fp.requireAuditStrict fp.recorder events
  recorded : observe = true → fp.recorder = true → Denied fp.sessionID method true events

/-- The reply of the upstream with the obligations of the decision applied. -/
def Relays (x : Externals) (msg : RpcMsg) (dec : Verdict) (up : UpstreamReply) (reply : RpcMsg) : Prop :=
  ∃ resp, redactReply x dec up.msg = some resp ∧ reply = { resp with id := msg.id }

/-- The core asks for no decision. -/
theorem forwardGated_exit
    (run : Runs (fp.forwardGated x msg id dec observe recordObligations allowDetails) events reply) :
    questions events = [] ∧
      Exit fp.recorder fp.sessionID id.method msg (fp.Passed id.method observe) (Relays x msg dec) events reply := by
  obtain ⟨gated, refused, rest, rfl, gate, later⟩ := runs_bind.mp run
  obtain ⟨books, ⟨rfl, open'⟩ | ⟨denied, rfl, own⟩⟩ := strictAuditDenial_runs gate
  case inr =>
    obtain ⟨rfl, rfl⟩ := runs_pure.mp later
    rw [List.append_nil]
    exact ⟨books.quiet.1.asked, .held books.inert own⟩
  obtain ⟨written, ⟨⟩, last, rfl, wrote, forward⟩ := runs_bind.mp later
  have downgrade : Books written ∧
      (observe = true → fp.recorder = true → Denied fp.sessionID id.method true written) := by
    cases observe with
    | false =>
      obtain ⟨rfl, -⟩ := runs_pure.mp wrote
      exact ⟨.nil, nofun⟩
    | true =>
      obtain ⟨quiet, denied⟩ := warned_deny_runs wrote
      exact ⟨quiet, fun _ => denied⟩
  have before : Books (gated ++ written) := books.append downgrade.1
  have front := before.inert
  have unasked {back : List Happening} (contained : questions back = []) : questions (gated ++ written ++ back) = [] := by
    rw [questions_append, before.quiet.1.asked, contained]
    rfl
  have passed : fp.Passed id.method observe (gated ++ written) :=
    ⟨open'.append [] written, fun downgraded wired => by
      obtain ⟨record, mem, same⟩ := downgrade.2 downgraded wired
      exact ⟨record, by simp [mem], same⟩⟩
  rw [← List.append_assoc]
  split at forward
  · obtain ⟨quiet, own⟩ := refuseUpstreamless_runs forward
    exact ⟨unasked quiet.quiet.1.asked, .held (front.append quiet.inert) own⟩
  · obtain ⟨answer, back, rfl, answered⟩ := runs_ask.mp forward
    cases answer with
    | error err =>
      obtain ⟨quiet, denied, own⟩ := recordUpstreamFailure_runs answered
      exact ⟨unasked quiet.quiet.1.asked, .failed front passed quiet.inert denied own⟩
    | ok up =>
      obtain ⟨quiet, denied, own⟩ | ⟨resp, record, redacted, rfl, sent, allowed, session, method⟩ :=
        relayReply_runs answered
      · exact ⟨unasked quiet.quiet.1.asked, .failed front passed quiet.inert denied own⟩
      · exact ⟨unasked sent.asked, .relayed front passed sent.called allowed session method ⟨resp, redacted, rfl⟩⟩

/-- A decision that forwards its call: allow, or a denial that is only observed. -/
def ForwardParams.Forwards (fp : ForwardParams) (dec : Verdict) : Prop :=
  dec.decision = decisionAllow ∨ isObserveDeny (normalizeDenial dec.denial) fp.audit dec.auditOnly = true

theorem replyFor_result (own : reply.result = none) : (replyFor msg reply).result = none := by
  unfold replyFor
  split
  · rfl
  · exact own

theorem enforcedForwardCore_exit
    (run : Runs (enforcedForwardCore x fp msg id dec recordObligations allowDetails) events reply) :
    questions events = [] ∧ Exit fp.recorder fp.sessionID id.method msg
      (fun front => fp.Forwards dec ∧ fp.Passed id.method (dec.decision ≠ decisionAllow) front)
      (fun up reply => ∃ sent, Relays x msg dec up sent ∧ reply = replyFor msg sent) events reply := by
  obtain ⟨sent, core, rfl⟩ := runs_map.mp run
  have relay : ∀ up, Relays x msg dec up sent →
      ∃ same, Relays x msg dec up same ∧ replyFor msg sent = replyFor msg same :=
    fun up relayed => ⟨sent, relayed, rfl⟩
  split at core
  · next allow =>
    obtain ⟨unasked, exit⟩ := forwardGated_exit core
    refine ⟨unasked, exit.replied (fun front passed => ⟨.inl allow, ?_⟩) replyFor_result relay⟩
    exact ⟨passed.gate, fun deny => absurd allow (of_decide_eq_true deny)⟩
  · split at core
    · next observes =>
      obtain ⟨unasked, exit⟩ := forwardGated_exit core
      refine ⟨unasked, exit.replied (fun front passed => ⟨.inr ?_, ?_⟩) replyFor_result relay⟩
      · exact (Bool.and_eq_true_iff.mp observes).1
      · exact ⟨passed.gate, fun _ => passed.recorded rfl⟩
    · obtain ⟨⟨⟩, wrote, rfl⟩ := runs_bind_pure.mp core
      have books := (recordDeny_runs wrote).1
      exact ⟨books.quiet.1.asked, .held books.inert (replyFor_result (refusalResponse_result ..))⟩

/-- A denial on a path without an upstream. -/
theorem enforcedForwardCore_upstreamless (deny : dec.decision ≠ decisionAllow) (none' : fp.callUpstream = false)
    (run : Runs (enforcedForwardCore x fp msg id dec recordObligations allowDetails) events reply) :
    Books events ∧ reply.result = none := by
  obtain ⟨sent, core, rfl⟩ := runs_map.mp run
  have observes : ¬ fp.observes dec = true := by simp [ForwardParams.observes, none']
  rw [if_neg deny, if_neg observes] at core
  obtain ⟨⟨⟩, wrote, rfl⟩ := runs_bind_pure.mp core
  exact ⟨(recordDeny_runs wrote).1, replyFor_result (refusalResponse_result ..)⟩

end Core

end Eunox.Transport
