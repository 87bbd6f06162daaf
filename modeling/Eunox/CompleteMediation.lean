import Eunox.AssocList
import Eunox.HostDispatch
import Eunox.ForwardExits

/-! No host message reaches the upstream around the decision point. -/
namespace Eunox.Transport
open ByteString JsonText JsonValue Interaction

/-! Tables. -/

/-- The method of an enforced handler. -/
def MethodHandler.method : MethodHandler → Option Bytes
  | .toolsCall => some methodToolsCall
  | .resourcesRead => some methodResourcesRead
  | .resourcesSubscribe => some methodResourcesSubscribe
  | .resourcesUnsubscribe => some methodResourcesUnsubscribe
  | .promptsGet => some methodPromptsGet
  | .initResponder | .ping | .list => none

def listMethods : List Bytes := [methodToolsList, methodResourcesList, methodPromptsList]

theorem registry_of_tables (found : (methodRegistry.lookup method).filter (fun spec =>
      publishedRevisions.contains rev && spec.revisions.contains rev) = some spec) :
    (method, spec) ∈ methodRegistry :=
  AssocList.mem_of_lookup (Option.filter_eq_some_iff.mp found).1

/-- A handler in the decide table is the one of its method. -/
theorem method_of_decide (decided : (tablesFor rev).decide method = some handler) : handler.method = some method := by
  obtain ⟨spec, found, decides⟩ := Option.bind_eq_some_iff.mp decided
  have own : ∀ entry ∈ methodRegistry, ∀ handler ∈ entry.2.decide, handler.method = some entry.1 := by
    decide
  exact own _ (registry_of_tables found) handler decides

/-- Nothing is answered here by an enforced handler, and listings only under their methods. -/
theorem handler_of_here (here : (tablesFor rev).here method = some handler) :
    handler = .initResponder ∨ handler = .ping ∨ handler = .list ∧ method ∈ listMethods := by
  obtain ⟨spec, found, local'⟩ := Option.bind_eq_some_iff.mp here
  have own : ∀ entry ∈ methodRegistry, ∀ handler ∈ entry.2.here,
      handler = .initResponder ∨ handler = .ping ∨ handler = .list ∧ entry.1 ∈ listMethods := by
    decide
  split at local'
  · cases local'
  · exact own _ (registry_of_tables found) handler local'

/-! Handlers. -/

inductive TargetKind where
  | tool | resource | prompt
  deriving DecidableEq

/-- What a question is about. -/
def Question.target : Question → Option (TargetKind × Bytes)
  | .tool name _ _ _ => some (.tool, name)
  | .resourceRead uri _ => some (.resource, uri)
  | .resourceCancel uri => some (.resource, uri)
  | .promptGet name _ => some (.prompt, name)
  | .sampling _ => none

/-- The target the parameters of a request decode to. -/
def MethodHandler.decodedTarget (x : Externals) (params : Bytes) : MethodHandler → Option (TargetKind × Bytes)
  | .toolsCall => (decodeToolCallParams x params).map fun call => (.tool, call.name)
  | .resourcesRead | .resourcesSubscribe | .resourcesUnsubscribe =>
    (decodeResourceParams x params).map fun uri => (.resource, uri)
  | .promptsGet => (decodePromptParams x params).map fun name => (.prompt, name)
  | .initResponder | .ping | .list => none

section Handlers
variable {x : Externals} {d : DispatchParams} {msg : RpcMsg} {events : List Happening} {reply : RpcMsg}

theorem recordKillDenial_runs (run : Runs (recordKillDenial x msg recorder deny subj) events reply) :
    Books events ∧ reply.result = none := by
  obtain ⟨⟨⟩, wrote, rfl⟩ := runs_bind_pure.mp run
  exact ⟨(recordDeny_runs wrote).1, rfl⟩

theorem inert_checkKill (sessionID : Bytes) (answer : Option Verdict) (books : Books rest) :
    Inert (⟨.checkKill sessionID, answer⟩ :: rest) := ⟨books.quiet.1.called, books.quiet.2⟩

/-- The kill switch lets a request pass, or its refusal is the end. -/
theorem killDenied_runs {f : Option RpcMsg → Action RpcMsg} (refuses : ∀ resp, f (some resp) = pure resp)
    (run : Runs (d.killDenied x msg >>= f) events reply) : (Inert events ∧ reply.result = none) ∨
      ∃ rest, events = ⟨.checkKill d.sessionID, (none : Option Verdict)⟩ :: rest ∧ Runs (f none) rest reply := by
  obtain ⟨asked, refused, rest, rfl, kill, later⟩ := runs_bind.mp run
  obtain ⟨answer, last, rfl, denied⟩ := runs_ask.mp kill
  cases answer with
  | none =>
    obtain ⟨rfl, rfl⟩ := runs_pure.mp denied
    exact .inr ⟨rest, rfl, later⟩
  | some deny =>
    obtain ⟨resp, recorded, rfl⟩ := runs_map.mp denied
    obtain ⟨books, own⟩ := recordKillDenial_runs recorded
    rw [refuses] at later
    obtain ⟨rfl, rfl⟩ := runs_pure.mp later
    exact .inl ⟨inert_checkKill _ _ (by simpa using books), own⟩

theorem malformedDeny_runs (run : Runs (d.malformedDeny x msg reason) events reply) :
    Inert events ∧ reply.result = none := by
  obtain held | ⟨rest, rfl, later⟩ := killDenied_runs (fun _ => rfl) run
  · exact held
  · obtain ⟨⟨⟩, wrote, rfl⟩ := runs_bind_pure.mp later
    exact ⟨inert_checkKill d.sessionID none (recordDeny_runs wrote).1, rfl⟩

/-- What a decided request ends in. -/
abbrev DispatchParams.DecidedExit (d : DispatchParams) (x : Externals) (msg : RpcMsg) (method : Bytes)
    (dec : Verdict) : List Happening → RpcMsg → Prop :=
  Exit d.recorder d.sessionID method msg
    (fun front => d.Forwards dec ∧ d.Passed method (dec.decision ≠ decisionAllow) front)
    (fun up reply => ∃ sent, Relays x msg dec up sent ∧ reply = replyFor msg sent)

theorem decideAndForward_runs {id : CallIdentity}
    (run : Runs (d.decideAndForward x msg question id recordObligations allowDetails) events reply) :
    ∃ (dec : Verdict) (rest : List Happening),
      events = ⟨.decide d.sessionID d.sourceIP question, dec⟩ :: rest ∧ questions rest = [] ∧
      d.DecidedExit x msg id.method dec rest reply := by
  obtain ⟨dec, rest, rfl, later⟩ := runs_ask.mp run
  obtain ⟨ended, ⟨⟩, core, rfl, ending, forward⟩ := runs_bind.mp later
  have books := finishDecision_runs ending
  obtain ⟨unasked, exit⟩ := enforcedForwardCore_exit forward
  refine ⟨dec, ended ++ core, rfl, ?_, exit.after books.inert ?_⟩
  · rw [questions_append, books.quiet.1.asked, unasked]
    rfl
  · rintro front ⟨forwards, passed⟩
    refine ⟨forwards, by simpa using passed.gate.append ended [], fun denied wired => ?_⟩
    obtain ⟨record, mem, same⟩ := passed.recorded denied wired
    exact ⟨record, by simp [mem], same⟩

/-- What an enforced request ends in: it is refused as it stands, or the decision point is
asked about its target. -/
def DispatchParams.EnforcedEnd (d : DispatchParams) (x : Externals) (msg : RpcMsg) (handler : MethodHandler)
    (method : Bytes) (events : List Happening) (reply : RpcMsg) : Prop :=
  Inert events ∧ reply.result = none ∨
    ∃ (target : TargetKind × Bytes) (question : Question) (dec : Verdict) (rest : List Happening),
      handler.decodedTarget x msg.params = some target ∧ target.2 ≠ [] ∧ question.target = some target ∧
      events = ⟨.decide d.sessionID d.sourceIP question, dec⟩ :: rest ∧ questions rest = [] ∧
      d.DecidedExit x msg method dec rest reply

theorem enforcedEnd_decided {id : CallIdentity}
    (decoded : handler.decodedTarget x msg.params = some target) (named : ¬ target.2.isEmpty = true)
    (about : question.target = some target)
    (run : Runs (d.decideAndForward x msg question id recordObligations allowDetails) events reply) :
    d.EnforcedEnd x msg handler id.method events reply := by
  obtain ⟨dec, rest, rfl, asked, exit⟩ := decideAndForward_runs run
  exact .inr ⟨target, question, dec, rest, decoded, by simpa using named, about, rfl, asked, exit⟩

theorem dispatchToolsCall_ends (run : Runs (dispatchToolsCall x d msg) events reply) :
    d.EnforcedEnd x msg .toolsCall methodToolsCall events reply := by
  unfold dispatchToolsCall at run
  split at run
  · exact .inl (malformedDeny_runs run)
  next params decoded =>
  have target : MethodHandler.decodedTarget x msg.params .toolsCall = some (.tool, params.name) := by
    simp [MethodHandler.decodedTarget, decoded]
  split at run
  · exact .inl (malformedDeny_runs run)
  next named =>
  split at run
  · split at run
    · exact .inl (malformedDeny_runs run)
    · exact enforcedEnd_decided target named rfl run
  · exact enforcedEnd_decided target named rfl run

/-- The three handlers of a resource. -/
theorem dispatchResource_ends (reads : handler.decodedTarget x msg.params =
      (decodeResourceParams x msg.params).map fun uri => (.resource, uri))
    (about : ∀ uri, (question uri).target = some (.resource, uri))
    (run : Runs (dispatchResource x d msg method kind question recordObligations) events reply) :
    d.EnforcedEnd x msg handler method events reply := by
  unfold dispatchResource at run
  split at run
  · exact .inl (malformedDeny_runs run)
  next uri decoded =>
  have target : handler.decodedTarget x msg.params = some (.resource, uri) := by simp [reads, decoded]
  split at run
  · exact .inl (malformedDeny_runs run)
  · next named => exact enforcedEnd_decided target named (about uri) run

theorem dispatchPromptsGet_ends (run : Runs (dispatchPromptsGet x d msg) events reply) :
    d.EnforcedEnd x msg .promptsGet methodPromptsGet events reply := by
  unfold dispatchPromptsGet at run
  split at run
  · exact .inl (malformedDeny_runs run)
  next name decoded =>
  have target : MethodHandler.decodedTarget x msg.params .promptsGet = some (.prompt, name) := by
    simp [MethodHandler.decodedTarget, decoded]
  split at run
  · exact .inl (malformedDeny_runs run)
  · next named => exact enforcedEnd_decided target named rfl run

theorem runHandler_ends (enforced : handler.method = some method)
    (run : Runs (runHandler x d msg handler) events reply) :
    d.EnforcedEnd x msg handler method events reply := by
  cases handler with
  | toolsCall => cases enforced; exact dispatchToolsCall_ends run
  | resourcesRead | resourcesSubscribe | resourcesUnsubscribe =>
    cases enforced
    exact dispatchResource_ends rfl (fun _ => rfl) run
  | promptsGet => cases enforced; exact dispatchPromptsGet_ends run
  | initResponder | ping | list => cases enforced

/-- A listing keeps the error of the upstream, and has a result where the upstream had one. -/
def ListRelays (msg : RpcMsg) (up : UpstreamReply) (reply : RpcMsg) : Prop :=
  reply.id = msg.id ∧ reply.error = up.msg.error ∧ reply.result.isSome = up.msg.result.isSome

theorem filterListing_runs (run : Runs (d.filterListing x msg up) events listed) :
    (Contained events ∧ allows events = []) ∧ listed.1.msg.error = up.msg.error ∧
    listed.1.msg.result.isSome = up.msg.result.isSome := by
  unfold DispatchParams.filterListing at run
  split at run
  · next result got =>
    split at run
    · obtain ⟨filtered, rest, rfl, later⟩ := runs_ask.mp run
      obtain ⟨rfl, rfl⟩ := runs_pure.mp later
      exact ⟨⟨⟨rfl, rfl, rfl⟩, rfl⟩, rfl, by simp [got]⟩
    · split at run
      · obtain ⟨count, rest, rfl, later⟩ := runs_ask.mp run
        obtain ⟨rfl, rfl⟩ := runs_pure.mp later
        exact ⟨⟨⟨rfl, rfl, rfl⟩, rfl⟩, rfl, rfl⟩
      · obtain ⟨rfl, rfl⟩ := runs_pure.mp run
        exact ⟨⟨⟨rfl, rfl, rfl⟩, rfl⟩, rfl, rfl⟩
  · obtain ⟨rfl, rfl⟩ := runs_pure.mp run
    exact ⟨⟨⟨rfl, rfl, rfl⟩, rfl⟩, rfl, rfl⟩

/-- A listing asks for no decision. -/
theorem dispatchList_exit (run : Runs (dispatchList x d msg) events reply) :
    questions events = [] ∧
      Exit d.recorder d.sessionID msg.method msg (d.Passed msg.method false) (ListRelays msg) events reply := by
  obtain ⟨gated, refused, rest, rfl, gate, later⟩ := runs_bind.mp run
  obtain ⟨books, ⟨rfl, whole⟩ | ⟨denied, rfl, own⟩⟩ := strictAuditDenial_runs gate
  case inr =>
    obtain ⟨rfl, rfl⟩ := runs_pure.mp later
    rw [List.append_nil]
    exact ⟨books.quiet.1.asked, .held books.inert own⟩
  have passed : d.Passed msg.method false gated := ⟨whole, nofun⟩
  have unasked {back : List Happening} (contained : questions back = []) : questions (gated ++ back) = [] := by
    rw [questions_append, books.quiet.1.asked, contained]
    rfl
  dsimp only at later
  split at later
  · obtain ⟨quiet, own⟩ := refuseUpstreamless_runs later
    exact ⟨unasked quiet.quiet.1.asked, .held (books.append quiet).inert own⟩
  obtain ⟨answer, back, rfl, answered⟩ := runs_ask.mp later
  cases answer with
  | error err =>
    obtain ⟨quiet, denied, own⟩ := recordUpstreamFailure_runs answered
    exact ⟨unasked quiet.quiet.1.asked, .failed books.inert passed quiet.inert denied own⟩
  | ok up =>
    dsimp only at answered
    split at answered
    · obtain ⟨⟨⟩, wrote, rfl⟩ := runs_bind_pure.mp answered
      obtain ⟨quiet, denied⟩ := warned_deny_runs wrote
      exact ⟨unasked quiet.quiet.1.asked, .failed books.inert passed quiet.inert denied rfl⟩
    · obtain ⟨asked, listed, last, rfl, filtered, recorded⟩ := runs_bind.mp answered
      obtain ⟨⟨before, nothing⟩, error, result⟩ := filterListing_runs filtered
      obtain ⟨⟨⟩, wrote, rfl⟩ := runs_bind_pure.mp recorded
      obtain ⟨contained, allowed⟩ := warned_allow_runs wrote
      have after := before.append contained
      exact ⟨unasked after.asked, .relayed books.inert passed after.called
        (by rw [allows_append, nothing]; exact allowed) rfl rfl ⟨rfl, error, result⟩⟩

/-! Refusals of routing. -/

theorem forCategory_runs {recs : RefusalRecorders} (run : Runs (recs.forCategory category) events admitted) :
    Books events := by
  obtain run | run := runs_ite run
  · obtain ⟨rfl, -⟩ := runs_pure.mp run
    exact .nil
  obtain run | run := runs_ite run
  · obtain ⟨rfl, -⟩ := runs_pure.mp run
    exact .nil
  · obtain rfl := runs_ask_alone.mp run
    exact .cons rfl .nil

theorem recordRolledUp_runs (run : Runs (recordRolledUp suppressed record) events u) : Books events := by
  unfold recordRolledUp at run
  split at run
  · obtain ⟨rfl, -⟩ := runs_pure.mp run
    exact .nil
  · exact (recordDeny_runs run).1
  · exact (recordDeny_runs run).1

theorem refuseUnroutable_runs {rev : Bytes} (run : Runs (refuseUnroutable x rev fp recs subj msg) events reply) :
    Books events ∧ reply.result = none := by
  obtain ⟨asked, admitted, rest, rfl, category, core⟩ := runs_bind.mp run
  have deny : lit "deny" ≠ decisionAllow := by decide
  obtain ⟨books, own⟩ := enforcedForwardCore_upstreamless deny rfl core
  exact ⟨(forCategory_runs category).append books, own⟩

end Handlers

/-! The two framings. -/

/-- What stands before the call of the upstream for an enforced request: the decision point
was asked about its target, once, and its answer forwards the call. -/
structure DispatchParams.Decided (d : DispatchParams) (x : Externals) (msg : RpcMsg) (rev : Bytes)
    (front events : List Happening) : Prop where
  decided : ∃ (handler : MethodHandler) (target : TargetKind × Bytes) (question : Question) (dec : Verdict),
    (tablesFor rev).decide msg.method = some handler ∧
    handler.decodedTarget x msg.params = some target ∧ target.2 ≠ [] ∧
    question.target = some target ∧ questions front = [(question, dec)] ∧
    questions events = [(question, dec)] ∧ d.Forwards dec

/-- What stands before the call of the upstream for a listing. -/
structure DispatchParams.Listed (d : DispatchParams) (msg : RpcMsg) (rev : Bytes)
    (front : List Happening) : Prop where
  listing : ((tablesFor rev).request msg.method).1 = some .list
  method : msg.method ∈ listMethods
  alive : ⟨.checkKill d.sessionID, (none : Option Verdict)⟩ ∈ front

/-- What reaches the upstream of a request: nothing, or the request itself, once. -/
def DispatchParams.Mediated (d : DispatchParams) (x : Externals) (msg : RpcMsg) (rev : Bytes)
    (events : List Happening) : Prop :=
  upstreamCalls events = [] ∨ upstreamCalls events = [msg] ∧
    ∃ (front : List Happening) (answer : Answer (.callUpstream msg)) (back : List Happening),
      events = front ++ ⟨.callUpstream msg, answer⟩ :: back ∧
      (d.Decided x msg rev front events ∨ d.Listed msg rev front)

section Framings
variable {x : Externals} {d : DispatchParams} {msg : RpcMsg} {rev : Bytes} {events : List Happening}
  {reply : RpcMsg}

/-- The ends of a request: it is decided, it is a listing of a live session, or nothing of
it passes; then a result is the proxy's own. -/
inductive DispatchParams.Ends (d : DispatchParams) (x : Externals) (msg : RpcMsg) (rev : Bytes) :
    List Happening → RpcMsg → Prop
  | enforced {handler : MethodHandler} {events : List Happening} {reply : RpcMsg}
      (decided : (tablesFor rev).decide msg.method = some handler)
      (ends : d.EnforcedEnd x msg handler msg.method events reply) : d.Ends x msg rev events reply
  | listing {rest : List Happening} {reply : RpcMsg} (undecided : (tablesFor rev).decide msg.method = none)
      (here : (tablesFor rev).here msg.method = some .list) (listed : msg.method ∈ listMethods)
      (run : Runs (dispatchList x d msg) rest reply) :
      d.Ends x msg rev (⟨.checkKill d.sessionID, (none : Option Verdict)⟩ :: rest) reply
  | held {events : List Happening} {reply : RpcMsg} (undecided : (tablesFor rev).decide msg.method = none)
      (inert : Inert events)
      (own : reply.result = none ∨ (tablesFor rev).here msg.method ≠ some .list) :
      d.Ends x msg rev events reply

/-- A request the kill switch let pass, and the handler that answers it here. -/
theorem ends_here (undecided : (tablesFor rev).decide msg.method = none)
    (here : (tablesFor rev).here msg.method = some handler)
    (run : Runs (runHandler x d msg handler) rest reply) :
    d.Ends x msg rev (⟨.checkKill d.sessionID, (none : Option Verdict)⟩ :: rest) reply := by
  obtain rfl | rfl | ⟨rfl, listed⟩ := handler_of_here here
  · refine .held undecided ?_ (.inr (by simp [here]))
    obtain run | run := runs_ite run
    · obtain ⟨rfl, -⟩ := runs_pure.mp run
      exact ⟨rfl, rfl⟩
    · obtain rfl := runs_ask_alone.mp run
      exact ⟨rfl, rfl⟩
  · obtain ⟨rfl, -⟩ := runs_pure.mp run
    exact .held undecided ⟨rfl, rfl⟩ (.inr (by simp [here]))
  · exact .listing undecided here listed run

theorem dispatchRequest_ends (run : Runs (dispatchRequest x d msg rev) events reply) :
    ∃ sent, reply = replyFor msg sent ∧ d.Ends x msg rev events sent := by
  obtain ⟨sent, routed, rfl⟩ := runs_map.mp run
  refine ⟨sent, rfl, ?_⟩
  cases decided : (tablesFor rev).decide msg.method with
  | some handler =>
    have request : (tablesFor rev).request msg.method = (some handler, true) := by
      simp [RevisionTables.request, decided]
    rw [request] at routed
    exact .enforced decided (runHandler_ends (method_of_decide decided) routed)
  | none =>
    have request : (tablesFor rev).request msg.method = ((tablesFor rev).here msg.method, false) := by
      simp [RevisionTables.request, decided]
    rw [request] at routed
    cases here : (tablesFor rev).here msg.method with
    | some handler =>
      rw [here] at routed
      obtain ⟨inert, own⟩ | ⟨rest, rfl, later⟩ := killDenied_runs (fun _ => rfl) routed
      · exact .held decided inert (.inl own)
      · exact ends_here decided here later
    | none =>
      rw [here] at routed
      obtain ⟨inert, own⟩ | ⟨rest, rfl, later⟩ := killDenied_runs (fun _ => rfl) routed
      · exact .held decided inert (.inl own)
      · obtain ⟨books, own⟩ := refuseUnroutable_runs later
        exact .held decided (inert_checkKill d.sessionID none books) (.inl own)

theorem mediated_of_enforced (decide' : (tablesFor rev).decide msg.method = some handler)
    (ends : d.EnforcedEnd x msg handler method events reply) : d.Mediated x msg rev events := by
  obtain ⟨inert, -⟩ | ⟨target, question, dec, rest, decoded, named, about, rfl, once, exit⟩ := ends
  · exact .inl inert.sent
  obtain none' | ⟨one, front, answer, back, rfl, forwards, -⟩ := exit.sent
  · exact .inl none'
  rw [questions_append, List.append_eq_nil_iff] at once
  refine .inr ⟨one, ⟨.decide d.sessionID d.sourceIP question, dec⟩ :: front, answer, back, rfl, .inl ⟨?_⟩⟩
  refine ⟨handler, target, question, dec, decide', decoded, named, about, ?_, ?_, forwards⟩
  · exact congrArg ((question, dec) :: ·) once.1
  · refine congrArg ((question, dec) :: ·) ?_
    rw [← questions, questions_append, once.1, once.2]
    rfl

theorem dispatchRequest_mediated (run : Runs (dispatchRequest x d msg rev) events reply) :
    d.Mediated x msg rev events ∧ (((tablesFor rev).request msg.method).1 = none → upstreamCalls events = []) := by
  obtain ⟨sent, -, ends⟩ := dispatchRequest_ends run
  cases ends with
  | enforced decided ends =>
    refine ⟨mediated_of_enforced decided ends, fun unmapped => ?_⟩
    simp [RevisionTables.request, decided] at unmapped
  | held _ inert => exact ⟨.inl inert.sent, fun _ => inert.sent⟩
  | listing undecided here listed run =>
    have mapped : ((tablesFor rev).request msg.method).1 = some .list := by
      simp [RevisionTables.request, undecided, here]
    refine ⟨?_, fun unmapped => by simp [mapped] at unmapped⟩
    obtain nothing | ⟨one, front, answer, back, rfl, -⟩ := (dispatchList_exit run).2.sent
    · exact .inl nothing
    · exact .inr ⟨one, ⟨.checkKill d.sessionID, (none : Option Verdict)⟩ :: front, answer, back, rfl,
        .inr ⟨mapped, listed, .head _⟩⟩

/-- A notification is forwarded only outside the decide table, where its disposition says so
and the kill switch lets it. -/
theorem admission_mediated {g : HostNotificationGate} (run : Runs (g.admission x msg rev) events outcome) :
    upstreamCalls events = [] ∧ (outcome = .forward → (tablesFor rev).enforces msg.method = false ∧
      (tablesFor rev).notifications msg.method = some .forward ∧
      ⟨.checkKill g.killSession, (none : Option Verdict)⟩ ∈ events) := by
  unfold HostNotificationGate.admission at run
  dsimp only at run
  split at run
  · obtain ⟨rfl, rfl⟩ := runs_pure.mp run
    exact ⟨rfl, nofun⟩
  obtain ⟨answer, rest, rfl, later⟩ := runs_ask.mp run
  cases answer with
  | some kill =>
    obtain ⟨asked, admitted, last, rfl, category, drop⟩ := runs_bind.mp later
    obtain ⟨⟨⟩, wrote, rfl⟩ := runs_bind_pure.mp drop
    exact ⟨(inert_checkKill _ _ ((forCategory_runs category).append (recordRolledUp_runs wrote))).sent, nofun⟩
  | none =>
    dsimp only at later
    split at later
    · obtain ⟨rfl, rfl⟩ := runs_pure.mp later
      exact ⟨rfl, nofun⟩
    split at later
    · obtain ⟨asked, admitted, last, rfl, category, drop⟩ := runs_bind.mp later
      obtain ⟨⟨⟩, wrote, rfl⟩ := runs_bind_pure.mp drop
      exact ⟨(inert_checkKill _ _ ((forCategory_runs category).append (recordRolledUp_runs wrote))).sent, nofun⟩
    next outside =>
    split at later
    · next forward =>
      obtain ⟨rfl, rfl⟩ := runs_pure.mp later
      exact ⟨rfl, fun _ => ⟨by simpa using outside, forward, .head _⟩⟩
    · obtain ⟨reply, unroutable, rfl⟩ := runs_bind_pure.mp later
      exact ⟨(inert_checkKill _ _ (refuseUnroutable_runs unroutable).1).sent, nofun⟩

end Framings

/-- Of every host message at most the message itself reaches the upstream: a request the
decision point was asked about and let pass, a listing of a live session, or a notification
of a live session that its revision forwards. -/
theorem host_messages_mediated (x : Externals) (msg : RpcMsg) (rev : Bytes) :
    (∀ (d : DispatchParams) (events : List Happening) (reply : RpcMsg),
      Runs (dispatchRequest x d msg rev) events reply → d.Mediated x msg rev events ∧
        (((tablesFor rev).request msg.method).1 = none → upstreamCalls events = [])) ∧
    ∀ (g : HostNotificationGate) (events : List Happening) (outcome : NotificationOutcome),
      Runs (g.admission x msg rev) events outcome → upstreamCalls events = [] ∧ (outcome = .forward →
          (tablesFor rev).enforces msg.method = false ∧
          (tablesFor rev).notifications msg.method = some .forward ∧
          ⟨.checkKill g.killSession, (none : Option Verdict)⟩ ∈ events) :=
  ⟨fun _ _ _ => dispatchRequest_mediated, fun _ _ _ => admission_mediated⟩

/-- Outside code that changes nothing. -/
def plainExternals : Externals where
  printer := ⟨fun _ => "", fun _ => "", fun _ => "", fun _ => "", fun _ => ""⟩
  redact := fun result _ => some result
  fold := id
  parseContextManifest := fun _ => .ok none
  effectReceipt := fun _ _ _ => none

/-- Every question is allowed, and every call answered with an empty object. -/
def allowing : (q : Query) → Answer q
  | .checkKill _ => (none : Option Verdict)
  | .decide _ _ _ => ({ decision := decisionAllow } : Verdict)
  | .callUpstream msg =>
    (.ok ⟨{ id := msg.id, result := some (lit "\x7b\x7d") }, none⟩ : Except UpstreamFailure UpstreamReply)
  | .auditDegraded => (⟨false, [], []⟩ : Degradation)
  | .filterList _ _ result _ => (⟨result, 0, 0⟩ : ListFilterResult)
  | .recordObservedToolHashes _ _ _ => (0 : ℤ)
  | .buildInit msg => ({ id := msg.id } : RpcMsg)
  | .admitRefusal _ => (some 0 : Option ℕ)
  | .forward _ => ForwardOutcome.delivered
  | .anchorSplit | .decideLock => false
  | .recordAllow _ | .recordDeny _ | .endDecision | .answerInitiator _ _ _ | .endTurn => ()

def plainLeg : DispatchParams where
  recorder := true
  audit := false
  sessionID := lit "s"
  upstreamTimeMs := 0
  callUpstream := true
  endDecision := false
  requireAuditStrict := true
  sourceIP := []
  buildInit := true
  receipts := false
  honorAttribution := false
  limited := false

def toolRequest : RpcMsg where
  id := some (lit "1")
  method := methodToolsCall
  params := lit "\x7b\"name\":\"read\"\x7d"

def plainGate : HostNotificationGate where
  recorders := ⟨true, false⟩
  subject := verifiedSession (lit "s")
  killSession := lit "s"
  established := true
  audit := false
  requireAuditStrict := true
  leg := []

def cancelNotice : RpcMsg := { method := methodNotificationsCancelled }

/-- What happens against the outside that allows everything. -/
def allowed {α : Type} (p : Action α) : List Happening × α := p.against (fun _ => allowing) []

theorem host_messages_mediated_tool :
    (upstreamCalls (allowed (dispatchRequest plainExternals plainLeg toolRequest [])).1 = [toolRequest] ∧
      plainLeg.Mediated plainExternals toolRequest []
        (allowed (dispatchRequest plainExternals plainLeg toolRequest [])).1) ∧
    (allowed (plainGate.admission plainExternals cancelNotice [])).2 = .forward ∧
      (tablesFor []).enforces cancelNotice.method = false :=
  ⟨⟨rfl, ((host_messages_mediated plainExternals toolRequest []).1 plainLeg _ _ (against_runs _ _ _)).1⟩, rfl,
    (((host_messages_mediated plainExternals cancelNotice []).2 plainGate _ _
      (against_runs (fun _ => allowing) _ [])).2 (rfl)).1⟩

end Eunox.Transport
