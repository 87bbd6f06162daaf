import Eunox.MessageId

/-! Server-initiated requests and their answers. A request is tracked under the
key of its id until the host replies; one that cannot be tracked, or is displaced
from the bounded set, is answered by the proxy itself. Every critical section of
the tracker's mutex and every write to the upstream is a step of its own. -/
namespace Eunox.ServerRequests
open ByteString JsonText

def maxTrackedServerReqs : ℕ := 1024
def maxTrackedServerReqIDBytes : ℕ := 8192

/-- A request an upstream sent; its id is a JSON value. -/
structure ServerRequest where
  id : Bytes
  method : Bytes
  json : (parseText id).isSome
  deriving DecidableEq

structure TrackedServerRequest where
  id : Bytes
  method : Bytes
  seq : ℕ
  deriving DecidableEq, Repr

/-- The tracker's map, one entry a key. -/
abbrev Entries := List (Bytes × TrackedServerRequest)

def Entries.find (ids : Entries) (key : Bytes) : Option TrackedServerRequest :=
  (ids.find? fun item => item.1 = key).map Prod.snd

def Entries.delete (ids : Entries) (key : Bytes) : Entries := ids.eraseP fun item => item.1 = key

def Entries.set (ids : Entries) (key : Bytes) (req : TrackedServerRequest) : Entries := ids.delete key ++ [(key, req)]

def trackableServerRequestID (id : Bytes) : Bool := id.length ≤ maxTrackedServerReqIDBytes

/-- The eviction loop over the map in the order it is ranged over. No key chosen
yet is the empty key. -/
def longestWaiting (order : Entries) : Bytes × TrackedServerRequest :=
  order.foldl (fun oldest item =>
    if oldest.1 = [] || item.2.seq < oldest.2.seq then item else oldest) ([], ⟨[], [], 0⟩)

/-- The map with the request in it, and what the request displaced. -/
def trackServerReqID (order ids : Entries) (key : Bytes) (req : TrackedServerRequest) :
    Entries × Option TrackedServerRequest :=
  match ids.find key with
  | some displaced => (ids.set key req, some displaced)
  | none =>
    if maxTrackedServerReqs ≤ ids.length then
      let oldest := longestWaiting order
      ((ids.delete oldest.1).set key req, some oldest.2)
    else (ids.set key req, none)

def enforcementErrorCode : ℤ := -32603

def displacedServerRequestError : Bytes :=
  lit "eunox: this server-initiated request was displaced from the proxy's in-flight tracker " ++
    lit "(its capacity limit, or a reused request id); no reply to it can be routed"

def unroutableIDServerRequestError : Bytes :=
  lit "eunox: this server-initiated request carries a JSON-RPC id larger than the proxy's in-flight tracker " ++
    lit "retains; no reply to it could be routed, so it was not forwarded"

/-- `answerUntracked`: an error of the proxy's own. -/
def ownError (id reason : Bytes) : RpcMsg := errorResponse (some id) enforcementErrorCode reason

/-! The leg. -/

/-- What a goroutine of this leg has still to do: admit a request, or write an
answer. -/
inductive Work where
  | enter (req : ServerRequest)
  | answer (msg : RpcMsg)
  deriving DecidableEq

/-- The id whose request the work will settle. -/
def Work.id : Work → Option Bytes
  | .enter req => some req.id
  | .answer msg => msg.id

@[simp] theorem Work.id_enter (req : ServerRequest) : (Work.enter req).id = some req.id := rfl
@[simp] theorem Work.id_answer (msg : RpcMsg) : (Work.answer msg).id = msg.id := rfl
@[simp] theorem ownError_id (id reason : Bytes) : (ownError id reason).id = some id := rfl

structure World where
  ids : Entries := []
  nextSeq : ℕ := 0
  work : List Work := []
  /-- The ids of the requests the upstream issued. -/
  issued : List Bytes := []
  /-- The ids of the requests the host may have been handed. -/
  handed : List Bytes := []
  /-- The responses written to the upstream. -/
  written : List RpcMsg := []

/-- `serverReqTracker.track` and the answer it owes. -/
def World.track (w : World) (order : Entries) (req : ServerRequest) : World :=
  let (ids, displaced) := trackServerReqID order w.ids (msgKey (some req.id))
    ⟨req.id, boundEnvelopeField req.method, w.nextSeq + 1⟩
  { w with
    ids := ids
    nextSeq := w.nextSeq + 1
    handed := w.handed ++ [req.id]
    work := w.work ++ (displaced.map fun entry => .answer (ownError entry.id displacedServerRequestError)).toList }

/-- `serverReqTracker.take` of the id of what its caller then writes. -/
def World.take (w : World) (msg : RpcMsg) : World :=
  match w.ids.find (msgKey msg.id) with
  | none => w
  | some _ => { w with ids := w.ids.delete (msgKey msg.id), work := w.work ++ [.answer msg] }

inductive Event where
  /-- The upstream issues a request. -/
  | arrive (req : ServerRequest)
  /-- `admitServerRequestID` refuses an id too large to keep. -/
  | refuse (req : ServerRequest)
  /-- `trackServerRequest` on the map ranged over in this order. -/
  | track (order : Entries) (req : ServerRequest)
  | write (msg : RpcMsg)
  /-- `routeHostServerResponse` takes the reply's id, to relay the reply. -/
  | reply (msg : RpcMsg)
  | unblock (id reason : Bytes)

variable (w : World) in
inductive Step : Event → World → Prop where
  | arrive (req : ServerRequest) : Step (.arrive req)
        { w with issued := w.issued ++ [req.id], work := w.work ++ [.enter req] }
  | refuse (before after : List Work) (req : ServerRequest)
      (work : w.work = before ++ .enter req :: after)
      (large : trackableServerRequestID req.id = false) : Step (.refuse req)
        { w with work := before ++ .answer (ownError req.id unroutableIDServerRequestError) :: after }
  | track (before after : List Work) (req : ServerRequest) (order : Entries)
      (work : w.work = before ++ .enter req :: after)
      (fits : trackableServerRequestID req.id = true) (ranged : order.Perm w.ids) :
      Step (.track order req) (({ w with work := before ++ after } : World).track order req)
  | write (before after : List Work) (msg : RpcMsg)
      (work : w.work = before ++ .answer msg :: after) :
      Step (.write msg) { w with work := before ++ after, written := w.written ++ [msg] }
  | reply (msg : RpcMsg) (response : msg.isResponse = true)
      (known : ∃ id ∈ w.handed, msg.id = some id) : Step (.reply msg) (w.take msg)
  | unblock (id reason : Bytes) : Step (.unblock id reason) (w.take (ownError id reason))

/-- The worlds reached by steps that all meet a condition on the state before. -/
inductive Run (meets : World → Event → Prop) : World → Prop where
  | start : Run meets {}
  | step {w w' : World} {e : Event} (run : Run meets w) (condition : meets w e) (step : Step w e w') :
      Run meets w'

/-! The map. -/

section
variable {ids order : Entries}

theorem Entries.find_split (found : ids.find key = some entry) :
    ∃ before after, ids = before ++ (key, entry) :: after ∧ ids.delete key = before ++ after := by
  obtain ⟨item, here, rfl⟩ := Option.map_eq_some_iff.mp found
  obtain ⟨keyed, before, after, rfl, earlier⟩ := List.find?_eq_some_iff_append.mp here
  refine ⟨before, after, by rw [← of_decide_eq_true keyed], ?_⟩
  rw [delete, List.eraseP_append_right _ (by simpa using earlier), List.eraseP_cons, keyed, cond_true]

theorem Entries.delete_length (found : ids.find key = some entry) : (ids.delete key).length < ids.length := by
  obtain ⟨before, after, whole, rest⟩ := find_split found
  rw [rest, whole]
  simp

theorem Entries.find_none : ids.find key = none ↔ ∀ item ∈ ids, item.1 ≠ key := by simp [find]

theorem Entries.delete_absent (absent : ids.find key = none) : ids.delete key = ids :=
  List.eraseP_of_forall_not (by simpa using find_none.mp absent)

/-- The number of tracked requests with this id. -/
def Entries.tracked (ids : Entries) (id : Bytes) : ℕ := ids.countP fun item => item.2.id = id

theorem Entries.tracked_delete (found : ids.find key = some entry) (id : Bytes) :
    ids.tracked id = (ids.delete key).tracked id + if entry.id = id then 1 else 0 := by
  obtain ⟨before, after, whole, rest⟩ := find_split found
  simp only [tracked, rest]
  rw [whole]
  simp only [List.countP_append, List.countP_cons, decide_eq_true_eq]
  omega

theorem Entries.tracked_set (req : TrackedServerRequest) (id : Bytes) :
    (ids.set key req).tracked id = (ids.delete key).tracked id + if req.id = id then 1 else 0 := by
  simp [tracked, set, List.countP_cons]

/-! The tracker's own invariant. -/

/-- One entry a key, each filed under the key of its id, with a stamp of its own
no later than the last one given. -/
structure Entries.Kept (ids : Entries) (nextSeq : ℕ) : Prop where
  distinct : (ids.map Prod.fst).Nodup
  filed : ∀ item ∈ ids, item.1 = msgKey (some item.2.id) ∧ item.1 ≠ []
  stamped : ∀ item ∈ ids, item.2.seq ≤ nextSeq
  bounded : ids.length ≤ maxTrackedServerReqs

/-- Once a key is chosen the loop keeps the smaller stamp. -/
theorem longestWaiting_chosen (chosen : best.1 ≠ []) (solid : ∀ item ∈ order, item.1 ≠ []) :
    let last := order.foldl (fun oldest item =>
      if oldest.1 = [] || item.2.seq < oldest.2.seq then item else oldest) best
    last ∈ best :: order ∧ ∀ item ∈ best :: order, last.2.seq ≤ item.2.seq := by
  induction order generalizing best with
  | nil => simp
  | cons item order ih =>
    have here := solid item (.head _)
    have later := fun other mem => solid other (List.mem_cons_of_mem item mem)
    simp only [List.foldl_cons, chosen, decide_false, Bool.false_or, decide_eq_true_eq]
    by_cases younger : item.2.seq < best.2.seq
    · rw [if_pos younger]
      obtain ⟨origin, least⟩ := ih here later
      have below := least item (.head _)
      exact ⟨.tail _ origin, List.forall_mem_cons.mpr ⟨by omega, least⟩⟩
    · rw [if_neg younger]
      obtain ⟨origin, least⟩ := ih chosen later
      obtain ⟨below, least⟩ := List.forall_mem_cons.mp least
      refine ⟨?_, List.forall_mem_cons.mpr ⟨below, List.forall_mem_cons.mpr ⟨by omega, least⟩⟩⟩
      rcases List.mem_cons.mp origin with same | mem
      · rw [same]
        exact .head _
      · exact .tail _ (.tail _ mem)

/-- The loop finds the entry with the smallest stamp. -/
theorem longestWaiting_least (solid : ∀ item ∈ order, item.1 ≠ []) (nonempty : order ≠ []) :
    longestWaiting order ∈ order ∧ ∀ item ∈ order, (longestWaiting order).2.seq ≤ item.2.seq := by
  obtain ⟨item, order, rfl⟩ := List.exists_cons_of_ne_nil nonempty
  exact longestWaiting_chosen (solid item (.head _))
    fun other mem => solid other (List.mem_cons_of_mem item mem)

theorem Entries.find_of_mem (distinct : (ids.map Prod.fst).Nodup) (mem : item ∈ ids) :
    ids.find item.1 = some item.2 := by
  induction ids with
  | nil => simp at mem
  | cons first ids ih =>
    rw [List.map_cons, List.nodup_cons] at distinct
    rcases List.mem_cons.mp mem with rfl | later
    · simp [find]
    have other : first.1 ≠ item.1 := by
      intro same
      exact distinct.1 (List.mem_map.mpr ⟨item, later, same.symm⟩)
    have rest := ih distinct.2 later
    simpa [find, other] using rest

theorem Entries.Kept.delete (kept : ids.Kept nextSeq) (key : Bytes) :
    (ids.delete key).Kept nextSeq ∧ key ∉ (ids.delete key).map Prod.fst := by
  have sub : (ids.delete key).Sublist ids := List.eraseP_sublist
  refine ⟨⟨kept.distinct.sublist (sub.map _), fun item mem => kept.filed item (sub.subset mem),
    fun item mem => kept.stamped item (sub.subset mem), sub.length_le.trans kept.bounded⟩, ?_⟩
  cases found : ids.find key with
  | none =>
    rw [delete_absent found]
    intro mem
    obtain ⟨item, held, same⟩ := List.mem_map.mp mem
    exact find_none.mp found item held same
  | some entry =>
    obtain ⟨before, after, whole, rest⟩ := find_split found
    have distinct := kept.distinct
    rw [whole, List.map_append] at distinct
    rw [rest, List.map_append]
    exact (List.nodup_middle.mp distinct).notMem

theorem Entries.Kept.set (kept : ids.Kept nextSeq)
    (solid : msgKey (some req.id) ≠ []) (stamp : req.seq = nextSeq + 1)
    (room : (ids.delete (msgKey (some req.id))).length < maxTrackedServerReqs) :
    (ids.set (msgKey (some req.id)) req).Kept (nextSeq + 1) := by
  obtain ⟨rest, absent⟩ := kept.delete (msgKey (some req.id))
  refine ⟨?_, List.forall_mem_append.mpr ⟨rest.filed, List.forall_mem_singleton.mpr ⟨rfl, solid⟩⟩,
    List.forall_mem_append.mpr ⟨fun item old => Nat.le_succ_of_le (rest.stamped item old),
      List.forall_mem_singleton.mpr stamp.le⟩, ?_⟩
  · rw [Entries.set, List.map_append]
    refine List.nodup_append.mpr ⟨rest.distinct, List.nodup_singleton _, fun key held => List.forall_mem_singleton.mpr ?_⟩
    rintro rfl
    exact absent held
  · rw [Entries.set, List.length_append]
    exact room

/-- Whether this entry's initiator is the one counted. -/
def bears (id : Bytes) (entry : Option TrackedServerRequest) : ℕ :=
  entry.elim 0 fun entry => if entry.id = id then 1 else 0

theorem Entries.Kept.oldest (kept : ids.Kept nextSeq)
    (ranged : order.Perm ids) (full : maxTrackedServerReqs ≤ ids.length) :
    longestWaiting order ∈ ids ∧ ∀ item ∈ ids, (longestWaiting order).2.seq ≤ item.2.seq := by
  have nonempty : order ≠ [] := by
    rintro rfl
    rw [← ranged.length_eq] at full
    exact absurd full (by decide)
  have solid : ∀ item ∈ order, item.1 ≠ [] := fun item mem => (kept.filed item (ranged.mem_iff.mp mem)).2
  obtain ⟨mem, least⟩ := longestWaiting_least solid nonempty
  exact ⟨ranged.mem_iff.mp mem, fun item held => least item (ranged.mem_iff.mpr held)⟩

/-- Tracking keeps the map's invariant, and every request counted before is
tracked still or displaced. -/
theorem trackServerReqID_kept (kept : ids.Kept nextSeq)
    (ranged : order.Perm ids) (req : TrackedServerRequest) (solid : msgKey (some req.id) ≠ [])
    (stamp : req.seq = nextSeq + 1) :
    (trackServerReqID order ids (msgKey (some req.id)) req).1.Kept (nextSeq + 1) ∧
    ∀ id, (trackServerReqID order ids (msgKey (some req.id)) req).1.tracked id +
        bears id (trackServerReqID order ids (msgKey (some req.id)) req).2 =
      ids.tracked id + if req.id = id then 1 else 0 := by
  unfold trackServerReqID
  cases found : ids.find (msgKey (some req.id)) with
  | some displaced =>
    refine ⟨kept.set solid stamp ((Entries.delete_length found).trans_le kept.bounded), fun id => ?_⟩
    have counted := Entries.tracked_delete found id
    simp only [Entries.tracked_set, bears, Option.elim_some]
    omega
  | none =>
    by_cases full : maxTrackedServerReqs ≤ ids.length
    · rw [if_pos full]
      obtain ⟨mem, -⟩ := kept.oldest ranged full
      have here := Entries.find_of_mem kept.distinct mem
      have shorter := (kept.delete (longestWaiting order).1).1
      have absent : (ids.delete (longestWaiting order).1).find (msgKey (some req.id)) = none :=
        Entries.find_none.mpr fun item held => Entries.find_none.mp found item (List.eraseP_sublist.subset held)
      have room : ((ids.delete (longestWaiting order).1).delete (msgKey (some req.id))).length <
          maxTrackedServerReqs := by
        rw [Entries.delete_absent absent]
        exact (Entries.delete_length here).trans_le kept.bounded
      refine ⟨shorter.set solid stamp room, fun id => ?_⟩
      have counted := Entries.tracked_delete here id
      simp only [Entries.tracked_set, Entries.delete_absent absent, bears, Option.elim_some]
      omega
    · rw [if_neg full]
      have room : (ids.delete (msgKey (some req.id))).length < maxTrackedServerReqs := by
        rw [Entries.delete_absent found]
        omega
      refine ⟨kept.set solid stamp room, fun id => ?_⟩
      simp [Entries.tracked_set, Entries.delete_absent found, bears]

end

/-! Whole runs. -/

def World.requests (w : World) (id : Bytes) : ℕ := w.issued.count id

def World.answers (w : World) (id : Bytes) : ℕ := w.written.countP fun msg => msg.id = some id

/-- The work in progress on requests with this id. -/
def World.inProgress (w : World) (id : Bytes) : ℕ := w.work.countP fun work => work.id = some id

/-- Every request issued was answered, is tracked or is worked on. -/
def World.Accounted (w : World) : Prop := ∀ id, w.requests id = w.answers id + w.ids.tracked id + w.inProgress id

/-- A host reply or an unblock finds an entry with its own id under the key, if it
finds one. -/
def Matched (w : World) : Event → Prop
  | .reply msg => ∀ entry, w.ids.find (msgKey msg.id) = some entry → some entry.id = msg.id
  | .unblock id _ => ∀ entry, w.ids.find (msgKey (some id)) = some entry → entry.id = id
  | _ => True

theorem track_kept {w : World} {order : Entries} (kept : w.ids.Kept w.nextSeq) (ranged : order.Perm w.ids) (req : ServerRequest) :
    (w.track order req).ids.Kept (w.track order req).nextSeq :=
  (trackServerReqID_kept kept ranged ⟨req.id, boundEnvelopeField req.method, w.nextSeq + 1⟩
    (msgKey_json req.json) rfl).1

theorem take_kept {w : World} (kept : w.ids.Kept w.nextSeq) (msg : RpcMsg) :
    (w.take msg).ids.Kept (w.take msg).nextSeq := by
  unfold World.take
  split
  · exact kept
  · exact (kept.delete _).1

theorem step_kept (step : Step w e w') (kept : w.ids.Kept w.nextSeq) : w'.ids.Kept w'.nextSeq := by
  cases step with
  | arrive | refuse | write => exact kept
  | track before after req order work fits ranged => exact track_kept kept ranged req
  | reply | unblock => exact take_kept kept _

theorem run_kept {meets : World → Event → Prop} {w : World} (run : Run meets w) : w.ids.Kept w.nextSeq := by
  induction run with
  | start => exact ⟨by simp, by simp, by simp, Nat.zero_le _⟩
  | step _ _ step ih => exact step_kept step ih

/-- A take that finds its own entry moves the request from the map to the work. -/
theorem take_accounted {w : World} (accounted : w.Accounted)
    (own : ∀ entry, w.ids.find (msgKey msg.id) = some entry → some entry.id = msg.id) :
    (w.take msg).Accounted := by
  intro id
  have before := accounted id
  unfold World.take
  split
  · exact before
  rename_i entry found
  have counted := Entries.tracked_delete found id
  have same := own entry found
  rw [← same] at counted
  simp only [World.requests, World.answers, World.inProgress, List.countP_append,
    List.countP_singleton, Work.id_answer, ← same, Option.some.injEq, decide_eq_true_eq] at before ⊢
  omega

theorem track_accounted {w : World} {order : Entries} (kept : w.ids.Kept w.nextSeq)
    (ranged : order.Perm w.ids) (accounted : ∀ id, w.requests id =
      w.answers id + w.ids.tracked id + w.inProgress id + if req.id = id then 1 else 0) :
    (w.track order req).Accounted := by
  intro id
  have before := accounted id
  have moved := (trackServerReqID_kept kept ranged
    ⟨req.id, boundEnvelopeField req.method, w.nextSeq + 1⟩ (msgKey_json req.json) rfl).2 id
  simp only [World.track, World.requests, World.answers, World.inProgress, List.countP_append] at before ⊢
  generalize trackServerReqID order w.ids (msgKey (some req.id))
    ⟨req.id, boundEnvelopeField req.method, w.nextSeq + 1⟩ = tracked at moved ⊢
  obtain ⟨ids, displaced⟩ := tracked
  cases displaced with
  | none =>
    simp only [bears, Option.elim_none] at moved
    simp only [Option.map_none, Option.toList_none, List.countP_nil]
    omega
  | some entry =>
    simp only [bears, Option.elim_some] at moved
    simp only [Option.map_some, Option.toList_some, List.countP_singleton, Work.id_answer,
      ownError_id, Option.some.injEq, decide_eq_true_eq]
    omega

theorem step_accounted {w w' : World} (step : Step w e w')
    (kept : w.ids.Kept w.nextSeq) (matched : Matched w e) (accounted : w.Accounted) :
    w'.Accounted := by
  cases step with
  | arrive req =>
    intro id
    have before := accounted id
    simp only [World.requests, World.answers, World.inProgress, List.count_append,
      List.count_singleton, List.countP_append, List.countP_singleton, Work.id_enter, Option.some.injEq,
      decide_eq_true_eq, beq_iff_eq] at before ⊢
    omega
  | refuse before after req work large =>
    intro id
    have same := accounted id
    simp only [World.requests, World.answers, World.inProgress, work, List.countP_append,
      List.countP_cons, Work.id_enter, Work.id_answer, ownError_id, Option.some.injEq,
      decide_eq_true_eq] at same ⊢
    omega
  | track before after req order work fits ranged =>
    refine track_accounted (w := { w with work := before ++ after }) kept ranged fun id => ?_
    have same := accounted id
    simp only [World.requests, World.answers, World.inProgress, work, List.countP_append,
      List.countP_cons, Work.id_enter, Option.some.injEq, decide_eq_true_eq] at same ⊢
    omega
  | write before after msg work =>
    intro id
    have same := accounted id
    simp only [World.requests, World.answers, World.inProgress, work, List.countP_append] at same ⊢
    by_cases held : msg.id = some id
    all_goals
      simp only [List.countP_cons, held, Work.id_answer, List.countP_nil] at same ⊢
      omega
  | reply msg response known => exact take_accounted accounted matched
  | unblock id reason => exact take_accounted accounted fun entry found => congrArg some (matched entry found)

theorem run_accounted {w : World} (run : Run Matched w) : w.Accounted := by
  induction run with
  | start => intro id; rfl
  | step run matched step ih => exact step_accounted step (run_kept run) matched ih

/-! The results. -/

/-- Nothing with this id is tracked or worked on. -/
def World.Idle (w : World) (id : Bytes) : Prop := w.ids.tracked id = 0 ∧ w.inProgress id = 0

/-- Where every reply and unblock meets an entry of its own id, each request is
answered once. The set is bounded and gives up its longest-tracked entry in any
run: stamps grow, and the one displaced has the smallest. -/
theorem server_requests_answered_once (w : World) : (Run Matched w → ∀ id, w.answers id ≤ w.requests id ∧
      (w.Idle id → w.answers id = w.requests id)) ∧
    ∀ meets, Run meets w → w.ids.length ≤ maxTrackedServerReqs ∧ (∀ item ∈ w.ids, item.2.seq < w.nextSeq + 1) ∧
      ∀ order req displaced, order.Perm w.ids → w.ids.find (msgKey (some req.id)) = none →
        (trackServerReqID order w.ids (msgKey (some req.id)) req).2 = some displaced →
        displaced ∈ w.ids.map Prod.snd ∧ ∀ entry ∈ w.ids.map Prod.snd, displaced.seq ≤ entry.seq := by
  constructor
  · intro run id
    have balance := run_accounted run id
    refine ⟨by omega, fun idle => ?_⟩
    obtain ⟨untracked, unworked⟩ := idle
    omega
  · intro meets run
    have kept := run_kept run
    refine ⟨kept.bounded, fun item member => Nat.lt_succ_of_le (kept.stamped item member), ?_⟩
    intro order req displaced ranged absent evicted
    simp only [trackServerReqID, absent] at evicted
    split at evicted
    · rename_i full
      obtain rfl : (longestWaiting order).2 = displaced := by simpa using evicted
      obtain ⟨member, least⟩ := kept.oldest ranged full
      refine ⟨List.mem_map_of_mem member, fun entry held => ?_⟩
      obtain ⟨item, listed, rfl⟩ := List.mem_map.mp held
      exact least item listed
    · cases evicted

def integerRequest : ServerRequest := ⟨lit "1", lit "roots/list", rfl⟩

/-- The host's answer to it. -/
def integerReply : RpcMsg := { id := some (lit "1"), result := some (lit "\x7b\x7d") }

/-- The request was forwarded and the host's reply taken. -/
def repliedWorld : World := (({ issued := [lit "1"] } : World).track [] integerRequest).take integerReply

theorem repliedWorld_reached : Run Matched repliedWorld := by
  refine .step (e := .reply integerReply) (.step (e := .track [] integerRequest)
      (.step (e := .arrive integerRequest) .start trivial (.arrive integerRequest))
      trivial (.track [] [] integerRequest [] rfl (rfl) (by rfl)))
    ?_ (.reply integerReply (by decide) ⟨lit "1", by decide, rfl⟩)
  intro entry found
  have here : Entries.find [(lit "n:1", ⟨lit "1", lit "roots/list", 1⟩)] (lit "n:1") = some entry := by
    rw [← found]
    decide
  have same : (⟨lit "1", lit "roots/list", 1⟩ : TrackedServerRequest) = entry := by
    simpa [Entries.find] using here
  rw [← same]
  rfl

theorem server_requests_answered_once_replied : repliedWorld.answers (lit "1") ≤ repliedWorld.requests (lit "1") ∧
      repliedWorld.ids.length ≤ maxTrackedServerReqs :=
  ⟨((server_requests_answered_once repliedWorld).1 repliedWorld_reached (lit "1")).1,
    ((server_requests_answered_once repliedWorld).2 Matched repliedWorld_reached).1⟩

/-! Two spellings of one number. -/

def decimalRequest : ServerRequest := ⟨lit "1.0", lit "roots/list", rfl⟩

/-- Both requests are forwarded, the second in the first one's place, and the host
answers the first. -/
def collidedWorld : World :=
  let w : World := {}
  let w := ({ w with issued := [lit "1"] } : World).track [] integerRequest
  let w := ({ w with issued := w.issued ++ [lit "1.0"] } : World).track w.ids decimalRequest
  let w := { w with work := [], written := [ownError (lit "1") displacedServerRequestError] }
  let w := w.take integerReply
  { w with work := [], written := w.written ++ [integerReply] }

theorem collidedWorld_reached : Run (fun _ _ => True) collidedWorld := by
  refine .step (.step (.step (.step (.step (.step (.step .start trivial (.arrive integerRequest))
    trivial (.track [] [] integerRequest [] rfl (rfl) (by rfl)))
    trivial (.arrive decimalRequest))
    trivial (.track [] [] decimalRequest _ rfl (rfl) (by rfl)))
    trivial (.write [] [] (ownError (lit "1") displacedServerRequestError)
      (by decide +kernel)))
    trivial (.reply integerReply (by decide) ⟨lit "1", by decide, rfl⟩))
    trivial (.write [] [] integerReply (by decide +kernel))

/-- The first request has two answers and the second none, with nothing left to
do. -/
theorem collided_ids_answered_wrong :
    ∃ w, Run (fun _ _ => True) w ∧ w.requests (lit "1") = 1 ∧ w.answers (lit "1") = 2 ∧
      w.requests (lit "1.0") = 1 ∧ w.answers (lit "1.0") = 0 ∧ w.Idle (lit "1.0") :=
  ⟨collidedWorld, collidedWorld_reached, by decide +kernel, by decide +kernel, by decide +kernel, by decide +kernel,
    by decide +kernel, by decide⟩

end Eunox.ServerRequests
