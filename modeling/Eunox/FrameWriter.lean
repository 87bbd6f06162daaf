import Eunox.RpcMessage
import Mathlib.Logic.Relation

/-! Frames on a shared stream, `MsgWriter` of `internal/mcp/jsonrpc.go`. A write holds the mutex from its look at
the latch to the end of the underlying write, so the calls are told in the order in which they took it. -/
namespace Eunox.FrameWriter
open ByteString

/-- What `errors.Is` tells apart of an error of the underlying writer. -/
inductive IoError where
  | deadlineExceeded
  | shortWrite
  | other (text : Bytes)
  deriving DecidableEq

inductive WriteError where
  | marshalling (text : Bytes)
  | upstreamWriteTimeout (n length : ℕ) (cause : IoError)
  | frameDesync (n length : ℕ) (cause : IoError)
  | io (cause : IoError)

structure MsgWriter where
  /-- The pipe accepts a deadline and there is a timeout. -/
  deadliner : Bool
  onPoison : Option ℕ := none
  poisonErr : Option WriteError := none

/-- The error of an underlying write that took `n` bytes, and whether it poisons the writer. -/
def MsgWriter.judge (mw : MsgWriter) (length n : ℕ) (err : Option IoError) : Option WriteError × Bool :=
  if n < length ∧ mw.deadliner ∧ err = some .deadlineExceeded then
    (some (.upstreamWriteTimeout n length .deadlineExceeded), true)
  else if 0 < n ∧ n < length then (some (.frameDesync n length (err.getD .shortWrite)), true)
  else (err.map .io, false)

/-- One call of `Write`: its frame, empty for a message that does not marshal; what the underlying writer took of
it and answered; what the call returned; and the deadline and the hook it found. -/
structure Call where
  frame : Bytes
  took : ℕ := 0
  err : Option IoError := none
  result : Option WriteError
  deadliner : Bool
  hook : Option ℕ

structure World where
  writer : MsgWriter
  accepted : Bytes := []
  calls : List Call := []
  /-- The calls that have released the lock and have a hook to run before they return. -/
  pending : List (ℕ × ℕ) := []
  ran : List ℕ := []
  /-- The calls that have returned. -/
  returned : List ℕ := []

def World.log (w : World) (c : Call) : World := { w with calls := w.calls ++ [c] }

variable {Msg : Type} (marshal : Msg → Except Bytes Bytes)

variable (w : World) in
inductive Step : World → Prop
  | unmarshalled (failed : marshal msg = .error text) :
      Step (w.log ⟨[], 0, none, some (.marshalling text), w.writer.deadliner, w.writer.onPoison⟩)
  | refused (marshalled : marshal msg = .ok data) (poisoned : w.writer.poisonErr = some err) :
      Step (w.log ⟨data ++ [10], 0, none, some err, w.writer.deadliner, w.writer.onPoison⟩)
  /-- The underlying writer answers as `io.Writer` allows. -/
  | write {err : Option IoError} (marshalled : marshal msg = .ok data) (healthy : w.writer.poisonErr = none)
      (most : n ≤ data.length + 1) (told : n < data.length + 1 → err ≠ none)
      (judged : w.writer.judge (data.length + 1) n err = (result, poisons)) :
      Step { w.log ⟨data ++ [10], n, err, result, w.writer.deadliner, w.writer.onPoison⟩ with
        accepted := w.accepted ++ (data ++ [10]).take n
        writer := if poisons then { w.writer with poisonErr := result } else w.writer
        pending := if poisons then w.pending ++ w.writer.onPoison.toList.map (w.calls.length, ·) else w.pending }
  | setPoisonHook : Step { w with writer := { w.writer with onPoison := hook } }
  | runHook (due : w.pending = before ++ (i, hook) :: after) :
      Step { w with pending := before ++ after, ran := w.ran ++ [hook] }
  | ret (called : i < w.calls.length) (free : ∀ hook, (i, hook) ∉ w.pending) :
      Step { w with returned := i :: w.returned }

abbrev Reachable (deadliner : Bool) (onPoison : Option ℕ) (w : World) : Prop :=
  Relation.ReflTransGen (Step marshal) { writer := { deadliner, onPoison } } w

/-! What a call did. -/

def Call.Whole (c : Call) : Prop := c.frame ≠ [] ∧ c.took = c.frame.length

/-- The frame broke off, or hit the armed deadline before its end. -/
def Call.Desyncs (c : Call) : Prop :=
  c.took < c.frame.length ∧ (0 < c.took ∨ c.deadliner = true ∧ c.err = some .deadlineExceeded)

instance : DecidablePred Call.Whole := fun _ => instDecidableAnd
instance : DecidablePred Call.Desyncs := fun _ => instDecidableAnd

/-- The stream stands at the end of a frame after the call. -/
def Call.Clean (c : Call) : Prop := (c.took = 0 ∨ c.Whole) ∧ ¬ c.Desyncs

/-- The call wrote nothing and said so. -/
def Call.Refused (c : Call) : Prop := c.took = 0 ∧ c.result ≠ none ∧ ¬ c.Desyncs

/-- Either every call so far was clean, or one broke the stream, all later ones were refused and the hook it found
is run before it returns. -/
inductive Framed (w : World) : Prop
  | healthy (clean : ∀ c ∈ w.calls, c.Clean) (unlatched : w.writer.poisonErr = none) (idle : w.ran = [] ∧ w.pending = [])
  | poisoned (split : w.calls = before ++ c :: after) (clean : ∀ b ∈ before, b.Clean) (desyncs : c.Desyncs)
      (refused : ∀ a ∈ after, a.Refused) (latched : w.writer.poisonErr ≠ none)
      (hooks : w.ran = [] ∧ w.pending = c.hook.toList.map (before.length, ·) ∧ before.length ∉ w.returned ∨
        w.ran = c.hook.toList ∧ w.pending = [])

theorem judge_spec {mw : MsgWriter} (judged : mw.judge length n err = (result, poisons)) (most : n ≤ length)
    (told : n < length → err ≠ none) :
    (poisons = true ↔ n < length ∧ (0 < n ∨ mw.deadliner = true ∧ err = some .deadlineExceeded)) ∧
      (result = none ↔ n = length ∧ err = none) := by
  unfold MsgWriter.judge at judged
  cases err <;> split_ifs at judged with deadline partly <;> grind

theorem Framed.refuse (framed : Framed w) (refused : c.Refused) : Framed (w.log c) := by
  cases framed with
  | healthy clean unlatched idle =>
    refine .healthy (List.forall_mem_append.mpr ⟨clean, ?_⟩) unlatched idle
    exact List.forall_mem_singleton.mpr ⟨.inl refused.1, refused.2.2⟩
  | @poisoned before b after split clean desyncs later latched hooks =>
    refine .poisoned (show _ = before ++ b :: (after ++ [c]) by simp [World.log, split]) clean desyncs ?_ latched hooks
    exact List.forall_mem_append.mpr ⟨later, List.forall_mem_singleton.mpr refused⟩

variable {marshal} in
theorem Framed.step (framed : Framed w) (past : ∀ i ∈ w.returned, i < w.calls.length) (step : Step marshal w w') :
    Framed w' := by
  cases step with
  | unmarshalled failed => exact framed.refuse ⟨rfl, by simp, by simp [Call.Desyncs]⟩
  | refused marshalled poisoned => exact framed.refuse ⟨rfl, by simp, by simp [Call.Desyncs]⟩
  | @write msg data n result poisons err marshalled healthy most told judged =>
    have spec := judge_spec judged most told
    cases framed with
    | poisoned split clean desyncs refused latched hooks => exact absurd healthy latched
    | healthy clean unlatched idle =>
      cases poisons with
      | true =>
        have desyncs := spec.1.mp rfl
        refine .poisoned rfl clean (by simpa [Call.Desyncs] using desyncs) (by simp) ?_ (.inl ⟨idle.1, ?_, ?_⟩)
        · exact fun fine => desyncs.1.ne (spec.2.mp fine).1
        · simp [idle.2]
        · exact fun early => lt_irrefl _ (past _ early)
      | false =>
        have synced : ¬ (n < data.length + 1 ∧ _) := fun desyncs => Bool.false_ne_true (spec.1.mpr desyncs)
        refine .healthy (List.forall_mem_append.mpr ⟨clean, ?_⟩) healthy idle
        simp only [List.mem_singleton, forall_eq, Call.Clean, Call.Whole, Call.Desyncs, List.length_append,
          List.length_singleton]
        refine ⟨?_, synced⟩
        by_cases zero : n = 0
        · exact .inl zero
        · exact .inr ⟨by simp, by omega⟩
  | setPoisonHook =>
    cases framed with
    | healthy clean unlatched idle => exact .healthy clean unlatched idle
    | poisoned split clean desyncs refused latched hooks => exact .poisoned split clean desyncs refused latched hooks
  | @runHook before i hook after due =>
    cases framed with
    | healthy clean unlatched idle => simp [due] at idle
    | @poisoned _ c _ split clean desyncs refused latched hooks =>
      refine .poisoned split clean desyncs refused latched (.inr ?_)
      rcases hooks with ⟨none_ran, pending, -⟩ | ⟨-, none_due⟩
      · -- there is one hook to run, and this is it
        cases installed : c.hook <;> rw [due, installed] at pending <;> simp_all [List.append_eq_singleton_iff]
      · simp [due] at none_due
  | @ret i called free =>
    cases framed with
    | healthy clean unlatched idle => exact .healthy clean unlatched idle
    | @poisoned before c _ split clean desyncs refused latched hooks =>
      refine .poisoned split clean desyncs refused latched (hooks.elim ?_ .inr)
      rintro ⟨none_ran, pending, out⟩
      cases installed : c.hook with
      | none => exact .inr ⟨none_ran, by simp [pending, installed]⟩
      | some hook =>
        refine .inl ⟨none_ran, installed ▸ pending, ?_⟩
        rintro (_ | ⟨_, early⟩)
        · exact free hook (by simp [pending, installed])
        · exact out early

theorem Reachable.framed (run : Reachable marshal deadliner onPoison w) :
    Framed w ∧ ∀ i ∈ w.returned, i < w.calls.length := by
  induction run with
  | refl => exact ⟨.healthy (by simp) rfl ⟨rfl, rfl⟩, by simp⟩
  | tail _ step ih =>
    refine ⟨ih.1.step ih.2 step, ?_⟩
    cases step with
    | ret called free => exact List.forall_mem_cons.mpr ⟨called, ih.2⟩
    | setPoisonHook | runHook => exact ih.2
    | unmarshalled | refused | write => exact fun i mem => (ih.2 i mem).trans_le (by simp [World.log])

/-- The call answers for its own frame, which is that of a message if there is one. -/
def Call.Own (c : Call) : Prop :=
  (c.result = none ↔ c.Whole ∧ c.err = none) ∧
    (c.frame ≠ [] → ∃ msg data, marshal msg = .ok data ∧ c.frame = data ++ [10])

/-- Every byte accepted is of some call's frame. -/
structure Told (w : World) : Prop where
  accepted : w.accepted = w.calls.flatMap fun c => c.frame.take c.took
  own : ∀ c ∈ w.calls, c.Own marshal

variable {marshal} in
theorem Told.log (told : Told marshal w) (calls : w'.calls = w.calls ++ [c])
    (accepted : w'.accepted = w.accepted ++ c.frame.take c.took) (own : c.Own marshal) : Told marshal w' := by
  constructor
  · rw [accepted, calls, List.flatMap_append, told.accepted, List.flatMap_singleton]
  · rw [calls]
    exact List.forall_mem_append.mpr ⟨told.own, List.forall_mem_singleton.mpr own⟩

theorem Reachable.told (run : Reachable marshal deadliner onPoison w) : Told marshal w := by
  induction run with
  | refl => exact ⟨rfl, by simp⟩
  | tail _ step told =>
    cases step with
    | unmarshalled failed => exact told.log rfl (by simp [World.log]) ⟨by simp [Call.Whole], by simp⟩
    | refused marshalled poisoned =>
      exact told.log rfl (by simp [World.log]) ⟨by simp [Call.Whole], fun _ => ⟨_, _, marshalled, rfl⟩⟩
    | @write msg data n result poisons err marshalled healthy most short judged =>
      have spec := (judge_spec judged most short).2
      exact told.log rfl rfl ⟨by simpa [Call.Whole] using spec, fun _ => ⟨_, _, marshalled, rfl⟩⟩
    | setPoisonHook | runHook | ret => exact ⟨told.accepted, told.own⟩

theorem clean_bytes {calls : List Call} (clean : ∀ c ∈ calls, c.Clean) :
    (calls.flatMap fun c => c.frame.take c.took) = (calls.filter Call.Whole).flatMap Call.frame := by
  induction calls with
  | nil => rfl
  | cons c rest ih =>
    obtain ⟨⟨framed, -⟩, later⟩ := List.forall_mem_cons.mp clean
    rw [List.flatMap_cons, ih later]
    by_cases whole : c.Whole
    · simp [whole, whole.2]
    · simp [whole, framed.resolve_right whole]

theorem pairwise_of_synced {calls : List Call} {R : Call → Call → Prop} (synced : ∀ c ∈ calls, ¬ c.Desyncs) :
    calls.Pairwise fun c later => c.Desyncs → R c later :=
  List.pairwise_of_forall_mem_list fun c mem _ _ desyncs => absurd desyncs (synced c mem)

/-- Frames without a newline inside, and what is left, are what the lines of the stream are. -/
theorem splitOn_frames {part : Bytes} (plain : ∀ data ∈ lines, (10 : UInt8) ∉ data) (rest : (10 : UInt8) ∉ part) :
    ((lines.flatMap (· ++ [10])) ++ part).splitOn 10 = lines ++ [part] := by
  have noBreak {data : Bytes} (absent : (10 : UInt8) ∉ data) : ∀ b ∈ data, (b == 10) = false := by
    simpa using fun b mem (same : b = 10) => absent (same ▸ mem)
  induction lines with
  | nil => exact List.splitOnP_eq_singleton (noBreak rest)
  | cons data lines ih =>
    obtain ⟨here, later⟩ := List.forall_mem_cons.mp plain
    rw [List.flatMap_cons, List.append_assoc, List.append_assoc, List.splitOn]
    exact (List.splitOnP_append_cons_of_forall_mem (noBreak here) 10 rfl _).trans (congrArg _ (ih later))

variable {marshal} in
/-- A call that has released the lock runs its hook, if it has one, and returns. -/
theorem Reachable.returns (run : Reachable marshal deadliner onPoison w) (called : i < w.calls.length) :
    ∃ w', Relation.ReflTransGen (Step marshal) w w' ∧ w'.calls = w.calls ∧ i ∈ w'.returned := by
  have idle {w : World} (called : i < w.calls.length) (nothing : w.pending = []) :
      Relation.ReflTransGen (Step marshal) w { w with returned := i :: w.returned } :=
    .single (.ret called (by simp [nothing]))
  cases (Reachable.framed marshal run).1 with
  | healthy clean unlatched free => exact ⟨_, idle called free.2, rfl, .head _⟩
  | @poisoned before c _ split clean desyncs refused latched hooks =>
    rcases hooks with ⟨-, pending, -⟩ | ⟨-, nothing⟩
    · cases installed : c.hook with
      | none => exact ⟨_, idle called (by simp [pending, installed]), rfl, .head _⟩
      | some hook =>
        have due : w.pending = [] ++ (before.length, hook) :: [] := by simp [pending, installed]
        exact ⟨_, .head (.runHook due) (idle called rfl), rfl, .head _⟩
    · exact ⟨_, idle called nothing, rfl, .head _⟩

variable {marshal} in
theorem Told.stream (told : Told marshal w)
    (bytes : w.accepted = (w.calls.filter Call.Whole).flatMap Call.frame ++ part)
    (rest : part = [] ∨ ∃ c ∈ w.calls, c.Desyncs ∧ part = c.frame.take c.took) :
    ∃ part, w.accepted = (w.calls.filter Call.Whole).flatMap Call.frame ++ part ∧
      (part = [] ∨ ∃ c ∈ w.calls, c.Desyncs ∧ part = c.frame.take c.took) ∧
      ((∀ msg data, marshal msg = .ok data → (10 : UInt8) ∉ data) →
        w.accepted.splitOn 10 = (w.calls.filter Call.Whole).map (·.frame.dropLast) ++ [part]) := by
  refine ⟨part, bytes, rest, fun plain => ?_⟩
  have line {c : Call} (mem : c ∈ w.calls) (framed : c.frame ≠ []) :
      c.frame = c.frame.dropLast ++ [10] ∧ (10 : UInt8) ∉ c.frame.dropLast := by
    obtain ⟨msg, data, ok, same⟩ := (told.own c mem).2 framed
    simpa [same] using plain msg data ok
  have whole (c : Call) (mem : c ∈ w.calls.filter Call.Whole) :=
    line (List.mem_of_mem_filter mem) (of_decide_eq_true (List.mem_filter.mp mem).2).1
  have frames : (w.calls.filter Call.Whole).flatMap Call.frame =
      ((w.calls.filter Call.Whole).map (·.frame.dropLast)).flatMap (· ++ [10]) := by
    rw [List.flatMap_map]
    exact List.flatMap_congr fun c mem => (whole c mem).1
  rw [bytes, frames]
  refine splitOn_frames (List.forall_mem_map.mpr fun c mem => (whole c mem).2) ?_
  rcases rest with rfl | ⟨c, mem, ⟨short, -⟩, rfl⟩
  · exact List.not_mem_nil
  obtain ⟨same, absent⟩ := line mem (by rintro empty; simp [empty] at short)
  rw [same, List.length_append, List.length_singleton] at short
  rw [same, List.take_append_of_le_length (by omega)]
  exact fun inside => absent (List.mem_of_mem_take inside)

/-- Whatever the calls, the answers of the underlying writer and the interleaving: the bytes it accepted are the
whole frames, in the order of the lock, and at most a proper part of one more, so that the lines of the stream are
the messages where these hold no newline; after a frame that broke off, or hit the armed deadline, every call is
refused unwritten; a call answers nil exactly for its frame, accepted whole and without an error; and the only hook
ever run is the one the breaking call found, once, before that call returns, as every call can. -/
theorem frames_never_glued (deadliner : Bool) (onPoison : Option ℕ) (run : Reachable marshal deadliner onPoison w) :
    (∃ part, w.accepted = (w.calls.filter Call.Whole).flatMap Call.frame ++ part ∧
      (part = [] ∨ ∃ c ∈ w.calls, c.Desyncs ∧ part = c.frame.take c.took) ∧
      ((∀ msg data, marshal msg = .ok data → (10 : UInt8) ∉ data) →
        w.accepted.splitOn 10 = (w.calls.filter Call.Whole).map (·.frame.dropLast) ++ [part])) ∧
    w.calls.Pairwise (fun c later => c.Desyncs → later.took = 0 ∧ later.result ≠ none) ∧
    (∀ c ∈ w.calls, (c.result = none ↔ c.Whole ∧ c.err = none) ∧
      (c.Whole → ∃ msg data, marshal msg = .ok data ∧ c.frame = data ++ [10])) ∧
    w.ran ++ w.pending.map Prod.snd = ((w.calls.find? Call.Desyncs).bind Call.hook).toList ∧
    (∀ (i : ℕ) (c : Call), w.calls[i]? = some c → c.Desyncs → i ∈ w.returned → w.ran = c.hook.toList) ∧
    ∀ i < w.calls.length, ∃ w', Relation.ReflTransGen (Step marshal) w w' ∧ w'.calls = w.calls ∧ i ∈ w'.returned := by
  have told := Reachable.told marshal run
  have own : ∀ c ∈ w.calls, (c.result = none ↔ c.Whole ∧ c.err = none) ∧
      (c.Whole → ∃ msg data, marshal msg = .ok data ∧ c.frame = data ++ [10]) :=
    fun c mem => (told.own c mem).imp_right fun own whole => own whole.1
  cases (Reachable.framed marshal run).1 with
  | healthy clean unlatched idle =>
    refine ⟨told.stream (by rw [told.accepted, clean_bytes clean, List.append_nil]) (.inl rfl), ?_, own, ?_, ?_,
      fun i => run.returns⟩
    · exact pairwise_of_synced fun c mem => (clean c mem).2
    · rw [idle.1, idle.2, List.find?_eq_none.mpr fun c mem => by simpa using (clean c mem).2]
      rfl
    · exact fun i c found desyncs => absurd desyncs (clean c (List.mem_of_getElem? found)).2
  | @poisoned before c after split clean desyncs refused latched hooks =>
    have unwhole : ¬ c.Whole := fun whole => desyncs.1.ne whole.2
    have nothing : after.filter Call.Whole = [] ∧ (after.flatMap fun a => a.frame.take a.took) = [] := by
      rw [List.filter_eq_nil_iff, List.flatMap_eq_nil_iff]
      refine ⟨fun a mem whole => ?_, fun a mem => by simp [(refused a mem).1]⟩
      obtain ⟨framed, all⟩ := of_decide_eq_true whole
      exact framed (List.eq_nil_of_length_eq_zero (all.symm.trans (refused a mem).1))
    refine ⟨told.stream ?_ (.inr ⟨c, by simp [split], desyncs, rfl⟩), ?_, own, ?_, ?_, fun i => run.returns⟩
    · rw [told.accepted, split, List.flatMap_append, clean_bytes clean]
      simp [unwhole, nothing]
    · rw [split, List.pairwise_append, List.pairwise_cons]
      exact ⟨pairwise_of_synced fun b mem => (clean b mem).2,
        ⟨fun a mem _ => ⟨(refused a mem).1, (refused a mem).2.1⟩, pairwise_of_synced fun a mem => (refused a mem).2.2⟩,
        fun b mem _ _ broken => absurd broken (clean b mem).2⟩
    · have first : before.find? Call.Desyncs = none :=
        List.find?_eq_none.mpr fun b mem => by simpa using (clean b mem).2
      rw [split, List.find?_append, first, Option.none_or, List.find?_cons_of_pos (by simpa using desyncs)]
      rcases hooks with ⟨ran, pending, -⟩ | ⟨ran, pending⟩ <;> simp [ran, pending, Function.comp_def]
    · intro i b found broken returned
      -- the call that broke the stream is the only one that did
      obtain rfl : i = before.length := by
        rw [split] at found
        rcases lt_trichotomy i before.length with early | same | late
        · rw [List.getElem?_append_left early] at found
          exact absurd broken (clean b (List.mem_of_getElem? found)).2
        · exact same
        · rw [List.getElem?_append_right late.le, List.getElem?_cons, if_neg (by omega)] at found
          exact absurd broken (refused b (List.mem_of_getElem? found)).2.2
      obtain rfl : b = c := by simpa [split] using found.symm
      exact hooks.elim (fun early => absurd returned early.2.2) And.left

-- One byte of a frame of two is taken, and the hook installed then is run before the call returns.
theorem frames_never_glued_partly : ∃ w, Reachable (fun _ : Unit => .ok (lit "7")) false (some 4) w ∧
    w.accepted = lit "7" ∧ w.returned = [0] ∧ w.ran = [4] := by
  have write : Reachable (fun _ : Unit => .ok (lit "7")) false (some 4) _ :=
    .tail .refl (@Step.write _ _ _ () (lit "7") 1 _ _ (some .shortWrite) rfl rfl (by decide) (by simp) rfl)
  have hook := write.tail (@Step.runHook _ _ _ [] 0 4 [] rfl)
  have run := hook.tail (@Step.ret _ _ _ 0 (by decide) (by simp))
  exact ⟨_, run, rfl, rfl, (frames_never_glued _ false (some 4) run).2.2.2.2.1 0 _ rfl (by decide) (.head _)⟩

end Eunox.FrameWriter
