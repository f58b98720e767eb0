import HawkTracer.Lib.FileDump
import HawkTracer.RoundTrip.ClientRun

/-!
# The timelines behind the stream of a process

In `HawkTracer.RoundTrip.Process` the buffer of a thread is a list of events, and it is flushed at
any time. Here the threads have the timelines of `HawkTracer.Lib.Timeline`, which are flushed when
the next event does not fit, and the stream is the file of a `HawkTracer.Lib.FileDump`, which the
global timelines have in common.

A step of the timelines is a step of the process, with a flush before or behind it if the timeline
is flushed (`HawkTracer.RoundTrip.Recorder.Refines.step`). So the file is that of a process whose
threads do the same (`HawkTracer.RoundTrip.Recorder.file_of_run`), and what the timelines hold are
its buffers.
-/

namespace HawkTracer.RoundTrip

open HawkTracer.Lib

/-- The threads, whose buffers are not used here, their timelines, and the listener; a call that
does not return leaves no listener. -/
structure Recorder (M : Machine) where
  threads : UInt32 → ThreadState M
  timelines : UInt32 → Timeline
  listener : Option FileDump

/-- The program asks for a flush. -/
def ProcessOp.isFlush : ProcessOp → Bool
  | .flush _ => true
  | _ => false

namespace Recorder

variable {M : Machine} (R : CastRep LabelEvent)

/-- `_ht_global_timeline_create` for each thread, and a new listener. -/
def start (capacity : UInt32 → ℕ) (bufferSize : ℕ) (metadata : List (List UInt8)) : Recorder M where
  threads := (Process.start : Process M).threads
  timelines t := Timeline.create (capacity t) true
  listener := FileDump.create R bufferSize metadata

/-- The events that a thread pushes. -/
def pushAll (t : Timeline) (es : List LabelEvent) : Timeline × List Notification :=
  es.foldl (fun r e =>
    let r' := r.1.pushEvent R.toEventRep e
    (r'.1, r.2 ++ r'.2)) (t, [])

/-- A thread goes on, and the listener is called with what its timeline hands over. -/
def notify (s : Recorder M) (thread : UInt32) (a : ThreadState M)
    (r : Timeline × List Notification) : Recorder M where
  threads := Function.update s.threads thread { a with buffer := [] }
  timelines := Function.update s.timelines thread r.1
  listener := s.listener.bind fun l => r.2.foldlM (fun l n => l.callback R n) l

/-- One operation. -/
def step (s : Recorder M) (op : ProcessOp) : Recorder M :=
  let a := (s.threads op.thread).act op
  s.notify R op.thread a (if op.isFlush then (s.timelines op.thread).flush
    else pushAll R (s.timelines op.thread) a.buffer)

/-- The operations are those that a process can do. -/
def Fine (s : Recorder M) (op : ProcessOp) : Prop := Process.Fine ⟨s.threads, []⟩ op

/-- **The timelines hold the buffers of the process**, and the listener has taken its stream. -/
structure Refines (metadata : List UInt8) (s : Recorder M) (p : Process M) : Prop where
  threads : ∀ t, s.threads t = { p.threads t with buffer := [] } ∧
    (s.timelines t).Holds R.toEventRep (p.threads t).buffer ∧
    (s.timelines t).serializeEvents = true
  took : ∃ l n, s.listener = some l ∧ l.opened = true ∧
    FileDump.Took n l (metadata ++ R.reps true p.stream)

variable {R} {metadata : List UInt8} {s : Recorder M} {p : Process M} {op : ProcessOp}
  {a : ThreadState M} {held : List LabelEvent}

theorem refines_start (capacity : UInt32 → ℕ) (bufferSize : ℕ) (metadata : List (List UInt8)) :
    Refines R metadata.flatten (start R capacity bufferSize metadata : Recorder M) .start where
  threads t := ⟨rfl, Timeline.holds_create (capacity t) true, rfl⟩
  took := by
    obtain ⟨l, hl, hopened, htook⟩ := FileDump.took_create (R := R) bufferSize metadata
    exact ⟨l, bufferSize, hl, hopened, by simpa [Process.start] using htook⟩

/-- **A thread goes on, and its timeline hands over groups of events.** -/
theorem Refines.notify {thread : UInt32} {new : List LabelEvent}
    {r : Timeline × List Notification} {groups : List (List LabelEvent)}
    (h : Refines R metadata s p) (a : ThreadState M) (hr : Timeline.Batches R.toEventRep
      (s.timelines thread) (p.threads thread).buffer new r groups held) :
    Refines R metadata (s.notify R thread a r)
      ⟨Function.update p.threads thread { a with buffer := held }, p.stream ++ groups.flatten⟩ where
  threads t := by
    by_cases ht : t = thread
    · subst ht
      simpa [Recorder.notify] using ⟨hr.holds, hr.serializeEvents.trans (h.threads t).2.2⟩
    · simpa [Recorder.notify, ht] using h.threads t
  took := by
    obtain ⟨l, n, hl, hopened, htook⟩ := h.took
    have hfits : ∀ g ∈ groups, ListenerBuffer.Fits R.toEventRep n true g := fun _ _ => nofun
    obtain ⟨l', hcalls, hopened', htook'⟩ := htook.notify hopened hfits
    refine ⟨l', n, ?_, hopened', ?_⟩
    · simp only [Recorder.notify, hl, hr.sent, (h.threads thread).2.2, Option.bind_some]
      exact hcalls
    · rw [EventRep.reps_append, ← List.append_assoc]
      exact htook'

theorem length_perform (charSigned : Bool) (text : UInt64 → CString) (f : CachedString) (c : Call) :
    (c.perform charSigned text f).pushed.length ≤ 1 := by
  have hadd : ∀ w id label, (f.addMapping_ w id label .yes).pushed.length ≤ 1 := by
    intro w id label
    rw [CachedString.addMapping_]
    split <;> simp
  cases c with
  | addMapping address => exact hadd ..
  | addMappingDynamic label =>
    simp only [Call.perform, CachedString.addMappingDynamic]
    split
    · exact hadd ..
    · exact Nat.zero_le 1

/-- An operation pushes one event at most. -/
theorem length_act (ha : a.buffer = []) (op : ProcessOp) : (a.act op).buffer.length ≤ 1 := by
  cases op with
  | add => simpa [ThreadState.act, ha] using length_perform ..
  | stop => simp [ThreadState.act, ha, CallstackTrace.step, FeatureCallstack.stop]
  | start => simp [ThreadState.act, ha]
  | flush => exact Nat.zero_le 1

/-- What is in the buffer has no influence on what a thread does. -/
theorem act_eq (a : ThreadState M) (hop : op.isFlush = false) :
    a.act op = { ({ a with buffer := [] } : ThreadState M).act op with
      buffer := a.buffer ++ (({ a with buffer := [] } : ThreadState M).act op).buffer } := by
  cases op with
  | flush => cases hop
  | start => simp [ThreadState.act]
  | _ => rfl

/-- A timeline keeps an event with the others, alone, or not at all. -/
theorem batches_pushAll (hR : ∀ e, R.encode e ≠ []) {t : Timeline} (h : t.Holds R.toEventRep held)
    (hserial : t.serializeEvents = true) {es : List LabelEvent} (hes : es.length ≤ 1) :
    ∃ groups held', Timeline.Batches R.toEventRep t held es (pushAll R t es) groups held' ∧
      (held' = held ++ es ∨ held' = es ∨ held' = []) := by
  match es with
  | [] => exact ⟨[], held, h.batches, .inl (List.append_nil held).symm⟩
  | [e] =>
    have hvisible : R.visible t.serializeEvents [e] = [e] := by
      simp [EventRep.visible, EventRep.rep, hserial, hR]
    have hr := Timeline.batches_pushGroups h e
    rw [hvisible] at hr
    refine ⟨_, _, hr, ?_⟩
    rw [Timeline.pushGroups, Timeline.makeRoomGroups, hvisible]
    split <;> split
    · exact .inr (.inr rfl)
    · omega
    · exact .inr (.inl rfl)
    · exact .inl rfl
  | _ :: _ :: _ => exact absurd hes (by simp)

/-- The operations that are fine depend on the threads without their buffers. -/
theorem Refines.fine_iff (h : Refines R metadata s p) : s.Fine op ↔ p.Fine op := by
  cases op <;> simp [Fine, Process.Fine, h.threads]

theorem Refines.flush (h : Refines R metadata s p) (thread : UInt32) :
    Refines R metadata (s.step R (.flush thread)) (p.step (.flush thread)) := by
  have hr := Timeline.batches_flushGroups (h.threads thread).2.1
  have hnext := h.notify ((s.threads thread).act (.flush thread)) hr
  have hgroups := hr.split
  rw [List.append_nil, List.append_nil] at hgroups
  have hact : (s.threads thread).act (.flush thread) = (p.threads thread).act (.flush thread) := by
    rw [(h.threads thread).1]
    rfl
  rw [hgroups, hact] at hnext
  rw [Recorder.step, ProcessOp.thread, hact]
  exact hnext

/-- **An operation that is no flush**, of a process whose thread is left with the state `a` by what
it does without its buffer. With a flush before or behind it, the buffer holds what is new, or
nothing. -/
theorem exists_run {flushed : List LabelEvent} (hop : op.isFlush = false) (hfine : p.Fine op)
    (ha : a = ({ p.threads op.thread with buffer := [] } : ThreadState M).act op)
    (hsplit : flushed ++ held = (p.threads op.thread).buffer ++ a.buffer)
    (hheld : held = (p.threads op.thread).buffer ++ a.buffer ∨ held = a.buffer ∨ held = []) :
    ∃ ops, ops.filter (!·.isFlush) = [op].filter (!·.isFlush) ∧
      StepsMeet Process.step Process.Fine p ops ∧ runFrom Process.step p ops =
        ⟨Function.update p.threads op.thread { a with buffer := held }, p.stream ++ flushed⟩ := by
  have hwritten : ∀ p : Process M, p.written op = [] := by
    cases op with
    | flush => cases hop
    | _ => exact fun _ => rfl
  have hstep : p.step op = ⟨Function.update p.threads op.thread
      { a with buffer := (p.threads op.thread).buffer ++ a.buffer }, p.stream⟩ := by
    rw [Process.step, hwritten, act_eq _ hop, ← ha, List.append_nil]
  rcases hheld with rfl | rfl | rfl
  · refine ⟨[op], rfl, ⟨hfine, trivial⟩, ?_⟩
    rw [List.append_left_eq_self.1 hsplit, List.append_nil]
    exact hstep
  · have hfine' : (p.step (.flush op.thread)).Fine op := by
      revert hfine
      cases op <;> simp [Process.step, Process.Fine, ProcessOp.thread, ThreadState.act]
    refine ⟨[.flush op.thread, op], rfl, ⟨trivial, hfine', trivial⟩, ?_⟩
    rw [List.append_cancel_right hsplit, runFrom_cons, runFrom_cons, Process.step, hwritten]
    simp [Process.step, Process.written, ProcessOp.thread, ThreadState.act, ha]
  · refine ⟨[op, .flush op.thread], ?_, ⟨hfine, trivial, trivial⟩, ?_⟩
    · simp [List.filter_cons, ProcessOp.isFlush]
    · rw [List.append_nil] at hsplit
      rw [hsplit, runFrom_cons, runFrom_cons, hstep]
      simp [Process.step, Process.written, ProcessOp.thread, ThreadState.act]

/-- **A step of the timelines is a step of the process**, with a flush before or behind it if the
timeline is flushed. -/
theorem Refines.step (hR : ∀ e, R.encode e ≠ []) (h : Refines R metadata s p) (hfine : s.Fine op) :
    ∃ ops, ops.filter (!·.isFlush) = [op].filter (!·.isFlush) ∧
      StepsMeet Process.step Process.Fine p ops ∧
      Refines R metadata (s.step R op) (runFrom Process.step p ops) := by
  cases hop : op.isFlush with
  | true =>
    cases op with
    | flush thread => exact ⟨[.flush thread], rfl, ⟨trivial, trivial⟩, h.flush thread⟩
    | _ => cases hop
  | false =>
    obtain ⟨hacts, hholds, hserial⟩ := h.threads op.thread
    obtain ⟨groups, held, hr, hheld⟩ := batches_pushAll hR hholds hserial
      (length_act (congrArg (·.buffer) hacts) op)
    obtain ⟨ops, hsame, hmeet, hrun⟩ := exists_run hop (h.fine_iff.1 hfine)
      (congrArg (·.act op) hacts) hr.split hheld
    refine ⟨ops, hsame, hmeet, ?_⟩
    rw [hrun, Recorder.step, hop, if_neg Bool.false_ne_true]
    exact h.notify _ hr

/-- **A run of the timelines is a run of the process**, in which the threads do the same. -/
theorem Refines.run (hR : ∀ e, R.encode e ≠ []) (h : Refines R metadata s p) {ops : List ProcessOp}
    (hops : StepsMeet (Recorder.step R) Fine s ops) :
    ∃ ops', ops'.filter (!·.isFlush) = ops.filter (!·.isFlush) ∧
      StepsMeet Process.step Process.Fine p ops' ∧
      Refines R metadata (runFrom (Recorder.step R) s ops) (runFrom Process.step p ops') := by
  induction ops generalizing s p with
  | nil => exact ⟨[], rfl, trivial, h⟩
  | cons op ops ih =>
    obtain ⟨first, hsame, hmeet, hnext⟩ := h.step hR hops.1
    obtain ⟨rest, hsame', hmeet', hlast⟩ := ih hnext hops.2
    refine ⟨first ++ rest, ?_, ?_, ?_⟩
    · rw [List.filter_append, hsame, hsame', ← List.filter_append]
      rfl
    · exact stepsMeet_append_iff.2 ⟨hmeet, hmeet'⟩
    · rw [runFrom_append]
      exact hlast

/-- **The file is that of a process** whose threads do the same, once the listener is stopped. What
is not in the file is in the timelines. -/
theorem file_of_run {H : Host} {G : Registry} {stamps : ℕ → Stamp}
    (hR : ∀ e, R.encode e = (e.traced G).output H.order) {capacity : UInt32 → ℕ} {bufferSize : ℕ}
    {ops : List ProcessOp} (hops : StepsMeet (Recorder.step R) Fine
      (start R capacity bufferSize (pushMetadata H stamps true G.klasses).1 : Recorder M) ops) :
    let s := runFrom (Recorder.step R)
      (start R capacity bufferSize (pushMetadata H stamps true G.klasses).1 : Recorder M) ops
    ∃ ops' l, ∃ p : Process M, p = runFrom Process.step .start ops' ∧
      StepsMeet Process.step Process.Fine (.start : Process M) ops' ∧
      ops'.filter (!·.isFlush) = ops.filter (!·.isFlush) ∧
      s.listener = some l ∧ l.stop.file = traceFile H stamps G p ∧
      ∀ t, (s.timelines t).Holds R.toEventRep (p.threads t).buffer := by
  intro s
  have hencode : ∀ e, R.encode e ≠ [] := by
    intro e
    rw [hR, Instance.output_eq H.order (Registry.baseFirst_of_mem (e.traced G).mem)]
    exact encode_ne_nil_of_traced (e.traced G) H.order
  obtain ⟨ops', hsame, hmeet, hlast⟩ := (refines_start capacity bufferSize _).run hencode hops
  obtain ⟨l, n, hl, hopened, htook⟩ := hlast.took
  refine ⟨ops', l, _, rfl, hmeet, hsame, hl, ?_, fun t => (hlast.threads t).2.1⟩
  rw [htook.stop.file l.opened_stop, traceFile, streamOf, List.flatMap_map]
  exact congrArg (_ ++ List.flatMap · _) (funext hR)

end Recorder

end HawkTracer.RoundTrip
