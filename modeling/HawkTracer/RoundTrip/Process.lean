import HawkTracer.RoundTrip.FreshConverter
import HawkTracer.RoundTrip.Profile

/-!
# The stream of a process

Every thread of a process has a global timeline of its own, with cached strings and a callstack
(`ht_global_timeline_get`). The macros of the tracepoints add a string to the cached strings and
open a scope with the identifier they get; the events wait in the buffer of the timeline, and
whenever it is flushed they go to the one stream of the process.

Here the threads run in any order, and the buffers are flushed at any time
(`HawkTracer.RoundTrip.Process.step`); `HawkTracer.RoundTrip.Recorder` has the timelines and the
file behind them. The stream has the events of a thread in their order, less
what is still in its buffer, and no label before the event that maps it
(`HawkTracer.RoundTrip.Sound`). So both together are the events of its calls
(`HawkTracer.RoundTrip.Sound.callsIn_eq`), under the labels that the identifiers mean.
-/

namespace HawkTracer.RoundTrip

open HawkTracer.Lib HawkTracer.Parser HawkTracer.Client

/-! ### Integer labels -/

/-- The machine of the process. -/
structure Machine where
  order : ByteOrder
  /-- The size that the type info of a klass gives, by the address of the klass. -/
  typeSize : ℕ → ℕ
  /-- The klass of `HT_CallstackIntEvent`. -/
  intKlass : UInt64
  intKlass_size : typeSize intKlass.toNat = 48
  charSigned : Bool
  /-- The strings at the addresses. -/
  text : UInt64 → CString

/-- `HT_CallstackIntEvent::label`. -/
def labelField : EventField := ⟨40, 8⟩

/-- The identifier in what an `HT_CallstackIntEvent` has beyond the base type. -/
def identifierIn (order : ByteOrder) (rest : List UInt8) : UInt64 :=
  UInt64.ofNat (ofBytes order (slice rest 4 8))

/-- The label of an event, by what its identifier means. -/
def meaningOf (order : ByteOrder) (meant : UInt64 → Label) : ℕ → List UInt8 → Label :=
  fun _ rest => meant (identifierIn order rest)

namespace Machine

variable (M : Machine)

/-- The event that `ht_feature_callstack_start_int` declares. -/
def intEventBytes (label : UInt64) : List UInt8 :=
  labelField.set M.order (EventField.klass.set M.order (List.replicate 48 0) M.intKlass.toNat)
    label.toNat

theorem length_klass_set :
    (EventField.klass.set M.order (List.replicate 48 0) M.intKlass.toNat).length = 48 :=
  EventField.length_set (by decide)

theorem length_intEventBytes (label : UInt64) : (M.intEventBytes label).length = 48 := by
  rw [intEventBytes, EventField.length_set (by rw [length_klass_set]; decide), length_klass_set]

/-- An event with an integer label. -/
def intEvent (label : UInt64) : CallstackBaseEvent M.order M.typeSize where
  bytes := M.intEventBytes label
  length_bytes := by
    rw [length_intEventBytes, intEventBytes,
      EventField.get_set_of_apart (by rw [length_klass_set]; decide) (by decide),
      EventField.get_set_self (by decide) M.intKlass.toNat_lt, M.intKlass_size]
  base_le := by
    rw [length_intEventBytes]
    decide

theorem identifierIn_intEvent (label : UInt64) :
    identifierIn M.order ((M.intEvent label).bytes.drop EventField.threadId.stop) = label := by
  have hget : labelField.get M.order (labelField.set M.order (EventField.klass.set M.order
      (List.replicate 48 0) M.intKlass.toNat) label.toNat) = label.toNat :=
    EventField.get_set_self (by rw [length_klass_set]; decide) label.toNat_lt
  rw [identifierIn, slice, List.drop_drop]
  exact (congrArg UInt64.ofNat hget).trans UInt64.ofNat_toNat

theorem labelAt_intEvent (meant : UInt64 → Label) (label : UInt64) :
    labelAt (meaningOf M.order meant) M.order (M.intEvent label).bytes = meant label := by
  rw [labelAt, meaningOf, identifierIn_intEvent]

end Machine

/-- The event in the stream for the event in memory. -/
def pushedEvent (order : ByteOrder) (event : List UInt8) : LabelEvent :=
  .callstack ⟨UInt64.ofNat (EventField.timestamp.get order event),
      UInt64.ofNat (EventField.id.get order event)⟩
    (UInt64.ofNat (EventField.duration.get order event))
    (UInt32.ofNat (EventField.threadId.get order event))
    (identifierIn order (event.drop EventField.threadId.stop))

/-! ### The process -/

/-- A thread: its callstack, its cached strings, the identifiers it got so far, and the buffer of
its timeline. -/
structure ThreadState (M : Machine) where
  trace : CallstackTrace M.order M.typeSize
  strings : CachedString
  ids : List UInt64
  buffer : List LabelEvent

/-- The threads, and what has been written to the stream. -/
structure Process (M : Machine) where
  threads : UInt32 → ThreadState M
  stream : List LabelEvent

/-- What a thread does. -/
inductive ProcessOp where
  /-- It adds a string to its cached strings. -/
  | add (thread : UInt32) (c : Call) (stamp : Stamp)
  /-- It opens a scope, with an integer label. -/
  | start (thread : UInt32) (label timestamp id : UInt64)
  /-- It closes the innermost scope. -/
  | stop (thread : UInt32) (now : UInt64)
  /-- Its timeline is flushed. -/
  | flush (thread : UInt32)

/-- The thread that acts. -/
def ProcessOp.thread : ProcessOp → UInt32
  | .add thread .. | .start thread .. | .stop thread _ | .flush thread => thread

/-- What an operation does to its thread. -/
def ThreadState.act {M : Machine} (s : ThreadState M) : ProcessOp → ThreadState M
  | .add _ c stamp =>
    let r := c.perform M.charSigned M.text s.strings
    { s with
      strings := r.feature
      ids := s.ids ++ [r.id]
      buffer := s.buffer ++ r.pushed.map fun p => .mapping stamp p.1 p.2 }
  | .start _ label timestamp id =>
    { s with trace := s.trace.step (.start (M.intEvent label) timestamp id) }
  | .stop thread now =>
    let trace := s.trace.step (.stop now thread)
    { s with
      trace := trace
      buffer := s.buffer ++
        (trace.feature.pushed.drop s.trace.feature.pushed.length).map (pushedEvent M.order) }
  | .flush _ => { s with buffer := [] }

namespace Process

variable {M : Machine}

/-- No thread has done anything. -/
def start : Process M := ⟨fun _ => ⟨.start, .init, [], []⟩, []⟩

/-- What an operation writes to the stream. -/
def written (s : Process M) : ProcessOp → List LabelEvent
  | .flush thread => (s.threads thread).buffer
  | _ => []

/-- One operation. -/
def step (s : Process M) (op : ProcessOp) : Process M where
  threads := Function.update s.threads op.thread ((s.threads op.thread).act op)
  stream := s.stream ++ s.written op

/-- **A scope is labelled with an identifier that the thread got**, the clock of each thread ticks
before a scope is opened, and a stop ends a scope that is open. -/
def Fine (s : Process M) : ProcessOp → Prop
  | .start thread label timestamp id => label ∈ (s.threads thread).ids ∧
    Ticked (s.threads thread).trace (.start (M.intEvent label) timestamp id)
  | .stop thread now => Ticked (s.threads thread).trace (.stop now thread)
  | .add .. | .flush _ => True

instance (s : Process M) : ∀ op, Decidable (s.Fine op)
  | .start thread label timestamp id => inferInstanceAs (Decidable
      (label ∈ (s.threads thread).ids ∧
        Ticked (s.threads thread).trace (.start (M.intEvent label) timestamp id)))
  | .stop thread now => inferInstanceAs (Decidable (Ticked (s.threads thread).trace
      (.stop now thread)))
  | .add .. | .flush _ => inferInstanceAs (Decidable True)

end Process

/-- **What the identifiers mean**: every string that is added is the meaning of its identifier, and
none is empty. -/
def ProcessOp.Means (M : Machine) (meant : UInt64 → Label) : ProcessOp → Prop
  | .add _ c _ => (c.string M.text).bytes = meant (c.id M.charSigned) ∧
    (c.string M.text).bytes ≠ []
  | _ => True

instance (M : Machine) (meant : UInt64 → Label) : ∀ op, Decidable (ProcessOp.Means M meant op)
  | .add _ c _ => inferInstanceAs (Decidable ((c.string M.text).bytes = meant (c.id M.charSigned) ∧
      (c.string M.text).bytes ≠ []))
  | .start .. | .stop .. | .flush _ => inferInstanceAs (Decidable True)

/-! ### The call trees -/

/-- What an operation means for the calls of its thread. -/
def treeOp (meant : UInt64 → Label) : ProcessOp → Option (Brackets.Op Label)
  | .start _ label timestamp _ => some (.start (meant label) timestamp.toNat)
  | .stop _ now => some (.stop now.toNat)
  | .add .. | .flush _ => none

/-- The calls of all threads. -/
def stepTrees (meant : UInt64 → Label) (b : UInt32 → Brackets.State Label) (op : ProcessOp) :
    UInt32 → Brackets.State Label :=
  Function.update b op.thread
    ((treeOp meant op).elim (b op.thread) (Brackets.step (b op.thread)))

/-- **The calls of a thread**, from its own operations. -/
def callTree (meant : UInt64 → Label) (thread : UInt32) (ops : List ProcessOp) :
    Brackets.State Label :=
  runFrom Brackets.step Brackets.init
    ((ops.filter fun op => op.thread = thread).filterMap (treeOp meant))

/-- The finished calls of a thread. -/
def spansOf (meant : UInt64 → Label) (thread : UInt32) (ops : List ProcessOp) :
    List (Brackets.Span Label) := (callTree meant thread ops).spans

/-- A thread is not concerned with what the others do. -/
theorem runFrom_stepTrees (meant : UInt64 → Label) (b : UInt32 → Brackets.State Label)
    (ops : List ProcessOp) (thread : UInt32) :
    runFrom (stepTrees meant) b ops thread = runFrom Brackets.step (b thread)
      ((ops.filter fun op => op.thread = thread).filterMap (treeOp meant)) := by
  induction ops generalizing b with
  | nil => rfl
  | cons op ops ih =>
    rw [runFrom_cons, ih]
    by_cases hop : op.thread = thread
    · rw [List.filter_cons_of_pos (by simp [hop]), stepTrees, hop, Function.update_self]
      cases htree : treeOp meant op with
      | none => rw [List.filterMap_cons_none htree]; rfl
      | some o => rw [List.filterMap_cons_some htree]; rfl
    · rw [List.filter_cons_of_neg (by simp [hop]), stepTrees, Function.update_of_ne (Ne.symm hop)]

/-- The clock ticks for the calls of the thread that acts. -/
def TreesTick (meant : UInt64 → Label) (b : UInt32 → Brackets.State Label) (op : ProcessOp) :
    Prop := ∀ o ∈ treeOp meant op, Brackets.Ticking (b op.thread) o

theorem kept_trees {meant : UInt64 → Label} {ops : List ProcessOp}
    (hops : StepsMeet (stepTrees meant) (TreesTick meant) (fun _ => Brackets.init) ops)
    (thread : UInt32) : Brackets.Kept (callTree meant thread ops) := by
  have hstep : ∀ (b : UInt32 → Brackets.State Label) (op : ProcessOp),
      (∀ t, Brackets.Kept (b t)) → TreesTick meant b op →
        ∀ t, Brackets.Kept (stepTrees meant b op t) := by
    intro b op hb htick t
    rw [stepTrees, Function.update_apply]
    split
    · cases htree : treeOp meant op with
      | none => exact hb _
      | some o => exact (hb _).step (htick o htree)
    · exact hb t
  have hkept := (throughout_of_step hstep (fun _ => Brackets.kept_init) hops).last thread
  rw [runFrom_stepTrees] at hkept
  exact hkept

/-! ### The stream -/

/-- The callstack events of a thread. -/
def callsIn (thread : UInt32) (events : List LabelEvent) : List LabelEvent :=
  events.filter fun
    | .mapping .. => false
    | .callstack _ _ threadId _ => threadId = thread

/-- **What holds of a thread**, when `stream` has been written and `b` are its calls. -/
structure Sound {M : Machine} (meant : UInt64 → Label) (stream : List LabelEvent)
    (thread : UInt32) (s : ThreadState M) (b : Brackets.State Label) : Prop where
  follows : Follows (meaningOf M.order meant) s.trace b
  ended : ∀ c ∈ s.trace.scopes.finished, c.thread = thread
  /-- The open scopes are labelled with identifiers that the thread got. -/
  labels : ∀ o ∈ s.trace.scopes.opened,
    identifierIn M.order (o.event.bytes.drop EventField.threadId.stop) ∈ s.ids
  strings : s.strings.Sound
  called : ∀ w id, s.strings.value w id ≠ none → id ∈ s.ids
  /-- What has been written and what is in the buffer is what was pushed. -/
  sent : callsIn thread stream ++ callsIn thread s.buffer =
    s.trace.feature.pushed.map (pushedEvent M.order)
  /-- The buffer has events of this thread only. -/
  own : ∀ t, t ≠ thread → callsIn t s.buffer = []
  mapped : Mapped meant (mappedBy stream) s.buffer
  known : ∀ id ∈ s.ids, id ∈ mappedBy stream ++ mappedBy s.buffer

theorem mappedBy_append (events events' : List LabelEvent) :
    mappedBy (events ++ events') = mappedBy events ++ mappedBy events' := List.filterMap_append

theorem callsIn_append (thread : UInt32) (events events' : List LabelEvent) :
    callsIn thread (events ++ events') = callsIn thread events ++ callsIn thread events' :=
  List.filter_append ..

section Steps

variable {M : Machine} {meant : UInt64 → Label} {stream : List LabelEvent} {thread : UInt32}
  {s : ThreadState M} {b : Brackets.State Label}

theorem sound_start (meant : UInt64 → Label) (thread : UInt32) :
    Sound meant [] thread ((Process.start : Process M).threads thread) Brackets.init where
  follows := follows_start _
  ended := by rintro c ⟨⟩
  labels := by rintro o ⟨⟩
  strings := CachedString.sound_init
  called w id h := absurd (CachedString.value_init w id) h
  sent := rfl
  own _ _ := rfl
  mapped := trivial
  known := by rintro id ⟨⟩

section

variable (h : Sound meant stream thread s b)

include h

/-- Another thread writes to the stream. -/
theorem Sound.of_written {events : List LabelEvent} (hevents : callsIn thread events = []) :
    Sound meant (stream ++ events) thread s b :=
  { h with
    sent := by rw [callsIn_append, hevents, List.append_nil, h.sent]
    mapped := h.mapped.mono (by rw [mappedBy_append]; exact List.subset_append_left _ _)
    known := fun id hid => by
      have hknown := h.known id hid
      rw [mappedBy_append]
      simp only [List.mem_append] at hknown ⊢
      tauto }

/-- The buffer is flushed. -/
theorem Sound.flush : Sound meant (stream ++ s.buffer) thread (s.act (.flush thread)) b :=
  { h with
    sent := by
      rw [callsIn_append, h.sent]
      exact List.append_nil _
    own := fun _ _ => rfl
    mapped := trivial
    known := fun id hid => by
      rw [mappedBy_append]
      exact List.mem_append_left _ (h.known id hid) }

/-- A string is added. -/
theorem Sound.add {c : Call} (stamp : Stamp) (hc : (ProcessOp.add thread c stamp).Means M meant) :
    Sound meant stream thread (s.act (.add thread c stamp)) b := by
  obtain ⟨hmeant, -⟩ := hc
  obtain ⟨f', hperform, hsound, hgrow⟩ := Call.perform_eq M.charSigned M.text h.strings c
  have hact : s.act (.add thread c stamp) = { s with
      strings := f'
      ids := s.ids ++ [c.id M.charSigned]
      buffer := s.buffer ++ if s.strings.value c.map (c.id M.charSigned) = none then
        [.mapping stamp (c.id M.charSigned) (c.string M.text)] else [] } := by
    rw [ThreadState.act, hperform]
    dsimp only
    split <;> rfl
  have hcalls : ∀ t, callsIn t (if s.strings.value c.map (c.id M.charSigned) = none then
      [.mapping stamp (c.id M.charSigned) (c.string M.text)] else []) = [] := by
    intro t
    split <;> rfl
  have hids : ∀ id ∈ s.ids ++ [c.id M.charSigned], id ∈ s.ids ∨ id = c.id M.charSigned :=
    fun id hid => (List.mem_append.mp hid).imp_right List.mem_singleton.mp
  rw [hact]
  refine ⟨h.follows, h.ended, fun o ho => List.mem_append_left _ (h.labels o ho), hsound,
    fun w id hid => ?_, ?_, fun t ht => ?_, ?_, fun id hid => ?_⟩
  · rcases hgrow w id hid with hold | ⟨-, rfl⟩
    · exact List.mem_append_left _ (h.called w id hold)
    · exact List.mem_append_right _ (List.mem_singleton_self _)
  · rw [callsIn_append, hcalls, List.append_nil, h.sent]
  · rw [callsIn_append, h.own t ht, hcalls]
    rfl
  · refine mapped_append h.mapped ?_
    split
    · exact ⟨hmeant, trivial⟩
    · trivial
  · -- an identifier that is in a map of the feature has been mapped before
    have hold : ∀ id ∈ s.ids, id ∈ mappedBy stream ++ mappedBy (s.buffer ++
        if s.strings.value c.map (c.id M.charSigned) = none then
          [.mapping stamp (c.id M.charSigned) (c.string M.text)] else []) := by
      intro id hid
      rw [mappedBy_append, ← List.append_assoc]
      exact List.mem_append_left _ (h.known id hid)
    rcases hids id hid with hid | rfl
    · exact hold id hid
    · by_cases hnew : s.strings.value c.map (c.id M.charSigned) = none
      · rw [if_pos hnew, mappedBy_append]
        exact List.mem_append_right _ (List.mem_append_right _ List.mem_cons_self)
      · exact hold _ (h.called _ _ hnew)

/-- A scope is opened. -/
theorem Sound.start {label timestamp id : UInt64} (hlabel : label ∈ s.ids)
    (htick : Ticked s.trace (.start (M.intEvent label) timestamp id)) :
    Brackets.Ticking b (.start (meant label) timestamp.toNat) ∧
      Sound meant stream thread (s.act (.start thread label timestamp id))
        (Brackets.step b (.start (meant label) timestamp.toNat)) := by
  have hop : bracketOp (meaningOf M.order meant)
      (.start (M.intEvent label) timestamp id : CallstackOp M.order M.typeSize) =
        .start (meant label) timestamp.toNat := by
    rw [bracketOp, M.labelAt_intEvent]
  rw [← hop]
  refine ⟨h.follows.ticking htick, { h with follows := h.follows.step htick, labels := ?_ }⟩
  rintro o (_ | ⟨_, ho⟩)
  · rw [M.identifierIn_intEvent]
    exact hlabel
  · exact h.labels o ho

/-- A scope is closed. -/
theorem Sound.stop {now : UInt64} (htick : Ticked s.trace (.stop now thread)) :
    Brackets.Ticking b (.stop now.toNat) ∧
      Sound meant stream thread (s.act (.stop thread now)) (Brackets.step b (.stop now.toNat)) := by
  obtain ⟨scope, opened, hopened⟩ := List.exists_cons_of_length_pos htick.1.2
  have hholds := h.follows.kept.holds
  rw [hopened] at hholds
  obtain ⟨-, hpushed⟩ := FeatureCallstack.stop_spec scope hholds now thread
  have hscopes : (s.trace.step (.stop now thread)).scopes =
      ⟨opened, s.trace.scopes.finished ++ [⟨scope, now, thread⟩]⟩ := by
    rw [CallstackTrace.step, Scopes.step, hopened]
  have hle : scope.timestamp ≤ now := UInt64.le_trans
    (h.follows.kept.opened_le scope (hopened ▸ List.mem_cons_self)) htick.1.1
  have hmatches := scope.matches_completed hle thread
  -- the event that is pushed
  have hevent : pushedEvent M.order (scope.completed now thread) = .callstack
      ⟨scope.timestamp, scope.id⟩ (UInt64.ofNat (now.toNat - scope.timestamp.toNat)) thread
      (identifierIn M.order (scope.event.bytes.drop EventField.threadId.stop)) := by
    rw [pushedEvent, hmatches.timestamp, hmatches.id, hmatches.duration, hmatches.thread,
      hmatches.rest, UInt64.ofNat_toNat, UInt64.ofNat_toNat, UInt32.ofNat_toNat]
  have hact : s.act (.stop thread now) = { s with
      trace := s.trace.step (.stop now thread)
      buffer := s.buffer ++ [pushedEvent M.order (scope.completed now thread)] } := by
    have hpushed' : (s.trace.step (.stop now thread)).feature.pushed =
        s.trace.feature.pushed ++ [scope.completed now thread] := hpushed
    rw [ThreadState.act, hpushed', List.drop_left, List.map_singleton]
  refine ⟨h.follows.ticking htick, ?_⟩
  rw [hact]
  refine ⟨h.follows.step htick, ?_, ?_, h.strings, h.called, ?_, fun t ht => ?_, ?_,
    fun id hid => ?_⟩
  · rw [hscopes]
    intro c hc
    rcases List.mem_append.mp hc with hc | hc
    · exact h.ended c hc
    · rw [List.mem_singleton.mp hc]
  · rw [hscopes]
    intro o ho
    exact h.labels o (hopened ▸ List.mem_cons_of_mem _ ho)
  · have hown : callsIn thread [pushedEvent M.order (scope.completed now thread)] =
        [pushedEvent M.order (scope.completed now thread)] := by
      rw [hevent]
      simp [callsIn]
    change _ = (s.trace.feature.stop M.order M.typeSize now thread).pushed.map _
    rw [callsIn_append, ← List.append_assoc, h.sent, hown, hpushed, List.map_append,
      List.map_singleton]
  · rw [callsIn_append, h.own t ht, hevent]
    simp [callsIn, Ne.symm ht]
  · refine mapped_append h.mapped ?_
    rw [hevent]
    exact ⟨h.known _ (h.labels scope (hopened ▸ List.mem_cons_self)), trivial⟩
  · rw [mappedBy_append, ← List.append_assoc]
    exact List.mem_append_left _ (h.known id hid)

end

end Steps

/-! ### Runs -/

section Runs

variable {M : Machine} {meant : UInt64 → Label}

/-- **What holds of the process.** -/
structure AllSound (meant : UInt64 → Label) (s : Process M) (b : UInt32 → Brackets.State Label) :
    Prop where
  mapped : Mapped meant [] s.stream
  sound : ∀ thread, Sound meant s.stream thread (s.threads thread) (b thread)

variable {b : UInt32 → Brackets.State Label} {op : ProcessOp} {s : Process M}

/-- A step that writes nothing. -/
theorem AllSound.step_of_written (h : AllSound meant s b) (hwritten : s.written op = [])
    (hop : Sound meant s.stream op.thread ((s.threads op.thread).act op)
      (stepTrees meant b op op.thread)) : AllSound meant (s.step op) (stepTrees meant b op) := by
  have hstream : (s.step op).stream = s.stream := by
    rw [Process.step, hwritten, List.append_nil]
  refine ⟨hstream ▸ h.mapped, fun thread => ?_⟩
  · change Sound meant (s.step op).stream thread (Function.update s.threads op.thread
      ((s.threads op.thread).act op) thread) _
    rw [hstream]
    by_cases ht : thread = op.thread
    · subst ht
      rw [Function.update_self]
      exact hop
    · rw [Function.update_of_ne ht, stepTrees, Function.update_of_ne ht]
      exact h.sound thread

theorem AllSound.step (h : AllSound meant s b) (hfine : s.Fine op) (hmeans : op.Means M meant) :
    TreesTick meant b op ∧ AllSound meant (s.step op) (stepTrees meant b op) := by
  have htree : ∀ op : ProcessOp, stepTrees meant b op op.thread =
      (treeOp meant op).elim (b op.thread) (Brackets.step (b op.thread)) := fun op =>
    Function.update_self ..
  cases op with
  | add thread c stamp =>
    refine ⟨by rintro o ⟨⟩, h.step_of_written rfl ?_⟩
    rw [htree]
    exact (h.sound thread).add stamp hmeans
  | start thread label timestamp id =>
    obtain ⟨htick, hsound⟩ := (h.sound thread).start hfine.1 hfine.2
    refine ⟨by rintro o ⟨⟩; exact htick, h.step_of_written rfl ?_⟩
    rw [htree]
    exact hsound
  | stop thread now =>
    obtain ⟨htick, hsound⟩ := (h.sound thread).stop hfine
    refine ⟨by rintro o ⟨⟩; exact htick, h.step_of_written rfl ?_⟩
    rw [htree]
    exact hsound
  | flush thread =>
    refine ⟨by rintro o ⟨⟩, mapped_append h.mapped (h.sound thread).mapped, fun t => ?_⟩
    change Sound meant (s.stream ++ (s.threads thread).buffer) t
      (Function.update s.threads thread ((s.threads thread).act (.flush thread)) t)
      (Function.update b thread (b thread) t)
    rw [Function.update_eq_self]
    by_cases ht : t = thread
    · subst ht
      rw [Function.update_self]
      exact (h.sound t).flush
    · rw [Function.update_of_ne ht]
      exact (h.sound t).of_written ((h.sound thread).own t ht)

/-- **The invariant of a run**, with the calls of every thread. -/
theorem allSound_run {ops : List ProcessOp} (hops : StepsMeet Process.step Process.Fine
      (.start : Process M) ops) (hmeans : ∀ op ∈ ops, op.Means M meant) :
    (∀ thread, Brackets.Kept (callTree meant thread ops)) ∧
      AllSound meant (runFrom Process.step (.start : Process M) ops)
        fun thread => callTree meant thread ops := by
  have hboth := hops.and (stepsMeet_const_iff.mpr hmeans)
  have hstart : AllSound meant (.start : Process M) fun _ => Brackets.init :=
    ⟨trivial, sound_start meant⟩
  have hfollowed : StepsMeet (stepTrees meant) (TreesTick meant) (fun _ => Brackets.init)
      (ops.map id) ∧ AllSound meant (runFrom Process.step (.start : Process M) ops)
        (runFrom (stepTrees meant) (fun _ => Brackets.init) (ops.map id)) :=
    followed_run (fun s b op (h : AllSound meant s b) hop => h.step hop.1 hop.2) hstart hboth
  obtain ⟨htrees, hsound⟩ := hfollowed
  rw [List.map_id] at htrees hsound
  have heq : runFrom (stepTrees meant) (fun _ => Brackets.init) ops =
      fun thread => callTree meant thread ops :=
    funext fun thread => runFrom_stepTrees meant _ ops thread
  rw [heq] at hsound
  exact ⟨kept_trees htrees, hsound⟩

/-- Only such identifiers are added. -/
def ProcessOp.Adds (M : Machine) (good : UInt64 → Prop) : ProcessOp → Prop
  | .add _ c _ => good (c.id M.charSigned)
  | _ => True

theorem mem_pushed_perform {charSigned : Bool} {text : UInt64 → CString} {f : CachedString}
    {c : Call} {p : UInt64 × CString} (hp : p ∈ (c.perform charSigned text f).pushed) :
    p.1 = c.id charSigned := by
  have hadd : ∀ w hash label, p ∈ (f.addMapping_ w hash label .yes).pushed → p.1 = hash := by
    intro w hash label hp
    rw [CachedString.addMapping_] at hp
    split at hp
    · cases hp
    · rw [List.mem_singleton.mp hp]
    · cases hp
  cases c with
  | addMapping address => exact hadd _ _ _ hp
  | addMappingDynamic label =>
    rw [Call.perform, CachedString.addMappingDynamic] at hp
    dsimp only at hp
    split at hp
    · exact hadd _ _ _ hp
    · cases hp

/-- Only such identifiers are mapped, in the stream and in the buffers. -/
structure MapsOnly (good : UInt64 → Prop) (s : Process M) : Prop where
  stream : ∀ id ∈ mappedBy s.stream, good id
  buffers : ∀ thread, ∀ id ∈ mappedBy (s.threads thread).buffer, good id

theorem MapsOnly.act {good : UInt64 → Prop} (h : MapsOnly good s) (hop : op.Adds M good) :
    ∀ id ∈ mappedBy ((s.threads op.thread).act op).buffer, good id := by
  intro id hid
  cases op with
  | add thread c stamp =>
    rw [ThreadState.act, mappedBy_append] at hid
    rcases List.mem_append.mp hid with hid | hid
    · exact h.buffers _ id hid
    · obtain ⟨event, hevent, heq⟩ := List.mem_filterMap.mp hid
      obtain ⟨p, hp, rfl⟩ := List.mem_map.mp hevent
      rw [← Option.some.inj heq, mem_pushed_perform hp]
      exact hop
  | start thread label timestamp eventId => exact h.buffers _ id hid
  | stop thread now =>
    rw [ThreadState.act, mappedBy_append] at hid
    rcases List.mem_append.mp hid with hid | hid
    · exact h.buffers _ id hid
    · obtain ⟨event, hevent, heq⟩ := List.mem_filterMap.mp hid
      obtain ⟨bytes, -, rfl⟩ := List.mem_map.mp hevent
      cases heq
  | flush thread => cases hid

theorem MapsOnly.step {good : UInt64 → Prop} (h : MapsOnly good s) (hop : op.Adds M good) :
    MapsOnly good (s.step op) where
  stream := by
    intro id hid
    rw [Process.step, mappedBy_append] at hid
    rcases List.mem_append.mp hid with hid | hid
    · exact h.stream id hid
    · cases op with
      | flush thread => exact h.buffers thread id hid
      | _ => cases hid
  buffers := by
    intro thread
    change ∀ id ∈ mappedBy (Function.update s.threads op.thread _ thread).buffer, good id
    rw [Function.update_apply]
    split
    · exact h.act hop
    · exact h.buffers thread

/-- Every label in a list has been mapped. -/
theorem mem_mappedBy {known : List UInt64} {events : List LabelEvent} {stamp : Stamp}
    {duration : UInt64} {threadId : UInt32} {label : UInt64} (h : Mapped meant known events)
    (hmem : .callstack stamp duration threadId label ∈ events) :
    label ∈ known ++ mappedBy events := by
  induction events generalizing known with
  | nil => cases hmem
  | cons event events ih =>
    cases event with
    | mapping stamp' id string =>
      have hlabel := ih h.2 ((List.mem_cons.mp hmem).resolve_left (by rintro ⟨⟩))
      simp only [mappedBy, List.filterMap_cons, List.mem_append, List.mem_cons] at hlabel ⊢
      tauto
    | callstack stamp' duration' threadId' label' =>
      rcases List.mem_cons.mp hmem with heq | hmem
      · cases heq
        exact List.mem_append_left _ h.1
      · exact ih h.2 hmem

/-- **What holds of the identifiers that are added holds of the labels** in the stream. -/
theorem AllSound.forall_labels {ops : List ProcessOp}
    (h : AllSound meant (runFrom Process.step (.start : Process M) ops) b) (good : UInt64 → Prop)
    (hadds : ∀ op ∈ ops, op.Adds M good) {stamp : Stamp} {duration : UInt64} {threadId : UInt32}
    {label : UInt64} (hmem : .callstack stamp duration threadId label ∈
      (runFrom Process.step (.start : Process M) ops).stream) : good label := by
  have hstart : MapsOnly good (.start : Process M) :=
    ⟨by rintro id ⟨⟩, fun thread => by rintro id ⟨⟩⟩
  have hstep : ∀ (s : Process M) (op : ProcessOp), MapsOnly good s → op.Adds M good →
      MapsOnly good (s.step op) := fun s op hs hop => hs.step hop
  have hrun := (throughout_of_step hstep hstart (stepsMeet_const_iff.mpr hadds)).last
  exact hrun.stream label (mem_mappedBy h.mapped hmem)

/-- Every label is the identifier of a name. -/
def Named (meant : UInt64 → Label) (events : List LabelEvent) : Prop :=
  ∀ stamp duration threadId label, .callstack stamp duration threadId label ∈ events →
    meant label ≠ []

theorem AllSound.named {ops : List ProcessOp}
    (h : AllSound meant (runFrom Process.step (.start : Process M) ops) b)
    (hmeans : ∀ op ∈ ops, op.Means M meant) :
    Named meant (runFrom Process.step (.start : Process M) ops).stream := by
  intro stamp duration threadId label
  refine h.forall_labels (fun id => meant id ≠ []) fun op hop => ?_
  have hmean := hmeans op hop
  cases op with
  | add thread c stamp => exact fun heq => hmean.2 (hmean.1.trans heq)
  | _ => trivial

/-- What the call graph is told about an event. -/
def LabelEvent.node (meant : UInt64 → Label) : LabelEvent → NodeData
  | .mapping .. => .new [] 0 0
  | .callstack stamp duration _ label => .new (meant label) stamp.timestamp duration

/-- **The events of a thread**, in the stream and in its buffer, are those of its calls. -/
theorem Sound.callsIn_eq {stream : List LabelEvent} {thread : UInt32} {s : ThreadState M}
    {b : Brackets.State Label} (h : Sound meant stream thread s b) :
    (callsIn thread stream ++ callsIn thread s.buffer).map (LabelEvent.node meant) =
      b.spans.map nodeOf := by
  rw [h.sent, List.map_map, ← h.follows.pushed_eq]
  rfl

end Runs

/-- A machine with one klass and two strings. -/
def sampleMachine : Machine where
  order := .little
  typeSize := fun _ => 48
  intKlass := 0
  intKlass_size := rfl
  charSigned := true
  text := fun address => if address = 16 then ⟨ascii "main", by decide⟩ else ⟨ascii "f", by decide⟩

/-- Two threads call `main`, which calls `f` on the first one. -/
def sampleOps : List ProcessOp :=
  [.add 1 (.addMapping 16) ⟨1000, 0⟩, .start 1 16 2000 1, .add 2 (.addMapping 16) ⟨3000, 2⟩,
    .start 2 16 4000 3, .add 1 (.addMapping 32) ⟨5000, 4⟩, .start 1 32 6000 5, .flush 2,
    .stop 1 8000, .stop 2 9000, .flush 1, .stop 1 12000, .flush 2, .flush 1]

/-- What the addresses mean. -/
def sampleMeaning (id : UInt64) : Label := (sampleMachine.text id).bytes

end HawkTracer.RoundTrip
