import HawkTracer.Base.Nesting
import HawkTracer.Base.Run
import HawkTracer.Lib.Stack
import Mathlib.Data.List.Forall2

/-!
# The callstack feature

`ht_feature_callstack_start` stamps an event and copies it to the stack of the feature;
`ht_feature_callstack_stop` completes the event on top where it lies in the stack, pushes it to
the timeline, and drops it. Events of any type derived from `HT_CallstackBaseEvent` may be
mixed, so the objects of the stack have different sizes, and the size of the event on top is
found through the klass pointer it begins with.

The events are blocks of bytes here, with the fields of the base type at their offsets
(`HawkTracer.Lib.EventField`), and the stack is the byte stack of `HawkTracer.Lib.Stack`. Beside
it runs the bracket structure of the calls (`HawkTracer.Lib.Scopes`), which has a list of open
scopes and a list of finished calls and knows nothing of bytes. In every run without a
stop too many and with a clock that does not go back, the events pushed are those of the
finished calls, in that order, and their intervals are nested or apart
(`HawkTracer.Lib.CallstackTrace.correct_of_allowed`).
-/

namespace HawkTracer.Lib

/-! ### Fields of events -/

/-- A scalar field of a C struct. -/
structure EventField where
  offset : ℕ
  size : ℕ
  deriving DecidableEq

namespace EventField

/-- `HT_Event::klass`. -/
def klass : EventField := ⟨0, sizeofPointer⟩

/-- `HT_Event::timestamp`. -/
def timestamp : EventField := ⟨8, 8⟩

/-- `HT_Event::id`. -/
def id : EventField := ⟨16, 8⟩

/-- `HT_CallstackBaseEvent::duration`. -/
def duration : EventField := ⟨24, 8⟩

/-- `HT_CallstackBaseEvent::thread_id`. -/
def threadId : EventField := ⟨32, 4⟩

/-- Where the field ends. -/
def stop (f : EventField) : ℕ := f.offset + f.size

/-- The field of the object at an offset of a block. -/
def read (host : ByteOrder) (f : EventField) (block : List UInt8) (offset : ℕ) : ℕ :=
  ofBytes host (slice block (offset + f.offset) f.size)

/-- An assignment to the field of the object at an offset of a block. -/
def write (host : ByteOrder) (f : EventField) (block : List UInt8) (offset x : ℕ) : List UInt8 :=
  blit block (offset + f.offset) (toBytes host f.size x)

/-- The field of an event. -/
def get (host : ByteOrder) (f : EventField) (event : List UInt8) : ℕ := f.read host event 0

/-- An assignment to the field of an event. -/
def set (host : ByteOrder) (f : EventField) (event : List UInt8) (x : ℕ) : List UInt8 :=
  f.write host event 0 x

/-- The two fields do not overlap. -/
def Apart (f g : EventField) : Prop := f.stop ≤ g.offset ∨ g.stop ≤ f.offset

instance (f g : EventField) : Decidable (f.Apart g) :=
  inferInstanceAs (Decidable (_ ∨ _))

variable {host : ByteOrder} {f g : EventField} {event : List UInt8} {x : ℕ}

theorem length_set (h : f.stop ≤ event.length) : (f.set host event x).length = event.length := by
  rw [set, write, length_blit (by rw [length_toBytes, Nat.zero_add]; exact h)]

theorem get_set_self (h : f.stop ≤ event.length) (hx : x < 256 ^ f.size) :
    f.get host (f.set host event x) = x := by
  have hle : 0 + f.offset ≤ event.length := by
    rw [stop] at h
    omega
  rw [get, read, set, write, slice_blit_self hle (length_toBytes host f.size x),
    ofBytes_toBytes host hx]

theorem get_set_of_apart (h : f.stop ≤ event.length) (hfg : f.Apart g) :
    g.get host (f.set host event x) = g.get host event := by
  have hle : 0 + f.offset ≤ event.length := by
    rw [stop] at h
    omega
  rw [get, read, set, write]
  rcases hfg with hfg | hgf
  · rw [slice_blit_of_ge hle (by rw [length_toBytes, Nat.zero_add, Nat.zero_add]; exact hfg)]
    rfl
  · rw [slice_blit_of_le hle (by rw [Nat.zero_add, Nat.zero_add]; exact hgf)]
    rfl

theorem drop_set (h : f.stop ≤ event.length) {k : ℕ} (hk : f.stop ≤ k) :
    (f.set host event x).drop k = event.drop k := by
  rw [set, write, drop_blit_of_le _ (by rw [length_toBytes, Nat.zero_add]; exact hk)]
  rw [stop] at h
  omega

/-- A field of the object on top of a stack. -/
theorem read_topOffset (host : ByteOrder) {st : Stack} {objects : List (List UInt8)}
    (h : st.Holds (event :: objects)) (hf : f.stop ≤ event.length) :
    f.read host st.data st.topOffset = f.get host event := by
  rw [get, read, read, Nat.zero_add]
  conv_rhs => rw [← h.slice_topOffset]
  rw [slice_slice (by exact hf)]

/-- An assignment to a field of the object on top of a stack. -/
theorem holds_write (host : ByteOrder) {st : Stack} {objects : List (List UInt8)}
    (h : st.Holds (event :: objects)) (hf : f.stop ≤ event.length) (x : ℕ) :
    Stack.Holds { st with data := f.write host st.data st.topOffset x }
      (f.set host event x :: objects) := by
  have hfits : f.offset + (toBytes host f.size x).length ≤ event.length := by
    rw [length_toBytes]
    exact hf
  have hwrite := h.write hfits
  rwa [set, write, write, Nat.zero_add]

end EventField

open EventField (length_set get_set_of_apart get_set_self drop_set)

/-! ### The feature -/

variable (host : ByteOrder) (typeSize : ℕ → ℕ)

/-- An event of a type derived from `HT_CallstackBaseEvent`, as a caller has it in memory:
`typeSize` is the size that the type info of a klass gives. -/
structure CallstackBaseEvent where
  bytes : List UInt8
  length_bytes : bytes.length = typeSize (EventField.klass.get host bytes)
  /-- `sizeof(HT_CallstackBaseEvent)`. -/
  base_le : 40 ≤ bytes.length

/-- `HT_FeatureCallstack`, with the events that were given to `ht_timeline_push_event`. -/
structure FeatureCallstack where
  stack : Stack
  pushed : List (List UInt8)

namespace FeatureCallstack

/-- `ht_feature_callstack_create`. -/
def create : FeatureCallstack := ⟨Stack.init 1024 32, []⟩

/-- `ht_timeline_init_event`: `timestamp` is the reading of the clock and `id` the next
identifier of the timeline. -/
def initEvent (event : List UInt8) (timestamp id : UInt64) : List UInt8 :=
  EventField.id.set host (EventField.timestamp.set host event timestamp.toNat) id.toNat

/-- `ht_feature_callstack_start`. -/
def start (f : FeatureCallstack) (event : List UInt8) (timestamp id : UInt64) :
    FeatureCallstack :=
  let event := initEvent host event timestamp id
  let object := event.take (typeSize (EventField.klass.get host event))
  { f with stack := (f.stack.push object true true).2 }

/-- `ht_feature_callstack_stop`: `now` is the reading of the clock and `thread` the identifier
of the current thread. -/
def stop (f : FeatureCallstack) (now : UInt64) (thread : UInt32) : FeatureCallstack :=
  let top := f.stack.topOffset
  let started := UInt64.ofNat (EventField.timestamp.read host f.stack.data top)
  let data := EventField.duration.write host f.stack.data top (now - started).toNat
  let data := EventField.threadId.write host data top thread.toNat
  let size := typeSize (EventField.klass.read host data top)
  { stack := Stack.pop { f.stack with data := data } true true
    pushed := f.pushed ++ [slice data top size] }

end FeatureCallstack

/-! ### The bracket structure -/

/-- An open scope: the event of the start, and what was assigned to it there. -/
structure Scope where
  event : CallstackBaseEvent host typeSize
  timestamp : UInt64
  id : UInt64

/-- A finished call: its scope, the reading of the clock at the stop, and the thread of the
stop. -/
structure FinishedCall extends Scope host typeSize where
  stop : UInt64
  thread : UInt32

/-- The bracket structure of the calls so far. -/
structure Scopes where
  /-- The open scopes, the innermost one first. -/
  opened : List (Scope host typeSize)
  /-- The finished calls, in the order of the stops. -/
  finished : List (FinishedCall host typeSize)

/-- A call of the feature, with what it learns from the environment. -/
inductive CallstackOp where
  | start (event : CallstackBaseEvent host typeSize) (timestamp id : UInt64)
  | stop (now : UInt64) (thread : UInt32)

variable {host typeSize}

/-- The reading of the clock in the call. -/
def CallstackOp.reading : CallstackOp host typeSize → UInt64
  | start _ timestamp _ => timestamp
  | stop now _ => now

/-- What a call does to the bracket structure. -/
def Scopes.step (s : Scopes host typeSize) : CallstackOp host typeSize → Scopes host typeSize
  | .start event timestamp id => { s with opened := ⟨event, timestamp, id⟩ :: s.opened }
  | .stop now thread =>
    match s.opened with
    | [] => s
    | scope :: opened =>
      { opened := opened, finished := s.finished ++ [⟨scope, now, thread⟩] }

/-- **The event of a call**: the type, the label and whatever else the started event has beyond
the base type, the timestamp and the identifier assigned at the start, the time from the start
to the stop, and the thread of the stop. -/
structure Matches (event : List UInt8) (call : FinishedCall host typeSize) : Prop where
  length : event.length = call.event.bytes.length
  klass : EventField.klass.get host event = EventField.klass.get host call.event.bytes
  timestamp : EventField.timestamp.get host event = call.timestamp.toNat
  id : EventField.id.get host event = call.id.toNat
  duration : EventField.duration.get host event = call.stop.toNat - call.timestamp.toNat
  le : call.timestamp ≤ call.stop
  thread : EventField.threadId.get host event = call.thread.toNat
  rest : event.drop EventField.threadId.stop = call.event.bytes.drop EventField.threadId.stop

/-- The interval of an event, `[timestamp, timestamp + duration]`. -/
def interval (host : ByteOrder) (event : List UInt8) : ℕ × ℕ :=
  (EventField.timestamp.get host event,
    EventField.timestamp.get host event + EventField.duration.get host event)

/-- The interval of a call. -/
def FinishedCall.interval (call : FinishedCall host typeSize) : ℕ × ℕ :=
  (call.timestamp.toNat, call.stop.toNat)

theorem Matches.interval_eq {event : List UInt8} {call : FinishedCall host typeSize}
    (h : Matches event call) : Lib.interval host event = call.interval := by
  have hle := UInt64.le_iff_toNat_le.mp h.le
  rw [interval, h.timestamp, h.duration, FinishedCall.interval, Nat.add_sub_cancel' hle]

theorem map_interval_eq {events : List (List UInt8)} {calls : List (FinishedCall host typeSize)}
    (h : List.Forall₂ Matches events calls) :
    events.map (interval host) = calls.map FinishedCall.interval := by
  induction h with
  | nil => rfl
  | cons he _ ih => rw [List.map_cons, List.map_cons, he.interval_eq, ih]

/-! ### Starting and stopping a scope -/

namespace Scope

/-- The event of an open scope, as it lies in the stack. -/
def stored (scope : Scope host typeSize) : List UInt8 :=
  FeatureCallstack.initEvent host scope.event.bytes scope.timestamp scope.id

variable (scope : Scope host typeSize)

private theorem timestamp_fits : EventField.timestamp.stop ≤ scope.event.bytes.length :=
  Nat.le_trans (by decide) scope.event.base_le

private theorem stamped_length (x : ℕ) :
    (EventField.timestamp.set host scope.event.bytes x).length = scope.event.bytes.length :=
  length_set scope.timestamp_fits

private theorem id_fits (x : ℕ) :
    EventField.id.stop ≤ (EventField.timestamp.set host scope.event.bytes x).length := by
  rw [stamped_length]
  exact Nat.le_trans (by decide) scope.event.base_le

@[simp] theorem length_stored : scope.stored.length = scope.event.bytes.length := by
  rw [stored, FeatureCallstack.initEvent, length_set (scope.id_fits _), stamped_length]

/-- All fields of the base type lie in the event. -/
theorem fits {f : EventField} (hf : f.stop ≤ 40) : f.stop ≤ scope.stored.length := by
  rw [length_stored]
  exact Nat.le_trans hf scope.event.base_le

/-- What is apart from the two stamps is as the caller has it. -/
theorem get_stored_of_apart {f : EventField} (hts : EventField.timestamp.Apart f)
    (hid : EventField.id.Apart f) : f.get host scope.stored = f.get host scope.event.bytes := by
  rw [stored, FeatureCallstack.initEvent, get_set_of_apart (scope.id_fits _) hid,
    get_set_of_apart scope.timestamp_fits hts]

theorem timestamp_stored : EventField.timestamp.get host scope.stored = scope.timestamp.toNat := by
  rw [stored, FeatureCallstack.initEvent,
    get_set_of_apart (scope.id_fits _) (by decide),
    get_set_self scope.timestamp_fits scope.timestamp.toNat_lt]

theorem id_stored : EventField.id.get host scope.stored = scope.id.toNat := by
  rw [stored, FeatureCallstack.initEvent, get_set_self (scope.id_fits _) scope.id.toNat_lt]

theorem drop_stored {k : ℕ} (hk : EventField.id.stop ≤ k) :
    scope.stored.drop k = scope.event.bytes.drop k := by
  have hts : EventField.timestamp.stop ≤ k := Nat.le_trans (by decide) hk
  rw [stored, FeatureCallstack.initEvent, drop_set (scope.id_fits _) hk,
    drop_set scope.timestamp_fits hts]

theorem typeSize_stored :
    typeSize (EventField.klass.get host scope.stored) = scope.stored.length := by
  rw [scope.get_stored_of_apart (by decide) (by decide), length_stored, scope.event.length_bytes]

/-- The event of a scope when it is completed, as `ht_feature_callstack_stop` leaves it. -/
def completed (now : UInt64) (thread : UInt32) : List UInt8 :=
  EventField.threadId.set host
    (EventField.duration.set host scope.stored (now - scope.timestamp).toNat) thread.toNat

private theorem duration_fits (x : ℕ) :
    EventField.threadId.stop ≤ (EventField.duration.set host scope.stored x).length := by
  rw [length_set (scope.fits (by decide))]
  exact scope.fits (by decide)

theorem length_completed (now : UInt64) (thread : UInt32) :
    (scope.completed now thread).length = scope.stored.length := by
  rw [completed, length_set (scope.duration_fits _), length_set (scope.fits (by decide))]

theorem get_completed_of_apart {f : EventField} (hd : EventField.duration.Apart f)
    (ht : EventField.threadId.Apart f) (now : UInt64) (thread : UInt32) :
    f.get host (scope.completed now thread) = f.get host scope.stored := by
  rw [completed, get_set_of_apart (scope.duration_fits _) ht,
    get_set_of_apart (scope.fits (by decide)) hd]

/-- **The completed event is the event of the call.** -/
theorem matches_completed {now : UInt64} (hle : scope.timestamp ≤ now) (thread : UInt32) :
    Matches (scope.completed now thread) ⟨scope, now, thread⟩ where
  length := by rw [length_completed, length_stored]
  klass := by
    rw [get_completed_of_apart _ (by decide) (by decide),
      get_stored_of_apart _ (by decide) (by decide)]
  timestamp := by
    rw [get_completed_of_apart _ (by decide) (by decide), timestamp_stored]
  id := by rw [get_completed_of_apart _ (by decide) (by decide), id_stored]
  duration := by
    rw [completed, get_set_of_apart (scope.duration_fits _) (by decide),
      get_set_self (scope.fits (by decide)) (UInt64.toNat_lt _),
      UInt64.toNat_sub_of_le _ _ hle]
  le := hle
  thread := by
    rw [completed, get_set_self (scope.duration_fits _) thread.toNat_lt]
  rest := by
    rw [completed, drop_set (scope.duration_fits _) (Nat.le_refl _),
      drop_set (scope.fits (by decide)) (by decide), scope.drop_stored (by decide)]

end Scope

namespace FeatureCallstack

variable {f : FeatureCallstack} {objects : List (List UInt8)}

/-- **A start** puts the stamped event on the stack. -/
theorem holds_start (h : f.stack.Holds objects) (scope : Scope host typeSize) :
    (f.start host typeSize scope.event.bytes scope.timestamp scope.id).stack.Holds
      (scope.stored :: objects) := by
  obtain ⟨st, hpush, hst⟩ := h.push scope.stored
  rw [start, ← Scope.stored]
  dsimp only
  rw [scope.typeSize_stored, List.take_length, hpush]
  exact hst

/-- **A stop** pushes the completed event and takes it from the stack. -/
theorem stop_spec (scope : Scope host typeSize) (h : f.stack.Holds (scope.stored :: objects))
    (now : UInt64) (thread : UInt32) :
    (f.stop host typeSize now thread).stack.Holds objects ∧
      (f.stop host typeSize now thread).pushed = f.pushed ++ [scope.completed now thread] := by
  have hstarted : UInt64.ofNat (EventField.timestamp.read host f.stack.data f.stack.topOffset) =
      scope.timestamp := by
    rw [EventField.read_topOffset host h (scope.fits (by decide)), scope.timestamp_stored,
      UInt64.ofNat_toNat]
  have hduration := EventField.holds_write (f := .duration) host h (scope.fits (by decide))
    (now - scope.timestamp).toNat
  have hthread := EventField.holds_write (f := .threadId) host hduration (scope.duration_fits _)
    thread.toNat
  rw [← Scope.completed] at hthread
  have hfits : EventField.klass.stop ≤ (scope.completed now thread).length := by
    rw [scope.length_completed]
    exact scope.fits (by decide)
  have hklass := EventField.read_topOffset host hthread hfits
  have hsize : typeSize (EventField.klass.get host (scope.completed now thread)) =
      (scope.completed now thread).length := by
    rw [scope.get_completed_of_apart (by decide) (by decide), scope.typeSize_stored,
      scope.length_completed]
  have hslice := hthread.slice_topOffset
  rw [← hsize, ← hklass] at hslice
  rw [stop]
  simp only [hstarted]
  exact ⟨hthread.pop true true, congrArg (fun e => f.pushed ++ [e]) hslice⟩

end FeatureCallstack

/-! ### Runs -/

/-- The feature, the bracket structure of its calls, and the last reading of the clock. -/
structure CallstackTrace (host : ByteOrder) (typeSize : ℕ → ℕ) where
  feature : FeatureCallstack
  scopes : Scopes host typeSize
  now : UInt64

namespace CallstackTrace

def start : CallstackTrace host typeSize := ⟨.create, ⟨[], []⟩, 0⟩

/-- A call of the feature. -/
def step (s : CallstackTrace host typeSize) (op : CallstackOp host typeSize) :
    CallstackTrace host typeSize where
  feature := match op with
    | .start event timestamp id => s.feature.start host typeSize event.bytes timestamp id
    | .stop now thread => s.feature.stop host typeSize now thread
  scopes := s.scopes.step op
  now := op.reading

/-- The clock does not go back, and a stop ends a scope that is open. -/
def Allowed (s : CallstackTrace host typeSize) (op : CallstackOp host typeSize) : Prop :=
  s.now ≤ op.reading ∧ match op with
    | .start .. => True
    | .stop .. => 0 < s.scopes.opened.length

instance (s : CallstackTrace host typeSize) : ∀ op, Decidable (Allowed s op)
  | .start _ timestamp _ => inferInstanceAs (Decidable (s.now ≤ timestamp ∧ True))
  | .stop now _ => inferInstanceAs (Decidable (s.now ≤ now ∧ 0 < s.scopes.opened.length))

/-- **The events pushed match their scopes**, and their intervals are nested or apart. -/
def Correct (s : CallstackTrace host typeSize) : Prop :=
  List.Forall₂ Matches s.feature.pushed s.scopes.finished ∧
    s.feature.pushed.Pairwise fun e e' => NestedOrApart (interval host e) (interval host e')

/-- The invariant of the runs. -/
structure Kept (s : CallstackTrace host typeSize) : Prop where
  holds : s.feature.stack.Holds (s.scopes.opened.map Scope.stored)
  matched : List.Forall₂ Matches s.feature.pushed s.scopes.finished
  opened_le : ∀ o ∈ s.scopes.opened, o.timestamp ≤ s.now
  /-- An inner scope starts after the outer one. -/
  sorted : s.scopes.opened.Pairwise fun inner outer => outer.timestamp ≤ inner.timestamp
  finished_le : ∀ c ∈ s.scopes.finished, c.stop ≤ s.now
  /-- A finished call was over when an open scope started, or is inside it. -/
  inside : ∀ c ∈ s.scopes.finished, ∀ o ∈ s.scopes.opened,
    c.stop ≤ o.timestamp ∨ o.timestamp ≤ c.timestamp
  apart : s.scopes.finished.Pairwise fun c c' => NestedOrApart c.interval c'.interval

theorem kept_start : Kept (start : CallstackTrace host typeSize) where
  holds := Stack.holds_init (by decide) (by decide)
  matched := .nil
  opened_le := by rintro o ⟨⟩
  sorted := .nil
  finished_le := by rintro c ⟨⟩
  inside := by rintro c ⟨⟩
  apart := .nil

variable {s : CallstackTrace host typeSize}

theorem Kept.correct (h : Kept s) : Correct s := by
  refine ⟨h.matched, ?_⟩
  rw [← List.pairwise_map, map_interval_eq h.matched, List.pairwise_map]
  exact h.apart

theorem Kept.step_start (h : Kept s) (event : CallstackBaseEvent host typeSize) {timestamp : UInt64}
    (id : UInt64) (hle : s.now ≤ timestamp) : Kept (s.step (.start event timestamp id)) where
  holds := FeatureCallstack.holds_start h.holds ⟨event, timestamp, id⟩
  matched := h.matched
  opened_le := by
    rintro o (_ | ⟨_, ho⟩)
    · exact UInt64.le_refl _
    · exact UInt64.le_trans (h.opened_le o ho) hle
  sorted := by
    refine .cons ?_ h.sorted
    intro o ho
    exact UInt64.le_trans (h.opened_le o ho) hle
  finished_le := fun c hc => UInt64.le_trans (h.finished_le c hc) hle
  inside := by
    rintro c hc o (_ | ⟨_, ho⟩)
    · exact Or.inl (UInt64.le_trans (h.finished_le c hc) hle)
    · exact h.inside c hc o ho
  apart := h.apart

theorem Kept.step_stop (h : Kept s) {scope : Scope host typeSize}
    {opened : List (Scope host typeSize)} (hopened : s.scopes.opened = scope :: opened)
    {now : UInt64} (thread : UInt32) (hle : s.now ≤ now) : Kept (s.step (.stop now thread)) := by
  have hscopes : (s.step (.stop now thread)).scopes =
      ⟨opened, s.scopes.finished ++ [⟨scope, now, thread⟩]⟩ := by
    rw [step, Scopes.step, hopened]
  have hholds := h.holds
  have hsorted := h.sorted
  rw [hopened] at hholds hsorted
  obtain ⟨houter, hsorted⟩ := List.pairwise_cons.mp hsorted
  obtain ⟨hstack, hpushed⟩ := FeatureCallstack.stop_spec scope hholds now thread
  have hmem : ∀ o ∈ opened, o ∈ s.scopes.opened := fun o ho => by
    rw [hopened]
    exact List.mem_cons_of_mem _ ho
  have hscope : scope ∈ s.scopes.opened := by
    rw [hopened]
    exact List.mem_cons_self
  have hstarted : scope.timestamp ≤ now := UInt64.le_trans (h.opened_le scope hscope) hle
  refine ⟨?_, ?_, ?_, ?_, ?_, ?_, ?_⟩ <;> rw [hscopes]
  · exact hstack
  · change List.Forall₂ Matches (s.feature.stop host typeSize now thread).pushed _
    rw [hpushed]
    exact List.rel_append h.matched (.cons (scope.matches_completed hstarted thread) .nil)
  · exact fun o ho => UInt64.le_trans (h.opened_le o (hmem o ho)) hle
  · exact hsorted
  · intro c hc
    rcases List.mem_append.mp hc with hc | hc
    · exact UInt64.le_trans (h.finished_le c hc) hle
    · rw [List.mem_singleton.mp hc]
      exact UInt64.le_refl _
  · intro c hc o ho
    rcases List.mem_append.mp hc with hc | hc
    · exact h.inside c hc o (hmem o ho)
    · rw [List.mem_singleton.mp hc]
      exact Or.inr (houter o ho)
  · refine List.pairwise_append.mpr ⟨h.apart, List.pairwise_singleton _ _, ?_⟩
    intro c hc c' hc'
    rw [List.mem_singleton.mp hc']
    -- a call that finished since the scope started is inside it
    have hstop := UInt64.le_iff_toNat_le.mp (UInt64.le_trans (h.finished_le c hc) hle)
    rcases h.inside c hc scope hscope with hbefore | hinside
    · exact Or.inr (Or.inr (Or.inl (UInt64.le_iff_toNat_le.mp hbefore)))
    · exact Or.inr (Or.inl ⟨UInt64.le_iff_toNat_le.mp hinside, hstop⟩)

theorem Kept.step {op : CallstackOp host typeSize} (h : Kept s) (hop : Allowed s op) :
    Kept (s.step op) := by
  rcases op with ⟨event, timestamp, id⟩ | ⟨now, thread⟩
  · exact h.step_start event id hop.1
  · obtain ⟨scope, opened, hopened⟩ := List.exists_cons_of_length_pos hop.2
    exact h.step_stop hopened thread hop.1

/-- **Callstack events match their scopes** in every state of every run in which a stop ends an
open scope and the clock does not go back. -/
theorem correct_of_allowed (ops : List (CallstackOp host typeSize))
    (hops : StepsMeet step Allowed start ops) : Throughout step Correct start ops :=
  (throughout_of_step (fun _ _ h hop => h.step hop) kept_start hops).mono fun _ h => h.correct

/-- An event of a klass whose address is its size, with `label` after the base type. -/
def labelled (n : ℕ) (label : List UInt8) : List UInt8 :=
  toBytes .little 8 n ++ List.replicate 32 0 ++ label

/-- An outer scope with a long label, and two inner ones without. -/
theorem correct_of_three_scopes :
    let inner : CallstackBaseEvent .little id := ⟨labelled 40 [], by decide, by decide⟩
    let outer : CallstackBaseEvent .little id := ⟨labelled 43 [1, 2, 3], by decide, by decide⟩
    let ops : List (CallstackOp .little id) :=
      [.start outer 5 0, .start inner 5 1, .stop 7 3, .start inner 7 2, .stop 7 3, .stop 9 3]
    StepsMeet step Allowed start ops ∧ Throughout step Correct start ops := by
  intro inner outer ops
  have hops : StepsMeet step Allowed start ops := by decide +kernel
  exact ⟨hops, correct_of_allowed ops hops⟩

/-- **A stop replaces the thread identifier** that the started event had. -/
theorem threadId_replaced :
    ∃ (event : CallstackBaseEvent .little id) (ops : List (CallstackOp .little id)),
      StepsMeet step Allowed start ops ∧
      (runFrom step start ops).scopes.finished.map (fun c => c.event.bytes) = [event.bytes] ∧
      EventField.threadId.get .little event.bytes = 0 ∧
      (runFrom step start ops).feature.pushed.map (EventField.threadId.get .little) = [3] := by
  refine ⟨⟨labelled 40 [], by decide, by decide⟩,
    [.start ⟨labelled 40 [], by decide, by decide⟩ 5 0, .stop 7 3], ?_⟩
  decide +kernel

end CallstackTrace

end HawkTracer.Lib
