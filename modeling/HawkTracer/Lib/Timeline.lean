import HawkTracer.Lib.ListenerContainer
import HawkTracer.Lib.Registry

/-!
# The timeline

Events are pushed to a timeline, which copies them into a buffer and hands the buffer to
its listeners when the next event does not fit. An event larger than the whole buffer is
handed over by itself. A serializing timeline deals in serialized events, the other kind in
the objects as they lie in memory.

A timeline never looks inside an event: it asks the klass of the event for a size and lets
it write itself. `HawkTracer.Lib.EventRep` is that interface, with the promises of the other
side: an object has as many bytes as its type, and `serialize` writes as many as `get_size`
announced. The klasses of `HawkTracer.Lib.Klass` keep these promises
(`HawkTracer.Lib.Host.rep`).

What a timeline is for is said without bytes: it cuts the sequence of pushed events into
groups. `HawkTracer.Lib.Timeline.Holds` relates a timeline to the events it has not handed
over yet, and `HawkTracer.Lib.Timeline.Batches` says that a call keeps this relation, takes
groups off the front and hands over one chunk for each. Both calls do
(`HawkTracer.Lib.Timeline.batches_flush`, `HawkTracer.Lib.Timeline.batches_pushEvent`).

The listeners of a timeline are entries of its container. What the groups are worth for whole runs
is `HawkTracer.Lib.Session.delivers_in_order`: as long as the container is not reallocated, all
listeners get them. The seventeenth registration reallocates it, and the entries of seven listeners
are gone (`HawkTracer.Lib.Session.seventeenth_listener_crashes`).
-/

namespace HawkTracer.Lib

/-! ### Events as the timeline sees them -/

/-- What the library knows of an event: `get_size` and `serialize` of its klass, which returns
the number of bytes written and the block it wrote to, `type_info->size`, and the bytes of the
object itself. -/
structure EventRep (E : Type) where
  getSize : E → ℕ
  serialize : E → List UInt8 → ℕ × List UInt8
  typeSize : E → ℕ
  objectBytes : E → List UInt8
  /-- The serialized form. -/
  encode : E → List UInt8
  length_encode : ∀ e, (encode e).length = getSize e
  length_objectBytes : ∀ e, (objectBytes e).length = typeSize e
  /-- Given room, `serialize` writes the serialized form at the start of the block. -/
  serialize_eq : ∀ e block, getSize e ≤ block.length →
    serialize e block = (getSize e, encode e ++ block.drop (getSize e))

/-- The events of a host. -/
def Host.rep (H : Host) : EventRep {e : Instance // e.klass.fields.BaseFirst} where
  getSize e := e.1.getSize
  serialize e block := e.1.klass.fields.serialize H.order e.1.val block
  typeSize e := e.1.klass.size
  objectBytes e := H.objectBytes e.1
  encode e := e.1.encode H.order
  length_encode e := e.1.length_encode H.order
  length_objectBytes e := H.length_objectBytes e.1
  serialize_eq e _ hroom := e.1.klass.fields.serialize_eq H.order e.2 e.1.val hroom

/-- The arguments of a listener's callback. -/
structure Notification where
  events : List UInt8
  serialized : Bool
  deriving DecidableEq

namespace EventRep

variable {E : Type} (R : EventRep E) (serialized : Bool)

/-- The bytes that stand for an event. -/
def rep (e : E) : List UInt8 := if serialized then R.encode e else R.objectBytes e

/-- The number of bytes that stand for an event. -/
def repSize (e : E) : ℕ := if serialized then R.getSize e else R.typeSize e

/-- The bytes that stand for a group of events. -/
def reps (es : List E) : List UInt8 := es.flatMap (R.rep serialized)

/-- A group of events as a listener gets it. -/
def notification (es : List E) : Notification := ⟨R.reps serialized es, serialized⟩

/-- The events that leave a trace in a stream of bytes. -/
def visible (es : List E) : List E := es.filter fun e => !(R.rep serialized e).isEmpty

theorem length_rep (e : E) : (R.rep serialized e).length = R.repSize serialized e := by
  rcases serialized with _ | _
  · exact R.length_objectBytes e
  · exact R.length_encode e

@[simp] theorem reps_nil : R.reps serialized [] = [] := rfl

@[simp] theorem reps_cons (e : E) (es : List E) :
    R.reps serialized (e :: es) = R.rep serialized e ++ R.reps serialized es := rfl

@[simp] theorem reps_append (es es' : List E) :
    R.reps serialized (es ++ es') = R.reps serialized es ++ R.reps serialized es' :=
  List.flatMap_append

theorem reps_flatten (groups : List (List E)) :
    R.reps serialized groups.flatten = (groups.map (R.reps serialized)).flatten := by
  induction groups with
  | nil => rfl
  | cons g groups ih => rw [List.flatten_cons, reps_append, ih, List.map_cons, List.flatten_cons]

@[simp] theorem visible_nil : R.visible serialized [] = [] := rfl

theorem visible_append (es es' : List E) :
    R.visible serialized (es ++ es') = R.visible serialized es ++ R.visible serialized es' :=
  List.filter_append es es'

theorem reps_visible (es : List E) : R.reps serialized (R.visible serialized es) =
    R.reps serialized es := by
  induction es with
  | nil => rfl
  | cons e es ih =>
    rw [visible, List.filter_cons]
    rcases hrep : R.rep serialized e with _ | ⟨b, bs⟩
    · simpa [hrep, visible] using ih
    · simpa [hrep, visible] using ih

/-- An event that is seen or none. -/
theorem reps_visible_singleton (e : E) :
    R.reps serialized (R.visible serialized [e]) = R.rep serialized e := by
  rw [reps_visible, reps_cons, reps_nil, List.append_nil]

theorem rep_ne_nil_of_mem_visible {e : E} {es : List E} (h : e ∈ R.visible serialized es) :
    R.rep serialized e ≠ [] := by
  simpa [List.isEmpty_iff] using List.of_mem_filter h

end EventRep

/-! ### The timeline -/

/-- `HT_Timeline`, without its listeners and features. -/
structure Timeline where
  bufferCapacity : ℕ
  bufferUsage : ℕ
  buffer : List UInt8
  serializeEvents : Bool
  deriving DecidableEq

namespace Timeline

variable {E : Type} (R : EventRep E)

/-- `ht_timeline_create`, when memory can be had. The buffer starts uninitialised; nothing of
it is handed over before it is written. -/
def create (bufferCapacity : ℕ) (serializeEvents : Bool) : Timeline :=
  ⟨bufferCapacity, 0, List.replicate bufferCapacity 0, serializeEvents⟩

/-- `_ht_timeline_flush`: the timeline, and the notifications sent. -/
def flush (t : Timeline) : Timeline × List Notification :=
  if t.bufferUsage ≠ 0 then
    ({ t with bufferUsage := 0 }, [⟨t.buffer.take t.bufferUsage, t.serializeEvents⟩])
  else (t, [])

/-- The size of `local_buffer`. -/
def localBufferSize : ℕ := 128

/-- The flush before an event that does not fit behind what the buffer holds. -/
def makeRoom (t : Timeline) (size : ℕ) : Timeline × List Notification :=
  if t.bufferCapacity < t.bufferUsage + size then t.flush else (t, [])

/-- `ht_timeline_push_event` of a timeline that serializes. An event that does not fit into the
buffer at all is serialized into a block on the stack or, if that is too small, on the heap. -/
def pushSerialized (t : Timeline) (e : E) : Timeline × List Notification :=
  let size := R.getSize e
  let r := t.makeRoom size
  if r.1.bufferCapacity < size then
    let block := List.replicate (if size > localBufferSize then size else localBufferSize) 0
    (r.1, r.2 ++ [⟨(R.serialize e block).2.take size, r.1.serializeEvents⟩])
  else
    let written := (R.serialize e (r.1.buffer.drop r.1.bufferUsage)).2
    ({ r.1 with
        buffer := r.1.buffer.take r.1.bufferUsage ++ written
        bufferUsage := r.1.bufferUsage + size }, r.2)

/-- `ht_timeline_push_event` of a timeline that does not serialize. -/
def pushObject (t : Timeline) (e : E) : Timeline × List Notification :=
  let size := R.typeSize e
  let r := t.makeRoom size
  if r.1.bufferCapacity < size then
    (r.1, r.2 ++ [⟨R.objectBytes e, r.1.serializeEvents⟩])
  else
    ({ r.1 with
        buffer := blit r.1.buffer r.1.bufferUsage (R.objectBytes e)
        bufferUsage := r.1.bufferUsage + size }, r.2)

/-- `ht_timeline_push_event`. -/
def pushEvent (t : Timeline) (e : E) : Timeline × List Notification :=
  if t.serializeEvents then t.pushSerialized R e else t.pushObject R e

/-! ### What a timeline holds -/

/-- **The timeline holds the given events**: their bytes, one after another, fill the used
part of the buffer. -/
structure Holds (t : Timeline) (held : List E) : Prop where
  length_buffer : t.buffer.length = t.bufferCapacity
  usage_le : t.bufferUsage ≤ t.bufferCapacity
  spelt : t.buffer.take t.bufferUsage = R.reps t.serializeEvents held
  seen : ∀ e ∈ held, R.rep t.serializeEvents e ≠ []

/-- **A call batches events**: a timeline that held the events `held` and was given the events
`es` has handed over groups from the front of `held ++ es`, one chunk with at least one byte for
each group, and holds the rest. -/
structure Batches (t : Timeline) (held es : List E) (r : Timeline × List Notification)
    (groups : List (List E)) (held' : List E) : Prop where
  holds : Holds R r.1 held'
  sent : r.2 = groups.map (R.notification t.serializeEvents)
  nonempty : ∀ g ∈ groups, R.reps t.serializeEvents g ≠ []
  split : groups.flatten ++ held' = held ++ es
  capacity : r.1.bufferCapacity = t.bufferCapacity
  serializeEvents : r.1.serializeEvents = t.serializeEvents

/-- The groups of held events that a flush hands over: one, or none if nothing is held. -/
def flushGroups (held : List E) : List (List E) := if held.isEmpty then [] else [held]

/-- The groups handed over to make room for an event, and the events still held. -/
def makeRoomGroups (t : Timeline) (held : List E) (size : ℕ) : List (List E) × List E :=
  if t.bufferCapacity < t.bufferUsage + size then (flushGroups held, []) else ([], held)

/-- The groups handed over when an event is pushed, and the events then held. -/
def pushGroups (t : Timeline) (held : List E) (e : E) : List (List E) × List E :=
  let size := R.repSize t.serializeEvents e
  let r := t.makeRoomGroups held size
  if t.bufferCapacity < size then (r.1 ++ [[e]], r.2)
  else (r.1, r.2 ++ R.visible t.serializeEvents [e])

variable {R} {t : Timeline} {held : List E}

section

variable (h : Holds R t held)

include h

theorem Holds.usage : t.bufferUsage = (R.reps t.serializeEvents held).length := by
  rw [← h.spelt, List.length_take, h.length_buffer, Nat.min_eq_left h.usage_le]

theorem Holds.eq_nil (hu : t.bufferUsage = 0) : held = [] := by
  rcases held with _ | ⟨e, held⟩
  · rfl
  · have hlen := h.usage
    rw [hu, EventRep.reps_cons, List.length_append] at hlen
    exact absurd (List.length_eq_zero_iff.mp (by omega)) (h.seen e List.mem_cons_self)

omit h in
theorem holds_create (bufferCapacity : ℕ) (serializeEvents : Bool) :
    Holds R (create bufferCapacity serializeEvents) [] where
  length_buffer := List.length_replicate
  usage_le := Nat.zero_le _
  spelt := rfl
  seen := by simp

/-- A call that does nothing. -/
theorem Holds.batches : Batches R t held [] (t, []) [] held where
  holds := h
  sent := rfl
  nonempty := by simp
  split := by simp
  capacity := rfl
  serializeEvents := rfl

omit h in
/-- Two calls one after the other. -/
theorem Batches.trans {es es' : List E} {r r' : Timeline × List Notification}
    {groups groups' : List (List E)} {held' held'' : List E}
    (h : Batches R t held es r groups held') (h' : Batches R r.1 held' es' r' groups' held'') :
    Batches R t held (es ++ es') (r'.1, r.2 ++ r'.2) (groups ++ groups') held'' where
  holds := h'.holds
  sent := by rw [h.sent, h'.sent, h.serializeEvents, List.map_append]
  nonempty := by
    intro g hg
    rcases List.mem_append.mp hg with hg | hg
    · exact h.nonempty g hg
    · simpa [h.serializeEvents] using h'.nonempty g hg
  split := by rw [List.flatten_append, List.append_assoc, h'.split, ← List.append_assoc, h.split,
    List.append_assoc]
  capacity := h'.capacity.trans h.capacity
  serializeEvents := h'.serializeEvents.trans h.serializeEvents

/-- **A flush hands over everything that is held**, in one chunk, and sends no chunk if that is
nothing. -/
theorem batches_flushGroups : Batches R t held [] t.flush (flushGroups held) [] := by
  by_cases hu : t.bufferUsage = 0
  · have hnil := h.eq_nil hu
    subst hnil
    simpa [flush, hu, flushGroups] using h.batches
  · have hne : R.reps t.serializeEvents held ≠ [] := by
      intro hnil
      have hlen := h.usage
      rw [hnil] at hlen
      exact hu hlen
    have hgroups : flushGroups held = [held] := by
      rcases held with _ | ⟨e, held⟩
      · exact absurd rfl hne
      · rfl
    rw [flush, if_pos hu, hgroups]
    refine ⟨⟨h.length_buffer, Nat.zero_le _, rfl, by simp⟩, ?_, ?_, by simp, rfl, rfl⟩
    · simp [EventRep.notification, h.spelt]
    · simpa using hne

theorem batches_flush : ∃ groups, Batches R t held [] t.flush groups [] :=
  ⟨_, batches_flushGroups h⟩

omit h in
@[simp] theorem usage_flush (t : Timeline) : t.flush.1.bufferUsage = 0 := by
  rw [flush]
  split
  · rfl
  · next hu => simpa using hu

/-- Before an event is written there is room behind the held events, or nothing is held and the
event is larger than the buffer. -/
theorem batches_makeRoom (size : ℕ) :
    Batches R t held [] (t.makeRoom size) (t.makeRoomGroups held size).1
        (t.makeRoomGroups held size).2 ∧
      ((t.makeRoom size).1.bufferUsage + size ≤ t.bufferCapacity ∨
        t.bufferCapacity < size ∧ (t.makeRoomGroups held size).2 = []) := by
  by_cases hfit : t.bufferCapacity < t.bufferUsage + size
  · rw [makeRoom, makeRoomGroups, if_pos hfit, if_pos hfit]
    refine ⟨batches_flushGroups h, ?_⟩
    rw [usage_flush, Nat.zero_add]
    rcases Nat.lt_or_ge t.bufferCapacity size with hlt | hge
    · exact Or.inr ⟨hlt, rfl⟩
    · exact Or.inl hge
  · rw [makeRoom, makeRoomGroups, if_neg hfit, if_neg hfit]
    exact ⟨h.batches, Or.inl (Nat.le_of_not_lt hfit)⟩

omit h in
/-- An event handed over by itself by a timeline that holds nothing. -/
theorem Holds.batches_alone {e : E} {b : Bool} (h : Holds R t []) (hb : t.serializeEvents = b)
    (hsize : t.bufferCapacity < R.repSize b e) :
    Batches R t [] (R.visible b [e]) (t, [⟨R.rep b e, b⟩]) [[e]] [] := by
  subst hb
  have hne : R.rep t.serializeEvents e ≠ [] := by
    intro hnil
    rw [← R.length_rep, hnil] at hsize
    exact absurd hsize (by simp)
  refine ⟨h, ?_, ?_, ?_, rfl, rfl⟩
  · simp [EventRep.notification]
  · simpa using hne
  · simp [EventRep.visible, hne]

/-- An event copied behind what a timeline holds. -/
theorem Holds.batches_copy {e : E} {b : Bool} (hb : t.serializeEvents = b)
    (hroom : t.bufferUsage + R.repSize b e ≤ t.bufferCapacity) :
    Batches R t held (R.visible b [e])
      ({ t with
          buffer := blit t.buffer t.bufferUsage (R.rep b e)
          bufferUsage := t.bufferUsage + R.repSize b e }, [])
      [] (held ++ R.visible b [e]) := by
  subst hb
  have hlen := R.length_rep t.serializeEvents e
  have husage : t.bufferUsage ≤ t.buffer.length := by rw [h.length_buffer]; exact h.usage_le
  have hfits : t.bufferUsage + (R.rep t.serializeEvents e).length ≤ t.buffer.length := by
    rw [hlen, h.length_buffer]; exact hroom
  refine ⟨⟨?_, hroom, ?_, ?_⟩, rfl, by simp, by simp, rfl, rfl⟩
  · exact (length_blit hfits).trans h.length_buffer
  · change (blit t.buffer t.bufferUsage (R.rep t.serializeEvents e)).take
      (t.bufferUsage + R.repSize t.serializeEvents e) = _
    rw [← hlen, take_blit husage, h.spelt, EventRep.reps_append, EventRep.reps_visible_singleton]
  · intro e' he'
    rcases List.mem_append.mp he' with he' | he'
    · exact h.seen e' he'
    · exact R.rep_ne_nil_of_mem_visible _ he'

omit h in
/-- What `serialize` leaves at the start of a block that is large enough. -/
theorem take_serialize (R : EventRep E) (e : E) {block : List UInt8}
    (h : R.getSize e ≤ block.length) : (R.serialize e block).2.take (R.getSize e) = R.encode e := by
  rw [R.serialize_eq e block h, ← R.length_encode e, List.take_left]

omit h in
/-- Serializing an event behind the used part of a block is copying its serialized form there. -/
theorem append_serialize (R : EventRep E) (e : E) {block : List UInt8} {usage : ℕ}
    (h : usage + R.getSize e ≤ block.length) :
    block.take usage ++ (R.serialize e (block.drop usage)).2 = blit block usage (R.encode e) := by
  have hroom : R.getSize e ≤ (block.drop usage).length := by rw [List.length_drop]; omega
  rw [R.serialize_eq e _ hroom, blit, List.drop_drop, R.length_encode, List.append_assoc]

/-- **The common shape of both kinds of push**: room is made, then the event is handed over by
itself or copied into the buffer. -/
theorem pushEvent_eq (e : E) :
    t.pushEvent R e =
      let r := t.makeRoom (R.repSize t.serializeEvents e)
      if t.bufferCapacity < R.repSize t.serializeEvents e then
        (r.1, r.2 ++ [⟨R.rep t.serializeEvents e, t.serializeEvents⟩])
      else
        ({ r.1 with
            buffer := blit r.1.buffer r.1.bufferUsage (R.rep t.serializeEvents e)
            bufferUsage := r.1.bufferUsage + R.repSize t.serializeEvents e }, r.2) := by
  obtain ⟨hb, hroom⟩ := batches_makeRoom h (R.repSize t.serializeEvents e)
  rcases hser : t.serializeEvents with _ | _
  · simp only [hser, EventRep.repSize, Bool.false_eq_true, if_false] at hb
    simp only [pushEvent, pushObject, hser, EventRep.repSize, EventRep.rep, Bool.false_eq_true,
      if_false, hb.capacity, hb.serializeEvents]
  · simp only [hser, EventRep.repSize, if_true] at hb hroom
    simp only [pushEvent, pushSerialized, hser, EventRep.repSize, EventRep.rep, if_true,
      hb.capacity, hb.serializeEvents]
    split
    · next hlarge =>
      -- larger than the buffer: serialized into a block of its own
      rw [take_serialize]
      rw [List.length_replicate]
      split <;> omega
    · next hlarge =>
      -- serialized in place, behind the used part
      rw [append_serialize]
      rw [hb.holds.length_buffer, hb.capacity]
      omega

/-- **Pushing an event batches it.** -/
theorem batches_pushGroups (e : E) :
    Batches R t held (R.visible t.serializeEvents [e]) (t.pushEvent R e) (t.pushGroups R held e).1
      (t.pushGroups R held e).2 := by
  rw [pushEvent_eq h e, pushGroups]
  obtain ⟨hb, hroom⟩ := batches_makeRoom h (R.repSize t.serializeEvents e)
  have hc := hb.capacity
  dsimp only
  split
  · next hlarge =>
    -- an event larger than the buffer found it flushed
    have hnil : (t.makeRoomGroups held (R.repSize t.serializeEvents e)).2 = [] := by
      rcases hroom with hroom | hroom
      · omega
      · exact hroom.2
    rw [hnil] at hb ⊢
    exact hb.trans (hb.holds.batches_alone hb.serializeEvents (by rw [hc]; exact hlarge))
  · next hlarge =>
    have hcopy := hb.trans (hb.holds.batches_copy (e := e) hb.serializeEvents (by rw [hc]; omega))
    rwa [List.append_nil, List.append_nil] at hcopy

theorem batches_pushEvent (e : E) : ∃ groups held',
    Batches R t held (R.visible t.serializeEvents [e]) (t.pushEvent R e) groups held' :=
  ⟨_, _, batches_pushGroups h e⟩

end

end Timeline

/-! ### A timeline and its listeners -/

/-- A timeline, the container of its listeners, and what each of them has been called with, in the
order in which they were registered. -/
structure Session where
  timeline : Timeline
  container : WordBag ℕ
  received : List (List Notification)
  /-- A callback was read from a slot of the container that no one has written. -/
  crashed : Bool

namespace Session

open ListenerContainer

variable {E : Type} (R : EventRep E)

/-- The calls on a timeline. -/
inductive Op (E : Type) where
  | pushEvent (e : E)
  | flush
  /-- `ok` is the answer of the allocator, should it be asked. -/
  | registerListener (ok : Bool)

/-- The events a call pushes. -/
def Op.pushed : Op E → List E
  | .pushEvent e => [e]
  | .flush => []
  | .registerListener _ => []

/-- The events a run pushes. -/
def pushed (os : List (Op E)) : List E := os.flatMap Op.pushed

/-- A new timeline. -/
def create (bufferCapacity : ℕ) (serializeEvents : Bool) : Session :=
  ⟨Timeline.create bufferCapacity serializeEvents, ListenerContainer.create, [], false⟩

/-- `ht_timeline_listener_container_notify_listeners`, for one notification after another. -/
def notifyListeners (s : Session) (r : Timeline × List Notification) : Session :=
  let called := callEach s.container (r.2.map fun n l => l ++ [n]) ⟨s.crashed, s.received⟩
  { s with timeline := r.1, received := called.listeners, crashed := called.crashed }

/-- `ht_timeline_register_listener`. -/
def registerListener (s : Session) (ok : Bool) : Session :=
  let r := s.container.add WordBag.listenerSizes s.received.length ok
  { s with container := r.2, received := if r.1 then s.received ++ [[]] else s.received }

/-- One call. -/
def step (s : Session) : Op E → Session
  | .pushEvent e => s.notifyListeners (s.timeline.pushEvent R e)
  | .flush => s.notifyListeners s.timeline.flush
  | .registerListener ok => s.registerListener ok

/-- `ht_timeline_destroy`, as far as the listeners are concerned. -/
def destroy (s : Session) : Session := s.notifyListeners s.timeline.flush

/-- **The call does not reallocate the container**: it is not full, or there is no memory. -/
def KeepsBlock (s : Session) : Op E → Prop
  | .registerListener ok => s.container.capacity = s.container.size → ok = false
  | _ => True

/-- **The first `n` listeners have been given the events `es` in groups**, but for those the
timeline still holds. -/
structure Delivered (bufferCapacity : ℕ) (b : Bool) (n : ℕ) (es : List E) (groups : List (List E))
    (held : List E) (s : Session) : Prop where
  holds : s.timeline.Holds R held
  capacity : s.timeline.bufferCapacity = bufferCapacity
  mode : s.timeline.serializeEvents = b
  split : groups.flatten ++ held = R.visible b es
  nonempty : ∀ g ∈ groups, R.reps b g ≠ []
  intact : Intact s.container s.received.length
  received : s.received.take n = List.replicate n (groups.map (R.notification b))
  running : s.crashed = false

variable {R} {bufferCapacity : ℕ} {b : Bool} {n : ℕ} {es : List E} {groups : List (List E)}
  {held : List E} {s : Session}

theorem delivered_create (bufferCapacity : ℕ) (b : Bool) :
    Delivered R bufferCapacity b 0 [] [] [] (create bufferCapacity b) where
  holds := Timeline.holds_create bufferCapacity b
  capacity := rfl
  mode := rfl
  split := rfl
  nonempty := by simp
  intact := intact_create
  received := rfl
  running := rfl

/-- Each listener of an intact container gets all notifications. -/
theorem notifyListeners_eq (h : Intact s.container s.received.length) (hs : s.crashed = false)
    (r : Timeline × List Notification) : s.notifyListeners r =
      { s with timeline := r.1, received := s.received.map (· ++ r.2) } := by
  have happend : ∀ (ns : List Notification) (l : List Notification),
      (ns.map fun n l => l ++ [n]).foldl (fun l f => f l) l = l ++ ns := by
    intro ns
    induction ns with
    | nil => exact fun l => (List.append_nil l).symm
    | cons n ns ih =>
      intro l
      rw [List.map_cons, List.foldl_cons, ih, List.append_assoc, List.singleton_append]
  rw [notifyListeners, hs, h.callEach]
  simp only [happend, ← hs]

section

variable (h : Delivered R bufferCapacity b n es groups held s)

include h

/-- A call that batches events keeps the listeners up to date. -/
theorem Delivered.notify {new held' : List E} {groups' : List (List E)}
    {r : Timeline × List Notification}
    (hr : Timeline.Batches R s.timeline held (R.visible b new) r groups' held') :
    Delivered R bufferCapacity b n (es ++ new) (groups ++ groups') held' (s.notifyListeners r) := by
  have hsent : r.2 = groups'.map (R.notification b) := by rw [hr.sent, h.mode]
  rw [notifyListeners_eq h.intact h.running]
  refine ⟨hr.holds, hr.capacity.trans h.capacity, hr.serializeEvents.trans h.mode, ?_, ?_, ?_, ?_,
    h.running⟩
  · rw [List.flatten_append, List.append_assoc, hr.split, ← List.append_assoc, h.split,
      EventRep.visible_append]
  · intro g hg
    rcases List.mem_append.mp hg with hg | hg
    · exact h.nonempty g hg
    · simpa [h.mode] using hr.nonempty g hg
  · rw [List.length_map]
    exact h.intact
  · change (s.received.map (· ++ r.2)).take n = _
    rw [← List.map_take, h.received, List.map_replicate, hsent, List.map_append]

/-- **A flush delivers what was held.** -/
theorem Delivered.flush :
    ∃ groups', Delivered R bufferCapacity b n es groups' []
      (s.notifyListeners s.timeline.flush) := by
  obtain ⟨groups', hr⟩ := Timeline.batches_flush h.holds
  have hflush : Delivered R bufferCapacity b n (es ++ []) (groups ++ groups') []
      (s.notifyListeners s.timeline.flush) := h.notify hr
  rw [List.append_nil] at hflush
  exact ⟨_, hflush⟩

omit h in
theorem length_received_registerListener (s : Session) (ok : Bool) :
    (s.registerListener ok).received.length =
      if (s.container.add WordBag.listenerSizes s.received.length ok).1 then
        s.received.length + 1 else s.received.length := by
  rw [registerListener]
  dsimp only
  split
  · rw [List.length_append, List.length_singleton]
  · rfl

/-- **Another listener** comes behind those that are there. -/
theorem Delivered.registerListener {ok : Bool}
    (hok : s.container.capacity = s.container.size → ok = false) :
    Delivered R bufferCapacity b n es groups held (s.registerListener ok) := by
  have hn : n ≤ s.received.length := by
    have hlen := congrArg List.length h.received
    rw [List.length_take, List.length_replicate] at hlen
    omega
  refine { h with intact := ?_, received := ?_ }
  · rw [length_received_registerListener]
    exact h.intact.add hok
  · rw [Session.registerListener]
    dsimp only
    split
    · rw [List.take_append_of_le_length hn, h.received]
    · exact h.received

/-- **One call.** -/
theorem Delivered.step {o : Op E} (ho : s.KeepsBlock o) :
    ∃ groups' held', Delivered R bufferCapacity b n (es ++ o.pushed) groups' held'
      (s.step R o) := by
  rcases o with e | _ | ok
  · obtain ⟨groups', held', hr⟩ := Timeline.batches_pushEvent h.holds e
    rw [h.mode] at hr
    exact ⟨_, _, h.notify hr⟩
  · obtain ⟨groups', hflush⟩ := h.flush
    refine ⟨groups', [], ?_⟩
    rw [Op.pushed, List.append_nil]
    exact hflush
  · refine ⟨groups, held, ?_⟩
    rw [Op.pushed, List.append_nil]
    exact h.registerListener ho

/-- **A run of calls.** -/
theorem Delivered.run {os : List (Op E)} (hos : StepsMeet (Session.step R) KeepsBlock s os) :
    ∃ groups' held', Delivered R bufferCapacity b n (es ++ pushed os) groups' held'
      (runFrom (Session.step R) s os) := by
  induction os generalizing s es groups held with
  | nil => exact ⟨groups, held, by simpa [pushed] using h⟩
  | cons o os ih =>
    obtain ⟨groups', held', hstep⟩ := h.step hos.1
    simpa [pushed, List.append_assoc] using ih hstep hos.2

/-- In every state of such a run the used part of the buffer does not exceed it. -/
theorem Delivered.usage_le {os : List (Op E)} (hos : StepsMeet (Session.step R) KeepsBlock s os) :
    Throughout (Session.step R)
      (fun s => s.timeline.bufferUsage ≤ bufferCapacity ∧ s.crashed = false) s os := by
  have hrun : Throughout (Session.step R) (fun s => ∃ es groups held,
      Delivered R bufferCapacity b n es groups held s) s os := by
    refine throughout_of_step ?_ ⟨_, _, _, h⟩ hos
    rintro s o ⟨es, groups, held, h⟩ ho
    obtain ⟨groups', held', hstep⟩ := h.step ho
    exact ⟨_, _, _, hstep⟩
  refine hrun.mono ?_
  rintro s ⟨es, groups, held, h⟩
  exact ⟨h.capacity ▸ h.holds.usage_le, h.running⟩

end

/-- **Listeners registered before the first push** have not been called yet. -/
theorem Delivered.registered (h : Delivered R bufferCapacity b n [] [] [] s)
    (hn : s.received.length = n) {m : ℕ}
    (hos : StepsMeet (Session.step R) KeepsBlock s
      (List.replicate m (Op.registerListener (E := E) true))) :
    Delivered R bufferCapacity b (n + m) [] [] [] (runFrom (Session.step R) s
      (List.replicate m (Op.registerListener true))) := by
  induction m generalizing s n with
  | zero => exact h
  | succ m ih =>
    rw [List.replicate_succ] at hos ⊢
    have hfull : ¬ s.container.capacity = s.container.size := fun hfull => nomatch hos.1 hfull
    have hadd : (s.container.add WordBag.listenerSizes s.received.length true).1 = true := by
      rw [WordBag.add_of_not_full hfull]
    have hlen := length_received_registerListener s true
    rw [if_pos hadd, hn] at hlen
    have hkeeps : s.container.capacity = s.container.size → true = false := hos.1
    have hnext := h.registerListener hkeeps
    have hall : (s.registerListener true).received = List.replicate (n + 1) [] := by
      have htake := h.received
      rw [← hn, List.take_length] at htake
      rw [Session.registerListener, if_pos hadd, htake, hn]
      exact List.replicate_succ'.symm
    have hreceived : Delivered R bufferCapacity b (n + 1) [] [] [] (s.registerListener true) :=
      { hnext with received := by rw [hall, List.take_replicate, Nat.min_self]; rfl }
    have hrun := ih hreceived hlen hos.2
    rwa [Nat.add_right_comm, Nat.add_assoc] at hrun

/-- **A timeline delivers every event once, whole and in order**, if no registration reallocates
the container. Whatever the capacity of the buffer, in both modes, and for every sequence of
pushes, flushes and further registrations that is ended by the destruction of the timeline: the
used part of the buffer never exceeds it, only callbacks that were registered are called, and
there is one way to cut the sequence of pushed events into groups such that each of the `n`
listeners that were registered first has been called with one chunk for each group, which is
the concatenation of the bytes that stand for the events of the group and is not empty. (An event
without bytes would not be seen in any group.) -/
theorem delivers_in_order (R : EventRep E) (bufferCapacity : ℕ) (b : Bool) (n : ℕ)
    (os : List (Op E))
    (hos : StepsMeet (step R) KeepsBlock (create bufferCapacity b)
      (List.replicate n (.registerListener true) ++ os)) :
    let s := runFrom (step R) (create bufferCapacity b)
      (List.replicate n (.registerListener true) ++ os)
    Throughout (step R) (fun s => s.timeline.bufferUsage ≤ bufferCapacity ∧ s.crashed = false)
      (create bufferCapacity b) (List.replicate n (.registerListener true) ++ os) ∧
    s.destroy.crashed = false ∧
    ∃ groups : List (List E),
      s.destroy.received.take n = List.replicate n (groups.map (R.notification b)) ∧
      groups.flatten = R.visible b (pushed os) ∧
      (groups.map (R.reps b)).flatten = R.reps b (pushed os) ∧
      ∀ g ∈ groups, R.reps b g ≠ [] := by
  have hcreate := delivered_create (R := R) bufferCapacity b
  obtain ⟨hfirst, hrest⟩ := stepsMeet_append_iff.mp hos
  have hregistered := hcreate.registered rfl hfirst
  rw [Nat.zero_add] at hregistered
  obtain ⟨groups, held, hrun⟩ := hregistered.run hrest
  obtain ⟨groups', hend⟩ := hrun.flush
  have hsplit : groups'.flatten = R.visible b (pushed os) := by simpa using hend.split
  rw [← runFrom_append] at hend
  refine ⟨hcreate.usage_le hos, hend.running, groups', hend.received, hsplit, ?_, hend.nonempty⟩
  rw [← EventRep.reps_flatten, hsplit, EventRep.reps_visible]

/-- Events of one byte. -/
def byteRep : EventRep UInt8 where
  getSize _ := 1
  serialize e block := (1, e :: block.drop 1)
  typeSize _ := 1
  objectBytes e := [e]
  encode e := [e]
  length_encode _ := rfl
  length_objectBytes _ := rfl
  serialize_eq _ _ _ := rfl

/-- Sixteen listeners and two events, in a buffer of one byte. -/
theorem delivers_to_sixteen :
    let os : List (Op UInt8) :=
      List.replicate 16 (.registerListener true) ++ [.pushEvent 7, .pushEvent 8]
    let s := runFrom (step byteRep) (create 1 true) os
    StepsMeet (step byteRep) KeepsBlock (create 1 true) os ∧
    s.destroy.crashed = false ∧
    s.destroy.received = List.replicate 16 [⟨[7], true⟩, ⟨[8], true⟩] ∧
    ∃ groups : List (List UInt8),
      s.destroy.received.take 16 = List.replicate 16 (groups.map (byteRep.notification true)) ∧
      groups.flatten = byteRep.visible true (pushed [.pushEvent 7, .pushEvent 8]) ∧
      (groups.map (byteRep.reps true)).flatten =
        byteRep.reps true (pushed [.pushEvent 7, .pushEvent 8]) ∧
      ∀ g ∈ groups, byteRep.reps true g ≠ [] := by
  intro os s
  have hos : StepsMeet (step byteRep) KeepsBlock (create 1 true) os := by
    simp only [os, List.replicate, List.cons_append, List.nil_append, StepsMeet, KeepsBlock]
    decide
  obtain ⟨-, hcrashed, hgroups⟩ := delivers_in_order byteRep 1 true 16
    [.pushEvent 7, .pushEvent 8] hos
  exact ⟨hos, hcrashed, by decide, hgroups⟩

/-- **The seventeenth registration** makes the container grow from 384 to 256 bytes. Of the
listeners that were registered – all with success – ten are called with the event, and for the
eleventh a callback is read from outside the block. -/
theorem seventeenth_listener_crashes :
    let s := runFrom (step byteRep) (create 1 true)
      (List.replicate 17 (.registerListener true) ++ [.pushEvent 7])
    s.container.size = 17 ∧ s.container.bytes = 256 ∧ s.crashed = false ∧
      s.destroy.crashed = true ∧
      s.destroy.received = List.replicate 10 [⟨[7], true⟩] ++ List.replicate 7 [] := by
  decide

end Session

end HawkTracer.Lib
