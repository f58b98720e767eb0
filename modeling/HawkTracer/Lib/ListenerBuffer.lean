import HawkTracer.Lib.Timeline

/-!
# The buffer of a listener

A listener collects what it is called with in a buffer of its own and passes the buffer on
when it is full. Serialized events are bytes, and the buffer cuts them wherever it is full
(`HawkTracer.Lib.ListenerBuffer.processSerializedEvents`). Objects are serialized into the
buffer one by one, so the buffer is passed on when the next one does not fit
(`HawkTracer.Lib.ListenerBuffer.processUnserializedEvents`). Both kinds of calls share one
buffer. A buffer of size zero is not there at all: what comes in is passed on at once.

The chunks handed to the flush callback are returned in their order. Both functions loop, and
the loops are given a budget of rounds; `none` is a call that does not return, which is also
what becomes of a failed assertion. `HawkTracer.Lib.ListenerBuffer.PassesOn` says that a call
neither loses nor adds a byte, wherever it cuts:
`HawkTracer.Lib.ListenerBuffer.processSerializedEvents_spec` and
`HawkTracer.Lib.ListenerBuffer.processUnserializedEvents_spec` say that it returns and does
that.
-/

namespace HawkTracer.Lib

/-! ### Objects found in memory -/

/-- Events whose objects can be found again in memory: the cast of a pointer to a pointer to an
event. -/
structure CastRep (E : Type) extends EventRep E where
  eventAt : List UInt8 → Option E
  eventAt_objectBytes : ∀ e rest, eventAt (objectBytes e ++ rest) = some e
  /-- No object is empty. -/
  typeSize_pos : ∀ e, 0 < typeSize e

/-- The bytes of an object of the root klass: the klass, by its identifier in the place of the
pointer, the timestamp and the identifier of the event. -/
def HTEvent.objectBytes (o : ByteOrder) (e : HTEvent) : List UInt8 :=
  toBytes o 8 e.klassId.toNat ++ (toBytes o 8 e.timestamp.toNat ++ toBytes o 8 e.id.toNat)

/-- The object of the root klass at the start of a block. -/
def HTEvent.read (o : ByteOrder) (bytes : List UInt8) : HTEvent where
  klassId := UInt32.ofNat (ofBytes o (bytes.take 8))
  timestamp := UInt64.ofNat (ofBytes o ((bytes.drop 8).take 8))
  id := UInt64.ofNat (ofBytes o ((bytes.drop 16).take 8))

theorem HTEvent.read_objectBytes (o : ByteOrder) (e : HTEvent) (rest : List UInt8) :
    HTEvent.read o (e.objectBytes o ++ rest) = e := by
  have hk : e.klassId.toNat < 256 ^ 8 := lt_of_lt_of_le e.klassId.toNat_lt (by decide)
  have ht : e.timestamp.toNat < 256 ^ 8 := e.timestamp.toNat_lt
  have hi : e.id.toNat < 256 ^ 8 := e.id.toNat_lt
  have hdrop : (toBytes o 8 e.klassId.toNat).drop 16 = [] := List.drop_eq_nil_of_le (by simp)
  simp [HTEvent.read, HTEvent.objectBytes, List.drop_append, hdrop,
    ofBytes_toBytes o hk, ofBytes_toBytes o ht, ofBytes_toBytes o hi]

/-- The events of the root klass. -/
def htEventRep (o : ByteOrder) : CastRep HTEvent where
  getSize e := Fields.htEvent.getSize e
  serialize e block := Fields.htEvent.serialize o e block
  typeSize _ := htEventKlass.size
  objectBytes e := e.objectBytes o
  encode e := Fields.htEvent.encode o e
  length_encode e := Fields.htEvent.length_encode o e
  length_objectBytes e := by simp [HTEvent.objectBytes, htEventKlass]
  serialize_eq e _ hroom :=
    Fields.serialize_eq o (show Fields.htEvent.BaseFirst from trivial) e hroom
  eventAt bytes := some (HTEvent.read o bytes)
  eventAt_objectBytes e rest := congrArg some (e.read_objectBytes o rest)
  typeSize_pos _ := by decide

/-! ### The buffer -/

/-- `HT_ListenerBuffer`. -/
structure ListenerBuffer where
  maxSize : ℕ
  usage : ℕ
  data : List UInt8
  deriving DecidableEq

namespace ListenerBuffer

variable {E : Type}

/-- `ht_listener_buffer_init`, when memory can be had. -/
def init (maxSize : ℕ) : ListenerBuffer := ⟨maxSize, 0, List.replicate maxSize 0⟩

/-- What the buffer has collected. -/
def contents (b : ListenerBuffer) : List UInt8 := b.data.take b.usage

/-- `ht_listener_buffer_flush`: the buffer, and the chunk handed to the callback. -/
def flush (b : ListenerBuffer) : ListenerBuffer × List (List UInt8) :=
  ({ b with usage := 0 }, [b.contents])

/-- `memcpy(buffer->data + buffer->usage, ...)` and the accounting for it. -/
def append (b : ListenerBuffer) (bytes : List UInt8) : ListenerBuffer :=
  { b with data := blit b.data b.usage bytes, usage := b.usage + bytes.length }

/-- One round of the loop over serialized events: as many bytes as there is room for. -/
def copySome (b : ListenerBuffer) (events : List UInt8) : ListenerBuffer × List (List UInt8) :=
  let b := b.append (events.take (min events.length (b.maxSize - b.usage)))
  if b.usage = b.maxSize then b.flush else (b, [])

/-- The loop over serialized events. -/
def copyAll : ℕ → ListenerBuffer → List UInt8 → Option (ListenerBuffer × List (List UInt8))
  | _, b, [] => some (b, [])
  | 0, _, _ :: _ => none
  | n + 1, b, c :: cs =>
    let r := b.copySome (c :: cs)
    let rest := (c :: cs).drop (min (c :: cs).length (b.maxSize - b.usage))
    (copyAll n r.1 rest).map fun r' => (r'.1, r.2 ++ r'.2)

/-- `ht_listener_buffer_process_serialized_events`. -/
def processSerializedEvents (b : ListenerBuffer) (events : List UInt8) :
    Option (ListenerBuffer × List (List UInt8)) :=
  if b.maxSize = 0 then some (b, [events]) else copyAll (events.length + 1) b events

/-- One round of the loop over objects: the event is serialized into the buffer, which is passed
on before if there is no room. -/
def serializeOne (R : EventRep E) (b : ListenerBuffer) (e : E) :
    ListenerBuffer × List (List UInt8) :=
  let r := if R.getSize e + b.usage > b.maxSize then b.flush else (b, [])
  let w := R.serialize e (r.1.data.drop r.1.usage)
  ({ r.1 with data := r.1.data.take r.1.usage ++ w.2, usage := r.1.usage + w.1 }, r.2)

/-- The loop over objects. -/
def serializeAll (R : CastRep E) :
    ℕ → ListenerBuffer → List UInt8 → Option (ListenerBuffer × List (List UInt8))
  | _, b, [] => some (b, [])
  | 0, _, _ :: _ => none
  | n + 1, b, c :: cs =>
    match R.eventAt (c :: cs) with
    | none => none
    | some e =>
      let r := b.serializeOne R.toEventRep e
      (serializeAll R n r.1 ((c :: cs).drop (R.typeSize e))).map fun r' => (r'.1, r.2 ++ r'.2)

/-- `ht_listener_buffer_process_unserialized_events`. It asserts that there is a buffer. -/
def processUnserializedEvents (R : CastRep E) (b : ListenerBuffer) (events : List UInt8) :
    Option (ListenerBuffer × List (List UInt8)) :=
  if b.maxSize = 0 then none else serializeAll R events.length b events

/-- What a listener does with the arguments of its callback. -/
def process (R : CastRep E) (b : ListenerBuffer) (n : Notification) :
    Option (ListenerBuffer × List (List UInt8)) :=
  if n.serialized then b.processSerializedEvents n.events
  else b.processUnserializedEvents R n.events

/-! ### No byte is lost or added -/

/-- The used part lies inside the block. -/
structure Valid (b : ListenerBuffer) : Prop where
  length_data : b.data.length = b.maxSize
  usage_le : b.usage ≤ b.maxSize

/-- **A call passes bytes on**: what it flushed and what is then in the buffer are what was in
the buffer, followed by the given bytes. -/
structure PassesOn (b : ListenerBuffer) (bytes : List UInt8)
    (r : ListenerBuffer × List (List UInt8)) : Prop where
  valid : r.1.Valid
  maxSize : r.1.maxSize = b.maxSize
  stream : r.2.flatten ++ r.1.contents = b.contents ++ bytes

variable {b : ListenerBuffer} {bytes bytes' : List UInt8}
  {r r' : ListenerBuffer × List (List UInt8)}

theorem valid_init (maxSize : ℕ) : (init maxSize).Valid := ⟨List.length_replicate, Nat.zero_le _⟩

section

variable (h : b.Valid)

include h

theorem Valid.passesOn : PassesOn b [] (b, []) := ⟨h, rfl, by simp⟩

omit h in
theorem PassesOn.trans (h : PassesOn b bytes r) (h' : PassesOn r.1 bytes' r') :
    PassesOn b (bytes ++ bytes') (r'.1, r.2 ++ r'.2) where
  valid := h'.valid
  maxSize := h'.maxSize.trans h.maxSize
  stream := by
    rw [List.flatten_append, List.append_assoc, h'.stream, ← List.append_assoc, h.stream,
      List.append_assoc]

/-- **A flush empties the buffer.** -/
theorem Valid.passesOn_flush : PassesOn b [] b.flush where
  valid := ⟨h.length_data, Nat.zero_le _⟩
  maxSize := rfl
  stream := by simp [flush, contents]

theorem Valid.passesOn_append (hroom : b.usage + bytes.length ≤ b.maxSize) :
    PassesOn b bytes (b.append bytes, []) := by
  have husage : b.usage ≤ b.data.length := h.length_data ▸ h.usage_le
  refine ⟨⟨?_, hroom⟩, rfl, ?_⟩
  · exact (length_blit (h.length_data ▸ hroom)).trans h.length_data
  · exact take_blit husage

/-! ### Serialized events -/

/-- A round copies the bytes there is room for, and leaves room for the next round. -/
theorem Valid.passesOn_copySome (hpos : 0 < b.maxSize) (events : List UInt8) :
    PassesOn b (events.take (min events.length (b.maxSize - b.usage))) (b.copySome events) ∧
      (b.copySome events).1.usage < b.maxSize := by
  have hle := h.usage_le
  have hroom : b.usage + (events.take (min events.length (b.maxSize - b.usage))).length ≤
      b.maxSize := by
    rw [List.length_take]; omega
  have happ := h.passesOn_append hroom
  rw [copySome]
  split
  · have htrans := happ.trans happ.valid.passesOn_flush
    rw [List.append_nil] at htrans
    exact ⟨htrans, hpos⟩
  · next hfull =>
    have hbound := happ.valid.usage_le
    exact ⟨happ, Nat.lt_of_le_of_ne hbound hfull⟩

/-- The loop returns: every round copies something, but perhaps the first, which may find the
buffer full. -/
theorem Valid.copyAll (hpos : 0 < b.maxSize) (n : ℕ) (events : List UInt8)
    (hn : events.length + (if b.usage = b.maxSize then 1 else 0) ≤ n) :
    ∃ r, ListenerBuffer.copyAll n b events = some r ∧ PassesOn b events r := by
  induction n generalizing b events with
  | zero =>
    obtain rfl : events = [] := List.length_eq_zero_iff.mp (by omega)
    exact ⟨(b, []), by rw [ListenerBuffer.copyAll], h.passesOn⟩
  | succ n ih =>
    rcases events with _ | ⟨c, cs⟩
    · exact ⟨(b, []), by rw [ListenerBuffer.copyAll], h.passesOn⟩
    · have hle := h.usage_le
      obtain ⟨hround, hroom⟩ := h.passesOn_copySome hpos (c :: cs)
      have hmax := hround.maxSize
      -- after this round the buffer is not full, so the allowance for a full one is used up
      obtain ⟨r, hr, hpass⟩ := ih hround.valid (hmax ▸ hpos)
        ((c :: cs).drop (min (c :: cs).length (b.maxSize - b.usage))) (by
          have hne : ¬ (b.copySome (c :: cs)).1.usage = (b.copySome (c :: cs)).1.maxSize := by omega
          rw [if_neg hne, List.length_drop]
          rw [List.length_cons] at hn ⊢
          split at hn <;> omega)
      refine ⟨(r.1, (b.copySome (c :: cs)).2 ++ r.2), ?_, ?_⟩
      · rw [ListenerBuffer.copyAll, hr, Option.map_some]
      · have htrans := hround.trans hpass
        rwa [List.take_append_drop] at htrans

/-- **Serialized events are passed on**, whatever the size of the buffer. -/
theorem processSerializedEvents_spec (events : List UInt8) :
    ∃ r, b.processSerializedEvents events = some r ∧ PassesOn b events r := by
  rw [processSerializedEvents]
  split
  · next hzero =>
    refine ⟨_, rfl, h, rfl, ?_⟩
    have hnil : b.contents = [] := by
      rw [contents, List.length_eq_zero_iff.mp (h.length_data.trans hzero), List.take_nil]
    simp [hnil]
  · next hpos =>
    refine h.copyAll (Nat.pos_of_ne_zero hpos) _ events ?_
    split <;> omega

/-! ### Objects -/

theorem Valid.passesOn_serializeOne {R : EventRep E} {e : E} (hfits : R.getSize e ≤ b.maxSize) :
    PassesOn b (R.encode e) (b.serializeOne R e) := by
  obtain ⟨r, hr, hroom, hdef⟩ : ∃ r, PassesOn b [] r ∧ r.1.usage + R.getSize e ≤ r.1.maxSize ∧
      r = if R.getSize e + b.usage > b.maxSize then b.flush else (b, []) := by
    refine ⟨_, ?_, ?_, rfl⟩
    · split
      · exact h.passesOn_flush
      · exact h.passesOn
    · split
      · simpa [flush] using hfits
      · next hle => rw [Nat.add_comm]; exact Nat.le_of_not_gt hle
  have hlen := R.length_encode e
  have hspace : R.getSize e ≤ (r.1.data.drop r.1.usage).length := by
    rw [List.length_drop, hr.valid.length_data]; omega
  have hone : b.serializeOne R e = (r.1.append (R.encode e), r.2 ++ []) := by
    rw [serializeOne, ← hdef]
    dsimp only
    rw [R.serialize_eq e _ hspace, append, blit, List.append_nil, hlen, List.append_assoc,
      List.drop_drop]
  have happ : PassesOn r.1 (R.encode e) (r.1.append (R.encode e), []) :=
    hr.valid.passesOn_append (by omega)
  rw [hone]
  exact hr.trans happ

/-- The loop returns: every round finds an object, and objects are not empty. -/
theorem Valid.serializeAll {R : CastRep E} {es : List E} (hfits : ∀ e ∈ es, R.getSize e ≤ b.maxSize)
    {n : ℕ} (hn : es.length ≤ n) :
    ∃ r, ListenerBuffer.serializeAll R n b (R.reps false es) = some r ∧
      PassesOn b (R.reps true es) r := by
  induction es generalizing b n with
  | nil => exact ⟨(b, []), by rw [EventRep.reps_nil, ListenerBuffer.serializeAll], h.passesOn⟩
  | cons e es ih =>
    obtain ⟨n, rfl⟩ : ∃ m, n = m + 1 := ⟨n - 1, by rw [List.length_cons] at hn; omega⟩
    have hone := h.passesOn_serializeOne (R := R.toEventRep) (hfits e List.mem_cons_self)
    have hmax := hone.maxSize
    obtain ⟨r, hr, hpass⟩ := ih hone.valid (n := n)
      (fun e' he' => hmax ▸ hfits e' (List.mem_cons_of_mem e he')) (Nat.le_of_succ_le_succ hn)
    refine ⟨(r.1, (b.serializeOne R.toEventRep e).2 ++ r.2), ?_, hone.trans hpass⟩
    -- the cast finds `e` at the front, and the loop moves on by the size of its type
    have hobject : R.reps false (e :: es) = R.objectBytes e ++ R.reps false es := rfl
    have hlen := R.length_objectBytes e
    have hdrop : (R.reps false (e :: es)).drop (R.typeSize e) = R.reps false es := by
      rw [hobject, ← hlen, List.drop_left]
    have hcast : R.eventAt (R.reps false (e :: es)) = some e := by
      rw [hobject, R.eventAt_objectBytes]
    rcases hbytes : R.reps false (e :: es) with _ | ⟨c, cs⟩
    -- no object is empty, so the loop does not end here
    · have hpos := R.typeSize_pos e
      rw [hobject, List.append_eq_nil_iff] at hbytes
      rw [hbytes.1, List.length_nil] at hlen
      omega
    · rw [hbytes] at hdrop hcast
      rw [ListenerBuffer.serializeAll, hcast]
      dsimp only
      rw [hdrop, hr, Option.map_some]

omit h in
/-- There are at least as many bytes as objects. -/
theorem length_le_length_reps (R : CastRep E) (es : List E) :
    es.length ≤ (R.reps false es).length := by
  induction es with
  | nil => simp
  | cons e es ih =>
    have hpos := R.typeSize_pos e
    have hlen : (R.rep false e).length = R.typeSize e := R.length_objectBytes e
    rw [EventRep.reps_cons, List.length_append, List.length_cons]
    omega

/-- **Objects are serialized and passed on**, given a buffer that is not smaller than any of
them. -/
theorem processUnserializedEvents_spec {R : CastRep E} (hpos : 0 < b.maxSize) {es : List E}
    (hfits : ∀ e ∈ es, R.getSize e ≤ b.maxSize) :
    ∃ r, b.processUnserializedEvents R (R.reps false es) = some r ∧
      PassesOn b (R.reps true es) r := by
  rw [processUnserializedEvents, if_neg (Nat.pos_iff_ne_zero.mp hpos)]
  exact h.serializeAll hfits (length_le_length_reps R es)

/-- A group of events fits a buffer: objects need one that is not smaller than any of them. -/
def Fits (R : EventRep E) (maxSize : ℕ) (serialized : Bool) (es : List E) : Prop :=
  serialized = false → 0 < maxSize ∧ ∀ e ∈ es, R.getSize e ≤ maxSize

/-- **A group of events is passed on in its serialized form**, in whatever form it comes. -/
theorem process_spec {R : CastRep E} {serialized : Bool} {es : List E}
    (hfits : Fits R.toEventRep b.maxSize serialized es) :
    ∃ r, b.process R (R.notification serialized es) = some r ∧ PassesOn b (R.reps true es) r := by
  rcases serialized with _ | _
  · obtain ⟨hpos, hsizes⟩ := hfits rfl
    exact processUnserializedEvents_spec h hpos hsizes
  · exact processSerializedEvents_spec h (R.reps true es)

end

end ListenerBuffer

end HawkTracer.Lib
