import HawkTracer.Base.Run
import HawkTracer.Lib.Klass

/-!
# The klasses of the library and the metadata of a stream

A stream opens with its own grammar. `ht_timeline_listener_push_metadata` hands a
listener an `HT_EndiannessInfoEvent`, then one `HT_EventKlassInfoEvent` and a run of
`HT_EventKlassFieldInfoEvent`s for every klass of the registry, then an
`HT_SystemInfoEvent`. These are events like any other: objects of klasses declared
in `core_events.h`, written by the functions of `HawkTracer.Lib.Klass`.

The registry is the list of its klasses; a klass id is a position in it, and
`ht_init` fills the first nine (`HawkTracer.Lib.coreKlasses`). The descriptions are
staged in a buffer of 4096 bytes that is handed over whenever the next description
would not fit (`HawkTracer.Lib.Staging.pushEvent`), so the listener sees chunks.
`HawkTracer.Lib.flatten_pushMetadata` says that the cuts do not matter: as long as
no single description exceeds the staging buffer, the chunks spell the
concatenation of the serialized metadata events.

The clock and the identifier provider are shared with whatever else runs in the
process, so the timestamps and identifiers the description events get are an
arbitrary sequence of `HawkTracer.Lib.Stamp`s.
-/

namespace HawkTracer.Lib

/-! ### Declaring klasses -/

/-- A list of scalar fields as the fields of a klass. -/
def scalarFields : List FieldDecl → Fields
  | [] => .nil
  | f :: fs => .field f (scalarFields fs)

/-- The member names of a struct declared with the given scalar fields. -/
def memberNames (fields : List FieldDecl) : List CString :=
  cstr "base" :: fields.map FieldDecl.fieldName

theorem map_fieldName_infos_scalarFields (fields : List FieldDecl) :
    (scalarFields fields).infos.map FieldInfo.fieldName = fields.map FieldDecl.fieldName := by
  induction fields with
  | nil => rfl
  | cons f fs ih => simp [scalarFields, Fields.infos, FieldDecl.info, ih]

theorem scalars_scalarFields (fields : List FieldDecl) : (scalarFields fields).Scalars := by
  induction fields with
  | nil => trivial
  | cons f fs ih => exact ih

/-- `HT_DECLARE_EVENT_KLASS(TYPE_NAME, BASE_TYPE, ...)`, with the `sizeof` of the
struct it declares. -/
def declareEventKlass (typeName : CString) (base : Klass) (fields : List FieldDecl) (size : ℕ)
    (h : (memberNames fields).Nodup := by decide) : Klass where
  typeName := typeName
  fields := .struct base.typeName (cstr "base") base.size base.fields (scalarFields fields)
  size := size
  nodup := by
    simpa [Fields.infos, map_fieldName_infos_scalarFields, memberNames] using h

/-- An integer field. -/
def integerField (cType : String) (isSigned : Bool) (size : ℕ) (fieldName : String)
    (hc : (ascii cType).contains 0 = false := by exact Eq.refl false)
    (hf : (ascii fieldName).contains 0 = false := by exact Eq.refl false) : FieldDecl :=
  ⟨.integer isSigned, cstr cType hc, cstr fieldName hf, size⟩

/-- A string field. -/
def stringField (cType : String) (fieldName : String)
    (hc : (ascii cType).contains 0 = false := by exact Eq.refl false)
    (hf : (ascii fieldName).contains 0 = false := by exact Eq.refl false) : FieldDecl :=
  ⟨.string, cstr cType hc, cstr fieldName hf, sizeofPointer⟩

/-! ### The klasses of `core_events.h` -/

/-- `HT_Event`. -/
def htEventKlass : Klass := ⟨cstr "HT_Event", .htEvent, 24, by decide⟩

/-- The fields of `HT_EndiannessInfoEvent`. -/
def endiannessInfoEventFields : List FieldDecl := [integerField "uint8_t" false 1 "endianness"]

/-- `HT_EndiannessInfoEvent`. -/
def endiannessInfoEventKlass : Klass :=
  declareEventKlass (cstr "HT_EndiannessInfoEvent") htEventKlass endiannessInfoEventFields 32

/-- The fields of `HT_EventKlassInfoEvent`. -/
def eventKlassInfoEventFields : List FieldDecl :=
  [integerField "HT_EventKlassId" false 4 "info_klass_id",
   stringField "const char*" "event_klass_name",
   integerField "uint8_t" false 1 "field_count"]

/-- `HT_EventKlassInfoEvent`. -/
def eventKlassInfoEventKlass : Klass :=
  declareEventKlass (cstr "HT_EventKlassInfoEvent") htEventKlass eventKlassInfoEventFields 48

/-- The fields of `HT_EventKlassFieldInfoEvent`. -/
def eventKlassFieldInfoEventFields : List FieldDecl :=
  [integerField "HT_EventKlassId" false 4 "info_klass_id",
   stringField "const char*" "field_type",
   stringField "const char*" "field_name",
   integerField "uint64_t" false 8 "size",
   integerField "uint8_t" false 1 "data_type"]

/-- `HT_EventKlassFieldInfoEvent`. -/
def eventKlassFieldInfoEventKlass : Klass :=
  declareEventKlass (cstr "HT_EventKlassFieldInfoEvent") htEventKlass
    eventKlassFieldInfoEventFields 64

/-- `HT_CallstackBaseEvent`. -/
def callstackBaseEventKlass : Klass :=
  declareEventKlass (cstr "HT_CallstackBaseEvent") htEventKlass
    [integerField "HT_DurationNs" false 8 "duration",
     integerField "HT_ThreadId" false 4 "thread_id"] 40

/-- `HT_CallstackIntEvent`. -/
def callstackIntEventKlass : Klass :=
  declareEventKlass (cstr "HT_CallstackIntEvent") callstackBaseEventKlass
    [integerField "HT_CallstackEventLabel" false 8 "label"] 48

/-- `HT_CallstackStringEvent`. -/
def callstackStringEventKlass : Klass :=
  declareEventKlass (cstr "HT_CallstackStringEvent") callstackBaseEventKlass
    [stringField "const char*" "label"] 48

/-- `HT_StringMappingEvent`. -/
def stringMappingEventKlass : Klass :=
  declareEventKlass (cstr "HT_StringMappingEvent") htEventKlass
    [integerField "uint64_t" false 8 "identifier",
     stringField "const char*" "label"] 40

/-- `HT_SystemInfoEvent`. -/
def systemInfoEventKlass : Klass :=
  declareEventKlass (cstr "HT_SystemInfoEvent") htEventKlass
    [integerField "uint8_t" false 1 "version_major",
     integerField "uint8_t" false 1 "version_minor",
     integerField "uint8_t" false 1 "version_patch"] 32

/-- The klasses `ht_init` registers, in its order. -/
def coreKlasses : List Klass :=
  [endiannessInfoEventKlass, htEventKlass, eventKlassInfoEventKlass, eventKlassFieldInfoEventKlass,
   callstackBaseEventKlass, callstackIntEventKlass, callstackStringEventKlass,
   stringMappingEventKlass, systemInfoEventKlass]

/-! ### Objects of a klass, and the host they live on -/

/-- An event object together with its klass. -/
structure Instance where
  klass : Klass
  val : klass.fields.Inst

/-- `klass->get_size(event)`. -/
def Instance.getSize (e : Instance) : ℕ := e.klass.fields.getSize e.val

/-- The serialized form of an event. -/
def Instance.encode (o : ByteOrder) (e : Instance) : List UInt8 := e.klass.fields.encode o e.val

theorem Instance.length_encode (o : ByteOrder) (e : Instance) : (e.encode o).length = e.getSize :=
  e.klass.fields.length_encode o e.val

/-- The host the traced program runs on: its byte order, the bytes a struct occupies
in its memory, and the version the library was configured with. -/
structure Host where
  order : ByteOrder
  objectBytes : Instance → List UInt8
  versionMajor : UInt8
  versionMinor : UInt8
  versionPatch : UInt8
  length_objectBytes : ∀ e, (objectBytes e).length = e.klass.size

/-- The same host with the given byte order. -/
def Host.inOrder (H : Host) (o : ByteOrder) : Host := { H with order := o }

/-- A host whose objects are all zeros. -/
def sampleHost : Host where
  order := .little
  objectBytes := fun e => List.replicate e.klass.size 0
  versionMajor := 0
  versionMinor := 8
  versionPatch := 0
  length_objectBytes := fun e => by simp

/-- `ht_event_utils_serialize_event_to_buffer`. -/
def serializeEventToBuffer (H : Host) (e : Instance) (buffer : List UInt8) (serialize : Bool) :
    ℕ × List UInt8 :=
  if serialize then e.klass.fields.serialize H.order e.val buffer
  else (e.klass.size, blit buffer 0 (H.objectBytes e))

/-! ### The metadata events -/

/-- The timestamp and the identifier an event is given. -/
structure Stamp where
  timestamp : UInt64
  id : UInt64

/-- A clock that stands still. -/
def sampleStamps : ℕ → Stamp := fun _ => ⟨0, 0⟩

/-- The value of `HT_ENDIANNESS_LITTLE` or `HT_ENDIANNESS_BIG`. -/
def endiannessCode : ByteOrder → UInt8
  | .little => 0
  | .big => 1

/-- The event of `ht_system_info_push_endianness_info_to_listener`. Its klass has
identifier `0`, which is read the same in both byte orders. -/
def endiannessInfoEvent (H : Host) : Instance :=
  ⟨endiannessInfoEventKlass, (⟨0, 0, 0⟩, (endiannessCode H.order).toBitVec, ())⟩

/-- The event of `ht_system_info_push_system_info_to_listener`. -/
def systemInfoEvent (H : Host) : Instance :=
  ⟨systemInfoEventKlass, (⟨8, 0, 0⟩, H.versionMajor.toBitVec, H.versionMinor.toBitVec,
    H.versionPatch.toBitVec, ())⟩

/-- `_ht_registry_init_event_klass_info_event`: the description of the klass with
identifier `i`. -/
def klassInfoEvent (s : Stamp) (i : ℕ) (K : Klass) : Instance :=
  ⟨eventKlassInfoEventKlass, (⟨2, s.timestamp, s.id⟩, BitVec.ofNat 32 i, some K.typeName,
    BitVec.ofNat 8 K.fields.infos.length, ())⟩

/-- The `data_type` of a field description: an unsigned integer gets a code of its
own, `HT_MKCREFLECT_TYPES_EXT_UNSIGNED_INTEGER`. -/
def FieldInfo.extDataType (info : FieldInfo) : ℕ :=
  if info.dataType = .integer ∧ info.isSigned = false then 99 else info.dataType.code

/-- `_ht_registry_init_event_klass_field_info_event`. -/
def fieldInfoEvent (s : Stamp) (i : ℕ) (info : FieldInfo) : Instance :=
  ⟨eventKlassFieldInfoEventKlass, (⟨3, s.timestamp, s.id⟩, BitVec.ofNat 32 i, some info.fieldType,
    some info.fieldName, BitVec.ofNat 64 info.size, BitVec.ofNat 8 info.extDataType, ())⟩

/-! ### Staging -/

/-- `a - b` on `size_t`. -/
def subSizeT (a b : ℕ) : ℕ := (a + (2 ^ 64 - b % 2 ^ 64)) % 2 ^ 64

theorem subSizeT_of_le {a b : ℕ} (h : b ≤ a) (ha : a < 2 ^ 64) : subSizeT a b = a - b := by
  rw [subSizeT, Nat.mod_eq_of_lt (by omega : b < 2 ^ 64)]
  omega

/-- `REGISTRY_LISETNER_BUFF_SIZE`. -/
def registryListenerBuffSize : ℕ := 4096

/-- The state of `ht_registry_push_registry_klasses_to_listener`: the staging
buffer, the position in it, the chunks already handed to the callback, their total
size, and the number of stamps drawn. -/
structure Staging where
  data : List UInt8
  dataPos : ℕ
  chunks : List (List UInt8)
  totalSize : ℕ
  drawn : ℕ

/-- `callback(data, *data_pos, serialize, listener)`, with the accounting around
it. -/
def Staging.handOver (st : Staging) : Staging :=
  { st with
    dataPos := 0
    chunks := st.chunks ++ [st.data.take st.dataPos]
    totalSize := st.totalSize + st.dataPos }

/-- Stage one description event: hand the buffer over if the event does not fit, then
write it at the position. The room is checked with `get_size`, whatever the form in
which the event is then written. -/
def Staging.pushEvent (H : Host) (serialize : Bool) (e : Instance) (st : Staging) : Staging :=
  let st := if e.getSize > subSizeT registryListenerBuffSize st.dataPos then st.handOver else st
  let r := serializeEventToBuffer H e (st.data.drop st.dataPos) serialize
  { st with
    data := st.data.take st.dataPos ++ r.2
    dataPos := st.dataPos + r.1
    drawn := st.drawn + 1 }

/-- `_ht_registry_push_class_to_listener`. -/
def pushClassToListener (H : Host) (stamps : ℕ → Stamp) (serialize : Bool) (st : Staging)
    (i : ℕ) (K : Klass) : Staging :=
  K.fields.infos.foldl
    (fun st info => st.pushEvent H serialize (fieldInfoEvent (stamps st.drawn) i info))
    (st.pushEvent H serialize (klassInfoEvent (stamps st.drawn) i K))

/-- The loop of `ht_registry_push_registry_klasses_to_listener` over the klasses from
identifier `i` on. -/
def pushKlassesFrom (H : Host) (stamps : ℕ → Stamp) (serialize : Bool) :
    ℕ → List Klass → Staging → Staging
  | _, [], st => st
  | i, K :: Ks, st =>
    pushKlassesFrom H stamps serialize (i + 1) Ks (pushClassToListener H stamps serialize st i K)

/-- `ht_registry_push_registry_klasses_to_listener`: the chunks handed to the
callback, and the returned size. The staging buffer starts uninitialised; nothing of
it is handed over before it is written. -/
def pushRegistryKlassesToListener (H : Host) (stamps : ℕ → Stamp) (serialize : Bool)
    (registry : List Klass) : List (List UInt8) × ℕ :=
  let st := pushKlassesFrom H stamps serialize 0 registry
    ⟨List.replicate registryListenerBuffSize 0, 0, [], 0, 0⟩
  let st := if st.dataPos > 0 then st.handOver else st
  (st.chunks, st.totalSize)

/-- The chunk handed over for a single event of `system_info.c`, which is written into
a buffer of 64 bytes. -/
def pushInfoToListener (H : Host) (serialize : Bool) (e : Instance) : List UInt8 × ℕ :=
  let r := serializeEventToBuffer H e (List.replicate 64 0) serialize
  (r.2.take r.1, r.1)

/-- `ht_timeline_listener_push_metadata`: the chunks handed to the callback, and the
returned size. -/
def pushMetadata (H : Host) (stamps : ℕ → Stamp) (serialize : Bool) (registry : List Klass) :
    List (List UInt8) × ℕ :=
  let endianness := pushInfoToListener H serialize (endiannessInfoEvent H)
  let klasses := pushRegistryKlassesToListener H stamps serialize registry
  let system := pushInfoToListener H serialize (systemInfoEvent H)
  (endianness.1 :: klasses.1 ++ [system.1], endianness.2 + klasses.2 + system.2)

/-! ### The metadata as a list of events -/

/-- The descriptions of the fields of the klass with identifier `i`, with stamps from
the `n`-th on. -/
def fieldDescriptions (stamps : ℕ → Stamp) (i : ℕ) : ℕ → List FieldInfo → List Instance
  | _, [] => []
  | n, info :: infos =>
    fieldInfoEvent (stamps n) i info :: fieldDescriptions stamps i (n + 1) infos

/-- The description of one klass. -/
def klassDescriptions (stamps : ℕ → Stamp) (i n : ℕ) (K : Klass) : List Instance :=
  klassInfoEvent (stamps n) i K :: fieldDescriptions stamps i (n + 1) K.fields.infos

/-- The descriptions of the klasses with identifiers from `i` on. -/
def descriptions (stamps : ℕ → Stamp) : ℕ → ℕ → List Klass → List Instance
  | _, _, [] => []
  | i, n, K :: Ks =>
    klassDescriptions stamps i n K ++
      descriptions stamps (i + 1) (n + (K.fields.infos.length + 1)) Ks

/-- **The metadata events of a stream**, in order. -/
def metadataEvents (H : Host) (stamps : ℕ → Stamp) (registry : List Klass) : List Instance :=
  endiannessInfoEvent H :: descriptions stamps 0 0 registry ++ [systemInfoEvent H]

/-- **Every description of a klass fits the staging buffer.** -/
def Klass.FitsStaging (K : Klass) : Prop :=
  20 + 4 + (K.typeName.bytes.length + 1) + 1 ≤ registryListenerBuffSize ∧
    ∀ info ∈ K.fields.infos,
      20 + 4 + (info.fieldType.bytes.length + 1) + (info.fieldName.bytes.length + 1) + 8 + 1 ≤
        registryListenerBuffSize

/-! ### The chunks spell the metadata -/

theorem getSize_klassInfoEvent (s : Stamp) (i : ℕ) (K : Klass) :
    (klassInfoEvent s i K).getSize = 20 + 4 + (K.typeName.bytes.length + 1) + 1 := by
  change (4 + 8 + 8) + (4 + (K.typeName.bytes.length + 1 + (1 + 0))) = _
  omega

theorem getSize_fieldInfoEvent (s : Stamp) (i : ℕ) (info : FieldInfo) :
    (fieldInfoEvent s i info).getSize =
      20 + 4 + (info.fieldType.bytes.length + 1) + (info.fieldName.bytes.length + 1) + 8 + 1 := by
  change (4 + 8 + 8) + (4 + (info.fieldType.bytes.length + 1 +
    (info.fieldName.bytes.length + 1 + (8 + (1 + 0))))) = _
  omega

/-- The form in which an event is written: its serialized form, or its bytes in memory. -/
def Host.form (H : Host) (serialize : Bool) (e : Instance) : List UInt8 :=
  if serialize then e.encode H.order else H.objectBytes e

theorem Host.length_form (H : Host) (serialize : Bool) (e : Instance) :
    (H.form serialize e).length = if serialize then e.getSize else e.klass.size := by
  cases serialize with
  | true => exact e.length_encode H.order
  | false => exact H.length_objectBytes e

/-- **An event is written in its form**, and the rest of the buffer is left alone. -/
theorem serializeEventToBuffer_eq (H : Host) {serialize : Bool} {e : Instance}
    (hbase : e.klass.fields.BaseFirst) {buffer : List UInt8}
    (hroom : (H.form serialize e).length ≤ buffer.length) :
    serializeEventToBuffer H e buffer serialize = ((H.form serialize e).length,
      H.form serialize e ++ buffer.drop (H.form serialize e).length) := by
  cases serialize with
  | true =>
    have hsize : e.getSize ≤ buffer.length := by rwa [← e.length_encode H.order]
    have hserialize := e.klass.fields.serialize_eq H.order hbase e.val hsize
    rw [serializeEventToBuffer, if_pos rfl, hserialize, H.length_form, if_pos rfl]
    rfl
  | false =>
    rw [serializeEventToBuffer, if_neg Bool.false_ne_true, blit_zero, H.length_form,
      if_neg Bool.false_ne_true, H.length_objectBytes]
    rfl

/-- One round of the staging loops. -/
def Staging.stage (H : Host) (serialize : Bool) (st : Staging) (e : Instance) : Staging :=
  st.pushEvent H serialize e

/-- The room check: what is staged is handed over if the event does not fit behind it. -/
def Staging.checkRoom (e : Instance) (st : Staging) : Staging :=
  if e.getSize > subSizeT registryListenerBuffSize st.dataPos then st.handOver else st

/-- **After the room check the form fits.** -/
def Staging.FormFits (H : Host) (serialize : Bool) (st : Staging) (e : Instance) : Prop :=
  (st.checkRoom e).dataPos + (H.form serialize e).length ≤ registryListenerBuffSize

instance (H : Host) (serialize : Bool) (st : Staging) (e : Instance) :
    Decidable (st.FormFits H serialize e) := Nat.decLe _ _

/-- **The staging invariant**: the buffer has kept its length, the position is inside, the chunks
handed over are groups of whole events, and so is what is staged. -/
structure Staging.Groups (H : Host) (serialize : Bool) (st : Staging)
    (groups : List (List Instance)) (current : List Instance) : Prop where
  length_data : st.data.length = registryListenerBuffSize
  dataPos_le : st.dataPos ≤ registryListenerBuffSize
  chunks : st.chunks = groups.map fun g => g.flatMap (H.form serialize)
  staged : st.data.take st.dataPos = current.flatMap (H.form serialize)
  current : st.dataPos = 0 → current = []
  totalSize : st.totalSize = (st.chunks.map List.length).sum

section Groups

variable {H : Host} {serialize : Bool} {st : Staging} {groups : List (List Instance)}
  {current : List Instance} {e : Instance}

theorem Staging.Groups.handOver (h : st.Groups H serialize groups current) :
    st.handOver.Groups H serialize (groups ++ [current]) [] where
  length_data := h.length_data
  dataPos_le := Nat.zero_le _
  chunks := by
    rw [List.map_append, ← h.chunks, List.map_singleton, ← h.staged]
    rfl
  staged := rfl
  current _ := rfl
  totalSize := by
    have hlen : (st.data.take st.dataPos).length = st.dataPos :=
      List.length_take_of_le (h.length_data.symm ▸ h.dataPos_le)
    simp only [Staging.handOver, List.map_append, List.sum_append, List.map_singleton,
      List.sum_singleton, h.totalSize, hlen]

theorem Staging.Groups.checkRoom (h : st.Groups H serialize groups current) (e : Instance) :
    ∃ groups' current', (st.checkRoom e).Groups H serialize groups' current' ∧
      groups'.flatten ++ current' = groups.flatten ++ current := by
  rw [Staging.checkRoom]
  split
  · exact ⟨_, _, h.handOver, by simp⟩
  · exact ⟨_, _, h, rfl⟩

/-- **Staging one event keeps the invariant**, whichever side of the room check it falls on. -/
theorem Staging.Groups.pushEvent (h : st.Groups H serialize groups current)
    (hbase : e.klass.fields.BaseFirst) (hform : 0 < (H.form serialize e).length)
    (hfit : st.FormFits H serialize e) :
    ∃ groups' current', (st.pushEvent H serialize e).Groups H serialize groups' current' ∧
      groups'.flatten ++ current' = groups.flatten ++ current ++ [e] := by
  obtain ⟨groups', current', hst, hevents⟩ := h.checkRoom e
  have hpush : st.pushEvent H serialize e =
      { st.checkRoom e with
        data := (st.checkRoom e).data.take (st.checkRoom e).dataPos ++
          (serializeEventToBuffer H e ((st.checkRoom e).data.drop (st.checkRoom e).dataPos)
            serialize).2
        dataPos := (st.checkRoom e).dataPos +
          (serializeEventToBuffer H e ((st.checkRoom e).data.drop (st.checkRoom e).dataPos)
            serialize).1
        drawn := (st.checkRoom e).drawn + 1 } := rfl
  rw [Staging.FormFits] at hfit
  generalize st.checkRoom e = st' at hst hfit hpush
  have hd := hst.length_data
  have hp := hst.dataPos_le
  have hroom : (H.form serialize e).length ≤ (st'.data.drop st'.dataPos).length := by
    rw [List.length_drop]
    omega
  rw [serializeEventToBuffer_eq H hbase hroom] at hpush
  have htake : (st'.data.take st'.dataPos).length = st'.dataPos := List.length_take_of_le (by omega)
  rw [hpush]
  refine ⟨groups', current' ++ [e], ⟨?_, hfit, hst.chunks, ?_, fun hzero => ?_, hst.totalSize⟩, ?_⟩
  · simp only [List.length_append, htake, List.length_drop]
    omega
  · have hsplit : st'.dataPos + (H.form serialize e).length =
        (st'.data.take st'.dataPos ++ H.form serialize e).length := by
      rw [List.length_append, htake]
    simp only [List.flatMap_append, List.flatMap_singleton]
    rw [← hst.staged, ← List.append_assoc, hsplit, List.take_left]
  · change st'.dataPos + (H.form serialize e).length = 0 at hzero
    omega
  · rw [← List.append_assoc, hevents]

end Groups

/-- One of the events that describe a klass. -/
def Instance.IsDescription (e : Instance) : Prop :=
  (∃ s i K, e = klassInfoEvent s i K) ∨ ∃ s i info, e = fieldInfoEvent s i info

theorem Instance.IsDescription.baseFirst {e : Instance} (h : e.IsDescription) :
    e.klass.fields.BaseFirst := by
  rcases h with ⟨s, i, K, rfl⟩ | ⟨s, i, info, rfl⟩
  · exact ⟨trivial, trivial⟩
  · exact ⟨trivial, trivial⟩

theorem Instance.IsDescription.getSize_pos {e : Instance} (h : e.IsDescription) :
    0 < e.getSize := by
  rcases h with ⟨s, i, K, rfl⟩ | ⟨s, i, info, rfl⟩
  · rw [getSize_klassInfoEvent]
    omega
  · rw [getSize_fieldInfoEvent]
    omega

/-- The structs are small, and no form is empty. -/
theorem Instance.IsDescription.length_form {e : Instance} (h : e.IsDescription) (H : Host)
    (serialize : Bool) :
    0 < (H.form serialize e).length ∧ e.klass.size ≤ registryListenerBuffSize := by
  have hsize : 0 < e.klass.size ∧ e.klass.size ≤ registryListenerBuffSize := by
    rcases h with ⟨s, i, K, rfl⟩ | ⟨s, i, info, rfl⟩
    · exact (by decide : 0 < 48 ∧ 48 ≤ 4096)
    · exact (by decide : 0 < 64 ∧ 64 ≤ 4096)
  rw [H.length_form]
  cases serialize
  · exact hsize
  · exact ⟨h.getSize_pos, hsize.2⟩

section Descriptions

theorem mem_fieldDescriptions (stamps : ℕ → Stamp) (i n : ℕ) {infos : List FieldInfo}
    {info : FieldInfo} (h : info ∈ infos) :
    ∃ s, fieldInfoEvent s i info ∈ fieldDescriptions stamps i n infos := by
  induction infos generalizing n with
  | nil => cases h
  | cons info' infos ih =>
    rcases List.mem_cons.mp h with rfl | h
    · exact ⟨stamps n, List.mem_cons_self⟩
    · obtain ⟨s, hs⟩ := ih (n + 1) h
      exact ⟨s, List.mem_cons_of_mem _ hs⟩

/-- The descriptions of a list of klasses describe each of them. -/
theorem mem_descriptions (stamps : ℕ → Stamp) (j n : ℕ) {Ks : List Klass} {i : ℕ} {K : Klass}
    (h : Ks[i]? = some K) :
    (∃ s, klassInfoEvent s (j + i) K ∈ descriptions stamps j n Ks) ∧
      ∀ info ∈ K.fields.infos, ∃ s, fieldInfoEvent s (j + i) info ∈ descriptions stamps j n Ks := by
  induction Ks generalizing i j n with
  | nil => cases h
  | cons K' Ks ih =>
    rw [descriptions]
    cases i with
    | zero =>
      obtain rfl : K' = K := Option.some.inj h
      refine ⟨⟨stamps n, List.mem_append_left _ List.mem_cons_self⟩, fun info hinfo => ?_⟩
      obtain ⟨s, hs⟩ := mem_fieldDescriptions stamps j (n + 1) hinfo
      exact ⟨s, List.mem_append_left _ (List.mem_cons_of_mem _ hs)⟩
    | succ i =>
      obtain ⟨⟨s, hs⟩, hinfos⟩ := ih (j + 1) (n + (K'.fields.infos.length + 1)) h
      have hj : j + 1 + i = j + (i + 1) := by omega
      rw [hj] at hs hinfos
      refine ⟨⟨s, List.mem_append_right _ hs⟩, fun info hinfo => ?_⟩
      obtain ⟨s', hs'⟩ := hinfos info hinfo
      exact ⟨s', List.mem_append_right _ hs'⟩

variable {stamps : ℕ → Stamp}

theorem eq_of_mem_fieldDescriptions {i n : ℕ} {infos : List FieldInfo} {e : Instance}
    (he : e ∈ fieldDescriptions stamps i n infos) :
    ∃ s, ∃ info ∈ infos, e = fieldInfoEvent s i info := by
  induction infos generalizing n with
  | nil => cases he
  | cons info infos ih =>
    rcases List.mem_cons.mp he with rfl | he
    · exact ⟨_, info, List.mem_cons_self, rfl⟩
    · obtain ⟨s, info', hmem, heq⟩ := ih he
      exact ⟨s, info', List.mem_cons_of_mem _ hmem, heq⟩

/-- What is in the descriptions. -/
theorem eq_of_mem_descriptions {i n : ℕ} {Ks : List Klass} {e : Instance}
    (he : e ∈ descriptions stamps i n Ks) :
    ∃ K ∈ Ks, ∃ s j, e = klassInfoEvent s j K ∨
      ∃ info ∈ K.fields.infos, e = fieldInfoEvent s j info := by
  induction Ks generalizing i n with
  | nil => cases he
  | cons K Ks ih =>
    rcases List.mem_append.mp he with he | he
    · refine ⟨K, List.mem_cons_self, ?_⟩
      rcases List.mem_cons.mp he with rfl | he
      · exact ⟨_, _, .inl rfl⟩
      · obtain ⟨s, info, hmem, heq⟩ := eq_of_mem_fieldDescriptions he
        exact ⟨s, i, .inr ⟨info, hmem, heq⟩⟩
    · obtain ⟨K', hmem, hrest⟩ := ih he
      exact ⟨K', List.mem_cons_of_mem _ hmem, hrest⟩

theorem isDescription_of_mem {i n : ℕ} {Ks : List Klass} {e : Instance}
    (he : e ∈ descriptions stamps i n Ks) : e.IsDescription := by
  obtain ⟨K, -, s, j, heq | ⟨info, -, heq⟩⟩ := eq_of_mem_descriptions he
  · exact .inl ⟨s, j, K, heq⟩
  · exact .inr ⟨s, j, info, heq⟩

/-- The descriptions fit the empty buffer exactly if the names are short enough. -/
theorem forall_getSize_le_iff (stamps : ℕ → Stamp) (registry : List Klass) :
    (∀ e ∈ descriptions stamps 0 0 registry, e.getSize ≤ registryListenerBuffSize) ↔
      ∀ K ∈ registry, K.FitsStaging := by
  constructor
  · intro h K hK
    obtain ⟨i, hi⟩ := List.getElem?_of_mem hK
    obtain ⟨⟨s, hs⟩, hinfos⟩ := mem_descriptions stamps 0 0 hi
    refine ⟨(getSize_klassInfoEvent ..).symm.trans_le (h _ hs), fun info hinfo => ?_⟩
    obtain ⟨s', hs'⟩ := hinfos info hinfo
    exact (getSize_fieldInfoEvent ..).symm.trans_le (h _ hs')
  · intro hfit e he
    obtain ⟨K, hK, s, j, rfl | ⟨info, hinfo, rfl⟩⟩ := eq_of_mem_descriptions he
    · rw [getSize_klassInfoEvent]
      exact (hfit K hK).1
    · rw [getSize_fieldInfoEvent]
      exact (hfit K hK).2 info hinfo

theorem drawn_stage (H : Host) (serialize : Bool) (st : Staging) (e : Instance) :
    (st.stage H serialize e).drawn = st.drawn + 1 := by
  change (st.checkRoom e).drawn + 1 = _
  rw [Staging.checkRoom]
  split <;> rfl

@[simp] theorem length_fieldDescriptions (stamps : ℕ → Stamp) (i n : ℕ) (infos : List FieldInfo) :
    (fieldDescriptions stamps i n infos).length = infos.length := by
  induction infos generalizing n with
  | nil => rfl
  | cons info infos ih => simp [fieldDescriptions, ih]

theorem foldl_pushFields (H : Host) (serialize : Bool) (i : ℕ) (infos : List FieldInfo)
    (st : Staging) :
    infos.foldl (fun st info => st.pushEvent H serialize (fieldInfoEvent (stamps st.drawn) i info))
        st =
      runFrom (Staging.stage H serialize) st (fieldDescriptions stamps i st.drawn infos) := by
  induction infos generalizing st with
  | nil => rfl
  | cons info infos ih =>
    rw [List.foldl_cons, ih, fieldDescriptions, runFrom_cons, ← drawn_stage H serialize st]
    rfl

theorem drawn_runFrom (H : Host) (serialize : Bool) (es : List Instance) (st : Staging) :
    (runFrom (Staging.stage H serialize) st es).drawn = st.drawn + es.length := by
  induction es generalizing st with
  | nil => rfl
  | cons e es ih =>
    rw [runFrom_cons, ih, drawn_stage, List.length_cons]
    omega

/-- **The loops stage the descriptions one after another.** -/
theorem pushKlassesFrom_eq (H : Host) (serialize : Bool) (i : ℕ) (Ks : List Klass) (st : Staging) :
    pushKlassesFrom H stamps serialize i Ks st =
      runFrom (Staging.stage H serialize) st (descriptions stamps i st.drawn Ks) := by
  induction Ks generalizing i st with
  | nil => rfl
  | cons K Ks ih =>
    have hclass : pushClassToListener H stamps serialize st i K =
        runFrom (Staging.stage H serialize) st (klassDescriptions stamps i st.drawn K) := by
      rw [pushClassToListener, foldl_pushFields, klassDescriptions, runFrom_cons,
        ← drawn_stage H serialize st]
      rfl
    rw [pushKlassesFrom, ih, hclass, drawn_runFrom, descriptions, runFrom, runFrom, runFrom,
      List.foldl_append, klassDescriptions, List.length_cons, length_fieldDescriptions]

/-- **The run lemma**: if all forms fit, the chunks are groups of whole events. -/
theorem Staging.Groups.run {H : Host} {serialize : Bool} {es : List Instance}
    (hes : ∀ e ∈ es, e.IsDescription) {st : Staging} {groups : List (List Instance)}
    {current : List Instance} (h : st.Groups H serialize groups current)
    (hfit : StepsMeet (Staging.stage H serialize)
      (Staging.FormFits H serialize) st es) :
    ∃ groups' current', (runFrom (Staging.stage H serialize) st es).Groups
        H serialize groups' current' ∧
      groups'.flatten ++ current' = groups.flatten ++ current ++ es := by
  induction es generalizing st groups current with
  | nil => exact ⟨groups, current, h, (List.append_nil _).symm⟩
  | cons e es ih =>
    obtain ⟨he, hes⟩ := List.forall_mem_cons.mp hes
    obtain ⟨groups', current', h', hevents⟩ :=
      h.pushEvent he.baseFirst (he.length_form H serialize).1 hfit.1
    obtain ⟨groups'', current'', h'', hevents'⟩ := ih hes h' hfit.2
    refine ⟨groups'', current'', h'', ?_⟩
    rw [hevents', hevents, List.append_assoc, List.singleton_append]

/-- The buffer before anything is staged. -/
def Staging.start : Staging := ⟨List.replicate registryListenerBuffSize 0, 0, [], 0, 0⟩

theorem Staging.groups_start (H : Host) (serialize : Bool) :
    Staging.start.Groups H serialize [] [] :=
  ⟨List.length_replicate, Nat.zero_le _, rfl, rfl, fun _ => rfl, rfl⟩

/-- **All events are handed over in groups of whole events**, if all forms fit. -/
theorem exists_groups {H : Host} {serialize : Bool} {registry : List Klass}
    (hfit : StepsMeet (Staging.stage H serialize)
      (Staging.FormFits H serialize) .start (descriptions stamps 0 0 registry)) :
    ∃ groups : List (List Instance), groups.flatten = descriptions stamps 0 0 registry ∧
      (pushRegistryKlassesToListener H stamps serialize registry).1 =
        groups.map (fun g => g.flatMap (H.form serialize)) ∧
      (pushRegistryKlassesToListener H stamps serialize registry).2 =
        ((pushRegistryKlassesToListener H stamps serialize registry).1.map List.length).sum := by
  obtain ⟨groups, current, h, hevents⟩ := (Staging.groups_start H serialize).run
    (fun e he => isDescription_of_mem he) hfit
  rw [List.flatten_nil, List.nil_append, List.nil_append] at hevents
  have hloop : pushKlassesFrom H stamps serialize 0 registry .start =
      runFrom (Staging.stage H serialize) .start (descriptions stamps 0 0 registry) :=
    pushKlassesFrom_eq H serialize 0 registry .start
  have hpush : pushRegistryKlassesToListener H stamps serialize registry =
      let st := pushKlassesFrom H stamps serialize 0 registry .start
      let st := if st.dataPos > 0 then st.handOver else st
      (st.chunks, st.totalSize) := rfl
  rw [hpush, hloop]
  generalize runFrom (Staging.stage H serialize) .start _ = st at h ⊢
  by_cases hpos : st.dataPos > 0
  · simp only [if_pos hpos]
    refine ⟨groups ++ [current], ?_, h.handOver.chunks, h.handOver.totalSize⟩
    rw [List.flatten_append, List.flatten_singleton, hevents]
  · simp only [if_neg hpos]
    rw [h.current (by omega), List.append_nil] at hevents
    exact ⟨groups, hevents, h.chunks, h.totalSize⟩

/-- A serialized event that fits an empty buffer fits after the room check. -/
theorem Staging.formFits_of_getSize_le {H : Host} {st : Staging} {e : Instance}
    (hpos : st.dataPos ≤ registryListenerBuffSize) (hsize : e.getSize ≤ registryListenerBuffSize) :
    st.FormFits H true e := by
  rw [Staging.FormFits, H.length_form, if_pos rfl, Staging.checkRoom,
    subSizeT_of_le hpos (by decide)]
  split
  · exact (Nat.zero_add _).trans_le hsize
  · omega

theorem Staging.Groups.stepsMeet_of_getSize_le {H : Host} {es : List Instance}
    (hes : ∀ e ∈ es, e.IsDescription) (hsize : ∀ e ∈ es, e.getSize ≤ registryListenerBuffSize)
    {st : Staging} {groups : List (List Instance)} {current : List Instance}
    (h : st.Groups H true groups current) :
    StepsMeet (Staging.stage H true) (Staging.FormFits H true) st es := by
  induction es generalizing st groups current with
  | nil => trivial
  | cons e es ih =>
    obtain ⟨he, hes⟩ := List.forall_mem_cons.mp hes
    obtain ⟨hsize, hsizes⟩ := List.forall_mem_cons.mp hsize
    have hfit := Staging.formFits_of_getSize_le (H := H) h.dataPos_le hsize
    obtain ⟨_, _, h', -⟩ := h.pushEvent he.baseFirst (he.length_form H true).1 hfit
    exact ⟨hfit, ih hes hsizes h'⟩

/-- **The staged chunks spell the descriptions of the registry.** -/
theorem flatten_pushRegistryKlassesToListener (H : Host) (stamps : ℕ → Stamp)
    {registry : List Klass} (hfit : ∀ K ∈ registry, K.FitsStaging) :
    (pushRegistryKlassesToListener H stamps true registry).1.flatten =
      (descriptions stamps 0 0 registry).flatMap (Instance.encode H.order) := by
  have hmeet := (Staging.groups_start H true).stepsMeet_of_getSize_le
    (fun e he => isDescription_of_mem he) ((forall_getSize_le_iff stamps registry).mpr hfit)
  obtain ⟨groups, hgroups, hchunks, -⟩ := exists_groups hmeet
  rw [hchunks, ← List.flatMap_def, ← List.flatMap_assoc, List.flatMap_id', hgroups]
  rfl

end Descriptions

theorem pushInfoToListener_eq (H : Host) {e : Instance} (hbase : e.klass.fields.BaseFirst)
    (hsize : e.getSize ≤ 64) : pushInfoToListener H true e = (e.encode H.order, e.getSize) := by
  have hser : serializeEventToBuffer H e (List.replicate 64 0) true =
      (e.getSize, e.encode H.order ++ (List.replicate 64 0).drop e.getSize) := by
    rw [serializeEventToBuffer, if_pos rfl]
    exact e.klass.fields.serialize_eq H.order hbase e.val
      (by rw [List.length_replicate]; exact hsize)
  simp only [pushInfoToListener, hser]
  rw [← Instance.length_encode H.order e, List.take_left]

/-- **The metadata chunks spell the metadata events**: where the staging buffer is cut
leaves no trace in the bytes. -/
theorem flatten_pushMetadata (H : Host) (stamps : ℕ → Stamp) {registry : List Klass}
    (hfit : ∀ K ∈ registry, K.FitsStaging) :
    (pushMetadata H stamps true registry).1.flatten =
      (metadataEvents H stamps registry).flatMap (Instance.encode H.order) := by
  have hend : (endiannessInfoEvent H).getSize ≤ 64 := by
    change 21 ≤ 64
    decide
  have hsys : (systemInfoEvent H).getSize ≤ 64 := by
    change 23 ≤ 64
    decide
  have h1 := pushInfoToListener_eq H (e := endiannessInfoEvent H) ⟨trivial, trivial⟩ hend
  have h2 := pushInfoToListener_eq H (e := systemInfoEvent H) ⟨trivial, trivial⟩ hsys
  simp only [pushMetadata, h1, h2, metadataEvents]
  simp [flatten_pushRegistryKlassesToListener H stamps hfit]

end HawkTracer.Lib
