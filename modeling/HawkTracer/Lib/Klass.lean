import HawkTracer.Base.Bytes

/-!
# Event klasses and their generated functions

`HT_DECLARE_EVENT_KLASS` turns one list of fields into a C struct, its reflection
data, and two functions that walk the fields independently: `get_size`, which adds
up what each field will take in the stream, and `serialize`, which writes the
fields one after another into a buffer while threading an offset.

A klass is modelled by the tree of its fields (`HawkTracer.Lib.Fields`): a scalar
field, or a `STRUCT` field that embeds the fields of another klass, followed by the
remaining ones; `htEvent` is the one klass whose functions are written by hand
(`events.c`). The macros always put `(STRUCT, BASE_TYPE, base)` first, so
inheritance is a `STRUCT` field in first position. An object of a klass is a tree
of the same shape (`HawkTracer.Lib.Fields.Inst`), so that an object with a missing
field or an integer of the wrong width cannot be written down.

`HawkTracer.Lib.Fields.serialize` follows the macro literally, the address a nested
`STRUCT` is written to included: a nested writer is given the start of the buffer,
not the current offset. `HawkTracer.Lib.Fields.encode` is what the function is for,
the concatenation of the fields' own encodings. The two agree on the klasses in
which a `STRUCT` stands nowhere but in first position
(`HawkTracer.Lib.Fields.serialize_eq`).
-/

namespace HawkTracer

/-! ### C strings -/

/-- The bytes of a C string before its terminator; none of them is zero. -/
structure CString where
  /-- The bytes, without the terminator. -/
  bytes : List UInt8
  /-- The terminator is not one of them. -/
  nonzero : (0 : UInt8) ∉ bytes
  deriving DecidableEq

theorem CString.bytes_injective : Function.Injective CString.bytes := by
  rintro ⟨bs, _⟩ ⟨bs', _⟩ rfl
  rfl

/-- The bytes of a source literal. -/
def ascii (s : String) : List UInt8 := s.toList.map fun c => UInt8.ofNat c.toNat

/-- A source literal as a C string. -/
def cstr (s : String) (h : (ascii s).contains 0 = false := by exact Eq.refl false) : CString :=
  ⟨ascii s, by simpa using h⟩

namespace Lib

/-! ### Reflection data -/

/-- `MKCREFLECT_Types`. -/
inductive MkcreflectTypes where
  | struct | string | integer | float | double | pointer
  deriving DecidableEq, Repr

/-- The value of the C enumerator. -/
def MkcreflectTypes.code : MkcreflectTypes → ℕ
  | .struct => 1
  | .string => 2
  | .integer => 3
  | .float => 4
  | .double => 5
  | .pointer => 6

/-- `MKCREFLECT_FieldInfo`, less the two members no modelled function reads
(`offset` and `array_size`). -/
structure FieldInfo where
  fieldType : CString
  fieldName : CString
  size : ℕ
  isSigned : Bool
  dataType : MkcreflectTypes
  deriving DecidableEq

/-- `sizeof(void*)` on the LP64 platforms the library is built for. -/
def sizeofPointer : ℕ := 8

/-! ### Fields and objects -/

/-- The kinds of fields that are not structs. An integer type carries the value of
`MKCREFLECT_IS_TYPE_SIGNED_`. -/
inductive ScalarType where
  | integer (isSigned : Bool) | pointer | double | string
  deriving DecidableEq, Repr

/-- One scalar field of a declaration, with the `sizeof` of its C type. -/
structure FieldDecl where
  type : ScalarType
  cType : CString
  fieldName : CString
  size : ℕ
  deriving DecidableEq

/-- The fields of a klass in the order of the declaration. -/
inductive Fields where
  /-- `HT_Event`, the root of every klass. -/
  | htEvent : Fields
  /-- No further field. -/
  | nil : Fields
  /-- A scalar field, then the rest. -/
  | field (f : FieldDecl) (rest : Fields) : Fields
  /-- A `STRUCT` field embedding the fields `sub` of the klass `cType`, then the
  rest. -/
  | struct (cType fieldName : CString) (size : ℕ) (sub rest : Fields) : Fields
  deriving DecidableEq

/-- The content of an `HT_Event`. The `klass` pointer is represented by the
`klass_id` it leads to, which is all that is ever read through it when the event is
written. -/
structure HTEvent where
  klassId : UInt32
  timestamp : UInt64
  id : UInt64
  deriving DecidableEq

/-- The values of a scalar field of the given `sizeof`: a bit pattern, or a
possibly `NULL` string. -/
def ScalarType.Val : ScalarType → ℕ → Type
  | .string, _ => Option CString
  | _, n => BitVec (8 * n)

/-- The objects of a klass. -/
def Fields.Inst : Fields → Type
  | .htEvent => HTEvent
  | .nil => Unit
  | .field f rest => f.type.Val f.size × rest.Inst
  | .struct _ _ _ sub rest => sub.Inst × rest.Inst

/-- The reflection data of a scalar field. -/
def FieldDecl.info (f : FieldDecl) : FieldInfo where
  fieldType := f.cType
  fieldName := f.fieldName
  size := f.size
  isSigned := match f.type with
    | .integer s => s
    | _ => false
  dataType := match f.type with
    | .integer _ => .integer
    | .pointer => .pointer
    | .double => .double
    | .string => .string

/-- `type_info->fields`. -/
def Fields.infos : Fields → List FieldInfo
  | .htEvent =>
    [⟨cstr "HT_EventKlass*", cstr "klass", sizeofPointer, false, .pointer⟩,
     ⟨cstr "HT_TimestampNs", cstr "timestamp", 8, false, .integer⟩,
     ⟨cstr "HT_EventId", cstr "id", 8, false, .integer⟩]
  | .nil => []
  | .field f rest => f.info :: rest.infos
  | .struct cType fieldName size _ rest =>
    ⟨cType, fieldName, size, false, .struct⟩ :: rest.infos

/-- An event klass as declared: the struct's name, its fields and its `sizeof`. C
does not allow two members of a struct to share a name. -/
structure Klass where
  typeName : CString
  fields : Fields
  size : ℕ
  nodup : (fields.infos.map FieldInfo.fieldName).Nodup

/-! ### `get_size` and `serialize` -/

/-- `HT_EVENT_RUNTIME_SIZEOF_*` of a scalar field: a string takes its bytes and a
terminator, and a `NULL` string takes nothing. -/
def ScalarType.runtimeSizeof : (t : ScalarType) → (n : ℕ) → t.Val n → ℕ
  | .string, _, some s => s.bytes.length + 1
  | .string, _, none => 0
  | .integer _, n, _ => n
  | .pointer, n, _ => n
  | .double, n, _ => n

/-- The bytes `HT_EVENT_RUNTIME_SERIALIZE_*` copies for a scalar field, on a host of
byte order `o`. -/
def ScalarType.encode (o : ByteOrder) : (t : ScalarType) → (n : ℕ) → t.Val n → List UInt8
  | .string, _, some s => s.bytes ++ [0]
  | .string, _, none => []
  | .integer _, n, v => toBytes o n v.toNat
  | .pointer, n, v => toBytes o n v.toNat
  | .double, n, v => toBytes o n v.toNat

/-- `get_size`. -/
def Fields.getSize : (fs : Fields) → fs.Inst → ℕ
  | .htEvent, _ => 4 + 8 + 8
  | .nil, _ => 0
  | .field f rest, (v, vs) => f.type.runtimeSizeof f.size v + rest.getSize vs
  | .struct _ _ _ sub rest, (v, vs) => sub.getSize v + rest.getSize vs

/-- The body of `serialize`, from the field at which `offset` bytes have been
counted: the new offset and the buffer. A nested `STRUCT` is handed the start of the
same buffer, whatever the offset. -/
def Fields.serializeFrom (o : ByteOrder) :
    (fs : Fields) → fs.Inst → ℕ → List UInt8 → ℕ × List UInt8
  | .htEvent, e, offset, buffer =>
    let buffer := blit buffer offset (toBytes o 4 e.klassId.toNat)
    let buffer := blit buffer (offset + 4) (toBytes o 8 e.timestamp.toNat)
    (offset + 4 + 8 + 8, blit buffer (offset + 4 + 8) (toBytes o 8 e.id.toNat))
  | .nil, _, offset, buffer => (offset, buffer)
  | .field f rest, (v, vs), offset, buffer =>
    let bs := f.type.encode o f.size v
    rest.serializeFrom o vs (offset + bs.length) (blit buffer offset bs)
  | .struct _ _ _ sub rest, (v, vs), offset, buffer =>
    let r := sub.serializeFrom o v 0 buffer
    rest.serializeFrom o vs (offset + r.1) r.2

/-- `serialize`: the number of bytes written and the buffer. -/
def Fields.serialize (o : ByteOrder) (fs : Fields) (v : fs.Inst) (buffer : List UInt8) :
    ℕ × List UInt8 :=
  fs.serializeFrom o v 0 buffer

/-! ### What serialization is for -/

/-- The bytes of an `HT_Event`. -/
def HTEvent.encode (o : ByteOrder) (e : HTEvent) : List UInt8 :=
  toBytes o 4 e.klassId.toNat ++ toBytes o 8 e.timestamp.toNat ++ toBytes o 8 e.id.toNat

/-- **The serialized form of an object**: the concatenation of its fields' own
encodings, in the order of the declaration. -/
def Fields.encode (o : ByteOrder) : (fs : Fields) → fs.Inst → List UInt8
  | .htEvent, e => e.encode o
  | .nil, _ => []
  | .field f rest, (v, vs) => f.type.encode o f.size v ++ rest.encode o vs
  | .struct _ _ _ sub rest, (v, vs) => sub.encode o v ++ rest.encode o vs

/-- Only scalar fields. -/
def Fields.Scalars : Fields → Prop
  | .htEvent => False
  | .nil => True
  | .field _ rest => rest.Scalars
  | .struct .. => False

/-- A `STRUCT` stands in first position only, at every level. -/
def Fields.BaseFirst : Fields → Prop
  | .htEvent => True
  | .nil => True
  | .field _ rest => rest.Scalars
  | .struct _ _ _ sub rest => sub.BaseFirst ∧ rest.Scalars

@[simp] theorem HTEvent.length_encode (o : ByteOrder) (e : HTEvent) : (e.encode o).length = 20 := by
  simp [HTEvent.encode]

theorem ScalarType.length_encode (o : ByteOrder) (t : ScalarType) (n : ℕ) (v : t.Val n) :
    (t.encode o n v).length = t.runtimeSizeof n v := by
  cases t with
  | string => cases v <;> simp [ScalarType.encode, ScalarType.runtimeSizeof]
  | _ => simp [ScalarType.encode, ScalarType.runtimeSizeof]

/-- **`get_size` is the length of the serialized form**, for every klass. -/
theorem Fields.length_encode (o : ByteOrder) (fs : Fields) (v : fs.Inst) :
    (fs.encode o v).length = fs.getSize v := by
  induction fs with
  | htEvent => exact HTEvent.length_encode o v
  | nil => rfl
  | field f rest ih =>
    obtain ⟨v, vs⟩ := v
    simp [Fields.encode, Fields.getSize, ih, ScalarType.length_encode]
  | struct cType fieldName size sub rest ihs ihr =>
    obtain ⟨v, vs⟩ := v
    simp [Fields.encode, Fields.getSize, ihs, ihr]

/-- **`serialize` counts as `get_size` does**, whether there is room or not. -/
theorem Fields.serializeFrom_fst (o : ByteOrder) (fs : Fields) (v : fs.Inst) (offset : ℕ)
    (buffer : List UInt8) : (fs.serializeFrom o v offset buffer).1 = offset + fs.getSize v := by
  induction fs generalizing offset buffer with
  | htEvent => rfl
  | nil => rfl
  | field f rest ih =>
    obtain ⟨v, vs⟩ := v
    rw [Fields.serializeFrom, ih, ScalarType.length_encode, Fields.getSize, Nat.add_assoc]
  | struct cType fieldName size sub rest ihs ihr =>
    obtain ⟨v, vs⟩ := v
    simp only [Fields.serializeFrom, Fields.getSize]
    rw [ihr, ihs, Nat.zero_add, Nat.add_assoc]

/-- The header is copied to the offset. -/
theorem Fields.serializeFrom_htEvent (o : ByteOrder) (e : HTEvent) {offset : ℕ}
    {buffer : List UInt8} (hroom : offset ≤ buffer.length) :
    Fields.htEvent.serializeFrom o e offset buffer =
      (offset + 20, blit buffer offset (e.encode o)) := by
  have h1 := blit_blit hroom (toBytes o 4 e.klassId.toNat) (toBytes o 8 e.timestamp.toNat)
  have h2 := blit_blit hroom (toBytes o 4 e.klassId.toNat ++ toBytes o 8 e.timestamp.toNat)
    (toBytes o 8 e.id.toNat)
  simp only [List.length_append, length_toBytes] at h1 h2
  simp only [Fields.serializeFrom, HTEvent.encode]
  rw [h1, Nat.add_assoc offset 4 8, h2]

/-- Scalar fields are copied one after another from the offset on. -/
theorem Fields.serializeFrom_scalars (o : ByteOrder) {fs : Fields} (hfs : fs.Scalars) (v : fs.Inst)
    {offset : ℕ} {buffer : List UInt8} (hroom : offset + fs.getSize v ≤ buffer.length) :
    fs.serializeFrom o v offset buffer =
      (offset + fs.getSize v, blit buffer offset (fs.encode o v)) := by
  induction fs generalizing offset buffer with
  | htEvent => exact hfs.elim
  | nil => simp [Fields.serializeFrom, Fields.getSize, Fields.encode]
  | field f rest ih =>
    obtain ⟨v, vs⟩ := v
    have hlen := ScalarType.length_encode o f.type f.size v
    simp only [Fields.getSize] at hroom ⊢
    have hblit : (blit buffer offset (f.type.encode o f.size v)).length = buffer.length :=
      length_blit (by omega)
    rw [Fields.serializeFrom, ih hfs vs (by omega), Fields.encode, blit_blit (by omega), hlen,
      Nat.add_assoc]
  | struct => exact hfs.elim

/-- **`serialize` writes the serialized form**: when a `STRUCT` stands in first
position only, `serialize` returns `get_size`, writes exactly that many bytes – the
concatenation of the fields' encodings – and leaves the rest of the buffer alone. -/
theorem Fields.serialize_eq (o : ByteOrder) {fs : Fields} (hfs : fs.BaseFirst) (v : fs.Inst)
    {buffer : List UInt8} (hroom : fs.getSize v ≤ buffer.length) :
    fs.serialize o v buffer = (fs.getSize v, fs.encode o v ++ buffer.drop (fs.getSize v)) := by
  suffices h : fs.serialize o v buffer = (fs.getSize v, blit buffer 0 (fs.encode o v)) by
    rw [h, blit_zero, Fields.length_encode]
  induction fs generalizing buffer with
  | htEvent => exact Fields.serializeFrom_htEvent o v (Nat.zero_le buffer.length)
  | nil => simp [Fields.serialize, Fields.serializeFrom, Fields.getSize, Fields.encode]
  | field f rest _ =>
    have hroom' : 0 + (Fields.field f rest).getSize v ≤ buffer.length := by omega
    have hscalars : (Fields.field f rest).Scalars := hfs
    rw [Fields.serialize, Fields.serializeFrom_scalars o hscalars v hroom', Nat.zero_add]
  | struct cType fieldName size sub rest ihs _ =>
    obtain ⟨v, vs⟩ := v
    obtain ⟨hsub, hrest⟩ := hfs
    simp only [Fields.getSize] at hroom ⊢
    -- the struct comes first, at offset 0; the scalars follow where it ends
    have hs : sub.serializeFrom o v 0 buffer = (sub.getSize v, blit buffer 0 (sub.encode o v)) :=
      ihs hsub v (by omega)
    have hlen := Fields.length_encode o sub v
    have hblit : (blit buffer 0 (sub.encode o v)).length = buffer.length := length_blit (by omega)
    have hroom' : sub.getSize v + rest.getSize vs ≤ (blit buffer 0 (sub.encode o v)).length := by
      omega
    have hr := Fields.serializeFrom_scalars o hrest vs hroom'
    have hb := blit_blit (Nat.zero_le buffer.length) (sub.encode o v) (rest.encode o vs)
    rw [Nat.zero_add, hlen] at hb
    change (rest.serializeFrom o vs (0 + (sub.serializeFrom o v 0 buffer).1)
      (sub.serializeFrom o v 0 buffer).2) = _
    rw [hs, Nat.zero_add, hr, hb, Fields.encode]

end Lib

end HawkTracer
