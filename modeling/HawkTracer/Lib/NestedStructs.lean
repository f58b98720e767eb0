import HawkTracer.Lib.Metadata

/-!
# Structs behind the first position

`HT_DECLARE_EVENT_KLASS` allows `STRUCT` fields of registered klasses anywhere, and `get_size`
counts them where they stand. `HT_EVENT_RUNTIME_SERIALIZE_STRUCT` hands the writer of the nested
klass the start of the buffer, not the current offset. For the base that is the same. Any other
struct is written over the beginning of the buffer, and the last byte of the last such struct is
written by nobody: what stands before it is shorter, what comes after it comes later, and the
struct itself ends earlier, since the base has taken its twenty bytes
(`HawkTracer.Lib.Fields.Declared.exists_untouched`).

So the writer is right exactly for the klasses that have no struct but their base, at every level
of their base (`HawkTracer.Lib.Fields.writesFields_iff`).
-/

namespace HawkTracer.Lib

namespace Fields

mutual

/-- A klass as `HT_DECLARE_EVENT_KLASS` makes it: the base first, and then further fields. -/
def Declared : Fields → Prop
  | .htEvent => True
  | .nil => False
  | .field _ _ => False
  | .struct _ _ _ sub rest => sub.Declared ∧ rest.OfDeclared

/-- Fields of which the structs are klasses themselves. -/
def OfDeclared : Fields → Prop
  | .htEvent => False
  | .nil => True
  | .field _ rest => rest.OfDeclared
  | .struct _ _ _ sub rest => sub.Declared ∧ rest.OfDeclared

end

/-- **`serialize` writes the fields one after another**: it returns `get_size`, it leaves the
bytes from there on alone, and the bytes before are the encodings of the fields. -/
structure WritesFields (o : ByteOrder) (fs : Fields) (v : fs.Inst) (buffer : List UInt8) :
    Prop where
  returns : (fs.serialize o v buffer).1 = fs.getSize v
  untouched : (fs.serialize o v buffer).2.drop (fs.getSize v) = buffer.drop (fs.getSize v)
  content : (fs.serialize o v buffer).2.take (fs.getSize v) = fs.encode o v

/-! ### What is always so -/

/-- The header of an event is twenty bytes. -/
theorem Declared.getSize_ge {fs : Fields} (h : fs.Declared) (v : fs.Inst) : 20 ≤ fs.getSize v := by
  induction fs with
  | htEvent => exact Nat.le_refl 20
  | nil => exact h.elim
  | field => exact h.elim
  | struct _ _ _ sub rest ihs _ =>
    obtain ⟨v, vs⟩ := v
    exact Nat.le_trans (ihs h.1 v) (Nat.le_add_right _ _)

/-- **`serialize` touches nothing behind** the bytes it counts. -/
theorem serializeFrom_spec (o : ByteOrder) (fs : Fields) (v : fs.Inst) {offset : ℕ}
    {buffer : List UInt8} (hroom : offset + fs.getSize v ≤ buffer.length) :
    (fs.serializeFrom o v offset buffer).2.length = buffer.length ∧
      ∀ i, offset + fs.getSize v ≤ i → (fs.serializeFrom o v offset buffer).2[i]? = buffer[i]? := by
  induction fs generalizing offset buffer with
  | htEvent =>
    have hsize : htEvent.getSize v = 20 := rfl
    have hlen := HTEvent.length_encode o v
    rw [serializeFrom_htEvent o v (by omega)]
    exact ⟨length_blit (by omega), fun i hi => getElem?_blit (by omega) (.inr (by omega))⟩
  | nil => exact ⟨rfl, fun i _ => rfl⟩
  | field f rest ih =>
    obtain ⟨v, vs⟩ := v
    have hlen := ScalarType.length_encode o f.type f.size v
    simp only [getSize] at hroom ⊢
    have hblit : (blit buffer offset (f.type.encode o f.size v)).length = buffer.length :=
      length_blit (by omega)
    obtain ⟨hlength, hbehind⟩ := @ih vs (offset + (f.type.encode o f.size v).length)
      (blit buffer offset (f.type.encode o f.size v)) (by omega)
    refine ⟨hlength.trans hblit, fun i hi => ?_⟩
    rw [serializeFrom, hbehind i (by omega), getElem?_blit (by omega) (.inr (by omega))]
  | struct _ _ _ sub rest ihs ihr =>
    obtain ⟨v, vs⟩ := v
    simp only [getSize] at hroom ⊢
    obtain ⟨hlength, hbehind⟩ := @ihs v 0 buffer (by omega)
    obtain ⟨hlength', hbehind'⟩ := @ihr vs (offset + sub.getSize v)
      (sub.serializeFrom o v 0 buffer).2 (by omega)
    simp only [serializeFrom, serializeFrom_fst, Nat.zero_add]
    refine ⟨hlength'.trans hlength, fun i hi => ?_⟩
    rw [hbehind' i (by omega), hbehind i (by omega)]

/-- A struct is written to the front of the buffer, wherever it belongs. -/
theorem serializeFrom_zero_spec (o : ByteOrder) (fs : Fields) (v : fs.Inst) {buffer : List UInt8}
    (hroom : fs.getSize v ≤ buffer.length) :
    (fs.serializeFrom o v 0 buffer).2.length = buffer.length ∧
      ∀ i, fs.getSize v ≤ i → (fs.serializeFrom o v 0 buffer).2[i]? = buffer[i]? := by
  have hspec := @serializeFrom_spec o fs v 0 buffer
  rw [Nat.zero_add] at hspec
  exact hspec hroom

/-- Scalar fields touch nothing in front of them. -/
theorem Scalars.getElem?_serializeFrom (o : ByteOrder) {fs : Fields} (hfs : fs.Scalars)
    (v : fs.Inst) {offset : ℕ} {buffer : List UInt8}
    (hroom : offset + fs.getSize v ≤ buffer.length) {i : ℕ} (hi : i < offset) :
    (fs.serializeFrom o v offset buffer).2[i]? = buffer[i]? := by
  rw [serializeFrom_scalars o hfs v hroom]
  exact getElem?_blit (by omega) (.inl hi)

/-! ### The byte that is not written -/

/-- **A struct behind the first position**: there is a byte among those of the fields that is not
written. -/
theorem OfDeclared.exists_untouched (o : ByteOrder) {fs : Fields} (hfs : fs.OfDeclared)
    (hstruct : ¬ fs.Scalars) (v : fs.Inst) {offset : ℕ} (hpos : 0 < offset) :
    ∃ i, offset ≤ i ∧ i < offset + fs.getSize v ∧
      ∀ buffer : List UInt8, offset + fs.getSize v ≤ buffer.length →
        (fs.serializeFrom o v offset buffer).2[i]? = buffer[i]? := by
  induction fs generalizing offset with
  | htEvent => exact hfs.elim
  | nil => exact absurd trivial hstruct
  | field f rest ih =>
    obtain ⟨v, vs⟩ := v
    have hlen := ScalarType.length_encode o f.type f.size v
    obtain ⟨i, hge, hlt, hkept⟩ := ih hfs hstruct vs
      (show 0 < offset + (f.type.encode o f.size v).length by omega)
    refine ⟨i, by omega, by simp only [getSize]; omega, fun buffer hroom => ?_⟩
    simp only [getSize] at hroom
    rw [serializeFrom, hkept _ (by rw [length_blit (by omega)]; omega),
      getElem?_blit (by omega) (.inr hge)]
  | struct _ _ _ sub rest _ ihr =>
    obtain ⟨v, vs⟩ := v
    have hsize := Declared.getSize_ge hfs.1 v
    by_cases hrest : rest.Scalars
    · -- this is the last struct: it ends before its own last byte
      refine ⟨offset + sub.getSize v - 1, by omega, by simp only [getSize]; omega,
        fun buffer hroom => ?_⟩
      simp only [getSize] at hroom
      obtain ⟨hlength, hbehind⟩ := sub.serializeFrom_zero_spec o v
        (show sub.getSize v ≤ buffer.length by omega)
      simp only [serializeFrom, serializeFrom_fst, Nat.zero_add]
      rw [hrest.getElem?_serializeFrom o vs (by omega) (by omega), hbehind _ (by omega)]
    · obtain ⟨i, hge, hlt, hkept⟩ := ihr hfs.2 hrest vs (show 0 < offset + sub.getSize v by omega)
      refine ⟨i, by omega, by simp only [getSize]; omega, fun buffer hroom => ?_⟩
      simp only [getSize] at hroom
      obtain ⟨hlength, hbehind⟩ := sub.serializeFrom_zero_spec o v
        (show sub.getSize v ≤ buffer.length by omega)
      simp only [serializeFrom, serializeFrom_fst, Nat.zero_add]
      rw [hkept _ (by omega), hbehind i (by omega)]

/-- **A klass with a struct that is not a base** has a byte that `serialize` does not write. -/
theorem Declared.exists_untouched (o : ByteOrder) {fs : Fields} (hfs : fs.Declared)
    (hbase : ¬ fs.BaseFirst) (v : fs.Inst) :
    ∃ i, i < fs.getSize v ∧ ∀ buffer : List UInt8, fs.getSize v ≤ buffer.length →
      (fs.serialize o v buffer).2[i]? = buffer[i]? := by
  induction fs with
  | htEvent => exact absurd trivial hbase
  | nil => exact hfs.elim
  | field => exact hfs.elim
  | struct _ _ _ sub rest ihs _ =>
    obtain ⟨v, vs⟩ := v
    have hsize := Declared.getSize_ge hfs.1 v
    by_cases hrest : rest.Scalars
    · -- the base is at fault, and the scalars come behind it
      obtain ⟨i, hlt, hkept⟩ := ihs hfs.1 (fun hsub => hbase ⟨hsub, hrest⟩) v
      refine ⟨i, by simp only [getSize]; omega, fun buffer hroom => ?_⟩
      simp only [getSize] at hroom
      obtain ⟨hlength, -⟩ := sub.serializeFrom_zero_spec o v
        (show sub.getSize v ≤ buffer.length by omega)
      simp only [serialize, serializeFrom, serializeFrom_fst, Nat.zero_add]
      rw [hrest.getElem?_serializeFrom o vs (by omega) hlt]
      exact hkept buffer (by omega)
    · obtain ⟨i, hge, hlt, hkept⟩ := OfDeclared.exists_untouched o hfs.2 hrest vs
        (show 0 < sub.getSize v by omega)
      refine ⟨i, by simp only [getSize]; omega, fun buffer hroom => ?_⟩
      simp only [getSize] at hroom
      obtain ⟨hlength, hbehind⟩ := sub.serializeFrom_zero_spec o v
        (show sub.getSize v ≤ buffer.length by omega)
      simp only [serialize, serializeFrom, serializeFrom_fst, Nat.zero_add]
      rw [hkept _ (by omega), hbehind i hge]

/-- **`serialize` writes the fields of a klass** into every buffer that has room for them exactly
if the klass has no struct but its base, at every level of the base. -/
theorem writesFields_iff (o : ByteOrder) {fs : Fields} (hfs : fs.Declared) (v : fs.Inst) :
    (∀ buffer : List UInt8, fs.getSize v ≤ buffer.length → WritesFields o fs v buffer) ↔
      fs.BaseFirst := by
  constructor
  · intro hall
    by_contra hbase
    obtain ⟨i, hlt, hkept⟩ := hfs.exists_untouched o hbase v
    have hlen := length_encode o fs v
    -- a buffer that holds another byte there
    have hroom : fs.getSize v ≤
        (List.replicate (fs.getSize v) ((fs.encode o v)[i] + 1)).length := by simp
    have hget : ((fs.serialize o v
        (List.replicate (fs.getSize v) ((fs.encode o v)[i] + 1))).2.take (fs.getSize v))[i]? =
        some (fs.encode o v)[i] := by
      rw [(hall _ hroom).content, List.getElem?_eq_getElem]
    rw [List.getElem?_take_of_lt hlt, hkept _ hroom, List.getElem?_replicate_of_lt hlt] at hget
    exact absurd (Option.some.inj hget) (by simp)
  · intro hbase buffer hroom
    have hlen := length_encode o fs v
    have heq := serialize_eq o hbase v hroom
    refine ⟨by rw [heq], ?_, ?_⟩
    · rw [heq]
      exact List.drop_left' hlen
    · rw [heq]
      exact List.take_left' hlen

/-- `HT_CallstackIntEvent`, with a base that has a base. -/
theorem writesFields_callstackIntEvent :
    callstackIntEventKlass.fields.Declared ∧
      ∀ buffer : List UInt8, 40 ≤ buffer.length →
        WritesFields .little callstackIntEventKlass.fields
          ((⟨5, 9381, 132⟩, BitVec.ofNat 64 332, BitVec.ofNat 32 8, ()),
            BitVec.ofNat 64 83123, ()) buffer := by
  have hdeclared : callstackIntEventKlass.fields.Declared := ⟨⟨trivial, trivial⟩, trivial⟩
  exact ⟨hdeclared, (writesFields_iff .little hdeclared _).mpr ⟨⟨trivial, trivial⟩, trivial⟩⟩

/-- A klass with the header of another event in second position. -/
def causedEventFields : Fields :=
  .struct (cstr "HT_Event") (cstr "base") 24 .htEvent
    (.struct (cstr "HT_Event") (cstr "cause") 24 .htEvent .nil)

/-- **The header of the other event is written over the event's own**, and nothing is written to
its place. -/
theorem second_struct_over_first :
    causedEventFields.Declared ∧
      causedEventFields.serialize .little (⟨9, 2, 3⟩, ⟨4, 5, 6⟩, ()) (List.replicate 40 255) =
        (40, [4, 0, 0, 0, 5, 0, 0, 0, 0, 0, 0, 0, 6, 0, 0, 0, 0, 0, 0, 0] ++
          List.replicate 20 255) ∧
      ¬ WritesFields .little causedEventFields (⟨9, 2, 3⟩, ⟨4, 5, 6⟩, ())
        (List.replicate 40 255) := by
  refine ⟨⟨trivial, trivial, trivial⟩, by decide, fun h => ?_⟩
  exact absurd h.content (by decide)

end Fields

end HawkTracer.Lib
