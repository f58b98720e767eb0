import HawkTracer.Parser.Reader
import HawkTracer.RoundTrip.Describe

/-!
# Reading an event of a described klass

Once the registry has been described, the reader reads an event of a registered klass
by reading its scalar fields level by level. A scalar field is read if and only if the
stream goes on with the encoding of one of its values
(`HawkTracer.RoundTrip.readField_scalar_iff`), and so is a list of them
(`HawkTracer.RoundTrip.readFields_scalars_iff`); this one statement serves both
directions.

* *Forwards*, the payload of an event without `NULL` strings is read, and what is built
  from it does not depend on the byte order of the stream or of the host
  (`HawkTracer.RoundTrip.readEvent_payload`). In nested mode it shows every field of
  every level (`HawkTracer.RoundTrip.Shows`).
* *Backwards*, whatever is read as an event of a klass is the payload of one without
  `NULL` strings (`HawkTracer.RoundTrip.payload_of_readEvent`).
-/

namespace HawkTracer.RoundTrip

open HawkTracer.Lib HawkTracer.Parser

variable {P : Platform} {R : KlassRegister} {flat : Bool} {host o : ByteOrder}

/-! ### Scalar fields -/

/-- The value the reader stores for a scalar. A `NULL` string has none. -/
def ShowsScalar : (t : ScalarType) → (n : ℕ) → t.Val n → FieldType → Prop
  | .integer isSigned, n, v, x => x = .num (integerTypeId isSigned n) v.toNat
  | .string, _, some s, x => x = .str s.bytes
  | .string, _, none, _ => False
  | .pointer, _, _, _ => False
  | .double, _, _, _ => False

/-- The values the reader stores for a list of scalars. -/
def ShowsScalars : (decls : List FieldDecl) → (scalarFields decls).Inst → List FieldType → Prop
  | [], _, xs => xs = []
  | d :: ds, (v, vs), xs =>
    ∃ x xs', xs = x :: xs' ∧ ShowsScalar d.type d.size v x ∧ ShowsScalars ds vs xs'

theorem isNumeric_integerTypeId (isSigned : Bool) (size : ℕ) :
    (integerTypeId isSigned size).isNumeric = true := by
  unfold integerTypeId
  split <;> cases isSigned <;> rfl

theorem sizeof_integerTypeId (isSigned : Bool) {size : ℕ}
    (h : size = 1 ∨ size = 2 ∨ size = 4 ∨ size = 8) :
    (integerTypeId isSigned size).sizeof = size := by
  rcases h with rfl | rfl | rfl | rfl <;> cases isSigned <;> rfl

theorem exists_showsScalar {d : FieldDecl} (hd : d.Supported) {v : d.type.Val d.size}
    (hv : d.type.NullFree d.size v) : ∃ x, ShowsScalar d.type d.size v x := by
  obtain ⟨t, cType, fieldName, size⟩ := d
  cases t with
  | integer isSigned => exact ⟨_, rfl⟩
  | string => cases v with
    | none => exact hv.elim
    | some s => exact ⟨_, rfl⟩
  | pointer => exact hd.elim
  | double => exact hd.elim

theorem nullFree_of_showsScalar {t : ScalarType} {n : ℕ} {v : t.Val n} {x : FieldType}
    (h : ShowsScalar t n v x) : t.NullFree n v := by
  cases t with
  | string => cases v with
    | none => exact h
    | some s => trivial
  | _ => trivial

variable {readSub : Event → Option Event → FileStream → EventResult FileStream} {s s' : FileStream}
  {r : Event × Option Event} {depth : ℕ} {hdr : Option Event}

/-- **A scalar field is read if and only if the stream goes on with one of its
values.** -/
theorem readField_scalar_iff {f : EventKlassField} {d : FieldDecl}
    (hf : signature f = declSignature d) (hd : d.Supported) {e : Event} {base : Option Event} :
    readField P (streamInput host (endiannessCode o)) R flat readSub f e base s = .ok r s' ↔
      ∃ v x, ShowsScalar d.type d.size v x ∧ s = d.type.encode o d.size v ++ s' ∧
        r = (e.setValue P f x, base) := by
  have htype : f.typeId = infoTypeId d.info := congrArg Prod.snd hf
  obtain ⟨t, cType, fieldName, size⟩ := d
  cases t with
  | integer isSigned =>
    have hsize := sizeof_integerTypeId isSigned (show size = 1 ∨ _ from hd)
    have hnum := isNumeric_integerTypeId isSigned size
    -- the reader bounds a number by its bytes, the writer by its bits
    have hpow : (256 : ℕ) ^ size = 2 ^ (8 * size) := by
      rw [show (256 : ℕ) = 2 ^ 8 by norm_num, ← pow_mul]
    replace htype : f.typeId = integerTypeId isSigned size := htype
    rw [readField_num readSub (by rw [htype, hnum]), htype, Result.bind_eq_ok_iff]
    constructor
    · rintro ⟨n, s'', hread, hr⟩
      obtain ⟨hn, rfl⟩ := (readNumeric_eq_ok_iff host (endiannessCode o) hnum).mp hread
      cases hr
      rw [streamOrder_code, hsize]
      rw [hsize] at hn
      refine ⟨BitVec.ofNat (8 * size) n, _, rfl, ?_, ?_⟩
      · change _ = toBytes o size (BitVec.ofNat (8 * size) n).toNat ++ _
        rw [BitVec.toNat_ofNat, Nat.mod_eq_of_lt (hpow ▸ hn)]
      · rw [BitVec.toNat_ofNat, Nat.mod_eq_of_lt (hpow ▸ hn)]
    · rintro ⟨v, x, rfl, rfl, rfl⟩
      refine ⟨_, s', (readNumeric_eq_ok_iff host (endiannessCode o) hnum).mpr ⟨?_, ?_⟩, rfl⟩
      · rw [hsize, hpow]
        exact v.isLt
      · rw [hsize, streamOrder_code]
        rfl
  | string =>
    rw [readField_str readSub htype, Result.bind_eq_ok_iff]
    constructor
    · rintro ⟨v, s'', hread, hr⟩
      obtain ⟨hz, rfl⟩ := readString_eq_ok_iff.mp hread
      cases hr
      refine ⟨some ⟨v, hz⟩, _, rfl, ?_, rfl⟩
      change _ = v ++ [0] ++ _
      rw [List.append_assoc, List.singleton_append]
    · rintro ⟨v, x, hx, hs, rfl⟩
      cases v with
      -- a NULL shows as no value
      | none => exact hx.elim
      | some v =>
        obtain rfl : x = .str v.bytes := hx
        refine ⟨v.bytes, s', readString_eq_ok_iff.mpr ⟨v.nonzero, ?_⟩, rfl⟩
        rw [hs]
        change v.bytes ++ [0] ++ _ = _
        rw [List.append_assoc, List.singleton_append]
  | pointer => exact hd.elim
  | double => exact hd.elim

variable {decls : List FieldDecl} {xs : List FieldType} {fs : List EventKlassField}
  {v : (scalarFields decls).Inst} {b : EventKlassField}

/-- **A list of scalar fields is read if and only if the stream goes on with their
values.** -/
theorem readFields_scalars_iff (hfs : fs.map signature = decls.map declSignature)
    (hd : ∀ d ∈ decls, d.Supported) {e : Event} {base : Option Event} :
    readFields P (streamInput host (endiannessCode o)) R flat readSub fs e base s = .ok r s' ↔
      ∃ v xs, ShowsScalars decls v xs ∧ s = (scalarFields decls).encode o v ++ s' ∧
        r = (e.setAll P (fs.zip xs), base) := by
  induction decls generalizing fs e base s with
  | nil =>
    obtain rfl := List.map_eq_nil_iff.mp hfs
    constructor
    · intro h
      cases h
      exact ⟨(), [], rfl, rfl, rfl⟩
    · rintro ⟨v, xs, rfl, rfl, rfl⟩
      rfl
  | cons d ds ih =>
    obtain ⟨f, fs, rfl, hf, hfs⟩ := List.map_eq_cons_iff.mp hfs
    have hds : ∀ d' ∈ ds, d'.Supported := fun d' h => hd d' (List.mem_cons_of_mem _ h)
    rw [readFields, Result.bind_eq_ok_iff]
    constructor
    · rintro ⟨r₁, s₁, hhead, htail⟩
      obtain ⟨v, x, hx, rfl, rfl⟩ := (readField_scalar_iff hf (hd d List.mem_cons_self)).mp hhead
      obtain ⟨vs, xs, hxs, rfl, rfl⟩ := (ih hfs hds).mp htail
      refine ⟨(v, vs), x :: xs, ⟨x, xs, rfl, hx, hxs⟩, ?_, rfl⟩
      rw [← List.append_assoc]
      rfl
    · rintro ⟨⟨v, vs⟩, xs, ⟨x, xs', rfl, hx, hxs⟩, rfl, rfl⟩
      refine ⟨(e.setValue P f x, base), (scalarFields ds).encode o vs ++ s',
        (readField_scalar_iff hf (hd d List.mem_cons_self)).mpr ⟨v, x, hx, ?_, rfl⟩,
        (ih hfs hds).mpr ⟨vs, xs', hxs, rfl, rfl⟩⟩
      rw [← List.append_assoc]
      rfl

theorem exists_showsScalars (hd : ∀ d ∈ decls, d.Supported) (hv : (scalarFields decls).NullFree v) :
    ∃ xs, ShowsScalars decls v xs := by
  induction decls with
  | nil => exact ⟨[], rfl⟩
  | cons d ds ih =>
    obtain ⟨v, vs⟩ := v
    obtain ⟨x, hx⟩ := exists_showsScalar (hd d List.mem_cons_self) hv.1
    obtain ⟨xs, hxs⟩ := ih (fun d' h => hd d' (List.mem_cons_of_mem _ h)) hv.2
    exact ⟨x :: xs, x, xs, rfl, hx, hxs⟩

theorem nullFree_of_showsScalars (h : ShowsScalars decls v xs) :
    (scalarFields decls).NullFree v := by
  induction decls generalizing xs with
  | nil => trivial
  | cons d ds ih =>
    obtain ⟨v, vs⟩ := v
    obtain ⟨x, xs', -, hx, hxs⟩ := h
    exact ⟨nullFree_of_showsScalar hx, ih hxs⟩

theorem length_of_showsScalars (h : ShowsScalars decls v xs) : xs.length = decls.length := by
  induction decls generalizing xs with
  | nil => exact congrArg List.length (show xs = [] from h)
  | cons d ds ih =>
    obtain ⟨v, vs⟩ := v
    obtain ⟨x, xs', rfl, -, hxs⟩ := h
    simp [ih hxs]

/-! ### What an event shows -/

/-- An event that shows the content of an `HT_Event`: these three values and no
other. -/
def ShowsHeader (h : HTEvent) (e : Event) : Prop :=
  e.get (ascii "klass_id") = some (.num .uint32 h.klassId.toNat) ∧
    e.get (ascii "timestamp") = some (.num .uint64 h.timestamp.toNat) ∧
    e.get (ascii "id") = some (.num .uint64 h.id.toNat) ∧
    ∀ key x, e.get key = some x → key ∈ [ascii "klass_id", ascii "timestamp", ascii "id"]

/-- **A nested event shows an object**: it points to the klass of the object, has the
value of every field, under `base` an event that shows the base part, and no other
values. Whether the `base` of a klass is there is a parameter: `known` tells for a klass
by its name. -/
def Shows (known : CString → Bool) (G : Registry) : (fs : Fields) → CString → fs.Inst → Event → Prop
  | .htEvent, typeName, v, e => e.klass = some (G.idOf typeName) ∧ ShowsHeader v e
  | .nil, _, _, _ => True
  | .field f rest, typeName, (v, vs), e =>
    (∃ x, e.get f.fieldName.bytes = some x ∧ ShowsScalar f.type f.size v x) ∧
      Shows known G rest typeName vs e
  | .struct cType fieldName _ sub rest, typeName, (v, vs), e =>
    e.klass = some (G.idOf typeName) ∧
      (known typeName = true →
        ∃ b : Event, e.get fieldName.bytes = some b.toField ∧ Shows known G sub cType v b) ∧
      Shows known G rest typeName vs e ∧
      ∀ key x, e.get key = some x → (known typeName = true ∧ key = fieldName.bytes) ∨
        key ∈ rest.infos.map fun info => info.fieldName.bytes

theorem names_of_signature (h : fs.map signature = decls.map declSignature) :
    fs.map EventKlassField.name = decls.map fun d => d.fieldName.bytes := by
  have h' := congrArg (List.map Prod.fst) h
  rw [List.map_map, List.map_map] at h'
  exact h'

theorem names_zip (h : xs.length = fs.length) :
    (fs.zip xs).map Value.name = fs.map EventKlassField.name := by
  have hfst : (fs.zip xs).map Prod.fst = fs := List.map_fst_zip (le_of_eq h.symm)
  conv_rhs => rw [← hfst]
  rw [List.map_map]
  rfl

theorem length_of_signature (hfs : fs.map signature = decls.map declSignature)
    {vs : (scalarFields decls).Inst} (hxs : ShowsScalars decls vs xs) : xs.length = fs.length := by
  rw [length_of_showsScalars hxs, ← List.length_map declSignature, ← hfs, List.length_map]

/-- Scalar values that can be looked up are shown. -/
theorem shows_scalarFields {G : Registry} (hfs : fs.map signature = decls.map declSignature)
    (hxs : ShowsScalars decls v xs) {e : Event} (he : ∀ w ∈ fs.zip xs, e.get w.1.name = some w.2)
    (typeName : CString) : Shows hasBase G (scalarFields decls) typeName v e := by
  induction decls generalizing fs xs with
  | nil => trivial
  | cons d ds ih =>
    obtain ⟨f, fs, rfl, hf, hfs⟩ := List.map_eq_cons_iff.mp hfs
    obtain ⟨v, vs⟩ := v
    obtain ⟨x, xs, rfl, hx, hxs⟩ := hxs
    have hname : f.name = d.fieldName.bytes := congrArg Prod.fst hf
    refine ⟨⟨x, ?_, hx⟩, ih hfs hxs fun w hw => he w (List.mem_cons_of_mem _ hw)⟩
    rw [← hname]
    exact he (f, x) List.mem_cons_self

/-- Only a scalar field's name or the names an event has had before are found after
its scalars have been set. -/
theorem mem_names_of_get_setAll {e : Event} (hlen : xs.length = fs.length) {key : Name}
    {x : FieldType} (h : (e.setAll P (fs.zip xs)).get key = some x) :
    e.get key = some x ∨ key ∈ fs.map EventKlassField.name := by
  by_cases hkey : key ∈ (fs.zip xs).map Value.name
  · exact .inr (names_zip hlen ▸ hkey)
  · rw [Event.get_setAll_of_not_mem P hkey] at h
    exact .inl h

/-- The values of a list of scalar fields can be looked up in the event. -/
theorem get_setAll_zip {k : EventKlass} (hsig : k.fields.map signature = decls.map declSignature)
    (hxs : ShowsScalars decls v xs) (klass : Option UInt32) :
    ∀ w ∈ (decls.map fun d => d.fieldName.bytes).zip xs,
      ((Event.new klass).setAll P (k.fields.zip xs)).get w.1 = some w.2 := by
  have hnodup : ((k.fields.zip xs).map Value.name).Nodup :=
    names_zip (length_of_signature hsig hxs) ▸ k.nodup
  intro w hw
  rw [← names_of_signature hsig, List.zip_map_left] at hw
  obtain ⟨w', hw', rfl⟩ := List.mem_map.mp hw
  exact Event.get_setAll_of_mem P hnodup hw' rfl

theorem Event.get_new (klass : Option UInt32) (key : Name) : (Event.new klass).get key = none := rfl

/-! ### The header -/

/-- The fields of the header klass, as the register declares them. -/
def headerDecls : List FieldDecl :=
  [integerField "uint32_t" false 4 "klass_id", integerField "uint64_t" false 8 "timestamp",
   integerField "uint64_t" false 8 "id"]

/-- The values of a header. -/
def headerValues (h : HTEvent) : List FieldType :=
  [.num .uint32 h.klassId.toNat, .num .uint64 h.timestamp.toNat, .num .uint64 h.id.toNat]

/-- The event the reader builds from a header. -/
def headerEvent (P : Platform) (R : KlassRegister) (h : HTEvent) : Event :=
  match R.getKlass 1 with
  | some k => (Event.new (some 1)).setAll P (k.fields.zip (headerValues h))
  | none => .new (some 1)

theorem encode_headerDecls (o : ByteOrder) (h : HTEvent) :
    (scalarFields headerDecls).encode o
      (h.klassId.toBitVec, h.timestamp.toBitVec, h.id.toBitVec, ()) = h.encode o := by
  change toBytes o 4 h.klassId.toNat ++ (toBytes o 8 h.timestamp.toNat ++
    (toBytes o 8 h.id.toNat ++ [])) = _
  rw [List.append_nil, ← List.append_assoc]
  rfl

theorem showsScalars_headerDecls_iff {h : HTEvent} :
    ShowsScalars headerDecls (h.klassId.toBitVec, h.timestamp.toBitVec, h.id.toBitVec, ()) xs ↔
      xs = headerValues h := by
  constructor
  · rintro ⟨x, xs₁, rfl, rfl, y, xs₂, rfl, rfl, z, xs₃, rfl, rfl, rfl⟩
    rfl
  · rintro rfl
    exact ⟨_, _, rfl, rfl, _, _, rfl, rfl, _, _, rfl, rfl, rfl⟩

/-- The layout of the header klass. -/
theorem header_layout (hR : R.BuiltIn) :
    ∃ k, R.getKlass 1 = some k ∧ k.fields.map signature = headerDecls.map declSignature := by
  exact ⟨_, (hR.wellKnown 1 rfl).trans rfl, rfl⟩

/-- **A header is read if and only if the stream goes on with one.** -/
theorem readEvent_header_iff (hR : R.BuiltIn) {base : Option Event} :
    readEvent P (streamInput host (endiannessCode o)) R flat (depth + 1) (.new (some 1)) base s =
        .ok r s' ↔ ∃ h : HTEvent, s = h.encode o ++ s' ∧ r = (headerEvent P R h, base) := by
  obtain ⟨k, hk, hsig⟩ := header_layout hR
  rw [readEvent_succ rfl hk, readFields_scalars_iff hsig (by decide)]
  simp only [headerEvent, hk]
  constructor
  · rintro ⟨⟨a, b, c, ⟨⟩⟩, xs, hxs, rfl, rfl⟩
    refine ⟨⟨⟨a⟩, ⟨b⟩, ⟨c⟩⟩, ?_, ?_⟩
    · rw [← encode_headerDecls]
    · rw [(showsScalars_headerDecls_iff (h := ⟨⟨a⟩, ⟨b⟩, ⟨c⟩⟩)).mp hxs]
  · rintro ⟨h, rfl, rfl⟩
    exact ⟨_, headerValues h, showsScalars_headerDecls_iff.mpr rfl, by rw [encode_headerDecls], rfl⟩

/-- The event built from a header shows it. -/
theorem showsHeader_headerEvent (hR : R.BuiltIn) (h : HTEvent) :
    (headerEvent P R h).klass = some 1 ∧ ShowsHeader h (headerEvent P R h) := by
  obtain ⟨k, hk, hsig⟩ := header_layout hR
  have hxs := showsScalars_headerDecls_iff.mpr (rfl : headerValues h = _)
  have hget := get_setAll_zip (P := P) hsig hxs (some 1)
  simp only [headerEvent, hk]
  refine ⟨by simp [Event.new], hget _ (.head _), hget _ (.tail _ (.head _)),
    hget _ (.tail _ (.tail _ (.head _))), fun key x hx => ?_⟩
  rcases mem_names_of_get_setAll (length_of_signature hsig hxs) hx with hnone | hmem
  · cases hnone
  · rwa [names_of_signature hsig] at hmem

/-! ### The struct `base` -/

/-- The struct that stands for the header is the one whose type is the root klass. -/
theorem isHeader_base_iff {G : Registry} {base : Klass} (hbase : base ∈ G.klasses)
    (hb : shape b = infoShape (baseInfo base)) : b.isHeader = true ↔ base = htEventKlass := by
  have hname : b.name = ascii "base" := congrArg (fun s => s.1) hb
  have htype : b.typeName = base.typeName.bytes := congrArg (fun s => s.2.1) hb
  rw [EventKlassField.isHeader, hname, htype, decide_eq_true (rfl : ascii "base" = ascii "base"),
    Bool.and_true, decide_eq_true_iff]
  constructor
  · intro h
    exact Registry.typeName_injOn hbase Registry.htEventKlass_mem (CString.bytes_injective h)
  · rintro rfl
    rfl

/-- The klass a struct field leads to. -/
theorem lookup_base {G : Registry} (hR : Describes G G.klasses.length R) {base : Klass}
    (hbase : base ∈ G.klasses) (hb : shape b = infoShape (baseInfo base)) :
    (R.getKlass (R.getKlassId P b.typeName)).map EventKlass.id = some (G.idOf base.typeName) := by
  have htype : b.typeName = base.typeName.bytes := congrArg (fun s => s.2.1) hb
  obtain ⟨i, -, hi⟩ := Registry.exists_index hbase
  obtain ⟨k, hk, -, -⟩ := hR.described i base (List.getElem?_eq_some_iff.mp hi).1 hi
  rw [htype, hR.getKlassId_eq hbase, Registry.idOf_eq hi, hk, Option.map_some,
    KlassRegister.id_of_getKlass hk]

/-- The payload is read as `r`, in either byte order and by either host. -/
def ReadsAs (P : Platform) (R : KlassRegister) (flat : Bool) (depth : ℕ) (id : UInt32)
    (hdr : Option Event) (payload : ByteOrder → List UInt8) (r : Event × Option Event) : Prop :=
  ∀ host o rest, readEvent P (streamInput host (endiannessCode o)) R flat depth (.new (some id)) hdr
    (payload o ++ rest) = .ok r rest

/-- A field is read as `r`, in either byte order and by either host. -/
def FieldReadsAs (P : Platform) (R : KlassRegister) (flat : Bool) (depth : ℕ) (b : EventKlassField)
    (e : Event) (hdr : Option Event) (payload : ByteOrder → List UInt8)
    (r : Event × Option Event) : Prop :=
  ∀ host o rest, readField P (streamInput host (endiannessCode o)) R flat
    (readEvent P (streamInput host (endiannessCode o)) R flat depth) b e hdr (payload o ++ rest) =
      .ok r rest

/-- **The payload of an object is read as one event**, and in nested mode that event
shows the object if the header it is given shows its root. -/
def Rebuilds (G : Registry) (P : Platform) (R : KlassRegister) (flat : Bool) (depth : ℕ)
    (hdr : Option Event) (K : Klass) (v : K.fields.Inst) : Prop :=
  ∃ r, ReadsAs P R flat depth (G.idOf K.typeName) hdr (fun o => K.fields.payload o v) r ∧
    (flat = false → ∀ x, hdr = some x →
      Shows hasBase G .htEvent htEventKlass.typeName (K.fields.header v) x →
        Shows hasBase G K.fields K.typeName v r.1)

/-- Reading the struct that stands for the header consumes nothing. -/
theorem readField_header (hstruct : b.typeId = .struct) (hheader : b.isHeader = true)
    (hhdr : flat = false → hdr ≠ none) (e : Event) :
    ∃ e₁ hdr₁, (∀ (input : Input FileStream) readSub s,
        readField P input R flat readSub b e hdr s = .ok (e₁, hdr₁) s) ∧
      ((flat = true ∧ e₁ = e) ∨
        (flat = false ∧ ∃ x, hdr = some x ∧ e₁ = e.setValue P b x.toField)) := by
  cases flat with
  | true =>
    refine ⟨e, hdr, fun input readSub s => ?_, .inl ⟨rfl, rfl⟩⟩
    rw [readField_struct _ hstruct, readStruct_of_isHeader _ hheader, if_pos rfl]
  | false =>
    obtain ⟨y, rfl⟩ := Option.ne_none_iff_exists'.mp (hhdr rfl)
    refine ⟨e.setValue P b y.toField, some y.movedFrom, fun input readSub s => ?_,
      .inr ⟨rfl, y, rfl, rfl⟩⟩
    rw [readField_struct _ hstruct, readStruct_of_isHeader _ hheader]
    rfl

/-- Reading a struct of a klass whose content can be read. -/
theorem readField_nested (hstruct : b.typeId = .struct) (hheader : ¬ b.isHeader = true)
    {id : UInt32} (hid : (R.getKlass (R.getKlassId P b.typeName)).map EventKlass.id = some id)
    {payload : ByteOrder → List UInt8} (hr : ReadsAs P R flat depth id hdr payload r) (e : Event) :
    FieldReadsAs P R flat depth b e hdr payload
      (if flat then e.merge P r.1 else e.setValue P b r.1.toField, r.2) := by
  intro host o rest
  rw [readField_struct _ hstruct, readStruct_of_not_isHeader _ hheader, hid, hr host o rest,
    Result.ok_bind]
  cases flat <;> rfl

/-- Reading the field `base`, given how the content of the base klass is read: nothing
is consumed for the root, which has been read as the header. -/
theorem readField_base {G : Registry} (hR : Describes G G.klasses.length R) {base : Klass}
    (hbase : base ∈ G.klasses) (hb : shape b = infoShape (baseInfo base))
    (hhdr : flat = false → hdr ≠ none) {v : base.fields.Inst}
    (ih : base ≠ htEventKlass → Rebuilds G P R flat depth hdr base v) (e : Event) :
    ∃ e₁ hdr₁,
      FieldReadsAs P R flat depth b e hdr (fun o => base.fields.payload o v) (e₁, hdr₁) ∧
      e₁.klass = e.klass ∧
      (flat = false → ∃ x : Event, e₁ = e.setValue P b x.toField ∧
        ∀ y, hdr = some y →
          Shows hasBase G .htEvent htEventKlass.typeName (base.fields.header v) y →
          Shows hasBase G base.fields base.typeName v x) := by
  have hstruct : b.typeId = .struct := congrArg (fun s => s.2.2) hb
  by_cases hroot : base = htEventKlass
  · have hheader := (isHeader_base_iff hbase hb).mpr hroot
    subst hroot
    obtain ⟨e₁, hdr₁, hread, hcases⟩ := readField_header (P := P) (R := R) hstruct hheader hhdr e
    refine ⟨e₁, hdr₁, fun host o rest => hread _ _ _, ?_, fun hflat => ?_⟩
    · rcases hcases with ⟨-, rfl⟩ | ⟨-, x, -, rfl⟩ <;> rfl
    · rcases hcases with ⟨htrue, -⟩ | ⟨-, x, hx, rfl⟩
      · cases hflat.symm.trans htrue
      · refine ⟨x, rfl, fun y hy hshow => ?_⟩
        cases hx.symm.trans hy
        exact hshow
  · have hheader : ¬ b.isHeader = true := fun h => hroot ((isHeader_base_iff hbase hb).mp h)
    obtain ⟨r, hr, hshows⟩ := ih hroot
    refine ⟨if flat then e.merge P r.1 else e.setValue P b r.1.toField, r.2,
      readField_nested hstruct hheader (lookup_base hR hbase hb) hr e, by cases flat <;> simp,
      fun hflat => ⟨r.1, ?_, hshows hflat⟩⟩
    rw [hflat]
    rfl

/-- **A nested event shows its object** if it has the values of the fields of its klass, and besides
them that of the base, unless the klass is known without it. -/
theorem shows_setAll {G : Registry} {typeName : CString} {base : Klass} {size : ℕ}
    {hn : (memberNames decls).Nodup} (hfs : fs.map signature = decls.map declSignature)
    {v : base.fields.Inst} {vs : (scalarFields decls).Inst} (hxs : ShowsScalars decls vs xs)
    {fields : List EventKlassField} (hnodup : (fields.map EventKlassField.name).Nodup)
    {values bases : List Value} (hnames : values.map Value.name = fields.map EventKlassField.name)
    (hperm : values.Perm (bases ++ fs.zip xs))
    (hbases : ∀ w ∈ bases, hasBase typeName = true ∧ w.1.name = ascii "base")
    (hbase : hasBase typeName = true → ∃ w ∈ bases, ∃ y : Event, w.2 = y.toField ∧
      Shows hasBase G base.fields base.typeName v y)
    {e : Event} (he : e = (Event.new (some (G.idOf typeName))).setAll P values) :
    Shows hasBase G (declareEventKlass typeName base decls size hn).fields typeName (v, vs) e := by
  have hmem : ∀ w, w ∈ values ↔ w ∈ bases ∨ w ∈ fs.zip xs := fun w =>
    hperm.mem_iff.trans List.mem_append
  have hget : ∀ w ∈ values, e.get w.1.name = some w.2 := fun w hw =>
    he ▸ Event.get_setAll_of_mem P (hnames ▸ hnodup) hw (Event.get_new _ _)
  refine ⟨by simp [he, Event.new], fun hB => ?_,
    shows_scalarFields hfs hxs (fun w hw => hget w ((hmem w).mpr (.inr hw))) typeName,
    fun key x hx => ?_⟩
  · obtain ⟨w, hw, y, hval, hy⟩ := hbase hB
    have hfound := hget w ((hmem w).mpr (.inl hw))
    rw [(hbases w hw).2, hval] at hfound
    exact ⟨y, hfound, hy⟩
  · have hkey : key ∈ values.map Value.name := by
      by_contra hkey
      rw [he, Event.get_setAll_of_not_mem P hkey] at hx
      cases hx
    obtain ⟨w, hw, rfl⟩ := List.mem_map.mp hkey
    rw [infos_scalarFields, List.map_map]
    rcases (hmem w).mp hw with hw | hw
    · exact .inl (hbases w hw)
    · refine .inr (names_of_signature hfs ▸ ?_)
      exact names_zip (length_of_signature hfs hxs) ▸ List.mem_map_of_mem hw

/-! ### Whole events -/

/-- The fields of a klass are read level by level, in each of the layouts. -/
theorem readFields_layout {G : Registry} (hR : Describes G G.klasses.length R) {typeName : CString}
    {base : Klass} (hbase : base ∈ G.klasses) {decls : List FieldDecl} {size : ℕ}
    {hn : (memberNames decls).Nodup} (hsup : ∀ d ∈ decls, d.Supported)
    {fields : List EventKlassField} (hlayout : Layout base decls (hasBase typeName) fields)
    (hnodup : (fields.map EventKlassField.name).Nodup) (hhdr : flat = false → hdr ≠ none)
    {v : base.fields.Inst} {vs : (scalarFields decls).Inst} (hvs : (scalarFields decls).NullFree vs)
    (ih : base ≠ htEventKlass → Rebuilds G P R flat depth hdr base v) :
    ∃ r, (∀ host o rest, readFields P (streamInput host (endiannessCode o)) R flat
        (readEvent P (streamInput host (endiannessCode o)) R flat depth) fields
        (.new (some (G.idOf typeName))) hdr
        (base.fields.payload o v ++ ((scalarFields decls).encode o vs ++ rest)) = .ok r rest) ∧
      (flat = false → ∀ x, hdr = some x →
        Shows hasBase G .htEvent htEventKlass.typeName (base.fields.header v) x →
          Shows hasBase G (declareEventKlass typeName base decls size hn).fields
            typeName (v, vs) r.1) := by
  obtain ⟨xs, hxs⟩ := exists_showsScalars hsup hvs
  -- the scalars of this level, wherever they stand in the layout
  have hscalars : ∀ {fs : List EventKlassField}, fs.map signature = decls.map declSignature →
      ∀ host o e hdr' rest, readFields P (streamInput host (endiannessCode o)) R flat
        (readEvent P (streamInput host (endiannessCode o)) R flat depth) fs e hdr'
        ((scalarFields decls).encode o vs ++ rest) = .ok (e.setAll P (fs.zip xs), hdr') rest :=
    fun hfs host o e hdr' rest => (readFields_scalars_iff hfs hsup).mpr ⟨vs, xs, hxs, rfl, rfl⟩
  have hnames : ∀ {fs : List EventKlassField}, fs.map signature = decls.map declSignature →
      (fs.zip xs).map Value.name = fs.map EventKlassField.name := fun hfs =>
    names_zip (length_of_signature hfs hxs)
  have hbases : ∀ {b : EventKlassField}, b.name = ascii "base" → hasBase typeName = true → ∀ x,
      ∀ w ∈ [((b, x) : Value)], hasBase typeName = true ∧ w.1.name = ascii "base" := by
    intro b hbname hB x w hw
    rw [List.mem_singleton.mp hw]
    exact ⟨hB, hbname⟩
  generalize hB : hasBase typeName = hasB at hlayout
  cases hlayout with
  | @declared b fs hb hfs =>
    have hbname : b.name = ascii "base" := congrArg (fun s => s.1) hb
    obtain ⟨e₁, hdr₁, hread, hklass, hnested⟩ :=
      readField_base hR hbase hb hhdr ih (.new (some (G.idOf typeName)))
    refine ⟨(e₁.setAll P (fs.zip xs), hdr₁), fun host o rest => ?_, fun hflat x hx hshow => ?_⟩
    · rw [readFields, hread, Result.ok_bind]
      exact hscalars hfs host o e₁ hdr₁ rest
    · obtain ⟨y, rfl, hy⟩ := hnested hflat
      have hcons : ((b, y.toField) :: fs.zip xs).map Value.name =
          (b :: fs).map EventKlassField.name := congrArg (b.name :: ·) (hnames hfs)
      exact shows_setAll hfs hxs hnodup hcons (.refl ([_] ++ _)) (hbases hbname hB _)
        (fun _ => ⟨_, .head _, y, rfl, hy x hx hshow⟩) rfl
  | @appended b fs hb hfs hroot =>
    have hbname : b.name = ascii "base" := congrArg (fun s => s.1) hb
    obtain ⟨e₁, hdr₁, hread, hklass, hnested⟩ := readField_base hR hbase hb hhdr ih
      ((Event.new (some (G.idOf typeName))).setAll P (fs.zip xs))
    -- the payload of the root is empty
    subst hroot
    refine ⟨(e₁, hdr₁), fun host o rest => ?_, fun hflat x hx hshow => ?_⟩
    · change readFields P _ R flat _ (fs ++ [b]) _ hdr
        ((scalarFields decls).encode o vs ++ rest) = _
      rw [readFields_append, hscalars hfs, Result.ok_bind, readFields]
      have hb' := hread host o rest
      change readField P _ R flat _ b _ hdr rest = _ at hb'
      rw [hb', Result.ok_bind, readFields]
    · obtain ⟨y, rfl, hy⟩ := hnested hflat
      have happend : (fs.zip xs ++ [(b, y.toField)]).map Value.name =
          (fs ++ [b]).map EventKlassField.name := by
        rw [List.map_append, List.map_append, hnames hfs]
        rfl
      refine shows_setAll (P := P) hfs hxs hnodup happend List.perm_append_comm
        (hbases hbname hB _) (fun _ => ⟨_, .head _, y, rfl, hy x hx hshow⟩) ?_
      rw [Event.setAll, Event.setAll, List.foldl_append]
      rfl
  | headless hfs hroot =>
    subst hroot
    exact ⟨_, fun host o rest => hscalars hfs host o _ hdr rest,
      fun _ _ _ _ => shows_setAll hfs hxs hnodup (hnames hfs) (.refl ([] ++ _))
        (fun _ h => absurd h List.not_mem_nil) (fun h => absurd (hB.symm.trans h) (by decide)) rfl⟩

/-- **The payload of an event without `NULL` strings is read.** -/
theorem readEvent_payload {G : Registry} (hR : Describes G G.klasses.length R) {K : Klass}
    (hK : K ∈ G.klasses) (hroot : K ≠ htEventKlass) {v : K.fields.Inst} (hv : K.fields.NullFree v)
    {depth : ℕ} (hdepth : K.fields.depth ≤ depth) (hhdr : flat = false → hdr ≠ none) :
    Rebuilds G P R flat depth hdr K v := by
  revert v depth
  refine Registry.chain_induction (motive := fun K => K ≠ htEventKlass → ∀ {v : K.fields.Inst},
    K.fields.NullFree v → ∀ {depth : ℕ}, K.fields.depth ≤ depth → Rebuilds G P R flat depth hdr K v)
    ?_ ?_ hK hroot
  · exact fun h => absurd rfl h
  · rintro typeName base decls size hn hmem hbase hsup ih - ⟨v, vs⟩ hv depth hdepth
    rw [depth_declareEventKlass] at hdepth
    obtain ⟨depth, rfl⟩ : ∃ d, depth = d + 1 := ⟨depth - 1, by omega⟩
    obtain ⟨i, -, hi⟩ := Registry.exists_index hmem
    obtain ⟨k, hk, hlayout⟩ := hR.layout (List.getElem?_eq_some_iff.mp hi).1 hbase hi
    rw [← Registry.idOf_eq hi] at hk
    obtain ⟨r, hr, hshows⟩ := readFields_layout hR hbase hsup hlayout k.nodup hhdr hv.2
      fun hne => ih hne hv.1 (Nat.le_of_succ_le_succ hdepth)
    refine ⟨r, fun host o rest => ?_, hshows⟩
    have hpayload :
        (declareEventKlass typeName base decls size hn).fields.payload o (v, vs) ++ rest =
        base.fields.payload o v ++ ((scalarFields decls).encode o vs ++ rest) := by
      change base.fields.payload o v ++ (scalarFields decls).payload o vs ++ rest = _
      rw [payload_scalarFields, List.append_assoc]
    rw [readEvent_succ rfl hk, hpayload]
    exact hr host o rest

/-- What is read for the field `base` is the payload of an object of the base klass. -/
theorem payload_of_readField_base {G : Registry} (hR : Describes G G.klasses.length R)
    {base : Klass} (hbase : base ∈ G.klasses) {b : EventKlassField}
    (hb : shape b = infoShape (baseInfo base)) {header : HTEvent}
    (ih : base ≠ htEventKlass → ∀ {s s' : FileStream} {r : Event × Option Event},
      readSub (.new (some (G.idOf base.typeName))) hdr s = .ok r s' →
        ∃ v, base.fields.header v = header ∧ base.fields.NullFree v ∧
          s = base.fields.payload o v ++ s') {e : Event}
    (h : readField P (streamInput host (endiannessCode o)) R flat readSub b e hdr s = .ok r s') :
    ∃ v, base.fields.header v = header ∧ base.fields.NullFree v ∧
      s = base.fields.payload o v ++ s' := by
  have hstruct : b.typeId = .struct := congrArg (fun s => s.2.2) hb
  rw [readField_struct _ hstruct] at h
  by_cases hroot : base = htEventKlass
  · have hheader := (isHeader_base_iff hbase hb).mpr hroot
    subst hroot
    rw [readStruct_of_isHeader _ hheader] at h
    refine ⟨header, rfl, trivial, ?_⟩
    change s = s'
    cases flat with
    | true => exact (Result.ok.inj h).2
    | false => cases hdr with
      | none => cases h
      | some y => exact (Result.ok.inj h).2
  · have hheader : ¬ b.isHeader = true := fun h => hroot ((isHeader_base_iff hbase hb).mp h)
    rw [readStruct_of_not_isHeader _ hheader, lookup_base hR hbase hb, Result.bind_eq_ok_iff] at h
    obtain ⟨r', s'', hsub, hrest⟩ := h
    obtain rfl : s'' = s' := by
      cases flat with
      | true | false => exact (Result.ok.inj hrest).2
    exact ih hroot hsub

/-- **Whatever is read as an event of a klass is the payload of an object of it without
`NULL` strings**, and of one with any given header. -/
theorem payload_of_readEvent {G : Registry} (hR : Describes G G.klasses.length R) {K : Klass}
    (hK : K ∈ G.klasses) (hroot : K ≠ htEventKlass) (header : HTEvent)
    (h : readEvent P (streamInput host (endiannessCode o)) R flat depth
      (.new (some (G.idOf K.typeName))) hdr s = .ok r s') :
    ∃ v, K.fields.header v = header ∧ K.fields.NullFree v ∧ s = K.fields.payload o v ++ s' := by
  revert depth s r s'
  refine Registry.chain_induction (motive := fun K => K ≠ htEventKlass → ∀ {depth : ℕ}
    {s s' : FileStream} {r : Event × Option Event},
    readEvent P (streamInput host (endiannessCode o)) R flat depth
      (.new (some (G.idOf K.typeName))) hdr s = .ok r s' →
    ∃ v, K.fields.header v = header ∧ K.fields.NullFree v ∧ s = K.fields.payload o v ++ s')
    ?_ ?_ hK hroot
  · exact fun h => absurd rfl h
  · rintro typeName base decls size hn hmem hbase hsup ih - depth s s' r h
    obtain ⟨i, -, hi⟩ := Registry.exists_index hmem
    obtain ⟨k, hk, hlayout⟩ := hR.layout (List.getElem?_eq_some_iff.mp hi).1 hbase hi
    rw [← Registry.idOf_eq hi] at hk
    obtain _ | depth := depth
    · cases h
    rw [readEvent_succ rfl hk] at h
    -- both parts of the payload, in the order of the declaration
    have hjoin : ∀ {v : base.fields.Inst} {vs : (scalarFields decls).Inst} {xs : List FieldType},
        base.fields.header v = header → base.fields.NullFree v → ShowsScalars decls vs xs →
        s = base.fields.payload o v ++ ((scalarFields decls).encode o vs ++ s') →
        ∃ w : (declareEventKlass typeName base decls size hn).fields.Inst,
          (declareEventKlass typeName base decls size hn).fields.header w = header ∧
          (declareEventKlass typeName base decls size hn).fields.NullFree w ∧
          s = (declareEventKlass typeName base decls size hn).fields.payload o w ++ s' := by
      intro v vs xs hheader hv hxs hs
      refine ⟨(v, vs), hheader, ⟨hv, nullFree_of_showsScalars hxs⟩, ?_⟩
      change s = base.fields.payload o v ++ (scalarFields decls).payload o vs ++ s'
      rw [payload_scalarFields, List.append_assoc, hs]
    generalize hasBase typeName = hasB at hlayout
    generalize k.fields = fields at hlayout h
    cases hlayout with
    | declared hb hfs =>
      rw [readFields, Result.bind_eq_ok_iff] at h
      obtain ⟨r₁, s₁, hfirst, hrest⟩ := h
      obtain ⟨v, hheader, hv, rfl⟩ := payload_of_readField_base hR hbase hb
        (fun hne _ _ _ hsub => ih hne hsub) hfirst
      obtain ⟨vs, xs, hxs, rfl, -⟩ := (readFields_scalars_iff hfs hsup).mp hrest
      exact hjoin hheader hv hxs rfl
    | appended hb hfs hbaseroot =>
      rw [readFields_append, Result.bind_eq_ok_iff] at h
      obtain ⟨r₁, s₁, hfirst, hrest⟩ := h
      obtain ⟨vs, xs, hxs, rfl, -⟩ := (readFields_scalars_iff hfs hsup).mp hfirst
      rw [readFields, Result.bind_eq_ok_iff] at hrest
      obtain ⟨r₂, s₂, hb', hnil⟩ := hrest
      obtain rfl : s₂ = s' := (Result.ok.inj hnil).2
      subst hbaseroot
      obtain ⟨v, hheader, hv, rfl⟩ := payload_of_readField_base hR hbase hb
        (fun hne => absurd rfl hne) hb'
      exact hjoin hheader hv hxs rfl
    | headless hfs hbaseroot =>
      obtain ⟨vs, xs, hxs, rfl, -⟩ := (readFields_scalars_iff hfs hsup).mp h
      subst hbaseroot
      exact hjoin (v := header) rfl trivial hxs rfl

end HawkTracer.RoundTrip
