import HawkTracer.RoundTrip.ReadKlass

/-!
# Reading a whole stream back

The rounds of the reader over the stream of a program: the endianness event, the
descriptions of the registry, the system information, and the events.

One round on one event is `HawkTracer.RoundTrip.Delivers`: whatever the byte order of
the stream and of the host, the round consumes the event, delivers it and changes the
register in a given way. Rounds are chained by `HawkTracer.RoundTrip.DeliversAll`. A
description event changes the register as `HawkTracer.RoundTrip.describeKlass` says, a
traced event leaves it alone. The first event is special: it is read before the byte
order is known, which works because its numbers are zeros and single bytes.

`HawkTracer.RoundTrip.readEvents_streamOf` puts the rounds together: what is delivered
is one list for every byte order of the stream and of the host, except for the value of
the endianness event.
-/

namespace HawkTracer.RoundTrip

open HawkTracer.Lib HawkTracer.Parser KlassRegister Reader Registry

variable {P : Platform} {R R' R'' : KlassRegister} {flat : Bool} {depth : ℕ}

/-! ### One round -/

/-- The header event that is passed on to the second read of a round. -/
def passedHeader (P : Platform) (R : KlassRegister) (flat : Bool) (h : HTEvent) : Option Event :=
  if flat then none else some (headerEvent P R h)

theorem passedHeader_ne_none (P : Platform) (flat : Bool) (R : KlassRegister) (h : HTEvent) :
    flat = false → passedHeader P R flat h ≠ none := by
  rintro rfl
  exact Option.some_ne_none _

/-- The event a round ends with. -/
def finishedEvent (P : Platform) (R : KlassRegister) (flat : Bool) (h : HTEvent) (e : Event) :
    Event :=
  if flat then e.merge P (headerEvent P R h) else e

variable {h : HTEvent} {r : Event × Option Event}

/-- A value read in the second part of a round is still there at its end. -/
theorem rawValue_finishedEvent {e : Event} {key : Name} {w : Value} (hw : e.rawValue key = some w) :
    (finishedEvent P R flat h e).rawValue key = some w := by
  cases flat with
  | true => exact (Event.rawValue_merge P e _ key).trans (by rw [hw, Option.some_or])
  | false => exact hw

theorem get_finishedEvent {e : Event} {key : Name} {x : FieldType} (hx : e.get key = some x) :
    (finishedEvent P R flat h e).get key = some x := by
  obtain ⟨w, hw, rfl⟩ := Option.map_eq_some_iff.mp hx
  exact congrArg (Option.map Prod.snd) (rawValue_finishedEvent hw)

@[simp] theorem klass_finishedEvent (h : HTEvent) (e : Event) :
    (finishedEvent P R flat h e).klass = e.klass := by
  cases flat with
  | true => exact Event.klass_merge P e _
  | false => rfl

/-- Reading the header of a round. -/
theorem step_header (hW : R.BuiltIn) (host o : ByteOrder) (h : HTEvent) (rest : List UInt8)
    (ds : List Delivery) :
    step P (streamInput host) flat (depth + 1)
      ⟨h.encode o ++ rest, R, endiannessCode o, ds⟩ =
      if h.klassId = 1 then
        callCallbacks P ⟨rest, R, endiannessCode o, ds⟩ (headerEvent P R h) (headerEvent P R h)
      else
        readBody P (streamInput host) flat (depth + 1) ⟨rest, R, endiannessCode o, ds⟩
          h.klassId (headerEvent P R h) := by
  obtain ⟨k, hk, -⟩ := header_layout hW
  have hread : readEvent P (streamInput host (endiannessCode o)) R flat (depth + 1)
      (.new ((R.getKlass 1).map EventKlass.id)) none (h.encode o ++ rest) =
        .ok (headerEvent P R h, none) rest := by
    rw [hk, Option.map_some, id_of_getKlass hk]
    exact (readEvent_header_iff hW).mpr ⟨h, rfl, rfl⟩
  obtain ⟨-, hid, -⟩ := showsHeader_headerEvent (P := P) hW h
  have hofNat : UInt32.ofNat h.klassId.toNat = h.klassId := UInt32.ofNat_toNat
  simp only [step, hread, Event.getNum_eq hid, hofNat]

variable {k : EventKlass} {payload : ByteOrder → List UInt8} {ds : List Delivery}
  {events : List Instance} {G : Registry} {stamps : ℕ → Stamp}

/-- **A round on an event whose payload is read** ends with the event built from it. -/
theorem step_eq_finish (hW : R.BuiltIn) (hk : R.getKlass h.klassId = some k) (hid : h.klassId ≠ 1)
    (hr : ReadsAs P R flat (depth + 1) h.klassId (passedHeader P R flat h) payload r)
    (host o : ByteOrder) (rest : List UInt8) (ds : List Delivery) :
    step P (streamInput host) flat (depth + 1)
        ⟨h.encode o ++ (payload o ++ rest), R, endiannessCode o, ds⟩ =
      finish P ⟨rest, R, endiannessCode o, ds⟩ h.klassId (headerEvent P R h)
        (finishedEvent P R flat h r.1) := by
  have hread := hr host o rest
  rw [passedHeader] at hread
  rw [step_header hW, if_neg hid, readBody]
  simp only [hk, Option.map_some, id_of_getKlass hk, hread, finishedEvent]

/-- A list of scalar fields is read as one event. -/
theorem readsAs_scalars {id : UInt32} (hk : R.getKlass id = some k) {decls : List FieldDecl}
    (hsig : k.fields.map signature = decls.map declSignature) (hsup : ∀ d ∈ decls, d.Supported)
    {v : (scalarFields decls).Inst} {xs : List FieldType} (hxs : ShowsScalars decls v xs)
    (hdr : Option Event) :
    ReadsAs P R flat (depth + 1) id hdr (fun o => (scalarFields decls).encode o v)
      ((Event.new (some id)).setAll P (k.fields.zip xs), hdr) := fun host o rest => by
  rw [readEvent_succ rfl hk]
  exact (readFields_scalars_iff hsig hsup).mpr ⟨v, xs, hxs, rfl, rfl⟩

/-- **One level of a klass**: how its `base` is read, and then its scalar fields. -/
theorem readsAs_level {id : UInt32} (hk : R.getKlass id = some k) {b : EventKlassField}
    {fs : List EventKlassField} (hfields : k.fields = b :: fs) {decls : List FieldDecl}
    (hsig : fs.map signature = decls.map declSignature) (hsup : ∀ d ∈ decls, d.Supported)
    {v : (scalarFields decls).Inst} {xs : List FieldType} (hxs : ShowsScalars decls v xs)
    {hdr hdr₁ : Option Event} {e₁ : Event}
    (hb : FieldReadsAs P R flat depth b (.new (some id)) hdr payload (e₁, hdr₁)) :
    ReadsAs P R flat (depth + 1) id hdr (fun o => payload o ++ (scalarFields decls).encode o v)
      (e₁.setAll P (fs.zip xs), hdr₁) := fun host o rest => by
  rw [readEvent_succ rfl hk, hfields, readFields, List.append_assoc, hb, Result.ok_bind]
  exact (readFields_scalars_iff hsig hsup).mpr ⟨v, xs, hxs, rfl, rfl⟩

/-! ### Delivering events -/

/-- **One round delivers `d`** and turns the register `R` into `R'`, whatever the byte
order of the stream and of the host. -/
def Delivers (P : Platform) (flat : Bool) (depth : ℕ) (R R' : KlassRegister)
    (bytes : ByteOrder → List UInt8) (d : Delivery) : Prop :=
  ∀ host o rest ds, step P (streamInput host) flat depth
    ⟨bytes o ++ rest, R, endiannessCode o, ds⟩ = (⟨rest, R', endiannessCode o, ds ++ [d]⟩, none)

theorem callCallbacks_eq {σ : Type} {s : σ} {c : UInt8} {header event : Event}
    (h : R.handleRegisterEvents P event = .ok R') :
    callCallbacks P ⟨s, R, c, ds⟩ header event =
      (⟨s, R', c, ds ++ [⟨header, event⟩]⟩, none) := by
  rw [callCallbacks, h]

theorem delivers_of_reads (hW : R.BuiltIn) (hk : R.getKlass h.klassId = some k) (h1 : h.klassId ≠ 1)
    (h0 : h.klassId ≠ 0)
    (hr : ReadsAs P R flat (depth + 1) h.klassId (passedHeader P R flat h) payload r)
    (hreg : R.handleRegisterEvents P (finishedEvent P R flat h r.1) = .ok R') :
    Delivers P flat (depth + 1) R R' (fun o => h.encode o ++ payload o)
      ⟨headerEvent P R h, finishedEvent P R flat h r.1⟩ := by
  intro host o rest ds
  rw [List.append_assoc, step_eq_finish hW hk h1 hr, finish, if_neg h0]
  exact callCallbacks_eq hreg

/-- **An event of an ordinary klass** is delivered and leaves the register as it is. -/
theorem delivers_ordinary (hW : R.BuiltIn) (hk : R.getKlass h.klassId = some k)
    (hid : h.klassId ∉ ([0, 1, 2, 3] : List UInt32))
    (hr : ReadsAs P R flat (depth + 1) h.klassId (passedHeader P R flat h) payload r) :
    Delivers P flat (depth + 1) R R (fun o => h.encode o ++ payload o)
        ⟨headerEvent P R h, finishedEvent P R flat h r.1⟩ ∧
      (finishedEvent P R flat h r.1).klass = some h.klassId := by
  simp only [List.mem_cons, List.not_mem_nil, or_false, not_or] at hid
  obtain ⟨h0, h1, h2, h3⟩ := hid
  have hklass : (finishedEvent P R flat h r.1).klass = some h.klassId := by
    rw [klass_finishedEvent, klass_readEvent (hr .little .little [])]
    rfl
  exact ⟨delivers_of_reads hW hk h1 h0 hr (handleRegisterEvents_other R hklass h2 h3), hklass⟩

/-- **One round after another** delivers `ds` for a list of events and turns the register
`R` into `R'`. -/
inductive DeliversAll (P : Platform) (flat : Bool) (depth : ℕ) :
    KlassRegister → KlassRegister → List Instance → List Delivery → Prop where
  | nil {R : KlassRegister} : DeliversAll P flat depth R R [] []
  | cons {R R' R'' : KlassRegister} {e : Instance} {d : Delivery} {events : List Instance}
      {ds : List Delivery} (h : Delivers P flat depth R R' (fun o => e.encode o) d)
      (hs : DeliversAll P flat depth R' R'' events ds) :
      DeliversAll P flat depth R R'' (e :: events) (d :: ds)

theorem DeliversAll.length_eq (h : DeliversAll P flat depth R R' events ds) :
    ds.length = events.length := by
  induction h with
  | nil => rfl
  | cons _ _ ih => rw [List.length_cons, List.length_cons, ih]

theorem DeliversAll.rounds (h : DeliversAll P flat depth R R' events ds) (host o : ByteOrder)
    (rest : List UInt8) (ds₀ : List Delivery) :
    rounds P (streamInput host) flat depth events.length
        ⟨events.flatMap (Instance.encode o) ++ rest, R, endiannessCode o, ds₀⟩ =
      some ⟨rest, R', endiannessCode o, ds₀ ++ ds⟩ := by
  induction h generalizing ds₀ with
  | nil =>
    rw [List.append_nil]
    rfl
  | @cons _ _ _ e d events ds h _ ih =>
    have hfirst := h host o (events.flatMap (Instance.encode o) ++ rest) ds₀
    rw [← List.append_assoc] at hfirst
    rw [List.flatMap_cons, List.length_cons, rounds_succ hfirst, ih, List.append_assoc,
      List.singleton_append]

theorem DeliversAll.append {events' : List Instance} {ds' : List Delivery}
    (h : DeliversAll P flat depth R R' events ds)
    (h' : DeliversAll P flat depth R' R'' events' ds') :
    DeliversAll P flat depth R R'' (events ++ events') (ds ++ ds') := by
  induction h with
  | nil => exact h'
  | cons hd _ ih => exact .cons hd (ih h')

theorem signature_two (hW : R.BuiltIn) : ∃ k, R.getKlass 2 = some k ∧
    k.fields.map signature = eventKlassInfoEventFields.map declSignature := by
  exact ⟨_, (hW.wellKnown 2 rfl).trans rfl, rfl⟩

theorem signature_three (hW : R.BuiltIn) : ∃ k, R.getKlass 3 = some k ∧
    k.fields.map signature = eventKlassFieldInfoEventFields.map declSignature := by
  exact ⟨_, (hW.wellKnown 3 rfl).trans rfl, rfl⟩

variable (P flat depth)

theorem ofNat_toNat_ofNat (i : ℕ) : UInt32.ofNat (BitVec.ofNat 32 i).toNat = UInt32.ofNat i := by
  refine UInt32.toNat_inj.mp ?_
  simp

/-- **The description of a klass adds it to the register**, and is delivered with the name and
the identifier. -/
theorem delivers_klassInfoEvent (hW : R.BuiltIn) (s : Stamp) (i : ℕ) (K : Klass) :
    ∃ d, Delivers P flat (depth + 1) R (R.addKlass (.new K.typeName.bytes (UInt32.ofNat i)))
        (fun o => (klassInfoEvent s i K).encode o) d ∧ d.event.klass = some 2 ∧
      d.event.get (ascii "event_klass_name") = some (.str K.typeName.bytes) ∧
      d.event.get (ascii "info_klass_id") = some (.num .uint32 (BitVec.ofNat 32 i).toNat) := by
  obtain ⟨k, hk, hsig⟩ := signature_two hW
  let v : (scalarFields eventKlassInfoEventFields).Inst :=
    (BitVec.ofNat 32 i, some K.typeName, BitVec.ofNat 8 K.fields.infos.length, ())
  have hxs : ShowsScalars eventKlassInfoEventFields v [.num .uint32 (BitVec.ofNat 32 i).toNat,
      .str K.typeName.bytes, .num .uint8 (BitVec.ofNat 8 K.fields.infos.length).toNat] :=
    ⟨_, _, rfl, rfl, _, _, rfl, rfl, _, _, rfl, rfl, rfl⟩
  have hget := get_setAll_zip (P := P) hsig hxs (some 2)
  let e := finishedEvent P R flat ⟨2, s.timestamp, s.id⟩ ((Event.new (some 2)).setAll P
    (k.fields.zip [.num .uint32 (BitVec.ofNat 32 i).toNat, .str K.typeName.bytes,
      .num .uint8 (BitVec.ofNat 8 K.fields.infos.length).toNat]))
  have hklass : e.klass = some 2 := by simp [e, Event.new]
  have hid : e.get (ascii "info_klass_id") = some (.num .uint32 (BitVec.ofNat 32 i).toNat) :=
    get_finishedEvent (hget (ascii "info_klass_id", _) (.head _))
  have hname : e.get (ascii "event_klass_name") = some (.str K.typeName.bytes) :=
    get_finishedEvent (hget (ascii "event_klass_name", _) (.tail _ (.head _)))
  have hreg := handleRegisterEvents_klassInfo (P := P) R hklass hid hname
  rw [ofNat_toNat_ofNat] at hreg
  exact ⟨_, delivers_of_reads (h := ⟨2, s.timestamp, s.id⟩) hW hk
    (show (2 : UInt32) ≠ 1 by decide) (show (2 : UInt32) ≠ 0 by decide)
    (readsAs_scalars hk hsig (by decide) hxs _) hreg, hklass, hname, hid⟩

theorem extDataType_lt (info : FieldInfo) : info.extDataType < 256 := by
  unfold FieldInfo.extDataType
  split
  · decide
  · cases info.dataType <;> decide

/-- **The description of a field adds it to its klass**, unless the klass is well
known. -/
theorem delivers_fieldInfoEvent (hW : R.BuiltIn) (s : Stamp) (i : ℕ) {info : FieldInfo}
    (hi : isWellKnownKlass (UInt32.ofNat i) = false →
      Readable info ∧ ∃ k, R.getKlass (UInt32.ofNat i) = some k) :
    ∃ d, Delivers P flat (depth + 1) R (describeField P i R info)
      (fun o => (fieldInfoEvent s i info).encode o) d := by
  obtain ⟨k, hk, hsig⟩ := signature_three hW
  let v : (scalarFields eventKlassFieldInfoEventFields).Inst :=
    (BitVec.ofNat 32 i, some info.fieldType, some info.fieldName, BitVec.ofNat 64 info.size,
      BitVec.ofNat 8 info.extDataType, ())
  have hext : (BitVec.ofNat 8 info.extDataType).toNat = info.extDataType := by
    rw [BitVec.toNat_ofNat]
    exact Nat.mod_eq_of_lt (extDataType_lt info)
  have hxs : ShowsScalars eventKlassFieldInfoEventFields v [.num .uint32 (BitVec.ofNat 32 i).toNat,
      .str info.fieldType.bytes, .str info.fieldName.bytes, .num .uint64 (info.size % 2 ^ 64),
      .num .uint8 info.extDataType] :=
    ⟨_, _, rfl, rfl, _, _, rfl, rfl, _, _, rfl, rfl, _, _, rfl, rfl, _, _, rfl,
      congrArg (FieldType.num .uint8) hext.symm, rfl⟩
  have hget := get_setAll_zip (P := P) hsig hxs (some 3)
  refine ⟨_, delivers_of_reads (h := ⟨3, s.timestamp, s.id⟩) hW hk (show (3 : UInt32) ≠ 1 by decide)
    (show (3 : UInt32) ≠ 0 by decide) (readsAs_scalars hk hsig (by decide) hxs _) ?_⟩
  rw [describeField]
  cases hw : isWellKnownKlass (UInt32.ofNat i) with
  | true =>
    rw [if_pos rfl]
    refine handleRegisterEvents_wellKnown R (by simp [Event.new])
      (get_finishedEvent (hget (ascii "info_klass_id", _) (.head _))) ?_
    rw [ofNat_toNat_ofNat, hw]
  | false =>
    obtain ⟨hread, k', hk'⟩ := hi hw
    rw [if_neg (by decide), ← addKlassField_of_mem hk', ← ofNat_toNat_ofNat i]
    refine (handleRegisterEvents_fieldInfo R (by simp [Event.new])
      (get_finishedEvent (hget (ascii "info_klass_id", _) (.head _)))
      (by rw [ofNat_toNat_ofNat, hw])
      (get_finishedEvent (hget (ascii "data_type", _)
        (.tail _ (.tail _ (.tail _ (.tail _ (.head _)))))))
      (get_finishedEvent (hget (ascii "field_type", _) (.tail _ (.head _))))
      (get_finishedEvent (hget (ascii "field_name", _) (.tail _ (.tail _ (.head _)))))
      (get_finishedEvent (hget (ascii "size", _) (.tail _ (.tail _ (.tail _ (.head _))))))).trans ?_
    rw [hread]
    rfl

theorem idOf_htEventKlass (G : Registry) : G.idOf htEventKlass.typeName = 1 :=
  idOf_eq (i := 1) (core_getElem? (by decide))

theorem idOf_ne_one {K : Klass} (hK : K ∈ G.klasses) (hroot : K ≠ htEventKlass) :
    G.idOf K.typeName ≠ 1 := fun h =>
  hroot (idOf_injOn hK htEventKlass_mem (h.trans (idOf_htEventKlass G).symm))

theorem exists_getKlass_of_mem (hR : Describes G G.klasses.length R) {K : Klass}
    (hK : K ∈ G.klasses) : ∃ k, R.getKlass (G.idOf K.typeName) = some k := by
  obtain ⟨i, -, hi⟩ := exists_index hK
  obtain ⟨k, hk, -, -⟩ := hR.described i K (List.getElem?_eq_some_iff.mp hi).1 hi
  rw [← idOf_eq hi] at hk
  exact ⟨k, hk⟩

/-- **A traced event without `NULL` strings is delivered**, and in nested mode the
delivered event shows it. -/
theorem delivers_traced (hR : Describes G G.klasses.length R) (e : G.Traced)
    (hnull : e.klass.fields.NullFree e.val) (hdepth : e.klass.fields.depth ≤ depth + 1) :
    ∃ d, Delivers P flat (depth + 1) R R (fun o => e.encode o) d ∧
      (flat = false → Shows hasBase G e.klass.fields e.klass.typeName e.val d.event) := by
  obtain ⟨⟨K, v⟩, hmem, hid, hord⟩ := e
  simp only [List.mem_cons, List.not_mem_nil, or_false, not_or] at hord
  obtain ⟨h0, h2, h3⟩ := hord
  have hW := hR.keeps
  have hshow : ∀ h, Shows hasBase G .htEvent htEventKlass.typeName h (headerEvent P R h) := by
    intro h
    obtain ⟨hklass, hheader⟩ := showsHeader_headerEvent (P := P) hW h
    exact ⟨by rw [hklass, idOf_htEventKlass], hheader⟩
  by_cases hroot : K = htEventKlass
  · subst hroot
    change HTEvent at v
    replace hid : v.klassId = 1 := hid.trans (idOf_htEventKlass G)
    refine ⟨⟨headerEvent P R v, headerEvent P R v⟩, fun host o rest ds => ?_, fun _ => hshow v⟩
    have hklass := (hshow v).1
    rw [idOf_htEventKlass] at hklass
    have henc : Instance.encode o ⟨htEventKlass, v⟩ = v.encode o := rfl
    have hreg : R.handleRegisterEvents P (headerEvent P R v) = .ok R :=
      handleRegisterEvents_other R hklass (by decide) (by decide)
    simp only [henc]
    rw [step_header hW, if_pos hid]
    exact callCallbacks_eq hreg
  · obtain ⟨k, hk⟩ := exists_getKlass_of_mem hR hmem
    rw [← hid] at hk
    obtain ⟨r, hr, hshows⟩ := readEvent_payload (P := P) hR hmem hroot hnull hdepth
      (passedHeader_ne_none P flat R (K.fields.header v))
    have hordinary : (K.fields.header v).klassId ∉ ([0, 1, 2, 3] : List UInt32) := by
      have h1 := idOf_ne_one hmem hroot
      rw [hid]
      simp only [List.mem_cons, List.not_mem_nil, or_false, not_or]
      exact ⟨h0, h1, h2, h3⟩
    refine ⟨⟨headerEvent P R (K.fields.header v), finishedEvent P R flat (K.fields.header v) r.1⟩,
      ?_, ?_⟩
    · have hdel := (delivers_ordinary hW hk hordinary (hid ▸ hr)).1
      intro host o rest ds
      change step P _ flat _ ⟨K.fields.encode o v ++ rest, R, endiannessCode o, ds⟩ = _
      rw [encode_eq o hmem v]
      exact hdel host o rest ds
    · rintro rfl
      exact hshows rfl _ rfl (hshow _)

/-! ### The endianness event -/

/-- What is delivered for the endianness event of a stream of byte order `o`. -/
def endiannessDelivery (P : Platform) (flat : Bool) (o : ByteOrder) : Delivery :=
  ⟨headerEvent P .new ⟨0, 0, 0⟩, finishedEvent P .new flat ⟨0, 0, 0⟩
    ((Event.new (some 0)).setValue P ⟨ascii "endianness", ascii "uint8_t", .uint8, none⟩
      (.num .uint8 (endiannessCode o).toNat))⟩

/-- The endianness event reads the same in both byte orders. -/
theorem encode_endiannessInfoEvent (H : Host) (o : ByteOrder) :
    (endiannessInfoEvent H).encode o = (⟨0, 0, 0⟩ : HTEvent).encode .little ++
      (scalarFields endiannessInfoEventFields).encode .little
        ((endiannessCode H.order).toBitVec, ()) := by
  have hbyte : ∀ n, toBytes o 1 n = toBytes .little 1 n := fun n => by cases o <;> rfl
  change (toBytes o 4 0 ++ toBytes o 8 0 ++ toBytes o 8 0) ++ (toBytes o 1 _ ++ []) = _
  rw [toBytes_zero o .little 4, toBytes_zero o .little 8, hbyte]
  rfl

/-- **The first round tells the reader the byte order** of the stream, which it did not
know before. -/
theorem step_endiannessInfoEvent (host : ByteOrder) (H : Host) (o : ByteOrder) (rest : List UInt8)
    (ds : List Delivery) :
    step P (streamInput host) flat (depth + 1)
        ⟨(endiannessInfoEvent (H.inOrder o)).encode o ++ rest, .new, 0, ds⟩ =
      (⟨rest, .new, endiannessCode o, ds ++ [endiannessDelivery P flat o]⟩, none) := by
  have hxs : ShowsScalars endiannessInfoEventFields ((endiannessCode o).toBitVec, ())
      [.num .uint8 (endiannessCode o).toNat] := ⟨_, _, rfl, rfl, rfl⟩
  have hread : ReadsAs P .new flat (depth + 1) 0 (passedHeader P .new flat ⟨0, 0, 0⟩) _ _ :=
    readsAs_scalars rfl rfl (by decide) hxs _
  have hstep := step_eq_finish (h := ⟨0, 0, 0⟩) builtIn_new rfl
    (show (0 : UInt32) ≠ 1 by decide) hread host .little rest ds
  change _ = finish P ⟨rest, .new, endiannessCode .little, ds⟩ 0
    (headerEvent P .new ⟨0, 0, 0⟩) (endiannessDelivery P flat o).event at hstep
  have hget : ((Event.new (some 0)).setValue P ⟨ascii "endianness", ascii "uint8_t", .uint8, none⟩
      (.num .uint8 (endiannessCode o).toNat)).get (ascii "endianness") =
        some (.num .uint8 (endiannessCode o).toNat) := by
    rw [Event.get_setValue, Event.get_new, Option.none_or, if_pos rfl]
  have hnum : (endiannessDelivery P flat o).event.getNum (ascii "endianness") =
      .ok (endiannessCode o).toNat := Event.getNum_eq (get_finishedEvent hget)
  have hklass : (endiannessDelivery P flat o).event.klass = some 0 := klass_finishedEvent _ _
  rw [encode_endiannessInfoEvent, List.append_assoc]
  refine hstep.trans ?_
  rw [finish, if_pos rfl, hnum]
  simp only [UInt8.ofNat_toNat]
  exact callCallbacks_eq (handleRegisterEvents_other .new hklass (by decide) (by decide))

/-! ### The descriptions and the events -/

/-- The description of a klass leaves a klass under its identifier. -/
theorem exists_getKlass_addKlass (R : KlassRegister) (name : Name) (id : UInt32) :
    ∃ k, (R.addKlass (.new name id)).getKlass id = some k := by
  rw [getKlass_addKlass]
  rcases R.getKlass id with _ | k
  · exact ⟨_, if_pos rfl⟩
  · exact ⟨k, rfl⟩

/-- The descriptions of the fields of a klass. -/
theorem deliversAll_fieldDescriptions (hW : R.BuiltIn) (stamps : ℕ → Stamp) (i n : ℕ)
    {infos : List FieldInfo} (hi : isWellKnownKlass (UInt32.ofNat i) = false →
      (∀ info ∈ infos, Readable info) ∧ ∃ k, R.getKlass (UInt32.ofNat i) = some k) :
    ∃ ds, DeliversAll P flat (depth + 1) R (infos.foldl (describeField P i) R)
        (fieldDescriptions stamps i n infos) ds ∧
      ∀ d ∈ ds, ∃ R R' s info, R.BuiltIn ∧
        Delivers P flat (depth + 1) R R' (fun o => (fieldInfoEvent s i info).encode o) d := by
  induction infos generalizing R n with
  | nil => exact ⟨[], .nil, fun _ hd => absurd hd List.not_mem_nil⟩
  | cons info infos ih =>
    obtain ⟨d, hd⟩ := delivers_fieldInfoEvent P flat depth hW (stamps n) i fun hw =>
      ⟨(hi hw).1 info List.mem_cons_self, (hi hw).2⟩
    obtain ⟨ds, hds, hfields⟩ := ih (builtIn_describeField hW i info) (n + 1) fun hw =>
      ⟨fun info' hmem => (hi hw).1 info' (List.mem_cons_of_mem _ hmem),
        exists_getKlass_describeField (hi hw).2 info⟩
    exact ⟨d :: ds, .cons hd hds, List.forall_mem_cons.mpr ⟨⟨_, _, _, _, hW, hd⟩, hfields⟩⟩

/-- The descriptions of a klass. -/
theorem deliversAll_klassDescriptions (hW : R.BuiltIn) (stamps : ℕ → Stamp) (i n : ℕ) {K : Klass}
    (hi : isWellKnownKlass (UInt32.ofNat i) = false →
      ∀ info ∈ K.fields.infos, Readable info) :
    ∃ ds, DeliversAll P flat (depth + 1) R (describeKlass P i R K) (klassDescriptions stamps i n K)
      ds := by
  obtain ⟨d, hd, -⟩ := delivers_klassInfoEvent P flat depth hW (stamps n) i K
  obtain ⟨ds, hds, -⟩ := deliversAll_fieldDescriptions P flat depth
    (hW.addKlass (.new K.typeName.bytes (UInt32.ofNat i))) stamps i (n + 1)
    fun hw => ⟨hi hw, exists_getKlass_addKlass R _ _⟩
  exact ⟨d :: ds, .cons hd hds⟩

/-- **The descriptions of a list of klasses build the register.** -/
theorem deliversAll_descriptions (hW : R.BuiltIn) (stamps : ℕ → Stamp) (i n : ℕ) {Ks : List Klass}
    (hi : ∀ j K, Ks[j]? = some K → isWellKnownKlass (UInt32.ofNat (i + j)) = false →
      ∀ info ∈ K.fields.infos, Readable info) :
    ∃ ds, DeliversAll P flat (depth + 1) R (describeFrom P i R Ks) (descriptions stamps i n Ks)
      ds := by
  induction Ks generalizing R i n with
  | nil => exact ⟨[], .nil⟩
  | cons K Ks ih =>
    obtain ⟨ds, hds⟩ := deliversAll_klassDescriptions P flat depth hW stamps i n (hi 0 K rfl)
    obtain ⟨ds', hds'⟩ := ih (builtIn_describeKlass hW i K) (i + 1)
      (n + (K.fields.infos.length + 1))
      fun j K' hj => by
        rw [Nat.add_assoc, Nat.add_comm 1 j]
        exact hi (j + 1) K' hj
    exact ⟨ds ++ ds', hds.append hds'⟩

variable {P flat depth} in
/-- Events that are delivered one by one are delivered one after another. -/
theorem deliversAll_of_each {α : Type} {f : α → Instance} {Q : α → Delivery → Prop}
    {events : List α}
    (h : ∀ e ∈ events, ∃ d, Delivers P flat depth R R (fun o => (f e).encode o) d ∧ Q e d) :
    ∃ ds, DeliversAll P flat depth R R (events.map f) ds ∧ List.Forall₂ Q events ds := by
  induction events with
  | nil => exact ⟨[], .nil, .nil⟩
  | cons e events ih =>
    obtain ⟨d, hd, hd'⟩ := h e List.mem_cons_self
    obtain ⟨ds, hds, hall⟩ := ih fun e' hmem => h e' (List.mem_cons_of_mem _ hmem)
    exact ⟨d :: ds, .cons hd hds, .cons hd' hall⟩

/-- Traced events without `NULL` strings are delivered one after another. -/
theorem deliversAll_traced (hR : Describes G G.klasses.length R) {events : List G.Traced}
    (hnull : ∀ e ∈ events, e.klass.fields.NullFree e.val)
    (hdepth : ∀ K ∈ G.klasses, K.fields.depth ≤ depth + 1) :
    ∃ ds, DeliversAll P flat (depth + 1) R R (events.map Registry.Traced.toInstance) ds ∧
      List.Forall₂ (fun e d => flat = false →
        Shows hasBase G e.klass.fields e.klass.typeName e.val d.event) events ds :=
  deliversAll_of_each fun e hmem =>
    delivers_traced P flat depth hR e (hnull e hmem) (hdepth _ e.mem)

/-! ### The whole stream -/

/-- The stream of a program: the metadata chunks, then what `serialize` writes for its
events. -/
def streamOf (H : Host) (stamps : ℕ → Stamp) (G : Registry) (events : List G.Traced) : List UInt8 :=
  (pushMetadata H stamps true G.klasses).1.flatten ++ events.flatMap fun e => e.output H.order

/-- The event with the system information, as an event of the registry. -/
def systemTraced (H : Host) (G : Registry) : G.Traced where
  toInstance := systemInfoEvent H
  mem := core_mem (by simp [coreKlasses, systemInfoEvent])
  klassId_eq := (idOf_eq (i := 8) (core_getElem? (by decide))).symm
  ordinary := by
    rw [show G.idOf (systemInfoEvent H).klass.typeName = 8 from
      idOf_eq (i := 8) (core_getElem? (by decide))]
    decide

/-- The stream is the serialized form of the metadata events and of the events. -/
theorem streamOf_eq (H : Host) (stamps : ℕ → Stamp) (G : Registry) (events : List G.Traced) :
    streamOf H stamps G events =
      (metadataEvents H stamps G.klasses).flatMap (Instance.encode H.order) ++
        (events.map Registry.Traced.toInstance).flatMap (Instance.encode H.order) := by
  have hout : ∀ e : G.Traced, e.output H.order = e.encode H.order := fun e =>
    Instance.output_eq H.order (baseFirst_of_mem e.mem)
  rw [streamOf, flatten_pushMetadata H stamps fun K hK => fits_of_mem hK, List.flatMap_map]
  exact congrArg (fun f => _ ++ events.flatMap f) (funext hout)

/-- At the end of the stream the next header cannot be read. -/
theorem step_nil (hW : R.BuiltIn) (host : ByteOrder) (c : UInt8) (ds : List Delivery) :
    step P (streamInput host) flat (depth + 1) (⟨[], R, c, ds⟩ : Reader FileStream) =
      (⟨[], R, c, ds⟩, some .error) := by
  obtain ⟨k, hk, hsig⟩ := header_layout hW
  obtain ⟨f, fs, hfields, hf, -⟩ := List.map_eq_cons_iff.mp hsig
  have htype : f.typeId = .uint32 := congrArg Prod.snd hf
  have hread : readEvent P (streamInput host c) R flat (depth + 1)
      (.new ((R.getKlass 1).map EventKlass.id)) none ([] : FileStream) = .stop .error [] := by
    rw [hk, Option.map_some, id_of_getKlass hk, readEvent_succ rfl hk, hfields,
      readFields, readField_num _ (by rw [htype]; rfl), htype]
    rfl
  simp only [step, hread]

/-- A reader that has consumed the whole stream stops in the next round. -/
theorem readEvents_of_rounds {host : ByteOrder} {s : FileStream} {n : ℕ} {c : UInt8}
    (hW : R.BuiltIn) (hn : n ≤ s.length)
    (h : (Reader.new s).rounds P (streamInput host) flat (depth + 1) n = some ⟨[], R, c, ds⟩) :
    readEvents host P flat (depth + 1) s = (⟨[], R, c, ds⟩, .error) := by
  obtain ⟨m, hm⟩ := Nat.exists_eq_add_of_le hn
  have hfuel : Stream.avail s + 1 = m + 1 + n := by
    change s.length + 1 = _
    omega
  rw [readEvents, hfuel, run_of_rounds h, run_stop (step_nil P flat depth hW host c ds)]

theorem length_le_length_flatMap {α β : Type} {l : List α} {f : α → List β}
    (h : ∀ a ∈ l, f a ≠ []) : l.length ≤ (l.flatMap f).length := by
  induction l with
  | nil => exact Nat.zero_le _
  | cons a l ih =>
    have hpos := List.length_pos_iff.mpr (h a List.mem_cons_self)
    have hrest := ih fun b hb => h b (List.mem_cons_of_mem _ hb)
    rw [List.flatMap_cons, List.length_append, List.length_cons]
    omega

theorem encode_ne_nil_of_getSize {e : Instance} (h : 0 < e.getSize) (o : ByteOrder) :
    e.encode o ≠ [] := by
  rw [← List.length_pos_iff, Instance.length_encode]
  exact h

theorem encode_ne_nil_of_traced (e : G.Traced) (o : ByteOrder) : e.encode o ≠ [] := by
  rw [← List.length_pos_iff, Instance.encode, encode_eq o e.mem, List.length_append,
    HTEvent.length_encode]
  omega

/-- The register once a registry has been described. -/
def describedRegister (G : Registry) : KlassRegister := describeFrom P 0 .new G.klasses

theorem describes_describedRegister (G : Registry) :
    Describes G G.klasses.length (describedRegister P G) := by
  have h : Describes G (0 + G.klasses.length) (describeFrom P 0 .new G.klasses) :=
    (describes_new G).run rfl
  rwa [Nat.zero_add] at h

/-- A klass with a field that cannot be described is `HTEvent`, whose fields are not. -/
theorem readable_of_getElem? {j : ℕ} {K : Klass} (hj : G.klasses[j]? = some K)
    (hw : isWellKnownKlass (UInt32.ofNat (0 + j)) = false) :
    ∀ info ∈ K.fields.infos, Readable info := by
  intro info hinfo
  refine readable_of_mem (List.mem_of_getElem? hj) ?_ hinfo
  rintro rfl
  have hid := (idOf_eq hj).symm.trans (idOf_htEventKlass G)
  rw [Nat.zero_add, hid] at hw
  cases hw

/-- The rounds over the metadata behind the endianness event, if the descriptions are
accepted and the system information can be read in the end. -/
theorem deliversAll_metadata_of (H : Host) (stamps : ℕ → Stamp) {Ks : List Klass}
    (hreadable : ∀ j K, Ks[j]? = some K →
      isWellKnownKlass (UInt32.ofNat (0 + j)) = false →
      ∀ info ∈ K.fields.infos, Readable info)
    (hsystem : ∃ d, Delivers P flat (depth + 1) (describeFrom P 0 .new Ks)
      (describeFrom P 0 .new Ks) (fun o => (systemInfoEvent H).encode o) d) :
    ∃ ds, DeliversAll P flat (depth + 1) .new (describeFrom P 0 .new Ks)
      (descriptions stamps 0 0 Ks ++ [systemInfoEvent H]) ds := by
  obtain ⟨ds, hds⟩ := deliversAll_descriptions P flat depth builtIn_new stamps 0 0 hreadable
  obtain ⟨d, hd⟩ := hsystem
  exact ⟨ds ++ [d], hds.append (.cons hd .nil)⟩

/-- **The metadata of a registry is delivered** and leaves the described register. -/
theorem deliversAll_metadata (H : Host) (stamps : ℕ → Stamp) (G : Registry) :
    ∃ ds, DeliversAll P flat (depth + 1) .new (describedRegister P G)
      (descriptions stamps 0 0 G.klasses ++ [systemInfoEvent H]) ds := by
  obtain ⟨d, hd, -⟩ := delivers_traced P flat depth (describes_describedRegister P G)
    (systemTraced H G) ⟨trivial, trivial, trivial, trivial, trivial⟩
    (show Fields.depth _ ≤ _ from Nat.succ_le_succ (Nat.zero_le _))
  exact deliversAll_metadata_of P flat depth H stamps (fun _ _ => readable_of_getElem?) ⟨d, hd⟩

/-- **The rounds over a stream** whose events are delivered behind the endianness
event. -/
theorem rounds_endianness_cons {H : Host} (h : DeliversAll P flat (depth + 1) .new R events ds)
    (host o : ByteOrder) (rest : List UInt8) :
    rounds P (streamInput host) flat (depth + 1) (events.length + 1)
        (Reader.new ((endiannessInfoEvent (H.inOrder o) :: events).flatMap (Instance.encode o) ++
          rest)) =
      some ⟨rest, R, endiannessCode o, endiannessDelivery P flat o :: ds⟩ := by
  rw [Reader.new, List.flatMap_cons, List.append_assoc,
    rounds_succ (step_endiannessInfoEvent P flat depth host H o _ [])]
  exact h.rounds host o rest [endiannessDelivery P flat o]

theorem encode_ne_nil_of_mem_metadataEvents {H : Host} {Ks : List Klass} (o : ByteOrder)
    {e : Instance} (he : e ∈ metadataEvents H stamps Ks) : e.encode o ≠ [] := by
  rcases List.mem_append.mp he with he | he
  · rcases List.mem_cons.mp he with rfl | he
    · exact encode_ne_nil_of_getSize (e := endiannessInfoEvent H) (show 0 < 21 by decide) _
    · exact encode_ne_nil_of_getSize (isDescription_of_mem he).getSize_pos o
  · cases List.mem_singleton.mp he
    exact encode_ne_nil_of_getSize (e := systemInfoEvent H) (show 0 < 23 by decide) _

/-- There are no more events than bytes. -/
theorem length_le_length_streamOf (H : Host) (stamps : ℕ → Stamp) (events : List G.Traced) :
    (metadataEvents H stamps G.klasses).length + events.length ≤
      (streamOf H stamps G events).length := by
  rw [streamOf_eq, ← List.length_map Registry.Traced.toInstance, ← List.length_append,
    ← List.flatMap_append]
  refine length_le_length_flatMap fun e he => ?_
  rcases List.mem_append.mp he with he | he
  · exact encode_ne_nil_of_mem_metadataEvents _ he
  · obtain ⟨e', -, rfl⟩ := List.mem_map.mp he
    exact encode_ne_nil_of_traced e' _

/-- A bound on the depth of every klass is positive. -/
theorem exists_depth_succ {depth : ℕ} (hdepth : ∀ K ∈ G.klasses, K.fields.depth ≤ depth) :
    ∃ d, depth = d + 1 := by
  have h1 := hdepth endiannessInfoEventKlass (core_mem (by simp [coreKlasses]))
  rw [endiannessInfoEventKlass, depth_declareEventKlass] at h1
  exact ⟨depth - 1, by omega⟩

/-- The events of the stream of a program, behind the endianness event. -/
def eventsBehind (H : Host) (stamps : ℕ → Stamp) (G : Registry) (events : List G.Traced) :
    List Instance :=
  descriptions stamps 0 0 G.klasses ++ [systemInfoEvent H] ++
    events.map Registry.Traced.toInstance

theorem streamOf_eq_cons (H : Host) (stamps : ℕ → Stamp) (G : Registry) (events : List G.Traced) :
    streamOf H stamps G events =
      (endiannessInfoEvent H :: eventsBehind H stamps G events).flatMap
        (Instance.encode H.order) := by
  rw [streamOf_eq, ← List.flatMap_append]
  rfl

/-- **The events of the stream of a program are delivered**, the metadata first. -/
theorem deliversAll_eventsBehind (H : Host) (stamps : ℕ → Stamp) {events : List G.Traced}
    (hnull : ∀ e ∈ events, e.klass.fields.NullFree e.val)
    (hdepth : ∀ K ∈ G.klasses, K.fields.depth ≤ depth + 1) :
    ∃ metadata ds, DeliversAll P flat (depth + 1) .new (describedRegister P G)
        (eventsBehind H stamps G events) (metadata ++ ds) ∧
      metadata.length + 1 = (metadataEvents H stamps G.klasses).length ∧
      List.Forall₂ (fun e d => flat = false →
        Shows hasBase G e.klass.fields e.klass.typeName e.val d.event) events ds := by
  obtain ⟨metadata, hmeta⟩ := deliversAll_metadata P flat depth H stamps G
  obtain ⟨ds, hds, hshows⟩ :=
    deliversAll_traced P flat depth (describes_describedRegister P G) hnull hdepth
  exact ⟨metadata, ds, hmeta.append hds, by rw [hmeta.length_eq]; rfl, hshows⟩

/-- **Reading a stream to its end**, once it is known how its events are delivered. -/
theorem readEvents_of_deliversAll {H : Host} {events : List G.Traced}
    (hall : DeliversAll P flat (depth + 1) .new (describedRegister P G)
      (eventsBehind H stamps G events) ds) (host o : ByteOrder) :
    readEvents host P flat (depth + 1) (streamOf (H.inOrder o) stamps G events : FileStream) =
      (⟨[], describedRegister P G, endiannessCode o, endiannessDelivery P flat o :: ds⟩,
        .error) := by
  have hrounds := rounds_endianness_cons P flat depth (H := H) hall host o []
  rw [List.append_nil] at hrounds
  -- the loop is bounded by the bytes of the file, and no event is empty
  have hbytes : (eventsBehind H stamps G events).length + 1 ≤
      (streamOf (H.inOrder o) stamps G events).length := by
    refine le_trans (le_of_eq ?_) (length_le_length_streamOf (H.inOrder o) stamps events)
    simp only [eventsBehind, metadataEvents, List.length_append, List.length_cons, List.length_nil,
      List.length_map]
    omega
  rw [streamOf_eq_cons] at hbytes ⊢
  exact readEvents_of_rounds P flat depth (describes_describedRegister P G).keeps hbytes hrounds

/-- **Reading the stream of a program**: whatever the byte order of the stream and of
the host, the reader goes through to the end and delivers the endianness event, the
same metadata events and the same events, which in nested mode show the traced ones. -/
theorem readEvents_streamOf (H : Host) (stamps : ℕ → Stamp) {events : List G.Traced}
    (hnull : ∀ e ∈ events, e.klass.fields.NullFree e.val)
    (hdepth : ∀ K ∈ G.klasses, K.fields.depth ≤ depth) :
    ∃ metadata ds, (∀ host o,
        readEvents host P flat depth (streamOf (H.inOrder o) stamps G events : FileStream) =
          (⟨[], describedRegister P G, endiannessCode o,
            endiannessDelivery P flat o :: (metadata ++ ds)⟩, .error)) ∧
      metadata.length + 1 = (metadataEvents H stamps G.klasses).length ∧
      List.Forall₂ (fun e d => flat = false →
        Shows hasBase G e.klass.fields e.klass.typeName e.val d.event) events ds := by
  obtain ⟨depth, rfl⟩ := exists_depth_succ hdepth
  obtain ⟨metadata, ds, hall, hlen, hshows⟩ :=
    deliversAll_eventsBehind P flat depth H stamps hnull hdepth
  exact ⟨metadata, ds, readEvents_of_deliversAll P flat depth hall, hlen, hshows⟩

end HawkTracer.RoundTrip
