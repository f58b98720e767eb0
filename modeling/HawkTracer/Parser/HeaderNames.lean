import HawkTracer.Parser.Descriptions
import HawkTracer.Parser.Flat
import HawkTracer.Parser.Grammar

/-!
# Fields with the names of the header

In flat mode the numbers and strings of an event are stored under their names, the first of each
name, and the header is merged last. So a field of the event that is called `klass_id`,
`timestamp` or `id`, at whatever level, keeps the value of the header out.

`HawkTracer.Parser.Leaves` unfolds the fields of a klass to the numbers and strings they come
to. A klass has no such list if one of its events can never be read: if it comes to a pointer, to
a struct that is not described, or to a struct that contains itself. Reading an event stores
nothing but leaves (`HawkTracer.Parser.leaves_of_readEvent`), and a file can give every leaf the
value that one byte repeated makes (`HawkTracer.Parser.Leaves.exists_read`). Hence the events of a
klass all have the values of their headers exactly if no leaf has one of the three names
(`HawkTracer.Parser.headersKept_iff`). The cached timestamp needs no argument of its own: it
always is what is stored under `timestamp` (`HawkTracer.Parser.Event.Cached`).
-/

namespace HawkTracer.Parser

open KlassRegister

/-! ### The cached timestamp -/

/-- **The cached timestamp is the stored one**; it is `(HT_TimestampNs)-1` as long as there is
none. -/
def Event.Cached (P : Platform) (e : Event) : Prop :=
  e.timestamp = ((e.get (ascii "timestamp")).map P.asTimestamp).getD 0xffffffffffffffff

section Cached

variable {P : Platform} {e : Event}

theorem Event.cached_new (klass : Option UInt32) : (Event.new klass).Cached P := rfl

theorem Event.Cached.setValue (h : e.Cached P) (f : EventKlassField) (x : FieldType) :
    (e.setValue P f x).Cached P := by
  by_cases hf : f.name = ascii "timestamp"
  · -- there is a value under the name now, the one the timestamp is taken from
    have hmem : f.name ∈ (insertNew Value.name e.values (f, x)).map Value.name :=
      @key_mem_insertNew _ _ _ Value.name e.values (f, x)
    obtain ⟨w, hw⟩ := Option.ne_none_iff_exists'.mp fun hn => findKey_eq_none_iff.mp hn hmem
    rw [Event.Cached, ← hf]
    simp only [Event.get, Event.setValue, hw, if_pos hf, Option.map_some, Option.getD_some]
  · rw [Event.Cached, Event.get_setValue, if_neg hf, Option.or_none]
    simp only [Event.setValue, if_neg hf]
    exact h

theorem Event.Cached.setAll (h : e.Cached P) (vs : List Value) : (e.setAll P vs).Cached P := by
  induction vs generalizing e with
  | nil => exact h
  | cons v vs ih => exact ih (h.setValue v.1 v.2)

theorem Event.Cached.merge (h : e.Cached P) (e' : Event) : (e.merge P e').Cached P :=
  h.setAll e'.values

end Cached

/-! ### Leaves -/

section Leaves

variable (P : Platform) (R : KlassRegister)

/-- **The numbers and strings a list of fields comes to**, in the order in which they are
read. -/
inductive Leaves : List EventKlassField → List EventKlassField → Prop
  | nil : Leaves [] []
  | leaf {f : EventKlassField} {fs ls : List EventKlassField}
      (hf : f.typeId.isNumeric = true ∨ f.typeId = .string) (h : Leaves fs ls) :
      Leaves (f :: fs) (f :: ls)
  | header {f : EventKlassField} {fs ls : List EventKlassField} (hf : f.typeId = .struct)
      (hheader : f.isHeader = true) (h : Leaves fs ls) : Leaves (f :: fs) ls
  | struct {f : EventKlassField} {fs ls ls' : List EventKlassField} {k : EventKlass}
      (hf : f.typeId = .struct) (hheader : ¬ f.isHeader = true)
      (hk : structKlass P R f = some k) (hsub : Leaves k.fields ls) (h : Leaves fs ls') :
      Leaves (f :: fs) (ls ++ ls')

variable {P R}

theorem Leaves.eq_of_not_struct {fs ls : List EventKlassField} (h : Leaves P R fs ls)
    (hfs : ∀ f ∈ fs, f.typeId ≠ .struct) : ls = fs := by
  induction h with
  | nil => rfl
  | leaf hf h ih => rw [ih (List.forall_mem_cons.mp hfs).2]
  | header hf hheader h ih | struct hf hheader hk hsub h ihsub ih =>
    exact absurd hf (List.forall_mem_cons.mp hfs).1

end Leaves

/-! ### What is read -/

section Read

variable {σ : Type} {P : Platform} {R : KlassRegister} {input : Input σ}

/-- What reading fields with the given leaves makes of an event in flat mode. -/
structure StoresLeaves (P : Platform) (e : Event) (ls : List EventKlassField)
    (r : Event × Option Event) : Prop where
  base : r.2 = none
  cached : e.Cached P → r.1.Cached P
  get : ∀ key, key ∉ ls.map EventKlassField.name → r.1.get key = e.get key

variable {r : Event × Option Event}

theorem StoresLeaves.trans {e : Event} {ls ls' : List EventKlassField} {r' : Event × Option Event}
    (h : StoresLeaves P e ls r) (h' : StoresLeaves P r.1 ls' r') :
    StoresLeaves P e (ls ++ ls') r' where
  base := h'.base
  cached he := h'.cached (h.cached he)
  get key hkey := by
    rw [List.map_append, List.mem_append, not_or] at hkey
    rw [h'.get key hkey.2, h.get key hkey.1]

theorem storesLeaves_setValue (e : Event) (f : EventKlassField) (x : FieldType) :
    StoresLeaves P e [f] (e.setValue P f x, none) where
  base := rfl
  cached he := he.setValue f x
  get key hkey := by
    have hne : ¬ f.name = key := fun h => hkey (by simp [h])
    rw [Event.get_setValue, if_neg hne, Option.or_none]

/-- A nested struct. -/
theorem StoresLeaves.merge {k : Option UInt32} {ls : List EventKlassField}
    (h : StoresLeaves P (.new k) ls r) (e : Event) : StoresLeaves P e ls (e.merge P r.1, r.2) where
  base := h.base
  cached he := he.merge r.1
  get key hkey := by
    have hnone : r.1.get key = none := h.get key hkey
    rw [Event.get_merge, hnone, Option.or_none]

/-- What the reading of a nested struct is known to do. -/
def SubLeaves (P : Platform) (R : KlassRegister)
    (sub : Event → Option Event → σ → EventResult σ) : Prop :=
  ∀ (k : Option UInt32) (s : σ) (r : Event × Option Event) (s' : σ),
    sub (.new k) none s = .ok r s' →
      ∃ kl ls, k.bind R.getKlass = some kl ∧ Leaves P R kl.fields ls ∧ StoresLeaves P (.new k) ls r

/-- One field: its leaves come before those of the fields after it. -/
theorem leaves_of_readField {sub : Event → Option Event → σ → EventResult σ}
    (hpointer : ∀ s n s', input.num .pointer s ≠ .ok n s') (hsub : SubLeaves P R sub)
    {f : EventKlassField} {e : Event} {s s' : σ}
    (h : readField P input R true sub f e none s = .ok r s') :
    ∃ ls, StoresLeaves P e ls r ∧ ∀ fs ls', Leaves P R fs ls' →
      Leaves P R (f :: fs) (ls ++ ls') := by
  rcases f.typeId.isNumeric_or with ht | ht | ht | ht
  · rw [readField_num sub ht] at h
    obtain ⟨n, s'', -, hr⟩ := Result.bind_eq_ok_iff.mp h
    cases hr
    exact ⟨[f], storesLeaves_setValue e f _, fun fs ls' h' => .leaf (.inl ht) h'⟩
  · rw [readField_pointer sub ht] at h
    obtain ⟨n, s'', hnum, -⟩ := Result.bind_eq_ok_iff.mp h
    exact absurd hnum (hpointer s n s'')
  · rw [readField_str sub ht] at h
    obtain ⟨v, s'', -, hr⟩ := Result.bind_eq_ok_iff.mp h
    cases hr
    exact ⟨[f], storesLeaves_setValue e f _, fun fs ls' h' => .leaf (.inr ht) h'⟩
  · rw [readField_struct sub ht] at h
    by_cases hheader : f.isHeader = true
    · rw [readStruct_of_isHeader sub hheader] at h
      cases h
      exact ⟨[], ⟨rfl, id, fun _ _ => rfl⟩, fun fs ls' h' => .header ht hheader h'⟩
    · rw [readStruct_of_not_isHeader sub hheader] at h
      obtain ⟨r', s'', hread, hr⟩ := Result.bind_eq_ok_iff.mp h
      obtain ⟨kl, ls, hkl, hleaves, hstores⟩ := hsub _ _ _ _ hread
      cases hr
      have hk : structKlass P R f = some kl := by
        rw [← structKlass_bind]
        exact hkl
      exact ⟨ls, hstores.merge e, fun fs ls' h' => .struct ht hheader hk hleaves h'⟩

/-- **Reading fields stores their leaves.** -/
theorem leaves_of_readFields {sub : Event → Option Event → σ → EventResult σ}
    (hpointer : ∀ s n s', input.num .pointer s ≠ .ok n s') (hsub : SubLeaves P R sub)
    {fs : List EventKlassField} {e : Event} {s s' : σ}
    (h : readFields P input R true sub fs e none s = .ok r s') :
    ∃ ls, Leaves P R fs ls ∧ StoresLeaves P e ls r := by
  induction fs generalizing e s with
  | nil =>
    cases h
    exact ⟨[], .nil, rfl, id, fun _ _ => rfl⟩
  | cons f fs ih =>
    obtain ⟨⟨e', base⟩, s'', hfield, hrest⟩ := Result.bind_eq_ok_iff.mp h
    obtain ⟨ls, hstores, hcons⟩ := leaves_of_readField hpointer hsub hfield
    obtain rfl : base = none := hstores.base
    obtain ⟨ls', hleaves, hstores'⟩ := ih hrest
    exact ⟨ls ++ ls', hcons fs ls' hleaves, hstores.trans hstores'⟩

/-- **Reading an event stores the leaves of its klass.** -/
theorem leaves_of_readEvent (hpointer : ∀ s n s', input.num .pointer s ≠ .ok n s') (depth : ℕ) :
    SubLeaves P R (readEvent P input R true depth) := by
  induction depth with
  | zero =>
    intro k s r s' h
    cases h
  | succ depth ih =>
    intro k s r s' h
    rw [readEvent] at h
    rcases hk : (Event.new k).klass.bind R.getKlass with _ | kl
    · rw [hk] at h
      cases h
    · rw [hk] at h
      obtain ⟨ls, hleaves, hstores⟩ := leaves_of_readFields hpointer ih h
      exact ⟨kl, ls, hk, hleaves, hstores⟩

theorem streamInput_pointer [Stream σ] (host : ByteOrder) (c : UInt8) (s : σ) (n : ℕ) (s' : σ) :
    (streamInput host c).num .pointer s ≠ .ok n s' := by
  change readNumeric host c .pointer s ≠ .ok n s'
  rw [readNumeric]
  rcases Stream.readData s FieldTypeId.pointer.sizeof with ⟨_ | bs, s''⟩
  · rintro ⟨⟩
  · rintro ⟨⟩

end Read

/-! ### What can be read -/

section Fill

variable {P : Platform} {R : KlassRegister}

/-- The value of a leaf that is read from a repeated byte; a string is empty. -/
def filled (o : ByteOrder) (b : UInt8) (f : EventKlassField) : FieldType :=
  if f.typeId = .string then .str []
  else .num f.typeId (ofBytes o (List.replicate f.typeId.sizeof b))

/-- What an event under construction has after leaves have been filled. -/
def FilledFrom (o : ByteOrder) (b : UInt8) (ls : List EventKlassField) (e e' : Event) : Prop :=
  ∀ key, e'.get key =
    (e.get key).or ((findKey EventKlassField.name ls key).map (filled o b))

variable {o : ByteOrder} {b : UInt8} {ls ls' : List EventKlassField} {e e' e'' : Event}

theorem FilledFrom.trans (h : FilledFrom o b ls e e') (h' : FilledFrom o b ls' e' e'') :
    FilledFrom o b (ls ++ ls') e e'' := by
  intro key
  rw [h', h, findKey_append, Option.map_or, Option.or_assoc]

theorem filledFrom_setValue (e : Event) (f : EventKlassField) :
    FilledFrom o b [f] e (e.setValue P f (filled o b f)) := by
  intro key
  rw [Event.get_setValue, findKey_singleton]
  by_cases hkey : f.name = key
  · rw [if_pos hkey, if_pos hkey, Option.map_some]
  · rw [if_neg hkey, if_neg hkey, Option.map_none]

theorem FilledFrom.merge {k : Option UInt32} (h : FilledFrom o b ls (.new k) e') (e : Event) :
    FilledFrom o b ls e (e.merge P e') := by
  intro key
  have hnew : (Event.new k).get key = none := rfl
  rw [Event.get_merge, h, hnew, Option.none_or]

/-- **Every leaf can be filled**: some bytes are read so under every bound that is large enough,
whatever follows them. -/
theorem Leaves.exists_read {fs : List EventKlassField} (h : Leaves P R fs ls) (host : ByteOrder)
    (c b : UInt8) :
    ∃ (d : ℕ) (bytes : FileStream), ∀ depth, d ≤ depth → ∀ e rest, ∃ e',
      readFields P (streamInput host c) R true (readEvent P (streamInput host c) R true depth) fs e
        none (bytes ++ rest) = .ok (e', none) rest ∧
      FilledFrom (streamOrder host c) b ls e e' := by
  induction h with
  | nil => exact ⟨0, [], fun _ _ e rest => ⟨e, rfl, fun key => (Option.or_none).symm⟩⟩
  | @leaf f fs ls hf h ih =>
    obtain ⟨d, bytes, hread⟩ := ih
    rcases hf with hf | hf
    · refine ⟨d, List.replicate f.typeId.sizeof b ++ bytes, fun depth hd e rest => ?_⟩
      have hvalue : filled (streamOrder host c) b f = .num f.typeId
          (ofBytes (streamOrder host c) (List.replicate f.typeId.sizeof b)) := by
        rw [filled, if_neg (by rintro hstr; cases hstr ▸ hf)]
      obtain ⟨e', hok, hfilled⟩ := hread depth hd
        (e.setValue P f (filled (streamOrder host c) b f)) rest
      refine ⟨e', ?_, (filledFrom_setValue e f).trans hfilled⟩
      rw [List.append_assoc, readFields_cons_append hf List.length_replicate, ← hvalue]
      exact hok
    · refine ⟨d, 0 :: bytes, fun depth hd e rest => ?_⟩
      have hvalue : filled (streamOrder host c) b f = .str [] := by
        rw [filled, if_pos hf]
      obtain ⟨e', hok, hfilled⟩ := hread depth hd
        (e.setValue P f (filled (streamOrder host c) b f)) rest
      refine ⟨e', ?_, (filledFrom_setValue e f).trans hfilled⟩
      rw [hvalue] at hok
      rw [List.cons_append, ← List.nil_append (0 :: (bytes ++ rest)),
        readFields_cons_str hf List.not_mem_nil]
      exact hok
  | @header f fs ls hf hheader h ih =>
    obtain ⟨d, bytes, hread⟩ := ih
    refine ⟨d, bytes, fun depth hd e rest => ?_⟩
    rw [readFields, readField_struct _ hf, readStruct_of_isHeader _ hheader]
    exact hread depth hd e rest
  | @struct f fs ls ls' k hf hheader hk hsub h ihsub ih =>
    obtain ⟨d, bytes, hread⟩ := ih
    obtain ⟨dsub, bytesSub, hreadSub⟩ := ihsub
    refine ⟨max d (dsub + 1), bytesSub ++ bytes, fun depth hd e rest => ?_⟩
    obtain ⟨depth, rfl⟩ : ∃ m, depth = m + 1 := ⟨depth - 1, by omega⟩
    have hk' : R.getKlass (R.getKlassId P f.typeName) = some k := hk
    have hid : R.getKlass k.id = some k := by
      rw [id_of_getKlass hk', hk']
    obtain ⟨esub, hoksub, hfilledsub⟩ :=
      hreadSub depth (by omega) (.new (some k.id)) (bytes ++ rest)
    obtain ⟨e', hok, hfilled⟩ := hread (depth + 1) (by omega) (e.merge P esub) rest
    refine ⟨e', ?_, (hfilledsub.merge e).trans hfilled⟩
    rw [readFields, readField_struct _ hf, readStruct_of_not_isHeader _ hheader, hk',
      Option.map_some, List.append_assoc, readEvent_succ rfl hid, hoksub]
    exact hok

end Fill

/-! ### The events of a klass -/

/-- **A delivered event has the values of its header**: `get_timestamp` and what is stored under
the names of the header are those of the header. -/
structure Delivery.HasHeader (d : Delivery) : Prop where
  timestamp : d.event.timestamp = d.header.timestamp
  get : ∀ key ∈ headerNames, d.event.get key = d.header.get key

/-- **The events of a klass have the values of their headers**: those a reader with this register
delivers in flat mode, whatever it reads them from. -/
def HeadersKept (P : Platform) (R : KlassRegister) (id : UInt32) : Prop :=
  ∀ (σ : Type) [Stream σ] (host : ByteOrder) (depth : ℕ) (r r' : Reader σ) (d : Delivery),
    r.register = R → r.step P (streamInput host) true depth = (r', none) →
      r'.delivered = r.delivered ++ [d] → d.event.klass = some id → d.HasHeader

section Step

variable {σ : Type} {P : Platform} {R : KlassRegister}

theorem Reader.Called.eq_of_delivered {r r' : Reader σ} {header event : Event} {d : Delivery}
    (h : r.Called P header event (r', none)) (hd : r'.delivered = r.delivered ++ [d]) :
    d = ⟨header, event⟩ := by
  cases h
  exact (List.singleton_inj.mp (List.append_cancel_left hd)).symm

/-- **What a round delivers in flat mode**: the header itself, or what has been read of an event
of another klass with the header merged into it. -/
theorem Reader.delivers_of_step {input : UInt8 → Input σ} {depth : ℕ} {r r' : Reader σ}
    {d : Delivery} (h : r.step P input true depth = (r', none))
    (hd : r'.delivered = r.delivered ++ [d]) :
    (∃ k b s, readEvent P (input r.endianness) r.register true depth (.new k) none r.stream =
        .ok (d.header, b) s) ∧
      (d.event = d.header ∨
        ∃ klassId e b s s', klassId ≠ 1 ∧
          readEvent P (input r.endianness) r.register true depth
            (.new ((r.register.getKlass klassId).map EventKlass.id)) none s = .ok (e, b) s' ∧
          d.event = e.merge P d.header) := by
  have hround := r.round_step P input true depth
  rw [h] at hround
  rcases hround with ⟨s, w⟩ | ⟨hread, hcalled⟩ | ⟨hread, hne, hbody, hcalled⟩
  · obtain rfl := hcalled.eq_of_delivered hd
    exact ⟨⟨_, _, _, hread⟩, .inl rfl⟩
  · obtain rfl := hcalled.eq_of_delivered hd
    exact ⟨⟨_, _, _, hread⟩, .inr ⟨_, _, _, _, _, hne, hbody, rfl⟩⟩

/-- **Without a leaf of such a name, the header is there.** -/
theorem headersKept_of_leaves {id : UInt32}
    (hleaves : id ≠ 1 → ∀ k ls, R.getKlass id = some k → Leaves P R k.fields ls →
      ∀ f ∈ ls, f.name ∉ headerNames) : HeadersKept P R id := by
  intro σ _ host depth r r' d hR hstep hd hid
  subst hR
  obtain ⟨⟨k, b, s, hheader⟩, hevent⟩ := Reader.delivers_of_step hstep hd
  obtain ⟨_, _, -, -, hstored⟩ :=
    leaves_of_readEvent (streamInput_pointer host r.endianness) depth _ _ _ _ hheader
  have hcached : d.header.Cached P := hstored.cached (Event.cached_new k)
  rcases hevent with heq | ⟨klassId, e, b', s', s'', hne, hbody, heq⟩
  · exact ⟨by rw [heq], fun key _ => by rw [heq]⟩
  · obtain ⟨kl, ls, hkl, hls, hstores⟩ :=
      leaves_of_readEvent (streamInput_pointer host r.endianness) depth _ _ _ _ hbody
    -- the klass of the event is the one the header names
    have hklass : (r.register.getKlass klassId).map EventKlass.id = some id := by
      rw [heq, Event.klass_merge, klass_readEvent hbody] at hid
      exact hid
    obtain ⟨k', hk', hk'id⟩ := Option.map_eq_some_iff.mp hklass
    obtain rfl : klassId = id := by rw [← hk'id, id_of_getKlass hk']
    rw [hklass, Option.bind_some] at hkl
    have hget : ∀ key ∈ headerNames, d.event.get key = d.header.get key := by
      intro key hkey
      have hnone : e.get key = none := by
        refine hstores.get key fun hmem => ?_
        obtain ⟨f, hf, hname⟩ := List.mem_map.mp hmem
        exact hleaves hne kl ls hkl hls f hf (hname ▸ hkey)
      rw [heq, Event.get_merge, hnone, Option.none_or]
    have hcached' : d.event.Cached P := by
      rw [heq]
      exact (hstores.cached (Event.cached_new _)).merge _
    refine ⟨?_, hget⟩
    rw [hcached', hcached, hget _ (by simp [headerNames])]

/-! ### An event that hides its header -/

variable {host : ByteOrder}

/-- The header of an event of the given klass, with the timestamp 1 and the identifier 1, as a
file holds it. -/
def headerBytes (o : ByteOrder) (id : UInt32) : FileStream :=
  toBytes o 4 id.toNat ++ (toBytes o 8 1 ++ toBytes o 8 1)

/-- What is read from it. -/
def headerOf (P : Platform) (id : UInt32) : Event :=
  (((Event.new (some 1)).setValue P ⟨ascii "klass_id", ascii "uint32_t", .uint32, none⟩
    (.num .uint32 id.toNat)).setValue P ⟨ascii "timestamp", ascii "uint64_t", .uint64, none⟩
    (.num .uint64 1)).setValue P ⟨ascii "id", ascii "uint64_t", .uint64, none⟩ (.num .uint64 1)

theorem readEvent_headerBytes (hR : R.BuiltIn) (c : UInt8) (id : UInt32) (depth : ℕ)
    (rest : FileStream) :
    readEvent P (streamInput host c) R true (depth + 1)
        (.new ((R.getKlass 1).map EventKlass.id)) none
        (headerBytes (streamOrder host c) id ++ rest) = .ok (headerOf P id, none) rest := by
  have hk : R.getKlass 1 = KlassRegister.new.getKlass 1 := hR.wellKnown 1 rfl
  have hid : id.toNat < 256 ^ 4 := id.toNat_lt
  rw [hk]
  change readEvent P (streamInput host c) R true (depth + 1) (.new (some 1)) none _ = _
  rw [readEvent_succ rfl (hk.trans rfl), headerBytes, List.append_assoc, List.append_assoc]
  have h32 : FieldTypeId.uint32.sizeof = 4 := rfl
  have h64 : FieldTypeId.uint64.sizeof = 8 := rfl
  refine (readFields_cons_toBytes rfl h32 hid _).trans ?_
  refine (readFields_cons_toBytes rfl h64 (by norm_num) _).trans ?_
  exact readFields_cons_toBytes rfl h64 (by norm_num) rest

/-- The values of the header. -/
theorem get_headerOf (id : UInt32) :
    (headerOf P id).get (ascii "klass_id") = some (.num .uint32 id.toNat) ∧
      (headerOf P id).get (ascii "timestamp") = some (.num .uint64 1) ∧
      (headerOf P id).get (ascii "id") = some (.num .uint64 1) :=
  ⟨rfl, rfl, rfl⟩

/-- A byte that, repeated, makes neither the identifier nor 1. -/
theorem exists_other_byte (id : UInt32) :
    ∃ b : UInt8, ∀ o, ofBytes o (List.replicate 4 b) ≠ id.toNat ∧
      ofBytes o (List.replicate 8 b) ≠ 1 := by
  by_cases hid : id = 0
  · refine ⟨255, fun o => ?_⟩
    subst hid
    rcases o with _ | _
    · decide
    · decide
  · have hne : id.toNat ≠ 0 := fun h => hid (UInt32.toNat_inj.mp h)
    have h4 : ∀ o, ofBytes o (List.replicate 4 0) = 0 := by
      rintro (_ | _)
      · decide
      · decide
    refine ⟨0, fun o => ⟨(h4 o).symm ▸ hne.symm, ?_⟩⟩
    rcases o with _ | _
    · decide
    · decide

theorem filled_eq_num {o : ByteOrder} {b : UInt8} {f : EventKlassField} {t : FieldTypeId} {n : ℕ}
    (h : filled o b f = .num t n) : ofBytes o (List.replicate t.sizeof b) = n := by
  rw [filled] at h
  split at h
  · cases h
  · cases h
    rfl

/-- A filled leaf does not have the value of the header. -/
theorem filled_ne_headerOf {o : ByteOrder} {b : UInt8} {id : UInt32}
    (h32 : ofBytes o (List.replicate 4 b) ≠ id.toNat) (h64 : ofBytes o (List.replicate 8 b) ≠ 1)
    {key : Name} (hkey : key ∈ headerNames) (f : EventKlassField) :
    some (filled o b f) ≠ (headerOf P id).get key := by
  obtain ⟨hklass, htimestamp, hid⟩ := get_headerOf (P := P) id
  simp only [headerNames, List.mem_cons, List.not_mem_nil, or_false] at hkey
  rcases hkey with rfl | rfl | rfl
  · rw [hklass]
    exact fun h => h32 (filled_eq_num (Option.some.inj h))
  · rw [htimestamp]
    exact fun h => h64 (filled_eq_num (Option.some.inj h))
  · rw [hid]
    exact fun h => h64 (filled_eq_num (Option.some.inj h))

/-- An event that does not describe anything is delivered; the endianness event has to have its
number. -/
theorem Reader.exists_finish (r : Reader σ) (header : Event) {id : UInt32} {event : Event}
    (hklass : event.klass = some id) (hid : isWellKnownKlass id = false)
    (hendianness : id = 0 → ∃ t n, event.get (ascii "endianness") = some (.num t n)) :
    ∃ r', r.finish P id header event = (r', none) := by
  have hne : id ≠ 2 ∧ id ≠ 3 := by
    constructor
    · rintro rfl
      cases hid
    · rintro rfl
      cases hid
  have hcall : ∀ r : Reader σ, ∃ r', r.callCallbacks P header event = (r', none) := by
    intro r
    rw [Reader.callCallbacks, handleRegisterEvents_other _ hklass hne.1 hne.2]
    exact ⟨_, rfl⟩
  rw [Reader.finish]
  split
  · next h0 =>
    obtain ⟨t, n, hn⟩ := hendianness h0
    rw [Event.getNum_eq hn]
    exact hcall _
  · exact hcall _

variable {ls : List EventKlassField}

/-- The first leaf of the endianness event is its number. -/
theorem Leaves.endianness (hR : R.BuiltIn) {k : EventKlass} (hk : R.getKlass 0 = some k)
    (hls : Leaves P R k.fields ls) :
    findKey EventKlassField.name ls (ascii "endianness") = some endiannessField := by
  obtain ⟨k', fs, hk', hfs⟩ := hR.endianness
  obtain rfl : k' = k := Option.some.inj (hk'.symm.trans hk)
  rw [hfs] at hls
  cases hls with
  | leaf hf h => exact findKey_cons_self _ _
  | header hf => cases hf
  | struct hf => cases hf

/-- **A leaf with the name of a header field hides the header** of an event whose leaves are all
made of one byte. -/
theorem not_headersKept_of_leaf (hR : R.BuiltIn) {id : UInt32} (hid : isWellKnownKlass id = false)
    {k : EventKlass} (hk : R.getKlass id = some k) (hls : Leaves P R k.fields ls)
    {f : EventKlassField} (hf : f ∈ ls) (hname : f.name ∈ headerNames) : ¬ HeadersKept P R id := by
  intro hkept
  obtain ⟨b, hb⟩ := exists_other_byte id
  obtain ⟨d, bytes, hread⟩ := hls.exists_read .little 0 b
  obtain ⟨e, hok, hfilled⟩ := hread d le_rfl (.new (some id)) []
  have hget : ∀ key g, findKey EventKlassField.name ls key = some g →
      (e.merge P (headerOf P id)).get key = some (filled (streamOrder .little 0) b g) := by
    intro key g hg
    have hnew : (Event.new (some id)).get key = none := rfl
    rw [Event.get_merge, hfilled, hnew, hg, Option.none_or, Option.map_some, Option.some_or]
  have hklass : (e.merge P (headerOf P id)).klass = some id := by
    rw [Event.klass_merge]
    exact klass_readFields hok
  have hendianness : id = 0 → ∃ t n,
      (e.merge P (headerOf P id)).get (ascii "endianness") = some (.num t n) := by
    rintro rfl
    exact ⟨_, _, hget _ _ (hls.endianness hR hk)⟩
  obtain ⟨r', hfinish⟩ := Reader.exists_finish ⟨([] : FileStream), R, 0, []⟩ (headerOf P id) hklass
    hid hendianness
  have hstep : Reader.step P (streamInput .little) true (d + 1)
      ⟨headerBytes (streamOrder .little 0) id ++ bytes, R, 0, []⟩ = (r', none) := by
    have hne : id ≠ 1 := by
      rintro rfl
      cases hid
    rw [List.append_nil] at hok
    rw [Reader.step, readEvent_headerBytes hR]
    dsimp only
    rw [Event.getNum_eq (get_headerOf id).1]
    dsimp only
    rw [UInt32.ofNat_toNat, if_neg hne, Reader.readBody]
    dsimp only
    rw [hk, Option.map_some, id_of_getKlass hk, if_pos rfl, readEvent_succ rfl hk, hok]
    exact hfinish
  have hdelivered : r'.delivered = [⟨headerOf P id, e.merge P (headerOf P id)⟩] := by
    have hcalled := Reader.called_finish (P := P) ⟨([] : FileStream), R, 0, []⟩ id (headerOf P id)
      (e.merge P (headerOf P id))
    rw [hfinish] at hcalled
    cases hcalled
    rfl
  have hheader := hkept FileStream .little (d + 1) _ r' ⟨headerOf P id, _⟩ rfl
    hstep hdelivered hklass
  have hmem : f.name ∈ ls.map EventKlassField.name := List.mem_map_of_mem hf
  obtain ⟨g, hg⟩ := Option.ne_none_iff_exists'.mp fun hn => findKey_eq_none_iff.mp hn hmem
  have hsame := hheader.get f.name hname
  rw [hget _ _ hg] at hsame
  exact filled_ne_headerOf (hb _).1 (hb _).2 hname g hsame

/-- No leaf of a well-known klass besides the header has the name of a header field. -/
theorem Leaves.wellKnown (hR : R.BuiltIn) {id : UInt32} (hid : isWellKnownKlass id = true)
    (hne : id ≠ 1) {k : EventKlass} (hk : R.getKlass id = some k) (hls : Leaves P R k.fields ls) :
    ∀ f ∈ ls, f.name ∉ headerNames := by
  rw [hR.wellKnown id hid] at hk
  obtain rfl := hls.eq_of_not_struct (not_struct_of_wellKnown hid hk)
  simp only [isWellKnownKlass, Bool.or_eq_true, decide_eq_true_eq] at hid
  rcases hid with (rfl | rfl) | rfl
  · exact absurd rfl hne
  · cases hk
    decide
  · cases hk
    decide

/-- **The events of a klass have the values of their headers exactly if no number or string among
its fields, at any level, has the name of a header field.** The register is any that description
events can make. -/
theorem headersKept_iff {events : List Event} (h : KlassRegister.new.handleAll P events = .ok R)
    (id : UInt32) :
    HeadersKept P R id ↔
      (id ≠ 1 → ∀ k ls, R.getKlass id = some k → Leaves P R k.fields ls →
        ∀ f ∈ ls, f.name ∉ headerNames) := by
  have hR : R.BuiltIn := builtIn_new.handleAll h
  refine ⟨fun hkept hne k ls hk hls f hf => ?_, headersKept_of_leaves⟩
  rcases hid : isWellKnownKlass id with _ | _
  · exact fun hname => not_headersKept_of_leaf hR hid hk hls hf hname hkept
  · exact hls.wellKnown hR hid hne hk f hf

end Step

/-- The description of a klass with a timestamp of its own. -/
def stampedKlass : List Event :=
  [klassEvent 20 (ascii "Sample"),
   fieldEvent 20 (ascii "HT_Event") (ascii "base") 24 1,
   fieldEvent 20 (ascii "uint64_t") (ascii "timestamp") 8 99]

theorem headersKept_iff_of_stampedKlass :
    ∃ R, KlassRegister.new.handleAll samplePlatform stampedKlass = .ok R ∧
      ¬ HeadersKept samplePlatform R 20 := by
  refine ⟨_, rfl, fun hkept => ?_⟩
  have hregister : KlassRegister.new.handleAll samplePlatform stampedKlass = .ok _ := rfl
  have hleaves := (headersKept_iff hregister 20).mp hkept (by decide) _
    [⟨ascii "timestamp", ascii "uint64_t", .uint64, none⟩] rfl
    (.header rfl rfl (.leaf (.inl rfl) .nil))
  exact hleaves _ List.mem_cons_self (by decide)

/-- **An event with a timestamp of its own.** The header says 1, the field 7, and so does
`get_timestamp`. -/
theorem timestamp_displaced : ∃ R r' d,
    KlassRegister.new.handleAll samplePlatform stampedKlass = .ok R ∧
    Reader.step samplePlatform (streamInput .little) true 2
      ⟨headerBytes .little 20 ++ toBytes .little 8 7, R, Lib.endiannessCode .little, []⟩ =
        (r', none) ∧
    r'.delivered = [d] ∧ d.header.timestamp = 1 ∧ d.event.timestamp = 7 ∧
    d.event.get (ascii "timestamp") = some (.num .uint64 7) :=
  ⟨_, _, _, rfl, rfl, rfl, rfl, rfl, rfl⟩

end HawkTracer.Parser
