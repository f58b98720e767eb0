import HawkTracer.Parser.Flat
import HawkTracer.Parser.Grammar

/-!
# Which files the reader survives

Reading a file should end in one way only: the reader finds that it cannot go on, leaves
its loop and is done (`HawkTracer.Parser.Stop.error`). The other ways – a klass that is not
there is dereferenced, a field is added to one that is not there, a type cannot be
interpreted, structs without end – take the process down.

Whether one round goes well is decided by what the file goes on with, read against the
register as it is at that moment (`HawkTracer.Parser.SafeRound`): the klass the header names
has to be there and to be safe to read, and a field description has to be about a klass that
is there and a type that exists. That is exact, for a round
(`HawkTracer.Parser.exists_survived_step_iff`) and for a file
(`HawkTracer.Parser.survives_iff_safeRounds`), in both modes of the reader. A file of twenty
bytes is enough for it to fail.
-/

namespace HawkTracer.Parser

open KlassRegister Reader

/-! ### Field descriptions -/

/-- The content of a field description in a file. -/
structure FieldDescription where
  klassId : UInt32
  fieldType : Name
  fieldName : Name
  size : UInt64
  dataType : UInt8
  fieldType_nulFree : 0 ∉ fieldType
  fieldName_nulFree : 0 ∉ fieldName

namespace FieldDescription

/-- Its bytes. -/
def encode (o : ByteOrder) (D : FieldDescription) : List UInt8 :=
  toBytes o 4 D.klassId.toNat ++ (D.fieldType ++ 0 :: (D.fieldName ++ 0 ::
    (toBytes o 8 D.size.toNat ++ toBytes o 1 D.dataType.toNat)))

/-- The types there are: structs, strings and pointers of any size, and integers of four
sizes. -/
def ValidType (size dataType : ℕ) : Prop :=
  dataType = 1 ∨ dataType = 2 ∨ dataType = 6 ∨
    (dataType = 3 ∨ dataType = 99) ∧ (size = 1 ∨ size = 2 ∨ size = 4 ∨ size = 8)

/-- **A description the register can take**: it is about a well-known klass, and ignored, or
about a klass that is there and a type that exists. -/
def Valid (R : KlassRegister) (D : FieldDescription) : Prop :=
  isWellKnownKlass D.klassId = true ∨
    (∃ k, R.getKlass D.klassId = some k) ∧ ValidType D.size.toNat D.dataType.toNat

/-- The event shows the description. -/
structure ShownBy (D : FieldDescription) (e : Event) : Prop where
  klass : e.klass = some 3
  klassId : e.get (ascii "info_klass_id") = some (.num .uint32 D.klassId.toNat)
  fieldType : e.get (ascii "field_type") = some (.str D.fieldType)
  fieldName : e.get (ascii "field_name") = some (.str D.fieldName)
  size : e.get (ascii "size") = some (.num .uint64 D.size.toNat)
  dataType : e.get (ascii "data_type") = some (.num .uint8 D.dataType.toNat)

end FieldDescription

theorem getTypeId_isOk_iff {size dataType : ℕ} :
    (∃ t, getTypeId size dataType = .ok t) ↔ FieldDescription.ValidType size dataType := by
  unfold getTypeId FieldDescription.ValidType
  split
  all_goals try split
  all_goals simp_all

/-- **The register takes the valid descriptions.** -/
theorem handleRegisterEvents_isOk_iff {P : Platform} {R : KlassRegister} {D : FieldDescription}
    {e : Event} (h : D.ShownBy e) : (∃ R', R.handleRegisterEvents P e = .ok R') ↔ D.Valid R := by
  have hid : UInt32.ofNat D.klassId.toNat = D.klassId := UInt32.ofNat_toNat
  by_cases hw : isWellKnownKlass D.klassId = true
  · exact iff_of_true ⟨R, handleRegisterEvents_wellKnown R h.klass h.klassId
      (hid.symm ▸ hw)⟩ (.inl hw)
  · rw [handleRegisterEvents_fieldInfo R h.klass h.klassId
      (by rw [hid]; simpa using hw) h.dataType h.fieldType h.fieldName h.size, hid]
    constructor
    · rintro ⟨R', hR'⟩
      obtain ⟨t, ht, hadd⟩ := except_bind_eq_ok hR'
      refine .inr ⟨?_, getTypeId_isOk_iff.mp ⟨t, ht⟩⟩
      rcases hk : R.getKlass D.klassId with _ | k
      · rw [addKlassField, hk] at hadd
        cases hadd
      · exact ⟨k, rfl⟩
    · rintro (hw' | ⟨⟨k, hk⟩, hvalid⟩)
      · exact absurd hw' hw
      · obtain ⟨t, ht⟩ := getTypeId_isOk_iff.mpr hvalid
        rw [ht]
        exact ⟨_, addKlassField_of_mem hk _⟩

/-! ### Errors of the register -/

theorem except_bind_eq_error {α β : Type} {x : Except Stop α} {k : α → Except Stop β} {w : Stop}
    (h : (x >>= k) = .error w) : x = .error w ∨ ∃ a, k a = .error w := by
  rcases x with w' | a
  · cases h
    exact .inl rfl
  · exact .inr ⟨a, h⟩

theorem Event.getNum_ne_error (e : Event) (key : Name) : e.getNum key ≠ .error .error := by
  rw [Event.getNum]
  split <;> simp

theorem Event.getStr_ne_error (e : Event) (key : Name) : e.getStr key ≠ .error .error := by
  rw [Event.getStr]
  split <;> simp

theorem getTypeId_ne_error (size dataType : ℕ) : getTypeId size dataType ≠ .error .error := by
  unfold getTypeId
  split
  all_goals try split
  all_goals simp

/-- What the register fails with is never reported by the reader. -/
theorem handleRegisterEvents_ne_error {P : Platform} (R : KlassRegister) (e : Event) :
    R.handleRegisterEvents P e ≠ .error .error := by
  intro h
  unfold handleRegisterEvents at h
  split at h
  · cases h
  split_ifs at h
  · rcases except_bind_eq_error h with h | ⟨n, h⟩
    · exact e.getNum_ne_error _ h
    rcases except_bind_eq_error h with h | ⟨s, h⟩
    · exact e.getStr_ne_error _ h
    cases h
  · rcases except_bind_eq_error h with h | ⟨n, h⟩
    · exact e.getNum_ne_error _ h
    split_ifs at h
    · cases h
    rcases except_bind_eq_error h with h | ⟨dataType, h⟩
    · exact e.getNum_ne_error _ h
    rcases except_bind_eq_error h with h | ⟨fieldType, h⟩
    · exact e.getStr_ne_error _ h
    rcases except_bind_eq_error h with h | ⟨fieldName, h⟩
    · exact e.getStr_ne_error _ h
    rcases except_bind_eq_error h with h | ⟨size, h⟩
    · exact e.getNum_ne_error _ h
    rcases except_bind_eq_error h with h | ⟨typeId, h⟩
    · exact getTypeId_ne_error _ _ h
    rw [addKlassField] at h
    split at h <;> cases h

/-! ### The well-known klasses on a file -/

section File

variable {P : Platform} {R : KlassRegister} {host : ByteOrder} {c : UInt8}
  {sub : Event → Option Event → FileStream → EventResult FileStream} {f : EventKlassField}
  {fs : List EventKlassField} {e : Event} {base : Option Event}

/-- **A header is read if there are twenty bytes for it.** -/
theorem readEvent_header_file (hR : R.BuiltIn) (d : ℕ) (s : FileStream) :
    (s.length < 20 ∧ ∃ s', readEvent P (streamInput host c) R false (d + 1) (.new (some 1)) none s =
        .stop .error s') ∨
      (20 ≤ s.length ∧ ∃ header, header.klass = some 1 ∧
        header.getNum (ascii "klass_id") = .ok (ofBytes (streamOrder host c) (s.take 4)) ∧
        readEvent P (streamInput host c) R false (d + 1) (.new (some 1)) none s =
          .ok (header, none) (s.drop 20)) := by
  obtain ⟨k, hk, hfields⟩ : ∃ k, R.getKlass 1 = some k ∧ k.fields =
      [⟨ascii "klass_id", ascii "uint32_t", .uint32, none⟩,
       ⟨ascii "timestamp", ascii "uint64_t", .uint64, none⟩,
       ⟨ascii "id", ascii "uint64_t", .uint64, none⟩] :=
    ⟨_, (hR.wellKnown 1 rfl).trans rfl, rfl⟩
  rw [readEvent_succ rfl hk, hfields, readFields_cons_num rfl, readFields_cons_num rfl,
    readFields_cons_num rfl]
  simp only [FieldTypeId.sizeof, List.length_drop]
  by_cases hlen : 20 ≤ s.length
  · refine .inr ⟨hlen, ?_⟩
    rw [if_pos (by omega), if_pos (by omega), if_pos (by omega), List.drop_drop, List.drop_drop]
    refine ⟨_, ?_, ?_, rfl⟩
    · rfl
    · refine Event.getNum_eq (t := .uint32) ?_
      rw [Event.get_setValue, Event.get_setValue, Event.get_setValue]
      rfl
  · refine .inl ⟨by omega, ?_⟩
    split_ifs with h4 h8 h8'
    · omega
    all_goals exact ⟨[], rfl⟩

/-- A field description is read into an event that shows it. -/
theorem readEvent_fieldInfo (hR : R.BuiltIn) (d : ℕ) (D : FieldDescription) (base : Option Event)
    (s : FileStream) :
    ∃ e, D.ShownBy e ∧ readEvent P (streamInput host c) R false (d + 1) (.new (some 3)) base
      (D.encode (streamOrder host c) ++ s) = .ok (e, base) s := by
  obtain ⟨k, hk, hfields⟩ : ∃ k, R.getKlass 3 = some k ∧ k.fields =
      [⟨ascii "info_klass_id", ascii "uint32_t", .uint32, none⟩,
       ⟨ascii "field_type", ascii "const char*", .string, none⟩,
       ⟨ascii "field_name", ascii "const char*", .string, none⟩,
       ⟨ascii "size", ascii "uint64_t", .uint64, none⟩,
       ⟨ascii "data_type", ascii "uint8_t", .uint8, none⟩] :=
    ⟨_, (hR.wellKnown 3 rfl).trans rfl, rfl⟩
  have hencode : D.encode (streamOrder host c) ++ s =
      toBytes (streamOrder host c) 4 D.klassId.toNat ++ (D.fieldType ++ 0 :: (D.fieldName ++ 0 ::
        (toBytes (streamOrder host c) 8 D.size.toNat ++
          (toBytes (streamOrder host c) 1 D.dataType.toNat ++ s)))) := by
    simp [FieldDescription.encode]
  rw [readEvent_succ rfl hk, hfields, hencode,
    readFields_cons_toBytes (w := 4) ?_ ?_ D.klassId.toNat_lt,
    readFields_cons_str rfl D.fieldType_nulFree, readFields_cons_str rfl D.fieldName_nulFree,
    readFields_cons_toBytes (w := 8) ?_ ?_ D.size.toNat_lt,
    readFields_cons_toBytes (w := 1) ?_ ?_ D.dataType.toNat_lt]
  refine ⟨_, ⟨rfl, ?_, ?_, ?_, ?_, ?_⟩, rfl⟩
  all_goals
    simp only [Event.get_setValue]
    rfl

theorem Takes.of_num {s s' : List UInt8} (h : Takes P R (f :: fs) s s')
    (hf : f.typeId.isNumeric = true) :
    ∃ bs s₁, bs.length = f.typeId.sizeof ∧ s = bs ++ s₁ ∧ Takes P R fs s₁ s' := by
  rcases h with _ | ⟨-, hbs, h⟩ | ⟨ht, -, -⟩ | ⟨ht, -, -⟩ | ⟨ht, -, -, -, -⟩
  · exact ⟨_, _, hbs, rfl, h⟩
  all_goals
    rw [ht] at hf
    cases hf

theorem Takes.of_str {s s' : List UInt8} (h : Takes P R (f :: fs) s s') (hf : f.typeId = .string) :
    ∃ v s₁, 0 ∉ v ∧ s = v ++ 0 :: s₁ ∧ Takes P R fs s₁ s' := by
  rcases h with _ | ⟨ht, -, -⟩ | ⟨-, hv, h⟩ | ⟨ht, -, -⟩ | ⟨ht, -, -, -, -⟩
  · rw [hf] at ht
    cases ht
  · exact ⟨_, _, hv, rfl, h⟩
  all_goals
    rw [hf] at ht
    cases ht

/-- What the klass of field descriptions takes is a field description. -/
theorem exists_description_of_takes (hR : R.BuiltIn) {k : EventKlass} (hk : R.getKlass 3 = some k)
    (o : ByteOrder) {s s' : List UInt8} (h : Takes P R k.fields s s') :
    ∃ D : FieldDescription, s = D.encode o ++ s' := by
  obtain rfl : k = _ := Option.some.inj (hk.symm.trans ((hR.wellKnown 3 rfl).trans rfl))
  obtain ⟨bs, s₁, hbs, rfl, h₁⟩ := h.of_num rfl
  obtain ⟨fieldType, s₂, htype, rfl, h₂⟩ := h₁.of_str rfl
  obtain ⟨fieldName, s₃, hname, rfl, h₃⟩ := h₂.of_str rfl
  obtain ⟨bs', s₄, hbs', rfl, h₄⟩ := h₃.of_num rfl
  obtain ⟨bs'', s₅, hbs'', rfl, h₅⟩ := h₄.of_num rfl
  rcases h₅ with ⟨s₅⟩
  have hbytes : ∀ (n : ℕ) (bs : List UInt8), bs.length = n →
      toBytes o n (ofBytes o bs % 2 ^ (8 * n)) = bs := by
    rintro n bs rfl
    have hlt := ofBytes_lt o bs
    rw [show (256 : ℕ) = 2 ^ 8 by norm_num, ← pow_mul] at hlt
    rw [Nat.mod_eq_of_lt hlt, toBytes_ofBytes]
  refine ⟨⟨UInt32.ofNat (ofBytes o bs), fieldType, fieldName, UInt64.ofNat (ofBytes o bs'),
    UInt8.ofNat (ofBytes o bs''), htype, hname⟩, ?_⟩
  simp only [FieldDescription.encode, UInt32.toNat_ofNat', UInt64.toNat_ofNat', UInt8.toNat_ofNat']
  rw [hbytes 4 bs hbs, hbytes 8 bs' hbs', hbytes 1 bs'' hbs'']
  simp

/-! ### Handling what was read -/

variable {input : Input FileStream} {id : UInt32} {d : ℕ} {b : Option Event} {s s' : FileStream}

/-- Every event but a field description can be handled. -/
theorem handleRegisterEvents_isOk (hR : R.BuiltIn) (hid : id ≠ 3)
    (h : readEvent P input R false d (.new (some id)) base s = .ok (e, b) s') :
    ∃ R', R.handleRegisterEvents P e = .ok R' := by
  have hklass : e.klass = some id := klass_readEvent h
  by_cases h2 : id = 2
  · subst h2
    have hk := (hR.wellKnown 2 rfl).trans rfl
    obtain ⟨n, hn⟩ := get_num_readEvent_nested hk h List.mem_cons_self rfl
    obtain ⟨name, hname⟩ := get_str_readEvent_nested hk h
      (List.mem_cons_of_mem _ List.mem_cons_self) rfl
    exact ⟨_, handleRegisterEvents_klassInfo R hklass hn hname⟩
  · exact ⟨R, handleRegisterEvents_other R hklass h2 hid⟩

theorem getNum_endianness_isOk (hR : R.BuiltIn)
    (h : readEvent P input R false d (.new (some 0)) base s = .ok (e, b) s') :
    ∃ n, e.getNum (ascii "endianness") = .ok n := by
  obtain ⟨k, fs, hk, hfs⟩ := hR.endianness
  have hmem : endiannessField ∈ k.fields := by
    rw [hfs]
    exact List.mem_cons_self
  obtain ⟨n, hn⟩ := get_num_readEvent_nested hk h hmem rfl
  exact ⟨n, Event.getNum_eq hn⟩

/-- A round went well: the reader goes on, or reports an error. -/
def Survived (w : Option Stop) : Prop := ∀ w', w = some w' → w' = .error

theorem survived_none : Survived none := by
  intro w h
  cases h

theorem survived_some_iff {w : Stop} : Survived (some w) ↔ w = .error :=
  ⟨fun h => h w rfl, fun h _ h' => (Option.some.inj h').symm.trans h⟩

theorem callCallbacks_survived_iff {r : Reader FileStream} {header : Event} :
    Survived (r.callCallbacks P header e).2 ↔
      ∃ R', r.register.handleRegisterEvents P e = .ok R' := by
  rw [callCallbacks]
  rcases hhandle : r.register.handleRegisterEvents P e with w | R'
  · constructor
    · intro h
      rw [survived_some_iff.mp h] at hhandle
      exact absurd hhandle (handleRegisterEvents_ne_error _ e)
    · rintro ⟨R', hR'⟩
      cases hR'
  · exact iff_of_true survived_none ⟨R', rfl⟩

theorem finish_survived_iff (hR : R.BuiltIn)
    (h : readEvent P input R false d (.new (some id)) base s = .ok (e, b) s')
    {r : Reader FileStream} (hr : r.register = R) {header : Event} :
    Survived (r.finish P id header e).2 ↔ ∃ R', R.handleRegisterEvents P e = .ok R' := by
  subst hr
  rw [finish]
  split
  · next h0 =>
    subst h0
    obtain ⟨n, hn⟩ := getNum_endianness_isOk hR h
    rw [hn]
    exact callCallbacks_survived_iff
  · exact callCallbacks_survived_iff

end File

/-! ### One round -/

section Round

variable (host : ByteOrder) (P : Platform)

/-- The body of an event is read without trouble. -/
def SafeBody (R : KlassRegister) (c : UInt8) (id : UInt32) (s : FileStream) : Prop :=
  ∃ k, R.getKlass id = some k ∧ Safe P R k.fields s ∧
    (id = 3 → ∀ (D : FieldDescription) (rest : List UInt8),
      s = D.encode (streamOrder host c) ++ rest → D.Valid R)

/-- **A round goes well**: if there is a header and it does not stand alone, its klass is in
the register and safe to read, and if it is the klass of field descriptions the description
is one the register can take. -/
def SafeRound (R : KlassRegister) (c : UInt8) (s : FileStream) : Prop :=
  let id := UInt32.ofNat (ofBytes (streamOrder host c) (s.take 4))
  20 ≤ s.length → id ≠ 1 → SafeBody host P R c id (s.drop 20)

variable {host P} {r : Reader FileStream} {header : Event} {id : UInt32}

theorem readBody_of_ok {k : EventKlass} (hk : r.register.getKlass id = some k) {d : ℕ} {e : Event}
    {b : Option Event} {s : FileStream}
    (h : readEvent P (streamInput host r.endianness) r.register false d (.new (some id))
      (some header) r.stream = .ok (e, b) s) :
    r.readBody P (streamInput host) false d id header =
      { r with stream := s }.finish P id header e := by
  rw [readBody, hk, Option.map_some, id_of_getKlass hk, if_neg Bool.false_ne_true, h]
  rfl

/-- **Reading a body goes well if and only if it is safe.** -/
theorem exists_survived_readBody_iff (hR : r.register.BuiltIn) :
    (∃ d, Survived (r.readBody P (streamInput host) false d id header).2) ↔
      SafeBody host P r.register r.endianness id r.stream := by
  constructor
  · rintro ⟨d, hd⟩
    have hfine : (readEvent P (streamInput host r.endianness) r.register false d
        (.new ((r.register.getKlass id).map EventKlass.id)) (some header) r.stream).Fine := by
      intro w s hw
      rw [readBody, if_neg Bool.false_ne_true, hw] at hd
      exact survived_some_iff.mp hd
    obtain ⟨k, hk, hsafe⟩ := exists_fine_iff.mp ⟨d, hfine⟩
    refine ⟨k, hk, hsafe, ?_⟩
    rintro rfl D rest hrest
    rcases d with _ | d
    · cases hfine _ _ rfl
    obtain ⟨e, hshown, he⟩ := readEvent_fieldInfo hR d D (some header) rest
    rw [← hrest] at he
    rw [readBody_of_ok hk he] at hd
    have hhandle := (finish_survived_iff hR he (r := { r with stream := rest }) rfl).mp hd
    exact (handleRegisterEvents_isOk_iff hshown).mp hhandle
  · rintro ⟨k, hk, hsafe, hvalid⟩
    obtain ⟨d, hfine⟩ : ∃ d, (readEvent P (streamInput host r.endianness) r.register false d
        (.new ((r.register.getKlass id).map EventKlass.id)) (some header) r.stream).Fine :=
      exists_fine_iff.mpr ⟨k, hk, hsafe⟩
    refine ⟨d, ?_⟩
    rcases hread : readEvent P (streamInput host r.endianness) r.register false d
      (.new ((r.register.getKlass id).map EventKlass.id)) (some header) r.stream with
      ⟨⟨e, b⟩, s⟩ | ⟨w, s⟩
    · rw [hk, Option.map_some, id_of_getKlass hk] at hread
      rw [readBody_of_ok hk hread]
      refine (finish_survived_iff hR hread (r := { r with stream := s }) rfl).mpr ?_
      by_cases h3 : id = 3
      · subst h3
        obtain ⟨⟨k', hk', htakes⟩, -⟩ := takes_of_readEvent hread
        obtain rfl : k = k' := Option.some.inj (hk.symm.trans hk')
        obtain ⟨D, hD⟩ := exists_description_of_takes hR hk (streamOrder host r.endianness) htakes
        rcases d with _ | d
        · cases hread
        obtain ⟨e', hshown, he'⟩ := readEvent_fieldInfo hR d D (some header) s
        rw [← hD, hread] at he'
        cases he'
        exact (handleRegisterEvents_isOk_iff hshown).mpr (hvalid rfl D s hD)
      · exact handleRegisterEvents_isOk hR h3 hread
    · rw [readBody, if_neg Bool.false_ne_true, hread]
      exact survived_some_iff.mpr (hfine w s hread)

/-- What a round does with a file: it finds no header, or one that stands alone, or reads a
body. -/
theorem step_file (hR : r.register.BuiltIn) :
    (r.stream.length < 20 ∧ ∀ d, ∃ s,
      r.step P (streamInput host) false (d + 1) = ({ r with stream := s }, some .error)) ∨
    (20 ≤ r.stream.length ∧ ∃ header : Event, header.klass = some 1 ∧ ∀ d,
      r.step P (streamInput host) false (d + 1) =
        if UInt32.ofNat (ofBytes (streamOrder host r.endianness) (r.stream.take 4)) = 1 then
          { r with stream := r.stream.drop 20 }.callCallbacks P header header
        else { r with stream := r.stream.drop 20 }.readBody P (streamInput host) false (d + 1)
            (UInt32.ofNat (ofBytes (streamOrder host r.endianness) (r.stream.take 4))) header) := by
  have hone : (r.register.getKlass 1).map EventKlass.id = some 1 := by
    rw [hR.wellKnown 1 rfl]
    rfl
  rcases readEvent_header_file hR 0 r.stream with ⟨hlen, s, hread⟩ | ⟨hlen, header, hk, hid, hread⟩
  all_goals
    have hdeep : ∀ d, readEvent P (streamInput host r.endianness) r.register false (d + 1)
        (.new (some 1)) none r.stream = _ := fun d =>
      (readEvent_deeper (Nat.le_add_left 1 d) (by rw [hread]; intro _ h; cases h)).trans hread
  · refine .inl ⟨hlen, fun d => ⟨s, ?_⟩⟩
    rw [step, hone, hdeep]
  · refine .inr ⟨hlen, header, hk, fun d => ?_⟩
    rw [step, hone, hdeep]
    dsimp only
    rw [hid]

theorem step_zero : ¬ Survived (r.step P (streamInput host) false 0).2 := by
  intro h
  cases survived_some_iff.mp h

theorem readBody_zero : ¬ Survived (r.readBody P (streamInput host) false 0 id header).2 := by
  intro h
  cases survived_some_iff.mp h

/-- **A round goes well if and only if what the file goes on with is safe.** -/
theorem exists_survived_step_iff (hR : r.register.BuiltIn) :
    (∃ d, Survived (r.step P (streamInput host) false d).2) ↔
      SafeRound host P r.register r.endianness r.stream := by
  rw [SafeRound]
  rcases step_file hR with ⟨hlen, hstep⟩ | ⟨hlen, header, hk, hstep⟩
  · refine iff_of_true ⟨1, ?_⟩ fun h => absurd h (by omega)
    obtain ⟨s, hs⟩ := hstep 0
    rw [hs]
    exact survived_some_iff.mpr rfl
  generalize UInt32.ofNat (ofBytes (streamOrder host r.endianness) (r.stream.take 4)) =
    id at hstep ⊢
  have hbody : (∃ d, Survived ({ r with stream := r.stream.drop 20 }.readBody P (streamInput host)
      false d id header).2) ↔ SafeBody host P r.register r.endianness id (r.stream.drop 20) :=
    exists_survived_readBody_iff hR
  by_cases h1 : id = 1
  · refine iff_of_true ⟨1, ?_⟩ fun _ h => absurd h1 h
    rw [hstep, if_pos h1]
    exact callCallbacks_survived_iff.mpr
      ⟨r.register, handleRegisterEvents_other _ hk (by decide) (by decide)⟩
  · constructor
    · rintro ⟨d, hd⟩ - -
      rcases d with _ | d
      · exact absurd hd step_zero
      · rw [hstep, if_neg h1] at hd
        exact hbody.mp ⟨d + 1, hd⟩
    · intro h
      obtain ⟨d, hd⟩ := hbody.mpr (h hlen h1)
      rcases d with _ | d
      · exact absurd hd readBody_zero
      · exact ⟨d + 1, by rwa [hstep, if_neg h1]⟩

/-! ### A whole file -/

theorem Reader.Called.builtIn {e : Event} {x : Reader FileStream × Option Stop}
    (h : r.Called P header e x) (hR : r.register.BuiltIn) : x.1.register.BuiltIn := by
  rcases h with ⟨c, w⟩ | ⟨c, h⟩
  · exact hR
  · exact hR.handleRegisterEvents h

variable {r' : Reader FileStream}

section

variable (hR : r.register.BuiltIn)

include hR

theorem readBody_keeps {d : ℕ}
    (h : r.readBody P (streamInput host) false d id header = (r', none)) :
    r'.register.BuiltIn ∧ r'.stream.length ≤ r.stream.length := by
  rw [readBody, if_neg Bool.false_ne_true] at h
  rcases hread : readEvent P (streamInput host r.endianness) r.register false d
    (.new ((r.register.getKlass id).map EventKlass.id)) (some header) r.stream with
    ⟨⟨e, b⟩, s⟩ | ⟨w, s⟩
  · rw [hread] at h
    obtain ⟨⟨k, -, htakes⟩, -⟩ := takes_of_readEvent hread
    have hcalled := called_finish (P := P) { r with stream := s } id header e
    dsimp only at h
    rw [if_neg Bool.false_ne_true] at h
    rw [h] at hcalled
    exact ⟨hcalled.builtIn hR, hcalled.stream ▸ htakes.length_le⟩
  · rw [hread] at h
    cases h

/-- **A round that goes on has used up bytes**, and the built-in klasses are still there. -/
theorem step_keeps {d : ℕ} (h : r.step P (streamInput host) false d = (r', none)) :
    r'.register.BuiltIn ∧ r'.stream.length < r.stream.length := by
  rcases d with _ | d
  · cases h
  rcases step_file hR with ⟨-, hstep⟩ | ⟨hlen, header, -, hstep⟩
  · obtain ⟨s, hs⟩ := hstep d
    rw [hs] at h
    cases h
  · rw [hstep] at h
    have hdrop : (r.stream.drop 20).length < r.stream.length := by
      rw [List.length_drop]
      omega
    split at h
    · have hcalled := called_callCallbacks (P := P) { r with stream := r.stream.drop 20 }
        r.endianness header header
      rw [h] at hcalled
      exact ⟨hcalled.builtIn hR, hcalled.stream ▸ hdrop⟩
    · have hkeeps := readBody_keeps (r := { r with stream := r.stream.drop 20 }) hR h
      exact ⟨hkeeps.1, lt_of_le_of_lt hkeeps.2 hdrop⟩

theorem rounds_keeps {d k : ℕ} (h : r.rounds P (streamInput host) false d k = some r') :
    r'.register.BuiltIn ∧ r'.stream.length + k ≤ r.stream.length := by
  induction k generalizing r with
  | zero =>
    cases h
    exact ⟨hR, le_rfl⟩
  | succ k ih =>
    obtain ⟨r'', hstep, h⟩ := exists_step_of_rounds h
    obtain ⟨hR'', hlt⟩ := step_keeps hR hstep
    obtain ⟨hR', hle⟩ := ih hR'' h
    exact ⟨hR', by omega⟩

/-- If every state the reader gets to is safe, its run ends with an error. -/
theorem exists_run_error {n : ℕ} (hlen : r.stream.length ≤ n)
    (hsafe : ∀ d k r', r.rounds P (streamInput host) false d k = some r' →
      SafeRound host P r'.register r'.endianness r'.stream) :
    ∃ d, (r.run P (streamInput host) false d (n + 1)).2 = .error := by
  induction n generalizing r with
  | zero =>
    obtain ⟨d, hd⟩ := (exists_survived_step_iff hR).mpr (hsafe 0 0 r rfl)
    rcases hstep : r.step P (streamInput host) false d with ⟨r', _ | w⟩
    · have hlt := (step_keeps hR hstep).2
      omega
    · rw [hstep] at hd
      exact ⟨d, by rw [run_stop hstep, survived_some_iff.mp hd]⟩
  | succ n ih =>
    obtain ⟨d, hd⟩ := (exists_survived_step_iff hR).mpr (hsafe 0 0 r rfl)
    rcases hstep : r.step P (streamInput host) false d with ⟨r', _ | w⟩
    · obtain ⟨hR', hlt⟩ := step_keeps hR hstep
      have hdeep : ∀ d', d ≤ d' → r.step P (streamInput host) false d' = (r', none) := by
        intro d' hle
        rw [step_deeper hle (by rw [hstep]; simp), hstep]
      -- the rest of the run may need a larger bound than this round: take the larger of the two
      obtain ⟨d', hd'⟩ := ih hR' (by omega) fun d' k r'' h =>
        hsafe (max d d') (k + 1) r'' (by
          rw [rounds_succ (hdeep _ (le_max_left d d'))]
          exact rounds_deeper (le_max_right d d') h)
      refine ⟨max d d', ?_⟩
      rw [run, hdeep _ (le_max_left d d')]
      dsimp only
      rw [run_deeper (le_max_right d d') (by rw [hd']; decide), hd']
    · rw [hstep] at hd
      exact ⟨d, by rw [run_stop hstep, survived_some_iff.mp hd]⟩

/-- If the run of the reader ends with an error, every state on its way is safe. -/
theorem safeRound_of_run_error {n d₀ : ℕ} (hlen : r.stream.length ≤ n)
    (herror : ∀ d ≥ d₀, (r.run P (streamInput host) false d (n + 1)).2 = .error) {d k : ℕ}
    (h : r.rounds P (streamInput host) false d k = some r') :
    SafeRound host P r'.register r'.endianness r'.stream := by
  obtain ⟨hR', hk⟩ := rounds_keeps hR h
  refine (exists_survived_step_iff hR').mp ⟨max d d₀, ?_⟩
  -- with a bound that is large enough for both, the run goes through `r'`
  have hrounds := rounds_deeper (le_max_left d d₀) h
  have hrun := run_of_rounds hrounds (n - k + 1)
  rw [show n - k + 1 + k = n + 1 by omega] at hrun
  have hw := herror _ (le_max_right d d₀)
  rw [hrun, run] at hw
  rcases hstep : r'.step P (streamInput host) false (max d d₀) with ⟨r'', _ | w⟩
  · exact survived_none
  · rw [hstep] at hw
    exact survived_some_iff.mpr hw

end

end Round

/-- **A file the reader survives**: whatever happens, it leaves its loop with an error – the
end of the file, if nothing else – once the bound on the recursion is not in the way. -/
def Survives (host : ByteOrder) (P : Platform) (flat : Bool) (s : FileStream) : Prop :=
  ∃ depth₀, ∀ depth ≥ depth₀, (readEvents host P flat depth s).2 = .error

variable {P : Platform} {host : ByteOrder}

theorem survives_flat_iff (s : FileStream) : Survives host P true s ↔ Survives host P false s := by
  have hagree : ∀ depth, (readEvents host P true depth s).2 = (readEvents host P false depth s).2 :=
    fun depth => (run_agree (agree_new s) (Stream.avail s + 1)).1
  simp only [Survives, hagree]

theorem Reader.rounds_agree {σ : Type} {input : UInt8 → Input σ} {depth : ℕ} {rF rN : Reader σ}
    (h : rF.Agree rN) (k : ℕ) :
    Option.Rel Reader.Agree (rF.rounds P input true depth k) (rN.rounds P input false depth k) := by
  induction k generalizing rF rN with
  | zero => exact .some h
  | succ k ih =>
    have hstep : Reader.OutcomesAgree (rF.step P input true depth) (rN.step P input false depth) :=
      step_agree h
    rw [rounds, rounds]
    rcases hF : rF.step P input true depth with ⟨rF', wF⟩
    rcases hN : rN.step P input false depth with ⟨rN', wN⟩
    rw [hF, hN] at hstep
    obtain ⟨rfl, hagree⟩ : wF = wN ∧ rF'.Agree rN' := hstep
    rcases wF with _ | w
    · exact ih hagree
    · exact .none

theorem survives_nested_iff (s : FileStream) :
    Survives host P false s ↔
      ∀ depth k r, (Reader.new s).rounds P (streamInput host) false depth k = some r →
        SafeRound host P r.register r.endianness r.stream := by
  constructor
  · rintro ⟨d₀, h⟩ depth k r hr
    exact safeRound_of_run_error builtIn_new le_rfl h hr
  · intro h
    obtain ⟨d, hd⟩ := exists_run_error builtIn_new le_rfl h
    refine ⟨d, fun depth hdepth => ?_⟩
    have hdeep := run_deeper hdepth (by rw [hd]; decide)
    exact (congrArg Prod.snd hdeep).trans hd

/-- In both modes the reader gets to the same registers, byte orders and streams. -/
theorem forall_rounds_flat_iff (s : FileStream) (depth k : ℕ)
    (Q : KlassRegister → UInt8 → FileStream → Prop) :
    (∀ r, (Reader.new s).rounds P (streamInput host) true depth k = some r →
        Q r.register r.endianness r.stream) ↔
      ∀ r, (Reader.new s).rounds P (streamInput host) false depth k = some r →
        Q r.register r.endianness r.stream := by
  have hrel : Option.Rel Reader.Agree ((Reader.new s).rounds P (streamInput host) true depth k)
      ((Reader.new s).rounds P (streamInput host) false depth k) :=
    rounds_agree (agree_new s) k
  generalize (Reader.new s).rounds P (streamInput host) true depth k = flatState at hrel ⊢
  generalize (Reader.new s).rounds P (streamInput host) false depth k = nestedState at hrel ⊢
  rcases hrel with ⟨hagree⟩ | _
  · simp only [Option.some.injEq, forall_eq', hagree.register, hagree.endianness, hagree.stream]
  · simp only [reduceCtorEq, false_implies]

/-- **Which files the reader survives**: those on which every round, in the state it finds,
is safe. -/
theorem survives_iff_safeRounds (host : ByteOrder) (P : Platform) (flat : Bool) (s : FileStream) :
    Survives host P flat s ↔
      ∀ depth k r, (Reader.new s).rounds P (streamInput host) flat depth k = some r →
        SafeRound host P r.register r.endianness r.stream := by
  rcases flat with _ | _
  · exact survives_nested_iff s
  · rw [survives_flat_iff, survives_nested_iff]
    exact forall₂_congr fun depth k => (forall_rounds_flat_iff s depth k (SafeRound host P)).symm

/-- A header that names klass 77, and nothing else. -/
def unknownKlassFile : FileStream := 77 :: List.replicate 19 0

/-- The description of a field of klass 77. -/
def unknownFieldFile : FileStream :=
  3 :: List.replicate 19 0 ++
    FieldDescription.encode .little ⟨77, [], [], 4, 99, by simp, by simp⟩

/-- The description of a field of the endianness event whose type is no type. -/
def unknownTypeFile : FileStream :=
  3 :: List.replicate 19 0 ++ FieldDescription.encode .little ⟨0, [], [], 4, 5, by simp, by simp⟩

theorem not_survives_of_stop {flat : Bool} {s : FileStream} {d : ℕ} {w : Stop}
    (h : (readEvents host P flat d s).2 = w) (hdepth : w ≠ .depth) (herror : w ≠ .error) :
    ¬ Survives host P flat s := by
  rintro ⟨d₀, hd₀⟩
  have hdeep := run_deeper (le_max_right d₀ d)
    (show (readEvents host P flat d s).2 ≠ .depth by rwa [h])
  exact herror (h.symm.trans ((congrArg Prod.snd hdeep).symm.trans (hd₀ _ (le_max_left d₀ d))))

/-- **There are files the reader does not survive**: it dereferences the klass that is not
there, or lets the exception through. -/
theorem files_not_survived :
    (readEvents .little samplePlatform false 1 unknownKlassFile).2 = .nullKlass ∧
      (readEvents .little samplePlatform false 1 unknownFieldFile).2 = .outOfRange ∧
      (readEvents .little samplePlatform false 1 unknownTypeFile).2 = .runtimeError ∧
      ∀ s ∈ [unknownKlassFile, unknownFieldFile, unknownTypeFile],
        ¬ Survives .little samplePlatform false s := by
  have hklass : (readEvents .little samplePlatform false 1 unknownKlassFile).2 = .nullKlass := by
    decide
  have hfield : (readEvents .little samplePlatform false 1 unknownFieldFile).2 = .outOfRange := by
    decide
  have htype : (readEvents .little samplePlatform false 1 unknownTypeFile).2 = .runtimeError := by
    decide
  refine ⟨hklass, hfield, htype, ?_⟩
  simp only [List.mem_cons, List.not_mem_nil, or_false, forall_eq_or_imp, forall_eq]
  exact ⟨not_survives_of_stop hklass (by decide) (by decide),
    not_survives_of_stop hfield (by decide) (by decide),
    not_survives_of_stop htype (by decide) (by decide)⟩

end HawkTracer.Parser
