import HawkTracer.Parser.Event

/-!
# The klass register of the parser

The register is what makes a stream readable: it starts with the four klasses every
stream relies on, and every description event that comes by adds a klass or a field
to it (`HawkTracer.Parser.KlassRegister.handleRegisterEvents`). Both additions are
first-wins: a klass whose identifier is taken and a field whose name is taken are
dropped.

A klass is found by its identifier, or by its name; in the second case the register
is walked in the platform's order and the first klass of that name is taken. A name
that is not found yields the identifier `HT_INVALID_KLASS_ID`, which is then looked up
like any other.

Whatever leaves a reader function without a result is a `HawkTracer.Parser.Stop`.
Only `error` is a failure the source reports; the others are exceptions nobody
catches, reads through a null pointer, and a recursion that does not come back.
-/

namespace HawkTracer.Parser

/-- The ways in which reading stops. -/
inductive Stop where
  /-- `is_error`: the stream ended, or holds a value that cannot be read. -/
  | error
  /-- A klass was dereferenced that is not in the register. -/
  | nullKlass
  /-- `std::out_of_range`, from `_values.at` or `_register.at`. -/
  | outOfRange
  /-- `std::runtime_error`, from `get_type_id`. -/
  | runtimeError
  /-- A member of the union was read that is not the stored one. -/
  | wrongMember
  /-- `assert(base_event != nullptr)`. -/
  | assertion
  /-- The recursion over nested structs went deeper than the given bound. -/
  | depth
  deriving DecidableEq, Repr

/-! ### Reading the values of a description event -/

/-- `get_value` of a numeric type: the bit pattern. -/
def Event.getNum (e : Event) (key : Name) : Except Stop ℕ :=
  match e.get key with
  | some (.num _ n) => .ok n
  | some _ => .error .wrongMember
  | none => .error .outOfRange

/-- `get_value<char*>`. -/
def Event.getStr (e : Event) (key : Name) : Except Stop Name :=
  match e.get key with
  | some (.str s) => .ok s
  | some _ => .error .wrongMember
  | none => .error .outOfRange

theorem except_bind_eq_ok {α β : Type} {x : Except Stop α} {k : α → Except Stop β} {b : β}
    (h : (x >>= k) = .ok b) : ∃ a, x = .ok a ∧ k a = .ok b := by
  rcases x with w | a
  · cases h
  · exact ⟨a, rfl, h⟩

theorem Event.getNum_eq {e : Event} {key : Name} {t : FieldTypeId} {n : ℕ}
    (h : e.get key = some (.num t n)) : e.getNum key = .ok n := by
  rw [Event.getNum, h]

theorem Event.getStr_eq {e : Event} {key : Name} {s : Name} (h : e.get key = some (.str s)) :
    e.getStr key = .ok s := by
  rw [Event.getStr, h]

/-- `get_type_id`. -/
def getTypeId (typeSize : ℕ) (dataType : ℕ) : Except Stop FieldTypeId :=
  match dataType with
  | 6 => .ok .pointer
  | 2 => .ok .string
  | 99 =>
    match typeSize with
    | 1 => .ok .uint8
    | 2 => .ok .uint16
    | 4 => .ok .uint32
    | 8 => .ok .uint64
    | _ => .error .runtimeError
  | 3 =>
    match typeSize with
    | 1 => .ok .int8
    | 2 => .ok .int16
    | 4 => .ok .int32
    | 8 => .ok .int64
    | _ => .error .runtimeError
  | 1 => .ok .struct
  | _ => .error .runtimeError

/-! ### The register -/

/-- `KlassRegister`. A klass whose identifier is taken is not inserted, so identifiers
are not repeated. -/
structure KlassRegister where
  klasses : List EventKlass
  nodup : (klasses.map EventKlass.id).Nodup

namespace KlassRegister

/-- `get_klass` by identifier. -/
def getKlass (R : KlassRegister) (id : UInt32) : Option EventKlass :=
  findKey EventKlass.id R.klasses id

/-- `get_klass_id`. -/
def getKlassId (P : Platform) (R : KlassRegister) (name : Name) : UInt32 :=
  match (P.iterate R.klasses).find? fun k => k.name = name with
  | some k => k.id
  | none => 0xffffffff

/-- `_add_klass`. -/
def addKlass (R : KlassRegister) (k : EventKlass) : KlassRegister where
  klasses := insertNew EventKlass.id R.klasses k
  nodup := nodup_insertNew R.nodup k

/-- The register with a field added to the klass of the given identifier, if there is
one. -/
def updateKlass (R : KlassRegister) (id : UInt32) (f : EventKlassField) : KlassRegister where
  klasses := R.klasses.map fun k => if k.id = id then k.addField f else k
  nodup := by
    have h : (R.klasses.map fun k => if k.id = id then k.addField f else k).map EventKlass.id =
        R.klasses.map EventKlass.id := by
      rw [List.map_map]
      refine List.map_congr_left fun k _ => ?_
      by_cases hk : k.id = id <;> simp [hk]
    rw [h]
    exact R.nodup

/-- `_add_klass_field`. -/
def addKlassField (R : KlassRegister) (id : UInt32) (f : EventKlassField) :
    Except Stop KlassRegister :=
  match R.getKlass id with
  | some _ => .ok (R.updateKlass id f)
  | none => .error .outOfRange

/-- `is_well_known_klass`. The klass of the endianness event is not in the list. -/
def isWellKnownKlass (id : UInt32) : Bool := id = 1 || id = 2 || id = 3

/-- The built-in field of the endianness event. -/
def endiannessField : EventKlassField := ⟨ascii "endianness", ascii "uint8_t", .uint8, none⟩

/-- The register as the constructor leaves it. -/
def new : KlassRegister where
  klasses :=
    [⟨ascii "HT_Event", 1,
      [⟨ascii "klass_id", ascii "uint32_t", .uint32, none⟩,
       ⟨ascii "timestamp", ascii "uint64_t", .uint64, none⟩,
       ⟨ascii "id", ascii "uint64_t", .uint64, none⟩], by decide⟩,
     ⟨ascii "HT_EndiannessInfoEvent", 0, [endiannessField], by decide⟩,
     ⟨ascii "HT_EventKlassInfoEvent", 2,
      [⟨ascii "info_klass_id", ascii "uint32_t", .uint32, none⟩,
       ⟨ascii "event_klass_name", ascii "const char*", .string, none⟩,
       ⟨ascii "field_count", ascii "uint8_t", .uint8, none⟩], by decide⟩,
     ⟨ascii "HT_EventKlassFieldInfoEvent", 3,
      [⟨ascii "info_klass_id", ascii "uint32_t", .uint32, none⟩,
       ⟨ascii "field_type", ascii "const char*", .string, none⟩,
       ⟨ascii "field_name", ascii "const char*", .string, none⟩,
       ⟨ascii "size", ascii "uint64_t", .uint64, none⟩,
       ⟨ascii "data_type", ascii "uint8_t", .uint8, none⟩], by decide⟩]
  nodup := by decide

variable (P : Platform)

/-- The field a description makes; a struct field remembers the klass its type name
leads to at this moment. -/
def describedField (R : KlassRegister) (fieldName fieldType : Name) (typeId : FieldTypeId)
    (dataType : ℕ) : EventKlassField where
  name := fieldName
  typeName := fieldType
  typeId := typeId
  klass :=
    if dataType = 1 then (R.getKlass (R.getKlassId P fieldType)).map EventKlass.id else none

/-- `handle_register_events`. -/
def handleRegisterEvents (R : KlassRegister) (e : Event) : Except Stop KlassRegister :=
  match e.klass with
  | none => .error .nullKlass
  | some id =>
    if id = 2 then do
      let klassId ← e.getNum (ascii "info_klass_id")
      let name ← e.getStr (ascii "event_klass_name")
      return R.addKlass (.new name (UInt32.ofNat klassId))
    else if id = 3 then do
      let klassId ← e.getNum (ascii "info_klass_id")
      if isWellKnownKlass (UInt32.ofNat klassId) then
        return R
      else
        let dataType ← e.getNum (ascii "data_type")
        let fieldType ← e.getStr (ascii "field_type")
        let fieldName ← e.getStr (ascii "field_name")
        let size ← e.getNum (ascii "size")
        let typeId ← getTypeId size dataType
        R.addKlassField (UInt32.ofNat klassId)
          (R.describedField P fieldName fieldType typeId dataType)
    else .ok R

/-! ### Handling description events -/

variable {P} {R R' : KlassRegister} {id : UInt32} {k : EventKlass} {e : Event}

/-- An event of any other klass leaves the register alone. -/
theorem handleRegisterEvents_other (R : KlassRegister) (he : e.klass = some id) (h2 : id ≠ 2)
    (h3 : id ≠ 3) : R.handleRegisterEvents P e = .ok R := by
  rw [handleRegisterEvents, he]
  simp only [if_neg h2, if_neg h3]

theorem handleRegisterEvents_klassInfo (R : KlassRegister) {t : FieldTypeId} {n : ℕ} {name : Name}
    (he : e.klass = some 2) (hid : e.get (ascii "info_klass_id") = some (.num t n))
    (hname : e.get (ascii "event_klass_name") = some (.str name)) :
    R.handleRegisterEvents P e = .ok (R.addKlass (.new name (UInt32.ofNat n))) := by
  rw [handleRegisterEvents, he]
  simp only [if_pos, Event.getNum_eq hid, Event.getStr_eq hname]
  rfl

theorem handleRegisterEvents_wellKnown (R : KlassRegister) {t : FieldTypeId} {n : ℕ}
    (he : e.klass = some 3) (hid : e.get (ascii "info_klass_id") = some (.num t n))
    (hn : isWellKnownKlass (UInt32.ofNat n) = true) : R.handleRegisterEvents P e = .ok R := by
  rw [handleRegisterEvents, he]
  simp only [Event.getNum_eq hid]
  change (if isWellKnownKlass (UInt32.ofNat n) = true then _ else _) = _
  rw [if_pos hn]
  rfl

/-- A field description of a klass that is not well known adds the field, if its type and
its klass are there. -/
theorem handleRegisterEvents_fieldInfo (R : KlassRegister) {t t' t'' : FieldTypeId}
    {n dataType size : ℕ} {fieldType fieldName : Name} (he : e.klass = some 3)
    (hid : e.get (ascii "info_klass_id") = some (.num t n))
    (hn : isWellKnownKlass (UInt32.ofNat n) = false)
    (hdata : e.get (ascii "data_type") = some (.num t' dataType))
    (htype : e.get (ascii "field_type") = some (.str fieldType))
    (hname : e.get (ascii "field_name") = some (.str fieldName))
    (hsize : e.get (ascii "size") = some (.num t'' size)) :
    R.handleRegisterEvents P e = getTypeId size dataType >>= fun typeId =>
      R.addKlassField (UInt32.ofNat n)
        (R.describedField P fieldName fieldType typeId dataType) := by
  rw [handleRegisterEvents, he]
  simp only [Event.getNum_eq hid]
  change (if isWellKnownKlass (UInt32.ofNat n) = true then _ else _) = _
  rw [if_neg (by rw [hn]; decide)]
  simp only [Event.getNum_eq hdata, Event.getStr_eq htype, Event.getStr_eq hname,
    Event.getNum_eq hsize]
  rfl

/-! ### Looking klasses up -/

theorem mem_of_getKlass (h : R.getKlass id = some k) : k ∈ R.klasses := mem_of_findKey h

theorem id_of_getKlass (h : R.getKlass id = some k) : k.id = id := key_of_findKey h

theorem getKlass_eq_some_iff :
    R.getKlass id = some k ↔ k ∈ R.klasses ∧ k.id = id := findKey_eq_some_iff R.nodup

/-- Adding a klass leaves the others alone. -/
theorem getKlass_addKlass (R : KlassRegister) (k : EventKlass) (id : UInt32) :
    (R.addKlass k).getKlass id = (R.getKlass id).or (if k.id = id then some k else none) := by
  rw [getKlass, addKlass, findKey_insertNew, findKey_singleton, getKlass]

/-- Adding a field changes the one klass it is added to. -/
theorem getKlass_updateKlass (R : KlassRegister) (id : UInt32) (f : EventKlassField)
    (id' : UInt32) :
    (R.updateKlass id f).getKlass id' =
      (R.getKlass id').map fun k => if k.id = id then k.addField f else k := by
  rw [getKlass, updateKlass, getKlass, findKey, findKey, List.find?_map]
  congr 2
  funext k
  by_cases hk : k.id = id <;> simp [hk]

theorem getKlass_updateKlass_of_ne (R : KlassRegister) {id' : UInt32} (h : id' ≠ id)
    (f : EventKlassField) : (R.updateKlass id f).getKlass id' = R.getKlass id' := by
  rw [getKlass_updateKlass]
  rcases hk : R.getKlass id' with _ | k
  · rfl
  · rw [Option.map_some, if_neg (by rw [id_of_getKlass hk]; exact h)]

theorem getKlass_updateKlass_self (h : R.getKlass id = some k) (f : EventKlassField) :
    (R.updateKlass id f).getKlass id = some (k.addField f) := by
  rw [getKlass_updateKlass, h, Option.map_some, if_pos (id_of_getKlass h)]

theorem addKlassField_of_mem (h : R.getKlass id = some k) (f : EventKlassField) :
    R.addKlassField id f = .ok (R.updateKlass id f) := by
  rw [addKlassField, h]

/-- **A name that is not repeated leads to its klass**, whatever the order in which the
register is walked. -/
theorem getKlassId_of_unique (P : Platform) (hk : k ∈ R.klasses)
    (huniq : ∀ k' ∈ R.klasses, k'.name = k.name → k' = k) : R.getKlassId P k.name = k.id := by
  have hmem : k ∈ P.iterate R.klasses := (P.iterate_perm R.klasses).mem_iff.mpr hk
  rw [getKlassId]
  rcases hf : (P.iterate R.klasses).find? fun k' => k'.name = k.name with _ | k'
  · exact absurd (List.find?_eq_none.mp hf k hmem) (by simp)
  · have hk' : k' ∈ R.klasses :=
      (P.iterate_perm R.klasses).mem_iff.mp (List.mem_of_find?_eq_some hf)
    have hname : k'.name = k.name := by simpa using List.find?_some hf
    rw [hf, huniq k' hk' hname]

/-! ### The built-in klasses -/

/-- **The built-in klasses are still there**: the well-known ones as they were built, and
the endianness event with its field in front. -/
structure BuiltIn (R : KlassRegister) : Prop where
  wellKnown : ∀ id, isWellKnownKlass id = true → R.getKlass id = new.getKlass id
  endianness : ∃ k fs, R.getKlass 0 = some k ∧ k.fields = endiannessField :: fs

theorem builtIn_new : new.BuiltIn := ⟨fun _ _ => rfl, _, [], rfl, rfl⟩

theorem exists_getKlass_new (h : isWellKnownKlass id = true) : ∃ k, new.getKlass id = some k := by
  simp only [isWellKnownKlass, Bool.or_eq_true, decide_eq_true_eq] at h
  rcases h with (rfl | rfl) | rfl <;> exact ⟨_, rfl⟩

/-- No well-known klass has a struct field. -/
theorem not_struct_of_wellKnown (h : isWellKnownKlass id = true) (hk : new.getKlass id = some k) :
    ∀ f ∈ k.fields, f.typeId ≠ .struct := by
  simp only [isWellKnownKlass, Bool.or_eq_true, decide_eq_true_eq] at h
  rcases h with (rfl | rfl) | rfl <;> cases hk <;> decide

theorem BuiltIn.addKlass (h : R.BuiltIn) (k : EventKlass) : (R.addKlass k).BuiltIn := by
  constructor
  · intro id hid
    obtain ⟨k', hk'⟩ := exists_getKlass_new hid
    rw [getKlass_addKlass, h.wellKnown id hid, hk', Option.some_or]
  · obtain ⟨k', fs, hk', hfs⟩ := h.endianness
    exact ⟨k', fs, by rw [getKlass_addKlass, hk', Option.some_or], hfs⟩

theorem BuiltIn.updateKlass (h : R.BuiltIn) (hid : isWellKnownKlass id = false)
    (f : EventKlassField) : (R.updateKlass id f).BuiltIn := by
  constructor
  · intro id' hid'
    have hne : id' ≠ id := by
      rintro rfl
      rw [hid] at hid'
      exact Bool.false_ne_true hid'
    rw [getKlass_updateKlass_of_ne R hne, h.wellKnown id' hid']
  · obtain ⟨k, fs, hk, hfs⟩ := h.endianness
    rcases eq_or_ne 0 id with rfl | hne
    · obtain ⟨vs, hvs⟩ := @exists_insertNew_eq _ _ _ EventKlassField.name k.fields f
      refine ⟨_, fs ++ vs, getKlass_updateKlass_self hk f, ?_⟩
      rw [EventKlass.fields_addField, hvs, hfs, List.cons_append]
    · exact ⟨k, fs, by rw [getKlass_updateKlass_of_ne R hne, hk], hfs⟩

theorem eq_updateKlass_of_addKlassField {f : EventKlassField} (h : R.addKlassField id f = .ok R') :
    R' = R.updateKlass id f := by
  rw [addKlassField] at h
  split at h
  · exact (Except.ok.inj h).symm
  · cases h

theorem exists_getKlass_of_addKlassField {f : EventKlassField} (h : R.addKlassField id f = .ok R') :
    ∃ k, R.getKlass id = some k := by
  rw [addKlassField] at h
  split at h
  · next k hk => exact ⟨k, hk⟩
  · cases h

/-- What handling an event can do to the register: nothing, a new klass, or a field more in a
klass that is not well known. -/
theorem handleRegisterEvents_cases (h : R.handleRegisterEvents P e = .ok R') :
    R' = R ∨ (∃ k, R' = R.addKlass k) ∨
      ∃ id f, isWellKnownKlass id = false ∧ R' = R.updateKlass id f := by
  unfold handleRegisterEvents at h
  split at h
  · cases h
  split_ifs at h
  · obtain ⟨n, -, h⟩ := except_bind_eq_ok h
    obtain ⟨name, -, h⟩ := except_bind_eq_ok h
    exact Or.inr (Or.inl ⟨_, (Except.ok.inj h).symm⟩)
  · obtain ⟨n, -, h⟩ := except_bind_eq_ok h
    split_ifs at h with hn
    · exact Or.inl (Except.ok.inj h).symm
    · obtain ⟨dataType, -, h⟩ := except_bind_eq_ok h
      obtain ⟨fieldType, -, h⟩ := except_bind_eq_ok h
      obtain ⟨fieldName, -, h⟩ := except_bind_eq_ok h
      obtain ⟨size, -, h⟩ := except_bind_eq_ok h
      obtain ⟨typeId, -, h⟩ := except_bind_eq_ok h
      exact Or.inr (Or.inr ⟨_, _, by simpa using hn, eq_updateKlass_of_addKlassField h⟩)
  · exact Or.inl (Except.ok.inj h).symm

/-- **Handling an event keeps the built-in klasses.** -/
theorem BuiltIn.handleRegisterEvents (hR : R.BuiltIn) (h : R.handleRegisterEvents P e = .ok R') :
    R'.BuiltIn := by
  rcases handleRegisterEvents_cases h with rfl | ⟨k, rfl⟩ | ⟨id, f, hid, rfl⟩
  · exact hR
  · exact hR.addKlass k
  · exact hR.updateKlass hid f

end KlassRegister

end HawkTracer.Parser
