import HawkTracer.Base.Run
import HawkTracer.Parser.KlassRegister

/-!
# Sequences of description events

What `KlassRegister::handle_register_events` makes of a whole sequence of events. An event
says one of three things – nothing, "there is a klass", "the klass has this field" – and
what it says does not depend on the register (`HawkTracer.Parser.Event.description`); the
register only decides what comes of it (`HawkTracer.Parser.KlassRegister.apply`).

A register only grows: klasses keep their names, and fields keep their positions and all
that is known about them (`HawkTracer.Parser.KlassRegister.Grows`). Once a description has
been taken in, every larger register has nothing to add to it
(`HawkTracer.Parser.KlassRegister.apply_again`) – even where a struct field would by now
be resolved differently, because the field that is there stays. Replaying descriptions is
therefore harmless.

The four klasses of the constructor are protected by three separate means, and there is a
gap between them: `is_well_known_klass` does not know the endianness event, so a stream
can add fields to it (`HawkTracer.Parser.KlassRegister.asConstructed_iff`).
-/

namespace HawkTracer.Parser

/-! ### What an event says -/

/-- What an event says to the register. -/
inductive Description where
  /-- Nothing, or something about a klass that is well known. -/
  | nothing
  /-- There is a klass. -/
  | klass (name : Name) (id : UInt32)
  /-- The klass has a field. -/
  | field (id : UInt32) (name typeName : Name) (typeId : FieldTypeId) (dataType : ℕ)

/-- The description in an event, or the exception thrown when it is taken out of it. -/
def Event.description (e : Event) : Except Stop Description :=
  match e.klass with
  | none => .error .nullKlass
  | some id =>
    if id = 2 then do
      let klassId ← e.getNum (ascii "info_klass_id")
      let name ← e.getStr (ascii "event_klass_name")
      return .klass name (UInt32.ofNat klassId)
    else if id = 3 then do
      let klassId ← e.getNum (ascii "info_klass_id")
      if KlassRegister.isWellKnownKlass (UInt32.ofNat klassId) then
        return .nothing
      else
        let dataType ← e.getNum (ascii "data_type")
        let fieldType ← e.getStr (ascii "field_type")
        let fieldName ← e.getStr (ascii "field_name")
        let size ← e.getNum (ascii "size")
        let typeId ← getTypeId size dataType
        return .field (UInt32.ofNat klassId) fieldName fieldType typeId dataType
    else .ok .nothing

namespace KlassRegister

variable (P : Platform)

/-- What the register does with a description. -/
def apply (R : KlassRegister) : Description → Except Stop KlassRegister
  | .nothing => .ok R
  | .klass name id => .ok (R.addKlass (.new name id))
  | .field id name typeName typeId dataType =>
    R.addKlassField id (R.describedField P name typeName typeId dataType)

/-- **Handling an event** is taking the description out of it and applying it. -/
theorem handleRegisterEvents_eq (R : KlassRegister) (e : Event) :
    R.handleRegisterEvents P e = e.description >>= R.apply P := by
  unfold handleRegisterEvents Event.description
  rcases e.klass with _ | id
  · rfl
  dsimp only
  split_ifs
  · rcases e.getNum (ascii "info_klass_id") with w | n
    · rfl
    · rcases e.getStr (ascii "event_klass_name") with w | name <;> rfl
  · rcases e.getNum (ascii "info_klass_id") with w | n
    · rfl
    · change (if isWellKnownKlass (UInt32.ofNat n) = true then _ else _) =
        (if isWellKnownKlass (UInt32.ofNat n) = true then _ else _) >>= R.apply P
      split_ifs
      · rfl
      · rcases e.getNum (ascii "data_type") with w | dataType
        · rfl
        rcases e.getStr (ascii "field_type") with w | fieldType
        · rfl
        rcases e.getStr (ascii "field_name") with w | fieldName
        · rfl
        rcases e.getNum (ascii "size") with w | size
        · rfl
        change (getTypeId size dataType >>= _) = (getTypeId size dataType >>= _) >>= R.apply P
        rcases getTypeId size dataType with w | typeId <;> rfl
  · rfl

/-- The events of a sequence, one after another; the first exception ends it. -/
def handleAll (R : KlassRegister) (events : List Event) : Except Stop KlassRegister :=
  events.foldlM (handleRegisterEvents P) R

/-- One event, where an exception is caught by the caller: it leaves the register as it
was. -/
def handle (R : KlassRegister) (e : Event) : KlassRegister :=
  match R.handleRegisterEvents P e with
  | .ok R' => R'
  | .error _ => R

variable {P} {R R' R'' : KlassRegister} {events : List Event} {e : Event}

theorem handleAll_cons_eq_ok (h : R.handleAll P (e :: events) = .ok R'') :
    ∃ R', R.handleRegisterEvents P e = .ok R' ∧ R'.handleAll P events = .ok R'' :=
  except_bind_eq_ok h

/-- A sequence of events keeps the built-in klasses. -/
theorem BuiltIn.handleAll (hR : R.BuiltIn) (h : R.handleAll P events = .ok R') : R'.BuiltIn := by
  induction events generalizing R with
  | nil =>
    cases h
    exact hR
  | cons e events ih =>
    obtain ⟨R₁, he, hrest⟩ := handleAll_cons_eq_ok h
    exact ih (hR.handleRegisterEvents he) hrest

theorem handleRegisterEvents_eq_ok (h : R.handleRegisterEvents P e = .ok R') :
    ∃ d, e.description = .ok d ∧ R.apply P d = .ok R' := by
  rw [handleRegisterEvents_eq] at h
  exact except_bind_eq_ok h

/-! ### Registers only grow -/

/-- **A register that has grown**: every klass is still there under its name and with its
fields in front, in their places. -/
def Grows (R R' : KlassRegister) : Prop :=
  ∀ id k, R.getKlass id = some k →
    ∃ k', R'.getKlass id = some k' ∧ k'.name = k.name ∧ k'.id = k.id ∧ k.fields <+: k'.fields

theorem Grows.refl (R : KlassRegister) : R.Grows R := fun _ k hk =>
  ⟨k, hk, rfl, rfl, List.prefix_refl _⟩

theorem Grows.trans (h : R.Grows R') (h' : R'.Grows R'') : R.Grows R'' := by
  intro id k hk
  obtain ⟨k', hk', hname, hid, hfields⟩ := h id k hk
  obtain ⟨k'', hk'', hname', hid', hfields'⟩ := h' id k' hk'
  exact ⟨k'', hk'', hname'.trans hname, hid'.trans hid, hfields.trans hfields'⟩

theorem grows_addKlass (R : KlassRegister) (k : EventKlass) : R.Grows (R.addKlass k) := by
  intro id k' hk'
  refine ⟨k', ?_, rfl, rfl, List.prefix_refl _⟩
  rw [getKlass_addKlass, hk', Option.some_or]

theorem grows_updateKlass (R : KlassRegister) (id : UInt32) (f : EventKlassField) :
    R.Grows (R.updateKlass id f) := by
  intro id' k hk
  rcases eq_or_ne id' id with rfl | hne
  · obtain ⟨vs, hvs⟩ := @exists_insertNew_eq _ _ _ EventKlassField.name k.fields f
    exact ⟨_, getKlass_updateKlass_self hk f, rfl, rfl, vs, hvs.symm⟩
  · exact ⟨k, by rw [getKlass_updateKlass_of_ne R hne, hk], rfl, rfl, List.prefix_refl _⟩

theorem grows_apply {d : Description} (h : R.apply P d = .ok R') : R.Grows R' := by
  cases d with
  | nothing => cases h; exact .refl _
  | klass name id => cases h; exact grows_addKlass R _
  | field id name typeName typeId dataType =>
    rw [eq_updateKlass_of_addKlassField h]
    exact grows_updateKlass R _ _

theorem grows_handleAll (h : R.handleAll P events = .ok R') : R.Grows R' := by
  induction events generalizing R with
  | nil => cases h; exact .refl _
  | cons e events ih =>
    obtain ⟨R₁, he, hrest⟩ := handleAll_cons_eq_ok h
    obtain ⟨d, -, hd⟩ := handleRegisterEvents_eq_ok he
    exact (grows_apply hd).trans (ih hrest)

/-! ### Descriptions seen before -/

theorem eq_of_klasses_eq (h : R.klasses = R'.klasses) : R = R' := by
  cases R
  cases R'
  cases h
  rfl

/-- A klass whose identifier is taken is dropped. -/
theorem addKlass_of_getKlass {k k' : EventKlass} (h : R.getKlass k.id = some k') :
    R.addKlass k = R := by
  refine eq_of_klasses_eq (insertNew_of_mem ?_)
  rw [← id_of_getKlass h]
  exact List.mem_map_of_mem (mem_of_getKlass h)

/-- A field whose name is taken is dropped. -/
theorem updateKlass_of_mem {id : UInt32} {k : EventKlass} (hk : R.getKlass id = some k)
    {f : EventKlassField} (hf : f.name ∈ k.fields.map EventKlassField.name) :
    R.updateKlass id f = R := by
  refine eq_of_klasses_eq ?_
  change (R.klasses.map fun k' => if k'.id = id then k'.addField f else k') = R.klasses
  conv_rhs => rw [← List.map_id R.klasses]
  refine List.map_congr_left fun k' hk' => ?_
  by_cases hid : k'.id = id
  · -- identifiers are not repeated, so this is the klass that has the field
    obtain rfl : k' = k := Option.some.inj ((getKlass_eq_some_iff.mpr ⟨hk', hid⟩).symm.trans hk)
    exact (if_pos hid).trans (EventKlass.addField_of_mem hf)
  · exact if_neg hid

/-- **A description that has been taken in says nothing new**, in every register that has
grown from there. -/
theorem apply_again {d : Description} (h : R.apply P d = .ok R') (hgrow : R'.Grows R'') :
    R''.apply P d = .ok R'' := by
  cases d with
  | nothing => rfl
  | klass name id =>
    cases h
    obtain ⟨k, hk⟩ : ∃ k, (R.addKlass (.new name id)).getKlass id = some k := by
      rw [getKlass_addKlass]
      rcases R.getKlass id with _ | k
      · exact ⟨_, if_pos rfl⟩
      · exact ⟨k, rfl⟩
    obtain ⟨k', hk', -⟩ := hgrow id k hk
    exact congrArg Except.ok (addKlass_of_getKlass (k := .new name id) hk')
  | field id name typeName typeId dataType =>
    obtain ⟨k, hk⟩ := exists_getKlass_of_addKlassField h
    have hk' := getKlass_updateKlass_self hk (R.describedField P name typeName typeId dataType)
    rw [← eq_updateKlass_of_addKlassField h] at hk'
    obtain ⟨k'', hk'', -, -, hfields⟩ := hgrow id _ hk'
    -- the field may lead to another klass by now, but its name is taken
    have hname : name ∈ k''.fields.map EventKlassField.name :=
      (hfields.map EventKlassField.name).subset
        (key_mem_insertNew k.fields (R.describedField P name typeName typeId dataType))
    rw [apply, addKlassField_of_mem hk'']
    exact congrArg Except.ok (updateKlass_of_mem hk'' hname)

theorem handle_again (h : R.handleRegisterEvents P e = .ok R') (hgrow : R'.Grows R'') :
    R''.handleRegisterEvents P e = .ok R'' := by
  obtain ⟨d, hd, happly⟩ := handleRegisterEvents_eq_ok h
  rw [handleRegisterEvents_eq, hd]
  exact apply_again happly hgrow

/-- Every event of a sequence has been taken in at its end. -/
theorem handle_again_of_mem (h : R.handleAll P events = .ok R') (he : e ∈ events) :
    R'.handleRegisterEvents P e = .ok R' := by
  induction events generalizing R with
  | nil => cases he
  | cons e' events ih =>
    obtain ⟨R₁, he', hrest⟩ := handleAll_cons_eq_ok h
    rcases List.mem_cons.mp he with rfl | he
    · exact handle_again he' (grows_handleAll hrest)
    · exact ih hrest he

/-- **Replaying descriptions is harmless.** Once a sequence of events has been handled
without an exception, handling any of them again, in any order and any number of times,
leaves the register exactly as it is; and from any point of the sequence to any later one
the register only grows. -/
theorem replay_harmless (P : Platform) {R R' : KlassRegister} {events : List Event}
    (h : R.handleAll P events = .ok R') :
    (∀ again : List Event, (∀ e ∈ again, e ∈ events) → R'.handleAll P again = .ok R') ∧
      ∀ before between after R₁ R₂, events = before ++ between ++ after →
        R.handleAll P before = .ok R₁ → R₁.handleAll P between = .ok R₂ → R₁.Grows R₂ := by
  refine ⟨fun again hagain => ?_, fun _ _ _ _ _ _ _ hbetween => grows_handleAll hbetween⟩
  induction again with
  | nil => rfl
  | cons e again ih =>
    have he := handle_again_of_mem h (hagain e List.mem_cons_self)
    have hrest := ih fun e' he' => hagain e' (List.mem_cons_of_mem e he')
    change R'.handleRegisterEvents P e >>= (·.handleAll P again) = .ok R'
    rw [he]
    exact hrest

/-- The event that describes a klass. -/
def klassEvent (id : UInt32) (name : Name) : Event :=
  (Event.new (some 2)).setAll samplePlatform
    [(⟨ascii "info_klass_id", ascii "uint32_t", .uint32, none⟩, .num .uint32 id.toNat),
     (⟨ascii "event_klass_name", ascii "const char*", .string, none⟩, .str name),
     (⟨ascii "field_count", ascii "uint8_t", .uint8, none⟩, .num .uint8 1)]

/-- The event that describes a field. -/
def fieldEvent (id : UInt32) (typeName name : Name) (size : ℕ) (dataType : ℕ) : Event :=
  (Event.new (some 3)).setAll samplePlatform
    [(⟨ascii "info_klass_id", ascii "uint32_t", .uint32, none⟩, .num .uint32 id.toNat),
     (⟨ascii "field_type", ascii "const char*", .string, none⟩, .str typeName),
     (⟨ascii "field_name", ascii "const char*", .string, none⟩, .str name),
     (⟨ascii "size", ascii "uint64_t", .uint64, none⟩, .num .uint64 size),
     (⟨ascii "data_type", ascii "uint8_t", .uint8, none⟩, .num .uint8 dataType)]

theorem replay_harmless_sample : ∃ R',
    new.handleAll samplePlatform [klassEvent 20 (ascii "new_klass"),
      fieldEvent 20 (ascii "HT_Event") (ascii "base") 24 1] = .ok R' ∧
    (∀ again : List Event, (∀ e ∈ again, e ∈ [klassEvent 20 (ascii "new_klass"),
      fieldEvent 20 (ascii "HT_Event") (ascii "base") 24 1]) →
        R'.handleAll samplePlatform again = .ok R') ∧
      ∀ before between after R₁ R₂, [klassEvent 20 (ascii "new_klass"),
          fieldEvent 20 (ascii "HT_Event") (ascii "base") 24 1] = before ++ between ++ after →
        new.handleAll samplePlatform before = .ok R₁ →
        R₁.handleAll samplePlatform between = .ok R₂ → R₁.Grows R₂ :=
  ⟨_, rfl, replay_harmless samplePlatform rfl⟩

/-! ### The klasses of the constructor -/

/-- **The four klasses of the constructor are as it made them**, with their names and
fields. -/
def AsConstructed (R : KlassRegister) : Prop :=
  ∀ id ∈ ([0, 1, 2, 3] : List UInt32), R.getKlass id = new.getKlass id

/-- An event that describes a field of the endianness event other than its own. -/
def ExtendsEndianness (e : Event) : Prop :=
  ∃ name typeName typeId dataType,
    e.description = .ok (.field 0 name typeName typeId dataType) ∧ name ≠ ascii "endianness"

theorem asConstructed_new : new.AsConstructed := fun _ _ => rfl

theorem exists_getKlass_of_asConstructed (h : R.AsConstructed) {id : UInt32}
    (hid : id ∈ ([0, 1, 2, 3] : List UInt32)) : ∃ k, R.getKlass id = some k := by
  rw [h id hid]
  simp only [List.mem_cons, List.not_mem_nil, or_false] at hid
  rcases hid with rfl | rfl | rfl | rfl <;> exact ⟨_, rfl⟩

theorem AsConstructed.addKlass (h : R.AsConstructed) (k : EventKlass) :
    (R.addKlass k).AsConstructed := by
  intro id hid
  obtain ⟨k', hk'⟩ := exists_getKlass_of_asConstructed h hid
  rw [getKlass_addKlass, hk', Option.some_or, ← h id hid, hk']

/-- What is known of the description of a field: it is about a klass that `is_well_known_klass`
does not know, and its type is one of those `get_type_id` knows. -/
theorem of_description_field {id : UInt32} {name typeName : Name} {typeId : FieldTypeId}
    {dataType : ℕ} (h : e.description = .ok (.field id name typeName typeId dataType)) :
    isWellKnownKlass id = false ∧ ∃ size, getTypeId size dataType = .ok typeId := by
  unfold Event.description at h
  split at h
  · cases h
  split_ifs at h
  · obtain ⟨n, -, h⟩ := except_bind_eq_ok h
    obtain ⟨name, -, h⟩ := except_bind_eq_ok h
    cases h
  · obtain ⟨n, -, h⟩ := except_bind_eq_ok h
    split_ifs at h with hn
    · cases h
    · obtain ⟨dataType, -, h⟩ := except_bind_eq_ok h
      obtain ⟨fieldType, -, h⟩ := except_bind_eq_ok h
      obtain ⟨fieldName, -, h⟩ := except_bind_eq_ok h
      obtain ⟨size, -, h⟩ := except_bind_eq_ok h
      obtain ⟨typeId, htype, h⟩ := except_bind_eq_ok h
      cases h
      exact ⟨by simpa using hn, size, htype⟩
  · cases h

/-- A field of another klass than the four leaves them alone. -/
theorem AsConstructed.updateKlass (h : R.AsConstructed) {id : UInt32}
    (hid : id ∉ ([0, 1, 2, 3] : List UInt32)) (f : EventKlassField) :
    (R.updateKlass id f).AsConstructed := by
  intro id' hid'
  have hne : id' ≠ id := fun heq => hid (heq ▸ hid')
  rw [getKlass_updateKlass_of_ne R hne, h id' hid']

/-- A field of the endianness event leaves it alone exactly if it is the one that is
there. -/
theorem asConstructed_updateKlass_zero_iff (h : R.AsConstructed) (f : EventKlassField) :
    (R.updateKlass 0 f).AsConstructed ↔ f.name = ascii "endianness" := by
  have hk : R.getKlass 0 = some ⟨ascii "HT_EndiannessInfoEvent", 0, [endiannessField], by decide⟩ :=
    (h 0 (by simp)).trans rfl
  constructor
  · intro hnew
    by_contra hname
    have hzero := hnew 0 (by simp)
    rw [getKlass_updateKlass_self hk f, ← h 0 (by simp), hk] at hzero
    have hfields := congrArg (fun k => k.fields.length) (Option.some.inj hzero)
    rw [EventKlass.fields_addField, insertNew_of_not_mem (by simpa [endiannessField] using hname)]
      at hfields
    simp at hfields
  · intro hname
    rw [updateKlass_of_mem hk (by simp [hname, endiannessField])]
    exact h

/-- **One event** leaves the four klasses alone exactly if it does not extend the endianness
event. -/
theorem asConstructed_handle_iff (h : R.AsConstructed) (e : Event) :
    (R.handle P e).AsConstructed ↔ ¬ ExtendsEndianness e := by
  rw [handle, handleRegisterEvents_eq]
  rcases hd : e.description with w | d
  · refine iff_of_true h ?_
    rintro ⟨name, typeName, typeId, dataType, he, -⟩
    rw [hd] at he
    cases he
  · change (match R.apply P d with | .ok R' => R' | .error _ => R).AsConstructed ↔ _
    have hother : (∀ name typeName typeId dataType, d ≠ .field 0 name typeName typeId dataType) →
        ¬ ExtendsEndianness e := by
      rintro hne ⟨name, typeName, typeId, dataType, he, -⟩
      rw [hd] at he
      exact hne _ _ _ _ (Except.ok.inj he)
    cases d with
    | nothing => exact iff_of_true h (hother (by simp))
    | klass name id => exact iff_of_true (h.addKlass _) (hother (by simp))
    | field id name typeName typeId dataType =>
      by_cases hzero : id = 0
      · subst hzero
        obtain ⟨k, hk⟩ := exists_getKlass_of_asConstructed h (show (0 : UInt32) ∈ _ by simp)
        rw [apply, addKlassField_of_mem hk]
        refine (asConstructed_updateKlass_zero_iff h _).trans ?_
        change name = ascii "endianness" ↔ _
        constructor
        · rintro hname ⟨name', typeName', typeId', dataType', he, hne⟩
          rw [hd] at he
          cases he
          exact hne hname
        · intro hnot
          by_contra hname
          exact hnot ⟨_, _, _, _, hd, hname⟩
      · refine iff_of_true ?_ (hother (by simp [hzero]))
        have hknown := (of_description_field hd).1
        have hid : id ∉ ([0, 1, 2, 3] : List UInt32) := by
          simp only [isWellKnownKlass, Bool.or_eq_false_iff, decide_eq_false_iff_not] at hknown
          simp [hzero, hknown]
        rcases hk : R.getKlass id with _ | k
        · rw [apply, addKlassField, hk]
          exact h
        · rw [apply, addKlassField_of_mem hk]
          exact h.updateKlass hid _

/-- **Which sequences of events leave the klasses of the constructor as they are**: those in
which no field is described of the endianness event, but for its own. -/
theorem asConstructed_iff (P : Platform) (events : List Event) :
    Throughout (handle P) AsConstructed new events ↔ ∀ e ∈ events, ¬ ExtendsEndianness e := by
  have hsteps : Throughout (handle P) AsConstructed new events ↔
      StepsMeet (handle P) (fun _ e => ¬ ExtendsEndianness e) new events :=
    throughout_iff_of_step (J := fun _ => True) (D := fun _ _ => True) (fun _ _ _ _ => trivial)
      (fun R e _ _ hR => asConstructed_handle_iff hR e) trivial asConstructed_new
      (stepsMeet_of_forall fun _ _ => trivial)
  exact hsteps.trans stepsMeet_const_iff

/-- **The endianness event can be extended**: one description of a field is enough. -/
theorem endianness_extended : ¬ Throughout (handle samplePlatform) AsConstructed new
    [fieldEvent 0 (ascii "int") (ascii "test-name") 4 3] := by
  intro h
  have hzero := h.last 0 (by simp)
  have hfields := congrArg (Option.map fun k => k.fields.length) hzero
  exact absurd hfields (by decide)

end KlassRegister

end HawkTracer.Parser
