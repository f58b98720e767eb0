import HawkTracer.Parser.Descriptions

/-!
# What the order of descriptions does not change

The descriptions of several klasses may come in any order. The *outline* of a klass
(`HawkTracer.Parser.KlassRegister.outline`), its name and its fields without the klasses they were
given, is made of the descriptions of this one klass alone
(`HawkTracer.Parser.KlassRegister.outline_handleAll`). So two sequences that describe each klass
alike lead to registers with the same outlines
(`HawkTracer.Parser.KlassRegister.sameOutlines_of_descriptions`).
-/

namespace HawkTracer.Parser

/-- The description is one of the given klass. -/
def Description.About (id : UInt32) : Description → Bool
  | .nothing => false
  | .klass _ id' => id' = id
  | .field id' _ _ _ _ => id' = id

/-- The descriptions in a sequence of events. -/
def descriptionsIn (events : List Event) : List Description :=
  events.filterMap fun e => e.description.toOption

/-- A field without the klass it was given. -/
def EventKlassField.outline (f : EventKlassField) : EventKlassField := { f with klass := none }

/-- What fields with the same outline have in common. -/
theorem EventKlassField.of_outline_eq {f g : EventKlassField} (h : f.outline = g.outline) :
    f.name = g.name ∧ f.typeName = g.typeName ∧ f.typeId = g.typeId := by
  obtain ⟨name, typeName, typeId, klass⟩ := f
  obtain ⟨name', typeName', typeId', klass'⟩ := g
  cases h
  exact ⟨rfl, rfl, rfl⟩

theorem map_outline_insertNew (fs : List EventKlassField) (f : EventKlassField) :
    (insertNew EventKlassField.name fs f).map EventKlassField.outline =
      insertNew EventKlassField.name (fs.map EventKlassField.outline) f.outline :=
  @map_insertNew _ _ _ EventKlassField.name _ EventKlassField.name EventKlassField.outline
    (fun _ => rfl) fs f

/-- What a description makes of the outline of a klass. -/
def Description.extend (id : UInt32) (o : Option (Name × List EventKlassField)) :
    Description → Option (Name × List EventKlassField)
  | .nothing => o
  | .klass name id' => if id' = id then o.or (some (name, [])) else o
  | .field id' name typeName typeId _ =>
    if id' = id then
      o.map fun o => (o.1, insertNew EventKlassField.name o.2 ⟨name, typeName, typeId, none⟩)
    else o

theorem Description.extend_of_not_about {id : UInt32} {d : Description} (h : d.About id = false)
    (o : Option (Name × List EventKlassField)) : d.extend id o = o := by
  cases d with
  | nothing => rfl
  | klass name id' | field id' name typeName typeId dataType => exact if_neg (of_decide_eq_false h)

namespace KlassRegister

variable {P : Platform} {R R' : KlassRegister}

/-- The outline of a klass: its name and its fields without the klasses they were given. -/
def outline (R : KlassRegister) (id : UInt32) : Option (Name × List EventKlassField) :=
  (R.getKlass id).map fun k => (k.name, k.fields.map EventKlassField.outline)

theorem outline_apply {d : Description} (h : R.apply P d = .ok R') (id : UInt32) :
    R'.outline id = d.extend id (R.outline id) := by
  cases d with
  | nothing =>
    cases h
    rfl
  | klass name id' =>
    cases h
    rw [outline, getKlass_addKlass, Description.extend, outline]
    rcases R.getKlass id with _ | k
    · by_cases hid : id' = id
      · simp [EventKlass.new, hid]
      · simp [EventKlass.new, hid]
    · by_cases hid : id' = id
      · simp [hid]
      · simp [hid]
  | field id' name typeName typeId dataType =>
    rw [eq_updateKlass_of_addKlassField h, outline, Description.extend, outline]
    by_cases hid : id' = id
    · subst hid
      obtain ⟨k, hk⟩ := exists_getKlass_of_addKlassField h
      rw [getKlass_updateKlass_self hk, hk, if_pos rfl, Option.map_some, Option.map_some,
        Option.map_some, EventKlass.name_addField, EventKlass.fields_addField]
      rw [map_outline_insertNew]
      rfl
    · rw [getKlass_updateKlass_of_ne R (Ne.symm hid), if_neg hid]

/-- **The outline of a klass is made of the descriptions of this klass**, in their order. -/
theorem outline_handleAll {events : List Event} (h : R.handleAll P events = .ok R') (id : UInt32) :
    R'.outline id = ((descriptionsIn events).filter (Description.About id)).foldl
      (fun o d => d.extend id o) (R.outline id) := by
  induction events generalizing R with
  | nil =>
    cases h
    rfl
  | cons e events ih =>
    obtain ⟨R₁, he, hrest⟩ := handleAll_cons_eq_ok h
    obtain ⟨d, hd, happly⟩ := handleRegisterEvents_eq_ok he
    have hcons : descriptionsIn (e :: events) = d :: descriptionsIn events := by
      simp [descriptionsIn, hd, Except.toOption]
    rw [ih hrest, outline_apply happly, hcons]
    rcases habout : d.About id with _ | _
    · rw [List.filter_cons_of_neg (by simp [habout]), Description.extend_of_not_about habout]
    · rw [List.filter_cons_of_pos habout, List.foldl_cons]

/-- The klasses have the same outlines. -/
def SameOutlines (R R' : KlassRegister) : Prop := ∀ id, R.outline id = R'.outline id

theorem SameOutlines.getKlass (h : R.SameOutlines R') {id : UInt32} {k : EventKlass}
    (hk : R.getKlass id = some k) : ∃ k', R'.getKlass id = some k' ∧ k'.name = k.name ∧
      k'.fields.map EventKlassField.outline = k.fields.map EventKlassField.outline := by
  have hid := h id
  rw [outline, outline, hk, Option.map_some, eq_comm] at hid
  obtain ⟨k', hk', heq⟩ := Option.map_eq_some_iff.mp hid
  exact ⟨k', hk', congrArg Prod.fst heq, congrArg Prod.snd heq⟩

/-- **Sequences that describe each klass alike** lead to the same outlines. -/
theorem sameOutlines_of_descriptions {R₀ : KlassRegister} {events events' : List Event}
    (h : R₀.handleAll P events = .ok R) (h' : R₀.handleAll P events' = .ok R')
    (hsame : ∀ id, (descriptionsIn events).filter (Description.About id) =
      (descriptionsIn events').filter (Description.About id)) : R.SameOutlines R' := by
  intro id
  rw [outline_handleAll h, outline_handleAll h', hsame]

end KlassRegister

end HawkTracer.Parser
