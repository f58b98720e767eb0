import HawkTracer.Parser.KlassRegister

/-!
# The labels of a converter

The converters of the client ask `Converter::_get_label` for the text of an event. Identifiers
are resolved by a `TracepointMap`, which is filled by mapping events. The converter learns
which klass those are from the description of `HT_StringMappingEvent`
(`HawkTracer.Client.Converter.getLabel_of_description`), and takes an event for nothing else
until then. An identifier that is not in the map becomes its decimal digits, and stays so until
a mapping event replaces them.

Loading a map from a file is left out.
-/

namespace HawkTracer.Client

open HawkTracer.Parser

/-! ### Tracepoint maps -/

/-- `TracepointMap::Category`. -/
inductive Category where
  | unknown
  | lua
  | native

/-- `category_to_string`. -/
def Category.toName : Category → Name
  | .lua => ascii "lua"
  | .native => ascii "native"
  | .unknown => ascii "default"

/-- `TracepointMap::MapInfo`. -/
structure MapInfo where
  label : Name
  category : Name

/-- `TracepointMap`, by its `_input_map`. -/
structure TracepointMap where
  inputMap : UInt64 → Option MapInfo

namespace TracepointMap

/-- A map without entries. -/
def empty : TracepointMap := ⟨fun _ => none⟩

/-- `_input_map[id] = info`. -/
def set (m : TracepointMap) (id : UInt64) (info : MapInfo) : TracepointMap :=
  ⟨Function.update m.inputMap id (some info)⟩

/-- `add_map_entry`. -/
def addMapEntry (m : TracepointMap) (id : UInt64) (label : Name) : TracepointMap :=
  m.set id ⟨label, Category.unknown.toName⟩

/-- `get_label_info`; a missing entry is made up and stored. -/
def getLabelInfo (m : TracepointMap) (label : UInt64) : MapInfo × TracepointMap :=
  match m.inputMap label with
  | some info => (info, m)
  | none =>
    let info : MapInfo := ⟨ascii (toString label.toNat), Category.unknown.toName⟩
    (info, m.set label info)

theorem inputMap_addMapEntry (m : TracepointMap) (id : UInt64) (label : Name) (id' : UInt64) :
    (m.addMapEntry id label).inputMap id' =
      if id' = id then some ⟨label, Category.unknown.toName⟩ else m.inputMap id' :=
  Function.update_apply _ _ _ _

theorem getLabelInfo_of_some {m : TracepointMap} {id : UInt64} {info : MapInfo}
    (h : m.inputMap id = some info) : m.getLabelInfo id = (info, m) := by
  rw [getLabelInfo, h]

/-- Asking again gives the same answer. -/
theorem getLabelInfo_again (m : TracepointMap) (id : UInt64) :
    (m.getLabelInfo id).2.getLabelInfo id = m.getLabelInfo id := by
  cases h : m.inputMap id with
  | some info => rw [getLabelInfo_of_some h, getLabelInfo_of_some h]
  | none =>
    have hfirst : m.getLabelInfo id = (⟨ascii (toString id.toNat), Category.unknown.toName⟩,
        m.set id ⟨ascii (toString id.toNat), Category.unknown.toName⟩) := by
      rw [getLabelInfo, h]
    rw [hfirst]
    exact getLabelInfo_of_some (Function.update_self id _ _)

end TracepointMap

/-! ### Converters -/

/-- `Converter`. -/
structure Converter where
  tracepointMap : TracepointMap
  mappingKlassId : UInt32

namespace Converter

/-- `_mapping_klass_name`. -/
def mappingKlassName : Name := ascii "HT_StringMappingEvent"

/-- `_try_setting_mapping_klass_id`. -/
def trySettingMappingKlassId (c : Converter) (e : Event) : Except Stop Converter :=
  match e.klass with
  | none => .error .nullKlass
  | some klassId =>
    if klassId = 2 then do
      let name ← e.getStr (ascii "event_klass_name")
      if name = mappingKlassName then
        let infoKlassId ← e.getNum (ascii "info_klass_id")
        return { c with mappingKlassId := UInt32.ofNat infoKlassId }
      else return c
    else return c

/-- `_convert_value_to_string`: what is read of the union depends on the type of the field. -/
def convertValueToString (c : Converter) (v : Value) : Except Stop (Name × Converter) :=
  match v.1.typeId, v.2 with
  | .uint64, .num _ n =>
    let r := c.tracepointMap.getLabelInfo (UInt64.ofNat n)
    .ok (r.1.label, { c with tracepointMap := r.2 })
  | .uint64, _ => .error .wrongMember
  | .string, .str s => .ok (s, c)
  | .string, _ => .error .wrongMember
  | _, _ => .ok (ascii "invalid label type", c)

/-- `_get_label`. -/
def getLabel (c : Converter) (e : Event) : Except Stop (Name × Converter) :=
  if c.mappingKlassId = 0 then do
    let c ← c.trySettingMappingKlassId e
    return ([], c)
  else
    match e.klass with
    | none => .error .nullKlass
    | some klassId =>
      if klassId = c.mappingKlassId then do
        let identifier ← e.getNum (ascii "identifier")
        let label ← e.getStr (ascii "label")
        return ([], { c with
          tracepointMap := c.tracepointMap.addMapEntry (UInt64.ofNat identifier) label })
      else
        match e.rawValue (ascii "label") with
        | some v => c.convertValueToString v
        | none =>
          match e.rawValue (ascii "name") with
          | some _ => do
            let name ← e.getStr (ascii "name")
            return (name, c)
          | none => return ([], c)

/-- The labels of one event after another. -/
def getLabels (c : Converter) : List Event → Except Stop (List Name × Converter)
  | [] => .ok ([], c)
  | e :: es => do
    let r ← c.getLabel e
    let rs ← r.2.getLabels es
    return (r.1 :: rs.1, rs.2)

variable {c : Converter} {e : Event}

theorem getLabels_cons {c' c'' : Converter} {label : Name} {labels : List Name} {es : List Event}
    (h : c.getLabel e = .ok (label, c')) (hs : c'.getLabels es = .ok (labels, c'')) :
    c.getLabels (e :: es) = .ok (label :: labels, c'') := by
  rw [getLabels, h]
  change (c'.getLabels es >>= fun rs => _) = _
  rw [hs]
  rfl

/-- The labels of a list are those of its first event and of the others. -/
theorem getLabels_cons_eq {c' : Converter} {labels : List Name} {es : List Event}
    (h : c.getLabels (e :: es) = .ok (labels, c')) :
    ∃ label c₁ labels', c.getLabel e = .ok (label, c₁) ∧ c₁.getLabels es = .ok (labels', c') ∧
      label :: labels' = labels := by
  rw [getLabels] at h
  rcases hfirst : c.getLabel e with stop | ⟨label, c₁⟩
  · rw [hfirst] at h
    cases h
  · rw [hfirst] at h
    rcases hrest : c₁.getLabels es with stop | ⟨labels', c''⟩
    · change (c₁.getLabels es >>= fun rs => _) = _ at h
      rw [hrest] at h
      cases h
    · change (c₁.getLabels es >>= fun rs => _) = _ at h
      rw [hrest] at h
      obtain ⟨rfl, rfl⟩ := Prod.mk.inj (Except.ok.inj h)
      exact ⟨label, c₁, labels', rfl, hrest, rfl⟩

/-- **The description of the mapping klass** tells the converter its identifier. -/
theorem getLabel_of_description (hc : c.mappingKlassId = 0) (hklass : e.klass = some 2)
    (hname : e.get (ascii "event_klass_name") = some (.str mappingKlassName)) {t : FieldTypeId}
    {n : ℕ} (hid : e.get (ascii "info_klass_id") = some (.num t n)) :
    c.getLabel e = .ok ([], { c with mappingKlassId := UInt32.ofNat n }) := by
  have hset : c.trySettingMappingKlassId e = .ok { c with mappingKlassId := UInt32.ofNat n } := by
    rw [trySettingMappingKlassId, hklass]
    simp only [if_pos, Event.getStr_eq hname, Event.getNum_eq hid]
    rfl
  rw [getLabel, if_pos hc, hset]
  rfl

/-- **A mapping event** is stored. -/
theorem getLabel_of_mapping (hc : c.mappingKlassId ≠ 0) (hklass : e.klass = some c.mappingKlassId)
    {t : FieldTypeId} {n : ℕ} (hid : e.get (ascii "identifier") = some (.num t n)) {label : Name}
    (hlabel : e.get (ascii "label") = some (.str label)) :
    c.getLabel e = .ok ([], { c with
      tracepointMap := c.tracepointMap.addMapEntry (UInt64.ofNat n) label }) := by
  rw [getLabel, if_neg hc, hklass]
  simp only [if_pos, Event.getNum_eq hid, Event.getStr_eq hlabel]
  rfl

/-- **An identifier** is looked up. -/
theorem getLabel_of_identifier (hc : c.mappingKlassId ≠ 0) {id : UInt32}
    (hklass : e.klass = some id)
    (hid : id ≠ c.mappingKlassId) {f : EventKlassField} (hf : f.typeId = .uint64) {t : FieldTypeId}
    {n : ℕ} (hlabel : e.rawValue (ascii "label") = some (f, .num t n)) :
    c.getLabel e = .ok ((c.tracepointMap.getLabelInfo (UInt64.ofNat n)).1.label,
      { c with tracepointMap := (c.tracepointMap.getLabelInfo (UInt64.ofNat n)).2 }) := by
  rw [getLabel, if_neg hc, hklass]
  simp only [if_neg hid, hlabel, convertValueToString, hf]

end Converter

end HawkTracer.Client
