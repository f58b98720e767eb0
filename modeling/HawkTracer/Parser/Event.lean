import HawkTracer.Base.FirstWins
import HawkTracer.Lib.Klass

/-!
# Decoded events

What the parser builds from a stream: klasses with typed fields, and events that map
field names to values. `_values` of an event is a standard library map filled by
`insert`, so of two fields with one name the first wins
(`HawkTracer.Parser.Event.setValue`); merging one event into another goes through the
same insertion.

Klass objects are shared and grow while the stream is read. They are never removed
and an identifier is never given to another one, so a pointer to a klass is modelled
by its identifier. A `FieldType` is the C++ union together with what tells its members
apart: the numeric type under which a number was stored, the characters a string
pointer leads to, or the event an event pointer leads to.

Two things the source leaves to the platform are collected in
`HawkTracer.Parser.Platform`: the order in which it walks an unordered map, and the
number it finds when the union is read as a timestamp although something else was
stored in it.
-/

namespace HawkTracer.Parser

/-- The characters of a `std::string`. -/
abbrev Name := List UInt8

/-! ### Fields and klasses -/

/-- `FieldTypeId`. -/
inductive FieldTypeId where
  | uint8 | int8 | uint16 | int16 | uint32 | int32 | uint64 | int64
  | pointer | string | struct
  deriving DecidableEq, Repr

/-- `is_numeric`: the enumerators up to `INT64`. -/
def FieldTypeId.isNumeric : FieldTypeId → Bool
  | .pointer | .string | .struct => false
  | _ => true

/-- The kinds of fields. -/
theorem FieldTypeId.isNumeric_or (t : FieldTypeId) :
    t.isNumeric = true ∨ t = .pointer ∨ t = .string ∨ t = .struct := by
  cases t <;> simp [FieldTypeId.isNumeric]

/-- `get_sizeof`. -/
def FieldTypeId.sizeof : FieldTypeId → ℕ
  | .uint8 | .int8 => 1
  | .uint16 | .int16 => 2
  | .uint32 | .int32 => 4
  | .uint64 | .int64 => 8
  | .pointer => Lib.sizeofPointer
  | .string | .struct => 0

/-- `EventKlassField`; the klass of a struct field is the one found when the field was
described. -/
structure EventKlassField where
  name : Name
  typeName : Name
  typeId : FieldTypeId
  klass : Option UInt32
  deriving DecidableEq

/-- `EventKlass`. `add_field` drops a field whose name is taken, so names are not
repeated. -/
structure EventKlass where
  name : Name
  id : UInt32
  fields : List EventKlassField
  nodup : (fields.map EventKlassField.name).Nodup

/-- A klass without fields. -/
def EventKlass.new (name : Name) (id : UInt32) : EventKlass := ⟨name, id, [], by simp⟩

/-- `EventKlass::add_field`. -/
def EventKlass.addField (k : EventKlass) (f : EventKlassField) : EventKlass where
  name := k.name
  id := k.id
  fields := insertNew EventKlassField.name k.fields f
  nodup := nodup_insertNew k.nodup f

@[simp] theorem EventKlass.id_addField (k : EventKlass) (f : EventKlassField) :
    (k.addField f).id = k.id := rfl

@[simp] theorem EventKlass.name_addField (k : EventKlass) (f : EventKlassField) :
    (k.addField f).name = k.name := rfl

@[simp] theorem EventKlass.fields_addField (k : EventKlass) (f : EventKlassField) :
    (k.addField f).fields = insertNew EventKlassField.name k.fields f := rfl

theorem EventKlass.addField_of_mem {k : EventKlass} {f : EventKlassField}
    (h : f.name ∈ k.fields.map EventKlassField.name) : k.addField f = k := by
  have hfields := insertNew_of_mem h
  obtain ⟨name, id, fields, nodup⟩ := k
  simpa [EventKlass.addField] using hfields

/-- The field that stands for the header of an event: the one `_read_struct` does not
read from the stream. -/
def EventKlassField.isHeader (f : EventKlassField) : Bool :=
  f.typeName = ascii "HT_Event" && f.name = ascii "base"

/-! ### Events -/

/-- The values of the `FieldType` union. -/
inductive FieldType where
  /-- A number, stored under a numeric type, by its bit pattern. -/
  | num (type : FieldTypeId) (bits : ℕ) : FieldType
  /-- The characters a string pointer leads to. -/
  | str (s : Name) : FieldType
  /-- The event an event pointer leads to: its klass, values and cached timestamp. -/
  | event (klass : Option UInt32) (values : List (EventKlassField × FieldType))
      (timestamp : UInt64) : FieldType

/-- `Event::Value`: a value and the field it belongs to. -/
abbrev Value := EventKlassField × FieldType

/-- The key of a value in the map of an event. -/
def Value.name (v : Value) : Name := v.1.name

/-- `Event`. -/
structure Event where
  klass : Option UInt32
  values : List Value
  timestamp : UInt64

/-- An event as the value of a struct field. -/
def Event.toField (e : Event) : FieldType := .event e.klass e.values e.timestamp

/-- `Event::Event(klass)`; the timestamp starts as `(HT_TimestampNs)-1`. -/
def Event.new (klass : Option UInt32) : Event := ⟨klass, [], 0xffffffffffffffff⟩

/-- What is left of an event whose content has been moved away: an empty map and a
null klass pointer. -/
def Event.movedFrom (e : Event) : Event := ⟨none, [], e.timestamp⟩

/-- `_values.find(key)`. -/
def Event.get (e : Event) (key : Name) : Option FieldType :=
  (findKey Value.name e.values key).map Prod.snd

/-- `get_raw_value`; `has_value` is whether there is one. -/
def Event.rawValue (e : Event) (key : Name) : Option Value := findKey Value.name e.values key

/-! ### The platform of the reader -/

/-- The platform the reader runs on. -/
structure Platform where
  /-- The order in which it walks the klasses of a register. -/
  iterate : List EventKlass → List EventKlass
  /-- It visits each of them once. -/
  iterate_perm : ∀ l, (iterate l).Perm l
  /-- What it finds when a value of the union is read as an `HT_TimestampNs`. -/
  asTimestamp : FieldType → UInt64
  /-- A stored `uint64_t` is found as it is. -/
  asTimestamp_uint64 : ∀ n, asTimestamp (.num .uint64 n) = UInt64.ofNat n

/-- A platform that walks a register in the order of insertion. -/
def samplePlatform : Platform where
  iterate := id
  iterate_perm := fun l => List.Perm.refl l
  asTimestamp
    | .num _ n => UInt64.ofNat n
    | .str _ => 0
    | .event .. => 0
  asTimestamp_uint64 := fun _ => rfl

variable (P : Platform)

/-- `Event::set_value`: the first value stored under a name stays, and the cached
timestamp follows whatever is stored under `timestamp`. -/
def Event.setValue (e : Event) (f : EventKlassField) (v : FieldType) : Event :=
  let values := insertNew Value.name e.values (f, v)
  { klass := e.klass
    values := values
    timestamp :=
      if f.name = ascii "timestamp" then
        match findKey Value.name values f.name with
        | some w => P.asTimestamp w.2
        | none => e.timestamp
      else e.timestamp }

/-- Set values one after another. -/
def Event.setAll (e : Event) (vs : List Value) : Event :=
  vs.foldl (fun e v => e.setValue P v.1 v.2) e

/-- `Event::merge`. -/
def Event.merge (e e' : Event) : Event := e.setAll P e'.values

@[simp] theorem Event.klass_setValue (e : Event) (f : EventKlassField) (v : FieldType) :
    (e.setValue P f v).klass = e.klass := rfl

@[simp] theorem Event.values_setValue (e : Event) (f : EventKlassField) (v : FieldType) :
    (e.setValue P f v).values = insertNew Value.name e.values (f, v) := rfl

@[simp] theorem Event.setAll_cons (e : Event) (v : Value) (vs : List Value) :
    e.setAll P (v :: vs) = (e.setValue P v.1 v.2).setAll P vs := rfl

@[simp] theorem Event.klass_setAll (e : Event) (vs : List Value) :
    (e.setAll P vs).klass = e.klass := by
  induction vs generalizing e with
  | nil => rfl
  | cons v vs ih => rw [Event.setAll_cons, ih, Event.klass_setValue]

@[simp] theorem Event.values_setAll (e : Event) (vs : List Value) :
    (e.setAll P vs).values = mergeNew Value.name e.values vs := by
  induction vs generalizing e with
  | nil => rfl
  | cons v vs ih => rw [Event.setAll_cons, ih, Event.values_setValue, mergeNew_cons]

@[simp] theorem Event.klass_merge (e e' : Event) : (e.merge P e').klass = e.klass :=
  Event.klass_setAll P e e'.values

theorem Event.get_eq_map (e : Event) (key : Name) : e.get key = (e.rawValue key).map Prod.snd := rfl

/-- Setting a value leaves what was stored before. -/
theorem Event.rawValue_setValue (e : Event) (f : EventKlassField) (v : FieldType) (key : Name) :
    (e.setValue P f v).rawValue key =
      (e.rawValue key).or (if f.name = key then some (f, v) else none) := by
  rw [Event.rawValue, Event.values_setValue, findKey_insertNew, findKey_singleton]
  rfl

/-- Setting values leaves what was stored before. -/
theorem Event.rawValue_setAll (e : Event) (vs : List Value) (key : Name) :
    (e.setAll P vs).rawValue key = (e.rawValue key).or (findKey Value.name vs key) := by
  rw [Event.rawValue, Event.values_setAll, findKey_mergeNew]
  rfl

/-- Merging leaves what was stored before. -/
theorem Event.rawValue_merge (e e' : Event) (key : Name) :
    (e.merge P e').rawValue key = (e.rawValue key).or (e'.rawValue key) :=
  Event.rawValue_setAll P e e'.values key

theorem Event.get_setValue (e : Event) (f : EventKlassField) (v : FieldType) (key : Name) :
    (e.setValue P f v).get key = (e.get key).or (if f.name = key then some v else none) := by
  rw [Event.get_eq_map, Event.rawValue_setValue, Option.map_or, Event.get_eq_map]
  split <;> rfl

theorem Event.get_setAll (e : Event) (vs : List Value) (key : Name) :
    (e.setAll P vs).get key = (e.get key).or ((findKey Value.name vs key).map Prod.snd) := by
  rw [Event.get_eq_map, Event.rawValue_setAll, Option.map_or, Event.get_eq_map]

theorem Event.get_merge (e e' : Event) (key : Name) :
    (e.merge P e').get key = (e.get key).or (e'.get key) :=
  Event.get_setAll P e e'.values key

/-- A value set under a fresh name is found. -/
theorem Event.get_setAll_of_mem {e : Event} {vs : List Value} (hvs : (vs.map Value.name).Nodup)
    {v : Value} (hv : v ∈ vs) (he : e.get v.name = none) :
    (e.setAll P vs).get v.name = some v.2 := by
  rw [Event.get_setAll, he, Option.none_or, (findKey_eq_some_iff hvs).mpr ⟨hv, rfl⟩,
    Option.map_some]

/-- No other names come in. -/
theorem Event.get_setAll_of_not_mem {e : Event} {vs : List Value} {key : Name}
    (hkey : key ∉ vs.map Value.name) : (e.setAll P vs).get key = e.get key := by
  rw [Event.get_setAll, findKey_eq_none_iff.mpr hkey, Option.map_none, Option.or_none]

end HawkTracer.Parser
