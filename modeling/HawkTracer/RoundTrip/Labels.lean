import HawkTracer.Client.Converter
import HawkTracer.Lib.CachedString
import HawkTracer.Parser.HeaderNames
import HawkTracer.RoundTrip.Decoding

/-!
# Labels from the program to the converter

A program adds strings to the cached strings of a timeline and labels
`HT_CallstackIntEvent`s with the identifiers it gets. The events go into a stream, a reader
delivers them, and a converter asks for the label of each of them.

The reader delivers what the program pushed (`HawkTracer.RoundTrip.readEvents_labels`), so the
labels of the converter depend on the pushed events alone
(`HawkTracer.RoundTrip.decodes_iff`): each mapping event overwrites the entry of its
identifier, and each other event is looked up. Since a mapping event is pushed only the first
time an identifier is seen, two strings under one identifier cannot both be found.
`HawkTracer.RoundTrip.labels_decode_iff` says that this is all that can go wrong.
-/

namespace HawkTracer.RoundTrip

open HawkTracer.Lib HawkTracer.Parser HawkTracer.Client

/-! ### The program -/

/-- A call that adds a string. -/
inductive Call where
  /-- `ht_feature_cached_string_add_mapping`, on the string at an address. -/
  | addMapping (address : UInt64)
  /-- `ht_feature_cached_string_add_mapping_dynamic`. -/
  | addMappingDynamic (label : CString)

/-- A step of the program. -/
inductive LabelOp where
  /-- A call, with the stamp of the mapping event it may push. -/
  | add (c : Call) (stamp : Stamp)
  /-- An `HT_CallstackIntEvent` with the identifier that the `i`-th call returned. -/
  | pushCallstack (i : ℕ) (stamp : Stamp) (duration : UInt64) (threadId : UInt32)

/-- An event that the program pushes. -/
inductive LabelEvent where
  | mapping (stamp : Stamp) (id : UInt64) (label : CString)
  | callstack (stamp : Stamp) (duration : UInt64) (threadId : UInt32) (label : UInt64)

/-- The feature, and the identifiers returned so far. -/
structure Labeller where
  feature : CachedString
  ids : List UInt64

section Program

variable (charSigned : Bool) (text : UInt64 → CString)

/-- The string passed to the call, where `text` tells the strings at the addresses. -/
def Call.string : Call → CString
  | .addMapping address => text address
  | .addMappingDynamic label => label

/-- The identifier that stands for the string. -/
def Call.id : Call → UInt64
  | .addMapping address => address
  | .addMappingDynamic label => CachedString.dynamicHash charSigned label

/-- The map of the feature that the call uses. -/
def Call.map : Call → LabelMap
  | .addMapping _ => .static
  | .addMappingDynamic _ => .dynamic

/-- What a call does to the feature, when memory can be had. -/
def Call.perform (f : CachedString) : Call → CachedString.Added
  | .addMapping address => f.addMapping address (text address) .yes
  | .addMappingDynamic label => f.addMappingDynamic charSigned label .yes

/-- What a step does, and the events it pushes. -/
def Labeller.act (s : Labeller) : LabelOp → Labeller × List LabelEvent
  | .add c stamp =>
    let r := c.perform charSigned text s.feature
    (⟨r.feature, s.ids ++ [r.id]⟩, r.pushed.map fun p => .mapping stamp p.1 p.2)
  | .pushCallstack i stamp duration threadId =>
    (s, [.callstack stamp duration threadId (s.ids.getD i 0)])

/-- The events that the program pushes from a state on. -/
def Labeller.emitted : Labeller → List LabelOp → List LabelEvent
  | _, [] => []
  | s, o :: os => (s.act charSigned text o).2 ++ (s.act charSigned text o).1.emitted os

/-- A new timeline with cached strings. -/
def Labeller.start : Labeller := ⟨.init, []⟩

/-- The calls of the program. -/
def callsOf (os : List LabelOp) : List Call :=
  os.filterMap fun
    | .add c _ => some c
    | .pushCallstack .. => none

/-- Every label is one that an earlier call returned; `n` calls have been made before. -/
def UsesEarlier : ℕ → List LabelOp → Prop
  | _, [] => True
  | n, .add _ _ :: os => UsesEarlier (n + 1) os
  | n, .pushCallstack i _ _ _ :: os => i < n ∧ UsesEarlier n os

/-- The strings that the labels of the callstack events stand for, if `calls` are the calls of
the program. -/
def meantBy (calls : List Call) (os : List LabelOp) : List Name :=
  os.filterMap fun
    | .add _ _ => none
    | .pushCallstack i _ _ _ => calls[i]?.map fun c => (c.string text).bytes

/-- **One string for each identifier**: calls that return the same identifier were given the
same string. -/
def Unambiguous (calls : List Call) : Prop :=
  ∀ c ∈ calls, ∀ c' ∈ calls, c.id charSigned = c'.id charSigned → c.string text = c'.string text

end Program

/-! ### The events in the stream -/

/-- The pushed event, as an event of a registry. -/
def LabelEvent.traced (G : Registry) : LabelEvent → G.Traced
  | .mapping stamp id label =>
    { toInstance := ⟨stringMappingEventKlass,
        (⟨7, stamp.timestamp, stamp.id⟩, id.toBitVec, some label, ())⟩
      mem := Registry.core_mem (by simp [coreKlasses])
      klassId_eq := (Registry.idOf_eq (i := 7) (core_getElem? (by decide))).symm
      ordinary := by
        rw [show G.idOf stringMappingEventKlass.typeName = 7 from
          Registry.idOf_eq (i := 7) (core_getElem? (by decide))]
        decide }
  | .callstack stamp duration threadId label =>
    { toInstance := ⟨callstackIntEventKlass,
        ((⟨5, stamp.timestamp, stamp.id⟩, duration.toBitVec, threadId.toBitVec, ()),
          label.toBitVec, ())⟩
      mem := Registry.core_mem (by simp [coreKlasses])
      klassId_eq := (Registry.idOf_eq (i := 5) (core_getElem? (by decide))).symm
      ordinary := by
        rw [show G.idOf callstackIntEventKlass.typeName = 5 from
          Registry.idOf_eq (i := 5) (core_getElem? (by decide))]
        decide }

/-- What a converter sees of the event. -/
def LabelEvent.ShownBy : LabelEvent → Event → Prop
  | .mapping _ id label, e => e.klass = some 7 ∧
    e.get (ascii "identifier") = some (.num .uint64 id.toNat) ∧
    e.get (ascii "label") = some (.str label.bytes)
  | .callstack _ _ _ label, e => e.klass = some 5 ∧ ∃ f : EventKlassField, f.typeId = .uint64 ∧
    e.rawValue (ascii "label") = some (f, .num .uint64 label.toNat)

section Levels

variable {P : Platform} {fs : List EventKlassField} {decls : List FieldDecl}
  {v : (scalarFields decls).Inst} {xs : List FieldType} {e : Event} {names : List Name}

/-- The values of the event have these names. -/
def Within (e : Event) (names : List Name) : Prop :=
  ∀ key w, e.rawValue key = some w → key ∈ names

theorem within_new (klass : Option UInt32) (names : List Name) : Within (.new klass) names := by
  intro key w hw
  cases hw

theorem Within.setValue (h : Within e names) {f : EventKlassField} (hf : f.name ∈ names)
    (x : FieldType) : Within (e.setValue P f x) names := by
  intro key w hw
  rw [Event.rawValue_setValue, Option.or_eq_some_iff] at hw
  rcases hw with hw | ⟨-, hw⟩
  · exact h key w hw
  · obtain ⟨rfl, -⟩ := Option.ite_none_right_eq_some.mp hw
    exact hf

theorem Within.merge {e' : Event} (h : Within e names) (h' : Within e' names) :
    Within (e.merge P e') names := by
  intro key w hw
  rw [Event.rawValue_merge, Option.or_eq_some_iff] at hw
  rcases hw with hw | ⟨-, hw⟩
  · exact h key w hw
  · exact h' key w hw

/-- The names of the next level come in. -/
theorem Within.setAll (h : Within e names) (hsig : fs.map signature = decls.map declSignature)
    (hxs : ShowsScalars decls v xs) :
    Within (e.setAll P (fs.zip xs)) (names ++ decls.map fun d => d.fieldName.bytes) := by
  intro key w hw
  rw [Event.rawValue_setAll, Option.or_eq_some_iff] at hw
  rcases hw with hw | ⟨-, hw⟩
  · exact List.mem_append_left _ (h key w hw)
  · rw [← names_of_signature hsig, ← names_zip (length_of_signature hsig hxs), ← key_of_findKey hw]
    exact List.mem_append_right _ (List.mem_map_of_mem (mem_of_findKey hw))

/-- **The values of a level** can be looked up, unless their names were taken before. -/
theorem rawValue_setAll_zip (hsig : fs.map signature = decls.map declSignature)
    (hxs : ShowsScalars decls v xs) (hnodup : (fs.map EventKlassField.name).Nodup)
    (h : Within e names) {d : FieldDecl} {x : FieldType} (hdx : (d, x) ∈ decls.zip xs)
    (hname : d.fieldName.bytes ∉ names) :
    ∃ f : EventKlassField, f.typeId = infoTypeId d.info ∧
      (e.setAll P (fs.zip xs)).rawValue d.fieldName.bytes = some (f, x) := by
  have hzip : (fs.zip xs).map (Prod.map signature id) =
      (decls.zip xs).map (Prod.map declSignature id) := by
    rw [← List.zip_map_left, ← List.zip_map_left, hsig]
  have hmem : Prod.map declSignature id (d, x) ∈ (fs.zip xs).map (Prod.map signature id) :=
    hzip ▸ List.mem_map_of_mem hdx
  obtain ⟨⟨f, x'⟩, hfx, heq⟩ := List.mem_map.mp hmem
  obtain ⟨hf, rfl⟩ := Prod.mk.inj heq
  obtain ⟨hfname, hftype⟩ := Prod.mk.inj hf
  have hnone : e.rawValue d.fieldName.bytes = none := by
    by_contra hsome
    obtain ⟨w, hw⟩ := Option.ne_none_iff_exists'.mp hsome
    exact hname (h _ w hw)
  have hnodup' : ((fs.zip xs).map Value.name).Nodup := by
    rw [names_zip (length_of_signature hsig hxs)]
    exact hnodup
  refine ⟨f, hftype, ?_⟩
  rw [Event.rawValue_setAll, hnone, Option.none_or]
  exact (findKey_eq_some_iff hnodup').mpr ⟨hfx, hfname⟩

/-- **An event has the values of some fields**, and none under other names. -/
structure HasValues (P : Platform) (e : Event) (names : List Name)
    (vals : List (FieldDecl × FieldType)) : Prop where
  within : Within e names
  value : ∀ d x, (d, x) ∈ vals → ∃ f : EventKlassField, f.typeId = infoTypeId d.info ∧
    e.rawValue d.fieldName.bytes = some (f, x)
  cached : e.Cached P

variable {vals : List (FieldDecl × FieldType)}

theorem hasValues_new (klass : Option UInt32) : HasValues P (.new klass) [] [] where
  within := within_new _ _
  value := by rintro d x ⟨⟩
  cached := Event.cached_new _

/-- The struct of a base in nested mode. -/
theorem hasValues_base (klass : Option UInt32) {f : EventKlassField} (hf : f.name = ascii "base")
    (x : FieldType) : HasValues P ((Event.new klass).setValue P f x) [ascii "base"] [] where
  within := (within_new _ _).setValue (hf ▸ List.mem_singleton_self _) x
  value := by rintro d x ⟨⟩
  cached := (Event.cached_new _).setValue f x

/-- The values of a base in flat mode. -/
theorem HasValues.merge (h : HasValues P e names vals) (klass : Option UInt32) :
    HasValues P ((Event.new klass).merge P e) names vals where
  within := (within_new _ _).merge h.within
  value d x hdx := by
    obtain ⟨f, hf, hraw⟩ := h.value d x hdx
    exact ⟨f, hf, (Event.rawValue_merge P _ e _).trans hraw⟩
  cached := (Event.cached_new _).merge e

/-- The next level. -/
theorem HasValues.setAll (h : HasValues P e names vals)
    (hsig : fs.map signature = decls.map declSignature)
    (hnodup : (fs.map EventKlassField.name).Nodup) (hxs : ShowsScalars decls v xs)
    (hfresh : ∀ d ∈ decls, d.fieldName.bytes ∉ names) :
    HasValues P (e.setAll P (fs.zip xs)) (names ++ decls.map fun d => d.fieldName.bytes)
      (vals ++ decls.zip xs) where
  within := h.within.setAll hsig hxs
  value d x hdx := by
    rcases List.mem_append.mp hdx with hdx | hdx
    · obtain ⟨f, hf, hraw⟩ := h.value d x hdx
      exact ⟨f, hf, by rw [Event.rawValue_setAll, hraw, Option.some_or]⟩
    · exact rawValue_setAll_zip hsig hxs hnodup h.within hdx (hfresh d (List.of_mem_zip hdx).1)
  cached := h.cached.setAll _

end Levels

/-! ### Delivering the events -/

section Delivering

variable {P : Platform} {R : KlassRegister} {flat : Bool} {depth : ℕ} {G : Registry}

theorem nodup_of_fields {k : EventKlass} {b : EventKlassField} {fs : List EventKlassField}
    (h : k.fields = b :: fs) : (fs.map EventKlassField.name).Nodup := by
  have hnodup := k.nodup
  rw [h, List.map_cons] at hnodup
  exact (List.nodup_cons.mp hnodup).2

variable (P flat depth)

section

variable (hR : Describes G G.klasses.length R)

include hR

/-- **The content of a declared klass** is read as an event with its values, if the field `base`
is read as an event with other names. -/
theorem readsAs_declared {i : ℕ} (h4 : 4 ≤ i) {typeName : CString} {base : Klass}
    {decls : List FieldDecl} {size : ℕ} {hn : (memberNames decls).Nodup}
    (hK : G.klasses[i]? = some (declareEventKlass typeName base decls size hn))
    (hsup : ∀ d ∈ decls, d.Supported) {v : (scalarFields decls).Inst} {xs : List FieldType}
    (hxs : ShowsScalars decls v xs) {hdr : Option Event} {payload : ByteOrder → List UInt8}
    {names : List Name} {vals : List (FieldDecl × FieldType)}
    (hfresh : ∀ d ∈ decls, d.fieldName.bytes ∉ names)
    (hbase : ∀ b, shape b = infoShape (baseInfo base) → ∃ e₁ hdr₁,
      FieldReadsAs P R flat depth b (.new (some (UInt32.ofNat i))) hdr payload (e₁, hdr₁) ∧
      HasValues P e₁ names vals) :
    ∃ k r, R.getKlass (UInt32.ofNat i) = some k ∧
      ReadsAs P R flat (depth + 1) (UInt32.ofNat i) hdr
        (fun o => payload o ++ (scalarFields decls).encode o v) r ∧
      HasValues P r.1 (names ++ decls.map fun d => d.fieldName.bytes) (vals ++ decls.zip xs) := by
  obtain ⟨k, b, fs, hk, hfields, hb, hsig⟩ := hR.declared (List.getElem?_eq_some_iff.mp hK).1 h4 hK
  obtain ⟨e₁, hdr₁, hread, hvals⟩ := hbase b hb
  exact ⟨k, _, hk, readsAs_level hk hfields hsig hsup hxs hread,
    hvals.setAll hsig (nodup_of_fields hfields) hxs hfresh⟩

/-- The names that come in with the field `base`: in nested mode its own, and in flat mode those
of its values. -/
def baseNames (flat : Bool) (names : List Name) : List Name :=
  if flat then names else [ascii "base"]

omit hR in
/-- The field `base` of a klass derived from `HT_Event`. -/
theorem readField_root {b : EventKlassField} (hb : shape b = infoShape (baseInfo htEventKlass))
    {hdr : Option Event} (hhdr : flat = false → hdr ≠ none) (id : UInt32) :
    ∃ e₁ hdr₁, FieldReadsAs P R flat depth b (.new (some id)) hdr (fun _ => []) (e₁, hdr₁) ∧
      HasValues P e₁ (baseNames flat []) [] := by
  have hstruct : b.typeId = .struct := congrArg (fun s => s.2.2) hb
  have hname : b.name = ascii "base" := congrArg (fun s => s.1) hb
  have htype : b.typeName = htEventKlass.typeName.bytes := congrArg (fun s => s.2.1) hb
  have hheader : b.isHeader = true := by
    rw [EventKlassField.isHeader, hname, htype]
    decide
  obtain ⟨e₁, hdr₁, hread, hcases⟩ :=
    readField_header (P := P) (R := R) hstruct hheader hhdr (.new (some id))
  refine ⟨e₁, hdr₁, fun host o rest => hread _ _ rest, ?_⟩
  rcases hcases with ⟨rfl, rfl⟩ | ⟨rfl, x, -, rfl⟩
  · exact hasValues_new _
  · exact hasValues_base _ hname _

/-- The field `base` of a klass derived from another one. -/
theorem readField_derived {j : ℕ} {base : Klass} (hj : G.klasses[j]? = some base)
    (hne : base ≠ htEventKlass) {b : EventKlassField} (hb : shape b = infoShape (baseInfo base))
    {hdr : Option Event} {payload : ByteOrder → List UInt8} {r : Event × Option Event}
    (hr : ReadsAs P R flat depth (UInt32.ofNat j) hdr payload r) {names : List Name}
    {vals : List (FieldDecl × FieldType)} (hvals : HasValues P r.1 names vals) (id : UInt32) :
    ∃ e₁ hdr₁, FieldReadsAs P R flat depth b (.new (some id)) hdr payload (e₁, hdr₁) ∧
      HasValues P e₁ (baseNames flat names) (if flat then vals else []) := by
  have hmem := List.mem_of_getElem? hj
  have hstruct : b.typeId = .struct := congrArg (fun s => s.2.2) hb
  have hname : b.name = ascii "base" := congrArg (fun s => s.1) hb
  have hlookup : (R.getKlass (R.getKlassId P b.typeName)).map EventKlass.id =
      some (UInt32.ofNat j) := by
    rw [lookup_base hR hmem hb, Registry.idOf_eq hj]
  refine ⟨_, _, readField_nested hstruct (fun h => hne ((isHeader_base_iff hmem hb).mp h)) hlookup
    hr (.new (some id)), ?_⟩
  cases flat with
  | true => exact hvals.merge _
  | false => exact hasValues_base _ hname _

omit hR in
theorem get_of_rawValue {e : Event} {key : Name} {f : EventKlassField} {x : FieldType}
    (h : e.rawValue key = some (f, x)) : e.get key = some x := by
  rw [Event.get_eq_map, h, Option.map_some]

/-- **A mapping event is delivered** with its identifier and its string. -/
theorem delivers_mapping (stamp : Stamp) (id : UInt64) (label : CString) :
    ∃ d, Delivers P flat (depth + 1) R R
        (fun o => ((LabelEvent.mapping stamp id label).traced G).encode o) d ∧
      (LabelEvent.mapping stamp id label).ShownBy d.event := by
  let h : HTEvent := ⟨7, stamp.timestamp, stamp.id⟩
  let decls : List FieldDecl :=
    [integerField "uint64_t" false 8 "identifier", stringField "const char*" "label"]
  let v : (scalarFields decls).Inst := (id.toBitVec, some label, ())
  have hxs : ShowsScalars decls v [.num .uint64 id.toNat, .str label.bytes] :=
    ⟨_, _, rfl, rfl, _, _, rfl, rfl, rfl⟩
  have hK : G.klasses[7]? = some stringMappingEventKlass := core_getElem? (by decide)
  obtain ⟨k, r, hk, hr, hvals⟩ := readsAs_declared P flat depth hR (by decide) hK (by decide)
    hxs (by cases flat <;> decide) fun b hb =>
      readField_root P flat depth hb (passedHeader_ne_none P flat R h) 7
  obtain ⟨f, -, hid⟩ := hvals.value _ _ (.head _)
  obtain ⟨f', -, hlabel⟩ := hvals.value _ _ (.tail _ (.head _))
  obtain ⟨hdel, hklass⟩ := delivers_ordinary (h := h) hR.keeps hk
    (show (7 : UInt32) ∉ ([0, 1, 2, 3] : List UInt32) by decide) hr
  exact ⟨_, hdel, hklass, get_of_rawValue (rawValue_finishedEvent hid),
    get_of_rawValue (rawValue_finishedEvent hlabel)⟩

/-- The field of `HT_CallstackIntEvent`. -/
def labelDecl : FieldDecl := integerField "HT_CallstackEventLabel" false 8 "label"

/-- The first field of `HT_CallstackBaseEvent`. -/
def durationDecl : FieldDecl := integerField "HT_DurationNs" false 8 "duration"

/-- The second one. -/
def threadIdDecl : FieldDecl := integerField "HT_ThreadId" false 4 "thread_id"

/-- **The values of a callstack event** that is delivered; in nested mode those of the base are in
a struct of their own. -/
theorem delivers_callstack_values (stamp : Stamp) (duration : UInt64) (threadId : UInt32)
    (label : UInt64) :
    ∃ d e, Delivers P flat (depth + 2) R R
        (fun o => ((LabelEvent.callstack stamp duration threadId label).traced G).encode o) d ∧
      d.event = finishedEvent P R flat ⟨5, stamp.timestamp, stamp.id⟩ e ∧
      d.event.klass = some 5 ∧
      HasValues P e (baseNames flat [ascii "duration", ascii "thread_id"] ++ [ascii "label"])
        ((if flat then [(durationDecl, .num .uint64 duration.toNat),
          (threadIdDecl, .num .uint32 threadId.toNat)] else []) ++
          [(labelDecl, .num .uint64 label.toNat)]) := by
  let h : HTEvent := ⟨5, stamp.timestamp, stamp.id⟩
  let decls : List FieldDecl := [labelDecl]
  let baseDecls : List FieldDecl := [durationDecl, threadIdDecl]
  let v : (scalarFields decls).Inst := (label.toBitVec, ())
  let baseV : (scalarFields baseDecls).Inst := (duration.toBitVec, threadId.toBitVec, ())
  have hxs : ShowsScalars decls v [.num .uint64 label.toNat] := ⟨_, _, rfl, rfl, rfl⟩
  have hbaseXs : ShowsScalars baseDecls baseV [.num .uint64 duration.toNat,
      .num .uint32 threadId.toNat] := ⟨_, _, rfl, rfl, _, _, rfl, rfl, rfl⟩
  have hK : G.klasses[5]? = some callstackIntEventKlass := core_getElem? (by decide)
  have hbase : G.klasses[4]? = some callstackBaseEventKlass := core_getElem? (by decide)
  have hne : callstackBaseEventKlass ≠ htEventKlass := fun heq =>
    absurd (congrArg Klass.typeName heq) (by decide)
  -- the level of `HT_CallstackBaseEvent`, and then the level of the klass itself
  obtain ⟨-, r, -, hr, hvals⟩ := readsAs_declared P flat depth hR (by decide) hbase (by decide)
    hbaseXs (by cases flat <;> decide) fun b hb =>
      readField_root P flat depth hb (passedHeader_ne_none P flat R h) 4
  obtain ⟨k, r', hk, hr', hvals'⟩ := readsAs_declared P flat (depth + 1) hR (by decide) hK
    (by decide) hxs (by cases flat <;> decide) fun b hb =>
      readField_derived P flat (depth + 1) hR hbase hne hb hr hvals 5
  obtain ⟨hdel, hklass⟩ := delivers_ordinary (h := h) hR.keeps hk
    (show (5 : UInt32) ∉ ([0, 1, 2, 3] : List UInt32) by decide) hr'
  have hbytes :
      (fun o => ((LabelEvent.callstack stamp duration threadId label).traced G).encode o) =
      fun o => h.encode o ++
        ((scalarFields baseDecls).encode o baseV ++ (scalarFields decls).encode o v) :=
    funext fun o => List.append_assoc _ _ _
  rw [hbytes]
  refine ⟨_, r'.1, hdel, rfl, hklass, ?_⟩
  cases flat <;> exact hvals'

/-- **A callstack event is delivered** with its label. -/
theorem delivers_callstack (stamp : Stamp) (duration : UInt64) (threadId : UInt32)
    (label : UInt64) :
    ∃ d, Delivers P flat (depth + 2) R R
        (fun o => ((LabelEvent.callstack stamp duration threadId label).traced G).encode o) d ∧
      (LabelEvent.callstack stamp duration threadId label).ShownBy d.event := by
  obtain ⟨d, e, hdel, hevent, hklass, hvals⟩ :=
    delivers_callstack_values P flat depth hR stamp duration threadId label
  obtain ⟨f, hf, hlabel⟩ := hvals.value _ _ (List.mem_append_right _ (.head _))
  refine ⟨d, hdel, hklass, f, hf, ?_⟩
  rw [hevent]
  exact rawValue_finishedEvent hlabel

end

/-- Every pushed event is delivered. -/
theorem delivers_label (hR : Describes G G.klasses.length R) (e : LabelEvent) :
    ∃ d, Delivers P flat (depth + 2) R R (fun o => (e.traced G).encode o) d ∧
      e.ShownBy d.event := by
  cases e with
  | mapping stamp id label => exact delivers_mapping P flat (depth + 1) hR stamp id label
  | callstack stamp duration threadId label =>
    exact delivers_callstack P flat depth hR stamp duration threadId label

/-- **The stream of the program is read to its end**, and behind the metadata the pushed
events are delivered. -/
theorem readEvents_labels (host : ByteOrder) (H : Host) (stamps : ℕ → Stamp) (G : Registry)
    (events : List LabelEvent) :
    ∃ metadata ds, readEvents host P flat (depth + 2)
          (streamOf H stamps G (events.map (LabelEvent.traced G)) : FileStream) =
        (⟨[], describedRegister P G, endiannessCode H.order, metadata ++ ds⟩, .error) ∧
      metadata.length = (metadataEvents H stamps G.klasses).length ∧
      List.Forall₂ (fun e d => e.ShownBy d.event) events ds := by
  obtain ⟨metadata, hmeta⟩ := deliversAll_metadata P flat (depth + 1) H stamps G
  obtain ⟨ds, hds, hshown⟩ :=
    deliversAll_of_each (f := Registry.Traced.toInstance ∘ LabelEvent.traced G)
      fun e (_ : e ∈ events) => delivers_label P flat depth (describes_describedRegister P G) e
  rw [← List.map_map] at hds
  have hread := readEvents_of_deliversAll P flat (depth + 1) (hmeta.append hds) host H.order
  refine ⟨endiannessDelivery P flat H.order :: metadata, ds, hread, ?_, hshown⟩
  rw [List.length_cons, hmeta.length_eq]
  rfl

end Delivering

/-! ### The converter -/

/-- A converter that has seen the description of `HT_StringMappingEvent`, with an empty map. -/
def afterDescription : Converter := ⟨.empty, 7⟩

/-- The labels among `labels` that belong to callstack events. -/
def callstackLabels (es : List Event) (labels : List Name) : List Name :=
  ((es.zip labels).filter fun p => p.1.klass = some 5).map Prod.snd

/-- The label that a converter with the map `m` finds for each of the events. -/
def labelsOf (m : TracepointMap) : List LabelEvent → List Name
  | [] => []
  | .mapping _ id label :: es => [] :: labelsOf (m.addMapEntry id label.bytes) es
  | .callstack _ _ _ label :: es =>
    (m.getLabelInfo label).1.label :: labelsOf (m.getLabelInfo label).2 es

variable {events : List LabelEvent}

theorem getLabels_labelsOf {es : List Event} (h : List.Forall₂ LabelEvent.ShownBy events es)
    (m : TracepointMap) : ∃ c, (⟨m, 7⟩ : Converter).getLabels es = .ok (labelsOf m events, c) := by
  induction h generalizing m with
  | nil => exact ⟨_, rfl⟩
  | @cons event e events es hshown _ ih =>
    cases event with
    | mapping stamp id label =>
      obtain ⟨hklass, hid, hlabel⟩ := hshown
      have hfirst := Converter.getLabel_of_mapping (c := ⟨m, 7⟩) (show (7 : UInt32) ≠ 0 by decide)
        hklass hid hlabel
      rw [UInt64.ofNat_toNat] at hfirst
      obtain ⟨c, hrest⟩ := ih (m.addMapEntry id label.bytes)
      exact ⟨c, Converter.getLabels_cons hfirst hrest⟩
    | callstack stamp duration threadId label =>
      obtain ⟨hklass, f, hf, hlabel⟩ := hshown
      have hfirst := Converter.getLabel_of_identifier (c := ⟨m, 7⟩)
        (show (7 : UInt32) ≠ 0 by decide) hklass (show (5 : UInt32) ≠ 7 by decide) hf hlabel
      rw [UInt64.ofNat_toNat] at hfirst
      obtain ⟨c, hrest⟩ := ih (m.getLabelInfo label).2
      exact ⟨c, Converter.getLabels_cons hfirst hrest⟩

/-- **What a map makes of the pushed events**: the labels of the callstack events. -/
def resolve (m : TracepointMap) : List LabelEvent → List Name
  | [] => []
  | .mapping _ id label :: es => resolve (m.addMapEntry id label.bytes) es
  | .callstack _ _ _ label :: es =>
    (m.getLabelInfo label).1.label :: resolve (m.getLabelInfo label).2 es

theorem callstackLabels_labelsOf {es : List Event} (h : List.Forall₂ LabelEvent.ShownBy events es)
    (m : TracepointMap) : callstackLabels es (labelsOf m events) = resolve m events := by
  induction h generalizing m with
  | nil => rfl
  | @cons event e events es hshown _ ih =>
    cases event with
    | mapping stamp id label =>
      rw [resolve, ← ih, callstackLabels, labelsOf, List.zip_cons_cons,
        List.filter_cons_of_neg (by simp [hshown.1])]
      rfl
    | callstack stamp duration threadId label =>
      rw [resolve, ← ih, callstackLabels, labelsOf, List.zip_cons_cons,
        List.filter_cons_of_pos (by simp [hshown.1])]
      rfl

/-- **The labels of the converter** are what its map makes of the pushed events. -/
theorem getLabels_eq {es : List Event} (h : List.Forall₂ LabelEvent.ShownBy events es)
    (m : TracepointMap) :
    ∃ labels c, (⟨m, 7⟩ : Converter).getLabels es = .ok (labels, c) ∧
      callstackLabels es labels = resolve m events := by
  obtain ⟨c, hlabels⟩ := getLabels_labelsOf h m
  exact ⟨_, c, hlabels, callstackLabels_labelsOf h m⟩

/-! ### What the program pushes -/

section Program

variable {charSigned : Bool} {text : UInt64 → CString}

/-- **A call** returns its identifier, and pushes a mapping event if the map does not have
it. -/
theorem Call.perform_eq (charSigned : Bool) (text : UInt64 → CString) {f : CachedString}
    (hf : f.Sound) (c : Call) :
    ∃ f', c.perform charSigned text f = ⟨c.id charSigned, f',
        if f.value c.map (c.id charSigned) = none then [(c.id charSigned, c.string text)] else []⟩ ∧
      f'.Sound ∧ ∀ w id, f'.value w id ≠ none →
        f.value w id ≠ none ∨ w = c.map ∧ id = c.id charSigned := by
  -- the part that both kinds of calls share
  have hadd : ∀ w id label, ∃ f', f.addMapping_ w id label .yes =
      ⟨id, f', if f.value w id = none then [(id, label)] else []⟩ ∧ f'.Sound ∧
      ∀ w' id', f'.value w' id' ≠ none → f.value w' id' ≠ none ∨ w' = w ∧ id' = id := by
    intro w id label
    obtain ⟨f', hinsert, hsound, hvalue⟩ :=
      CachedString.insertLabel_of_ok hf (CachedString.insertLabel_yes hf w id label)
    refine ⟨f', ?_, hsound, fun w' id' h => ?_⟩
    · rw [CachedString.addMapping_, hinsert]
      cases f.value w id <;> rfl
    · rw [hvalue] at h
      split at h
      · next heq => exact .inr heq
      · exact .inl h
  cases c with
  | addMapping address => exact hadd .static address (text address)
  | addMappingDynamic label =>
    rw [Call.perform, CachedString.addMappingDynamic]
    cases hvalue : f.dynamicHashes.getValue (CachedString.dynamicHash charSigned label) with
    | none =>
      obtain ⟨f', hmapping, hsound, hgrow⟩ :=
        hadd .dynamic (CachedString.dynamicHash charSigned label) label
      exact ⟨f', by rw [hmapping]; rfl, hsound, hgrow⟩
    | some label' =>
      refine ⟨f, ?_, hf, fun w id h => .inl h⟩
      have hsome : f.value .dynamic (CachedString.dynamicHash charSigned label) ≠ none := by
        change f.dynamicHashes.getValue _ ≠ none
        rw [hvalue]
        exact Option.some_ne_none _
      exact congrArg (CachedString.Added.mk _ f) (if_neg hsome).symm

/-- **The converter's map agrees with the program**: behind the calls `calls`, it has the
string of each of them. -/
structure Agrees (charSigned : Bool) (text : UInt64 → CString) (calls : List Call) (s : Labeller)
    (m : TracepointMap) : Prop where
  sound : s.feature.Sound
  ids : s.ids = calls.map (Call.id charSigned)
  found : ∀ c ∈ calls, (m.inputMap (c.id charSigned)).map MapInfo.label =
    some (c.string text).bytes
  called : ∀ w id, s.feature.value w id ≠ none → ∃ c ∈ calls, c.map = w ∧ c.id charSigned = id

theorem agrees_start : Agrees charSigned text [] .start .empty where
  sound := CachedString.sound_init
  ids := rfl
  found _ h := by cases h
  called w id h := absurd (CachedString.value_init w id) h

/-- The map of the converter behind what the call pushes. -/
def mapAfter (charSigned : Bool) (text : UInt64 → CString) (s : Labeller) (c : Call)
    (m : TracepointMap) : TracepointMap :=
  if s.feature.value c.map (c.id charSigned) = none then
    m.addMapEntry (c.id charSigned) (c.string text).bytes
  else m

/-- What a call means for the program and for the converter. -/
theorem act_add (charSigned : Bool) (text : UInt64 → CString) {s : Labeller} (hs : s.feature.Sound)
    (c : Call) (stamp : Stamp) :
    ∃ f', (s.act charSigned text (.add c stamp)).1 = ⟨f', s.ids ++ [c.id charSigned]⟩ ∧ f'.Sound ∧
      (∀ w id, f'.value w id ≠ none →
        s.feature.value w id ≠ none ∨ w = c.map ∧ id = c.id charSigned) ∧
      ∀ m es, resolve m ((s.act charSigned text (.add c stamp)).2 ++ es) =
        resolve (mapAfter charSigned text s c m) es := by
  obtain ⟨f', hperform, hsound, hgrow⟩ := Call.perform_eq charSigned text hs c
  simp only [Labeller.act, hperform, mapAfter]
  refine ⟨f', rfl, hsound, hgrow, fun m es => ?_⟩
  split <;> rfl

/-- **A call** keeps the agreement, if the identifiers stay unambiguous. -/
theorem Agrees.add {calls : List Call} {s : Labeller} {m : TracepointMap}
    (h : Agrees charSigned text calls s m) {c : Call}
    (hc : ∀ c' ∈ calls, c'.id charSigned = c.id charSigned → c'.string text = c.string text)
    (stamp : Stamp) :
    Agrees charSigned text (calls ++ [c]) (s.act charSigned text (.add c stamp)).1
      (mapAfter charSigned text s c m) := by
  obtain ⟨f', hact, hsound, hgrow, -⟩ := act_add charSigned text h.sound c stamp
  rw [hact]
  refine ⟨hsound, by rw [h.ids, List.map_append]; rfl, ?_, fun w id hid => ?_⟩
  · rw [mapAfter]
    split
    · intro c' hc'
      rw [TracepointMap.inputMap_addMapEntry]
      split
      · next heq =>
        have hstring : c'.string text = c.string text := by
          rcases List.mem_append.mp hc' with hc' | hc'
          · exact hc c' hc' heq
          · rw [List.mem_singleton.mp hc']
        rw [hstring]
        rfl
      · next hne =>
        rcases List.mem_append.mp hc' with hc' | hc'
        · exact h.found c' hc'
        · exact absurd (congrArg (Call.id charSigned) (List.mem_singleton.mp hc')) hne
    · next hvalue =>
      -- an earlier call with this identifier was given the same string
      intro c' hc'
      rcases List.mem_append.mp hc' with hc' | hc'
      · exact h.found c' hc'
      · obtain ⟨c₀, hc₀, -, hid⟩ := h.called _ _ hvalue
        rw [List.mem_singleton.mp hc', ← hid, h.found c₀ hc₀, hc c₀ hc₀ hid]
  · rcases hgrow w id hid with hold | ⟨rfl, rfl⟩
    · obtain ⟨c', hc', hw⟩ := h.called w id hold
      exact ⟨c', List.mem_append_left _ hc', hw⟩
    · exact ⟨c, List.mem_append_right _ (List.mem_singleton_self c), rfl, rfl⟩

/-- **Unambiguous identifiers are resolved** to the strings they stand for. -/
theorem resolve_emitted {calls : List Call} {s : Labeller} {m : TracepointMap}
    (h : Agrees charSigned text calls s m) {os : List LabelOp}
    (hall : Unambiguous charSigned text (calls ++ callsOf os))
    (huses : UsesEarlier calls.length os) :
    resolve m (s.emitted charSigned text os) = meantBy text (calls ++ callsOf os) os := by
  induction os generalizing calls s m with
  | nil => rfl
  | cons o os ih =>
    cases o with
    | add c stamp =>
      have hcalls : calls ++ callsOf (.add c stamp :: os) = calls ++ [c] ++ callsOf os := by
        rw [List.append_assoc]
        rfl
      have hc : ∀ c' ∈ calls, c'.id charSigned = c.id charSigned → c'.string text = c.string text :=
        fun c' hc' => hall c' (List.mem_append_left _ hc') c
          (List.mem_append_right _ List.mem_cons_self)
      obtain ⟨-, -, -, -, hresolve⟩ := act_add charSigned text h.sound c stamp
      rw [hcalls] at hall ⊢
      have huses' : UsesEarlier (calls ++ [c]).length os := by
        rw [List.length_append]
        exact huses
      rw [Labeller.emitted, hresolve, ih (h.add hc stamp) hall huses']
      rfl
    | pushCallstack i stamp duration threadId =>
      obtain ⟨hi, huses⟩ := huses
      have hget : calls[i]? = some calls[i] := List.getElem?_eq_getElem hi
      have hid : s.ids.getD i 0 = calls[i].id charSigned := by
        rw [h.ids, List.getD_eq_getElem?_getD, List.getElem?_map, hget]
        rfl
      obtain ⟨info, hinfo, hlabel⟩ :=
        Option.map_eq_some_iff.mp (h.found calls[i] (List.getElem_mem hi))
      have hmeant : meantBy text (calls ++ callsOf (.pushCallstack i stamp duration threadId :: os))
          (.pushCallstack i stamp duration threadId :: os) =
            (calls[i].string text).bytes :: meantBy text (calls ++ callsOf os) os := by
        refine List.filterMap_cons_some ?_
        change Option.map _ (calls ++ callsOf os)[i]? = _
        rw [List.getElem?_append_left hi, hget]
        rfl
      rw [hmeant, ← ih h hall huses, ← hlabel]
      change (m.getLabelInfo (s.ids.getD i 0)).1.label ::
        resolve (m.getLabelInfo (s.ids.getD i 0)).2 (s.emitted charSigned text os) = _
      rw [hid, TracepointMap.getLabelInfo_of_some hinfo]

/-- Calls alone: the identifiers are returned, and no label is resolved. -/
theorem exists_resolve_calls (charSigned : Bool) (text : UInt64 → CString) {s : Labeller}
    (hs : s.feature.Sound) (m : TracepointMap) (calls : List Call) (stamp : Stamp) :
    ∃ (s' : Labeller) (m' : TracepointMap), s'.ids = s.ids ++ calls.map (Call.id charSigned) ∧
      ∀ os, resolve m (s.emitted charSigned text (calls.map (.add · stamp) ++ os)) =
        resolve m' (s'.emitted charSigned text os) := by
  induction calls generalizing s m with
  | nil => exact ⟨s, m, (List.append_nil _).symm, fun _ => rfl⟩
  | cons c calls ih =>
    obtain ⟨f', hact, hsound, -, hresolve⟩ := act_add charSigned text hs c stamp
    obtain ⟨s', m', hids, hrest⟩ := ih (s := ⟨f', s.ids ++ [c.id charSigned]⟩) hsound
      (mapAfter charSigned text s c m)
    refine ⟨s', m', by rw [hids, List.append_assoc]; rfl, fun os => ?_⟩
    rw [List.map_cons, List.cons_append, Labeller.emitted, hresolve, hact, hrest]

theorem callsOf_append (calls : List Call) (stamp : Stamp) (os : List LabelOp) :
    callsOf (calls.map (.add · stamp) ++ os) = calls ++ callsOf os := by
  simp [callsOf, List.filterMap_append, List.filterMap_map]

theorem meantBy_append (all calls : List Call) (stamp : Stamp) (os : List LabelOp) :
    meantBy text all (calls.map (.add · stamp) ++ os) = meantBy text all os := by
  simp [meantBy, List.filterMap_append, List.filterMap_map]

theorem usesEarlier_append (calls : List Call) (stamp : Stamp) (os : List LabelOp) (n : ℕ) :
    UsesEarlier n (calls.map (.add · stamp) ++ os) ↔ UsesEarlier (n + calls.length) os := by
  induction calls generalizing n with
  | nil => rfl
  | cons c calls ih =>
    rw [List.map_cons, List.cons_append, UsesEarlier, ih, List.length_cons, Nat.add_assoc,
      Nat.add_comm 1]

/-- **Two strings under one identifier cannot both be resolved**: the same label is found for
both. -/
theorem unambiguous_of_resolve {calls : List Call}
    (h : ∀ os, callsOf os = calls → UsesEarlier 0 os →
      resolve .empty (Labeller.start.emitted charSigned text os) = meantBy text calls os) :
    Unambiguous charSigned text calls := by
  intro c hc c' hc' hid
  obtain ⟨i, hi, rfl⟩ := List.mem_iff_getElem.mp hc
  obtain ⟨j, hj, rfl⟩ := List.mem_iff_getElem.mp hc'
  -- all the calls, and then both labels
  let stamp : Stamp := ⟨0, 0⟩
  let uses : List LabelOp := [.pushCallstack i stamp 0 0, .pushCallstack j stamp 0 0]
  have hresolve := h (calls.map (.add · stamp) ++ uses)
    ((callsOf_append calls stamp uses).trans (List.append_nil _))
    ((usesEarlier_append calls stamp uses 0).mpr ⟨by omega, by omega, trivial⟩)
  obtain ⟨s, m, hids, hrest⟩ := exists_resolve_calls charSigned text (s := .start)
    CachedString.sound_init .empty calls stamp
  have hids' : s.ids = calls.map (Call.id charSigned) := hids
  have hgetD : ∀ k (hk : k < calls.length), s.ids.getD k 0 = calls[k].id charSigned := by
    intro k hk
    rw [hids', List.getD_eq_getElem?_getD, List.getElem?_map, List.getElem?_eq_getElem hk]
    rfl
  rw [hrest, meantBy_append] at hresolve
  have hlabels : resolve m (s.emitted charSigned text uses) =
      [(m.getLabelInfo (s.ids.getD i 0)).1.label,
        ((m.getLabelInfo (s.ids.getD i 0)).2.getLabelInfo (s.ids.getD j 0)).1.label] := rfl
  have hmeant : meantBy text calls uses =
      [(calls[i].string text).bytes, (calls[j].string text).bytes] := by
    simp [meantBy, uses, List.getElem?_eq_getElem hi, List.getElem?_eq_getElem hj]
  rw [hlabels, hmeant, hgetD i hi, hgetD j hj, ← hid, TracepointMap.getLabelInfo_again] at hresolve
  obtain ⟨hfirst, hsecond⟩ := List.cons.inj hresolve
  exact CString.bytes_injective (hfirst.symm.trans (List.cons.inj hsecond).1)

end Program

/-! ### From the program to the converter -/

section Main

variable (P : Platform) (host : ByteOrder) (flat : Bool) (depth : ℕ) (H : Host) (stamps : ℕ → Stamp)
  (G : Registry) (charSigned : Bool) (text : UInt64 → CString)

/-- **The labels of the program are decoded**: the reader goes through the stream of the pushed
events, and the converter gives every callstack event behind the metadata the string that was
passed to the call that returned its label. -/
def Decodes (os : List LabelOp) : Prop :=
  ∃ R metadata ds labels c,
    readEvents host P flat (depth + 2) (streamOf H stamps G
        ((Labeller.start.emitted charSigned text os).map (LabelEvent.traced G)) : FileStream) =
      (⟨[], R, endiannessCode H.order, metadata ++ ds⟩, .error) ∧
    metadata.length = (metadataEvents H stamps G.klasses).length ∧
    afterDescription.getLabels (ds.map Delivery.event) = .ok (labels, c) ∧
    callstackLabels (ds.map Delivery.event) labels = meantBy text (callsOf os) os

/-- **Decoding is resolving** what the program pushes. -/
theorem decodes_iff (os : List LabelOp) :
    Decodes P host flat depth H stamps G charSigned text os ↔
      resolve .empty (Labeller.start.emitted charSigned text os) =
        meantBy text (callsOf os) os := by
  obtain ⟨metadata, ds, hread, hlen, hshown⟩ := readEvents_labels P flat depth host H stamps G
    (Labeller.start.emitted charSigned text os)
  have hshown' : List.Forall₂ LabelEvent.ShownBy (Labeller.start.emitted charSigned text os)
      (ds.map Delivery.event) := List.forall₂_map_right_iff.mpr hshown
  obtain ⟨labels, c, hlabels, heq⟩ := getLabels_eq hshown' .empty
  constructor
  · rintro ⟨R, metadata', ds', labels', c', hread', hlen', hlabels', heq'⟩
    -- the reader and the converter are functions
    obtain ⟨hreader, -⟩ := Prod.mk.inj (hread.symm.trans hread')
    have hdeliveries : metadata ++ ds = metadata' ++ ds' := congrArg Reader.delivered hreader
    obtain ⟨-, rfl⟩ := List.append_inj hdeliveries (hlen.trans hlen'.symm)
    obtain ⟨rfl, -⟩ := Prod.mk.inj (Except.ok.inj (hlabels.symm.trans hlabels'))
    exact heq.symm.trans heq'
  · intro hresolve
    exact ⟨_, metadata, ds, labels, c, hread, hlen, hlabels, heq.trans hresolve⟩

/-- **When cached labels decode to the strings they stand for.** For the given calls, every
interleaving with callstack events is decoded exactly if no two different strings have the same
identifier. -/
theorem labels_decode_iff (calls : List Call) :
    (∀ os, callsOf os = calls → UsesEarlier 0 os →
        Decodes P host flat depth H stamps G charSigned text os) ↔
      Unambiguous charSigned text calls := by
  constructor
  · intro h
    refine unambiguous_of_resolve fun os hcalls huses => ?_
    rw [← hcalls]
    exact (decodes_iff P host flat depth H stamps G charSigned text os).mp (h os hcalls huses)
  · rintro hcalls os rfl huses
    rw [decodes_iff]
    exact resolve_emitted agrees_start hcalls huses

end Main

/-- Two dynamic strings of one hash, and an event with the label of each. -/
def collidingLabels : List LabelOp :=
  [.add (.addMappingDynamic (cstr "aB")) ⟨0, 0⟩, .add (.addMappingDynamic (cstr "b!")) ⟨1, 1⟩,
   .pushCallstack 0 ⟨2, 2⟩ 0 0, .pushCallstack 1 ⟨3, 3⟩ 0 0]

/-- **The second string is decoded to the first one.** -/
theorem label_of_another_string :
    ¬ Decodes samplePlatform .little true 0 sampleHost sampleStamps sampleRegistry true
        (fun _ => cstr "") collidingLabels ∧
      resolve .empty (Labeller.start.emitted true (fun _ => cstr "") collidingLabels) =
        [ascii "aB", ascii "aB"] := by
  have hresolve : resolve .empty (Labeller.start.emitted true (fun _ => cstr "") collidingLabels) =
      [ascii "aB", ascii "aB"] := by
    rfl
  refine ⟨?_, hresolve⟩
  rw [decodes_iff, hresolve]
  decide

end HawkTracer.RoundTrip
