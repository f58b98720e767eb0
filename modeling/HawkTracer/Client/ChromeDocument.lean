import HawkTracer.Base.JsonPrinted
import HawkTracer.Client.ChromeTrace

/-!
# The document of a Chrome trace

What the text of `HawkTracer.Client.ChromeTrace` should be read as
(`HawkTracer.Client.ChromeTrace.IsTrace`): an array with an object for every event that has a
label, which has the label, the times in microseconds, and the other fields.

It is written and read as such a document exactly if the label of every event is found, no label,
no name of an argument and no string needs an escape, and the durations are read from the union as
they were stored there (`HawkTracer.Client.ChromeTrace.isTrace_iff`). The text is one that is
printed in the sense of `HawkTracer.Base.JsonPrinted`, so one direction of this is known. For the
converse nothing has to be said about what becomes of the document if there is a quote in a label:
no document that is read from the text has all the strings in it.

The last condition is about `get_value_or_default<HT_DurationNs>`, which reads eight bytes of the
union whatever the type of the field is. It holds if the field is a `uint64_t`
(`HawkTracer.Client.ChromeTrace.readsDuration_of_uint64`).
-/

namespace HawkTracer.Client

open HawkTracer.Parser Json.Printed

namespace ChromeTrace

/-! ### What the document should say -/

/-- The value of a field. There is nothing to say about pointers and structs. -/
def fieldJson (v : Value) : Json :=
  match v.1.typeId, v.2 with
  | .string, .str s => .str s
  | .string, _ | .pointer, _ | .struct, _ => .str (ascii "unsupported type")
  | t, .num _ n => .int (toInt t n)
  | _, _ => .str (ascii "unsupported type")

/-- The duration of an event, by the type of the field. -/
def duration (e : Event) : Option ℤ :=
  match e.rawValue (ascii "duration") with
  | none => some 0
  | some (f, .num _ n) => if f.typeId.isNumeric then some (toInt f.typeId n) else none
  | some _ => none

/-- **The object of an event**: its label, its times divided by 1000, and its other fields. -/
structure IsEntry (x : Name × Event) (j : Json) : Prop where
  name : j.get (ascii "name") = some (.str x.1)
  ts : j.get (ascii "ts") = some (.int (x.2.timestamp.toNat / 1000))
  dur : ∃ z, duration x.2 = some z ∧ j.get (ascii "dur") = some (.int (z / 1000))
  args : ∃ ms, j.get (ascii "args") = some (.obj ms) ∧
    ms.Perm ((argFields x.2.values).map fun v => (v.name, fieldJson v))

/-- **The document of a trace**: an array with one object per entry, in their order. -/
def IsTrace (l : List (Name × Event)) (doc : Json) : Prop :=
  ∃ js, doc.get (ascii "traceEvents") = some (.arr js) ∧ List.Forall₂ IsEntry l js

/-- The string a field holds, if it does. -/
def fieldStrings (v : Value) : List Name :=
  match v.1.typeId, v.2 with
  | .string, .str s => [s]
  | _, _ => []

/-- The strings that are put between quotes for an entry. -/
def entryStrings (x : Name × Event) : List Name :=
  x.1 :: (argFields x.2.values).flatMap fun v => v.name :: fieldStrings v

/-- What is read as the duration. -/
def readDuration (P : ConverterPlatform) (e : Event) : UInt64 :=
  getValueOrDefault P.asTimestamp e (ascii "duration") 0

/-- The duration is read as it was stored, up to what the division drops. -/
def ReadsDuration (P : ConverterPlatform) (e : Event) : Prop :=
  ∃ z, duration e = some z ∧ z / 1000 = (readDuration P e).toNat / 1000

variable {P : ConverterPlatform} {d : ℕ} {e : Event}

/-- A duration that was stored as a `uint64_t`, which is what `HT_DurationNs` is. -/
theorem readsDuration_of_uint64 {f : EventKlassField} {n : ℕ} (hf : f.typeId = .uint64)
    (h : e.rawValue (ascii "duration") = some (f, .num .uint64 n)) : ReadsDuration P e := by
  refine ⟨toInt .uint64 n, ?_, ?_⟩
  · rw [duration, h]
    simp only [hf]
    rfl
  · rw [readDuration, getValueOrDefault, Event.get_eq_map, h, Option.map_some]
    dsimp only
    rw [P.asTimestamp_uint64, toInt, UInt64.toNat_ofNat', BitVec.toNat_ofNat]

/-! ### The text is a printed document -/

/-- What stands for the value of a pointer or a struct. -/
def printUnsupported : Json.Printed (d + 1) :=
  .fixed (ascii "unsupported type") (Json.verbatim_of_ascii rfl)

/-- A field. -/
def printField (v : Value) : Json.Printed (d + 1) :=
  match v.1.typeId, v.2 with
  | .string, .str s => .str s
  | .string, _ | .pointer, _ | .struct, _ => printUnsupported
  | t, .num _ n => .int (toInt t n)
  | _, _ => printUnsupported

theorem printField_spec {v : Value} (h : IsStored v) :
    (printField v : Json.Printed (d + 1)).text = fieldText v ∧
      (printField v : Json.Printed (d + 1)).json = fieldJson v ∧
      (printField v : Json.Printed (d + 1)).strings = fieldStrings v := by
  obtain ⟨⟨name, typeName, t, klass⟩, w⟩ := v
  cases t with
  | string =>
    obtain ⟨s, rfl⟩ := h
    exact ⟨rfl, rfl, rfl⟩
  | pointer | struct => exact ⟨rfl, rfl, rfl⟩
  | _ =>
    obtain ⟨n, hw⟩ := h
    dsimp only at hw
    subst hw
    exact ⟨rfl, rfl, rfl⟩

/-- The arguments of an event. -/
def printArgs (P : ConverterPlatform) (e : Event) : Json.Printed (d + 2) :=
  .obj [] (by simp) ((argFields (P.walk e.values)).map fun v => (.free v.name, printField v))

/-- A name that is part of the program. -/
def literal (name : String) (h : (ascii name).all Json.isAscii = true) : Json.Key :=
  .fixed (ascii name) (Json.verbatim_of_ascii h)

/-- The object of an entry. -/
def printEntry (P : ConverterPlatform) (x : Name × Event) : Json.Printed (d + 3) :=
  .obj [0x20] Json.isSpace_of_mem_blank
    [(literal "name" rfl, .str x.1),
      (literal "ph" rfl, .fixed (ascii "X") (Json.verbatim_of_ascii rfl)),
      (literal "ts" rfl, .int (nsToMs x.2.timestamp).toNat),
      (literal "dur" rfl, .int (nsToMs (readDuration P x.2)).toNat),
      (literal "pid" rfl, .int 0),
      (literal "tid" rfl,
        .int (getValueOrDefault P.asThreadId x.2 (ascii "thread_id") 0).toNat),
      (literal "args" rfl, printArgs P x.2)]

/-- The document of a trace. -/
def printTrace (P : ConverterPlatform) (l : List (Name × Event)) : Json.Printed (d + 5) :=
  .obj [] (by simp)
    [(literal "traceEvents" rfl, .arr [] (by simp) (l.map (printEntry P)))]

theorem isStored_of_mem_walk (h : ∀ v ∈ e.values, IsStored v) {v : Value}
    (hv : v ∈ argFields (P.walk e.values)) : IsStored v :=
  h v ((P.walk_perm e.values).mem_iff.mp (List.mem_of_mem_filter hv))

theorem text_printArgs (h : ∀ v ∈ e.values, IsStored v) :
    (printArgs P e : Json.Printed (d + 2)).text = 0x7b :: (argsText P e ++ [0x7d]) := by
  have hmap : ((argFields (P.walk e.values)).map fun v =>
      ((.free v.name, printField v) : Json.Key × Json.Printed (d + 1))).map
        (fun m => Json.memberText m.1.name m.2.text) =
      (argFields (P.walk e.values)).map argText := by
    rw [List.map_map]
    refine List.map_congr_left fun v hv => ?_
    rw [argText, ← (printField_spec (d := d) (isStored_of_mem_walk h hv)).1]
    rfl
  rw [printArgs, text_obj, hmap]
  rfl

theorem strings_printArgs (h : ∀ v ∈ e.values, IsStored v) :
    (printArgs P e : Json.Printed (d + 2)).strings =
      (argFields (P.walk e.values)).flatMap fun v => v.name :: fieldStrings v := by
  rw [printArgs, strings_obj, List.flatMap_map]
  refine List.flatMap_congr fun v hv => ?_
  rw [← (printField_spec (d := d) (isStored_of_mem_walk h hv)).2.2]
  rfl

theorem json_printArgs (h : ∀ v ∈ e.values, IsStored v) :
    (printArgs P e : Json.Printed (d + 2)).json =
      .obj ((argFields (P.walk e.values)).map fun v => (v.name, fieldJson v)) := by
  rw [printArgs, json_obj, List.map_map]
  refine congrArg Json.obj (List.map_congr_left fun v hv => ?_)
  rw [← (printField_spec (d := d) (isStored_of_mem_walk h hv)).2.1]
  rfl

theorem walk_perm_argFields (P : ConverterPlatform) (e : Event) :
    (argFields (P.walk e.values)).Perm (argFields e.values) := (P.walk_perm e.values).filter _

variable {x : Name × Event} {l : List (Name × Event)}

theorem text_printEntry (h : ∀ v ∈ x.2.values, IsStored v) :
    (printEntry P x : Json.Printed (d + 3)).text = entryText P x := by
  have hargs : (printArgs P x.2 : Json.Printed (d + 2)).text = _ := text_printArgs h
  have hzero : Json.decimalInt 0 = [0x30] := rfl
  simp only [printEntry, text_obj, List.map_cons, List.map_nil, Json.joined, hargs]
  simp [entryText, eventText, Json.memberText, Json.quoted, literal, Json.Key.name,
    str, fixed, int, readDuration, ascii, hzero]

theorem text_printTrace (h : ∀ x ∈ l, ∀ v ∈ x.2.values, IsStored v) :
    (printTrace P l : Json.Printed (d + 5)).text = traceText P l := by
  have hmap : (l.map (printEntry P : _ → Json.Printed (d + 3))).map text = l.map (entryText P) := by
    rw [List.map_map]
    exact List.map_congr_left fun x hx => text_printEntry (h x hx)
  simp only [printTrace, text_obj, text_arr, List.map_cons, List.map_nil, Json.joined, hmap]
  simp [traceText, Json.memberText, Json.quoted, literal, Json.Key.name, ascii]

/-- The document is not deeper than it is long. -/
theorem exists_length_traceText (P : ConverterPlatform) (l : List (Name × Event)) :
    ∃ d, (traceText P l).length = d + 5 := by
  have hheader : (ascii "\x7b\"traceEvents\": [").length = 17 := rfl
  refine ⟨(traceText P l).length - 5, ?_⟩
  rw [traceText, List.length_append, List.length_append, hheader]
  omega

/-- The strings of an entry. -/
theorem mem_strings_printEntry (h : ∀ v ∈ x.2.values, IsStored v) {s : Name} :
    s ∈ (printEntry P x : Json.Printed (d + 3)).strings ↔ s ∈ entryStrings x := by
  have hstrings : (printEntry P x : Json.Printed (d + 3)).strings =
      x.1 :: (printArgs P x.2 : Json.Printed (d + 2)).strings := by
    simp [printEntry, literal, Json.Key.strings, str, fixed, int]
  rw [hstrings, strings_printArgs h, entryStrings, List.mem_cons, List.mem_cons,
    ((walk_perm_argFields P x.2).flatMap_right _).mem_iff]

/-- The strings of a trace. -/
theorem mem_strings_printTrace (h : ∀ x ∈ l, ∀ v ∈ x.2.values, IsStored v) {s : Name} :
    s ∈ (printTrace P l : Json.Printed (d + 5)).strings ↔ ∃ x ∈ l, s ∈ entryStrings x := by
  have hstrings : (printTrace P l : Json.Printed (d + 5)).strings =
      (l.map (printEntry P : _ → Json.Printed (d + 3))).flatMap strings :=
    List.append_nil _
  rw [hstrings, List.flatMap_map, List.mem_flatMap]
  refine exists_congr fun x => and_congr_right fun hx => ?_
  exact mem_strings_printEntry (h x hx)

/-! ### What it says -/

theorem get_printEntry (x : Name × Event) :
    (printEntry P x : Json.Printed (d + 3)).json.get (ascii "name") = some (.str x.1) ∧
    (printEntry P x : Json.Printed (d + 3)).json.get (ascii "ts") =
      some (.int (nsToMs x.2.timestamp).toNat) ∧
    (printEntry P x : Json.Printed (d + 3)).json.get (ascii "dur") =
      some (.int (nsToMs (readDuration P x.2)).toNat) ∧
    (printEntry P x : Json.Printed (d + 3)).json.get (ascii "args") =
      some (printArgs P x.2 : Json.Printed (d + 2)).json := by
  simp [printEntry, Json.get, literal, Json.Key.name, str, int, ascii, List.lookup_cons]

/-- The object of an entry says what it should if the duration is read right. -/
theorem isEntry_printEntry_iff (h : ∀ v ∈ x.2.values, IsStored v) :
    IsEntry x (printEntry P x : Json.Printed (d + 3)).json ↔ ReadsDuration P x.2 := by
  obtain ⟨hname, hts, hdur, hargs⟩ := get_printEntry (P := P) (d := d) x
  have hdiv : ∀ n : UInt64, ((nsToMs n).toNat : ℤ) = (n.toNat : ℤ) / 1000 := by
    intro n
    rw [nsToMs, UInt64.toNat_div]
    rfl
  rw [hdiv] at hts hdur
  rw [json_printArgs h] at hargs
  constructor
  · intro hentry
    obtain ⟨z, hz, hget⟩ := hentry.dur
    rw [hdur, Option.some.injEq] at hget
    exact ⟨z, hz, (Json.num.inj hget).1.symm⟩
  · rintro ⟨z, hz, heq⟩
    exact ⟨hname, hts, ⟨z, hz, by rw [hdur, heq]⟩, _, hargs, (walk_perm_argFields P x.2).map _⟩

/-- The document says what it should if all durations are read right. -/
theorem isTrace_printTrace_iff (h : ∀ x ∈ l, ∀ v ∈ x.2.values, IsStored v) :
    IsTrace l (printTrace P l : Json.Printed (d + 5)).json ↔ ∀ x ∈ l, ReadsDuration P x.2 := by
  have hget : (printTrace P l : Json.Printed (d + 5)).json.get (ascii "traceEvents") =
      some (.arr ((l.map (printEntry P : _ → Json.Printed (d + 3))).map json)) := rfl
  have hforall : List.Forall₂ IsEntry l
      ((l.map (printEntry P : _ → Json.Printed (d + 3))).map json) ↔
      ∀ x ∈ l, ReadsDuration P x.2 := by
    rw [List.map_map, List.forall₂_map_right_iff, List.forall₂_same]
    exact forall₂_congr fun x hx => isEntry_printEntry_iff (h x hx)
  rw [← hforall]
  constructor
  · rintro ⟨js, hjs, hl⟩
    rw [hget] at hjs
    cases hjs
    exact hl
  · intro hl
    exact ⟨_, hget, hl⟩

theorem fieldJson_of_mem {v : Value} {s : Name} (h : s ∈ fieldStrings v) :
    fieldJson v = .str s := by
  unfold fieldStrings at h
  split at h
  · next htype hvalue =>
    rw [fieldJson, htype, hvalue, List.mem_singleton.mp h]
  · exact absurd h List.not_mem_nil

theorem IsEntry.mentions {j : Json} (h : IsEntry x j) {s : Name} (hs : s ∈ entryStrings x) :
    Json.Mentions s j := by
  rcases List.mem_cons.mp hs with rfl | hs
  · obtain ⟨ms, rfl, hmem⟩ := Json.mem_of_get h.name
    exact .member hmem .str
  · obtain ⟨args, hget, hperm⟩ := h.args
    obtain ⟨ms, rfl, hmem⟩ := Json.mem_of_get hget
    refine .member hmem ?_
    obtain ⟨v, hv, hs⟩ := List.mem_flatMap.mp hs
    have harg : (v.name, fieldJson v) ∈ args := hperm.mem_iff.mpr (List.mem_map.mpr ⟨v, hv, rfl⟩)
    rcases List.mem_cons.mp hs with rfl | hs
    · exact .key harg
    · rw [fieldJson_of_mem hs] at harg
      exact .member harg .str

theorem IsTrace.mentions {doc : Json} (h : IsTrace l doc) (hx : x ∈ l) {s : Name}
    (hs : s ∈ entryStrings x) : Json.Mentions s doc := by
  obtain ⟨js, hget, hentries⟩ := h
  obtain ⟨ms, rfl, hmem⟩ := Json.mem_of_get hget
  obtain ⟨j, hj, hentry⟩ : ∃ j ∈ js, IsEntry x j := by
    obtain ⟨⟨i, hi⟩, rfl⟩ := List.get_of_mem hx
    have hij : i < js.length := hentries.length_eq ▸ hi
    exact ⟨js.get ⟨i, hij⟩, List.get_mem js ⟨i, hij⟩, hentries.get hi hij⟩
  exact .member hmem (.item hj (hentry.mentions hs))

/-- What is written if the labels are found. -/
theorem isTrace_document_iff {c c' : Converter} {events : List Event} {labels : List Name}
    (hlabels : c.getLabels events = .ok (labels, c'))
    (hstored : ∀ e ∈ events, ∀ v ∈ e.values, IsStored v) :
    ∃ text, convert P c events = .ok text ∧
      ((∃ doc, Json.document text = some doc ∧ IsTrace (entries labels events) doc) ↔
        ∀ x ∈ entries labels events,
          (∀ s ∈ entryStrings x, Json.Verbatim s) ∧ ReadsDuration P x.2) := by
  have hl : ∀ x ∈ entries labels events, ∀ v ∈ x.2.values, IsStored v := by
    intro x hx
    exact hstored x.2 (List.of_mem_zip (List.mem_of_mem_filter hx)).2
  refine ⟨_, convert_eq hlabels hstored, ?_⟩
  obtain ⟨d, hd⟩ := exists_length_traceText P (entries labels events)
  have htext := text_printTrace (P := P) (d := d) hl
  rw [← htext] at hd ⊢
  have hdocument := (printTrace P (entries labels events) : Json.Printed (d + 5)).document hd
  constructor
  · rintro ⟨doc, hdoc, htrace⟩
    have hverbatim := verbatim_of_document _ hdoc fun s hs => by
      obtain ⟨x, hx, hs⟩ := (mem_strings_printTrace hl).mp hs
      exact htrace.mentions hx hs
    rw [hdocument hverbatim] at hdoc
    cases hdoc
    have hdurations := (isTrace_printTrace_iff hl).mp htrace
    exact fun x hx => ⟨fun s hs => hverbatim s ((mem_strings_printTrace hl).mpr ⟨x, hx, hs⟩),
      hdurations x hx⟩
  · intro h
    refine ⟨_, hdocument ?_, (isTrace_printTrace_iff hl).mpr fun x hx => (h x hx).2⟩
    intro s hs
    obtain ⟨x, hx, hs⟩ := (mem_strings_printTrace hl).mp hs
    exact (h x hx).1 s hs

/-- **The text is written and read as the document of the trace** exactly if the labels of all
events are found, no string in it needs an escape and the durations are read as they were
stored. -/
theorem isTrace_iff {c : Converter} {events : List Event}
    (hstored : ∀ e ∈ events, ∀ v ∈ e.values, IsStored v) :
    (∃ labels c' text doc, c.getLabels events = .ok (labels, c') ∧ convert P c events = .ok text ∧
        Json.document text = some doc ∧ IsTrace (entries labels events) doc) ↔
      ∃ labels c', c.getLabels events = .ok (labels, c') ∧ ∀ x ∈ entries labels events,
        (∀ s ∈ entryStrings x, Json.Verbatim s) ∧ ReadsDuration P x.2 := by
  constructor
  · rintro ⟨labels, c', text, doc, hlabels, htext, hdoc, htrace⟩
    obtain ⟨text', htext', hiff⟩ := isTrace_document_iff (P := P) hlabels hstored
    obtain rfl : text = text' := Except.ok.inj (htext.symm.trans htext')
    exact ⟨labels, c', hlabels, hiff.mp ⟨doc, hdoc, htrace⟩⟩
  · rintro ⟨labels, c', hlabels, h⟩
    obtain ⟨text, htext, hiff⟩ := isTrace_document_iff (P := P) hlabels hstored
    obtain ⟨doc, hdoc, htrace⟩ := hiff.mpr h
    exact ⟨labels, c', text, doc, hlabels, htext, hdoc, htrace⟩

/-! ### Two traces -/

/-- A platform that walks the values of an event in the order of insertion. -/
def samplePlatform : ConverterPlatform :=
  { Parser.samplePlatform with
    walk := id
    walk_perm := fun l => List.Perm.refl l
    asThreadId := fun
      | .num _ n => UInt32.ofNat n
      | .str _ => 0
      | .event .. => 0
    asThreadId_uint32 := fun _ => rfl }

/-- A converter that has seen the description of the mapping klass. -/
def sampleConverter : Converter := ⟨.empty, 5⟩

/-- An event that was labelled with a string, and took 2500 ns. -/
def sampleEvent (label : Name) : Event where
  klass := some 9
  values := [(⟨ascii "label", ascii "const char*", .string, none⟩, .str label),
    (⟨ascii "duration", ascii "HT_DurationNs", .uint64, none⟩, .num .uint64 2500),
    (⟨ascii "depth", ascii "int8_t", .int8, none⟩, .num .int8 255)]
  timestamp := 7000

theorem getLabels_sampleEvent (label : Name) :
    sampleConverter.getLabels [sampleEvent label] = .ok ([label], sampleConverter) := rfl

theorem isStored_sampleEvent (label : Name) :
    ∀ e ∈ [sampleEvent label], ∀ v ∈ e.values, IsStored v := by
  intro e he
  rw [List.mem_singleton.mp he]
  simp only [sampleEvent, List.forall_mem_cons, List.not_mem_nil, false_implies, implies_true,
    and_true]
  exact ⟨⟨_, rfl⟩, ⟨_, rfl⟩, ⟨_, rfl⟩⟩

theorem isTrace_iff_of_main :
    ∃ text, convert samplePlatform sampleConverter [sampleEvent (ascii "main")] = .ok text ∧
      ∃ doc, Json.document text = some doc ∧
        IsTrace [(ascii "main", sampleEvent (ascii "main"))] doc := by
  have hentry : ∀ x ∈ entries [ascii "main"] [sampleEvent (ascii "main")],
      (∀ s ∈ entryStrings x, Json.Verbatim s) ∧ ReadsDuration samplePlatform x.2 := by
    intro x hx
    obtain rfl := List.mem_singleton.mp hx
    refine ⟨fun s hs => ?_, readsDuration_of_uint64 rfl rfl⟩
    have hstrings : entryStrings (ascii "main", sampleEvent (ascii "main")) =
        [ascii "main", ascii "depth"] := rfl
    have hascii : ∀ s ∈ [ascii "main", ascii "depth"], s.all Json.isAscii = true := by decide
    exact Json.verbatim_of_ascii (hascii s (hstrings ▸ hs))
  have hlabels := getLabels_sampleEvent (ascii "main")
  obtain ⟨labels, c', text, doc, hlabels', htext, hdoc, htrace⟩ :=
    (isTrace_iff (isStored_sampleEvent (ascii "main"))).mpr ⟨_, _, hlabels, hentry⟩
  cases hlabels.symm.trans hlabels'
  exact ⟨text, htext, doc, hdoc, htrace⟩

/-- **A quote in a label** makes a text that is no document. -/
theorem quote_breaks_document :
    ∃ text, convert samplePlatform sampleConverter [sampleEvent (ascii "\"")] = .ok text ∧
      Json.document text = none := by
  have hrun : (convert samplePlatform sampleConverter [sampleEvent (ascii "\"")]).toOption.map
      (fun text => (Json.document text).isNone) = some true := by decide +kernel
  cases hconvert : convert samplePlatform sampleConverter [sampleEvent (ascii "\"")] with
  | error w =>
    rw [hconvert] at hrun
    cases hrun
  | ok text =>
    rw [hconvert] at hrun
    exact ⟨text, rfl, Option.isNone_iff_eq_none.mp (Option.some.inj hrun)⟩

end ChromeTrace

end HawkTracer.Client
