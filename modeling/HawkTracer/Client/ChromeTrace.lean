import HawkTracer.Base.Json
import HawkTracer.Client.Converter

/-!
# The Chrome trace

`ChromeTraceConverter` writes the events of a trace as a JSON document for the viewer of Chrome:
an object per event with a label, with its times in microseconds and its other fields as arguments.
The document is put together from texts, and strings are put between quotes as they are.

Two loops put commas between what they write, and both remember whether something was written
before: `_get_args` in a variable, `process_event` in a member. So the text is the one that
`HawkTracer.Client.ChromeTrace.traceText` says, with the events that have a label in their order
(`HawkTracer.Client.ChromeTrace.convert_eq`). What is read from it is the subject of
`HawkTracer.Client.ChromeDocument`.
-/

namespace HawkTracer.Client

open HawkTracer.Parser

/-! ### The source -/

/-- The platform of the converter. -/
structure ConverterPlatform extends Platform where
  /-- The order in which it walks the values of an event. -/
  walk : List Value → List Value
  /-- It visits each of them once. -/
  walk_perm : ∀ l, (walk l).Perm l
  /-- What it finds when a value of the union is read as an `HT_ThreadId`. -/
  asThreadId : FieldType → UInt32
  /-- A stored `uint32_t` is found as it is. -/
  asThreadId_uint32 : ∀ n, asThreadId (.num .uint32 n) = UInt32.ofNat n

/-- The number in the union, by its bit pattern and the member that is read. -/
def toInt (t : FieldTypeId) (n : ℕ) : ℤ :=
  match t with
  | .uint8 => (BitVec.ofNat 8 n).toNat
  | .int8 => (BitVec.ofNat 8 n).toInt
  | .uint16 => (BitVec.ofNat 16 n).toNat
  | .int16 => (BitVec.ofNat 16 n).toInt
  | .uint32 => (BitVec.ofNat 32 n).toNat
  | .int32 => (BitVec.ofNat 32 n).toInt
  | .uint64 => (BitVec.ofNat 64 n).toNat
  | .int64 => (BitVec.ofNat 64 n).toInt
  | .pointer | .string | .struct => 0

/-- `get_value_or_default`. -/
def getValueOrDefault {α : Type} (read : FieldType → α) (e : Event) (key : Name) (default : α) :
    α :=
  match e.get key with
  | some v => read v
  | none => default

/-- `ns_to_ms`. -/
def nsToMs (nanoSecs : UInt64) : UInt64 := nanoSecs / 1000

namespace ChromeTrace

/-- `core_fields`. -/
def coreFields : List Name :=
  [ascii "thread_id", ascii "timestamp", ascii "klass_id", ascii "id", ascii "label",
    ascii "duration"]

/-- `_get_json_value`. -/
def getJsonValue (v : Value) : Except Stop Name :=
  match v.1.typeId with
  | .string =>
    match v.2 with
    | .str s => .ok (ascii "\"" ++ s ++ ascii "\"")
    | _ => .error .wrongMember
  | .pointer | .struct => .ok (ascii "\"unsupported type\"")
  | t =>
    match v.2 with
    | .num _ n => .ok (Json.decimalInt (toInt t n))
    | _ => .error .wrongMember

/-- One round of the loop of `_get_args`: the text so far, and `is_first`. -/
def addArg (r : Name × Bool) (v : Value) : Except Stop (Name × Bool) :=
  if v.name ∈ coreFields then .ok r
  else do
    let ret := if r.2 then r.1 else r.1 ++ ascii ","
    let text ← getJsonValue v
    return (ret ++ (ascii "\"" ++ v.name ++ ascii "\": " ++ text), false)

/-- `_get_args`. -/
def getArgs (P : ConverterPlatform) (e : Event) : Except Stop Name := do
  let r ← (P.walk e.values).foldlM addArg ([], true)
  return r.1

end ChromeTrace

/-- `ChromeTraceConverter`; the file is what has been written to it. -/
structure ChromeTrace where
  converter : Converter
  file : Name
  isOpen : Bool
  firstEventSaved : Bool

namespace ChromeTrace

/-- `_file <<`. -/
def write (s : ChromeTrace) (text : Name) : ChromeTrace :=
  if s.isOpen then { s with file := s.file ++ text } else s

/-- `init`, by whether the file could be opened. -/
def init (c : Converter) (opened : Bool) : ChromeTrace × Bool :=
  let s : ChromeTrace := ⟨c, [], opened, false⟩
  if s.isOpen then (s.write (ascii "\x7b\"traceEvents\": ["), true) else (s, false)

/-- The object of an event. -/
def eventText (P : ConverterPlatform) (label : Name) (e : Event) (args : Name) : Name :=
  ascii "\x7b\"name\": \"" ++ label ++
    ascii "\", \"ph\": \"X\", \"ts\": " ++ Json.decimalInt (nsToMs e.timestamp).toNat ++
    ascii ", \"dur\": " ++
      Json.decimalInt (nsToMs (getValueOrDefault P.asTimestamp e (ascii "duration") 0)).toNat ++
    ascii ", \"pid\": 0, \"tid\": " ++
      Json.decimalInt (getValueOrDefault P.asThreadId e (ascii "thread_id") 0).toNat ++
    ascii ", \"args\": \x7b" ++ args ++ ascii "\x7d" ++ ascii "\x7d"

/-- The comma between two events, and `_first_event_saved`. -/
def separate (s : ChromeTrace) : ChromeTrace :=
  if s.firstEventSaved then s.write (ascii ",") else { s with firstEventSaved := true }

/-- `process_event`. -/
def processEvent (P : ConverterPlatform) (s : ChromeTrace) (e : Event) :
    Except Stop ChromeTrace := do
  let r ← s.converter.getLabel e
  let s := { s with converter := r.2 }
  if r.1 = [] then return s
  else
    let args ← getArgs P e
    return s.separate.write (eventText P r.1 e args)

/-- `stop`. -/
def stop (s : ChromeTrace) : ChromeTrace :=
  if s.isOpen then { s.write (ascii "]\x7d") with isOpen := false } else s

/-- What is in the file after `init`, `process_event` for each event, and `stop`. -/
def convert (P : ConverterPlatform) (c : Converter) (events : List Event) : Except Stop Name := do
  let s ← events.foldlM (processEvent P) (init c true).1
  return s.stop.file

/-! ### What is written -/

/-- The events with a label, and their labels. -/
def entries (labels : List Name) (events : List Event) : List (Name × Event) :=
  (labels.zip events).filter fun x => x.1 ≠ []

/-- The fields that become arguments. -/
def argFields (values : List Value) : List Value := values.filter fun v => v.name ∉ coreFields

/-- The union holds what the type of the field says. -/
def IsStored (v : Value) : Prop :=
  match v.1.typeId with
  | .string => ∃ s, v.2 = .str s
  | .pointer | .struct => True
  | t => ∃ n, v.2 = .num t n

/-- What is printed of a field. -/
def fieldText (v : Value) : Name :=
  match getJsonValue v with
  | .ok text => text
  | .error _ => []

theorem getJsonValue_eq {v : Value} (h : IsStored v) : getJsonValue v = .ok (fieldText v) := by
  obtain ⟨⟨name, typeName, t, klass⟩, w⟩ := v
  cases t with
  | string =>
    obtain ⟨s, rfl⟩ := h
    rfl
  | pointer | struct => rfl
  | _ =>
    obtain ⟨n, hw⟩ := h
    dsimp only at hw
    subst hw
    rfl

/-- A field, as a member of the arguments. -/
def argText (v : Value) : Name := Json.memberText v.name (fieldText v)

theorem argText_eq (v : Value) :
    argText v = ascii "\"" ++ v.name ++ ascii "\": " ++ fieldText v := by
  have hquote : ascii "\"" = [0x22] := rfl
  have hcolon : ascii "\": " = [0x22, 0x3a, 0x20] := rfl
  simp [argText, Json.memberText, Json.quoted, hquote, hcolon]

/-- A comma in front of all but the first. -/
theorem comma_append (ts : List Name) (t : Name) :
    (if ts.isEmpty then Json.joined (ascii ",") ts
      else Json.joined (ascii ",") ts ++ ascii ",") ++ t = Json.joined (ascii ",") (ts ++ [t]) := by
  rw [Json.joined_concat]
  cases ts with
  | nil => rfl
  | cons t' ts => rfl

/-- One round: the field is skipped, or is added with a comma in front unless it is the first. -/
theorem addArg_eq {v : Value} (h : IsStored v) (ts : List Name) :
    addArg (Json.joined (ascii ",") ts, ts.isEmpty) v =
      .ok (Json.joined (ascii ",") (ts ++ (argFields [v]).map argText),
        (ts ++ (argFields [v]).map argText).isEmpty) := by
  rw [addArg]
  by_cases hcore : v.name ∈ coreFields
  · have hargs : argFields [v] = [] := by simp [argFields, hcore]
    rw [if_pos hcore, hargs, List.map_nil, List.append_nil]
  · have hargs : argFields [v] = [v] := by simp [argFields, hcore]
    have hempty : (ts ++ [argText v]).isEmpty = false := by simp
    rw [if_neg hcore, hargs, List.map_singleton, hempty, ← comma_append, argText_eq,
      getJsonValue_eq h]
    rfl

/-- **The loop over the values**: the arguments so far, with commas between them. -/
theorem foldlM_addArg {vs : List Value} (h : ∀ v ∈ vs, IsStored v) (ts : List Name) :
    vs.foldlM addArg (Json.joined (ascii ",") ts, ts.isEmpty) =
      .ok (Json.joined (ascii ",") (ts ++ (argFields vs).map argText),
        (ts ++ (argFields vs).map argText).isEmpty) := by
  induction vs generalizing ts with
  | nil =>
    rw [argFields, List.filter_nil, List.map_nil, List.append_nil]
    rfl
  | cons v vs ih =>
    obtain ⟨hv, hvs⟩ := List.forall_mem_cons.mp h
    have hargs : argFields (v :: vs) = argFields [v] ++ argFields vs := List.filter_append [v] vs
    rw [List.foldlM_cons, addArg_eq hv, hargs, List.map_append, ← List.append_assoc]
    exact ih hvs _

/-- The arguments of an event. -/
def argsText (P : ConverterPlatform) (e : Event) : Name :=
  Json.joined (ascii ",") ((argFields (P.walk e.values)).map argText)

theorem getArgs_eq (P : ConverterPlatform) {e : Event} (h : ∀ v ∈ e.values, IsStored v) :
    getArgs P e = .ok (argsText P e) := by
  have hloop := foldlM_addArg (fun v hv => h v ((P.walk_perm e.values).mem_iff.mp hv)) []
  rw [getArgs, argsText]
  rw [Json.joined, List.nil_append, List.isEmpty_nil] at hloop
  rw [hloop]
  rfl

/-! ### Events -/

variable {P : ConverterPlatform}

/-- The object of an entry. -/
def entryText (P : ConverterPlatform) (x : Name × Event) : Name :=
  eventText P x.1 x.2 (argsText P x.2)

/-- The document of a trace. -/
def traceText (P : ConverterPlatform) (l : List (Name × Event)) : Name :=
  ascii "\x7b\"traceEvents\": [" ++ Json.joined (ascii ",") (l.map (entryText P)) ++
    ascii "]\x7d"

/-- **While events are processed**, the file has the entries so far, with commas between them. -/
structure Written (P : ConverterPlatform) (l : List (Name × Event)) (s : ChromeTrace) : Prop where
  isOpen : s.isOpen = true
  firstEventSaved : s.firstEventSaved = !l.isEmpty
  file : s.file = ascii "\x7b\"traceEvents\": [" ++ Json.joined (ascii ",") (l.map (entryText P))

theorem written_init (P : ConverterPlatform) (c : Converter) : Written P [] (init c true).1 where
  isOpen := rfl
  firstEventSaved := rfl
  file := rfl

@[simp] theorem converter_write (s : ChromeTrace) (text : Name) :
    (s.write text).converter = s.converter := by
  rw [ChromeTrace.write]
  split <;> rfl

@[simp] theorem converter_separate (s : ChromeTrace) : s.separate.converter = s.converter := by
  rw [separate]
  split
  · exact converter_write s _
  · rfl

/-- One more entry. -/
theorem Written.concat {l : List (Name × Event)} {s : ChromeTrace} (h : Written P l s)
    (x : Name × Event) : Written P (l ++ [x]) (s.separate.write (entryText P x)) := by
  obtain ⟨converter, file, isOpen, firstEventSaved⟩ := s
  obtain ⟨rfl, rfl, rfl⟩ := h
  cases l with
  | nil => exact ⟨rfl, rfl, rfl⟩
  | cons y l =>
    refine ⟨rfl, rfl, ?_⟩
    have hcomma := comma_append ((y :: l).map (entryText P)) (entryText P x)
    rw [List.map_append, List.map_singleton, ← hcomma]
    simp [separate, ChromeTrace.write]

/-- One event. -/
theorem Written.processEvent {l : List (Name × Event)} {s : ChromeTrace} (h : Written P l s)
    {e : Event} {label : Name} {c : Converter} (hlabel : s.converter.getLabel e = .ok (label, c))
    (hstored : ∀ v ∈ e.values, IsStored v) :
    ∃ s', processEvent P s e = .ok s' ∧ s'.converter = c ∧
      Written P (l ++ entries [label] [e]) s' := by
  have hlabelled : Written P l { s with converter := c } := { h with }
  rw [ChromeTrace.processEvent, hlabel]
  by_cases hempty : label = []
  · have hentries : entries [label] [e] = [] := by simp [entries, hempty]
    rw [hentries, List.append_nil]
    exact ⟨_, if_pos hempty, rfl, hlabelled⟩
  · have hentries : entries [label] [e] = [(label, e)] := by simp [entries, hempty]
    rw [hentries, getArgs_eq P hstored]
    refine ⟨_, if_neg hempty, ?_, hlabelled.concat (label, e)⟩
    simp

/-- **All events.** -/
theorem Written.foldlM {l : List (Name × Event)} {s : ChromeTrace} (h : Written P l s)
    {events : List Event} {labels : List Name} {c : Converter}
    (hlabels : s.converter.getLabels events = .ok (labels, c))
    (hstored : ∀ e ∈ events, ∀ v ∈ e.values, IsStored v) :
    ∃ s', events.foldlM (ChromeTrace.processEvent P) s = .ok s' ∧
      Written P (l ++ entries labels events) s' := by
  induction events generalizing l s labels with
  | nil =>
    refine ⟨s, rfl, ?_⟩
    rw [entries, List.zip_nil_right, List.filter_nil, List.append_nil]
    exact h
  | cons e events ih =>
    obtain ⟨he, hevents⟩ := List.forall_mem_cons.mp hstored
    rw [Converter.getLabels] at hlabels
    obtain ⟨⟨label, c₁⟩, hlabel, hlabels⟩ := except_bind_eq_ok hlabels
    obtain ⟨⟨labels', c₂⟩, hrest, heq⟩ := except_bind_eq_ok hlabels
    cases heq
    obtain ⟨s₁, hstep, rfl, hwritten⟩ := h.processEvent hlabel he
    obtain ⟨s', hrun, hwritten⟩ := ih hwritten hrest hevents
    refine ⟨s', ?_, ?_⟩
    · rw [List.foldlM_cons, hstep]
      exact hrun
    · have hentries : entries (label :: labels') (e :: events) =
          entries [label] [e] ++ entries labels' events :=
        List.filter_append [(label, e)] (labels'.zip events)
      rw [hentries, ← List.append_assoc]
      exact hwritten

/-- **The text of a trace.** -/
theorem convert_eq {c c' : Converter} {events : List Event} {labels : List Name}
    (hlabels : c.getLabels events = .ok (labels, c'))
    (hstored : ∀ e ∈ events, ∀ v ∈ e.values, IsStored v) :
    convert P c events = .ok (traceText P (entries labels events)) := by
  have hconverter : (init c true).1.converter = c := rfl
  obtain ⟨s, hrun, hopen, -, hfile⟩ := (written_init P c).foldlM (hconverter ▸ hlabels) hstored
  rw [convert, hrun]
  change Except.ok s.stop.file = _
  rw [stop, if_pos hopen, ChromeTrace.write, if_pos hopen, hfile]
  rfl

end ChromeTrace

end HawkTracer.Client
