import HawkTracer.Parser.Input

/-!
# The protocol reader

`ProtocolReader::_read_events` reads a header – an event of klass 1 – and, unless that
was all of it, an event of the klass the header names. What an event consists of is
looked up in the register at the moment it is read, so what the events of a stream are
depends on the events before them.

A nested struct is read by a recursive call (`HawkTracer.Parser.readEvent`). Nothing in
the source bounds that recursion – a klass can be described as containing itself – so
the model takes a bound and stops with `HawkTracer.Parser.Stop.depth` where the bound is
reached. The struct field `base` of type `HT_Event` is not read again: in nested mode
the header that has been read becomes its value, in flat mode it is merged at the end.

One round of the loop is `HawkTracer.Parser.Reader.step`, and
`HawkTracer.Parser.readEvents` iterates it until something stops it. A delivered event
is recorded together with the header it was read with.
-/

namespace HawkTracer.Parser

/-! ### Reading one event -/

section ReadEvent

variable {σ : Type} (P : Platform) (input : Input σ) (R : KlassRegister) (flat : Bool)

/-- What the functions below return: the event under construction, and the header it is
given. -/
abbrev EventResult (σ : Type) := Result (Event × Option Event) σ

/-- `_read_struct`, and what `_read_event` does with its result. `readSub` reads the
content of a nested struct. -/
def readStruct (readSub : Event → Option Event → σ → EventResult σ) (f : EventKlassField)
    (e : Event) (base : Option Event) (s : σ) : EventResult σ :=
  if f.isHeader then
    if flat then .ok (e, base) s
    else
      match base with
      | none => .stop .assertion s
      -- the header is moved into the field
      | some b => .ok (e.setValue P f b.toField, some b.movedFrom) s
  else
    (readSub (.new ((R.getKlass (R.getKlassId P f.typeName)).map EventKlass.id)) base s).bind
      fun r s =>
        if flat then .ok (e.merge P r.1, r.2) s
        else .ok (e.setValue P f r.1.toField, r.2) s

/-- One round of the loop of `_read_event`. -/
def readField (readSub : Event → Option Event → σ → EventResult σ) (f : EventKlassField)
    (e : Event) (base : Option Event) (s : σ) : EventResult σ :=
  match f.typeId with
  | .struct => readStruct P R flat readSub f e base s
  | .string => (input.str s).bind fun v s => .ok (e.setValue P f (.str v), base) s
  | t => (input.num t s).bind fun n s => .ok (e.setValue P f (.num t n), base) s

/-- The loop of `_read_event`. -/
def readFields (readSub : Event → Option Event → σ → EventResult σ) :
    List EventKlassField → Event → Option Event → σ → EventResult σ
  | [], e, base, s => .ok (e, base) s
  | f :: fs, e, base, s =>
    (readField P input R flat readSub f e base s).bind fun r s =>
      readFields readSub fs r.1 r.2 s

/-- `_read_event`: the fields of the klass the event points to. -/
def readEvent : ℕ → Event → Option Event → σ → EventResult σ
  | 0, _, _, s => .stop .depth s
  | depth + 1, e, base, s =>
    match e.klass.bind R.getKlass with
    | none => .stop .nullKlass s
    | some k => readFields P input R flat (readEvent depth) k.fields e base s

variable {P input R flat} {f : EventKlassField} (readSub : Event → Option Event → σ → EventResult σ)

theorem readField_num (hf : f.typeId.isNumeric = true) (e : Event) (base : Option Event) (s : σ) :
    readField P input R flat readSub f e base s =
      (input.num f.typeId s).bind fun n s => .ok (e.setValue P f (.num f.typeId n), base) s := by
  unfold readField
  cases ht : f.typeId with
  | pointer | string | struct => cases ht ▸ hf
  | _ => rfl

theorem readField_pointer (hf : f.typeId = .pointer) (e : Event) (base : Option Event) (s : σ) :
    readField P input R flat readSub f e base s =
      (input.num .pointer s).bind fun n s => .ok (e.setValue P f (.num .pointer n), base) s := by
  unfold readField
  rw [hf]

theorem readField_str (hf : f.typeId = .string) (e : Event) (base : Option Event) (s : σ) :
    readField P input R flat readSub f e base s =
      (input.str s).bind fun v s => .ok (e.setValue P f (.str v), base) s := by
  unfold readField
  rw [hf]

theorem readField_struct (hf : f.typeId = .struct) (e : Event) (base : Option Event) (s : σ) :
    readField P input R flat readSub f e base s = readStruct P R flat readSub f e base s := by
  unfold readField
  rw [hf]

theorem readStruct_of_isHeader (hf : f.isHeader = true) (e : Event) (base : Option Event) (s : σ) :
    readStruct P R flat readSub f e base s =
      if flat then .ok (e, base) s
      else
        match base with
        | none => .stop .assertion s
        | some b => .ok (e.setValue P f b.toField, some b.movedFrom) s := by
  unfold readStruct
  rw [if_pos hf]

theorem readStruct_of_not_isHeader (hf : ¬ f.isHeader = true) (e : Event) (base : Option Event)
    (s : σ) :
    readStruct P R flat readSub f e base s =
      (readSub (.new ((R.getKlass (R.getKlassId P f.typeName)).map EventKlass.id)) base s).bind
        fun r s =>
          if flat then .ok (e.merge P r.1, r.2) s
          else .ok (e.setValue P f r.1.toField, r.2) s := by
  unfold readStruct
  rw [if_neg hf]

theorem readFields_append (fs fs' : List EventKlassField) (e : Event) (base : Option Event)
    (s : σ) :
    readFields P input R flat readSub (fs ++ fs') e base s =
      (readFields P input R flat readSub fs e base s).bind fun r s =>
        readFields P input R flat readSub fs' r.1 r.2 s := by
  induction fs generalizing e base s with
  | nil => rfl
  | cons f fs ih =>
    rw [List.cons_append, readFields, readFields]
    cases readField P input R flat readSub f e base s with
    | ok r s => exact ih r.1 r.2 s
    | stop w s => rfl

variable {readSub} {r : Event × Option Event} {e : Event} {base : Option Event} {s s' : σ}

theorem readEvent_succ {depth : ℕ} {id : UInt32} {k : EventKlass}
    (he : e.klass = some id) (hk : R.getKlass id = some k) (base : Option Event) (s : σ) :
    readEvent P input R flat (depth + 1) e base s =
      readFields P input R flat (readEvent P input R flat depth) k.fields e base s := by
  rw [readEvent, he, Option.bind_some, hk]

theorem klass_readField (h : readField P input R flat readSub f e base s = .ok r s') :
    r.1.klass = e.klass := by
  unfold readField at h
  split at h
  · unfold readStruct at h
    split at h
    · cases flat with
      | true => cases h; rfl
      | false => cases base with
        | none => cases h
        | some b => cases h; rfl
    · obtain ⟨r', s'', -, hr⟩ := Result.bind_eq_ok_iff.mp h
      cases flat with
      | true => cases hr; exact Event.klass_merge P e r'.1
      | false => cases hr; rfl
  · obtain ⟨v, s'', -, hr⟩ := Result.bind_eq_ok_iff.mp h
    cases hr
    rfl
  · obtain ⟨n, s'', -, hr⟩ := Result.bind_eq_ok_iff.mp h
    cases hr
    rfl

/-- Reading fields does not change the klass of the event. -/
theorem klass_readFields {fs : List EventKlassField}
    (h : readFields P input R flat readSub fs e base s = .ok r s') : r.1.klass = e.klass := by
  induction fs generalizing e base s with
  | nil => cases h; rfl
  | cons f fs ih =>
    obtain ⟨r', s'', hf, hfs⟩ := Result.bind_eq_ok_iff.mp h
    rw [ih hfs, klass_readField hf]

theorem klass_readEvent {depth : ℕ} (h : readEvent P input R flat depth e base s = .ok r s') :
    r.1.klass = e.klass := by
  cases depth with
  | zero => cases h
  | succ depth =>
    rw [readEvent] at h
    split at h
    · cases h
    · exact klass_readFields h

end ReadEvent

/-! ### Properties of everything that is read -/

section Closed

variable {σ σ' : Type} {C : (α : Type) → (σ → Result α σ) → (σ' → Result α σ') → Prop}
  {P : Platform} {i : Input σ} {i' : Input σ'} {R : KlassRegister} {flat : Bool}

variable (C i i') in
/-- **A relation between two reading functions that `_read_event` keeps**: it holds for the
primitives of the two readers, a number has at least one byte, and it is closed under sequencing.
A property of one reading function is a relation that does not look at the other. -/
structure Closed : Prop where
  ok : ∀ {α : Type} (a : α), C α (.ok a) (.ok a)
  stop : ∀ {α : Type} (w : Stop), C α (.stop w) (.stop w)
  bind : ∀ {α β : Type} {f : σ → Result α σ} {g : σ' → Result α σ'} {k : α → σ → Result β σ}
    {k' : α → σ' → Result β σ'}, C α f g → (∀ a, C β (k a) (k' a)) →
      C β (fun s => (f s).bind k) (fun s => (g s).bind k')
  num : ∀ t : FieldTypeId, 1 ≤ t.sizeof → C ℕ (i.num t) (i'.num t)
  str : C Name i.str i'.str

variable {readSub : Event → Option Event → σ → EventResult σ}
  {readSub' : Event → Option Event → σ' → EventResult σ'}

section

variable (hC : Closed C i i') (hsub : ∀ e base, C _ (readSub e base) (readSub' e base))

include hC hsub

theorem Closed.readStruct (f : EventKlassField) (e : Event) (base : Option Event) :
    C _ (readStruct P R flat readSub f e base) (readStruct P R flat readSub' f e base) := by
  by_cases hf : f.isHeader = true
  · rw [funext (readStruct_of_isHeader readSub hf e base),
      funext (readStruct_of_isHeader readSub' hf e base)]
    rcases flat with _ | _
    · rcases base with _ | b
      · exact hC.stop _
      · exact hC.ok _
    · exact hC.ok _
  · rw [funext (readStruct_of_not_isHeader readSub hf e base),
      funext (readStruct_of_not_isHeader readSub' hf e base)]
    refine hC.bind (hsub _ base) fun r => ?_
    rcases flat with _ | _
    · exact hC.ok _
    · exact hC.ok _

theorem Closed.readField (f : EventKlassField) (e : Event) (base : Option Event) :
    C _ (readField P i R flat readSub f e base) (readField P i' R flat readSub' f e base) := by
  have hnum : ∀ t : FieldTypeId, 1 ≤ t.sizeof →
      C _ (fun s => (i.num t s).bind fun n s => .ok (e.setValue P f (.num t n), base) s)
        (fun s => (i'.num t s).bind fun n s => .ok (e.setValue P f (.num t n), base) s) :=
    fun t ht => hC.bind (hC.num t ht) fun n => hC.ok _
  unfold Parser.readField
  rcases f.typeId with _ | _ | _ | _ | _ | _ | _ | _ | _ | _ | _
  case struct => exact hC.readStruct hsub f e base
  case string => exact hC.bind hC.str fun v => hC.ok _
  all_goals exact hnum _ (by decide)

theorem Closed.readFields (fs : List EventKlassField) (e : Event) (base : Option Event) :
    C _ (readFields P i R flat readSub fs e base) (readFields P i' R flat readSub' fs e base) := by
  induction fs generalizing e base with
  | nil => exact hC.ok _
  | cons f fs ih => exact hC.bind (hC.readField hsub f e base) fun r => ih r.1 r.2

end

/-- **Such a relation holds for `_read_event`.** -/
theorem Closed.readEvent (hC : Closed C i i') (depth : ℕ) (e : Event) (base : Option Event) :
    C _ (readEvent P i R flat depth e base) (readEvent P i' R flat depth e base) := by
  induction depth generalizing e base with
  | zero => exact hC.stop _
  | succ depth ih =>
    change C _ (fun s => Parser.readEvent P i R flat (depth + 1) e base s)
      (fun s => Parser.readEvent P i' R flat (depth + 1) e base s)
    simp only [Parser.readEvent]
    rcases e.klass.bind R.getKlass with _ | k
    · exact hC.stop _
    · exact hC.readFields ih k.fields e base

end Closed

/-! ### The loop -/

/-- A delivered event, with the header that was read before it. -/
structure Delivery where
  header : Event
  event : Event

/-- The state of a `ProtocolReader`: the stream, the klass register, the endianness it
has been told, and what it has delivered. -/
structure Reader (σ : Type) where
  stream : σ
  register : KlassRegister
  endianness : UInt8
  delivered : List Delivery

/-- A reader before its first event. -/
def Reader.new {σ : Type} (stream : σ) : Reader σ := ⟨stream, .new, 0, []⟩

section Loop

variable {σ : Type} (P : Platform) (input : UInt8 → Input σ) (flat : Bool) (depth : ℕ)

/-- `_call_callbacks`: the register sees the event first, then the other listeners. -/
def Reader.callCallbacks (r : Reader σ) (header event : Event) : Reader σ × Option Stop :=
  match r.register.handleRegisterEvents P event with
  | .error w => (r, some w)
  | .ok R => ({ r with register := R, delivered := r.delivered ++ [⟨header, event⟩] }, none)

/-- What follows the second `_read_event` of a round: the endianness event sets the
byte order, then the callbacks are called. -/
def Reader.finish (r : Reader σ) (klassId : UInt32) (header event : Event) :
    Reader σ × Option Stop :=
  if klassId = 0 then
    match event.getNum (ascii "endianness") with
    | .error w => (r, some w)
    | .ok n => { r with endianness := UInt8.ofNat n }.callCallbacks P header event
  else r.callCallbacks P header event

/-- The second `_read_event` of a round. -/
def Reader.readBody (r : Reader σ) (klassId : UInt32) (header : Event) : Reader σ × Option Stop :=
  let event := Event.new ((r.register.getKlass klassId).map EventKlass.id)
  match readEvent P (input r.endianness) r.register flat depth event
      (if flat then none else some header) r.stream with
  | .stop w s => ({ r with stream := s }, some w)
  | .ok (event, _) s =>
    { r with stream := s }.finish P klassId header
      (if flat then event.merge P header else event)

/-- One round of `_read_events`. -/
def Reader.step (r : Reader σ) : Reader σ × Option Stop :=
  match readEvent P (input r.endianness) r.register flat depth
      (.new ((r.register.getKlass 1).map EventKlass.id)) none r.stream with
  | .stop w s => ({ r with stream := s }, some w)
  | .ok (header, _) s =>
    match header.getNum (ascii "klass_id") with
    | .error w => ({ r with stream := s }, some w)
    | .ok klassId =>
      if UInt32.ofNat klassId = 1 then { r with stream := s }.callCallbacks P header header
      else { r with stream := s }.readBody P input flat depth (UInt32.ofNat klassId) header

/-- At most `n` rounds of `_read_events`: the reader, and what stopped it. -/
def Reader.run : ℕ → Reader σ → Reader σ × Stop
  | 0, r => (r, .depth)
  | n + 1, r =>
    match r.step P input flat depth with
    | (r, none) => run n r
    | (r, some w) => (r, w)

/-- The reader after `k` rounds, if none of them stops it. -/
def Reader.rounds : ℕ → Reader σ → Option (Reader σ)
  | 0, r => some r
  | k + 1, r =>
    match r.step P input flat depth with
    | (r, none) => rounds k r
    | (_, some _) => none

variable {P input flat depth}

theorem Reader.rounds_succ {r r' : Reader σ} (h : r.step P input flat depth = (r', none)) (k : ℕ) :
    r.rounds P input flat depth (k + 1) = r'.rounds P input flat depth k := by
  rw [Reader.rounds, h]

theorem Reader.exists_step_of_rounds {k : ℕ} {r r' : Reader σ}
    (h : r.rounds P input flat depth (k + 1) = some r') :
    ∃ r'', r.step P input flat depth = (r'', none) ∧
      r''.rounds P input flat depth k = some r' := by
  rw [Reader.rounds] at h
  rcases hs : r.step P input flat depth with ⟨r'', _ | w⟩
  · rw [hs] at h
    exact ⟨r'', rfl, h⟩
  · rw [hs] at h
    cases h

theorem Reader.rounds_add (k l : ℕ) (r : Reader σ) :
    r.rounds P input flat depth (k + l) =
      (r.rounds P input flat depth k).bind (Reader.rounds P input flat depth l) := by
  induction k generalizing r with
  | zero => rw [Nat.zero_add, Reader.rounds, Option.bind_some]
  | succ k ih =>
    rw [Nat.add_right_comm, Reader.rounds, Reader.rounds]
    rcases r.step P input flat depth with ⟨r', _ | w⟩
    · exact ih r'
    · rfl

/-- A run goes on from where its first rounds have led. -/
theorem Reader.run_of_rounds {k : ℕ} {r r' : Reader σ}
    (h : r.rounds P input flat depth k = some r') (n : ℕ) :
    r.run P input flat depth (n + k) = r'.run P input flat depth n := by
  induction k generalizing r with
  | zero => cases h; rfl
  | succ k ih =>
    obtain ⟨r'', hs, hr''⟩ := Reader.exists_step_of_rounds h
    rw [← Nat.add_assoc, Reader.run, hs]
    exact ih hr''

theorem Reader.run_stop {r r' : Reader σ} {w : Stop}
    (h : r.step P input flat depth = (r', some w)) (n : ℕ) :
    r.run P input flat depth (n + 1) = (r', w) := by
  rw [Reader.run, h]

/-! ### What a round does -/

variable (P) in
/-- **What is left when the callbacks have been called** with an event, in a reader that may have
been told the byte order before: it has stopped, or the register has handled the event and the
event is delivered. -/
inductive Reader.Called (r : Reader σ) (header event : Event) : Reader σ × Option Stop → Prop where
  | stopped (c : UInt8) (w : Stop) : Called r header event ({ r with endianness := c }, some w)
  | delivered (c : UInt8) {R : KlassRegister}
      (h : r.register.handleRegisterEvents P event = .ok R) :
      Called r header event (⟨r.stream, R, c, r.delivered ++ [⟨header, event⟩]⟩, none)

theorem Reader.called_callCallbacks (r : Reader σ) (c : UInt8) (header event : Event) :
    r.Called P header event ({ r with endianness := c }.callCallbacks P header event) := by
  rw [Reader.callCallbacks]
  split
  · exact .stopped c _
  · next h => exact .delivered c h

theorem Reader.called_finish (r : Reader σ) (klassId : UInt32) (header event : Event) :
    r.Called P header event (r.finish P klassId header event) := by
  rw [Reader.finish]
  split
  · split
    · exact .stopped r.endianness _
    · exact r.called_callCallbacks _ header event
  · exact r.called_callCallbacks r.endianness header event

theorem Reader.Called.stream {r : Reader σ} {header event : Event} {x : Reader σ × Option Stop}
    (h : r.Called P header event x) : x.1.stream = r.stream := by
  rcases h with ⟨c, w⟩ | ⟨c, h⟩ <;> rfl

variable (P input flat depth) in
/-- **A round** stops while it reads, or it calls the callbacks: with the header if that was all of
the event, and otherwise with what was read behind it. -/
inductive Reader.Round (r : Reader σ) : Reader σ × Option Stop → Prop where
  | stopped (s : σ) (w : Stop) : Round r ({ r with stream := s }, some w)
  | header {header : Event} {base : Option Event} {s : σ} {x : Reader σ × Option Stop}
      (hread : readEvent P (input r.endianness) r.register flat depth
        (.new ((r.register.getKlass 1).map EventKlass.id)) none r.stream = .ok (header, base) s)
      (hcalled : { r with stream := s }.Called P header header x) : Round r x
  | body {header event : Event} {base base' : Option Event} {s s' : σ} {klassId : UInt32}
      {x : Reader σ × Option Stop}
      (hread : readEvent P (input r.endianness) r.register flat depth
        (.new ((r.register.getKlass 1).map EventKlass.id)) none r.stream = .ok (header, base) s)
      (hne : klassId ≠ 1)
      (hbody : readEvent P (input r.endianness) r.register flat depth
        (.new ((r.register.getKlass klassId).map EventKlass.id))
        (if flat then none else some header) s = .ok (event, base') s')
      (hcalled : { r with stream := s' }.Called P header
        (if flat then event.merge P header else event) x) : Round r x

variable (P input flat depth) in
theorem Reader.round_step (r : Reader σ) :
    r.Round P input flat depth (r.step P input flat depth) := by
  rw [Reader.step]
  split
  · exact .stopped _ _
  · next header base s hread =>
    split
    · exact .stopped s _
    · split
      · exact .header hread (Reader.called_callCallbacks _ r.endianness header header)
      · next hne =>
        rw [Reader.readBody]
        dsimp only
        split
        · exact .stopped _ _
        · next hbody => exact .body hread hne hbody (Reader.called_finish _ _ header _)

end Loop

/-- `_read_events`, on a host of the given byte order and on a stream from its start. Every
round reads at least the header, so there are no more rounds than bytes. -/
def readEvents {σ : Type} [Stream σ] (host : ByteOrder) (P : Platform) (flat : Bool) (depth : ℕ)
    (s : σ) : Reader σ × Stop :=
  (Reader.new s).run P (streamInput host) flat depth (Stream.avail s + 1)

end HawkTracer.Parser
