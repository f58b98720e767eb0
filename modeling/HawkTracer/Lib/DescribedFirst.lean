import HawkTracer.Base.Justified
import HawkTracer.Lib.FileDump

/-!
# Klasses are described before their instances

A reader knows what to do with an event only if the klass of the event has been described
before. A file dump listener writes the descriptions of all the klasses that are registered
when it is created, and none later. `HawkTracer.Lib.Dumping` is a timeline with the container of
its file dump listeners, together with the registry, which may grow at any time.

The state keeps a record of the events that a listener has heard of
(`HawkTracer.Lib.DumpListener.heard`), its metadata first, and of those that the timeline
still holds. What is in the file and in the buffer of the listener spells that record, and
`HawkTracer.Lib.DescribedFirst` is the rule of the format about it. The rule is kept as long as
every event that is pushed is of a klass that was registered before each of the listeners was
created, and the container is not reallocated (`HawkTracer.Lib.Dumping.files_describe_first`). It
is broken by the first event of a klass that was registered later
(`HawkTracer.Lib.Dumping.instance_without_description`).
-/

namespace HawkTracer.Lib

/-! ### The rule -/

/-- The identifier of the klass, as it stands in the header of the event. -/
def Instance.klassId (e : Instance) : UInt32 := (e.klass.fields.header e.val).klassId

/-- **The klass of the event is described** in the list, unless every reader knows it. -/
def DescribedIn (before : List Instance) (e : Instance) : Prop :=
  e.klassId ∈ ([0, 1, 2, 3] : List UInt32) ∨
    (∃ s, klassInfoEvent s e.klassId.toNat e.klass ∈ before) ∧
      ∀ info ∈ e.klass.fields.infos, ∃ s, fieldInfoEvent s e.klassId.toNat info ∈ before

/-- **Every klass is described before its first instance.** -/
def DescribedFirst (events : List Instance) : Prop := Justified DescribedIn events

theorem DescribedIn.append {before : List Instance} {e : Instance} (h : DescribedIn before e)
    (more : List Instance) : DescribedIn (before ++ more) e := by
  refine h.imp_right fun ⟨⟨s, hs⟩, hinfos⟩ => ⟨⟨s, List.mem_append_left _ hs⟩, fun info hinfo => ?_⟩
  obtain ⟨s', hs'⟩ := hinfos info hinfo
  exact ⟨s', List.mem_append_left _ hs'⟩

/-! ### The metadata -/

/-- **The metadata describes the registered klasses.** -/
theorem describedIn_metadata (H : Host) (stamps : ℕ → Stamp) {Ks : List Klass} {e : Instance}
    (h : Ks[e.klassId.toNat]? = some e.klass) : DescribedIn (metadataEvents H stamps Ks) e := by
  obtain ⟨⟨s, hs⟩, hinfos⟩ := mem_descriptions stamps 0 0 h
  rw [Nat.zero_add] at hs hinfos
  have hmem : ∀ e' ∈ descriptions stamps 0 0 Ks, e' ∈ metadataEvents H stamps Ks := fun e' he' =>
    List.mem_append_left _ (List.mem_cons_of_mem _ he')
  refine .inr ⟨⟨s, hmem _ hs⟩, fun info hinfo => ?_⟩
  obtain ⟨s', hs'⟩ := hinfos info hinfo
  exact ⟨s', hmem _ hs'⟩

theorem klassId_of_mem_descriptions {stamps : ℕ → Stamp} {i n : ℕ} {Ks : List Klass}
    {e : Instance} (h : e ∈ descriptions stamps i n Ks) :
    e.klassId ∈ ([0, 1, 2, 3] : List UInt32) := by
  obtain ⟨K, -, s, j, rfl | ⟨info, -, rfl⟩⟩ := eq_of_mem_descriptions h
  · exact (by decide : (2 : UInt32) ∈ ([0, 1, 2, 3] : List UInt32))
  · exact (by decide : (3 : UInt32) ∈ ([0, 1, 2, 3] : List UInt32))

/-- **The metadata follows the rule**, if the klass of the system information is where it is
expected. -/
theorem describedFirst_metadata (H : Host) (stamps : ℕ → Stamp) {Ks : List Klass}
    (h8 : Ks[8]? = some systemInfoEventKlass) : DescribedFirst (metadataEvents H stamps Ks) := by
  have hwellKnown :
      DescribedFirst ([] ++ (endiannessInfoEvent H :: descriptions stamps 0 0 Ks)) := by
    refine Justified.append (fun h => h.append _) justified_nil fun e he => .inl ?_
    rcases List.mem_cons.mp he with rfl | he
    · exact (by decide : (0 : UInt32) ∈ ([0, 1, 2, 3] : List UInt32))
    · exact klassId_of_mem_descriptions he
  refine justified_append_singleton_iff.mpr ⟨hwellKnown, .inr ?_⟩
  obtain ⟨⟨s, hs⟩, hinfos⟩ := mem_descriptions stamps 0 0 h8
  refine ⟨⟨s, List.mem_cons_of_mem _ hs⟩, fun info hinfo => ?_⟩
  obtain ⟨s', hs'⟩ := hinfos info hinfo
  exact ⟨s', List.mem_cons_of_mem _ hs'⟩

/-! ### A timeline and its file dump listeners -/

/-- The events of a program: what the library knows of them, and the objects they are. -/
structure Tracing (E : Type) extends CastRep E where
  host : Host
  toInstance : E → Instance
  encode_eq : ∀ e, encode e = (toInstance e).encode host.order
  /-- An event has at least its header. -/
  encode_ne_nil : ∀ e, encode e ≠ []

/-- A file dump listener. A call that does not return leaves no listener. -/
structure DumpListener where
  dump : Option FileDump
  bufferSize : ℕ
  /-- A record of the number of klasses that were registered when it was created. -/
  described : ℕ
  /-- A record of the events it has been called with. -/
  heard : List Instance

/-- The registry, and a timeline with its file dump listeners. -/
structure Dumping (E : Type) where
  klasses : List Klass
  timeline : Timeline
  container : WordBag ℕ
  listeners : List DumpListener
  /-- A callback was read from a slot of the container that no one has written. -/
  crashed : Bool
  /-- A record of the events in the buffer of the timeline. -/
  held : List E

namespace Dumping

open ListenerContainer

variable {E : Type}

/-- The calls that matter. -/
inductive Op (E : Type) where
  /-- `ht_registry_register_event_klass`, on a klass without an identifier. -/
  | registerEventKlass (K : Klass)
  /-- `ht_file_dump_listener_register`; `ok` is the answer of the allocator, should the container
  ask for memory. -/
  | registerListener (bufferSize : ℕ) (stamps : ℕ → Stamp) (ok : Bool)
  | pushEvent (e : E)
  | flush

section Step

variable (T : Tracing E)

/-- The callback of the listener is called, with a group of events. -/
def notifyListener (n : Notification) (g : List E) (l : DumpListener) : DumpListener :=
  { l with
    dump := l.dump.bind fun d => d.callback T.toCastRep n
    heard := l.heard ++ g.map T.toInstance }

/-- The timeline has handed over groups of events, one after another. -/
def notify (s : Dumping E) (r : Timeline × List Notification) (groups : List (List E) × List E) :
    Dumping E :=
  let called := callEach s.container (List.zipWith (notifyListener T) r.2 groups.1)
    ⟨s.crashed, s.listeners⟩
  { s with
    timeline := r.1
    held := groups.2
    listeners := called.listeners
    crashed := called.crashed }

/-- A listener for the klasses that are registered. -/
def newListener (klasses : List Klass) (bufferSize : ℕ) (stamps : ℕ → Stamp) : DumpListener where
  dump := FileDump.create T.toCastRep bufferSize (pushMetadata T.host stamps true klasses).1
  bufferSize := bufferSize
  described := klasses.length
  heard := metadataEvents T.host stamps klasses

/-- A listener is created and registered; it is destroyed if there is no memory for its entry. -/
def registerListener (s : Dumping E) (bufferSize : ℕ) (stamps : ℕ → Stamp) (ok : Bool) :
    Dumping E :=
  let r := s.container.add WordBag.listenerSizes s.listeners.length ok
  { s with
    container := r.2
    listeners :=
      if r.1 then s.listeners ++ [newListener T s.klasses bufferSize stamps] else s.listeners }

/-- One call. -/
def step (s : Dumping E) : Op E → Dumping E
  | .registerEventKlass K => { s with klasses := s.klasses ++ [K] }
  | .registerListener bufferSize stamps ok => s.registerListener T bufferSize stamps ok
  | .pushEvent e =>
    s.notify T (s.timeline.pushEvent T.toEventRep e) (s.timeline.pushGroups T.toEventRep s.held e)
  | .flush => s.notify T s.timeline.flush (Timeline.flushGroups s.held, [])

/-- A new timeline, behind `ht_init`. -/
def start (bufferCapacity : ℕ) (serializeEvents : Bool) : Dumping E where
  klasses := coreKlasses
  timeline := Timeline.create bufferCapacity serializeEvents
  container := ListenerContainer.create
  listeners := []
  crashed := false
  held := []

/-- **Calls as they are meant**: the descriptions of a klass fit the staging buffer, an event is
of a registered klass, and where the timeline hands over objects, the buffers of the listeners
are large enough for each of them. -/
def Proper (s : Dumping E) : Op E → Prop
  | .registerEventKlass K => K.FitsStaging
  | .registerListener bufferSize _ _ => s.timeline.serializeEvents = false →
    0 < bufferSize ∧ ∀ e ∈ s.held, T.getSize e ≤ bufferSize
  | .pushEvent e =>
    s.klasses[(T.toInstance e).klassId.toNat]? = some (T.toInstance e).klass ∧
      (s.timeline.serializeEvents = false → ∀ l ∈ s.listeners, T.getSize e ≤ l.bufferSize)
  | .flush => True

/-- **The call does not reallocate the container**: it is not full, or there is no memory. -/
def KeepsBlock (s : Dumping E) : Op E → Prop
  | .registerListener _ _ ok => s.container.capacity = s.container.size → ok = false
  | _ => True

/-- **The klass of an event is known to all listeners**: it was registered before each of them
was created, or every reader knows it. -/
def KnownToAll (s : Dumping E) : Op E → Prop
  | .pushEvent e => ∀ l ∈ s.listeners, (T.toInstance e).klassId ∈ ([0, 1, 2, 3] : List UInt32) ∨
    (T.toInstance e).klassId.toNat < l.described
  | _ => True

end Step

/-! ### What always holds -/

/-- **What a listener has**: its file and its buffer spell what it has heard, and the klasses
from before its time are described there. -/
structure Listens (T : Tracing E) (s : Dumping E) (l : DumpListener) : Prop where
  took : ∃ d, l.dump = some d ∧ d.opened = true ∧
    FileDump.Took l.bufferSize d (l.heard.flatMap (Instance.encode T.host.order))
  known : ∀ e : Instance, e.klassId.toNat < l.described →
    s.klasses[e.klassId.toNat]? = some e.klass → DescribedIn l.heard e
  described_le : l.described ≤ s.klasses.length
  fits : s.timeline.serializeEvents = false → 0 < l.bufferSize ∧
    ∀ e ∈ s.held, T.getSize e ≤ l.bufferSize

/-- **What holds in every state**, whether the rule does or not. -/
structure Kept (T : Tracing E) (s : Dumping E) : Prop where
  core : s.klasses[8]? = some systemInfoEventKlass
  fitsStaging : ∀ K ∈ s.klasses, K.FitsStaging
  holds : s.timeline.Holds T.toEventRep s.held
  registered : ∀ e ∈ s.held,
    s.klasses[(T.toInstance e).klassId.toNat]? = some (T.toInstance e).klass
  listens : ∀ l ∈ s.listeners, Listens T s l
  intact : Intact s.container s.listeners.length
  running : s.crashed = false

/-- **The rule holds** for what each listener has heard together with what it will hear next. -/
def Rule (T : Tracing E) (s : Dumping E) : Prop :=
  ∀ l ∈ s.listeners, DescribedFirst (l.heard ++ s.held.map T.toInstance)

variable {T : Tracing E} {s : Dumping E}

theorem kept_start (bufferCapacity : ℕ) (serializeEvents : Bool) :
    Kept T (start bufferCapacity serializeEvents) where
  core := rfl
  fitsStaging _ hK := fitsStaging_of_core hK
  holds := Timeline.holds_create bufferCapacity serializeEvents
  registered _ h := by cases h
  listens _ h := by cases h
  intact := intact_create
  running := rfl

/-! ### Steps -/

theorem reps_true_eq (T : Tracing E) (es : List E) :
    T.reps true es = (es.map T.toInstance).flatMap (Instance.encode T.host.order) := by
  rw [List.flatMap_map]
  exact congrArg (List.flatMap · es) (funext T.encode_eq)

/-- Every event is seen. -/
theorem visible_eq (T : Tracing E) (b : Bool) (e : E) : T.visible b [e] = [e] := by
  have hrep : T.rep b e ≠ [] := by
    cases b with
    | true => exact T.encode_ne_nil e
    | false =>
      rw [← List.length_pos_iff, T.length_rep]
      exact T.typeSize_pos e
  simp [EventRep.visible, hrep]

/-- A listener that has been called with one notification after another. -/
def hear (T : Tracing E) (ns : List Notification) (es : List E) (l : DumpListener) : DumpListener :=
  { l with
    dump := l.dump.bind fun d => ns.foldlM (fun d n => d.callback T.toCastRep n) d
    heard := l.heard ++ es.map T.toInstance }

theorem foldl_notifyListener (T : Tracing E) {ns : List Notification} {groups : List (List E)}
    (h : ns.length = groups.length) (l : DumpListener) :
    (List.zipWith (notifyListener T) ns groups).foldl (fun l f => f l) l =
      hear T ns groups.flatten l := by
  induction ns generalizing groups l with
  | nil =>
    obtain rfl := List.length_eq_zero_iff.mp h.symm
    obtain ⟨_ | d, _, _, heard⟩ := l <;> simp [hear]
  | cons n ns ih =>
    obtain ⟨g, groups, rfl⟩ := List.exists_cons_of_length_eq_add_one h.symm
    rw [List.zipWith_cons_cons, List.foldl_cons, ih (Nat.succ.inj h)]
    obtain ⟨_ | d, _, _, heard⟩ := l
    · simp [hear, notifyListener]
    · simp [hear, notifyListener, List.foldlM_cons]

variable {r : Timeline × List Notification} {groups : List (List E) × List E} {stamps : ℕ → Stamp}

/-- **All listeners are called.** -/
theorem Kept.notify_eq (h : Kept T s) (hlen : r.2.length = groups.1.length) :
    s.notify T r groups =
      { s with
        timeline := r.1
        held := groups.2
        listeners := s.listeners.map (hear T r.2 groups.1.flatten) } := by
  rw [Dumping.notify, h.running, h.intact.callEach]
  simp only [foldl_notifyListener T hlen, ← h.running]

/-- **A listener is called** with the groups that a call on the timeline hands over. -/
theorem Listens.notify {l : DumpListener} (h : Listens T s l) {es : List E}
    (hr : Timeline.Batches T.toEventRep s.timeline s.held es r groups.1 groups.2)
    (hfits : s.timeline.serializeEvents = false → ∀ e ∈ es, T.getSize e ≤ l.bufferSize) :
    Listens T { s with
        timeline := r.1
        held := groups.2
        listeners := s.listeners.map (hear T r.2 groups.1.flatten) }
      (hear T r.2 groups.1.flatten l) := by
  have hall : s.timeline.serializeEvents = false → ∀ e ∈ groups.1.flatten ++ groups.2,
      T.getSize e ≤ l.bufferSize := by
    intro hmode e he
    rw [hr.split] at he
    rcases List.mem_append.mp he with he | he
    · exact (h.fits hmode).2 e he
    · exact hfits hmode e he
  refine ⟨?_, fun e hlt he => (h.known e hlt he).append _, h.described_le, fun hmode => ?_⟩
  · obtain ⟨d, hd, hopened, htook⟩ := h.took
    have hgroups : ∀ g ∈ groups.1, ListenerBuffer.Fits T.toEventRep l.bufferSize
        s.timeline.serializeEvents g := fun g hg hmode =>
      ⟨(h.fits hmode).1, fun e he => hall hmode e
        (List.mem_append_left _ (List.mem_flatten.mpr ⟨g, hg, he⟩))⟩
    obtain ⟨d', hcalls, hopened', htook'⟩ := htook.notify (R := T.toCastRep) hopened hgroups
    refine ⟨d', ?_, hopened', ?_⟩
    · simp only [hear, hd, Option.bind_some, hr.sent]
      exact hcalls
    · rw [reps_true_eq] at htook'
      simpa [hear] using htook'
  · have hmode' : s.timeline.serializeEvents = false := hr.serializeEvents.symm.trans hmode
    exact ⟨(h.fits hmode').1, fun e he => hall hmode' e (List.mem_append_right _ he)⟩

/-- **A call on the timeline.** -/
theorem Kept.notify (h : Kept T s) {es : List E}
    (hr : Timeline.Batches T.toEventRep s.timeline s.held es r groups.1 groups.2)
    (hes : ∀ e ∈ es, s.klasses[(T.toInstance e).klassId.toNat]? = some (T.toInstance e).klass)
    (hfits : s.timeline.serializeEvents = false → ∀ l ∈ s.listeners, ∀ e ∈ es,
      T.getSize e ≤ l.bufferSize) : Kept T (s.notify T r groups) := by
  rw [h.notify_eq (by rw [hr.sent, List.length_map])]
  refine ⟨h.core, h.fitsStaging, hr.holds, fun e he => ?_, fun l hl => ?_, ?_, h.running⟩
  · have he' : e ∈ s.held ++ es := hr.split ▸ List.mem_append_right _ he
    exact (List.mem_append.mp he').elim (h.registered e) (hes e)
  · obtain ⟨l', hl', rfl⟩ := List.mem_map.mp hl
    exact (h.listens l' hl').notify hr fun hmode => hfits hmode l' hl'
  · rw [List.length_map]
    exact h.intact

/-- A listener hears what it was going to hear. -/
theorem Kept.rule_notify (hkept : Kept T s) {es : List E}
    (hr : Timeline.Batches T.toEventRep s.timeline s.held es r groups.1 groups.2)
    (h : ∀ l ∈ s.listeners, DescribedFirst (l.heard ++ (s.held ++ es).map T.toInstance)) :
    Rule T (s.notify T r groups) := by
  rw [hkept.notify_eq (by rw [hr.sent, List.length_map])]
  intro l hl
  obtain ⟨l', hl', rfl⟩ := List.mem_map.mp hl
  simp only [hear]
  rw [List.append_assoc, ← List.map_append, hr.split]
  exact h l' hl'

/-- **A new listener** has the descriptions of the registered klasses. -/
theorem Kept.listens_new (h : Kept T s) (bufferSize : ℕ) (stamps : ℕ → Stamp)
    (hfits : s.timeline.serializeEvents = false →
      0 < bufferSize ∧ ∀ e ∈ s.held, T.getSize e ≤ bufferSize) :
    Listens T s (newListener T s.klasses bufferSize stamps) where
  took := by
    obtain ⟨d, hd, hopened, htook⟩ := FileDump.took_create (R := T.toCastRep) bufferSize
      (pushMetadata T.host stamps true s.klasses).1
    rw [flatten_pushMetadata T.host stamps h.fitsStaging] at htook
    exact ⟨d, hd, hopened, htook⟩
  known _ _ he := describedIn_metadata T.host stamps he
  described_le := le_refl _
  fits := hfits

/-- It has those of the events that the timeline still holds, too. -/
theorem Kept.rule_new (h : Kept T s) (bufferSize : ℕ) (stamps : ℕ → Stamp) :
    DescribedFirst ((newListener T s.klasses bufferSize stamps).heard ++
      s.held.map T.toInstance) := by
  refine Justified.append (fun h => h.append _) (describedFirst_metadata T.host stamps h.core) ?_
  intro e he
  obtain ⟨e', he', rfl⟩ := List.mem_map.mp he
  exact describedIn_metadata T.host stamps (h.registered e' he')

/-- A registry that grows keeps the klasses it has. -/
theorem getElem?_append_of_some {Ks : List Klass} {i : ℕ} {K : Klass} (h : Ks[i]? = some K)
    (Ks' : List Klass) : (Ks ++ Ks')[i]? = some K := by
  rw [List.getElem?_append_left (List.getElem?_eq_some_iff.mp h).1, h]

theorem Kept.registerEventKlass (h : Kept T s) {K : Klass} (hK : K.FitsStaging) :
    Kept T { s with klasses := s.klasses ++ [K] } where
  core := getElem?_append_of_some h.core [K]
  fitsStaging K' hK' := by
    rcases List.mem_append.mp hK' with hK' | hK'
    · exact h.fitsStaging K' hK'
    · rw [List.mem_singleton.mp hK']
      exact hK
  holds := h.holds
  registered e he := getElem?_append_of_some (h.registered e he) [K]
  listens l hl := by
    have hl' := h.listens l hl
    refine ⟨hl'.took, fun e hlt he => hl'.known e hlt ?_, ?_, hl'.fits⟩
    · have hlen := lt_of_lt_of_le hlt hl'.described_le
      exact (List.getElem?_append_left hlen).symm.trans he
    · exact hl'.described_le.trans (by simp)
  intact := h.intact
  running := h.running

/-- A listener of the next state is an old one or the new one. -/
theorem mem_registerListener {bufferSize : ℕ} {ok : Bool} {l : DumpListener}
    (hl : l ∈ (s.registerListener T bufferSize stamps ok).listeners) :
    l ∈ s.listeners ∨ l = newListener T s.klasses bufferSize stamps := by
  rw [Dumping.registerListener] at hl
  dsimp only at hl
  split at hl
  · exact (List.mem_append.mp hl).imp_right List.mem_singleton.mp
  · exact .inl hl

/-- **Another listener** comes behind those that are there. -/
theorem Kept.registerListener (h : Kept T s) {bufferSize : ℕ} {ok : Bool}
    (hfits : s.timeline.serializeEvents = false →
      0 < bufferSize ∧ ∀ e ∈ s.held, T.getSize e ≤ bufferSize)
    (hok : s.container.capacity = s.container.size → ok = false) :
    Kept T (s.registerListener T bufferSize stamps ok) := by
  refine { h with listens := fun l hl => ?_, intact := ?_ }
  · have hl' : Listens T s l := by
      rcases mem_registerListener hl with hl | rfl
      · exact h.listens l hl
      · exact h.listens_new bufferSize stamps hfits
    exact { hl' with }
  · have hintact := h.intact.add hok
    rw [Dumping.registerListener]
    dsimp only
    split
    · next hadd =>
      rw [if_pos hadd] at hintact
      rwa [List.length_append, List.length_singleton]
    · next hadd => rwa [if_neg hadd] at hintact

/-- **One call keeps the invariant.** -/
theorem Kept.step (h : Kept T s) {o : Op E} (ho : Proper T s o) (hblock : KeepsBlock s o) :
    Kept T (s.step T o) := by
  cases o with
  | registerEventKlass K => exact h.registerEventKlass ho
  | registerListener bufferSize stamps ok => exact h.registerListener ho hblock
  | pushEvent e =>
    have hr := Timeline.batches_pushGroups h.holds e
    rw [visible_eq] at hr
    refine h.notify hr (fun e' he' => ?_) fun hmode l hl e' he' => ?_
    · rw [List.mem_singleton.mp he']
      exact ho.1
    · rw [List.mem_singleton.mp he']
      exact ho.2 hmode l hl
  | flush =>
    exact h.notify (Timeline.batches_flushGroups h.holds) (fun e he => by cases he)
      fun _ _ _ e he => by cases he

/-- **One call keeps the rule**, if the event it pushes is known to all listeners. -/
theorem Rule.step (hrule : Rule T s) (h : Kept T s) {o : Op E} (ho : Proper T s o)
    (hknown : KnownToAll T s o) : Rule T (s.step T o) := by
  cases o with
  | registerEventKlass K => exact hrule
  | registerListener bufferSize stamps ok =>
    intro l hl
    rcases mem_registerListener hl with hl | rfl
    · exact hrule l hl
    · exact h.rule_new bufferSize stamps
  | pushEvent e =>
    have hr := Timeline.batches_pushGroups h.holds e
    rw [visible_eq] at hr
    refine h.rule_notify hr fun l hl => ?_
    rw [List.map_append, ← List.append_assoc]
    refine justified_append_singleton_iff.mpr ⟨hrule l hl, ?_⟩
    rcases hknown l hl with hwellKnown | hlt
    · exact .inl hwellKnown
    · exact ((h.listens l hl).known _ hlt ho.1).append _
  | flush =>
    refine h.rule_notify (Timeline.batches_flushGroups h.holds) fun l hl => ?_
    rw [List.append_nil]
    exact hrule l hl

/-! ### Runs -/

/-- The file and the buffer of a listener spell what it has heard, and so does the file alone
once the listener has been stopped. -/
theorem Listens.spells {l : DumpListener} (h : Listens T s l) : ∃ d, l.dump = some d ∧
    d.file ++ d.buffer.contents = l.heard.flatMap (Instance.encode T.host.order) ∧
    d.stop.file = l.heard.flatMap (Instance.encode T.host.order) := by
  obtain ⟨d, hd, hopened, htook⟩ := h.took
  have hstream := htook.stream
  rw [hopened, if_pos rfl] at hstream
  exact ⟨d, hd, hstream, htook.stop.file d.opened_stop⟩

/-- **When files describe klasses before their instances.** In a run of registrations of klasses
and of listeners, pushes and flushes, if every event that is pushed is of a klass that was
registered before each of the listeners was created, and the container of the listeners is not
reallocated, then at any time the file of a listener, together with what is in its buffer, spells
events that follow the rule. This is what is in the file once the listener has been stopped. -/
theorem files_describe_first (T : Tracing E) (bufferCapacity : ℕ) (serializeEvents : Bool)
    (os : List (Op E))
    (hproper : StepsMeet (step T) (Proper T) (start bufferCapacity serializeEvents) os)
    (hknown : StepsMeet (step T) (KnownToAll T) (start bufferCapacity serializeEvents) os)
    (hblock : StepsMeet (step T) KeepsBlock (start bufferCapacity serializeEvents) os) :
    Throughout (step T) (fun s => s.crashed = false ∧ ∀ l ∈ s.listeners, ∃ d, l.dump = some d ∧
        d.file ++ d.buffer.contents = l.heard.flatMap (Instance.encode T.host.order) ∧
        d.stop.file = l.heard.flatMap (Instance.encode T.host.order) ∧
        DescribedFirst l.heard) (start bufferCapacity serializeEvents) os := by
  have hkept : Throughout (step T) (fun s => Kept T s ∧ Rule T s)
      (start bufferCapacity serializeEvents) os := by
    refine throughout_of_step
      (fun s o h ho => ⟨h.1.step ho.1 ho.2.2, h.2.step h.1 ho.1 ho.2.1⟩)
      ⟨kept_start bufferCapacity serializeEvents, fun l hl => ?_⟩
      (hproper.and (hknown.and hblock))
    cases hl
  refine hkept.mono fun s h => ⟨h.1.running, fun l hl => ?_⟩
  obtain ⟨d, hd, hspells, hstop⟩ := (h.1.listens l hl).spells
  exact ⟨d, hd, hspells, hstop, (h.2 l hl).of_append⟩

/-! ### A klass that comes too late -/

theorem typeName_eq_of_klassInfoEvent_eq {s s' : Stamp} {i i' : ℕ} {K K' : Klass}
    (h : klassInfoEvent s i K = klassInfoEvent s' i' K') : K.typeName = K'.typeName := by
  injection h with _ hval
  have hrest := (Prod.mk.inj (Prod.mk.inj hval).2).2
  exact Option.some.inj (Prod.mk.inj hrest).1

theorem typeName_mem_of_mem_descriptions {j n : ℕ} {Ks : List Klass} {s : Stamp} {i : ℕ} {K : Klass}
    (h : klassInfoEvent s i K ∈ descriptions stamps j n Ks) :
    K.typeName ∈ Ks.map Klass.typeName := by
  obtain ⟨K', hmem, _, _, heq | ⟨info, -, heq⟩⟩ := eq_of_mem_descriptions h
  · rw [typeName_eq_of_klassInfoEvent_eq heq]
    exact List.mem_map_of_mem hmem
  · exact absurd (congrArg Instance.klassId heq) (show (2 : UInt32) ≠ 3 by decide)

/-- The klass named by a description in the metadata is one of the registry. -/
theorem typeName_mem_of_mem_metadata {H : Host} {Ks : List Klass} {s : Stamp} {i : ℕ} {K : Klass}
    (h : klassInfoEvent s i K ∈ metadataEvents H stamps Ks) :
    K.typeName ∈ Ks.map Klass.typeName := by
  rcases List.mem_append.mp h with h | h
  · rcases List.mem_cons.mp h with heq | h
    · exact absurd (congrArg Instance.klassId heq) (show (2 : UInt32) ≠ 0 by decide)
    · exact typeName_mem_of_mem_descriptions h
  · exact absurd (congrArg Instance.klassId (List.mem_singleton.mp h))
      (show (2 : UInt32) ≠ 8 by decide)

/-- A klass without fields of its own. -/
def lateKlass : Klass := declareEventKlass (cstr "LateEvent") htEventKlass [] 24

theorem baseFirst_lateKlass : lateKlass.fields.BaseFirst :=
  ⟨trivial, scalars_scalarFields []⟩

/-- Its events. -/
def lateTracing : Tracing HTEvent where
  getSize e := lateKlass.fields.getSize (e, ())
  serialize e block := lateKlass.fields.serialize .little (e, ()) block
  typeSize _ := lateKlass.size
  objectBytes e := e.objectBytes .little
  encode e := lateKlass.fields.encode .little (e, ())
  length_encode e := Fields.length_encode .little lateKlass.fields (e, ())
  length_objectBytes e := (htEventRep .little).length_objectBytes e
  serialize_eq e _ hroom := Fields.serialize_eq .little baseFirst_lateKlass (e, ()) hroom
  eventAt bytes := some (HTEvent.read .little bytes)
  eventAt_objectBytes e rest := congrArg some (e.read_objectBytes .little rest)
  typeSize_pos _ := Nat.succ_pos 23
  host := sampleHost
  toInstance e := ⟨lateKlass, (e, ())⟩
  encode_eq _ := rfl
  encode_ne_nil e h := Nat.succ_ne_zero 19
    ((Fields.length_encode .little lateKlass.fields (e, ())).symm.trans (congrArg List.length h))

/-- The klass is registered in time. -/
def inTime : List (Op HTEvent) :=
  [.registerEventKlass lateKlass, .registerListener 64 sampleStamps true, .pushEvent ⟨9, 5, 0⟩,
    .flush]

theorem files_describe_first_sample :
    Throughout (step lateTracing) (fun s => s.crashed = false ∧ ∀ l ∈ s.listeners,
      ∃ d, l.dump = some d ∧
        d.file ++ d.buffer.contents = l.heard.flatMap (Instance.encode lateTracing.host.order) ∧
        d.stop.file = l.heard.flatMap (Instance.encode lateTracing.host.order) ∧
        DescribedFirst l.heard) (start 100 true) inTime :=
  files_describe_first lateTracing 100 true inTime
    ⟨⟨by decide, by decide⟩, fun h => Bool.noConfusion h, ⟨rfl, fun h => Bool.noConfusion h⟩,
      trivial, trivial⟩
    ⟨trivial, trivial, fun l hl => .inr (by
      rw [List.mem_singleton.mp hl]
      exact (by decide : 9 < 10)), trivial, trivial⟩
    ⟨trivial, fun h => absurd h (by decide), trivial, trivial, trivial⟩

/-- The klass is registered after the listener. -/
def tooLate : List (Op HTEvent) :=
  [.registerListener 64 sampleStamps true, .registerEventKlass lateKlass, .pushEvent ⟨9, 5, 0⟩,
    .flush]

/-- **An instance without a description**: once the listener has been stopped, its file spells
the metadata and an event of a klass that is not described there. -/
theorem instance_without_description :
    ∃ l ∈ (runFrom (step lateTracing) (start 100 true) tooLate).listeners,
      (∃ d, l.dump = some d ∧
        d.stop.file = l.heard.flatMap (Instance.encode sampleHost.order)) ∧
      l.heard = metadataEvents sampleHost sampleStamps coreKlasses ++
        [⟨lateKlass, (⟨9, 5, 0⟩, ())⟩] ∧
      ¬ DescribedFirst l.heard := by
  have hkept : Throughout (step lateTracing) (Kept lateTracing) (start 100 true) tooLate :=
    throughout_of_step
      (C := fun s o => Proper lateTracing s o ∧ KeepsBlock s o)
      (fun _ _ h ho => h.step ho.1 ho.2) (kept_start 100 true)
      ⟨⟨fun h => Bool.noConfusion h, fun h => absurd h (by decide)⟩,
        ⟨⟨by decide, by decide⟩, trivial⟩, ⟨⟨rfl, fun h => Bool.noConfusion h⟩, trivial⟩,
        ⟨trivial, trivial⟩, trivial⟩
  have hrule : ¬ DescribedFirst (metadataEvents sampleHost sampleStamps coreKlasses ++
      [⟨lateKlass, (⟨9, 5, 0⟩, ())⟩]) := by
    intro h
    rcases (justified_append_singleton_iff.mp h).2 with hwellKnown | ⟨⟨s, hs⟩, -⟩
    · exact absurd hwellKnown (by decide)
    · have hmem : lateKlass.typeName ∈ coreKlasses.map Klass.typeName :=
        typeName_mem_of_mem_metadata hs
      exact absurd hmem (by decide)
  refine ⟨_, List.mem_singleton_self _, ?_, rfl, hrule⟩
  obtain ⟨d, hd, -, hstop⟩ := (hkept.last.listens _ (List.mem_singleton_self _)).spells
  exact ⟨d, hd, hstop⟩

end Dumping

end HawkTracer.Lib
