import HawkTracer.Lib.ListenerBuffer

/-!
# The file dump listener

A file dump listener writes what it is called with to a file, through a
`HawkTracer.Lib.ListenerBuffer`. The file opens with the metadata of the stream, and is closed
when the listener is stopped. Any number of timelines may share one listener; a mutex makes
each call of it one step.

`HawkTracer.Lib.Recording` is such a collection of timelines with their common listener. A push
or a flush leaves notifications behind, the callbacks for which run at any later time, those of
one timeline in their order (`HawkTracer.Lib.Recording.Op.callback`); so a run of operations is
an arbitrary interleaving of what the threads do. A call that does not return leaves no
listener.

The events of a timeline are at any time in four places: in the buffer of the timeline, in
notifications on their way (`HawkTracer.Lib.Recording.Feeds`), in the buffer of the listener, or
in the file. `HawkTracer.Lib.Recording.Records` says what is where.
`HawkTracer.Lib.Recording.file_spells_heard_events` is what it comes to when the listener is
stopped: the file holds the metadata and then whole events, in the order in which the listener
heard of them, those of each timeline in the order in which they were pushed.
-/

namespace HawkTracer.Lib

/-! ### The listener -/

/-- `HT_FileDumpListener`: its buffer, whether `p_file` is open, and the bytes written to the
file. -/
structure FileDump where
  buffer : ListenerBuffer
  opened : Bool
  file : List UInt8
  deriving DecidableEq

namespace FileDump

variable {E : Type} (R : CastRep E)

/-- `_ht_file_dump_listener_flush`, for one chunk after another. -/
def write (l : FileDump) (r : ListenerBuffer × List (List UInt8)) : FileDump :=
  { l with buffer := r.1, file := l.file ++ r.2.flatten }

/-- `ht_file_dump_listener_callback`. -/
def callback (l : FileDump) (n : Notification) : Option FileDump :=
  if !l.opened then some l else (l.buffer.process R n).map l.write

/-- `ht_file_dump_listener_flush`. -/
def flush (l : FileDump) : FileDump := if !l.opened then l else l.write l.buffer.flush

/-- `ht_file_dump_listener_stop`. -/
def stop (l : FileDump) : FileDump :=
  if !l.opened then l else { l.write l.buffer.flush with opened := false }

/-- `ht_file_dump_listener_create`, when memory can be had and the file can be opened; the
metadata is given by the chunks it comes in. -/
def create (bufferSize : ℕ) (metadata : List (List UInt8)) : Option FileDump :=
  metadata.foldlM (fun l chunk => l.callback R ⟨chunk, true⟩)
    ⟨ListenerBuffer.init bufferSize, true, []⟩

/-- **The listener has taken the given bytes**: they are in the file, followed by what is in the
buffer as long as the listener is not stopped. -/
structure Took (bufferSize : ℕ) (l : FileDump) (bytes : List UInt8) : Prop where
  valid : l.buffer.Valid
  maxSize : l.buffer.maxSize = bufferSize
  stream : l.file ++ (if l.opened then l.buffer.contents else []) = bytes

variable {R} {bufferSize : ℕ} {l : FileDump} {bytes bytes' : List UInt8}

section

variable (h : Took bufferSize l bytes)

include h

theorem Took.write (hl : l.opened = true) {r : ListenerBuffer × List (List UInt8)}
    (hr : ListenerBuffer.PassesOn l.buffer bytes' r) :
    Took bufferSize (l.write r) (bytes ++ bytes') where
  valid := hr.valid
  maxSize := hr.maxSize.trans h.maxSize
  stream := by
    have hstream := h.stream
    simp only [FileDump.write, hl, if_true] at hstream ⊢
    rw [List.append_assoc, hr.stream, ← List.append_assoc, hstream]

omit h in
theorem callback_of_stopped (hl : l.opened = false) (n : Notification) :
    l.callback R n = some l := by
  simp [callback, hl]

/-- A callback with serialized events. -/
theorem Took.callback_serialized (hl : l.opened = true) (events : List UInt8) :
    ∃ l', l.callback R ⟨events, true⟩ = some l' ∧ l'.opened = true ∧
      Took bufferSize l' (bytes ++ events) := by
  obtain ⟨r, hr, hpass⟩ := ListenerBuffer.processSerializedEvents_spec h.valid events
  refine ⟨l.write r, ?_, hl, h.write hl hpass⟩
  simp [callback, ListenerBuffer.process, hl, hr]

/-- **A callback with a group of events**, in either form, takes their serialized forms. -/
theorem Took.callback (hl : l.opened = true) {b : Bool} {es : List E}
    (hfits : ListenerBuffer.Fits R.toEventRep bufferSize b es) :
    ∃ l', l.callback R (R.notification b es) = some l' ∧ l'.opened = true ∧
      Took bufferSize l' (bytes ++ R.reps true es) := by
  rw [← h.maxSize] at hfits
  obtain ⟨r, hr, hpass⟩ := ListenerBuffer.process_spec h.valid hfits
  refine ⟨l.write r, ?_, hl, h.write hl hpass⟩
  simp [FileDump.callback, hl, hr]

/-- **Callbacks with one group after another.** -/
theorem Took.notify (hl : l.opened = true) {b : Bool} {groups : List (List E)}
    (hfits : ∀ g ∈ groups, ListenerBuffer.Fits R.toEventRep bufferSize b g) :
    ∃ l', (groups.map (R.notification b)).foldlM (fun l n => l.callback R n) l = some l' ∧
      l'.opened = true ∧ Took bufferSize l' (bytes ++ R.reps true groups.flatten) := by
  induction groups generalizing l bytes with
  | nil => exact ⟨l, rfl, hl, by simpa using h⟩
  | cons g groups ih =>
    obtain ⟨l', hcall, hl', htook⟩ := h.callback hl (hfits g List.mem_cons_self)
    obtain ⟨l'', hrest, hl'', htook'⟩ := ih htook hl' fun g' hg' =>
      hfits g' (List.mem_cons_of_mem g hg')
    refine ⟨l'', ?_, hl'', ?_⟩
    · rw [List.map_cons, List.foldlM_cons, hcall]
      exact hrest
    · simpa using htook'

theorem Took.flush : Took bufferSize l.flush bytes := by
  rcases hl : l.opened with _ | _
  · simpa [FileDump.flush, hl] using h
  · have hflush := h.write hl h.valid.passesOn_flush
    rw [List.append_nil] at hflush
    simpa [FileDump.flush, hl] using hflush

omit h in
@[simp] theorem opened_flush (l : FileDump) : l.flush.opened = l.opened := by
  rw [FileDump.flush]
  split <;> rfl

omit h in
@[simp] theorem opened_stop (l : FileDump) : l.stop.opened = false := by
  rw [FileDump.stop]
  split
  · next hl => simpa using hl
  · rfl

omit h in
theorem stop_of_stopped (hl : l.opened = false) : l.stop = l := by
  simp [stop, hl]

omit h in
theorem flush_of_stopped (hl : l.opened = false) : l.flush = l := by
  simp [flush, hl]

theorem Took.stop : Took bufferSize l.stop bytes := by
  rcases hl : l.opened with _ | _
  · simpa [FileDump.stop, hl] using h
  · have hflush := h.write hl h.valid.passesOn_flush
    rw [List.append_nil] at hflush
    have hstream := hflush.stream
    refine ⟨?_, ?_, ?_⟩
    · simpa [FileDump.stop, hl] using hflush.valid
    · simpa [FileDump.stop, hl] using hflush.maxSize
    · simpa [FileDump.stop, FileDump.write, hl, ListenerBuffer.flush, ListenerBuffer.contents]
        using hstream

/-- A stopped listener has everything in its file. -/
theorem Took.file (hl : l.opened = false) : l.file = bytes := by
  simpa [hl] using h.stream

theorem Took.metadata (hl : l.opened = true) (metadata : List (List UInt8)) :
    ∃ l', metadata.foldlM (fun l chunk => l.callback R ⟨chunk, true⟩) l = some l' ∧
      l'.opened = true ∧ Took bufferSize l' (bytes ++ metadata.flatten) := by
  induction metadata generalizing l bytes with
  | nil => exact ⟨l, rfl, hl, by simpa using h⟩
  | cons chunk chunks ih =>
    obtain ⟨l', hcall, hl', htook⟩ := h.callback_serialized (R := R) hl chunk
    obtain ⟨l'', hrest, hl'', htook'⟩ := ih htook hl'
    refine ⟨l'', ?_, hl'', ?_⟩
    · rw [List.foldlM_cons, hcall]
      exact hrest
    · simpa using htook'

end

/-- **A new listener has taken the metadata.** -/
theorem took_create (bufferSize : ℕ) (metadata : List (List UInt8)) :
    ∃ l, create R bufferSize metadata = some l ∧ l.opened = true ∧
      Took bufferSize l metadata.flatten := by
  have hinit : Took bufferSize ⟨ListenerBuffer.init bufferSize, true, []⟩ [] :=
    ⟨ListenerBuffer.valid_init bufferSize, rfl, rfl⟩
  exact hinit.metadata rfl metadata

end FileDump

/-! ### Timelines with a common listener -/

/-- Timelines, the notifications that each has sent and that the listener has not been called
with yet, and the listener. `heard` keeps a record of the notifications a listener that was not
stopped has been called with, and of where they came from. -/
structure Recording (ι : Type) where
  timelines : ι → Timeline
  pending : ι → List Notification
  listener : Option FileDump
  heard : List (ι × Notification)

namespace Recording

variable {ι E : Type} [DecidableEq ι] (R : CastRep E)

/-- What the threads do: push an event to a timeline, flush a timeline, run the callback for the
oldest notification of a timeline, flush the listener, stop the listener. -/
inductive Op (ι E : Type) where
  | pushEvent (i : ι) (e : E)
  | flushTimeline (i : ι)
  | callback (i : ι)
  | flush
  | stop

/-- The events an operation pushes to a timeline. -/
def Op.pushed (i : ι) : Op ι E → List E
  | .pushEvent j e => if j = i then [e] else []
  | _ => []

/-- The events a run pushes to a timeline. -/
def pushed (i : ι) (os : List (Op ι E)) : List E := os.flatMap (Op.pushed i)

/-- New timelines and a new listener for them. -/
def create (capacity : ι → ℕ) (mode : ι → Bool) (bufferSize : ℕ)
    (metadata : List (List UInt8)) : Recording ι :=
  ⟨fun i => Timeline.create (capacity i) (mode i), fun _ => [],
    FileDump.create R bufferSize metadata, []⟩

/-- A call on a timeline. -/
def send (s : Recording ι) (i : ι) (r : Timeline × List Notification) : Recording ι :=
  { s with
    timelines := Function.update s.timelines i r.1
    pending := Function.update s.pending i (s.pending i ++ r.2) }

/-- The notifications heard when a callback runs. -/
def hears (s : Recording ι) (i : ι) (n : Notification) : List (ι × Notification) :=
  match s.listener with
  | some l => if l.opened then [(i, n)] else []
  | none => []

/-- One step of a thread. -/
def step (s : Recording ι) : Op ι E → Recording ι
  | .pushEvent i e => s.send i ((s.timelines i).pushEvent R.toEventRep e)
  | .flushTimeline i => s.send i (s.timelines i).flush
  | .callback i =>
    match s.pending i with
    | [] => s
    | n :: ns =>
      { s with
        pending := Function.update s.pending i ns
        listener := s.listener.bind fun l => l.callback R n
        heard := s.heard ++ s.hears i n }
  | .flush => { s with listener := s.listener.map FileDump.flush }
  | .stop => { s with listener := s.listener.map FileDump.stop }

/-! ### Where the events are -/

/-- **The events of a timeline that the listener has not been called with**: they are in groups
in the notifications on their way, followed by those the timeline holds. -/
structure Feeds (b : Bool) (t : Timeline) (pending : List Notification) (due : List E)
    (flight : List (List E)) (held : List E) : Prop where
  holds : t.Holds R.toEventRep held
  mode : t.serializeEvents = b
  sent : pending = flight.map (R.notification b)
  nonempty : ∀ g ∈ flight, R.reps b g ≠ []
  split : flight.flatten ++ held = due

/-- The events of one timeline among groups of events of all. -/
def eventsOf (i : ι) (blocks : List (ι × List E)) : List E :=
  (blocks.filter fun b => b.1 = i).flatMap Prod.snd

/-- **What is where**: `blocks` are the groups of events the listener has taken, `lost` the
events of notifications that came after it was stopped, `due` those it has not been called with
yet, and `pushes` all that were pushed. -/
structure Records (mode : ι → Bool) (bufferSize : ℕ) (metadata : List UInt8)
    (pushes : ι → List E) (blocks : List (ι × List E)) (lost due : ι → List E) (l : FileDump)
    (s : Recording ι) : Prop where
  listener : s.listener = some l
  took : FileDump.Took bufferSize l (metadata ++ R.reps true (blocks.flatMap Prod.snd))
  heard : s.heard = blocks.map fun b => (b.1, R.notification (mode b.1) b.2)
  feeds : ∀ i, ∃ flight held, Feeds R (mode i) (s.timelines i) (s.pending i) (due i) flight held
  split : ∀ i, eventsOf i blocks ++ lost i ++ due i = R.visible (mode i) (pushes i)
  running : l.opened = true → ∀ i, lost i = []
  fits : ∀ i, mode i = false → ∀ e ∈ pushes i, 0 < bufferSize ∧ R.getSize e ≤ bufferSize

variable {R} {b : Bool} {t : Timeline} {pending : List Notification} {due : List E}
  {flight : List (List E)} {held : List E}

theorem feeds_create (capacity : ℕ) (b : Bool) :
    Feeds R b (Timeline.create capacity b) [] [] [] [] where
  holds := Timeline.holds_create capacity b
  mode := rfl
  sent := rfl
  nonempty := by simp
  split := rfl

/-- A call that batches events. -/
theorem Feeds.send (h : Feeds R b t pending due flight held) {new held' : List E}
    {groups : List (List E)} {r : Timeline × List Notification}
    (hr : Timeline.Batches R.toEventRep t held new r groups held') :
    Feeds R b r.1 (pending ++ r.2) (due ++ new) (flight ++ groups) held' where
  holds := hr.holds
  mode := hr.serializeEvents.trans h.mode
  sent := by rw [h.sent, hr.sent, h.mode, List.map_append]
  nonempty := by
    intro g hg
    rcases List.mem_append.mp hg with hg | hg
    · exact h.nonempty g hg
    · simpa [h.mode] using hr.nonempty g hg
  split := by
    rw [List.flatten_append, List.append_assoc, hr.split, ← List.append_assoc, h.split]

/-- The oldest notification is that of the first group. -/
theorem Feeds.callback {n : Notification} {ns : List Notification}
    (h : Feeds R b t (n :: ns) due flight held) : ∃ g flight' due', n = R.notification b g ∧
      R.reps b g ≠ [] ∧ due = g ++ due' ∧ Feeds R b t ns due' flight' held := by
  rcases flight with _ | ⟨g, flight⟩
  · exact absurd h.sent (by simp)
  · obtain ⟨hn, hns⟩ := List.cons.inj h.sent
    refine ⟨g, flight, flight.flatten ++ held, hn, h.nonempty g List.mem_cons_self, ?_, h.holds,
      h.mode, hns, fun g' hg' => h.nonempty g' (List.mem_cons_of_mem g hg'), rfl⟩
    rw [← h.split, List.flatten_cons, List.append_assoc]

theorem eventsOf_append (i : ι) (blocks blocks' : List (ι × List E)) :
    eventsOf i (blocks ++ blocks') = eventsOf i blocks ++ eventsOf i blocks' := by
  rw [eventsOf, List.filter_append, List.flatMap_append]
  rfl

theorem eventsOf_singleton_self (i : ι) (g : List E) : eventsOf i [(i, g)] = g := by
  simp [eventsOf]

theorem eventsOf_singleton_ne {i j : ι} (h : j ≠ i) (g : List E) : eventsOf i [(j, g)] = [] := by
  simp [eventsOf, h]

variable {mode : ι → Bool} {bufferSize : ℕ} {metadata : List UInt8} {pushes : ι → List E}
  {blocks : List (ι × List E)} {lost dues : ι → List E} {l : FileDump} {s : Recording ι}

theorem records_create (capacity : ι → ℕ) (mode : ι → Bool) (bufferSize : ℕ)
    (metadata : List (List UInt8)) : ∃ l, l.opened = true ∧
      Records R mode bufferSize metadata.flatten (fun _ => []) [] (fun _ => []) (fun _ => []) l
        (create R capacity mode bufferSize metadata) := by
  obtain ⟨l, hcreate, hl, htook⟩ := FileDump.took_create (R := R) bufferSize metadata
  refine ⟨l, hl, hcreate, ?_, rfl, ?_, fun i => rfl, fun _ _ => rfl, by simp⟩
  · simpa using htook
  · exact fun i => ⟨[], [], feeds_create (capacity i) (mode i)⟩

section

variable (h : Records R mode bufferSize metadata pushes blocks lost dues l s)

include h

/-- **A call on a timeline.** -/
theorem Records.send (i : ι) (es : List E)
    (hfits : mode i = false → ∀ e ∈ es, 0 < bufferSize ∧ R.getSize e ≤ bufferSize)
    {r : Timeline × List Notification}
    (hr : ∀ held, (s.timelines i).Holds R.toEventRep held → ∃ groups held',
      Timeline.Batches R.toEventRep (s.timelines i) held
      (R.visible (s.timelines i).serializeEvents es) r groups held') :
    Records R mode bufferSize metadata (Function.update pushes i (pushes i ++ es)) blocks lost
      (Function.update dues i (dues i ++ R.visible (mode i) es)) l (s.send i r) := by
  refine ⟨h.listener, h.took, h.heard, ?_, ?_, h.running, ?_⟩
  · intro j
    obtain rfl | hj := eq_or_ne j i
    · obtain ⟨flight, held, hfeeds⟩ := h.feeds j
      obtain ⟨groups, held', hbatch⟩ := hr held hfeeds.holds
      rw [hfeeds.mode] at hbatch
      refine ⟨flight ++ groups, held', ?_⟩
      simpa [Recording.send] using hfeeds.send hbatch
    · simpa [Recording.send, hj] using h.feeds j
  · intro j
    obtain rfl | hj := eq_or_ne j i
    · simp only [Function.update_self]
      rw [← List.append_assoc, h.split, EventRep.visible_append]
    · simpa [hj] using h.split j
  · intro j hmode e he
    obtain rfl | hj := eq_or_ne j i
    · rw [Function.update_self] at he
      rcases List.mem_append.mp he with he | he
      · exact h.fits j hmode e he
      · exact hfits hmode e he
    · rw [Function.update_of_ne hj] at he
      exact h.fits j hmode e he

/-- A group on its way to the listener fits its buffer. -/
theorem Records.fits_due {i : ι} {g due' : List E} (hdue : dues i = g ++ due')
    (hg : R.reps (mode i) g ≠ []) : ListenerBuffer.Fits R.toEventRep bufferSize (mode i) g := by
  intro hmode
  have hmem : ∀ e ∈ g, e ∈ pushes i := by
    intro e he
    have hvisible : e ∈ R.visible (mode i) (pushes i) := by
      rw [← h.split, hdue]
      exact List.mem_append_right _ (List.mem_append_left _ he)
    exact List.mem_of_mem_filter hvisible
  -- the buffer is not empty because some event of the group fits it
  obtain ⟨e, he⟩ : ∃ e, e ∈ g := by
    refine List.exists_mem_of_ne_nil g ?_
    rintro rfl
    exact hg rfl
  exact ⟨(h.fits i hmode e (hmem e he)).1, fun e' he' => (h.fits i hmode e' (hmem e' he')).2⟩

/-- **A callback.** A listener that is not stopped takes the events; a stopped one does
nothing. -/
theorem Records.callback (i : ι) : ∃ blocks' lost' dues' l', (l.opened = true → l'.opened = true) ∧
      Records R mode bufferSize metadata pushes blocks' lost' dues' l'
        (s.step R (.callback i)) := by
  rcases hp : s.pending i with _ | ⟨n, ns⟩
  · exact ⟨blocks, lost, dues, l, id, by simpa [step, hp] using h⟩
  · obtain ⟨flight, held, hfeeds⟩ := h.feeds i
    rw [hp] at hfeeds
    obtain ⟨g, flight', due', rfl, hg, hdue, hrest⟩ := hfeeds.callback
    -- the timelines other than `i` are not concerned, whatever the listener does
    have hfeeds' : ∀ j, ∃ flight held, Feeds R (mode j) (s.timelines j)
        (Function.update s.pending i ns j) (Function.update dues i due' j) flight held := by
      intro j
      obtain rfl | hj := eq_or_ne j i
      · exact ⟨flight', held, by simpa using hrest⟩
      · simpa [hj] using h.feeds j
    rcases hl : l.opened with _ | _
    -- stopped: the callback returns at once and the events are lost
    · refine ⟨blocks, Function.update lost i (lost i ++ g), Function.update dues i due', l, by simp,
        ?_⟩
      simp only [step, hp]
      refine ⟨?_, h.took, ?_, hfeeds', ?_, fun hopen => absurd hopen (by simp [hl]), h.fits⟩
      · simp [h.listener, FileDump.callback_of_stopped hl]
      · simp [hears, h.listener, hl, h.heard]
      · intro j
        obtain rfl | hj := eq_or_ne j i
        · rw [← h.split j, hdue]
          simp
        · simpa [hj] using h.split j
    -- running: the group is one more block in the file
    · obtain ⟨l', hcall, hl', htook⟩ := h.took.callback hl (h.fits_due hdue hg)
      refine ⟨blocks ++ [(i, g)], lost, Function.update dues i due', l', fun _ => hl', ?_⟩
      simp only [step, hp]
      refine ⟨?_, ?_, ?_, hfeeds', ?_, fun _ => h.running hl, h.fits⟩
      · simp [h.listener, hcall]
      · simpa using htook
      · simp [hears, h.listener, hl, h.heard]
      · intro j
        rw [eventsOf_append]
        obtain rfl | hj := eq_or_ne j i
        · rw [← h.split j, hdue, h.running hl j, eventsOf_singleton_self]
          simp
        · simpa [hj, eventsOf_singleton_ne (Ne.symm hj)] using h.split j

/-- **One step.** -/
theorem Records.step (o : Op ι E) (hfits : ∀ i, mode i = false → ∀ e ∈ o.pushed i,
      0 < bufferSize ∧ R.getSize e ≤ bufferSize) :
    ∃ blocks' lost' dues' l', (o ≠ .stop → l.opened = true → l'.opened = true) ∧
      Records R mode bufferSize metadata (fun i => pushes i ++ o.pushed i) blocks' lost' dues' l'
        (s.step R o) := by
  rcases o with ⟨i, e⟩ | i | i | _ | _
  · have hsend := h.send i [e] (by simpa [Op.pushed] using hfits i)
      (fun held hheld => Timeline.batches_pushEvent hheld e)
    have hpushes : Function.update pushes i (pushes i ++ [e]) =
        fun j => pushes j ++ (Op.pushEvent i e).pushed j := by
      funext j
      obtain rfl | hj := eq_or_ne j i
      · simp [Op.pushed]
      · simp [Op.pushed, hj, Ne.symm hj]
    rw [hpushes] at hsend
    exact ⟨_, _, _, l, fun _ hl => hl, hsend⟩
  · have hsend := h.send i [] (r := (s.timelines i).flush) (by simp) (fun held hheld => by
      obtain ⟨groups, hbatch⟩ := Timeline.batches_flush hheld
      exact ⟨groups, [], hbatch⟩)
    simp only [EventRep.visible_nil, List.append_nil, Function.update_eq_self] at hsend
    refine ⟨blocks, lost, dues, l, fun _ hl => hl, ?_⟩
    simp only [Op.pushed, List.append_nil]
    exact hsend
  · obtain ⟨blocks', lost', dues', l', hl', hcall⟩ := h.callback i
    refine ⟨blocks', lost', dues', l', fun _ => hl', ?_⟩
    simpa [Op.pushed] using hcall
  · refine ⟨blocks, lost, dues, l.flush, fun _ hl => by simpa using hl, ?_⟩
    simp only [Op.pushed, List.append_nil]
    refine ⟨?_, h.took.flush, h.heard, h.feeds, h.split, ?_, h.fits⟩
    · simp [Recording.step, h.listener]
    · simpa using h.running
  · refine ⟨blocks, lost, dues, l.stop, fun hne => absurd rfl hne, ?_⟩
    simp only [Op.pushed, List.append_nil]
    refine ⟨?_, h.took.stop, h.heard, h.feeds, h.split, ?_, h.fits⟩
    · simp [Recording.step, h.listener]
    · simp

/-- **A run.** -/
theorem Records.run (os : List (Op ι E)) (hfits : ∀ i e, .pushEvent i e ∈ os → mode i = false →
      0 < bufferSize ∧ R.getSize e ≤ bufferSize) :
    ∃ blocks' lost' dues' l', (.stop ∉ os → l.opened = true → l'.opened = true) ∧
      Records R mode bufferSize metadata (fun i => pushes i ++ pushed i os) blocks' lost' dues' l'
        (runFrom (Recording.step R) s os) := by
  induction os generalizing pushes blocks lost dues l s with
  | nil => exact ⟨blocks, lost, dues, l, fun _ hl => hl, by simpa [pushed] using h⟩
  | cons o os ih =>
    obtain ⟨blocks₁, lost₁, dues₁, l₁, hl₁, hstep⟩ := h.step o (by
      intro i hmode e he
      rcases o with ⟨j, e'⟩ | _ | _ | _ | _
      · obtain rfl | hj := eq_or_ne j i
        · obtain rfl : e = e' := by simpa [Op.pushed] using he
          exact hfits j e List.mem_cons_self hmode
        · simp [Op.pushed, hj] at he
      all_goals simp [Op.pushed] at he)
    obtain ⟨blocks₂, lost₂, dues₂, l₂, hl₂, hrun⟩ :=
      ih hstep fun i e he => hfits i e (List.mem_cons_of_mem o he)
    refine ⟨blocks₂, lost₂, dues₂, l₂, ?_, ?_⟩
    · intro hstop hl
      rw [List.mem_cons, not_or] at hstop
      obtain ⟨ho, hos⟩ := hstop
      exact hl₂ hos (hl₁ (Ne.symm ho) hl)
    · simpa [pushed] using hrun

end

/-- Nothing is left on its way from a timeline that has been flushed when the callbacks have
run. -/
theorem Feeds.due_eq_nil (h : Feeds R b t [] due flight held) (hu : t.bufferUsage = 0) :
    due = [] := by
  have hflight : flight = [] := by simpa using h.sent
  rw [← h.split, hflight, h.holds.eq_nil hu]
  rfl

/-- **A stopped listener stays as it is.** -/
theorem listener_step_of_stopped (hs : s.listener = some l) (hl : l.opened = false) (o : Op ι E) :
    (s.step R o).listener = some l := by
  rcases o with ⟨i, e⟩ | i | i | _ | _
  · exact hs
  · exact hs
  · rcases hp : s.pending i with _ | ⟨n, ns⟩
    · simpa [step, hp] using hs
    · simp [step, hp, hs, FileDump.callback_of_stopped hl]
  · simp [step, hs, FileDump.flush_of_stopped hl]
  · simp [step, hs, FileDump.stop_of_stopped hl]

/-- **What ends up in the file.** Whatever the timelines – of any capacity, serializing or not –
and the buffer of the listener, if timelines that do not serialize are used with a buffer that
takes every event pushed to them: after any run that is ended by stopping the listener, the file
holds the metadata followed by the serialized forms of whole events, which are the groups of
events the listener has heard of, in this order. The events of each timeline among them are the
first ones pushed to it, each once, and they are all of them if the listener is stopped when no
event is in the buffer of the timeline or on its way. Nothing that comes after the stop changes
the listener or its file, and a second stop changes nothing at all. -/
theorem file_spells_heard_events (R : CastRep E) (H : Host) (stamps : ℕ → Stamp)
    (registry : List Klass) (capacity : ι → ℕ) (mode : ι → Bool) (bufferSize : ℕ)
    (os : List (Op ι E))
    (hfits : ∀ i e, .pushEvent i e ∈ os → mode i = false →
      0 < bufferSize ∧ R.getSize e ≤ bufferSize) :
    let metadata := (pushMetadata H stamps true registry).1
    let s := runFrom (step R) (create R capacity mode bufferSize metadata) os
    let s' := s.step R .stop
    ∃ (l : FileDump) (blocks : List (ι × List E)),
      s'.listener = some l ∧
      l.file = metadata.flatten ++ R.reps true (blocks.flatMap Prod.snd) ∧
      s'.heard = (blocks.map fun b => (b.1, R.notification (mode b.1) b.2)) ∧
      (∀ i, eventsOf i blocks <+: R.visible (mode i) (pushed i os)) ∧
      (.stop ∉ os → ∀ i, s.pending i = [] → (s.timelines i).bufferUsage = 0 →
        eventsOf i blocks = R.visible (mode i) (pushed i os)) ∧
      (∀ os', (runFrom (step R) s' os').listener = some l) ∧
      s'.step R .stop = s' := by
  intro metadata s s'
  obtain ⟨l₀, hl₀, hcreate⟩ := records_create (R := R) capacity mode bufferSize metadata
  obtain ⟨blocks, lost, dues, l, hl, hrun⟩ := hcreate.run os hfits
  simp only [List.nil_append] at hrun
  have hlistener : s'.listener = some l.stop := by
    change s.listener.map FileDump.stop = _
    rw [hrun.listener, Option.map_some]
  refine ⟨l.stop, blocks, hlistener, ?_, hrun.heard, ?_, ?_, ?_, ?_⟩
  · exact hrun.took.stop.file (FileDump.opened_stop l)
  · intro i
    rw [← hrun.split i, List.append_assoc]
    exact List.prefix_append _ _
  · intro hstop i hpending husage
    obtain ⟨flight, held, hfeeds⟩ := hrun.feeds i
    rw [hpending] at hfeeds
    rw [← hrun.split i, hrun.running (hl hstop hl₀) i, hfeeds.due_eq_nil husage, List.append_nil,
      List.append_nil]
  · intro os'
    have hstopped : Throughout (step R) (fun s => s.listener = some l.stop) s' os' :=
      throughout_of_step (C := fun _ _ => True)
        (fun _ o hs _ => listener_step_of_stopped hs (FileDump.opened_stop l) o) hlistener
        (stepsMeet_of_forall fun _ _ => trivial)
    exact hstopped.last
  · change { s' with listener := s'.listener.map FileDump.stop } = s'
    rw [hlistener, Option.map_some, FileDump.stop_of_stopped (FileDump.opened_stop l), ← hlistener]

/-- A serializing timeline and one that does not serialize, which take turns. -/
def sampleRun : List (Op Bool HTEvent) :=
  [.pushEvent true ⟨1, 10, 0⟩, .pushEvent false ⟨1, 11, 1⟩, .pushEvent false ⟨1, 12, 2⟩,
    .callback false, .pushEvent true ⟨1, 13, 3⟩, .flushTimeline true, .callback true, .flush,
    .flushTimeline false, .callback false]

theorem file_spells_heard_sample :
    let R := htEventRep .little
    (∀ i e, .pushEvent i e ∈ sampleRun → (fun b : Bool => b) i = false →
      0 < 30 ∧ R.getSize e ≤ 30) ∧
    let metadata := (pushMetadata sampleHost sampleStamps true coreKlasses).1
    let s := runFrom (step R) (create R (fun _ => 40) (fun b => b) 30 metadata) sampleRun
    let s' := s.step R .stop
    ∃ (l : FileDump) (blocks : List (Bool × List HTEvent)),
      s'.listener = some l ∧
      l.file = metadata.flatten ++ R.reps true (blocks.flatMap Prod.snd) ∧
      s'.heard = (blocks.map fun b => (b.1, R.notification b.1 b.2)) ∧
      (∀ i, eventsOf i blocks <+: R.visible i (pushed i sampleRun)) ∧
      (.stop ∉ sampleRun → ∀ i, s.pending i = [] → (s.timelines i).bufferUsage = 0 →
        eventsOf i blocks = R.visible i (pushed i sampleRun)) ∧
      (∀ os', (runFrom (step R) s' os').listener = some l) ∧
      s'.step R .stop = s' := by
  intro R
  have hfits : ∀ i e, .pushEvent i e ∈ sampleRun → (fun b : Bool => b) i = false →
      0 < 30 ∧ R.getSize e ≤ 30 := by
    intro i e _ _
    exact ⟨by decide, Nat.le_of_ble_eq_true rfl⟩
  exact ⟨hfits, file_spells_heard_events R sampleHost sampleStamps coreKlasses (fun _ => 40)
    (fun b => b) 30 sampleRun hfits⟩

end Recording

end HawkTracer.Lib
