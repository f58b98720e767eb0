import HawkTracer.RoundTrip.Decoding

/-!
# `NULL` strings in a stream

The writer gives a `NULL` string no bytes at all, while the reader scans for a
terminator. Where the string should be it takes whatever comes next for the string, up
to the first zero byte, and from there on reads at the wrong place.

The reader *stays in step* with the writer if after each event exactly the output of the
remaining events is left in the stream (`HawkTracer.RoundTrip.InStep`). By reading
backwards, this can be told exactly (`HawkTracer.RoundTrip.inStep_iff_staysInStep`): it does so if
and only if every event is *spelled* like an event of its klass without `NULL` strings
(`HawkTracer.RoundTrip.Spelled`). Then events without `NULL` strings are delivered as
they are; for an event with one, what is delivered is the event it is spelled like.
-/

namespace HawkTracer.RoundTrip

open HawkTracer.Lib HawkTracer.Parser Reader

/-- **The reader stays in step with the writer**: after the metadata and `i` events, what
is left of the stream is the output of the other events. -/
def InStep (P : Platform) (host : ByteOrder) (flat : Bool) (depth : ℕ) (H : Host)
    (stamps : ℕ → Stamp) (G : Registry) (events : List G.Traced) : Prop :=
  ∀ i ≤ events.length, ∃ r, (Reader.new (streamOf H stamps G events)).rounds P (streamInput host)
      flat depth ((metadataEvents H stamps G.klasses).length + i) = some r ∧
    r.stream = (events.drop i).flatMap fun e => e.output H.order

/-- **An event is spelled like one without `NULL` strings**: there is an object of its
klass, with the same header, that has the same serialized form and no `NULL` strings. -/
def Spelled (o : ByteOrder) (e : Instance) : Prop :=
  ∃ v, e.klass.fields.header v = e.klass.fields.header e.val ∧ e.klass.fields.NullFree v ∧
    e.klass.fields.encode o v = e.encode o

variable {P : Platform} {flat : Bool} {depth : ℕ} {R : KlassRegister} {G : Registry}
  {host o : ByteOrder}

/-! ### One event -/

/-- An event that is spelled without `NULL` strings is consumed. -/
theorem step_of_spelled (P : Platform) (flat : Bool) (hR : Describes G G.klasses.length R)
    {e : G.Traced} (hspell : Spelled o e.toInstance) (hdepth : e.klass.fields.depth ≤ depth + 1) :
    ∃ d, (∀ host rest ds, step P (streamInput host) flat (depth + 1)
        ⟨e.encode o ++ rest, R, endiannessCode o, ds⟩ =
          (⟨rest, R, endiannessCode o, ds ++ [d]⟩, none)) ∧
      (flat = false → e.klass.fields.NullFree e.val →
        Shows hasBase G e.klass.fields e.klass.typeName e.val d.event) := by
  by_cases hnull : e.klass.fields.NullFree e.val
  · obtain ⟨d, hd, hshow⟩ := delivers_traced P flat depth hR e hnull hdepth
    exact ⟨d, fun host rest ds => hd host o rest ds, fun hflat _ => hshow hflat⟩
  · obtain ⟨v, hheader, hv, hencode⟩ := hspell
    let e' : G.Traced := ⟨⟨e.klass, v⟩, e.mem, by rw [hheader]; exact e.klassId_eq, e.ordinary⟩
    obtain ⟨d, hd, -⟩ := delivers_traced P flat depth hR e' hv hdepth
    have hencode' : e'.encode o = e.encode o := hencode
    refine ⟨d, fun host rest ds => ?_, fun _ h => absurd h hnull⟩
    rw [← hencode']
    exact hd host o rest ds

/-- A round on a traced event that ends where the event ends tells how the event is
spelled, and leaves the register and the byte order alone. -/
theorem spelled_of_step (hR : Describes G G.klasses.length R) {e : G.Traced} {rest : List UInt8}
    {ds : List Delivery} {r : Reader FileStream}
    (h : step P (streamInput host) flat (depth + 1)
      ⟨e.encode o ++ rest, R, endiannessCode o, ds⟩ = (r, none)) (hrest : r.stream = rest) :
    Spelled o e.toInstance ∧ ∃ d, r = ⟨rest, R, endiannessCode o, ds ++ [d]⟩ := by
  obtain ⟨⟨K, v⟩, hmem, hid, hord⟩ := e
  simp only [List.mem_cons, List.not_mem_nil, or_false, not_or] at hord
  obtain ⟨h0, h2, h3⟩ := hord
  change (K.fields.header v).klassId = G.idOf K.typeName at hid
  have hencode := Registry.encode_eq o hmem v
  change step P _ flat _ ⟨K.fields.encode o v ++ rest, R, endiannessCode o, ds⟩ = _ at h
  rw [hencode, List.append_assoc, step_header hR.keeps, hid] at h
  by_cases hroot : K = htEventKlass
  · subst hroot
    refine ⟨⟨v, rfl, trivial, rfl⟩, ⟨headerEvent P R v, headerEvent P R v⟩, ?_⟩
    have hpayload : htEventKlass.fields.payload o v = [] := rfl
    have hheader : htEventKlass.fields.header v = v := rfl
    have hklass : (headerEvent P R v).klass = some 1 := (showsHeader_headerEvent hR.keeps v).1
    simp only [hpayload, hheader, List.nil_append] at h
    rw [if_pos (idOf_htEventKlass G), callCallbacks_eq
      (KlassRegister.handleRegisterEvents_other R hklass (by decide) (by decide))] at h
    exact (congrArg Prod.fst h).symm
  · obtain ⟨k, hk⟩ := exists_getKlass_of_mem hR hmem
    rw [if_neg (idOf_ne_one hmem hroot), readBody] at h
    simp only [hk, Option.map_some, KlassRegister.id_of_getKlass hk] at h
    split at h
    · cases h
    · next ev b s hread =>
      have hklass : (finishedEvent P R flat (K.fields.header v) ev).klass =
          some (G.idOf K.typeName) := by
        rw [klass_finishedEvent, klass_readEvent hread]
        rfl
      have hfinish : finish P ⟨s, R, endiannessCode o, ds⟩ (G.idOf K.typeName)
          (headerEvent P R (K.fields.header v)) (finishedEvent P R flat (K.fields.header v) ev) =
            (⟨s, R, endiannessCode o, ds ++ [⟨headerEvent P R (K.fields.header v),
              finishedEvent P R flat (K.fields.header v) ev⟩]⟩, none) := by
        rw [finish, if_neg h0]
        exact callCallbacks_eq (KlassRegister.handleRegisterEvents_other R hklass h2 h3)
      -- the reader went on where the event ends, so it took as many bytes as were written for it
      obtain rfl := congrArg Prod.fst (hfinish.symm.trans h)
      obtain rfl : s = rest := hrest
      obtain ⟨v', hheader, hv', hs⟩ := payload_of_readEvent hR hmem hroot (K.fields.header v) hread
      refine ⟨⟨v', hheader, hv', ?_⟩, _, rfl⟩
      change K.fields.encode o v' = K.fields.encode o v
      rw [hencode, Registry.encode_eq o hmem v', hheader, List.append_cancel_right hs]

/-! ### All events -/

/-- Staying in step from a given reader on. -/
def StaysInStep (P : Platform) (host o : ByteOrder) (flat : Bool) (depth : ℕ) {G : Registry}
    (events : List G.Traced) (r : Reader FileStream) : Prop :=
  ∀ i ≤ events.length, ∃ r', r.rounds P (streamInput host) flat depth i = some r' ∧
    r'.stream = (events.drop i).flatMap fun e => e.encode o

variable {events : List G.Traced}

/-- **The reader stays in step exactly if the events are spelled without `NULL`
strings.** -/
theorem staysInStep_iff (hR : Describes G G.klasses.length R)
    (hdepth : ∀ K ∈ G.klasses, K.fields.depth ≤ depth + 1) (ds : List Delivery) :
    StaysInStep P host o flat (depth + 1) events
        ⟨events.flatMap fun e => e.encode o, R, endiannessCode o, ds⟩ ↔
      ∀ e ∈ events, Spelled o e.toInstance := by
  induction events generalizing ds with
  | nil =>
    refine ⟨fun _ e he => absurd he List.not_mem_nil, fun _ i hi => ?_⟩
    obtain rfl : i = 0 := Nat.le_zero.mp hi
    exact ⟨_, rfl, rfl⟩
  | cons e events ih =>
    constructor
    · intro h
      -- the first round is the one on `e`
      obtain ⟨r₁, hr₁, hstream⟩ := h 1 (by simp)
      obtain ⟨r, hstep, ⟨⟩⟩ := exists_step_of_rounds hr₁
      obtain ⟨hspell, d, rfl⟩ := spelled_of_step hR hstep hstream
      have htail := (ih (ds ++ [d])).mp fun i hi => by
        obtain ⟨r', hr', hstream'⟩ := h (i + 1) (by simpa using hi)
        rw [rounds_succ hstep] at hr'
        exact ⟨r', hr', hstream'⟩
      exact fun e' he' => (List.mem_cons.mp he').elim (fun h => h ▸ hspell) (htail e')
    · intro h i hi
      obtain ⟨d, hd, -⟩ := step_of_spelled P flat hR (h e List.mem_cons_self) (hdepth _ e.mem)
      obtain _ | i := i
      · exact ⟨_, rfl, rfl⟩
      · have htail := (ih (ds ++ [d])).mpr (fun e' he' => h e' (List.mem_cons_of_mem _ he')) i
          (by simpa using hi)
        obtain ⟨r', hr', hstream'⟩ := htail
        refine ⟨r', ?_, hstream'⟩
        rw [List.flatMap_cons, rounds_succ (hd host _ ds)]
        exact hr'

/-- Events that are spelled without `NULL` strings are consumed one after another. -/
theorem rounds_of_spelled (P : Platform) (flat : Bool) (hR : Describes G G.klasses.length R)
    (hspell : ∀ e ∈ events, Spelled o e.toInstance)
    (hdepth : ∀ K ∈ G.klasses, K.fields.depth ≤ depth + 1) :
    ∃ ds, (∀ host ds₀, rounds P (streamInput host) flat (depth + 1) events.length
        ⟨events.flatMap fun e => e.encode o, R, endiannessCode o, ds₀⟩ =
          some ⟨[], R, endiannessCode o, ds₀ ++ ds⟩) ∧
      List.Forall₂ (fun e d => flat = false → e.klass.fields.NullFree e.val →
        Shows hasBase G e.klass.fields e.klass.typeName e.val d.event) events ds := by
  induction events with
  | nil => exact ⟨[], fun _ ds₀ => by rw [List.append_nil]; rfl, .nil⟩
  | cons e events ih =>
    obtain ⟨d, hd, hshow⟩ := step_of_spelled P flat hR (hspell e List.mem_cons_self)
      (hdepth _ e.mem)
    obtain ⟨ds, hds, hshows⟩ := ih fun e' he' => hspell e' (List.mem_cons_of_mem _ he')
    refine ⟨d :: ds, fun host ds₀ => ?_, .cons hshow hshows⟩
    rw [List.flatMap_cons, List.length_cons, rounds_succ (hd host _ ds₀), hds,
      List.append_assoc, List.singleton_append]

/-! ### The whole stream -/

/-- The reader after the metadata of a program. -/
theorem rounds_streamOf (P : Platform) (host : ByteOrder) (flat : Bool) (depth : ℕ) (H : Host)
    (stamps : ℕ → Stamp) (events : List G.Traced) :
    ∃ metadata, metadata.length = (metadataEvents H stamps G.klasses).length ∧
      ∀ i, (Reader.new (streamOf H stamps G events)).rounds P (streamInput host) flat (depth + 1)
          ((metadataEvents H stamps G.klasses).length + i) =
        rounds P (streamInput host) flat (depth + 1) i
          ⟨events.flatMap fun e => e.encode H.order, describedRegister P G, endiannessCode H.order,
            metadata⟩ := by
  obtain ⟨metadata, hmeta⟩ := deliversAll_metadata P flat depth H stamps G
  have hlen : metadata.length + 1 = (metadataEvents H stamps G.klasses).length := by
    rw [hmeta.length_eq]
    rfl
  refine ⟨endiannessDelivery P flat H.order :: metadata, hlen, fun i => ?_⟩
  have hrounds : rounds P (streamInput host) flat (depth + 1)
      (metadataEvents H stamps G.klasses).length
      (Reader.new ((metadataEvents H stamps G.klasses).flatMap (Instance.encode H.order) ++
        events.flatMap fun e => e.encode H.order)) = _ :=
    rounds_endianness_cons P flat depth (H := H) hmeta host H.order _
  rw [streamOf_eq, rounds_add, List.flatMap_map, hrounds, Option.bind_some]

theorem inStep_iff_staysInStep {H : Host} {stamps : ℕ → Stamp} {metadata : List Delivery}
    (h : ∀ i, (Reader.new (streamOf H stamps G events)).rounds P (streamInput host) flat depth
      ((metadataEvents H stamps G.klasses).length + i) =
      rounds P (streamInput host) flat depth i
      ⟨events.flatMap fun e => e.encode H.order, R, endiannessCode H.order, metadata⟩) :
    InStep P host flat depth H stamps G events ↔
      StaysInStep P host H.order flat depth events
        ⟨events.flatMap fun e => e.encode H.order, R, endiannessCode H.order, metadata⟩ := by
  have hout : (fun e : G.Traced => e.output H.order) = fun e => e.encode H.order := funext fun e =>
    Instance.output_eq H.order (Registry.baseFirst_of_mem e.mem)
  simp only [InStep, StaysInStep, h, hout]

/-- **`NULL` strings and the position of the reader.** The reader consumes for each
event exactly the bytes that were serialized for it if and only if every event is
spelled like an event of its klass without `NULL` strings. In that case every event is
delivered up to the end of the stream, those without `NULL` strings as they are. -/
theorem null_strings_in_step (P : Platform) (host : ByteOrder) (flat : Bool) (depth : ℕ) (H : Host)
    (stamps : ℕ → Stamp) (G : Registry) (events : List G.Traced)
    (hdepth : ∀ K ∈ G.klasses, K.fields.depth ≤ depth) :
    (InStep P host flat depth H stamps G events ↔
      ∀ e ∈ events, Spelled H.order e.toInstance) ∧
    ((∀ e ∈ events, Spelled H.order e.toInstance) →
      ∃ R metadata ds,
        readEvents host P flat depth (streamOf H stamps G events : FileStream) =
          (⟨[], R, endiannessCode H.order, metadata ++ ds⟩, .error) ∧
        metadata.length = (metadataEvents H stamps G.klasses).length ∧
        List.Forall₂ (fun e d => flat = false → e.klass.fields.NullFree e.val →
          Shows hasBase G e.klass.fields e.klass.typeName e.val d.event) events ds) := by
  obtain ⟨depth, rfl⟩ := exists_depth_succ hdepth
  have hR := describes_describedRegister P G
  obtain ⟨metadata, hlen, hmeta⟩ := rounds_streamOf P host flat depth H stamps events
  refine ⟨(inStep_iff_staysInStep hmeta).trans (staysInStep_iff hR hdepth metadata),
    fun hspell => ?_⟩
  obtain ⟨ds, hds, hshows⟩ := rounds_of_spelled P flat hR hspell hdepth
  refine ⟨describedRegister P G, metadata, ds, ?_, hlen, hshows⟩
  exact readEvents_of_rounds P flat depth hR.keeps (length_le_length_streamOf H stamps events)
    ((hmeta events.length).trans (hds host metadata))

/-- An event of the sample klass whose string is `NULL`. -/
def nullEvent : sampleRegistry.Traced :=
  .ofUser sampleRegistry
    ⟨sampleKlass, ((⟨9, 7, 11⟩, 5#64, 3#32, ()), 0xfff0#16, none, ())⟩
    sampleKlass_mem_user (by decide)

/-- It is shorter than any event of its klass without `NULL` strings. -/
theorem not_spelled_nullEvent (o : ByteOrder) : ¬ Spelled o nullEvent.toInstance := by
  rintro ⟨v, -, hv, hencode⟩
  have hlen := congrArg List.length hencode
  rw [Fields.length_encode, Instance.length_encode] at hlen
  obtain ⟨⟨h, a, b, ⟨⟩⟩, c, s, ⟨⟩⟩ := v
  cases s with
  | none => exact hv.2.2.1
  | some s =>
    have hsize : 20 + (8 + (4 + 0)) + (2 + ((s.bytes.length + 1) + 0)) = 34 := hlen
    omega

/-- **A `NULL` string desynchronises the stream**: the reader does not stay in step with
an event that holds one. -/
theorem null_string_out_of_step :
    ¬ InStep samplePlatform .little false 2 sampleHost sampleStamps sampleRegistry
      [nullEvent, sampleEvent] := by
  have hR := describes_describedRegister samplePlatform sampleRegistry
  obtain ⟨metadata, -, hmeta⟩ :=
    rounds_streamOf samplePlatform .little false 1 sampleHost sampleStamps [nullEvent, sampleEvent]
  rw [inStep_iff_staysInStep hmeta, staysInStep_iff hR (by decide) metadata]
  exact fun h => not_spelled_nullEvent _ (h nullEvent List.mem_cons_self)

theorem null_strings_in_step_sample :
    (∀ K ∈ sampleRegistry.klasses, K.fields.depth ≤ 2) ∧
    (InStep samplePlatform .big true 2 sampleHost sampleStamps sampleRegistry
        [sampleEvent, sampleEvent] ↔
      ∀ e ∈ [sampleEvent, sampleEvent], Spelled .little e.toInstance) :=
  ⟨by decide, (null_strings_in_step samplePlatform .big true 2 sampleHost sampleStamps
    sampleRegistry [sampleEvent, sampleEvent] (by decide)).1⟩

end HawkTracer.RoundTrip
