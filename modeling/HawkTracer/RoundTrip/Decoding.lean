import HawkTracer.RoundTrip.Stream

/-!
# Decoding undoes encoding

The round trip through the stream format, and its independence of byte orders.

`HawkTracer.RoundTrip.decode_encode`: a reader in nested mode, given the stream of a
program, delivers after the metadata exactly the events that were serialized, and stops
at the end of the stream. What a delivered event shows of its object is
`HawkTracer.RoundTrip.Shows`, with one restriction: below a klass derived from one of
the two description klasses there is no header. The reader has a built-in layout for
those two that lacks the `base`, and a description cannot add it because they are well
known. `HawkTracer.RoundTrip.header_lost_below_description_klass` is such an event.

`HawkTracer.RoundTrip.byteOrder_independent`: the little-endian and the big-endian
stream of a program, read on a host of either byte order and in either mode, yield the
same deliveries except for the value of the endianness event.
-/

namespace HawkTracer.RoundTrip

open HawkTracer.Lib HawkTracer.Parser

/-! ### A program to run the theorems on -/

/-- A klass two levels below the root, with a signed integer and a string. -/
def sampleKlass : Klass :=
  declareEventKlass (cstr "SampleEvent") callstackBaseEventKlass
    [integerField "int16_t" true 2 "level", stringField "const char*" "note"] 56

/-- The registry of a program with one klass. -/
def sampleRegistry : Registry where
  user := [sampleKlass]
  declared := by
    rintro K hK
    cases List.mem_singleton.mp hK
    exact ⟨callstackBaseEventKlass, by simp [coreKlasses], _, _, _, _, by decide, rfl⟩
  nodup := by decide
  fits := by
    rintro K hK
    cases List.mem_singleton.mp hK
    exact ⟨by decide, by decide⟩
  length_lt := by decide

theorem sampleKlass_mem_user : sampleKlass ∈ sampleRegistry.user := List.mem_cons_self

/-- An event of that klass. -/
def sampleEvent : sampleRegistry.Traced :=
  .ofUser sampleRegistry
    ⟨sampleKlass, ((⟨9, 7, 11⟩, 5#64, 3#32, ()), 0xfff0#16, some (cstr "ok"), ())⟩
    sampleKlass_mem_user (by decide)

theorem nullFree_sampleEvent : ∀ e ∈ [sampleEvent], e.klass.fields.NullFree e.val := by
  intro e he
  cases List.mem_singleton.mp he
  exact ⟨⟨trivial, trivial, trivial, trivial⟩, trivial, trivial, trivial⟩

/-! ### The round trip -/

/-- **Decode undoes encode.** Reading the metadata of a registry followed by serialized
events without `NULL` strings delivers, after the metadata events, exactly those
events in their order, each with its klass and every field of every level – and the
header, except below a description klass – and stops at the end of the stream. -/
theorem decode_encode (P : Platform) (H : Host) (stamps : ℕ → Stamp) (G : Registry)
    (events : List G.Traced) (hnull : ∀ e ∈ events, e.klass.fields.NullFree e.val) (depth : ℕ)
    (hdepth : ∀ K ∈ G.klasses, K.fields.depth ≤ depth) :
    ∃ R metadata ds,
      readEvents H.order P false depth (streamOf H stamps G events : FileStream) =
        (⟨[], R, endiannessCode H.order, metadata ++ ds⟩, .error) ∧
      metadata.length = (metadataEvents H stamps G.klasses).length ∧
      List.Forall₂ (fun e d => Shows hasBase G e.klass.fields e.klass.typeName e.val d.event)
        events ds := by
  obtain ⟨metadata, ds, hread, hlen, hshows⟩ :=
    readEvents_streamOf P false depth H stamps hnull hdepth
  exact ⟨_, _ :: metadata, ds, hread H.order H.order, hlen, hshows.imp fun _ _ hshow => hshow rfl⟩

theorem decode_encode_sample :
    (∀ e ∈ [sampleEvent], e.klass.fields.NullFree e.val) ∧
    (∀ K ∈ sampleRegistry.klasses, K.fields.depth ≤ 2) ∧
    ∃ R metadata ds,
      readEvents .little samplePlatform false 2
          (streamOf sampleHost sampleStamps sampleRegistry [sampleEvent] : FileStream) =
        (⟨[], R, 0, metadata ++ ds⟩, .error) ∧
      metadata.length = (metadataEvents sampleHost sampleStamps sampleRegistry.klasses).length ∧
      List.Forall₂ (fun e d => Shows hasBase sampleRegistry e.klass.fields e.klass.typeName e.val
        d.event) [sampleEvent] ds := by
  have hdepth : ∀ K ∈ sampleRegistry.klasses, K.fields.depth ≤ 2 := by decide
  exact ⟨nullFree_sampleEvent, hdepth, decode_encode samplePlatform sampleHost sampleStamps
    sampleRegistry [sampleEvent] nullFree_sampleEvent 2 hdepth⟩

/-! ### Below a description klass -/

/-- A klass derived from a description klass. -/
def taggedInfoKlass : Klass :=
  declareEventKlass (cstr "TaggedInfoEvent") eventKlassInfoEventKlass
    [integerField "uint32_t" false 4 "tag"] 56

/-- The registry of a program with that klass. -/
def taggedInfoRegistry : Registry where
  user := [taggedInfoKlass]
  declared := by
    rintro K hK
    cases List.mem_singleton.mp hK
    exact ⟨eventKlassInfoEventKlass, by simp [coreKlasses], _, _, _, _, by decide, rfl⟩
  nodup := by decide
  fits := by
    rintro K hK
    cases List.mem_singleton.mp hK
    exact ⟨by decide, by decide⟩
  length_lt := by decide

/-- An event of that klass, with timestamp 7. -/
def taggedInfoEvent : taggedInfoRegistry.Traced :=
  .ofUser taggedInfoRegistry
    ⟨taggedInfoKlass, ((⟨9, 7, 11⟩, 5#32, some (cstr "Five"), 2#8, ()), 6#32, ())⟩
    List.mem_cons_self (by decide)

theorem toField_injective : Function.Injective Event.toField := by
  rintro ⟨k, vs, t⟩ ⟨k', vs', t'⟩ h
  cases h
  rfl

/-- **Below a description klass the header is lost**: the event is delivered, but not
with the `base` of every level, so its timestamp and its identifier are nowhere in
it. -/
theorem header_lost_below_description_klass :
    ∃ R metadata d,
      readEvents .little samplePlatform false 2
          (streamOf sampleHost sampleStamps taggedInfoRegistry [taggedInfoEvent] : FileStream) =
        (⟨[], R, 0, metadata ++ [d]⟩, .error) ∧
      metadata.length = (metadataEvents sampleHost sampleStamps taggedInfoRegistry.klasses).length ∧
      ¬ Shows (fun _ => true) taggedInfoRegistry taggedInfoKlass.fields taggedInfoKlass.typeName
        taggedInfoEvent.val d.event := by
  have hnull : ∀ e ∈ [taggedInfoEvent], e.klass.fields.NullFree e.val := by
    intro e he
    cases List.mem_singleton.mp he
    exact ⟨⟨trivial, trivial, trivial, trivial, trivial⟩, trivial, trivial⟩
  obtain ⟨metadata, ds, hread, hlen, hshows⟩ :=
    readEvents_streamOf samplePlatform false 2 sampleHost sampleStamps hnull (by decide)
  obtain ⟨d, ds', hshow, hnil, rfl⟩ := List.forall₂_cons_left_iff.mp hshows
  cases hnil
  refine ⟨_, _ :: metadata, d, hread .little .little, hlen, ?_⟩
  -- the event of the description klass holds no value under `base`
  obtain ⟨-, hbase, -, -⟩ := hshow rfl
  obtain ⟨b, hb, -, -, -, hkeys⟩ := hbase (by decide)
  rintro ⟨-, hbase', -, -⟩
  obtain ⟨b', hb', -, hinner, -, -⟩ := hbase' rfl
  obtain ⟨c, hc, -⟩ := hinner rfl
  rw [hb] at hb'
  cases toField_injective (Option.some.inj hb')
  rcases hkeys _ _ hc with ⟨hfalse, -⟩ | hmem
  · exact absurd hfalse (by decide)
  · exact absurd hmem (by decide)

/-! ### Byte orders -/

/-- **Byte order does not matter.** The streams of one program in the two byte orders,
each read on a host of either byte order, yield the same register and the same
deliveries after the first one; the first, the endianness event, differs in the value
of its field `endianness` and in nothing else. Every event is delivered. -/
theorem byteOrder_independent (P : Platform) (flat : Bool) (H : Host) (stamps : ℕ → Stamp)
    (G : Registry) (events : List G.Traced) (hnull : ∀ e ∈ events, e.klass.fields.NullFree e.val)
    (depth : ℕ) (hdepth : ∀ K ∈ G.klasses, K.fields.depth ≤ depth) :
    ∃ R, ∃ first : ByteOrder → Delivery, ∃ ds : List Delivery,
      (∀ host o, readEvents host P flat depth
          (streamOf (H.inOrder o) stamps G events : FileStream) =
        (⟨[], R, endiannessCode o, first o :: ds⟩, .error)) ∧
      (∀ o, (first o).event.klass = some 0) ∧
      (∀ o, (first o).event.get (ascii "endianness") =
        some (.num .uint8 (endiannessCode o).toNat)) ∧
      (∀ o o' key, key ≠ ascii "endianness" →
        (first o).event.get key = (first o').event.get key) ∧
      ds.length + 1 = (metadataEvents H stamps G.klasses).length + events.length := by
  obtain ⟨metadata, ds, hread, hlen, hshows⟩ :=
    readEvents_streamOf P flat depth H stamps hnull hdepth
  refine ⟨_, endiannessDelivery P flat, metadata ++ ds, hread, fun _ => klass_finishedEvent _ _,
    fun o => ?_, fun o o' key hkey => ?_, ?_⟩
  · exact get_finishedEvent (by rw [Event.get_setValue, Event.get_new, Option.none_or, if_pos rfl])
  -- of the fields under other names, only those of the header are there, and the header
  -- of the first event is the same in both orders
  · have hget : ∀ o, ((Event.new (some 0)).setValue P
        ⟨ascii "endianness", ascii "uint8_t", .uint8, none⟩
        (.num .uint8 (endiannessCode o).toNat)).get key = none := fun o => by
      rw [Event.get_setValue, Event.get_new, Option.none_or, if_neg (Ne.symm hkey)]
    cases flat with
    | true =>
      change (Event.merge P _ _).get key = (Event.merge P _ _).get key
      rw [Event.get_merge, Event.get_merge, hget, hget]
    | false => exact (hget o).trans (hget o').symm
  · rw [List.length_append, ← hshows.length_eq, ← hlen]
    omega

theorem byteOrder_independent_sample :
    ∃ R, ∃ first : ByteOrder → Delivery, ∃ ds : List Delivery,
      (∀ host o, readEvents host samplePlatform true 2
          (streamOf (sampleHost.inOrder o) sampleStamps sampleRegistry [sampleEvent] : FileStream) =
        (⟨[], R, endiannessCode o, first o :: ds⟩, .error)) ∧
      (∀ o, (first o).event.klass = some 0) ∧
      (∀ o, (first o).event.get (ascii "endianness") =
        some (.num .uint8 (endiannessCode o).toNat)) ∧
      (∀ o o' key, key ≠ ascii "endianness" →
        (first o).event.get key = (first o').event.get key) ∧
      ds.length + 1 = (metadataEvents sampleHost sampleStamps sampleRegistry.klasses).length +
        [sampleEvent].length := by
  exact byteOrder_independent samplePlatform true sampleHost sampleStamps sampleRegistry
    [sampleEvent] nullFree_sampleEvent 2 (by decide)

end HawkTracer.RoundTrip
