import HawkTracer.Parser.Truncation
import HawkTracer.RoundTrip.Decoding

/-!
# Reading a truncated dump

A dump that was cut off is a prefix of the stream of a program. The reader goes through
the events that lie wholly inside it and stops at the cut:
`HawkTracer.RoundTrip.truncated_stream`. How many those are is counted by
`HawkTracer.RoundTrip.completeChunks`.

A round on a whole event does not see what follows it, so in front of a cut it works as
in front of the rest of the stream (`HawkTracer.RoundTrip.Delivers`), and a round on a
part of an event delivers nothing (`HawkTracer.Parser.step_cut`). The induction over the
events is `HawkTracer.RoundTrip.run_take`.
-/

namespace HawkTracer.RoundTrip

open HawkTracer.Lib HawkTracer.Parser

/-! ### Complete events -/

/-- How many of the chunks lie wholly inside the first `n` bytes. -/
def completeChunks : ℕ → List (List UInt8) → ℕ
  | _, [] => 0
  | n, b :: bs => if b.length ≤ n then completeChunks (n - b.length) bs + 1 else 0

theorem completeChunks_le (n : ℕ) (bs : List (List UInt8)) : completeChunks n bs ≤ bs.length := by
  induction bs generalizing n with
  | nil => exact le_rfl
  | cons b bs ih =>
    rw [completeChunks]
    split
    · exact Nat.succ_le_succ (ih _)
    · exact Nat.zero_le _

/-- A chunk counts if and only if the chunks up to it fit. -/
theorem lt_completeChunks_iff {n i : ℕ} {bs : List (List UInt8)} (hi : i < bs.length) :
    i < completeChunks n bs ↔ (bs.take (i + 1)).flatten.length ≤ n := by
  induction bs generalizing n i with
  | nil => exact absurd hi (Nat.not_lt_zero i)
  | cons b bs ih =>
    rw [completeChunks, List.take_succ_cons, List.flatten_cons, List.length_append]
    split
    · next hb =>
      cases i with
      | zero => simpa using hb
      | succ i =>
        rw [Nat.succ_lt_succ_iff, ih (Nat.lt_of_succ_lt_succ hi)]
        omega
    · next hb => exact iff_of_false (Nat.not_lt_zero i) (by omega)

theorem completeChunks_of_le {n : ℕ} {bs : List (List UInt8)} (h : bs.flatten.length ≤ n) :
    completeChunks n bs = bs.length := by
  induction bs generalizing n with
  | nil => rfl
  | cons b bs ih =>
    rw [List.flatten_cons, List.length_append] at h
    rw [completeChunks, if_pos (by omega), ih (by omega), List.length_cons]

/-! ### The rounds up to the cut -/

variable {P : Platform} {R R' : KlassRegister} {flat : Bool} {depth : ℕ}

theorem length_take_append_lt {b s : List UInt8} {n fuel : ℕ} (hb : b ≠ []) (hn : b.length ≤ n)
    (h : ((b ++ s).take n).length < fuel + 1) : (s.take (n - b.length)).length < fuel := by
  have hpos := List.length_pos_iff.mpr hb
  rw [List.take_append, List.take_of_length_le hn, List.length_append] at h
  omega

/-- **A round on the first event of a prefix**: the event is delivered if it lies inside
the prefix, and otherwise the reader stops. -/
theorem run_take_cons {host : ByteOrder} {c c' : UInt8} {b s : List UInt8} {d : Delivery}
    (hW : R.BuiltIn)
    (h : ∀ rest ds, Reader.step P (streamInput host) flat (depth + 1) ⟨b ++ rest, R, c, ds⟩ =
      (⟨rest, R', c', ds ++ [d]⟩, none)) {n fuel : ℕ} (hfuel : ((b ++ s).take n).length < fuel + 1)
    (ds : List Delivery) :
    Reader.run P (streamInput host) flat (depth + 1) (fuel + 1) ⟨(b ++ s).take n, R, c, ds⟩ =
        (if b.length ≤ n then
          Reader.run P (streamInput host) flat (depth + 1) fuel
            ⟨s.take (n - b.length), R', c', ds ++ [d]⟩
        else (⟨[], R, c, ds⟩, .error)) ∧
      (b.length ≤ n → R'.BuiltIn ∧ (s.take (n - b.length)).length < fuel) := by
  have hwhole := h [] ds
  rw [List.append_nil] at hwhole
  have hb : b ≠ [] := by
    rintro rfl
    have hnil := step_nil P flat depth hW host c ds
    rw [hnil] at hwhole
    exact absurd (congrArg Prod.snd hwhole) (Option.some_ne_none _)
  constructor
  · split
    · next hn =>
      rw [List.take_append, List.take_of_length_le hn, Reader.run, h]
    · next hn =>
      -- the cut is inside the first event
      have hcut : b.drop n ≠ [] := by
        rw [← List.length_pos_iff, List.length_drop]
        omega
      rw [List.take_append_of_le_length (by omega)]
      rw [← List.take_append_drop n b] at hwhole
      exact Reader.run_stop (step_cut hwhole hcut) fuel
  · exact fun hn => ⟨builtIn_step hwhole hW, length_take_append_lt hb hn hfuel⟩

/-- **The rounds over a prefix** of the bytes of a list of events. -/
theorem run_take {events : List Instance} {ds : List Delivery}
    (h : DeliversAll P flat (depth + 1) R R' events ds) (hW : R.BuiltIn) (host o : ByteOrder)
    {n fuel : ℕ} (hfuel : ((events.flatMap (Instance.encode o)).take n).length < fuel)
    (ds₀ : List Delivery) :
    ∃ R'', Reader.run P (streamInput host) flat (depth + 1) fuel
        ⟨(events.flatMap (Instance.encode o)).take n, R, endiannessCode o, ds₀⟩ =
      (⟨[], R'', endiannessCode o,
        ds₀ ++ ds.take (completeChunks n (events.map (Instance.encode o)))⟩, .error) := by
  obtain ⟨fuel, rfl⟩ : ∃ f, fuel = f + 1 := ⟨fuel - 1, by omega⟩
  induction h generalizing n fuel ds₀ with
  | @nil R =>
    refine ⟨R, ?_⟩
    rw [List.flatMap_nil, List.take_nil, List.take_nil, List.append_nil]
    exact Reader.run_stop (step_nil P flat depth hW host _ _) fuel
  | @cons R R₁ R₂ e d events ds h _ ih =>
    rw [List.flatMap_cons] at hfuel ⊢
    obtain ⟨hrun, hnext⟩ := run_take_cons hW (h host o) hfuel ds₀
    rw [hrun, List.map_cons, completeChunks]
    split
    · next hn =>
      obtain ⟨hW', hfuel'⟩ := hnext hn
      obtain ⟨fuel, rfl⟩ : ∃ f, fuel = f + 1 := ⟨fuel - 1, by omega⟩
      obtain ⟨R'', hR''⟩ := ih hW' (ds₀ ++ [d]) fuel hfuel'
      exact ⟨R'', by rw [hR'', List.append_assoc, List.take_succ_cons]; rfl⟩
    · exact ⟨R, by rw [List.take_zero, List.append_nil]⟩

/-! ### A prefix of the stream of a program -/

/-- The events of the stream of a program, in their order. -/
def streamEvents (H : Host) (stamps : ℕ → Stamp) (G : Registry) (events : List G.Traced) :
    List Instance :=
  endiannessInfoEvent H :: eventsBehind H stamps G events

/-- **Reading a prefix** of a stream whose events are delivered behind the endianness
event. -/
theorem readEvents_take {events : List Instance} {ds : List Delivery}
    (h : DeliversAll P flat (depth + 1) .new R events ds) (host : ByteOrder) (H : Host) (n : ℕ) :
    ∃ r, readEvents host P flat (depth + 1)
        (((endiannessInfoEvent H :: events).flatMap (Instance.encode H.order)).take n :
          FileStream) = (r, .error) ∧
      r.delivered = (endiannessDelivery P flat H.order :: ds).take (completeChunks n
        ((endiannessInfoEvent H :: events).map (Instance.encode H.order))) := by
  have hstep : ∀ rest ds, Reader.step P (streamInput host) flat (depth + 1)
      ⟨(endiannessInfoEvent H).encode H.order ++ rest, .new, 0, ds⟩ = _ :=
    step_endiannessInfoEvent P flat depth host H H.order
  obtain ⟨hrun, hnext⟩ := run_take_cons (s := events.flatMap (Instance.encode H.order)) (n := n)
    KlassRegister.builtIn_new hstep (Nat.lt_succ_self _) []
  rw [readEvents, Reader.new, List.flatMap_cons, List.map_cons, completeChunks]
  by_cases hn : ((endiannessInfoEvent H).encode H.order).length ≤ n
  · obtain ⟨R'', hR''⟩ := run_take h KlassRegister.builtIn_new host H.order (hnext hn).2
      ([] ++ [endiannessDelivery P flat H.order])
    rw [if_pos hn] at hrun
    exact ⟨_, hrun.trans hR'', by rw [if_pos hn, List.take_succ_cons]; rfl⟩
  · rw [if_neg hn] at hrun
    exact ⟨_, hrun, by rw [if_neg hn, List.take_zero]⟩

/-- **A truncated dump yields exactly its complete events.** Of the first `n` bytes of the
stream of a program, the reader delivers the events that lie wholly inside them – an
event does if the events up to it take at most `n` bytes – as it delivers them from the
whole stream, and then stops. -/
theorem truncated_stream (P : Platform) (host : ByteOrder) (H : Host) (stamps : ℕ → Stamp)
    (G : Registry) (events : List G.Traced) (hnull : ∀ e ∈ events, e.klass.fields.NullFree e.val)
    (flat : Bool) (depth : ℕ) (hdepth : ∀ K ∈ G.klasses, K.fields.depth ≤ depth) :
    streamOf H stamps G events =
      (streamEvents H stamps G events).flatMap (Instance.encode H.order) ∧
    ∃ whole, readEvents host P flat depth (streamOf H stamps G events : FileStream) =
        (whole, .error) ∧ whole.delivered.length = (streamEvents H stamps G events).length ∧
      ∀ n, ∃ r m,
        readEvents host P flat depth ((streamOf H stamps G events).take n : FileStream) =
          (r, .error) ∧
        r.delivered = whole.delivered.take m ∧ m ≤ (streamEvents H stamps G events).length ∧
        ∀ i < (streamEvents H stamps G events).length, (i < m ↔
          (((streamEvents H stamps G events).take (i + 1)).flatMap
            (Instance.encode H.order)).length ≤ n) := by
  obtain ⟨depth, rfl⟩ := exists_depth_succ hdepth
  obtain ⟨metadata, ds, hall, -⟩ := deliversAll_eventsBehind P flat depth H stamps hnull hdepth
  have hstream : streamOf H stamps G events =
      (streamEvents H stamps G events).flatMap (Instance.encode H.order) :=
    streamOf_eq_cons H stamps G events
  have hlen : (endiannessDelivery P flat H.order :: (metadata ++ ds)).length =
      (streamEvents H stamps G events).length := by
    rw [List.length_cons, hall.length_eq]
    rfl
  have htake : ∀ n, ∃ r,
      readEvents host P flat (depth + 1) ((streamOf H stamps G events).take n : FileStream) =
        (r, .error) ∧
      r.delivered = (endiannessDelivery P flat H.order :: (metadata ++ ds)).take (completeChunks n
        ((streamEvents H stamps G events).map (Instance.encode H.order))) := by
    rw [hstream]
    exact readEvents_take hall host H
  -- the whole stream is the prefix in which every event is complete
  obtain ⟨whole, hwhole, hdelivered⟩ := htake (streamOf H stamps G events).length
  rw [List.take_length] at hwhole
  rw [completeChunks_of_le (by rw [hstream, List.flatMap_def]), List.length_map,
    List.take_of_length_le (le_of_eq hlen)] at hdelivered
  refine ⟨hstream, whole, hwhole, hdelivered ▸ hlen, fun n => ?_⟩
  obtain ⟨r, hr, hrdelivered⟩ := htake n
  refine ⟨r, _, hr, hdelivered ▸ hrdelivered, ?_, fun i hi => ?_⟩
  · exact (completeChunks_le _ _).trans (le_of_eq (List.length_map _))
  · rw [lt_completeChunks_iff (by rwa [List.length_map]), ← List.map_take, ← List.flatMap_def]

theorem truncated_stream_sample :
    (∀ e ∈ [sampleEvent], e.klass.fields.NullFree e.val) ∧
    (∀ K ∈ sampleRegistry.klasses, K.fields.depth ≤ 2) ∧
    streamOf sampleHost sampleStamps sampleRegistry [sampleEvent] =
      (streamEvents sampleHost sampleStamps sampleRegistry [sampleEvent]).flatMap
        (Instance.encode .little) ∧
    ∃ whole, readEvents .little samplePlatform true 2
        (streamOf sampleHost sampleStamps sampleRegistry [sampleEvent] : FileStream) =
        (whole, .error) ∧
      whole.delivered.length =
        (streamEvents sampleHost sampleStamps sampleRegistry [sampleEvent]).length ∧
      ∀ n, ∃ r m,
        readEvents .little samplePlatform true 2
            ((streamOf sampleHost sampleStamps sampleRegistry [sampleEvent]).take n : FileStream) =
          (r, .error) ∧
        r.delivered = whole.delivered.take m ∧
        m ≤ (streamEvents sampleHost sampleStamps sampleRegistry [sampleEvent]).length ∧
        ∀ i < (streamEvents sampleHost sampleStamps sampleRegistry [sampleEvent]).length, (i < m ↔
          (((streamEvents sampleHost sampleStamps sampleRegistry [sampleEvent]).take
            (i + 1)).flatMap (Instance.encode .little)).length ≤ n) := by
  have hdepth : ∀ K ∈ sampleRegistry.klasses, K.fields.depth ≤ 2 := by decide
  exact ⟨nullFree_sampleEvent, hdepth, truncated_stream samplePlatform .little sampleHost
    sampleStamps sampleRegistry [sampleEvent] nullFree_sampleEvent true 2 hdepth⟩

end HawkTracer.RoundTrip
