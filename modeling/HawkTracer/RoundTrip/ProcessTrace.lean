import HawkTracer.Client.ChromeDocument
import HawkTracer.Client.Delivered
import HawkTracer.RoundTrip.Process

/-!
# From a process to its Chrome trace

The threads of a process run in any order and write to one stream
(`HawkTracer.RoundTrip.Process`). The client reads it into a Chrome converter, which prints an
object for every event with a label. For a callstack event that object has the label, the times,
the thread, and no arguments (`HawkTracer.RoundTrip.json_printEntry`).

The document has the objects of all threads, in the order of the stream. Those with the number of
one thread are its calls, in the order in which they ended, up to what is still in its buffer
(`HawkTracer.RoundTrip.trace_of_process`). Scopes that are still open are not in it, and need not
be closed for it.
-/

namespace HawkTracer.RoundTrip

open HawkTracer.Lib HawkTracer.Parser HawkTracer.Client ChromeTrace LabelEvent

/-! ### The objects of calls -/

/-- The object of a call, with its times in nanoseconds. -/
def callJson (thread : UInt32) (label : Label) (timestamp duration : ℕ) : Json :=
  .obj [(ascii "name", .str label), (ascii "ph", .str (ascii "X")),
    (ascii "ts", .int (timestamp / 1000 : ℕ)), (ascii "dur", .int (duration / 1000 : ℕ)),
    (ascii "pid", .int 0), (ascii "tid", .int thread.toNat), (ascii "args", .obj [])]

/-- The object of a call of the program. -/
def spanJson (thread : UInt32) (c : Brackets.Span Label) : Json :=
  callJson thread c.label c.start c.duration

/-- The object for what the call graph would be told. -/
def nodeJson (thread : UInt32) (d : NodeData) : Json :=
  callJson thread d.label d.startTs.toNat (d.stopTs - d.startTs).toNat

/-- The object of an event, if it has one. -/
def LabelEvent.json (meant : UInt64 → Label) : LabelEvent → Option Json
  | .mapping .. => none
  | .callstack stamp duration threadId label =>
    some (callJson threadId (meant label) stamp.timestamp.toNat duration.toNat)

/-- The thread of an object. -/
def tidOf (j : Json) : Option ℤ :=
  match j.get (ascii "tid") with
  | some (.num z _) => some z
  | _ => none

/-- **The objects of a thread**, among those of a trace. -/
def threadEntries (thread : UInt32) (js : List Json) : List Json :=
  js.filter fun j => tidOf j = some (thread.toNat : ℤ)

theorem tidOf_callJson (thread : UInt32) (label : Label) (timestamp duration : ℕ) :
    tidOf (callJson thread label timestamp duration) = some (thread.toNat : ℤ) := by
  simp [tidOf, callJson, Json.get, List.lookup_cons, ascii, Json.int]

theorem nodeJson_nodeOf {s : Brackets.State Label} (h : Brackets.Kept s)
    (hfits : ∀ c ∈ s.spans, c.stop < 2 ^ 64) (thread : UInt32) {c : Brackets.Span Label}
    (hc : c ∈ s.spans) : nodeJson thread (nodeOf c) = spanJson thread c := by
  have hle : (nodeOf c).startTs ≤ (nodeOf c).stopTs := by
    rw [UInt64.le_iff_toNat_le, startTs_nodeOf h hfits hc, stopTs_nodeOf h hfits hc]
    exact h.start_le_stop c hc
  rw [nodeJson, UInt64.toNat_sub_of_le _ _ hle, startTs_nodeOf h hfits hc, stopTs_nodeOf h hfits hc]
  rfl

/-- The objects of a thread are those of its events. -/
theorem threadEntries_filterMap (meant : UInt64 → Label) (thread : UInt32)
    (events : List LabelEvent) :
    threadEntries thread (events.filterMap (json meant)) =
      (callsIn thread events).map fun e => nodeJson thread (e.node meant) := by
  induction events with
  | nil => rfl
  | cons event events ih =>
    cases event with
    | mapping stamp id label => exact ih
    | callstack stamp duration threadId label =>
      rw [List.filterMap_cons, json, threadEntries, callsIn]
      dsimp only
      by_cases ht : threadId = thread
      · rw [List.filter_cons_of_pos (by rw [tidOf_callJson, ht]; simp),
          List.filter_cons_of_pos (by simp [ht]), List.map_cons]
        refine congrArg₂ List.cons ?_ ih
        rw [node, nodeJson, NodeData.new, ht]
        dsimp only
        rw [UInt64.add_comm, UInt64.add_sub_cancel]
      · have hne : ¬tidOf (callJson threadId (meant label) stamp.timestamp.toNat
            duration.toNat) = some (thread.toNat : ℤ) := by
          rw [tidOf_callJson]
          intro heq
          exact ht (UInt32.toNat_inj.mp (by exact_mod_cast Option.some.inj heq))
        rw [List.filter_cons_of_neg (by simpa using hne), List.filter_cons_of_neg (by simp [ht])]
        exact ih

/-! ### What is printed for the events -/

section Printing

variable {C : ConverterPlatform} {d : ℕ} {e : Event}

/-- Values with names that a converter knows are no arguments. -/
theorem argFields_eq_nil (h : Within e coreFields) {vs : List Value}
    (hvs : ∀ v ∈ vs, v ∈ e.values) : argFields vs = [] := by
  refine List.filter_eq_nil_iff.mpr fun v hv => ?_
  obtain ⟨w, hw⟩ : ∃ w, e.rawValue v.name = some w := by
    refine Option.ne_none_iff_exists'.mp fun hnone => ?_
    exact findKey_eq_none_iff.mp hnone (List.mem_map_of_mem (hvs v hv))
  simpa using h v.name w hw

/-- **The object of a callstack event.** -/
theorem json_printEntry {stamp : Stamp} {duration : UInt64} {threadId : UInt32} {label : UInt64}
    (h : (callstack stamp duration threadId label).CarriedBy e) (name : Name) :
    (printEntry C (name, e) : Json.Printed (d + 3)).json =
      callJson threadId name stamp.timestamp.toNat duration.toNat := by
  obtain ⟨-, hduration, hthread, htimestamp, hwithin⟩ := h
  have hread : readDuration C e = duration := by
    rw [readDuration, getValueOrDefault, hduration]
    exact (C.asTimestamp_uint64 _).trans UInt64.ofNat_toNat
  have htid : getValueOrDefault C.asThreadId e (ascii "thread_id") 0 = threadId := by
    rw [getValueOrDefault, hthread]
    exact (C.asThreadId_uint32 _).trans UInt32.ofNat_toNat
  have hdiv : ∀ n : UInt64, (nsToMs n).toNat = n.toNat / 1000 := fun n => UInt64.toNat_div n 1000
  rw [printEntry, Json.Printed.json_obj, printArgs, hread, htid,
    htimestamp, argFields_eq_nil hwithin fun v hv => (C.walk_perm _).mem_iff.mp hv]
  simp only [List.map_cons, List.map_nil, literal, Json.Key.name, Json.Printed.str,
    Json.Printed.fixed, Json.Printed.int, Json.Printed.json_obj, hdiv]
  rfl

/-- The entries of the events of the program. -/
theorem json_entries {meant : UInt64 → Label} {events : List LabelEvent} {es : List Event}
    (h : List.Forall₂ LabelEvent.CarriedBy events es) (hnamed : Named meant events) :
    (entries (events.map (meaning meant)) es).map
        (fun x => (printEntry C x : Json.Printed (d + 3)).json) =
      events.filterMap (json meant) := by
  induction h with
  | nil => rfl
  | @cons event e events es hevent _ ih =>
    have hrest := ih fun _ _ _ _ hx => hnamed _ _ _ _ (List.mem_cons_of_mem _ hx)
    rw [entries, List.map_cons, List.zip_cons_cons]
    cases event with
    | mapping stamp id label => exact hrest
    | callstack stamp duration threadId label =>
      have hne : meant label ≠ [] := hnamed _ _ _ _ List.mem_cons_self
      rw [List.filter_cons_of_pos (by exact decide_eq_true hne), List.map_cons,
        json_printEntry hevent]
      exact congrArg _ hrest

/-- There are no entries of the metadata. -/
theorem entries_append {n : ℕ} {labels : List Name} {metadata es : List Event}
    (hn : metadata.length = n) :
    entries (List.replicate n [] ++ labels) (metadata ++ es) =
      entries labels es := by
  rw [entries, List.zip_append (by simp [hn]), List.filter_append]
  refine List.append_left_eq_self.mpr (List.filter_eq_nil_iff.mpr fun x hx => ?_)
  simp [List.eq_of_mem_replicate (List.of_mem_zip hx).1]

/-- The strings that are printed are the labels. -/
theorem verbatim_entries {meant : UInt64 → Label} {events : List LabelEvent} {es : List Event}
    (h : List.Forall₂ LabelEvent.CarriedBy events es)
    (hverbatim : ∀ stamp duration threadId label,
      .callstack stamp duration threadId label ∈ events → Json.Verbatim (meant label)) :
    ∀ x ∈ entries (events.map (meaning meant)) es,
      ∀ s ∈ entryStrings x, Json.Verbatim s := by
  induction h with
  | nil => rintro x ⟨⟩
  | @cons event e events es hevent _ ih =>
    have hrest := ih fun _ _ _ _ hx => hverbatim _ _ _ _ (List.mem_cons_of_mem _ hx)
    intro x hx s hs
    obtain ⟨hmem, hne⟩ := List.mem_filter.mp hx
    rw [List.map_cons, List.zip_cons_cons] at hmem
    rcases List.mem_cons.mp hmem with rfl | hmem
    · cases event with
      | mapping stamp id label => cases hne
      | callstack stamp duration threadId label =>
        obtain ⟨-, -, -, -, hwithin⟩ := hevent
        rw [entryStrings, argFields_eq_nil hwithin fun v hv => hv] at hs
        rw [List.mem_singleton.mp hs]
        exact hverbatim _ _ _ _ List.mem_cons_self
    · exact hrest x (List.mem_filter.mpr ⟨hmem, hne⟩) s hs

end Printing

/-! ### The document -/

/-- The objects of a thread are those of its calls, up to those in its buffer. -/
theorem Sound.spanJson_eq {M : Machine} {meant : UInt64 → Label} {stream : List LabelEvent}
    {thread : UInt32} {s : ThreadState M} {b : Brackets.State Label}
    (h : Sound meant stream thread s b) (hkept : Brackets.Kept b) :
    b.spans.map (spanJson thread) =
      threadEntries thread (stream.filterMap (json meant)) ++
        (callsIn thread s.buffer).map fun e => nodeJson thread (e.node meant) := by
  have hcalls := congrArg (List.map (nodeJson thread)) h.callsIn_eq
  rw [List.map_map, List.map_map] at hcalls
  rw [threadEntries_filterMap, ← List.map_append]
  refine Eq.trans ?_ hcalls.symm
  exact List.map_congr_left fun c hc => (nodeJson_nodeOf hkept h.follows.fits thread hc).symm

/-- **The Chrome trace of a process has the calls of its threads.** The threads of a process run
in any order, and a client reads the stream, with the metadata that precedes it, into a new
converter, whatever labels were loaded into its map. If no string needs an escape, what the
converter writes is a document, and the objects of a thread in it are those of its calls, in their
order, up to those in its buffer. -/
theorem trace_of_process {M : Machine} {meant : UInt64 → Label} (C : ConverterPlatform) (depth : ℕ)
    (host : ByteOrder) (H : Host) (stamps : ℕ → Stamp) (G : Registry) (map : TracepointMap)
    {ops : List ProcessOp} (hops : StepsMeet Process.step Process.Fine (.start : Process M) ops)
    (hmeans : ∀ op ∈ ops, op.Means M meant)
    (hverbatim : ∀ op ∈ ops, op.Adds M fun id => Json.Verbatim (meant id)) :
    let process := runFrom Process.step (.start : Process M) ops
    ∃ ds text doc js, readEvents host C.toPlatform true (depth + 2)
          (streamOf H stamps G (process.stream.map (traced G)) : FileStream) =
        (⟨[], describedRegister C.toPlatform G, endiannessCode H.order, ds⟩, .error) ∧
      convert C ⟨map, 0⟩ (ds.map Delivery.event) = .ok text ∧
      Json.document text = some doc ∧ doc.get (ascii "traceEvents") = some (.arr js) ∧
      ∀ thread, ∃ rest, (spansOf meant thread ops).map (spanJson thread) =
          threadEntries thread js ++ rest ∧
        rest.length = (callsIn thread (process.threads thread).buffer).length := by
  intro process
  obtain ⟨hkept, hall⟩ := allSound_run hops hmeans
  obtain ⟨metadata, ds, c, hread, hlabels, hcarried⟩ :=
    getLabels_fresh C.toPlatform depth host H stamps G map (by rintro id ⟨⟩) hall.mapped
  have hstored := stored_readEvents host C.toPlatform true (depth + 2)
    (streamOf H stamps G (process.stream.map (traced G)) : FileStream)
  rw [hread] at hstored
  -- the text is that of the entries of the program
  have hconvert := convert_eq (P := C) hlabels hstored
  rw [List.map_append, entries_append (List.length_map ..)] at hconvert
  have hl : ∀ x ∈ entries (process.stream.map (meaning meant))
      (ds.map Delivery.event), ∀ v ∈ x.2.values, ChromeTrace.IsStored v := by
    intro x hx
    refine hstored x.2 ?_
    rw [List.map_append]
    exact List.mem_append_right _ (List.of_mem_zip (List.mem_of_mem_filter hx)).2
  obtain ⟨d, hd⟩ := exists_length_traceText C (entries
    (process.stream.map (meaning meant)) (ds.map Delivery.event))
  rw [← text_printTrace (P := C) (d := d) hl] at hconvert hd
  have hstrings := verbatim_entries hcarried fun _ _ _ _ hx =>
    hall.forall_labels (fun id => Json.Verbatim (meant id)) hverbatim hx
  have hdocument := Json.Printed.document _ hd fun s hs => by
    obtain ⟨x, hx, hs⟩ := (mem_strings_printTrace hl).mp hs
    exact hstrings x hx s hs
  refine ⟨metadata ++ ds, _, _, process.stream.filterMap (json meant), hread, ?_,
    hdocument, ?_, fun thread => ⟨_, (hall.sound thread).spanJson_eq (hkept thread), ?_⟩⟩
  · rw [List.map_append]
    exact hconvert
  · rw [← json_entries (C := C) (d := d) hcarried (hall.named hmeans)]
    exact congrArg (fun js => some (Json.arr js)) (List.map_map ..)
  · exact List.length_map ..

end HawkTracer.RoundTrip
