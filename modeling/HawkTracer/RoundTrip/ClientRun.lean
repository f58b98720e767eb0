import HawkTracer.Client.Session
import HawkTracer.RoundTrip.ProcessTrace

/-!
# From a process to the output of the client

A program with any number of threads is traced into a file, and the client converts the file with
its own two threads. Whatever the interleaving of the threads of the program was, and whatever that
of the threads of the client is, the client does not crash, and what it leaves behind is the
document with an entry for each call (`HawkTracer.RoundTrip.client_trace_of_process`).
-/

namespace HawkTracer.RoundTrip

open HawkTracer.Lib HawkTracer.Parser HawkTracer.Client ChromeTrace

/-- `ChromeTraceConverter`, as `main` uses it; what it leaves is the text of its file. -/
def chromeConversion (C : ConverterPlatform) : Conversion ChromeTrace Name where
  processEvent := processEvent C
  stop s := s.stop.file

/-- The session of a client with a file. -/
abbrev fileSession {χ ω : Type} (host : ByteOrder) (P : Platform) (depth : ℕ) (K : Conversion χ ω)
    (file : FileStream) (c₀ : χ) (os : List SessionOp) : Session FileStream χ ω :=
  runFrom (Session.step P (streamInput host) true depth K) (.started false (Reader.new file) c₀) os

/-- The steps of the session are steps that its threads can take. -/
abbrev FileSteps {χ ω : Type} (host : ByteOrder) (P : Platform) (depth : ℕ) (K : Conversion χ ω)
    (file : FileStream) (c₀ : χ) (os : List SessionOp) : Prop :=
  StepsMeet (Session.step P (streamInput host) true depth K) Session.Allowed
    (.started false (Reader.new file) c₀) os

/-- The file that the process leaves when its stream is dumped, behind the metadata. -/
abbrev traceFile {M : Machine} (H : Host) (stamps : ℕ → Stamp) (G : Registry) (p : Process M) :
    FileStream :=
  streamOf H stamps G (p.stream.map (LabelEvent.traced G))

variable {M : Machine} {meant : UInt64 → Label}

/-- The converter of a process that can be converted. -/
theorem foldlM_of_convert {C : ConverterPlatform} {c : Converter} {es : List Event} {text : Name}
    (h : ChromeTrace.convert C c es = .ok text) :
    ∃ s, es.foldlM (chromeConversion C).processEvent (ChromeTrace.init c true).1 = .ok s ∧
      (chromeConversion C).stop s = text := by
  rw [ChromeTrace.convert] at h
  rcases hs : es.foldlM (processEvent C) (ChromeTrace.init c true).1 with w | s
  · rw [hs] at h
    cases h
  · rw [hs] at h
    exact ⟨s, hs, Except.ok.inj h⟩

/-- **A program, the file of its trace, and the document that the client makes of it.** Threads
trace into their buffers, listeners are called and buffers flushed in any order; the client reads
the file with two threads, in any order, whatever labels were loaded into its map. If no string
needs an escape, the client does not crash, and what it has written in the end is a document in
which the objects of a thread are those of its calls, in their order, up to those that are still in
its buffer. -/
theorem client_trace_of_process (C : ConverterPlatform) (depth : ℕ) (host : ByteOrder) (H : Host)
    (stamps : ℕ → Stamp) (G : Registry) (map : TracepointMap) {ops : List ProcessOp}
    (hops : StepsMeet Process.step Process.Fine (.start : Process M) ops)
    (hmeans : ∀ op ∈ ops, op.Means M meant)
    (hverbatim : ∀ op ∈ ops, op.Adds M fun id => Json.Verbatim (meant id)) {os : List SessionOp}
    (hos : FileSteps host C.toPlatform (depth + 2) (chromeConversion C)
      (traceFile H stamps G (runFrom Process.step (.start : Process M) ops))
      (ChromeTrace.init ⟨map, 0⟩ true).1 os) :
    let process := runFrom Process.step (.start : Process M) ops
    let session := fileSession host C.toPlatform (depth + 2) (chromeConversion C)
      (traceFile H stamps G process) (ChromeTrace.init ⟨map, 0⟩ true).1 os
    session.crashed = none ∧ (session.main = [] → ∃ text doc js, session.output = some text ∧
      Json.document text = some doc ∧ doc.get (ascii "traceEvents") = some (.arr js) ∧
      ∀ thread, ∃ rest, (spansOf meant thread ops).map (spanJson thread) =
          threadEntries thread js ++ rest ∧
        rest.length = (callsIn thread (process.threads thread).buffer).length) := by
  intro process session
  obtain ⟨ds, text, doc, js, hread, htext, hdoc, hjs, hthreads⟩ :=
    trace_of_process C depth host H stamps G map hops hmeans hverbatim
  obtain ⟨s, hs, hstop⟩ := foldlM_of_convert htext
  obtain ⟨hcrash, houtput⟩ := Session.converted_of_run rfl (Session.ended_of_run hread) hs hos
  refine ⟨hcrash, fun hend => ⟨text, doc, js, ?_, hdoc, hjs, hthreads⟩⟩
  rw [← hstop]
  exact houtput hend

theorem client_trace_of_two_threads :
    let process := runFrom Process.step (.start : Process sampleMachine) sampleOps
    let file := traceFile sampleHost sampleStamps sampleRegistry process
    StepsMeet Process.step Process.Fine (.start : Process sampleMachine) sampleOps ∧
    (∀ op ∈ sampleOps, op.Means sampleMachine sampleMeaning) ∧
    (∀ op ∈ sampleOps, op.Adds sampleMachine fun id => Json.Verbatim (sampleMeaning id)) ∧
    ∃ os text doc js, FileSteps .big samplePlatform.toPlatform 2
        (chromeConversion samplePlatform) file (ChromeTrace.init ⟨.empty, 0⟩ true).1
        os ∧
      (fileSession .big samplePlatform.toPlatform 2
        (chromeConversion samplePlatform) file (ChromeTrace.init ⟨.empty, 0⟩ true).1
        os).output = some text ∧
      Json.document text = some doc ∧ doc.get (ascii "traceEvents") = some (.arr js) ∧
      threadEntries 1 js =
        [callJson 1 (ascii "f") 6000 2000, callJson 1 (ascii "main") 2000 10000] := by
  intro process file
  have hops : StepsMeet Process.step Process.Fine (.start : Process sampleMachine) sampleOps := by
    decide +kernel
  have hmeans : ∀ op ∈ sampleOps, op.Means sampleMachine sampleMeaning := by decide +kernel
  have hverbatim : ∀ op ∈ sampleOps,
      op.Adds sampleMachine fun id => Json.Verbatim (sampleMeaning id) := by
    simp only [sampleOps, List.forall_mem_cons]
    refine ⟨?_, trivial, ?_, trivial, ?_, trivial, trivial, trivial, trivial, trivial, trivial,
      trivial, trivial, by rintro op ⟨⟩⟩ <;> exact Json.verbatim_of_ascii (by decide)
  have hcalls : (spansOf sampleMeaning 1 sampleOps).map (fun c => (c.label, c.start, c.duration)) =
      [(ascii "f", 6000, 2000), (ascii "main", 2000, 10000)] := by decide +kernel
  have hbuffer : callsIn 1 (process.threads 1).buffer = [] := by decide +kernel
  -- an interleaving in which the client comes to the end
  obtain ⟨ds, text, -, -, hread, htext, -⟩ :=
    trace_of_process samplePlatform 0 .big sampleHost sampleStamps sampleRegistry .empty
      hops hmeans hverbatim
  obtain ⟨s, hs, -⟩ := foldlM_of_convert htext
  obtain ⟨os, hos, hend⟩ := Session.exists_run (Session.ended_of_run hread) rfl hs
  obtain ⟨-, houtput⟩ := client_trace_of_process samplePlatform 0 .big sampleHost
    sampleStamps sampleRegistry .empty hops hmeans hverbatim hos
  obtain ⟨text, doc, js, htext, hdoc, hjs, hthreads⟩ := houtput hend
  obtain ⟨rest, hrest, hlength⟩ := hthreads 1
  rw [hbuffer, List.length_nil, List.length_eq_zero_iff] at hlength
  rw [hlength, List.append_nil] at hrest
  refine ⟨hops, hmeans, hverbatim, os, text, doc, js, hos, htext, hdoc, hjs, ?_⟩
  have hentries := congrArg (List.map fun x : Label × ℕ × ℕ => callJson 1 x.1 x.2.1 x.2.2) hcalls
  rw [List.map_map] at hentries
  exact hrest.symm.trans hentries

end HawkTracer.RoundTrip
