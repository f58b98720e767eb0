import HawkTracer.Base.Guarded
import HawkTracer.Base.Run
import HawkTracer.Lib.FileDump

/-!
# The mutexes of the listeners

A listener that writes to a file or to the network has one mutex for its buffer and the file or
the server. `HawkTracer.Lib.LockedTcp.call` lists what each call of a TCP listener locks, unlocks
and uses, in the order of the source.

`ht_file_dump_listener_stop` unlocks and returns if the listener is stopped. `ht_tcp_listener_stop`
has this test the wrong way around, and unlocks where its sibling returns. So it uses buffer and
server without the mutex the first time, and what it has freed the second time; and
`ht_tcp_listener_destroy` calls it. The calls of a TCP listener are in order exactly as long as they
are callbacks (`HawkTracer.Lib.LockedTcp.orderly_iff_only_callbacks`).
-/

namespace HawkTracer.Lib

/-- What the mutex of a listener guards: the buffer, and where the buffer is written to. -/
inductive Guarded where
  | buffer
  | target

/-! ### The buffer of a listener -/

namespace FileDump

variable {E : Type} (R : CastRep E)

/-- What `ht_listener_buffer_process_*_events` uses for the chunks it passes on. -/
def chunkUses (buffer target : Bool) (chunks : List (List UInt8)) : List (GuardedAction Guarded) :=
  .use .buffer buffer :: chunks.flatMap fun _ => [.use .target target, .use .buffer buffer]

/-- What `ht_listener_buffer_flush` uses. -/
def flushUses (buffer target : Bool) : List (GuardedAction Guarded) :=
  [.use .buffer buffer, .use .target target, .use .buffer buffer]

theorem onlyUses_chunkUses (chunks : List (List UInt8)) : OnlyUses (chunkUses true true chunks) :=
  (OnlyUses.flatMap (fun _ => (onlyUses_nil.cons _).cons _) chunks).cons _

theorem onlyUses_flushUses : OnlyUses (flushUses true true) :=
  ((onlyUses_nil.cons _).cons _).cons _

end FileDump

/-! ### The TCP listener -/

/-- `HT_TCPListener`, as far as its mutex is concerned. -/
structure LockedTcp where
  buffer : ListenerBuffer
  /-- Whether the block of the buffer has not been freed. -/
  allocated : Bool
  /-- Whether `_tcp_server` is not `NULL`. -/
  server : Bool
  wasFlushed : Bool
  /-- Whether `_push_action_mutex` is held. -/
  held : Bool
  /-- Whether a call has not returned. -/
  stuck : Bool
  deriving DecidableEq

namespace LockedTcp

variable {E : Type} (R : CastRep E)

/-- `ht_tcp_listener_create`, when everything can be had. -/
def create (bufferSize : ℕ) : LockedTcp :=
  ⟨ListenerBuffer.init bufferSize, true, true, false, false, false⟩

/-- The calls of a TCP listener. A callback may find that the server is not running. -/
inductive Call where
  | callback (running : Bool) (n : Notification)
  | stop
  | destroy

/-- The use of the server. `ht_tcp_listener_stop` sets the pointer to a destroyed server to
`NULL`. -/
def useServer (s : LockedTcp) : GuardedAction Guarded := .use .target s.server

def useBuffer (s : LockedTcp) : GuardedAction Guarded := .use .buffer s.allocated

/-- `ht_tcp_listener_flush`. -/
def flush (s : LockedTcp) : List (GuardedAction Guarded) × LockedTcp :=
  (FileDump.flushUses s.allocated s.server,
    { s with buffer := s.buffer.flush.1, wasFlushed := true })

/-- `ht_tcp_listener_push_events`, after the tests. -/
def pushProcessed (s : LockedTcp) (r : ListenerBuffer × List (List UInt8)) :
    List (GuardedAction Guarded) × LockedTcp :=
  let s' := { s with buffer := r.1, wasFlushed := s.wasFlushed || !r.2.isEmpty }
  let uses := FileDump.chunkUses s.allocated s.server r.2
  if s'.wasFlushed then (uses ++ s'.flush.1, { s'.flush.2 with wasFlushed := false })
  else (uses, s')

/-- `ht_tcp_listener_push_events`. -/
def pushEvents (s : LockedTcp) (running : Bool) (n : Notification) :
    List (GuardedAction Guarded) × LockedTcp :=
  if !s.server then ([.lock, .unlock], s)
  else if !running then ([.lock, s.useServer, .unlock], s)
  else
    match s.buffer.process R n with
    | some r =>
      (.lock :: (s.useServer :: (s.pushProcessed r).1 ++ [.unlock]), (s.pushProcessed r).2)
    | none => ([.lock, s.useServer, s.useBuffer], { s with stuck := true })

/-- `ht_tcp_listener_stop`. -/
def stop (s : LockedTcp) : List (GuardedAction Guarded) × LockedTcp :=
  ([.lock] ++ (if s.server then [.unlock] else []) ++ s.flush.1 ++
      -- `ht_tcp_server_stop`, `ht_listener_buffer_deinit` and `ht_tcp_server_destroy`
      [s.useServer, s.useBuffer, s.useServer] ++ [.unlock, .unlock],
    { s.flush.2 with allocated := false, server := false })

/-- What a call does, and the listener it leaves. The mutex is followed by `step`. -/
def call (s : LockedTcp) : Call → List (GuardedAction Guarded) × LockedTcp
  | .callback running n => s.pushEvents R running n
  | .stop => s.stop
  | .destroy => if s.server then s.stop else ([], s)

/-- One call. After one that has not returned there is no other. -/
def step (s : LockedTcp) (c : Call) : LockedTcp :=
  if s.stuck then s else { (s.call R c).2 with held := heldAfter s.held (s.call R c).1 }

/-- **The call is in order**: it unlocks the mutex only while it is held, and uses buffer and
server only while the mutex is held and only before they are freed; the mutex is free when it
returns; and to stop a stopped listener changes nothing. -/
structure Orderly (s : LockedTcp) (c : Call) : Prop where
  disciplined : Disciplined s.held (s.call R c).1
  free : (s.step R c).stuck = false → (s.step R c).held = false
  stop_again : c = .stop → s.server = false → s.step R c = s

/-- The call is a callback. -/
def Call.IsCallback (c : Call) : Prop := ∃ running n, c = .callback running n

/-- The listener has not been stopped, and the mutex is free between the calls. -/
def Serving (s : LockedTcp) : Prop :=
  s.stuck = false → s.held = false ∧ s.allocated = true ∧ s.server = true

variable {R} {s : LockedTcp} {running : Bool} {n : Notification}

/-- What a callback does after the tests. -/
theorem pushProcessed_spec (ha : s.allocated = true) (hs : s.server = true)
    (r : ListenerBuffer × List (List UInt8)) :
    OnlyUses (s.pushProcessed r).1 ∧ (s.pushProcessed r).2.allocated = true ∧
      (s.pushProcessed r).2.server = true := by
  have hchunks := FileDump.onlyUses_chunkUses r.2
  rw [pushProcessed, ha, hs]
  split
  · exact ⟨hchunks.append FileDump.onlyUses_flushUses, rfl, rfl⟩
  · exact ⟨hchunks, rfl, rfl⟩

/-- **A callback of a listener that is not stopped**: a critical section, or what it does before
it does not return. -/
theorem pushEvents_spec (ha : s.allocated = true) (hs : s.server = true) (running : Bool)
    (n : Notification) :
    Disciplined false (s.pushEvents R running n).1 ∧
      ((s.pushEvents R running n).2.stuck = false →
        heldAfter false (s.pushEvents R running n).1 = false) ∧
      (s.pushEvents R running n).2.allocated = true ∧
      (s.pushEvents R running n).2.server = true := by
  rw [pushEvents, useServer, useBuffer, ha, hs]
  rcases running with _ | _
  · have hsection := disciplined_section (onlyUses_nil.cons Guarded.target)
    exact ⟨hsection.1, fun _ => hsection.2, ha, hs⟩
  · rcases hr : s.buffer.process R n with _ | r
    · exact ⟨disciplined_lock ((onlyUses_nil.cons _).cons _), nofun, rfl, rfl⟩
    · obtain ⟨huses, ha', hs'⟩ := pushProcessed_spec ha hs r
      have hsection := disciplined_section (huses.cons Guarded.target)
      exact ⟨hsection.1, fun _ => hsection.2, ha', hs'⟩

theorem step_of_not_stuck (h : s.stuck = false) (c : Call) :
    s.step R c = { (s.call R c).2 with held := heldAfter s.held (s.call R c).1 } := by
  rw [step, h]
  rfl

theorem serving_create (bufferSize : ℕ) : (create bufferSize).Serving := fun _ => ⟨rfl, rfl, rfl⟩

/-- A callback is in order, and leaves a listener that is not stopped. -/
theorem Serving.callback (h : s.Serving) (hstuck : s.stuck = false) :
    s.Orderly R (.callback running n) ∧ (s.step R (.callback running n)).Serving := by
  obtain ⟨hheld, ha, hs⟩ := h hstuck
  obtain ⟨hdisc, hfree, ha', hs'⟩ := pushEvents_spec (R := R) ha hs running n
  have hstep := s.step_of_not_stuck (R := R) hstuck (.callback running n)
  rw [hheld] at hstep
  refine ⟨⟨?_, ?_, nofun⟩, ?_⟩
  · rw [hheld]
    exact hdisc
  · rw [hstep]
    exact hfree
  · rw [hstep]
    exact fun hstuck' => ⟨hfree hstuck', ha', hs'⟩

/-- The first stop uses the buffer without the mutex. -/
theorem not_disciplined_stop (hs : s.server = true) : ¬ Disciplined s.held s.stop.1 := by
  rw [stop, hs]
  rintro ⟨-, -, h⟩
  exact not_disciplined_of_use _ _ h

/-- Anything else than a callback is out of order. -/
theorem Serving.isCallback (h : s.Serving) (hstuck : s.stuck = false) {c : Call}
    (hc : s.Orderly R c) : c.IsCallback := by
  obtain ⟨-, -, hs⟩ := h hstuck
  rcases c with ⟨running, n⟩ | _ | _
  · exact ⟨running, n, rfl⟩
  · exact absurd hc.disciplined (not_disciplined_stop hs)
  · have hdisc := hc.disciplined
    rw [call, hs] at hdisc
    exact absurd hdisc (not_disciplined_stop hs)

theorem Serving.step (h : s.Serving) {c : Call} (hc : s.stuck = false → c.IsCallback) :
    (s.step R c).Serving := by
  rcases hstuck : s.stuck with _ | _
  · obtain ⟨running, n, rfl⟩ := hc hstuck
    exact (h.callback hstuck).2
  · rw [LockedTcp.step, hstuck]
    exact h

/-- **The calls of a TCP listener are in order exactly as long as they are callbacks.** -/
theorem orderly_iff_only_callbacks (R : CastRep E) (bufferSize : ℕ) (calls : List Call) :
    StepsMeet (step R) (fun s c => s.stuck = false → s.Orderly R c) (create bufferSize) calls ↔
      StepsMeet (step R) (fun s c => s.stuck = false → c.IsCallback) (create bufferSize) calls := by
  have hcreate := serving_create bufferSize
  constructor
  · intro h
    refine StepsMeet.imp (fun s c hs hc => hs.step fun hstuck => ?_)
      (fun s c hs hc hstuck => ?_) hcreate h h
    · exact hs.isCallback hstuck (hc hstuck)
    · exact hs.isCallback hstuck (hc hstuck)
  · intro h
    refine StepsMeet.imp (fun s c hs hc => hs.step hc) (fun s c hs hc hstuck => ?_) hcreate h h
    obtain ⟨running, n, rfl⟩ := hc hstuck
    exact (hs.callback hstuck).1

/-- **A listener that is stopped twice and destroyed**: the first stop gives the mutex back before
it uses anything, and unlocks it twice again in the end; the second one writes a freed block to a
server that is gone. -/
theorem stopped_twice_out_of_order :
    ¬ StepsMeet (step (htEventRep .little))
        (fun s c => s.stuck = false → s.Orderly (htEventRep .little) c) (create 64)
        [.stop, .stop, .destroy] ∧
      ((create 64).call (htEventRep .little) .stop).1 =
        [.lock, .unlock, .use .buffer true, .use .target true, .use .buffer true,
          .use .target true, .use .buffer true, .use .target true, .unlock, .unlock] ∧
      (((create 64).step (htEventRep .little) .stop).call (htEventRep .little) .stop).1 =
        [.lock, .use .buffer false, .use .target false, .use .buffer false,
          .use .target false, .use .buffer false, .use .target false, .unlock, .unlock] := by
  refine ⟨?_, rfl, rfl⟩
  rintro ⟨hstop, -⟩
  exact not_disciplined_stop (s := create 64) rfl (hstop rfl).disciplined

end LockedTcp

end HawkTracer.Lib
