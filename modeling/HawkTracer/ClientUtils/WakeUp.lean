import HawkTracer.Base.Monitor
import HawkTracer.ClientUtils.TcpClientStream

/-!
# Waiting for the end of a stream

Two functions wait on a condition variable until there is nothing to wait for:
`ProtocolReader::wait_for_complete` until the reading thread has stopped, and
`TCPClientStream::_wait_for_data` until there is data or the connection has ended. The threads
that end it, `_read_events` and `_run`, change `_is_running` and `_sock_fd` without the mutex
of the waiter and then call `notify_one`.

Both are a `HawkTracer.Monitor`. A waiter that has just tested its predicate when the end
comes blocks after the last `notify_one` and is not woken up
(`HawkTracer.ClientUtils.wake_up_lost`); and of two waiters only one is.
`HawkTracer.ClientUtils.not_lost_iff_inTime` says which interleavings lose no wake-up. In those
the waits are the ones of a `HawkTracer.ClientUtils.TcpSession`, which end with an arrival
(`HawkTracer.ClientUtils.session_of_run`).
-/

namespace HawkTracer

namespace Parser

/-- `wait_for_complete`: the shared state is `_is_running`. -/
def waitForComplete : Awaited Bool Unit where
  holds isRunning := !isRunning
  use isRunning _ := isRunning

/-- The end of `_read_events`. -/
def readEventsEnd : List (MonitorAction Bool) := [.change fun _ => false, .notify]

end Parser

namespace ClientUtils

/-- `_wait_for_data`. A reader that has found data uses some bytes of the front chunk. -/
def waitForData : Awaited TcpClientStream ℕ where
  holds := TcpClientStream.waitIsOver
  use s n := if s.datas.isEmpty then s else s.use n

/-- `_run` over a connection that brings the given chunks: each is put into the queue with
the mutex, and announced without it. -/
def runActions (chunks : List (List UInt8)) : List (MonitorAction TcpClientStream) :=
  (chunks.flatMap fun chunk => [.lock, .change fun s => s.push chunk, .unlock, .notify]) ++
    [.change TcpClientStream.disconnect, .notify]

theorem isConnected_use (s : TcpClientStream) (n : ℕ) : (s.use n).isConnected = s.isConnected := by
  unfold TcpClientStream.use TcpClientStream.popIfUsed
  split <;> rfl

variable {τ : Type} [DecidableEq τ]

/-- **Which interleavings lose no wake-up**: those in which no waiter blocks after the last
action of the finishing thread, and at most one is blocked when it comes to it. -/
theorem not_lost_iff_inTime :
    (∀ os : List (Monitor.Op τ Unit),
      StepsMeet (Monitor.step Parser.waitForComplete) Monitor.Allowed
          (.start true Parser.readEventsEnd) os →
        (Throughout (Monitor.step Parser.waitForComplete)
            (fun s => ¬Monitor.Lost Parser.waitForComplete s)
            (.start true Parser.readEventsEnd) os ↔
          StepsMeet (Monitor.step Parser.waitForComplete) Monitor.InTime
            (.start true Parser.readEventsEnd) os)) ∧
      ∀ (chunks : List (List UInt8)) (os : List (Monitor.Op τ ℕ)),
        StepsMeet (Monitor.step waitForData) Monitor.Allowed
            (.start ⟨[], true⟩ (runActions chunks)) os →
          (Throughout (Monitor.step waitForData) (fun s => ¬Monitor.Lost waitForData s)
              (.start ⟨[], true⟩ (runActions chunks)) os ↔
            StepsMeet (Monitor.step waitForData) Monitor.InTime
              (.start ⟨[], true⟩ (runActions chunks)) os) := by
  constructor
  · intro os hos
    exact Monitor.not_lost_iff (F := fun isRunning => isRunning = false) (fun _ => rfl)
      (fun _ _ h => h) (fun isRunning h => by rw [h]; rfl) true [] hos
  · intro chunks os hos
    refine Monitor.not_lost_iff (F := fun s => s.isConnected = false) (fun _ => rfl)
      (fun s n h => ?_) (fun s h => ?_) _ _ hos
    · simp only [waitForData]
      split
      · exact h
      · exact (isConnected_use s n).trans h
    · simp [waitForData, TcpClientStream.waitIsOver, h]

/-- The waiter tests its predicate, the other thread makes it hold and wakes up nobody, and
the waiter blocks; for the reader and for an empty connection. -/
theorem wake_up_lost :
    (∃ os : List (Monitor.Op Unit Unit),
      StepsMeet (Monitor.step Parser.waitForComplete) Monitor.Allowed
          (.start true Parser.readEventsEnd) os ∧
        ¬Throughout (Monitor.step Parser.waitForComplete)
          (fun s => ¬Monitor.Lost Parser.waitForComplete s)
          (.start true Parser.readEventsEnd) os) ∧
      ∃ os : List (Monitor.Op Unit ℕ),
        StepsMeet (Monitor.step waitForData) Monitor.Allowed
            (.start ⟨[], true⟩ (runActions [])) os ∧
          ¬Throughout (Monitor.step waitForData) (fun s => ¬Monitor.Lost waitForData s)
            (.start ⟨[], true⟩ (runActions [])) os := by
  constructor
  · refine ⟨[.lock (), .test (), .act none, .act none, .block ()], ?_, fun h => ?_⟩
    · decide
    · exact h.last ⟨(), rfl, rfl, rfl⟩
  · refine ⟨[.lock (), .test (), .act none, .act none, .block ()], ?_, fun h => ?_⟩
    · decide
    · exact h.last ⟨(), rfl, rfl, rfl⟩

/-- The waiter blocks first, and is woken up; on a connection, for a chunk and for the end. -/
theorem not_lost_of_blocked_first :
    Throughout (Monitor.step Parser.waitForComplete)
        (fun s => ¬Monitor.Lost Parser.waitForComplete s) (.start true Parser.readEventsEnd)
        [.lock (), .test (), .block (), .act none, .act (some ()), .lock (), .test ()] ∧
      Throughout (Monitor.step waitForData) (fun s => ¬Monitor.Lost waitForData s)
        (.start ⟨[], true⟩ (runActions [[7]]))
        [.lock (), .test (), .block (), .act none, .act none, .act none, .act (some ()), .lock (),
          .test (), .leave () 1, .lock (), .test (), .block (), .act none, .act (some ())] := by
  constructor
  · exact (not_lost_iff_inTime.1 _ (by decide)).mpr (by decide)
  · exact (not_lost_iff_inTime.2 [[7]] _ (by decide)).mpr (by decide)

/-! ### The session behind the waits -/

/-- What an action changes. -/
def actionChange : MonitorAction TcpClientStream → Option (TcpClientStream → TcpClientStream)
  | .change f => some f
  | _ => none

/-- What is still to arrive. -/
def TcpSession.toArrive (s : TcpSession) : List (TcpClientStream → TcpClientStream) :=
  if s.isConnected then
    (s.incoming.map fun chunk s => s.push chunk) ++ [TcpClientStream.disconnect]
  else []

/-- A session goes on: something arrives, or a reader uses bytes of the front chunk. -/
def GoesOn (s s' : TcpSession) : Prop := s' = s.recv ∨ ∃ n, s' = (s.takeFront n).2

/-- **A state of the monitor is one of the session** that has gone on from the given one: the
stream is the same, and so is what `_run` is going to do with it. -/
def Follows (start : TcpSession) (m : Monitor TcpClientStream τ) (s : TcpSession) : Prop :=
  Relation.ReflTransGen GoesOn start s ∧ m.shared = s.toTcpClientStream ∧
    m.todo.filterMap actionChange = s.toArrive

variable {start s : TcpSession} {m : Monitor TcpClientStream τ}

omit [DecidableEq τ] in
theorem follows_start (chunks : List (List UInt8)) (arrivals : ℕ → ℕ) :
    Follows (.start chunks arrivals)
      (.start ⟨[], true⟩ (runActions chunks) : Monitor TcpClientStream τ)
      (.start chunks arrivals) := by
  refine ⟨.refl, rfl, ?_⟩
  induction chunks with
  | nil => rfl
  | cons chunk chunks ih => exact congrArg (_ :: ·) ih

theorem recv_of_toArrive {f : TcpClientStream → TcpClientStream}
    {fs : List (TcpClientStream → TcpClientStream)} (h : s.toArrive = f :: fs) :
    s.recv.toTcpClientStream = f s.toTcpClientStream ∧ s.recv.toArrive = fs := by
  rw [TcpSession.toArrive] at h
  split at h
  · next hc =>
    rw [TcpSession.recv, if_pos hc]
    rcases hin : s.incoming with _ | ⟨chunk, chunks⟩
    · rw [hin] at h
      cases h
      exact ⟨rfl, rfl⟩
    · rw [hin] at h
      cases h
      exact ⟨rfl, if_pos hc⟩
  · cases h

/-- **A step of the monitor**: the session goes on, or it stays as it is. -/
theorem Follows.step (h : Follows start m s) (o : Monitor.Op τ ℕ) :
    ∃ s', Follows start (m.step waitForData o) s' := by
  have ⟨hgoes, hshared, htodo⟩ := h
  cases o with
  | lock t | test t | block t | wake t =>
    rw [Monitor.step]
    split <;> exact ⟨s, h⟩
  | leave t n =>
    rw [Monitor.step]
    split
    · by_cases hempty : m.shared.datas.isEmpty = true
      · exact ⟨s, hgoes, (if_pos hempty).trans hshared, htodo⟩
      · refine ⟨_, hgoes.tail (.inr ⟨n, rfl⟩),
          (if_neg hempty).trans (congrArg (·.use n) hshared), htodo.trans ?_⟩
        rw [TcpSession.toArrive, TcpSession.toArrive, TcpSession.takeFront, isConnected_use]
    · exact ⟨s, h⟩
  | act t =>
    rw [Monitor.step, Monitor.act]
    rcases hm : m.todo with _ | ⟨a, as⟩
    · exact ⟨s, h⟩
    · rw [hm] at htodo
      cases a with
      | lock =>
        dsimp only
        split
        · exact ⟨s, hgoes, hshared, htodo⟩
        · exact ⟨s, h⟩
      | unlock => exact ⟨s, hgoes, hshared, htodo⟩
      | change f =>
        obtain ⟨hrecv, harrive⟩ := recv_of_toArrive htodo.symm
        exact ⟨s.recv, hgoes.tail (.inl rfl), by rw [hrecv, hshared], harrive.symm⟩
      | notify => cases t <;> exact ⟨s, hgoes, hshared, htodo⟩

/-- **Every interleaving is a session**, with some arrivals and some uses. As long as the wait is
not over, an arrival is to come, and if no wake-up is lost, nobody is blocked when the last has
come. -/
theorem session_of_run (chunks : List (List UInt8)) (arrivals : ℕ → ℕ)
    {os : List (Monitor.Op τ ℕ)} (hlost : ¬ Monitor.Lost waitForData
      (runFrom (Monitor.step waitForData) (.start ⟨[], true⟩ (runActions chunks)) os)) :
    let m := runFrom (Monitor.step waitForData) (.start ⟨[], true⟩ (runActions chunks)) os
    ∃ s, Follows (.start chunks arrivals) m s ∧
      (s.waitIsOver = false → ∃ f fs, m.todo.filterMap actionChange = f :: fs ∧
        f m.shared = s.recv.toTcpClientStream) ∧
      (m.todo = [] → ∀ t, m.place t ≠ .blocked) := by
  intro m
  obtain ⟨s, hfollows⟩ := (throughout_of_step
    (I := fun m : Monitor TcpClientStream τ => ∃ s, Follows (.start chunks arrivals) m s)
    (fun m o hm _ => hm.elim fun _ h => h.step o) ⟨_, follows_start chunks arrivals⟩
    (stepsMeet_of_forall fun _ _ => trivial)).last
  have hover : s.toArrive = [] → s.waitIsOver = true := by
    intro hnil
    have hclosed : s.isConnected = false := by simpa [TcpSession.toArrive] using hnil
    simp [TcpClientStream.waitIsOver, hclosed]
  refine ⟨s, hfollows, fun hwait => ?_, fun hdone t ht => ?_⟩
  · rcases harrive : s.toArrive with _ | ⟨f, fs⟩
    · cases hwait.symm.trans (hover harrive)
    · exact ⟨f, fs, hfollows.2.2.trans harrive, hfollows.2.1 ▸ (recv_of_toArrive harrive).1.symm⟩
  · refine hlost ⟨t, ht, ?_, hdone⟩
    have hnil : s.toArrive = [] := by rw [← hfollows.2.2, hdone, List.filterMap_nil]
    exact hfollows.2.1 ▸ hover hnil

end ClientUtils

end HawkTracer
