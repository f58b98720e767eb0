import HawkTracer.Base.Run
import HawkTracer.Lib.Tcp

/-!
# The TCP server and its accepting thread

`ht_tcp_server_start` opens a socket and starts a thread that accepts connections on it, and
`ht_tcp_server_stop` ends both. They share the server: the thread reads `server_sock_fd`, without
a lock, to see whether it should go on and on what to call `accept`, and it puts the sockets of
the clients into the bag.

A call is made by one thread at a time, the owner of the server, and is a list of actions
(`HawkTracer.Lib.TcpServer.Action`); `stop` is also what `start` and `destroy` begin with if the
server is running, and what `start` ends with if the socket cannot be set up. The accepting thread
and writers go on between the actions. What the operating system answers is part of the step: a
new descriptor is one that was never used, since none is ever closed. On a socket that listens
`accept` waits until a client connects, unless it fails for a reason of its own
(`HawkTracer.Lib.TcpServer.Op.abort`); on a socket that has been shut down it cannot succeed, and
does not wait.

The thread that accepts is alive exactly while it may be: in every interleaving it is gone before
`stop` returns, so that it never sees the server that `destroy` frees
(`HawkTracer.Lib.TcpServer.thread_of_run`), and once the socket is shut down it needs at most
three steps of its own for that, whatever it was doing
(`HawkTracer.Lib.TcpServer.stop_returns`). No client gets into the bag before the callback for it
has been called (`HawkTracer.Lib.TcpServer.clients_greeted`). But the bag is cleared first, before
the thread can know that it is to end, and the rest of `stop` leaves a client in it that comes in
afterwards.
-/

namespace HawkTracer.Lib

/-- A file descriptor. -/
abbrev Fd := ℕ

/-- Where `_ht_tcp_server_run` is. -/
inductive AcceptPlace where
  /-- It is about to test whether the server is running. -/
  | test
  /-- It is about to read the descriptor for `accept`. -/
  | load
  /-- It is in `accept`, on the descriptor it has read. -/
  | waiting (fd : Option Fd)
  /-- It is about to call the callback for a new client. -/
  | connected (client : Fd)
  /-- It is about to put the client into the bag. -/
  | adding (client : Fd)
  | done
  deriving DecidableEq

namespace TcpServer

/-- What the owner does in its calls, one thing after another. -/
inductive Action where
  /-- `ht_bag_int_clear`, in `stop`. -/
  | clear
  /-- `server_sock_fd = -1`, in `stop`. -/
  | forget
  /-- `shutdown`, in `stop`, of the descriptor that was there. -/
  | shutdown (fd : Fd)
  /-- `ht_thread_join` and `ht_thread_destroy`, in `stop`, if there is a thread. -/
  | join
  /-- `socket`, in `start`. -/
  | socket
  /-- `setsockopt`, `bind` and `listen`, in `start`. -/
  | setup
  /-- `ht_thread_create`, in `start`. -/
  | spawn
  /-- The bag, the mutex and the server are freed, in `destroy`. -/
  | deinit
  deriving DecidableEq

/-- The functions the owner calls. -/
inductive Call where
  | start | stop | destroy
  deriving DecidableEq

end TcpServer

/-- `HT_TCPServer`, with the accepting thread, what is left of the call the owner is in, and what
the operating system knows. -/
structure TcpServer where
  /-- `server_sock_fd`, with `none` for `-1`. -/
  serverFd : Option Fd
  /-- `accept_client_thread`, with `none` for `NULL`. -/
  thread : Option AcceptPlace
  /-- The bag `client_sock_fd`. -/
  clients : List Fd
  todo : List TcpServer.Action
  freed : Bool
  /-- The clients for which the callback has been called. -/
  greeted : List Fd
  /-- The sockets on which clients can be accepted. -/
  listening : List Fd
  /-- The descriptors that have ever been opened. -/
  opened : List Fd
  /-- What has been sent to each client. -/
  sent : Fd → List UInt8

namespace TcpServer

/-- `ht_tcp_server_create`. -/
def create : TcpServer where
  serverFd := none
  thread := none
  clients := []
  todo := []
  freed := false
  greeted := []
  listening := []
  opened := []
  sent := fun _ => []

/-- `ht_tcp_server_stop`. -/
def stopActions (s : TcpServer) : List Action :=
  match s.serverFd with
  | none => []
  | some fd => [.clear, .forget, .shutdown fd, .join]

/-- What a call consists of. -/
def actions (s : TcpServer) : Call → List Action
  | .start => s.stopActions ++ [.socket, .setup, .spawn]
  | .stop => s.stopActions
  | .destroy => s.stopActions ++ [.deinit]

/-- The next action of the owner. The answer of the operating system is a new descriptor for
`socket`, and whether they succeed for `setsockopt`, `bind` and `listen`. -/
def ownerStep (s : TcpServer) (answer : Option Fd) : TcpServer :=
  match s.todo with
  | [] => s
  | .clear :: rest => { s with clients := [], todo := rest }
  | .forget :: rest => { s with serverFd := none, todo := rest }
  | .shutdown fd :: rest => { s with listening := s.listening.filter (· ≠ fd), todo := rest }
  | .join :: rest => { s with thread := none, todo := rest }
  | .socket :: rest =>
    match answer with
    | none => { s with serverFd := none, todo := [] }
    | some fd => { s with serverFd := some fd, opened := fd :: s.opened, todo := rest }
  | .setup :: rest =>
    match answer with
    | none => { s with todo := s.stopActions }
    | some _ => { s with listening := s.serverFd.toList ++ s.listening, todo := rest }
  | .spawn :: rest => { s with thread := some .test, todo := rest }
  | .deinit :: rest => { s with freed := true, todo := rest }

/-- The next step of `_ht_tcp_server_run`; the answer is the one of `accept`. -/
def threadStep (s : TcpServer) (answer : Option Fd) : TcpServer :=
  match s.thread with
  | none | some .done => s
  | some .test => { s with thread := some (if s.serverFd = none then .done else .load) }
  | some .load => { s with thread := some (.waiting s.serverFd) }
  | some (.waiting _) =>
    match answer with
    | none => { s with thread := some .test }
    | some c => { s with thread := some (.connected c), opened := c :: s.opened }
  | some (.connected c) => { s with thread := some (.adding c), greeted := s.greeted ++ [c] }
  | some (.adding c) => { s with thread := some .test, clients := s.clients ++ [c] }

/-- A step. -/
inductive Op where
  /-- The owner makes a call. -/
  | call (c : Call)
  /-- The owner goes on. -/
  | owner (answer : Option Fd)
  /-- The accepting thread goes on. -/
  | thread (answer : Option Fd)
  /-- `accept` fails although the socket listens: it is interrupted, the client has gone, or there
  are too many open files. -/
  | abort
  /-- `ht_tcp_server_write`, by any thread, with the answers of `send`. -/
  | write (sends : Fd → List ℕ) (bytes : List UInt8)

/-- The server after a step. -/
def step (s : TcpServer) : Op → TcpServer
  | .call c => { s with todo := s.actions c }
  | .owner answer => s.ownerStep answer
  | .thread answer => s.threadStep answer
  | .abort => s.threadStep none
  | .write sends bytes =>
    let r := writeFrom sends bytes s.clients.length 0 s.clients s.sent
    { s with clients := r.1, sent := r.2 }

/-- **When a step can be taken.** A call is made when the one before has returned and not after
`destroy`, and `join` returns when the thread has ended. `accept` returns a client of a socket
that listens, and without one at once if the socket does not. Nobody writes to a server that has
been freed. -/
def Allowed (s : TcpServer) : Op → Prop
  | .call _ => s.todo = [] ∧ s.freed = false
  | .owner answer =>
    match s.todo with
    | [] => False
    | .join :: _ => s.thread = none ∨ s.thread = some .done
    | .socket :: _ => ∀ fd ∈ answer, fd ∉ s.opened
    | _ => True
  | .thread answer =>
    match s.thread with
    | none | some .done => False
    | some (.waiting fd) =>
      match answer with
      | some c => c ∉ s.opened ∧ ∃ socket ∈ s.listening, fd = some socket
      | none => ∀ socket ∈ s.listening, fd ≠ some socket
    | _ => True
  | .abort =>
    match s.thread with
    | some (.waiting _) => True
    | _ => False
  | .write _ _ => s.freed = false

instance (s : TcpServer) : (o : Op) → Decidable (s.Allowed o)
  | .call _ => inferInstanceAs (Decidable (_ ∧ _))
  | .owner answer => by
    unfold Allowed
    dsimp only
    split <;> infer_instance
  | .thread answer => by
    unfold Allowed
    dsimp only
    split
    · infer_instance
    · infer_instance
    · split <;> infer_instance
    · infer_instance
  | .abort => by
    unfold Allowed
    dsimp only
    split <;> infer_instance
  | .write _ _ => inferInstanceAs (Decidable (_ = _))

/-! ### The phases of the server -/

/-- What can follow the actions of `stop`. -/
def Rest (rest : List Action) : Prop :=
  rest = [] ∨ rest = [.socket, .setup, .spawn] ∨ rest = [.deinit]

/-- **Where the owner is tells what there is**: a thread, a descriptor, a socket that listens. -/
inductive Phase (s : TcpServer) : Prop where
  /-- No call is being made, and the server is not running. -/
  | stopped (htodo : s.todo = []) (hfd : s.serverFd = none) (hthread : s.thread = none)
      (hlistening : s.listening = [])
  /-- No call is being made, and the server is running. -/
  | running (fd : Fd) (p : AcceptPlace) (htodo : s.todo = []) (hfreed : s.freed = false)
      (hfd : s.serverFd = some fd) (hthread : s.thread = some p) (hlistening : s.listening = [fd])
  | clear (fd : Fd) (rest : List Action)
      (htodo : s.todo = [.clear, .forget, .shutdown fd, .join] ++ rest) (hfreed : s.freed = false)
      (hrest : Rest rest) (hfd : s.serverFd = some fd) (hlistening : ∀ fd' ∈ s.listening, fd' = fd)
  | forget (fd : Fd) (rest : List Action) (htodo : s.todo = [.forget, .shutdown fd, .join] ++ rest)
      (hfreed : s.freed = false) (hrest : Rest rest) (hfd : s.serverFd = some fd)
      (hlistening : ∀ fd' ∈ s.listening, fd' = fd)
  | shutdown (fd : Fd) (rest : List Action) (htodo : s.todo = [.shutdown fd, .join] ++ rest)
      (hfreed : s.freed = false) (hrest : Rest rest) (hfd : s.serverFd = none)
      (hlistening : ∀ fd' ∈ s.listening, fd' = fd)
  | join (rest : List Action) (htodo : s.todo = .join :: rest) (hfreed : s.freed = false)
      (hrest : Rest rest) (hfd : s.serverFd = none) (hlistening : s.listening = [])
  /-- The server has been stopped, and the call goes on. -/
  | resume (rest : List Action) (htodo : s.todo = rest) (hfreed : s.freed = false)
      (hrest : rest = [.socket, .setup, .spawn] ∨ rest = [.deinit]) (hfd : s.serverFd = none)
      (hthread : s.thread = none) (hlistening : s.listening = [])
  | setup (fd : Fd) (htodo : s.todo = [.setup, .spawn]) (hfreed : s.freed = false)
      (hfd : s.serverFd = some fd) (hthread : s.thread = none) (hlistening : s.listening = [])
  | spawn (fd : Fd) (htodo : s.todo = [.spawn]) (hfreed : s.freed = false)
      (hfd : s.serverFd = some fd) (hthread : s.thread = none) (hlistening : s.listening = [fd])

theorem phase_create : create.Phase := .stopped rfl rfl rfl rfl

variable {s : TcpServer}

/-- What remains when the server has been stopped. -/
theorem phase_of_rest {rest : List Action} (htodo : s.todo = rest) (hrest : Rest rest)
    (hfreed : s.freed = false) (hfd : s.serverFd = none) (hthread : s.thread = none)
    (hlistening : s.listening = []) : s.Phase := by
  rcases hrest with rfl | hrest
  · exact .stopped htodo hfd hthread hlistening
  · exact .resume rest htodo hfreed hrest hfd hthread hlistening

theorem Phase.call (h : s.Phase) {c : Call} (hc : s.Allowed (.call c)) :
    (s.step (.call c)).Phase := by
  obtain ⟨htodo', hfreed'⟩ := hc
  have hrest : ∃ rest, s.actions c = s.stopActions ++ rest ∧ Rest rest := by
    cases c with
    | start => exact ⟨_, rfl, .inr (.inl rfl)⟩
    | stop => exact ⟨[], (List.append_nil _).symm, .inl rfl⟩
    | destroy => exact ⟨_, rfl, .inr (.inr rfl)⟩
  obtain ⟨rest, hactions, hrest⟩ := hrest
  cases h with
  | stopped htodo hfd hthread hlistening =>
    have hstop : s.stopActions = [] := by rw [stopActions, hfd]
    rw [hstop] at hactions
    exact phase_of_rest hactions hrest hfreed' hfd hthread hlistening
  | running fd p htodo hfreed hfd hthread hlistening =>
    have hstop : s.stopActions = [.clear, .forget, .shutdown fd, .join] := by rw [stopActions, hfd]
    rw [hstop] at hactions
    refine .clear fd rest hactions hfreed hrest hfd fun fd' hfd' => ?_
    have hmem : fd' ∈ s.listening := hfd'
    rw [hlistening] at hmem
    exact List.mem_singleton.mp hmem
  | resume rest htodo hfreed hrest =>
    rw [htodo'] at htodo
    rcases hrest with rfl | rfl <;> cases htodo
  | clear fd rest htodo | forget fd rest htodo | shutdown fd rest htodo | join rest htodo
  | setup fd htodo | spawn fd htodo =>
    rw [htodo'] at htodo
    cases htodo

theorem Phase.owner (h : s.Phase) {answer : Option Fd} (hallowed : s.Allowed (.owner answer)) :
    (s.step (.owner answer)).Phase := by
  rw [step]
  unfold ownerStep
  cases h with
  | stopped htodo | running fd p htodo =>
    unfold Allowed at hallowed
    rw [htodo] at hallowed
    exact hallowed.elim
  | clear fd rest htodo hfreed hrest hfd hlistening =>
    rw [htodo]
    exact .forget fd rest rfl hfreed hrest hfd hlistening
  | forget fd rest htodo hfreed hrest hfd hlistening =>
    rw [htodo]
    exact .shutdown fd rest rfl hfreed hrest rfl hlistening
  | shutdown fd rest htodo hfreed hrest hfd hlistening =>
    rw [htodo]
    refine .join rest rfl hfreed hrest hfd ?_
    exact List.filter_eq_nil_iff.mpr fun fd' hfd' => by simp [hlistening fd' hfd']
  | join rest htodo hfreed hrest hfd hlistening =>
    rw [htodo]
    exact phase_of_rest rfl hrest hfreed hfd rfl hlistening
  | resume rest htodo hfreed hrest hfd hthread hlistening =>
    rcases hrest with rfl | rfl
    · rw [htodo]
      cases answer with
      | none => exact .stopped rfl rfl hthread hlistening
      | some fd => exact .setup fd rfl hfreed rfl hthread hlistening
    · rw [htodo]
      exact .stopped rfl hfd hthread hlistening
  | setup fd htodo hfreed hfd hthread hlistening =>
    rw [htodo]
    cases answer with
    | none =>
      refine .clear fd [] ?_ hfreed (.inl rfl) hfd fun fd' hfd' => ?_
      · simp [stopActions, hfd]
      · have hmem : fd' ∈ s.listening := hfd'
        rw [hlistening] at hmem
        cases hmem
    | some _ =>
      refine .spawn fd rfl hfreed hfd hthread ?_
      simp [hfd, hlistening]
  | spawn fd htodo hfreed hfd hthread hlistening =>
    rw [htodo]
    exact .running fd .test rfl hfreed hfd rfl hlistening

/-- A step that leaves what the phase is about. -/
theorem Phase.congr {s' : TcpServer} (h : s.Phase) (htodo' : s'.todo = s.todo)
    (hfreed' : s'.freed = s.freed) (hfd' : s'.serverFd = s.serverFd)
    (hlistening' : s'.listening = s.listening)
    (hthread' : s'.thread = s.thread ∨ s.thread ≠ none ∧ s'.thread ≠ none) : s'.Phase := by
  have hnone : s.thread = none → s'.thread = none := fun hnone => by
    rcases hthread' with heq | ⟨hne, -⟩
    · rw [heq, hnone]
    · exact absurd hnone hne
  cases h with
  | stopped htodo hfd hthread hlistening =>
    exact .stopped (htodo'.trans htodo) (hfd'.trans hfd) (hnone hthread)
      (hlistening'.trans hlistening)
  | running fd p htodo hfreed hfd hthread hlistening =>
    have hsome : s'.thread ≠ none := by
      rcases hthread' with heq | ⟨-, hne⟩
      · rw [heq, hthread]
        exact Option.some_ne_none p
      · exact hne
    obtain ⟨p', hp'⟩ := Option.ne_none_iff_exists'.mp hsome
    exact .running fd p' (htodo'.trans htodo) (hfreed'.trans hfreed) (hfd'.trans hfd) hp'
      (hlistening'.trans hlistening)
  | clear fd rest htodo hfreed hrest hfd hlistening =>
    exact .clear fd rest (htodo'.trans htodo) (hfreed'.trans hfreed) hrest (hfd'.trans hfd)
      (hlistening' ▸ hlistening)
  | forget fd rest htodo hfreed hrest hfd hlistening =>
    exact .forget fd rest (htodo'.trans htodo) (hfreed'.trans hfreed) hrest (hfd'.trans hfd)
      (hlistening' ▸ hlistening)
  | shutdown fd rest htodo hfreed hrest hfd hlistening =>
    exact .shutdown fd rest (htodo'.trans htodo) (hfreed'.trans hfreed) hrest (hfd'.trans hfd)
      (hlistening' ▸ hlistening)
  | join rest htodo hfreed hrest hfd hlistening =>
    exact .join rest (htodo'.trans htodo) (hfreed'.trans hfreed) hrest (hfd'.trans hfd)
      (hlistening'.trans hlistening)
  | resume rest htodo hfreed hrest hfd hthread hlistening =>
    exact .resume rest (htodo'.trans htodo) (hfreed'.trans hfreed) hrest (hfd'.trans hfd)
      (hnone hthread) (hlistening'.trans hlistening)
  | setup fd htodo hfreed hfd hthread hlistening =>
    exact .setup fd (htodo'.trans htodo) (hfreed'.trans hfreed) (hfd'.trans hfd) (hnone hthread)
      (hlistening'.trans hlistening)
  | spawn fd htodo hfreed hfd hthread hlistening =>
    exact .spawn fd (htodo'.trans htodo) (hfreed'.trans hfreed) (hfd'.trans hfd) (hnone hthread)
      (hlistening'.trans hlistening)

/-- The accepting thread changes nothing the owner has set. -/
theorem threadStep_frame (s : TcpServer) (answer : Option Fd) :
    (s.threadStep answer).todo = s.todo ∧ (s.threadStep answer).freed = s.freed ∧
      (s.threadStep answer).serverFd = s.serverFd ∧
      (s.threadStep answer).listening = s.listening ∧
      ((s.threadStep answer).thread = s.thread ∨
        s.thread ≠ none ∧ (s.threadStep answer).thread ≠ none) := by
  unfold threadStep
  rcases hthread : s.thread with _ | p
  · exact ⟨rfl, rfl, rfl, rfl, .inl hthread⟩
  · have hne : s.thread ≠ none := by simp [hthread]
    cases p with
    | waiting fd => cases answer <;> exact ⟨rfl, rfl, rfl, rfl, .inr ⟨by simp, by simp⟩⟩
    | done => exact ⟨rfl, rfl, rfl, rfl, .inl hthread⟩
    | _ => exact ⟨rfl, rfl, rfl, rfl, .inr ⟨by simp, by simp⟩⟩

theorem phase_step (s : TcpServer) (o : Op) (h : s.Phase) (ho : s.Allowed o) :
    (s.step o).Phase := by
  cases o with
  | call c => exact h.call ho
  | owner answer => exact h.owner ho
  | thread answer =>
    obtain ⟨htodo, hfreed, hfd, hlistening, hthread⟩ := s.threadStep_frame answer
    exact h.congr htodo hfreed hfd hlistening hthread
  | abort =>
    obtain ⟨htodo, hfreed, hfd, hlistening, hthread⟩ := s.threadStep_frame none
    exact h.congr htodo hfreed hfd hlistening hthread
  | write sends bytes => exact h.congr rfl rfl rfl rfl (.inl rfl)

/-- **The accepting thread lives as long as it may.** In every interleaving, there is none when
the server has been freed, and when no call is being made there is one exactly if the server is
running. -/
theorem thread_of_run {os : List Op} (h : StepsMeet step Allowed create os) :
    Throughout step (fun s => (s.freed = true → s.thread = none) ∧
      (s.todo = [] → (s.thread = none ↔ s.serverFd = none))) create os := by
  refine (throughout_of_step phase_step phase_create h).mono fun s hs => ?_
  have hbusy : ∀ {a : Action} {rest : List Action}, s.todo = a :: rest → s.todo = [] →
      (s.thread = none ↔ s.serverFd = none) := fun htodo hnil => by
    cases htodo.symm.trans hnil
  have halive : s.freed = false → s.freed = true → s.thread = none := fun hfalse htrue => by
    cases hfalse.symm.trans htrue
  cases hs with
  | stopped _ hfd hthread => exact ⟨fun _ => hthread, fun _ => iff_of_true hthread hfd⟩
  | running fd p _ hfreed hfd hthread =>
    exact ⟨halive hfreed, fun _ => iff_of_false (by simp [hthread]) (by simp [hfd])⟩
  | resume rest htodo hfreed hrest =>
    rcases hrest with rfl | rfl <;> exact ⟨halive hfreed, hbusy htodo⟩
  | clear fd rest htodo hfreed | forget fd rest htodo hfreed | shutdown fd rest htodo hfreed
  | join rest htodo hfreed | setup fd htodo hfreed | spawn fd htodo hfreed =>
    exact ⟨halive hfreed, hbusy htodo⟩

/-- A server is started, a client connects and is written to, and the server is destroyed. -/
def oneClientRun : List Op :=
  [.call .start, .owner (some 3), .owner (some 3), .owner none, .thread none, .thread none,
   .thread (some 4), .thread none, .thread none, .write (fun _ => [2]) [1, 2], .call .destroy,
   .owner none, .owner none, .thread none, .owner none, .owner none, .owner none]

theorem thread_of_oneClientRun :
    StepsMeet step Allowed create oneClientRun ∧ (runFrom step create oneClientRun).freed = true ∧
      (runFrom step create oneClientRun).thread = none := by
  have hrun : StepsMeet step Allowed create oneClientRun := by decide
  exact ⟨hrun, rfl, (thread_of_run hrun).last.1 rfl⟩

/-! ### Waiting for the thread -/

/-- The steps the accepting thread has left, once the socket has been shut down. -/
def stepsLeft : Option AcceptPlace → ℕ
  | none | some .done => 0
  | some .test => 1
  | some (.waiting _) | some (.adding _) => 2
  | some .load | some (.connected _) => 3

theorem stepsLeft_le (p : Option AcceptPlace) : stepsLeft p ≤ 3 := by
  unfold stepsLeft
  split <;> decide

/-- The owner waits for the thread. -/
structure Waits (s : TcpServer) : Prop where
  todo : ∃ rest, s.todo = .join :: rest
  serverFd : s.serverFd = none
  listening : s.listening = []

theorem Phase.waits (h : s.Phase) {rest : List Action} (hjoin : s.todo = .join :: rest) :
    s.Waits := by
  cases h with
  | join rest' htodo hfreed hrest hfd hlistening => exact ⟨⟨rest, hjoin⟩, hfd, hlistening⟩
  | resume rest' htodo hfreed hrest =>
    rcases hrest with rfl | rfl <;> cases hjoin.symm.trans htodo
  | stopped htodo | running fd p htodo | clear fd rest' htodo | forget fd rest' htodo
  | shutdown fd rest' htodo | setup fd htodo | spawn fd htodo => cases hjoin.symm.trans htodo

/-- Each step of the thread brings it closer to its end. -/
theorem Waits.thread (h : s.Waits) {answer : Option Fd} (hallowed : s.Allowed (.thread answer)) :
    (s.step (.thread answer)).Waits ∧
      stepsLeft (s.step (.thread answer)).thread + 1 = stepsLeft s.thread := by
  obtain ⟨htodo, -, hfd, hlistening, -⟩ := s.threadStep_frame answer
  refine ⟨⟨?_, hfd.trans h.serverFd, hlistening.trans h.listening⟩, ?_⟩
  · obtain ⟨rest, hrest⟩ := h.todo
    exact ⟨rest, htodo.trans hrest⟩
  rw [step]
  unfold Allowed at hallowed
  unfold threadStep
  rcases hthread : s.thread with _ | p
  · rw [hthread] at hallowed
    exact hallowed.elim
  rw [hthread] at hallowed
  cases p with
  | done => exact hallowed.elim
  | test =>
    simp only [h.serverFd, if_true]
    rfl
  | load | connected c | adding c => rfl
  | waiting fd =>
    cases answer with
    | none => rfl
    | some c =>
      -- nobody can connect to a socket that has been shut down
      obtain ⟨-, socket, hsocket, -⟩ := hallowed
      rw [h.listening] at hsocket
      cases hsocket

/-- On a socket that has been shut down, `accept` does not wait. -/
theorem Waits.allowed (h : s.Waits) {fd : Option Fd} (hthread : s.thread = some (.waiting fd)) :
    s.Allowed (.thread none) := by
  unfold Allowed
  simp only [hthread]
  intro socket hsocket
  rw [h.listening] at hsocket
  cases hsocket

/-- A failure of `accept` is one more way to return without a client. -/
theorem Waits.thread_of_abort (h : s.Waits) (hallowed : s.Allowed .abort) :
    s.Allowed (.thread none) := by
  unfold Allowed at hallowed
  dsimp only at hallowed
  split at hallowed
  · next hthread => exact h.allowed hthread
  · exact hallowed.elim

/-- Whether a step is one of the accepting thread. -/
def Op.isThread : Op → Bool
  | .thread _ | .abort => true
  | _ => false

theorem Waits.run (h : s.Waits) {os : List Op} (hos : StepsMeet step Allowed s os)
    (howner : ∀ o ∈ os, ∀ answer, o ≠ .owner answer) :
    (runFrom step s os).Waits ∧
      stepsLeft (runFrom step s os).thread + (os.filter Op.isThread).length =
        stepsLeft s.thread := by
  induction os generalizing s with
  | nil => exact ⟨h, rfl⟩
  | cons o os ih =>
    obtain ⟨ho, hos⟩ := hos
    obtain ⟨hne, howner'⟩ := List.forall_mem_cons.mp howner
    cases o with
    | owner answer => exact absurd rfl (hne answer)
    | call c =>
      obtain ⟨rest, hrest⟩ := h.todo
      cases hrest.symm.trans ho.1
    | write sends bytes => exact ih { h with } hos howner'
    | thread answer =>
      obtain ⟨hwaits, hleft⟩ := h.thread ho
      obtain ⟨hrun, hcount⟩ := ih hwaits hos howner'
      refine ⟨hrun, ?_⟩
      have hlength : ((Op.thread answer :: os).filter Op.isThread).length =
          (os.filter Op.isThread).length + 1 := rfl
      rw [runFrom_cons, hlength]
      omega
    | abort =>
      obtain ⟨hwaits, hleft⟩ := h.thread (h.thread_of_abort ho)
      obtain ⟨hrun, hcount⟩ := ih hwaits hos howner'
      refine ⟨hrun, ?_⟩
      have hlength : ((Op.abort :: os).filter Op.isThread).length =
          (os.filter Op.isThread).length + 1 := rfl
      change stepsLeft (runFrom step (s.step (.thread none)) os).thread + _ = _
      rw [hlength]
      omega

/-- **`stop` returns.** In every interleaving, when the owner waits for the accepting thread, that
makes at most three more steps, whatever it was doing and whatever `accept` answers; and as long
as it has not ended, it can make one: no `accept` waits for a client any more. -/
theorem stop_returns {os os' : List Op} {rest : List Action}
    (hos : StepsMeet step Allowed create os) (hjoin : (runFrom step create os).todo = .join :: rest)
    (hos' : StepsMeet step Allowed (runFrom step create os) os')
    (howner : ∀ o ∈ os', ∀ answer, o ≠ .owner answer) :
    (os'.filter Op.isThread).length ≤ 3 ∧
      ((runFrom step (runFrom step create os) os').Allowed (.thread none) ∨
        (runFrom step (runFrom step create os) os').Allowed (.owner none)) := by
  have hphase := (throughout_of_step phase_step phase_create hos).last
  obtain ⟨hwaits, hcount⟩ := (hphase.waits hjoin).run hos' howner
  have hle := stepsLeft_le (runFrom step create os).thread
  refine ⟨by omega, ?_⟩
  generalize runFrom step (runFrom step create os) os' = s at hwaits
  obtain ⟨rest', htodo⟩ := hwaits.todo
  rcases hthread : s.thread with _ | p
  · refine .inr ?_
    unfold Allowed
    simp [htodo, hthread]
  · cases p with
    | done =>
      refine .inr ?_
      unfold Allowed
      simp [htodo, hthread]
    | waiting fd => exact .inl (hwaits.allowed hthread)
    | _ =>
      refine .inl ?_
      unfold Allowed
      simp [hthread]

/-- The server is stopped while the thread waits for a client. -/
def stoppedWaiting : List Op :=
  [.call .start, .owner (some 3), .owner (some 3), .owner none, .thread none, .thread none,
   .call .stop, .owner none, .owner none]

/-- Until the socket is shut down `accept` does not return by itself; then the thread ends. -/
theorem stop_returns_of_stoppedWaiting :
    ¬ (runFrom step create stoppedWaiting).Allowed (.thread none) ∧
      StepsMeet step Allowed create (stoppedWaiting ++ [.owner none]) ∧
      ((runFrom step create (stoppedWaiting ++ [.owner none])).Allowed (.thread none) ∨
        (runFrom step create (stoppedWaiting ++ [.owner none])).Allowed (.owner none)) ∧
      StepsMeet step Allowed (runFrom step create (stoppedWaiting ++ [.owner none]))
        [.thread none, .thread none] ∧
      ((runFrom step (runFrom step create (stoppedWaiting ++ [.owner none]))
          [.thread none, .thread none]).Allowed (.thread none) ∨
        (runFrom step (runFrom step create (stoppedWaiting ++ [.owner none]))
          [.thread none, .thread none]).Allowed (.owner none)) := by
  have hrun : StepsMeet step Allowed create (stoppedWaiting ++ [.owner none]) := by decide
  have hrest : StepsMeet step Allowed (runFrom step create (stoppedWaiting ++ [.owner none]))
      [.thread none, .thread none] := by decide
  have hnone : StepsMeet step Allowed (runFrom step create (stoppedWaiting ++ [.owner none])) [] :=
    trivial
  refine ⟨by decide, hrun, (stop_returns hrun rfl hnone fun o ho => ?_).2, hrest,
    (stop_returns hrun rfl hrest fun o ho answer hanswer => ?_).2⟩
  · cases ho
  · subst hanswer
    simp at ho

/-! ### Clients -/

/-- **The callback for a client comes first**: before it is in the bag, and before anything is
written to it. -/
structure Greets (s : TcpServer) : Prop where
  nodup : s.clients.Nodup
  once : s.greeted.Nodup
  clients : ∀ c ∈ s.clients, c ∈ s.greeted
  sent : ∀ c, s.sent c ≠ [] → c ∈ s.greeted
  opened : ∀ c ∈ s.greeted, c ∈ s.opened
  connected : ∀ c, s.thread = some (.connected c) → c ∈ s.opened ∧ c ∉ s.greeted
  adding : ∀ c, s.thread = some (.adding c) → c ∈ s.greeted ∧ c ∉ s.clients

theorem greets_create : create.Greets where
  nodup := List.nodup_nil
  once := List.nodup_nil
  clients := fun _ hc => hc
  sent := fun _ hc => absurd rfl hc
  opened := fun _ hc => by cases hc
  connected := fun _ hc => by cases hc
  adding := fun _ hc => by cases hc

/-- Descriptors are opened, and the thread is elsewhere. -/
theorem Greets.move {s' : TcpServer} (h : s.Greets) (hclients : s'.clients = s.clients)
    (hgreeted : s'.greeted = s.greeted) (hsent : s'.sent = s.sent)
    (hopened : ∀ c ∈ s.opened, c ∈ s'.opened)
    (hconnected : ∀ c, s'.thread = some (.connected c) → c ∈ s'.opened ∧ c ∉ s.greeted)
    (hadding : ∀ c, s'.thread = some (.adding c) → c ∈ s.greeted ∧ c ∉ s.clients) : s'.Greets where
  nodup := hclients ▸ h.nodup
  once := hgreeted ▸ h.once
  clients := by
    rw [hclients, hgreeted]
    exact h.clients
  sent := by
    rw [hsent, hgreeted]
    exact h.sent
  opened c hc := hopened c (h.opened c (hgreeted ▸ hc))
  connected c hc := by
    rw [hgreeted]
    exact hconnected c hc
  adding c hc := by
    rw [hclients, hgreeted]
    exact hadding c hc

theorem Greets.owner (h : s.Greets) (answer : Option Fd) : (s.step (.owner answer)).Greets := by
  rw [step]
  unfold ownerStep
  split
  · exact h
  · -- the bag is empty
    exact ⟨List.nodup_nil, h.once, fun _ hc => (List.not_mem_nil hc).elim, h.sent, h.opened,
      h.connected, fun c hc => ⟨(h.adding c hc).1, fun hc' => by cases hc'⟩⟩
  · exact h.move rfl rfl rfl (fun _ hc => hc) h.connected h.adding
  · exact h.move rfl rfl rfl (fun _ hc => hc) h.connected h.adding
  · exact h.move rfl rfl rfl (fun _ hc => hc) (fun _ hc => by cases hc) (fun _ hc => by cases hc)
  · split
    · exact h.move rfl rfl rfl (fun _ hc => hc) h.connected h.adding
    · exact h.move rfl rfl rfl (fun _ hc => List.mem_cons_of_mem _ hc)
        (fun c hc => ⟨List.mem_cons_of_mem _ (h.connected c hc).1, (h.connected c hc).2⟩) h.adding
  · split <;> exact h.move rfl rfl rfl (fun _ hc => hc) h.connected h.adding
  · exact h.move rfl rfl rfl (fun _ hc => hc) (fun _ hc => by cases hc) (fun _ hc => by cases hc)
  · exact h.move rfl rfl rfl (fun _ hc => hc) h.connected h.adding

theorem Greets.thread (h : s.Greets) {answer : Option Fd} (hallowed : s.Allowed (.thread answer)) :
    (s.step (.thread answer)).Greets := by
  rw [step]
  unfold Allowed at hallowed
  unfold threadStep
  rcases hthread : s.thread with _ | p
  · exact h
  rw [hthread] at hallowed
  cases p with
  | done => exact h
  | test =>
    refine h.move rfl rfl rfl (fun _ hc => hc) (fun c hc => ?_) (fun c hc => ?_) <;>
      (simp only [Option.some.injEq] at hc; split at hc <;> cases hc)
  | load =>
    exact h.move rfl rfl rfl (fun _ hc => hc) (fun _ hc => by cases hc) (fun _ hc => by cases hc)
  | waiting fd =>
    cases answer with
    | none =>
      exact h.move rfl rfl rfl (fun _ hc => hc) (fun _ hc => by cases hc) (fun _ hc => by cases hc)
    | some c =>
      refine h.move rfl rfl rfl (fun _ hc => List.mem_cons_of_mem _ hc) (fun c' hc' => ?_)
        (fun _ hc => by cases hc)
      cases hc'
      exact ⟨List.mem_cons_self, fun hmem => hallowed.1 (h.opened c hmem)⟩
  | connected c =>
    obtain ⟨hopened, hnew⟩ := h.connected c hthread
    refine ⟨h.nodup, ?_, fun c' hc' => List.mem_append_left _ (h.clients c' hc'),
      fun c' hc' => List.mem_append_left _ (h.sent c' hc'), fun c' hc' => ?_,
      fun c' hc' => (by cases hc'), fun c' hc' => ?_⟩
    · exact List.nodup_append.mpr ⟨h.once, List.nodup_singleton c, fun a ha b hb hab => by
        rw [List.mem_singleton.mp hb] at hab
        exact hnew (hab ▸ ha)⟩
    · rcases List.mem_append.mp hc' with hc' | hc'
      · exact h.opened c' hc'
      · rw [List.mem_singleton.mp hc']
        exact hopened
    · cases hc'
      exact ⟨List.mem_append_right _ (List.mem_singleton_self c),
        fun hmem => hnew (h.clients c hmem)⟩
  | adding c =>
    obtain ⟨hgreeted, hnew⟩ := h.adding c hthread
    refine ⟨?_, h.once, fun c' hc' => ?_, h.sent, h.opened, fun c' hc' => (by cases hc'),
      fun c' hc' => (by cases hc')⟩
    · exact List.nodup_append.mpr ⟨h.nodup, List.nodup_singleton c, fun a ha b hb hab => by
        rw [List.mem_singleton.mp hb] at hab
        exact hnew (hab ▸ ha)⟩
    · rcases List.mem_append.mp hc' with hc' | hc'
      · exact h.clients c' hc'
      · rw [List.mem_singleton.mp hc']
        exact hgreeted

theorem Greets.abort (h : s.Greets) (hallowed : s.Allowed .abort) : (s.step .abort).Greets := by
  unfold Allowed at hallowed
  dsimp only at hallowed
  split at hallowed
  · next hthread =>
    rw [step]
    unfold threadStep
    rw [hthread]
    exact h.move rfl rfl rfl (fun _ hc => hc) (fun _ hc => by cases hc) (fun _ hc => by cases hc)
  · exact hallowed.elim

theorem Greets.write (h : s.Greets) (sends : Fd → List ℕ) (bytes : List UInt8) :
    (s.step (.write sends bytes)).Greets := by
  obtain ⟨⟨kept, hkept, hperm⟩, hsent⟩ :=
    writeFrom_spec sends bytes s.clients.length [] s.clients s.sent (Nat.le_refl _) h.nodup
  have hsub : ∀ c ∈ (writeFrom sends bytes s.clients.length 0 s.clients s.sent).1,
      c ∈ s.clients := fun c hc => by
    rw [List.length_nil, List.nil_append, List.nil_append] at hkept
    rw [hkept] at hc
    exact List.mem_of_mem_filter (hperm.mem_iff.mp hc)
  refine ⟨?_, h.once, fun c hc => h.clients c (hsub c hc), fun c hc => ?_, h.opened, h.connected,
    fun c hc => ⟨(h.adding c hc).1, fun hmem => (h.adding c hc).2 (hsub c hmem)⟩⟩
  · rw [List.length_nil, List.nil_append, List.nil_append] at hkept
    rw [step, hkept]
    exact hperm.nodup_iff.mpr (h.nodup.filter _)
  · by_cases hmem : c ∈ s.clients
    · exact h.clients c hmem
    · have hsame := hsent c
      rw [if_neg hmem] at hsame
      exact h.sent c fun hnil => hc (hsame.trans hnil)

theorem greets_step (s : TcpServer) (o : Op) (h : s.Greets) (ho : s.Allowed o) :
    (s.step o).Greets := by
  cases o with
  | call c => exact h.move rfl rfl rfl (fun _ hc => hc) h.connected h.adding
  | owner answer => exact h.owner answer
  | thread answer => exact h.thread ho
  | abort => exact h.abort ho
  | write sends bytes => exact h.write sends bytes

/-- **No client is written to before it has been greeted.** In every interleaving, the callback
for a client is called once, before its socket gets into the bag and before anything is written
to it, and no socket is in the bag twice. -/
theorem clients_greeted {os : List Op} (h : StepsMeet step Allowed create os) :
    Throughout step (fun s => s.clients.Nodup ∧ s.greeted.Nodup ∧
      (∀ c ∈ s.clients, c ∈ s.greeted) ∧ ∀ c, s.sent c ≠ [] → c ∈ s.greeted) create os :=
  (throughout_of_step greets_step greets_create h).mono fun _ hs =>
    ⟨hs.nodup, hs.once, hs.clients, hs.sent⟩

theorem clients_greeted_oneClientRun :
    StepsMeet step Allowed create oneClientRun ∧
      (runFrom step create oneClientRun).sent 4 = [1, 2] ∧
      4 ∈ (runFrom step create oneClientRun).greeted := by
  have hrun : StepsMeet step Allowed create oneClientRun := by decide
  exact ⟨hrun, rfl, (clients_greeted hrun).last.2.2.2 4 (by decide)⟩

/-- A client that comes in once the bag has been cleared is sent what is written after the next
`start`. -/
example : (runFrom step create
    [.call .start, .owner (some 3), .owner (some 3), .owner none, .thread none, .thread none,
     .call .stop, .owner none, .thread (some 4), .owner none, .owner none, .thread none,
     .thread none, .thread none, .owner none, .call .start, .owner (some 5), .owner (some 5),
     .owner none, .write (fun _ => [1]) [7]]).sent 4 = [7] := rfl

end TcpServer

end HawkTracer.Lib
