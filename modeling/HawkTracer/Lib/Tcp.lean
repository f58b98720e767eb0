import HawkTracer.Lib.Bag
import HawkTracer.Lib.ListenerBuffer

/-!
# The TCP listener

A TCP listener sends what it is called with to every client that is connected. Callbacks hold
the push mutex from beginning to end. In between they write to the server, once for every time
the buffer of the listener is full and, if that happened, once more for what is left in it, and
each write takes the mutex of the clients and goes through the bag of their sockets.

The thread that accepts clients is not part of this. It sends the metadata to a new client, chunk
by chunk and each under the push mutex, and then puts the socket into the bag, for which it takes
the mutex of the clients only. The steps of `HawkTracer.Lib.TcpListener.step` are what happens
under one mutex at a time, so a run of them is an interleaving of callbacks with the accepting
thread. What `send` answers is part of the step.

A callback leaves behind it a stream that is cut at the end of an event. A client that comes in
between two writes of one callback finds it cut anywhere: it is sent the rest of an event whose
beginning it never gets (`HawkTracer.Lib.TcpListener.half_event_sent`). Nor does anyone look at
whether the metadata could be sent. `HawkTracer.Lib.TcpListener.clients_served`: where neither
happens, every client gets the metadata and then a part of the stream that begins at the beginning
of an event and has no gaps.
-/

namespace HawkTracer.Lib

/-! ### Writing to one socket -/

/-- The number of bytes a socket takes before a call of `send` fails; the answers are given one
after another, with `0` for a failure. -/
def acceptedBytes (sends : List ℕ) : ℕ := (sends.takeWhile (· ≠ 0)).sum

/-- `ht_tcp_server_write_to_socket`, with the answers of `send`: the bytes that were sent, and the
returned value. -/
def writeToSocket : List ℕ → List UInt8 → List UInt8 × Bool
  | _, [] => ([], true)
  | [], _ :: _ => ([], false)
  | 0 :: _, _ :: _ => ([], false)
  | (n + 1) :: sends, c :: cs =>
    let r := writeToSocket sends ((c :: cs).drop (n + 1))
    ((c :: cs).take (n + 1) ++ r.1, r.2)

/-- **The loop sends as much as the socket takes**, and reports whether that was everything. -/
theorem writeToSocket_eq (sends : List ℕ) (bytes : List UInt8) :
    writeToSocket sends bytes =
      (bytes.take (acceptedBytes sends), decide (bytes.length ≤ acceptedBytes sends)) := by
  induction sends generalizing bytes with
  | nil =>
    rcases bytes with _ | ⟨c, cs⟩ <;> simp [writeToSocket, acceptedBytes]
  | cons n sends ih =>
    rcases bytes with _ | ⟨c, cs⟩
    · simp [writeToSocket]
    rcases n with _ | n
    · simp [writeToSocket, acceptedBytes]
    · have hsum : acceptedBytes ((n + 1) :: sends) = (n + 1) + acceptedBytes sends := by
        simp [acceptedBytes]
      have hlen : ((c :: cs).drop (n + 1)).length ≤ acceptedBytes sends ↔
          (c :: cs).length ≤ acceptedBytes ((n + 1) :: sends) := by
        rw [List.length_drop, hsum]
        omega
      have htake : (c :: cs).take (acceptedBytes ((n + 1) :: sends)) =
          (c :: cs).take (n + 1) ++ ((c :: cs).drop (n + 1)).take (acceptedBytes sends) := by
        rw [hsum, List.take_add]
      rw [writeToSocket, ih, htake]
      simp only [hlen]

/-! ### Writing to all clients -/

/-- The loop of `ht_tcp_server_write` from position `i` of the bag on: a client to which not all
bytes could be sent is removed from the bag, and the position is looked at again. -/
def writeFrom (sends : ℕ → List ℕ) (bytes : List UInt8) :
    ℕ → ℕ → List ℕ → (ℕ → List UInt8) → List ℕ × (ℕ → List UInt8)
  | 0, _, clients, sent => (clients, sent)
  | n + 1, i, clients, sent =>
    match clients[i]? with
    | none => (clients, sent)
    | some fd =>
      let r := writeToSocket (sends fd) bytes
      let sent := Function.update sent fd (sent fd ++ r.1)
      if r.2 then writeFrom sends bytes n (i + 1) clients sent
      else writeFrom sends bytes n i (Bag.swapRemove clients i) sent

theorem swapRemove_append (done : List ℕ) (fd : ℕ) (rest : List ℕ) :
    ∃ rest', Bag.swapRemove (done ++ fd :: rest) done.length = done ++ rest' ∧ rest'.Perm rest := by
  rcases List.eq_nil_or_concat rest with rfl | ⟨front, x, rfl⟩
  · refine ⟨[], ?_, List.Perm.refl _⟩
    simp [Bag.swapRemove]
  · refine ⟨x :: front, ?_, ?_⟩
    · have hlist : done ++ fd :: front.concat x = (done ++ fd :: front) ++ [x] := by simp
      have hset : ((done ++ fd :: front) ++ [x]).set done.length x =
          (done ++ x :: front) ++ [x] := by
        simp
      rw [hlist, Bag.swapRemove, List.getLast?_concat]
      dsimp only
      rw [hset, List.dropLast_concat]
    · rw [List.concat_eq_append]
      exact (List.perm_append_singleton x front).symm

/-- **A write reaches every client once**: those that are still to be visited get what their
sockets take, and those whose sockets take everything stay in the bag. -/
theorem writeFrom_spec (sends : ℕ → List ℕ) (bytes : List UInt8) (n : ℕ) (done todo : List ℕ)
    (sent : ℕ → List UInt8) (hn : todo.length ≤ n) (hnodup : todo.Nodup) :
    let r := writeFrom sends bytes n done.length (done ++ todo) sent
    (∃ kept, r.1 = done ++ kept ∧
      kept.Perm (todo.filter fun fd => bytes.length ≤ acceptedBytes (sends fd))) ∧
    ∀ fd, r.2 fd =
      if fd ∈ todo then sent fd ++ bytes.take (acceptedBytes (sends fd)) else sent fd := by
  induction n generalizing done todo sent with
  | zero =>
    obtain rfl : todo = [] := List.length_eq_zero_iff.mp (by omega)
    exact ⟨⟨[], rfl, List.Perm.refl _⟩, fun fd => by simp [writeFrom]⟩
  | succ n ih =>
    rcases todo with _ | ⟨fd₀, rest⟩
    · refine ⟨⟨[], ?_, List.Perm.refl _⟩, fun fd => ?_⟩ <;> simp [writeFrom]
    obtain ⟨hfd₀, hrest⟩ := List.nodup_cons.mp hnodup
    have hlen : rest.length ≤ n := Nat.le_of_succ_le_succ hn
    have hnth : (done ++ fd₀ :: rest)[done.length]? = some fd₀ := by simp
    simp only [writeFrom, hnth, writeToSocket_eq]
    -- the client at this position either stays, or the last one takes its place
    by_cases hall : bytes.length ≤ acceptedBytes (sends fd₀)
    · obtain ⟨⟨kept, hkept, hperm⟩, hsent⟩ := ih (done ++ [fd₀]) rest
        (Function.update sent fd₀ (sent fd₀ ++ bytes.take (acceptedBytes (sends fd₀)))) hlen hrest
      simp only [List.length_append, List.length_singleton, List.append_assoc,
        List.singleton_append] at hkept hsent
      simp only [hall, decide_true, if_true]
      refine ⟨⟨fd₀ :: kept, hkept, ?_⟩, fun fd => ?_⟩
      · simpa [hall] using hperm
      · rw [hsent]
        obtain rfl | hne := eq_or_ne fd fd₀
        · simp [hfd₀]
        · simp [hne]
    · obtain ⟨rest', hswap, hperm'⟩ := swapRemove_append done fd₀ rest
      obtain ⟨⟨kept, hkept, hperm⟩, hsent⟩ := ih done rest'
        (Function.update sent fd₀ (sent fd₀ ++ bytes.take (acceptedBytes (sends fd₀))))
        (hperm'.length_eq ▸ hlen) (hperm'.nodup_iff.mpr hrest)
      simp only [hall, decide_false, Bool.false_eq_true, if_false, hswap]
      refine ⟨⟨kept, hkept, ?_⟩, fun fd => ?_⟩
      · simpa [hall] using hperm.trans (hperm'.filter _)
      · rw [hsent]
        simp only [hperm'.mem_iff]
        obtain rfl | hne := eq_or_ne fd fd₀
        · simp [hfd₀]
        · simp [hne]

/-! ### The listener -/

/-- Where the callback that holds the push mutex is. -/
inductive Push where
  /-- The mutex is free. -/
  | idle
  /-- The events have been taken, and these writes are still to be made for them. -/
  | writing (chunks : List (List UInt8))
  /-- The callback does not return. -/
  | stuck

/-- The writes that are still to be made. -/
def Push.writes : Push → List (List UInt8)
  | .writing chunks => chunks
  | _ => []

/-- `HT_TCPListener` with its server. A client is known by the number of clients accepted before
it. -/
structure TcpListener (E : Type) where
  buffer : ListenerBuffer
  wasFlushed : Bool
  push : Push
  /-- `client_sock_fd`. -/
  clients : List ℕ
  /-- The client the accepting thread deals with, and the metadata chunks it has not written
  yet. -/
  greeting : Option (ℕ × List (List UInt8))
  accepted : ℕ
  /-- The bytes successfully sent to each client. -/
  sent : ℕ → List UInt8
  /-- A record of the metadata each client is to be sent. -/
  metadata : ℕ → List UInt8
  /-- A record of the events the listener has been called with. -/
  stream : List E
  /-- A record of the bytes the listener has written to the server. -/
  written : List UInt8

namespace TcpListener

variable {E : Type} (R : CastRep E)

/-- `ht_tcp_listener_create`, when everything can be had. -/
def create (bufferSize : ℕ) : TcpListener E where
  buffer := ListenerBuffer.init bufferSize
  wasFlushed := false
  push := .idle
  clients := []
  greeting := none
  accepted := 0
  sent _ := []
  metadata _ := []
  stream := []
  written := []

/-- What happens under one mutex: a client is accepted and will be sent the given metadata chunks;
the next chunk is written; the client is put into the bag, unless there is no memory; a callback
is called with a group of events and takes the push mutex; it makes its next write, or
finishes. -/
inductive Op (E : Type) where
  | accept (chunks : List (List UInt8))
  | greet (sends : List ℕ)
  | addClient (ok : Bool)
  | callback (serialized : Bool) (es : List E)
  | write (sends : ℕ → List ℕ)

/-- `ht_tcp_server_write`. -/
def serverWrite (s : TcpListener E) (sends : ℕ → List ℕ) (bytes : List UInt8) : TcpListener E :=
  let r := writeFrom sends bytes s.clients.length 0 s.clients s.sent
  { s with clients := r.1, sent := r.2, written := s.written ++ bytes }

/-- One step. The accepting thread deals with one client at a time; what waits for a mutex does
nothing. -/
def step (s : TcpListener E) : Op E → TcpListener E
  | .accept chunks =>
    match s.greeting with
    | some _ => s
    | none =>
      { s with
        greeting := some (s.accepted, chunks)
        accepted := s.accepted + 1
        metadata := Function.update s.metadata s.accepted chunks.flatten }
  | .greet sends =>
    match s.greeting, s.push with
    | some (fd, c :: cs), .idle =>
      { s with
        greeting := some (fd, cs)
        sent := Function.update s.sent fd (s.sent fd ++ (writeToSocket sends c).1) }
    | _, _ => s
  | .addClient ok =>
    match s.greeting with
    | some (fd, []) =>
      { s with
        greeting := none
        clients := if ok then s.clients ++ [fd] else s.clients }
    | _ => s
  | .callback serialized es =>
    match s.push with
    | .idle =>
      match s.buffer.process R (R.notification serialized es) with
      | some r => { s with buffer := r.1, push := .writing r.2, stream := s.stream ++ es }
      | none => { s with push := .stuck }
    | _ => s
  | .write sends =>
    match s.push with
    | .writing (c :: cs) =>
      { s.serverWrite sends c with wasFlushed := true, push := .writing cs }
    | .writing [] =>
      if s.wasFlushed then
        { s.serverWrite sends s.buffer.contents with
          buffer := s.buffer.flush.1
          wasFlushed := false
          push := .idle }
      else { s with push := .idle }
    | _ => s

/-! ### What clients get -/

/-- The bytes end where an event ends. -/
def Boundary (stream : List E) (bytes : List UInt8) : Prop :=
  ∃ before, before <+: stream ∧ bytes = R.reps true before

/-- **A client has been sent the metadata and a part of the stream without gaps**, beginning at
the beginning of an event and, as long as the client is in the bag, up to the last byte
written. -/
def Receives (s : TcpListener E) (fd : ℕ) : Prop :=
  ∃ before part, before <+: s.stream ∧ s.sent fd = s.metadata fd ++ part ∧
    R.reps true before ++ part <+: s.written ∧
    (fd ∈ s.clients → R.reps true before ++ part = s.written)

/-- **All clients are served**: what has been written is the beginning of the stream of events;
the client that is being greeted has been sent the metadata up to the chunks that are left, and
all others have been sent the metadata and a part of the stream. -/
def Serves (s : TcpListener E) : Prop :=
  s.written <+: R.reps true s.stream ∧
  ∀ fd < s.accepted,
    (∃ chunks, s.greeting = some (fd, chunks) ∧ s.sent fd ++ chunks.flatten = s.metadata fd) ∨
      Receives R s fd

/-- The metadata chunk that is to be written next. -/
def nextChunk (s : TcpListener E) : Option (List UInt8) := s.greeting.bind fun g => g.2.head?

/-- The condition on a step: the socket takes the metadata chunk; a client is put into the bag
when the bytes written so far end where an event ends; objects fit the buffer. -/
def Careful (s : TcpListener E) : Op E → Prop
  | .greet sends => ∀ c ∈ s.nextChunk, c.length ≤ acceptedBytes sends
  | .addClient ok => ok = true → Boundary R s.stream s.written
  | .callback serialized es => ListenerBuffer.Fits R.toEventRep s.buffer.maxSize serialized es
  | _ => True

/-- The invariant of the listener: nothing is lost between the callbacks and the server, and
between two callbacks the stream is cut at the end of an event. -/
structure Flows (s : TcpListener E) : Prop where
  valid : s.buffer.Valid
  stream : s.written ++ s.push.writes.flatten ++ s.buffer.contents = R.reps true s.stream
  aligned : s.wasFlushed = false → s.push.writes = [] → Boundary R s.stream s.written
  idle : s.push = .idle → s.wasFlushed = false
  returns : s.push ≠ .stuck

/-- The invariant of the server. -/
structure Clients (s : TcpListener E) : Prop where
  nodup : s.clients.Nodup
  accepted : ∀ fd ∈ s.clients, fd < s.accepted
  fresh : ∀ fd, s.accepted ≤ fd → s.sent fd = []
  greeting : ∀ fd chunks, s.greeting = some (fd, chunks) →
    fd < s.accepted ∧ fd ∉ s.clients ∧ s.sent fd ++ chunks.flatten = s.metadata fd
  others : ∀ fd < s.accepted, (∀ chunks, s.greeting ≠ some (fd, chunks)) → Receives R s fd

variable {R} {s : TcpListener E}

theorem Boundary.mono {stream : List E} {bytes : List UInt8} (h : Boundary R stream bytes)
    (es : List E) : Boundary R (stream ++ es) bytes := by
  obtain ⟨before, hprefix, hbytes⟩ := h
  exact ⟨before, hprefix.trans (List.prefix_append _ _), hbytes⟩

theorem boundary_self (stream : List E) : Boundary R stream (R.reps true stream) :=
  ⟨stream, List.prefix_refl _, rfl⟩

/-! ### The stream -/

theorem flows_create (bufferSize : ℕ) : Flows R (create bufferSize) where
  valid := ListenerBuffer.valid_init bufferSize
  stream := rfl
  aligned _ _ := boundary_self []
  idle _ := rfl
  returns := by simp [create]

/-- Between two callbacks, the bytes written end where an event ends. -/
theorem Flows.boundary_of_idle (h : Flows R s) (hidle : s.push = .idle) :
    Boundary R s.stream s.written := by
  refine h.aligned (h.idle hidle) ?_
  rw [hidle]
  rfl

/-- A callback that takes the push mutex. -/
theorem Flows.callback (h : Flows R s) {serialized : Bool} {es : List E}
    (hfits : ListenerBuffer.Fits R.toEventRep s.buffer.maxSize serialized es) :
    Flows R (s.step R (.callback serialized es)) := by
  rcases hpush : s.push with _ | chunks | _
  · obtain ⟨r, hr, hpass⟩ := ListenerBuffer.process_spec h.valid hfits
    have hstream := h.stream
    simp only [hpush, Push.writes, List.flatten_nil, List.append_nil] at hstream
    -- the chunks the buffer flushed are the writes that are still to come
    simp only [step, hpush, hr]
    refine ⟨hpass.valid, ?_, fun _ _ => (h.boundary_of_idle hpush).mono es, by simp, by simp⟩
    change s.written ++ r.2.flatten ++ r.1.contents = R.reps true (s.stream ++ es)
    rw [EventRep.reps_append, ← hstream, List.append_assoc, hpass.stream, List.append_assoc]
  · simpa [step, hpush] using h
  · simpa [step, hpush] using h

/-- A write, or the end of a callback. If the buffer has been passed on at all, it is passed on
once more, so that nothing is left in it. -/
theorem Flows.write (h : Flows R s) (sends : ℕ → List ℕ) : Flows R (s.step R (.write sends)) := by
  have hstream := h.stream
  rcases hpush : s.push with _ | chunks | _
  · simpa [step, hpush] using h
  · rw [hpush, Push.writes] at hstream
    rcases chunks with _ | ⟨c, cs⟩
    · rcases hflushed : s.wasFlushed with _ | _
      · simp only [step, hpush, hflushed, Bool.false_eq_true, if_false]
        refine ⟨h.valid, hstream, fun _ _ => h.aligned hflushed (by rw [hpush, Push.writes]),
          fun _ => rfl, by simp⟩
      -- all chunks are written; what is left in the buffer goes out with the last flush
      · have hall : s.written ++ s.buffer.contents = R.reps true s.stream := by
          simpa using hstream
        simp only [step, hpush, hflushed, if_true]
        refine ⟨h.valid.passesOn_flush.valid, ?_, fun _ _ => ?_, fun _ => rfl, by simp⟩
        · simpa [Push.writes, serverWrite, ListenerBuffer.flush, ListenerBuffer.contents] using hall
        · change Boundary R s.stream (s.written ++ s.buffer.contents)
          exact hall ▸ boundary_self s.stream
    · simp only [step, hpush]
      refine ⟨h.valid, ?_, by simp, by simp, by simp⟩
      simpa [Push.writes, serverWrite] using hstream
  · exact absurd hpush h.returns

theorem Flows.step (h : Flows R s) {o : Op E} (ho : Careful R s o) : Flows R (s.step R o) := by
  rcases o with chunks | sends | ok | ⟨serialized, es⟩ | sends
  · rw [TcpListener.step]
    split
    · exact h
    · exact { h with }
  · rw [TcpListener.step]
    split
    · exact { h with }
    · exact h
  · rw [TcpListener.step]
    split
    · exact { h with }
    · exact h
  · exact h.callback ho
  · exact h.write sends

/-! ### The clients -/

theorem clients_create (bufferSize : ℕ) : Clients R (create bufferSize) where
  nodup := List.nodup_nil
  accepted := by simp [create]
  fresh _ _ := rfl
  greeting := by simp [create]
  others fd hfd := absurd hfd (Nat.not_lt_zero fd)

/-- What `ht_tcp_server_write` does. -/
theorem serverWrite_spec (hnodup : s.clients.Nodup) (sends : ℕ → List ℕ) (bytes : List UInt8) :
    (s.serverWrite sends bytes).clients.Perm
      (s.clients.filter fun fd => bytes.length ≤ acceptedBytes (sends fd)) ∧
    ∀ fd, (s.serverWrite sends bytes).sent fd =
      if fd ∈ s.clients then s.sent fd ++ bytes.take (acceptedBytes (sends fd)) else s.sent fd := by
  obtain ⟨⟨kept, hkept, hperm⟩, hsent⟩ :=
    writeFrom_spec sends bytes s.clients.length [] s.clients s.sent (Nat.le_refl _) hnodup
  have hclients : (s.serverWrite sends bytes).clients = kept := hkept
  exact ⟨hclients ▸ hperm, hsent⟩

/-- A client that a write reaches gets the next bytes, all of them if it stays in the bag; the
others are not concerned. -/
theorem Receives.serverWrite {fd : ℕ} (h : Receives R s fd) (hnodup : s.clients.Nodup)
    (sends : ℕ → List ℕ) (bytes : List UInt8) : Receives R (s.serverWrite sends bytes) fd := by
  obtain ⟨before, part, hbefore, hsent, hprefix, hclient⟩ := h
  obtain ⟨hperm, hwrite⟩ := serverWrite_spec hnodup sends bytes
  by_cases hfd : fd ∈ s.clients
  · refine ⟨before, part ++ bytes.take (acceptedBytes (sends fd)), hbefore, ?_, ?_, fun hkept => ?_⟩
    · rw [hwrite, if_pos hfd, hsent, List.append_assoc]
      rfl
    · rw [← List.append_assoc, hclient hfd]
      exact (List.prefix_append_right_inj _).mpr (List.take_prefix _ _)
    · have hall : bytes.length ≤ acceptedBytes (sends fd) := by
        simpa using (List.mem_filter.mp (hperm.mem_iff.mp hkept)).2
      rw [← List.append_assoc, hclient hfd, List.take_of_length_le hall]
      rfl
  · refine ⟨before, part, hbefore, ?_, hprefix.trans (List.prefix_append _ _), fun hkept => ?_⟩
    · rw [hwrite, if_neg hfd, hsent]
      rfl
    · exact absurd (List.mem_of_mem_filter (hperm.mem_iff.mp hkept)) hfd

section

variable (h : Clients R s)

include h

theorem Clients.serverWrite (sends : ℕ → List ℕ) (bytes : List UInt8) :
    Clients R (s.serverWrite sends bytes) := by
  obtain ⟨hperm, hwrite⟩ := serverWrite_spec h.nodup sends bytes
  have hsub : ∀ fd ∈ (s.serverWrite sends bytes).clients, fd ∈ s.clients := fun fd hfd =>
    List.mem_of_mem_filter (hperm.mem_iff.mp hfd)
  refine ⟨hperm.nodup_iff.mpr (h.nodup.filter _), fun fd hfd => h.accepted fd (hsub fd hfd), ?_, ?_,
    fun fd hfd hne => (h.others fd hfd hne).serverWrite h.nodup sends bytes⟩
  · intro fd hfd
    have hout : fd ∉ s.clients := fun hmem => Nat.not_lt.mpr hfd (h.accepted fd hmem)
    rw [hwrite, if_neg hout]
    exact h.fresh fd hfd
  · intro fd chunks hgreet
    obtain ⟨hlt, hout, hsent⟩ := h.greeting fd chunks hgreet
    refine ⟨hlt, fun hmem => hout (hsub fd hmem), ?_⟩
    rw [hwrite, if_neg hout]
    exact hsent

/-- A new client is sent nothing yet. -/
theorem Clients.accept (chunks : List (List UInt8)) : Clients R (s.step R (.accept chunks)) := by
  rcases hgreet : s.greeting with _ | g
  · have hnew : s.accepted ∉ s.clients := fun hmem => Nat.lt_irrefl _ (h.accepted _ hmem)
    simp only [step, hgreet]
    refine ⟨h.nodup, fun fd hfd => Nat.lt_succ_of_lt (h.accepted fd hfd),
      fun fd hfd => h.fresh fd (Nat.le_of_succ_le hfd), ?_, ?_⟩
    · rintro fd chunks' heq
      obtain ⟨rfl, rfl⟩ := Prod.mk.inj (Option.some.inj heq)
      refine ⟨Nat.lt_succ_self _, hnew, ?_⟩
      simp [h.fresh s.accepted (Nat.le_refl _)]
    · intro fd hfd hne
      have hold : fd ≠ s.accepted := by
        rintro rfl
        exact hne chunks rfl
      obtain ⟨before, part, hbefore, hsent, hrest⟩ :=
        h.others fd (by change fd < s.accepted + 1 at hfd; omega) (by simp [hgreet])
      exact ⟨before, part, hbefore, by simpa [hold] using hsent, hrest⟩
  · simpa [step, hgreet] using h

/-- A metadata chunk for which the socket has room. -/
theorem Clients.greet {sends : List ℕ} (hroom : ∀ c ∈ s.nextChunk, c.length ≤ acceptedBytes sends) :
    Clients R (s.step R (.greet sends)) := by
  rw [step]
  split
  · next fd₀ c cs hgreet hpush =>
    obtain ⟨hlt, hout, hsent⟩ := h.greeting _ _ hgreet
    have hall : (writeToSocket sends c).1 = c := by
      rw [writeToSocket_eq, List.take_of_length_le (hroom c (by simp [nextChunk, hgreet]))]
    refine ⟨h.nodup, h.accepted, ?_, ?_, ?_⟩
    · intro fd hfd
      have hne : fd ≠ fd₀ := by
        rintro rfl
        exact Nat.not_lt.mpr hfd hlt
      simpa [hne] using h.fresh fd hfd
    · rintro fd chunks heq
      obtain ⟨rfl, rfl⟩ := Prod.mk.inj (Option.some.inj heq)
      exact ⟨hlt, hout, by simpa [hall] using hsent⟩
    · intro fd hfd hne
      have hother : fd ≠ fd₀ := by
        rintro rfl
        exact hne cs rfl
      obtain ⟨before, part, hbefore, hpart, hrest⟩ := h.others fd hfd (by
        intro chunks heq
        rw [hgreet] at heq
        exact hother (Prod.mk.inj (Option.some.inj heq)).1.symm)
      exact ⟨before, part, hbefore, by simpa [hother] using hpart, hrest⟩
  · exact h

/-- A client that comes in where an event ends. -/
theorem Clients.addClient {ok : Bool} (hok : ok = true → Boundary R s.stream s.written) :
    Clients R (s.step R (.addClient ok)) := by
  rw [step]
  split
  · next fd₀ hgreet =>
    obtain ⟨hlt, hout, hsent⟩ := h.greeting _ _ hgreet
    rw [List.flatten_nil, List.append_nil] at hsent
    refine ⟨?_, ?_, h.fresh, by simp, ?_⟩
    · change (if ok then s.clients ++ [fd₀] else s.clients).Nodup
      split
      · exact (List.nodup_cons.mpr ⟨hout, h.nodup⟩).perm (List.perm_append_singleton fd₀ _).symm
      · exact h.nodup
    · intro fd hfd
      rcases ok with _ | _
      · exact h.accepted fd hfd
      · rcases List.mem_append.mp hfd with hfd | hfd
        · exact h.accepted fd hfd
        · exact List.mem_singleton.mp hfd ▸ hlt
    · intro fd hfd _
      obtain rfl | hne := eq_or_ne fd fd₀
      · rcases ok with _ | _
        · exact ⟨[], [], List.nil_prefix, by simpa using hsent, List.nil_prefix,
            fun hmem => absurd hmem hout⟩
        · obtain ⟨before, hbefore, hwritten⟩ := hok rfl
          have hpart : R.reps true before ++ [] = s.written := by rw [List.append_nil, hwritten]
          exact ⟨before, [], hbefore, by simpa using hsent, hpart ▸ List.prefix_refl _,
            fun _ => hpart⟩
      · obtain ⟨before, part, hbefore, hpart, hprefix, hclient⟩ := h.others fd hfd (by
          intro chunks heq
          rw [hgreet] at heq
          exact hne (Prod.mk.inj (Option.some.inj heq)).1.symm)
        refine ⟨before, part, hbefore, hpart, hprefix, fun hmem => hclient ?_⟩
        rcases ok with _ | _
        · exact hmem
        · simpa [hne] using hmem
  · exact h

/-- More events, of which nothing has been written yet. -/
theorem Clients.callback (serialized : Bool) (es : List E) :
    Clients R (s.step R (.callback serialized es)) := by
  rw [step]
  split
  · split
    · refine { h with others := fun fd hfd hne => ?_ }
      obtain ⟨before, part, hbefore, hrest⟩ := h.others fd hfd hne
      exact ⟨before, part, hbefore.trans (List.prefix_append _ _), hrest⟩
    · exact { h with }
  · exact h

theorem Clients.write (sends : ℕ → List ℕ) : Clients R (s.step R (.write sends)) := by
  rw [step]
  split
  · next c cs hpush =>
    have hw := h.serverWrite sends c
    exact { hw with }
  · split
    · have hw := h.serverWrite sends s.buffer.contents
      exact { hw with }
    · exact { h with }
  · exact h

theorem Clients.step {o : Op E} (ho : Careful R s o) : Clients R (s.step R o) := by
  rcases o with chunks | sends | ok | ⟨serialized, es⟩ | sends
  · exact h.accept chunks
  · exact h.greet ho
  · exact h.addClient ho
  · exact h.callback serialized es
  · exact h.write sends

end

theorem serves_of_invariants (hflows : Flows R s) (hclients : Clients R s) : Serves R s := by
  refine ⟨?_, fun fd hfd => ?_⟩
  · rw [← hflows.stream, List.append_assoc]
    exact List.prefix_append _ _
  · by_cases hgreet : ∃ chunks, s.greeting = some (fd, chunks)
    · obtain ⟨chunks, hgreet⟩ := hgreet
      exact Or.inl ⟨chunks, hgreet, (hclients.greeting fd chunks hgreet).2.2⟩
    · exact Or.inr (hclients.others fd hfd fun chunks heq => hgreet ⟨chunks, heq⟩)

/-- **Clients get whole events.** In every run in which clients come in where an event ends and
sockets take their metadata, every client has at all times been sent the metadata, followed by a
part of the stream of events that begins at the beginning of an event, has no gaps and nothing
twice, and reaches to the last byte written as long as the client is in the bag. -/
theorem clients_served (R : CastRep E) (bufferSize : ℕ) (os : List (Op E))
    (hos : StepsMeet (step R) (Careful R) (create bufferSize) os) :
    Throughout (step R) (Serves R) (create bufferSize) os := by
  have hinv : Throughout (step R) (fun s => Flows R s ∧ Clients R s) (create bufferSize) os :=
    throughout_of_step (fun s o hs ho => ⟨hs.1.step ho, hs.2.step ho⟩)
      ⟨flows_create bufferSize, clients_create bufferSize⟩ hos
  exact hinv.mono fun s hs => serves_of_invariants hs.1 hs.2

/-! ### Half an event -/

/-- Two events of twenty bytes each. -/
def sampleEvents : List HTEvent := [⟨1, 10, 0⟩, ⟨1, 11, 1⟩]

/-- A client that has been greeted comes in between the two writes of a callback. -/
def lateClientRun : List (Op HTEvent) :=
  [.accept [[42]], .greet [1], .callback true sampleEvents, .write fun _ => [40], .addClient true,
    .write fun _ => [40]]

/-- A client to which the metadata cannot be sent. -/
def deafClientRun : List (Op HTEvent) := [.accept [[42]], .greet [0], .addClient true]

/-- A run with a callback that passes the buffer on, and with clients that come in before it and
after it. -/
def carefulRun : List (Op HTEvent) :=
  [.accept [[42]], .greet [1], .addClient true, .callback true sampleEvents,
    .write fun _ => [7, 50], .write fun _ => [40], .accept [[43]], .greet [2], .addClient true]

theorem clients_served_sample :
    let R := htEventRep .little
    StepsMeet (step R) (Careful R) (create 30) carefulRun ∧
      Throughout (step R) (Serves R) (create 30) carefulRun := by
  intro R
  have hos : StepsMeet (step R) (Careful R) (create 30) carefulRun := by
    refine ⟨trivial, ?_, ?_, nofun, trivial, trivial, trivial, ?_, ?_, trivial⟩
    · change ∀ c ∈ _, _
      decide +kernel
    · intro _
      exact ⟨[], List.nil_prefix, rfl⟩
    · change ∀ c ∈ _, _
      decide +kernel
    · intro _
      exact ⟨sampleEvents, by decide +kernel, by decide +kernel⟩
  exact ⟨hos, clients_served R 30 carefulRun hos⟩

theorem length_reps_htEventRep (o : ByteOrder) (es : List HTEvent) :
    ((htEventRep o).reps true es).length = 20 * es.length := by
  induction es with
  | nil => rfl
  | cons e es ih =>
    have hrep : ((htEventRep o).rep true e).length = 20 := HTEvent.length_encode o e
    rw [EventRep.reps_cons, List.length_append, ih, hrep, List.length_cons]
    omega

/-- **A client can be sent half an event.** The buffer takes thirty bytes, so that a callback with
two events makes two writes. A client that comes in between them is sent the last ten bytes of the
second event. And a client whose socket failed while the metadata was sent is put into the bag
without it. -/
theorem half_event_sent :
    let R := htEventRep .little
    (runFrom (step R) (create 30) lateClientRun).sent 0 =
      42 :: (R.reps true sampleEvents).drop 30 ∧
    ¬ Throughout (step R) (Serves R) (create 30) lateClientRun ∧
    ¬ Throughout (step R) (Serves R) (create 30) deafClientRun := by
  intro R
  have hsent : (runFrom (step R) (create 30) lateClientRun).sent 0 =
      42 :: (R.reps true sampleEvents).drop 30 := by decide +kernel
  refine ⟨hsent, fun h => ?_, fun h => ?_⟩
  · obtain ⟨-, hserves⟩ := h.last
    have hgreeting : (runFrom (step R) (create 30) lateClientRun).greeting = none := by
      decide +kernel
    have hmetadata : (runFrom (step R) (create 30) lateClientRun).metadata 0 = [42] := by
      decide +kernel
    have hwritten : (runFrom (step R) (create 30) lateClientRun).written.length = 40 := by
      decide +kernel
    have hten : ((R.reps true sampleEvents).drop 30).length = 10 := by decide +kernel
    rcases hserves 0 (by decide +kernel) with
      ⟨chunks, hgreet, -⟩ | ⟨before, part, -, hpart, -, hclient⟩
    · rw [hgreeting] at hgreet
      exact nomatch hgreet
    · have hlen := congrArg List.length (hclient (by decide +kernel))
      rw [hsent, hmetadata] at hpart
      obtain rfl : (R.reps true sampleEvents).drop 30 = part := (List.cons.inj hpart).2
      rw [List.length_append, length_reps_htEventRep, hwritten, hten] at hlen
      omega
  · obtain ⟨-, hserves⟩ := h.last
    have hgreeting : (runFrom (step R) (create 30) deafClientRun).greeting = none := by
      decide +kernel
    have hnothing : (runFrom (step R) (create 30) deafClientRun).sent 0 = [] := by decide +kernel
    have hmetadata : (runFrom (step R) (create 30) deafClientRun).metadata 0 = [42] := by
      decide +kernel
    rcases hserves 0 (by decide +kernel) with ⟨chunks, hgreet, -⟩ | ⟨before, part, -, hpart, -⟩
    · rw [hgreeting] at hgreet
      exact nomatch hgreet
    · rw [hnothing, hmetadata] at hpart
      exact nomatch hpart

end TcpListener

end HawkTracer.Lib
