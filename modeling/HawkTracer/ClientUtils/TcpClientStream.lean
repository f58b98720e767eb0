import HawkTracer.Parser.Input
import Mathlib.Data.List.Flatten
import Mathlib.Logic.Function.Iterate

/-!
# The stream of a live trace

`TCPClientStream` has a thread that receives chunks from a socket and puts them into a queue,
and the reader takes bytes out of the front chunk, which carries the number of its bytes that
are used. A read that finds the queue empty waits for the next chunk or for the end of the
connection; a block is copied piece by piece, and the mutex is released between the pieces.

`HawkTracer.ClientUtils.TcpSession` is such a stream with its environment: the chunks that
have not been received, and how many of them arrive before the reader gets the mutex each
time. What a reader sees depends on the bytes alone: a call answers as if it read from the
bytes that remain (`HawkTracer.ClientUtils.TcpSession.readByte_spec`,
`HawkTracer.ClientUtils.TcpSession.readData_spec`), so neither the chunks nor the times of
their arrival show in the answers (`HawkTracer.ClientUtils.TcpSession.chunking_invisible`).
-/

namespace HawkTracer.ClientUtils

/-! ### The queue -/

/-- **The object**: `_datas`, each chunk with the number of its bytes that are used, and
whether `_sock_fd` is a socket. -/
structure TcpClientStream where
  datas : List (ℕ × List UInt8)
  isConnected : Bool
  deriving DecidableEq

namespace TcpClientStream

/-- What `_run` does with a chunk it has received. -/
def push (s : TcpClientStream) (chunk : List UInt8) : TcpClientStream :=
  { s with datas := s.datas ++ [(0, chunk)] }

/-- What `_run` does when nothing can be received any more. -/
def disconnect (s : TcpClientStream) : TcpClientStream := { s with isConnected := false }

/-- The predicate of `_wait_for_data`. -/
def waitIsOver (s : TcpClientStream) : Bool := !s.datas.isEmpty || !s.isConnected

/-- `_datas.front()`. -/
def front (s : TcpClientStream) : ℕ × List UInt8 := s.datas.headD (0, [])

/-- `_pop_if_used`. -/
def popIfUsed (s : TcpClientStream) : TcpClientStream :=
  if s.front.2.length = s.front.1 then { s with datas := s.datas.tail } else s

/-- `n` more bytes of the front chunk are used. -/
def use (s : TcpClientStream) (n : ℕ) : TcpClientStream :=
  popIfUsed { s with datas := (s.front.1 + n, s.front.2) :: s.datas.tail }

end TcpClientStream

/-- The `int` a `char` is converted to. -/
def charToInt (charSigned : Bool) (c : UInt8) : ℤ :=
  if charSigned ∧ 128 ≤ c.toNat then (c.toNat : ℤ) - 256 else c.toNat

/-! ### The session -/

/-- **A stream with its environment**: the chunks still to be received, how many rounds of
`_run` pass before the mutex is taken for the `n`-th time, and how often it has been taken.
`pastEnd` records whether a byte after the end of a chunk has been read. -/
structure TcpSession extends TcpClientStream where
  incoming : List (List UInt8)
  arrivals : ℕ → ℕ
  turn : ℕ
  pastEnd : Bool

namespace TcpSession

/-- A connection over which the given chunks will come. -/
def start (chunks : List (List UInt8)) (arrivals : ℕ → ℕ) : TcpSession where
  datas := []
  isConnected := true
  incoming := chunks
  arrivals := arrivals
  turn := 0
  pastEnd := false

/-- One round of `_run`. -/
def recv (s : TcpSession) : TcpSession :=
  if s.isConnected then
    match s.incoming with
    | [] => { s with toTcpClientStream := s.toTcpClientStream.disconnect }
    | chunk :: chunks =>
      { s with toTcpClientStream := s.toTcpClientStream.push chunk, incoming := chunks }
  else s

/-- The reader takes the mutex. -/
def lock (s : TcpSession) : TcpSession :=
  { recv^[s.arrivals s.turn] s with turn := s.turn + 1 }

/-- `_wait_for_data`, with the mutex taken. A wait that is not over releases the mutex until
there has been an arrival (see `HawkTracer.ClientUtils.session_of_run`). -/
def waitForData (s : TcpSession) : Bool × TcpSession :=
  let s := if s.waitIsOver then s else s.recv.lock
  (!s.datas.isEmpty, s)

/-- The next `n` bytes of the front chunk are read. -/
def takeFront (s : TcpSession) (n : ℕ) : List UInt8 × TcpSession :=
  ((s.front.2.drop s.front.1).take n,
    { s with
      toTcpClientStream := s.toTcpClientStream.use n
      pastEnd := s.pastEnd || decide (s.front.2.length < s.front.1 + n) })

/-- `read_byte`. -/
def readByte (charSigned : Bool) (s : TcpSession) : ℤ × TcpSession :=
  match s.lock.waitForData with
  | (false, s) => (-1, s)
  | (true, s) => (charToInt charSigned ((s.takeFront 1).1.headD 0), (s.takeFront 1).2)

/-- The loop of `read_data`: whether it succeeds, and the bytes it has copied. -/
def readDataLoop : ℕ → TcpSession → ℕ → Option (Bool × List UInt8) × TcpSession
  | 0, s, _ => (none, s)
  | fuel + 1, s, size =>
    match s.lock.waitForData with
    | (false, s) => (some (false, []), s)
    | (true, s) =>
      let bytesCount := min size (s.front.2.length - s.front.1)
      let (bytes, s) := s.takeFront bytesCount
      if size - bytesCount ≠ 0 then
        let (r, s) := readDataLoop fuel s (size - bytesCount)
        (r.map fun p => (p.1, bytes ++ p.2), s)
      else (some (true, bytes), s)

/-- `read_data`; a round takes at least one byte. -/
def readData (s : TcpSession) (size : ℕ) : Option (Bool × List UInt8) × TcpSession :=
  readDataLoop size s size

/-- The bytes that have not been read, wherever they are. -/
def remaining (s : TcpSession) : List UInt8 :=
  (s.datas.flatMap fun d => d.2.drop d.1) ++ s.incoming.flatten

/-- **What every session keeps to**: a chunk in the queue is not used up, none of those to
come is empty, they have all come before the end of the connection, and no read has gone past
the end of a chunk. -/
structure Valid (s : TcpSession) : Prop where
  used : ∀ d ∈ s.datas, d.1 < d.2.length
  incoming : [] ∉ s.incoming
  disconnected : s.isConnected = false → s.incoming = []
  pastEnd : s.pastEnd = false

variable {s : TcpSession}

theorem valid_start {chunks : List (List UInt8)} (h : [] ∉ chunks) (arrivals : ℕ → ℕ) :
    Valid (start chunks arrivals) :=
  ⟨fun _ hd => absurd hd List.not_mem_nil, h, fun hc => absurd hc (by simp [start]), rfl⟩

theorem remaining_start (chunks : List (List UInt8)) (arrivals : ℕ → ℕ) :
    remaining (start chunks arrivals) = chunks.flatten := rfl

/-! ### Receiving -/

theorem Valid.recv (h : Valid s) : Valid s.recv := by
  unfold TcpSession.recv
  split
  · split
    · next hin => exact ⟨h.used, h.incoming, fun _ => hin, h.pastEnd⟩
    · next chunk chunks hin =>
      have hmem := h.incoming
      rw [hin, List.mem_cons, not_or] at hmem
      refine ⟨fun d hd => ?_, hmem.2, fun hc => ?_, h.pastEnd⟩
      · rcases List.mem_append.mp hd with hd | hd
        · exact h.used d hd
        · rw [List.mem_singleton.mp hd]
          exact List.length_pos_iff.mpr (Ne.symm hmem.1)
      · have hc' : s.isConnected = false := hc
        rw [h.disconnected hc'] at hin
        cases hin
  · exact h

theorem remaining_recv (s : TcpSession) : s.recv.remaining = s.remaining := by
  unfold recv
  split
  · split
    · rfl
    · next chunk chunks hin =>
      simp only [remaining, TcpClientStream.push, hin, List.flatMap_append, List.flatten_cons,
        List.append_assoc]
      simp
  · rfl

/-- After an arrival no wait goes on. -/
theorem waitIsOver_recv (s : TcpSession) : s.recv.waitIsOver = true := by
  unfold recv
  split
  · split
    · simp [TcpClientStream.waitIsOver, TcpClientStream.disconnect]
    · simp [TcpClientStream.waitIsOver, TcpClientStream.push]
  · next hc => simp [TcpClientStream.waitIsOver, hc]

theorem Valid.lock (h : Valid s) : Valid s.lock := by
  have hn : ∀ n, Valid (TcpSession.recv^[n] s) := fun n =>
    Function.Iterate.rec Valid h (fun _ h => h.recv) n
  obtain ⟨hused, hin, hdis, hpast⟩ := hn (s.arrivals s.turn)
  exact ⟨hused, hin, hdis, hpast⟩

theorem remaining_lock (s : TcpSession) : s.lock.remaining = s.remaining := by
  have hn : ∀ n, (recv^[n] s).remaining = s.remaining := fun n =>
    Function.Iterate.rec (fun s' : TcpSession => s'.remaining = s.remaining)
      rfl (fun s' h => (remaining_recv s').trans h) n
  exact hn (s.arrivals s.turn)

theorem waitIsOver_lock (h : s.waitIsOver = true) : s.lock.waitIsOver = true := by
  have hn : ∀ n, (recv^[n] s).waitIsOver = true := fun n =>
    Function.Iterate.rec (fun s' : TcpSession => s'.waitIsOver = true)
      h (fun s' _ => waitIsOver_recv s') n
  exact hn (s.arrivals s.turn)

/-- **`_wait_for_data` tells whether there is anything left to read**, and loses nothing. -/
theorem Valid.waitForData (h : Valid s) :
    ∃ s', Valid s' ∧ s'.remaining = s.remaining ∧
      (s.waitForData = (false, s') ∧ s.remaining = [] ∨
        s.waitForData = (true, s') ∧ s'.datas ≠ []) := by
  -- the state in which the predicate is found to hold
  obtain ⟨s', hs', hvalid, hrem, hover⟩ :
      ∃ s', s.waitForData = (!s'.datas.isEmpty, s') ∧ Valid s' ∧ s'.remaining = s.remaining ∧
        s'.waitIsOver = true := by
    by_cases hw : s.waitIsOver = true
    · exact ⟨s, by simp [TcpSession.waitForData, hw], h, rfl, hw⟩
    · exact ⟨s.recv.lock, by simp [TcpSession.waitForData, hw], h.recv.lock,
        (remaining_lock _).trans (remaining_recv s), waitIsOver_lock (waitIsOver_recv s)⟩
  refine ⟨s', hvalid, hrem, ?_⟩
  rcases hd : s'.datas with _ | ⟨d, ds⟩
  · have hdis : s'.isConnected = false := by
      simpa [TcpClientStream.waitIsOver, hd] using hover
    refine .inl ⟨by rw [hs', hd]; rfl, ?_⟩
    rw [← hrem, remaining, hd, hvalid.disconnected hdis]
    rfl
  · exact .inr ⟨by rw [hs', hd]; rfl, List.cons_ne_nil d ds⟩

/-! ### Reading -/

/-- **A piece of the front chunk** is the beginning of what remains. -/
theorem Valid.takeFront (h : Valid s) (hd : s.datas ≠ []) {n : ℕ}
    (hn : s.front.1 + n ≤ s.front.2.length) :
    (s.takeFront n).1 = s.remaining.take n ∧ (s.takeFront n).2.remaining = s.remaining.drop n ∧
      Valid (s.takeFront n).2 := by
  obtain ⟨⟨o, c⟩, ds, hds⟩ := List.exists_cons_of_ne_nil hd
  have hfront : s.front = (o, c) := by simp [TcpClientStream.front, hds]
  simp only [hfront] at hn
  have hlen : n ≤ (c.drop o).length := by rw [List.length_drop]; omega
  have hrem : s.remaining = c.drop o ++ (ds.flatMap (fun d => d.2.drop d.1) ++
      s.incoming.flatten) := by
    rw [remaining, hds, List.flatMap_cons, List.append_assoc]
  have hrest : ∀ d ∈ ds, d.1 < d.2.length := fun d hmem =>
    h.used d (hds ▸ List.mem_cons_of_mem _ hmem)
  have hpast : (s.pastEnd || decide (s.front.2.length < s.front.1 + n)) = false := by
    rw [h.pastEnd, hfront]
    simpa using hn
  refine ⟨?_, ?_, ?_⟩
  · rw [hrem, List.take_append_of_le_length hlen, TcpSession.takeFront, hfront]
  · rw [hrem, List.drop_append_of_le_length hlen, List.drop_drop]
    simp only [TcpSession.takeFront, TcpClientStream.use, TcpClientStream.popIfUsed, hds,
      TcpClientStream.front, List.headD_cons, List.tail_cons]
    split
    · -- the chunk is used up
      next hused => simp [remaining, ← hused]
    · simp [remaining]
  · simp only [TcpSession.takeFront, TcpClientStream.use, TcpClientStream.popIfUsed, hds,
      TcpClientStream.front, List.headD_cons, List.tail_cons] at hpast ⊢
    split
    · exact ⟨hrest, h.incoming, h.disconnected, hpast⟩
    · next hused =>
      refine ⟨fun d hmem => ?_, h.incoming, h.disconnected, hpast⟩
      rcases List.mem_cons.mp hmem with rfl | hmem
      · exact Nat.lt_of_le_of_ne hn (Ne.symm hused)
      · exact hrest d hmem

theorem Valid.front_lt (h : Valid s) (hd : s.datas ≠ []) : s.front.1 < s.front.2.length := by
  obtain ⟨d, ds, hds⟩ := List.exists_cons_of_ne_nil hd
  have hfront : s.front = d := by simp [TcpClientStream.front, hds]
  rw [hfront]
  exact h.used d (hds ▸ List.mem_cons_self)

/-- The first piece of a read, after the wait. -/
theorem Valid.lock_waitForData (h : Valid s) :
    ∃ s', Valid s' ∧ s'.remaining = s.remaining ∧
      (s.lock.waitForData = (false, s') ∧ s.remaining = [] ∨
        s.lock.waitForData = (true, s') ∧ s'.datas ≠ []) := by
  have hw := h.lock.waitForData
  rwa [remaining_lock] at hw

/-- What is taken from the front chunk remains to be read. -/
theorem Valid.le_length_remaining (h : Valid s) (hd : s.datas ≠ []) {n : ℕ}
    (hn : s.front.1 + n ≤ s.front.2.length) : n ≤ s.remaining.length := by
  have hlen := congrArg List.length (h.takeFront hd hn).1
  simp only [TcpSession.takeFront, List.length_take, List.length_drop] at hlen
  omega

/-- **`read_byte` takes the first of the remaining bytes.** -/
theorem readByte_spec (charSigned : Bool) (h : Valid s) :
    (s.readByte charSigned).1 = (s.remaining.head?.map (charToInt charSigned)).getD (-1) ∧
      (s.readByte charSigned).2.remaining = s.remaining.tail ∧
      Valid (s.readByte charSigned).2 := by
  obtain ⟨s', hvalid, hrem, ⟨hw, hnil⟩ | ⟨hw, hd⟩⟩ := h.lock_waitForData
  · rw [readByte, hw, hnil]
    exact ⟨rfl, hrem.trans hnil, hvalid⟩
  · have hlt : s'.front.1 + 1 ≤ s'.front.2.length := hvalid.front_lt hd
    obtain ⟨hbytes, hdrop, hvalid'⟩ := hvalid.takeFront hd hlt
    have hlen := hvalid.le_length_remaining hd hlt
    rw [readByte, hw]
    rw [hrem] at hbytes hdrop hlen
    obtain ⟨b, bs, hbs⟩ := List.exists_cons_of_length_pos hlen
    refine ⟨?_, by rw [hdrop, List.drop_one], hvalid'⟩
    simp only [hbytes, hbs]
    rfl

theorem readDataLoop_spec {fuel size : ℕ} (h : Valid s) (hpos : 1 ≤ size) (hfuel : size ≤ fuel) :
    (readDataLoop fuel s size).1 =
        some (decide (size ≤ s.remaining.length), s.remaining.take size) ∧
      (readDataLoop fuel s size).2.remaining = s.remaining.drop size ∧
      Valid (readDataLoop fuel s size).2 := by
  induction fuel generalizing s size with
  | zero => omega
  | succ fuel ih =>
    obtain ⟨s', hvalid, hrem, ⟨hw, hnil⟩ | ⟨hw, hd⟩⟩ := h.lock_waitForData
    · have hno : decide (size ≤ ([] : List UInt8).length) = false :=
        decide_eq_false (Nat.not_le.mpr hpos)
      rw [readDataLoop, hw, hnil, hno, List.take_nil, List.drop_nil]
      exact ⟨rfl, hrem.trans hnil, hvalid⟩
    · have hlt := hvalid.front_lt hd
      simp only [readDataLoop, hw]
      generalize hn : min size (s'.front.2.length - s'.front.1) = n
      have hfront : s'.front.1 + n ≤ s'.front.2.length := by omega
      obtain ⟨hbytes, hdrop, hvalid'⟩ := hvalid.takeFront hd hfront
      have hlen := hvalid.le_length_remaining hd hfront
      rw [hrem] at hbytes hdrop hlen
      split
      · -- there is more to copy, from what the piece has left
        obtain ⟨hr, hrest, hv⟩ := ih hvalid' (by omega : 1 ≤ size - n) (by omega)
        have hsize : n + (size - n) = size := by omega
        have hle : size - n ≤ s.remaining.length - n ↔ size ≤ s.remaining.length := by omega
        rw [hdrop] at hr hrest
        refine ⟨?_, by rw [hrest, List.drop_drop, hsize], hv⟩
        rw [hr, hbytes, Option.map_some, List.length_drop, ← List.take_add, hsize]
        simp only [hle]
      · have heq : n = size := by omega
        subst heq
        exact ⟨by rw [hbytes, decide_eq_true hlen], hdrop, hvalid'⟩

/-- **`read_data` takes the next bytes**; it fails exactly if there are not enough, and then it
takes all there are. -/
theorem readData_spec {size : ℕ} (h : Valid s) (hpos : 1 ≤ size) :
    (s.readData size).1 = some (decide (size ≤ s.remaining.length), s.remaining.take size) ∧
      (s.readData size).2.remaining = s.remaining.drop size ∧ Valid (s.readData size).2 :=
  readDataLoop_spec h hpos (Nat.le_refl size)

/-! ### Any calls, any chunks -/

/-- A call of the reader. -/
inductive Call where
  | readByte
  | readData (size : ℕ)
  deriving DecidableEq

/-- What a call returns; for `read_data`, the bytes it has copied too. -/
inductive Answer where
  | byte (v : ℤ)
  | data (ok : Bool) (bytes : List UInt8)
  deriving DecidableEq

variable (charSigned : Bool)

/-- One call; `none` would be a call that does not return. -/
def call (s : TcpSession) : Call → Option Answer × TcpSession
  | .readByte => (some (.byte (s.readByte charSigned).1), (s.readByte charSigned).2)
  | .readData size =>
    ((s.readData size).1.map fun p => .data p.1 p.2, (s.readData size).2)

/-- The answers to a sequence of calls, and the session after them. -/
def calls : TcpSession → List Call → List (Option Answer) × TcpSession
  | s, [] => ([], s)
  | s, c :: cs =>
    let (a, s) := s.call charSigned c
    let (as, s) := calls s cs
    (a :: as, s)

/-- **The answers are consecutive parts of the bytes**: `read_byte` the next byte or, if there
is none, the end; `read_data` the next `size` bytes or, if there are not as many, a failure. -/
def Consecutive : List UInt8 → List Call → List Answer → Prop
  | _, [], [] => True
  | bs, .readByte :: cs, .byte v :: as =>
    (∃ b bs', bs = b :: bs' ∧ v = charToInt charSigned b ∧ Consecutive bs' cs as) ∨
      bs = [] ∧ v = -1 ∧ Consecutive [] cs as
  | bs, .readData size :: cs, .data ok bytes :: as =>
    (ok = true ∧ bytes.length = size ∧ ∃ bs', bs = bytes ++ bs' ∧ Consecutive bs' cs as) ∨
      ok = false ∧ bs.length < size ∧ bytes = bs ∧ Consecutive [] cs as
  | _, _, _ => False

/-- The answers a reader of the bytes would get. -/
def answers : List UInt8 → List Call → List Answer
  | _, [] => []
  | bs, .readByte :: cs =>
    .byte ((bs.head?.map (charToInt charSigned)).getD (-1)) :: answers bs.tail cs
  | bs, .readData size :: cs =>
    .data (decide (size ≤ bs.length)) (bs.take size) :: answers (bs.drop size) cs

theorem consecutive_answers (bs : List UInt8) (cs : List Call) :
    Consecutive charSigned bs cs (answers charSigned bs cs) := by
  induction cs generalizing bs with
  | nil => trivial
  | cons c cs ih =>
    cases c with
    | readByte =>
      rcases bs with _ | ⟨b, bs⟩
      · exact .inr ⟨rfl, rfl, ih []⟩
      · exact .inl ⟨b, bs, rfl, rfl, ih bs⟩
    | readData size =>
      by_cases hlen : size ≤ bs.length
      · refine .inl ⟨decide_eq_true hlen, by rw [List.length_take, Nat.min_eq_left hlen], ?_⟩
        exact ⟨bs.drop size, (List.take_append_drop size bs).symm, ih _⟩
      · have hle : bs.length ≤ size := by omega
        refine .inr ⟨decide_eq_false hlen, by omega, List.take_of_length_le hle, ?_⟩
        rw [← List.drop_of_length_le hle]
        exact ih _

/-- **The calls of a session are answered from the bytes that remain.** -/
theorem calls_spec {cs : List Call} (hcs : .readData 0 ∉ cs) (h : Valid s) :
    (s.calls charSigned cs).1 = (answers charSigned s.remaining cs).map some ∧
      Valid (s.calls charSigned cs).2 := by
  induction cs generalizing s with
  | nil => exact ⟨rfl, h⟩
  | cons c cs ih =>
    obtain ⟨hc, hcs'⟩ := not_or.mp (List.mem_cons.not.mp hcs)
    cases c with
    | readByte =>
      obtain ⟨hv, hrem, hvalid⟩ := readByte_spec charSigned h
      obtain ⟨has, hlast⟩ := ih hcs' hvalid
      rw [hrem] at has
      refine ⟨?_, hlast⟩
      simp only [calls, call, answers, List.map_cons, has, hv]
    | readData size =>
      have hpos : 1 ≤ size := Nat.one_le_iff_ne_zero.mpr fun h0 => hc (h0 ▸ rfl)
      obtain ⟨hr, hrem, hvalid⟩ := readData_spec h hpos
      obtain ⟨has, hlast⟩ := ih hcs' hvalid
      rw [hrem] at has
      refine ⟨?_, hlast⟩
      simp only [calls, call, answers, List.map_cons, has, hr, Option.map_some]

/-- **Chunking is invisible.** Two connections that carry the same bytes, in whatever non-empty
chunks and whenever they arrive, give the same answers to the same calls: consecutive parts of
the bytes, none of them read past the end of a chunk. -/
theorem chunking_invisible (chunks chunks' : List (List UInt8)) (hne : [] ∉ chunks)
    (hne' : [] ∉ chunks') (hsame : chunks.flatten = chunks'.flatten) (arrivals arrivals' : ℕ → ℕ)
    (cs : List Call) (hcs : .readData 0 ∉ cs) :
    ((start chunks arrivals).calls charSigned cs).1 =
        ((start chunks' arrivals').calls charSigned cs).1 ∧
      (∃ as : List Answer, ((start chunks arrivals).calls charSigned cs).1 = as.map some ∧
        Consecutive charSigned chunks.flatten cs as) ∧
      ((start chunks arrivals).calls charSigned cs).2.pastEnd = false := by
  obtain ⟨has, hvalid⟩ := calls_spec charSigned hcs (valid_start hne arrivals)
  obtain ⟨has', -⟩ := calls_spec charSigned hcs (valid_start hne' arrivals')
  rw [remaining_start] at has has'
  exact ⟨by rw [has, has', hsame], ⟨_, has, consecutive_answers _ _ cs⟩, hvalid.pastEnd⟩

/-- Five bytes in one chunk, received at once, and in three that come when they are needed. -/
theorem chunking_invisible_five :
    ((start [[1, 2, 3, 200, 5]] fun _ => 2).calls true [.readData 3, .readByte, .readData 2]).1 =
        ((start [[1], [2, 3, 200], [5]] fun _ => 0).calls true
          [.readData 3, .readByte, .readData 2]).1 ∧
      ((start [[1, 2, 3, 200, 5]] fun _ => 2).calls true
        [.readData 3, .readByte, .readData 2]).2.pastEnd = false := by
  have h := chunking_invisible true [[1, 2, 3, 200, 5]] [[1], [2, 3, 200], [5]] (by decide)
    (by decide) rfl (fun _ => 2) (fun _ => 0) [.readData 3, .readByte, .readData 2] (by decide)
  exact ⟨h.1, h.2.2⟩

end TcpSession

end HawkTracer.ClientUtils
