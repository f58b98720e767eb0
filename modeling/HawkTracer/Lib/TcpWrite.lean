import HawkTracer.Base.Loop
import HawkTracer.Base.SizeT
import HawkTracer.Lib.Tcp

/-!
# Writing to the clients of a server

`ht_tcp_server_write` goes through the bag of sockets with an index of type `size_t` and removes,
while it goes, those it could not write to: the last socket comes to the free slot, and the index
is decremented and incremented again, through the largest `size_t` if the first client fails. For
each socket `ht_tcp_server_write_to_socket` calls `send` until everything is sent or a call fails;
the number `send` returns is converted to an `int`.

`HawkTracer.Lib.writeFrom` is about the bytes that arrive. Here the calls of `send` are listed as
they are made, on numbers as the code has them. What `send` answers is given for each socket and
each call on it, so that it is the same whatever happens to other clients.
`HawkTracer.Lib.tcpServerWrite_broadcasts`: each client gets the bytes of the buffer in order, all
of them or those before the first call that fails, and the clients that stay are those that got
all.
-/

namespace HawkTracer.Lib

open SizeT

/-! ### One socket -/

/-- A call of `send`: where in the buffer the data start, how many bytes they are, and the
answer. -/
structure SendCall where
  offset : UInt64
  length : UInt64
  answer : ℤ

/-- The number of bytes the call has sent. -/
def SendCall.count (c : SendCall) : ℕ := c.answer.toNat

/-- The bytes the call has sent. -/
def SendCall.sent (bytes : List UInt8) (c : SendCall) : List UInt8 :=
  (bytes.drop c.offset.toNat).take c.count

/-- The loop of `ht_tcp_server_write_to_socket`, with the answer to the next call and those that
follow: the returned value and the calls; nothing if the loop has not ended after so many tests
of its condition. -/
def sendFrom (send : ℕ → ℕ → ℤ) (size : UInt64) :
    ℕ → ℕ → UInt64 → Option (Bool × List SendCall)
  | 0, _, _ => none
  | tests + 1, k, sent =>
    if sent < size then
      let answer := send k (size - sent).toNat
      let call : SendCall := ⟨sent, size - sent, answer⟩
      -- `int n`
      let n := answer.bmod (2 ^ 32)
      if n ≤ 0 then some (false, [call])
      else
        (sendFrom send size tests (k + 1) (sent + .ofInt n)).map fun r => (r.1, call :: r.2)
    else some (true, [])

/-- `ht_tcp_server_write_to_socket`. -/
def tcpServerWriteToSocket (send : ℕ → ℕ → ℤ) (size : UInt64) (tests : ℕ) :
    Option (Bool × List SendCall) :=
  if size = 0 then some (true, []) else sendFrom send size tests 0 0

/-- `send` returns an error or a number of bytes, of those it was given. -/
def Sends (send : ℕ → ℕ → ℤ) : Prop := ∀ k n, -1 ≤ send k n ∧ send k n ≤ n

/-- **The calls are answered by `send`**, from the `k`-th call on the socket on: each of them
passes what is behind the bytes that have been sent. -/
def Answered (send : ℕ → ℕ → ℤ) (k : ℕ) (bytes : List UInt8) (offset : ℕ)
    (calls : List SendCall) : Prop :=
  ∀ i c, calls[i]? = some c → c.answer = send (k + i) c.length.toNat ∧
    c.offset.toNat = offset + ((calls.take i).map SendCall.count).sum ∧
    c.offset.toNat + c.length.toNat = bytes.length

/-- **The bytes from an offset on are sent in order**, without a gap or a repetition: all of them,
or those before the first call that fails. -/
structure SentFrom (send : ℕ → ℕ → ℤ) (k : ℕ) (bytes : List UInt8) (offset : ℕ) (ok : Bool)
    (calls : List SendCall) : Prop where
  answered : Answered send k bytes offset calls
  inOrder : calls.flatMap (SendCall.sent bytes) =
    (bytes.drop offset).take (calls.map SendCall.count).sum
  all : ok = true → calls.flatMap (SendCall.sent bytes) = bytes.drop offset ∧
    ∀ c ∈ calls, 0 < c.answer
  failed : ok = false → offset + (calls.map SendCall.count).sum < bytes.length ∧
    ∃ before c, calls = before ++ [c] ∧ c.answer ≤ 0 ∧ ∀ c' ∈ before, 0 < c'.answer

section Calls

variable {send : ℕ → ℕ → ℤ} {k : ℕ} {bytes : List UInt8}

theorem answered_cons {offset : ℕ} {c : SendCall} {calls : List SendCall}
    (hanswer : c.answer = send k c.length.toNat) (hoffset : c.offset.toNat = offset)
    (hlength : c.offset.toNat + c.length.toNat = bytes.length)
    (h : Answered send (k + 1) bytes (offset + c.count) calls) :
    Answered send k bytes offset (c :: calls) := by
  intro i c' hc'
  rcases i with _ | i
  · obtain rfl : c = c' := Option.some.inj hc'
    exact ⟨hanswer, hoffset, hlength⟩
  · obtain ⟨hanswer', hoffset', hlength'⟩ := h i c' hc'
    refine ⟨?_, ?_, hlength'⟩
    · rw [hanswer', Nat.add_right_comm, Nat.add_assoc]
    · rw [hoffset', List.take_succ_cons, List.map_cons, List.sum_cons, Nat.add_assoc]

theorem sentFrom_nil {offset : ℕ} (h : bytes.length ≤ offset) :
    SentFrom send k bytes offset true [] where
  answered _ _ hc := nomatch hc
  inOrder := rfl
  all _ := ⟨(List.drop_eq_nil_of_le h).symm, fun _ hc => absurd hc List.not_mem_nil⟩
  failed := nofun

theorem sentFrom_failed {c : SendCall} (hanswer : c.answer = send k c.length.toNat)
    (hlength : c.offset.toNat + c.length.toNat = bytes.length) (hc : c.answer ≤ 0)
    (hlt : c.offset.toNat < bytes.length) : SentFrom send k bytes c.offset.toNat false [c] where
  answered := answered_cons hanswer rfl hlength fun _ _ hc => nomatch hc
  inOrder := by
    rw [List.flatMap_singleton, List.map_singleton, List.sum_singleton]
    rfl
  all := nofun
  failed _ := by
    have hcount : c.count = 0 := Int.toNat_of_nonpos hc
    rw [List.map_singleton, List.sum_singleton, hcount]
    exact ⟨hlt, [], c, rfl, hc, fun _ hc' => absurd hc' List.not_mem_nil⟩

/-- **A call before the others.** -/
theorem SentFrom.cons {ok : Bool} {calls : List SendCall} {c : SendCall}
    (hanswer : c.answer = send k c.length.toNat)
    (hlength : c.offset.toNat + c.length.toNat = bytes.length) (hpos : 0 < c.answer)
    (h : SentFrom send (k + 1) bytes (c.offset.toNat + c.count) ok calls) :
    SentFrom send k bytes c.offset.toNat ok (c :: calls) where
  answered := answered_cons hanswer rfl hlength h.answered
  inOrder := by
    rw [List.flatMap_cons, h.inOrder, List.map_cons, List.sum_cons, List.take_add, List.drop_drop]
    rfl
  all hok := by
    obtain ⟨hall, hanswers⟩ := h.all hok
    refine ⟨?_, List.forall_mem_cons.mpr ⟨hpos, hanswers⟩⟩
    rw [List.flatMap_cons, hall, SendCall.sent, ← List.drop_drop, List.take_append_drop]
  failed hok := by
    obtain ⟨hlt, before, last, rfl, hlast, hbefore⟩ := h.failed hok
    refine ⟨?_, c :: before, last, rfl, hlast, List.forall_mem_cons.mpr ⟨hpos, hbefore⟩⟩
    rw [List.map_cons, List.sum_cons, ← Nat.add_assoc]
    exact hlt

end Calls

section Loop

variable {send : ℕ → ℕ → ℤ} {size sent : UInt64}

theorem sendFrom_of_all (h : ¬ sent < size) (k tests : ℕ) :
    sendFrom send size (tests + 1) k sent = some (true, []) := by
  rw [sendFrom, if_neg h]

/-- The answer of a call fits into an `int`. -/
theorem bmod_eq {a : ℤ} {n : ℕ} (hn : n < 2 ^ 31) (h : -1 ≤ a ∧ a ≤ n) : a.bmod (2 ^ 32) = a :=
  Int.bmod_eq_of_le_mul_two (by omega) (by omega)

theorem sendFrom_of_lt (h : sent < size) {k : ℕ} {answer : ℤ}
    (hanswer : send k (size - sent).toNat = answer) (hint : answer.bmod (2 ^ 32) = answer)
    (tests : ℕ) :
    sendFrom send size (tests + 1) k sent =
      if answer ≤ 0 then some (false, [⟨sent, size - sent, answer⟩])
      else (sendFrom send size tests (k + 1) (sent + .ofInt answer)).map fun r =>
        (r.1, ⟨sent, size - sent, answer⟩ :: r.2) := by
  rw [sendFrom, if_pos h]
  simp only [hanswer, hint]

end Loop

/-- **The loop ends**, and what it has done. -/
theorem exists_sendFrom {bytes : List UInt8} (hbytes : bytes.length < 2 ^ 31)
    {send : ℕ → ℕ → ℤ} (hsend : Sends send) {left : ℕ} (k : ℕ) (sent : UInt64)
    (hleft : bytes.length ≤ sent.toNat + left) (hsent : sent.toNat ≤ bytes.length) :
    ∃ ok calls, (∀ tests > left,
        sendFrom send (.ofNat bytes.length) tests k sent = some (ok, calls)) ∧
      SentFrom send k bytes sent.toNat ok calls := by
  have hsize : (UInt64.ofNat bytes.length).toNat = bytes.length :=
    UInt64.toNat_ofNat_of_lt' (show bytes.length < 2 ^ 64 by omega)
  -- every call that succeeds leaves fewer bytes to send
  induction left generalizing k sent with
  | zero =>
    have hall : ¬ sent < .ofNat bytes.length := by
      rw [UInt64.lt_iff_toNat_lt, hsize]
      omega
    exact ⟨true, [], forall_gt_of_succ (sendFrom_of_all hall k) 0, sentFrom_nil hleft⟩
  | succ left ih =>
    by_cases hlt : sent < .ofNat bytes.length
    · have hlt' : sent.toNat < bytes.length := hsize ▸ UInt64.lt_iff_toNat_lt.mp hlt
      have hrest : (UInt64.ofNat bytes.length - sent).toNat = bytes.length - sent.toNat := by
        rw [UInt64.toNat_sub_of_le _ _ (UInt64.le_iff_toNat_le.mpr (hsize.symm ▸ hsent)), hsize]
      have hrange := hsend k (UInt64.ofNat bytes.length - sent).toNat
      have hlength : sent.toNat + (UInt64.ofNat bytes.length - sent).toNat = bytes.length := by
        omega
      generalize hanswer : send k (UInt64.ofNat bytes.length - sent).toNat = answer at hrange
      rw [hrest] at hrange
      have hround := sendFrom_of_lt hlt hanswer (bmod_eq (by omega) hrange)
      by_cases hfail : answer ≤ 0
      · refine ⟨false, _, forall_gt_of_succ (fun tests => (hround tests).trans (if_pos hfail)) _,
          sentFrom_failed (c := ⟨sent, _, answer⟩) hanswer.symm hlength hfail hlt'⟩
      · have hint : (UInt64.ofInt answer).toNat = answer.toNat :=
          toNat_ofInt_of_nonneg (by omega) (by omega)
        have hnext : (sent + .ofInt answer).toNat = sent.toNat + answer.toNat := by
          rw [toNat_add_of_lt (by omega), hint]
        obtain ⟨ok, calls, hrun, hcalls⟩ := ih (k + 1) (sent + .ofInt answer) (by omega) (by omega)
        refine ⟨ok, ⟨sent, .ofNat bytes.length - sent, answer⟩ :: calls, ?_,
          SentFrom.cons (c := ⟨sent, _, answer⟩) hanswer.symm hlength (Int.not_le.mp hfail)
            (hnext ▸ hcalls)⟩
        refine forall_gt_succ (fun tests => (hround tests).trans (if_neg hfail)) ?_
        intro tests htests
        rw [hrun tests htests, Option.map_some]
    · have hge : bytes.length ≤ sent.toNat := by
        rw [UInt64.lt_iff_toNat_lt, hsize] at hlt
        omega
      exact ⟨true, [], forall_gt_of_succ (sendFrom_of_all hlt k) _, sentFrom_nil hge⟩

/-- **What happens to one client**, by the answers of its socket alone. -/
theorem exists_writeToSocket {bytes : List UInt8} (hbytes : bytes.length < 2 ^ 31)
    {send : ℕ → ℕ → ℤ} (hsend : Sends send) :
    ∃ ok calls, (∀ tests > bytes.length,
        tcpServerWriteToSocket send (.ofNat bytes.length) tests = some (ok, calls)) ∧
      SentFrom send 0 bytes 0 ok calls := by
  obtain ⟨ok, calls, hrun, hcalls⟩ := exists_sendFrom hbytes hsend 0 0
    (Nat.le_add_left ..) (Nat.zero_le _)
  by_cases hzero : UInt64.ofNat bytes.length = 0
  · have hnil : bytes.length ≤ 0 := by
      have hsize : (UInt64.ofNat bytes.length).toNat = bytes.length :=
        UInt64.toNat_ofNat_of_lt' (show bytes.length < 2 ^ 64 by omega)
      rw [← hsize, hzero]
      exact Nat.le_refl 0
    exact ⟨true, [], fun tests _ => if_pos hzero, sentFrom_nil hnil⟩
  · exact ⟨ok, calls, fun tests htests => (if_neg hzero).trans (hrun tests htests), hcalls⟩

/-! ### All clients -/

/-- The sizes of `HT_BagInt`. -/
def intSizes : Bag.Sizes := ⟨4, 8⟩

/-- What `ht_tcp_server_write` does with one client: the value
`ht_tcp_server_write_to_socket` returns, and the calls of `send`. -/
structure Transfer where
  fd : ℤ
  ok : Bool
  calls : List SendCall

/-- The loop of `ht_tcp_server_write`; nothing if it has not ended after so many tests of its
condition, or has found a slot without a socket. The answers of `send` and, for a client that is
removed, the answer of the allocator are given by the socket. -/
def writeLoop (send : ℤ → ℕ → ℕ → ℤ) (oks : ℤ → Bool) (bytes : List UInt8) (tests : ℕ) :
    ℕ → UInt64 → Bag ℤ → Option (Bag ℤ × List Transfer)
  | 0, _, _ => none
  | rounds + 1, i, clients =>
    if i.toNat < clients.size then
      match clients.slots.getD i.toNat none with
      | none => none
      | some fd =>
        match tcpServerWriteToSocket (send fd) (.ofNat bytes.length) tests with
        | none => none
        | some (true, calls) =>
          (writeLoop send oks bytes tests rounds (i + 1) clients).map fun r =>
            (r.1, ⟨fd, true, calls⟩ :: r.2)
        | some (false, calls) =>
          (writeLoop send oks bytes tests rounds (i - 1 + 1)
              (clients.removeNth intSizes i.toNat (oks fd))).map fun r =>
            (r.1, ⟨fd, false, calls⟩ :: r.2)
    else some (clients, [])

/-- `ht_tcp_server_write`, each of whose loops may test its condition so many times. -/
def tcpServerWrite (send : ℤ → ℕ → ℕ → ℤ) (oks : ℤ → Bool) (bytes : List UInt8)
    (clients : Bag ℤ) (tests : ℕ) : Option (Bag ℤ × List Transfer) :=
  writeLoop send oks bytes tests tests 0 clients

/-- **What the rounds of a write have done**, from a state in which some clients have been kept
and the rest is still to be written to. -/
structure Written (send : ℤ → ℕ → ℕ → ℤ) (bytes : List UInt8) (clients : Bag ℤ)
    (kept rest : List ℤ) (ts : List Transfer) : Prop where
  /-- Each client is written to once. -/
  once : (ts.map Transfer.fd).Perm rest
  /-- What it is sent depends on the answers of its own socket only. -/
  own : ∀ t ∈ ts, ∀ tests > bytes.length,
    tcpServerWriteToSocket (send t.fd) (.ofNat bytes.length) tests = some (t.ok, t.calls)
  sent : ∀ t ∈ ts, SentFrom (send t.fd) 0 bytes 0 t.ok t.calls
  /-- The bag holds the clients that could be written to. -/
  remaining : ∃ l, Bag.Stores intSizes clients l ∧
    l.Perm (kept ++ (ts.filter Transfer.ok).map Transfer.fd)

variable {send : ℤ → ℕ → ℕ → ℤ} {oks : ℤ → Bool} {bytes : List UInt8} {clients : Bag ℤ}
  {kept rest l : List ℤ} {ts : List Transfer}

theorem written_nil (h : Bag.Stores intSizes clients kept) :
    Written send bytes clients kept [] [] where
  once := .refl _
  own _ ht := absurd ht List.not_mem_nil
  sent _ ht := absurd ht List.not_mem_nil
  remaining := ⟨kept, h, by rw [List.filter_nil, List.map_nil, List.append_nil]⟩

/-- **A round before the others.** -/
theorem Written.cons {t : Transfer}
    (hown : ∀ tests > bytes.length,
      tcpServerWriteToSocket (send t.fd) (.ofNat bytes.length) tests = some (t.ok, t.calls))
    (hsent : SentFrom (send t.fd) 0 bytes 0 t.ok t.calls)
    (h : Written send bytes clients (kept ++ if t.ok then [t.fd] else []) rest ts) :
    Written send bytes clients kept (t.fd :: rest) (t :: ts) where
  once := h.once.cons _
  own := List.forall_mem_cons.mpr ⟨hown, h.own⟩
  sent := List.forall_mem_cons.mpr ⟨hsent, h.sent⟩
  remaining := by
    obtain ⟨l, hl, hp⟩ := h.remaining
    refine ⟨l, hl, hp.trans (.of_eq ?_)⟩
    rw [List.append_assoc, List.filter_cons]
    cases t.ok <;> rfl

theorem writeLoop_of_end (h : Bag.Stores intSizes clients l) (hlen : l.length < 2 ^ 64)
    (tests rounds : ℕ) :
    writeLoop send oks bytes tests (rounds + 1) (.ofNat l.length) clients =
      some (clients, []) := by
  have hindex : (UInt64.ofNat l.length).toNat = l.length := UInt64.toNat_ofNat_of_lt' hlen
  rw [writeLoop, hindex, h.size_eq, if_neg (Nat.lt_irrefl _)]

/-- **The step lemma**: what a round does with the client it finds. -/
theorem writeLoop_succ (oks : ℤ → Bool) (h : Bag.Stores intSizes clients l) {i : ℕ}
    (hi : i < 2 ^ 64) {t : Transfer} (hx : l[i]? = some t.fd) {tests : ℕ}
    (hown : tcpServerWriteToSocket (send t.fd) (.ofNat bytes.length) tests = some (t.ok, t.calls))
    (rounds : ℕ) :
    writeLoop send oks bytes tests (rounds + 1) (.ofNat i) clients =
      (if t.ok then writeLoop send oks bytes tests rounds (.ofNat (i + 1)) clients
      else writeLoop send oks bytes tests rounds (.ofNat i)
        (clients.removeNth intSizes i (oks t.fd))).map fun r => (r.1, t :: r.2) := by
  obtain ⟨fd, ok, calls⟩ := t
  have hindex : (UInt64.ofNat i).toNat = i := UInt64.toNat_ofNat_of_lt' hi
  have hslot : clients.slots.getD i none = some fd := by
    rw [List.getD_eq_getElem?_getD, h.getElem?_slots, hx]
    rfl
  have hlt : i < clients.size := h.size_eq ▸ (List.getElem?_eq_some_iff.mp hx).1
  rw [writeLoop, hindex, if_pos hlt, hslot]
  simp only [hown]
  cases ok with
  | true =>
    rw [if_pos rfl, UInt64.ofNat_add]
    rfl
  | false =>
    -- the index comes back to where it was, through the largest number if it was zero
    rw [if_neg Bool.false_ne_true, UInt64.sub_add_cancel]

/-- **The run lemma**: the loop ends after one test more than there are clients left. -/
theorem exists_writeLoop (hbytes : bytes.length < 2 ^ 31) (hsend : ∀ fd, Sends (send fd))
    (oks : ℤ → Bool) {left i : ℕ} (h : Bag.Stores intSizes clients l)
    (hleft : l.length ≤ i + left) (hi : i ≤ l.length) (hlen : l.length < 2 ^ 64) :
    ∃ clients' ts, (∀ tests > bytes.length, ∀ rounds > left,
        writeLoop send oks bytes tests rounds (.ofNat i) clients = some (clients', ts)) ∧
      Written send bytes clients' (l.take i) (l.drop i) ts := by
  induction left generalizing clients l i with
  | zero =>
    obtain rfl : i = l.length := Nat.le_antisymm hi hleft
    refine ⟨clients, [], fun tests _ => forall_gt_of_succ (writeLoop_of_end h hlen tests) 0, ?_⟩
    rw [List.take_length, List.drop_length]
    exact written_nil h
  | succ left ih =>
    rcases hx : l[i]? with _ | fd
    · obtain rfl : i = l.length := Nat.le_antisymm hi (List.getElem?_eq_none_iff.mp hx)
      refine ⟨clients, [], fun tests _ => forall_gt_of_succ (writeLoop_of_end h hlen tests) _, ?_⟩
      rw [List.take_length, List.drop_length]
      exact written_nil h
    obtain ⟨hlt, hget⟩ := List.getElem?_eq_some_iff.mp hx
    obtain ⟨ok, calls, hown, hsent⟩ := exists_writeToSocket hbytes (hsend fd)
    have hround := fun tests (htests : tests > bytes.length) =>
      writeLoop_succ oks (t := ⟨fd, ok, calls⟩) h (by omega) hx (hown tests htests)
    rw [List.drop_eq_getElem_cons hlt, hget]
    cases ok with
    | true =>
      obtain ⟨clients', ts, hrun, hwritten⟩ := ih h (i := i + 1) (by omega) hlt hlen
      refine ⟨clients', ⟨fd, true, calls⟩ :: ts, fun tests htests => ?_, ?_⟩
      · refine forall_gt_succ (hround tests htests) fun rounds hrounds => ?_
        rw [if_pos rfl, hrun tests htests rounds hrounds, Option.map_some]
      · rw [List.take_add_one, hx] at hwritten
        exact Written.cons (t := ⟨fd, true, calls⟩) hown hsent hwritten
    | false =>
      have hlen' := Bag.length_swapRemove hlt
      obtain ⟨clients', ts, hrun, hwritten⟩ := ih (i := i)
        (h.removeNth (by decide) hlt (oks fd)) (by omega) (by omega) (by omega)
      refine ⟨clients', ⟨fd, false, calls⟩ :: ts, fun tests htests => ?_, ?_⟩
      · refine forall_gt_succ (hround tests htests) fun rounds hrounds => ?_
        rw [if_neg Bool.false_ne_true, hrun tests htests rounds hrounds, Option.map_some]
      · rw [Bag.take_swapRemove hlt, ← List.append_nil (l.take i)] at hwritten
        exact Written.cons (t := ⟨fd, false, calls⟩) hown hsent
          { hwritten with once := hwritten.once.trans (Bag.drop_swapRemove_perm hlt) }

/-- **A write to all clients.** -/
structure Broadcasts (send : ℤ → ℕ → ℕ → ℤ) (bytes : List UInt8) (l : List ℤ) (clients : Bag ℤ)
    (ts : List Transfer) : Prop where
  /-- Each client is written to, and none twice. -/
  once : (ts.map Transfer.fd).Perm l
  nodup : (ts.map Transfer.fd).Nodup
  /-- Its transfer is made by `ht_tcp_server_write_to_socket` on its own socket. -/
  own : ∀ t ∈ ts, ∀ tests > bytes.length,
    tcpServerWriteToSocket (send t.fd) (.ofNat bytes.length) tests = some (t.ok, t.calls)
  /-- By the answers of `send` on that socket it is sent the bytes in order, all of them or up to
  the first call that fails. -/
  sent : ∀ t ∈ ts, SentFrom (send t.fd) 0 bytes 0 t.ok t.calls
  /-- The clients that stay are those that got everything, each once. -/
  remaining : ∃ l', Bag.Stores intSizes clients l' ∧ l'.Nodup ∧
    ∀ fd, fd ∈ l' ↔ ∃ t ∈ ts, t.fd = fd ∧ t.ok = true

/-- The whole loop. -/
theorem exists_tcpServerWrite (h : Bag.Stores intSizes clients l) (hlen : l.length < 2 ^ 64)
    (hbytes : bytes.length < 2 ^ 31) (hsend : ∀ fd, Sends (send fd)) (oks : ℤ → Bool) :
    ∃ clients' ts, (∀ tests > bytes.length + l.length,
        tcpServerWrite send oks bytes clients tests = some (clients', ts)) ∧
      Written send bytes clients' [] l ts := by
  obtain ⟨clients', ts, hrun, hwritten⟩ := exists_writeLoop hbytes hsend oks h
    (Nat.le_add_left l.length 0) (Nat.zero_le _) hlen
  rw [List.take_zero, List.drop_zero] at hwritten
  refine ⟨clients', ts, fun tests htests => ?_, hwritten⟩
  exact hrun tests (by omega) tests (by omega)

theorem Written.broadcasts (h : Written send bytes clients [] l ts) (hnodup : l.Nodup) :
    Broadcasts send bytes l clients ts := by
  have hts : (ts.map Transfer.fd).Nodup := h.once.nodup_iff.mpr hnodup
  obtain ⟨l', hl', hp⟩ := h.remaining
  rw [List.nil_append] at hp
  refine ⟨h.once, hts, h.own, h.sent, l', hl', ?_, fun fd => ?_⟩
  · exact hp.nodup_iff.mpr (hts.sublist (List.filter_sublist.map _))
  · rw [hp.mem_iff, List.mem_map]
    simp only [List.mem_filter]
    constructor
    · rintro ⟨t, ⟨ht, hok⟩, hfd⟩
      exact ⟨t, ht, hfd, hok⟩
    · rintro ⟨t, ht, hfd, hok⟩
      exact ⟨t, ⟨ht, hok⟩, hfd⟩

/-- **`ht_tcp_server_write` writes to every client**, and what happens to one of them does not
depend on the others: it is the same in every write in which its own socket gives the same
answers. -/
theorem tcpServerWrite_broadcasts (h : Bag.Stores intSizes clients l) (hnodup : l.Nodup)
    (hlen : l.length < 2 ^ 64) (hbytes : bytes.length < 2 ^ 31) (hsend : ∀ fd, Sends (send fd))
    (oks : ℤ → Bool) :
    ∃ clients' ts, (∀ tests > bytes.length + l.length,
        tcpServerWrite send oks bytes clients tests = some (clients', ts)) ∧
      Broadcasts send bytes l clients' ts ∧
      ∀ send' oks' clients'' ts', (∀ fd, Sends (send' fd)) →
        Ends (tcpServerWrite send' oks' bytes clients) (clients'', ts') →
        ∀ t ∈ ts, send' t.fd = send t.fd → t ∈ ts' := by
  obtain ⟨clients', ts, hends, hwritten⟩ := exists_tcpServerWrite h hlen hbytes hsend oks
  refine ⟨clients', ts, hends, hwritten.broadcasts hnodup, ?_⟩
  intro send' oks' clients'' ts' hsend' hends' t ht hsame
  obtain ⟨clients₂, ts₂, hends₂, hwritten₂⟩ := exists_tcpServerWrite h hlen hbytes hsend' oks'
  obtain ⟨rfl, rfl⟩ := Prod.mk.inj (hends'.unique ⟨_, hends₂⟩)
  -- the client is written to in the other run, too
  have hfd : t.fd ∈ ts'.map Transfer.fd :=
    hwritten₂.once.mem_iff.mpr (hwritten.once.mem_iff.mp (List.mem_map_of_mem ht))
  obtain ⟨t', ht', heq⟩ := List.mem_map.mp hfd
  have hown := hwritten.own t ht _ (Nat.lt_succ_self _)
  have hown' := hwritten₂.own t' ht' _ (Nat.lt_succ_self _)
  rw [heq, hsame, hown] at hown'
  obtain ⟨fd, ok, calls⟩ := t
  obtain ⟨fd', ok', calls'⟩ := t'
  cases hown'
  cases heq
  exact ht'

/-- Three clients. -/
def threeClients : Bag ℤ := ⟨8, 8, 32, [some 3, some 4, some 5]⟩

/-- The first client cannot be written to, and the second takes one byte at first. -/
def sendsOfThree : ℤ → ℕ → ℕ → ℤ := fun fd k n =>
  if fd = 3 then -1 else if fd = 4 ∧ k = 0 then min 1 n else n

/-- The index wraps around when the first client fails. The last one takes its place, and the
second is sent the rest of the bytes with a second call. -/
theorem tcpServerWrite_broadcasts_of_first_failed :
    ∃ clients, tcpServerWrite sendsOfThree (fun _ => true) [7, 8, 9] threeClients 7 =
        some (clients, [⟨3, false, [⟨0, 3, -1⟩]⟩, ⟨5, true, [⟨0, 3, 3⟩]⟩,
          ⟨4, true, [⟨0, 3, 1⟩, ⟨1, 2, 2⟩]⟩]) ∧
      clients.slots = [some 5, some 4] ∧
      Broadcasts sendsOfThree [7, 8, 9] [3, 4, 5] clients [⟨3, false, [⟨0, 3, -1⟩]⟩,
        ⟨5, true, [⟨0, 3, 3⟩]⟩, ⟨4, true, [⟨0, 3, 1⟩, ⟨1, 2, 2⟩]⟩] := by
  have hstores : Bag.Stores intSizes threeClients [3, 4, 5] :=
    ⟨⟨by decide, by decide, rfl⟩, by decide, by decide⟩
  have hsend : ∀ fd, Sends (sendsOfThree fd) := by
    intro fd k n
    rw [sendsOfThree]
    split
    · omega
    · split <;> omega
  have hbytes : ([7, 8, 9] : List UInt8).length < 2 ^ 31 := by decide
  obtain ⟨clients, ts, hends, hbroadcasts, -⟩ := tcpServerWrite_broadcasts hstores (by decide)
    (by decide) hbytes hsend fun _ => true
  have hrun : tcpServerWrite sendsOfThree (fun _ => true) [7, 8, 9] threeClients 7 =
      some (⟨8, 8, 32, [some 5, some 4]⟩, [⟨3, false, [⟨0, 3, -1⟩]⟩, ⟨5, true, [⟨0, 3, 3⟩]⟩,
        ⟨4, true, [⟨0, 3, 1⟩, ⟨1, 2, 2⟩]⟩]) := rfl
  obtain ⟨rfl, rfl⟩ := Prod.mk.inj (Option.some.inj ((hends 7 (by decide)).symm.trans hrun))
  exact ⟨_, hrun, rfl, hbroadcasts⟩

end HawkTracer.Lib
