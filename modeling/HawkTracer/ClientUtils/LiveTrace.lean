import HawkTracer.ClientUtils.TcpClientStream
import HawkTracer.Parser.Tracking

/-!
# Live and recorded traces

The same reader decodes a trace that comes over the network and one that was written to a
file. `FileStream::read_byte` returns what `fgetc` returns, a byte as an `unsigned char`;
`TCPClientStream::read_byte` returns an element of a block of `char`, and where `char` is
signed a byte from `0x80` on comes out negative. `_read_string` takes a negative number for the
end of the stream.

So the two streams agree about everything but such bytes in strings. To say which runs meet
one, `HawkTracer.ClientUtils.WatchedFile` is a file that takes note of them; it cannot be told
from a file otherwise. The reader does the same on the live stream as on the file if and only if
nothing was noted (`HawkTracer.ClientUtils.live_eq_recorded_iff`). A byte at the very end of the
trace does not count: after it the reader of the file finds the end, too.
-/

namespace HawkTracer.ClientUtils

open HawkTracer.Parser

/-! ### The streams -/

/-- `TCPClientStream` as the reader sees it, where `char` is signed. -/
instance : Stream TcpSession where
  readByte s := s.readByte true
  readData s n :=
    match s.readData n with
    | (some (true, bytes), s) => (some bytes, s)
    | (_, s) => (none, s)
  avail s := s.remaining.length

/-- **A file that takes note** of the bytes `read_byte` returns: `seen` says that one of them is
negative as a `char` and was not the last byte of the file. -/
structure WatchedFile where
  bytes : FileStream
  seen : Bool

/-- A file before it is read. -/
def WatchedFile.fresh (bytes : FileStream) : WatchedFile := ⟨bytes, false⟩

/-- The calls of the file, with the note. -/
instance : Stream WatchedFile where
  readByte w :=
    ((Stream.readByte w.bytes).1, ⟨(Stream.readByte w.bytes).2,
      w.seen || (decide (128 ≤ (Stream.readByte w.bytes).1) &&
        !(Stream.readByte w.bytes).2.isEmpty)⟩)
  readData w n := ((Stream.readData w.bytes n).1, ⟨(Stream.readData w.bytes n).2, w.seen⟩)
  avail w := Stream.avail w.bytes

/-! ### A watched file is a file -/

theorem avail_readByte_lt {bs : FileStream} (h : 0 < (Stream.readByte bs).1) :
    Stream.avail (Stream.readByte bs).2 < Stream.avail bs := by
  rcases bs with _ | ⟨b, bs⟩
  · cases h
  · exact Nat.lt_succ_self _

theorem watched_tracks_file :
    StreamTracks (fun (w : WatchedFile) (bs : FileStream) => w.bytes = bs) fun _ _ => False where
  avail := by
    rintro w _ rfl
    rfl
  data := by
    rintro w _ n rfl -
    exact ⟨rfl, rfl⟩
  byte := by
    rintro w _ rfl
    exact Or.inl ⟨rfl, rfl⟩
  shrinks := avail_readByte_lt
  data_stays := False.elim
  byte_stays := False.elim

/-! ### The live stream against a watched file -/

/-- The reading of both goes on alike: nothing has been noted. -/
def Abreast (s : TcpSession) (w : WatchedFile) : Prop :=
  s.Valid ∧ s.remaining = w.bytes ∧ w.seen = false

/-- The reader of the live stream has stopped at a byte that was noted. -/
def Behind (s : TcpSession) (w : WatchedFile) : Prop :=
  w.seen = true ∧ w.bytes.length < s.remaining.length

/-- A block is read alike. -/
theorem Abreast.readData {s : TcpSession} {w : WatchedFile} (h : Abreast s w) {n : ℕ} (hn : 1 ≤ n) :
    (Stream.readData s n).1 = (Stream.readData w n).1 ∧
      Abreast (Stream.readData s n).2 (Stream.readData w n).2 := by
  obtain ⟨hvalid, hrem, hseen⟩ := h
  obtain ⟨hdata, hrest, hvalid'⟩ := TcpSession.readData_spec hvalid hn
  rw [hrem] at hdata hrest
  have hfile : Stream.readData w.bytes n =
      if n ≤ w.bytes.length then (some (w.bytes.take n), w.bytes.drop n) else (none, []) := rfl
  have hlive : Stream.readData s n =
      (if n ≤ w.bytes.length then some (w.bytes.take n) else none, (s.readData n).2) := by
    simp only [Stream.readData]
    rcases hs : s.readData n with ⟨r, s'⟩
    rw [hs] at hdata
    obtain rfl : r = _ := hdata
    by_cases hle : n ≤ w.bytes.length
    · rw [decide_eq_true hle, if_pos hle]
    · rw [decide_eq_false hle, if_neg hle]
  rw [hlive]
  refine ⟨?_, hvalid', hrest.trans ?_, hseen⟩
  · change _ = (Stream.readData w.bytes n).1
    rw [hfile]
    split <;> rfl
  · change _ = (Stream.readData w.bytes n).2
    rw [hfile]
    split
    · rfl
    · next hle => exact List.drop_of_length_le (by omega)

/-- **A byte is read alike**, or it is negative on the live stream only. -/
theorem Abreast.readByte {s : TcpSession} {w : WatchedFile} (h : Abreast s w) :
    ((Stream.readByte s).1 = (Stream.readByte w).1 ∧
      Abreast (Stream.readByte s).2 (Stream.readByte w).2) ∨
    ((Stream.readByte s).1 < 0 ∧ 0 < (Stream.readByte w).1 ∧
      ((Stream.readByte (Stream.readByte w).2).1 < 0 ∧
          Abreast (Stream.readByte s).2 (Stream.readByte (Stream.readByte w).2).2 ∨
        Behind (Stream.readByte s).2 (Stream.readByte (Stream.readByte w).2).2)) := by
  obtain ⟨bytes, seen⟩ := w
  obtain ⟨hvalid, hrem, hseen⟩ := h
  obtain ⟨hbyte, hrest, hvalid'⟩ := TcpSession.readByte_spec true hvalid
  dsimp only at hrem hseen
  subst hseen
  rw [hrem] at hbyte hrest
  rcases bytes with _ | ⟨b, bs⟩
  · exact Or.inl ⟨hbyte, hvalid', hrest, rfl⟩
  have hwatched : Stream.readByte (⟨b :: bs, false⟩ : WatchedFile) =
      ((b.toNat : ℤ), ⟨bs, decide (128 ≤ (b.toNat : ℤ)) && !bs.isEmpty⟩) := rfl
  have hlive : (Stream.readByte s).1 = charToInt true b := hbyte
  rw [hwatched, hlive, charToInt]
  by_cases hb : 128 ≤ b.toNat
  · have hlt : b.toNat < 256 := b.toNat_lt
    rw [if_pos ⟨rfl, hb⟩, decide_eq_true (by omega)]
    refine Or.inr ⟨by omega, by omega, ?_⟩
    rcases bs with _ | ⟨c, cs⟩
    · -- nothing follows: the file is at its end, too
      exact Or.inl ⟨Int.negSucc_lt_zero 0, hvalid', hrest, rfl⟩
    · refine Or.inr ⟨rfl, ?_⟩
      have hrest' : (Stream.readByte s).2.remaining = c :: cs := hrest
      rw [hrest']
      exact Nat.lt_succ_self _
  · rw [if_neg (fun h => hb h.2), decide_eq_false (by omega)]
    exact Or.inl ⟨rfl, hvalid', hrest, rfl⟩

theorem live_tracks_watched : StreamTracks Abreast Behind where
  avail := by
    rintro s w ⟨-, hrem, -⟩
    exact congrArg List.length hrem
  data := fun h hn => h.readData hn
  byte := fun h => h.readByte
  shrinks := avail_readByte_lt
  data_stays := by
    rintro s ⟨bytes, seen⟩ n ⟨hseen, hlt⟩
    refine ⟨hseen, Nat.lt_of_le_of_lt ?_ hlt⟩
    change (Stream.readData bytes n).2.length ≤ bytes.length
    simp only [Stream.readData]
    split
    · exact (List.drop_sublist _ _).length_le
    · exact Nat.zero_le _
  byte_stays := by
    rintro s ⟨bytes, seen⟩ ⟨hseen, hlt⟩
    refine ⟨by rw [show seen = true from hseen]; rfl, Nat.lt_of_le_of_lt ?_ hlt⟩
    rcases bytes with _ | ⟨b, bs⟩
    · exact Nat.le_refl _
    · exact Nat.le_succ _

/-! ### The reader on both -/

variable (host : ByteOrder) (P : Platform) (flat : Bool) (depth : ℕ)

/-- **What a live trace and a recorded one have in common**: the events delivered, the point
where the reader stops, and why. -/
def DecodeAlike (live : Reader TcpSession × Stop) (recorded : Reader FileStream × Stop) : Prop :=
  live.1.delivered = recorded.1.delivered ∧ live.1.stream.remaining = recorded.1.stream ∧
    live.2 = recorded.2

/-- While the file is read, no byte that is negative as a `char` is met in a string, unless the
file ends with it. -/
def StringsArePositive (bytes : FileStream) : Prop :=
  (readEvents host P flat depth (WatchedFile.fresh bytes)).1.stream.seen = false

/-- **A live trace is decoded as the recorded one** if and only if no string has a byte that is
negative as a `char`. -/
theorem live_eq_recorded_iff (chunks : List (List UInt8)) (hne : [] ∉ chunks) (arrivals : ℕ → ℕ) :
    DecodeAlike (readEvents host P flat depth (TcpSession.start chunks arrivals))
        (readEvents host P flat depth (chunks.flatten : FileStream)) ↔
      StringsArePositive host P flat depth chunks.flatten := by
  have habreast : Abreast (.start chunks arrivals) (.fresh chunks.flatten) :=
    ⟨TcpSession.valid_start hne arrivals, TcpSession.remaining_start chunks arrivals, rfl⟩
  have hlive := live_tracks_watched.readEvents host P flat depth habreast
  have hfile : Reader.RunFollows (fun (w : WatchedFile) (bs : FileStream) => w.bytes = bs)
      (fun _ _ => False) (readEvents host P flat depth (WatchedFile.fresh chunks.flatten))
      (readEvents host P flat depth (chunks.flatten : FileStream)) :=
    watched_tracks_file.readEvents host P flat depth rfl
  rw [StringsArePositive]
  generalize readEvents host P flat depth (WatchedFile.fresh chunks.flatten) = watched at *
  rcases hfile with ⟨hfile, hstop⟩ | hfalse
  · rcases hlive with ⟨hlive, hstop'⟩ | ⟨hseen, hbehind⟩
    · refine iff_of_true ⟨?_, ?_, hstop'.trans hstop⟩ hlive.stream.2.2
      · rw [hlive.delivered, hfile.delivered]
      · rw [hlive.stream.2.1, hfile.stream]
    · refine iff_of_false ?_ (by rw [hseen]; exact Bool.noConfusion)
      rintro ⟨-, hremaining, -⟩
      rw [hremaining, hfile.stream] at hbehind
      exact Nat.lt_irrefl _ hbehind
  · exact hfalse.elim

/-- The description of a klass with a name of two bytes; in a recorded trace the name of a
klass may hold any byte but zero. -/
def namedKlass (name : List UInt8) : List UInt8 :=
  2 :: List.replicate 19 0 ++ [9, 0, 0, 0] ++ name ++ [0, 0]

/-- An ASCII name, in three chunks. -/
theorem live_eq_recorded_ascii :
    let chunks := [(namedKlass [0x41, 0x42]).take 5, [(namedKlass [0x41, 0x42]).getD 5 0],
      (namedKlass [0x41, 0x42]).drop 6]
    DecodeAlike (readEvents .little samplePlatform false 1 (TcpSession.start chunks fun _ => 1))
      (readEvents .little samplePlatform false 1 (chunks.flatten : FileStream)) := by
  intro chunks
  refine (live_eq_recorded_iff .little samplePlatform false 1 chunks (by decide) fun _ => 1).mpr ?_
  unfold StringsArePositive
  decide +kernel

/-- **A letter that is not ASCII ends a live trace**, not a recorded one. -/
theorem live_stops_at_utf8 :
    (readEvents .little samplePlatform false 1
        (TcpSession.start [namedKlass [0xc3, 0xa9]] fun _ => 1)).1.delivered.length = 0 ∧
      (readEvents .little samplePlatform false 1
        (namedKlass [0xc3, 0xa9] : FileStream)).1.delivered.length = 1 ∧
      ¬ DecodeAlike (readEvents .little samplePlatform false 1
          (TcpSession.start [namedKlass [0xc3, 0xa9]] fun _ => 1))
        (readEvents .little samplePlatform false 1 (namedKlass [0xc3, 0xa9] : FileStream)) := by
  have hlive : (readEvents .little samplePlatform false 1
      (TcpSession.start [namedKlass [0xc3, 0xa9]] fun _ => 1)).1.delivered.length = 0 := by
    decide +kernel
  have hfile : (readEvents .little samplePlatform false 1
      (namedKlass [0xc3, 0xa9] : FileStream)).1.delivered.length = 1 := by
    decide +kernel
  refine ⟨hlive, hfile, ?_⟩
  rintro ⟨hdelivered, -⟩
  rw [hdelivered, hfile] at hlive
  cases hlive

end HawkTracer.ClientUtils
