import HawkTracer.Lib.Metadata
import HawkTracer.Parser.KlassRegister
import Mathlib.Data.List.TakeWhile

/-!
# Reading numbers and strings from a stream

The two primitives of the reader. `_read_numeric` takes as many bytes as the type of
the field has, loads them as a number of the host and, if the stream was written in
the other byte order, swaps the bytes of that number; `_read_string` takes bytes up to
a zero into a block that doubles whenever it is full.

The swap functions are the expressions of `endianness_convert.hpp` on the bit pattern;
the signed and the unsigned overload of a width compute the same bits. They exchange
neighbours of 32, 16 and 8 bits one after another; that is the reversal of the bytes
(`HawkTracer.Parser.swap16_leNat` and its wider siblings), so that what `_read_numeric`
returns is the number the bytes denote in the byte order of the *stream*, on every host
(`HawkTracer.Parser.convert_ofBytes`).

Everything above these primitives sees a stream through
`HawkTracer.Parser.Input`, which is what they do to it. For the stream of a file both
are then characterised by the bytes they consume:
`HawkTracer.Parser.readNumeric_eq_ok_iff` and `HawkTracer.Parser.readString_eq_ok_iff`.
-/

namespace HawkTracer.Parser

/-! ### Results of reading -/

/-- What a reading function leaves behind: a value or a reason to stop, and the
stream. -/
inductive Result (α σ : Type) where
  /-- A value was read. -/
  | ok (a : α) (s : σ) : Result α σ
  /-- Reading stopped. -/
  | stop (w : Stop) (s : σ) : Result α σ

/-- Continue with the value read. -/
def Result.bind {α β σ : Type} (r : Result α σ) (k : α → σ → Result β σ) : Result β σ :=
  match r with
  | .ok a s => k a s
  | .stop w s => .stop w s

@[simp] theorem Result.ok_bind {α β σ : Type} (a : α) (s : σ) (k : α → σ → Result β σ) :
    (Result.ok a s).bind k = k a s := rfl

@[simp] theorem Result.stop_bind {α β σ : Type} (w : Stop) (s : σ) (k : α → σ → Result β σ) :
    (Result.stop w s).bind k = .stop w s := rfl

theorem Result.bind_eq_ok_iff {α β σ : Type} {r : Result α σ} {k : α → σ → Result β σ} {b : β}
    {s : σ} : r.bind k = .ok b s ↔ ∃ a s', r = .ok a s' ∧ k a s' = .ok b s := by
  cases r <;> simp

/-! ### Streams -/

/-- `Stream`: `read_byte` yields a byte or a negative number, `read_data` a block of the
asked size or nothing. `avail` bounds the number of bytes that can still be read. -/
class Stream (σ : Type) where
  readByte : σ → ℤ × σ
  readData : σ → ℕ → Option (List UInt8) × σ
  avail : σ → ℕ

/-- `FileStream`, by the bytes of the file that have not been read. -/
abbrev FileStream := List UInt8

/-- `fgetc` and `fread`: a short read takes what there is and reports the end. -/
instance : Stream FileStream where
  readByte
    | [] => (-1, [])
    | b :: bs => (b.toNat, bs)
  readData bs n := if n ≤ bs.length then (some (bs.take n), bs.drop n) else (none, [])
  avail := List.length

/-! ### Byte order -/

/-- `convert_endianness_to_native` of 16 bits, past the test for the native order. -/
def swap16 (x : BitVec 16) : BitVec 16 := (x <<< 8) ||| (x >>> 8)

/-- `convert_endianness_to_native` of 32 bits, past the test for the native order. -/
def swap32 (x : BitVec 32) : BitVec 32 :=
  let tmp := x <<< 16 ||| x >>> 16
  ((tmp <<< 8) &&& 0xff00ff00#32) ||| ((tmp >>> 8) &&& 0x00ff00ff#32)

/-- `convert_endianness_to_native` of 64 bits, past the test for the native order. -/
def swap64 (x : BitVec 64) : BitVec 64 :=
  let tmp1 := x <<< 32 ||| x >>> 32
  let tmp2 := (tmp1 &&& 0x0000FFFF0000FFFF#64) <<< 16 ||| (tmp1 &&& 0xFFFF0000FFFF0000#64) >>> 16
  (tmp2 &&& 0x00FF00FF00FF00FF#64) <<< 8 ||| (tmp2 &&& 0xFF00FF00FF00FF00#64) >>> 8

variable (host : ByteOrder)

/-- `is_system_endianness` on a host of the given byte order. The endianness of a stream is
whatever byte its endianness event holds. -/
def isSystemEndianness (endianness : UInt8) : Bool := Lib.endiannessCode host = endianness

/-- `convert_endianness_to_native`, by the type of the number. -/
def convert (endianness : UInt8) (t : FieldTypeId) (bits : ℕ) : ℕ :=
  match t with
  | .uint16 | .int16 =>
    if isSystemEndianness host endianness then bits else (swap16 (BitVec.ofNat 16 bits)).toNat
  | .uint32 | .int32 =>
    if isSystemEndianness host endianness then bits else (swap32 (BitVec.ofNat 32 bits)).toNat
  | .uint64 | .int64 =>
    if isSystemEndianness host endianness then bits else (swap64 (BitVec.ofNat 64 bits)).toNat
  | _ => bits

/-- The two halves of a word change places. -/
theorem getLsbD_halves {w k : ℕ} (hw : w = k + k) (x : BitVec w) {i : ℕ} (h : i < w) :
    (x <<< k ||| x >>> k).getLsbD i = x.getLsbD (if i < k then k + i else i - k) := by
  rw [BitVec.getLsbD_or, BitVec.getLsbD_shiftLeft, BitVec.getLsbD_ushiftRight]
  by_cases hi : i < k
  · simp [hi]
  · simp [hi, h, BitVec.getLsbD_of_ge x (k + i) (by omega)]

/-- Whether a bit belongs to the upper one of two neighbours of `k` bits. -/
def isUpper (k j : ℕ) : Bool := j / k % 2 = 1

theorem isUpper_add {k : ℕ} (hk : 0 < k) (j : ℕ) : isUpper k (k + j) = !isUpper k j := by
  rw [isUpper, isUpper, Nat.add_div_left j hk, ← decide_not, decide_eq_decide]
  omega

theorem le_of_isUpper {k j : ℕ} (h : isUpper k j = true) : k ≤ j := by
  by_contra hlt
  rw [isUpper, Nat.div_eq_of_lt (Nat.not_le.mp hlt)] at h
  cases h

section Neighbours

variable {w k : ℕ} {lo hi : BitVec w} (hlo : ∀ j < w, lo.getLsbD j = !isUpper k j)
  (hhi : ∀ j < w, hi.getLsbD j = isUpper k j) (x : BitVec w) {i : ℕ} (h : i < w)

include hlo hhi h

/-- Neighbours of `k` bits change places, with masks on what has been shifted. -/
theorem getLsbD_neighbours :
    ((x <<< k) &&& hi ||| (x >>> k) &&& lo).getLsbD i =
      x.getLsbD (if isUpper k i then i - k else k + i) := by
  rw [BitVec.getLsbD_or, BitVec.getLsbD_and, BitVec.getLsbD_and, BitVec.getLsbD_shiftLeft,
    BitVec.getLsbD_ushiftRight, hlo i h, hhi i h]
  cases hupper : isUpper k i with
  | true => simp [h, le_of_isUpper hupper]
  | false => simp

/-- Neighbours of `k` bits change places, with masks on what is shifted. -/
theorem getLsbD_masked_neighbours (hk : 0 < k) :
    ((x &&& lo) <<< k ||| (x &&& hi) >>> k).getLsbD i =
      x.getLsbD (if isUpper k i then i - k else k + i) := by
  -- a bit that is shifted comes from the other neighbour
  have hleft : (!decide (i < k) && (x.getLsbD (i - k) && lo.getLsbD (i - k))) =
      (!decide (i < k) && (x.getLsbD (i - k) && isUpper k i)) := by
    by_cases hlt : i < k
    · simp [hlt]
    · have hadd := isUpper_add hk (i - k)
      rw [Nat.add_sub_cancel' (Nat.not_lt.mp hlt)] at hadd
      rw [hlo (i - k) (by omega), hadd]
  have hright : (x.getLsbD (k + i) && hi.getLsbD (k + i)) =
      (x.getLsbD (k + i) && !isUpper k i) := by
    by_cases hlt : k + i < w
    · rw [hhi _ hlt, isUpper_add hk]
    · rw [BitVec.getLsbD_of_ge x _ (Nat.not_lt.mp hlt), Bool.false_and, Bool.false_and]
  rw [BitVec.getLsbD_or, BitVec.getLsbD_shiftLeft, BitVec.getLsbD_ushiftRight, BitVec.getLsbD_and,
    BitVec.getLsbD_and, Bool.and_assoc, hleft, hright]
  cases hupper : isUpper k i with
  | true => simp [h, le_of_isUpper hupper]
  | false => simp

end Neighbours

theorem getLsbD_swap16 (x : BitVec 16) {i : ℕ} (h : i < 16) :
    (swap16 x).getLsbD i = x.getLsbD (8 * (1 - i / 8) + i % 8) := by
  rw [swap16, getLsbD_halves (k := 8) rfl x h]
  congr 1
  split <;> omega

theorem getLsbD_swap32 (x : BitVec 32) {i : ℕ} (h : i < 32) :
    (swap32 x).getLsbD i = x.getLsbD (8 * (3 - i / 8) + i % 8) := by
  have hlo : ∀ j < 32, (0x00ff00ff#32).getLsbD j = !isUpper 8 j := by decide
  have hhi : ∀ j < 32, (0xff00ff00#32).getLsbD j = isUpper 8 j := by decide
  have hlt : (if isUpper 8 i then i - 8 else 8 + i) < 32 := by
    simp only [isUpper, decide_eq_true_eq]
    split <;> omega
  rw [swap32, getLsbD_neighbours hlo hhi _ h, getLsbD_halves (k := 16) rfl x hlt]
  congr 1
  simp only [isUpper, decide_eq_true_eq]
  split_ifs <;> omega

theorem getLsbD_swap64 (x : BitVec 64) {i : ℕ} (h : i < 64) :
    (swap64 x).getLsbD i = x.getLsbD (8 * (7 - i / 8) + i % 8) := by
  have hlo16 : ∀ j < 64, (0x0000FFFF0000FFFF#64).getLsbD j = !isUpper 16 j := by decide
  have hhi16 : ∀ j < 64, (0xFFFF0000FFFF0000#64).getLsbD j = isUpper 16 j := by decide
  have hlo8 : ∀ j < 64, (0x00FF00FF00FF00FF#64).getLsbD j = !isUpper 8 j := by decide
  have hhi8 : ∀ j < 64, (0xFF00FF00FF00FF00#64).getLsbD j = isUpper 8 j := by decide
  have h8 : (if isUpper 8 i then i - 8 else 8 + i) < 64 := by
    simp only [isUpper, decide_eq_true_eq]
    split <;> omega
  have h16 : ∀ j < 64, (if isUpper 16 j then j - 16 else 16 + j) < 64 := by
    intro j hj
    simp only [isUpper, decide_eq_true_eq]
    split <;> omega
  rw [swap64, getLsbD_masked_neighbours hlo8 hhi8 _ h (by decide),
    getLsbD_masked_neighbours hlo16 hhi16 _ h8 (by decide),
    getLsbD_halves (k := 32) rfl x (h16 _ h8)]
  congr 1
  simp only [isUpper, decide_eq_true_eq]
  split_ifs <;> omega

variable {bs : List UInt8}

/-- **A word whose bits are permuted byte by byte is the word of the reversed list.** -/
theorem ofNat_leNat_reverse {n : ℕ} (hlen : bs.length = n + 1) {y : BitVec (8 * (n + 1))}
    (hy : ∀ i, i < 8 * (n + 1) →
      y.getLsbD i = (BitVec.ofNat (8 * (n + 1)) (leNat bs)).getLsbD (8 * (n - i / 8) + i % 8)) :
    y.toNat = leNat bs.reverse := by
  have hlt : leNat bs.reverse < 2 ^ (8 * (n + 1)) := by
    have h := leNat_lt bs.reverse
    rwa [List.length_reverse, hlen, show (256 : ℕ) = 2 ^ 8 by norm_num, ← pow_mul] at h
  have hy' : y = BitVec.ofNat _ (leNat bs.reverse) := by
    refine BitVec.eq_of_getLsbD_eq fun i hi => ?_
    have hdiv : (8 * (n - i / 8) + i % 8) / 8 = n - i / 8 := by omega
    have hmod : (8 * (n - i / 8) + i % 8) % 8 = i % 8 := by omega
    have hrev : bs.reverse.getD (i / 8) 0 = bs.getD (n - i / 8) 0 := by
      rw [List.getD_eq_getElem?_getD, List.getD_eq_getElem?_getD,
        List.getElem?_reverse (by omega), hlen]
      congr 2
    rw [hy i hi, BitVec.getLsbD_ofNat, BitVec.getLsbD_ofNat, testBit_leNat, testBit_leNat, hdiv,
      hmod, hrev]
    have h1 : 8 * (n - i / 8) + i % 8 < 8 * (n + 1) := by omega
    simp [h1, hi]
  rw [hy', BitVec.toNat_ofNat, Nat.mod_eq_of_lt hlt]

theorem swap16_leNat (h : bs.length = 2) :
    (swap16 (BitVec.ofNat 16 (leNat bs))).toNat = leNat bs.reverse :=
  ofNat_leNat_reverse (n := 1) h fun _ hi => getLsbD_swap16 _ hi

theorem swap32_leNat (h : bs.length = 4) :
    (swap32 (BitVec.ofNat 32 (leNat bs))).toNat = leNat bs.reverse :=
  ofNat_leNat_reverse (n := 3) h fun _ hi => getLsbD_swap32 _ hi

theorem swap64_leNat (h : bs.length = 8) :
    (swap64 (BitVec.ofNat 64 (leNat bs))).toNat = leNat bs.reverse :=
  ofNat_leNat_reverse (n := 7) h fun _ hi => getLsbD_swap64 _ hi

/-- The byte order in which a host takes a stream of the given endianness: whatever is not
its own is the other one. -/
def streamOrder (endianness : UInt8) : ByteOrder :=
  if isSystemEndianness host endianness then host
  else
    match host with
    | .little => .big
    | .big => .little

theorem streamOrder_code (o : ByteOrder) : streamOrder host (Lib.endiannessCode o) = o := by
  cases host <;> cases o <;> rfl

theorem isSystemEndianness_eq (c : UInt8) :
    isSystemEndianness host c = decide (host = streamOrder host c) := by
  unfold streamOrder
  cases host <;> split <;> simp_all

/-- **A number is read in the byte order of the stream**, whatever the byte order of the
host. -/
theorem convert_ofBytes (c : UInt8) {t : FieldTypeId} (ht : t.isNumeric = true)
    (hlen : bs.length = t.sizeof) :
    convert host c t (ofBytes host bs) = ofBytes (streamOrder host c) bs := by
  have hsystem := isSystemEndianness_eq host c
  generalize streamOrder host c = o at hsystem ⊢
  -- one byte: both orders agree
  have h8 : bs.length = 1 → ofBytes host bs = ofBytes o bs := by
    intro h1
    obtain ⟨b, rfl⟩ := List.length_eq_one_iff.mp h1
    cases host <;> cases o <;> rfl
  -- more bytes: either the orders agree, or the swap reverses the list
  have hswap : ∀ (f : ℕ → ℕ), (∀ bs' : List UInt8, bs'.length = bs.length →
      f (leNat bs') = leNat bs'.reverse) →
      (if isSystemEndianness host c then ofBytes host bs else f (ofBytes host bs)) =
        ofBytes o bs := by
    intro f hf
    rw [hsystem]
    by_cases hord : host = o
    · rw [if_pos (by simpa using hord), hord]
    · rw [if_neg (by simpa using hord), ← ofBytes_reverse hord]
      cases host with
      | little => exact hf bs rfl
      | big => exact hf bs.reverse (List.length_reverse)
  cases t with
  | uint8 => exact h8 hlen
  | int8 => exact h8 hlen
  | uint16 | int16 =>
    exact hswap (fun n => (swap16 (BitVec.ofNat 16 n)).toNat) fun _ h => swap16_leNat (h.trans hlen)
  | uint32 | int32 =>
    exact hswap (fun n => (swap32 (BitVec.ofNat 32 n)).toNat) fun _ h => swap32_leNat (h.trans hlen)
  | uint64 | int64 =>
    exact hswap (fun n => (swap64 (BitVec.ofNat 64 n)).toNat) fun _ h => swap64_leNat (h.trans hlen)
  | pointer | string | struct => exact absurd ht (by decide)

/-! ### The primitives -/

section Primitives

variable {σ : Type} [Stream σ]

/-- `_read_numeric`. A pointer is read and then refused. -/
def readNumeric (endianness : UInt8) (t : FieldTypeId) (s : σ) : Result ℕ σ :=
  match Stream.readData s t.sizeof with
  | (none, s) => .stop .error s
  | (some bs, s) =>
    if t.isNumeric then .ok (convert host endianness t (ofBytes host bs)) s else .stop .error s

/-- The loop of `_read_string`: `length` bytes are allocated for `data` and `pos` of
them are used. A block that gets full is reallocated at twice its length. -/
def readStringLoop : ℕ → σ → ℕ → ℕ → List UInt8 → Result Name σ
  | 0, s, _, _, _ => .stop .depth s
  | fuel + 1, s, length, pos, data =>
    match Stream.readByte s with
    | (c, s) =>
      if c > 0 then
        let data := blit data pos [UInt8.ofNat c.toNat]
        if pos + 1 = length then
          readStringLoop fuel s (length * 2) (pos + 1) (data ++ List.replicate length 0)
        else readStringLoop fuel s length (pos + 1) data
      else if c < 0 then .stop .error s
      else .ok ((blit data pos [0]).takeWhile (· ≠ 0)) s

/-- `_read_string`: the characters up to the terminator it writes. -/
def readString (s : σ) : Result Name σ :=
  readStringLoop (Stream.avail s + 1) s 32 0 (List.replicate 32 0)

end Primitives

/-- What the primitives of the reader do to a stream. -/
structure Input (σ : Type) where
  num : FieldTypeId → σ → Result ℕ σ
  str : σ → Result Name σ

/-- The primitives on a stream, under the endianness the reader has been told. -/
def streamInput {σ : Type} [Stream σ] (endianness : UInt8) : Input σ where
  num := readNumeric host endianness
  str := readString

/-! ### The primitives on a file -/

/-- **`_read_numeric` on a file.** -/
theorem readNumeric_file (c : UInt8) {t : FieldTypeId} (ht : t.isNumeric = true) (s : FileStream) :
    readNumeric host c t s =
      if t.sizeof ≤ s.length then
        .ok (ofBytes (streamOrder host c) (s.take t.sizeof)) (s.drop t.sizeof)
      else .stop .error [] := by
  have hread : Stream.readData s t.sizeof =
      if t.sizeof ≤ s.length then (some (s.take t.sizeof), s.drop t.sizeof) else (none, []) := rfl
  rw [readNumeric, hread]
  by_cases hlen : t.sizeof ≤ s.length
  · have htake : (s.take t.sizeof).length = t.sizeof := by simp [hlen]
    simp only [if_pos hlen, ht, if_true, convert_ofBytes host c ht htake]
  · simp only [if_neg hlen]

/-- **Reading a number from a file**: it is there if and only if the file goes on with
its bytes. -/
theorem readNumeric_eq_ok_iff (c : UInt8) {t : FieldTypeId} (ht : t.isNumeric = true)
    {s s' : FileStream} {n : ℕ} :
    readNumeric host c t s = .ok n s' ↔
      n < 256 ^ t.sizeof ∧ s = toBytes (streamOrder host c) t.sizeof n ++ s' := by
  rw [readNumeric_file host c ht]
  generalize streamOrder host c = o
  constructor
  · intro h
    by_cases hlen : t.sizeof ≤ s.length
    · have htake : (s.take t.sizeof).length = t.sizeof := by simp [hlen]
      rw [if_pos hlen] at h
      simp only [Result.ok.injEq] at h
      obtain ⟨rfl, rfl⟩ := h
      refine ⟨by simpa [htake] using ofBytes_lt o (s.take t.sizeof), ?_⟩
      have hb := toBytes_ofBytes o (s.take t.sizeof)
      rw [htake] at hb
      rw [hb, List.take_append_drop]
    · rw [if_neg hlen] at h
      cases h
  · rintro ⟨hn, rfl⟩
    have hlen : t.sizeof ≤ (toBytes o t.sizeof n ++ s').length := by simp
    rw [if_pos hlen, List.take_left' (length_toBytes o t.sizeof n),
      List.drop_left' (length_toBytes o t.sizeof n), ofBytes_toBytes o hn]

theorem takeWhile_terminated {data acc : List UInt8} {pos : ℕ} (hacc : data.take pos = acc)
    (hz : (0 : UInt8) ∉ acc) : (blit data pos [0]).takeWhile (· ≠ 0) = acc := by
  have hne : ∀ b ∈ acc, (decide (b ≠ 0)) = true := fun b hb => decide_eq_true fun h0 => hz (h0 ▸ hb)
  rw [blit, hacc, List.append_assoc, List.takeWhile_append_of_pos hne, List.singleton_append,
    List.takeWhile_cons_of_neg (by simp), List.append_nil]

section Bytes

variable {σ : Type} [Stream σ]

/-- The stream after so many calls of `read_byte`. -/
def afterBytes (s : σ) : ℕ → σ
  | 0 => s
  | n + 1 => afterBytes (Stream.readByte s).2 n

/-- What the calls of `read_byte` return, one after the other. -/
def bytesRead (s : σ) (n : ℕ) : ℤ := (Stream.readByte (afterBytes s n)).1

/-- **The loop of `_read_string`**: with `acc` in the block it goes on to the next number that
is not positive, and then it has a string or has met the end. -/
theorem readStringLoop_of_bytes {s : σ} {acc w : List UInt8} {fuel length : ℕ}
    {data : List UInt8} (hw : ∀ i (h : i < w.length), bytesRead s i = (w[i].toNat : ℤ))
    (hwz : (0 : UInt8) ∉ w) (hend : bytesRead s w.length ≤ 0) (hfuel : w.length < fuel)
    (hdata : data.length = length) (hpos : acc.length < length)
    (hacc : data.take acc.length = acc) (hz : (0 : UInt8) ∉ acc) :
    readStringLoop fuel s length acc.length data =
      if bytesRead s w.length = 0 then .ok (acc ++ w) (afterBytes s (w.length + 1))
      else .stop .error (afterBytes s (w.length + 1)) := by
  induction w generalizing s acc fuel length data with
  | nil =>
    obtain ⟨fuel, rfl⟩ : ∃ f, fuel = f + 1 := Nat.exists_eq_add_one.mpr hfuel
    have hread : Stream.readByte s = (bytesRead s 0, afterBytes s 1) := rfl
    rw [readStringLoop, hread]
    have hend : bytesRead s 0 ≤ 0 := hend
    simp only [List.length_nil, Nat.zero_add, List.append_nil]
    rw [if_neg (by omega)]
    split
    · next hneg => rw [if_neg hneg.ne]
    · next hneg => rw [if_pos (by omega), takeWhile_terminated hacc hz]
  | cons b w ih =>
    obtain ⟨fuel, rfl⟩ : ∃ f, fuel = f + 1 := Nat.exists_eq_add_one.mpr (Nat.zero_lt_of_lt hfuel)
    obtain ⟨hb, hwz⟩ := not_or.mp fun h => hwz (List.mem_cons.mpr h)
    have hread : Stream.readByte s = ((b.toNat : ℤ), (Stream.readByte s).2) :=
      Prod.ext (hw 0 (Nat.zero_lt_succ _)) rfl
    have hb' : 0 < b.toNat := Nat.pos_of_ne_zero fun h0 => hb (UInt8.toNat_inj.mp h0).symm
    have hbyte : UInt8.ofNat ((b.toNat : ℤ)).toNat = b := by
      rw [Int.toNat_natCast, UInt8.ofNat_toNat]
    have hlen : (acc ++ [b]).length = acc.length + 1 := by simp
    -- the block then begins with `acc` and the byte just read
    have htake : (blit data acc.length [b]).take (acc ++ [b]).length = acc ++ [b] := by
      rw [hlen]
      have h : (blit data acc.length [b]).take (acc.length + [b].length) =
          data.take acc.length ++ [b] := take_blit (by omega)
      rwa [hacc] at h
    have hlenb : (blit data acc.length [b]).length = length := by
      rw [length_blit (by simp; omega), hdata]
    have hz' : (0 : UInt8) ∉ acc ++ [b] := by simp [hz, hb]
    have hw' : ∀ i (h : i < w.length),
        bytesRead (Stream.readByte s).2 i = (w[i].toNat : ℤ) := fun i h =>
      hw (i + 1) (Nat.succ_lt_succ h)
    have hfuel' : w.length < fuel := Nat.lt_of_succ_lt_succ hfuel
    have hrec : acc ++ b :: w = acc ++ [b] ++ w := by rw [List.append_assoc, List.singleton_append]
    rw [readStringLoop, hread]
    simp only [hbyte]
    rw [if_pos (by exact_mod_cast hb'), hrec, ← hlen]
    split
    · next hfull =>
      -- the block is full and is made larger, which keeps what it begins with
      refine ih hw' hwz hend hfuel' (by simp [hlenb]; omega) (by omega) ?_ hz'
      rw [List.take_append_of_le_length (by omega), htake]
    · next hfull => exact ih hw' hwz hend hfuel' hlenb (by omega) htake hz'

end Bytes

theorem afterBytes_file (s : FileStream) (n : ℕ) : afterBytes s n = s.drop n := by
  induction n generalizing s with
  | zero => rfl
  | succ n ih =>
    rcases s with _ | ⟨b, s⟩
    · exact (ih []).trans List.drop_nil
    · exact ih s

/-- A file is read byte by byte. -/
theorem bytesRead_append (v s : FileStream) :
    (∀ i (h : i < v.length), bytesRead (v ++ s) i = (v[i].toNat : ℤ)) ∧
      bytesRead (v ++ s) v.length = (Stream.readByte s).1 := by
  constructor
  · intro i hi
    rw [bytesRead, afterBytes_file, List.drop_append_of_le_length hi.le,
      List.drop_eq_getElem_cons hi]
    rfl
  · rw [bytesRead, afterBytes_file, List.drop_left]

theorem readString_append {v rest : FileStream} (hv : (0 : UInt8) ∉ v)
    (hend : (Stream.readByte rest).1 ≤ 0) :
    readString (v ++ rest) =
      if (Stream.readByte rest).1 = 0 then .ok v rest.tail else .stop .error rest.tail := by
  obtain ⟨hbytes, hnext⟩ := bytesRead_append v rest
  have hafter : afterBytes (v ++ rest) (v.length + 1) = rest.tail := by
    rw [afterBytes_file, ← List.drop_drop, List.drop_left, List.drop_one]
  have h := @readStringLoop_of_bytes _ _ (v ++ rest) [] v ((v ++ rest).length + 1) 32
    (List.replicate 32 0) hbytes hv (hnext ▸ hend) (by rw [List.length_append]; omega)
    List.length_replicate (by decide) rfl List.not_mem_nil
  rw [hnext, hafter] at h
  exact h

theorem readString_append_zero {v : FileStream} (hv : (0 : UInt8) ∉ v) (rest : FileStream) :
    readString (v ++ 0 :: rest) = .ok v rest :=
  @readString_append v (0 :: rest) hv (Int.le_refl 0)

/-- `_read_string` on a file. -/
theorem readString_file (s : FileStream) :
    readString s = if 0 ∈ s then .ok (s.takeWhile (· ≠ 0)) (s.dropWhile (· ≠ 0)).tail
      else .stop .error [] := by
  split
  · next hz =>
    obtain ⟨v, rest, rfl, hv⟩ := List.eq_append_cons_of_mem hz
    have hne : ∀ b ∈ v, (decide (b ≠ 0)) = true := fun b hb => decide_eq_true fun h0 => hv (h0 ▸ hb)
    rw [readString_append_zero hv, List.takeWhile_append_of_pos hne,
      List.dropWhile_append_of_pos hne]
    simp
  · next hz =>
    have h := @readString_append s [] hz (by decide)
    rwa [List.append_nil] at h

/-- **Reading a string from a file**: it is there if and only if the file goes on with
its characters and a terminator. -/
theorem readString_eq_ok_iff {s s' : FileStream} {v : Name} :
    readString s = .ok v s' ↔ (0 : UInt8) ∉ v ∧ s = v ++ 0 :: s' := by
  constructor
  · intro h
    by_cases hz : (0 : UInt8) ∈ s
    · obtain ⟨w, rest, rfl, hw⟩ := List.eq_append_cons_of_mem hz
      rw [readString_append_zero hw] at h
      cases h
      exact ⟨hw, rfl⟩
    · rw [readString_file, if_neg hz] at h
      cases h
  · rintro ⟨hv, rfl⟩
    exact readString_append_zero hv s'

end HawkTracer.Parser
