import Mathlib.Data.List.Basic
import Mathlib.Data.Nat.Bitwise
import Mathlib.Tactic.Ring

/-!
# Numbers and blocks of bytes

## Fixed-width numbers

A number of `n` bytes is laid out in memory in one of two orders. Everything here
is stated through the little-endian layout: `HawkTracer.leBytes` writes a number
least significant byte first, `HawkTracer.leNat` reads it back, and the big-endian
layout is the same list reversed. `HawkTracer.toBytes` and `HawkTracer.ofBytes`
take the order as an argument.

The two directions of the correspondence are
`HawkTracer.ofBytes_toBytes` – a number that fits survives being written – and
`HawkTracer.toBytes_ofBytes` – every list of bytes is the layout of the number it
denotes. The second is what lets a consumed segment of a stream be rebuilt from
the value read out of it.

`HawkTracer.testBit_leNat` locates a bit of the number in its byte; it is the form
in which a word-level byte swap is compared with the reversal of a list.

## Blocks

A memory block is the list of its bytes, and `HawkTracer.blit` is the copy of a
list of bytes into a block at an offset. It does not check that there is room: a
copy that runs past the end leaves a list longer than the block was, so that
`HawkTracer.length_blit` – the length is kept – is the statement that a copy stays
inside. `HawkTracer.slice` is the part of a block from an offset on.
-/

namespace HawkTracer

/-- The order in which the bytes of a number stand in memory. -/
inductive ByteOrder where
  /-- Least significant byte first. -/
  | little
  /-- Most significant byte first. -/
  | big
  deriving DecidableEq, Repr

/-! ### The little-endian layout -/

/-- The `n` low bytes of `x`, least significant first. -/
def leBytes : ℕ → ℕ → List UInt8
  | 0, _ => []
  | n + 1, x => UInt8.ofNat x :: leBytes n (x / 256)

/-- The number whose bytes, least significant first, are given. -/
def leNat : List UInt8 → ℕ
  | [] => 0
  | b :: bs => b.toNat + 256 * leNat bs

@[simp] theorem leBytes_zero (x : ℕ) : leBytes 0 x = [] := rfl

@[simp] theorem leBytes_succ (n x : ℕ) :
    leBytes (n + 1) x = UInt8.ofNat x :: leBytes n (x / 256) := rfl

@[simp] theorem leNat_nil : leNat [] = 0 := rfl

@[simp] theorem leNat_cons (b : UInt8) (bs : List UInt8) :
    leNat (b :: bs) = b.toNat + 256 * leNat bs := rfl

@[simp] theorem length_leBytes (n x : ℕ) : (leBytes n x).length = n := by
  induction n generalizing x with
  | zero => rfl
  | succ n ih => simp [ih]

theorem leNat_lt (bs : List UInt8) : leNat bs < 256 ^ bs.length := by
  induction bs with
  | nil => simp
  | cons b bs ih =>
    have hb : b.toNat < 256 := b.toNat_lt
    have hpow : 256 ^ (b :: bs).length = 256 * 256 ^ bs.length := by
      rw [List.length_cons, pow_succ]; ring
    rw [leNat_cons, hpow]
    omega

theorem leNat_leBytes {n x : ℕ} (h : x < 256 ^ n) : leNat (leBytes n x) = x := by
  induction n generalizing x with
  | zero =>
    have hx : x = 0 := by simpa using h
    rw [hx, leBytes_zero, leNat_nil]
  | succ n ih =>
    have hdiv : x / 256 < 256 ^ n := by
      refine Nat.div_lt_of_lt_mul ?_
      rw [pow_succ] at h
      omega
    have hbyte : (UInt8.ofNat x).toNat = x % 256 := by simp
    rw [leBytes_succ, leNat_cons, ih hdiv, hbyte]
    omega

theorem leBytes_leNat (bs : List UInt8) : leBytes bs.length (leNat bs) = bs := by
  induction bs with
  | nil => rfl
  | cons b bs ih =>
    have hb : b.toNat < 256 := b.toNat_lt
    have hlow : UInt8.ofNat (b.toNat + 256 * leNat bs) = b := by
      refine UInt8.toNat_inj.mp ?_
      simp
    have hdiv : (b.toNat + 256 * leNat bs) / 256 = leNat bs := by omega
    rw [List.length_cons, leBytes_succ, leNat_cons, hdiv, ih, hlow]

/-- **A bit of a number stands in the byte its position names.** -/
theorem testBit_leNat (bs : List UInt8) (i : ℕ) :
    (leNat bs).testBit i = (bs.getD (i / 8) 0).toNat.testBit (i % 8) := by
  induction bs generalizing i with
  | nil => simp
  | cons b bs ih =>
    have hb : b.toNat < 2 ^ 8 := b.toNat_lt
    have hsum : leNat (b :: bs) = 2 ^ 8 * leNat bs + b.toNat := by
      rw [leNat_cons]; ring
    rw [hsum, Nat.testBit_two_pow_mul_add _ hb]
    by_cases hi : i < 8
    · have h0 : i / 8 = 0 := by omega
      have h1 : i % 8 = i := by omega
      rw [if_pos hi, h0, h1]
      rfl
    · obtain ⟨j, rfl⟩ : ∃ j, i = j + 8 := ⟨i - 8, by omega⟩
      have h0 : (j + 8) / 8 = j / 8 + 1 := by omega
      have h1 : (j + 8) % 8 = j % 8 := by omega
      rw [if_neg hi, Nat.add_sub_cancel, ih, h0, h1, List.getD_cons_succ]

/-! ### Both layouts -/

/-- The `n` bytes of `x` in the given order. -/
def toBytes : ByteOrder → ℕ → ℕ → List UInt8
  | .little, n, x => leBytes n x
  | .big, n, x => (leBytes n x).reverse

/-- The number whose bytes in the given order are given. -/
def ofBytes : ByteOrder → List UInt8 → ℕ
  | .little, bs => leNat bs
  | .big, bs => leNat bs.reverse

@[simp] theorem length_toBytes (o : ByteOrder) (n x : ℕ) : (toBytes o n x).length = n := by
  cases o <;> simp [toBytes]

theorem ofBytes_lt (o : ByteOrder) (bs : List UInt8) : ofBytes o bs < 256 ^ bs.length := by
  cases o with
  | little => exact leNat_lt bs
  | big => simpa [ofBytes] using leNat_lt bs.reverse

/-- **A number that fits survives being written.** -/
theorem ofBytes_toBytes (o : ByteOrder) {n x : ℕ} (h : x < 256 ^ n) :
    ofBytes o (toBytes o n x) = x := by
  cases o with
  | little => exact leNat_leBytes h
  | big => simpa [ofBytes, toBytes] using leNat_leBytes h

/-- **Every list of bytes is the layout of the number it denotes.** -/
theorem toBytes_ofBytes (o : ByteOrder) (bs : List UInt8) :
    toBytes o bs.length (ofBytes o bs) = bs := by
  cases o with
  | little => exact leBytes_leNat bs
  | big =>
    have h := leBytes_leNat bs.reverse
    rw [List.length_reverse] at h
    rw [toBytes, ofBytes, h, List.reverse_reverse]

/-- Reading in the other order is reading the reversed list. -/
theorem ofBytes_reverse {o o' : ByteOrder} (h : o ≠ o') (bs : List UInt8) :
    ofBytes o bs.reverse = ofBytes o' bs := by
  cases o <;> cases o' <;> simp [ofBytes] at h ⊢

/-- Zero has the same layout in both orders, so it can be read before the order is
known. -/
theorem toBytes_zero (o o' : ByteOrder) (n : ℕ) : toBytes o n 0 = toBytes o' n 0 := by
  have hle : leBytes n 0 = List.replicate n 0 := by
    induction n with
    | zero => rfl
    | succ n ih => simp [ih, List.replicate_succ]
  cases o <;> cases o' <;> simp [toBytes, hle]

/-! ### Blocks -/

/-- Copy `bs` over the bytes of `block` from `offset` on. -/
def blit (block : List UInt8) (offset : ℕ) (bs : List UInt8) : List UInt8 :=
  block.take offset ++ bs ++ block.drop (offset + bs.length)

@[simp] theorem blit_nil (block : List UInt8) (offset : ℕ) : blit block offset [] = block := by
  simp [blit]

theorem blit_zero (block bs : List UInt8) : blit block 0 bs = bs ++ block.drop bs.length := by
  simp [blit]

variable {block bs : List UInt8} {offset : ℕ}

/-- **A copy with room keeps the length of the block.** -/
theorem length_blit (h : offset + bs.length ≤ block.length) :
    (blit block offset bs).length = block.length := by
  simp only [blit, List.length_append, List.length_take, List.length_drop]
  omega

section

variable (h : offset ≤ block.length)

include h

theorem length_take_append (bs : List UInt8) :
    (block.take offset ++ bs).length = offset + bs.length := by
  rw [List.length_append, List.length_take, Nat.min_eq_left h]

/-- What a block holds up to the end of a copy. -/
theorem take_blit : (blit block offset bs).take (offset + bs.length) = block.take offset ++ bs := by
  rw [blit, ← length_take_append h bs, List.take_left]

/-- A copy leaves what comes after it alone. -/
theorem drop_blit_of_le {k : ℕ} (hk : offset + bs.length ≤ k) :
    (blit block offset bs).drop k = block.drop k := by
  have hlen := length_take_append h bs
  rw [blit, List.drop_append, hlen, List.drop_eq_nil_of_le (by omega), List.nil_append,
    List.drop_drop, Nat.add_sub_cancel' hk]

/-- Two copies, the second right after the first, are one copy of the
concatenation. -/
theorem blit_blit (bs bs' : List UInt8) :
    blit (blit block offset bs) (offset + bs.length) bs' = blit block offset (bs ++ bs') := by
  rw [blit, take_blit h, drop_blit_of_le h (Nat.le_add_right _ _), blit, List.length_append,
    Nat.add_assoc]
  simp only [List.append_assoc]

omit h in
/-- A copy into the middle part of a block. -/
theorem blit_append_append {pre obj post : List UInt8} {k : ℕ} (h : k + bs.length ≤ obj.length) :
    blit (pre ++ obj ++ post) (pre.length + k) bs = pre ++ blit obj k bs ++ post := by
  have htake : (pre ++ obj ++ post).take (pre.length + k) = pre ++ obj.take k := by
    rw [List.append_assoc, List.take_length_add_append, List.take_append_of_le_length (by omega)]
  have hdrop : (pre ++ obj ++ post).drop (pre.length + k + bs.length) =
      obj.drop (k + bs.length) ++ post := by
    rw [List.append_assoc, Nat.add_assoc, List.drop_length_add_append,
      List.drop_append_of_le_length h]
  rw [blit, htake, hdrop, blit]
  simp only [List.append_assoc]

/-- A copy leaves the bytes before and after it alone. -/
theorem getElem?_blit {i : ℕ} (hi : i < offset ∨ offset + bs.length ≤ i) :
    (blit block offset bs)[i]? = block[i]? := by
  rcases hi with hi | hi
  · have hlen : (block.take offset).length = offset := List.length_take_of_le h
    rw [blit, List.append_assoc, List.getElem?_append_left (hlen.symm ▸ hi),
      List.getElem?_take_of_lt hi]
  · have hlen := length_take_append h bs
    rw [blit, List.getElem?_append_right (hlen.symm ▸ hi), hlen, List.getElem?_drop,
      Nat.add_sub_cancel' hi]

/-- The part of a block from an offset on. -/
def slice (block : List UInt8) (offset n : ℕ) : List UInt8 := (block.drop offset).take n

theorem slice_blit_self {n : ℕ} (hn : bs.length = n) :
    slice (blit block offset bs) offset n = bs := by
  rw [slice, ← hn, List.take_drop, take_blit h, List.drop_left' (by rw [List.length_take]; omega)]

/-- A copy leaves what comes before it alone. -/
theorem slice_blit_of_le {k n : ℕ} (hk : k + n ≤ offset) :
    slice (blit block offset bs) k n = slice block k n := by
  have hlen : k + n ≤ (block.take offset).length := by rw [List.length_take]; omega
  rw [slice, List.take_drop, blit, List.append_assoc, List.take_append_of_le_length hlen,
    List.take_take, Nat.min_eq_left hk, slice, List.take_drop]

theorem slice_blit_of_ge {k n : ℕ} (hk : offset + bs.length ≤ k) :
    slice (blit block offset bs) k n = slice block k n := by
  rw [slice, drop_blit_of_le h hk, slice]

end

/-- A part of a part. -/
theorem slice_slice {n k m : ℕ} (h : k + m ≤ n) :
    slice (slice block offset n) k m = slice block (offset + k) m := by
  rw [slice, slice, List.drop_take, List.take_take, List.drop_drop, slice,
    Nat.min_eq_left (by omega)]

end HawkTracer
