import HawkTracer.Base.SizeT
import HawkTracer.Lib.Bag

/-!
# The bag as a list

`HT_DEFINE_BAG_TYPE` defines a bag for any type of elements. Its numbers are of type `size_t` and
wrap around, and a block of memory is as large as the number of bytes that was asked for, whatever
the capacity says: `ht_bag_init` asks for `sizeof(TYPE)` bytes for each element, but
`ht_bag_resize_` for the size of a pointer. An element outside the block is not found again.

To its callers a bag is a list: `add` appends, `remove_nth` puts the last element in the place of
the removed one, and `clear` leaves nothing. `HawkTracer.Lib.WordBag.isList_throughout_iff` says for
which runs it is one: those in which the elements always have room in the block. As long as the
numbers are in range the bag does, operation by operation, what `HawkTracer.Lib.Bag` does, for
elements of any size (`HawkTracer.Lib.WordBag.represents_run`).
-/

namespace HawkTracer.Lib

open SizeT

/-- `sizeof(TYPE)` and `sizeof(void*)`. -/
structure WordSizes where
  element : UInt64
  pointer : UInt64
  element_pos : 0 < element.toNat

/-- The sizes as natural numbers. -/
def WordSizes.toSizes (S : WordSizes) : Bag.Sizes := ⟨S.element.toNat, S.pointer.toNat⟩

/-- The bag, with the elements there is room for in its block; `none` stands for what no one has
written. -/
structure WordBag (α : Type) where
  minCapacity : UInt64
  capacity : UInt64
  size : UInt64
  /-- The number of bytes the allocator was last asked for with success. -/
  bytes : UInt64
  block : List (Option α)

namespace WordBag

variable {α : Type} (S : WordSizes)

/-- The number of elements there is room for in so many bytes. -/
def roomIn (bytes : UInt64) : ℕ := bytes.toNat / S.element.toNat

/-- `ht_bag_init`, if there is memory for it. -/
def init (minCapacity : UInt64) : WordBag α :=
  ⟨minCapacity, minCapacity, 0, minCapacity * S.element,
    List.replicate (roomIn S (minCapacity * S.element)) none⟩

/-- `ht_bag_resize_`; `ok` is the answer of the allocator. -/
def resize (b : WordBag α) (newCapacity : UInt64) (ok : Bool) : Bool × WordBag α :=
  if ok then
    (true, { b with
      capacity := newCapacity
      bytes := newCapacity * S.pointer
      block := b.block.take (roomIn S (newCapacity * S.pointer)) ++
        List.replicate (roomIn S (newCapacity * S.pointer) - b.block.length) none })
  else (false, b)

/-- `bag->data[bag->size++] = data`. -/
def put (b : WordBag α) (x : α) : WordBag α :=
  { b with block := b.block.set b.size.toNat (some x), size := b.size + 1 }

/-- `ht_bag_add`, with whether it succeeds. -/
def add (b : WordBag α) (x : α) (ok : Bool) : Bool × WordBag α :=
  if b.capacity = b.size then
    match b.resize S (b.capacity * 2) ok with
    | (false, b) => (false, b)
    | (true, b) => (true, b.put x)
  else (true, b.put x)

/-- The first half of `ht_bag_remove_nth`: the last element takes the place of the removed one. -/
def moveLast (b : WordBag α) (n : UInt64) : WordBag α :=
  let b := { b with size := b.size - 1 }
  if b.size > 0 then { b with block := b.block.set n.toNat (b.block.getD b.size.toNat none) } else b

/-- `ht_bag_remove_nth`. -/
def removeNth (b : WordBag α) (n : UInt64) (ok : Bool) : WordBag α :=
  let b := b.moveLast n
  if b.capacity > b.minCapacity ∧ b.size < b.capacity / 4 then (b.resize S (b.capacity / 2) ok).2
  else b

/-- `ht_bag_clear`. -/
def clear (b : WordBag α) (ok : Bool) : WordBag α :=
  { (b.resize S b.minCapacity ok).2 with size := 0 }

/-- `ht_bag_last`. -/
def last (b : WordBag α) : Option α := b.block.getD (b.size - 1).toNat none

/-- What is found in the slots of the elements; nothing in a slot outside the block. -/
def slots (b : WordBag α) : List (Option α) :=
  (List.range b.size.toNat).map fun i => b.block.getD i none

/-- A call of one of the functions, and the answer of the allocator if it is asked. -/
inductive Op (α : Type) where
  | add (x : α) (ok : Bool)
  | removeNth (n : UInt64) (ok : Bool)
  | clear (ok : Bool)

/-- A bag, and the list it stands for. -/
def step : WordBag α × List α → Op α → WordBag α × List α
  | (b, l), .add x ok => ((b.add S x ok).2, if (b.add S x ok).1 then l ++ [x] else l)
  | (b, l), .removeNth n ok => (b.removeNth S n ok, Bag.swapRemove l n.toNat)
  | (b, _), .clear ok => (b.clear S ok, [])

/-- An element is removed only if it is there. -/
def Valid (b : WordBag α) : Op α → Prop
  | .removeNth n _ => n < b.size
  | _ => True

instance (b : WordBag α) : ∀ o, Decidable (Valid b o)
  | .removeNth n _ => inferInstanceAs (Decidable (n < b.size))
  | .add _ _ | .clear _ => inferInstanceAs (Decidable True)

/-- **The bag is the list**, and its capacity is the smallest one, doubled some number of times. -/
structure IsList (s : WordBag α × List α) : Prop where
  size : s.1.size.toNat = s.2.length
  elements : s.1.block.take s.1.size.toNat = s.2.map some
  size_le : s.1.size ≤ s.1.capacity
  doubled : ∃ k, s.1.capacity.toNat = s.1.minCapacity.toNat * 2 ^ k

/-- **The elements have room in the block** in which an operation leaves them. -/
def KeepsElements (b : WordBag α) : Op α → Prop
  | .add _ ok =>
    if b.capacity = b.size then
      ok = true → b.capacity.toNat * 2 < 2 ^ 64 ∧
        b.size.toNat + 1 ≤ roomIn S (b.capacity * 2 * S.pointer)
    else b.size.toNat + 1 ≤ b.block.length
  | .removeNth _ ok =>
    ok = true → b.capacity > b.minCapacity ∧ b.size - 1 < b.capacity / 4 →
      b.size.toNat - 1 ≤ roomIn S (b.capacity / 2 * S.pointer)
  | .clear _ => True

variable {S} {b : WordBag α} {l : List α}

/-! ### The functions -/

theorem add_of_full (hfull : b.capacity = b.size) (x : α) :
    b.add S x true = (true, (b.resize S (b.capacity * 2) true).2.put x) := by
  rw [add, if_pos hfull]
  rfl

theorem add_of_refused (hfull : b.capacity = b.size) (x : α) : b.add S x false = (false, b) := by
  rw [add, if_pos hfull]
  rfl

theorem add_of_not_full (hfull : ¬ b.capacity = b.size) (x : α) (ok : Bool) :
    b.add S x ok = (true, b.put x) := by
  rw [add, if_neg hfull]

/-- **An addition that fails leaves the bag unchanged.** -/
theorem add_unchanged (b : WordBag α) (x : α) (ok : Bool) (h : (b.add S x ok).1 = false) :
    (b.add S x ok).2 = b := by
  by_cases hfull : b.capacity = b.size
  · cases ok with
    | false => rw [add_of_refused hfull]
    | true =>
      rw [add_of_full hfull] at h
      cases h
  · rw [add_of_not_full hfull] at h
    cases h

theorem length_resize (c : UInt64) :
    (b.resize S c true).2.block.length = roomIn S (c * S.pointer) := by
  change (b.block.take _ ++ List.replicate _ none).length = _
  rw [List.length_append, List.length_take, List.length_replicate]
  omega

/-- A reallocation keeps what has room before and after. -/
theorem take_resize {c : UInt64} {n : ℕ} (hold : n ≤ b.block.length)
    (hnew : n ≤ roomIn S (c * S.pointer)) :
    (b.resize S c true).2.block.take n = b.block.take n := by
  change (b.block.take _ ++ List.replicate _ none).take n = _
  rw [List.take_append_of_le_length (by rw [List.length_take]; omega), List.take_take,
    Nat.min_eq_left hnew]

/-- **The elements of the bag are those of the list.** -/
structure Holds (b : WordBag α) (l : List α) : Prop where
  size : b.size.toNat = l.length
  elements : b.block.take b.size.toNat = l.map some

theorem IsList.holds (h : IsList (b, l)) : Holds b l := ⟨h.size, h.elements⟩

/-- The elements of a list are in the block. -/
theorem Holds.le_length (h : Holds b l) : l.length ≤ b.block.length := by
  have hlen := congrArg List.length h.elements
  rw [List.length_take, List.length_map, h.size] at hlen
  omega

theorem getElem?_slots (b : WordBag α) (i : ℕ) :
    b.slots[i]? = if i < b.size.toNat then some (b.block.getD i none) else none := by
  rw [slots, List.getElem?_map]
  split
  · next hi => rw [List.getElem?_range hi, Option.map_some]
  · next hi => rw [List.getElem?_eq_none (by rw [List.length_range]; omega), Option.map_none]

theorem length_slots (b : WordBag α) : b.slots.length = b.size.toNat := by
  rw [slots, List.length_map, List.length_range]

theorem getLast?_slots (h : 0 < b.size.toNat) : b.slots.getLast? = some b.last := by
  rw [List.getLast?_eq_getElem?, length_slots, getElem?_slots, if_pos (by omega), last,
    toNat_sub_one h]

/-- The elements are found in the slots. -/
theorem slots_eq_iff : b.slots = l.map some ↔ Holds b l := by
  constructor
  · intro h
    have hsize : b.size.toNat = l.length := by
      rw [← length_slots, h, List.length_map]
    refine ⟨hsize, List.ext_getElem? fun i => ?_⟩
    rw [← h, getElem?_slots, List.getElem?_take]
    split
    · next hi =>
      -- what is found in the slot has been written, so it is in the block
      have hslot := congrArg (·[i]?) h
      simp only [getElem?_slots, if_pos hi, List.getElem?_map,
        List.getElem?_eq_getElem (hsize ▸ hi), Option.map_some] at hslot
      rw [hslot]
      rw [List.getD_eq_getElem?_getD] at hslot
      rcases hx : b.block[i]? with _ | x
      · rw [hx] at hslot
        cases Option.some.inj hslot
      · rw [hx] at hslot
        exact hslot
    · rfl
  · intro h
    refine List.ext_getElem? fun i => ?_
    rw [getElem?_slots, ← h.elements, List.getElem?_take]
    split
    · next hi =>
      have hlt : i < b.block.length := lt_of_lt_of_le (h.size ▸ hi) h.le_length
      rw [List.getD_eq_getElem?_getD, List.getElem?_eq_getElem hlt]
      rfl
    · rfl

/-- A reallocation keeps the elements that have room afterwards. -/
theorem Holds.resize (h : Holds b l) {c : UInt64} (hroom : l.length ≤ roomIn S (c * S.pointer)) :
    Holds (b.resize S c true).2 l :=
  ⟨h.size, (take_resize (h.size.trans_le h.le_length) (h.size.trans_le hroom)).trans h.elements⟩

/-! ### Adding an element -/

/-- An element that is found again has been put inside the block. -/
theorem Holds.of_put {x : α} (h : Holds (b.put x) (l ++ [x])) (hsize : b.size.toNat = l.length) :
    b.size.toNat + 1 ≤ b.block.length ∧ (b.size + 1).toNat = b.size.toNat + 1 := by
  have hnext : (b.size + 1).toNat = l.length + 1 := h.size.trans (List.length_append ..)
  have hroom := h.le_length
  change _ ≤ (b.block.set _ _).length at hroom
  rw [List.length_set, List.length_append, List.length_singleton] at hroom
  omega

/-- **An element is put behind the others.** -/
theorem Holds.put (h : Holds b l) (hroom : b.size.toNat + 1 ≤ b.block.length)
    (hnext : (b.size + 1).toNat = b.size.toNat + 1) (x : α) : Holds (b.put x) (l ++ [x]) := by
  refine ⟨?_, ?_⟩
  · change (b.size + 1).toNat = _
    rw [hnext, h.size, List.length_append, List.length_singleton]
  · change (b.block.set b.size.toNat (some x)).take (b.size + 1).toNat = _
    rw [hnext, List.take_add_one, List.take_set_of_le (Nat.le_refl _),
      List.getElem?_set_self (by omega), h.elements, List.map_append]
    rfl

/-- A size below a capacity can be increased. -/
theorem toNat_size_add_one (h : b.size.toNat + 1 ≤ b.capacity.toNat) :
    (b.size + 1).toNat = b.size.toNat + 1 := by
  have hlt := b.capacity.toNat_lt
  exact toNat_add_of_lt (show b.size.toNat + 1 < 2 ^ 64 by omega)

theorem IsList.of_put {x : α} (h : IsList (b.put x, l ++ [x])) (hsize : b.size.toNat = l.length) :
    b.size.toNat + 1 ≤ b.block.length ∧ b.size.toNat + 1 ≤ b.capacity.toNat := by
  obtain ⟨hroom, hnext⟩ := h.holds.of_put hsize
  have hle : (b.size + 1).toNat ≤ b.capacity.toNat := UInt64.le_iff_toNat_le.mp h.size_le
  exact ⟨hroom, hnext.symm.trans_le hle⟩

theorem isList_put {x : α} (h : Holds b l) (hroom : b.size.toNat + 1 ≤ b.block.length)
    (hle : b.size.toNat + 1 ≤ b.capacity.toNat)
    (hdoubled : ∃ k, b.capacity.toNat = b.minCapacity.toNat * 2 ^ k) :
    IsList (b.put x, l ++ [x]) := by
  have hnext := toNat_size_add_one hle
  have hput := h.put hroom hnext x
  exact ⟨hput.size, hput.elements, UInt64.le_iff_toNat_le.mpr (hnext.trans_le hle), hdoubled⟩

theorem isList_add_iff (h : IsList (b, l)) (hmin : 0 < b.minCapacity.toNat) (x : α) (ok : Bool) :
    IsList (step S (b, l) (.add x ok)) ↔ KeepsElements S b (.add x ok) := by
  have hsize : b.size.toNat = l.length := h.size
  have hle : b.size.toNat ≤ b.capacity.toNat := UInt64.le_iff_toNat_le.mp h.size_le
  rw [step, KeepsElements]
  by_cases hfull : b.capacity = b.size
  · rw [if_pos hfull]
    cases ok with
    | false =>
      rw [add_of_refused hfull]
      exact iff_of_true h nofun
    | true =>
      have hlt := b.capacity.toNat_lt
      have hcap : b.capacity.toNat = b.size.toNat := congrArg UInt64.toNat hfull
      have hpos : 0 < b.capacity.toNat := by
        obtain ⟨k, hk⟩ := h.doubled
        exact hk ▸ Nat.mul_pos hmin (Nat.two_pow_pos k)
      have hdouble : (b.capacity * 2).toNat = b.capacity.toNat * 2 % 2 ^ 64 := UInt64.toNat_mul ..
      rw [add_of_full hfull]
      constructor
      · rintro h' -
        obtain ⟨hroom, hcap'⟩ := h'.of_put hsize
        rw [length_resize] at hroom
        change b.size.toNat + 1 ≤ (b.capacity * 2).toNat at hcap'
        change b.size.toNat + 1 ≤ _ at hroom
        exact ⟨by omega, hroom⟩
      · intro hkeeps
        obtain ⟨hrange, hroom⟩ := hkeeps rfl
        have hdouble : (b.capacity * 2).toNat = b.capacity.toNat * 2 := by omega
        refine isList_put (h.holds.resize (c := b.capacity * 2) (by omega)) ?_ ?_ ?_
        · exact hroom.trans_eq (length_resize _).symm
        · exact (show b.size.toNat + 1 ≤ b.capacity.toNat * 2 by omega).trans_eq hdouble.symm
        · obtain ⟨k, hk⟩ := h.doubled
          refine ⟨k + 1, hdouble.trans ?_⟩
          rw [pow_succ, ← Nat.mul_assoc]
          exact congrArg (· * 2) hk
  · rw [if_neg hfull, add_of_not_full hfull]
    have hlt : b.size.toNat < b.capacity.toNat :=
      lt_of_le_of_ne hle fun heq => hfull (UInt64.toNat_inj.mp heq.symm)
    constructor
    · intro h'
      exact (h'.of_put hsize).1
    · intro hroom
      exact isList_put h.holds hroom hlt h.doubled

/-! ### Removing an element -/

theorem size_moveLast (b : WordBag α) (n : UInt64) : (b.moveLast n).size = b.size - 1 := by
  rw [moveLast]
  split <;> rfl

theorem capacity_moveLast (b : WordBag α) (n : UInt64) :
    (b.moveLast n).capacity = b.capacity ∧ (b.moveLast n).minCapacity = b.minCapacity := by
  rw [moveLast]
  split <;> exact ⟨rfl, rfl⟩

theorem length_moveLast (b : WordBag α) (n : UInt64) :
    (b.moveLast n).block.length = b.block.length := by
  rw [moveLast]
  split
  · exact List.length_set ..
  · rfl

variable {n : UInt64}

/-- The cells after the last element has taken the place of another one. -/
theorem Holds.take_moveLast (h : Holds b l) (hn : n.toNat < l.length)
    (hsub : (b.size - 1).toNat = l.length - 1) :
    (b.moveLast n).block.take (l.length - 1) = (Bag.swapRemove l n.toNat).map some := by
  have hsize : b.size.toNat = l.length := h.size
  have hlen := h.le_length
  have helements : b.block.take l.length = l.map some := hsize ▸ h.elements
  by_cases hpos : b.size - 1 > 0
  · -- what is copied is the last element of the list
    have hlast : (l.map some).getLast? = some (b.block.getD (l.length - 1) none) := by
      rw [← helements, List.getLast?_take, if_neg (by omega), List.getD_eq_getElem?_getD,
        List.getElem?_eq_getElem (show l.length - 1 < b.block.length by omega)]
      rfl
    have hmoved : (b.moveLast n).block =
        b.block.set n.toNat (b.block.getD (l.length - 1) none) := by
      rw [moveLast, if_pos hpos]
      exact congrArg (fun i => b.block.set n.toNat (b.block.getD i none)) hsub
    rw [← Bag.swapRemove_map, Bag.swapRemove_of_getLast? hlast, List.dropLast_eq_take,
      List.length_set, List.length_map, hmoved, List.take_set, List.take_set, ← helements,
      List.take_take, Nat.min_eq_left (Nat.sub_le _ _)]
  · -- a bag of one: the source copies nothing, and nothing is left
    have hzero : l.length - 1 = 0 := by
      have h0 := UInt64.le_iff_toNat_le.mp (UInt64.not_lt.mp hpos)
      rw [hsub] at h0
      exact Nat.le_zero.mp h0
    have hnil : Bag.swapRemove l n.toNat = [] :=
      List.length_eq_zero_iff.mp ((Bag.length_swapRemove hn).trans hzero)
    rw [hzero, hnil]
    rfl

/-- **The last element takes the place of the removed one.** -/
theorem Holds.moveLast (h : Holds b l) (hn : n < b.size) :
    Holds (b.moveLast n) (Bag.swapRemove l n.toNat) := by
  have hn' : n.toNat < l.length := h.size ▸ UInt64.lt_iff_toNat_lt.mp hn
  have hsub : (b.size - 1).toNat = l.length - 1 := by
    rw [toNat_sub_one (h.size ▸ Nat.zero_lt_of_lt hn'), h.size]
  refine ⟨?_, ?_⟩
  · rw [size_moveLast, hsub, Bag.length_swapRemove hn']
  · rw [size_moveLast, hsub, h.take_moveLast hn' hsub]

theorem size_moveLast_le (hn : n < b.size) (hle : b.size ≤ b.capacity) :
    (b.moveLast n).size ≤ (b.moveLast n).capacity := by
  have hsub := toNat_sub_one (Nat.zero_lt_of_lt (UInt64.lt_iff_toNat_lt.mp hn))
  have hle := UInt64.le_iff_toNat_le.mp hle
  rw [size_moveLast, (b.capacity_moveLast n).1, UInt64.le_iff_toNat_le, hsub]
  omega

theorem isList_moveLast (h : IsList (b, l)) (hn : n < b.size) :
    IsList (b.moveLast n, Bag.swapRemove l n.toNat) := by
  have hmoved := h.holds.moveLast hn
  refine ⟨hmoved.size, hmoved.elements, size_moveLast_le hn h.size_le, ?_⟩
  rw [(b.capacity_moveLast n).1, (b.capacity_moveLast n).2]
  exact h.doubled

/-- Half of a capacity that has been doubled. -/
theorem doubled_half {c m : ℕ} (h : ∃ k, c = m * 2 ^ k) (hlt : m < c) : ∃ k, c / 2 = m * 2 ^ k := by
  obtain ⟨_ | k, hk⟩ := h
  · omega
  · refine ⟨k, ?_⟩
    rw [hk, pow_succ, ← Nat.mul_assoc, Nat.mul_div_cancel _ Nat.two_pos]

theorem isList_removeNth_iff (h : IsList (b, l)) (hn : n < b.size) (ok : Bool) :
    IsList (step S (b, l) (.removeNth n ok)) ↔ KeepsElements S b (.removeNth n ok) := by
  have hmoved := isList_moveLast h hn
  obtain ⟨hcap, hmin⟩ := b.capacity_moveLast n
  have hsub := toNat_sub_one (Nat.zero_lt_of_lt (UInt64.lt_iff_toNat_lt.mp hn))
  rw [step, removeNth, KeepsElements]
  simp only [hcap, hmin, size_moveLast]
  by_cases hshrink : b.capacity > b.minCapacity ∧ b.size - 1 < b.capacity / 4
  · rw [if_pos hshrink]
    cases ok with
    | false => exact iff_of_true hmoved nofun
    | true =>
      obtain ⟨hgt, hlt⟩ := (shrinks_iff _ _ _).mp hshrink
      have hhalf : (b.capacity / 2).toNat = b.capacity.toNat / 2 := UInt64.toNat_div ..
      constructor
      · rintro h' - -
        have hroom := h'.holds.le_length
        rw [length_resize, ← hmoved.size, size_moveLast, hsub] at hroom
        exact hroom
      · intro hkeeps
        have hroom := hkeeps rfl hshrink
        have hsize : (Bag.swapRemove l n.toNat).length = b.size.toNat - 1 := by
          rw [← hmoved.size, size_moveLast, hsub]
        refine ⟨hmoved.size, (hmoved.holds.resize (hsize.trans_le hroom)).elements, ?_, ?_⟩
        · change (b.moveLast n).size ≤ b.capacity / 2
          rw [size_moveLast, UInt64.le_iff_toNat_le, hhalf]
          omega
        · change ∃ k, (b.capacity / 2).toNat = (b.moveLast n).minCapacity.toNat * 2 ^ k
          rw [hhalf, hmin]
          exact doubled_half h.doubled hgt
  · rw [if_neg hshrink]
    exact iff_of_true hmoved fun _ hs => absurd hs hshrink

theorem isList_clear (h : IsList (b, l)) (ok : Bool) : IsList (step S (b, l) (.clear ok)) := by
  cases ok with
  | false => exact ⟨rfl, rfl, UInt64.zero_le, h.doubled⟩
  | true => exact ⟨rfl, rfl, UInt64.zero_le, 0, (Nat.mul_one _).symm⟩

/-! ### Runs -/

theorem minCapacity_resize (b : WordBag α) (c : UInt64) (ok : Bool) :
    (b.resize S c ok).2.minCapacity = b.minCapacity := by
  cases ok <;> rfl

/-- No operation changes the smallest capacity. -/
theorem minCapacity_step (s : WordBag α × List α) (o : Op α) :
    (step S s o).1.minCapacity = s.1.minCapacity := by
  rcases o with ⟨x, ok⟩ | ⟨n, ok⟩ | ok
  · change (s.1.add S x ok).2.minCapacity = _
    by_cases hfull : s.1.capacity = s.1.size
    · cases ok with
      | false => rw [add_of_refused hfull]
      | true =>
        rw [add_of_full hfull]
        exact minCapacity_resize ..
    · rw [add_of_not_full hfull]
      rfl
  · change (s.1.removeNth S n ok).minCapacity = _
    rw [removeNth]
    split
    · rw [minCapacity_resize, (s.1.capacity_moveLast n).2]
    · exact (s.1.capacity_moveLast n).2
  · exact minCapacity_resize ..

theorem isList_init (m : UInt64) : IsList ((init S m : WordBag α), []) :=
  ⟨rfl, rfl, UInt64.zero_le, 0, (Nat.mul_one _).symm⟩

/-- **A step leaves a list exactly if the elements have room.** -/
theorem isList_step_iff {s : WordBag α × List α} {o : Op α} (h : IsList s)
    (hmin : 0 < s.1.minCapacity.toNat) (ho : Valid s.1 o) :
    IsList (step S s o) ↔ KeepsElements S s.1 o := by
  rcases o with ⟨x, ok⟩ | ⟨n, ok⟩ | ok
  · exact isList_add_iff h hmin x ok
  · exact isList_removeNth_iff h ho ok
  · exact iff_of_true (isList_clear h ok) trivial

/-- **The bag is a list with swap-removal** in every state of a run exactly if its elements
always have room in the block; and an addition that fails leaves it unchanged in any case. -/
theorem isList_throughout_iff {m : UInt64} (hm : 1 ≤ m) {ops : List (Op α)}
    (hops : StepsMeet (step S) (fun s => Valid s.1) (init S m, []) ops) :
    (∀ (b : WordBag α) (x : α) (ok : Bool), (b.add S x ok).1 = false → (b.add S x ok).2 = b) ∧
    (Throughout (step S) IsList (init S m, []) ops ↔
      StepsMeet (step S) (fun s => KeepsElements S s.1) (init S m, []) ops) := by
  refine ⟨add_unchanged, ?_⟩
  refine throughout_iff_of_step (J := fun s => 0 < s.1.minCapacity.toNat) ?_ ?_
    (UInt64.le_iff_toNat_le.mp hm) (isList_init m) hops
  · intro s o hs _
    rwa [minCapacity_step]
  · intro s o hs ho h
    exact isList_step_iff h hs ho

/-- Pointers of eight bytes, and the entries of a container of listeners. -/
def listenerSizes : WordSizes := ⟨24, 8, by decide⟩

/-- **Elements are lost**: the bag of a container of listeners has room for sixteen entries, and
when there is a seventeenth the block is reallocated at 256 bytes, where ten have room. -/
theorem seventeenth_entry_lost :
    let s := runFrom (step listenerSizes) (init listenerSizes 16, [])
      ((List.range 17).map fun x => .add x true)
    s.1.size = 17 ∧ s.1.capacity = 32 ∧ s.2 = List.range 17 ∧
      s.1.block = (List.range 10).map some ∧
      ¬ Throughout (step listenerSizes) IsList (init listenerSizes 16, [])
        ((List.range 17).map fun x => .add x true) := by
  refine ⟨by decide, by decide, by decide, by decide, fun h => ?_⟩
  have hlast := h.last.holds.le_length
  revert hlast
  decide

/-- Two integers of four bytes are added, and one of them is removed. -/
theorem isList_throughout_iff_of_ints :
    (∀ (b : WordBag ℕ) (x : ℕ) (ok : Bool), (b.add ⟨4, 8, by decide⟩ x ok).1 = false →
      (b.add ⟨4, 8, by decide⟩ x ok).2 = b) ∧
    (Throughout (step ⟨4, 8, by decide⟩) IsList (init ⟨4, 8, by decide⟩ 1, [])
        [.add 5 true, .add 6 true, .removeNth 0 true] ↔
      StepsMeet (step ⟨4, 8, by decide⟩) (fun s => KeepsElements ⟨4, 8, by decide⟩ s.1)
        (init ⟨4, 8, by decide⟩ 1, []) [.add 5 true, .add 6 true, .removeNth 0 true]) :=
  isList_throughout_iff (by decide) (by decide)

/-! ### The bag that counts in natural numbers -/

section Represents

variable {β : Type} {f : α → β} {w : WordBag α} {b : Bag β}

/-- **The bag is one that counts in natural numbers**, whose elements go by other names. -/
structure Represents (S : WordSizes) (f : α → β) (w : WordBag α) (b : Bag β) : Prop where
  minCapacity : b.minCapacity = w.minCapacity.toNat
  capacity : b.capacity = w.capacity.toNat
  bytes : b.bytes = w.bytes.toNat
  slots : b.slots = w.slots.map (Option.map f)
  length_block : w.block.length = roomIn S w.bytes

/-- The numbers an operation computes are in the range of `size_t`. -/
def InRange (S : WordSizes) (w : WordBag α) : Op α → Prop
  | .add _ _ => w.size.toNat + 1 < 2 ^ 64 ∧ (w.capacity = w.size →
      w.capacity.toNat * 2 < 2 ^ 64 ∧ w.capacity.toNat * 2 * S.pointer.toNat < 2 ^ 64)
  | .removeNth _ _ => w.capacity.toNat * S.pointer.toNat < 2 ^ 64
  | .clear _ => w.minCapacity.toNat * S.pointer.toNat < 2 ^ 64

/-- A block has room for the slot in both ways of counting. -/
theorem fits_iff {bytes : UInt64} {i : ℕ} :
    Bag.fits S.toSizes bytes.toNat i = true ↔ i < roomIn S bytes := by
  rw [Bag.fits, decide_eq_true_iff, roomIn, Nat.lt_iff_add_one_le,
    Nat.le_div_iff_mul_le S.element_pos]
  rfl

section

variable (h : Represents S f w b)

include h

theorem Represents.size : b.size = w.size.toNat := by
  rw [Bag.size, h.slots, List.length_map, length_slots]

/-- A block that is as large as the capacity says has room for as many elements. -/
theorem Represents.capacity_le (hbytes : b.capacity * S.element.toNat ≤ b.bytes) :
    w.capacity.toNat ≤ w.block.length := by
  rw [h.capacity, h.bytes] at hbytes
  rw [h.length_block, roomIn, Nat.le_div_iff_mul_le S.element_pos]
  exact hbytes

omit h in
theorem represents_init {m : UInt64} (hm : m.toNat * S.element.toNat < 2 ^ 64) (f : α → β) :
    Represents S f (init S m) (Bag.init S.toSizes m.toNat) where
  minCapacity := rfl
  capacity := rfl
  bytes := (toNat_mul_of_lt hm).symm
  slots := rfl
  length_block := List.length_replicate

omit h in
/-- What is found in the slots after the block has been reallocated. -/
theorem getD_resize (w : WordBag α) (c : UInt64) (i : ℕ) :
    (w.resize S c true).2.block.getD i none =
      if i < roomIn S (c * S.pointer) then w.block.getD i none else none := by
  change (w.block.take _ ++ List.replicate _ none).getD i none = _
  rw [List.getD_eq_getElem?_getD, List.getD_eq_getElem?_getD, List.getElem?_append]
  simp only [List.length_take, List.getElem?_take, List.getElem?_replicate]
  split
  · next hi => rw [if_pos (by omega), if_pos (by omega)]
  · next hi =>
    split
    · rw [List.getElem?_eq_none (by omega)]
      split <;> rfl
    · rw [if_neg (by omega)]
      rfl

/-- A reallocation. -/
theorem Represents.resize {c : UInt64} (hc : c.toNat * S.pointer.toNat < 2 ^ 64) (ok : Bool) :
    (w.resize S c ok).1 = (b.resize S.toSizes c.toNat ok).1 ∧
      Represents S f (w.resize S c ok).2 (b.resize S.toSizes c.toNat ok).2 := by
  cases ok with
  | false => exact ⟨rfl, h⟩
  | true =>
    have hbytes : c.toNat * S.pointer.toNat = (c * S.pointer).toNat := (toNat_mul_of_lt hc).symm
    refine ⟨rfl, h.minCapacity, rfl, hbytes, ?_, length_resize c⟩
    change Bag.retain S.toSizes (c.toNat * S.pointer.toNat) b.slots = _
    rw [hbytes, h.slots, Bag.retain]
    refine List.ext_getElem? fun i => ?_
    rw [List.getElem?_mapIdx, List.getElem?_map, List.getElem?_map, getElem?_slots, getElem?_slots,
      getD_resize]
    change _ = Option.map _ (if i < w.size.toNat then _ else _)
    by_cases hi : i < w.size.toNat
    · simp only [if_pos hi, Option.map_some, fits_iff]
      split <;> rfl
    · simp only [if_neg hi, Option.map_none]

theorem Represents.put (hsize : w.size.toNat + 1 < 2 ^ 64) (x : α) :
    Represents S f (w.put x) (b.put S.toSizes (f x)) := by
  have hnext : (w.size + 1).toNat = w.size.toNat + 1 := toNat_add_of_lt hsize
  refine ⟨h.minCapacity, h.capacity, h.bytes, ?_, (List.length_set ..).trans h.length_block⟩
  have hlast : (if Bag.fits S.toSizes b.bytes b.size then some (f x) else none) =
      Option.map f ((w.block.set w.size.toNat (some x)).getD w.size.toNat none) := by
    rw [h.bytes, h.size, List.getD_eq_getElem?_getD, List.getElem?_set, if_pos rfl, h.length_block]
    simp only [fits_iff]
    split <;> rfl
  have hfront : (List.range w.size.toNat).map
        (fun i => (w.block.set w.size.toNat (some x)).getD i none) = w.slots := by
    refine List.map_congr_left fun i hi => ?_
    rw [List.getD_eq_getElem?_getD, List.getElem?_set_ne (List.mem_range.mp hi).ne',
      ← List.getD_eq_getElem?_getD]
  change b.slots ++ [if Bag.fits S.toSizes b.bytes b.size then some (f x) else none] =
    ((List.range (w.size + 1).toNat).map
      fun i => (w.block.set w.size.toNat (some x)).getD i none).map (Option.map f)
  rw [hnext, List.range_succ, List.map_append, hfront, List.map_append, hlast, h.slots]
  rfl

/-- **Adding an element** agrees. -/
theorem Represents.add {x : α} {ok : Bool} (hrange : InRange S w (.add x ok)) :
    (w.add S x ok).1 = (b.add S.toSizes (f x) ok).1 ∧
      Represents S f (w.add S x ok).2 (b.add S.toSizes (f x) ok).2 := by
  have hfull_iff : b.capacity = b.size ↔ w.capacity = w.size := by
    rw [h.capacity, h.size, UInt64.toNat_inj]
  by_cases hfull : w.capacity = w.size
  · have hfull' := hfull_iff.mpr hfull
    cases ok with
    | false =>
      rw [add_of_refused hfull, Bag.add_of_refused hfull']
      exact ⟨rfl, h⟩
    | true =>
      obtain ⟨hcap, hbytes⟩ := hrange.2 hfull
      have hdouble : (w.capacity * 2).toNat = w.capacity.toNat * 2 := toNat_mul_of_lt hcap
      have hresized := (h.resize (c := w.capacity * 2) (by rw [hdouble]; exact hbytes) true).2
      rw [hdouble, ← h.capacity] at hresized
      rw [add_of_full hfull, Bag.add_of_full hfull']
      exact ⟨rfl, hresized.put hrange.1 x⟩
  · rw [add_of_not_full hfull, Bag.add_of_not_full fun hb => hfull (hfull_iff.mp hb)]
    exact ⟨rfl, h.put hrange.1 x⟩

/-- The last element takes the place of the removed one, inside the block or outside. -/
theorem Represents.moveLast {n : UInt64} (hn : n < w.size) :
    Represents S f (w.moveLast n) { b with slots := Bag.swapRemove b.slots n.toNat } := by
  have hn' : n.toNat < w.size.toNat := UInt64.lt_iff_toNat_lt.mp hn
  have hsub := toNat_sub_one (Nat.zero_lt_of_lt hn')
  obtain ⟨hcap, hmin⟩ := w.capacity_moveLast n
  have hbytes : (w.moveLast n).bytes = w.bytes := by
    rw [WordBag.moveLast]
    split <;> rfl
  refine ⟨by rw [hmin]; exact h.minCapacity, by rw [hcap]; exact h.capacity,
    by rw [hbytes]; exact h.bytes, ?_, by rw [hbytes, length_moveLast]; exact h.length_block⟩
  have hlast := getLast?_slots (Nat.zero_lt_of_lt hn')
  have hmoved : (w.moveLast n).slots = Bag.swapRemove w.slots n.toNat := by
    rw [Bag.swapRemove_of_getLast? hlast, List.dropLast_eq_take, List.length_set, length_slots]
    refine List.ext_getElem? fun i => ?_
    rw [getElem?_slots, size_moveLast, hsub, List.getElem?_take]
    split
    · next hi =>
      have hpos : w.size - 1 > 0 := UInt64.lt_iff_toNat_lt.mpr (hsub.symm ▸ Nat.zero_lt_of_lt hi)
      have hblock : (w.moveLast n).block = w.block.set n.toNat w.last := by
        rw [WordBag.moveLast, if_pos hpos]
        rfl
      rw [hblock, List.getElem?_set, List.getD_eq_getElem?_getD, List.getElem?_set]
      split
      · next heq =>
        rw [length_slots, if_pos hn']
        split
        · rfl
        · next hout =>
          -- the removed element is outside the block, and so is the last one
          rw [last, List.getD_eq_getElem?_getD, List.getElem?_eq_none (by omega)]
      · rw [getElem?_slots, if_pos (by omega), List.getD_eq_getElem?_getD]
    · rfl
  have hmap : Bag.swapRemove (w.slots.map (Option.map f)) n.toNat =
      (Bag.swapRemove w.slots n.toNat).map (Option.map f) := by
    have hlast' : (w.slots.map (Option.map f)).getLast? = some (Option.map f w.last) := by
      rw [List.getLast?_map, hlast]
      rfl
    rw [Bag.swapRemove_of_getLast? hlast, Bag.swapRemove_of_getLast? hlast', ← List.map_set,
      List.map_dropLast]
  change Bag.swapRemove b.slots n.toNat = _
  rw [hmoved, h.slots, hmap]

/-- **Removing an element** agrees. -/
theorem Represents.removeNth {n : UInt64} (hn : n < w.size) {ok : Bool}
    (hrange : InRange S w (.removeNth n ok)) :
    Represents S f (w.removeNth S n ok) (b.removeNth S.toSizes n.toNat ok) := by
  have hn' : n.toNat < w.size.toNat := UInt64.lt_iff_toNat_lt.mp hn
  have hmoved := h.moveLast hn
  obtain ⟨hcap, hmin⟩ := w.capacity_moveLast n
  have hiff : w.capacity > w.minCapacity ∧ w.size - 1 < w.capacity / 4 ↔
      b.capacity > b.minCapacity ∧ b.size - 1 < b.capacity / 4 := by
    rw [shrinks_iff, toNat_sub_one (Nat.zero_lt_of_lt hn'), h.capacity, h.minCapacity, h.size]
  rw [Bag.removeNth_eq (h.size.symm ▸ hn'), WordBag.removeNth]
  simp only [hcap, hmin, size_moveLast]
  by_cases hshrink : w.capacity > w.minCapacity ∧ w.size - 1 < w.capacity / 4
  · rw [if_pos hshrink, if_pos (hiff.mp hshrink)]
    have hhalf : (w.capacity / 2).toNat = b.capacity / 2 := by
      rw [UInt64.toNat_div, h.capacity]
      rfl
    have hle : (w.capacity / 2).toNat * S.pointer.toNat ≤ w.capacity.toNat * S.pointer.toNat := by
      rw [hhalf, h.capacity]
      exact Nat.mul_le_mul_right _ (Nat.div_le_self _ _)
    have hresized := (hmoved.resize (lt_of_le_of_lt hle hrange) ok).2
    rwa [hhalf] at hresized
  · rw [if_neg hshrink, if_neg fun hb => hshrink (hiff.mpr hb)]
    exact hmoved

end

theorem capacity_removeNth_le (w : WordBag α) (n : UInt64) (ok : Bool) :
    (w.removeNth S n ok).capacity.toNat ≤ w.capacity.toNat := by
  obtain ⟨hcap, -⟩ := w.capacity_moveLast n
  rw [WordBag.removeNth]
  simp only [hcap]
  split
  · cases ok with
    | false => exact (congrArg UInt64.toNat hcap).le
    | true =>
      change (w.capacity / 2).toNat ≤ _
      rw [UInt64.toNat_div]
      exact Nat.div_le_self _ _
  · exact (congrArg UInt64.toNat hcap).le

/-- The call on the other bag. -/
def Op.toBag (f : α → β) : Op α → Bag.Op β
  | .add x ok => .add (f x) ok
  | .removeNth n ok => .removeNth n.toNat ok
  | .clear ok => .clear ok

/-- **In range, an operation agrees.** -/
theorem represents_step {s : WordBag α × List α} {t : Bag β × List β}
    (h : Represents S f s.1 t.1) {o : Op α} (ho : Valid s.1 o) (hrange : InRange S s.1 o) :
    Represents S f (step S s o).1 (Bag.step S.toSizes t (o.toBag f)).1 := by
  rcases o with ⟨x, ok⟩ | ⟨n, ok⟩ | ok
  · exact (h.add hrange).2
  · exact h.removeNth ho hrange
  · have hresized := (h.resize hrange ok).2
    rw [← h.minCapacity] at hresized
    exact ⟨hresized.minCapacity, hresized.capacity, hresized.bytes, rfl, hresized.length_block⟩

/-- **In range, the bag stays the one that counts in natural numbers.** -/
theorem represents_run {s : WordBag α × List α} {t : Bag β × List β} (h : Represents S f s.1 t.1)
    {ops : List (Op α)}
    (hops : StepsMeet (step S) (fun s o => Valid s.1 o ∧ InRange S s.1 o) s ops) :
    Represents S f (runFrom (step S) s ops).1
      (runFrom (Bag.step S.toSizes) t (ops.map (Op.toBag f))).1 := by
  induction ops generalizing s t with
  | nil => exact h
  | cons o ops ih => exact ih (represents_step h hops.1.1 hops.1.2) hops.2

end Represents

end WordBag

end HawkTracer.Lib
