import HawkTracer.Base.Run
import Mathlib.Data.List.Perm.Basic
import Mathlib.Order.Basic
import Mathlib.Order.Nat

/-!
# The bag template

A bag is a block of memory that grows and shrinks with its content. `HT_DEFINE_BAG_TYPE` is
instantiated for elements of different sizes, and its two places that ask the allocator for
memory compute the number of bytes differently: the constructor multiplies by the size of an
element, `resize_` by the size of a pointer.

The bag of this file counts in natural numbers. The one of the source counts in `size_t`
(`HawkTracer.Lib.WordBag`), and in range the two agree (`HawkTracer.Lib.WordBag.represents_run`).

The model keeps the number of bytes of the block next to the capacity, and for each element
what is found in its slot: nothing, if the block has no room for the slot
(`HawkTracer.Lib.Bag.slots`). An operation is given the answer of the allocator, should it
ask for memory. Beside the bag runs the list of the elements the callers believe to have
stored; a bag is sound (`HawkTracer.Lib.Bag.Sound`) if the block is as large as its capacity
says, the content does not exceed the capacity, and the slots hold what the callers believe.
Bags of elements no larger than a pointer stay so (`HawkTracer.Lib.Bag.Stores`).
-/

namespace HawkTracer.Lib

/-- `HT_Bag`. -/
structure Bag (α : Type) where
  minCapacity : ℕ
  capacity : ℕ
  /-- The number of bytes the allocator was last asked for with success. -/
  bytes : ℕ
  /-- What is found in the slots of the elements; nothing in a slot outside the block. -/
  slots : List (Option α)

namespace Bag

variable {α : Type}

/-- The field `size`. -/
def size (b : Bag α) : ℕ := b.slots.length

/-- `sizeof(TYPE)` and `sizeof(void*)`. -/
structure Sizes where
  element : ℕ
  pointer : ℕ

variable (S : Sizes)

/-- A block of so many bytes has room for the slot. -/
def fits (bytes i : ℕ) : Bool := (i + 1) * S.element ≤ bytes

/-- What is found in the slots after the block has been reallocated. -/
def retain (bytes : ℕ) (slots : List (Option α)) : List (Option α) :=
  slots.mapIdx fun i v => if fits S bytes i then v else none

/-- `ht_bag_resize_`; `ok` is the answer of the allocator. -/
def resize (b : Bag α) (newCapacity : ℕ) (ok : Bool) : Bool × Bag α :=
  let bytes := newCapacity * S.pointer
  if ok then
    (true, { b with capacity := newCapacity, bytes := bytes, slots := retain S bytes b.slots })
  else (false, b)

/-- `ht_bag_init`, if there is memory for it. -/
def init (minCapacity : ℕ) : Bag α where
  minCapacity := minCapacity
  capacity := minCapacity
  bytes := minCapacity * S.element
  slots := []

/-- `bag->data[bag->size++] = data`. -/
def put (b : Bag α) (x : α) : Bag α :=
  { b with slots := b.slots ++ [if fits S b.bytes b.size then some x else none] }

/-- `ht_bag_add`, with whether it succeeds. -/
def add (b : Bag α) (x : α) (ok : Bool) : Bool × Bag α :=
  if b.capacity = b.size then
    match b.resize S (b.capacity * 2) ok with
    | (false, b) => (false, b)
    | (true, b) => (true, b.put S x)
  else (true, b.put S x)

/-- `ht_bag_remove_nth`: the last element takes the place of the removed one. -/
def removeNth (b : Bag α) (n : ℕ) (ok : Bool) : Bag α :=
  let size := b.size - 1
  let slots :=
    if 0 < size then (b.slots.set n (b.slots.getD size none)).take size else b.slots.take size
  let b := { b with slots := slots }
  if b.capacity > b.minCapacity ∧ b.size < b.capacity / 4 then (b.resize S (b.capacity / 2) ok).2
  else b

/-- `ht_bag_clear`. -/
def clear (b : Bag α) (ok : Bool) : Bag α :=
  { (b.resize S b.minCapacity ok).2 with slots := [] }

/-- `ht_bag_deinit`. -/
def deinit (b : Bag α) : Bag α := { b with capacity := 0, bytes := 0, slots := [] }

/-- **There is room for one more element** in the block, which a full bag reallocates first. -/
def RoomForOne (b : Bag α) : Prop :=
  fits S (if b.capacity = b.size then b.capacity * 2 * S.pointer else b.bytes) b.size = true

instance (b : Bag α) : Decidable (RoomForOne S b) := inferInstanceAs (Decidable (_ = true))

/-- A call of one of the functions, and the answer of the allocator if it is asked. -/
inductive Op (α : Type) where
  | add (x : α) (ok : Bool)
  | removeNth (n : ℕ) (ok : Bool)
  | clear (ok : Bool)

/-- A list without its `n`-th element, whose place the last one takes. -/
def swapRemove (l : List α) (n : ℕ) : List α :=
  match l.getLast? with
  | some x => (l.set n x).dropLast
  | none => l

/-- A bag, and the elements its callers believe to have stored. -/
def step : Bag α × List α → Op α → Bag α × List α
  | (b, l), .add x ok => ((b.add S x ok).2, if (b.add S x ok).1 then l ++ [x] else l)
  | (b, l), .removeNth n ok => (b.removeNth S n ok, swapRemove l n)
  | (b, _), .clear ok => (b.clear S ok, [])

/-- **A sound bag.** -/
structure Sound (s : Bag α × List α) : Prop where
  bytes : s.1.capacity * S.element ≤ s.1.bytes
  size : s.1.size ≤ s.1.capacity
  slots : s.1.slots = s.2.map some

theorem sound_init (m : ℕ) : Sound S ((init S m : Bag α), []) :=
  ⟨le_rfl, Nat.zero_le m, rfl⟩

variable {S} {b : Bag α} {l : List α}

/-- The slots below a capacity for which the block is large enough fit in. -/
theorem fits_of_lt {bytes c i : ℕ} (hbytes : c * S.element ≤ bytes) (hi : i < c) :
    fits S bytes i = true :=
  decide_eq_true ((Nat.mul_le_mul_right _ hi).trans hbytes)

theorem length_retain (bytes : ℕ) (slots : List (Option α)) :
    (retain S bytes slots).length = slots.length := List.length_mapIdx

theorem retain_eq_self {bytes : ℕ} {slots : List (Option α)}
    (h : ∀ i < slots.length, Bag.fits S bytes i = true) : retain S bytes slots = slots := by
  unfold retain
  refine List.ext_getElem? fun i => ?_
  rw [List.getElem?_mapIdx]
  rcases hi : slots[i]? with _ | v
  · rfl
  · rw [Option.map_some, if_pos (h i (List.getElem?_eq_some_iff.mp hi).1)]

/-- Pointers are enough for elements that are no larger, if the content fits. -/
theorem sound_resize (hslots : b.slots = l.map some) (hS : S.element ≤ S.pointer) {c : ℕ}
    (hle : b.size ≤ c) : Sound S ((b.resize S c true).2, l) := by
  have hbytes : c * S.element ≤ c * S.pointer := Nat.mul_le_mul_left c hS
  have hretain : retain S (c * S.pointer) b.slots = b.slots :=
    retain_eq_self fun i hi => fits_of_lt hbytes (lt_of_lt_of_le hi hle)
  exact ⟨hbytes, (length_retain _ _).trans_le hle, hretain.trans hslots⟩

theorem Sound.put (hs : Sound S (b, l)) (hlt : b.size < b.capacity) (x : α) :
    Sound S (b.put S x, l ++ [x]) := by
  have hsize : (b.put S x).size = b.size + 1 := by simp [Bag.put, Bag.size]
  refine ⟨hs.bytes, hsize.trans_le hlt, ?_⟩
  change b.slots ++ [if Bag.fits S b.bytes b.size then some x else none] = _
  rw [if_pos (fits_of_lt hs.bytes hlt), show b.slots = l.map some from hs.slots, List.map_append,
    List.map_singleton]

/-! ### The operations -/

theorem swapRemove_of_getLast? {l : List α} {x : α} (h : l.getLast? = some x) (n : ℕ) :
    swapRemove l n = (l.set n x).dropLast := by
  rw [swapRemove, h]

theorem swapRemove_map (l : List α) (n : ℕ) :
    swapRemove (l.map some) n = (swapRemove l n).map some := by
  rcases hx : l.getLast? with _ | x
  · rw [List.getLast?_eq_none_iff.mp hx]
    rfl
  · have hx' : (l.map some).getLast? = some (some x) := by rw [List.getLast?_map, hx]; rfl
    rw [swapRemove_of_getLast? hx, swapRemove_of_getLast? hx', ← List.map_set, List.map_dropLast]

variable {n : ℕ}

theorem length_swapRemove {l : List α} (hn : n < l.length) :
    (swapRemove l n).length = l.length - 1 := by
  rcases hx : l.getLast? with _ | x
  · rw [List.getLast?_eq_none_iff.mp hx] at hn
    cases hn
  · rw [swapRemove_of_getLast? hx, List.length_dropLast, List.length_set]

/-- Without its last element, a list has no place to fill. -/
theorem swapRemove_length_sub_one (l : List α) : swapRemove l (l.length - 1) = l.dropLast := by
  rcases hx : l.getLast? with _ | x
  · rw [List.getLast?_eq_none_iff.mp hx]
    rfl
  · obtain ⟨init, rfl⟩ := List.getLast?_eq_some_iff.mp hx
    rw [swapRemove_of_getLast? hx, List.length_append, List.length_singleton, Nat.add_sub_cancel,
      List.set_append_right _ _ (Nat.le_refl _), Nat.sub_self, List.set_cons_zero]

theorem removeNth_eq (hn : n < b.size) (ok : Bool) :
    b.removeNth S n ok =
      if b.capacity > b.minCapacity ∧ b.size - 1 < b.capacity / 4 then
        ({ b with slots := swapRemove b.slots n }.resize S (b.capacity / 2) ok).2
      else { b with slots := swapRemove b.slots n } := by
  -- the slot that is copied over the removed one is the last
  have hlast : b.slots.getLast? = some (b.slots.getD (b.size - 1) none) := by
    rw [List.getLast?_eq_getElem?, List.getD_eq_getElem?_getD]
    rcases hg : b.slots[b.slots.length - 1]? with _ | v
    · rw [List.getElem?_eq_none_iff] at hg
      change n < b.slots.length at hn
      omega
    · rw [size, hg]
      rfl
  have hslots : (if 0 < b.size - 1 then
      (b.slots.set n (b.slots.getD (b.size - 1) none)).take (b.size - 1)
      else b.slots.take (b.size - 1)) = swapRemove b.slots n := by
    rw [swapRemove_of_getLast? hlast, List.dropLast_eq_take, List.length_set]
    split
    · rfl
    -- a bag of one: the source copies nothing, and nothing is left
    · next h =>
      have h0 : b.size - 1 = 0 := by omega
      have h1 : b.slots.length - 1 = 0 := h0
      rw [h0, h1, List.take_zero, List.take_zero]
  have hsize : ({ b with slots := swapRemove b.slots n } : Bag α).size = b.size - 1 :=
    length_swapRemove hn
  rw [removeNth]
  simp only [hslots, hsize]

/-- A full bag is reallocated first. -/
theorem add_of_full (hfull : b.capacity = b.size) (x : α) :
    b.add S x true = (true, (b.resize S (b.capacity * 2) true).2.put S x) := by
  rw [add, if_pos hfull]
  rfl

/-- If the allocator refuses, nothing happens. -/
theorem add_of_refused (hfull : b.capacity = b.size) (x : α) : b.add S x false = (false, b) := by
  rw [add, if_pos hfull]
  rfl

theorem add_of_not_full (hfull : ¬ b.capacity = b.size) (x : α) (ok : Bool) :
    b.add S x ok = (true, b.put S x) := by
  rw [add, if_neg hfull]

/-- A bag of pointers that has room can grow. -/
theorem Sound.add (hs : Sound S (b, l)) (hS : S.element ≤ S.pointer) (hcap : 0 < b.capacity)
    (x : α) (ok : Bool) : Sound S (step S (b, l) (.add x ok)) := by
  have hle : b.size ≤ b.capacity := hs.size
  by_cases hfull : b.capacity = b.size
  · rcases ok with _ | _
    · rw [step, add_of_refused hfull]
      exact hs
    · rw [step, add_of_full hfull]
      refine (sound_resize hs.slots hS (by omega : b.size ≤ b.capacity * 2)).put ?_ x
      have hsize : (b.resize S (b.capacity * 2) true).2.size = b.size := length_retain _ _
      rw [hsize]
      change b.size < b.capacity * 2
      omega
  · rw [step, add_of_not_full hfull]
    exact hs.put (lt_of_le_of_ne hle (Ne.symm hfull)) x

theorem fits_of_le {bytes i j : ℕ} (hij : i ≤ j) (h : fits S bytes j = true) :
    fits S bytes i = true :=
  decide_eq_true ((Nat.mul_le_mul_right _ (Nat.succ_le_succ hij)).trans (of_decide_eq_true h))

/-- **The slots hold what they held and the new element** exactly if there is room for it. -/
theorem slots_add_iff (hslots : b.slots = l.map some) (x : α) :
    (b.add S x true).2.slots = (l ++ [x]).map some ↔ RoomForOne S b := by
  rw [RoomForOne, List.map_append, List.map_singleton]
  by_cases hfull : b.capacity = b.size
  · rw [add_of_full hfull, if_pos hfull]
    set bytes := b.capacity * 2 * S.pointer with hbytes
    have hadd : ((b.resize S (b.capacity * 2) true).2.put S x).slots =
        retain S bytes b.slots ++ [if fits S bytes b.size then some x else none] := by
      have hsize : (b.resize S (b.capacity * 2) true).2.size = b.size := length_retain _ _
      rw [put, hsize]
      rfl
    rw [hadd]
    constructor
    · intro h
      by_contra hfits
      rw [if_neg hfits] at h
      cases (List.append_inj' h rfl).2
    · intro hfits
      rw [if_pos hfits, retain_eq_self fun i hi => fits_of_le hi.le hfits, hslots]
  · rw [add_of_not_full hfull, if_neg hfull]
    change b.slots ++ [if fits S b.bytes b.size then some x else none] = _ ↔ _
    rw [hslots, List.append_cancel_left_eq]
    split
    · next h => exact iff_of_true rfl h
    · next h => exact iff_of_false (by simp) h

theorem Sound.removeNth (hs : Sound S (b, l)) (hS : S.element ≤ S.pointer) (hn : n < b.size)
    (ok : Bool) : Sound S (step S (b, l) (.removeNth n ok)) := by
  have hslots : swapRemove b.slots n = (swapRemove l n).map some := by
    rw [show b.slots = l.map some from hs.slots, swapRemove_map]
  have hsize : ({ b with slots := swapRemove b.slots n } : Bag α).size = b.size - 1 :=
    length_swapRemove hn
  have hkept : Sound S ({ b with slots := swapRemove b.slots n }, swapRemove l n) :=
    ⟨hs.bytes, hsize.trans_le ((Nat.sub_le _ _).trans hs.size), hslots⟩
  rw [step, removeNth_eq hn]
  split
  · rcases ok with _ | _
    · exact hkept
    · exact sound_resize hslots hS (by omega)
  · exact hkept

/-! ### Bags of pointers -/

/-- **The bag stores the list**: it is sound, and it has room for something. -/
structure Stores (S : Sizes) (b : Bag α) (l : List α) : Prop where
  sound : Sound S (b, l)
  capacity_pos : 0 < b.capacity
  minCapacity_pos : 0 < b.minCapacity

theorem stores_init {m : ℕ} (hm : 0 < m) : Stores S (init S m : Bag α) [] :=
  ⟨sound_init S m, hm, hm⟩

theorem Stores.size_eq (h : Stores S b l) : b.size = l.length := by
  rw [size, show b.slots = l.map some from h.sound.slots, List.length_map]

theorem Stores.getElem?_slots (h : Stores S b l) (i : ℕ) : b.slots[i]? = l[i]?.map some := by
  rw [show b.slots = l.map some from h.sound.slots, List.getElem?_map]

theorem Stores.filterMap_slots (h : Stores S b l) : b.slots.filterMap id = l := by
  rw [show b.slots = l.map some from h.sound.slots, List.filterMap_map]
  exact List.filterMap_some

/-- An element is overwritten in its slot. -/
theorem Stores.set (h : Stores S b l) (i : ℕ) (x : α) :
    Stores S { b with slots := b.slots.set i (some x) } (l.set i x) := by
  refine ⟨⟨h.sound.bytes, ?_, ?_⟩, h.capacity_pos, h.minCapacity_pos⟩
  · exact (List.length_set ..).trans_le h.sound.size
  · rw [show b.slots = l.map some from h.sound.slots, List.map_set]

theorem capacity_add_pos (hcap : 0 < b.capacity) (x : α) (ok : Bool) :
    0 < (b.add S x ok).2.capacity := by
  by_cases hfull : b.capacity = b.size
  · rcases ok with _ | _
    · rwa [add_of_refused hfull]
    · rw [add_of_full hfull]
      exact Nat.mul_pos hcap Nat.two_pos
  · rwa [add_of_not_full hfull]

theorem minCapacity_add (b : Bag α) (x : α) (ok : Bool) :
    (b.add S x ok).2.minCapacity = b.minCapacity := by
  by_cases hfull : b.capacity = b.size
  · rcases ok with _ | _
    · rw [add_of_refused hfull]
    · rw [add_of_full hfull]
      rfl
  · rw [add_of_not_full hfull]
    rfl

theorem Stores.add (h : Stores S b l) (hS : S.element ≤ S.pointer) (x : α) (ok : Bool) :
    Stores S (b.add S x ok).2 (if (b.add S x ok).1 then l ++ [x] else l) :=
  ⟨h.sound.add hS h.capacity_pos x ok,
    capacity_add_pos h.capacity_pos x ok, minCapacity_add b x ok ▸ h.minCapacity_pos⟩

theorem Stores.removeNth (h : Stores S b l) (hS : S.element ≤ S.pointer) (hn : n < l.length)
    (ok : Bool) : Stores S (b.removeNth S n ok) (swapRemove l n) := by
  have hn' : n < b.size := h.size_eq.symm ▸ hn
  have hroom : 0 < (b.removeNth S n ok).capacity ∧ 0 < (b.removeNth S n ok).minCapacity := by
    have hpos := h.capacity_pos
    have hmin := h.minCapacity_pos
    rw [removeNth_eq hn']
    split
    · -- a bag that shrinks has more than its smallest capacity
      cases ok
      · exact ⟨hpos, hmin⟩
      · exact ⟨show 0 < b.capacity / 2 by omega, hmin⟩
    · exact ⟨hpos, hmin⟩
  exact ⟨h.sound.removeNth hS hn' ok, hroom.1, hroom.2⟩

/-- **What is removed is the element**, whatever the order of the others. -/
theorem swapRemove_perm {x : α} (hx : l[n]? = some x) : l.Perm (x :: swapRemove l n) := by
  obtain ⟨hn, hget⟩ := List.getElem?_eq_some_iff.mp hx
  obtain ⟨y, hy⟩ : ∃ y, l.getLast? = some y :=
    ⟨_, List.getLast?_eq_getLast_of_ne_nil (List.ne_nil_of_length_pos (Nat.zero_lt_of_lt hn))⟩
  obtain ⟨init, rfl⟩ := List.getLast?_eq_some_iff.mp hy
  rw [swapRemove_of_getLast? hy]
  rcases Nat.lt_or_ge n init.length with hlt | hge
  · -- the last element takes the place of another
    rw [List.set_append_left _ _ hlt, List.dropLast_concat]
    rw [List.getElem_append_left hlt] at hget
    have herase : init.Perm (x :: init.eraseIdx n) :=
      hget ▸ (List.getElem_cons_eraseIdx_perm hlt).symm
    have hset : (init.set n y).Perm (y :: init.eraseIdx n) := List.set_perm_cons_eraseIdx hlt y
    have hlast : (init ++ [y]).Perm (y :: init) := List.perm_append_comm
    exact hlast.trans ((herase.cons y).trans ((List.Perm.swap ..).trans (hset.symm.cons x)))
  · have hn0 : n = init.length := by
      rw [List.length_append, List.length_singleton] at hn
      omega
    subst hn0
    rw [List.getElem_append_right (Nat.le_refl _)] at hget
    simp only [Nat.sub_self, List.getElem_cons_zero] at hget
    subst hget
    rw [List.set_append_right _ _ (Nat.le_refl _), Nat.sub_self, List.set_cons_zero,
      List.dropLast_concat]
    exact List.perm_append_comm

/-- The elements before a removed one stay. -/
theorem take_swapRemove (hn : n < l.length) : (swapRemove l n).take n = l.take n := by
  obtain ⟨y, hy⟩ : ∃ y, l.getLast? = some y :=
    ⟨_, List.getLast?_eq_getLast_of_ne_nil (List.ne_nil_of_length_pos (Nat.zero_lt_of_lt hn))⟩
  rw [swapRemove_of_getLast? hy, List.dropLast_eq_take, List.take_take, List.length_set,
    Nat.min_eq_left (Nat.le_sub_one_of_lt hn), List.take_set_of_le (Nat.le_refl n)]

/-- The elements from a removed one on are those that came after it. -/
theorem drop_swapRemove_perm (hn : n < l.length) :
    ((swapRemove l n).drop n).Perm (l.drop (n + 1)) := by
  obtain ⟨pre, x, rest, rfl, rfl⟩ : ∃ pre x rest, l = pre ++ x :: rest ∧ pre.length = n :=
    ⟨l.take n, l[n], l.drop (n + 1), by rw [List.getElem_cons_drop, List.take_append_drop],
      by rw [List.length_take]; omega⟩
  obtain ⟨y, hy⟩ : ∃ y, (x :: rest).getLast? = some y :=
    ⟨_, List.getLast?_eq_getLast_of_ne_nil (List.cons_ne_nil x rest)⟩
  have hlast : (pre ++ x :: rest).getLast? = some y := by
    rw [List.getLast?_append, hy, Option.some_or]
  have hsplit : swapRemove (pre ++ x :: rest) pre.length = pre ++ swapRemove (x :: rest) 0 := by
    rw [swapRemove_of_getLast? hlast, swapRemove_of_getLast? hy,
      List.set_append_right _ _ (Nat.le_refl _), Nat.sub_self, List.set_cons_zero,
      List.dropLast_append_of_ne_nil (List.cons_ne_nil y rest)]
  have hperm : (x :: rest).Perm (x :: swapRemove (x :: rest) 0) := swapRemove_perm rfl
  rw [hsplit, List.drop_left, ← List.drop_drop, List.drop_left, List.drop_one, List.tail_cons]
  exact hperm.cons_inv.symm

end Bag

/-- The sizes of `HT_BagVoidPtr`. -/
def voidPtrSizes (pointer : ℕ) : Bag.Sizes := ⟨pointer, pointer⟩

/-- `HT_TimelineListenerEntry` consists of three pointers. -/
def ListenerContainer.sizes (pointer : ℕ) : Bag.Sizes := ⟨3 * pointer, pointer⟩

end HawkTracer.Lib
