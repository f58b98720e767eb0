import HawkTracer.Lib.Bag
import HawkTracer.Lib.Klass

/-!
# A stack of objects of different sizes

`HT_Stack` keeps the bytes of its objects one after another in a block, and the offsets at
which they start in a bag. The block is doubled, as often as it takes, when an object does not
fit, and halved when less than a quarter of it is used.

The objects of a stack are listed from the top here. `HawkTracer.Lib.Stack.Holds` says which
objects a stack holds: the used part of the block spells them, and the bag has their offsets.
Pushing and popping change the list as they should
(`HawkTracer.Lib.Stack.Holds.push`, `HawkTracer.Lib.Stack.Holds.pop`), whatever the sizes and
however the block is moved, and writing to the object on top changes that object only
(`HawkTracer.Lib.Stack.Holds.write`).
-/

namespace HawkTracer.Lib

/-- `HT_Stack`. -/
structure Stack where
  sizesStack : Bag ℕ
  data : List UInt8
  size : ℕ
  minCapacity : ℕ
  capacity : ℕ

namespace Stack

/-- `ht_stack_init`, if there is memory for it. The block starts uninitialised; nothing of it
is used before it is written. -/
def init (capacity nCapacity : ℕ) : Stack where
  sizesStack := Bag.init (voidPtrSizes sizeofPointer) nCapacity
  data := List.replicate capacity 0
  size := 0
  minCapacity := capacity
  capacity := capacity

/-- `_ht_stack_resize`; `ok` is the answer of the allocator. -/
def resize (st : Stack) (newCapacity : ℕ) (ok : Bool) : Bool × Stack :=
  if ok then
    (true, { st with
      data := st.data.take newCapacity ++ List.replicate (newCapacity - st.data.length) 0
      capacity := newCapacity })
  else (false, st)

/-- The loop of `ht_stack_push` that looks for a factor. -/
def growFactor (capacity size n : ℕ) : ℕ → ℕ → ℕ
  | 0, factor => factor
  | fuel + 1, factor =>
    if capacity * factor - size < n then growFactor capacity size n fuel (factor * 2) else factor

/-- The block of `ht_stack_push` that makes room for an object. -/
def makeRoom (st : Stack) (n : ℕ) (ok : Bool) : Bool × Stack :=
  if st.capacity - st.size < n then
    st.resize (st.capacity * growFactor st.capacity st.size n (st.size + n) 2) ok
  else (true, st)

/-- `ht_stack_push`, with whether it succeeds. -/
def push (st : Stack) (object : List UInt8) (okData okSizes : Bool) : Bool × Stack :=
  match st.makeRoom object.length okData with
  | (false, st) => (false, st)
  | (true, st) =>
    match st.sizesStack.add (voidPtrSizes sizeofPointer) st.size okSizes with
    | (false, sizes) => (false, { st with sizesStack := sizes })
    | (true, sizes) => (true, { st with
        sizesStack := sizes
        data := blit st.data st.size object
        size := st.size + object.length })

/-- `ht_bag_last` of the offsets: where the object on top starts. -/
def topOffset (st : Stack) : ℕ := st.sizesStack.slots.getLast?.join.getD 0

/-- `ht_stack_pop`. -/
def pop (st : Stack) (okData okSizes : Bool) : Stack :=
  let st := { st with
    size := st.topOffset
    sizesStack := st.sizesStack.removeNth (voidPtrSizes sizeofPointer) (st.sizesStack.size - 1)
      okSizes }
  if st.capacity > st.minCapacity ∧ st.size < st.capacity / 4 then
    (st.resize (st.capacity / 2) okData).2
  else st

/-- The bytes of the objects, the one on top last. -/
def stacked : List (List UInt8) → List UInt8
  | [] => []
  | object :: objects => stacked objects ++ object

/-- Where the objects start, the one on top last. -/
def offsets : List (List UInt8) → List ℕ
  | [] => []
  | _ :: objects => offsets objects ++ [(stacked objects).length]

@[simp] theorem length_offsets (objects : List (List UInt8)) :
    (offsets objects).length = objects.length := by
  induction objects with
  | nil => rfl
  | cons object objects ih => rw [offsets, List.length_append, ih, List.length_singleton,
      List.length_cons]

/-- **The stack holds the objects.** -/
structure Holds (st : Stack) (objects : List (List UInt8)) : Prop where
  sizes : Bag.Stores (voidPtrSizes sizeofPointer) st.sizesStack (offsets objects)
  size : st.size = (stacked objects).length
  content : st.data.take st.size = stacked objects
  length_data : st.data.length = st.capacity
  size_le : st.size ≤ st.capacity
  capacity_pos : 0 < st.capacity
  minCapacity_pos : 0 < st.minCapacity

variable {st : Stack} {object : List UInt8} {objects : List (List UInt8)}

theorem holds_init {capacity nCapacity : ℕ} (hc : 0 < capacity) (hn : 0 < nCapacity) :
    Holds (init capacity nCapacity) [] :=
  ⟨Bag.stores_init hn, rfl, List.take_zero, List.length_replicate, Nat.zero_le _, hc, hc⟩

/-! ### Growing and shrinking -/

/-- **The loop finds a factor that is large enough.** -/
theorem le_growFactor {capacity size n fuel factor : ℕ} (hsize : size ≤ capacity * factor)
    (h : size + n ≤ capacity * factor * 2 ^ fuel) :
    size + n ≤ capacity * growFactor capacity size n fuel factor := by
  induction fuel generalizing factor with
  | zero => rwa [Nat.pow_zero, Nat.mul_one] at h
  | succ fuel ih =>
    rw [growFactor]
    split
    · refine ih ?_ ?_
      · rw [← Nat.mul_assoc]
        omega
      · rwa [← Nat.mul_assoc, Nat.mul_assoc _ 2, ← Nat.pow_succ']
    · omega

theorem Holds.resize (h : Holds st objects) {newCapacity : ℕ} (hle : st.size ≤ newCapacity)
    (hpos : 0 < newCapacity) (ok : Bool) : Holds (st.resize newCapacity ok).2 objects := by
  cases ok with
  | false => exact h
  | true =>
    have hlen := h.length_data
    have hsize := h.size_le
    refine ⟨h.sizes, h.size, ?_, ?_, hle, hpos, h.minCapacity_pos⟩
    · have hle' : st.size ≤ (st.data.take newCapacity).length := by
        rw [List.length_take]
        omega
      change (st.data.take newCapacity ++ _).take st.size = _
      rw [List.take_append_of_le_length hle', List.take_take, Nat.min_eq_left hle, h.content]
    · simp only [Stack.resize, if_true, List.length_append, List.length_take, List.length_replicate]
      omega

/-- After making room there is room, and in any case the objects stay. -/
theorem Holds.makeRoom (h : Holds st objects) (n : ℕ) (ok : Bool) :
    Holds (st.makeRoom n ok).2 objects ∧
      ((st.makeRoom n ok).1 = true → st.size + n ≤ (st.makeRoom n ok).2.capacity) := by
  have hsize := h.size_le
  rw [Stack.makeRoom]
  split
  · have hpow : st.size + n < 2 ^ (st.size + n) := Nat.lt_two_pow_self
    have hroom : st.size + n ≤ st.capacity * growFactor st.capacity st.size n (st.size + n) 2 := by
      refine le_growFactor (by omega) ?_
      have hcap := h.capacity_pos
      calc st.size + n ≤ 1 * 2 ^ (st.size + n) := by omega
        _ ≤ st.capacity * 2 * 2 ^ (st.size + n) := Nat.mul_le_mul_right _ (by omega)
    refine ⟨h.resize (by omega) (by omega) ok, fun hok => ?_⟩
    cases ok with
    | false => cases hok
    | true => exact hroom
  · exact ⟨h, fun _ => show st.size + n ≤ st.capacity by omega⟩

/-! ### The operations -/

theorem push_of_refused {st' : Stack} {okData : Bool}
    (hmade : st.makeRoom object.length okData = (false, st')) (okSizes : Bool) :
    st.push object okData okSizes = (false, st') := by
  rw [Stack.push, hmade]

theorem push_of_sizes_refused {st' : Stack} {okData okSizes : Bool} {sizes : Bag ℕ}
    (hmade : st.makeRoom object.length okData = (true, st'))
    (hadd : st'.sizesStack.add (voidPtrSizes sizeofPointer) st'.size okSizes = (false, sizes)) :
    st.push object okData okSizes = (false, { st' with sizesStack := sizes }) := by
  rw [Stack.push, hmade]
  simp only [hadd]

theorem push_of_added {st' : Stack} {okData okSizes : Bool} {sizes : Bag ℕ}
    (hmade : st.makeRoom object.length okData = (true, st'))
    (hadd : st'.sizesStack.add (voidPtrSizes sizeofPointer) st'.size okSizes = (true, sizes)) :
    st.push object okData okSizes = (true, { st' with
      sizesStack := sizes
      data := blit st'.data st'.size object
      size := st'.size + object.length }) := by
  rw [Stack.push, hmade]
  simp only [hadd]

/-- **A push puts the object on top** if it succeeds, and leaves the objects alone if not. -/
theorem Holds.push_of_answers (h : Holds st objects) (object : List UInt8) (okData okSizes : Bool) :
    Holds (st.push object okData okSizes).2
      (if (st.push object okData okSizes).1 then object :: objects else objects) := by
  obtain ⟨h', hroom⟩ := h.makeRoom object.length okData
  rcases hmade : st.makeRoom object.length okData with ⟨_ | _, st'⟩
  · rw [hmade] at h'
    rw [push_of_refused hmade]
    exact h'
  · simp only [hmade] at h' hroom
    have hle : st'.size + object.length ≤ st'.capacity := by
      rw [h'.size, ← h.size]
      exact hroom trivial
    have hlen := h'.length_data
    have hadded := h'.sizes.add (Nat.le_refl sizeofPointer) st'.size okSizes
    rcases hadd : st'.sizesStack.add (voidPtrSizes sizeofPointer) st'.size okSizes with
      ⟨_ | _, sizes⟩
    · rw [hadd] at hadded
      rw [push_of_sizes_refused hmade hadd]
      exact ⟨hadded, h'.size, h'.content, hlen, h'.size_le, h'.capacity_pos, h'.minCapacity_pos⟩
    · rw [hadd, h'.size] at hadded
      rw [push_of_added hmade hadd]
      refine ⟨hadded, ?_, ?_, ?_, hle, h'.capacity_pos, h'.minCapacity_pos⟩
      · exact (congrArg (· + object.length) h'.size).trans List.length_append.symm
      · change (blit st'.data st'.size object).take (st'.size + object.length) = stacked _ ++ object
        rw [take_blit (by omega), h'.content]
      · exact (length_blit (by omega)).trans hlen

/-- With memory for everything a push succeeds. -/
theorem Holds.push (h : Holds st objects) (object : List UInt8) :
    ∃ st', st.push object true true = (true, st') ∧ Holds st' (object :: objects) := by
  obtain ⟨st', hmade⟩ : ∃ st', st.makeRoom object.length true = (true, st') := by
    rw [Stack.makeRoom]
    split <;> exact ⟨_, rfl⟩
  obtain ⟨sizes, hadd⟩ : ∃ sizes,
      st'.sizesStack.add (voidPtrSizes sizeofPointer) st'.size true = (true, sizes) := by
    rw [Bag.add]
    split <;> exact ⟨_, rfl⟩
  have hpush := h.push_of_answers object true true
  rw [push_of_added hmade hadd] at hpush ⊢
  exact ⟨_, rfl, hpush⟩

section

variable (h : Holds st (object :: objects))

include h

theorem Holds.topOffset : st.topOffset = (stacked objects).length := by
  have hslots : st.sizesStack.slots = (offsets (object :: objects)).map some := h.sizes.sound.slots
  rw [Stack.topOffset, hslots, offsets, List.map_append, List.map_singleton, List.getLast?_concat]
  rfl

/-- **A pop takes the object from the top.** -/
theorem Holds.pop (okData okSizes : Bool) : Holds (st.pop okData okSizes) objects := by
  have hlast : (offsets (object :: objects)).length - 1 < (offsets (object :: objects)).length := by
    simp [offsets]
  have hsizes := h.sizes.removeNth (Nat.le_refl sizeofPointer) hlast okSizes
  rw [← h.sizes.size_eq] at hsizes
  have hswap : Bag.swapRemove (offsets (object :: objects)) (st.sizesStack.size - 1) =
      offsets objects := by
    rw [h.sizes.size_eq, Bag.swapRemove_length_sub_one, offsets, List.dropLast_concat]
  rw [hswap] at hsizes
  have hsize : st.size = (stacked objects).length + object.length := by
    rw [h.size, stacked, List.length_append]
  have hle := h.size_le
  have hcontent : st.data.take (stacked objects).length = stacked objects := by
    have htake := congrArg (List.take (stacked objects).length) h.content
    rwa [List.take_take, Nat.min_eq_left (by omega), stacked, List.take_left] at htake
  have hpopped : Holds { st with
      size := st.topOffset
      sizesStack := st.sizesStack.removeNth (voidPtrSizes sizeofPointer) (st.sizesStack.size - 1)
        okSizes } objects := by
    have hfits : (stacked objects).length ≤ st.capacity := by omega
    rw [h.topOffset]
    exact ⟨hsizes, rfl, hcontent, h.length_data, hfits, h.capacity_pos, h.minCapacity_pos⟩
  rw [Stack.pop]
  split
  · next hshrink =>
    have hmin := h.minCapacity_pos
    exact hpopped.resize (by omega) (by omega) okData
  · exact hpopped

/-- **Writing to the object on top** changes that object only. -/
theorem Holds.write {k : ℕ} {bs : List UInt8} (hk : k + bs.length ≤ object.length) :
    Holds { st with data := blit st.data (st.topOffset + k) bs }
      (blit object k bs :: objects) := by
  have hlen := h.length_data
  have hle := h.size_le
  have hsize : st.size = (stacked objects).length + object.length := by
    rw [h.size, stacked, List.length_append]
  have hblit : (blit object k bs).length = object.length := length_blit hk
  have hdata : st.data = stacked objects ++ object ++ st.data.drop st.size := by
    rw [← stacked, ← h.content, List.take_append_drop]
  have hwritten : blit st.data (st.topOffset + k) bs =
      stacked objects ++ blit object k bs ++ st.data.drop st.size := by
    rw [h.topOffset, hdata, blit_append_append hk, ← hdata]
  refine ⟨h.sizes, ?_, ?_, ?_, h.size_le, h.capacity_pos, h.minCapacity_pos⟩
  · rw [stacked, List.length_append, hblit, ← hsize]
  · simp only [hwritten]
    rw [stacked, List.take_left' (by rw [List.length_append, hblit, hsize])]
  · rw [length_blit (by rw [h.topOffset]; omega), hlen]

/-- The object on top, read from the block. -/
theorem Holds.slice_topOffset : slice st.data st.topOffset object.length = object := by
  have hdata : st.data = stacked objects ++ (object ++ st.data.drop st.size) := by
    rw [← List.append_assoc, ← stacked, ← h.content, List.take_append_drop]
  rw [slice, h.topOffset, hdata, List.drop_left, List.take_left]

end

end Stack

end HawkTracer.Lib
