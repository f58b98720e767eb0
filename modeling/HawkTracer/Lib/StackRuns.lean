import HawkTracer.Lib.BagRuns
import HawkTracer.Lib.Stack

/-!
# The stack on `size_t`

`HawkTracer.Lib.Stack` counts in natural numbers. The code counts in `size_t`: the number of bytes
asked for, the factor of the loop in `ht_stack_push` and the room that is left are computed modulo
`2 ^ 64`, and a block is as large as the number of bytes asked for, whatever the capacity says.
`HawkTracer.Lib.SizeTStack` is the code on these numbers, over the bag of `HawkTracer.Lib.WordBag`
for the offsets. It logs its accesses to the two blocks, and the loop is given as many rounds as
there are powers of two: after that the factor is zero, and stays zero.

Below half the address range the two agree (`HawkTracer.Lib.SizeTStack.Represents`), so a run of
pushes and pops, with any answers of the allocator, is that of a stack of blocks
(`HawkTracer.Lib.StackTrace.isStack_throughout`). The offsets have to be counted too: they are
pointers, and the room for a number of pointers is computed without regard to the range.
-/

namespace HawkTracer.Lib

/-- An access to a block: where it starts, how long it is, and how long the block is. -/
structure Access where
  start : ℕ
  length : ℕ
  room : ℕ

/-- The access stays inside the block. -/
def Access.InBounds (a : Access) : Prop := a.start + a.length ≤ a.room

instance (a : Access) : Decidable a.InBounds := Nat.decLe _ _

open SizeT

/-! ### The bag of offsets -/

/-- The sizes of `HT_BagVoidPtr`, in which offsets are kept. -/
def pointerSizes : WordSizes := ⟨8, 8, by decide⟩

namespace WordBag

/-- What `ht_bag_void_ptr_add` accesses: the slot behind the others. -/
def addAccesses (b : WordBag UInt64) (x : UInt64) (ok : Bool) : List Access :=
  if (b.add pointerSizes x ok).1 then
    [⟨b.size.toNat, 1, (b.add pointerSizes x ok).2.block.length⟩]
  else []

/-- What `ht_bag_last` and then `ht_bag_void_ptr_remove_nth` of the last pointer access. -/
def removeLastAccesses (b : WordBag UInt64) : List Access :=
  ⟨(b.size - 1).toNat, 1, b.block.length⟩ ::
    if 0 < b.size - 1 then
      [⟨(b.size - 1).toNat, 1, b.block.length⟩, ⟨(b.size - 1).toNat, 1, b.block.length⟩]
    else []

/-- **The offsets are those of the bag that counts in natural numbers**, and the bytes for them
are in range. -/
structure Offsets (w : WordBag UInt64) (b : Bag ℕ) : Prop where
  represents : Represents pointerSizes UInt64.toNat w b
  inRange : w.capacity.toNat * 8 < 2 ^ 64

theorem offsets_init {m : UInt64} (h : m.toNat * 8 < 2 ^ 64) :
    Offsets (init pointerSizes m) (Bag.init (voidPtrSizes sizeofPointer) m.toNat) :=
  ⟨represents_init h UInt64.toNat, h⟩

variable {w : WordBag UInt64} {b : Bag ℕ} {l : List ℕ}

/-- The pointers have room in the block. -/
theorem Offsets.size_le (h : Offsets w b) (hs : Bag.Stores (voidPtrSizes sizeofPointer) b l) :
    w.size.toNat = l.length ∧ w.size.toNat ≤ w.capacity.toNat ∧
      w.capacity.toNat ≤ w.block.length := by
  refine ⟨h.represents.size.symm.trans hs.size_eq, ?_, h.represents.capacity_le hs.sound.bytes⟩
  rw [← h.represents.size, ← h.represents.capacity]
  exact hs.sound.size

/-- **Adding a pointer** agrees, as long as the pointers take less than half the range. -/
theorem Offsets.add (h : Offsets w b) (hs : Bag.Stores (voidPtrSizes sizeofPointer) b l)
    (hroom : (l.length + 1) * 8 < 2 ^ 63) (x : UInt64) (ok : Bool) :
    (w.add pointerSizes x ok).1 = (b.add (voidPtrSizes sizeofPointer) x.toNat ok).1 ∧
      Offsets (w.add pointerSizes x ok).2 (b.add (voidPtrSizes sizeofPointer) x.toNat ok).2 ∧
      ∀ a ∈ w.addAccesses x ok, a.InBounds := by
  obtain ⟨hsize, -, -⟩ := h.size_le hs
  have hrange : InRange pointerSizes w (.add x ok) := by
    refine ⟨by omega, fun hfull => ?_⟩
    have hcap : w.capacity.toNat = l.length := (congrArg UInt64.toNat hfull).trans hsize
    exact ⟨by omega, show w.capacity.toNat * 2 * 8 < 2 ^ 64 by omega⟩
  obtain ⟨hok, hrepresents⟩ := h.represents.add hrange
  have hinRange : (w.add pointerSizes x ok).2.capacity.toNat * 8 < 2 ^ 64 := by
    by_cases hfull : w.capacity = w.size
    · cases ok with
      | false =>
        rw [add_of_refused hfull]
        exact h.inRange
      | true =>
        rw [add_of_full hfull]
        change (w.capacity * 2).toNat * 8 < 2 ^ 64
        obtain ⟨hcap, hbytes⟩ := hrange.2 hfull
        rw [toNat_mul_of_lt (show w.capacity.toNat * (2 : UInt64).toNat < 2 ^ 64 from hcap)]
        exact hbytes
    · rw [add_of_not_full hfull]
      exact h.inRange
  have hadded : Offsets (w.add pointerSizes x ok).2 _ := ⟨hrepresents, hinRange⟩
  refine ⟨hok, hadded, fun a ha => ?_⟩
  have hstores := hs.add (Nat.le_refl _) x.toNat ok
  rw [addAccesses] at ha
  split at ha
  · next hadd =>
    obtain rfl := List.mem_singleton.mp ha
    have hadd' : (b.add (voidPtrSizes sizeofPointer) x.toNat ok).1 = true := hok.symm.trans hadd
    rw [if_pos hadd'] at hstores
    obtain ⟨hsize', hle, hblock⟩ := hadded.size_le hstores
    rw [List.length_append, List.length_singleton] at hsize'
    change w.size.toNat + 1 ≤ (w.add pointerSizes x ok).2.block.length
    omega
  · exact (List.not_mem_nil ha).elim

/-- The pointer on top. -/
theorem Offsets.getLast?_slots (h : Offsets w b) (hpos : 0 < w.size.toNat) :
    b.slots.getLast? = some (w.last.map UInt64.toNat) := by
  rw [h.represents.slots, List.getLast?_map, WordBag.getLast?_slots hpos]
  rfl

/-- **Removing the last pointer** agrees. -/
theorem Offsets.removeLast (h : Offsets w b) (hs : Bag.Stores (voidPtrSizes sizeofPointer) b l)
    (hpos : 0 < l.length) (ok : Bool) :
    Offsets (w.removeNth pointerSizes (w.size - 1) ok)
        (b.removeNth (voidPtrSizes sizeofPointer) (b.size - 1) ok) ∧
      ∀ a ∈ w.removeLastAccesses, a.InBounds := by
  obtain ⟨hsize, hle, hblock⟩ := h.size_le hs
  have hsub := toNat_sub_one (a := w.size) (by omega)
  constructor
  · have hlast : w.size - 1 < w.size := by
      rw [UInt64.lt_iff_toNat_lt]
      omega
    have hrange : InRange pointerSizes w (.removeNth (w.size - 1) ok) := h.inRange
    have hremoved := h.represents.removeNth hlast hrange
    rw [hsub, ← h.represents.size] at hremoved
    exact ⟨hremoved, lt_of_le_of_lt (Nat.mul_le_mul_right _ (capacity_removeNth_le ..)) h.inRange⟩
  · intro a ha
    have heq : a = ⟨(w.size - 1).toNat, 1, w.block.length⟩ := by
      rw [removeLastAccesses] at ha
      split at ha
      · simpa using ha
      · exact List.mem_singleton.mp ha
    rw [heq]
    change (w.size - 1).toNat + 1 ≤ w.block.length
    omega

end WordBag

/-! ### The stack -/

/-- `HT_Stack`, with the blocks it points to. -/
structure SizeTStack where
  sizesStack : WordBag UInt64
  data : List UInt8
  size : UInt64
  minCapacity : UInt64
  capacity : UInt64

namespace SizeTStack

/-- `ht_stack_init`, if there is memory for it. -/
def init (capacity nCapacity : UInt64) : SizeTStack where
  sizesStack := WordBag.init pointerSizes nCapacity
  data := List.replicate capacity.toNat 0
  size := 0
  minCapacity := capacity
  capacity := capacity

/-- `_ht_stack_resize`; `ok` is the answer of the allocator. -/
def resize (st : SizeTStack) (newCapacity : UInt64) (ok : Bool) : Bool × SizeTStack :=
  if ok then
    (true, { st with
      data := st.data.take newCapacity.toNat ++
        List.replicate (newCapacity.toNat - st.data.length) 0
      capacity := newCapacity })
  else (false, st)

/-- The loop of `ht_stack_push` that looks for a factor; `none` if it goes on. -/
def growFactor (capacity size n : UInt64) : ℕ → UInt64 → Option UInt64
  | 0, _ => none
  | rounds + 1, factor =>
    if capacity * factor - size < n then growFactor capacity size n rounds (factor * 2)
    else some factor

/-- The block of `ht_stack_push` that makes room for an object. -/
def makeRoom (st : SizeTStack) (n : UInt64) (ok : Bool) : Option (Bool × SizeTStack) :=
  if st.capacity - st.size < n then
    (growFactor st.capacity st.size n 64 2).map fun factor => st.resize (st.capacity * factor) ok
  else some (true, st)

/-- `ht_stack_push`, with whether it succeeds; `none` if the loop does not end. -/
def push (st : SizeTStack) (object : List UInt8) (okData okSizes : Bool) :
    Option (Bool × SizeTStack) :=
  match st.makeRoom (UInt64.ofNat object.length) okData with
  | none => none
  | some (false, st) => some (false, st)
  | some (true, st) =>
    match st.sizesStack.add pointerSizes st.size okSizes with
    | (false, sizes) => some (false, { st with sizesStack := sizes })
    | (true, sizes) => some (true, { st with
        sizesStack := sizes
        data := blit st.data st.size.toNat object
        size := st.size + UInt64.ofNat object.length })

/-- What `ht_stack_push` accesses: the slot of the offset, and the bytes of the object. -/
def pushAccesses (st : SizeTStack) (object : List UInt8) (okData okSizes : Bool) : List Access :=
  match st.makeRoom (UInt64.ofNat object.length) okData with
  | some (true, st) =>
    st.sizesStack.addAccesses st.size okSizes ++
      if (st.sizesStack.add pointerSizes st.size okSizes).1 then
        [⟨st.size.toNat, object.length, st.data.length⟩]
      else []
  | _ => []

/-- The offset of the object on top, which is found in the last slot. -/
def topOffset (st : SizeTStack) : UInt64 := st.sizesStack.last.getD 0

/-- `ht_stack_pop`. -/
def pop (st : SizeTStack) (okData okSizes : Bool) : SizeTStack :=
  let st := { st with
    size := st.topOffset
    sizesStack := st.sizesStack.removeNth pointerSizes (st.sizesStack.size - 1) okSizes }
  if st.capacity > st.minCapacity ∧ st.size < st.capacity / 4 then
    (st.resize (st.capacity / 2) okData).2
  else st

/-- What `ht_stack_pop` accesses. -/
def popAccesses (st : SizeTStack) : List Access := st.sizesStack.removeLastAccesses

/-- **The stack is the one that counts in natural numbers.** -/
structure Represents (w : SizeTStack) (st : Stack) : Prop where
  sizesStack : w.sizesStack.Offsets st.sizesStack
  data : st.data = w.data
  size : st.size = w.size.toNat
  minCapacity : st.minCapacity = w.minCapacity.toNat
  capacity : st.capacity = w.capacity.toNat

theorem represents_init {capacity nCapacity : UInt64} (h : nCapacity.toNat * 8 < 2 ^ 64) :
    (init capacity nCapacity).Represents (Stack.init capacity.toNat nCapacity.toNat) :=
  ⟨WordBag.offsets_init h, rfl, rfl, rfl, rfl⟩

variable {w : SizeTStack} {st : Stack} {object : List UInt8} {objects : List (List UInt8)}

/-- **The loop ends**, and with the factor that natural numbers give: as long as it goes on, the
capacity it has tried is below half the range. -/
theorem growFactor_eq {capacity size n factor : UInt64} {rounds fuel : ℕ}
    (hcap : 0 < capacity.toNat) (hpos : 0 < factor.toNat)
    (hsize : size.toNat ≤ capacity.toNat * factor.toNat)
    (htotal : size.toNat + n.toNat < 2 ^ 63) (hrange : capacity.toNat * factor.toNat < 2 ^ 64)
    (hrounds : 2 ^ 64 ≤ factor.toNat * 2 ^ rounds)
    (hfuel : size.toNat + n.toNat ≤ capacity.toNat * factor.toNat * 2 ^ fuel) :
    ∃ f, growFactor capacity size n rounds factor = some f ∧
      f.toNat = Stack.growFactor capacity.toNat size.toNat n.toNat fuel factor.toNat ∧
      capacity.toNat * f.toNat < 2 ^ 64 := by
  induction rounds generalizing factor fuel with
  | zero =>
    have hlt := factor.toNat_lt
    rw [Nat.pow_zero, Nat.mul_one] at hrounds
    omega
  | succ rounds ih =>
    have hmul := toNat_mul_of_lt hrange
    have hcheck : capacity * factor - size < n ↔
        capacity.toNat * factor.toNat - size.toNat < n.toNat := by
      rw [sub_lt_iff (hmul.symm ▸ hsize), hmul]
    have hle : factor.toNat ≤ capacity.toNat * factor.toNat := Nat.le_mul_of_pos_left _ hcap
    rw [growFactor]
    split
    · next hshort =>
      have hshort := hcheck.mp hshort
      have hdouble : (factor * 2).toNat = factor.toNat * 2 :=
        toNat_mul_of_lt (show factor.toNat * 2 < 2 ^ 64 by omega)
      have hassoc : capacity.toNat * (factor.toNat * 2) = capacity.toNat * factor.toNat * 2 :=
        (Nat.mul_assoc ..).symm
      cases fuel with
      | zero =>
        rw [Nat.pow_zero, Nat.mul_one] at hfuel
        omega
      | succ fuel =>
        rw [Stack.growFactor, if_pos hshort, ← hdouble]
        refine ih ?_ ?_ ?_ ?_ ?_
        · omega
        · rw [hdouble, hassoc]
          omega
        · rw [hdouble, hassoc]
          omega
        · rwa [hdouble, Nat.mul_assoc, ← Nat.pow_succ']
        · rwa [hdouble, hassoc, Nat.mul_assoc _ 2, ← Nat.pow_succ']
    · next hshort =>
      have hshort := fun h => hshort (hcheck.mpr h)
      refine ⟨factor, rfl, ?_, hrange⟩
      cases fuel with
      | zero => rfl
      | succ fuel => rw [Stack.growFactor, if_neg hshort]

section

variable (h : w.Represents st)

include h

theorem Represents.resize (newCapacity : UInt64) (ok : Bool) :
    (w.resize newCapacity ok).1 = (st.resize newCapacity.toNat ok).1 ∧
      (w.resize newCapacity ok).2.Represents (st.resize newCapacity.toNat ok).2 := by
  cases ok with
  | false => exact ⟨rfl, h⟩
  | true =>
    refine ⟨rfl, h.sizesStack, ?_, h.size, h.minCapacity, rfl⟩
    change st.data.take _ ++ List.replicate (_ - st.data.length) 0 = _
    rw [h.data]
    rfl

/-- **Making room** agrees, below half the range. -/
theorem Represents.makeRoom (hst : st.Holds objects) {n : UInt64}
    (htotal : st.size + n.toNat < 2 ^ 63) (ok : Bool) :
    ∃ r, w.makeRoom n ok = some r ∧ r.1 = (st.makeRoom n.toNat ok).1 ∧
      r.2.Represents (st.makeRoom n.toNat ok).2 := by
  have hle : w.size.toNat ≤ w.capacity.toNat := h.size ▸ h.capacity ▸ hst.size_le
  have hcap : 0 < w.capacity.toNat := h.capacity ▸ hst.capacity_pos
  have hcheck : w.capacity - w.size < n ↔ st.capacity - st.size < n.toNat := by
    rw [sub_lt_iff hle, h.capacity, h.size]
  rw [SizeTStack.makeRoom, Stack.makeRoom]
  by_cases hshort : st.capacity - st.size < n.toNat
  · rw [if_pos (hcheck.mpr hshort), if_pos hshort]
    rw [h.size] at htotal
    have hpow : w.size.toNat + n.toNat < 2 ^ (w.size.toNat + n.toNat) := Nat.lt_two_pow_self
    have htwo : (2 : UInt64).toNat = 2 := rfl
    rw [h.capacity, h.size] at hshort ⊢
    have hfuel : w.size.toNat + n.toNat ≤
        w.capacity.toNat * (2 : UInt64).toNat * 2 ^ (w.size.toNat + n.toNat) :=
      calc w.size.toNat + n.toNat ≤ 1 * 2 ^ (w.size.toNat + n.toNat) := by omega
        _ ≤ w.capacity.toNat * 2 * 2 ^ (w.size.toNat + n.toNat) := Nat.mul_le_mul_right _ (by omega)
    obtain ⟨f, hf, hfactor, hrange⟩ := @growFactor_eq w.capacity w.size n 2 64
      (w.size.toNat + n.toNat) hcap (by decide) (by rw [htwo]; omega) htotal
      (by rw [htwo]; omega) (by decide) hfuel
    have hmul := toNat_mul_of_lt hrange
    refine ⟨w.resize (w.capacity * f) ok, by rw [hf]; rfl, ?_⟩
    have hresized := h.resize (w.capacity * f) ok
    rwa [hmul, hfactor, htwo] at hresized
  · rw [if_neg fun hw => hshort (hcheck.mp hw), if_neg hshort]
    exact ⟨(true, w), rfl, rfl, h⟩

/-- The object is copied behind the others, and its offset has been added. -/
theorem Represents.copy (hst : st.Holds objects)
    (htotal : (Stack.stacked objects).length + object.length < 2 ^ 63)
    (hroom : st.size + object.length ≤ st.capacity) {sizes : Bag ℕ} {sizes' : WordBag UInt64}
    (hsizes : sizes'.Offsets sizes) :
    Represents
        { w with
          sizesStack := sizes'
          data := blit w.data w.size.toNat object
          size := w.size + UInt64.ofNat object.length }
        { st with
          sizesStack := sizes
          data := blit st.data st.size object
          size := st.size + object.length } ∧
      (⟨w.size.toNat, object.length, w.data.length⟩ : Access).InBounds := by
  have hlength : (UInt64.ofNat object.length).toNat = object.length :=
    UInt64.toNat_ofNat_of_lt' (show object.length < 2 ^ 64 by omega)
  have hsize := hst.size
  rw [h.size] at hsize
  have hsum : (w.size + UInt64.ofNat object.length).toNat = w.size.toNat + object.length := by
    rw [toNat_add_of_lt (by rw [hlength]; omega), hlength]
  refine ⟨⟨hsizes, ?_, ?_, h.minCapacity, h.capacity⟩, ?_⟩
  · simp only [h.data, h.size]
  · simp only [hsum, h.size]
  · change w.size.toNat + object.length ≤ w.data.length
    rw [← h.size, ← h.data, hst.length_data]
    exact hroom

/-- **A push** agrees and stays in its blocks, below half the range. -/
theorem Represents.push (hst : st.Holds objects) {object : List UInt8}
    (htotal : (Stack.stacked objects).length + object.length < 2 ^ 63)
    (hcount : (objects.length + 1) * 8 < 2 ^ 63) (okData okSizes : Bool) :
    ∃ r, w.push object okData okSizes = some r ∧ r.1 = (st.push object okData okSizes).1 ∧
      r.2.Represents (st.push object okData okSizes).2 ∧
      ∀ a ∈ w.pushAccesses object okData okSizes, a.InBounds := by
  have hlength : (UInt64.ofNat object.length).toNat = object.length :=
    UInt64.toNat_ofNat_of_lt' (show object.length < 2 ^ 64 by omega)
  obtain ⟨⟨ok, w'⟩, hw', hok, h'⟩ := h.makeRoom hst
    (show st.size + (UInt64.ofNat object.length).toNat < 2 ^ 63 by rw [hlength, hst.size]; omega)
    okData
  obtain ⟨hst', hroom⟩ := hst.makeRoom object.length okData
  rw [hlength] at hok h'
  rw [SizeTStack.push, pushAccesses, hw']
  rcases hmade : st.makeRoom object.length okData with ⟨ok', st'⟩
  rw [hmade] at hok h' hst' hroom
  simp only at hok h' hst' hroom
  subst hok
  cases ok with
  | false =>
    rw [Stack.push_of_refused hmade]
    exact ⟨_, rfl, rfl, h', fun _ ha => (List.not_mem_nil ha).elim⟩
  | true =>
    have hroom := hroom rfl
    have hoffsets : ((Stack.offsets objects).length + 1) * 8 < 2 ^ 63 := by
      rwa [Stack.length_offsets]
    obtain ⟨hadded, hsizes, haccess⟩ := h'.sizesStack.add hst'.sizes hoffsets w'.size okSizes
    rw [← h'.size] at hadded hsizes
    rcases hadd : st'.sizesStack.add (voidPtrSizes sizeofPointer) st'.size okSizes with
      ⟨okAdd, sizes⟩
    rcases hadd' : w'.sizesStack.add pointerSizes w'.size okSizes with ⟨okAdd', sizes'⟩
    rw [hadd, hadd'] at hadded hsizes
    simp only at hadded hsizes
    subst hadded
    simp only [hadd']
    cases okAdd' with
    | false =>
      rw [Stack.push_of_sizes_refused hmade hadd]
      refine ⟨_, rfl, rfl, ⟨hsizes, h'.data, h'.size, h'.minCapacity, h'.capacity⟩, ?_⟩
      simpa using haccess
    | true =>
      rw [Stack.push_of_added hmade hadd]
      rw [hst.size, ← hst'.size] at hroom
      obtain ⟨hcopied, hinside⟩ := h'.copy hst' htotal hroom hsizes
      refine ⟨_, rfl, rfl, hcopied, List.forall_mem_append.mpr ⟨haccess, fun a ha => ?_⟩⟩
      exact List.mem_singleton.mp ha ▸ hinside

/-- `ht_stack_top` agrees. -/
theorem Represents.topOffset (hst : st.Holds (object :: objects)) :
    w.sizesStack.last = some w.topOffset ∧ st.topOffset = w.topOffset.toNat := by
  have hpos : 0 < w.sizesStack.size.toNat := by
    rw [(h.sizesStack.size_le hst.sizes).1, Stack.length_offsets]
    exact Nat.succ_pos _
  have hlast := h.sizesStack.getLast?_slots hpos
  rcases hread : w.sizesStack.last with _ | x
  · -- every slot of a bag that stores the offsets has been written
    rw [hread, hst.sizes.sound.slots, List.getLast?_map] at hlast
    rcases hnone : (Stack.offsets (object :: objects)).getLast? with _ | y
    · rw [hnone] at hlast
      cases hlast
    · rw [hnone] at hlast
      cases hlast
  · rw [hread] at hlast
    rw [Stack.topOffset, hlast, SizeTStack.topOffset, hread]
    exact ⟨rfl, rfl⟩

/-- **A pop** agrees and stays in its blocks. -/
theorem Represents.pop (hst : st.Holds (object :: objects)) (okData okSizes : Bool) :
    (w.pop okData okSizes).Represents (st.pop okData okSizes) ∧
      ∀ a ∈ w.popAccesses, a.InBounds := by
  have hpos : 0 < (Stack.offsets (object :: objects)).length := by
    rw [Stack.length_offsets]
    exact Nat.succ_pos _
  obtain ⟨hremoved, haccess⟩ := h.sizesStack.removeLast hst.sizes hpos okSizes
  refine ⟨?_, haccess⟩
  have htop := (h.topOffset hst).2
  have hpopped : Represents
      { w with
        size := w.topOffset
        sizesStack := w.sizesStack.removeNth pointerSizes (w.sizesStack.size - 1) okSizes }
      { st with
        size := st.topOffset
        sizesStack := st.sizesStack.removeNth (voidPtrSizes sizeofPointer)
          (st.sizesStack.size - 1) okSizes } :=
    ⟨hremoved, h.data, htop, h.minCapacity, h.capacity⟩
  have hhalf : (w.capacity / 2).toNat = st.capacity / 2 := by
    rw [UInt64.toNat_div, h.capacity]
    rfl
  have hcheck := shrinks_iff w.capacity w.minCapacity w.topOffset
  rw [← h.capacity, ← h.minCapacity, ← htop] at hcheck
  rw [SizeTStack.pop, Stack.pop]
  by_cases hshrink : st.capacity > st.minCapacity ∧ st.topOffset < st.capacity / 4
  · rw [if_pos (hcheck.mpr hshrink), if_pos hshrink]
    have hresized := (hpopped.resize (w.capacity / 2) okData).2
    rwa [hhalf] at hresized
  · rw [if_neg fun hw => hshrink (hcheck.mp hw), if_neg hshrink]
    exact hpopped

end

end SizeTStack

/-! ### The capacity -/

namespace Stack

/-- **The capacity is the smallest one, doubled some number of times.** -/
def Doubled (st : Stack) : Prop := ∃ k, st.capacity = st.minCapacity * 2 ^ k

variable {st : Stack}

theorem Doubled.minCapacity_le (h : st.Doubled) : st.minCapacity ≤ st.capacity := by
  obtain ⟨k, hk⟩ := h
  exact hk ▸ Nat.le_mul_of_pos_right _ (Nat.two_pow_pos k)

theorem growFactor_eq_mul_pow (capacity size n fuel factor : ℕ) :
    ∃ k, growFactor capacity size n fuel factor = factor * 2 ^ k := by
  induction fuel generalizing factor with
  | zero => exact ⟨0, (Nat.mul_one _).symm⟩
  | succ fuel ih =>
    rw [growFactor]
    split
    · obtain ⟨k, hk⟩ := ih (factor * 2)
      exact ⟨k + 1, by rw [hk, Nat.mul_assoc, ← Nat.pow_succ']⟩
    · exact ⟨0, (Nat.mul_one _).symm⟩

/-- A reallocation to such a capacity. -/
theorem Doubled.resize (h : st.Doubled) {newCapacity k : ℕ}
    (hnew : newCapacity = st.minCapacity * 2 ^ k) (ok : Bool) :
    (st.resize newCapacity ok).2.Doubled := by
  cases ok with
  | false => exact h
  | true => exact ⟨k, hnew⟩

theorem Doubled.makeRoom (h : st.Doubled) (n : ℕ) (ok : Bool) : (st.makeRoom n ok).2.Doubled := by
  obtain ⟨k, hk⟩ := h
  rw [Stack.makeRoom]
  split
  · obtain ⟨j, hj⟩ := growFactor_eq_mul_pow st.capacity st.size n (st.size + n) 2
    refine Doubled.resize ⟨k, hk⟩ (k := k + (j + 1)) ?_ ok
    rw [hj, hk, Nat.pow_add, Nat.pow_succ', Nat.mul_assoc]
  · exact ⟨k, hk⟩

theorem minCapacity_makeRoom (st : Stack) (n : ℕ) (ok : Bool) :
    (st.makeRoom n ok).2.minCapacity = st.minCapacity := by
  rw [Stack.makeRoom]
  split
  · cases ok <;> rfl
  · rfl

/-- What a push leaves alone. -/
theorem push_capacities (st : Stack) (object : List UInt8) (okData okSizes : Bool) :
    (st.push object okData okSizes).2.capacity = (st.makeRoom object.length okData).2.capacity ∧
      (st.push object okData okSizes).2.minCapacity = st.minCapacity := by
  rw [← minCapacity_makeRoom st object.length okData]
  rcases hmade : st.makeRoom object.length okData with ⟨_ | _, st'⟩
  · rw [push_of_refused hmade]
    exact ⟨rfl, rfl⟩
  · rcases hadd : st'.sizesStack.add (voidPtrSizes sizeofPointer) st'.size okSizes with
      ⟨_ | _, sizes⟩
    · rw [push_of_sizes_refused hmade hadd]
      exact ⟨rfl, rfl⟩
    · rw [push_of_added hmade hadd]
      exact ⟨rfl, rfl⟩

theorem Doubled.push (h : st.Doubled) (object : List UInt8) (okData okSizes : Bool) :
    (st.push object okData okSizes).2.Doubled := by
  obtain ⟨hcap, hmin⟩ := push_capacities st object okData okSizes
  obtain ⟨k, hk⟩ := h.makeRoom object.length okData
  exact ⟨k, by rw [hcap, hmin, hk, minCapacity_makeRoom]⟩

theorem minCapacity_pop (st : Stack) (okData okSizes : Bool) :
    (st.pop okData okSizes).minCapacity = st.minCapacity := by
  rw [Stack.pop]
  split
  · cases okData <;> rfl
  · rfl

/-- The stack shrinks only if it has grown, so to a capacity it has had. -/
theorem Doubled.pop (h : st.Doubled) (okData okSizes : Bool) : (st.pop okData okSizes).Doubled := by
  obtain ⟨k, hk⟩ := h
  rw [Stack.pop]
  split
  · next hshrink =>
    have hgrown : st.capacity > st.minCapacity := hshrink.1
    cases k with
    | zero =>
      rw [Nat.pow_zero, Nat.mul_one] at hk
      omega
    | succ k =>
      have hpopped : Doubled { st with
          size := st.topOffset
          sizesStack := st.sizesStack.removeNth (voidPtrSizes sizeofPointer)
            (st.sizesStack.size - 1) okSizes } := ⟨k + 1, hk⟩
      refine hpopped.resize (k := k) ?_ okData
      change st.capacity / 2 = st.minCapacity * 2 ^ k
      rw [hk, Nat.pow_succ, ← Nat.mul_assoc, Nat.mul_div_cancel _ Nat.two_pos]
  · exact ⟨k, hk⟩

end Stack

/-! ### Runs -/

/-- A call of one of the functions, and the answers of the allocator should it be asked. -/
inductive StackOp where
  | push (object : List UInt8) (okData okSizes : Bool)
  | pop (okData okSizes : Bool)

/-- A run of calls on one stack. -/
structure StackTrace where
  stack : SizeTStack
  /-- The blocks pushed and not yet popped, the last one first. -/
  blocks : List (List UInt8)
  accesses : List Access
  /-- All loops have ended. -/
  ended : Bool

namespace StackTrace

/-- One call. -/
def step (t : StackTrace) : StackOp → StackTrace
  | .push object okData okSizes =>
    match t.stack.push object okData okSizes with
    | none => { t with ended := false }
    | some (ok, stack) =>
      { t with
        stack := stack
        blocks := if ok then object :: t.blocks else t.blocks
        accesses := t.accesses ++ t.stack.pushAccesses object okData okSizes }
  | .pop okData okSizes =>
    { t with
      stack := t.stack.pop okData okSizes
      blocks := t.blocks.tail
      accesses := t.accesses ++ t.stack.popAccesses }

/-- An initialised stack. -/
def start (capacity nCapacity : UInt64) : StackTrace :=
  ⟨SizeTStack.init capacity nCapacity, [], [], true⟩

/-- **What the callers keep to**: the blocks and their offsets stay below half the address range,
and nothing is popped from an empty stack. -/
def Allowed (t : StackTrace) : StackOp → Prop
  | .push object _ _ =>
    (Stack.stacked t.blocks).length + object.length < 2 ^ 63 ∧ (t.blocks.length + 1) * 8 < 2 ^ 63
  | .pop _ _ => t.blocks ≠ []

/-- **The stack is a stack of blocks.** -/
structure IsStack (initial : UInt64) (t : StackTrace) : Prop where
  content : t.stack.data.take t.stack.size.toNat = Stack.stacked t.blocks
  size : t.stack.size.toNat = (Stack.stacked t.blocks).length
  /-- `ht_stack_top`. -/
  top : ∀ object rest, t.blocks = object :: rest →
    t.stack.sizesStack.last = some t.stack.topOffset ∧
      t.stack.topOffset.toNat = (Stack.stacked rest).length ∧
      slice t.stack.data t.stack.topOffset.toNat object.length = object
  size_le : t.stack.size ≤ t.stack.capacity
  length_data : t.stack.data.length = t.stack.capacity.toNat
  minCapacity : t.stack.minCapacity = initial
  minCapacity_le : t.stack.minCapacity ≤ t.stack.capacity
  inBounds : ∀ a ∈ t.accesses, a.InBounds
  ended : t.ended = true

/-- The invariant: behind the stack is one that counts in natural numbers. -/
structure Sound (initial : UInt64) (t : StackTrace) (st : Stack) : Prop where
  represents : t.stack.Represents st
  holds : st.Holds t.blocks
  doubled : st.Doubled
  minCapacity : st.minCapacity = initial.toNat
  inBounds : ∀ a ∈ t.accesses, a.InBounds
  ended : t.ended = true

variable {initial : UInt64} {t : StackTrace} {st : Stack}

theorem sound_start {capacity nCapacity : UInt64} (hcap : 0 < capacity) (hn : 0 < nCapacity)
    (hrange : nCapacity.toNat * 8 < 2 ^ 64) :
    (start capacity nCapacity).Sound capacity (Stack.init capacity.toNat nCapacity.toNat) where
  represents := SizeTStack.represents_init hrange
  holds := Stack.holds_init hcap hn
  doubled := ⟨0, (Nat.mul_one _).symm⟩
  minCapacity := rfl
  inBounds _ ha := (List.not_mem_nil ha).elim
  ended := rfl

/-- **A call keeps the invariant.** -/
theorem Sound.step (h : t.Sound initial st) {o : StackOp} (ho : t.Allowed o) :
    ∃ st', (t.step o).Sound initial st' := by
  cases o with
  | push object okData okSizes =>
    obtain ⟨r, hr, hok, hrepresents, haccesses⟩ :=
      h.represents.push h.holds ho.1 ho.2 okData okSizes
    have hholds := h.holds.push_of_answers object okData okSizes
    have hmin := (Stack.push_capacities st object okData okSizes).2
    rw [← hok] at hholds
    rw [StackTrace.step, hr]
    exact ⟨_, hrepresents, hholds, h.doubled.push object okData okSizes,
      hmin.trans h.minCapacity, List.forall_mem_append.mpr ⟨h.inBounds, haccesses⟩, h.ended⟩
  | pop okData okSizes =>
    obtain ⟨object, rest, hblocks⟩ := List.exists_cons_of_ne_nil ho
    have hholds := h.holds
    rw [hblocks] at hholds
    obtain ⟨hrepresents, haccesses⟩ := h.represents.pop hholds okData okSizes
    have hpopped := hholds.pop okData okSizes
    refine ⟨_, hrepresents, ?_, h.doubled.pop okData okSizes,
      (Stack.minCapacity_pop st okData okSizes).trans h.minCapacity,
      List.forall_mem_append.mpr ⟨h.inBounds, haccesses⟩, h.ended⟩
    change Stack.Holds _ t.blocks.tail
    rw [hblocks]
    exact hpopped

/-- **The invariant says that the stack is one.** -/
theorem Sound.isStack (h : t.Sound initial st) : t.IsStack initial where
  content := by
    have hcontent := h.holds.content
    rwa [h.represents.data, h.represents.size] at hcontent
  size := h.represents.size.symm.trans h.holds.size
  top object rest hblocks := by
    have hholds := h.holds
    rw [hblocks] at hholds
    obtain ⟨hread, htop⟩ := h.represents.topOffset hholds
    rw [← htop, ← h.represents.data]
    exact ⟨hread, hholds.topOffset, hholds.slice_topOffset⟩
  size_le := by
    rw [UInt64.le_iff_toNat_le, ← h.represents.size, ← h.represents.capacity]
    exact h.holds.size_le
  length_data := by
    rw [← h.represents.data, h.holds.length_data, h.represents.capacity]
  minCapacity := UInt64.toNat_inj.mp (h.represents.minCapacity.symm.trans h.minCapacity)
  minCapacity_le := by
    rw [UInt64.le_iff_toNat_le, ← h.represents.minCapacity, ← h.represents.capacity]
    exact h.doubled.minCapacity_le
  inBounds := h.inBounds
  ended := h.ended

/-- **The byte stack is a stack of blocks**, in every state of every run and whatever the
allocator answers, if the bytes for the first offsets are in the range of `size_t`. -/
theorem isStack_throughout {capacity nCapacity : UInt64} (hcap : 0 < capacity)
    (hn : 0 < nCapacity) (hrange : nCapacity.toNat * 8 < 2 ^ 64) {os : List StackOp}
    (hos : StepsMeet step Allowed (start capacity nCapacity) os) :
    Throughout step (IsStack capacity) (start capacity nCapacity) os := by
  have hsound : Throughout step (fun t => ∃ st, t.Sound capacity st) (start capacity nCapacity)
      os := by
    refine throughout_of_step (fun t o ⟨st, h⟩ ho => h.step ho) ?_ hos
    exact ⟨_, sound_start hcap hn hrange⟩
  exact hsound.mono fun t ⟨st, h⟩ => h.isStack

/-- The theorem applies: the second push is refused for the offsets after the bytes have grown, the
third for the bytes, and the fourth succeeds. -/
theorem isStack_of_refused_push :
    Throughout step (IsStack 1) (start 1 1)
      [.push [1] true true, .push [2, 3] true false, .push [4, 5, 6, 7] false true,
        .push [4, 5] true true, .pop true true, .pop true false] :=
  isStack_throughout (by decide) (by decide) (by decide) (by simp only [StepsMeet, Allowed]; decide)

/-- **Room for one offset in place of many**: `2305843009213693953 * sizeof(void*)` is eight,
modulo `2 ^ 64`. The second offset, of two blocks without a byte, is written outside. -/
theorem offset_out_of_bounds :
    StepsMeet step Allowed (start 1 2305843009213693953) [.push [] true true, .push [] true true] ∧
      ¬ Throughout step (IsStack 1) (start 1 2305843009213693953)
        [.push [] true true, .push [] true true] := by
  refine ⟨by simp only [StepsMeet, Allowed]; decide, fun h => ?_⟩
  have hbounds := h.last.inBounds
  revert hbounds
  decide

end StackTrace

end HawkTracer.Lib
