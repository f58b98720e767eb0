import HawkTracer.Lib.BagRuns

/-!
# The storage of a bag, and the container of timeline listeners

The two places of the bag template that ask the allocator for memory compute the number of bytes
differently: the constructor multiplies by the size of an element, `resize_` by the size of a
pointer, and both products are computed in `size_t`. A bag is sound
(`HawkTracer.Lib.WordBag.Sound`) if the block is as large as its capacity says, the content does
not exceed the capacity, and the slots hold what the callers believe to have stored. A step keeps
that exactly if the reallocation it makes asks for enough
(`HawkTracer.Lib.WordBag.sound_step_iff`), and so does a run.

The container of timeline listeners is a bag whose elements have three pointers, so that no
reallocation asks for enough. Its entries are looked up at every notification
(`HawkTracer.Lib.ListenerContainer.callAll`). As long as the block of the first sixteen entries
stays in place each listener is called once, in the order of registration
(`HawkTracer.Lib.ListenerContainer.Intact.callAll`).
-/

namespace HawkTracer.Lib

open SizeT

namespace WordBag

variable {α : Type} (S : WordSizes)

/-- The capacity to which an operation reallocates, if it does so. -/
def target (b : WordBag α) : Op α → Option UInt64
  | .add _ ok => if b.capacity = b.size ∧ ok then some (b.capacity * 2) else none
  | .removeNth _ ok =>
    if b.capacity > b.minCapacity ∧ b.size - 1 < b.capacity / 4 ∧ ok then some (b.capacity / 2)
    else none
  | .clear ok => if ok then some b.minCapacity else none

/-- **A reallocation asks for enough**: the elements are no larger than a pointer, and what the
number of bytes loses to the range of `size_t` is no more than what it has in excess. -/
def Enough (c : UInt64) : Prop :=
  (S.element ≤ S.pointer ∨ c = 0) ∧
    c.toNat * S.pointer.toNat / 2 ^ 64 * 2 ^ 64 ≤ c.toNat * (S.pointer.toNat - S.element.toNat)

/-- **The reallocation of an operation, if there is one, leaves enough room**, and the capacity
of a bag that has to grow grows. -/
def GrowsEnough (b : WordBag α) (o : Op α) : Prop :=
  ∀ c, b.target o = some c → Enough S c ∧ ∀ x ok, o = .add x ok → b.capacity < c

/-- **A sound bag.** -/
structure Sound (s : WordBag α × List α) : Prop where
  bytes : s.1.capacity.toNat * S.element.toNat ≤ s.1.bytes.toNat
  size : s.1.size ≤ s.1.capacity
  slots : s.1.slots = s.2.map some

/-- The block has the bytes that were asked for. -/
def Allocated (b : WordBag α) : Prop := b.block.length = roomIn S b.bytes

variable {S} {b : WordBag α} {l : List α}

/-- **Enough is asked for exactly if the block is as large as the capacity says.** -/
theorem enough_iff {c : UInt64} :
    Enough S c ↔ c.toNat * S.element.toNat ≤ (c * S.pointer).toNat := by
  have hsplit := Nat.div_add_mod (c.toNat * S.pointer.toNat) (2 ^ 64)
  rw [Nat.mul_comm] at hsplit
  rw [Enough, UInt64.toNat_mul, Nat.mul_sub, UInt64.le_iff_toNat_le]
  have hzero : c = 0 ↔ c.toNat = 0 := UInt64.toNat_inj.symm
  rcases Nat.eq_zero_or_pos c.toNat with h0 | hpos
  · simp [hzero, h0]
  · have hle : S.element.toNat ≤ S.pointer.toNat ↔
        c.toNat * S.element.toNat ≤ c.toNat * S.pointer.toNat :=
      (Nat.mul_le_mul_left_iff hpos).symm
    rw [hzero, hle]
    omega

theorem Allocated.le_length (h : Allocated S b)
    (hbytes : b.capacity.toNat * S.element.toNat ≤ b.bytes.toNat) :
    b.capacity.toNat ≤ b.block.length := by
  rw [h, roomIn, Nat.le_div_iff_mul_le S.element_pos]
  exact hbytes

theorem allocated_resize (h : Allocated S b) (c : UInt64) (ok : Bool) :
    Allocated S (b.resize S c ok).2 := by
  cases ok with
  | false => exact h
  | true => exact length_resize c

theorem allocated_put (h : Allocated S b) (x : α) : Allocated S (b.put x) :=
  (List.length_set ..).trans h

theorem bytes_moveLast (b : WordBag α) (n : UInt64) : (b.moveLast n).bytes = b.bytes := by
  rw [moveLast]
  split <;> rfl

/-- **The block always has the bytes that were asked for.** -/
theorem allocated_step {s : WordBag α × List α} (h : Allocated S s.1) (o : Op α) :
    Allocated S (step S s o).1 := by
  rcases o with ⟨x, ok⟩ | ⟨n, ok⟩ | ok
  · change Allocated S (s.1.add S x ok).2
    by_cases hfull : s.1.capacity = s.1.size
    · cases ok with
      | false => rwa [add_of_refused hfull]
      | true =>
        rw [add_of_full hfull]
        exact allocated_put (allocated_resize h _ true) x
    · rw [add_of_not_full hfull]
      exact allocated_put h x
  · have hmoved : Allocated S (s.1.moveLast n) := by
      rw [Allocated, length_moveLast, bytes_moveLast]
      exact h
    change Allocated S (s.1.removeNth S n ok)
    rw [removeNth]
    split
    · exact allocated_resize hmoved _ ok
    · exact hmoved
  · exact allocated_resize h _ ok

/-! ### One operation -/

theorem growsEnough_of_none {o : Op α} (h : b.target o = none) : GrowsEnough S b o := by
  intro c hc
  rw [h] at hc
  cases hc

theorem growsEnough_iff_of_some {o : Op α} {c : UInt64} (h : b.target o = some c) :
    GrowsEnough S b o ↔ Enough S c ∧ ∀ x ok, o = .add x ok → b.capacity < c := by
  constructor
  · exact fun hgrows => hgrows c h
  · rintro hc c' hc'
    obtain rfl : c = c' := Option.some.inj (h.symm.trans hc')
    exact hc

/-- A bag is sound after a reallocation exactly if enough was asked for and the content still
fits. -/
theorem sound_resize_iff (h : Holds b l) {c : UInt64} :
    Sound S ((b.resize S c true).2, l) ↔ Enough S c ∧ b.size ≤ c := by
  rw [enough_iff]
  constructor
  · exact fun hs => ⟨hs.bytes, hs.size⟩
  · rintro ⟨hbytes, hle⟩
    refine ⟨hbytes, hle, slots_eq_iff.mpr (h.resize ?_)⟩
    rw [← h.size]
    refine (UInt64.le_iff_toNat_le.mp hle).trans ?_
    rwa [roomIn, Nat.le_div_iff_mul_le S.element_pos]

theorem sound_put_iff (ha : Allocated S b) (h : Holds b l)
    (hbytes : b.capacity.toNat * S.element.toNat ≤ b.bytes.toNat) {x : α} :
    Sound S (b.put x, l ++ [x]) ↔ b.size < b.capacity := by
  rw [UInt64.lt_iff_toNat_lt]
  constructor
  · intro hs
    have hnext := ((slots_eq_iff.mp hs.slots).of_put h.size).2
    have hle : (b.size + 1).toNat ≤ b.capacity.toNat := UInt64.le_iff_toNat_le.mp hs.size
    omega
  · intro hlt
    have hnext := toNat_size_add_one hlt
    refine ⟨hbytes, UInt64.le_iff_toNat_le.mpr (hnext.trans_le hlt), slots_eq_iff.mpr ?_⟩
    exact h.put (Nat.le_trans hlt (ha.le_length hbytes)) hnext x

theorem sound_add_iff (ha : Allocated S b) (hs : Sound S (b, l)) (x : α) (ok : Bool) :
    Sound S (step S (b, l) (.add x ok)) ↔ GrowsEnough S b (.add x ok) := by
  have h := slots_eq_iff.mp hs.slots
  by_cases hfull : b.capacity = b.size
  · cases ok with
    | false =>
      rw [step, add_of_refused hfull]
      refine iff_of_true hs (growsEnough_of_none ?_)
      rw [target, if_neg (by simp)]
    | true =>
      have htarget : b.target (.add x true) = some (b.capacity * 2) := by
        rw [target, if_pos ⟨hfull, rfl⟩]
      rw [step, add_of_full hfull, growsEnough_iff_of_some htarget]
      constructor
      · intro hs'
        have henough : Enough S (b.capacity * 2) := enough_iff.mpr hs'.bytes
        refine ⟨henough, fun _ _ _ => ?_⟩
        have hnext := ((slots_eq_iff.mp hs'.slots).of_put h.size).2
        have hle : (b.size + 1).toNat ≤ (b.capacity * 2).toNat := UInt64.le_iff_toNat_le.mp hs'.size
        change (b.size + 1).toNat = b.size.toNat + 1 at hnext
        rw [UInt64.lt_iff_toNat_lt, hfull]
        rw [hfull] at hle
        omega
      · rintro ⟨henough, hgrows⟩
        have hlt : b.capacity < b.capacity * 2 := hgrows x true rfl
        have hresized := (sound_resize_iff (S := S) h).mpr
          ⟨henough, UInt64.le_trans hs.size (UInt64.le_of_lt hlt)⟩
        refine (sound_put_iff (allocated_resize ha _ true) (slots_eq_iff.mp hresized.slots)
          hresized.bytes).mpr ?_
        exact UInt64.lt_of_le_of_lt hs.size hlt
  · rw [step, add_of_not_full hfull]
    refine iff_of_true ((sound_put_iff ha h hs.bytes).mpr ?_) (growsEnough_of_none ?_)
    · exact UInt64.lt_of_le_of_ne hs.size (Ne.symm hfull)
    · rw [target, if_neg fun hfull' => hfull hfull'.1]

theorem sound_removeNth_iff (hs : Sound S (b, l)) {n : UInt64} (hn : n < b.size) (ok : Bool) :
    Sound S (step S (b, l) (.removeNth n ok)) ↔ GrowsEnough S b (.removeNth n ok) := by
  have hmoved := (slots_eq_iff.mp hs.slots).moveLast hn
  obtain ⟨hcap, hmin⟩ := b.capacity_moveLast n
  have hkept : Sound S (b.moveLast n, Bag.swapRemove l n.toNat) := by
    refine ⟨?_, size_moveLast_le hn hs.size, slots_eq_iff.mpr hmoved⟩
    rw [hcap, bytes_moveLast]
    exact hs.bytes
  rw [step, removeNth]
  simp only [hcap, hmin, size_moveLast]
  split
  · next hshrink =>
    cases ok with
    | false =>
      refine iff_of_true hkept (growsEnough_of_none ?_)
      rw [target, if_neg (by simp)]
    | true =>
      have htarget : b.target (.removeNth n true) = some (b.capacity / 2) := by
        rw [target, if_pos ⟨hshrink.1, hshrink.2, rfl⟩]
      rw [growsEnough_iff_of_some htarget, sound_resize_iff hmoved]
      refine and_congr_right fun _ => iff_of_true ?_ (by rintro _ _ ⟨⟩)
      -- less than a quarter of the old capacity is less than half of it
      have hlt := ((shrinks_iff _ _ _).mp hshrink).2
      rw [size_moveLast, UInt64.le_iff_toNat_le, UInt64.toNat_div]
      change (b.size - 1).toNat ≤ b.capacity.toNat / 2
      omega
  · next hshrink =>
    refine iff_of_true hkept (growsEnough_of_none ?_)
    rw [target, if_neg fun h => hshrink ⟨h.1, h.2.1⟩]

theorem sound_clear_iff (hs : Sound S (b, l)) (ok : Bool) :
    Sound S (step S (b, l) (.clear ok)) ↔ GrowsEnough S b (.clear ok) := by
  cases ok with
  | false => exact iff_of_true ⟨hs.bytes, UInt64.zero_le, rfl⟩ (growsEnough_of_none rfl)
  | true =>
    rw [growsEnough_iff_of_some (c := b.minCapacity) rfl, enough_iff]
    constructor
    · exact fun h => ⟨h.bytes, nofun⟩
    · exact fun h => ⟨h.1, UInt64.zero_le, rfl⟩

/-- **A step keeps a bag sound exactly if its reallocation leaves enough room.** -/
theorem sound_step_iff {s : WordBag α × List α} {o : Op α} (ha : Allocated S s.1)
    (hs : Sound S s) (ho : Valid s.1 o) : Sound S (step S s o) ↔ GrowsEnough S s.1 o := by
  rcases o with ⟨x, ok⟩ | ⟨n, ok⟩ | ok
  · exact sound_add_iff ha hs x ok
  · exact sound_removeNth_iff hs ho ok
  · exact sound_clear_iff hs ok

/-- The constructor asks for enough exactly if the number of bytes is in range. -/
theorem sound_init_iff {m : UInt64} :
    Sound S ((init S m : WordBag α), []) ↔ m.toNat * S.element.toNat < 2 ^ 64 := by
  constructor
  · intro hs
    exact lt_of_le_of_lt hs.bytes (m * S.element).toNat_lt
  · intro hm
    exact ⟨(toNat_mul_of_lt hm).ge, UInt64.zero_le, rfl⟩

/-- **A run keeps a bag sound exactly if all requests for memory are large enough.** -/
theorem sound_throughout_iff {m : UInt64} {ops : List (Op α)}
    (hops : StepsMeet (step S) (fun s => Valid s.1) (init S m, []) ops) :
    Throughout (step S) (Sound S) (init S m, []) ops ↔ m.toNat * S.element.toNat < 2 ^ 64 ∧
      StepsMeet (step S) (fun s => GrowsEnough S s.1) (init S m, []) ops := by
  rw [← sound_init_iff (α := α)]
  have halloc : Allocated S (init S m : WordBag α) := List.length_replicate
  have hrun := fun hs : Sound S ((init S m : WordBag α), []) =>
    throughout_iff_of_step (J := fun s => Allocated S s.1) (fun _ o h _ => allocated_step h o)
      (fun _ _ h ho hs => sound_step_iff h hs ho) halloc hs hops
  constructor
  · exact fun h => ⟨h.head, (hrun h.head).mp h⟩
  · exact fun h => (hrun h.1).mpr h.2

end WordBag

/-! ### The container of timeline listeners -/

namespace ListenerContainer

open WordBag

variable {L : Type}

/-- `ht_timeline_listener_container_create`: a bag for sixteen entries. -/
def create : WordBag L := init listenerSizes 16

/-- The calls that change the container, with the answer of the allocator. -/
inductive Op (L : Type) where
  | registerListener (l : L) (ok : Bool)
  | unregisterAllListeners (ok : Bool)

/-- They are calls of the bag. -/
def Op.toBag : Op L → WordBag.Op L
  | .registerListener l ok => .add l ok
  | .unregisterAllListeners ok => .clear ok

/-- The container, and the listeners registered since the last `unregister_all`. -/
def step (c : WordBag L × List L) (o : Op L) : WordBag L × List L :=
  WordBag.step listenerSizes c o.toBag

/-- `ht_timeline_listener_container_notify_listeners`: the entries whose callback is called,
in this order. -/
def notifyListeners (c : WordBag L) : List (Option L) := c.slots

/-- **The storage of a container is large enough**, and a notification reaches the registered
listeners, each once and in the order of their registration. -/
def StoresAll (c : WordBag L × List L) : Prop :=
  Sound listenerSizes c ∧ notifyListeners c.1 = c.2.map some

/-- The first block of a container is still in place. -/
structure FirstBlock (c : WordBag L × List L) : Prop where
  allocated : Allocated listenerSizes c.1
  capacity : c.1.capacity = 16
  minCapacity : c.1.minCapacity = 16

theorem firstBlock_create : FirstBlock ((create, []) : WordBag L × List L) :=
  ⟨List.length_replicate, rfl, rfl⟩

/-- **A call that does not reallocate keeps the block.** -/
theorem FirstBlock.step {c : WordBag L × List L} (h : FirstBlock c) {o : Op L}
    (ho : c.1.target o.toBag = none) : FirstBlock (step c o) := by
  refine ⟨allocated_step h.allocated _, ?_, (minCapacity_step c _).trans h.minCapacity⟩
  rcases o with ⟨l, ok⟩ | ok
  · change (c.1.add listenerSizes l ok).2.capacity = 16
    by_cases hfull : c.1.capacity = c.1.size
    · cases ok with
      | false =>
        rw [add_of_refused hfull]
        exact h.capacity
      | true =>
        rw [Op.toBag, target, if_pos ⟨hfull, rfl⟩] at ho
        cases ho
    · rw [add_of_not_full hfull]
      exact h.capacity
  · cases ok with
    | false => exact h.capacity
    | true => cases ho

/-- An operation of a container leaves enough room exactly if it does not reallocate. -/
theorem growsEnough_iff {c : WordBag L × List L} (h : FirstBlock c) (o : Op L) :
    GrowsEnough listenerSizes c.1 o.toBag ↔ c.1.target o.toBag = none := by
  refine ⟨fun hgrows => ?_, growsEnough_of_none⟩
  rcases htarget : c.1.target o.toBag with _ | n
  · rfl
  · rcases (hgrows n htarget).1.1 with hle | h0
    · exact absurd hle (by decide)
    · have hn : n = 32 ∨ n = 16 := by
        rcases o with ⟨l, ok⟩ | ok
        · rw [Op.toBag, target, h.capacity] at htarget
          split at htarget
          · exact .inl (Option.some.inj htarget).symm
          · cases htarget
        · rw [Op.toBag, target, h.minCapacity] at htarget
          split at htarget
          · exact .inr (Option.some.inj htarget).symm
          · cases htarget
      rw [h0] at hn
      exact absurd hn (by decide)

/-- A container of listeners is sound in every state exactly if it is never reallocated. -/
theorem storesAll_throughout_iff (calls : List (Op L)) :
    Throughout step StoresAll (create, []) calls ↔
      StepsMeet step (fun c o => c.1.target o.toBag = none) (create, []) calls := by
  have hiff : ∀ c : WordBag L × List L, StoresAll c ↔ Sound listenerSizes c := fun c =>
    ⟨fun h => h.1, fun h => ⟨h, h.slots⟩⟩
  refine throughout_iff_of_kept (J := FirstBlock) (D := fun _ _ => True)
    (fun c o h _ _ ho => h.step ho) (fun c o h _ hs => ?_) firstBlock_create
    ((hiff _).mpr (sound_init_iff.mpr (by decide))) (stepsMeet_of_forall fun _ _ => trivial)
  rw [hiff, ← growsEnough_iff h]
  refine sound_step_iff h.allocated ((hiff _).mp hs) ?_
  -- a container has no operation that removes a single listener
  rcases o with ⟨l, ok⟩ | ok <;> trivial

/-- **When listener storage is large enough.** Over every run of calls, a bag is sound in
every state exactly if the bytes of its first block are in the range of `size_t`, and all its
reallocations are for elements no larger than a pointer, lose no more to that range than they
have in excess, and enlarge a bag that has to grow. A container of listeners stores and notifies
all its listeners, in every state of every run, exactly if it is never reallocated. -/
theorem storage_large_enough_iff {α : Type} (S : WordSizes) (m : UInt64) (ops : List (WordBag.Op α))
    (hops : StepsMeet (WordBag.step S) (fun s => Valid s.1) (init S m, []) ops)
    (calls : List (Op L)) :
    (Throughout (WordBag.step S) (Sound S) (init S m, []) ops ↔
      m.toNat * S.element.toNat < 2 ^ 64 ∧
        StepsMeet (WordBag.step S) (fun s => GrowsEnough S s.1) (init S m, []) ops) ∧
    (Throughout step StoresAll (create, []) calls ↔
      StepsMeet step (fun c o => c.1.target o.toBag = none) (create, []) calls) :=
  ⟨sound_throughout_iff hops, storesAll_throughout_iff calls⟩

/-- The two halves at a bag of integers and at a container of a listener. -/
theorem storage_large_enough_sample :
    (Throughout (WordBag.step ⟨4, 8, by decide⟩) (Sound ⟨4, 8, by decide⟩)
        (init ⟨4, 8, by decide⟩ 1, []) [.add 5 true, .add 6 true, .removeNth 0 true, .clear true] ↔
      (1 : UInt64).toNat * (4 : UInt64).toNat < 2 ^ 64 ∧
        StepsMeet (WordBag.step ⟨4, 8, by decide⟩) (fun s => GrowsEnough ⟨4, 8, by decide⟩ s.1)
          (init ⟨4, 8, by decide⟩ 1, [])
          [.add 5 true, .add 6 true, .removeNth 0 true, .clear true]) ∧
    (Throughout step StoresAll (create, []) [.registerListener 5 true] ↔
      StepsMeet step (fun c o => c.1.target o.toBag = none) (create, [])
        [.registerListener 5 true]) :=
  storage_large_enough_iff ⟨4, 8, by decide⟩ 1 _ (by decide) _

/-- **A listener outside the block.** After `unregister_all` on a new container the block has
128 bytes for 16 entries of 24, and the sixth listener that is then registered – with
success – is not where a notification looks for it. -/
theorem sixth_listener_outside_block :
    let c := runFrom step (create, []) (.unregisterAllListeners true ::
      (List.range 6).map fun l => .registerListener l true)
    c.1.capacity = 16 ∧ c.1.bytes = 128 ∧ c.2 = [0, 1, 2, 3, 4, 5] ∧
      notifyListeners c.1 = [some 0, some 1, some 2, some 3, some 4, none] ∧
      ¬ Throughout step StoresAll (create, []) (.unregisterAllListeners true ::
        (List.range 6).map fun l => .registerListener l true) := by
  refine ⟨by decide, by decide, by decide, by decide, ?_⟩
  rintro ⟨-, h⟩
  exact absurd h.head.1.bytes (by decide)

/-! ### Calling the listeners -/

/-- Listeners that have been called, and whether a callback was read from a slot no one has
written. -/
structure Called (L : Type) where
  crashed : Bool
  listeners : List L

/-- `entry->callback(...)`; the user data of an entry is the number of a listener. -/
def call (f : L → L) (s : Called L) : Option ℕ → Called L
  | some i => if s.crashed then s else { s with listeners := s.listeners.modify i f }
  | none => { s with crashed := true }

/-- One notification. -/
def callAll (c : WordBag ℕ) (f : L → L) (s : Called L) : Called L :=
  (notifyListeners c).foldl (call f) s

/-- One notification after another. -/
def callEach (c : WordBag ℕ) (fs : List (L → L)) (s : Called L) : Called L :=
  fs.foldl (fun s f => callAll c f s) s

/-- **The entries of the first block** are those of the listeners, in their order. -/
structure Intact (c : WordBag ℕ) (n : ℕ) : Prop where
  firstBlock : FirstBlock (c, List.range n)
  sound : Sound listenerSizes (c, List.range n)

theorem intact_create : Intact create 0 :=
  ⟨firstBlock_create, sound_init_iff.mpr (by decide)⟩

/-- **Registering a listener** without a reallocation. -/
theorem Intact.add {c : WordBag ℕ} {n : ℕ} (h : Intact c n) {ok : Bool}
    (hok : c.capacity = c.size → ok = false) :
    Intact (c.add listenerSizes n ok).2 (if (c.add listenerSizes n ok).1 then n + 1 else n) := by
  have hnone : c.target (Op.toBag (.registerListener n ok)) = none := by
    rw [Op.toBag, target, if_neg]
    rintro ⟨hfull, htrue⟩
    rw [hok hfull] at htrue
    cases htrue
  have hblock := h.firstBlock.step (o := .registerListener n ok) hnone
  have hsound := (sound_add_iff h.firstBlock.allocated h.sound n ok).mpr (growsEnough_of_none hnone)
  have hrange : (if (c.add listenerSizes n ok).1 then List.range n ++ [n] else List.range n) =
      List.range (if (c.add listenerSizes n ok).1 then n + 1 else n) := by
    split
    · rw [List.range_succ]
    · rfl
  rw [WordBag.step, hrange] at hsound
  rw [step, Op.toBag, WordBag.step, hrange] at hblock
  exact ⟨hblock, hsound⟩

/-- What the first entries do to the listeners. -/
theorem exists_foldl_call (f : L → L) (ls : List L) (k : ℕ) :
    ∃ ls', ((List.range k).map some).foldl (call f) ⟨false, ls⟩ = ⟨false, ls'⟩ ∧
      ∀ i, ls'[i]? = if i < k then ls[i]?.map f else ls[i]? := by
  induction k with
  | zero => exact ⟨ls, rfl, fun i => rfl⟩
  | succ k ih =>
    obtain ⟨ls', heq, hls'⟩ := ih
    refine ⟨ls'.modify k f, ?_, fun i => ?_⟩
    · rw [List.range_succ, List.map_append, List.foldl_append, heq]
      rfl
    · rw [List.getElem?_modify, hls']
      by_cases hik : k = i
      · subst hik
        simp
      · have hiff : i < k + 1 ↔ i < k := by omega
        simp [hik, hiff]

/-- **A notification calls every listener once**, as long as the first block is in place. -/
theorem Intact.callAll {c : WordBag ℕ} {ls : List L} (h : Intact c ls.length) (f : L → L) :
    callAll c f ⟨false, ls⟩ = ⟨false, ls.map f⟩ := by
  obtain ⟨ls', heq, hls'⟩ := exists_foldl_call f ls ls.length
  rw [ListenerContainer.callAll, notifyListeners, h.sound.slots, heq]
  congr 1
  refine List.ext_getElem? fun i => ?_
  rw [hls', List.getElem?_map]
  split
  · rfl
  · rw [List.getElem?_eq_none (by omega), Option.map_none]

/-- So do notifications that follow each other. -/
theorem Intact.callEach {c : WordBag ℕ} {ls : List L} (h : Intact c ls.length) (fs : List (L → L)) :
    callEach c fs ⟨false, ls⟩ = ⟨false, ls.map fun l => fs.foldl (fun l f => f l) l⟩ := by
  induction fs generalizing ls with
  | nil => rw [List.map_id'']; exacts [rfl, fun _ => rfl]
  | cons f fs ih =>
    rw [ListenerContainer.callEach, List.foldl_cons, h.callAll]
    have hmap : Intact c (ls.map f).length := by rwa [List.length_map]
    refine (ih hmap).trans ?_
    rw [List.map_map]
    rfl

end ListenerContainer

end HawkTracer.Lib
