import HawkTracer.Base.Run
import HawkTracer.Lib.HashMap
import Mathlib.Algebra.Ring.Nat
import Mathlib.Data.List.Nodup

/-!
# The hash map when memory runs out

An insertion of a new key adds to two bags, one after the other, and each of them may have to
grow. If the second cannot, the key is taken back by `ht_bag_uint64_remove_nth` with an index
one behind the last key: the source copies the last key to the slot behind it and then forgets
about both. That this slot exists is not tested. It does, because of how the capacities of the
two bags move (`HawkTracer.Lib.HashBucket.Paired`): they are equal, or that of the keys is twice
that of the values – and the second is the case whenever a key has just been added and the
values are full.

`HawkTracer.Lib.MapTrace.is_map` is over all runs and all answers of the allocator: lookups and
`ht_hash_map_for_each` give the last values that were inserted with success, a failed insertion
changes neither, and no index is written that is not below the capacity. A bucket has at most
`2 ^ 55` keys, so the capacities never come near the limit of `size_t`.
-/

namespace HawkTracer.Lib

/-! ### The indices written -/

namespace Bag

variable {α : Type} (S : Sizes)

/-- The index that `ht_bag_add` writes, if it does, and the capacity at this moment. -/
def addWrites (b : Bag α) (x : α) (ok : Bool) : List (ℕ × ℕ) :=
  if (b.add S x ok).1 then [(b.size, (b.add S x ok).2.capacity)] else []

/-- The index that `ht_bag_remove_nth` writes, if it does, and the capacity at this moment. -/
def removeNthWrites (b : Bag α) (n : ℕ) : List (ℕ × ℕ) :=
  if 0 < b.size - 1 then [(n, b.capacity)] else []

variable {S} {b : Bag α} {l : List α}

/-- **What an addition does**: the bag is full, cannot grow and stays as it is, or it has one
element more, in a capacity that is doubled if it was full. -/
theorem add_cases (h : Sound S (b, l)) (hS : S.element ≤ S.pointer) (hcap : 0 < b.capacity)
    (x : α) (ok : Bool) :
    (b.capacity = b.size ∧ b.add S x ok = (false, b)) ∨
      ∃ b', b.add S x ok = (true, b') ∧ Sound S (b', l ++ [x]) ∧
        b'.minCapacity = b.minCapacity ∧
        b'.capacity = if b.capacity = b.size then b.capacity * 2 else b.capacity := by
  have hsound := h.add hS hcap x ok
  have hmin := minCapacity_add (S := S) b x ok
  rw [step] at hsound
  by_cases hfull : b.capacity = b.size
  · cases ok with
    | false => exact .inl ⟨hfull, add_of_refused hfull x⟩
    | true =>
      rw [add_of_full hfull] at hsound hmin
      exact .inr ⟨_, add_of_full hfull x, hsound, hmin, (if_pos hfull).symm⟩
  · rw [add_of_not_full hfull] at hsound hmin
    exact .inr ⟨_, add_of_not_full hfull x ok, hsound, hmin, (if_neg hfull).symm⟩

theorem lt_of_mem_addWrites (h : Sound S (b, l)) (hS : S.element ≤ S.pointer)
    (hcap : 0 < b.capacity) {x : α} {ok : Bool} {w : ℕ × ℕ} (hw : w ∈ b.addWrites S x ok) :
    w.1 < w.2 := by
  have hle : b.size ≤ b.capacity := h.size
  rcases add_cases h hS hcap x ok with ⟨-, hadd⟩ | ⟨b', hadd, -, -, hcap'⟩
  · simp [addWrites, hadd] at hw
  · simp only [addWrites, hadd, if_true, List.mem_singleton] at hw
    subst hw
    change b.size < b'.capacity
    rw [hcap']
    split <;> omega

/-- **Taking the last element back** with an index behind it, where the bag does not shrink. -/
theorem removeNth_size {x : α} (h : Sound S (b, l ++ [x])) (hkeep : ¬ l.length < b.capacity / 4)
    (ok : Bool) : b.removeNth S b.size ok = { b with slots := l.map some } := by
  have hslots : b.slots = l.map some ++ [some x] := by
    rw [show b.slots = (l ++ [x]).map some from h.slots, List.map_append, List.map_singleton]
  have hsize : b.size = l.length + 1 := by
    rw [size, hslots, List.length_append, List.length_map, List.length_singleton]
  have htake : b.slots.take l.length = l.map some := by
    rw [hslots, List.take_left' (List.length_map ..)]
  -- the copy goes to a slot behind those that count
  have hset : b.slots.set (l.length + 1) (b.slots.getD l.length none) = b.slots :=
    List.set_eq_of_length_le (by rw [← hsize]; exact Nat.le_refl _)
  have hsize' : ({ b with slots := l.map some } : Bag α).size = l.length := List.length_map ..
  simp only [removeNth, hsize, Nat.add_sub_cancel, hset, ite_self, htake, hsize']
  rw [if_neg fun hshrink => hkeep hshrink.2]

end Bag

namespace HashBucket

variable {V : Type} {b : HashBucket V} {es : List (UInt64 × V)}

theorem Holds.size_keyBag (h : b.Holds es) : b.keyBag.size = es.length := by
  rw [Bag.size, show b.keyBag.slots = (es.map Prod.fst).map some from h.keys.slots,
    List.length_map, List.length_map]

theorem Holds.size_valueBag (h : b.Holds es) : b.valueBag.size = es.length := by
  rw [Bag.size, show b.valueBag.slots = (es.map Prod.snd).map some from h.values.slots,
    List.length_map, List.length_map]

end HashBucket

/-! ### Visiting the entries -/

section ForEach

variable {V υ : Type}

/-- `ht_hash_bucket_for_each`, from an index on for so many rounds. -/
def HashBucket.forEach (b : HashBucket V) (callback : Option UInt64 → Option V → υ → Bool × υ) :
    ℕ → ℕ → υ → Bool × υ
  | 0, _, u => (true, u)
  | n + 1, i, u =>
    match callback (b.keyBag.slots.getD i none) (b.valueBag.slots.getD i none) u with
    | (false, u) => (false, u)
    | (true, u) => b.forEach callback n (i + 1) u

/-- The loop of `ht_hash_map_for_each` over the buckets. -/
def HashMap.forEachFrom (m : HashMap V) (callback : Option UInt64 → Option V → υ → Bool × υ) :
    ℕ → ℕ → υ → υ
  | 0, _, u => u
  | n + 1, i, u =>
    match (m.buckets i).forEach callback (m.buckets i).keyBag.size 0 u with
    | (false, u) => u
    | (true, u) => m.forEachFrom callback n (i + 1) u

/-- `ht_hash_map_for_each`; a slot outside of its block holds nothing. -/
def HashMap.forEach (m : HashMap V) (callback : Option UInt64 → Option V → υ → Bool × υ) (u : υ) :
    υ :=
  m.forEachFrom callback HashMap.bucketCount 0 u

/-- **The entries are visited one after another**, as long as the callback says so. -/
def visit (callback : Option UInt64 → Option V → υ → Bool × υ) :
    List (UInt64 × V) → υ → Bool × υ
  | [], u => (true, u)
  | e :: es, u =>
    match callback (some e.1) (some e.2) u with
    | (false, u) => (false, u)
    | (true, u) => visit callback es u

variable {callback : Option UInt64 → Option V → υ → Bool × υ} {es es' : List (UInt64 × V)} {u : υ}

theorem visit_append : visit callback (es ++ es') u =
    match visit callback es u with
    | (false, u) => (false, u)
    | (true, u) => visit callback es' u := by
  induction es generalizing u with
  | nil => rfl
  | cons e es ih =>
    rw [List.cons_append, visit, visit]
    rcases callback (some e.1) (some e.2) u with ⟨_ | _, u'⟩
    · rfl
    · exact ih

theorem HashBucket.Holds.forEach_eq {b : HashBucket V} (h : b.Holds es) {i n : ℕ}
    (hn : i + n = es.length) (u : υ) : b.forEach callback n i u = visit callback (es.drop i) u := by
  induction n generalizing i u with
  | zero => rw [List.drop_eq_nil_of_le (by omega), HashBucket.forEach, visit]
  | succ n ih =>
    have hi : i < es.length := by omega
    have hkey : b.keyBag.slots.getD i none = some es[i].1 := by
      rw [show b.keyBag.slots = (es.map Prod.fst).map some from h.keys.slots]
      simp [hi]
    have hvalue : b.valueBag.slots.getD i none = some es[i].2 := by
      rw [show b.valueBag.slots = (es.map Prod.snd).map some from h.values.slots]
      simp [hi]
    rw [HashBucket.forEach, hkey, hvalue, List.drop_eq_getElem_cons hi, visit]
    rcases callback (some es[i].1) (some es[i].2) u with ⟨_ | _, u'⟩
    · rfl
    · exact ih (by omega) u'

/-- **`ht_hash_map_for_each` visits the entries of the buckets in their order.** -/
theorem HashMap.forEachFrom_eq {m : HashMap V} {entries : ℕ → List (UInt64 × V)}
    (h : ∀ i, (m.buckets i).Holds (entries i)) (n i : ℕ) (u : υ) :
    m.forEachFrom callback n i u =
      (visit callback ((List.range' i n).flatMap entries) u).2 := by
  induction n generalizing i u with
  | zero => rfl
  | succ n ih =>
    rw [HashMap.forEachFrom, (h i).size_keyBag, (h i).forEach_eq (Nat.zero_add _), List.drop_zero,
      List.range'_succ, List.flatMap_cons, visit_append]
    rcases visit callback (entries i) u with ⟨_ | _, u'⟩
    · rfl
    · exact ih (i + 1) u'

end ForEach

/-! ### One insertion -/

namespace HashBucket

variable {V : Type} {b : HashBucket V} {es : List (UInt64 × V)} {key : UInt64}

/-- **The bags of a bucket go together**: they hold the entries, and the capacity of the keys is
that of the values or, after a failed insertion, twice as large. -/
structure Paired (b : HashBucket V) (es : List (UInt64 × V)) : Prop where
  holds : b.Holds es
  capacities : b.keyBag.capacity = b.valueBag.capacity ∨
    b.keyBag.capacity = 2 * b.valueBag.capacity
  four_le : 4 ≤ b.valueBag.capacity
  /-- It has grown for the entries only. -/
  bounded : b.valueBag.capacity ≤ 4 ∨ b.valueBag.capacity ≤ 2 * es.length

theorem paired_init : Paired (⟨Bag.init mapSizes 4, Bag.init mapSizes 4⟩ : HashBucket V) [] :=
  ⟨holds_init, .inl rfl, Nat.le_refl 4, .inl (Nat.le_refl 4)⟩

theorem Paired.set (h : b.Paired es) {i : ℕ} {e : UInt64 × V} (hi : es[i]? = some e) (value : V) :
    Paired { b with valueBag := { b.valueBag with slots := b.valueBag.slots.set i (some value) } }
      (es.set i (e.1, value)) :=
  ⟨h.holds.set hi value, h.capacities, h.four_le, by rw [List.length_set]; exact h.bounded⟩

/-- What `ht_hash_map_insert` does to the bucket of a key that is not there. -/
def addPair (b : HashBucket V) (key : UInt64) (value : V) (a : HashMap.Answers) :
    Bool × HashBucket V :=
  match b.keyBag.add mapSizes key a.key with
  | (false, keys) => (false, { b with keyBag := keys })
  | (true, keys) =>
    match b.valueBag.add mapSizes value a.value with
    | (true, values) => (true, ⟨keys, values⟩)
    | (false, values) => (false, ⟨keys.removeNth mapSizes keys.size a.shrink, values⟩)

/-- The indices it writes, with the capacities. -/
def addPairWrites (b : HashBucket V) (key : UInt64) (value : V) (a : HashMap.Answers) :
    List (ℕ × ℕ) :=
  match b.keyBag.add mapSizes key a.key with
  | (false, _) => b.keyBag.addWrites mapSizes key a.key
  | (true, keys) =>
    b.keyBag.addWrites mapSizes key a.key ++ b.valueBag.addWrites mapSizes value a.value ++
      if (b.valueBag.add mapSizes value a.value).1 then [] else keys.removeNthWrites keys.size

/-- The keys after they have been given one that has to be taken back: the values are full, so
there are twice as many slots as entries. -/
theorem Paired.capacity_of_full (h : b.Paired es) (hfull : b.valueBag.capacity = b.valueBag.size) :
    (if b.keyBag.capacity = b.keyBag.size then b.keyBag.capacity * 2 else b.keyBag.capacity) =
      2 * es.length ∧ 4 ≤ es.length := by
  have hkeys := h.holds.size_keyBag
  have hvalues := h.holds.size_valueBag
  have hfour := h.four_le
  refine ⟨?_, by omega⟩
  rcases h.capacities with hcap | hcap
  · rw [if_pos (by omega)]
    omega
  · rw [if_neg (by omega)]
    omega

/-- **An entry is added.** -/
theorem Paired.add (h : b.Paired es) (hkey : key ∉ es.map Prod.fst) {value : V}
    {keys : Bag UInt64} {values : Bag V}
    (hkeys : Bag.Sound mapSizes (keys, es.map Prod.fst ++ [key]))
    (hvalues : Bag.Sound mapSizes (values, es.map Prod.snd ++ [value]))
    (hcap : keys.capacity =
      if b.keyBag.capacity = b.keyBag.size then b.keyBag.capacity * 2 else b.keyBag.capacity)
    (hcap' : values.capacity =
      if b.valueBag.capacity = b.valueBag.size then b.valueBag.capacity * 2
      else b.valueBag.capacity) : Paired ⟨keys, values⟩ (es ++ [(key, value)]) := by
  have hsize := h.holds.size_keyBag
  have hsize' := h.holds.size_valueBag
  have hle : b.keyBag.size ≤ b.keyBag.capacity := h.holds.keys.size
  have hle' : b.valueBag.size ≤ b.valueBag.capacity := h.holds.values.size
  have hfour := h.four_le
  have hpair := h.capacities
  have hbound := h.bounded
  refine ⟨⟨by rw [List.map_append]; exact hkeys, by rw [List.map_append]; exact hvalues,
    h.holds.nodup_concat hkey value, ?_, ?_⟩, ?_, ?_, ?_⟩
  · rw [hcap]
    split <;> omega
  · rw [hcap']
    split <;> omega
  · rw [hcap, hcap']
    split <;> split <;> omega
  · rw [hcap']
    split <;> omega
  · rw [hcap', List.length_append, List.length_singleton]
    split <;> omega

/-- **A key is taken back**, from a bag that may have grown for it. -/
theorem Paired.takeBack (h : b.Paired es) {keys : Bag UInt64}
    (hbytes : keys.capacity * mapSizes.element ≤ keys.bytes)
    (hfull : b.valueBag.capacity = b.valueBag.size) (hcap : keys.capacity = 2 * es.length) :
    Paired { b with keyBag := { keys with slots := (es.map Prod.fst).map some } } es := by
  have hsize := h.holds.size_valueBag
  have hfour := h.four_le
  refine ⟨⟨⟨hbytes, ?_, rfl⟩, h.holds.values, h.holds.nodup, ?_, h.holds.room.2⟩, .inr ?_,
    h.four_le, h.bounded⟩
  · change ((es.map Prod.fst).map some).length ≤ keys.capacity
    rw [List.length_map, List.length_map]
    omega
  · change 0 < keys.capacity
    omega
  · change keys.capacity = 2 * b.valueBag.capacity
    omega

/-- **What happens to the bucket of a new key**: it gets the entry, or it holds what it held. -/
theorem Paired.addPair_cases (h : b.Paired es) (hkey : key ∉ es.map Prod.fst) (value : V)
    (a : HashMap.Answers) :
    ((b.addPair key value a).1 = true ∧ (b.addPair key value a).2.Paired (es ++ [(key, value)])) ∨
      ((b.addPair key value a).1 = false ∧ (b.addPair key value a).2.Paired es) := by
  rcases Bag.add_cases h.holds.keys (le_refl 8) h.holds.room.1 key a.key with
    ⟨-, hadd⟩ | ⟨keys, hadd, hkeys, -, hcap⟩
  · rw [addPair, hadd]
    exact .inr ⟨rfl, h⟩
  rcases Bag.add_cases h.holds.values (le_refl 8) h.holds.room.2 value a.value with
    ⟨hfull, hadd'⟩ | ⟨values, hadd', hvalues, -, hcap'⟩
  · obtain ⟨hcapacity, hfour⟩ := h.capacity_of_full hfull
    rw [hcapacity] at hcap
    have hback := Bag.removeNth_size hkeys (by rw [List.length_map]; omega) a.shrink
    have hpair : b.addPair key value a =
        (false, { b with keyBag := { keys with slots := (es.map Prod.fst).map some } }) := by
      simp only [addPair, hadd, hadd', hback]
    rw [hpair]
    exact .inr ⟨rfl, h.takeBack hkeys.bytes hfull hcap⟩
  · have hpair : b.addPair key value a = (true, ⟨keys, values⟩) := by
      simp only [addPair, hadd, hadd']
    rw [hpair]
    exact .inl ⟨rfl, h.add hkey hkeys hvalues hcap hcap'⟩

/-- **No index is written that is not below the capacity**, by taking the key back either. -/
theorem Paired.lt_of_mem_addPairWrites (h : b.Paired es) {value : V} {a : HashMap.Answers}
    {w : ℕ × ℕ} (hw : w ∈ b.addPairWrites key value a) : w.1 < w.2 := by
  have hkey : ∀ w ∈ b.keyBag.addWrites mapSizes key a.key, w.1 < w.2 := fun w hw =>
    Bag.lt_of_mem_addWrites h.holds.keys (le_refl 8) h.holds.room.1 hw
  have hvalue : ∀ w ∈ b.valueBag.addWrites mapSizes value a.value, w.1 < w.2 := fun w hw =>
    Bag.lt_of_mem_addWrites h.holds.values (le_refl 8) h.holds.room.2 hw
  rcases Bag.add_cases h.holds.keys (le_refl 8) h.holds.room.1 key a.key with
    ⟨-, hadd⟩ | ⟨keys, hadd, hkeys, -, hcap⟩
  · rw [addPairWrites, hadd] at hw
    exact hkey w hw
  rw [addPairWrites, hadd] at hw
  simp only [List.mem_append] at hw
  rcases hw with (hw | hw) | hw
  · exact hkey w hw
  · exact hvalue w hw
  rcases Bag.add_cases h.holds.values (le_refl 8) h.holds.room.2 value a.value with
    ⟨hfull, hadd'⟩ | ⟨values, hadd', -, -, -⟩
  · obtain ⟨hcapacity, hfour⟩ := h.capacity_of_full hfull
    have hsize : keys.size = es.length + 1 := by
      rw [Bag.size, show keys.slots = (es.map Prod.fst ++ [key]).map some from hkeys.slots]
      simp
    rw [hadd', if_neg (by simp), Bag.removeNthWrites, if_pos (by omega), List.mem_singleton] at hw
    subst hw
    change keys.size < keys.capacity
    omega
  · rw [hadd', if_pos rfl] at hw
    cases hw

end HashBucket

/-! ### All entries of a map -/

namespace HashMap

variable {V : Type} {m : HashMap V} {entries : ℕ → List (UInt64 × V)} {key : UInt64} {value : V}
  {a : Answers}

/-- The indices that `ht_hash_map_insert` writes, with the capacities. -/
def insertWrites (m : HashMap V) (key : UInt64) (value : V) (a : Answers) : List (ℕ × ℕ) :=
  match (m.bucket key).findValue key with
  | some i => [(i, (m.bucket key).valueBag.capacity)]
  | none => (m.bucket key).addPairWrites key value a

/-- **The buckets hold the entries**, each of them those of its own keys. -/
structure Arranged (m : HashMap V) (entries : ℕ → List (UInt64 × V)) : Prop where
  paired : ∀ i, (m.buckets i).Paired (entries i)
  own : ∀ i, ∀ e ∈ entries i, e.1.toNat % bucketCount = i

/-- The value that the entries give a key. -/
def valueIn (entries : ℕ → List (UInt64 × V)) (key : UInt64) : Option V :=
  (findKey Prod.fst (entries (key.toNat % bucketCount)) key).map Prod.snd

/-- The entries in the order of the buckets. -/
def allEntries (entries : ℕ → List (UInt64 × V)) : List (UInt64 × V) :=
  (List.range' 0 bucketCount).flatMap entries

theorem arranged_init : (init : HashMap V).Arranged fun _ => [] :=
  ⟨fun _ => HashBucket.paired_init, fun _ _ he => absurd he List.not_mem_nil⟩

section

variable (h : m.Arranged entries)

include h

theorem Arranged.represents : m.Represents (valueIn entries) := by
  intro i
  refine ⟨entries i, (h.paired i).holds, fun key hkey => ?_⟩
  rw [valueIn, hkey]

theorem Arranged.forEach_eq {υ : Type} (callback : Option UInt64 → Option V → υ → Bool × υ)
    (u : υ) : m.forEach callback u = (visit callback (allEntries entries) u).2 :=
  forEachFrom_eq (fun i => (h.paired i).holds) bucketCount 0 u

/-- **An entry is a key with its value.** -/
theorem Arranged.mem_allEntries_iff {v : V} :
    (key, v) ∈ allEntries entries ↔ valueIn entries key = some v := by
  have hfind : valueIn entries key = some v ↔ (key, v) ∈ entries (key.toNat % bucketCount) := by
    rw [valueIn, Option.map_eq_some_iff]
    constructor
    · rintro ⟨e, he, rfl⟩
      obtain rfl := key_of_findKey he
      exact mem_of_findKey he
    · intro hmem
      exact ⟨_, (findKey_eq_some_iff (h.paired _).holds.nodup).mpr ⟨hmem, rfl⟩, rfl⟩
  rw [hfind, allEntries, List.mem_flatMap]
  constructor
  · rintro ⟨i, -, hmem⟩
    rw [h.own i _ hmem]
    exact hmem
  · intro hmem
    have hlt : key.toNat % bucketCount < bucketCount := Nat.mod_lt _ (Nat.succ_pos 511)
    exact ⟨_, List.mem_range'_1.mpr ⟨Nat.zero_le _, by omega⟩, hmem⟩

/-- **No key is visited twice.** -/
theorem Arranged.nodup_allEntries : ((allEntries entries).map Prod.fst).Nodup := by
  rw [allEntries, List.map_flatMap, List.nodup_flatMap]
  refine ⟨fun i _ => (h.paired i).holds.nodup, ?_⟩
  refine (List.nodup_range' ..).imp fun {i j} hij k hi hj => hij ?_
  obtain ⟨e, he, rfl⟩ := List.mem_map.mp hi
  obtain ⟨e', he', heq⟩ := List.mem_map.mp hj
  rw [← h.own i e he, ← h.own j e' he', heq]

/-- A bucket is replaced by one that holds other entries of its keys. -/
theorem Arranged.setBucket {b : HashBucket V} {es : List (UInt64 × V)} (hb : b.Paired es)
    (hes : ∀ e ∈ es, e.1.toNat % bucketCount = key.toNat % bucketCount) :
    (m.setBucket key b).Arranged (Function.update entries (key.toNat % bucketCount) es) := by
  constructor
  · intro i
    rw [buckets_setBucket, Function.update_apply]
    split
    · exact hb
    · exact h.paired i
  · intro i e he
    rw [Function.update_apply] at he
    split at he
    · next hi => rw [hi, hes e he]
    · exact h.own i e he

omit h in
/-- The values after the entries of one bucket have got another value for the key. -/
theorem valueIn_update {es : List (UInt64 × V)}
    (hes : ∀ k, findKey Prod.fst es k = if k = key then some (key, value)
      else findKey Prod.fst (entries (key.toNat % bucketCount)) k) :
    valueIn (Function.update entries (key.toNat % bucketCount) es) =
      Function.update (valueIn entries) key (some value) := by
  funext k
  rw [valueIn, Function.update_apply, Function.update_apply]
  by_cases hk : k = key
  · rw [if_pos hk, hk, if_pos rfl, hes key, if_pos rfl]
    rfl
  · rw [if_neg hk]
    split
    · next hi => rw [hes k, if_neg hk, valueIn, hi]
    · rfl

omit h in
theorem insert_of_none (h : (m.bucket key).findValue key = none) :
    m.insert key value a = (((m.bucket key).addPair key value a).1, none,
      m.setBucket key ((m.bucket key).addPair key value a).2) := by
  rw [insert, HashBucket.addPair]
  simp only [h]
  rcases (m.bucket key).keyBag.add mapSizes key a.key with ⟨_ | _, keys⟩
  · rfl
  rcases (m.bucket key).valueBag.add mapSizes value a.value with ⟨_ | _, values⟩ <;> rfl

/-- **The indices written by an insertion are below the capacity.** -/
theorem Arranged.lt_of_mem_insertWrites {w : ℕ × ℕ} (hw : w ∈ m.insertWrites key value a) :
    w.1 < w.2 := by
  have hpaired : (m.bucket key).Paired (entries (key.toNat % bucketCount)) := h.paired _
  rw [insertWrites] at hw
  cases he : findKey Prod.fst (entries (key.toNat % bucketCount)) key with
  | none =>
    simp only [hpaired.holds.findValue_none he] at hw
    exact hpaired.lt_of_mem_addPairWrites hw
  | some e =>
    obtain ⟨i, hi, hget, -⟩ := hpaired.holds.findValue_some he
    simp only [hi, List.mem_singleton] at hw
    subst hw
    calc i < (entries (key.toNat % bucketCount)).length := (List.getElem?_eq_some_iff.mp hget).1
      _ = (m.bucket key).valueBag.size := hpaired.holds.size_valueBag.symm
      _ ≤ (m.bucket key).valueBag.capacity := hpaired.holds.values.size

/-- **What an insertion does**: it returns the value of the key before, and then it gives the
key its value, or it fails and the entries stay as they are. -/
theorem Arranged.insert_cases (key : UInt64) (value : V) (a : Answers) :
    (m.insert key value a).2.1 = valueIn entries key ∧
      (((m.insert key value a).1 = true ∧
          ∃ entries', (m.insert key value a).2.2.Arranged entries' ∧
            valueIn entries' = Function.update (valueIn entries) key (some value)) ∨
        ((m.insert key value a).1 = false ∧ (m.insert key value a).2.2.Arranged entries)) := by
  have hpaired : (m.bucket key).Paired (entries (key.toNat % bucketCount)) := h.paired _
  cases he : findKey Prod.fst (entries (key.toNat % bucketCount)) key with
  | none =>
    have hnot := findKey_eq_none_iff.mp he
    rw [insert_of_none (hpaired.holds.findValue_none he), valueIn, he]
    refine ⟨rfl, ?_⟩
    rcases hpaired.addPair_cases hnot value a with ⟨hok, hes⟩ | ⟨hfail, hes⟩
    · refine .inl ⟨hok, _, h.setBucket hes fun e hmem => ?_, valueIn_update fun k => ?_⟩
      · rcases List.mem_append.mp hmem with hmem | hmem
        · exact h.own _ e hmem
        · rw [List.mem_singleton.mp hmem]
      · rw [findKey_append, findKey_singleton]
        by_cases hk : k = key
        · rw [hk, he, if_pos rfl]
          rfl
        · rw [if_neg (Ne.symm hk), if_neg hk, Option.or_none]
    · have hback := h.setBucket hes (h.own _)
      rw [Function.update_eq_self] at hback
      exact .inr ⟨hfail, hback⟩
  | some e =>
    obtain ⟨i, hi, hget, hvalue⟩ := hpaired.holds.findValue_some he
    obtain rfl := key_of_findKey he
    rw [insert, valueIn, he]
    simp only [hi]
    refine ⟨hvalue, .inl ⟨trivial, _, h.setBucket (hpaired.set hget value) fun e' hmem => ?_,
      valueIn_update fun k => findKey_set hpaired.holds.nodup hget value k⟩⟩
    rcases List.mem_or_eq_of_mem_set hmem with hmem | rfl
    · exact h.own _ e' hmem
    · rfl

/-- **A bucket has at most `2 ^ 55` entries**: there are no more keys for it. -/
theorem Arranged.length_le (i : ℕ) : (entries i).length ≤ 2 ^ 55 := by
  have hnodup : ((entries i).map fun e => e.1.toNat / bucketCount).Nodup := by
    refine List.Nodup.map_on ?_ (List.Nodup.of_map _ (h.paired i).holds.nodup)
    intro e he e' he' heq
    have hkeys : e.1 = e'.1 := UInt64.toNat_inj.mp (by
      rw [← Nat.div_add_mod e.1.toNat bucketCount, ← Nat.div_add_mod e'.1.toNat bucketCount, heq,
        h.own i e he, h.own i e' he'])
    exact List.inj_on_of_nodup_map (h.paired i).holds.nodup he he' hkeys
  have hsub : ((entries i).map fun e => e.1.toNat / bucketCount) ⊆ List.range (2 ^ 55) := by
    intro n hn
    obtain ⟨e, -, rfl⟩ := List.mem_map.mp hn
    have hlt := e.1.toNat_lt
    rw [List.mem_range, bucketCount]
    omega
  have hlen := (List.subperm_of_subset hnodup hsub).length_le
  rwa [List.length_map, List.length_range] at hlen

/-- **No size that a bag computes reaches the limit of `size_t`**, that of a bag about to
grow included. -/
theorem Arranged.bytes_lt (i : ℕ) :
    (m.buckets i).keyBag.capacity * 2 * mapSizes.pointer < 2 ^ 64 ∧
      (m.buckets i).valueBag.capacity * 2 * mapSizes.pointer < 2 ^ 64 := by
  have hlen := h.length_le i
  have hcap := (h.paired i).capacities
  have hbound := (h.paired i).bounded
  simp only [mapSizes]
  omega

end

end HashMap

/-! ### Runs -/

/-- A map, beside the values of the last insertions that succeeded. -/
structure MapTrace (V : Type) where
  map : HashMap V
  stored : UInt64 → Option V

/-- A call of `ht_hash_map_insert`, with the answers of the allocator to it. -/
structure Insertion (V : Type) where
  key : UInt64
  value : V
  answers : HashMap.Answers

namespace MapTrace

variable {V : Type}

/-- One call. -/
def step (s : MapTrace V) (o : Insertion V) : MapTrace V where
  map := (s.map.insert o.key o.value o.answers).2.2
  stored := if (s.map.insert o.key o.value o.answers).1 then
    Function.update s.stored o.key (some o.value) else s.stored

/-- **The map is a map.** -/
structure IsMap (s : MapTrace V) : Prop where
  getValue : ∀ key, s.map.getValue key = s.stored key
  /-- Every key that is there is visited once, with its value. -/
  forEach : ∃ es : List (UInt64 × V), (es.map Prod.fst).Nodup ∧
    (∀ key value, (key, value) ∈ es ↔ s.stored key = some value) ∧
    ∀ (υ : Type) (callback : Option UInt64 → Option V → υ → Bool × υ) (u : υ),
      s.map.forEach callback u = (visit callback es u).2
  insert : ∀ key value answers, (s.map.insert key value answers).2.1 = s.stored key
  failed : ∀ key value answers, (s.map.insert key value answers).1 = false →
    (∀ k, (s.map.insert key value answers).2.2.getValue k = s.map.getValue k) ∧
    ∀ (υ : Type) (callback : Option UInt64 → Option V → υ → Bool × υ) (u : υ),
      (s.map.insert key value answers).2.2.forEach callback u = s.map.forEach callback u
  inBounds : ∀ key value answers, ∀ w ∈ s.map.insertWrites key value answers, w.1 < w.2
  noOverflow : ∀ i, (s.map.buckets i).keyBag.capacity * 2 * mapSizes.pointer < 2 ^ 64 ∧
    (s.map.buckets i).valueBag.capacity * 2 * mapSizes.pointer < 2 ^ 64

/-- The map is arranged, and its entries give the values that were stored. -/
def Kept (s : MapTrace V) : Prop :=
  ∃ entries, s.map.Arranged entries ∧ HashMap.valueIn entries = s.stored

theorem Kept.step {s : MapTrace V} (h : s.Kept) (o : Insertion V) : (s.step o).Kept := by
  obtain ⟨entries, hmap, hstored⟩ := h
  obtain ⟨-, ⟨hok, entries', hmap', hvalue⟩ | ⟨hfail, hmap'⟩⟩ :=
    hmap.insert_cases o.key o.value o.answers
  · refine ⟨entries', hmap', ?_⟩
    rw [MapTrace.step, hok, if_pos rfl, hvalue, hstored]
  · refine ⟨entries, hmap', ?_⟩
    rw [MapTrace.step, hfail, if_neg Bool.false_ne_true, hstored]

theorem Kept.isMap {s : MapTrace V} (h : s.Kept) : s.IsMap := by
  obtain ⟨entries, hmap, hstored⟩ := h
  refine ⟨fun key => ?_, ⟨HashMap.allEntries entries, hmap.nodup_allEntries, fun key value => ?_,
    fun υ callback u => hmap.forEach_eq callback u⟩, fun key value answers => ?_,
    fun key value answers hfail => ?_, fun key value answers w => hmap.lt_of_mem_insertWrites,
    hmap.bytes_lt⟩
  · rw [HashMap.getValue_eq hmap.represents, hstored]
  · rw [hmap.mem_allEntries_iff, hstored]
  · rw [(hmap.insert_cases key value answers).1, hstored]
  · obtain ⟨-, ⟨hok, -⟩ | ⟨-, hmap'⟩⟩ := hmap.insert_cases key value answers
    · rw [hok] at hfail
      cases hfail
    · refine ⟨fun k => ?_, fun υ callback u => ?_⟩
      · rw [HashMap.getValue_eq hmap'.represents, HashMap.getValue_eq hmap.represents]
      · rw [hmap'.forEach_eq, hmap.forEach_eq]

/-- **The hash map is a map in every run**, whatever the allocator answers. -/
theorem is_map (os : List (Insertion V)) :
    Throughout step IsMap ⟨HashMap.init, fun _ => none⟩ os := by
  have hkept : Throughout step Kept (⟨HashMap.init, fun _ => none⟩ : MapTrace V) os :=
    throughout_of_step (fun s o hs _ => hs.step o)
      ⟨fun _ => [], HashMap.arranged_init, rfl⟩ (stepsMeet_of_forall fun _ _ => trivial)
  exact hkept.mono fun _ => Kept.isMap

end MapTrace

end HawkTracer.Lib
