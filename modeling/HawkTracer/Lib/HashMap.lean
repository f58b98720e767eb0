import HawkTracer.Base.FirstWins
import HawkTracer.Lib.Bag

/-!
# The hash map

`HT_HashMap` has 512 buckets. A bucket is a bag of keys beside a bag of values; the value of a
key stands at the position of the key, and the first position that holds a key counts. An
insertion replaces the value of a key that is there, and otherwise adds to both bags; if the
second addition fails, the last key is removed again.

`HawkTracer.Lib.HashMap.Represents` says which partial function a map stands for. Looking up
is applying the function (`HawkTracer.Lib.HashMap.getValue_eq`), and an insertion that succeeds
is an update of it (`HawkTracer.Lib.HashMap.insert_of_ok`).
-/

namespace HawkTracer.Lib

/-- Keys and values have the size of a pointer. -/
def mapSizes : Bag.Sizes := ⟨8, 8⟩

/-- `HT_HashBucket`. -/
structure HashBucket (V : Type) where
  keyBag : Bag UInt64
  valueBag : Bag V

/-- `ht_hash_bucket_find_value`. -/
def HashBucket.findValue {V : Type} (b : HashBucket V) (key : UInt64) : Option ℕ :=
  b.keyBag.slots.findIdx? fun k => k = some key

/-- `HT_HashMap`. -/
structure HashMap (V : Type) where
  buckets : ℕ → HashBucket V

namespace HashMap

variable {V : Type}

/-- `BUCKET_COUNT`. -/
def bucketCount : ℕ := 512

/-- The bucket of a key. -/
def bucket (m : HashMap V) (key : UInt64) : HashBucket V := m.buckets (key.toNat % bucketCount)

/-- The map with another bucket for the key. -/
def setBucket (m : HashMap V) (key : UInt64) (b : HashBucket V) : HashMap V :=
  ⟨Function.update m.buckets (key.toNat % bucketCount) b⟩

/-- `ht_hash_map_init`, when everything can be had. -/
def init : HashMap V := ⟨fun _ => ⟨Bag.init mapSizes 4, Bag.init mapSizes 4⟩⟩

/-- The answers of the allocator to an insertion. -/
structure Answers where
  key : Bool
  value : Bool
  shrink : Bool

/-- The allocator never refuses. -/
def Answers.yes : Answers := ⟨true, true, true⟩

/-- `ht_hash_map_insert`: whether it succeeds, the value that was replaced, and the map. -/
def insert (m : HashMap V) (key : UInt64) (value : V) (a : Answers) : Bool × Option V × HashMap V :=
  let b := m.bucket key
  match b.findValue key with
  | some i =>
    (true, b.valueBag.slots.getD i none, m.setBucket key
      { b with valueBag := { b.valueBag with slots := b.valueBag.slots.set i (some value) } })
  | none =>
    match b.keyBag.add mapSizes key a.key with
    | (false, keys) => (false, none, m.setBucket key { b with keyBag := keys })
    | (true, keys) =>
      match b.valueBag.add mapSizes value a.value with
      | (true, values) => (true, none, m.setBucket key ⟨keys, values⟩)
      | (false, values) =>
        (false, none, m.setBucket key ⟨keys.removeNth mapSizes keys.size a.shrink, values⟩)

/-- `ht_hash_map_get_value`. -/
def getValue (m : HashMap V) (key : UInt64) : Option V :=
  match (m.bucket key).findValue key with
  | some i => (m.bucket key).valueBag.slots.getD i none
  | none => none

end HashMap

/-! ### A bucket is a list of entries -/

/-- A bag that can grow takes another element. -/
theorem Bag.add_yes {α : Type} {S : Bag.Sizes} {b : Bag α} {l : List α} (h : Bag.Sound S (b, l))
    (hS : S.element ≤ S.pointer) (hcap : 0 < b.capacity) (x : α) :
    ∃ b', b.add S x true = (true, b') ∧ Bag.Sound S (b', l ++ [x]) ∧ 0 < b'.capacity := by
  have hsound := h.add hS hcap x true
  have hok : (b.add S x true).1 = true := by
    by_cases hfull : b.capacity = b.size
    · rw [Bag.add_of_full hfull]
    · rw [Bag.add_of_not_full hfull]
  rw [Bag.step, hok, if_pos rfl] at hsound
  exact ⟨_, Prod.ext hok rfl, hsound, Bag.capacity_add_pos hcap x true⟩

/-- An addition that succeeds is the one of a bag that can grow. -/
theorem Bag.add_of_ok {α : Type} {S : Bag.Sizes} {b : Bag α} {x : α} {ok : Bool}
    (h : (b.add S x ok).1 = true) : b.add S x ok = b.add S x true := by
  by_cases hfull : b.capacity = b.size
  · rcases ok with _ | _
    · rw [Bag.add_of_refused hfull] at h
      cases h
    · rfl
  · rw [Bag.add_of_not_full hfull, Bag.add_of_not_full hfull]

namespace HashBucket

variable {V : Type} {b : HashBucket V} {es : List (UInt64 × V)} {key : UInt64} {value : V}

/-- **The bucket holds the entries**: both bags are sound, and no key is repeated. -/
structure Holds (b : HashBucket V) (es : List (UInt64 × V)) : Prop where
  keys : Bag.Sound mapSizes (b.keyBag, es.map Prod.fst)
  values : Bag.Sound mapSizes (b.valueBag, es.map Prod.snd)
  nodup : (es.map Prod.fst).Nodup
  room : 0 < b.keyBag.capacity ∧ 0 < b.valueBag.capacity

theorem holds_init : Holds (⟨Bag.init mapSizes 4, Bag.init mapSizes 4⟩ : HashBucket V) [] :=
  ⟨Bag.sound_init mapSizes 4, Bag.sound_init mapSizes 4, List.nodup_nil,
    Nat.succ_pos 3, Nat.succ_pos 3⟩

theorem Holds.findValue_eq (h : Holds b es) (key : UInt64) :
    b.findValue key = es.findIdx? fun e => e.1 = key := by
  rw [findValue, show b.keyBag.slots = (es.map Prod.fst).map some from h.keys.slots, List.map_map,
    List.findIdx?_map]
  congr 1
  funext e
  simp

/-- The position of a key that is there. -/
theorem Holds.findValue_some (h : Holds b es) {e : UInt64 × V}
    (he : findKey Prod.fst es key = some e) :
    ∃ i, b.findValue key = some i ∧ es[i]? = some e ∧ b.valueBag.slots.getD i none = some e.2 := by
  obtain ⟨hkey, i, hi, hget, hfirst⟩ := List.find?_eq_some_iff_getElem.mp he
  have hes : es[i]? = some e := by rw [List.getElem?_eq_getElem hi, hget]
  refine ⟨i, ?_, hes, ?_⟩
  · rw [h.findValue_eq, List.findIdx?_eq_some_iff_getElem]
    refine ⟨hi, by rw [hget]; exact hkey, fun j hj => by simpa using hfirst j hj⟩
  · rw [show b.valueBag.slots = (es.map Prod.snd).map some from h.values.slots,
      List.getD_eq_getElem?_getD, List.getElem?_map, List.getElem?_map, hes]
    rfl

theorem Holds.findValue_none (h : Holds b es) (he : findKey Prod.fst es key = none) :
    b.findValue key = none := by
  rw [h.findValue_eq, List.findIdx?_eq_none_iff]
  simpa [findKey] using he

/-- **Replacing a value.** -/
theorem Holds.set (h : Holds b es) {i : ℕ} {e : UInt64 × V} (hi : es[i]? = some e) (value : V) :
    Holds { b with valueBag := { b.valueBag with slots := b.valueBag.slots.set i (some value) } }
      (es.set i (e.1, value)) := by
  have hkeys : (es.set i (e.1, value)).map Prod.fst = es.map Prod.fst := by
    rw [List.map_set]
    refine List.ext_getElem? fun j => ?_
    rw [List.getElem?_set]
    split
    · next hij =>
      subst hij
      rw [List.getElem?_map, hi, Option.map_some, if_pos (by
        simpa using (List.getElem?_eq_some_iff.mp hi).1)]
    · rfl
  refine ⟨hkeys ▸ h.keys, ⟨h.values.bytes, ?_, ?_⟩, hkeys ▸ h.nodup, h.room⟩
  · change (b.valueBag.slots.set i (some value)).length ≤ _
    rw [List.length_set]
    exact h.values.size
  · change b.valueBag.slots.set i (some value) = _
    rw [show b.valueBag.slots = (es.map Prod.snd).map some from h.values.slots, List.map_set,
      List.map_set]

/-- A new key is not repeated. -/
theorem Holds.nodup_concat (h : Holds b es) (hkey : key ∉ es.map Prod.fst) (value : V) :
    ((es ++ [(key, value)]).map Prod.fst).Nodup := by
  rw [List.map_append]
  refine List.nodup_append.mpr ⟨h.nodup, List.pairwise_singleton _ key, fun k hk k' hk' heq => ?_⟩
  obtain rfl : k' = key := List.mem_singleton.mp hk'
  exact hkey (heq ▸ hk)

/-- **Adding an entry.** -/
theorem Holds.add (h : Holds b es) (hkey : key ∉ es.map Prod.fst) (value : V) :
    ∃ keys values, b.keyBag.add mapSizes key true = (true, keys) ∧
      b.valueBag.add mapSizes value true = (true, values) ∧
      Holds ⟨keys, values⟩ (es ++ [(key, value)]) := by
  obtain ⟨keys, hadd, hkeys, hroom⟩ := Bag.add_yes h.keys (le_refl 8) h.room.1 key
  obtain ⟨values, hadd', hvalues, hroom'⟩ := Bag.add_yes h.values (le_refl 8) h.room.2 value
  refine ⟨keys, values, hadd, hadd', ?_, ?_, h.nodup_concat hkey value, hroom, hroom'⟩
  · rw [List.map_append]
    exact hkeys
  · rw [List.map_append]
    exact hvalues

end HashBucket

/-! ### A map is a function -/

namespace HashMap

variable {V : Type} {m : HashMap V} {f : UInt64 → Option V}

/-- **The map stands for a partial function.** -/
def Represents (m : HashMap V) (f : UInt64 → Option V) : Prop :=
  ∀ i, ∃ es, (m.buckets i).Holds es ∧
    ∀ key, key.toNat % bucketCount = i → f key = (findKey Prod.fst es key).map Prod.snd

theorem represents_init : Represents (init : HashMap V) fun _ => none := fun _ =>
  ⟨[], HashBucket.holds_init, fun _ _ => rfl⟩

theorem buckets_setBucket (m : HashMap V) (key : UInt64) (b : HashBucket V) (i : ℕ) :
    (m.setBucket key b).buckets i = if i = key.toNat % bucketCount then b else m.buckets i :=
  Function.update_apply _ _ _ _

/-- A bucket is replaced by one that holds the new entries of its keys. -/
theorem Represents.setBucket (h : Represents m f) {key : UInt64} {b : HashBucket V}
    {es : List (UInt64 × V)} {v : Option V} (hb : b.Holds es)
    (hes : ∀ k, k.toNat % bucketCount = key.toNat % bucketCount →
      Function.update f key v k = (findKey Prod.fst es k).map Prod.snd) :
    Represents (m.setBucket key b) (Function.update f key v) := by
  intro i
  by_cases hi : i = key.toNat % bucketCount
  · subst hi
    refine ⟨es, ?_, hes⟩
    rw [buckets_setBucket, if_pos rfl]
    exact hb
  · obtain ⟨es', hes', hf⟩ := h i
    refine ⟨es', ?_, fun k hk => ?_⟩
    · rw [buckets_setBucket, if_neg hi]
      exact hes'
    · have hne : k ≠ key := fun heq => hi (heq ▸ hk.symm)
      rw [Function.update_of_ne hne, hf k hk]

/-- **A lookup is the application of the function.** -/
theorem getValue_eq (h : Represents m f) (key : UInt64) : m.getValue key = f key := by
  obtain ⟨es, hes, hf⟩ := h (key.toNat % bucketCount)
  rw [getValue, hf key rfl]
  cases he : findKey Prod.fst es key with
  | none =>
    have hnone : (m.bucket key).findValue key = none := hes.findValue_none he
    rw [hnone]
    rfl
  | some e =>
    obtain ⟨i, hi, -, hvalue⟩ := hes.findValue_some he
    have hsome : (m.bucket key).findValue key = some i := hi
    rw [hsome]
    exact hvalue

/-- Replacing the value of one entry changes the lookup of its key. -/
theorem findKey_set {es : List (UInt64 × V)} (hnodup : (es.map Prod.fst).Nodup) {i : ℕ}
    {e : UInt64 × V} (hi : es[i]? = some e) (value : V) (k : UInt64) :
    findKey Prod.fst (es.set i (e.1, value)) k =
      if k = e.1 then some (e.1, value) else findKey Prod.fst es k := by
  induction es generalizing i with
  | nil => cases hi
  | cons a es ih =>
    obtain ⟨hnot, hnodup⟩ := List.nodup_cons.mp hnodup
    cases i with
    | zero =>
      obtain rfl : a = e := Option.some.inj hi
      rw [List.set_cons_zero]
      split
      · next hk =>
        subst hk
        exact findKey_cons_self (a.1, value) es
      · next hk =>
        have hne : (a.1, value).1 ≠ k := Ne.symm hk
        have hne' : a.1 ≠ k := Ne.symm hk
        rw [findKey_cons_ne hne, findKey_cons_ne hne']
    | succ i =>
      have hmem : e.1 ∈ es.map Prod.fst := List.mem_map_of_mem (List.mem_of_getElem? hi)
      rw [List.set_cons_succ]
      by_cases hk : a.1 = k
      · subst hk
        have hne : a.1 ≠ e.1 := fun heq => hnot (heq ▸ hmem)
        rw [findKey_cons_self, findKey_cons_self, if_neg hne]
      · rw [findKey_cons_ne hk, findKey_cons_ne hk, ih hnodup hi]

/-- **An insertion is an update of the function**, and returns what the function was
before. -/
theorem insert_eq (h : Represents m f) (key : UInt64) (value : V) :
    ∃ m', m.insert key value .yes = (true, f key, m') ∧
      Represents m' (Function.update f key (some value)) := by
  obtain ⟨es, hes, hf⟩ := h (key.toNat % bucketCount)
  have hes' : (m.bucket key).Holds es := hes
  rw [insert, hf key rfl]
  cases he : findKey Prod.fst es key with
  | none =>
    obtain ⟨keys, values, hkeys, hvalues, hholds⟩ := hes'.add (findKey_eq_none_iff.mp he) value
    simp only [hes'.findValue_none he, Answers.yes, hkeys, hvalues]
    refine ⟨_, rfl, h.setBucket hholds fun k hk => ?_⟩
    rw [findKey_append, findKey_singleton, Function.update_apply, hf k hk]
    split
    · next heq => rw [heq, he, if_pos rfl]; rfl
    · next hne => rw [if_neg (Ne.symm hne), Option.or_none]
  | some e =>
    obtain ⟨i, hi, hget, hvalue⟩ := hes'.findValue_some he
    simp only [hi, hvalue]
    refine ⟨_, rfl, h.setBucket (hes'.set hget value) fun k hk => ?_⟩
    rw [findKey_set hes.nodup hget, Function.update_apply, hf k hk, key_of_findKey he]
    split <;> rfl

/-- An insertion that succeeds is the one of a map that can grow. -/
theorem insert_eq_yes {key : UInt64} {value : V} {a : Answers}
    (h : (m.insert key value a).1 = true) : m.insert key value a = m.insert key value .yes := by
  rw [insert] at h ⊢
  rw [insert]
  cases hfind : (m.bucket key).findValue key with
  | some i => rfl
  | none =>
    simp only [hfind] at h ⊢
    rcases hkeys : (m.bucket key).keyBag.add mapSizes key a.key with ⟨_ | _, keys⟩
    · simp only [hkeys] at h
      cases h
    · simp only [hkeys] at h ⊢
      rcases hvalues : (m.bucket key).valueBag.add mapSizes value a.value with ⟨_ | _, values⟩
      · simp only [hvalues] at h
        cases h
      · have hkeys' := (Bag.add_of_ok (congrArg Prod.fst hkeys)).symm.trans hkeys
        have hvalues' := (Bag.add_of_ok (congrArg Prod.fst hvalues)).symm.trans hvalues
        simp only [Answers.yes, hkeys', hvalues']

/-- The map stands for a function. -/
def Sound (m : HashMap V) : Prop := m.Represents m.getValue

theorem Represents.sound (h : Represents m f) : m.Sound := by
  have hf : m.getValue = f := funext (getValue_eq h)
  rwa [Sound, hf]

theorem sound_init : (init : HashMap V).Sound := represents_init.sound

/-- **An insertion that succeeds** returns the value of the key before, and changes the value
of this key. -/
theorem insert_of_ok (h : m.Sound) {key : UInt64} {value : V} {a : Answers}
    (hok : (m.insert key value a).1 = true) :
    ∃ m', m.insert key value a = (true, m.getValue key, m') ∧ m'.Sound ∧
      m'.getValue = Function.update m.getValue key (some value) := by
  obtain ⟨m', hinsert, hm'⟩ := insert_eq h key value
  exact ⟨m', (insert_eq_yes hok).trans hinsert, hm'.sound, funext (getValue_eq hm')⟩

end HashMap

end HawkTracer.Lib
