import Mathlib.Data.List.Basic

/-!
# Maps with first-wins insertion

A finite map is the list of its entries in the order of their insertion, an entry
carrying its own key. Inserting an entry whose key is taken does nothing
(`HawkTracer.insertNew`), which is what `insert` of a standard library map does;
merging one map into another (`HawkTracer.mergeNew`) inserts its entries one by one.

A search in the result of either operation asks the first map and, failing that, the
second (`HawkTracer.findKey_insertNew`, `HawkTracer.findKey_mergeNew`). That is also
how a search treats a concatenation (`HawkTracer.findKey_append`), so a map grown by
first-wins insertion answers exactly as the plain list of everything that was ever
inserted. Where no key is repeated, finding an entry is membership
(`HawkTracer.findKey_eq_some_iff`).
-/

namespace HawkTracer

variable {κ β : Type} [DecidableEq κ] (key : β → κ)

/-- The entry with the given key. -/
def findKey (m : List β) (k : κ) : Option β := m.find? fun v => key v = k

/-- Insert an entry unless its key is taken. -/
def insertNew (m : List β) (v : β) : List β :=
  match findKey key m (key v) with
  | some _ => m
  | none => m ++ [v]

/-- Insert the entries of `m'` into `m`, in their order. -/
def mergeNew (m m' : List β) : List β := m'.foldl (insertNew key) m

@[simp] theorem findKey_nil (k : κ) : findKey key [] k = none := rfl

@[simp] theorem mergeNew_nil (m : List β) : mergeNew key m [] = m := rfl

@[simp] theorem mergeNew_cons (m m' : List β) (v : β) :
    mergeNew key m (v :: m') = mergeNew key (insertNew key m v) m' := rfl

variable {key}

theorem findKey_append (m m' : List β) (k : κ) :
    findKey key (m ++ m') k = (findKey key m k).or (findKey key m' k) := List.find?_append

theorem findKey_cons_self (v : β) (m : List β) : findKey key (v :: m) (key v) = some v := by
  simp [findKey]

theorem findKey_cons_ne {v : β} {k : κ} (h : key v ≠ k) (m : List β) :
    findKey key (v :: m) k = findKey key m k := by
  simp [findKey, h]

theorem findKey_singleton (v : β) (k : κ) :
    findKey key [v] k = if key v = k then some v else none := by
  by_cases h : key v = k
  · rw [if_pos h, ← h, findKey_cons_self]
  · rw [if_neg h, findKey_cons_ne h, findKey_nil]

variable {m : List β}

theorem findKey_eq_none_iff {k : κ} : findKey key m k = none ↔ k ∉ m.map key := by
  simp [findKey]

theorem mem_of_findKey {k : κ} {v : β} (h : findKey key m k = some v) : v ∈ m :=
  List.mem_of_find?_eq_some h

theorem key_of_findKey {k : κ} {v : β} (h : findKey key m k = some v) : key v = k := by
  simpa using List.find?_some h

/-- **Where no key is repeated, finding an entry is membership.** -/
theorem findKey_eq_some_iff (hm : (m.map key).Nodup) {k : κ} {v : β} :
    findKey key m k = some v ↔ v ∈ m ∧ key v = k := by
  refine ⟨fun h => ⟨mem_of_findKey h, key_of_findKey h⟩, ?_⟩
  rintro ⟨hmem, rfl⟩
  induction m with
  | nil => simp at hmem
  | cons w m ih =>
    obtain ⟨hw, hm'⟩ := List.nodup_cons.mp hm
    rcases List.mem_cons.mp hmem with rfl | hmem
    · exact findKey_cons_self _ _
    · have hne : key w ≠ key v := fun heq => hw (heq ▸ List.mem_map.mpr ⟨v, hmem, rfl⟩)
      rw [findKey_cons_ne hne]
      exact ih hm' hmem

/-- Inserting under a fresh key appends. -/
theorem insertNew_of_not_mem {v : β} (h : key v ∉ m.map key) : insertNew key m v = m ++ [v] := by
  rw [insertNew, findKey_eq_none_iff.mpr h]

/-- Inserting under a taken key does nothing. -/
theorem insertNew_of_mem {v : β} (h : key v ∈ m.map key) : insertNew key m v = m := by
  obtain ⟨w, hw⟩ := Option.ne_none_iff_exists'.mp (fun hn => findKey_eq_none_iff.mp hn h)
  rw [insertNew, hw]

/-- After an insertion the key is taken. -/
theorem key_mem_insertNew (m : List β) (v : β) : key v ∈ (insertNew key m v).map key := by
  by_cases h : key v ∈ m.map key
  · rwa [insertNew_of_mem h]
  · rw [insertNew_of_not_mem h, List.map_append]
    exact List.mem_append_right _ (List.mem_singleton_self _)

/-- What was there stays in front. -/
theorem exists_insertNew_eq (m : List β) (v : β) : ∃ vs, insertNew key m v = m ++ vs := by
  by_cases h : key v ∈ m.map key
  · exact ⟨[], by rw [insertNew_of_mem h, List.append_nil]⟩
  · exact ⟨[v], insertNew_of_not_mem h⟩

/-- **A search after an insertion**: the old map answers first. -/
theorem findKey_insertNew (m : List β) (v : β) (k : κ) :
    findKey key (insertNew key m v) k = (findKey key m k).or (findKey key [v] k) := by
  by_cases h : key v ∈ m.map key
  · rw [insertNew_of_mem h, findKey_singleton]
    by_cases hk : key v = k
    · obtain ⟨w, hw⟩ := Option.ne_none_iff_exists'.mp (fun hn => findKey_eq_none_iff.mp hn h)
      rw [← hk, hw, Option.some_or]
    · rw [if_neg hk, Option.or_none]
  · rw [insertNew_of_not_mem h, findKey_append]

/-- **A search after a merge**: the old map answers first. -/
theorem findKey_mergeNew (m m' : List β) (k : κ) :
    findKey key (mergeNew key m m') k = (findKey key m k).or (findKey key m' k) := by
  induction m' generalizing m with
  | nil => simp
  | cons v m' ih =>
    rw [mergeNew_cons, ih, findKey_insertNew, Option.or_assoc, ← findKey_append,
      List.singleton_append]

/-- An insertion keeps keys unrepeated. -/
theorem nodup_insertNew (h : (m.map key).Nodup) (v : β) : ((insertNew key m v).map key).Nodup := by
  by_cases hv : key v ∈ m.map key
  · rwa [insertNew_of_mem hv]
  · rw [insertNew_of_not_mem hv, List.map_append]
    refine List.nodup_append.mpr ⟨h, by simp, ?_⟩
    rintro a ha b hb rfl
    rw [List.map_singleton, List.mem_singleton] at hb
    exact hv (hb ▸ ha)

/-- An insertion and a function that keeps keys commute. -/
theorem map_insertNew {β' : Type} {key' : β' → κ} {g : β → β'} (hg : ∀ v, key' (g v) = key v)
    (m : List β) (v : β) : (insertNew key m v).map g = insertNew key' (m.map g) (g v) := by
  have hkeys : (m.map g).map key' = m.map key := by
    rw [List.map_map]
    exact List.map_congr_left fun w _ => hg w
  by_cases hv : key v ∈ m.map key
  · rw [insertNew_of_mem hv, insertNew_of_mem (by rwa [hg, hkeys])]
  · rw [insertNew_of_not_mem hv, insertNew_of_not_mem (by rwa [hg, hkeys]), List.map_append,
      List.map_singleton]

/-- Merging a map with fresh and unrepeated keys appends it. -/
theorem mergeNew_of_disjoint {m' : List β} (h : ((m ++ m').map key).Nodup) :
    mergeNew key m m' = m ++ m' := by
  induction m' generalizing m with
  | nil => simp
  | cons v m' ih =>
    have hcons : m ++ v :: m' = m ++ [v] ++ m' := by simp
    have hv : key v ∉ m.map key := by
      intro hmem
      rw [List.map_append, List.map_cons] at h
      exact (List.nodup_append.mp h).2.2 _ hmem _ List.mem_cons_self rfl
    rw [mergeNew_cons, insertNew_of_not_mem hv, ih (hcons ▸ h), ← hcons]

end HawkTracer
