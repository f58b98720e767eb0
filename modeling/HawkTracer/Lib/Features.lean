import HawkTracer.Base.Run
import Mathlib.Algebra.Ring.Nat
import Mathlib.Data.List.Nodup
import Mathlib.Data.Nat.Basic

/-!
# Features of a timeline

A feature klass gets its identifier from a global counter that stops at
`HT_TIMELINE_MAX_FEATURES`, and the identifier is the index of the klass in the feature array
of every timeline. `ht_timeline_set_feature` looks at the identifier before it uses it;
`ht_timeline_get_feature` does not.

`HawkTracer.Lib.Features` is the state these functions work on, and
`HawkTracer.Lib.FeatureTrace` adds what a caller knows from the answers: which klasses were
registered, which object was set for a klass, what a lookup read.
`HawkTracer.Lib.FeatureTrace.Correct` is what the caller relies on. It fails when a klass
without an identifier is looked up (`HawkTracer.Lib.FeatureTrace.lookup_of_refused_klass`: one
klass more than there are slots is enough), since the invalid identifier is used as an index;
`HawkTracer.Lib.FeatureTrace.correct_iff` is the exact condition on a run.
-/

namespace HawkTracer.Lib

/-- `HT_TIMELINE_MAX_FEATURES`. -/
def timelineMaxFeatures : ℕ := 32

/-- `HT_INVALID_FEATURE_ID`. -/
def invalidFeatureId : UInt32 := 4294967295

/-- The answers of the functions on features. -/
inductive FeatureError where
  | ok
  | featureNotRegistered
  | featureAlreadyRegistered
  | maxFeatureCountReached
  deriving DecidableEq, Repr

/-- **The state of the features**: klasses `κ`, feature objects `φ`, timelines `τ`. -/
structure Features (κ φ τ : Type) where
  featureCount : ℕ
  featureRegister : List Bool
  /-- `id` of the klass objects. -/
  klassId : κ → UInt32
  /-- `features` of the timelines. -/
  features : τ → List (Option φ)
  /-- The objects whose `destroy` has been called, in order. -/
  destroyed : List φ

namespace Features

variable {κ φ τ : Type}

section Code

variable [DecidableEq κ] [DecidableEq τ] (klass : φ → κ)

/-- `ht_registry_register_feature`. -/
def registerFeature (s : Features κ φ τ) (k : κ) : FeatureError × Features κ φ τ :=
  -- on the two failures the identifier that is written to the klass is the one it has
  if s.klassId k ≠ invalidFeatureId then (.featureAlreadyRegistered, s)
  else if s.featureCount = timelineMaxFeatures then (.maxFeatureCountReached, s)
  else (.ok, { s with
    featureCount := s.featureCount + 1
    featureRegister := s.featureRegister.set s.featureCount true
    klassId := Function.update s.klassId k (UInt32.ofNat s.featureCount) })

/-- The `error_code` of `ht_timeline_set_feature`. -/
def setFeatureError (s : Features κ φ τ) (t : τ) (f : φ) : FeatureError :=
  let id := s.klassId (klass f)
  if id = invalidFeatureId ∨ timelineMaxFeatures ≤ id.toNat then .featureNotRegistered
  else if ((s.features t)[id.toNat]?.join).isSome then .featureAlreadyRegistered
  else .ok

/-- `ht_timeline_set_feature`. -/
def setFeature (s : Features κ φ τ) (t : τ) (f : φ) : FeatureError × Features κ φ τ :=
  let e := s.setFeatureError klass t f
  if e = .ok then
    (e, { s with
      features := Function.update s.features t
        ((s.features t).set (s.klassId (klass f)).toNat (some f)) })
  else (e, { s with destroyed := s.destroyed ++ [f] })

/-- `ht_timeline_get_feature`; `none` is a read outside the array of the timeline. -/
def getFeature (s : Features κ φ τ) (t : τ) (k : κ) : Option (Option φ) :=
  (s.features t)[(s.klassId k).toNat]?

/-- The loop over the features in `ht_timeline_destroy`. -/
def destroyFeatures (s : Features κ φ τ) (t : τ) : Features κ φ τ :=
  { s with
    destroyed := s.destroyed ++ (s.features t).filterMap id
    features := Function.update s.features t (List.replicate timelineMaxFeatures none) }

end Code

/-- No klass is registered, and the features of all timelines are zeroed by
`ht_timeline_create`. -/
def start : Features κ φ τ where
  featureCount := 0
  featureRegister := List.replicate timelineMaxFeatures false
  klassId _ := invalidFeatureId
  features _ := List.replicate timelineMaxFeatures none
  destroyed := []

end Features

/-- **The features with what a caller has learnt from the answers.** -/
structure FeatureTrace (κ φ τ : Type) where
  state : Features κ φ τ
  /-- The klasses whose registration succeeded. -/
  registered : List κ
  /-- The object that was successfully set for a klass on a timeline. -/
  owner : τ → κ → Option φ
  /-- The objects passed to `ht_timeline_set_feature`, with the timeline. -/
  given : List (τ × φ)
  /-- What each lookup read, and the object that was set. -/
  lookups : List (Option (Option φ) × Option φ)
  /-- Whether the timeline has not been destroyed yet. -/
  live : τ → Bool

namespace FeatureTrace

variable {κ φ τ : Type}

/-- A call. -/
inductive Op (κ φ τ : Type) where
  | registerFeature (k : κ)
  | setFeature (t : τ) (f : φ)
  | getFeature (t : τ) (k : κ)
  | destroy (t : τ)

section Step

variable [DecidableEq κ] [DecidableEq τ] (klass : φ → κ)

/-- What a call does; `klass` is the klass a feature object carries. -/
def step (r : FeatureTrace κ φ τ) : Op κ φ τ → FeatureTrace κ φ τ
  | .registerFeature k =>
    let (e, s) := r.state.registerFeature k
    { r with state := s, registered := if e = .ok then r.registered ++ [k] else r.registered }
  | .setFeature t f =>
    let (e, s) := r.state.setFeature klass t f
    { r with
      state := s
      given := r.given ++ [(t, f)]
      owner := if e = .ok then
        Function.update r.owner t (Function.update (r.owner t) (klass f) (some f)) else r.owner }
  | .getFeature t k =>
    { r with lookups := r.lookups ++ [(r.state.getFeature t k, r.owner t k)] }
  | .destroy t =>
    { r with state := r.state.destroyFeatures t, live := Function.update r.live t false }

/-- Nothing has been called. -/
def start : FeatureTrace κ φ τ where
  state := .start
  registered := []
  owner _ _ := none
  given := []
  lookups := []
  live _ := true

end Step

/-- A timeline is used until it is destroyed, and feature objects are fresh. -/
def Allowed (r : FeatureTrace κ φ τ) : Op κ φ τ → Prop
  | .registerFeature _ => True
  | .setFeature t f => r.live t = true ∧ f ∉ r.given.map Prod.snd
  | .getFeature t _ => r.live t = true
  | .destroy t => r.live t = true

instance Allowed.decidable [DecidableEq φ] (r : FeatureTrace κ φ τ) :
    ∀ o, Decidable (Allowed r o)
  | .registerFeature _ => inferInstanceAs (Decidable True)
  | .setFeature t f => inferInstanceAs (Decidable (r.live t = true ∧ f ∉ r.given.map Prod.snd))
  | .getFeature t _ => inferInstanceAs (Decidable (r.live t = true))
  | .destroy t => inferInstanceAs (Decidable (r.live t = true))

/-- **What the caller relies on.** A lookup reads inside the array and returns the object that
was set; klasses that were registered have different identifiers; and an object passed to
`ht_timeline_set_feature` has been destroyed once, unless its timeline still owns it. -/
structure Correct [DecidableEq φ] (klass : φ → κ) (r : FeatureTrace κ φ τ) : Prop where
  lookup : ∀ l ∈ r.lookups, l.1 = some l.2
  distinct : ∀ k ∈ r.registered, ∀ k' ∈ r.registered,
    r.state.klassId k = r.state.klassId k' → k = k'
  destroyed : ∀ p ∈ r.given, r.state.destroyed.count p.2 =
    if r.live p.1 = true ∧ r.owner p.1 (klass p.2) = some p.2 then 0 else 1

/-- **The lookups that are correct**: those of a klass that has an identifier. -/
def LooksUpRegistered (r : FeatureTrace κ φ τ) : Op κ φ τ → Prop
  | .getFeature _ k => r.state.klassId k ≠ invalidFeatureId
  | _ => True

instance LooksUpRegistered.decidable (r : FeatureTrace κ φ τ) :
    ∀ o, Decidable (LooksUpRegistered r o)
  | .getFeature _ k => inferInstanceAs (Decidable (r.state.klassId k ≠ invalidFeatureId))
  | .registerFeature _ | .setFeature _ _ | .destroy _ => inferInstanceAs (Decidable True)

/-! ### What always holds -/

/-- **What holds in every state**, correct or not. The slots of a timeline are those of the
klasses in the order of their registration. -/
structure Kept [DecidableEq κ] [DecidableEq φ] (klass : φ → κ) (r : FeatureTrace κ φ τ) : Prop where
  count_le : r.registered.length ≤ timelineMaxFeatures
  count_eq : r.state.featureCount = r.registered.length
  nodup : r.registered.Nodup
  klassId_of_mem : ∀ k ∈ r.registered, r.state.klassId k = UInt32.ofNat (r.registered.idxOf k)
  klassId_of_notMem : ∀ k, k ∉ r.registered → r.state.klassId k = invalidFeatureId
  slots : ∀ t, r.live t = true → r.state.features t = r.registered.map (r.owner t) ++
    List.replicate (timelineMaxFeatures - r.registered.length) none
  owned : ∀ t k f, r.owner t k = some f → klass f = k ∧ k ∈ r.registered ∧ (t, f) ∈ r.given
  given : (r.given.map Prod.snd).Nodup
  destroyed_given : ∀ f ∈ r.state.destroyed, f ∈ r.given.map Prod.snd
  destroyed : ∀ p ∈ r.given, r.state.destroyed.count p.2 =
    if r.live p.1 = true ∧ r.owner p.1 (klass p.2) = some p.2 then 0 else 1

section Invariant

variable [DecidableEq κ] [DecidableEq φ] {klass : φ → κ} {r : FeatureTrace κ φ τ} {t : τ} {k : κ}
  {f : φ}

section

variable (h : Kept klass r)

include h

theorem Kept.toNat_klassId (hk : k ∈ r.registered) :
    (r.state.klassId k).toNat = r.registered.idxOf k := by
  have hlt := List.idxOf_lt_length_of_mem hk
  have hle : r.registered.length ≤ 32 := h.count_le
  rw [h.klassId_of_mem k hk, UInt32.toNat_ofNat_of_lt' (by omega : _ < 2 ^ 32)]

omit h in
theorem toNat_invalidFeatureId : invalidFeatureId.toNat = 2 ^ 32 - 1 := rfl

/-- The klasses with an identifier are the registered ones. -/
theorem Kept.klassId_ne_iff : r.state.klassId k ≠ invalidFeatureId ↔ k ∈ r.registered := by
  constructor
  · intro hne
    by_contra hk
    exact hne (h.klassId_of_notMem k hk)
  · intro hk heq
    have hnat := h.toNat_klassId hk
    rw [heq, toNat_invalidFeatureId] at hnat
    have hlt := List.idxOf_lt_length_of_mem hk
    have hle : r.registered.length ≤ 32 := h.count_le
    omega

theorem Kept.length_features (ht : r.live t = true) :
    (r.state.features t).length = timelineMaxFeatures := by
  have hle := h.count_le
  rw [h.slots t ht, List.length_append, List.length_map, List.length_replicate]
  omega

/-- **A lookup of a registered klass returns what was set.** -/
theorem Kept.getFeature_of_mem (ht : r.live t = true) (hk : k ∈ r.registered) :
    r.state.getFeature t k = some (r.owner t k) := by
  have hlt := List.idxOf_lt_length_of_mem hk
  rw [Features.getFeature, h.toNat_klassId hk, h.slots t ht,
    List.getElem?_append_left (by rwa [List.length_map]), List.getElem?_map,
    List.getElem?_idxOf hk, Option.map_some]

/-- **A lookup of any other klass reads outside the array.** -/
theorem Kept.getFeature_of_notMem (ht : r.live t = true) (hk : k ∉ r.registered) :
    r.state.getFeature t k = none := by
  rw [Features.getFeature, h.klassId_of_notMem k hk, List.getElem?_eq_none_iff,
    h.length_features ht, toNat_invalidFeatureId, timelineMaxFeatures]
  omega

/-- When an object is accepted: its klass is registered, and nothing is set for it. -/
theorem Kept.setFeatureError_eq_ok_iff (ht : r.live t = true) :
    r.state.setFeatureError klass t f = .ok ↔
      klass f ∈ r.registered ∧ r.owner t (klass f) = none := by
  by_cases hk : klass f ∈ r.registered
  · have hlt : ¬timelineMaxFeatures ≤ (r.state.klassId (klass f)).toNat := by
      have hidx := List.idxOf_lt_length_of_mem hk
      have hle := h.count_le
      rw [h.toNat_klassId hk]
      omega
    have hget : (r.state.features t)[(r.state.klassId (klass f)).toNat]? = _ :=
      h.getFeature_of_mem ht hk
    rw [Features.setFeatureError, if_neg (not_or.mpr ⟨h.klassId_ne_iff.mpr hk, hlt⟩), hget]
    rcases r.owner t (klass f) with _ | f' <;> simp [hk]
  · rw [Features.setFeatureError, if_pos (.inl (h.klassId_of_notMem _ hk))]
    simp [hk]

/-- An object that has not been passed before is set nowhere and not destroyed. -/
theorem Kept.fresh (hf : f ∉ r.given.map Prod.snd) :
    (∀ t k, r.owner t k ≠ some f) ∧ r.state.destroyed.count f = 0 := by
  refine ⟨fun t k heq => hf (List.mem_map_of_mem (h.owned t k f heq).2.2), ?_⟩
  rw [List.count_eq_zero]
  exact fun hmem => hf (h.destroyed_given f hmem)

/-- What a timeline owns, read off its array: each object once. -/
theorem Kept.count_features (ht : r.live t = true) (f : φ) :
    ((r.state.features t).filterMap id).count f =
      if r.owner t (klass f) = some f then 1 else 0 := by
  have hpad : ((List.replicate (timelineMaxFeatures - r.registered.length) none).filterMap id :
      List φ) = [] := by simp
  rw [h.slots t ht, List.filterMap_append, hpad, List.append_nil, List.filterMap_map,
    Function.id_comp]
  have hnodup : (r.registered.filterMap (r.owner t)).Nodup :=
    h.nodup.filterMap fun k k' f' hk hk' =>
      ((h.owned t k f' hk).1.symm.trans (h.owned t k' f' hk').1)
  split
  · next heq =>
    exact List.count_eq_one_of_mem hnodup (List.mem_filterMap.mpr ⟨_, (h.owned t _ f heq).2.1, heq⟩)
  · next hne =>
    rw [List.count_eq_zero]
    intro hmem
    obtain ⟨k, -, hk⟩ := List.mem_filterMap.mp hmem
    exact hne ((h.owned t k f hk).1 ▸ hk)

/-- Correctness is a matter of the lookups. -/
theorem Kept.correct_iff_lookup : Correct klass r ↔ ∀ l ∈ r.lookups, l.1 = some l.2 := by
  refine ⟨Correct.lookup, fun hl => ⟨hl, fun k hk k' hk' heq => ?_, h.destroyed⟩⟩
  have hidx := congrArg UInt32.toNat heq
  rw [h.toNat_klassId hk, h.toNat_klassId hk'] at hidx
  exact (List.idxOf_inj hk).mp hidx

end

end Invariant

/-! ### Steps -/

section Steps

variable [DecidableEq κ] [DecidableEq φ] [DecidableEq τ] {klass : φ → κ} {r : FeatureTrace κ φ τ}

omit [DecidableEq τ] in
theorem kept_start : Kept klass (start : FeatureTrace κ φ τ) where
  count_le := Nat.zero_le _
  count_eq := rfl
  nodup := List.nodup_nil
  klassId_of_mem k hk := absurd hk List.not_mem_nil
  klassId_of_notMem _ _ := rfl
  slots _ _ := rfl
  owned t k f hf := by cases hf
  given := List.nodup_nil
  destroyed_given f hf := absurd hf List.not_mem_nil
  destroyed p hp := absurd hp List.not_mem_nil

theorem Kept.registerFeature (h : Kept klass r) (k : κ) :
    Kept klass (r.step klass (.registerFeature k)) := by
  simp only [step, Features.registerFeature]
  split
  · exact h
  · split
    · exact h
    · next hid hcount =>
      rw [h.count_eq] at hcount
      have hk : k ∉ r.registered := fun hk => hid (h.klassId_ne_iff.mpr hk)
      have hlt : r.registered.length < timelineMaxFeatures := Nat.lt_of_le_of_ne h.count_le hcount
      simp only [if_true]
      refine ⟨?_, ?_, ?_, ?_, ?_, ?_, ?_, h.given, h.destroyed_given, h.destroyed⟩ <;> dsimp only
      · rw [List.length_append]
        exact hlt
      · simp [h.count_eq]
      · rw [← List.concat_eq_append]
        exact h.nodup.concat hk
      · intro k' hk'
        by_cases heq : k' = k
        · subst heq
          rw [Function.update_self, h.count_eq, List.idxOf_append_of_notMem hk,
            List.idxOf_cons_self, Nat.add_zero]
        · have hk'' : k' ∈ r.registered := by simpa [heq] using hk'
          rw [Function.update_of_ne heq, h.klassId_of_mem k' hk'', List.idxOf_append_of_mem hk'']
      · intro k' hk'
        rw [List.mem_append, not_or, List.mem_singleton] at hk'
        rw [Function.update_of_ne hk'.2, h.klassId_of_notMem k' hk'.1]
      · intro t ht
        -- the klass takes over the first free slot, and nothing is set for it
        have hnone : r.owner t k = none := by
          rcases hf : r.owner t k with _ | f
          · rfl
          · exact absurd (h.owned t k f hf).2.1 hk
        have hpad : timelineMaxFeatures - r.registered.length =
            timelineMaxFeatures - (r.registered ++ [k]).length + 1 := by
          rw [List.length_append, List.length_singleton]
          omega
        rw [h.slots t ht, hpad, List.replicate_succ, List.map_append, List.append_assoc,
          List.map_singleton, hnone, List.singleton_append]
      · intro t k' f hf
        obtain ⟨hkl, hmem, hgiven⟩ := h.owned t k' f hf
        exact ⟨hkl, List.mem_append_left _ hmem, hgiven⟩

section Owners

variable {owner : τ → κ → Option φ} {t t' : τ} {k k' : κ} {f f' : φ}

omit [DecidableEq φ] in
/-- What is set once a feature has been set for a timeline. -/
theorem update_owner_cases
    (h : Function.update owner t (Function.update (owner t) k (some f)) t' k' = some f') :
    (t' = t ∧ k' = k ∧ f' = f) ∨ owner t' k' = some f' := by
  by_cases ht : t' = t
  · subst ht
    rw [Function.update_self] at h
    by_cases hk : k' = k
    · subst hk
      rw [Function.update_self] at h
      exact .inl ⟨rfl, rfl, (Option.some.inj h).symm⟩
    · rw [Function.update_of_ne hk] at h
      exact .inr h
  · rw [Function.update_of_ne ht] at h
    exact .inr h

omit [DecidableEq φ] in
/-- What is set for another object has not changed. -/
theorem update_owner_iff_of_ne (hnone : owner t k = none) (hne : f' ≠ f) :
    Function.update owner t (Function.update (owner t) k (some f)) t' k' = some f' ↔
      owner t' k' = some f' := by
  constructor
  · intro h
    rcases update_owner_cases h with ⟨-, -, heq⟩ | h
    · exact absurd heq hne
    · exact h
  · intro h
    by_cases ht : t' = t
    · subst ht
      have hk : k' ≠ k := fun heq => by
        rw [heq, hnone] at h
        cases h
      rw [Function.update_self, Function.update_of_ne hk, h]
    · rw [Function.update_of_ne ht, h]

end Owners

omit [DecidableEq τ] in
theorem Kept.nodup_given (h : Kept klass r) {t : τ} {f : φ} (hf : f ∉ r.given.map Prod.snd) :
    ((r.given ++ [(t, f)]).map Prod.snd).Nodup := by
  rw [List.map_append, List.map_singleton, ← List.concat_eq_append]
  exact h.given.concat hf

section

variable (h : Kept klass r)

include h

/-- A feature that is taken. -/
theorem Kept.setFeature_ok {t : τ} {f : φ} (ht : r.live t = true) (hf : f ∉ r.given.map Prod.snd)
    (hok : r.state.setFeatureError klass t f = .ok) :
    Kept klass (r.step klass (.setFeature t f)) := by
  obtain ⟨-, hcount⟩ := h.fresh hf
  obtain ⟨hk, hnone⟩ := (h.setFeatureError_eq_ok_iff ht).mp hok
  simp only [step, Features.setFeature, hok, if_true]
  refine ⟨h.count_le, h.count_eq, h.nodup, h.klassId_of_mem, h.klassId_of_notMem, ?_, ?_,
    h.nodup_given hf, ?_, ?_⟩ <;> dsimp only
  · intro t' ht'
    by_cases heq : t' = t
    · subst heq
      have hidx : r.registered.idxOf (klass f) < (r.registered.map (r.owner t')).length := by
        rw [List.length_map]
        exact List.idxOf_lt_length_of_mem hk
      rw [Function.update_self, Function.update_self, h.nodup.map_update, if_pos hk,
        h.slots t' ht', h.toNat_klassId hk, List.set_append_left _ _ hidx]
    · rw [Function.update_of_ne heq, Function.update_of_ne heq, h.slots t' ht']
  · intro t' k' f' hf'
    rcases update_owner_cases hf' with ⟨rfl, rfl, rfl⟩ | hold
    · exact ⟨rfl, hk, by simp⟩
    · obtain ⟨hkl, hmem, hg⟩ := h.owned t' k' f' hold
      exact ⟨hkl, hmem, List.mem_append_left _ hg⟩
  · intro f' hf'
    rw [List.map_append]
    exact List.mem_append_left _ (h.destroyed_given f' hf')
  · intro p hp
    rcases List.mem_append.mp hp with hp | hp
    · have hne : p.2 ≠ f := fun heq => hf (heq ▸ List.mem_map_of_mem hp)
      rw [h.destroyed p hp]
      simp only [update_owner_iff_of_ne hnone hne]
    · obtain rfl := List.mem_singleton.mp hp
      simp [ht, hcount]

/-- A feature that is refused is destroyed. -/
theorem Kept.setFeature_refused {t : τ} {f : φ} (hf : f ∉ r.given.map Prod.snd)
    (hok : r.state.setFeatureError klass t f ≠ .ok) :
    Kept klass (r.step klass (.setFeature t f)) := by
  obtain ⟨howner, hcount⟩ := h.fresh hf
  simp only [step, Features.setFeature, hok, if_false]
  refine { h with owned := ?_, given := h.nodup_given hf, destroyed_given := ?_, destroyed := ?_ }
    <;> dsimp only
  · intro t' k' f' hf'
    obtain ⟨hkl, hmem, hg⟩ := h.owned t' k' f' hf'
    exact ⟨hkl, hmem, List.mem_append_left _ hg⟩
  · intro f' hf'
    rw [List.map_append]
    rcases List.mem_append.mp hf' with hf' | hf'
    · exact List.mem_append_left _ (h.destroyed_given f' hf')
    · exact List.mem_append_right _ hf'
  · intro p hp
    rw [List.count_append]
    rcases List.mem_append.mp hp with hp | hp
    · have hzero : List.count p.2 [f] = 0 := List.count_eq_zero.mpr fun hmem =>
        hf (List.mem_singleton.mp hmem ▸ List.mem_map_of_mem hp)
      rw [h.destroyed p hp, hzero, Nat.add_zero]
    · obtain rfl := List.mem_singleton.mp hp
      simp [hcount, howner]

theorem Kept.setFeature {t : τ} {f : φ} (ht : r.live t = true) (hf : f ∉ r.given.map Prod.snd) :
    Kept klass (r.step klass (.setFeature t f)) := by
  by_cases hok : r.state.setFeatureError klass t f = .ok
  · exact h.setFeature_ok ht hf hok
  · exact h.setFeature_refused hf hok

theorem Kept.getFeature (t : τ) (k : κ) : Kept klass (r.step klass (.getFeature t k)) :=
  { h with }

theorem Kept.destroy {t : τ} (ht : r.live t = true) : Kept klass (r.step klass (.destroy t)) := by
  refine { h with slots := ?_, destroyed_given := ?_, destroyed := ?_ }
  · intro t' ht'
    by_cases heq : t' = t
    · rw [heq] at ht'
      simp [step] at ht'
    · simp only [step, Features.destroyFeatures, Function.update_of_ne heq] at ht' ⊢
      exact h.slots t' ht'
  · intro f hf
    rcases List.mem_append.mp hf with hf | hf
    · exact h.destroyed_given f hf
    · have hcount := List.count_pos_iff.mpr hf
      rw [h.count_features ht] at hcount
      split at hcount
      · next howner => exact List.mem_map_of_mem (h.owned t _ f howner).2.2
      · exact absurd hcount (lt_irrefl 0)
  · intro p hp
    simp only [step, Features.destroyFeatures, List.count_append]
    rw [h.destroyed p hp, h.count_features ht]
    by_cases howner : r.owner t (klass p.2) = some p.2
    · -- an object is passed once, so what the timeline owns was passed for it
      have heq : p = (t, p.2) := List.inj_on_of_nodup_map h.given hp (h.owned t _ _ howner).2.2 rfl
      have hp1 : p.1 = t := congrArg Prod.fst heq
      simp [hp1, ht, howner]
    · by_cases hp1 : p.1 = t
      · simp [hp1, howner]
      · simp [hp1, howner]

theorem Kept.step {o : Op κ φ τ} (ho : Allowed r o) : Kept klass (r.step klass o) := by
  cases o with
  | registerFeature k => exact h.registerFeature k
  | setFeature t f => exact h.setFeature ho.1 ho.2
  | getFeature t k => exact h.getFeature t k
  | destroy t => exact h.destroy ho

/-- **A call keeps the state correct exactly if it does not look up a klass without an
identifier.** -/
theorem correct_step_iff {o : Op κ φ τ} (ho : Allowed r o) (hr : Correct klass r) :
    Correct klass (r.step klass o) ↔ LooksUpRegistered r o := by
  rw [(h.step ho).correct_iff_lookup]
  cases o with
  | registerFeature k | setFeature t f | destroy t => exact iff_of_true hr.lookup trivial
  | getFeature t k =>
    rw [LooksUpRegistered, h.klassId_ne_iff]
    constructor
    · intro hl
      have hread := hl _ (List.mem_append_right _ (List.mem_singleton_self _))
      by_contra hk
      rw [h.getFeature_of_notMem ho hk] at hread
      cases hread
    · intro hk l hl
      rcases List.mem_append.mp hl with hl | hl
      · exact hr.lookup l hl
      · obtain rfl := List.mem_singleton.mp hl
        exact h.getFeature_of_mem ho hk

end

/-- **Features are looked up and destroyed correctly exactly if no klass without an identifier
is looked up**, for any klasses, objects and timelines. -/
theorem correct_iff {os : List (Op κ φ τ)} (hos : StepsMeet (step klass) Allowed start os) :
    Throughout (step klass) (Correct klass) (start : FeatureTrace κ φ τ) os ↔
      StepsMeet (step klass) LooksUpRegistered start os :=
  throughout_iff_of_step (J := Kept klass) (fun _ _ h ho => h.step ho)
    (fun _ _ h ho hr => correct_step_iff h ho hr) kept_start
    (kept_start.correct_iff_lookup.mpr fun _ hl => absurd hl List.not_mem_nil) hos

/-- Thirty-three klasses are registered and the last one, which is refused, is looked up. -/
theorem lookup_of_refused_klass :
    StepsMeet (step id) Allowed (start : FeatureTrace ℕ ℕ Unit)
        ((List.range 33).map .registerFeature ++ [.getFeature () 32]) ∧
      ¬Throughout (step id) (Correct id) (start : FeatureTrace ℕ ℕ Unit)
        ((List.range 33).map .registerFeature ++ [.getFeature () 32]) := by
  refine ⟨by decide +kernel, fun h => ?_⟩
  have hread : (runFrom (step id) (start : FeatureTrace ℕ ℕ Unit)
      ((List.range 33).map .registerFeature ++ [.getFeature () 32])).lookups = [(none, none)] := by
    decide +kernel
  have hl := h.last.lookup (none, none) (by rw [hread]; exact List.mem_singleton_self _)
  cases hl

/-- A klass is registered and set on two timelines, on one of them twice, looked up and the
timelines destroyed. -/
theorem correct_of_two_timelines :
    Throughout (step fun p : ℕ × ℕ => p.1) (Correct fun p => p.1)
      (start : FeatureTrace ℕ (ℕ × ℕ) Bool)
      [.registerFeature 5, .setFeature true (5, 0), .setFeature false (5, 1),
        .setFeature true (5, 2), .getFeature true 5, .destroy true, .destroy false] :=
  (correct_iff (by decide)).mpr (by decide)

end Steps

end FeatureTrace

end HawkTracer.Lib
