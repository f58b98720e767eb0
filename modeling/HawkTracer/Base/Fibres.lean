import Mathlib.Algebra.BigOperators.Group.List.Basic

/-!
# Sums over the fibres of a key

A list is summed up by the keys of its elements: for every key of a list without repetition
there is the sum over the elements that have it. Together these sums are the sum over the
elements with one of the keys (`HawkTracer.sum_fibres`).
-/

namespace HawkTracer

variable {α κ M : Type} [AddCommMonoid M] [DecidableEq κ]

theorem sum_map_filter (p : α → Bool) (f : α → M) (l : List α) :
    ((l.filter p).map f).sum = (l.map fun a => if p a then f a else 0).sum := by
  induction l with
  | nil => rfl
  | cons a l ih =>
    rw [List.filter_cons, List.map_cons, List.sum_cons, ← ih]
    split
    · rw [List.map_cons, List.sum_cons]
    · rw [zero_add]

/-- **The sums over the fibres** add up to the sum over the elements that have one of the
keys. -/
theorem sum_fibres {key : α → κ} (f : α → M) {ks : List κ} (hks : ks.Nodup) {l : List α}
    {p : α → Bool} (hp : ∀ a ∈ l, p a = true ↔ key a ∈ ks) :
    (ks.map fun k => ((l.filter fun a => key a = k).map f).sum).sum = ((l.filter p).map f).sum := by
  induction ks generalizing p with
  | nil =>
    rw [List.filter_eq_nil_iff.mpr fun a ha hpa => List.not_mem_nil ((hp a ha).mp hpa)]
    rfl
  | cons k ks ih =>
    obtain ⟨hk, hks⟩ := List.nodup_cons.mp hks
    have hrest : ∀ a ∈ l, decide (key a ∈ ks) = true ↔ key a ∈ ks := fun a _ => decide_eq_true_iff
    rw [List.map_cons, List.sum_cons, ih hks hrest, sum_map_filter, sum_map_filter, sum_map_filter,
      ← List.sum_map_add]
    refine congrArg List.sum (List.map_congr_left fun a ha => ?_)
    have hpa := hp a ha
    by_cases hak : key a = k
    · simp [hpa, hak, hk]
    · simp [hpa, hak]

/-- Where every element has one of the keys, nothing is left out. -/
theorem sum_fibres_of_forall {key : α → κ} (f : α → M) {ks : List κ} (hks : ks.Nodup)
    {l : List α} (hl : ∀ a ∈ l, key a ∈ ks) :
    (ks.map fun k => ((l.filter fun a => key a = k).map f).sum).sum = (l.map f).sum := by
  have hall : ∀ a ∈ l, true = true ↔ key a ∈ ks := fun a ha => iff_of_true rfl (hl a ha)
  rw [sum_fibres f hks hall, List.filter_true]

end HawkTracer
