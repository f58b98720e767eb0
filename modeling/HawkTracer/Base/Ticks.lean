import Mathlib.Algebra.BigOperators.Fin
import Mathlib.Algebra.Group.Fin.Basic
import Mathlib.Algebra.Order.BigOperators.Group.Finset
import Mathlib.Data.Fintype.BigOperators

/-!
# Ticks of a clock

A clock has finitely many readings and then starts again. An interval is given by its first
tick and its length, and it may run past the last reading of the clock; it has as many ticks as
its length says (`HawkTracer.Ticks.sum_within`). The total length of some intervals is therefore
the sum, over all ticks, of the number of intervals that are running
(`HawkTracer.Ticks.sum_countP`), and it is less than the number of readings if no two of them
run at the same time and there is a tick at which none does
(`HawkTracer.Ticks.sum_lt_of_le_one`).
-/

namespace HawkTracer.Ticks

variable {n : ℕ} [NeZero n]

/-- The interval from the tick `s` on, `d` ticks long, is running at the tick `t`. -/
def within (s : Fin n) (d : ℕ) (t : Fin n) : Bool := decide ((t - s).val < d)

omit [NeZero n] in
theorem sum_lt {d : ℕ} (hd : d ≤ n) : (∑ t : Fin n, if t.val < d then 1 else 0) = d := by
  rw [Fin.sum_univ_eq_sum_range (fun t => if t < d then 1 else 0), Finset.sum_boole,
    Nat.cast_id]
  have hfilter : (Finset.range n).filter (fun t => t < d) = Finset.range d := by
    ext t
    simp only [Finset.mem_filter, Finset.mem_range]
    omega
  rw [hfilter, Finset.card_range]

/-- **An interval has as many ticks as its length says.** -/
theorem sum_within (s : Fin n) {d : ℕ} (hd : d ≤ n) : (∑ t, if within s d t then 1 else 0) = d := by
  calc (∑ t, if within s d t then 1 else 0)
      = ∑ t : Fin n, if (Equiv.subRight s t).val < d then 1 else 0 := by
        refine Finset.sum_congr rfl fun t _ => ?_
        simp only [within, decide_eq_true_eq]
        rfl
    _ = ∑ t : Fin n, if t.val < d then 1 else 0 :=
        Equiv.sum_comp (Equiv.subRight s) fun t : Fin n => if t.val < d then 1 else 0
    _ = d := sum_lt hd

omit [NeZero n] in
/-- An interval that ends before the clock starts again. -/
theorem within_iff {s t : Fin n} {d : ℕ} (hd : s.val + d ≤ n) :
    within s d t = true ↔ s.val ≤ t.val ∧ t.val < s.val + d := by
  rw [within, decide_eq_true_eq, Fin.val_sub]
  have hs := s.isLt
  have ht := t.isLt
  rcases Nat.lt_or_ge t.val s.val with hlt | hge
  · rw [Nat.mod_eq_of_lt (by omega)]
    omega
  · have hmod : (n - s.val + t.val) % n = t.val - s.val := by
      rw [show n - s.val + t.val = t.val - s.val + n by omega, Nat.add_mod_right,
        Nat.mod_eq_of_lt (by omega)]
    rw [hmod]
    omega

variable {T α : Type} [Fintype T]

/-- **The loads over all ticks** are the lengths of all intervals. -/
theorem sum_countP (r : α → T → Bool) (l : List α) :
    ∑ t, l.countP (fun a => r a t) = (l.map fun a => ∑ t, if r a t then 1 else 0).sum := by
  induction l with
  | nil => simp
  | cons a l ih =>
    rw [List.map_cons, List.sum_cons, ← ih, ← Finset.sum_add_distrib]
    refine Finset.sum_congr rfl fun t _ => ?_
    rw [List.countP_cons, Nat.add_comm]

/-- **Intervals one after another** that leave one tick free fit on the clock. -/
theorem sum_lt_of_le_one {f : T → ℕ} (hle : ∀ t, f t ≤ 1) {t : T} (hfree : f t = 0) :
    ∑ t, f t < Fintype.card T := by
  calc ∑ t, f t < ∑ _t : T, 1 :=
        Finset.sum_lt_sum (fun t _ => hle t) ⟨t, Finset.mem_univ t, by omega⟩
    _ = Fintype.card T := by rw [Finset.sum_const, Finset.card_univ, smul_eq_mul, mul_one]

end HawkTracer.Ticks
