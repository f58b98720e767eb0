import Mathlib.Algebra.Ring.Int.Defs
import Mathlib.Algebra.Ring.Nat

/-!
# Arithmetic on `size_t`

Sums and products of `size_t` are computed modulo `2 ^ 64`. As long as nothing wraps around they
are those of the natural numbers.
-/

namespace HawkTracer.SizeT

variable {a b c : UInt64}

theorem toNat_mul_of_lt (h : a.toNat * b.toNat < 2 ^ 64) : (a * b).toNat = a.toNat * b.toNat := by
  rw [UInt64.toNat_mul]
  exact Nat.mod_eq_of_lt h

theorem toNat_add_of_lt (h : a.toNat + b.toNat < 2 ^ 64) : (a + b).toNat = a.toNat + b.toNat := by
  rw [UInt64.toNat_add]
  exact Nat.mod_eq_of_lt h

theorem toNat_sub_one (h : 0 < a.toNat) : (a - 1).toNat = a.toNat - 1 :=
  UInt64.toNat_sub_of_le _ _ (UInt64.le_iff_toNat_le.mpr h)

/-- An `int` that is not negative, converted to a `size_t`. -/
theorem toNat_ofInt_of_nonneg {n : ℤ} (h0 : 0 ≤ n) (h : n < 2 ^ 64) :
    (UInt64.ofInt n).toNat = n.toNat := by
  rw [UInt64.ofInt, Int.emod_eq_of_lt h0 h]
  exact UInt64.toNat_ofNat_of_lt' (show n.toNat < 2 ^ 64 by omega)

/-- The check whether there is less room than needed. -/
theorem sub_lt_iff (h : b.toNat ≤ a.toNat) : a - b < c ↔ a.toNat - b.toNat < c.toNat := by
  rw [UInt64.lt_iff_toNat_lt, UInt64.toNat_sub_of_le _ _ (UInt64.le_iff_toNat_le.mpr h)]

/-- The check whether less than a quarter is used of a capacity that has grown. -/
theorem shrinks_iff (capacity minCapacity size : UInt64) :
    capacity > minCapacity ∧ size < capacity / 4 ↔
      capacity.toNat > minCapacity.toNat ∧ size.toNat < capacity.toNat / 4 := by
  rw [gt_iff_lt, UInt64.lt_iff_toNat_lt, UInt64.lt_iff_toNat_lt, UInt64.toNat_div]
  rfl

end HawkTracer.SizeT
