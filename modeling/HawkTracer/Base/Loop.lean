import Mathlib.Data.Nat.Notation

/-!
# Loops that may not end

A loop of the source whose end is not obvious is written with a bound on the number of times its
condition is tested, and has no result if it has not ended by then. That it ends is then a
theorem: from some number of tests on there is a result, always the same.
-/

namespace HawkTracer

variable {α β : Type} {f g : ℕ → β} {r : β} {m : ℕ}

/-- **The loop ends with the result**, if it may test its condition often enough. -/
def Ends (loop : ℕ → Option α) (result : α) : Prop := ∃ n, ∀ tests ≥ n, loop tests = some result

theorem Ends.unique {loop : ℕ → Option α} {a b : α} (ha : Ends loop a) (hb : Ends loop b) :
    a = b := by
  obtain ⟨m, hm⟩ := ha
  obtain ⟨n, hn⟩ := hb
  exact Option.some.inj ((hm (m + n) (Nat.le_add_right m n)).symm.trans
    (hn (m + n) (Nat.le_add_left n m)))

/-- The last test. -/
theorem forall_gt_of_succ (h : ∀ tests, f (tests + 1) = r) (m : ℕ) : ∀ tests > m, f tests = r := by
  rintro (_ | tests) htests
  · cases htests
  · exact h tests

/-- One test more than the rest of the loop needs. -/
theorem forall_gt_succ (h : ∀ tests, f (tests + 1) = g tests) (hg : ∀ tests > m, g tests = r) :
    ∀ tests > m + 1, f tests = r := by
  rintro (_ | tests) htests
  · cases htests
  · exact (h tests).trans (hg tests (Nat.lt_of_succ_lt_succ htests))

end HawkTracer
