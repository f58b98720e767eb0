import Mathlib.Data.Fintype.Card
import Mathlib.Data.Set.Finite.Basic
import Mathlib.Logic.Relation

/-!
# Recursion along a finite relation

A recursion that follows a relation comes to an end, from wherever it starts in a finite set
that it does not leave, exactly if no element of the set leads back to itself.
`HawkTracer.acc_iff_not_transGen` is what is used of this: the recursion is not given by a
number that gets smaller, so its end is said by `Acc`.
-/

namespace HawkTracer

variable {α : Type} {r : α → α → Prop}

/-- Where a recursion comes to an end it does not come back. -/
theorem not_transGen_of_acc {x : α} (h : Acc (fun y x => r x y) x) : ¬ Relation.TransGen r x x := by
  induction h with
  | intro x _ ih =>
    intro hcycle
    -- the first step of the cycle leads to an element of the same cycle
    obtain ⟨y, hxy, hyx⟩ := Relation.TransGen.head'_iff.mp hcycle
    exact ih y hxy (Relation.TransGen.tail' hyx hxy)

/-- **In a finite set without cycles every recursion comes to an end.** -/
theorem acc_of_not_transGen {s : Set α} (hs : s.Finite) (hclosed : ∀ x ∈ s, ∀ y, r x y → y ∈ s)
    (hno : ∀ x ∈ s, ¬ Relation.TransGen r x x) {x : α} (hx : x ∈ s) : Acc (fun y x => r x y) x := by
  have : Finite s := hs.to_subtype
  let below : s → s → Prop := fun y x => Relation.TransGen r x.1 y.1
  have : IsTrans s below := ⟨fun _ _ _ h h' => h'.trans h⟩
  have : Std.Irrefl below := ⟨fun y => hno y.1 y.2⟩
  have hacc : ∀ y : s, Acc (fun y x => r x y) y.1 := by
    intro y
    refine (Finite.wellFounded_of_trans_of_irrefl below).induction (C := fun y =>
      Acc (fun y x => r x y) y.1) y fun y ih => ?_
    exact Acc.intro y.1 fun z hz => ih ⟨z, hclosed y.1 y.2 z hz⟩ (.single hz)
  exact hacc ⟨x, hx⟩

/-- **The recursion comes to an end from every element that can be reached exactly if none of
them leads back to itself.** -/
theorem acc_iff_not_transGen {s : Set α} (hs : s.Finite) (hclosed : ∀ x ∈ s, ∀ y, r x y → y ∈ s) :
    (∀ x ∈ s, Acc (fun y x => r x y) x) ↔ ∀ x ∈ s, ¬ Relation.TransGen r x x :=
  ⟨fun h x hx => not_transGen_of_acc (h x hx), fun h _ hx => acc_of_not_transGen hs hclosed h hx⟩

end HawkTracer
