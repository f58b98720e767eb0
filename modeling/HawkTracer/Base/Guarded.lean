import Mathlib.Data.List.Basic

/-!
# Resources guarded by a mutex

A thread locks and unlocks a mutex and uses the resources it guards; a resource may be gone when
it is used. `HawkTracer.Disciplined` says that what a thread does is in order: the mutex is locked
only while it is free and unlocked only while it is held, and resources are used only while it is
held and only as long as they are there. A critical section is in order
(`HawkTracer.disciplined_section`).
-/

namespace HawkTracer

/-- What a thread does with a mutex and the resources it guards. -/
inductive GuardedAction (ρ : Type) where
  | lock
  | unlock
  /-- The use of a resource, and whether it was there. -/
  | use (resource : ρ) (live : Bool)

variable {ρ : Type} {as rest : List (GuardedAction ρ)}

/-- Whether the mutex is held after some actions. To unlock a free mutex leaves it free. -/
def heldAfter : Bool → List (GuardedAction ρ) → Bool
  | held, [] => held
  | _, .lock :: as => heldAfter true as
  | _, .unlock :: as => heldAfter false as
  | held, .use _ _ :: as => heldAfter held as

/-- **The actions are in order**, given whether the mutex is held. -/
def Disciplined : Bool → List (GuardedAction ρ) → Prop
  | _, [] => True
  | held, .lock :: as => held = false ∧ Disciplined true as
  | held, .unlock :: as => held = true ∧ Disciplined false as
  | held, .use _ live :: as => held = true ∧ live = true ∧ Disciplined held as

/-- The actions only use resources that are there. -/
def OnlyUses (as : List (GuardedAction ρ)) : Prop := ∀ a ∈ as, ∃ r, a = .use r true

theorem onlyUses_nil : OnlyUses ([] : List (GuardedAction ρ)) := fun _ ha =>
  absurd ha List.not_mem_nil

theorem OnlyUses.cons (h : OnlyUses as) (r : ρ) : OnlyUses (.use r true :: as) :=
  List.forall_mem_cons.mpr ⟨⟨r, rfl⟩, h⟩

theorem OnlyUses.append (h : OnlyUses as) (h' : OnlyUses rest) : OnlyUses (as ++ rest) := by
  intro a ha
  rcases List.mem_append.mp ha with ha | ha
  · exact h a ha
  · exact h' a ha

theorem OnlyUses.flatMap {α : Type} {f : α → List (GuardedAction ρ)} (h : ∀ x, OnlyUses (f x))
    (l : List α) : OnlyUses (l.flatMap f) := by
  intro a ha
  obtain ⟨x, -, hx⟩ := List.mem_flatMap.mp ha
  exact h x a hx

/-- Uses are in order while the mutex is held, which they leave as it is. -/
theorem OnlyUses.disciplined_append (h : OnlyUses as) (rest : List (GuardedAction ρ)) :
    (Disciplined true (as ++ rest) ↔ Disciplined true rest) ∧
      heldAfter true (as ++ rest) = heldAfter true rest := by
  induction as with
  | nil => exact ⟨Iff.rfl, rfl⟩
  | cons a as ih =>
    obtain ⟨⟨r, rfl⟩, has⟩ := List.forall_mem_cons.mp h
    obtain ⟨hiff, hheld⟩ := ih has
    refine ⟨?_, hheld⟩
    rw [List.cons_append, Disciplined, hiff]
    exact ⟨fun hd => hd.2.2, fun hd => ⟨rfl, rfl, hd⟩⟩

/-- A use without the mutex is out of order. -/
theorem not_disciplined_of_use (r : ρ) (live : Bool) : ¬ Disciplined false (.use r live :: as) :=
  fun h => Bool.false_ne_true h.1

/-- **A critical section.** -/
theorem disciplined_section (h : OnlyUses as) :
    Disciplined false (.lock :: (as ++ [.unlock])) ∧
      heldAfter false (.lock :: (as ++ [.unlock])) = false := by
  obtain ⟨hiff, hheld⟩ := h.disciplined_append [.unlock]
  exact ⟨⟨rfl, hiff.mpr ⟨rfl, trivial⟩⟩, hheld⟩

/-- A critical section that has not come to its end. -/
theorem disciplined_lock (h : OnlyUses as) : Disciplined false (.lock :: as) := by
  obtain ⟨hiff, -⟩ := h.disciplined_append []
  rw [List.append_nil] at hiff
  exact ⟨rfl, hiff.mpr trivial⟩

end HawkTracer
