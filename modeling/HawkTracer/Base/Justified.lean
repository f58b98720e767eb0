import Mathlib.Data.List.Induction

/-!
# Lists whose entries need entries before them

Many rules about streams have one shape: an entry may stand only where the entries before it
allow it. `HawkTracer.Justified` is that shape, for a relation `P` between a list and an entry
that may come next. A list grows at its end, so what matters is how the rule passes to a list
with one more entry (`HawkTracer.justified_append_singleton_iff`).
-/

namespace HawkTracer

variable {α : Type} {P : List α → α → Prop}

/-- Every entry of the list is allowed by the entries before it. -/
def Justified (P : List α → α → Prop) (l : List α) : Prop :=
  ∀ before a after, l = before ++ a :: after → P before a

theorem justified_nil : Justified P [] := by
  intro before a after h
  cases before <;> cases h

/-- **One more entry.** -/
theorem justified_append_singleton_iff {l : List α} {a : α} :
    Justified P (l ++ [a]) ↔ Justified P l ∧ P l a := by
  constructor
  · intro h
    refine ⟨fun before b after hl => h before b (after ++ [a]) ?_, h l a [] rfl⟩
    rw [hl, List.append_assoc, List.cons_append]
  · rintro ⟨hl, ha⟩ before b after heq
    rcases List.eq_nil_or_concat after with rfl | ⟨after, c, rfl⟩
    · obtain ⟨rfl, hlast⟩ := List.append_inj' heq rfl
      obtain rfl := (List.cons.inj hlast).1
      exact ha
    · rw [List.concat_eq_append, ← List.cons_append, ← List.append_assoc] at heq
      exact hl before b after (List.append_inj' heq rfl).1

/-- What a list is cut down to from its end. -/
theorem Justified.of_append {l l' : List α} (h : Justified P (l ++ l')) : Justified P l := by
  intro before a after hl
  exact h before a (after ++ l') (by rw [hl, List.append_assoc, List.cons_append])

/-- Entries that are all allowed by the list they come behind, where more entries allow
more. -/
theorem Justified.append (hP : ∀ {l l' : List α} {a : α}, P l a → P (l ++ l') a) {l l' : List α}
    (h : Justified P l) (h' : ∀ a ∈ l', P l a) : Justified P (l ++ l') := by
  induction l' using List.reverseRecOn with
  | nil => rwa [List.append_nil]
  | append_singleton l' a ih =>
    rw [← List.append_assoc, justified_append_singleton_iff]
    exact ⟨ih fun b hb => h' b (List.mem_append_left _ hb),
      hP (h' a (List.mem_append_right _ (List.mem_singleton_self a)))⟩

end HawkTracer
