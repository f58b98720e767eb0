import Mathlib.Data.List.Basic

/-!
# Runs of a system

A system is a function from a state and an operation to the next state; whatever the
environment decides – what a caller asks for, which thread goes next, whether memory can be
had – is part of the operation. A run is a list of operations.

Two things are said about runs. `HawkTracer.Throughout` says that every state of a run
satisfies an invariant, and `HawkTracer.StepsMeet` that every operation is performed in a
state that allows it. The rule of invariants leads from the second to the first
(`HawkTracer.throughout_of_step`); where one step keeps the invariant exactly if it meets the
condition, so does a run (`HawkTracer.throughout_iff_of_step`). A run of one system is followed
by a run of another one, if each step is (`HawkTracer.followed_run`).
-/

namespace HawkTracer

variable {S O : Type} (step : S → O → S)

/-- The state after a run. -/
def runFrom (s : S) (os : List O) : S := os.foldl step s

/-- Every state of the run, the first one included, satisfies `I`. -/
def Throughout (I : S → Prop) : S → List O → Prop
  | s, [] => I s
  | s, o :: os => I s ∧ Throughout I (step s o) os

/-- Every operation of the run is performed in a state where `C` allows it. -/
def StepsMeet (C : S → O → Prop) : S → List O → Prop
  | _, [] => True
  | s, o :: os => C s o ∧ StepsMeet C (step s o) os

instance StepsMeet.decidable {C : S → O → Prop} [∀ s o, Decidable (C s o)] :
    ∀ s os, Decidable (StepsMeet step C s os)
  | _, [] => inferInstanceAs (Decidable True)
  | s, o :: os =>
    have := StepsMeet.decidable (C := C) (step s o) os
    inferInstanceAs (Decidable (C s o ∧ StepsMeet step C (step s o) os))

variable {step} {I J : S → Prop} {C D : S → O → Prop}

@[simp] theorem runFrom_nil (s : S) : runFrom step s [] = s := rfl

@[simp] theorem runFrom_cons (s : S) (o : O) (os : List O) :
    runFrom step s (o :: os) = runFrom step (step s o) os := rfl

theorem runFrom_append (s : S) (os os' : List O) :
    runFrom step s (os ++ os') = runFrom step (runFrom step s os) os' := List.foldl_append

variable {s : S} {os : List O}

theorem stepsMeet_append_iff {os' : List O} :
    StepsMeet step C s (os ++ os') ↔
    StepsMeet step C s os ∧ StepsMeet step C (runFrom step s os) os' := by
  induction os generalizing s with
  | nil => exact ⟨fun h => ⟨trivial, h⟩, fun h => h.2⟩
  | cons o os ih =>
    rw [List.cons_append, StepsMeet, StepsMeet, runFrom_cons, ih, and_assoc]

theorem Throughout.head (h : Throughout step I s os) : I s := by
  rcases os with _ | ⟨o, os⟩
  · exact h
  · exact h.1

theorem Throughout.last (h : Throughout step I s os) : I (runFrom step s os) := by
  induction os generalizing s with
  | nil => exact h
  | cons o os ih => exact ih h.2

theorem Throughout.mono {I' : S → Prop} (h : ∀ s, I s → I' s) (hos : Throughout step I s os) :
    Throughout step I' s os := by
  induction os generalizing s with
  | nil => exact h s hos
  | cons o os ih => exact ⟨h s hos.1, ih hos.2⟩

theorem stepsMeet_of_forall (h : ∀ s o, C s o) : StepsMeet step C s os := by
  induction os generalizing s with
  | nil => trivial
  | cons o os ih => exact ⟨h s o, ih⟩

theorem StepsMeet.and (hC : StepsMeet step C s os) (hD : StepsMeet step D s os) :
    StepsMeet step (fun s o => C s o ∧ D s o) s os := by
  induction os generalizing s with
  | nil => trivial
  | cons o os ih => exact ⟨⟨hC.1, hD.1⟩, ih hC.2 hD.2⟩

/-- A condition on the operations alone. -/
theorem stepsMeet_const_iff {C : O → Prop} :
    StepsMeet step (fun _ o => C o) s os ↔ ∀ o ∈ os, C o := by
  induction os generalizing s with
  | nil => simp [StepsMeet]
  | cons o os ih => rw [StepsMeet, ih, List.forall_mem_cons]

/-- What a condition implies in the states of an invariant. -/
theorem StepsMeet.imp {C' : S → O → Prop} (hJ : ∀ s o, J s → D s o → J (step s o))
    (h : ∀ s o, J s → C s o → C' s o) (hs : J s) (hos : StepsMeet step D s os)
    (hC : StepsMeet step C s os) : StepsMeet step C' s os := by
  induction os generalizing s with
  | nil => trivial
  | cons o os ih => exact ⟨h s o hs hC.1, ih (hJ s o hs hos.1) hos.2 hC.2⟩

/-- **The rule of invariants.** -/
theorem throughout_of_step (hstep : ∀ s o, I s → C s o → I (step s o)) (hs : I s)
    (hos : StepsMeet step C s os) : Throughout step I s os := by
  induction os generalizing s with
  | nil => exact hs
  | cons o os ih => exact ⟨hs, ih (hstep s o hs hos.1) hos.2⟩

/-- **The exact rule**: if a step from a state with the invariant keeps it exactly where `C`
holds, a run keeps it exactly if all steps meet `C`. What the step needs besides, `J`, is kept
by the steps that meet `C`. -/
theorem throughout_iff_of_kept (hJ : ∀ s o, J s → D s o → I s → C s o → J (step s o))
    (hI : ∀ s o, J s → D s o → I s → (I (step s o) ↔ C s o)) (hJs : J s) (hs : I s)
    (hos : StepsMeet step D s os) : Throughout step I s os ↔ StepsMeet step C s os := by
  induction os generalizing s with
  | nil => exact iff_of_true hs trivial
  | cons o os ih =>
    obtain ⟨ho, hos⟩ := hos
    have hstep := hI s o hJs ho hs
    constructor
    · rintro ⟨-, h⟩
      have hC := hstep.mp h.head
      exact ⟨hC, (ih (hJ s o hJs ho hs hC) h.head hos).mp h⟩
    · rintro ⟨hC, h⟩
      exact ⟨hs, (ih (hJ s o hJs ho hs hC) (hstep.mpr hC) hos).mpr h⟩

/-- The exact rule where every step keeps what is needed besides. -/
theorem throughout_iff_of_step (hJ : ∀ s o, J s → D s o → J (step s o))
    (hI : ∀ s o, J s → D s o → I s → (I (step s o) ↔ C s o)) (hJs : J s) (hs : I s)
    (hos : StepsMeet step D s os) : Throughout step I s os ↔ StepsMeet step C s os :=
  throughout_iff_of_kept (fun s o hJs ho _ _ => hJ s o hJs ho) hI hJs hs hos

/-- **The rule of simulations**: if each step that meets `C` is followed by a step of a second
system that meets `C'`, so is a run. -/
theorem followed_run {S' O' : Type} {step' : S' → O' → S'} {C' : S' → O' → Prop} {f : O → O'}
    {R : S → S' → Prop}
    (hstep : ∀ s s' o, R s s' → C s o → C' s' (f o) ∧ R (step s o) (step' s' (f o))) {s' : S'}
    (hs : R s s') (hos : StepsMeet step C s os) :
    StepsMeet step' C' s' (os.map f) ∧ R (runFrom step s os) (runFrom step' s' (os.map f)) := by
  induction os generalizing s s' with
  | nil => exact ⟨trivial, hs⟩
  | cons o os ih =>
    obtain ⟨hC, hR⟩ := hstep s s' o hs hos.1
    obtain ⟨hrest, hlast⟩ := ih hR hos.2
    exact ⟨⟨hC, hrest⟩, hlast⟩

end HawkTracer
