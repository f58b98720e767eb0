import HawkTracer.Base.Run
import Mathlib.Data.Fintype.Basic

/-!
# Waiting on a condition variable

Threads wait until a predicate of a shared state holds. A waiter takes the mutex, tests the
predicate and, if it is false, blocks and releases the mutex in one step; a waiter that is
woken up takes the mutex again and tests again. One other thread works through a list of
actions: it changes the shared state, with or without the mutex, and wakes up waiters, one at
a time. A `HawkTracer.Monitor` is a state of such a system, and a run is any interleaving of
the steps, with wake-ups nobody asked for among them.

A wake-up is *lost* (`HawkTracer.Monitor.Lost`) if a waiter is blocked although the predicate
holds and the other thread has nothing left to do. For a thread that makes the predicate hold
for good and then wakes up one waiter, without the mutex,
`HawkTracer.Monitor.not_lost_iff` says which runs lose no wake-up.
-/

namespace HawkTracer

/-- What the thread that wakes up the waiters does. -/
inductive MonitorAction (σ : Type) where
  | lock
  | unlock
  | change (f : σ → σ)
  /-- `notify_one`. -/
  | notify

/-- Whether the action is to wake up a waiter. -/
def MonitorAction.isNotify {σ : Type} : MonitorAction σ → Bool
  | .notify => true
  | _ => false

/-- Where a waiter is. -/
inductive WaiterPlace where
  | outside
  /-- It has the mutex and is about to test the predicate. -/
  | locked
  /-- It has found that the predicate does not hold; it still has the mutex. -/
  | tested
  | blocked
  /-- It has been woken up and needs the mutex. -/
  | woken
  /-- It has found that the predicate holds; it still has the mutex. -/
  | passed
  deriving DecidableEq, Repr

/-- What the waiters wait for, and what they do with the shared state when it holds. -/
structure Awaited (σ ω : Type) where
  holds : σ → Bool
  use : σ → ω → σ

/-- **A state of the system**: waiters `τ` around a shared state. -/
structure Monitor (σ τ : Type) where
  shared : σ
  /-- Who has the mutex: a waiter, or the thread that wakes them up (`some none`). -/
  holder : Option (Option τ)
  place : τ → WaiterPlace
  /-- What the thread that wakes them up has left to do. -/
  todo : List (MonitorAction σ)

namespace Monitor

variable {σ τ ω : Type}

/-- A step of a waiter, or the next action of the other thread. -/
inductive Op (τ ω : Type) where
  | lock (t : τ)
  | test (t : τ)
  | block (t : τ)
  | leave (t : τ) (w : ω)
  /-- A waiter wakes up by itself. -/
  | wake (t : τ)
  /-- If the action is `notify_one`, `t` is the waiter it wakes up, if any. -/
  | act (t : Option τ)

section Step

variable [DecidableEq τ]

/-- The waiter goes on. -/
def goto (s : Monitor σ τ) (t : τ) (p : WaiterPlace) : Monitor σ τ :=
  { s with place := Function.update s.place t p }

/-- The next action of the thread that wakes up the waiters, if it can be done. -/
def act (s : Monitor σ τ) (t : Option τ) : Monitor σ τ :=
  match s.todo with
  | [] => s
  | .lock :: as => if s.holder = none then { s with holder := some none, todo := as } else s
  | .unlock :: as => { s with holder := none, todo := as }
  | .change f :: as => { s with shared := f s.shared, todo := as }
  | .notify :: as =>
    match t with
    | none => { s with todo := as }
    | some t => { s.goto t .woken with todo := as }

/-- What a step does; a step that is not the thread's next one does nothing. -/
def step (A : Awaited σ ω) (s : Monitor σ τ) : Op τ ω → Monitor σ τ
  | .lock t =>
    if s.holder = none ∧ (s.place t = .outside ∨ s.place t = .woken) then
      { s.goto t .locked with holder := some (some t) }
    else s
  | .test t =>
    if s.place t = .locked then s.goto t (if A.holds s.shared then .passed else .tested) else s
  | .block t => if s.place t = .tested then { s.goto t .blocked with holder := none } else s
  | .leave t w =>
    if s.place t = .passed then
      { s.goto t .outside with shared := A.use s.shared w, holder := none }
    else s
  | .wake t => if s.place t = .blocked then s.goto t .woken else s
  | .act t => s.act t

/-- No waiter has come yet. -/
def start (shared : σ) (todo : List (MonitorAction σ)) : Monitor σ τ :=
  ⟨shared, none, fun _ => .outside, todo⟩

end Step

/-- `notify_one` wakes up a waiter that is blocked, and nobody only if there is none. -/
def Allowed (s : Monitor σ τ) : Op τ ω → Prop
  | .act (some t) => s.todo.head?.any MonitorAction.isNotify = true → s.place t = .blocked
  | .act none => s.todo.head?.any MonitorAction.isNotify = true → ∀ t, s.place t ≠ .blocked
  | _ => True

/-- **A lost wake-up**: a waiter is blocked, the predicate holds, and nobody is going to wake
the waiter up. -/
def Lost (A : Awaited σ ω) (s : Monitor σ τ) : Prop :=
  ∃ t, s.place t = .blocked ∧ A.holds s.shared = true ∧ s.todo = []

/-- **The steps that lose no wake-up**: a waiter blocks while the other thread has something
left to do, and when the last of it is done, at most one waiter is blocked. -/
def InTime (s : Monitor σ τ) : Op τ ω → Prop
  | .block t => s.place t = .tested → s.todo ≠ []
  | .act _ => s.todo.length = 1 →
    ∀ t t', s.place t = .blocked → s.place t' = .blocked → t = t'
  | _ => True

section Decidable

variable [Fintype τ]

instance Allowed.decidable (s : Monitor σ τ) : ∀ o : Op τ ω, Decidable (Allowed s o)
  | .act (some t) =>
    inferInstanceAs (Decidable (s.todo.head?.any MonitorAction.isNotify = true →
      s.place t = .blocked))
  | .act none =>
    inferInstanceAs (Decidable (s.todo.head?.any MonitorAction.isNotify = true →
      ∀ t, s.place t ≠ .blocked))
  | .lock _ | .test _ | .block _ | .leave _ _ | .wake _ => inferInstanceAs (Decidable True)

instance InTime.decidable [DecidableEq τ] (s : Monitor σ τ) :
    ∀ o : Op τ ω, Decidable (InTime s o)
  | .block t => inferInstanceAs (Decidable (s.place t = .tested → s.todo ≠ []))
  | .act _ =>
    inferInstanceAs (Decidable (s.todo.length = 1 →
      ∀ t t', s.place t = .blocked → s.place t' = .blocked → t = t'))
  | .lock _ | .test _ | .leave _ _ | .wake _ => inferInstanceAs (Decidable True)

end Decidable

/-! ### A predicate that is made to hold for good -/

section Final

variable {A : Awaited σ ω} {F : σ → Prop} {f : σ → σ} {s : Monitor σ τ}

/-- **What holds in every state**: the thread is on its way to make the predicate hold for
good, or it has done so. -/
def Kept (F : σ → Prop) (f : σ → σ) (s : Monitor σ τ) : Prop :=
  (∃ as, s.todo = as ++ [.change f, .notify]) ∨
    (s.todo = [.notify] ∨ s.todo = []) ∧ F s.shared

/-- Once the thread is done, a blocked waiter is a lost wake-up. -/
theorem Kept.not_lost_iff (h : Kept F f s) (hholds : ∀ x, F x → A.holds x = true) :
    ¬Lost A s ↔ (s.todo = [] → ∀ t, s.place t ≠ .blocked) := by
  constructor
  · intro hlost htodo t ht
    rcases h with ⟨as, has⟩ | ⟨-, hfin⟩
    · rw [htodo] at has
      exact absurd has.symm (by simp)
    · exact hlost ⟨t, ht, hholds _ hfin, htodo⟩
  · rintro hdone ⟨t, ht, -, htodo⟩
    exact hdone htodo t ht

variable [DecidableEq τ]

theorem place_goto_eq_blocked {t t' : τ} {p : WaiterPlace} (hp : p ≠ .blocked)
    (h : (s.goto t p).place t' = .blocked) : t' ≠ t ∧ s.place t' = .blocked := by
  have hplace : Function.update s.place t p t' = .blocked := h
  by_cases heq : t' = t
  · subst heq
    rw [Function.update_self] at hplace
    exact absurd hplace hp
  · rw [Function.update_of_ne heq] at hplace
    exact ⟨heq, hplace⟩

/-- The thread takes one action off its list, or waits for the mutex. -/
theorem todo_act (s : Monitor σ τ) (t : Option τ) :
    (s.act t).todo = s.todo ∨ (s.act t).todo = s.todo.tail := by
  unfold act
  rcases htodo : s.todo with _ | ⟨a, as⟩
  · exact .inl htodo
  · cases a with
    | lock =>
      simp only
      split
      · exact .inr rfl
      · exact .inl htodo
    | unlock | change g => exact .inr rfl
    | notify => cases t <;> exact .inr rfl

theorem Kept.act (h : Kept F f s) (hfinal : ∀ x, F (f x)) (t : Option τ) : Kept F f (s.act t) := by
  rcases h with ⟨as, has⟩ | ⟨htodo | htodo, hfin⟩
  · rcases as with _ | ⟨a, as⟩
    · rw [Monitor.act, has]
      exact .inr ⟨.inl rfl, hfinal _⟩
    · rcases todo_act s t with heq | heq
      · exact .inl ⟨a :: as, heq.trans has⟩
      · exact .inl ⟨as, by rw [heq, has, List.cons_append, List.tail_cons]⟩
  · rw [Monitor.act, htodo]
    cases t <;> exact .inr ⟨.inr rfl, hfin⟩
  · rw [Monitor.act, htodo]
    exact .inr ⟨.inr htodo, hfin⟩

theorem Kept.step (h : Kept F f s) (hfinal : ∀ x, F (f x))
    (huse : ∀ x w, F x → F (A.use x w)) (o : Op τ ω) : Kept F f (s.step A o) := by
  cases o with
  | act t => exact h.act hfinal t
  | leave t w =>
    rw [Monitor.step]
    split
    · exact h.imp_right fun hfin => ⟨hfin.1, huse _ w hfin.2⟩
    · exact h
  | lock t | test t | block t | wake t =>
    rw [Monitor.step]
    split <;> exact h

/-- While the thread has its last two actions before it, a step of it does not finish them. -/
theorem todo_act_ne_nil {as : List (MonitorAction σ)} (has : s.todo = as ++ [.change f, .notify])
    (t : Option τ) : (s.act t).todo ≠ [] := by
  intro hdone
  rcases todo_act s t with heq | heq
  · rw [heq, has] at hdone
    exact absurd hdone (by simp)
  · rw [heq, has] at hdone
    rcases as with _ | ⟨a, as⟩ <;> exact absurd hdone (by simp)

/-- **The last wake-up** leaves nobody blocked exactly if it had only one waiter to wake up. -/
theorem nobody_blocked_iff (htodo : s.todo = [.notify]) {t : Option τ}
    (ho : Allowed s (.act t : Op τ ω)) :
    (∀ t', (s.act t).place t' ≠ .blocked) ↔
      ∀ t₁ t₂, s.place t₁ = .blocked → s.place t₂ = .blocked → t₁ = t₂ := by
  have hhead : s.todo.head?.any MonitorAction.isNotify = true := by rw [htodo]; rfl
  rw [Monitor.act, htodo]
  rcases t with _ | t
  · have hnone := ho hhead
    exact iff_of_true hnone fun t _ ht => absurd ht (hnone t)
  · have ht := ho hhead
    constructor
    · intro hdone t₁ t₂ h₁ h₂
      have honly : ∀ t', s.place t' = .blocked → t' = t := by
        intro t' ht'
        by_contra hne
        exact hdone t' ((Function.update_of_ne hne _ s.place).trans ht')
      rw [honly t₁ h₁, honly t₂ h₂]
    · intro hone t' ht'
      obtain ⟨hne, hb⟩ := place_goto_eq_blocked (by decide) ht'
      exact hne (hone t' t hb ht)

/-- **A step loses no wake-up exactly if it is in time.** -/
theorem not_lost_step_iff (h : Kept F f s) (hfinal : ∀ x, F (f x))
    (huse : ∀ x w, F x → F (A.use x w)) (hholds : ∀ x, F x → A.holds x = true)
    {o : Op τ ω} (ho : Allowed s o) (hs : ¬Lost A s) : ¬Lost A (s.step A o) ↔ InTime s o := by
  rw [(h.step hfinal huse o).not_lost_iff hholds]
  rw [h.not_lost_iff hholds] at hs
  cases o with
  | lock t | leave t w | wake t =>
    refine iff_of_true ?_ trivial
    rw [step]
    split
    · exact fun htodo t' ht' => hs htodo t' (place_goto_eq_blocked (by decide) ht').2
    · exact hs
  | test t =>
    refine iff_of_true ?_ trivial
    rw [step]
    split
    · have hp : (if A.holds s.shared then WaiterPlace.passed else .tested) ≠ .blocked := by
        split <;> decide
      exact fun htodo t' ht' => hs htodo t' (place_goto_eq_blocked hp ht').2
    · exact hs
  | block t =>
    rw [step, InTime]
    split
    · next ht =>
      refine ⟨fun hdone _ htodo => hdone htodo t (Function.update_self t _ s.place), ?_⟩
      exact fun hleft htodo => absurd htodo (hleft ht)
    · next ht => exact iff_of_true hs fun ht' => absurd ht' ht
  | act t =>
    rw [step, InTime]
    rcases h with ⟨as, has⟩ | ⟨htodo | htodo, -⟩
    · -- there is more than one action left
      refine iff_of_true (fun hdone => absurd hdone (todo_act_ne_nil has t)) fun hlen => ?_
      rw [has, List.length_append] at hlen
      simp at hlen
    · have hdone : (s.act t).todo = [] := by
        rw [Monitor.act, htodo]
        rcases t with _ | t <;> rfl
      have hlen : s.todo.length = 1 := by rw [htodo]; rfl
      rw [forall_prop_of_true hdone, forall_prop_of_true hlen]
      exact nobody_blocked_iff htodo ho
    · -- nothing is left to do
      have hact : s.act t = s := by rw [Monitor.act, htodo]
      rw [hact]
      exact iff_of_true hs fun hlen => by rw [htodo] at hlen; cases hlen

/-- **Which runs lose no wake-up**, for a thread whose last two actions are to make the
predicate hold for good and to wake up one waiter. -/
theorem not_lost_iff (hfinal : ∀ x, F (f x)) (huse : ∀ x w, F x → F (A.use x w))
    (hholds : ∀ x, F x → A.holds x = true) (x : σ) (as : List (MonitorAction σ))
    {os : List (Op τ ω)}
    (hos : StepsMeet (step A) Allowed (start x (as ++ [.change f, .notify])) os) :
    Throughout (step A) (fun s => ¬Lost A s) (start x (as ++ [.change f, .notify])) os ↔
      StepsMeet (step A) InTime (start x (as ++ [.change f, .notify])) os :=
  throughout_iff_of_step (J := Kept F f) (fun _ o h _ => h.step hfinal huse o)
    (fun _ _ h ho hs => not_lost_step_iff h hfinal huse hholds ho hs) (.inl ⟨as, rfl⟩)
    (by rintro ⟨t, ht, -⟩; cases ht) hos

end Final

end Monitor

end HawkTracer
