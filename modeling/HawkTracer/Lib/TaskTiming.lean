import HawkTracer.Lib.TaskScheduler
import Mathlib.Algebra.Ring.Nat
import Mathlib.Data.List.Chain

/-!
# When tasks are executed

A task carries the time of its next execution, an unsigned 64-bit number: the clock plus the
period when it is scheduled, and after an execution either that time plus the period or, if
the mode is to restart the timer, the clock plus the period. A tick executes the tasks whose
time is not later than the clock.

As long as no sum that a task is given exceeds 64 bits (`HawkTracer.Lib.SchedulerTrace.NoWrap`) it
is armed, after `n` executions, for no earlier than `n + 1` periods after it was scheduled
(`HawkTracer.Lib.Armed`), and `HawkTracer.Lib.SchedulerTrace.neverEarly_of_noWrap` follows: no
run executes a task early. A sum that wraps around is a time in the past; the task is then
executed by the next tick (`HawkTracer.Lib.SchedulerTrace.early_execution`).
-/

namespace HawkTracer.Lib

variable {γ υ : Type}

/-! ### Times of one task -/

/-- The readings of the clock at which a task has been executed. -/
def executionTimes (es : List Execution) (id : ℤ) : List ℕ :=
  (es.filter fun e => e.id = id).map fun e => e.ts.toNat

/-- **A task has not been executed early**: its executions are at least one, two, … periods
after it was scheduled and, if its timer is restarted, a period apart. -/
structure OnTime (x : Scheduled γ υ) (times : List ℕ) : Prop where
  periods : ∀ k t, times[k]? = some t → x.ts.toNat + (k + 1) * x.request.period.toNat ≤ t
  apart : x.request.mode = .restartTimer →
    times.IsChain fun t t' => t + x.request.period.toNat ≤ t'

/-- **A task is armed** for a time that is not early. -/
structure Armed (x : Scheduled γ υ) (times : List ℕ) (y : Task γ υ) : Prop where
  id : y.id = x.id
  request : y.request = x.request
  due : x.ts.toNat + (times.length + 1) * x.request.period.toNat ≤ y.nextActionTs.toNat
  apart : x.request.mode = .restartTimer →
    ∀ t ∈ times.getLast?, t + x.request.period.toNat ≤ y.nextActionTs.toNat

section Times

variable {x : Scheduled γ υ} {times : List ℕ} {y : Task γ υ} {now : ℕ}

/-- An execution of an armed task is on time. -/
theorem OnTime.execute (h : OnTime x times) (hy : Armed x times y)
    (hnow : y.nextActionTs.toNat ≤ now) : OnTime x (times ++ [now]) where
  periods k t ht := by
    rcases Nat.lt_trichotomy k times.length with hlt | rfl | hgt
    · rw [List.getElem?_append_left hlt] at ht
      exact h.periods k t ht
    · rw [List.getElem?_concat_length] at ht
      obtain rfl := Option.some.inj ht
      exact hy.due.trans hnow
    · rw [List.getElem?_eq_none (by rw [List.length_append, List.length_singleton]; omega)] at ht
      cases ht
  apart hmode := by
    refine List.isChain_append.mpr ⟨h.apart hmode, List.isChain_singleton now, ?_⟩
    intro t ht t' ht'
    obtain rfl := Option.some.inj ht'
    exact (hy.apart hmode t ht).trans hnow

/-- A task that has been executed is armed again, if its next time is a period later. -/
theorem Armed.rearm (h : Armed x times y) {next : UInt64}
    (hnext : y.nextActionTs.toNat + x.request.period.toNat ≤ next.toNat)
    (hrestart : x.request.mode = .restartTimer → now + x.request.period.toNat ≤ next.toNat) :
    Armed x (times ++ [now]) { y with nextActionTs := next } where
  id := h.id
  request := h.request
  due := by
    have hdue := h.due
    rw [List.length_append, List.length_singleton, Nat.add_mul _ 1, Nat.one_mul]
    change _ ≤ next.toNat
    omega
  apart hmode t ht := by
    rw [List.getLast?_concat] at ht
    obtain rfl := Option.some.inj ht
    exact hrestart hmode

end Times

theorem executionTimes_append_self (es : List Execution) (id : ℤ) (ts : UInt64) (answer : Bool) :
    executionTimes (es ++ [⟨id, ts, answer⟩]) id = executionTimes es id ++ [ts.toNat] := by
  simp [executionTimes]

theorem executionTimes_append_of_ne {id id' : ℤ} (h : id ≠ id') (es : List Execution)
    (ts : UInt64) (answer : Bool) :
    executionTimes (es ++ [⟨id, ts, answer⟩]) id' = executionTimes es id' := by
  simp [executionTimes, h]

theorem executionTimes_eq_nil {es : List Execution} {id : ℤ} (h : ∀ e ∈ es, e.id ≠ id) :
    executionTimes es id = [] := by
  rw [executionTimes, List.filter_eq_nil_iff.mpr fun e he => by simpa using h e he]
  rfl

/-! ### All tasks -/

/-- **All tasks are on time**, those executed and those that are armed. -/
structure Timed (scheduled : List (Scheduled γ υ)) (es : List Execution) (l : List (Task γ υ)) :
    Prop where
  onTime : ∀ x ∈ scheduled, OnTime x (executionTimes es x.id)
  armed : ∀ y ∈ l, ∃ x ∈ scheduled, Armed x (executionTimes es x.id) y
  known : ∀ e ∈ es, ∃ x ∈ scheduled, x.id = e.id

section Timed

variable {scheduled : List (Scheduled γ υ)} {es : List Execution} {l l' : List (Task γ υ)}
  {y : Task γ υ} {ts : UInt64}

theorem Timed.perm (h : Timed scheduled es l) (hp : l.Perm l') : Timed scheduled es l' :=
  ⟨h.onTime, fun y hy => h.armed y (hp.mem_iff.mpr hy), h.known⟩

/-- **A task that is due is executed**; the others stay armed as they are. -/
theorem Timed.execute (h : Timed scheduled es (y :: l))
    (hunique : (scheduled.map Scheduled.id).Nodup) (hids : ((y :: l).map Task.id).Nodup)
    (hdue : y.nextActionTs ≤ ts) (answer : Bool) :
    Timed scheduled (es ++ [⟨y.id, ts, answer⟩]) l := by
  obtain ⟨x, hx, hy⟩ := h.armed y List.mem_cons_self
  refine ⟨?_, ?_, ?_⟩
  · intro x' hx'
    by_cases hid : y.id = x'.id
    · obtain rfl : x' = x := List.inj_on_of_nodup_map hunique hx' hx (hid.symm.trans hy.id)
      rw [hid, executionTimes_append_self]
      exact (h.onTime x' hx').execute hy (UInt64.le_iff_toNat_le.mp hdue)
    · rw [executionTimes_append_of_ne hid]
      exact h.onTime x' hx'
  · intro z hz
    obtain ⟨x', hx', hz'⟩ := h.armed z (List.mem_cons_of_mem y hz)
    refine ⟨x', hx', ?_⟩
    have hne : y.id ≠ x'.id := fun heq => (List.nodup_cons.mp hids).1
      (heq.trans hz'.id.symm ▸ List.mem_map_of_mem hz)
    rw [executionTimes_append_of_ne hne]
    exact hz'
  · intro e he
    rcases List.mem_append.mp he with he | he
    · exact h.known e he
    · rw [List.mem_singleton.mp he]
      exact ⟨x, hx, hy.id.symm⟩

/-- **A task that answers yes is armed again**, if its next time is a period later. -/
theorem Timed.rearm (h : Timed scheduled es (y :: l))
    (hunique : (scheduled.map Scheduled.id).Nodup) (hids : ((y :: l).map Task.id).Nodup)
    (hdue : y.nextActionTs ≤ ts) {next : UInt64}
    (hnext : y.nextActionTs.toNat + y.period.toNat ≤ next.toNat)
    (hrestart : y.mode = .restartTimer → ts.toNat + y.period.toNat ≤ next.toNat) (answer : Bool) :
    Timed scheduled (es ++ [⟨y.id, ts, answer⟩]) ({ y with nextActionTs := next } :: l) := by
  have hexec := h.execute hunique hids hdue answer
  refine ⟨hexec.onTime, fun z hz => ?_, hexec.known⟩
  rcases List.mem_cons.mp hz with rfl | hz
  · obtain ⟨x, hx, hy⟩ := h.armed y List.mem_cons_self
    have hperiod : y.period = x.request.period := congrArg TaskRequest.period hy.request
    have hmode : y.mode = x.request.mode := congrArg TaskRequest.mode hy.request
    have htimes : executionTimes (es ++ [⟨y.id, ts, answer⟩]) x.id =
        executionTimes es x.id ++ [ts.toNat] := by rw [hy.id, executionTimes_append_self]
    refine ⟨x, hx, htimes ▸ ?_⟩
    exact hy.rearm (hperiod ▸ hnext) fun hm => hperiod ▸ hrestart (hmode.trans hm)
  · exact hexec.armed z hz

end Timed

/-! ### Ticks -/

section Tick

variable {clock : ℕ → UInt64} {s : TaskScheduler γ υ} {l : List (Task γ υ)} {pointer : ℕ}
  {scheduled : List (Scheduled γ υ)}

/-- **The next time of a task, if it is due by the given reading, fits into 64 bits.** -/
def FitsNext (clock : ℕ → UInt64) (last : ℕ) (y : Task γ υ) : Prop :=
  y.nextActionTs ≤ clock last →
    (match y.mode with
      | .ignoreDelays => y.nextActionTs
      | .restartTimer => clock last).toNat + y.period.toNat < 2 ^ 64

instance (clock : ℕ → UInt64) (last : ℕ) (y : Task γ υ) : Decidable (FitsNext clock last y) :=
  inferInstanceAs (Decidable (_ → _))

/-- A next time that fits is a period after the old one and, if the timer is restarted, after
the execution. -/
theorem FitsNext.le_nextDeadline (hclock : ∀ m n, m ≤ n → clock m ≤ clock n) {last n : ℕ}
    {y : Task γ υ} (h : FitsNext clock last y) (hlast : n + 1 ≤ last)
    (hdue : y.nextActionTs ≤ clock n) :
    y.nextActionTs.toNat + y.period.toNat ≤ (TaskScheduler.nextDeadline clock (n + 1) y).toNat ∧
      (y.mode = .restartTimer →
        (clock n).toNat + y.period.toNat ≤ (TaskScheduler.nextDeadline clock (n + 1) y).toNat) := by
  have hdue' := UInt64.le_iff_toNat_le.mp hdue
  have hnext := UInt64.le_iff_toNat_le.mp (hclock n (n + 1) (by omega))
  have hend := UInt64.le_iff_toNat_le.mp (hclock (n + 1) last hlast)
  have hfits := h (UInt64.le_iff_toNat_le.mpr (by omega))
  unfold TaskScheduler.nextDeadline
  cases hmode : y.mode with
  | ignoreDelays =>
    simp only [hmode] at hfits ⊢
    rw [UInt64.toNat_add, Nat.mod_eq_of_lt hfits]
    exact ⟨Nat.le_refl _, fun h => by cases h⟩
  | restartTimer =>
    simp only [hmode] at hfits ⊢
    rw [UInt64.toNat_add, Nat.mod_eq_of_lt (by omega)]
    exact ⟨by omega, fun _ => by omega⟩

open TaskScheduler in
/-- **A tick executes nothing early and leaves nothing armed early**, if the next times of the
tasks it may come to fit. The tasks it has passed may have any next time. -/
theorem Timed.tickLoop (hclock : ∀ m n, m ≤ n → clock m ≤ clock n)
    (hunique : (scheduled.map Scheduled.id).Nodup) (answers oks : ℕ → Bool) (fuel i : ℕ) {last : ℕ}
    (hs : Bag.Stores (voidPtrSizes pointer) s.tasks l) (hids : (l.map Task.id).Nodup)
    (h : Timed scheduled s.executed l) (hfits : ∀ y ∈ l.drop i, FitsNext clock last y)
    (hlast : s.reads + 2 * fuel ≤ last) :
    ∃ l', Bag.Stores (voidPtrSizes pointer) (s.tickLoop pointer clock answers oks fuel i).tasks l' ∧
      Timed scheduled (s.tickLoop pointer clock answers oks fuel i).executed l' := by
  induction fuel generalizing s l i with
  | zero => exact ⟨l, hs, h⟩
  | succ fuel ih =>
    rw [TaskScheduler.tickLoop, hs.getElem?_slots]
    rcases hy : l[i]? with _ | y
    · exact ⟨l, hs, h⟩
    simp only [Option.map_some]
    have hi := (List.getElem?_eq_some_iff.mp hy).1
    have hafter : ∀ z ∈ l.drop (i + 1), FitsNext clock last z := fun z hz =>
      hfits z (by rw [← List.drop_drop] at hz; exact List.mem_of_mem_drop hz)
    rcases visit_cases clock hs hy (answers s.executed.length) (oks s.executed.length) with
      ⟨-, hv⟩ | ⟨hdue, -, tasks, htasks, hv⟩ | ⟨hdue, -, tasks, reads, -, hreads, htasks, hv⟩
    · rw [hv]
      exact ih (i + 1) hs hids h hafter (show s.reads + 1 + 2 * fuel ≤ last by omega)
    · -- the task is dropped; a later one takes its place
      rw [hv]
      have hperm := Bag.swapRemove_perm hy
      have hids' := (hperm.map Task.id).nodup hids
      refine ih i (s := { s with
        tasks := tasks, reads := s.reads + 1
        executed := s.executed ++ [⟨y.id, clock s.reads, false⟩] }) htasks
        (List.nodup_cons.mp hids').2 ((h.perm hperm).execute hunique hids' hdue false) ?_
        (show s.reads + 1 + 2 * fuel ≤ last by omega)
      exact fun z hz => hafter z ((Bag.drop_swapRemove_perm hi).mem_iff.mp hz)
    · rw [hv]
      have hperm : l.Perm (y :: l.eraseIdx i) := by
        rw [← (List.getElem?_eq_some_iff.mp hy).2]
        exact (List.getElem_cons_eraseIdx_perm hi).symm
      have hset := List.set_perm_cons_eraseIdx hi
        { y with nextActionTs := nextDeadline clock (s.reads + 1) y }
      have hids' := (hperm.map Task.id).nodup hids
      have hyfits : FitsNext clock last y := hfits y (by
        rw [← (List.getElem?_eq_some_iff.mp hy).2, ← List.getElem_cons_drop hi]
        exact List.mem_cons_self)
      obtain ⟨hnext, hrestart⟩ := hyfits.le_nextDeadline hclock (by omega) hdue
      refine ih (i + 1) (s := { s with
        tasks := tasks, reads := reads
        executed := s.executed ++ [⟨y.id, clock s.reads, true⟩] }) htasks
        ((hset.map Task.id).symm.nodup hids')
        (((h.perm hperm).rearm hunique hids' hdue hnext hrestart true).perm hset.symm) ?_
        (show reads + 2 * fuel ≤ last by omega)
      rwa [List.drop_set_of_lt (by omega)]

end Tick

/-! ### Runs -/

namespace SchedulerTrace

variable {pointer : ℕ} {clock : ℕ → UInt64} {r : SchedulerTrace γ υ}

/-- **No task has been executed early.** -/
def NeverEarly (r : SchedulerTrace γ υ) : Prop :=
  ∀ x ∈ r.scheduled, OnTime x (executionTimes r.scheduler.executed x.id)

/-- **No time that a call gives to a task exceeds 64 bits.** A call that adds no task gives none,
and a tick reads the clock at most twice for each task. -/
def NoWrap (pointer : ℕ) (clock : ℕ → UInt64) (r : SchedulerTrace γ υ) : Op γ υ → Prop
  | .scheduleTask q m => (r.scheduler.scheduleTask pointer clock q m).1 ≠ invalidTaskId →
    (clock r.scheduler.reads).toNat + q.period.toNat < 2 ^ 64
  | .tick _ _ => ∀ y ∈ r.scheduler.tasks.slots.filterMap id,
    FitsNext clock (r.scheduler.reads + 2 * r.scheduler.tasks.size) y
  | .removeTask _ _ => True

instance NoWrap.decidable (pointer : ℕ) (clock : ℕ → UInt64) (r : SchedulerTrace γ υ) :
    ∀ o, Decidable (NoWrap pointer clock r o)
  | .scheduleTask _ _ => inferInstanceAs (Decidable (_ → _))
  | .tick _ _ => inferInstanceAs (Decidable (∀ y ∈ r.scheduler.tasks.slots.filterMap id,
      FitsNext clock (r.scheduler.reads + 2 * r.scheduler.tasks.size) y))
  | .removeTask _ _ => inferInstanceAs (Decidable True)

/-- A map, and all tasks on time. -/
def KeptOnTime (pointer : ℕ) (r : SchedulerTrace γ υ) : Prop :=
  Kept pointer r ∧
    Timed r.scheduled r.scheduler.executed (r.scheduler.tasks.slots.filterMap id)

theorem KeptOnTime.scheduleTask (h : KeptOnTime pointer r) {q : TaskRequest γ υ}
    {m : ScheduleMemory} (hm : FreshAddress r (.scheduleTask q m))
    (hq : NoWrap pointer clock r (.scheduleTask q m)) :
    KeptOnTime pointer (r.step pointer clock (.scheduleTask q m)) := by
  obtain ⟨hkept, htimed⟩ := h
  refine ⟨hkept.step hm, ?_⟩
  obtain ⟨l, hs, -⟩ := hkept.stored
  rw [hs.filterMap_slots] at htimed
  rcases TaskScheduler.scheduleTask_cases clock hs q m with
    heq | ⟨tasks, htasks, heq⟩ | ⟨callback, tasks, hcallback, htasks, heq⟩
  · rw [step, heq]
    exact hs.filterMap_slots.symm ▸ htimed
  · rw [step, heq]
    exact htasks.filterMap_slots.symm ▸ htimed
  have hvalid : r.scheduler.nextTaskId ≠ invalidTaskId := by
    have hnonneg := hkept.next_nonneg
    rw [invalidTaskId]
    omega
  simp only [step, heq, if_neg hvalid, htasks.filterMap_slots]
  -- the identifier is new, so nothing has been executed under it
  have hnew : executionTimes r.scheduler.executed r.scheduler.nextTaskId = [] :=
    executionTimes_eq_nil fun e he hid => by
      obtain ⟨x, hx, hxid⟩ := htimed.known e he
      have hlt := (hkept.scheduled x hx).2
      omega
  have hts : (clock r.scheduler.reads + q.period).toNat =
      (clock r.scheduler.reads).toNat + q.period.toNat := by
    rw [UInt64.toNat_add, Nat.mod_eq_of_lt (hq (by rwa [heq]))]
  refine ⟨fun x hx => ?_, fun y hy => ?_, fun e he => ?_⟩
  · rcases List.mem_append.mp hx with hx | hx
    · exact htimed.onTime x hx
    · rw [List.mem_singleton.mp hx]
      simp only [hnew]
      exact ⟨fun k t ht => by simp at ht, fun _ => List.isChain_nil⟩
  · rcases List.mem_append.mp hy with hy | hy
    · obtain ⟨x, hx, harmed⟩ := htimed.armed y hy
      exact ⟨x, List.mem_append_left _ hx, harmed⟩
    · rw [List.mem_singleton.mp hy]
      refine ⟨_, List.mem_append_right _ (List.mem_singleton_self _), ?_⟩
      simp only [hnew]
      refine ⟨rfl, ?_, ?_, fun _ t ht => by simp at ht⟩
      · simp only [TaskScheduler.newTask, Task.request, ← hcallback]
      · simp only [TaskScheduler.newTask, hts, List.length_nil]
        omega
  · obtain ⟨x, hx, hid⟩ := htimed.known e he
    exact ⟨x, List.mem_append_left _ hx, hid⟩

theorem KeptOnTime.step (hclock : ∀ m n, m ≤ n → clock m ≤ clock n) (h : KeptOnTime pointer r)
    {o : Op γ υ} (ho : FreshAddress r o) (hwrap : NoWrap pointer clock r o) :
    KeptOnTime pointer (r.step pointer clock o) := by
  obtain ⟨l, hs, hlisted⟩ := h.1.stored
  have htimed := h.2
  rw [hs.filterMap_slots] at htimed
  cases o with
  | scheduleTask q m => exact h.scheduleTask ho hwrap
  | tick answers oks =>
    have hunique : (r.scheduled.map Scheduled.id).Nodup :=
      h.1.increasing.imp fun hlt => Int.ne_of_lt hlt
    have hfits : ∀ y ∈ l.drop 0, FitsNext clock
        (r.scheduler.reads + 2 * r.scheduler.tasks.size) y := fun y hy =>
      hwrap y (hs.filterMap_slots.symm ▸ hy)
    obtain ⟨l', hs', htimed'⟩ := htimed.tickLoop hclock hunique answers oks
      r.scheduler.tasks.size 0 hs hlisted.ids hfits (Nat.le_refl _)
    exact ⟨h.1.step ho, hs'.filterMap_slots.symm ▸ htimed'⟩
  | removeTask id oks =>
    refine ⟨h.1.step ho, ?_⟩
    rcases TaskScheduler.removeTask_cases hs hlisted.addresses
        (fun x hx => (hlisted.bounds x hx).1) id oks with
      ⟨-, heq⟩ | ⟨j, x, tasks, hj, -, htasks, heq⟩
    · simp only [SchedulerTrace.step, heq]
      exact hs.filterMap_slots.symm ▸ htimed
    · simp only [SchedulerTrace.step, heq, htasks.filterMap_slots]
      refine ⟨htimed.onTime, fun y hy => htimed.armed y ?_, htimed.known⟩
      exact (Bag.swapRemove_perm hj).mem_iff.mpr (List.mem_cons_of_mem x hy)

theorem keptOnTime_start : KeptOnTime pointer (start pointer : SchedulerTrace γ υ) :=
  ⟨kept_start, fun _ hx => absurd hx List.not_mem_nil, fun _ hy => absurd hy List.not_mem_nil,
    fun _ he => absurd he List.not_mem_nil⟩

/-- **Tasks never run early if no time exceeds 64 bits**, in any run, with any clock that does
not go back, any periods and both modes. -/
theorem neverEarly_of_noWrap (hclock : ∀ m n, m ≤ n → clock m ≤ clock n) {os : List (Op γ υ)}
    (hos : StepsMeet (step pointer clock) FreshAddress (start pointer) os)
    (hwrap : StepsMeet (step pointer clock) (NoWrap pointer clock) (start pointer) os) :
    Throughout (step pointer clock) NeverEarly (start pointer) os := by
  have hkept : Throughout (step pointer clock) (KeptOnTime pointer) (start pointer) os :=
    throughout_of_step (fun _ _ h ho => h.step hclock ho.1 ho.2) keptOnTime_start (hos.and hwrap)
  exact hkept.mono fun _ h => h.2.onTime

/-- Two tasks, one of each mode, and three ticks. -/
theorem neverEarly_two_tasks :
    Throughout (step 8 fun n => UInt64.ofNat (min (10 * n) 1000)) NeverEarly
      (start 8 : SchedulerTrace Unit ℕ)
      [.scheduleTask ⟨.ignoreDelays, 5, some (), 0⟩ ⟨100, true, true⟩,
        .scheduleTask ⟨.restartTimer, 7, some (), 1⟩ ⟨200, true, true⟩,
        .tick (fun _ => true) (fun _ => true), .tick (fun _ => true) (fun _ => true),
        .tick (fun n => n ≠ 4) (fun _ => true)] := by
  refine neverEarly_of_noWrap (fun m n hmn => ?_) (by decide) (by decide)
  rw [UInt64.le_iff_toNat_le, UInt64.toNat_ofNat_of_lt' (by omega : _ < 2 ^ 64),
    UInt64.toNat_ofNat_of_lt' (by omega : _ < 2 ^ 64)]
  omega

/-- A task with the longest period is scheduled when the clock is at one, and executed by a
tick at the same moment. -/
theorem early_execution :
    (∀ m n : ℕ, m ≤ n → (fun _ : ℕ => (1 : UInt64)) m ≤ (fun _ : ℕ => (1 : UInt64)) n) ∧
      StepsMeet (step 8 fun _ => 1) FreshAddress (start 8 : SchedulerTrace Unit ℕ)
        [.scheduleTask ⟨.restartTimer, 18446744073709551615, some (), 0⟩ ⟨100, true, true⟩,
          .tick (fun _ => true) (fun _ => true)] ∧
      ¬Throughout (step 8 fun _ => 1) NeverEarly (start 8 : SchedulerTrace Unit ℕ)
        [.scheduleTask ⟨.restartTimer, 18446744073709551615, some (), 0⟩ ⟨100, true, true⟩,
          .tick (fun _ => true) (fun _ => true)] := by
  refine ⟨fun _ _ _ => UInt64.le_refl 1, by decide, fun h => ?_⟩
  have hearly := (h.last _ List.mem_cons_self).periods 0 1 (by decide)
  revert hearly
  decide

end SchedulerTrace

end HawkTracer.Lib
