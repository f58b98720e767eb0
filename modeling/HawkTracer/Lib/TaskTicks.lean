import HawkTracer.Lib.TaskScheduler
import Mathlib.Algebra.Ring.Nat

/-!
# One tick of the scheduler

The loop of `ht_task_scheduler_tick` removes tasks from the bag it goes through. The last task
comes to the free slot, the index is decremented and then incremented by the loop; for the
first slot it goes from zero to the largest `size_t` and back. Here the loop is written with an
index of 64 bits, and it lists what it does with each task it finds
(`HawkTracer.Lib.Examination`).

The tasks before the index have been examined and are as the examination left them, those from
the index on are still to be examined, in some order; every round keeps this. So
`HawkTracer.Lib.TaskScheduler.tick_examines_once`: each task present at the start is examined
once, executed if it is due, and then removed or given its next deadline. The clock may read
anything.
-/

namespace HawkTracer.Lib

variable {γ υ : Type}

/-- What a round of a tick does with the task it finds. -/
structure Examination (γ υ : Type) where
  task : Task γ υ
  now : UInt64
  /-- The answer of the callback, if it is called. -/
  answer : Option Bool
  /-- The reading of the clock after the callback, if there is one. -/
  later : Option UInt64

namespace Examination

/-- The readings of the clock. -/
def readings (e : Examination γ υ) : List UInt64 := e.now :: e.later.toList

/-- The call of the callback. -/
def execution (e : Examination γ υ) : Option Execution :=
  e.answer.map fun answer => ⟨e.task.id, e.now, answer⟩

/-- **What becomes of the task**: nothing if it is not due, it is removed if the callback
answers no, and otherwise it is due again a period after the last deadline, or after the reading
of the clock that follows the callback. -/
def outcome (e : Examination γ υ) : Option (Task γ υ) :=
  match e.answer, e.task.mode with
  | none, _ => some e.task
  | some false, _ => none
  | some true, .ignoreDelays =>
    some { e.task with nextActionTs := e.task.nextActionTs + e.task.period }
  | some true, .restartTimer => e.later.map fun later =>
    { e.task with nextActionTs := later + e.task.period }

/-- The callback is called if the task is due, and the clock is read again for a new start of
the timer. -/
structure Proper (e : Examination γ υ) : Prop where
  called : e.answer.isSome ↔ e.task.nextActionTs ≤ e.now
  later : e.later.isSome ↔ e.answer = some true ∧ e.task.mode = .restartTimer

end Examination

namespace TaskScheduler

variable (pointer : ℕ) (clock : ℕ → UInt64) (answers oks : ℕ → Bool)

/-- One round of the loop of `ht_task_scheduler_tick`: the index before it is incremented, the
scheduler, and what has been done with the task. -/
def examine (s : TaskScheduler γ υ) (i : UInt64) (x : Task γ υ) (answer ok : Bool) :
    UInt64 × TaskScheduler γ υ × Examination γ υ :=
  let nowTs := clock s.reads
  if x.nextActionTs > nowTs then
    (i, { s with reads := s.reads + 1 }, ⟨x, nowTs, none, none⟩)
  else
    let s : TaskScheduler γ υ :=
      { s with reads := s.reads + 1, executed := s.executed ++ [⟨x.id, nowTs, answer⟩] }
    if answer = false then
      (i - 1, { s with tasks := s.tasks.removeNth (voidPtrSizes pointer) i.toNat ok },
        ⟨x, nowTs, some false, none⟩)
    else
      match x.mode with
      | .ignoreDelays =>
        (i, s.setTask i.toNat { x with nextActionTs := x.nextActionTs + x.period },
          ⟨x, nowTs, some true, none⟩)
      | .restartTimer =>
        (i, { s with reads := s.reads + 1 }.setTask i.toNat
            { x with nextActionTs := clock s.reads + x.period },
          ⟨x, nowTs, some true, some (clock s.reads)⟩)

/-- The loop of `ht_task_scheduler_tick` from an index on; nothing if it has not ended after so
many tests of its condition, or has found a slot without a task. -/
def tickFrom : ℕ → UInt64 → TaskScheduler γ υ → Option (TaskScheduler γ υ × List (Examination γ υ))
  | 0, _, _ => none
  | rounds + 1, i, s =>
    if i.toNat < s.tasks.size then
      match s.tasks.slots.getD i.toNat none with
      | none => none
      | some x =>
        let (i, s, e) :=
          s.examine pointer clock i x (answers s.executed.length) (oks s.executed.length)
        (tickFrom rounds (i + 1) s).map fun r => (r.1, e :: r.2)
    else some (s, [])

variable {pointer clock answers oks} {s s' s'' : TaskScheduler γ υ} {l kept rest : List (Task γ υ)}
  {x : Task γ υ} {e : Examination γ υ} {es : List (Examination γ υ)}

/-- **What one round has done.** -/
structure Examined (clock : ℕ → UInt64) (answers : ℕ → Bool) (s s' : TaskScheduler γ υ)
    (e : Examination γ υ) : Prop where
  proper : e.Proper
  reads : s'.reads = s.reads + e.readings.length
  readings : e.readings = (List.range' s.reads e.readings.length).map clock
  executed : s'.executed = s.executed ++ e.execution.toList
  answer : ∀ a ∈ e.answer, a = answers s.executed.length

/-- **What the rounds of a tick have done**, from a state in which some tasks have been kept
and the rest is still to be examined. -/
structure Ticked (pointer : ℕ) (clock : ℕ → UInt64) (answers : ℕ → Bool)
    (s s' : TaskScheduler γ υ) (kept rest : List (Task γ υ)) (es : List (Examination γ υ)) :
    Prop where
  /-- Each task is examined once. -/
  once : (es.map Examination.task).Perm rest
  proper : ∀ e ∈ es, e.Proper
  /-- The clock is read as the examinations say, and the readings are made in this order. -/
  reads : s'.reads = s.reads + (es.flatMap Examination.readings).length
  readings : es.flatMap Examination.readings =
    (List.range' s.reads (es.flatMap Examination.readings).length).map clock
  /-- No callback is called besides. -/
  executed : s'.executed = s.executed ++ es.filterMap Examination.execution
  answers : es.filterMap Examination.answer =
    (List.range' s.executed.length (es.filterMap Examination.answer).length).map answers
  /-- The bag holds what has become of the tasks. -/
  remaining : ∃ l, Bag.Stores (voidPtrSizes pointer) s'.tasks l ∧
    l.Perm (kept ++ es.filterMap Examination.outcome)

theorem ticked_nil (h : Bag.Stores (voidPtrSizes pointer) s.tasks kept) :
    Ticked pointer clock answers s s kept [] [] where
  once := .refl _
  proper _ he := absurd he List.not_mem_nil
  reads := rfl
  readings := rfl
  executed := (List.append_nil _).symm
  answers := rfl
  remaining := ⟨kept, h, by rw [List.filterMap_nil, List.append_nil]⟩

/-- The number of calls is the number of answers. -/
theorem length_execution_toList (e : Examination γ υ) :
    e.execution.toList.length = e.answer.toList.length := by
  rw [Examination.execution]
  cases e.answer <;> rfl

/-- **A round before the others.** -/
theorem Ticked.cons (he : Examined clock answers s s' e)
    (h : Ticked pointer clock answers s' s'' (kept ++ e.outcome.toList) rest es) :
    Ticked pointer clock answers s s'' kept (e.task :: rest) (e :: es) where
  once := h.once.cons _
  proper e' he' := by
    rcases List.mem_cons.mp he' with rfl | he'
    · exact he.proper
    · exact h.proper e' he'
  reads := by
    rw [h.reads, he.reads, List.flatMap_cons, List.length_append, Nat.add_assoc]
  readings := by
    rw [List.flatMap_cons, List.length_append, ← List.range'_append_1, List.map_append,
      ← he.readings, ← he.reads, ← h.readings]
  executed := by
    rw [h.executed, he.executed, List.append_assoc, List.filterMap_cons]
    cases e.execution <;> rfl
  answers := by
    have hlen : s'.executed.length = s.executed.length + e.answer.toList.length := by
      rw [he.executed, List.length_append, length_execution_toList]
    have hrest := h.answers
    rw [hlen] at hrest
    cases ha : e.answer with
    | none =>
      rw [ha] at hrest
      rw [List.filterMap_cons_none ha]
      exact hrest
    | some a =>
      rw [ha] at hrest
      rw [List.filterMap_cons_some ha, List.length_cons, List.range'_succ, List.map_cons,
        he.answer a ha]
      exact congrArg _ hrest
  remaining := by
    obtain ⟨l, hl, hp⟩ := h.remaining
    refine ⟨l, hl, hp.trans (.of_eq ?_)⟩
    rw [List.append_assoc, List.filterMap_cons]
    cases e.outcome <;> rfl

/-- **What a round leaves behind**: the tasks before the new index are those before the old one
and what has become of the task; the others are still there. -/
structure Moved (pointer : ℕ) (s' : TaskScheduler γ υ) (l : List (Task γ υ)) (i n : ℕ)
    (e : Examination γ υ) (l' : List (Task γ υ)) : Prop where
  stores : Bag.Stores (voidPtrSizes pointer) s'.tasks l'
  le : n ≤ l'.length
  kept : l'.take n = l.take i ++ e.outcome.toList
  rest : (l'.drop n).Perm (l.drop (i + 1))

theorem Moved.length_eq {n i : ℕ} {l' : List (Task γ υ)} (h : Moved pointer s' l i n e l') :
    l'.length - n = l.length - (i + 1) := by
  rw [← List.length_drop, h.rest.length_eq, List.length_drop]

/-- **The step lemma**: a round with an index of 64 bits is a round of
`HawkTracer.Lib.TaskScheduler.tickLoop`. -/
theorem examine_spec (clock : ℕ → UInt64) (answers : ℕ → Bool)
    (h : Bag.Stores (voidPtrSizes pointer) s.tasks l) {i : ℕ} (hi : i < 2 ^ 64)
    (hx : l[i]? = some x) (ok : Bool) :
    ∃ j n s' e l',
      s.examine pointer clock (.ofNat i) x (answers s.executed.length) ok = (j, s', e) ∧
      s.visit pointer clock i x (answers s.executed.length) ok = (n, s') ∧ j + 1 = .ofNat n ∧
      n ≤ i + 1 ∧ e.task = x ∧ Examined clock answers s s' e ∧ Moved pointer s' l i n e l' := by
  have hlt := (List.getElem?_eq_some_iff.mp hx).1
  have hindex : (UInt64.ofNat i).toNat = i := UInt64.toNat_ofNat_of_lt' hi
  have hnext : UInt64.ofNat i + 1 = UInt64.ofNat (i + 1) := (UInt64.ofNat_add i 1).symm
  have htake : ∀ y, (l.set i y).take (i + 1) = l.take i ++ [y] := fun y => by
    have hlen : (l.take i).length = i := List.length_take_of_le hlt.le
    rw [List.take_set, List.take_add_one, hx, List.set_append_right _ _ hlen.le, hlen, Nat.sub_self]
    rfl
  have hdrop : ∀ y, (l.set i y).drop (i + 1) = l.drop (i + 1) := fun y =>
    List.drop_set_of_lt (Nat.lt_succ_self i)
  by_cases hdue : x.nextActionTs > clock s.reads
  · refine ⟨_, i + 1, _, _, l, if_pos hdue, if_pos hdue, hnext, le_refl _, rfl, ?_, h, hlt, ?_,
      .refl _⟩
    · exact ⟨⟨by simpa using hdue, by simp⟩, rfl, rfl, (List.append_nil _).symm, by simp⟩
    · rw [List.take_add_one, hx]
      rfl
  have hle : x.nextActionTs ≤ clock s.reads := UInt64.not_lt.mp hdue
  simp only [examine, if_neg hdue, visit, afterCall, hindex]
  cases ha : answers s.executed.length with
  | false =>
    refine ⟨_, i, _, _, _, rfl, rfl, UInt64.sub_add_cancel _ _, Nat.le_succ i, rfl, ?_,
      h.removeNth (Nat.le_refl pointer) hlt ok, ?_, ?_, Bag.drop_swapRemove_perm hlt⟩
    · exact ⟨⟨by simpa using hle, by simp⟩, rfl, rfl, rfl, by simp [ha]⟩
    · rw [Bag.length_swapRemove hlt]
      omega
    · rw [Bag.take_swapRemove hlt]
      exact (List.append_nil _).symm
  | true =>
    cases hmode : x.mode with
    | ignoreDelays | restartTimer =>
      refine ⟨_, i + 1, _, _, _, rfl, rfl, hnext, le_refl _, rfl, ?_, h.set i _, ?_, ?_, ?_⟩
      · exact ⟨⟨by simpa using hle, by simp [hmode]⟩, rfl, rfl, rfl, by simp [ha]⟩
      · rwa [List.length_set]
      · simp only [htake, Examination.outcome, hmode, Option.map_some, Option.toList_some]
      · rw [hdrop]

/-- **The run lemma**: the loop ends after one test more than there are tasks left, and it does
what `HawkTracer.Lib.TaskScheduler.tickLoop` does. -/
theorem tickFrom_eq (clock : ℕ → UInt64) (answers oks : ℕ → Bool) {fuel i : ℕ}
    (h : Bag.Stores (voidPtrSizes pointer) s.tasks l) (hfuel : l.length ≤ i + fuel)
    (hi : i ≤ l.length) (hlen : l.length < 2 ^ 64) :
    ∃ es, s.tickFrom pointer clock answers oks (fuel + 1) (.ofNat i) =
        some (s.tickLoop pointer clock answers oks fuel i, es) ∧
      Ticked pointer clock answers s (s.tickLoop pointer clock answers oks fuel i) (l.take i)
        (l.drop i) es := by
  induction fuel generalizing s l i with
  | zero =>
    obtain rfl : i = l.length := Nat.le_antisymm hi hfuel
    have hindex : (UInt64.ofNat l.length).toNat = l.length := UInt64.toNat_ofNat_of_lt' hlen
    refine ⟨[], ?_, ?_⟩
    · rw [tickFrom, hindex, h.size_eq, if_neg (Nat.lt_irrefl _)]
      rfl
    · rw [List.take_length, List.drop_length]
      exact ticked_nil h
  | succ fuel ih =>
    have hindex : (UInt64.ofNat i).toNat = i := UInt64.toNat_ofNat_of_lt' (show i < 2 ^ 64 by omega)
    rcases hx : l[i]? with _ | x
    · obtain rfl : i = l.length := Nat.le_antisymm hi (List.getElem?_eq_none_iff.mp hx)
      refine ⟨[], ?_, ?_⟩
      · rw [tickFrom, hindex, h.size_eq, if_neg (Nat.lt_irrefl _), tickLoop, h.getElem?_slots, hx]
        rfl
      · rw [tickLoop, h.getElem?_slots, hx, List.take_length, List.drop_length]
        exact ticked_nil h
    have hlt := (List.getElem?_eq_some_iff.mp hx).1
    have hslot : s.tasks.slots.getD i none = some x := by
      rw [List.getD_eq_getElem?_getD, h.getElem?_slots, hx]
      rfl
    obtain ⟨j, n, s', e, l', hexamine, hvisit, hj, hn, hxe, hexamined, hmoved⟩ :=
      examine_spec clock answers h (by omega) hx (oks s.executed.length)
    have hlen' := hmoved.length_eq
    have hle := hmoved.le
    obtain ⟨es, hrun, hticked⟩ := ih hmoved.stores (by omega) hle (by omega)
    rw [hmoved.kept] at hticked
    refine ⟨e :: es, ?_, ?_⟩
    · rw [tickFrom, hindex, h.size_eq, if_pos hlt, hslot]
      simp only [hexamine]
      rw [hj, hrun, tickLoop, h.getElem?_slots, hx]
      simp only [Option.map_some, hvisit]
    · rw [tickLoop, h.getElem?_slots, hx]
      simp only [Option.map_some, hvisit]
      rw [List.drop_eq_getElem_cons hlt, (List.getElem?_eq_some_iff.mp hx).2, ← hxe]
      exact .cons hexamined { hticked with once := hticked.once.trans hmoved.rest }

/-- **One tick examines each task once**, executes those that are due, and leaves the others as
they are. -/
theorem tick_examines_once (oks : ℕ → Bool) (h : Bag.Stores (voidPtrSizes pointer) s.tasks l)
    (hlen : l.length < 2 ^ 64) :
    ∃ es, s.tickFrom pointer clock answers oks (l.length + 1) 0 =
        some (s.tick pointer clock answers oks, es) ∧
      Ticked pointer clock answers s (s.tick pointer clock answers oks) [] l es := by
  have hrun := tickFrom_eq clock answers oks h
    (Nat.le_of_eq (Nat.zero_add l.length).symm) (Nat.zero_le _) hlen
  rw [List.take_zero, List.drop_zero] at hrun
  rw [tick, h.size_eq]
  exact hrun

/-- Two tasks that are due, and one between them that is not. -/
def threeTasks : List (Task Unit ℕ) :=
  [⟨100, (), 0, 5, 5, 0, .ignoreDelays⟩, ⟨200, (), 1, 50, 50, 1, .ignoreDelays⟩,
    ⟨300, (), 2, 7, 7, 2, .restartTimer⟩]

/-- A scheduler with these tasks. -/
def threeTaskScheduler : TaskScheduler Unit ℕ := ⟨⟨16, 16, 128, threeTasks.map some⟩, 3, 3, []⟩

/-- The callback of the first task answers no, and the index wraps around. -/
theorem tick_examines_once_of_first_dropped :
    ∃ es, threeTaskScheduler.tickFrom 8 (fun n => UInt64.ofNat (10 * n)) (fun n => n ≠ 0)
          (fun _ => true) 4 0 =
        some (threeTaskScheduler.tick 8 (fun n => UInt64.ofNat (10 * n)) (fun n => n ≠ 0)
          (fun _ => true), es) ∧
      Ticked 8 (fun n => UInt64.ofNat (10 * n)) (fun n => n ≠ 0) threeTaskScheduler
        (threeTaskScheduler.tick 8 (fun n => UInt64.ofNat (10 * n)) (fun n => n ≠ 0)
          (fun _ => true)) [] threeTasks es := by
  have hstores : Bag.Stores (voidPtrSizes 8) threeTaskScheduler.tasks threeTasks :=
    ⟨⟨by decide, by decide, rfl⟩, by decide, by decide⟩
  exact tick_examines_once (fun _ => true) hstores (by decide)

end TaskScheduler

/-! ### The states that can be reached -/

namespace SchedulerTrace

variable {pointer : ℕ} {clock : ℕ → UInt64} {r : SchedulerTrace γ υ}

/-- Identifiers are given out up to `HT_INT32_MAX` only. -/
theorem nextTaskId_step_le (h : r.scheduler.nextTaskId ≤ int32Max) (hr : Kept pointer r)
    (o : Op γ υ) : (r.step pointer clock o).scheduler.nextTaskId ≤ int32Max := by
  obtain ⟨l, hs, hl⟩ := hr.stored
  cases o with
  | scheduleTask q m =>
    have hnext : (r.scheduler.scheduleTask pointer clock q m).2.nextTaskId ≤ int32Max := by
      rw [TaskScheduler.scheduleTask]
      rcases q.callback with _ | callback
      · exact h
      · by_cases hfail : r.scheduler.nextTaskId = int32Max ∨ m.task = false
        · simp only [if_pos hfail]
          exact h
        · have hne : r.scheduler.nextTaskId ≠ int32Max := fun heq => hfail (.inl heq)
          simp only [if_neg hfail]
          omega
    rw [step]
    split
    split <;> simp_all
  | tick answers oks =>
    obtain ⟨-, -, -, -, hnext, -⟩ := hl.tickLoop clock answers oks r.scheduler.tasks.size 0 hs
    exact hnext.trans_le h
  | removeTask id oks =>
    exact (r.scheduler.nextTaskId_removeTask pointer id oks).trans_le h

/-- Tasks whose identifiers have been given out are fewer than a `size_t` can count. -/
theorem length_lt_of_listed {next : ℤ} {live : ℤ → Option (TaskRequest γ υ)} {l : List (Task γ υ)}
    (h : Listed next live l) (hnext : next ≤ int32Max) : l.length < 2 ^ 64 := by
  have hnodup : (l.map fun x => x.id.toNat).Nodup := by
    refine List.Nodup.map_on ?_ (List.Nodup.of_map _ h.ids)
    intro x hx y hy heq
    have hx' := h.bounds x hx
    have hy' := h.bounds y hy
    exact List.inj_on_of_nodup_map h.ids hx hy (by omega)
  have hsub : (l.map fun x => x.id.toNat) ⊆ List.range (2 ^ 31) := by
    intro n hn
    obtain ⟨x, hx, rfl⟩ := List.mem_map.mp hn
    have hx' := h.bounds x hx
    have hmax : next ≤ 2147483647 := hnext
    rw [List.mem_range]
    omega
  have hlen := (List.subperm_of_subset hnodup hsub).length_le
  rw [List.length_map, List.length_range] at hlen
  omega

/-- **In every state that can be reached** the bag stores the tasks of the map, and these are
fewer than a `size_t` can count. -/
theorem exists_stores_of_run {os : List (Op γ υ)}
    (hos : StepsMeet (step pointer clock) FreshAddress (start pointer) os) :
    Throughout (step pointer clock) (fun r => ∃ l,
      Bag.Stores (voidPtrSizes pointer) r.scheduler.tasks l ∧ l.length < 2 ^ 64 ∧
      Listed r.scheduler.nextTaskId r.live l) (start pointer) os := by
  have hkept : Throughout (step pointer clock)
      (fun r => Kept pointer r ∧ r.scheduler.nextTaskId ≤ int32Max) (start pointer) os :=
    throughout_of_step (fun r o h ho => ⟨h.1.step ho, nextTaskId_step_le h.2 h.1 o⟩)
      ⟨kept_start, show (0 : ℤ) ≤ 2147483647 by decide⟩ hos
  refine hkept.mono fun r h => ?_
  obtain ⟨l, hs, hl⟩ := h.1.stored
  exact ⟨l, hs, length_lt_of_listed hl h.2, hl⟩

end SchedulerTrace

end HawkTracer.Lib
