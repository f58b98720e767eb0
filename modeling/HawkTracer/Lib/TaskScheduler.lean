import HawkTracer.Lib.Bag
import Mathlib.Data.Int.Init
import Mathlib.Data.List.Nodup

/-!
# The task scheduler

Tasks live in a bag of pointers: a task that is removed leaves its slot to the last one. A
tick goes through the bag by index and calls the tasks that are due; a task whose callback
answers no is removed on the spot, and the index stays where it is, since another task has
come there. `ht_task_scheduler_remove_task` looks for the first task with the identifier and
then removes every slot that points to it, by a scan that goes on in the bag it has changed.
Identifiers come from a counter that also counts tasks for which the bag had no memory.

What the environment decides is part of a call: the addresses and the answers of the
allocator, and the answers of the callbacks. The clock is a sequence of readings, and the
state counts how many have been made; it also records which tasks have been executed.

To its callers the scheduler is a map from identifiers to what was asked for
(`HawkTracer.Lib.SchedulerTrace.live`), changed by the answers they get.
`HawkTracer.Lib.SchedulerTrace.refines_map` says that it is one, whatever the allocator and
the callbacks answer.
-/

namespace HawkTracer.Lib

/-- `HT_TaskSchedulingMode`. -/
inductive SchedulingMode where
  | ignoreDelays
  | restartTimer
  deriving DecidableEq, Repr

/-- What a caller of `ht_task_scheduler_schedule_task` asks for; a callback may be `NULL`. -/
structure TaskRequest (γ υ : Type) where
  mode : SchedulingMode
  period : UInt64
  callback : Option γ
  userData : υ
  deriving DecidableEq

/-- `HT_Task`, with the address of the object. -/
structure Task (γ υ : Type) where
  address : ℕ
  callback : γ
  userData : υ
  period : UInt64
  nextActionTs : UInt64
  id : ℤ
  mode : SchedulingMode

/-- What the task was asked for. -/
def Task.request {γ υ : Type} (x : Task γ υ) : TaskRequest γ υ :=
  ⟨x.mode, x.period, some x.callback, x.userData⟩

/-- A call of the callback of a task: the reading of the clock that found it due, and the
answer. -/
structure Execution where
  id : ℤ
  ts : UInt64
  answer : Bool
  deriving DecidableEq

/-- `HT_INT32_MAX`. -/
def int32Max : ℤ := 2147483647

/-- `HT_TASK_SCHEDULER_INVALID_TASK_ID`. -/
def invalidTaskId : ℤ := -1

/-- **The scheduler**, with the number of readings of the clock and the executions so far. -/
structure TaskScheduler (γ υ : Type) where
  tasks : Bag (Task γ υ)
  nextTaskId : ℤ
  reads : ℕ
  executed : List Execution

/-- The answers of the allocator to `ht_task_scheduler_schedule_task`. -/
structure ScheduleMemory where
  address : ℕ
  task : Bool
  bag : Bool

namespace TaskScheduler

variable {γ υ : Type} (pointer : ℕ) (clock : ℕ → UInt64)

/-- `ht_task_scheduler_create`, if there is memory for it. -/
def create : TaskScheduler γ υ := ⟨Bag.init (voidPtrSizes pointer) 16, 0, 0, []⟩

/-- The object `ht_task_scheduler_schedule_task` fills in. -/
def newTask (s : TaskScheduler γ υ) (q : TaskRequest γ υ) (callback : γ) (address : ℕ) :
    Task γ υ where
  address := address
  callback := callback
  userData := q.userData
  period := q.period
  nextActionTs := clock s.reads + q.period
  id := s.nextTaskId
  mode := q.mode

/-- `ht_task_scheduler_schedule_task`. -/
def scheduleTask (s : TaskScheduler γ υ) (q : TaskRequest γ υ) (m : ScheduleMemory) :
    ℤ × TaskScheduler γ υ :=
  match q.callback with
  | none => (invalidTaskId, s)
  | some callback =>
    if s.nextTaskId = int32Max ∨ m.task = false then (invalidTaskId, s)
    else
      let task := s.newTask clock q callback m.address
      let added := s.tasks.add (voidPtrSizes pointer) task m.bag
      -- the identifier is used up even if the bag has no memory
      (if added.1 then task.id else invalidTaskId,
        { s with tasks := added.2, nextTaskId := s.nextTaskId + 1, reads := s.reads + 1 })

/-- A task is overwritten in its slot. -/
def setTask (s : TaskScheduler γ υ) (i : ℕ) (x : Task γ υ) : TaskScheduler γ υ :=
  { s with tasks := { s.tasks with slots := s.tasks.slots.set i (some x) } }

/-- The callback of a task that is due has been called: what follows, and where the loop goes
on. -/
def afterCall (s : TaskScheduler γ υ) (i : ℕ) (x : Task γ υ) (answer ok : Bool) :
    ℕ × TaskScheduler γ υ :=
  if answer = false then
    (i, { s with tasks := s.tasks.removeNth (voidPtrSizes pointer) i ok })
  else
    match x.mode with
    | .ignoreDelays =>
      (i + 1, s.setTask i { x with nextActionTs := x.nextActionTs + x.period })
    | .restartTimer =>
      (i + 1, { s with reads := s.reads + 1 }.setTask i
        { x with nextActionTs := clock s.reads + x.period })

/-- One round of the loop of `ht_task_scheduler_tick`. -/
def visit (s : TaskScheduler γ υ) (i : ℕ) (x : Task γ υ) (answer ok : Bool) :
    ℕ × TaskScheduler γ υ :=
  let nowTs := clock s.reads
  if x.nextActionTs > nowTs then (i + 1, { s with reads := s.reads + 1 })
  else
    let s : TaskScheduler γ υ :=
      { s with reads := s.reads + 1, executed := s.executed ++ [⟨x.id, nowTs, answer⟩] }
    s.afterCall pointer clock i x answer ok

/-- The loop of `ht_task_scheduler_tick`; callbacks and allocator answer in the order of the
executions. -/
def tickLoop (answers oks : ℕ → Bool) : ℕ → ℕ → TaskScheduler γ υ → TaskScheduler γ υ
  | 0, _, s => s
  | fuel + 1, i, s =>
    match s.tasks.slots[i]? with
    | some (some x) =>
      let r := s.visit pointer clock i x (answers s.executed.length) (oks s.executed.length)
      tickLoop answers oks fuel r.1 r.2
    | _ => s

/-- `ht_task_scheduler_tick`; a round moves on in the bag or makes it smaller. -/
def tick (s : TaskScheduler γ υ) (answers oks : ℕ → Bool) : TaskScheduler γ υ :=
  s.tickLoop pointer clock answers oks s.tasks.size 0

/-- The loop of `ht_task_scheduler_remove_task_entry`. -/
def removeTaskEntryLoop (address : ℕ) (oks : ℕ → Bool) :
    ℕ → ℕ → Bag (Task γ υ) → Bag (Task γ υ)
  | 0, _, b => b
  | fuel + 1, i, b =>
    removeTaskEntryLoop address oks fuel (i + 1)
      (if b.slots[i]?.join.any fun x => x.address = address then
        b.removeNth (voidPtrSizes pointer) i (oks i)
      else b)

/-- `ht_task_scheduler_remove_task`. -/
def removeTask (s : TaskScheduler γ υ) (id : ℤ) (oks : ℕ → Bool) : Bool × TaskScheduler γ υ :=
  if id < 0 then (false, s)
  else
    match s.tasks.slots.find? fun x => x.any fun x => x.id = id with
    | some (some x) =>
      (true, { s with
        tasks := removeTaskEntryLoop pointer x.address oks s.tasks.size 0 s.tasks })
    | _ => (false, s)

end TaskScheduler

/-! ### What the callers see -/

/-- A task that was scheduled with success, and the clock at that moment. -/
structure Scheduled (γ υ : Type) where
  id : ℤ
  ts : UInt64
  request : TaskRequest γ υ

/-- **The scheduler with what its callers know from the answers.** -/
structure SchedulerTrace (γ υ : Type) where
  scheduler : TaskScheduler γ υ
  /-- The tasks scheduled with success. -/
  scheduled : List (Scheduled γ υ)
  /-- The tasks that have been neither removed nor dropped. -/
  live : ℤ → Option (TaskRequest γ υ)
  /-- The answers of `ht_task_scheduler_remove_task`, and whether there was such a task. -/
  removals : List (Bool × Bool)

/-- The map without the tasks whose callback has answered no. -/
def eraseDropped {γ υ : Type} (live : ℤ → Option (TaskRequest γ υ)) (es : List Execution) :
    ℤ → Option (TaskRequest γ υ) := fun id =>
  if ∃ e ∈ es, e.id = id ∧ e.answer = false then none else live id

namespace SchedulerTrace

variable {γ υ : Type} (pointer : ℕ) (clock : ℕ → UInt64)

/-- A call, and what its environment decides. -/
inductive Op (γ υ : Type) where
  | scheduleTask (q : TaskRequest γ υ) (m : ScheduleMemory)
  | tick (answers oks : ℕ → Bool)
  | removeTask (id : ℤ) (oks : ℕ → Bool)

/-- What a call does. -/
def step (r : SchedulerTrace γ υ) : Op γ υ → SchedulerTrace γ υ
  | .scheduleTask q m =>
    let (id, s) := r.scheduler.scheduleTask pointer clock q m
    if id = invalidTaskId then { r with scheduler := s }
    else
      { r with
        scheduler := s
        scheduled := r.scheduled ++ [⟨id, clock r.scheduler.reads, q⟩]
        live := Function.update r.live id (some q) }
  | .tick answers oks =>
    let s := r.scheduler.tick pointer clock answers oks
    { r with
      scheduler := s
      live := eraseDropped r.live (s.executed.drop r.scheduler.executed.length) }
  | .removeTask id oks =>
    let (answer, s) := r.scheduler.removeTask pointer id oks
    { r with
      scheduler := s
      live := if answer then Function.update r.live id none else r.live
      removals := r.removals ++ [(answer, (r.live id).isSome)] }

/-- A scheduler without tasks. -/
def start : SchedulerTrace γ υ := ⟨.create pointer, [], fun _ => none, []⟩

/-- The allocator gives no address that is in use. -/
def FreshAddress (r : SchedulerTrace γ υ) : Op γ υ → Prop
  | .scheduleTask _ m => m.address ∉ r.scheduler.tasks.slots.filterMap (Option.map Task.address)
  | _ => True

instance FreshAddress.decidable (r : SchedulerTrace γ υ) : ∀ o, Decidable (FreshAddress r o)
  | .scheduleTask _ m => inferInstanceAs (Decidable
      (m.address ∉ r.scheduler.tasks.slots.filterMap (Option.map Task.address)))
  | .tick _ _ | .removeTask _ _ => inferInstanceAs (Decidable True)

/-- **The scheduler is the map.** Identifiers are given out in increasing order from zero on,
`ht_task_scheduler_remove_task` has always answered whether there was such a task, and the bag
holds the tasks of the map, each once and as it was asked for. -/
structure Refines (r : SchedulerTrace γ υ) : Prop where
  increasing : (r.scheduled.map Scheduled.id).Pairwise (· < ·)
  nonneg : ∀ x ∈ r.scheduled, 0 ≤ x.id
  removals : ∀ a ∈ r.removals, a.1 = a.2
  content : ∃ l : List (Task γ υ), r.scheduler.tasks.slots = l.map some ∧
    (l.map Task.id).Nodup ∧
    ∀ id q, r.live id = some q ↔ ∃ x ∈ l, x.id = id ∧ x.request = q

end SchedulerTrace

/-! ### What the functions do -/

namespace TaskScheduler

variable {γ υ : Type} {pointer : ℕ} {s : TaskScheduler γ υ} {l : List (Task γ υ)} {i : ℕ}
  {x : Task γ υ}

/-- **What `ht_task_scheduler_schedule_task` does**: nothing at all, or the identifier is used
up, and either there is no memory in the bag or the task is added. -/
theorem scheduleTask_cases (clock : ℕ → UInt64)
    (h : Bag.Stores (voidPtrSizes pointer) s.tasks l) (q : TaskRequest γ υ) (m : ScheduleMemory) :
    s.scheduleTask pointer clock q m = (invalidTaskId, s) ∨
    (∃ tasks, Bag.Stores (voidPtrSizes pointer) tasks l ∧
      s.scheduleTask pointer clock q m = (invalidTaskId, { s with
        tasks := tasks, nextTaskId := s.nextTaskId + 1, reads := s.reads + 1 })) ∨
    (∃ callback tasks, q.callback = some callback ∧
      Bag.Stores (voidPtrSizes pointer) tasks (l ++ [s.newTask clock q callback m.address]) ∧
      s.scheduleTask pointer clock q m = (s.nextTaskId, { s with
        tasks := tasks, nextTaskId := s.nextTaskId + 1, reads := s.reads + 1 })) := by
  rw [scheduleTask]
  rcases q.callback with _ | callback
  · exact .inl rfl
  by_cases hfail : s.nextTaskId = int32Max ∨ m.task = false
  · exact .inl (if_pos hfail)
  have hadd := h.add (Nat.le_refl pointer) (s.newTask clock q callback m.address) m.bag
  simp only [if_neg hfail]
  cases hok : (s.tasks.add (voidPtrSizes pointer) (s.newTask clock q callback m.address) m.bag).1
  · rw [hok] at hadd
    exact .inr (.inl ⟨_, hadd, rfl⟩)
  · rw [hok] at hadd
    exact .inr (.inr ⟨callback, _, rfl, hadd, rfl⟩)

/-- The deadline a task gets after it has been executed, by its mode. -/
def nextDeadline (clock : ℕ → UInt64) (reads : ℕ) (x : Task γ υ) : UInt64 :=
  match x.mode with
  | .ignoreDelays => x.nextActionTs + x.period
  | .restartTimer => clock reads + x.period

/-- **What a round of a tick does**: nothing if the task is not due; otherwise the task is
executed, and removed or given its next deadline. -/
theorem visit_cases (clock : ℕ → UInt64) (h : Bag.Stores (voidPtrSizes pointer) s.tasks l)
    (hx : l[i]? = some x) (answer ok : Bool) :
    (clock s.reads < x.nextActionTs ∧
      s.visit pointer clock i x answer ok = (i + 1, { s with reads := s.reads + 1 })) ∨
    (x.nextActionTs ≤ clock s.reads ∧ answer = false ∧ ∃ tasks,
      Bag.Stores (voidPtrSizes pointer) tasks (Bag.swapRemove l i) ∧
      s.visit pointer clock i x answer ok = (i, { s with
        tasks := tasks, reads := s.reads + 1
        executed := s.executed ++ [⟨x.id, clock s.reads, false⟩] })) ∨
    (x.nextActionTs ≤ clock s.reads ∧ answer = true ∧ ∃ tasks reads,
      s.reads < reads ∧ reads ≤ s.reads + 2 ∧
      Bag.Stores (voidPtrSizes pointer) tasks
        (l.set i { x with nextActionTs := nextDeadline clock (s.reads + 1) x }) ∧
      s.visit pointer clock i x answer ok = (i + 1, { s with
        tasks := tasks, reads := reads
        executed := s.executed ++ [⟨x.id, clock s.reads, true⟩] })) := by
  have hi : i < l.length := (List.getElem?_eq_some_iff.mp hx).1
  by_cases hdue : x.nextActionTs > clock s.reads
  · exact .inl ⟨hdue, by rw [visit, if_pos hdue]⟩
  · have hle : x.nextActionTs ≤ clock s.reads := UInt64.not_lt.mp hdue
    refine .inr ?_
    cases answer with
    | false =>
      refine .inl ⟨hle, rfl, _, h.removeNth (Nat.le_refl pointer) hi ok, ?_⟩
      simp only [visit, if_neg hdue, afterCall, if_true]
    | true =>
      cases hmode : x.mode with
      | ignoreDelays =>
        refine .inr ⟨hle, rfl, _, s.reads + 1, by omega, by omega, h.set i _, ?_⟩
        simp only [visit, if_neg hdue, afterCall, hmode, nextDeadline, setTask]
        rfl
      | restartTimer =>
        refine .inr ⟨hle, rfl, _, s.reads + 2, by omega, by omega, h.set i _, ?_⟩
        simp only [visit, if_neg hdue, afterCall, hmode, nextDeadline, setTask]
        rfl

/-! ### Removing a task -/

theorem any_address_slots {b : Bag (Task γ υ)} (h : Bag.Stores (voidPtrSizes pointer) b l)
    (address i : ℕ) :
    (b.slots[i]?.join.any fun x => x.address = address) =
      l[i]?.any fun x => x.address = address := by
  rw [h.getElem?_slots]
  cases l[i]? <;> rfl

/-- Without a task at the address nothing is removed. -/
theorem removeTaskEntryLoop_of_notMem {b : Bag (Task γ υ)}
    (h : Bag.Stores (voidPtrSizes pointer) b l) {address : ℕ}
    (hl : address ∉ l.map Task.address) (oks : ℕ → Bool) (fuel i : ℕ) :
    removeTaskEntryLoop pointer address oks fuel i b = b := by
  induction fuel generalizing i with
  | zero => rfl
  | succ fuel ih =>
    have hno : (l[i]?.any fun x => x.address = address) = false := by
      rcases hx : l[i]? with _ | x
      · rfl
      · exact decide_eq_false fun heq => hl (heq ▸ List.mem_map_of_mem (List.mem_of_getElem? hx))
    rw [removeTaskEntryLoop, any_address_slots h, hno]
    exact ih (i + 1)

/-- **The scan removes the task at the address, once.** -/
theorem stores_removeTaskEntryLoop {b : Bag (Task γ υ)}
    (h : Bag.Stores (voidPtrSizes pointer) b l) (hnodup : (l.map Task.address).Nodup) {j : ℕ}
    (hx : l[j]? = some x) (oks : ℕ → Bool) {fuel : ℕ} (hij : i ≤ j) (hfuel : j < i + fuel) :
    Bag.Stores (voidPtrSizes pointer) (removeTaskEntryLoop pointer x.address oks fuel i b)
      (Bag.swapRemove l j) := by
  induction fuel generalizing i with
  | zero => omega
  | succ fuel ih =>
    rw [removeTaskEntryLoop, any_address_slots h]
    rcases Nat.lt_or_eq_of_le hij with hlt | rfl
    · -- another task has another address
      have hno : (l[i]?.any fun y => y.address = x.address) = false := by
        rcases hy : l[i]? with _ | y
        · rfl
        · refine decide_eq_false fun heq => ?_
          have hget : ∀ k (z : Task γ υ), l[k]? = some z →
              (l.map Task.address)[k]? = some z.address := fun k z hz => by
            rw [List.getElem?_map, hz, Option.map_some]
          have hlen : i < (l.map Task.address).length :=
            (List.getElem?_eq_some_iff.mp (hget i y hy)).1
          have hsame := (List.getElem?_inj hlen hnodup).mp
            ((hget i y hy).trans (heq ▸ (hget j x hx).symm))
          omega
      rw [hno]
      exact ih hlt (by omega)
    · have hyes : (l[i]?.any fun y => y.address = x.address) = true := by
        rw [hx]
        exact decide_eq_true rfl
      have hi : i < l.length := (List.getElem?_eq_some_iff.mp hx).1
      have hremoved := h.removeNth (Nat.le_refl pointer) hi (oks i)
      have hnotMem : x.address ∉ (Bag.swapRemove l i).map Task.address :=
        (List.nodup_cons.mp (((Bag.swapRemove_perm hx).map Task.address).nodup hnodup)).1
      rw [if_pos hyes, removeTaskEntryLoop_of_notMem hremoved hnotMem]
      exact hremoved

theorem nextTaskId_removeTask (s : TaskScheduler γ υ) (pointer : ℕ) (id : ℤ) (oks : ℕ → Bool) :
    (s.removeTask pointer id oks).2.nextTaskId = s.nextTaskId := by
  rw [removeTask]
  split
  · rfl
  · split <;> rfl

/-- **What `ht_task_scheduler_remove_task` does**: nothing if there is no task with the
identifier, and otherwise it removes one. -/
theorem removeTask_cases (h : Bag.Stores (voidPtrSizes pointer) s.tasks l)
    (hnodup : (l.map Task.address).Nodup) (hnonneg : ∀ x ∈ l, 0 ≤ x.id) (id : ℤ) (oks : ℕ → Bool) :
    ((∀ x ∈ l, x.id ≠ id) ∧ s.removeTask pointer id oks = (false, s)) ∨
    ∃ j x tasks, l[j]? = some x ∧ x.id = id ∧
      Bag.Stores (voidPtrSizes pointer) tasks (Bag.swapRemove l j) ∧
      s.removeTask pointer id oks = (true, { s with tasks := tasks }) := by
  have hfind : (s.tasks.slots.find? fun x => x.any fun x => x.id = id) =
      (l.find? fun x => x.id = id).map some := by
    rw [show s.tasks.slots = l.map some from h.sound.slots, List.find?_map]
    rfl
  rcases hx : l.find? fun x => x.id = id with _ | x
  · refine .inl ⟨by simpa using List.find?_eq_none.mp hx, ?_⟩
    rw [removeTask, hfind, hx]
    split <;> rfl
  · have hid : x.id = id := by simpa using List.find?_some hx
    have hxl : x ∈ l := List.mem_of_find?_eq_some hx
    obtain ⟨j, hj⟩ := List.mem_iff_getElem?.mp hxl
    have hjlen : j < 0 + s.tasks.size := by
      rw [Nat.zero_add, h.size_eq]
      exact (List.getElem?_eq_some_iff.mp hj).1
    refine .inr ⟨j, x, _, hj, hid,
      stores_removeTaskEntryLoop h hnodup hj oks (Nat.zero_le j) hjlen, ?_⟩
    rw [removeTask, if_neg (Int.not_lt.mpr (hid ▸ hnonneg x hxl)), hfind, hx]
    rfl

end TaskScheduler

/-! ### The tasks as a map -/

section Map

variable {γ υ : Type} {next : ℤ} {live : ℤ → Option (TaskRequest γ υ)} {l l' : List (Task γ υ)}
  {x y : Task γ υ}

/-- **The tasks are those of the map**, in whatever order they are stored. -/
structure Listed (next : ℤ) (live : ℤ → Option (TaskRequest γ υ)) (l : List (Task γ υ)) :
    Prop where
  ids : (l.map Task.id).Nodup
  addresses : (l.map Task.address).Nodup
  bounds : ∀ x ∈ l, 0 ≤ x.id ∧ x.id < next
  live : ∀ id q, live id = some q ↔ ∃ x ∈ l, x.id = id ∧ x.request = q

theorem Listed.perm (h : Listed next live l) (hp : l.Perm l') : Listed next live l' where
  ids := (hp.map Task.id).nodup h.ids
  addresses := (hp.map Task.address).nodup h.addresses
  bounds x hx := h.bounds x (hp.mem_iff.mpr hx)
  live id q := by
    rw [h.live]
    exact exists_congr fun x => and_congr_left fun _ => hp.mem_iff

/-- The task is dropped. -/
theorem Listed.drop (h : Listed next live (x :: l)) :
    Listed next (Function.update live x.id none) l := by
  obtain ⟨hid, hids⟩ := List.nodup_cons.mp h.ids
  refine ⟨hids, (List.nodup_cons.mp h.addresses).2,
    fun y hy => h.bounds y (List.mem_cons_of_mem x hy), fun id q => ?_⟩
  by_cases heq : id = x.id
  · subst heq
    rw [Function.update_self]
    refine iff_of_false (by simp) ?_
    rintro ⟨y, hy, hyid, -⟩
    exact hid (hyid ▸ List.mem_map_of_mem hy)
  · rw [Function.update_of_ne heq, h.live]
    simp only [List.mem_cons, exists_eq_or_imp]
    exact or_iff_right fun hx => heq hx.1.symm

/-- The task is changed in what the callers do not see. -/
theorem Listed.replace (h : Listed next live (x :: l)) (hid : y.id = x.id)
    (haddress : y.address = x.address) (hrequest : y.request = x.request) :
    Listed next live (y :: l) where
  ids := by simpa only [List.map_cons, hid] using h.ids
  addresses := by simpa only [List.map_cons, haddress] using h.addresses
  bounds z hz := by
    rcases List.mem_cons.mp hz with rfl | hz
    · rw [hid]
      exact h.bounds x List.mem_cons_self
    · exact h.bounds z (List.mem_cons_of_mem x hz)
  live id q := by
    rw [h.live]
    simp only [List.mem_cons, exists_eq_or_imp, hid, hrequest]

/-- A task with the next identifier is added. -/
theorem Listed.add (h : Listed next live l) (hnext : 0 ≤ next) (hid : x.id = next)
    (haddress : ∀ y ∈ l, y.address ≠ x.address) :
    Listed (next + 1) (Function.update live next (some x.request)) (x :: l) where
  ids := by
    refine List.nodup_cons.mpr ⟨fun hmem => ?_, h.ids⟩
    obtain ⟨y, hy, heq⟩ := List.mem_map.mp hmem
    have hlt := (h.bounds y hy).2
    omega
  addresses := by
    refine List.nodup_cons.mpr ⟨fun hmem => ?_, h.addresses⟩
    obtain ⟨y, hy, heq⟩ := List.mem_map.mp hmem
    exact haddress y hy heq
  bounds y hy := by
    rcases List.mem_cons.mp hy with rfl | hy
    · omega
    · have hb := h.bounds y hy
      omega
  live id q := by
    simp only [List.mem_cons, exists_eq_or_imp, hid]
    by_cases heq : id = next
    · subst heq
      rw [Function.update_self, Option.some.injEq]
      refine ⟨fun hq => .inl ⟨rfl, hq⟩, ?_⟩
      rintro (⟨-, hq⟩ | ⟨y, hy, hyid, -⟩)
      · exact hq
      · have hlt := (h.bounds y hy).2
        omega
    · rw [Function.update_of_ne heq, h.live]
      exact (or_iff_right fun hx => heq hx.1.symm).symm

theorem Listed.mono (h : Listed next live l) {next' : ℤ} (hle : next ≤ next') :
    Listed next' live l :=
  ⟨h.ids, h.addresses, fun x hx => ⟨(h.bounds x hx).1, Int.lt_of_lt_of_le (h.bounds x hx).2 hle⟩,
    h.live⟩

theorem eraseDropped_nil : eraseDropped live [] = live := by
  funext id
  simp [eraseDropped]

theorem eraseDropped_cons (e : Execution) (es : List Execution) :
    eraseDropped live (e :: es) =
      eraseDropped (if e.answer then live else Function.update live e.id none) es := by
  funext id
  simp only [eraseDropped, List.mem_cons, exists_eq_or_imp]
  by_cases hes : ∃ e ∈ es, e.id = id ∧ e.answer = false
  · rw [if_pos (.inr hes), if_pos hes]
  · rw [if_neg hes]
    cases e.answer with
    | true => simp [hes]
    | false =>
      by_cases hid : e.id = id
      · subst hid
        simp
      · simp [hid, hes, Function.update_of_ne (Ne.symm hid)]

variable {pointer : ℕ} {s : TaskScheduler γ υ}

open TaskScheduler in
/-- **A tick drops the tasks that answer no, and changes nothing else of the map.** -/
theorem Listed.tickLoop (clock : ℕ → UInt64) (answers oks : ℕ → Bool) (fuel i : ℕ)
    (hs : Bag.Stores (voidPtrSizes pointer) s.tasks l) (h : Listed s.nextTaskId live l) :
    ∃ l' es, Bag.Stores (voidPtrSizes pointer)
        (s.tickLoop pointer clock answers oks fuel i).tasks l' ∧
      (s.tickLoop pointer clock answers oks fuel i).executed = s.executed ++ es ∧
      (s.tickLoop pointer clock answers oks fuel i).nextTaskId = s.nextTaskId ∧
      Listed s.nextTaskId (eraseDropped live es) l' := by
  induction fuel generalizing s l live i with
  | zero => exact ⟨l, [], hs, (List.append_nil _).symm, rfl, eraseDropped_nil.symm ▸ h⟩
  | succ fuel ih =>
    rw [TaskScheduler.tickLoop, hs.getElem?_slots]
    rcases hx : l[i]? with _ | x
    · exact ⟨l, [], hs, (List.append_nil _).symm, rfl, eraseDropped_nil.symm ▸ h⟩
    simp only [Option.map_some]
    rcases visit_cases clock hs hx (answers s.executed.length)
        (oks s.executed.length) with
      ⟨-, hv⟩ | ⟨-, hans, tasks, htasks, hv⟩ | ⟨-, hans, tasks, reads, -, -, htasks, hv⟩
    · -- the task is not due
      rw [hv]
      exact ih (i + 1) hs h
    · rw [hv]
      obtain ⟨l', es, hstores, hexec, hnext, hlisted⟩ := ih i (s := { s with
        tasks := tasks, reads := s.reads + 1
        executed := s.executed ++ [⟨x.id, clock s.reads, false⟩] }) htasks
        (h.perm (Bag.swapRemove_perm hx)).drop
      refine ⟨l', ⟨x.id, clock s.reads, false⟩ :: es, hstores, ?_, hnext, ?_⟩
      · rw [hexec, List.append_assoc, List.singleton_append]
      · rw [eraseDropped_cons]
        exact hlisted
    · rw [hv]
      have hi := (List.getElem?_eq_some_iff.mp hx).1
      have hperm : l.Perm (x :: l.eraseIdx i) := by
        rw [← (List.getElem?_eq_some_iff.mp hx).2]
        exact (List.getElem_cons_eraseIdx_perm hi).symm
      have hset : Listed s.nextTaskId live
          (l.set i { x with nextActionTs := nextDeadline clock (s.reads + 1) x }) :=
        ((h.perm hperm).replace (y := { x with
          nextActionTs := nextDeadline clock (s.reads + 1) x }) rfl rfl rfl).perm
          (List.set_perm_cons_eraseIdx hi _).symm
      obtain ⟨l', es, hstores, hexec, hnext, hlisted⟩ := ih (i + 1) (s := { s with
        tasks := tasks, reads := reads
        executed := s.executed ++ [⟨x.id, clock s.reads, true⟩] }) htasks hset
      refine ⟨l', ⟨x.id, clock s.reads, true⟩ :: es, hstores, ?_, hnext, ?_⟩
      · rw [hexec, List.append_assoc, List.singleton_append]
      · rw [eraseDropped_cons]
        exact hlisted

/-- **`ht_task_scheduler_remove_task` removes the task with the identifier, if there is one.** -/
theorem Listed.removeTask (hs : Bag.Stores (voidPtrSizes pointer) s.tasks l)
    (h : Listed s.nextTaskId live l) (id : ℤ) (oks : ℕ → Bool) :
    (s.removeTask pointer id oks).1 = (live id).isSome ∧
      ∃ l', Bag.Stores (voidPtrSizes pointer) (s.removeTask pointer id oks).2.tasks l' ∧
        Listed s.nextTaskId
          (if (s.removeTask pointer id oks).1 then Function.update live id none else live) l' := by
  rcases TaskScheduler.removeTask_cases hs h.addresses (fun x hx => (h.bounds x hx).1) id oks with
    ⟨hno, heq⟩ | ⟨j, x, tasks, hj, hid, htasks, heq⟩
  · have hnone : live id = none := by
      rcases hq : live id with _ | q
      · rfl
      · obtain ⟨x, hxl, hxid, -⟩ := (h.live id q).mp hq
        exact absurd hxid (hno x hxl)
    rw [heq, hnone]
    exact ⟨rfl, l, hs, h⟩
  · have hlive : live id = some x.request :=
      (h.live id _).mpr ⟨x, List.mem_of_getElem? hj, hid, rfl⟩
    rw [heq, hlive]
    exact ⟨rfl, _, htasks, hid ▸ (h.perm (Bag.swapRemove_perm hj)).drop⟩

end Map

namespace SchedulerTrace

variable {γ υ : Type} {pointer : ℕ} {clock : ℕ → UInt64} {r : SchedulerTrace γ υ}

/-- **What holds in every state.** -/
structure Kept (pointer : ℕ) (r : SchedulerTrace γ υ) : Prop where
  next_nonneg : 0 ≤ r.scheduler.nextTaskId
  stored : ∃ l, Bag.Stores (voidPtrSizes pointer) r.scheduler.tasks l ∧
    Listed r.scheduler.nextTaskId r.live l
  scheduled : ∀ x ∈ r.scheduled, 0 ≤ x.id ∧ x.id < r.scheduler.nextTaskId
  increasing : (r.scheduled.map Scheduled.id).Pairwise (· < ·)
  removals : ∀ a ∈ r.removals, a.1 = a.2

theorem Kept.refines (h : Kept pointer r) : Refines r := by
  obtain ⟨l, hs, hl⟩ := h.stored
  exact ⟨h.increasing, fun x hx => (h.scheduled x hx).1, h.removals, l, hs.sound.slots, hl.ids,
    hl.live⟩

theorem kept_start : Kept pointer (start pointer : SchedulerTrace γ υ) where
  next_nonneg := Int.le_refl 0
  stored := ⟨[], Bag.stores_init (Nat.succ_pos 15), List.nodup_nil, List.nodup_nil,
    fun _ hx => absurd hx List.not_mem_nil, fun id q => by simp [start]⟩
  scheduled _ hx := absurd hx List.not_mem_nil
  increasing := List.Pairwise.nil
  removals _ ha := absurd ha List.not_mem_nil

theorem Kept.scheduleTask (h : Kept pointer r) {q : TaskRequest γ υ} {m : ScheduleMemory}
    (hm : FreshAddress r (.scheduleTask q m)) :
    Kept pointer (r.step pointer clock (.scheduleTask q m)) := by
  obtain ⟨l, hs, hl⟩ := h.stored
  have hnonneg := h.next_nonneg
  have hgrow : ∀ x ∈ r.scheduled, 0 ≤ x.id ∧ x.id < r.scheduler.nextTaskId + 1 := fun x hx => by
    have hx' := h.scheduled x hx
    omega
  rcases TaskScheduler.scheduleTask_cases clock hs q m with
    heq | ⟨tasks, htasks, heq⟩ | ⟨callback, tasks, hq, htasks, heq⟩
  · rw [step, heq]
    exact ⟨h.next_nonneg, ⟨l, hs, hl⟩, h.scheduled, h.increasing, h.removals⟩
  · rw [step, heq]
    exact ⟨show 0 ≤ r.scheduler.nextTaskId + 1 by omega,
      ⟨l, htasks, hl.mono (Int.le_add_one (Int.le_refl _))⟩, hgrow, h.increasing, h.removals⟩
  · have hvalid : r.scheduler.nextTaskId ≠ invalidTaskId := by
      rw [invalidTaskId]
      omega
    have haddress : ∀ y ∈ l, y.address ≠ m.address := by
      intro y hy heq
      refine hm (List.mem_filterMap.mpr ⟨some y, ?_, congrArg some heq⟩)
      rw [show r.scheduler.tasks.slots = l.map some from hs.sound.slots]
      exact List.mem_map_of_mem hy
    have hrequest : (r.scheduler.newTask clock q callback m.address).request = q := by
      simp only [TaskScheduler.newTask, Task.request, ← hq]
    have hlisted := (hl.add (x := r.scheduler.newTask clock q callback m.address) hnonneg rfl
      haddress).perm (List.perm_append_singleton _ l).symm
    rw [hrequest] at hlisted
    simp only [step, heq, if_neg hvalid]
    refine ⟨show 0 ≤ r.scheduler.nextTaskId + 1 by omega, ⟨_, htasks, hlisted⟩, ?_, ?_, h.removals⟩
    · intro y hy
      rcases List.mem_append.mp hy with hy | hy
      · exact hgrow y hy
      · rw [List.mem_singleton.mp hy]
        exact ⟨hnonneg, Int.lt_succ _⟩
    · rw [List.map_append, List.pairwise_append]
      refine ⟨h.increasing, List.pairwise_singleton .., fun id₁ h₁ id₂ h₂ => ?_⟩
      obtain ⟨y, hy, rfl⟩ := List.mem_map.mp h₁
      rw [List.mem_singleton.mp h₂]
      exact (h.scheduled y hy).2

theorem Kept.step (h : Kept pointer r) {o : Op γ υ} (ho : FreshAddress r o) :
    Kept pointer (r.step pointer clock o) := by
  obtain ⟨l, hs, hl⟩ := h.stored
  cases o with
  | scheduleTask q m => exact h.scheduleTask ho
  | tick answers oks =>
    obtain ⟨l', es, hs', hexec, hnext, hl'⟩ := hl.tickLoop clock answers oks
      r.scheduler.tasks.size 0 hs
    rw [SchedulerTrace.step, TaskScheduler.tick]
    simp only [hexec, List.drop_left]
    exact ⟨hnext ▸ h.next_nonneg, ⟨l', hs', hnext ▸ hl'⟩, fun x hx => hnext ▸ h.scheduled x hx,
      h.increasing, h.removals⟩
  | removeTask id oks =>
    obtain ⟨hanswer, l', hs', hl'⟩ := hl.removeTask hs id oks
    have hnext := r.scheduler.nextTaskId_removeTask pointer id oks
    refine ⟨hnext ▸ h.next_nonneg, ⟨l', hs', hnext ▸ hl'⟩, fun x hx => hnext ▸ h.scheduled x hx,
      h.increasing, fun a ha => ?_⟩
    rcases List.mem_append.mp ha with ha | ha
    · exact h.removals a ha
    · rw [List.mem_singleton.mp ha]
      exact hanswer

/-- **The scheduler refines a map from identifiers to tasks**, over every run, whatever the
allocator and the callbacks answer. -/
theorem refines_map {os : List (Op γ υ)}
    (hos : StepsMeet (step pointer clock) FreshAddress (start pointer) os) :
    Throughout (step pointer clock) Refines (start pointer) os := by
  have hkept : Throughout (step pointer clock) (Kept pointer) (start pointer) os :=
    throughout_of_step (fun _ _ h ho => h.step ho) kept_start hos
  exact hkept.mono fun _ h => h.refines

/-- There is no memory for one of three tasks; a tick drops one and a call removes the other. -/
theorem refines_map_three_tasks :
    Throughout (step 8 fun n => UInt64.ofNat (10 * n)) Refines (start 8 : SchedulerTrace Unit ℕ)
      [.scheduleTask ⟨.ignoreDelays, 5, some (), 0⟩ ⟨100, true, true⟩,
        .scheduleTask ⟨.restartTimer, 5, some (), 1⟩ ⟨200, false, true⟩,
        .scheduleTask ⟨.restartTimer, 7, some (), 2⟩ ⟨200, true, true⟩,
        .tick (fun n => n ≠ 0) (fun _ => true), .removeTask 1 (fun _ => false),
        .removeTask 1 (fun _ => false)] :=
  refines_map (by decide)

end SchedulerTrace

end HawkTracer.Lib
