import HawkTracer.Base.Loop
import HawkTracer.Lib.TaskTicks
import Mathlib.Algebra.Ring.Nat

/-!
# The optimal tick period

`ht_task_scheduler_get_optimal_tick_period` goes through the bag of tasks and computes the
greatest common divisor of their periods, by Euclid's loop on 64-bit numbers. Zero plays two
parts: it is the period of tasks to be skipped, and the value as long as no other period has
been seen. Both are what the greatest common divisor makes of a zero, so that the loop is a fold
of `Nat.gcd` over all periods (`HawkTracer.Lib.TaskScheduler.optimalTickPeriodFrom_eq`).

`HawkTracer.Lib.TaskScheduler.HasTickPeriod` says that the function returns a value. The order of
the tasks in the bag is whatever scheduling and removing have made of it;
`HawkTracer.Lib.SchedulerTrace.tickPeriod_eq_gcd` says that only the periods count.
-/

namespace HawkTracer.Lib

variable {γ υ : Type}

/-- `_greatest_common_divisor`; nothing if the loop has not ended after so many tests of its
condition. -/
def greatestCommonDivisor : ℕ → UInt64 → UInt64 → Option UInt64
  | 0, _, _ => none
  | rounds + 1, a, b => if b = 0 then some a else greatestCommonDivisor rounds b (a % b)

/-- **Euclid's loop ends**, and what is left is the greatest common divisor. -/
theorem greatestCommonDivisor_eq {rounds : ℕ} {a b : UInt64} (h : b.toNat < rounds) :
    greatestCommonDivisor rounds a b = some (.ofNat (Nat.gcd a.toNat b.toNat)) := by
  -- the second number gets smaller in every round
  induction rounds generalizing a b with
  | zero => omega
  | succ rounds ih =>
    rw [greatestCommonDivisor]
    split
    · next hb =>
      rw [hb, UInt64.toNat_zero, Nat.gcd_zero_right, UInt64.ofNat_toNat]
    · next hb =>
      have hpos : 0 < b.toNat := Nat.pos_of_ne_zero fun h0 => hb (UInt64.toNat_inj.mp h0)
      have hlt : (a % b).toNat < b.toNat := UInt64.toNat_mod a b ▸ Nat.mod_lt _ hpos
      rw [ih (by omega), UInt64.toNat_mod, Nat.gcd_comm a.toNat, Nat.gcd_rec b.toNat a.toNat,
        Nat.gcd_comm b.toNat]

namespace TaskScheduler

/-- The loop of `ht_task_scheduler_get_optimal_tick_period` from a position on; nothing if it
has not ended after so many tests of its condition, or has found a slot without a task. -/
def optimalTickPeriodFrom (s : TaskScheduler γ υ) (rounds : ℕ) :
    ℕ → UInt64 → UInt64 → Option UInt64
  | 0, _, _ => none
  | tests + 1, taskPos, perfectPeriod =>
    if taskPos.toNat < s.tasks.size then
      match s.tasks.slots.getD taskPos.toNat none with
      | none => none
      | some task =>
        if task.period = 0 then optimalTickPeriodFrom s rounds tests (taskPos + 1) perfectPeriod
        else if perfectPeriod = 0 then
          optimalTickPeriodFrom s rounds tests (taskPos + 1) task.period
        else
          match greatestCommonDivisor rounds perfectPeriod task.period with
          | none => none
          | some period => optimalTickPeriodFrom s rounds tests (taskPos + 1) period
    else some perfectPeriod

/-- `ht_task_scheduler_get_optimal_tick_period`, each of whose loops may test its condition so
many times. -/
def getOptimalTickPeriod (rounds : ℕ) (s : TaskScheduler γ υ) : Option UInt64 :=
  s.optimalTickPeriodFrom rounds rounds 0 0

/-- **The function returns the value.** -/
def HasTickPeriod (s : TaskScheduler γ υ) (period : UInt64) : Prop :=
  Ends (fun rounds => s.getOptimalTickPeriod rounds) period

/-- The periods of some tasks, as numbers. -/
def periods (l : List (Task γ υ)) : List ℕ := l.map fun x => x.period.toNat

theorem gcd_foldl_lt {a : ℕ} (ha : a < 2 ^ 64) (l : List (Task γ υ)) :
    (periods l).foldl Nat.gcd a < 2 ^ 64 := by
  induction l generalizing a with
  | nil => exact ha
  | cons x l ih =>
    refine ih ?_
    rcases Nat.eq_zero_or_pos a with rfl | hpos
    · rw [Nat.gcd_zero_left]
      exact x.period.toNat_lt
    · exact lt_of_le_of_lt (Nat.gcd_le_left _ hpos) ha

variable {pointer : ℕ} {s : TaskScheduler γ υ} {l : List (Task γ υ)}

section

variable (h : Bag.Stores (voidPtrSizes pointer) s.tasks l)

include h

/-- **What one round does**: the value becomes the greatest common divisor of itself and the
period of the task, whether or not one of them is zero. -/
theorem optimalTickPeriodFrom_succ {x : Task γ υ} {i rounds tests : ℕ} (hi : i < 2 ^ 64)
    (hx : l[i]? = some x) (hrounds : 2 ^ 64 ≤ rounds) (period : UInt64) :
    s.optimalTickPeriodFrom rounds (tests + 1) (.ofNat i) period =
      s.optimalTickPeriodFrom rounds tests (.ofNat (i + 1))
        (.ofNat (Nat.gcd period.toNat x.period.toNat)) := by
  have hindex : (UInt64.ofNat i).toNat = i := UInt64.toNat_ofNat_of_lt' hi
  have hslot : s.tasks.slots.getD i none = some x := by
    rw [List.getD_eq_getElem?_getD, h.getElem?_slots, hx]
    rfl
  have hlt : i < s.tasks.size := h.size_eq ▸ (List.getElem?_eq_some_iff.mp hx).1
  rw [optimalTickPeriodFrom, hindex, if_pos hlt, hslot, UInt64.ofNat_add]
  dsimp only
  split
  · next hzero =>
    rw [hzero, UInt64.toNat_zero, Nat.gcd_zero_right, UInt64.ofNat_toNat]
    rfl
  split
  · next hzero =>
    rw [hzero, UInt64.toNat_zero, Nat.gcd_zero_left, UInt64.ofNat_toNat]
    rfl
  · rw [greatestCommonDivisor_eq (x.period.toNat_lt.trans_le hrounds)]
    rfl

/-- **The loop is a fold** over the tasks that are left. -/
theorem optimalTickPeriodFrom_eq (hlen : l.length < 2 ^ 64) {i rounds tests : ℕ} (hi : i ≤ l.length)
    (hrounds : 2 ^ 64 ≤ rounds) (htests : l.length < i + tests) (period : UInt64) :
    s.optimalTickPeriodFrom rounds tests (.ofNat i) period =
      some (.ofNat ((periods (l.drop i)).foldl Nat.gcd period.toNat)) := by
  induction tests generalizing i period with
  | zero => omega
  | succ tests ih =>
    rcases hx : l[i]? with _ | x
    · obtain rfl : i = l.length := Nat.le_antisymm hi (List.getElem?_eq_none_iff.mp hx)
      have hindex : (UInt64.ofNat l.length).toNat = l.length := UInt64.toNat_ofNat_of_lt' hlen
      rw [optimalTickPeriodFrom, hindex, h.size_eq, if_neg (Nat.lt_irrefl _), List.drop_length]
      exact congrArg some UInt64.ofNat_toNat.symm
    · obtain ⟨hlt, hget⟩ := List.getElem?_eq_some_iff.mp hx
      have hgcd : (UInt64.ofNat (Nat.gcd period.toNat x.period.toNat)).toNat =
          Nat.gcd period.toNat x.period.toNat :=
        UInt64.toNat_ofNat_of_lt' (gcd_foldl_lt period.toNat_lt [x])
      rw [optimalTickPeriodFrom_succ h (by omega) hx hrounds, ih hlt (by omega), hgcd,
        List.drop_eq_getElem_cons hlt, hget]
      rfl

/-- **The function returns the greatest common divisor of the periods in the bag.** -/
theorem hasTickPeriod_of_stores (hlen : l.length < 2 ^ 64) :
    s.HasTickPeriod (.ofNat ((periods l).foldl Nat.gcd 0)) := by
  refine ⟨2 ^ 64, fun rounds hrounds => ?_⟩
  exact optimalTickPeriodFrom_eq h hlen (Nat.zero_le _) hrounds (by omega) 0

end

/-- The common divisors of a number and the numbers of a list. -/
theorem dvd_foldl_gcd_iff {d a : ℕ} {ns : List ℕ} :
    d ∣ ns.foldl Nat.gcd a ↔ d ∣ a ∧ ∀ n ∈ ns, d ∣ n := by
  induction ns generalizing a with
  | nil => simp
  | cons n ns ih => rw [List.foldl_cons, ih, Nat.dvd_gcd_iff, List.forall_mem_cons, and_assoc]

end TaskScheduler

/-- A period of one of the tasks. -/
def IsPeriod (live : ℤ → Option (TaskRequest γ υ)) (period : UInt64) : Prop :=
  ∃ id q, live id = some q ∧ q.period = period

/-- **The optimal tick period of some tasks**: zero if no task has another period, and
otherwise the greatest common divisor of all periods that are not zero. -/
structure OptimalTickPeriod (live : ℤ → Option (TaskRequest γ υ)) (period : UInt64) : Prop where
  zero : (∀ p, IsPeriod live p → p = 0) → period = 0
  dvd : ∀ p, IsPeriod live p → p ≠ 0 → period.toNat ∣ p.toNat
  greatest : (∃ p, IsPeriod live p ∧ p ≠ 0) →
    ∀ d, (∀ p, IsPeriod live p → p ≠ 0 → d ∣ p.toNat) → d ∣ period.toNat

namespace SchedulerTrace

open TaskScheduler

variable {pointer : ℕ} {clock : ℕ → UInt64} {r : SchedulerTrace γ υ}

/-- The divisors of the value that is returned are the common divisors of the periods. -/
theorem exists_hasTickPeriod {l : List (Task γ υ)} {next : ℤ}
    (h : Bag.Stores (voidPtrSizes pointer) r.scheduler.tasks l) (hlen : l.length < 2 ^ 64)
    (hl : Listed next r.live l) :
    ∃ period, r.scheduler.HasTickPeriod period ∧
      ∀ d, d ∣ period.toNat ↔ ∀ p, IsPeriod r.live p → d ∣ p.toNat := by
  have hvalue : (UInt64.ofNat ((periods l).foldl Nat.gcd 0)).toNat = (periods l).foldl Nat.gcd 0 :=
    UInt64.toNat_ofNat_of_lt' (gcd_foldl_lt (by decide) l)
  have hmem : ∀ p, IsPeriod r.live p ↔ ∃ x ∈ l, x.period = p := by
    intro p
    constructor
    · rintro ⟨id, q, hq, rfl⟩
      obtain ⟨x, hx, -, rfl⟩ := (hl.live id q).mp hq
      exact ⟨x, hx, rfl⟩
    · rintro ⟨x, hx, rfl⟩
      exact ⟨x.id, x.request, (hl.live _ _).mpr ⟨x, hx, rfl, rfl⟩, rfl⟩
  refine ⟨_, hasTickPeriod_of_stores h hlen, fun d => ?_⟩
  rw [hvalue, dvd_foldl_gcd_iff]
  simp only [Nat.dvd_zero, true_and, periods, List.forall_mem_map, hmem]
  constructor
  · rintro hd - ⟨x, hx, rfl⟩
    exact hd x hx
  · intro hd x hx
    exact hd _ ⟨x, hx, rfl⟩

/-- A value whose divisors are the common divisors of the periods is the optimal tick period. -/
theorem optimalTickPeriod_of_dvd_iff {live : ℤ → Option (TaskRequest γ υ)} {period : UInt64}
    (h : ∀ d, d ∣ period.toNat ↔ ∀ p, IsPeriod live p → d ∣ p.toNat) :
    OptimalTickPeriod live period where
  zero hzero := by
    refine UInt64.toNat_inj.mp (Nat.eq_zero_of_zero_dvd ((h 0).mpr fun p hp => ?_))
    rw [hzero p hp]
    exact Nat.dvd_refl 0
  dvd p hp _ := (h _).mp (Nat.dvd_refl _) p hp
  greatest _ d hd := by
    refine (h d).mpr fun p hp => ?_
    by_cases hzero : p = 0
    · rw [hzero]
      exact Nat.dvd_zero d
    · exact hd p hp hzero

/-- **What holds in every state that can be reached.** -/
theorem hasTickPeriod_throughout {os : List (Op γ υ)}
    (hos : StepsMeet (step pointer clock) FreshAddress (start pointer) os) :
    Throughout (step pointer clock) (fun r => ∃ period, r.scheduler.HasTickPeriod period ∧
      ∀ d, d ∣ period.toNat ↔ ∀ p, IsPeriod r.live p → d ∣ p.toNat) (start pointer) os := by
  refine (exists_stores_of_run hos).mono ?_
  rintro r ⟨l, hs, hlen, hl⟩
  exact exists_hasTickPeriod hs hlen hl

/-- **The optimal tick period** is returned in every state that can be reached, and only the
periods of the tasks count: it is the same after two runs that leave tasks with the same
periods, in whatever order these have been scheduled and others have been removed. -/
theorem tickPeriod_eq_gcd {os : List (Op γ υ)}
    (hos : StepsMeet (step pointer clock) FreshAddress (start pointer) os) :
    Throughout (step pointer clock) (fun r => ∃ period, r.scheduler.HasTickPeriod period ∧
      OptimalTickPeriod r.live period) (start pointer) os ∧
    ∀ (pointer' : ℕ) (clock' : ℕ → UInt64) (os' : List (Op γ υ)),
      StepsMeet (step pointer' clock') FreshAddress (start pointer') os' →
      (∀ p, IsPeriod (runFrom (step pointer clock) (start pointer) os).live p ↔
        IsPeriod (runFrom (step pointer' clock') (start pointer') os').live p) →
      ∀ period, (runFrom (step pointer clock) (start pointer) os).scheduler.HasTickPeriod period ↔
        (runFrom (step pointer' clock') (start pointer') os').scheduler.HasTickPeriod period := by
  refine ⟨(hasTickPeriod_throughout hos).mono ?_, ?_⟩
  · rintro r ⟨period, hperiod, hdvd⟩
    exact ⟨period, hperiod, optimalTickPeriod_of_dvd_iff hdvd⟩
  · intro pointer' clock' os' hos' hsame period
    obtain ⟨p, hp, hdvd⟩ := (hasTickPeriod_throughout hos).last
    obtain ⟨p', hp', hdvd'⟩ := (hasTickPeriod_throughout hos').last
    -- two numbers with the same divisors
    obtain rfl : p = p' := by
      have hall : ∀ d, d ∣ p.toNat ↔ d ∣ p'.toNat := by
        intro d
        rw [hdvd, hdvd']
        exact forall_congr' fun q => imp_congr_left (hsame q)
      exact UInt64.toNat_inj.mp
        (Nat.dvd_antisymm ((hall _).mp (Nat.dvd_refl _)) ((hall _).mpr (Nat.dvd_refl _)))
    constructor
    · intro h
      exact Ends.unique hp h ▸ hp'
    · intro h
      exact Ends.unique hp' h ▸ hp

/-- What the two runs below ask for. -/
def every (period : UInt64) : TaskRequest Unit Unit := ⟨.ignoreDelays, period, some (), ()⟩

/-- A task with the period is scheduled, in an object at the address. -/
def scheduleEvery (period : UInt64) (address : ℕ) : Op Unit Unit :=
  .scheduleTask (every period) ⟨address, true, true⟩

/-- Two tasks are scheduled, or in the other order and after another one that is removed. -/
theorem tickPeriod_eq_gcd_of_two_orders :
    Throughout (step 8 fun _ => 0) (fun r => ∃ period, r.scheduler.HasTickPeriod period ∧
      OptimalTickPeriod r.live period) (start 8) [scheduleEvery 12 1, scheduleEvery 18 2] ∧
    ∀ period, (runFrom (step 8 fun _ => 0) (start 8)
        [scheduleEvery 12 1, scheduleEvery 18 2]).scheduler.HasTickPeriod period ↔
      (runFrom (step 8 fun _ => 0) (start 8) [scheduleEvery 5 1, scheduleEvery 18 2,
        scheduleEvery 12 3, .removeTask 0 fun _ => true]).scheduler.HasTickPeriod period := by
  have h := @tickPeriod_eq_gcd Unit Unit 8 (fun _ => 0)
    [scheduleEvery 12 1, scheduleEvery 18 2] (by decide)
  refine ⟨h.1, h.2 8 _ _ (by decide) fun p => ?_⟩
  have hfirst : (runFrom (step 8 fun _ => 0) (start 8)
      [scheduleEvery 12 1, scheduleEvery 18 2]).live =
      Function.update (Function.update (fun _ => none) 0 (some (every 12))) 1
        (some (every 18)) := rfl
  have hsecond : (runFrom (step 8 fun _ => 0) (start 8) [scheduleEvery 5 1,
      scheduleEvery 18 2, scheduleEvery 12 3, .removeTask 0 fun _ => true]).live =
      Function.update (Function.update (Function.update (Function.update (fun _ => none) 0
        (some (every 5))) 1 (some (every 18))) 2 (some (every 12))) 0 none := rfl
  simp only [IsPeriod, hfirst, hsecond, Function.update_apply]
  constructor
  · rintro ⟨id, q, hq, rfl⟩
    split at hq
    · exact ⟨1, q, hq, rfl⟩
    split at hq
    · exact ⟨2, q, hq, rfl⟩
    · cases hq
  · rintro ⟨id, q, hq, rfl⟩
    split at hq
    · cases hq
    split at hq
    · exact ⟨0, q, hq, rfl⟩
    split at hq
    · exact ⟨1, q, hq, rfl⟩
    · cases hq

end SchedulerTrace

end HawkTracer.Lib
