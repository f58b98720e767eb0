import HawkTracer.Lib.Init

/-!
# Registering klasses from several threads

`ht_registry_register_event_klass` looks at the identifier of the klass without the mutex of
the registry, takes the mutex only if there is none, and does not look again. The steps of
`HawkTracer.Lib.KlassRegistry.step` are the ones between which another thread can get in: the
look at the identifier, what happens under the mutex, and the look at the identifier that is
returned. A run of them is an interleaving of calls by any number of threads on any klasses.

`HawkTracer.Lib.KlassRegistry.Safe` is what the callers rely on. It fails if two threads find
the same klass without an identifier (`HawkTracer.Lib.KlassRegistry.registered_twice`): both
append it, and the identifier the first of them returns is not one that the metadata
describes. `HawkTracer.Lib.KlassRegistry.registration_safe_iff` is the exact condition on the
steps.
-/

namespace HawkTracer.Lib

/-- Where a thread is inside `ht_registry_register_event_klass`. -/
inductive Registering (κ : Type) where
  /-- The thread is not inside. -/
  | outside
  /-- It has found the klass without an identifier. -/
  | absent (k : κ)
  /-- It is about to return the identifier of the klass. -/
  | returning (k : κ)

/-- The registry of event klasses with the threads that use it. -/
structure KlassRegistry (κ τ : Type) where
  /-- `event_klass_register`. -/
  klasses : List κ
  /-- `klass_id` of the klass objects. -/
  klassId : κ → UInt32
  thread : τ → Registering κ
  /-- A record of the identifiers that have been assigned. -/
  assigned : List (κ × UInt32)
  /-- A record of what calls have returned. -/
  returned : List (κ × UInt32)

namespace KlassRegistry

variable {κ τ : Type}

/-- A step of a thread. -/
inductive Op (κ τ : Type) where
  /-- The thread calls the function and looks at the identifier. -/
  | check (t : τ) (k : κ)
  /-- What it does under the mutex; `ok` is whether the bag has memory for the klass. -/
  | append (t : τ) (ok : Bool)
  /-- The thread looks at the identifier again and returns it. -/
  | ret (t : τ)

section Step

variable [DecidableEq κ] [DecidableEq τ]

/-- The klass is appended and gets its index as its identifier. -/
def add (s : KlassRegistry κ τ) (k : κ) : KlassRegistry κ τ :=
  let id := UInt32.ofNat ((s.klasses ++ [k]).length - 1)
  { s with
    klasses := s.klasses ++ [k]
    klassId := Function.update s.klassId k id
    assigned := s.assigned ++ [(k, id)] }

/-- The thread goes on. -/
def goto (s : KlassRegistry κ τ) (t : τ) (r : Registering κ) : KlassRegistry κ τ :=
  { s with thread := Function.update s.thread t r }

/-- What a step does; a step that is not the thread's next one does nothing. -/
def step (s : KlassRegistry κ τ) : Op κ τ → KlassRegistry κ τ
  | .check t k =>
    match s.thread t with
    | .outside => s.goto t (if s.klassId k = invalidKlassId then .absent k else .returning k)
    | _ => s
  | .append t ok =>
    match s.thread t with
    | .absent k => (if ok then s.add k else s).goto t (.returning k)
    | _ => s
  | .ret t =>
    match s.thread t with
    | .returning k => { s.goto t .outside with returned := s.returned ++ [(k, s.klassId k)] }
    | _ => s

/-- A registry with the given klasses, and no thread inside. -/
def start (ks : List κ) : KlassRegistry κ τ where
  klasses := ks
  klassId k := if k ∈ ks then UInt32.ofNat (ks.idxOf k) else invalidKlassId
  thread _ := .outside
  assigned := ks.map fun k => (k, UInt32.ofNat (ks.idxOf k))
  returned := []

end Step

/-- The identifiers that the metadata describes: those of the klasses in the registry. -/
def describedIds (s : KlassRegistry κ τ) : List UInt32 := s.klasses.map s.klassId

/-- **Registration is safe**: a klass is registered once, its identifier does not change, calls
on it return one identifier, and the metadata describes what was returned. -/
structure Safe (s : KlassRegistry κ τ) : Prop where
  once : s.klasses.Nodup
  stable : ∀ k id, (k, id) ∈ s.assigned → s.klassId k = id
  same : ∀ k id id', (k, id) ∈ s.returned → (k, id') ∈ s.returned → id = id'
  described : ∀ k id, (k, id) ∈ s.returned → id ∈ s.describedIds

/-- **The steps that keep it safe**: the klass that is appended still has no identifier, and
the klass whose identifier is returned has one. -/
def Undisturbed (s : KlassRegistry κ τ) : Op κ τ → Prop
  | .check _ _ => True
  | .append t ok => ∀ k, s.thread t = .absent k → ok = true → s.klassId k = invalidKlassId
  | .ret t => ∀ k, s.thread t = .returning k → s.klassId k ≠ invalidKlassId

/-- There are fewer klasses than identifiers. -/
def Room (s : KlassRegistry κ τ) : Op κ τ → Prop
  | .append _ _ => s.klasses.length + 1 < 2 ^ 32
  | _ => True

/-! ### What always holds -/

/-- **What holds in every state**, safe or not. -/
structure Kept (s : KlassRegistry κ τ) : Prop where
  length_lt : s.klasses.length < 2 ^ 32
  unregistered : ∀ k, k ∉ s.klasses → s.klassId k = invalidKlassId
  entry : ∀ k ∈ s.klasses, ∃ i, s.klasses[i]? = some k ∧ s.klassId k = UInt32.ofNat i
  current : ∀ k ∈ s.klasses, (k, s.klassId k) ∈ s.assigned
  assigned : ∀ k id, (k, id) ∈ s.assigned → k ∈ s.klasses
  returned : ∀ k id, (k, id) ∈ s.returned → id = invalidKlassId ∨ (k, id) ∈ s.assigned

variable {s : KlassRegistry κ τ} {k : κ} {id : UInt32}

/-- The klasses with an identifier are the registered ones. -/
theorem Kept.klassId_ne_iff (h : Kept s) : s.klassId k ≠ invalidKlassId ↔ k ∈ s.klasses := by
  constructor
  · intro hne
    by_contra hk
    exact hne (h.unregistered k hk)
  · intro hk heq
    obtain ⟨i, hi, hid⟩ := h.entry k hk
    have hlt := (List.getElem?_eq_some_iff.mp hi).1
    have hlen := h.length_lt
    -- the index would be the largest 32-bit number
    have hnat := congrArg UInt32.toNat (hid.symm.trans heq)
    rw [UInt32.toNat_ofNat_of_lt' (by omega : i < 2 ^ 32)] at hnat
    have h32 : invalidKlassId.toNat = 2 ^ 32 - 1 := rfl
    omega

theorem Kept.ne_invalid_of_mem (h : Kept s) (hid : id ∈ s.describedIds) : id ≠ invalidKlassId := by
  obtain ⟨k, hk, rfl⟩ := List.mem_map.mp hid
  exact h.klassId_ne_iff.mpr hk

/-- In a safe state a returned identifier is the one the klass has. -/
theorem Safe.klassId_eq (hsafe : Safe s) (h : Kept s) (hk : (k, id) ∈ s.returned) :
    s.klassId k = id := by
  rcases h.returned k id hk with hinvalid | hassigned
  · exact absurd hinvalid (h.ne_invalid_of_mem (hsafe.described k id hk))
  · exact hsafe.stable k id hassigned

/-! ### Steps -/

section Thread

variable [DecidableEq τ]

theorem Kept.goto (h : Kept s) (t : τ) (r : Registering κ) : Kept (s.goto t r) :=
  { h with }

theorem safe_goto_iff {t : τ} {r : Registering κ} : Safe (s.goto t r) ↔ Safe s :=
  ⟨fun h => { h with },
    fun h => { h with }⟩

/-- **A return keeps a safe registry safe exactly if the klass has an identifier.** -/
theorem safe_return_iff (h : Kept s) (hsafe : Safe s) {t : τ} :
    Safe { s.goto t .outside with returned := s.returned ++ [(k, s.klassId k)] } ↔
      s.klassId k ≠ invalidKlassId := by
  constructor
  · intro hret
    have hid : s.klassId k ∈ s.describedIds :=
      hret.described k _ (List.mem_append_right _ (List.mem_singleton_self _))
    exact h.ne_invalid_of_mem hid
  · intro hne
    -- what was returned for a klass before is what it has now
    have hnow : ∀ k' id, (k', id) ∈ s.returned ++ [(k, s.klassId k)] → s.klassId k' = id := by
      intro k' id hid
      rcases List.mem_append.mp hid with hid | hid
      · exact hsafe.klassId_eq h hid
      · obtain ⟨rfl, rfl⟩ := Prod.mk.inj (List.mem_singleton.mp hid)
        rfl
    refine ⟨hsafe.once, hsafe.stable, fun k' id id' hid hid' => ?_, fun k' id hid => ?_⟩
    · rw [← hnow k' id hid, hnow k' id' hid']
    · rcases List.mem_append.mp hid with hid | hid
      · exact hsafe.described k' id hid
      · obtain ⟨rfl, rfl⟩ := Prod.mk.inj (List.mem_singleton.mp hid)
        exact List.mem_map_of_mem (h.klassId_ne_iff.mp hne)

end Thread

section Klass

variable [DecidableEq κ]

theorem klasses_add (s : KlassRegistry κ τ) (k : κ) : (s.add k).klasses = s.klasses ++ [k] := rfl

theorem klassId_add_self (s : KlassRegistry κ τ) (k : κ) :
    (s.add k).klassId k = UInt32.ofNat s.klasses.length := by
  simp [add]

theorem klassId_add_of_ne {k' : κ} (h : k' ≠ k) : (s.add k).klassId k' = s.klassId k' :=
  Function.update_of_ne h _ _

theorem mem_assigned_add_iff {p : κ × UInt32} :
    p ∈ (s.add k).assigned ↔ p ∈ s.assigned ∨ p = (k, UInt32.ofNat s.klasses.length) := by
  simp [add]

theorem Kept.add (h : Kept s) (hroom : s.klasses.length + 1 < 2 ^ 32) (k : κ) : Kept (s.add k) where
  length_lt := by
    rw [klasses_add, List.length_append]
    exact hroom
  unregistered k' hk' := by
    rw [klasses_add, List.mem_append, not_or] at hk'
    rw [klassId_add_of_ne (by simpa using hk'.2), h.unregistered k' hk'.1]
  entry k' hk' := by
    by_cases heq : k' = k
    · subst heq
      exact ⟨s.klasses.length, List.getElem?_concat_length, klassId_add_self s k'⟩
    · obtain ⟨i, hi, hid⟩ := h.entry k' (by simpa [klasses_add, heq] using hk')
      refine ⟨i, ?_, (klassId_add_of_ne heq).trans hid⟩
      rw [klasses_add, List.getElem?_append_left (List.getElem?_eq_some_iff.mp hi).1, hi]
  current k' hk' := by
    rw [mem_assigned_add_iff]
    by_cases heq : k' = k
    · subst heq
      exact .inr (by rw [klassId_add_self])
    · rw [klassId_add_of_ne heq]
      exact .inl (h.current k' (by simpa [klasses_add, heq] using hk'))
  assigned k' id hid := by
    rw [klasses_add]
    rcases mem_assigned_add_iff.mp hid with hid | hid
    · exact List.mem_append_left _ (h.assigned k' id hid)
    · exact List.mem_append_right _ (List.mem_singleton.mpr (Prod.mk.inj hid).1)
  returned k' id hid := (h.returned k' id hid).imp_right fun hid =>
    mem_assigned_add_iff.mpr (.inl hid)

/-- **Appending keeps a safe registry safe exactly if the klass has no identifier.** -/
theorem safe_add_iff (h : Kept s) (hsafe : Safe s) :
    Safe (s.add k) ↔ s.klassId k = invalidKlassId := by
  constructor
  · intro hadd
    have hk : k ∉ s.klasses := fun hk =>
      (List.nodup_append.mp hadd.once).2.2 k hk k (List.mem_singleton_self k) rfl
    exact h.unregistered k hk
  · intro hinvalid
    have hk : k ∉ s.klasses := fun hk => h.klassId_ne_iff.mpr hk hinvalid
    have hne : ∀ k' ∈ s.klasses, k' ≠ k := fun k' hk' heq => hk (heq ▸ hk')
    refine ⟨?_, fun k' id hid => ?_, hsafe.same, fun k' id hid => ?_⟩
    · rw [klasses_add]
      exact List.nodup_append.mpr ⟨hsafe.once, List.nodup_singleton k, fun k' hk' k'' hk'' =>
        List.mem_singleton.mp hk'' ▸ hne k' hk'⟩
    · rcases mem_assigned_add_iff.mp hid with hid | hid
      · rw [klassId_add_of_ne (hne k' (h.assigned k' id hid)), hsafe.stable k' id hid]
      · obtain ⟨rfl, rfl⟩ := Prod.mk.inj hid
        exact klassId_add_self s k'
    · obtain ⟨k₀, hk₀, hid₀⟩ := List.mem_map.mp (hsafe.described k' id hid)
      refine List.mem_map.mpr ⟨k₀, List.mem_append_left _ hk₀, ?_⟩
      rw [klassId_add_of_ne (hne k₀ hk₀), hid₀]

theorem kept_start {ks : List κ} (hlen : ks.length < 2 ^ 32) :
    Kept (start ks : KlassRegistry κ τ) where
  length_lt := hlen
  unregistered k hk := if_neg hk
  entry k hk := ⟨ks.idxOf k, List.getElem?_idxOf hk, if_pos hk⟩
  current k hk := by
    have hid : (start ks : KlassRegistry κ τ).klassId k = UInt32.ofNat (ks.idxOf k) := if_pos hk
    rw [hid]
    exact List.mem_map_of_mem hk
  assigned k id hid := by
    obtain ⟨k', hk', heq⟩ := List.mem_map.mp hid
    obtain ⟨rfl, -⟩ := Prod.mk.inj heq
    exact hk'
  returned k id hid := by cases hid

theorem safe_start {ks : List κ} (hks : ks.Nodup) : Safe (start ks : KlassRegistry κ τ) where
  once := hks
  stable k id hid := by
    obtain ⟨k', hk', heq⟩ := List.mem_map.mp hid
    obtain ⟨rfl, rfl⟩ := Prod.mk.inj heq
    exact if_pos hk'
  same k id id' hid := by cases hid
  described k id hid := by cases hid

end Klass

variable [DecidableEq κ] [DecidableEq τ]

theorem Kept.step (h : Kept s) {o : Op κ τ} (hroom : Room s o) : Kept (s.step o) := by
  cases o with
  | check t k =>
    rw [KlassRegistry.step]
    split
    · exact h.goto t _
    · exact h
  | append t ok =>
    rw [KlassRegistry.step]
    split
    · cases ok with
      | true => exact (h.add hroom _).goto t _
      | false => exact h.goto t _
    · exact h
  | ret t =>
    rw [KlassRegistry.step]
    split
    · next k _ =>
      refine { h with returned := fun k' id hid => ?_ }
      rcases List.mem_append.mp hid with hid | hid
      · exact h.returned k' id hid
      · obtain ⟨rfl, rfl⟩ := Prod.mk.inj (List.mem_singleton.mp hid)
        by_cases hinvalid : s.klassId k' = invalidKlassId
        · exact .inl hinvalid
        · exact .inr (h.current k' (h.klassId_ne_iff.mp hinvalid))
    · exact h

/-- **A step keeps a safe registry safe exactly if it is undisturbed.** -/
theorem safe_step_iff (h : Kept s) (hsafe : Safe s) {o : Op κ τ} :
    Safe (s.step o) ↔ Undisturbed s o := by
  cases o with
  | check t k =>
    refine iff_of_true ?_ trivial
    rw [step]
    split
    · exact safe_goto_iff.mpr hsafe
    · exact hsafe
  | append t ok =>
    simp only [step, Undisturbed]
    cases ht : s.thread t with
    | absent k =>
      simp only [safe_goto_iff, Registering.absent.injEq, forall_eq']
      cases ok with
      | true => simpa using safe_add_iff h hsafe
      | false => simpa using hsafe
    | outside | returning k => simpa using hsafe
  | ret t =>
    simp only [step, Undisturbed]
    cases ht : s.thread t with
    | returning k =>
      simp only [Registering.returning.injEq, forall_eq']
      exact safe_return_iff h hsafe
    | outside | absent k => simpa using hsafe

/-! ### Runs -/

/-- **When concurrent registration is safe.** In a run of any number of threads, the registry
is safe in every state exactly if every klass that is appended still has no identifier when
the mutex has been taken, and every klass whose identifier is returned has one by then. -/
theorem registration_safe_iff (ks : List κ) (hks : ks.Nodup) (hlen : ks.length < 2 ^ 32)
    (os : List (Op κ τ)) (hroom : StepsMeet step Room (start ks : KlassRegistry κ τ) os) :
    Throughout step Safe (start ks : KlassRegistry κ τ) os ↔
      StepsMeet step Undisturbed (start ks : KlassRegistry κ τ) os :=
  throughout_iff_of_step (fun _ _ h hroom => h.step hroom)
    (fun _ _ h _ hsafe => safe_step_iff h hsafe) (kept_start hlen) (safe_start hks) hroom

/-- Two threads register one klass, one after the other. -/
theorem registration_safe_iff_sample :
    Throughout step Safe (start [7] : KlassRegistry ℕ Bool)
        [.check true 3, .append true true, .check false 3, .ret true, .ret false] ↔
      StepsMeet step Undisturbed (start [7] : KlassRegistry ℕ Bool)
        [.check true 3, .append true true, .check false 3, .ret true, .ret false] :=
  registration_safe_iff [7] (by decide) (by decide) _
    ⟨trivial, show 1 + 1 < 2 ^ 32 by decide, trivial, trivial, trivial, trivial⟩

/-- The calls of two threads that both look before either of them takes the mutex. -/
def twoRegistrations : List (Op ℕ Bool) :=
  [.check true 3, .check false 3, .append true true, .ret true, .append false true, .ret false]

/-- **A klass is registered twice**: the two calls return different identifiers, and the
metadata does not describe the first one. -/
theorem registered_twice :
    ¬ Throughout step Safe (start [] : KlassRegistry ℕ Bool) twoRegistrations ∧
      (runFrom step (start [] : KlassRegistry ℕ Bool) twoRegistrations).klasses = [3, 3] ∧
      (runFrom step (start [] : KlassRegistry ℕ Bool) twoRegistrations).returned =
        [(3, 0), (3, 1)] ∧
      (runFrom step (start [] : KlassRegistry ℕ Bool) twoRegistrations).describedIds = [1, 1] := by
  have hklasses : (runFrom step (start [] : KlassRegistry ℕ Bool) twoRegistrations).klasses =
      [3, 3] := rfl
  refine ⟨fun h => ?_, hklasses, rfl, rfl⟩
  have hnodup := h.last.once
  rw [hklasses] at hnodup
  exact absurd hnodup (by decide)

end KlassRegistry

end HawkTracer.Lib
