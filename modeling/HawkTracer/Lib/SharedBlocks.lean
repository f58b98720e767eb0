import HawkTracer.Lib.Cleanup
import HawkTracer.Lib.Sharing

/-!
# Containers and their blocks

`HawkTracer.Lib.Sharing` creates timelines with memory for whatever they ask for, and numbers the
containers in the order in which they are made. In `HawkTracer.Lib.World` a timeline may be refused
what it asks for, and a container is known by the request for its block. Where nothing is refused
the two do the same, up to these names (`HawkTracer.Lib.SameContainers.timelineCreate`). So what is
proved of the references there and of the resources here is about one function of the source, and
a state with correct references is one in which the constructors work
(`HawkTracer.Lib.SameContainers.valid`).
-/

namespace HawkTracer.Lib

open Prog World

variable {τ : Type} {w : World τ} {s : Sharing} {address : ℕ → ℕ}

/-- **The same containers**, with the same identifiers, references and places in the register. -/
structure SameContainers (w : World τ) (s : Sharing) (address : ℕ → ℕ) : Prop where
  distinct : ∀ c < s.made, ∀ c' < s.made, address c = address c' → c = c'
  requested : ∀ c < s.made, address c < w.ledger.requests
  same : ∀ c < s.made, (w.container (address c)).id = (s.container c).id ∧
    (w.container (address c)).refcount = (s.container c).refcount
  register : w.register = s.register.map address
  made : ∀ c ∈ s.register, c < s.made

namespace SameContainers

variable (h : SameContainers w s address) (charSigned : Bool)

include h

/-- Requests for anything else. -/
theorem ledger {l : Ledger ResourceKind} (hle : w.ledger.requests ≤ l.requests) :
    SameContainers { w with ledger := l } s address :=
  { h with requested := fun c hc => (h.requested c hc).trans_le hle }

/-- A container is written to, on both sides. -/
theorem update {c : ℕ} (hc : c < s.made) {k : Container} {f : SharedContainer → SharedContainer}
    (hid : k.id = (f (s.container c)).id) (hcount : k.refcount = (f (s.container c)).refcount) :
    SameContainers { w with container := Function.update w.container (address c) k }
      (s.modify c f) address := by
  refine { h with same := fun c' hc' => ?_ }
  by_cases heq : c' = c
  · subst heq
    simpa [Sharing.modify] using ⟨hid, hcount⟩
  · have hother : address c' ≠ address c := fun h' => heq (h.distinct c' hc' c hc h')
    simpa [Sharing.modify, heq, hother] using h.same c' hc'

/-- **The same container is found.** -/
theorem findListenerContainer (name : CString) :
    w.findListenerContainer charSigned name = (s.findContainer charSigned name).map address := by
  rw [World.findListenerContainer, Sharing.findContainer, h.register, List.find?_map,
    ← List.head?_filter, ← List.head?_filter]
  refine congrArg (fun l => Option.map address (List.head? l)) (List.filter_congr fun c hc => ?_)
  simp only [Function.comp_apply, h.same c (h.made c hc)]

theorem containerRef {c : ℕ} (hc : c < s.made) (answers : ℕ → Bool) :
    SameContainers (World.containerRef (address c) answers w).2 (s.ref c) address :=
  h.update hc (h.same c hc).1 (congrArg (· + 1) (h.same c hc).2)

/-- **A container is made.** Its address is the request for its block. -/
theorem containerCreate (pointer : ℕ) :
    SameContainers (w.withContainer fun _ => true) (s.createContainer pointer)
      (Function.update address s.made w.ledger.requests) := by
  have hthree : (w.withContainer fun _ => true).ledger.requests = w.ledger.requests + 3 :=
    (containerBlocks_of_granted ⟨rfl, rfl, rfl⟩).2
  have hnew : ∀ c < s.made, address c ≠ w.ledger.requests := fun c hc =>
    Nat.ne_of_lt (h.requested c hc)
  -- an old container, or the new one
  have hcases : ∀ c < s.made + 1, c < s.made ∧ c ≠ s.made ∨ c = s.made := fun c hc => by omega
  refine ⟨fun c hc c' hc' heq => ?_, fun c hc => ?_, fun c hc => ?_, ?_,
    fun c hc => Nat.lt_succ_of_lt (h.made c hc)⟩
  · rcases hcases c hc with ⟨hc, hne⟩ | rfl <;> rcases hcases c' hc' with ⟨hc', hne'⟩ | rfl
    · exact h.distinct c hc c' hc' (by simpa [hne, hne'] using heq)
    · exact (hnew c hc (by simpa [hne] using heq)).elim
    · exact (hnew c' hc' (by simpa [hne', eq_comm] using heq)).elim
    · rfl
  · rcases hcases c hc with ⟨hc, hne⟩ | rfl
    · simpa [hthree, hne] using Nat.lt_add_right 3 (h.requested c hc)
    · simp [hthree]
  · rcases hcases c hc with ⟨hc, hne⟩ | rfl
    · simpa [withContainer, Sharing.createContainer, Sharing.modify, hne, hnew c hc]
        using h.same c hc
    · simp [container_withContainer, Sharing.createContainer, Sharing.modify, newContainer]
  · refine h.register.trans (List.map_congr_left fun c hc => ?_)
    exact (Function.update_of_ne (Nat.ne_of_lt (h.made c hc)) ..).symm

/-- A container is added to the register. -/
theorem registerAdd {c : ℕ} (hc : c < s.made) :
    SameContainers (World.registerAdd (address c) (fun _ => true) w).2 (s.addToRegister c)
      address := by
  have hregister : w.register ++ [address c] = (s.register ++ [c]).map address := by
    rw [h.register, List.map_append, List.map_singleton]
  have hmade : ∀ c' ∈ s.register ++ [c], c' < s.made := by
    simpa [or_imp, forall_and] using ⟨h.made, hc⟩
  rw [World.registerAdd]
  split
  · exact { h with
      requested := fun c hc => Nat.lt_succ_of_lt (h.requested c hc)
      register := hregister
      made := hmade }
  · exact { h with register := hregister, made := hmade }

/-- **A container is registered.** -/
theorem registerListenerContainer (name : CString) {c : ℕ} (hc : c < s.made) :
    SameContainers
      (World.registerListenerContainer charSigned name (address c) (fun _ => true) w).2
      (s.registerContainer charSigned name c) address := by
  rw [World.registerListenerContainer, bind_run, World.find, h.findListenerContainer,
    Sharing.registerContainer]
  cases s.findContainer charSigned name with
  | some c' => exact h
  | none =>
    have hnamed : SameContainers
        (World.containerSetId (address c) (djb2Hash charSigned name) (fun _ => true) w).2
        (s.modify c fun k => { k with id := djb2Hash charSigned name }) address :=
      h.update hc rfl (h.same c hc).2
    exact (hnamed.containerRef hc _).registerAdd hc

/-- **The same container is found or made.** -/
theorem findOrCreateListener (pointer : ℕ) (listeners : Option CString) :
    ∃ address', (∀ c < s.made, address' c = address c) ∧
      (World.findOrCreateListener charSigned listeners (fun _ => true) w).1 =
        some (address' (s.findOrCreateListener pointer charSigned listeners).2) ∧
      SameContainers (World.findOrCreateListener charSigned listeners (fun _ => true) w).2
        (s.findOrCreateListener pointer charSigned listeners).1 address' := by
  have hgranted : Granted (fun _ => true) w.ledger.requests := ⟨rfl, rfl, rfl⟩
  have hold : ∀ c < s.made, Function.update address s.made w.ledger.requests c = address c :=
    fun c hc => Function.update_of_ne (Nat.ne_of_lt hc) ..
  have hmade := Function.update_self s.made w.ledger.requests address
  cases listeners with
  | none =>
    rw [World.findOrCreateListener, containerCreate_of_granted hgranted]
    exact ⟨_, hold, congrArg some hmade.symm, h.containerCreate pointer⟩
  | some name =>
    have hfind := h.findListenerContainer charSigned name
    cases hs : s.findContainer charSigned name with
    | none =>
      rw [hs, Option.map_none] at hfind
      rw [findOrCreateListener_of_registered hfind hgranted, Sharing.findOrCreateListener]
      simp only [hs]
      have hregistered := (h.containerCreate pointer).registerListenerContainer charSigned name
        (Nat.lt_succ_self s.made)
      rw [hmade] at hregistered
      exact ⟨_, hold, congrArg some hmade.symm, hregistered⟩
    | some c =>
      rw [hs, Option.map_some] at hfind
      rw [findOrCreateListener_of_found hfind, Sharing.findOrCreateListener]
      simp only [hs]
      exact ⟨address, fun _ _ => rfl, rfl,
        h.containerRef (h.made c (List.mem_of_find?_eq_some hs)) _⟩

/-- **A timeline is created**, with the same container and nothing else changed. -/
theorem timelineCreate (pointer : ℕ) (threadSafe serializeEvents : Bool) (bufferCapacity : ℕ)
    (listeners : Option CString) :
    ∃ t address',
      (World.timelineCreate charSigned threadSafe listeners (fun _ => true) w).1 =
        (some t, .ok) ∧
      t.listeners = address' (s.findOrCreateListener pointer charSigned listeners).2 ∧
      (∀ c < s.made, address' c = address c) ∧
      SameContainers (World.timelineCreate charSigned threadSafe listeners (fun _ => true) w).2
        (s.createTimeline pointer charSigned bufferCapacity serializeEvents listeners)
        address' := by
  obtain ⟨hrun, hrequests, -⟩ := @timelineCreate_of_granted τ w (fun _ => true) charSigned
    threadSafe listeners rfl rfl
  have hblocks : SameContainers (w.withBlocks fun _ => true) s address :=
    h.ledger (hrequests ▸ Nat.le_add_right _ 2)
  obtain ⟨address', hold, hresult, hsame⟩ :=
    hblocks.findOrCreateListener charSigned pointer listeners
  rw [hrun, timelineListeners, bind_run, hresult]
  cases threadSafe with
  | false => exact ⟨_, address', rfl, rfl, hold, { hsame with }⟩
  | true =>
    have hmutex := hsame.ledger
      (@keeps_of_granted τ _ (fun _ => true) rfl .mutex).balance.requests_le
    exact ⟨_, address', rfl, rfl, hold, { hmutex with }⟩

/-- **Where the references are counted correctly** the registered containers are there, which is
what the constructors rely on. -/
theorem valid (hcorrect : s.Correct)
    (hslots : ∀ t, (w.features.features t).length = timelineMaxFeatures) : w.Valid := by
  have hregistered : ∀ c ∈ w.register, ∃ c' ∈ s.register, address c' = c := fun c hc => by
    rw [h.register] at hc
    exact List.mem_map.mp hc
  refine ⟨fun c hc => ?_, fun c hc hzero => ?_, hslots⟩
  · obtain ⟨c', hc', rfl⟩ := hregistered c hc
    exact h.requested c' (h.made c' hc')
  · obtain ⟨c', hc', rfl⟩ := hregistered c hc
    have hcount := hcorrect.refcount c' (h.made c' hc')
    rw [← (h.same c' (h.made c' hc')).2, hzero, Sharing.references, if_pos hc'] at hcount
    exact Nat.succ_ne_zero _ hcount.symm

end SameContainers

end HawkTracer.Lib
