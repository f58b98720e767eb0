import HawkTracer.Lib.Bag
import HawkTracer.Lib.Hash
import HawkTracer.Lib.ListenerBuffer
import Mathlib.Data.List.Count
import Mathlib.Data.List.Nodup

/-!
# The life of the listener containers

A listener container belongs to the timelines that were created with its name, and to the
register of the names; a container without a name belongs to its one timeline. It counts its
references. They are taken in four places: `ht_timeline_listener_container_create` starts at
one, the register takes one when it is given a container, and a timeline that finds its name
in the register counts itself without the function that is there for it. They are dropped by
`ht_timeline_destroy` and by `ht_registry_deinit`, in any order: a timeline may outlive the
register. Whoever drops the last one calls the destroy callbacks of the listeners and frees
the container.

The model goes from the end of `ht_init` to the last `ht_timeline_destroy`. Beside the memory
of the library it keeps what happened to each listener, and for each container the listeners
that its users have registered and not unregistered; a listener is known by the number of
listeners registered before it. The timelines are those of `HawkTracer.Lib.Timeline`, so that
listeners are notified when an event does not fit into a buffer, by a flush, and by the flush
in `ht_timeline_destroy`.

`HawkTracer.Lib.Sharing.released_once_iff`: the containers count their references, each is
freed when there is none left, and each listener is notified only until its destroy callback
is called, once, exactly if two things are so at every call. The entries of a container have
room in its block, which is too small once it has been reallocated. And no container has
`2 ^ 32 - 1` references when a timeline finds it.
-/

namespace HawkTracer.Lib

/-- `HT_TimelineListenerEntry`, as it was made by one registration. -/
structure ListenerEntry where
  /-- The number of registrations before this one. -/
  number : ℕ
  callback : ℕ
  userData : ℕ
  /-- `destroy_cb`; nothing for `NULL`. -/
  destroyCb : Option ℕ
  deriving DecidableEq

/-- What can happen to a listener. The loops over the entries of a container may find nothing
where an entry should be. -/
inductive Happening where
  | registered (e : ListenerEntry)
  /-- The callback of an entry is called. -/
  | notified (e : Option ListenerEntry) (n : Notification)
  /-- An entry is unregistered; `called` is whether it has a destroy callback, which then is
  called. -/
  | unregistered (e : Option ListenerEntry) (called : Bool)
  deriving DecidableEq

/-- Whether something happened to this listener. -/
def Happening.about (e : ListenerEntry) : Happening → Bool
  | .registered e' => e' = e
  | .notified e' _ => e' = some e
  | .unregistered e' _ => e' = some e

/-- `HT_TimelineListenerContainer`. -/
structure SharedContainer where
  entries : Bag ListenerEntry
  id : UInt32
  refcount : UInt32

/-- A timeline with the number of its container. -/
structure LiveTimeline where
  timeline : Timeline
  listeners : ℕ

/-- The timelines, the listener containers and the register of the names. A container and a
timeline are known by the number of those made before. -/
structure Sharing where
  container : ℕ → SharedContainer
  /-- The number of containers that have been made. -/
  made : ℕ
  /-- `listeners_register`. -/
  register : List ℕ
  /-- The timelines that were created; nothing in the place of one that was destroyed. -/
  timelines : List (Option LiveTimeline)
  /-- Whether `ht_deinit` has not been called. -/
  initialized : Bool
  /-- A record of the listeners in use, for each container. -/
  listeners : ℕ → List ListenerEntry
  /-- The number of listeners that have been registered. -/
  registrations : ℕ
  /-- A record of what happened to the listeners. -/
  log : List Happening
  /-- A record of the containers that were freed. -/
  freed : List ℕ

namespace Sharing

/-- After `ht_init`. -/
def start : Sharing where
  container _ := ⟨⟨0, 0, 0, []⟩, 0, 0⟩
  made := 0
  register := []
  timelines := []
  initialized := true
  listeners _ := []
  registrations := 0
  log := []
  freed := []

/-! ### The functions of the library -/

section Functions

/-- A container is written to. -/
def modify (s : Sharing) (c : ℕ) (f : SharedContainer → SharedContainer) : Sharing :=
  { s with container := Function.update s.container c (f (s.container c)) }

/-- A timeline is created. -/
def addTimeline (s : Sharing) (l : LiveTimeline) : Sharing :=
  { s with timelines := s.timelines ++ [some l] }

/-- A timeline is written to, or destroyed. -/
def setTimeline (s : Sharing) (t : ℕ) (l : Option LiveTimeline) : Sharing :=
  { s with timelines := s.timelines.set t l }

/-- A container is added to the register. -/
def addToRegister (s : Sharing) (c : ℕ) : Sharing := { s with register := s.register ++ [c] }

/-- `ht_timeline_listener_container_notify_listeners`. -/
def notifyListeners (s : Sharing) (c : ℕ) (n : Notification) : Sharing :=
  { s with log := s.log ++ (s.container c).entries.slots.map (.notified · n) }

/-- The notifications of a call on a timeline. -/
def notifyAll (s : Sharing) (c : ℕ) (ns : List Notification) : Sharing :=
  ns.foldl (fun s n => s.notifyListeners c n) s

/-- `ht_timeline_listener_container_ref`. -/
def ref (s : Sharing) (c : ℕ) : Sharing :=
  s.modify c fun k => { k with refcount := k.refcount + 1 }

variable (pointer : ℕ)

/-- `_ht_timeline_listener_container_unregister_all_listeners`. -/
def unregisterAllListeners (s : Sharing) (c : ℕ) : Sharing :=
  { s.modify c fun k => { k with entries := k.entries.clear (ListenerContainer.sizes pointer) true }
    with
    listeners := Function.update s.listeners c []
    log := s.log ++ (s.container c).entries.slots.map fun e =>
      .unregistered e (e.any (·.destroyCb.isSome)) }

/-- `ht_timeline_listener_container_create`. -/
def createContainer (s : Sharing) : Sharing :=
  { s.modify s.made fun _ => ⟨.init (ListenerContainer.sizes pointer) 16, 0, 1⟩ with
    made := s.made + 1 }

/-- What is done with a container without references. -/
def free (s : Sharing) (c : ℕ) : Sharing :=
  { (s.unregisterAllListeners pointer c).modify c fun k => { k with entries := k.entries.deinit }
    with freed := s.freed ++ [c] }

/-- `ht_timeline_listener_container_unref`. -/
def unref (s : Sharing) (c : ℕ) : Sharing :=
  let s := s.modify c fun k => { k with refcount := k.refcount - 1 }
  if (s.container c).refcount = 0 then s.free pointer c else s

/-- `ht_timeline_listener_container_register_listener`. -/
def registerListener (s : Sharing) (c : ℕ) (callback userData : ℕ) (destroyCb : Option ℕ) :
    Sharing :=
  let e := ⟨s.registrations, callback, userData, destroyCb⟩
  { s.modify c fun k =>
      { k with entries := (k.entries.add (ListenerContainer.sizes pointer) e true).2 } with
    listeners := Function.update s.listeners c (s.listeners c ++ [e])
    registrations := s.registrations + 1
    log := s.log ++ [.registered e] }

variable (charSigned : Bool)

/-- `ht_registry_find_listener_container`. -/
def findContainer (s : Sharing) (name : CString) : Option ℕ :=
  s.register.find? fun c => (s.container c).id = djb2Hash charSigned name

/-- `ht_registry_register_listener_container`. -/
def registerContainer (s : Sharing) (name : CString) (c : ℕ) : Sharing :=
  match s.findContainer charSigned name with
  | some _ => s
  | none =>
    ((s.modify c fun k => { k with id := djb2Hash charSigned name }).ref c).addToRegister c

/-- `ht_find_or_create_listener`, with the container it returns. -/
def findOrCreateListener (s : Sharing) : Option CString → Sharing × ℕ
  | none => (s.createContainer pointer, s.made)
  | some name =>
    match s.findContainer charSigned name with
    | none => ((s.createContainer pointer).registerContainer charSigned name s.made, s.made)
    -- the source increments the count here by itself, without the mutex
    | some c => (s.ref c, c)

/-- `ht_timeline_create`. -/
def createTimeline (s : Sharing) (bufferCapacity : ℕ) (serializeEvents : Bool)
    (name : Option CString) : Sharing :=
  let r := s.findOrCreateListener pointer charSigned name
  r.1.addTimeline ⟨.create bufferCapacity serializeEvents, r.2⟩

/-- `ht_timeline_destroy`. -/
def destroyTimeline (s : Sharing) (t : ℕ) (l : LiveTimeline) : Sharing :=
  ((s.notifyAll l.listeners l.timeline.flush.2).unref pointer l.listeners).setTimeline t none

/-- What `ht_deinit` does to the containers. -/
def registryDeinit (s : Sharing) : Sharing :=
  { s.register.foldl (unref pointer) s with register := [], initialized := false }

/-- The rest of a call that may have notified the listeners. -/
def putTimeline (s : Sharing) (t c : ℕ) (r : Timeline × List Notification) : Sharing :=
  (s.notifyAll c r.2).setTimeline t (some ⟨r.1, c⟩)

end Functions

/-! ### Runs -/

/-- The calls. -/
inductive Op (E : Type) where
  | create (bufferCapacity : ℕ) (serializeEvents : Bool) (name : Option CString)
  | registerListenerFull (t callback userData : ℕ) (destroyCb : Option ℕ)
  | unregisterAllListeners (t : ℕ)
  | pushEvent (t : ℕ) (e : E)
  | flush (t : ℕ)
  | destroy (t : ℕ)
  | deinit

/-- The timeline of this number, if it is alive. -/
def live (s : Sharing) (t : ℕ) : Option LiveTimeline := s.timelines[t]?.join

variable {E : Type} (R : EventRep E) (pointer : ℕ) (charSigned : Bool)

/-- One call, with memory for whatever it asks for. -/
def step (s : Sharing) : Op E → Sharing
  | .create capacity serialize name => s.createTimeline pointer charSigned capacity serialize name
  | .registerListenerFull t callback userData destroyCb =>
    match s.live t with
    | some l => s.registerListener pointer l.listeners callback userData destroyCb
    | none => s
  | .unregisterAllListeners t =>
    match s.live t with
    | some l => s.unregisterAllListeners pointer l.listeners
    | none => s
  | .pushEvent t e =>
    match s.live t with
    | some l => s.putTimeline t l.listeners (l.timeline.pushEvent R e)
    | none => s
  | .flush t =>
    match s.live t with
    | some l => s.putTimeline t l.listeners l.timeline.flush
    | none => s
  | .destroy t =>
    match s.live t with
    | some l => s.destroyTimeline pointer t l
    | none => s
  | .deinit => s.registryDeinit pointer

/-- **The calls of a program**: on timelines that are alive, and once `ht_deinit` has been called
only to destroy them. -/
def Valid (s : Sharing) : Op E → Prop
  | .create .. => s.initialized = true
  | .registerListenerFull t .. => s.initialized = true ∧ (s.live t).isSome
  | .unregisterAllListeners t => s.initialized = true ∧ (s.live t).isSome
  | .pushEvent t _ => s.initialized = true ∧ (s.live t).isSome
  | .flush t => s.initialized = true ∧ (s.live t).isSome
  | .destroy t => (s.live t).isSome
  | .deinit => s.initialized = true

/-- The number of live timelines that hold the container. -/
def holders (s : Sharing) (c : ℕ) : ℕ := s.timelines.countP fun t => t.map (·.listeners) = some c

/-- **The number of live timelines that hold the container**, plus one if the register holds
it. -/
def references (s : Sharing) (c : ℕ) : ℕ := s.holders c + if c ∈ s.register then 1 else 0

instance (s : Sharing) (o : Op E) : Decidable (Valid s o) := by
  cases o <;> unfold Valid <;> infer_instance

/-- What happened to a listener. -/
def history (log : List Happening) (e : ListenerEntry) : List Happening := log.filter (·.about e)

/-- **Containers are released exactly once and never early**, and so are listeners. -/
structure Correct (s : Sharing) : Prop where
  refcount : ∀ c < s.made, (s.container c).refcount.toNat = s.references c
  freed : ∀ c < s.made, s.freed.count c = if s.references c = 0 then 1 else 0
  /-- The container finds its listeners, which are none once it is freed. -/
  stored : ∀ c < s.made, (s.container c).entries.slots = (s.listeners c).map some
  empty : ∀ c, s.references c = 0 → s.listeners c = []
  /-- A listener in use has been registered, and notified. -/
  inUse : ∀ c, ∀ e ∈ s.listeners c, ∃ ns : List Notification,
    history s.log e = .registered e :: ns.map (.notified (some e))
  /-- A listener that is no longer in use has been unregistered in the end, and only once. -/
  past : ∀ e, .registered e ∈ s.log → (∀ c, e ∉ s.listeners c) → ∃ ns : List Notification,
    history s.log e = .registered e :: ns.map (.notified (some e)) ++
      [.unregistered (some e) e.destroyCb.isSome]

/-- **The entries of a container have room in its block, and its references in their count.** -/
def Allowed (s : Sharing) : Op E → Prop
  | .create _ _ (some name) => ∀ c, s.findContainer charSigned name = some c →
    s.references c + 1 < 2 ^ 32
  | .registerListenerFull t .. => ∀ l, s.live t = some l →
    (s.container l.listeners).entries.RoomForOne (ListenerContainer.sizes pointer)
  | _ => True

instance (s : Sharing) (o : Op E) : Decidable (Allowed pointer charSigned s o) := by
  rcases o with ⟨_, _, _ | name⟩ | ⟨t, _, _, _⟩ | _ | _ | _ | _ | _
  · exact inferInstanceAs (Decidable True)
  · exact inferInstanceAs (Decidable (∀ c ∈ s.findContainer charSigned name,
      s.references c + 1 < 2 ^ 32))
  · exact inferInstanceAs (Decidable (∀ l ∈ s.live t,
      (s.container l.listeners).entries.RoomForOne (ListenerContainer.sizes pointer)))
  all_goals exact inferInstanceAs (Decidable True)

/-! ### The histories of the listeners -/

section Histories

variable {listeners : ℕ → List ListenerEntry} {log : List Happening} {n c : ℕ} {e : ListenerEntry}

/-- **What holds of the listeners in use and of what happened**, when so many have been
registered. -/
structure Histories (listeners : ℕ → List ListenerEntry) (log : List Happening) (n : ℕ) :
    Prop where
  nodup : ∀ c, (listeners c).Nodup
  own : ∀ c c' e, e ∈ listeners c → e ∈ listeners c' → c = c'
  number_lt : ∀ e, ∀ x ∈ log, x.about e = true → e.number < n
  inUse : ∀ c, ∀ e ∈ listeners c, ∃ ns : List Notification,
    history log e = .registered e :: ns.map (.notified (some e))
  past : ∀ e, .registered e ∈ log → (∀ c, e ∉ listeners c) → ∃ ns : List Notification,
    history log e = .registered e :: ns.map (.notified (some e)) ++
      [.unregistered (some e) e.destroyCb.isSome]

theorem history_append (log log' : List Happening) (e : ListenerEntry) :
    history (log ++ log') e = history log e ++ history log' e := List.filter_append ..

/-- Something happens once to each listener of a list. -/
theorem history_map {f : ListenerEntry → Happening}
    (hf : ∀ e e', (f e').about e = decide (e' = e)) {l : List ListenerEntry} (hl : l.Nodup)
    (e : ListenerEntry) : history (l.map f) e = if e ∈ l then [f e] else [] := by
  have hcomp : (fun x => Happening.about e x) ∘ f = fun e' => decide (e' = e) := by
    funext e'
    exact hf e e'
  rw [history, List.filter_map, hcomp, List.filter_eq, hl.count]
  split <;> rfl

section

variable (h : Histories listeners log n)

include h

theorem Histories.registered_mem (he : e ∈ listeners c) : .registered e ∈ log := by
  obtain ⟨ns, hns⟩ := h.inUse c e he
  exact List.mem_of_mem_filter (hns ▸ List.mem_cons_self)

theorem Histories.number_lt_of_mem (he : e ∈ listeners c) : e.number < n :=
  h.number_lt e _ (h.registered_mem he) (by simp [Happening.about])

/-- The numbers stay below when something happens to listeners in use. -/
theorem Histories.number_lt_append {f : ListenerEntry → Happening}
    (hf : ∀ e e', (f e').about e = decide (e' = e)) (c : ℕ) :
    ∀ e, ∀ x ∈ log ++ (listeners c).map f, x.about e = true → e.number < n := by
  intro e x hx habout
  rcases List.mem_append.mp hx with hx | hx
  · exact h.number_lt e x hx habout
  · obtain ⟨e', he', rfl⟩ := List.mem_map.mp hx
    have heq : e' = e := of_decide_eq_true (hf e e' ▸ habout)
    exact h.number_lt_of_mem (heq ▸ he')

/-- **The listeners of a container are notified.** -/
theorem Histories.notify (c : ℕ) (note : Notification) :
    Histories listeners (log ++ (listeners c).map fun e => .notified (some e) note) n := by
  have hf : ∀ e e', (Happening.notified (some e') note).about e = decide (e' = e) := by
    simp [Happening.about]
  refine ⟨h.nodup, h.own, h.number_lt_append hf c, fun c' e he => ?_, fun e hreg hnot => ?_⟩
  · obtain ⟨ns, hns⟩ := h.inUse c' e he
    rw [history_append, history_map hf (h.nodup c), hns]
    split
    · exact ⟨ns ++ [note], by simp⟩
    · exact ⟨ns, by simp⟩
  · obtain ⟨ns, hns⟩ := h.past e (by simpa using hreg) hnot
    refine ⟨ns, ?_⟩
    rw [history_append, history_map hf (h.nodup c), hns, if_neg (hnot c), List.append_nil]

omit h in
theorem mem_update_nil {c' : ℕ} :
    e ∈ Function.update listeners c [] c' ↔ c' ≠ c ∧ e ∈ listeners c' := by
  by_cases hc : c' = c <;> simp [hc]

omit h in
theorem mem_update_concat {c' : ℕ} {e' : ListenerEntry} :
    e' ∈ Function.update listeners c (listeners c ++ [e]) c' ↔
      e' ∈ listeners c' ∨ c' = c ∧ e' = e := by
  by_cases hc : c' = c
  · subst hc
    simp
  · simp [hc]

omit h in
/-- The listeners of a container are written, and no listener is there twice. -/
theorem nodup_update (h : ∀ c, (listeners c).Nodup) {l : List ListenerEntry} (hl : l.Nodup)
    (c' : ℕ) : (Function.update listeners c l c').Nodup := by
  by_cases hc : c' = c
  · rw [hc, Function.update_self]
    exact hl
  · rw [Function.update_of_ne hc]
    exact h c'

/-- **The listeners of a container are unregistered.** -/
theorem Histories.unregister (c : ℕ) :
    Histories (Function.update listeners c [])
      (log ++ (listeners c).map fun e => .unregistered (some e) e.destroyCb.isSome) n := by
  have hf : ∀ e e', (Happening.unregistered (some e') e'.destroyCb.isSome).about e =
      decide (e' = e) := by
    simp [Happening.about]
  refine ⟨nodup_update h.nodup List.nodup_nil, fun c₁ c₂ e h₁ h₂ => ?_, h.number_lt_append hf c,
    fun c' e he => ?_, fun e hreg hnot => ?_⟩
  · exact h.own c₁ c₂ e (mem_update_nil.mp h₁).2 (mem_update_nil.mp h₂).2
  · obtain ⟨hc, he⟩ := mem_update_nil.mp he
    obtain ⟨ns, hns⟩ := h.inUse c' e he
    have hnot : e ∉ listeners c := fun he' => hc (h.own c' c e he he')
    refine ⟨ns, ?_⟩
    rw [history_append, history_map hf (h.nodup c), if_neg hnot, List.append_nil, hns]
  · rw [history_append, history_map hf (h.nodup c)]
    by_cases he : e ∈ listeners c
    · obtain ⟨ns, hns⟩ := h.inUse c e he
      exact ⟨ns, by rw [if_pos he, hns]⟩
    · have hnot' : ∀ c', e ∉ listeners c' := by
        intro c' he'
        have hc : c' ≠ c := fun heq => he (heq ▸ he')
        exact hnot c' (mem_update_nil.mpr ⟨hc, he'⟩)
      obtain ⟨ns, hns⟩ := h.past e (by simpa using hreg) hnot'
      exact ⟨ns, by rw [if_neg he, List.append_nil, hns]⟩

/-- Nothing has happened to a listener with the next number. -/
theorem Histories.fresh (he : e.number = n) : (∀ c, e ∉ listeners c) ∧ history log e = [] := by
  refine ⟨fun c hmem => ?_, List.filter_eq_nil_iff.mpr fun x hx habout => ?_⟩
  · exact absurd (h.number_lt_of_mem hmem) (he ▸ lt_irrefl _)
  · exact absurd (h.number_lt e x hx habout) (he ▸ lt_irrefl _)

/-- **A listener is registered.** -/
theorem Histories.register (c : ℕ) (he : e.number = n) :
    Histories (Function.update listeners c (listeners c ++ [e])) (log ++ [.registered e])
      (n + 1) := by
  obtain ⟨hnew, hnone⟩ := h.fresh he
  have hone : ∀ e', history [Happening.registered e] e' =
      if e = e' then [.registered e] else [] := by
    intro e'
    simp [history, Happening.about, List.filter_singleton]
  have hnodup := (h.nodup c).concat (hnew c)
  rw [List.concat_eq_append] at hnodup
  refine ⟨nodup_update h.nodup hnodup, fun c₁ c₂ e' h₁ h₂ => ?_, fun e' x hx habout => ?_,
    fun c' e' he' => ?_, fun e' hreg hnot => ?_⟩
  · rcases mem_update_concat.mp h₁ with h₁ | ⟨hc₁, he₁⟩ <;>
      rcases mem_update_concat.mp h₂ with h₂ | ⟨hc₂, he₂⟩
    · exact h.own c₁ c₂ e' h₁ h₂
    · exact absurd (he₂ ▸ h₁) (hnew c₁)
    · exact absurd (he₁ ▸ h₂) (hnew c₂)
    · exact hc₁.trans hc₂.symm
  · rcases List.mem_append.mp hx with hx | hx
    · exact Nat.lt_succ_of_lt (h.number_lt e' x hx habout)
    · rw [List.mem_singleton.mp hx] at habout
      have heq : e = e' := of_decide_eq_true habout
      rw [← heq, he]
      exact Nat.lt_succ_self n
  · rw [history_append, hone]
    rcases mem_update_concat.mp he' with he' | ⟨-, rfl⟩
    · obtain ⟨ns, hns⟩ := h.inUse c' e' he'
      have hne : e ≠ e' := fun heq => hnew c' (heq ▸ he')
      exact ⟨ns, by rw [if_neg hne, List.append_nil, hns]⟩
    · exact ⟨[], by rw [hnone, if_pos rfl]; rfl⟩
  · have hne : e ≠ e' := fun heq => hnot c (mem_update_concat.mpr (.inr ⟨rfl, heq.symm⟩))
    have hreg' : Happening.registered e' ∈ log := by
      rcases List.mem_append.mp hreg with hreg | hreg
      · exact hreg
      · cases List.mem_singleton.mp hreg
        exact absurd rfl hne
    obtain ⟨ns, hns⟩ := h.past e' hreg' fun c' he' => hnot c' (mem_update_concat.mpr (.inl he'))
    exact ⟨ns, by rw [history_append, hone, if_neg hne, List.append_nil, hns]⟩

end

end Histories

/-! ### References taken and dropped -/

/-- **A container with so many references** is as it should be: its count is right, it has been
freed if there are none, and it finds the listeners in use. -/
structure Accounted (n : ℕ) (k : SharedContainer) (listeners : List ListenerEntry) (freed : ℕ) :
    Prop where
  refcount : k.refcount.toNat = n
  freed : freed = if n = 0 then 1 else 0
  stored : k.entries.slots = listeners.map some
  empty : n = 0 → listeners = []

/-- **The containers have so many references**, whoever holds them. -/
structure Good (n : ℕ → ℕ) (s : Sharing) : Prop where
  accounted : ∀ c < s.made, Accounted (n c) (s.container c) (s.listeners c) (s.freed.count c)
  unmade : ∀ c, s.made ≤ c → n c = 0 ∧ s.listeners c = [] ∧ s.freed.count c = 0
  histories : Histories s.listeners s.log s.registrations

section References

variable {n : ℕ → ℕ} {s : Sharing} {c : ℕ}

theorem Good.lt_made (h : Good n s) (hc : n c ≠ 0) : c < s.made :=
  Nat.lt_of_not_le fun hle => hc (h.unmade c hle).1

/-- A container in use has not been freed. -/
theorem Good.count_freed (h : Good n s) (hc : n c ≠ 0) : s.freed.count c = 0 :=
  (h.accounted c (h.lt_made hc)).freed.trans (if_neg hc)

theorem Good.stored (h : Good n s) (hc : n c ≠ 0) :
    (s.container c).entries.slots = (s.listeners c).map some :=
  (h.accounted c (h.lt_made hc)).stored

/-- What is done with one container leaves the others alone. -/
theorem Good.change {n' : ℕ → ℕ} {s' : Sharing} (h : Good n s) (hc : n c ≠ 0)
    (hmade : s'.made = s.made)
    (hother : ∀ c', c' ≠ c → n' c' = n c' ∧ s'.container c' = s.container c' ∧
      s'.listeners c' = s.listeners c' ∧ s'.freed.count c' = s.freed.count c')
    (haccounted : Accounted (n' c) (s'.container c) (s'.listeners c) (s'.freed.count c))
    (hhistories : Histories s'.listeners s'.log s'.registrations) : Good n' s' := by
  refine ⟨fun c' hc' => ?_, fun c' hc' => ?_, hhistories⟩
  · by_cases heq : c' = c
    · exact heq ▸ haccounted
    · obtain ⟨hn, hcontainer, hlisteners, hfreed⟩ := hother c' heq
      rw [hn, hcontainer, hlisteners, hfreed]
      exact h.accounted c' (hmade ▸ hc')
  · have hne : c' ≠ c := by
      have hlt := h.lt_made hc
      omega
    obtain ⟨hn, -, hlisteners, hfreed⟩ := hother c' hne
    rw [hn, hlisteners, hfreed]
    exact h.unmade c' (hmade ▸ hc')

@[simp] theorem container_modify_self (s : Sharing) (c : ℕ)
    (f : SharedContainer → SharedContainer) :
    (s.modify c f).container c = f (s.container c) := Function.update_self ..

@[simp] theorem container_modify_of_ne (s : Sharing) {c c' : ℕ} (hne : c' ≠ c)
    (f : SharedContainer → SharedContainer) : (s.modify c f).container c' = s.container c' :=
  Function.update_of_ne hne ..

theorem container_unregisterAllListeners_self (s : Sharing) (pointer c : ℕ) :
    (s.unregisterAllListeners pointer c).container c =
      { s.container c with
        entries := (s.container c).entries.clear (ListenerContainer.sizes pointer) true } :=
  Function.update_self ..

theorem container_free_self (s : Sharing) (pointer c : ℕ) :
    (s.free pointer c).container c =
      { s.container c with
        entries :=
          ((s.container c).entries.clear (ListenerContainer.sizes pointer) true).deinit } := by
  rw [free, container_modify_self, container_unregisterAllListeners_self]

theorem container_free_of_ne (s : Sharing) (pointer : ℕ) {c c' : ℕ} (hne : c' ≠ c) :
    (s.free pointer c).container c' = s.container c' := by
  rw [free, container_modify_of_ne _ hne]
  exact Function.update_of_ne hne ..

theorem container_registerListener_self (s : Sharing) (pointer c callback userData : ℕ)
    (destroyCb : Option ℕ) :
    (s.registerListener pointer c callback userData destroyCb).container c =
      { s.container c with
        entries := ((s.container c).entries.add (ListenerContainer.sizes pointer)
          ⟨s.registrations, callback, userData, destroyCb⟩ true).2 } :=
  Function.update_self ..

theorem Good.notifyListeners (h : Good n s) (hc : n c ≠ 0) (note : Notification) :
    Good n (s.notifyListeners c note) := by
  refine ⟨h.accounted, h.unmade, ?_⟩
  have hlog := h.histories.notify c note
  rw [Sharing.notifyListeners, h.stored hc, List.map_map]
  exact hlog

theorem Good.notifyAll (h : Good n s) (hc : n c ≠ 0) (ns : List Notification) :
    Good n (s.notifyAll c ns) := by
  induction ns generalizing s with
  | nil => exact h
  | cons note ns ih => exact ih (h.notifyListeners hc note)

/-- The `id` of a container is set. -/
theorem Good.setId (h : Good n s) (hc : n c ≠ 0) (id : UInt32) :
    Good n (s.modify c fun k => { k with id := id }) := by
  refine h.change hc rfl (fun c' hne => ⟨rfl, container_modify_of_ne s hne _, rfl, rfl⟩) ?_
    h.histories
  rw [container_modify_self]
  obtain ⟨hrefcount, hfreed, hstored, hempty⟩ := h.accounted c (h.lt_made hc)
  exact ⟨hrefcount, hfreed, hstored, hempty⟩

/-- **One reference more.** -/
theorem Good.ref (h : Good n s) (hc : n c ≠ 0) (hlt : n c + 1 < 2 ^ 32) :
    Good (Function.update n c (n c + 1)) (s.ref c) := by
  refine h.change hc rfl (fun c' hne => ⟨Function.update_of_ne hne ..,
    container_modify_of_ne s hne _, rfl, rfl⟩) ?_ h.histories
  rw [Sharing.ref, container_modify_self, Function.update_self]
  refine ⟨?_, h.count_freed hc, h.stored hc, fun h0 => absurd h0 (Nat.succ_ne_zero _)⟩
  have hrefcount := (h.accounted c (h.lt_made hc)).refcount
  rw [UInt32.toNat_add, hrefcount]
  exact Nat.mod_eq_of_lt hlt

/-- **A new container** has one reference. -/
theorem Good.createContainer (h : Good n s) (pointer : ℕ) :
    Good (Function.update n s.made 1) (s.createContainer pointer) := by
  obtain ⟨-, hlisteners, hfreed⟩ := h.unmade s.made le_rfl
  refine ⟨fun c hc => ?_, fun c hc => ?_, h.histories⟩
  · rcases Nat.lt_succ_iff_lt_or_eq.mp hc with hlt | rfl
    · have hcontainer : (s.createContainer pointer).container c = s.container c :=
        Function.update_of_ne hlt.ne ..
      rw [Function.update_of_ne hlt.ne, hcontainer]
      exact h.accounted c hlt
    · have hcontainer : (s.createContainer pointer).container s.made =
          ⟨.init (ListenerContainer.sizes pointer) 16, 0, 1⟩ := Function.update_self ..
      rw [Function.update_self, hcontainer]
      exact ⟨rfl, hfreed, congrArg (List.map some) hlisteners.symm,
        fun h0 => absurd h0 Nat.one_ne_zero⟩
  · have hlt : s.made < c := hc
    rw [Function.update_of_ne hlt.ne']
    exact h.unmade c hlt.le

/-- **The listeners of a container are unregistered.** -/
theorem Good.unregisterAllListeners (h : Good n s) (hc : n c ≠ 0) (pointer : ℕ) :
    Good n (s.unregisterAllListeners pointer c) := by
  have hacc := h.accounted c (h.lt_made hc)
  refine h.change hc rfl (fun c' hne => ⟨rfl, Function.update_of_ne hne ..,
    Function.update_of_ne hne .., rfl⟩) ?_ ?_
  · rw [container_unregisterAllListeners_self]
    refine ⟨hacc.refcount, hacc.freed, ?_, fun h0 => absurd h0 hc⟩
    exact congrArg (List.map some) (Function.update_self c [] s.listeners).symm
  · have hlog := h.histories.unregister c
    rw [Sharing.unregisterAllListeners, h.stored hc, List.map_map]
    exact hlog

theorem toNat_pred {r : UInt32} (hr : r.toNat ≠ 0) : (r - 1).toNat = r.toNat - 1 :=
  UInt32.toNat_sub_of_le r 1 (UInt32.le_iff_toNat_le.mpr (Nat.one_le_iff_ne_zero.mpr hr))

/-- **One reference less**; the container of the last one is freed. -/
theorem Good.unref (h : Good n s) (hc : n c ≠ 0) (pointer : ℕ) :
    Good (Function.update n c (n c - 1)) (s.unref pointer c) := by
  have hacc := h.accounted c (h.lt_made hc)
  have hpred : ((s.container c).refcount - 1).toNat = n c - 1 := by
    rw [toNat_pred (hacc.refcount.symm ▸ hc), hacc.refcount]
  have hzero : (s.container c).refcount - 1 = 0 ↔ n c - 1 = 0 := by
    rw [← UInt32.toNat_inj, hpred]
    rfl
  rw [Sharing.unref]
  simp only [container_modify_self, hzero]
  split
  · next hlast =>
    refine h.change hc rfl (fun c' hne => ⟨Function.update_of_ne hne .., ?_,
      Function.update_of_ne hne .., ?_⟩) ?_ ?_
    · rw [container_free_of_ne _ _ hne, container_modify_of_ne s hne]
    · refine List.count_append.trans ?_
      rw [List.count_singleton, if_neg (by simpa using hne.symm)]
      rfl
    · rw [Function.update_self, container_free_self, container_modify_self]
      refine ⟨hpred, ?_, ?_, fun _ => Function.update_self ..⟩
      · refine List.count_append.trans ?_
        rw [if_pos hlast, List.count_singleton_self]
        exact congrArg (· + 1) (h.count_freed hc)
      · exact congrArg (List.map some) (Function.update_self c [] s.listeners).symm
    · have hlog := h.histories.unregister c
      simp only [Sharing.free, Sharing.unregisterAllListeners, container_modify_self,
        h.stored hc, List.map_map]
      exact hlog
  · next hmore =>
    refine h.change hc rfl (fun c' hne => ⟨Function.update_of_ne hne ..,
      container_modify_of_ne s hne _, rfl, rfl⟩) ?_ h.histories
    rw [container_modify_self, Function.update_self]
    exact ⟨hpred, (h.count_freed hc).trans (if_neg hmore).symm, hacc.stored,
      fun h0 => absurd h0 hmore⟩

/-- The references of the register are dropped one after another. -/
theorem Good.foldl_unref (pointer : ℕ) {cs : List ℕ} (h : Good n s) (hcs : ∀ c, cs.count c ≤ n c) :
    Good (fun c => n c - cs.count c) (cs.foldl (Sharing.unref pointer) s) := by
  induction cs generalizing n s with
  | nil => exact h
  | cons c cs ih =>
    have hpos : n c ≠ 0 := by
      have hle := hcs c
      rw [List.count_cons_self] at hle
      omega
    have hstep : ∀ c', n c' - (c :: cs).count c' =
          Function.update n c (n c - 1) c' - cs.count c' ∧
        cs.count c' ≤ Function.update n c (n c - 1) c' := by
      intro c'
      have hle := hcs c'
      by_cases heq : c' = c
      · subst heq
        rw [List.count_cons_self] at hle ⊢
        rw [Function.update_self]
        omega
      · rw [List.count_cons_of_ne (Ne.symm heq)] at hle ⊢
        rw [Function.update_of_ne heq]
        exact ⟨rfl, hle⟩
    rw [funext fun c' => (hstep c').1]
    exact ih (h.unref hpos pointer) fun c' => (hstep c').2

/-- **A listener is registered** with a container that has room for its entry. -/
theorem Good.registerListener (h : Good n s) (hc : n c ≠ 0) {pointer : ℕ}
    (hroom : (s.container c).entries.RoomForOne (ListenerContainer.sizes pointer))
    (callback userData : ℕ) (destroyCb : Option ℕ) :
    Good n (s.registerListener pointer c callback userData destroyCb) := by
  have hacc := h.accounted c (h.lt_made hc)
  refine h.change hc rfl (fun c' hne => ⟨rfl, Function.update_of_ne hne ..,
    Function.update_of_ne hne .., rfl⟩) ?_ (h.histories.register c rfl)
  rw [container_registerListener_self]
  refine ⟨hacc.refcount, hacc.freed, ?_, fun h0 => absurd h0 hc⟩
  refine ((Bag.slots_add_iff hacc.stored _).mpr hroom).trans ?_
  exact congrArg (List.map some) (Function.update_self c _ s.listeners).symm

end References

/-! ### Who holds the containers -/

section Holders

variable {s : Sharing} {t c : ℕ} {l : LiveTimeline}

theorem notifyAll_holds (s : Sharing) (c : ℕ) (ns : List Notification) :
    (s.notifyAll c ns).timelines = s.timelines ∧ (s.notifyAll c ns).register = s.register := by
  induction ns generalizing s with
  | nil => exact ⟨rfl, rfl⟩
  | cons note ns ih => exact ih (s.notifyListeners c note)

theorem register_unref (s : Sharing) (pointer c : ℕ) :
    (s.unref pointer c).register = s.register := by
  dsimp only [unref]
  split <;> rfl

theorem timelines_unref (s : Sharing) (pointer c : ℕ) :
    (s.unref pointer c).timelines = s.timelines := by
  dsimp only [unref]
  split <;> rfl

theorem timelines_foldl_unref (s : Sharing) (pointer : ℕ) (cs : List ℕ) :
    (cs.foldl (unref pointer) s).timelines = s.timelines := by
  induction cs generalizing s with
  | nil => rfl
  | cons c cs ih => exact (ih (s.unref pointer c)).trans (timelines_unref s pointer c)

theorem getElem?_of_live (ht : s.live t = some l) : s.timelines[t]? = some (some l) :=
  Option.join_eq_some_iff.mp ht

theorem references_congr {s' : Sharing} (htimelines : s'.timelines = s.timelines)
    (hregister : s'.register = s.register) : s'.references = s.references := by
  funext c
  rw [references, references, holders, holders, htimelines, hregister]

theorem references_addTimeline (s : Sharing) (l : LiveTimeline) :
    (s.addTimeline l).references =
      Function.update s.references l.listeners (s.references l.listeners + 1) := by
  funext c
  have hholders : (s.addTimeline l).holders c =
      s.holders c + if l.listeners = c then 1 else 0 := by
    simp [holders, addTimeline, List.countP_singleton]
  rw [references, hholders, Function.update_apply]
  change _ + (if c ∈ s.register then 1 else 0) = _
  by_cases hc : c = l.listeners
  · rw [if_pos hc.symm, if_pos hc, ← hc, references, Nat.add_right_comm]
  · rw [if_neg (Ne.symm hc), if_neg hc, references, Nat.add_zero]

theorem references_addToRegister (hc : c ∉ s.register) :
    (s.addToRegister c).references = Function.update s.references c (s.references c + 1) := by
  funext d
  have hmem : d ∈ (s.addToRegister c).register ↔ d ∈ s.register ∨ d = c := by
    simp [addToRegister]
  have hholders : (s.addToRegister c).holders d = s.holders d := rfl
  rw [references, hholders, Function.update_apply]
  simp only [hmem]
  by_cases hd : d = c
  · subst hd
    rw [if_pos (.inr rfl), if_pos rfl, references, if_neg hc]
  · rw [if_neg hd, references]
    simp only [hd, or_false]

section

variable (ht : s.live t = some l)

include ht

/-- The place of a timeline is written to. -/
theorem countP_set_add {p : Option LiveTimeline → Bool} (x : Option LiveTimeline) :
    (s.timelines.set t x).countP p + (if p (some l) then 1 else 0) =
      s.timelines.countP p + if p x then 1 else 0 := by
  obtain ⟨hlt, hget⟩ := List.getElem?_eq_some_iff.mp (getElem?_of_live ht)
  rw [List.countP_set hlt, hget]
  by_cases hp : p (some l) = true
  · have hpos : 0 < s.timelines.countP p :=
      List.countP_pos_iff.mpr ⟨some l, hget ▸ List.getElem_mem hlt, hp⟩
    rw [if_pos hp]
    omega
  · rw [if_neg hp]
    omega

theorem references_ne_zero : s.references l.listeners ≠ 0 := by
  have hpos : 0 < s.holders l.listeners :=
    List.countP_pos_iff.mpr ⟨some l, List.mem_of_getElem? (getElem?_of_live ht), by simp⟩
  rw [references]
  omega

theorem holders_setTimeline (x : Option LiveTimeline) (c : ℕ) :
    (s.setTimeline t x).holders c + (if l.listeners = c then 1 else 0) =
      s.holders c + if x.map (·.listeners) = some c then 1 else 0 := by
  have hcount := countP_set_add (p := fun x => x.map (·.listeners) = some c) ht x
  simp only [Option.map_some, Option.some.injEq, decide_eq_true_eq] at hcount
  exact hcount

/-- A timeline is destroyed. -/
theorem references_setTimeline_none :
    (s.setTimeline t none).references =
      Function.update s.references l.listeners (s.references l.listeners - 1) := by
  funext c
  have hholders := holders_setTimeline ht none c
  simp only [Option.map_none, reduceCtorEq, if_false, Nat.add_zero] at hholders
  rw [references, Function.update_apply]
  change _ + (if c ∈ s.register then 1 else 0) = _
  by_cases hc : c = l.listeners
  · rw [if_pos hc.symm] at hholders
    rw [if_pos hc, ← hc, references]
    omega
  · rw [if_neg (Ne.symm hc), Nat.add_zero] at hholders
    rw [if_neg hc, references, hholders]

/-- A timeline stays with its container. -/
theorem references_setTimeline_some (timeline : Timeline) :
    (s.setTimeline t (some ⟨timeline, l.listeners⟩)).references = s.references := by
  funext c
  have hholders := holders_setTimeline ht (some ⟨timeline, l.listeners⟩) c
  simp only [Option.map_some, Option.some.injEq, Nat.add_right_cancel_iff] at hholders
  rw [references, hholders]
  rfl

end

end Holders

/-! ### Calls -/

section Calls

/-- **What holds before every call**: the containers have as many references as they have
holders, and the register holds none twice. -/
structure Kept (s : Sharing) : Prop where
  good : Good s.references s
  nodup : s.register.Nodup

variable {s : Sharing} {t : ℕ} {l : LiveTimeline} {pointer : ℕ} {charSigned : Bool}

theorem kept_start : Kept start := by
  refine ⟨⟨fun c hc => absurd hc (Nat.not_lt_zero c), fun _ _ => ⟨rfl, rfl, rfl⟩, ?_⟩,
    List.nodup_nil⟩
  exact ⟨fun _ => List.nodup_nil, by simp [start], by simp [start], by simp [start],
    by simp [start]⟩

theorem Kept.correct (h : Kept s) : Correct s where
  refcount c hc := (h.good.accounted c hc).refcount
  freed c hc := (h.good.accounted c hc).freed
  stored c hc := (h.good.accounted c hc).stored
  empty c := by
    rcases Nat.lt_or_ge c s.made with hc | hc
    · exact (h.good.accounted c hc).empty
    · exact fun _ => (h.good.unmade c hc).2.1
  inUse := h.good.histories.inUse
  past := h.good.histories.past

theorem Good.setTimeline {n : ℕ → ℕ} (h : Good n s) (t : ℕ) (l : Option LiveTimeline) :
    Good n (s.setTimeline t l) := { h with }

/-- The container that is found is in the register. -/
theorem references_ne_zero_of_find {name : CString} {c : ℕ}
    (hfind : s.findContainer charSigned name = some c) : s.references c ≠ 0 := by
  have hmem : c ∈ s.register := List.mem_of_find?_eq_some hfind
  rw [references, if_pos hmem]
  exact Nat.succ_ne_zero _

section

variable (h : Kept s)

include h

/-- A container that has not been made is not in the register. -/
theorem Kept.made_not_mem : s.made ∉ s.register := by
  intro hmem
  have hzero : s.references s.made = 0 := (h.good.unmade s.made le_rfl).1
  rw [references, if_pos hmem] at hzero
  exact Nat.succ_ne_zero _ hzero

/-- **The container that is found or made** has one reference more than holders, for the
timeline that is being created. -/
theorem Kept.findOrCreateListener {name : Option CString} (pointer : ℕ)
    (hroom : ∀ n c, name = some n → s.findContainer charSigned n = some c →
      s.references c + 1 < 2 ^ 32) {r : Sharing × ℕ}
    (hr : s.findOrCreateListener pointer charSigned name = r) :
    Good (Function.update r.1.references r.2 (r.1.references r.2 + 1)) r.1 ∧
      r.1.register.Nodup := by
  have hmade : s.references s.made = 0 := (h.good.unmade s.made le_rfl).1
  have hnew : Good (Function.update s.references s.made (s.references s.made + 1))
      (s.createContainer pointer) := hmade.symm ▸ h.good.createContainer pointer
  rcases name with _ | name
  · subst hr
    exact ⟨hnew, h.nodup⟩
  · rw [Sharing.findOrCreateListener] at hr
    rcases hfind : s.findContainer charSigned name with _ | c <;> rw [hfind] at hr <;> subst hr
    · dsimp only
      rw [registerContainer]
      split
      · exact ⟨hnew, h.nodup⟩
      · have hregister := h.nodup.concat h.made_not_mem
        rw [List.concat_eq_append] at hregister
        refine ⟨?_, hregister⟩
        -- the first reference is the register's, and the second the timeline's
        have hself : Function.update s.references s.made (s.references s.made + 1) s.made = 1 := by
          rw [Function.update_self, hmade]
        have hne := hself.symm ▸ Nat.one_ne_zero
        have htwo := (hnew.setId hne (djb2Hash charSigned name)).ref hne (by rw [hself]; decide)
        rw [references_addToRegister (by exact h.made_not_mem)]
        exact { htwo with }
    · exact ⟨h.good.ref (references_ne_zero_of_find hfind) (hroom name c rfl hfind), h.nodup⟩

theorem Kept.createTimeline {name : Option CString}
    (hroom : ∀ n c, name = some n → s.findContainer charSigned n = some c →
      s.references c + 1 < 2 ^ 32) (capacity : ℕ) (serialize : Bool) :
    Kept (s.createTimeline pointer charSigned capacity serialize name) := by
  obtain ⟨hgood, hnodup⟩ := h.findOrCreateListener pointer hroom rfl
  refine ⟨?_, hnodup⟩
  rw [Sharing.createTimeline, references_addTimeline]
  exact { hgood with }

theorem Kept.registerListener (ht : s.live t = some l)
    (hroom : (s.container l.listeners).entries.RoomForOne (ListenerContainer.sizes pointer))
    (callback userData : ℕ) (destroyCb : Option ℕ) :
    Kept (s.registerListener pointer l.listeners callback userData destroyCb) :=
  ⟨h.good.registerListener (references_ne_zero ht) hroom callback userData destroyCb, h.nodup⟩

theorem Kept.unregisterAllListeners (ht : s.live t = some l) :
    Kept (s.unregisterAllListeners pointer l.listeners) :=
  ⟨h.good.unregisterAllListeners (references_ne_zero ht) pointer, h.nodup⟩

theorem Kept.putTimeline (ht : s.live t = some l) (r : Timeline × List Notification) :
    Kept (s.putTimeline t l.listeners r) := by
  obtain ⟨htimelines, hregister⟩ := notifyAll_holds s l.listeners r.2
  have ht' : (s.notifyAll l.listeners r.2).live t = some l := by rw [live, htimelines, ← ht]; rfl
  refine ⟨?_, hregister.symm ▸ h.nodup⟩
  rw [Sharing.putTimeline, references_setTimeline_some ht', references_congr htimelines hregister]
  exact (h.good.notifyAll (references_ne_zero ht) r.2).setTimeline t _

theorem Kept.destroyTimeline (ht : s.live t = some l) : Kept (s.destroyTimeline pointer t l) := by
  obtain ⟨htimelines, hregister⟩ := notifyAll_holds s l.listeners l.timeline.flush.2
  set s' := s.notifyAll l.listeners l.timeline.flush.2 with hs'
  have htimelines' : (s'.unref pointer l.listeners).timelines = s.timelines :=
    (timelines_unref s' pointer l.listeners).trans htimelines
  have hregister' : (s'.unref pointer l.listeners).register = s.register :=
    (register_unref s' pointer l.listeners).trans hregister
  have ht' : (s'.unref pointer l.listeners).live t = some l := by rw [live, htimelines', ← ht]; rfl
  have hne := references_ne_zero ht
  refine ⟨?_, hregister'.symm ▸ h.nodup⟩
  rw [Sharing.destroyTimeline, references_setTimeline_none ht',
    references_congr htimelines' hregister']
  exact ((h.good.notifyAll hne l.timeline.flush.2).unref hne pointer).setTimeline t none

/-- What the register held is left to the timelines. -/
theorem Kept.registryDeinit : Kept (s.registryDeinit pointer) := by
  have hle : ∀ c, s.register.count c ≤ s.references c := by
    intro c
    rw [h.nodup.count, references]
    exact Nat.le_add_left _ _
  have hrefs : (s.registryDeinit pointer).references =
      fun c => s.references c - s.register.count c := by
    funext c
    have htimelines : (s.registryDeinit pointer).timelines = s.timelines :=
      timelines_foldl_unref s pointer s.register
    rw [references, references, holders, htimelines, h.nodup.count, Nat.add_sub_cancel]
    rfl
  refine ⟨?_, List.nodup_nil⟩
  rw [hrefs]
  have hgood := h.good.foldl_unref pointer hle
  exact { hgood with }

end

variable {E : Type} {R : EventRep E} {o : Op E}

/-- **A call that meets the condition** keeps what holds before every call. -/
theorem Kept.step (h : Kept s) (ho : Allowed pointer charSigned s o) :
    Kept (s.step R pointer charSigned o) := by
  rcases o with ⟨capacity, serialize, name⟩ | ⟨t, callback, userData, destroyCb⟩ | t | ⟨t, e⟩ | t |
    t | _
  · refine h.createTimeline (fun n c hn hfind => ?_) capacity serialize
    subst hn
    exact ho c hfind
  all_goals rw [Sharing.step]
  · split
    · next l ht => exact h.registerListener ht (ho l ht) callback userData destroyCb
    · exact h
  · split
    · next l ht => exact h.unregisterAllListeners ht
    · exact h
  · split
    · next l ht => exact h.putTimeline ht _
    · exact h
  · split
    · next l ht => exact h.putTimeline ht _
    · exact h
  · split
    · next l ht => exact h.destroyTimeline ht
    · exact h
  · exact h.registryDeinit

/-- **Only a call that meets the condition** leaves a correct state. -/
theorem Kept.allowed_of_correct (h : Kept s) (hs : Correct (s.step R pointer charSigned o)) :
    Allowed pointer charSigned s o := by
  rcases o with ⟨capacity, serialize, _ | name⟩ | ⟨t, callback, userData, destroyCb⟩ | t |
    ⟨t, e⟩ | t | t | _
  · trivial
  · intro c hfind
    have hlt : c < s.made := h.good.lt_made (references_ne_zero_of_find hfind)
    have hcreate : s.step R pointer charSigned (.create capacity serialize (some name)) =
        (s.ref c).addTimeline ⟨.create capacity serialize, c⟩ := by
      rw [Sharing.step, Sharing.createTimeline, Sharing.findOrCreateListener, hfind]
    rw [hcreate] at hs
    have hcount := hs.refcount c hlt
    rw [references_addTimeline, Function.update_self] at hcount
    have hsame : (s.ref c).references c = s.references c := rfl
    exact hsame ▸ hcount ▸ UInt32.toNat_lt _
  · intro l ht
    have hlt : l.listeners < s.made := h.good.lt_made (references_ne_zero ht)
    rw [Sharing.step, ht] at hs
    have hstored := hs.stored l.listeners hlt
    dsimp only at hstored
    rw [container_registerListener_self] at hstored
    refine (Bag.slots_add_iff (h.good.stored (references_ne_zero ht)) _).mp (hstored.trans ?_)
    exact congrArg (List.map some) (Function.update_self l.listeners _ s.listeners)
  all_goals trivial

end Calls

/-- **When containers and listeners are released exactly once and never early.** In every run of
a program, every state is correct exactly if each call finds room: for the entry of a listener
it registers in the block of the container, and for one more reference in the count of a
container it finds. -/
theorem released_once_iff (ops : List (Op E))
    (hops : StepsMeet (step R pointer charSigned) Valid start ops) :
    Throughout (step R pointer charSigned) Correct start ops ↔
      StepsMeet (step R pointer charSigned) (Allowed pointer charSigned) start ops :=
  throughout_iff_of_kept (J := Kept) (D := Valid)
    (fun _ _ h _ _ hallowed => h.step hallowed)
    (fun _ _ h _ _ => ⟨h.allowed_of_correct, fun hallowed => (h.step hallowed).correct⟩)
    kept_start kept_start.correct hops

/-- The sizes are those of a 64-bit system. Two timelines share a container; a listener that is
registered through one is notified by the other's flush when that is destroyed, after
`ht_deinit`. -/
theorem released_once_of_two_timelines :
    let name := some (cstr "HT_GlobalTimeline")
    let ops : List (Op HTEvent) := [.create 64 true name, .registerListenerFull 0 1 2 (some 3),
      .create 64 true name, .pushEvent 1 ⟨1, 10, 0⟩, .destroy 0, .deinit, .destroy 1]
    StepsMeet (step (htEventRep .little).toEventRep 8 true) Valid start ops ∧
      StepsMeet (step (htEventRep .little).toEventRep 8 true) (Allowed 8 true) start ops ∧
      Throughout (step (htEventRep .little).toEventRep 8 true) Correct start ops := by
  intro name ops
  have hops : StepsMeet (step (htEventRep .little).toEventRep 8 true) Valid start ops := by
    decide +kernel
  have hallowed : StepsMeet (step (htEventRep .little).toEventRep 8 true) (Allowed 8 true) start
      ops := by
    decide +kernel
  exact ⟨hops, hallowed, (released_once_iff _ _ _ ops hops).mpr hallowed⟩

/-- **A listener whose entry is outside of its container.** The listeners of a new timeline are
unregistered, which leaves 128 bytes for 16 entries of 24. Of six listeners that are then registered
the last one is written behind them. From there on the behaviour of the program is undefined; the
bytes behind a block are not modelled, so nothing more is recorded of that listener. -/
theorem sixth_listener_not_destroyed :
    let ops : List (Op HTEvent) := .create 64 true none :: .unregisterAllListeners 0 ::
      List.replicate 6 (.registerListenerFull 0 1 2 (some 3)) ++ [.destroy 0]
    let s := runFrom (step (htEventRep .little).toEventRep 8 true) start ops
    StepsMeet (step (htEventRep .little).toEventRep 8 true) Valid start ops ∧
      s.freed = [0] ∧ s.listeners 0 = [] ∧
      history s.log ⟨5, 1, 2, some 3⟩ = [.registered ⟨5, 1, 2, some 3⟩] ∧
      ¬ Throughout (step (htEventRep .little).toEventRep 8 true) Correct start ops := by
  intro ops s
  refine ⟨by decide +kernel, by decide +kernel, by decide +kernel, by decide +kernel, fun h => ?_⟩
  -- the container does not find the sixth listener
  exact absurd (h.2.2.2.2.2.2.2.2.head.stored 0 (by decide +kernel)) (by decide +kernel)

end Sharing

end HawkTracer.Lib
