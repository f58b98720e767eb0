import HawkTracer.Base.Run
import Mathlib.Data.List.Basic
import Mathlib.Data.UInt

/-!
# Initialization and klass identifiers

`ht_init` makes a new registry and registers the core klasses with it, whether or not the
library has been initialized before; `ht_deinit` counts down and drops the registry at zero.
The identifier of a klass is its index in the registry. It is kept in a static object that
outlives the registry, and a klass that has an identifier is not registered again.

The state of the process is the registry, if there is one, the identifiers, and the counter;
beside it runs the list of the klasses for which registration was called since the library
last became initialized (`HawkTracer.Lib.Process`). A registration that needs the registry
while there is none uses a mutex and a bag that are not there. Identifiers are valid
(`HawkTracer.Lib.Process.IdsValid`) if that has not happened, and each of these klasses stands
in the registry at the index it has as its identifier. They stay valid exactly as long as
`ht_init` finds the core klasses without identifiers, and every klass that is registered is
without one or was registered since, in an initialized library
(`HawkTracer.Lib.Process.ids_valid_iff`): a process can initialize the library once.
-/

namespace HawkTracer.Lib

/-- The klasses `ht_init` registers. -/
inductive CoreKlass where
  | endiannessInfoEvent | event | eventKlassInfoEvent | eventKlassFieldInfoEvent
  | callstackBaseEvent | callstackIntEvent | callstackStringEvent | stringMappingEvent
  | systemInfoEvent
  deriving DecidableEq, Repr

/-- The static klass objects of a program with user klasses `U`. -/
abbrev KlassObject (U : Type) := CoreKlass ⊕ U

/-- The core klasses in the order of their registration. -/
def coreObjects (U : Type) : List (KlassObject U) :=
  [.inl .endiannessInfoEvent, .inl .event, .inl .eventKlassInfoEvent,
    .inl .eventKlassFieldInfoEvent, .inl .callstackBaseEvent, .inl .callstackIntEvent,
    .inl .callstackStringEvent, .inl .stringMappingEvent, .inl .systemInfoEvent]

theorem nodup_coreObjects (U : Type) : (coreObjects U).Nodup := by
  simp [coreObjects]

/-- `HT_INVALID_KLASS_ID`. -/
def invalidKlassId : UInt32 := 0xffffffff

/-- `event_klass_register` and `listeners_register`; a container is known by the hash of its
name. -/
structure Registries (U : Type) where
  klasses : List (KlassObject U)
  listeners : List UInt32

/-- The part of a process the library owns. -/
structure Process (U : Type) where
  /-- `_ht_init_counter`. -/
  initCounter : ℕ
  /-- The registries, between `ht_registry_init` and `ht_registry_deinit`. -/
  registry : Option (Registries U)
  /-- `klass_id` of the klass objects. -/
  klassId : KlassObject U → UInt32
  /-- The klasses for which registration was called since the library last became
  initialized. -/
  called : List (KlassObject U)
  /-- The mutex or the bag of a registry that is not there has been used. -/
  faulted : Bool

namespace Process

variable {U : Type}

section Calls

variable [DecidableEq U]

/-- A process before its first call. -/
def start : Process U := ⟨0, none, fun _ => invalidKlassId, [], false⟩

/-- `ht_registry_register_event_klass`; `ok` is whether the bag has memory for the klass. A
registry that is not there has neither a mutex nor a bag, which the source does not check. -/
def registerEventKlass (p : Process U) (k : KlassObject U) (ok : Bool) : Process U :=
  if p.klassId k = invalidKlassId then
    match p.registry with
    | none => { p with faulted := true }
    | some r =>
      if ok then
        { p with
          registry := some { r with klasses := r.klasses ++ [k] }
          klassId := Function.update p.klassId k (UInt32.ofNat ((r.klasses ++ [k]).length - 1)) }
      else p
  else p

/-- `ht_registry_register_listener_container`. -/
def registerListenerContainer (p : Process U) (id : UInt32) (ok : Bool) : Process U :=
  match p.registry with
  | none => { p with faulted := true }
  | some r =>
    if id ∈ r.listeners then p
    else if ok then { p with registry := some { r with listeners := r.listeners ++ [id] } }
    else p

/-- `ht_registry_init`: new bags, if there is memory for them. -/
def registryInit (p : Process U) (memory : Bool) : Process U :=
  { p with registry := if memory then some ⟨[], []⟩ else none }

/-- The registrations of `ht_init`, one after another. -/
def registerAll (p : Process U) (ok : KlassObject U → Bool) (ks : List (KlassObject U)) :
    Process U :=
  ks.foldl (fun p k => p.registerEventKlass k (ok k)) p

/-- `ht_init`. -/
def init (p : Process U) (memory : Bool) (ok : KlassObject U → Bool) : Process U :=
  let p' := (p.registryInit memory).registerAll ok (coreObjects U)
  { p' with
    initCounter := p.initCounter + 1
    called := if p.initCounter = 0 then coreObjects U else p.called ++ coreObjects U }

/-- `ht_deinit`. -/
def deinit (p : Process U) : Process U :=
  if 0 < p.initCounter then
    { p with
      initCounter := p.initCounter - 1
      registry := if p.initCounter - 1 = 0 then none else p.registry }
  else p

/-- A call, with the answers of the allocator. -/
inductive Call (U : Type) where
  | init (memory : Bool) (ok : KlassObject U → Bool)
  | deinit
  | registerEventKlass (k : KlassObject U) (ok : Bool)
  | registerListenerContainer (id : UInt32) (ok : Bool)

/-- What a call does. -/
def step (p : Process U) : Call U → Process U
  | .init memory ok => p.init memory ok
  | .deinit => p.deinit
  | .registerEventKlass k ok => { p.registerEventKlass k ok with called := p.called ++ [k] }
  | .registerListenerContainer id ok => p.registerListenerContainer id ok

end Calls

/-- The klass stands in the registry at the index it has as its identifier. -/
def Entry (p : Process U) (k : KlassObject U) : Prop :=
  ∃ r, p.registry = some r ∧ r.klasses[(p.klassId k).toNat]? = some k

/-- **Identifiers are valid**: nothing has been used that is not there, and while the library is
initialized, every klass registered since stands at its index, and no two of them share an
identifier. -/
def IdsValid (p : Process U) : Prop :=
  p.faulted = false ∧ (0 < p.initCounter →
    (∀ k ∈ p.called, p.Entry k) ∧
      ∀ k ∈ p.called, ∀ k' ∈ p.called, p.klassId k = p.klassId k' → k = k')

/-- **A call of `ht_init` while initialized has no effect** on the registries. -/
def InitKeeps [DecidableEq U] (p : Process U) (c : Call U) : Prop :=
  ∀ memory ok, c = .init memory ok → 0 < p.initCounter → (p.step c).registry = p.registry

/-- The allocator answers, and there are fewer klasses than identifiers. -/
def Supplied (p : Process U) : Call U → Prop
  | .init memory ok => memory = true ∧ ∀ k, ok k = true
  | .deinit => True
  | .registerEventKlass _ ok => ok = true ∧ ∀ r, p.registry = some r → r.klasses.length + 1 < 2 ^ 32
  | .registerListenerContainer _ _ => True

/-- **The calls that keep identifiers valid**: `ht_init` is called while no core klass has an
identifier; a klass without an identifier is registered while the library is initialized, and a
klass that has one while it is not, or since it was registered in this life of the library. -/
def Fresh (p : Process U) : Call U → Prop
  | .init _ _ => ∀ k ∈ coreObjects U, p.klassId k = invalidKlassId
  | .deinit => True
  | .registerEventKlass k _ =>
    (p.klassId k = invalidKlassId → 0 < p.initCounter) ∧
      (0 < p.initCounter → p.klassId k = invalidKlassId ∨ k ∈ p.called)
  | .registerListenerContainer _ _ => 0 < p.initCounter

/-! ### Registering klasses -/

variable {p p' p'' : Process U} {k : KlassObject U} {ks : List (KlassObject U)}

/-- What registering klasses does to a process with a registry. -/
structure Extends (p p' : Process U) (ks : List (KlassObject U)) : Prop where
  registry : ∃ r r', p.registry = some r ∧ p'.registry = some r' ∧
    r'.klasses.length ≤ r.klasses.length + ks.length ∧
    ∀ k ∈ r'.klasses, k ∈ r.klasses ∨ k ∈ ks ∧ p.klassId k = invalidKlassId
  known : ∀ k ∈ ks, p'.klassId k ≠ invalidKlassId
  keeps : ∀ k, p.klassId k ≠ invalidKlassId → p'.klassId k = p.klassId k
  other : ∀ k, k ∉ ks → p'.klassId k = p.klassId k
  faulted : p'.faulted = p.faulted
  entry : ∀ k, p.Entry k → p'.Entry k
  new : ks.Nodup → ∀ k ∈ ks, p.klassId k = invalidKlassId → p'.Entry k

variable {r : Registries U} {ok : KlassObject U → Bool}

theorem extends_nil (hr : p.registry = some r) : Extends p p [] where
  registry := ⟨r, r, hr, hr, le_rfl, fun _ hk => .inl hk⟩
  known := by simp
  keeps := fun _ _ => rfl
  other := fun _ _ => rfl
  faulted := rfl
  entry := fun _ h => h
  new := by simp

theorem Extends.cons (h : Extends p p' [k]) (h' : Extends p' p'' ks) : Extends p p'' (k :: ks) := by
  obtain ⟨r, r', hr, hr', hlen, hmem⟩ := h.registry
  obtain ⟨r₁, r'', hr₁, hr'', hlen', hmem'⟩ := h'.registry
  obtain rfl : r' = r₁ := Option.some.inj (hr'.symm.trans hr₁)
  refine ⟨⟨r, r'', hr, hr'', ?_, ?_⟩, ?_, ?_, ?_, h'.faulted.trans h.faulted, ?_, ?_⟩
  · simp only [List.length_cons, List.length_nil] at hlen ⊢
    omega
  · intro k' hk'
    rcases hmem' k' hk' with hk' | ⟨hk', hid⟩
    · rcases hmem k' hk' with hk' | ⟨hk', hid⟩
      · exact .inl hk'
      · exact .inr ⟨List.mem_cons.mpr (.inl (List.mem_singleton.mp hk')), hid⟩
    · refine .inr ⟨List.mem_cons_of_mem k hk', ?_⟩
      by_contra hne
      exact hne ((h.keeps k' hne).symm.trans hid)
  · intro k' hk'
    rcases List.mem_cons.mp hk' with rfl | hk'
    -- the first klass has an identifier by now, which the later calls keep
    · have hknown := h.known k' (List.mem_singleton_self k')
      rwa [h'.keeps k' hknown]
    · exact h'.known k' hk'
  · intro k' hk'
    have hkeep := h.keeps k' hk'
    rw [h'.keeps k' (hkeep ▸ hk'), hkeep]
  · intro k' hk'
    rw [List.mem_cons, not_or] at hk'
    rw [h'.other k' hk'.2, h.other k' (by simpa using hk'.1)]
  · exact fun k' hk' => h'.entry k' (h.entry k' hk')
  · intro hnodup k' hk' hid
    obtain ⟨hk, hks⟩ := List.nodup_cons.mp hnodup
    rcases List.mem_cons.mp hk' with rfl | hk'
    · exact h'.entry k' (h.new (List.nodup_singleton k') k' (List.mem_singleton_self k') hid)
    · have hne : k' ≠ k := fun heq => hk (heq ▸ hk')
      exact h'.new hks k' hk' (by rw [h.other k' (by simpa using hne), hid])

/-- Valid identifiers are unique, so it is enough that the klasses stand at their index. -/
theorem idsValid_iff :
    IdsValid p ↔ p.faulted = false ∧ (0 < p.initCounter → ∀ k ∈ p.called, p.Entry k) := by
  refine and_congr_right fun _ => ⟨fun h hpos => (h hpos).1, fun h hpos => ⟨h hpos, ?_⟩⟩
  intro k hk k' hk' heq
  obtain ⟨r, hr, hkr⟩ := h hpos k hk
  obtain ⟨r', hr', hkr'⟩ := h hpos k' hk'
  obtain rfl : r = r' := Option.some.inj (hr.symm.trans hr')
  rw [heq, hkr'] at hkr
  exact (Option.some.inj hkr).symm

theorem not_idsValid_of_empty {p : Process U} (hpos : 0 < p.initCounter) (hk : k ∈ p.called)
    (hempty : p.registry.map Registries.klasses = some []) : ¬ IdsValid p := by
  intro h
  obtain ⟨r, hr, hkr⟩ := (h.2 hpos).1 k hk
  rw [hr] at hempty
  rw [show r.klasses = [] from Option.some.inj hempty] at hkr
  cases hkr

/-- What is always so: there is no registry while the library is not initialized; while it is,
there is one, in it are only klasses registered since, and the core klasses are registered and
have identifiers. -/
structure Settled (p : Process U) : Prop where
  uninitialized : p.initCounter = 0 → p.registry = none
  registry : 0 < p.initCounter → ∃ r, p.registry = some r ∧ ∀ k ∈ r.klasses, k ∈ p.called
  core : 0 < p.initCounter → ∀ k ∈ coreObjects U, p.klassId k ≠ invalidKlassId

theorem settled_start : Settled (start : Process U) :=
  ⟨fun _ => rfl, fun h => absurd h (lt_irrefl 0), fun h => absurd h (lt_irrefl 0)⟩

theorem Settled.deinit (h : Settled p) : Settled p.deinit := by
  rw [Process.deinit]
  split
  · refine ⟨fun hzero => if_pos hzero, fun hpos => ?_, fun hpos => h.core ?_⟩
    · dsimp only at hpos
      rw [if_neg (by omega)]
      exact h.registry (by omega)
    · dsimp only at hpos
      omega
  · exact h

/-- Registering a container leaves everything about klasses as it is. -/
theorem registerListenerContainer_cases (hr : p.registry = some r) (id : UInt32) (ok : Bool) :
    p.registerListenerContainer id ok = p ∨
      p.registerListenerContainer id ok =
        { p with registry := some { r with listeners := r.listeners ++ [id] } } := by
  rw [registerListenerContainer, hr]
  dsimp only
  split
  · exact .inl rfl
  · split
    · exact .inr rfl
    · exact .inl rfl

theorem registerListenerContainer_of_none (hr : p.registry = none) (id : UInt32) (ok : Bool) :
    p.registerListenerContainer id ok = { p with faulted := true } := by
  rw [registerListenerContainer, hr]

variable [DecidableEq U]

/-- A process with one klass more in its registry. -/
def append (p : Process U) (r : Registries U) (k : KlassObject U) (id : UInt32) : Process U :=
  { p with
    registry := some { r with klasses := r.klasses ++ [k] }
    klassId := Function.update p.klassId k id }

theorem append_entry_self (r : Registries U) {id : UInt32} (hid : id.toNat = r.klasses.length) :
    (p.append r k id).Entry k := by
  refine ⟨_, rfl, ?_⟩
  change (r.klasses ++ [k])[(Function.update p.klassId k id k).toNat]? = some k
  rw [Function.update_self, hid, List.getElem?_concat_length]

theorem append_entry (hr : p.registry = some r) {id : UInt32} {k' : KlassObject U} (hne : k' ≠ k)
    (h : p.Entry k') : (p.append r k id).Entry k' := by
  obtain ⟨r', hr', hk'⟩ := h
  obtain rfl : r = r' := Option.some.inj (hr.symm.trans hr')
  refine ⟨_, rfl, ?_⟩
  change (r.klasses ++ [k])[(Function.update p.klassId k id k').toNat]? = some k'
  rw [Function.update_of_ne hne, List.getElem?_append_left (List.getElem?_eq_some_iff.mp hk').1,
    hk']

theorem extends_append (hr : p.registry = some r) (hk : p.klassId k = invalidKlassId) {id : UInt32}
    (hid : id.toNat = r.klasses.length) (hlen : r.klasses.length + 1 < 2 ^ 32) :
    Extends p (p.append r k id) [k] where
  registry := by
    refine ⟨r, _, hr, rfl, by rw [List.length_append], ?_⟩
    intro k' hk'
    rcases List.mem_append.mp hk' with hk' | hk'
    · exact .inl hk'
    · exact .inr ⟨hk', List.mem_singleton.mp hk' ▸ hk⟩
  known := by
    intro k' hk' hinvalid
    rw [List.mem_singleton.mp hk'] at hinvalid
    -- the index would be the largest 32-bit number, and there are not that many klasses
    have hid' : id = invalidKlassId := by
      rw [← hinvalid]
      exact (Function.update_self k id p.klassId).symm
    have h32 : invalidKlassId.toNat = 2 ^ 32 - 1 := rfl
    rw [hid', h32] at hid
    omega
  keeps := by
    intro k' hk'
    have hne : k' ≠ k := fun heq => hk' (heq ▸ hk)
    exact Function.update_of_ne hne _ _
  other := by
    intro k' hk'
    exact Function.update_of_ne (by simpa using hk') _ _
  faulted := rfl
  entry := by
    intro k' h
    by_cases heq : k' = k
    · exact heq ▸ append_entry_self r hid
    · exact append_entry hr heq h
  new := fun _ k' hk' _ => List.mem_singleton.mp hk' ▸ append_entry_self r hid

theorem registerEventKlass_of_invalid (hr : p.registry = some r)
    (hk : p.klassId k = invalidKlassId) :
    p.registerEventKlass k true = p.append r k (UInt32.ofNat r.klasses.length) := by
  rw [registerEventKlass, if_pos hk, hr]
  simp [append]

theorem registerEventKlass_of_none (hr : p.registry = none) (hk : p.klassId k = invalidKlassId)
    (ok : Bool) : p.registerEventKlass k ok = { p with faulted := true } := by
  rw [registerEventKlass, if_pos hk, hr]

theorem registerEventKlass_of_known (hk : p.klassId k ≠ invalidKlassId) (ok : Bool) :
    p.registerEventKlass k ok = p := by
  rw [registerEventKlass, if_neg hk]

/-- **Registering one klass.** -/
theorem extends_registerEventKlass (hr : p.registry = some r) (hlen : r.klasses.length + 1 < 2 ^ 32)
    (k : KlassObject U) : Extends p (p.registerEventKlass k true) [k] := by
  by_cases hk : p.klassId k = invalidKlassId
  · rw [registerEventKlass_of_invalid hr hk]
    exact extends_append hr hk (UInt32.toNat_ofNat_of_lt' (lt_trans (Nat.lt_succ_self _) hlen)) hlen
  · rw [registerEventKlass_of_known hk]
    refine ⟨⟨r, r, hr, hr, Nat.le_succ _, fun _ hk => .inl hk⟩, ?_, fun _ _ => rfl, fun _ _ => rfl,
      rfl, fun _ h => h, ?_⟩
    · simpa using hk
    · intro _ k' hk' hid'
      rw [List.mem_singleton.mp hk'] at hid'
      exact absurd hid' hk

theorem extends_registerAll (hr : p.registry = some r) (hok : ∀ k, ok k = true)
    (hlen : r.klasses.length + ks.length < 2 ^ 32) : Extends p (p.registerAll ok ks) ks := by
  induction ks generalizing p r with
  | nil => exact extends_nil hr
  | cons k ks ih =>
    rw [List.length_cons] at hlen
    have hstep := extends_registerEventKlass hr (by omega) k
    obtain ⟨r₀, r', hr₀, hr', hlen', -⟩ := hstep.registry
    obtain rfl : r = r₀ := Option.some.inj (hr.symm.trans hr₀)
    rw [List.length_singleton] at hlen'
    rw [registerAll, List.foldl_cons, hok]
    exact hstep.cons (ih hr' (by omega))

/-! ### One call -/

theorem registry_init (memory : Bool) (ok : KlassObject U → Bool) : (p.init memory ok).registry =
    ((p.registryInit memory).registerAll ok (coreObjects U)).registry := by
  simp only [init]

theorem klassId_init (memory : Bool) (ok : KlassObject U → Bool) : (p.init memory ok).klassId =
    ((p.registryInit memory).registerAll ok (coreObjects U)).klassId := by
  simp only [init]

theorem faulted_init (memory : Bool) (ok : KlassObject U → Bool) : (p.init memory ok).faulted =
    ((p.registryInit memory).registerAll ok (coreObjects U)).faulted := by
  simp only [init]

theorem called_init (memory : Bool) (ok : KlassObject U → Bool) : (p.init memory ok).called =
    if p.initCounter = 0 then coreObjects U else p.called ++ coreObjects U := by
  simp only [init]

theorem entry_init (memory : Bool) (ok : KlassObject U → Bool) :
    (p.init memory ok).Entry k ↔
      ((p.registryInit memory).registerAll ok (coreObjects U)).Entry k := by
  rw [Entry, Entry, registry_init, klassId_init]

theorem mem_called_init {memory : Bool} (hk : k ∈ coreObjects U) :
    k ∈ (p.init memory ok).called := by
  rw [called_init]
  split
  · exact hk
  · exact List.mem_append_right _ hk

/-- The registrations of `ht_init`, starting from a new registry. -/
theorem extends_init (p : Process U) (hok : ∀ k, ok k = true) :
    Extends (p.registryInit true) ((p.registryInit true).registerAll ok (coreObjects U))
      (coreObjects U) := by
  have hlen : (coreObjects U).length = 9 := rfl
  refine extends_registerAll (r := ⟨[], []⟩) rfl hok ?_
  rw [hlen, List.length_nil]
  decide

theorem mem_core_of_mem_init (hok : ∀ k, ok k = true) :
    ∃ r, (p.init true ok).registry = some r ∧
      ∀ k ∈ r.klasses, k ∈ coreObjects U ∧ p.klassId k = invalidKlassId := by
  obtain ⟨r, r', hr, hr', -, hmem⟩ := (extends_init p hok).registry
  refine ⟨r', by rw [registry_init, hr'], ?_⟩
  intro k hk
  rcases hmem k hk with hk | hk
  · have hnil : r = ⟨[], []⟩ := (Option.some.inj hr).symm
    rw [hnil] at hk
    cases hk
  · exact hk

theorem settled_init (p : Process U) (hok : ∀ k, ok k = true) : Settled (p.init true ok) := by
  obtain ⟨r, hr, hmem⟩ := mem_core_of_mem_init (p := p) hok
  refine ⟨nofun, fun _ => ⟨r, hr, fun k hk => mem_called_init (hmem k hk).1⟩, fun _ => ?_⟩
  rw [klassId_init]
  exact (extends_init p hok).known

theorem initCounter_registerEventKlass (p : Process U) (k : KlassObject U) (ok : Bool) :
    (p.registerEventKlass k ok).initCounter = p.initCounter := by
  rw [registerEventKlass]
  split
  · rcases p.registry with _ | r
    · rfl
    · rcases ok with _ | _ <;> rfl
  · rfl

theorem Settled.registerEventKlass (h : Settled p)
    (hlen : ∀ r, p.registry = some r → r.klasses.length + 1 < 2 ^ 32) (k : KlassObject U) :
    Settled (p.step (.registerEventKlass k true)) := by
  have hcounter := initCounter_registerEventKlass p k true
  have hext : 0 < p.initCounter → Extends p (p.registerEventKlass k true) [k] := by
    intro hpos
    obtain ⟨r, hr, -⟩ := h.registry hpos
    exact extends_registerEventKlass hr (hlen r hr) k
  refine ⟨fun hzero => ?_, ?_, ?_⟩
  · -- without a registry there is none afterwards
    have hr := h.uninitialized (hcounter.symm.trans hzero)
    change (p.registerEventKlass k true).registry = none
    by_cases hk : p.klassId k = invalidKlassId
    · rw [registerEventKlass_of_none hr hk]
      exact hr
    · rwa [registerEventKlass_of_known hk]
  · intro hpos
    have hpos' : 0 < p.initCounter := hcounter ▸ hpos
    obtain ⟨r, r', hr, hr', -, hmem⟩ := (hext hpos').registry
    obtain ⟨r₀, hr₀, hcalled⟩ := h.registry hpos'
    obtain rfl : r = r₀ := Option.some.inj (hr.symm.trans hr₀)
    refine ⟨r', hr', fun k' hk' => ?_⟩
    rcases hmem k' hk' with hk' | ⟨hk', -⟩
    · exact List.mem_append_left _ (hcalled k' hk')
    · exact List.mem_append_right _ hk'
  · intro hpos k' hk'
    have hpos' : 0 < p.initCounter := hcounter ▸ hpos
    have hknown := h.core hpos' k' hk'
    exact ((hext hpos').keeps k' hknown).symm ▸ hknown

theorem Settled.step (h : Settled p) {c : Call U} (hc : p.Supplied c) : Settled (p.step c) := by
  rcases c with ⟨memory, ok⟩ | _ | ⟨k, ok⟩ | ⟨id, ok⟩
  · obtain ⟨rfl, hok⟩ := hc
    exact settled_init p hok
  · exact h.deinit
  · obtain ⟨rfl, hlen⟩ := hc
    exact h.registerEventKlass hlen k
  · -- listener containers have a map of their own
    rw [Process.step]
    rcases Nat.eq_zero_or_pos p.initCounter with hzero | hpos
    · rw [registerListenerContainer_of_none (h.uninitialized hzero)]
      exact { h with }
    · obtain ⟨r, hr, hcalled⟩ := h.registry hpos
      rcases registerListenerContainer_cases hr id ok with heq | heq
      · rw [heq]
        exact h
      · rw [heq]
        exact ⟨fun hzero => absurd hzero hpos.ne', fun _ => ⟨_, rfl, hcalled⟩, h.core⟩

/-- **`ht_init` makes valid identifiers exactly if the core klasses have none before.** -/
theorem idsValid_init_iff (h : Settled p) (hp : p.faulted = false) (hok : ∀ k, ok k = true) :
    IdsValid (p.init true ok) ↔ ∀ k ∈ coreObjects U, p.klassId k = invalidKlassId := by
  rw [idsValid_iff]
  constructor
  · rintro ⟨-, hvalid⟩ k hk
    obtain ⟨r, hr, hkr⟩ := hvalid (Nat.succ_pos _) k (mem_called_init hk)
    obtain ⟨r', hr', hmem⟩ := mem_core_of_mem_init (p := p) hok
    obtain rfl : r = r' := Option.some.inj (hr.symm.trans hr')
    exact (hmem k (List.mem_of_getElem? hkr)).2
  · have hfaulted : (p.init true ok).faulted = p.faulted :=
      (faulted_init true ok).trans (extends_init p hok).faulted
    refine fun hfresh => ⟨hfaulted.trans hp, fun _ k hk => ?_⟩
    have hzero : p.initCounter = 0 := by
      by_contra hne
      have hmem : (.inl .event : KlassObject U) ∈ coreObjects U := .tail _ (.head _)
      exact h.core (Nat.pos_of_ne_zero hne) _ hmem (hfresh _ hmem)
    rw [called_init, if_pos hzero] at hk
    exact (entry_init true ok).mpr
      ((extends_init p hok).new (nodup_coreObjects U) k hk (hfresh k hk))

/-- While there is no registry, a klass without an identifier cannot be registered. -/
theorem idsValid_registerEventKlass_of_none (hzero : p.initCounter = 0) (hr : p.registry = none)
    (hvalid : IdsValid p) (k : KlassObject U) :
    IdsValid (p.step (.registerEventKlass k true)) ↔ p.klassId k ≠ invalidKlassId := by
  by_cases hk : p.klassId k = invalidKlassId
  · refine iff_of_false (fun hvalid' => ?_) fun hne => hne hk
    have hfault : (p.registerEventKlass k true).faulted = false := hvalid'.1
    rw [registerEventKlass_of_none hr hk] at hfault
    cases hfault
  · refine iff_of_true ?_ hk
    rw [step, registerEventKlass_of_known hk]
    refine ⟨hvalid.1, fun hpos => ?_⟩
    exact absurd hzero (Nat.ne_of_gt hpos)

/-- **Registering a klass keeps identifiers valid exactly if it has none or has got it
since.** -/
theorem idsValid_registerEventKlass_iff (h : Settled p)
    (hlen : ∀ r, p.registry = some r → r.klasses.length + 1 < 2 ^ 32) (hvalid : IdsValid p)
    (k : KlassObject U) :
    IdsValid (p.step (.registerEventKlass k true)) ↔
      (p.klassId k = invalidKlassId → 0 < p.initCounter) ∧
        (0 < p.initCounter → p.klassId k = invalidKlassId ∨ k ∈ p.called) := by
  rcases Nat.eq_zero_or_pos p.initCounter with hzero | hpos
  · rw [idsValid_registerEventKlass_of_none hzero (h.uninitialized hzero) hvalid, hzero]
    simp
  have hcounter := initCounter_registerEventKlass p k true
  obtain ⟨r, hr, hcalled⟩ := h.registry hpos
  have hext := extends_registerEventKlass hr (hlen r hr) k
  rw [idsValid_iff] at hvalid ⊢
  constructor
  · rintro ⟨-, hvalid'⟩
    refine ⟨fun _ => hpos, fun _ => ?_⟩
    -- a klass with an identifier from an earlier life is not entered again
    by_contra! hnot
    obtain ⟨r', hr', hkr'⟩ := hvalid' (hcounter.symm ▸ hpos) k
      (List.mem_append_right _ (List.mem_singleton_self k))
    change (p.registerEventKlass k true).registry = _ at hr'
    change r'.klasses[((p.registerEventKlass k true).klassId k).toNat]? = _ at hkr'
    rw [registerEventKlass_of_known hnot.1] at hr' hkr'
    obtain rfl : r = r' := Option.some.inj (hr.symm.trans hr')
    exact hnot.2 (hcalled k (List.mem_of_getElem? hkr'))
  · rintro ⟨-, hfresh⟩
    refine ⟨hext.faulted.trans hvalid.1, fun _ k' hk' => ?_⟩
    have hentry : (p.registerEventKlass k true).Entry k' := by
      rcases List.mem_append.mp hk' with hk' | hk'
      · exact hext.entry k' (hvalid.2 hpos k' hk')
      · rw [List.mem_singleton.mp hk']
        rcases hfresh hpos with hid | hmem
        · exact hext.new (List.nodup_singleton k) k (List.mem_singleton_self k) hid
        · exact hext.entry k (hvalid.2 hpos k hmem)
    exact hentry

/-- A container is registered with the registry of an initialized library. -/
theorem idsValid_registerListenerContainer_iff (h : Settled p) (hvalid : IdsValid p) (id : UInt32)
    (ok : Bool) : IdsValid (p.step (.registerListenerContainer id ok)) ↔ 0 < p.initCounter := by
  rw [step]
  rcases Nat.eq_zero_or_pos p.initCounter with hzero | hpos
  · rw [registerListenerContainer_of_none (h.uninitialized hzero)]
    exact iff_of_false (fun hvalid' => nomatch hvalid'.1) (by omega)
  · refine iff_of_true ?_ hpos
    obtain ⟨r, hr, -⟩ := h.registry hpos
    rcases registerListenerContainer_cases hr id ok with heq | heq
    · rw [heq]
      exact hvalid
    · rw [heq]
      rw [idsValid_iff] at hvalid ⊢
      refine ⟨hvalid.1, fun _ k hk => ?_⟩
      obtain ⟨r', hr', hkr'⟩ := hvalid.2 hpos k hk
      obtain rfl : r = r' := Option.some.inj (hr.symm.trans hr')
      exact ⟨_, rfl, hkr'⟩

/-- **One call keeps identifiers valid exactly if it is one of the fresh ones.** -/
theorem idsValid_step_iff (h : Settled p) {c : Call U} (hc : p.Supplied c) (hvalid : IdsValid p) :
    IdsValid (p.step c) ↔ p.Fresh c := by
  rcases c with ⟨memory, ok⟩ | _ | ⟨k, ok⟩ | ⟨id, ok⟩
  · obtain ⟨rfl, hok⟩ := hc
    exact idsValid_init_iff h hvalid.1 hok
  · rw [idsValid_iff] at hvalid
    refine iff_of_true (idsValid_iff.mpr ?_) trivial
    rw [step, deinit]
    split
    · refine ⟨hvalid.1, fun hpos k hk => ?_⟩
      dsimp only at hpos
      obtain ⟨r, hr, hkr⟩ := hvalid.2 (by omega) k hk
      exact ⟨r, (if_neg (by omega)).trans hr, hkr⟩
    · exact hvalid
  · obtain ⟨rfl, hlen⟩ := hc
    exact idsValid_registerEventKlass_iff h hlen hvalid k
  · exact idsValid_registerListenerContainer_iff h hvalid id ok

/-- A fresh call of `ht_init` is not made while initialized. -/
theorem initKeeps_of_fresh (h : Settled p) {c : Call U} (hc : p.Fresh c) : p.InitKeeps c := by
  rintro memory ok rfl hpos
  have hmem : (.inl .event : KlassObject U) ∈ coreObjects U := .tail _ (.head _)
  exact absurd (hc _ hmem) (h.core hpos _ hmem)

/-- **When klass identifiers stay valid.** As long as the allocator answers and there are
fewer klasses than identifiers, identifiers are valid in every state of a run and `ht_init`
has no effect on an initialized library, exactly if every call is fresh: `ht_init` is called
before any core klass has got an identifier – once in the life of the process –, klasses are
registered in an initialized library that have none, or have got theirs since, and only klasses
that have one are in a library that is not initialized. -/
theorem ids_valid_iff {calls : List (Call U)} (hcalls : StepsMeet step Supplied start calls) :
    (Throughout step IdsValid start calls ∧ StepsMeet step InitKeeps start calls) ↔
      StepsMeet step (Fresh (U := U)) start calls := by
  have hstep : ∀ (p : Process U) c, Settled p → p.Supplied c → Settled (p.step c) :=
    fun p c h hc => h.step hc
  have hiff : Throughout step IdsValid start calls ↔ StepsMeet step (Fresh (U := U)) start calls :=
    throughout_iff_of_step hstep (fun p c h hc hvalid => idsValid_step_iff h hc hvalid)
      settled_start ⟨rfl, fun h => absurd h (lt_irrefl 0)⟩ hcalls
  constructor
  · rintro ⟨hvalid, -⟩
    exact hiff.mp hvalid
  · intro hfresh
    exact ⟨hiff.mpr hfresh, StepsMeet.imp hstep (fun p c h hc => initKeeps_of_fresh h hc)
      settled_start hcalls hfresh⟩

/-- One life of the library, with a klass of the user. -/
def oneLife : List (Call Unit) :=
  [.init true fun _ => true, .registerEventKlass (.inr ()) true, .deinit]

theorem ids_valid_oneLife :
    StepsMeet step Supplied start oneLife ∧
      ((Throughout step IdsValid start oneLife ∧ StepsMeet step InitKeeps start oneLife) ↔
        StepsMeet step Fresh start oneLife) := by
  have hsupplied : StepsMeet step Supplied start oneLife := by
    refine ⟨⟨rfl, fun _ => rfl⟩, ⟨rfl, fun r hr => ?_⟩, trivial, trivial⟩
    have hklasses : ((start : Process Unit).step (.init true fun _ => true)).registry.map
        Registries.klasses = some (coreObjects Unit) := by decide
    rw [hr] at hklasses
    rw [Option.some.inj hklasses]
    decide
  exact ⟨hsupplied, ids_valid_iff hsupplied⟩

/-- **The second `ht_init` empties the registry**: the core klasses keep the identifiers they
had in the first one and are not registered again, whether the library was uninitialized
in between or not. -/
theorem second_init_loses_klasses :
    (∀ calls ∈ [[Call.init true fun _ => true, .init true fun _ => true],
        [.init true fun _ => true, .deinit, .init true fun _ => true]],
      ¬ IdsValid (runFrom step (start : Process Unit) calls)) ∧
    ¬ InitKeeps (runFrom step (start : Process Unit) [.init true fun _ => true])
      (.init true fun _ => true) := by
  constructor
  · simp only [List.mem_cons, List.not_mem_nil, or_false, forall_eq_or_imp, forall_eq]
    constructor
    · exact not_idsValid_of_empty (by decide) (mem_called_init (List.mem_cons_self)) (by decide)
    · exact not_idsValid_of_empty (by decide) (mem_called_init (List.mem_cons_self)) (by decide)
  · intro h
    have hkeeps := congrArg (Option.map Registries.klasses) (h _ _ rfl (by decide))
    revert hkeeps
    decide

end Process

end HawkTracer.Lib
