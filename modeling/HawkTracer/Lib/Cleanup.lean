import HawkTracer.Lib.Constructors

/-!
# Constructors clean up

Timelines share listener containers, which are counted and kept in a register, and features are
attached to timelines. So the constructors that deal with these work on more than a ledger
(`HawkTracer.Lib.World`): they take and drop references as well.

A call is clean (`HawkTracer.Lib.Clean`) if it returns nothing exactly when it reports an error,
and then has released what it acquired and left the containers counted as before. Task schedulers,
file dump listeners and features are always clean. A timeline is not in two cases: its first
request is refused, which is reported as `HT_ERR_OK`, or a container was made and registered for
its name before its mutex is refused, since dropping one reference leaves the container in the
register. `HawkTracer.Lib.clean_iff` says that there are no others.
-/

namespace HawkTracer.Lib

open Prog Ledger

/-- `HT_TimelineListenerContainer`, known by the number of its block. -/
structure Container where
  entries : Option Res
  mutex : Res
  id : UInt32
  refcount : UInt32

/-- What the constructors work on. -/
structure World (τ : Type) where
  ledger : Ledger ResourceKind
  container : ℕ → Container
  /-- `listeners_register`. -/
  register : List ℕ
  registerCapacity : ℕ
  features : Features FeatureKlass Feature τ

namespace World

variable {τ : Type}

/-- A program that only acquires and releases. -/
def onLedger {α : Type} (m : Alloc α) : Prog (World τ) α := fun answers w =>
  ((m answers w.ledger).1, { w with ledger := (m answers w.ledger).2 })

/-! ### Listener containers -/

/-- The resources `ht_timeline_listener_container_create` acquires: the block, the entries and the
mutex. -/
def containerBlocks : Alloc (Option (Res × Option Res × Res)) := do
  match ← acquire .block with
  | none => pure none
  | some block =>
    let (entries, err) ← bagInit
    if err ≠ .ok then
      release block
      pure none
    else
      match ← acquire .mutex with
      | none =>
        free entries
        release block
        pure none
      | some mutex => pure (some (block, entries, mutex))

/-- The fields of a container are set. -/
def setContainer (c : ℕ) (container : Container) : Prog (World τ) Unit := fun _ w =>
  ((), { w with container := Function.update w.container c container })

/-- `ht_timeline_listener_container_create`. -/
def containerCreate : Prog (World τ) (Option ℕ) := do
  match ← onLedger containerBlocks with
  | none => pure none
  | some (block, entries, mutex) =>
    setContainer block.2 ⟨entries, mutex, 0, 1⟩
    pure (some block.2)

/-- `ht_timeline_listener_container_ref`. -/
def containerRef (c : ℕ) : Prog (World τ) Unit := fun answers w =>
  setContainer c { w.container c with refcount := (w.container c).refcount + 1 } answers w

/-- The end of a container. A container that a constructor destroys has no listeners. -/
def containerDestroy (c : ℕ) (container : Container) : Alloc Unit := do
  -- `ht_bag_listener_clear`, which may be refused
  let _ ← ask
  free container.entries
  release container.mutex
  release (.block, c)

/-- `ht_timeline_listener_container_unref`. -/
def containerUnref (c : ℕ) : Prog (World τ) Unit := fun answers w =>
  let container := { w.container c with refcount := (w.container c).refcount - 1 }
  let w := (setContainer c container answers w).2
  if container.refcount = 0 then onLedger (containerDestroy c container) answers w else ((), w)

section Names

variable (charSigned : Bool)

/-- `ht_registry_find_listener_container`. -/
def findListenerContainer (w : World τ) (name : CString) : Option ℕ :=
  w.register.find? fun c => (w.container c).id = djb2Hash charSigned name

/-- `ht_bag_void_ptr_add` to the register. -/
def registerAdd (c : ℕ) : Prog (World τ) ErrorCode := fun answers w =>
  if w.registerCapacity = w.register.length then
    let (ok, w) := onLedger ask answers w
    if ok then
      (.ok, { w with registerCapacity := w.registerCapacity * 2, register := w.register ++ [c] })
    else (.outOfMemory, w)
  else (.ok, { w with register := w.register ++ [c] })

/-- The register is searched. -/
def find (name : CString) : Prog (World τ) (Option ℕ) := fun _ w =>
  (w.findListenerContainer charSigned name, w)

/-- `ht_timeline_listener_container_set_id`. -/
def containerSetId (c : ℕ) (id : UInt32) : Prog (World τ) Unit := fun answers w =>
  setContainer c { w.container c with id := id } answers w

/-- `ht_registry_register_listener_container`. The reference is taken before the container is
added, and kept if that fails. -/
def registerListenerContainer (name : CString) (c : ℕ) : Prog (World τ) ErrorCode := do
  match ← find charSigned name with
  | some _ => pure .listenerContainerAlreadyRegistered
  | none =>
    containerSetId c (djb2Hash charSigned name)
    containerRef c
    registerAdd c

/-- `ht_find_or_create_listener`. The error of the registration is ignored. -/
def findOrCreateListener : Option CString → Prog (World τ) (Option ℕ)
  | none => containerCreate
  | some name => do
    match ← find charSigned name with
    | none =>
      match ← containerCreate with
      | none => pure none
      | some c =>
        let _ ← registerListenerContainer charSigned name c
        pure (some c)
    | some c =>
      containerRef c
      pure (some c)

/-! ### Timelines -/

/-- `HT_Timeline`: what it owns. -/
structure TimelineBlocks where
  block : Res
  buffer : Res
  listeners : ℕ
  lockingPolicy : Option Res

/-- The part of `ht_timeline_create` that makes the mutex. -/
def timelineLock (block buffer : Res) (threadSafe : Bool) (listeners : ℕ) :
    Prog (World τ) (Option TimelineBlocks × ErrorCode) := do
  if threadSafe then
    match ← onLedger (acquire .mutex) with
    | none =>
      containerUnref listeners
      onLedger (release buffer)
      onLedger (release block)
      pure (none, .outOfMemory)
    | some lock => pure (some ⟨block, buffer, listeners, some lock⟩, .ok)
  else pure (some ⟨block, buffer, listeners, none⟩, .ok)

/-- The part of `ht_timeline_create` that looks for the listeners. -/
def timelineListeners (block buffer : Res) (threadSafe : Bool) (listeners : Option CString) :
    Prog (World τ) (Option TimelineBlocks × ErrorCode) := do
  match ← findOrCreateListener charSigned listeners with
  | none =>
    onLedger (release buffer)
    onLedger (release block)
    pure (none, .cantCreateListenerContainer)
  | some c => timelineLock block buffer threadSafe c

/-- `ht_timeline_create`. -/
def timelineCreate (threadSafe : Bool) (listeners : Option CString) :
    Prog (World τ) (Option TimelineBlocks × ErrorCode) := do
  match ← onLedger (acquire .block) with
  -- `goto done`, with `HT_ERR_OK`
  | none => pure (none, .ok)
  | some block =>
    match ← onLedger (acquire .block) with
    | none =>
      onLedger (release block)
      pure (none, .outOfMemory)
    | some buffer => timelineListeners charSigned block buffer threadSafe listeners

end Names

/-! ### Features -/

/-- The code of an answer of `ht_timeline_set_feature`. -/
def errorCode : FeatureError → ErrorCode
  | .ok => .ok
  | .featureNotRegistered => .featureNotRegistered
  | .featureAlreadyRegistered => .featureAlreadyRegistered
  | .maxFeatureCountReached => .maxFeatureCountReached

variable [DecidableEq τ]

/-- `ht_timeline_set_feature`. -/
def setFeature (t : τ) (f : Feature) : Prog (World τ) ErrorCode := fun answers w =>
  let r := w.features.setFeature Feature.klass t f
  let w := { w with features := r.2 }
  if r.1 = .ok then (.ok, w) else (errorCode r.1, (onLedger f.destroy answers w).2)

/-- `ht_feature_cached_string_enable` and `ht_feature_callstack_enable`, which differ in the
constructor they call. -/
def enable (create : Alloc (Option Feature × ErrorCode)) (t : τ) : Prog (World τ) ErrorCode := do
  let (feature, err) ← onLedger create
  match feature with
  | none => pure err
  | some f => setFeature t f

/-- `ht_feature_cached_string_enable`. -/
def featureCachedStringEnable (t : τ) (threadSafe : Bool) : Prog (World τ) ErrorCode :=
  enable (featureCachedStringCreate threadSafe) t

/-- `ht_feature_callstack_enable`. -/
def featureCallstackEnable (t : τ) : Prog (World τ) ErrorCode := enable featureCallstackCreate t

end World

/-! ### Calls -/

open World

/-- A call of one of the constructors. The capacity of a timeline and the name of a file make no
difference but in the answers. -/
inductive Constructor (τ : Type) where
  | timelineCreate (threadSafe : Bool) (listeners : Option CString)
  | taskSchedulerCreate
  | featureCachedStringEnable (timeline : τ) (threadSafe : Bool)
  | featureCallstackEnable (timeline : τ)
  | fileDumpListenerCreate (bufferSize : ℕ)

/-- What comes of a call. -/
structure Outcome (τ : Type) where
  /-- `NULL` was returned, or nothing has been attached. -/
  nothing : Bool
  error : ErrorCode
  world : World τ

variable {τ : Type} (charSigned : Bool)

/-- The outcome of a constructor that returns a pointer. -/
def Outcome.ofPointer {α : Type} (r : (Option α × ErrorCode) × World τ) : Outcome τ :=
  ⟨r.1.1.isNone, r.1.2, r.2⟩

/-- The outcome of a function that attaches a feature. -/
def Outcome.ofFeature (t : τ) (w : World τ) (r : ErrorCode × World τ) : Outcome τ :=
  ⟨decide (r.2.features.features t = w.features.features t), r.1, r.2⟩

/-- The call, with the answers to its requests. -/
def Constructor.call [DecidableEq τ] (answers : ℕ → Bool) (w : World τ) : Constructor τ → Outcome τ
  | .timelineCreate threadSafe listeners =>
    .ofPointer (World.timelineCreate charSigned threadSafe listeners answers w)
  | .taskSchedulerCreate => .ofPointer (onLedger Lib.taskSchedulerCreate answers w)
  | .featureCachedStringEnable t threadSafe =>
    .ofFeature t w (World.featureCachedStringEnable t threadSafe answers w)
  | .featureCallstackEnable t => .ofFeature t w (World.featureCallstackEnable t answers w)
  | .fileDumpListenerCreate bufferSize =>
    .ofPointer (onLedger (Lib.fileDumpListenerCreate bufferSize) answers w)

/-- **The call reports its failure and cleans up**: a failure leaves nothing behind of what the
call has acquired, and the containers that were there are counted as before. -/
structure Clean (w : World τ) (o : Outcome τ) : Prop where
  reported : o.nothing = true ↔ o.error ≠ .ok
  released : o.nothing = true ∨ o.error ≠ .ok → w.ledger.Settled o.world.ledger
  references : o.nothing = true ∨ o.error ≠ .ok → ∀ c < w.ledger.requests,
    (o.world.container c).refcount = (w.container c).refcount

/-- **A state of the library**: the registered containers were made by earlier requests and have
not been destroyed, and every timeline has its slots for features. -/
structure World.Valid (w : World τ) : Prop where
  made : ∀ c ∈ w.register, c < w.ledger.requests
  live : ∀ c ∈ w.register, (w.container c).refcount ≠ 0
  slots : ∀ t, (w.features.features t).length = timelineMaxFeatures

/-! ### What is kept -/

namespace World

/-- **From one state to another** the books balance, and the containers that were there are counted
as before. -/
structure Keeps (w w' : World τ) (X Y : List Res) : Prop where
  balance : Balance w.ledger w'.ledger X Y
  references : ∀ c < w.ledger.requests, (w'.container c).refcount = (w.container c).refcount

variable {w w' w'' : World τ} {X Y Z : List Res} {answers : ℕ → Bool}

theorem Keeps.trans (h : Keeps w w' X Y) (h' : Keeps w' w'' Y Z) : Keeps w w'' X Z where
  balance := h.balance.trans h'.balance
  references c hc := (h'.references c (Nat.lt_of_lt_of_le hc h.balance.requests_le)).trans
    (h.references c hc)

theorem Keeps.frame (h : Keeps w w' X Y) (F : List Res) : Keeps w w' (X ++ F) (Y ++ F) :=
  ⟨h.balance.frame F, h.references⟩

/-- A program on the ledger does not touch the containers. -/
theorem keeps_onLedger {α : Type} {m : Alloc α} {R : α → Prop} {Y : α → List Res}
    (h : Owns m X R Y) (answers : ℕ → Bool) (w : World τ) :
    Keeps w (onLedger m answers w).2 X (Y (onLedger m answers w).1) :=
  ⟨(h answers w.ledger).2, fun _ _ => rfl⟩

/-- The two blocks of a timeline are given back. -/
theorem keeps_release_two (r r' : Res) (answers : ℕ → Bool) (w : World τ) :
    Keeps w ((onLedger (release r') answers (onLedger (release r) answers w).2).2) [r, r'] [] :=
  ((keeps_onLedger (Owns.release r) answers w).frame [r']).trans
    (keeps_onLedger (Owns.release r') answers _)

/-! ### Containers -/

/-- The resources of the container whose block comes from the given request. -/
def containerResources (n : ℕ) : List Res := [(.mutex, n + 2), (.block, n + 1), (.block, n)]

/-- The container whose block comes from the given request. -/
def newContainer (n : ℕ) : Container := ⟨some (.block, n + 1), (.mutex, n + 2), 0, 1⟩

theorem owns_containerBlocks : Owns containerBlocks [] (fun _ => True)
    (fun o => o.elim [] fun c => c.2.2 :: (c.2.1.toList ++ [c.1])) := by
  refine Owns.acquire_bind (Owns.ret trivial (List.Perm.refl _)) fun block => ?_
  refine constructs_bagInit.bind (fun e he => owns_if_failed he ?_) fun entries => owns_if_ok ?_
  · exact Owns.release_bind (Owns.ret trivial (List.Perm.refl _))
  · refine Owns.acquire_bind ?_ fun mutex => Owns.ret trivial (List.Perm.refl _)
    exact owns_free (some entries) (Owns.release_bind (Owns.ret trivial (List.Perm.refl _)))

/-- All three requests of a new container are granted. -/
def Granted (answers : ℕ → Bool) (n : ℕ) : Prop :=
  answers n = true ∧ answers (n + 1) = true ∧ answers (n + 2) = true

variable {s : Ledger ResourceKind}

theorem containerBlocks_of_granted (h : Granted answers s.requests) :
    (containerBlocks answers s).1 =
        some ((.block, s.requests), some (.block, s.requests + 1), (.mutex, s.requests + 2)) ∧
      (containerBlocks answers s).2.requests = s.requests + 3 := by
  obtain ⟨h0, h1, h2⟩ := h
  simp [containerBlocks, bagInit, acquire, h0, h1, h2]

theorem containerBlocks_of_not_granted (h : ¬ Granted answers s.requests) :
    (containerBlocks answers s).1 = none := by
  by_cases h0 : answers s.requests = true
  · by_cases h1 : answers (s.requests + 1) = true
    · have h2 : answers (s.requests + 2) = false := by
        by_contra h2
        exact h ⟨h0, h1, by simpa using h2⟩
      simp [containerBlocks, bagInit, acquire, free, releaseAll, release, h0, h1, h2]
    · simp [containerBlocks, bagInit, acquire, release, h0, h1]
  · simp [containerBlocks, acquire, h0]

theorem containerCreate_of_not_granted (h : ¬ Granted answers w.ledger.requests) :
    containerCreate answers w = (none, (onLedger containerBlocks answers w).2) := by
  have hnone : (onLedger containerBlocks answers w).1 = none := containerBlocks_of_not_granted h
  rw [containerCreate, bind_run, hnone]
  rfl

/-- The state after a new container. -/
def withContainer (answers : ℕ → Bool) (w : World τ) : World τ :=
  { w with
    ledger := (containerBlocks answers w.ledger).2
    container := Function.update w.container w.ledger.requests (newContainer w.ledger.requests) }

theorem containerCreate_of_granted (h : Granted answers w.ledger.requests) :
    containerCreate answers w = (some w.ledger.requests, w.withContainer answers) := by
  have hsome : (onLedger containerBlocks answers w).1 = _ := (containerBlocks_of_granted h).1
  rw [containerCreate, bind_run, hsome]
  rfl

theorem container_withContainer (answers : ℕ → Bool) (w : World τ) :
    (w.withContainer answers).container w.ledger.requests = newContainer w.ledger.requests :=
  Function.update_self ..

theorem keeps_not_granted (h : ¬ Granted answers w.ledger.requests) :
    Keeps w (onLedger containerBlocks answers w).2 [] [] := by
  have hkeeps := keeps_onLedger owns_containerBlocks answers w
  have hnone : (onLedger containerBlocks answers w).1 = none := containerBlocks_of_not_granted h
  rwa [hnone] at hkeeps

/-- **A new container** owns its three resources. -/
theorem keeps_withContainer (h : Granted answers w.ledger.requests) :
    Keeps w (w.withContainer answers) [] (containerResources w.ledger.requests) := by
  have hbalance := (owns_containerBlocks answers w.ledger).2
  rw [(containerBlocks_of_granted h).1] at hbalance
  exact ⟨hbalance, fun c hc => congrArg Container.refcount
    (Function.update_of_ne (Nat.ne_of_lt hc) ..)⟩

/-- Changes to a container that was not there before. -/
theorem Keeps.setContainer (h : Keeps w w' X Y) {c : ℕ} (hc : w.ledger.requests ≤ c)
    (container : Container) :
    Keeps w { w' with container := Function.update w'.container c container } X Y := by
  refine ⟨h.balance, fun c' hc' => (congrArg Container.refcount ?_).trans (h.references c' hc')⟩
  exact Function.update_of_ne (Nat.ne_of_lt (Nat.lt_of_lt_of_le hc' hc)) ..

/-! ### References -/

theorem containerUnref_of_shared {c : ℕ} (h : (w.container c).refcount - 1 ≠ 0) :
    containerUnref c answers w = ((), { w with
      container := Function.update w.container c
        { w.container c with refcount := (w.container c).refcount - 1 } }) := by
  rw [containerUnref]
  simp only [if_neg h]
  rfl

/-- The last reference to a container gives its resources back. -/
theorem owns_containerDestroy (c : ℕ) (container : Container) :
    Owns (containerDestroy c container)
      (container.mutex :: (container.entries.toList ++ [(.block, c)])) (fun _ => True)
      fun _ => [] := by
  have hask : Owns (ask : Alloc Bool) [] (fun _ => True) fun _ => [] := fun _ s =>
    ⟨trivial, balance_ask s⟩
  refine hask.call fun _ _ => ?_
  refine Owns.perm (owns_free container.entries (Owns.release_bind (Owns.release _))) ?_
  exact List.perm_middle.symm

/-- **A reference that is taken and dropped again** leaves the count as it was. -/
theorem containerUnref_of_ref {c : ℕ} (answers : ℕ → Bool) (h : (w.container c).refcount ≠ 0)
    (hw' : w'.container = (containerRef c answers w).2.container) :
    (containerUnref c answers w').2.ledger = w'.ledger ∧
      ∀ c', ((containerUnref c answers w').2.container c').refcount =
        (w.container c').refcount := by
  have hcount : (w'.container c).refcount - 1 = (w.container c).refcount := by
    rw [hw']
    simp [containerRef, World.setContainer]
  rw [containerUnref_of_shared (hcount ▸ h)]
  refine ⟨rfl, fun c' => ?_⟩
  by_cases hc : c' = c
  · subst hc
    simp [hcount]
  · simp [hw', containerRef, World.setContainer, Function.update_of_ne hc]

/-- **The last reference is dropped**: the resources are given back. -/
theorem containerUnref_of_last {c : ℕ} (answers : ℕ → Bool) (h : (w.container c).refcount = 1) :
    Balance w.ledger (containerUnref c answers w).2.ledger
        ((w.container c).mutex :: ((w.container c).entries.toList ++ [(.block, c)])) [] ∧
      ∀ c' ≠ c, (containerUnref c answers w).2.container c' = w.container c' := by
  have hzero : (w.container c).refcount - 1 = 0 := by
    rw [h]
    rfl
  rw [containerUnref]
  simp only [if_pos hzero]
  exact ⟨(owns_containerDestroy c _ answers w.ledger).2, fun c' hc => Function.update_of_ne hc ..⟩

/-! ### The register -/

theorem registerAdd_spec (c : ℕ) (answers : ℕ → Bool) (w : World τ) :
    Balance w.ledger (registerAdd c answers w).2.ledger [] [] ∧
      (registerAdd c answers w).2.ledger.requests =
        w.ledger.requests + (if w.registerCapacity = w.register.length then 1 else 0) ∧
      (registerAdd c answers w).2.container = w.container := by
  rw [registerAdd]
  split
  · have hask : Balance w.ledger (ask answers w.ledger).2 [] [] := balance_ask w.ledger
    rcases hok : (ask answers w.ledger).1 with _ | _
    · simp only [onLedger, hok, Bool.false_eq_true, if_false]
      exact ⟨hask, rfl, trivial⟩
    · simp only [onLedger, hok, if_true]
      exact ⟨hask, rfl, trivial⟩
  · exact ⟨Balance.refl _ _, rfl, rfl⟩

variable {charSigned : Bool} {name : CString}

/-- A new container is not found, whatever its name. -/
theorem findListenerContainer_withContainer (hmade : ∀ c ∈ w.register, c < w.ledger.requests) :
    (w.withContainer answers).findListenerContainer charSigned name =
      w.findListenerContainer charSigned name := by
  rw [findListenerContainer, findListenerContainer, ← List.head?_filter, ← List.head?_filter]
  refine congrArg List.head? (List.filter_congr fun c hc => ?_)
  have hupdate : (w.withContainer answers).container c = w.container c :=
    Function.update_of_ne (Nat.ne_of_lt (hmade c hc)) ..
  rw [hupdate]

/-- The state after a new container, registered under a name. -/
def withRegistered (charSigned : Bool) (answers : ℕ → Bool) (w : World τ) (name : CString) :
    World τ :=
  (registerListenerContainer charSigned name w.ledger.requests answers (w.withContainer answers)).2

/-- **A new container that is registered** has two references and its three resources. -/
theorem withRegistered_spec (hmade : ∀ c ∈ w.register, c < w.ledger.requests)
    (hfind : w.findListenerContainer charSigned name = none)
    (hgranted : Granted answers w.ledger.requests) :
    Keeps w (w.withRegistered charSigned answers name) [] (containerResources w.ledger.requests) ∧
      (w.withRegistered charSigned answers name).ledger.requests = w.ledger.requests + 3 +
        (if w.registerCapacity = w.register.length then 1 else 0) ∧
      ((w.withRegistered charSigned answers name).container w.ledger.requests).refcount = 2 := by
  have hnone : (find charSigned name answers (w.withContainer answers)).1 = none :=
    (findListenerContainer_withContainer hmade).trans hfind
  have hrun : w.withRegistered charSigned answers name = (registerAdd w.ledger.requests answers
      (containerRef w.ledger.requests answers (containerSetId w.ledger.requests
        (djb2Hash charSigned name) answers (w.withContainer answers)).2).2).2 := by
    rw [withRegistered, registerListenerContainer, bind_run, hnone]
    rfl
  rw [hrun]
  obtain ⟨hbalance, hrequests, hcontainer⟩ := registerAdd_spec w.ledger.requests answers
    (containerRef w.ledger.requests answers (containerSetId w.ledger.requests
      (djb2Hash charSigned name) answers (w.withContainer answers)).2).2
  have hcreated := keeps_withContainer hgranted
  have hthree : (w.withContainer answers).ledger.requests = w.ledger.requests + 3 :=
    (containerBlocks_of_granted hgranted).2
  refine ⟨⟨hcreated.balance.trans (hbalance.frame _), fun c hc => ?_⟩, ?_, ?_⟩
  · rw [hcontainer]
    simp only [containerRef, containerSetId, World.setContainer,
      Function.update_of_ne (Nat.ne_of_lt hc)]
    exact hcreated.references c hc
  · rw [← hthree]
    exact hrequests
  · rw [hcontainer]
    simp only [containerRef, containerSetId, World.setContainer, Function.update_self,
      container_withContainer, newContainer]
    decide

/-! ### Finding or creating -/

theorem findOrCreateListener_of_found {c : ℕ}
    (hfind : w.findListenerContainer charSigned name = some c) :
    findOrCreateListener charSigned (some name) answers w =
      (some c, (containerRef c answers w).2) := by
  have hsome : (find charSigned name answers w).1 = some c := hfind
  rw [findOrCreateListener, bind_run, hsome]
  rfl

theorem findOrCreateListener_of_registered (hfind : w.findListenerContainer charSigned name = none)
    (hgranted : Granted answers w.ledger.requests) :
    findOrCreateListener charSigned (some name) answers w =
      (some w.ledger.requests, w.withRegistered charSigned answers name) := by
  have hnone : find charSigned name answers w = (none, w) := Prod.ext hfind rfl
  simp only [findOrCreateListener, bind_run, hnone, containerCreate_of_granted hgranted, pure_run]
  rfl

theorem findOrCreateListener_of_refused {listeners : Option CString}
    (hfind : ∀ name, listeners = some name → w.findListenerContainer charSigned name = none)
    (hgranted : ¬ Granted answers w.ledger.requests) :
    findOrCreateListener charSigned listeners answers w =
      (none, (onLedger containerBlocks answers w).2) := by
  cases listeners with
  | none => exact containerCreate_of_not_granted hgranted
  | some name =>
    have hnone : find charSigned name answers w = (none, w) := Prod.ext (hfind name rfl) rfl
    simp only [findOrCreateListener, bind_run, hnone, containerCreate_of_not_granted hgranted,
      pure_run]

/-! ### Timelines -/

/-- A request that is granted. -/
theorem acquire_of_granted (h : answers s.requests = true) (k : ResourceKind) :
    acquire k answers s = (some (k, s.requests),
      { s with requests := s.requests + 1, acquired := s.acquired ++ [(k, s.requests)] }) := by
  rw [acquire, if_pos h]

theorem fst_acquire_of_refused (h : answers w.ledger.requests = false) (k : ResourceKind) :
    (onLedger (acquire k) answers w).1 = none := by
  rw [onLedger, acquire, if_neg (by rw [h]; exact Bool.false_ne_true)]

theorem fst_acquire_of_granted (h : answers w.ledger.requests = true) (k : ResourceKind) :
    (onLedger (acquire k) answers w).1 = some (k, w.ledger.requests) := by
  rw [onLedger, acquire_of_granted h]

theorem keeps_acquire (answers : ℕ → Bool) (w : World τ) (k : ResourceKind) :
    Keeps w (onLedger (acquire k) answers w).2 [] (onLedger (acquire k) answers w).1.toList :=
  ⟨balance_acquire k answers w.ledger, fun _ _ => rfl⟩

theorem keeps_of_refused (h : answers w.ledger.requests = false) (k : ResourceKind) :
    Keeps w (onLedger (acquire k) answers w).2 [] [] := by
  have hkeeps := keeps_acquire answers w k
  rwa [fst_acquire_of_refused h] at hkeeps

theorem keeps_of_granted (h : answers w.ledger.requests = true) (k : ResourceKind) :
    Keeps w (onLedger (acquire k) answers w).2 [] [(k, w.ledger.requests)] := by
  have hkeeps := keeps_acquire answers w k
  rwa [fst_acquire_of_granted h] at hkeeps

section Timelines

variable {block buffer : Res} {threadSafe : Bool} {c : ℕ}

/-- With its mutex, or without need of one, a timeline is made. -/
theorem timelineLock_of_made (h : threadSafe = true → answers w.ledger.requests = true) :
    ∃ t, (timelineLock block buffer threadSafe c answers w).1 = (some t, .ok) := by
  cases threadSafe with
  | false => exact ⟨_, rfl⟩
  | true =>
    refine ⟨⟨block, buffer, c, some (.mutex, w.ledger.requests)⟩, ?_⟩
    simp only [timelineLock, if_true, bind_run, fst_acquire_of_granted (h rfl), pure_run]

/-- **Without its mutex** the reference is dropped and the blocks are given back. -/
theorem timelineLock_of_refused (h : answers w.ledger.requests = false) {w₀ : World τ}
    {F : List Res}
    (hunref : Keeps w₀ (containerUnref c answers (onLedger (acquire .mutex) answers w).2).2 X
      ([buffer, block] ++ F)) :
    (timelineLock block buffer true c answers w).1 = (none, .outOfMemory) ∧
      Keeps w₀ (timelineLock block buffer true c answers w).2 X F := by
  simp only [timelineLock, if_true, bind_run, fst_acquire_of_refused h, pure_run]
  exact ⟨trivial, hunref.trans ((keeps_release_two buffer block answers _).frame F)⟩

/-- A container that was found, and its reference dropped again. -/
theorem keeps_unref_of_found (hlive : (w.container c).refcount ≠ 0)
    (h : answers w.ledger.requests = false) (F : List Res) :
    Keeps w (containerUnref c answers (onLedger (acquire .mutex) answers
      (containerRef c answers w).2).2).2 F F := by
  have hrefused := (keeps_of_refused (w := (containerRef c answers w).2) h .mutex).balance
  have hcontainer : (onLedger (acquire .mutex) answers (containerRef c answers w).2).2.container =
      (containerRef c answers w).2.container := rfl
  obtain ⟨hledger, hcounts⟩ := containerUnref_of_ref answers hlive hcontainer
  refine ⟨?_, fun c' _ => hcounts c'⟩
  rw [hledger]
  exact hrefused.frame F

/-- A container that was made, and its only reference dropped again. -/
theorem keeps_unref_of_made (hgranted : Granted answers w.ledger.requests)
    (h : answers (w.withContainer answers).ledger.requests = false) (F : List Res) :
    Keeps w (containerUnref w.ledger.requests answers (onLedger (acquire .mutex) answers
      (w.withContainer answers)).2).2 F F := by
  have hmade := keeps_withContainer hgranted
  have hrefused := (keeps_of_refused h .mutex).balance
  have hcontainer : (onLedger (acquire .mutex) answers (w.withContainer answers)).2.container
      w.ledger.requests = newContainer w.ledger.requests := container_withContainer answers w
  obtain ⟨hdestroyed, hothers⟩ := containerUnref_of_last answers
    (w := (onLedger (acquire .mutex) answers (w.withContainer answers)).2)
    (congrArg Container.refcount hcontainer)
  rw [hcontainer] at hdestroyed
  have hback : Balance _ _ (containerResources w.ledger.requests) [] := hdestroyed
  refine ⟨((hmade.balance.trans (hrefused.frame _)).trans hback).frame F, fun c' hc' => ?_⟩
  rw [hothers c' (Nat.ne_of_lt hc')]
  exact hmade.references c' hc'

/-- **A container that was made and registered keeps the reference of the register**, and what it
has acquired. -/
theorem keeps_unref_of_registered (hmade : ∀ c ∈ w.register, c < w.ledger.requests)
    (hfind : w.findListenerContainer charSigned name = none)
    (hgranted : Granted answers w.ledger.requests)
    (h : answers (w.withRegistered charSigned answers name).ledger.requests = false)
    (F : List Res) :
    Keeps w (containerUnref w.ledger.requests answers (onLedger (acquire .mutex) answers
      (w.withRegistered charSigned answers name)).2).2 F
      (F ++ containerResources w.ledger.requests) := by
  obtain ⟨hregistered, -, hcount⟩ := withRegistered_spec hmade hfind hgranted
  have hkept := hregistered.trans ((keeps_of_refused h .mutex).frame _)
  have hshared : ((onLedger (acquire .mutex) answers
      (w.withRegistered charSigned answers name)).2.container w.ledger.requests).refcount - 1 ≠
      0 := by
    change ((w.withRegistered charSigned answers name).container w.ledger.requests).refcount - 1 ≠ 0
    rw [hcount]
    decide
  rw [containerUnref_of_shared hshared]
  refine Keeps.setContainer ?_ (Nat.le_refl _) _
  exact ⟨(hkept.frame F).balance.perm (List.Perm.refl _) List.perm_append_comm, hkept.references⟩

/-- **The mutex of a timeline is refused after a container has been made for its name**, where `n`
is the number of the request for the container. A register that is full asks for more memory in
between. -/
def Stranded (charSigned : Bool) (answers : ℕ → Bool) (w : World τ) (n : ℕ) (threadSafe : Bool)
    (listeners : Option CString) : Prop :=
  threadSafe = true ∧ ∃ name, listeners = some name ∧
    w.findListenerContainer charSigned name = none ∧ Granted answers n ∧
    answers (n + 3 + (if w.registerCapacity = w.register.length then 1 else 0)) = false

/-- What can come of the second half of `ht_timeline_create`. -/
inductive Ending (w : World τ) (block buffer : Res) (stranded : Prop)
    (r : (Option TimelineBlocks × ErrorCode) × World τ) : Prop
  | made (t : TimelineBlocks) (hr : r.1 = (some t, .ok)) (h : ¬ stranded)
  | undone (e : ErrorCode) (he : e ≠ .ok) (hr : r.1 = (none, e)) (h : ¬ stranded)
    (hkeeps : Keeps w r.2 [buffer, block] [])
  | stranded (e : ErrorCode) (he : e ≠ .ok) (hr : r.1 = (none, e)) (h : stranded)
    (hkeeps : Keeps w r.2 [buffer, block] (containerResources w.ledger.requests))

/-- A timeline that is made, or undone when its mutex is refused. -/
theorem ending_timelineLock {stranded : Prop} {w₁ : World τ} (h : ¬ stranded)
    (hunref : threadSafe = true → answers w₁.ledger.requests = false →
      Keeps w (containerUnref c answers (onLedger (acquire .mutex) answers w₁).2).2
        [buffer, block] [buffer, block]) :
    Ending w block buffer stranded (timelineLock block buffer threadSafe c answers w₁) := by
  by_cases hmutex : threadSafe = true ∧ answers w₁.ledger.requests = false
  · obtain ⟨rfl, hmutex⟩ := hmutex
    obtain ⟨hresult, hkeeps⟩ := timelineLock_of_refused (F := []) hmutex (hunref rfl hmutex)
    exact .undone _ (by decide) hresult h hkeeps
  · have hgranted : threadSafe = true → answers w₁.ledger.requests = true := fun hts =>
      Bool.eq_true_of_not_eq_false fun hfalse => hmutex ⟨hts, hfalse⟩
    obtain ⟨t, ht⟩ := timelineLock_of_made hgranted
    exact .made t ht h

/-- The blocks are given back where there is no container. -/
theorem ending_of_no_container {stranded : Prop} {w₁ : World τ} (h : ¬ stranded)
    (hkeeps : Keeps w w₁ [] []) :
    Ending w block buffer stranded ((none, .cantCreateListenerContainer),
      (onLedger (release block) answers (onLedger (release buffer) answers w₁).2).2) :=
  .undone _ (by decide) rfl h
    ((hkeeps.frame [buffer, block]).trans (keeps_release_two buffer block answers w₁))

/-- A name that is not registered. -/
theorem ending_of_absent (hmade : ∀ c ∈ w.register, c < w.ledger.requests)
    (hfind : w.findListenerContainer charSigned name = none)
    (hgranted : Granted answers w.ledger.requests) :
    Ending w block buffer (Stranded charSigned answers w w.ledger.requests threadSafe (some name))
      (timelineLock block buffer threadSafe w.ledger.requests answers
        (w.withRegistered charSigned answers name)) := by
  have hrequests := (withRegistered_spec hmade hfind hgranted).2.1
  by_cases hstranded : Stranded charSigned answers w w.ledger.requests threadSafe (some name)
  · obtain ⟨rfl, -, -, -, -, hmutex⟩ := id hstranded
    rw [← hrequests] at hmutex
    obtain ⟨hresult, hkeeps⟩ := timelineLock_of_refused hmutex
      (keeps_unref_of_registered hmade hfind hgranted hmutex [buffer, block])
    exact .stranded _ (by decide) hresult hstranded hkeeps
  · refine ending_timelineLock hstranded fun hts hmutex => absurd ?_ hstranded
    exact ⟨hts, name, rfl, hfind, hgranted, hrequests ▸ hmutex⟩

/-- **The second half of `ht_timeline_create`.** -/
theorem ending_timelineListeners (charSigned threadSafe : Bool) (listeners : Option CString)
    (block buffer : Res) (answers : ℕ → Bool) (hmade : ∀ c ∈ w.register, c < w.ledger.requests)
    (hlive : ∀ c ∈ w.register, (w.container c).refcount ≠ 0) :
    Ending w block buffer (Stranded charSigned answers w w.ledger.requests threadSafe listeners)
      (timelineListeners charSigned block buffer threadSafe listeners answers w) := by
  rw [timelineListeners, bind_run]
  by_cases hfound : ∃ name c, listeners = some name ∧
      w.findListenerContainer charSigned name = some c
  · obtain ⟨name, c, rfl, hfind⟩ := hfound
    rw [findOrCreateListener_of_found hfind]
    refine ending_timelineLock ?_ fun _ hmutex =>
      keeps_unref_of_found (hlive c (List.mem_of_find?_eq_some hfind)) hmutex _
    rintro ⟨-, name', hname, hnone, -⟩
    cases hname
    exact Option.some_ne_none c (hfind.symm.trans hnone)
  · have hnone : ∀ name, listeners = some name →
        w.findListenerContainer charSigned name = none := fun name hname =>
      Option.eq_none_iff_forall_not_mem.mpr fun c hc => hfound ⟨name, c, hname, hc⟩
    by_cases hgranted : Granted answers w.ledger.requests
    · cases listeners with
      | none =>
        rw [findOrCreateListener, containerCreate_of_granted hgranted]
        refine ending_timelineLock ?_ fun _ hmutex => keeps_unref_of_made hgranted hmutex _
        rintro ⟨-, name, hname, -⟩
        cases hname
      | some name =>
        rw [findOrCreateListener_of_registered (hnone name rfl) hgranted]
        exact ending_of_absent hmade (hnone name rfl) hgranted
    · rw [findOrCreateListener_of_refused hnone hgranted]
      refine ending_of_no_container ?_ (keeps_not_granted hgranted)
      rintro ⟨-, -, -, -, h, -⟩
      exact hgranted h

/-- The state after the two blocks of a timeline. -/
def withBlocks (answers : ℕ → Bool) (w : World τ) : World τ :=
  (onLedger (acquire .block) answers (onLedger (acquire .block) answers w).2).2

variable (charSigned threadSafe) (listeners : Option CString)

theorem timelineCreate_of_refused (h : answers w.ledger.requests = false) :
    (timelineCreate charSigned threadSafe listeners answers w).1 = (none, .ok) := by
  simp only [timelineCreate, bind_run, fst_acquire_of_refused h, pure_run]

/-- The number of requests after one that is granted. -/
theorem requests_of_granted (h : answers w.ledger.requests = true) (k : ResourceKind) :
    (onLedger (acquire k) answers w).2.ledger.requests = w.ledger.requests + 1 := by
  rw [onLedger, acquire_of_granted h]

/-- **Without a buffer** the block of the timeline is given back. -/
theorem timelineCreate_of_buffer_refused (h : answers w.ledger.requests = true)
    (h' : answers (w.ledger.requests + 1) = false) :
    (timelineCreate charSigned threadSafe listeners answers w).1 = (none, .outOfMemory) ∧
      Keeps w (timelineCreate charSigned threadSafe listeners answers w).2 [] [] := by
  rw [← requests_of_granted h .block] at h'
  simp only [timelineCreate, bind_run, fst_acquire_of_granted h, fst_acquire_of_refused h',
    pure_run]
  exact ⟨trivial, ((keeps_of_granted h .block).trans ((keeps_of_refused h' .block).frame _)).trans
    (keeps_onLedger (Owns.release _) answers _)⟩

/-- With its two blocks a timeline looks for its listeners. -/
theorem timelineCreate_of_granted (h : answers w.ledger.requests = true)
    (h' : answers (w.ledger.requests + 1) = true) :
    timelineCreate charSigned threadSafe listeners answers w =
        timelineListeners charSigned (.block, w.ledger.requests) (.block, w.ledger.requests + 1)
          threadSafe listeners answers (w.withBlocks answers) ∧
      (w.withBlocks answers).ledger.requests = w.ledger.requests + 2 ∧
      Keeps w (w.withBlocks answers) []
        [(.block, w.ledger.requests + 1), (.block, w.ledger.requests)] := by
  have hrequests := requests_of_granted h .block
  rw [← hrequests] at h'
  have hkeeps := (keeps_of_granted h' .block).frame [(.block, w.ledger.requests)]
  rw [hrequests] at hkeeps
  refine ⟨?_, ?_, (keeps_of_granted h .block).trans hkeeps⟩
  · simp only [timelineCreate, bind_run, fst_acquire_of_granted h, fst_acquire_of_granted h',
      hrequests]
    rfl
  · rw [withBlocks, requests_of_granted h', hrequests]

end Timelines

/-! ### Features -/

section Attaching

variable {t : τ} {f : Feature}

theorem setFeature_of_ok [DecidableEq τ] (answers : ℕ → Bool)
    (h : w.features.setFeatureError Feature.klass t f = .ok) :
    (setFeature t f answers w).1 = .ok ∧
      (setFeature t f answers w).2.features.features t =
        (w.features.features t).set (w.features.klassId f.klass).toNat (some f) := by
  simp [World.setFeature, Features.setFeature, h]

/-- **A feature that is not attached is destroyed.** -/
theorem setFeature_of_ne_ok [DecidableEq τ] (answers : ℕ → Bool)
    (h : w.features.setFeatureError Feature.klass t f ≠ .ok) :
    (setFeature t f answers w).1 ≠ .ok ∧
      (setFeature t f answers w).2.features.features = w.features.features ∧
      Keeps w (setFeature t f answers w).2 f.resources [] := by
  have hcode : ∀ e : FeatureError, e ≠ .ok → errorCode e ≠ .ok := by
    intro e he
    cases e with
    | ok => exact (he rfl).elim
    | featureNotRegistered => decide
    | featureAlreadyRegistered => decide
    | maxFeatureCountReached => decide
  simp only [World.setFeature, Features.setFeature, if_neg h]
  exact ⟨hcode _ h, rfl, (owns_destroy f answers w.ledger).2, fun _ _ => rfl⟩

/-- The slot of a feature that can be attached is empty, so the slots change. -/
theorem set_ne_of_ok (hslots : (w.features.features t).length = timelineMaxFeatures)
    (h : w.features.setFeatureError Feature.klass t f = .ok) :
    (w.features.features t).set (w.features.klassId f.klass).toNat (some f) ≠
      w.features.features t := by
  intro heq
  rw [Features.setFeatureError] at h
  split at h
  · cases h
  next hid =>
    split at h
    · cases h
    next hempty =>
      have hlt : (w.features.klassId f.klass).toNat < (w.features.features t).length := by
        rw [hslots]
        exact Nat.lt_of_not_le fun hle => hid (.inr hle)
      refine hempty ?_
      rw [← heq, List.getElem?_set_self hlt]
      rfl

end Attaching

end World

/-! ### Whole calls -/

variable {w : World τ} {answers : ℕ → Bool}

theorem Clean.of_made {o : Outcome τ} (hnothing : o.nothing = false) (he : o.error = .ok) :
    Clean w o := by
  have hnot : ¬ (o.nothing = true ∨ o.error ≠ .ok) := by
    rw [hnothing, he]
    decide
  exact ⟨⟨fun h => (hnot (.inl h)).elim, fun h => (hnot (.inr h)).elim⟩,
    fun h => (hnot h).elim, fun h => (hnot h).elim⟩

theorem Clean.of_undone {o : Outcome τ} (hnothing : o.nothing = true) (he : o.error ≠ .ok)
    (hkeeps : Keeps w o.world [] []) : Clean w o :=
  ⟨iff_of_true hnothing he, fun _ => hkeeps.balance.settled, fun _ => hkeeps.references⟩

/-- A pointer is returned. -/
theorem Clean.pointer {α : Type} {r : (Option α × ErrorCode) × World τ} {a : α}
    (hr : r.1 = (some a, .ok)) : Clean w (.ofPointer r) :=
  .of_made (by rw [Outcome.ofPointer, hr]; rfl) (by rw [Outcome.ofPointer, hr])

/-- `NULL` is returned with an error. -/
theorem Clean.null {α : Type} {r : (Option α × ErrorCode) × World τ} {e : ErrorCode}
    (hr : r.1 = (none, e)) (he : e ≠ .ok) (hkeeps : Keeps w r.2 [] []) : Clean w (.ofPointer r) :=
  .of_undone (by rw [Outcome.ofPointer, hr]; rfl) (by rwa [Outcome.ofPointer, hr]) hkeeps

/-- **A constructor without a timeline.** -/
theorem clean_of_constructs {α : Type} {m : Alloc (Option α × ErrorCode)}
    {resources : α → List Res} (h : Constructs m resources) :
    Clean w (.ofPointer (onLedger m answers w)) := by
  obtain ⟨hreports, hbalance⟩ := h answers w.ledger
  rcases hr : (m answers w.ledger).1 with ⟨_ | a, e⟩
  · rw [hr] at hreports hbalance
    exact Clean.null hr (hreports.mp rfl) ⟨hbalance, fun _ _ => rfl⟩
  · rw [hr] at hreports
    obtain rfl : e = .ok := by
      by_contra he
      cases hreports.mpr he
    exact Clean.pointer hr

/-- **A feature is attached, or gone.** -/
theorem clean_enable [DecidableEq τ] {create : Alloc (Option Feature × ErrorCode)}
    (h : Constructs create Feature.resources) {t : τ}
    (hslots : (w.features.features t).length = timelineMaxFeatures) :
    Clean w (.ofFeature t w (enable create t answers w)) := by
  obtain ⟨hreports, hbalance⟩ := h answers w.ledger
  rcases hr : (create answers w.ledger).1 with ⟨_ | f, e⟩
  · rw [hr] at hreports hbalance
    have hrun : enable create t answers w = (e, (onLedger create answers w).2) := by
      simp only [enable, bind_run, onLedger, hr, pure_run]
    rw [hrun]
    exact Clean.of_undone (decide_eq_true rfl) (hreports.mp rfl) ⟨hbalance, fun _ _ => rfl⟩
  · rw [hr] at hbalance
    have hrun : enable create t answers w =
        World.setFeature t f answers (onLedger create answers w).2 := by
      simp only [enable, bind_run, onLedger, hr]
    rw [hrun]
    have hcreated : Keeps w (onLedger create answers w).2 [] f.resources :=
      ⟨hbalance, fun _ _ => rfl⟩
    by_cases hok : w.features.setFeatureError Feature.klass t f = .ok
    · obtain ⟨he, hfeatures⟩ := setFeature_of_ok (w := (onLedger create answers w).2) answers hok
      refine Clean.of_made (decide_eq_false ?_) he
      rw [hfeatures]
      exact set_ne_of_ok hslots hok
    · obtain ⟨he, hfeatures, hkeeps⟩ :=
        setFeature_of_ne_ok (w := (onLedger create answers w).2) answers hok
      exact Clean.of_undone (decide_eq_true (congrFun hfeatures t)) he (hcreated.trans hkeeps)

/-- What comes of a timeline with its two blocks. -/
theorem clean_iff_of_ending {w₂ : World τ} {block buffer : Res} {stranded : Prop}
    {r : (Option TimelineBlocks × ErrorCode) × World τ} (h : Ending w₂ block buffer stranded r)
    (hkeeps : Keeps w w₂ [] [buffer, block]) : Clean w (.ofPointer r) ↔ ¬ stranded := by
  cases h with
  | made t hr h => exact iff_of_true (Clean.pointer hr) h
  | undone e he hr h hback => exact iff_of_true (Clean.null hr he (hkeeps.trans hback)) h
  | stranded e he hr h hback =>
    refine iff_of_false (fun hclean => ?_) (fun hnot => hnot h)
    have hnothing : (Outcome.ofPointer r).nothing = true := by simp [Outcome.ofPointer, hr]
    exact (hkeeps.trans hback).balance.not_settled (List.cons_ne_nil _ _)
      (hclean.released (.inl hnothing))

/-- **`ht_timeline_create` cleans up** unless its first request is refused, or its mutex after a
container has been made for its name. -/
theorem clean_timelineCreate_iff (hw : w.Valid) (threadSafe : Bool) (listeners : Option CString) :
    Clean w (.ofPointer (World.timelineCreate charSigned threadSafe listeners answers w)) ↔
      answers w.ledger.requests = true ∧ ¬ (answers (w.ledger.requests + 1) = true ∧
        Stranded charSigned answers w (w.ledger.requests + 2) threadSafe listeners) := by
  by_cases h : answers w.ledger.requests = true
  swap
  · have hrefused := timelineCreate_of_refused charSigned threadSafe listeners
      (Bool.eq_false_of_not_eq_true h)
    refine iff_of_false (fun hclean => ?_) fun hserved => h hserved.1
    -- `NULL` with `HT_ERR_OK`
    refine hclean.reported.mp ?_ ?_
    · simp [Outcome.ofPointer, hrefused]
    · simp [Outcome.ofPointer, hrefused]
  rw [and_iff_right h]
  by_cases h' : answers (w.ledger.requests + 1) = true
  · obtain ⟨hrun, hrequests, hkeeps⟩ :=
      timelineCreate_of_granted charSigned threadSafe listeners h h'
    have hmade : ∀ c ∈ (w.withBlocks answers).register,
        c < (w.withBlocks answers).ledger.requests := fun c hc =>
      Nat.lt_of_lt_of_le (hw.made c hc) hkeeps.balance.requests_le
    have hending := ending_timelineListeners charSigned threadSafe listeners
      (.block, w.ledger.requests) (.block, w.ledger.requests + 1) answers hmade hw.live
    rw [hrun, and_iff_right h', clean_iff_of_ending hending hkeeps, hrequests]
    exact Iff.rfl
  · obtain ⟨hresult, hkeeps⟩ := timelineCreate_of_buffer_refused charSigned threadSafe listeners h
      (Bool.eq_false_of_not_eq_true h')
    exact iff_of_true (Clean.null hresult (by decide) hkeeps) fun hserved => h' hserved.1

/-- **The requests are served well enough**: those of a timeline must not end in the two ways that
are not handled. -/
def Constructor.Served (answers : ℕ → Bool) (w : World τ) : Constructor τ → Prop
  | .timelineCreate threadSafe listeners =>
    answers w.ledger.requests = true ∧ ¬ (answers (w.ledger.requests + 1) = true ∧
      Stranded charSigned answers w (w.ledger.requests + 2) threadSafe listeners)
  | _ => True

/-- **A constructor reports its failure and cleans up exactly if its requests are served well
enough**, which is a matter of timelines only. -/
theorem clean_iff [DecidableEq τ] (hw : w.Valid) (c : Constructor τ) :
    Clean w (c.call charSigned answers w) ↔ c.Served charSigned answers w := by
  cases c with
  | timelineCreate threadSafe listeners =>
    exact clean_timelineCreate_iff charSigned hw threadSafe listeners
  | taskSchedulerCreate =>
    exact iff_of_true (clean_of_constructs constructs_taskSchedulerCreate) trivial
  | featureCachedStringEnable t threadSafe =>
    exact iff_of_true (clean_enable (constructs_featureCachedStringCreate threadSafe) (hw.slots t))
      trivial
  | featureCallstackEnable t =>
    exact iff_of_true (clean_enable constructs_featureCallstackCreate (hw.slots t)) trivial
  | fileDumpListenerCreate bufferSize =>
    exact iff_of_true (clean_of_constructs (constructs_fileDumpListenerCreate bufferSize)) trivial

/-- The state after `ht_registry_init`, whose own requests are not counted. -/
def World.start : World τ where
  ledger := ⟨0, [], []⟩
  container := newContainer
  register := []
  registerCapacity := 8
  features := Features.start

theorem World.valid_start : (World.start : World τ).Valid where
  made _ hc := (List.not_mem_nil hc).elim
  live _ hc := (List.not_mem_nil hc).elim
  slots _ := List.length_replicate

/-- A timeline whose container is refused its mutex. -/
theorem clean_of_container_refused :
    let name := cstr "g"
    Clean World.start ((Constructor.timelineCreate true (some name) : Constructor Unit).call true
      (fun n => n != 4) World.start) := by
  intro name
  refine (clean_iff true World.valid_start _).mpr ⟨rfl, ?_⟩
  rintro ⟨-, -, -, -, -, ⟨-, -, h⟩, -⟩
  cases h

/-- **A timeline without its block**: `NULL` is returned with `HT_ERR_OK`. And a timeline that is
refused its mutex after a container has been made for its name: the container stays. -/
theorem timeline_not_clean :
    let name := cstr "g"
    let refused := (Constructor.timelineCreate false none : Constructor Unit).call true
      (fun _ => false) World.start
    let stranded := (Constructor.timelineCreate true (some name) : Constructor Unit).call true
      (fun n => n != 5) World.start
    (World.start : World Unit).Valid ∧
      (refused.nothing = true ∧ refused.error = .ok ∧ ¬ Clean World.start refused) ∧
      (stranded.nothing = true ∧ stranded.error = .outOfMemory ∧
        stranded.world.ledger.acquired =
          [(.block, 0), (.block, 1), (.block, 2), (.block, 3), (.mutex, 4)] ∧
        stranded.world.ledger.released = [(.block, 1), (.block, 0)] ∧
        ¬ Clean World.start stranded) := by
  intro name refused stranded
  refine ⟨World.valid_start, ⟨rfl, rfl, fun h => h.reported.mp rfl rfl⟩, by decide +kernel,
    by decide +kernel, by decide +kernel, by decide +kernel, fun h => ?_⟩
  refine ((clean_timelineCreate_iff true World.valid_start true (some name)).mp h).2 ⟨rfl, ?_⟩
  exact ⟨rfl, name, rfl, rfl, ⟨rfl, rfl, rfl⟩, rfl⟩

end HawkTracer.Lib
