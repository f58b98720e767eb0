import HawkTracer.Base.Ownership
import HawkTracer.Lib.Features
import HawkTracer.Lib.Hash

/-!
# Constructors

The constructors of the library acquire blocks, mutexes and files one after another. When a
request is refused, they give back what they have, in a chain of labels, and report an error. They
are the programs of `HawkTracer.Base.Ownership` here: the answers of the allocator and of `fopen`
are given, and what a constructor has acquired and released can be read off the ledger.
-/

namespace HawkTracer.Lib

open Prog Ledger Owns

/-- `HT_ErrorCode`. -/
inductive ErrorCode where
  | ok
  | unknown
  | outOfMemory
  | featureAlreadyRegistered
  | featureNotRegistered
  | maxFeatureCountReached
  | listenerContainerAlreadyRegistered
  | cantOpenFile
  | cantStartTcpServer
  | cantCreateListenerContainer
  | invalidFormat
  | invalidArgument
  | outOfRange
  | missingArgument
  deriving DecidableEq

/-- What is acquired: by `ht_alloc`, by `ht_mutex_create` and by `fopen`. -/
inductive ResourceKind where
  | block | mutex | file
  deriving DecidableEq

/-- A block, a mutex or a file. -/
abbrev Res : Type := Resource ResourceKind

/-- Programs that acquire and release. -/
abbrev Alloc (α : Type) : Type := Prog (Ledger ResourceKind) α

/-- `ht_free`, which accepts `NULL`. -/
def free (p : Option Res) : Alloc Unit := releaseAll p.toList

/-- **The result says what the code says**: there is an object exactly if there is no error. -/
def Reports {α : Type} (r : Option α × ErrorCode) : Prop := r.1 = none ↔ r.2 ≠ .ok

/-- The resources of a constructed object. -/
def held {α : Type} (resources : α → List Res) (r : Option α × ErrorCode) : List Res :=
  r.1.elim [] resources

/-- **A constructor**: it reports its failures, and owns the resources of the object at the end,
if there is one. -/
def Constructs {α : Type} (m : Alloc (Option α × ErrorCode)) (resources : α → List Res) : Prop :=
  Owns m [] Reports (held resources)

/-! ### Bags, buckets and hash maps -/

/-- `ht_bag_init`: the pointer to the data, and the error code. -/
def bagInit : Alloc (Option Res × ErrorCode) := do
  match ← acquire .block with
  | none => pure (none, .outOfMemory)
  | some data => pure (some data, .ok)

/-- `HT_HashBucket`: the pointers of its bags. -/
structure BucketBlocks where
  valueBag : Option Res
  keyBag : Option Res
  deriving DecidableEq

/-- What a bucket owns. -/
def BucketBlocks.resources (b : BucketBlocks) : List Res := b.valueBag.toList ++ b.keyBag.toList

/-- `ht_hash_bucket_init`. -/
def bucketInit : Alloc (Option BucketBlocks × ErrorCode) := do
  let (valueBag, err) ← bagInit
  if err ≠ .ok then pure (none, err)
  else
    let (keyBag, err) ← bagInit
    if err ≠ .ok then
      free valueBag
      pure (none, err)
    else pure (some ⟨valueBag, keyBag⟩, err)

/-- `ht_hash_bucket_deinit`. -/
def bucketDeinit (b : BucketBlocks) : Alloc Unit := do
  free b.valueBag
  free b.keyBag

/-- The loop of `ht_hash_map_init`: the buckets before the one that fails, and the error code. -/
def initBuckets : ℕ → Alloc (List BucketBlocks × ErrorCode)
  | 0 => pure ([], .ok)
  | n + 1 => do
    let (bucket, err) ← bucketInit
    match bucket with
    | none => pure ([], err)
    | some bucket =>
      let (buckets, err) ← initBuckets n
      pure (bucket :: buckets, err)

/-- A loop of `ht_hash_bucket_deinit`. -/
def deinitBuckets : List BucketBlocks → Alloc Unit
  | [] => pure ()
  | b :: bs => do
    bucketDeinit b
    deinitBuckets bs

/-- What the buckets own. -/
def bucketResources (bs : List BucketBlocks) : List Res := bs.flatMap BucketBlocks.resources

/-- The number of buckets. -/
def bucketCount : ℕ := 512

/-- `ht_hash_map_init`: the buckets of the map, and the error code. -/
def hashMapInit : Alloc (List BucketBlocks × ErrorCode) := do
  let (buckets, err) ← initBuckets bucketCount
  if err ≠ .ok then
    deinitBuckets buckets
    pure ([], err)
  else pure (buckets, err)

/-- `ht_stack_init`: the pointers to the data and to the offsets, and the error code. -/
def stackInit : Alloc ((Option Res × Option Res) × ErrorCode) := do
  match ← acquire .block with
  | none => pure ((none, none), .outOfMemory)
  | some data =>
    let (sizes, err) ← bagInit
    if err ≠ .ok then
      release data
      pure ((none, none), err)
    else pure ((some data, sizes), .ok)

/-! ### Objects without a timeline -/

/-- `HT_TaskScheduler`. -/
structure SchedulerBlocks where
  block : Res
  tasks : Option Res

/-- What a scheduler owns. -/
def SchedulerBlocks.resources (t : SchedulerBlocks) : List Res := t.tasks.toList ++ [t.block]

/-- `ht_task_scheduler_create`. -/
def taskSchedulerCreate : Alloc (Option SchedulerBlocks × ErrorCode) := do
  match ← acquire .block with
  | none => pure (none, .outOfMemory)
  | some block =>
    let (tasks, err) ← bagInit
    if err ≠ .ok then
      release block
      pure (none, err)
    else pure (some ⟨block, tasks⟩, err)

/-- `HT_FileDumpListener`. -/
structure FileDumpBlocks where
  block : Res
  file : Res
  mutex : Res
  buffer : Option Res

/-- What a file dump listener owns. -/
def FileDumpBlocks.resources (l : FileDumpBlocks) : List Res :=
  l.buffer.toList ++ [l.mutex, l.file, l.block]

/-- `ht_listener_buffer_init`: the pointer to the data, and the error code. -/
def listenerBufferInit (maxSize : ℕ) : Alloc (Option Res × ErrorCode) := do
  if maxSize = 0 then pure (none, .ok)
  else
    match ← acquire .block with
    | none => pure (none, .outOfMemory)
    | some data => pure (some data, .ok)

/-- `ht_file_dump_listener_create`. The metadata that is written in the end needs no resources. -/
def fileDumpListenerCreate (bufferSize : ℕ) : Alloc (Option FileDumpBlocks × ErrorCode) := do
  match ← acquire .block with
  | none => pure (none, .outOfMemory)
  | some block =>
    match ← acquire .file with
    | none =>
      release block
      pure (none, .cantOpenFile)
    | some file =>
      match ← acquire .mutex with
      | none =>
        release file
        release block
        pure (none, .outOfMemory)
      | some mutex =>
        let (buffer, err) ← listenerBufferInit bufferSize
        if err ≠ .ok then
          release mutex
          release file
          release block
          pure (none, err)
        else pure (some ⟨block, file, mutex, buffer⟩, err)

/-! ### Features -/

/-- The feature klasses: those of the library and those of its users. -/
inductive FeatureKlass where
  | cachedString | callstack | user (n : ℕ)
  deriving DecidableEq

/-- The feature objects. -/
inductive Feature where
  /-- `HT_FeatureCachedString`, with the labels it has copied. -/
  | cachedString (block : Res) (staticHashes dynamicHashes : List BucketBlocks)
      (lock : Option Res) (labels : List Res)
  /-- `HT_FeatureCallstack`, with the pointers of its stack. -/
  | callstack (block : Res) (data sizes : Option Res)
  | user (klass : ℕ) (block : Res)
  deriving DecidableEq

/-- `feature->klass`. -/
def Feature.klass : Feature → FeatureKlass
  | .cachedString .. => .cachedString
  | .callstack .. => .callstack
  | .user n _ => .user n

/-- What a feature owns. -/
def Feature.resources : Feature → List Res
  | .cachedString block staticHashes dynamicHashes lock labels =>
    labels ++ (bucketResources dynamicHashes ++ (bucketResources staticHashes ++
      (lock.toList ++ [block])))
  | .callstack block data sizes => sizes.toList ++ (data.toList ++ [block])
  | .user _ block => [block]

/-- `klass->destroy`. -/
def Feature.destroy : Feature → Alloc Unit
  | .cachedString block staticHashes dynamicHashes lock labels => do
    -- `ht_hash_map_for_each` over the dynamic labels
    releaseAll labels
    deinitBuckets dynamicHashes
    deinitBuckets staticHashes
    free lock
    release block
  | .callstack block data sizes => do
    free sizes
    free data
    release block
  | .user _ block => release block

/-- `ht_feature_callstack_create`. -/
def featureCallstackCreate : Alloc (Option Feature × ErrorCode) := do
  match ← acquire .block with
  | none => pure (none, .outOfMemory)
  | some block =>
    let ((data, sizes), err) ← stackInit
    if err ≠ .ok then
      release block
      pure (none, err)
    else pure (some (.callstack block data sizes), err)

/-- `ht_feature_cached_string_create`. -/
def featureCachedStringCreate (threadSafe : Bool) : Alloc (Option Feature × ErrorCode) := do
  match ← acquire .block with
  | none => pure (none, .outOfMemory)
  | some block =>
    let (staticHashes, err) ← hashMapInit
    if err ≠ .ok then
      release block
      pure (none, err)
    else
      let (dynamicHashes, err) ← hashMapInit
      if err ≠ .ok then
        deinitBuckets staticHashes
        release block
        pure (none, err)
      else if threadSafe then
        match ← acquire .mutex with
        | none =>
          deinitBuckets dynamicHashes
          deinitBuckets staticHashes
          release block
          pure (none, .unknown)
        | some lock =>
          pure (some (.cachedString block staticHashes dynamicHashes (some lock) []), err)
      else pure (some (.cachedString block staticHashes dynamicHashes none []), err)

/-! ### They construct -/

section Specs

variable {α β : Type} {X : List Res} {R : β → Prop} {Y : β → List Res}

/-- An error without an object, or an object without an error. -/
theorem Constructs.bind {m : Alloc (Option α × ErrorCode)} {resources : α → List Res}
    (h : Constructs m resources) {f : Option α × ErrorCode → Alloc β}
    (hfailed : ∀ e, e ≠ .ok → Owns (f (none, e)) X R Y)
    (hmade : ∀ a, Owns (f (some a, .ok)) (resources a ++ X) R Y) : Owns (m >>= f) X R Y := by
  refine h.call fun r hr => ?_
  rcases r with ⟨_ | a, e⟩
  · exact hfailed e (hr.mp rfl)
  · obtain rfl : e = .ok := by
      by_contra hne
      cases hr.mpr hne
    exact hmade a

theorem owns_failure {e : ErrorCode} (he : e ≠ .ok) (resources : α → List Res) :
    Owns (pure (none, e)) [] Reports (held resources) :=
  ret (iff_of_true rfl he) (List.Perm.refl _)

theorem owns_success {resources : α → List Res} {a : α} (hperm : X.Perm (resources a)) :
    Owns (pure (some a, .ok)) X Reports (held resources) :=
  ret (iff_of_false (Option.some_ne_none a) (fun h => h rfl)) hperm

/-- The check of an error code, after an error. -/
theorem owns_if_failed {e : ErrorCode} (he : e ≠ .ok) {m m' : Alloc β} (h : Owns m X R Y) :
    Owns (if e ≠ .ok then m else m') X R Y := by
  rwa [if_pos he]

/-- The check of an error code, without an error. -/
theorem owns_if_ok {m m' : Alloc β} (h : Owns m' X R Y) :
    Owns (if ErrorCode.ok ≠ .ok then m else m') X R Y := by
  rwa [if_neg (fun h => h rfl)]

theorem constructs_bagInit : Constructs bagInit fun r => [r] :=
  acquire_bind (owns_failure (by decide) _) fun _ => owns_success (List.Perm.refl _)

/-- `ht_free` of what is on top. -/
theorem owns_free (p : Option Res) {f : Unit → Alloc β} (hf : Owns (f ()) X R Y) :
    Owns (free p >>= f) (p.toList ++ X) R Y :=
  releaseAll_bind hf

theorem constructs_bucketInit : Constructs bucketInit BucketBlocks.resources := by
  refine constructs_bagInit.bind (fun e he => owns_if_failed he (owns_failure he _)) fun value =>
    owns_if_ok ?_
  refine constructs_bagInit.bind (fun e he => owns_if_failed he ?_) fun key => owns_if_ok ?_
  · exact owns_free (some value) (owns_failure he _)
  · exact owns_success (List.Perm.swap ..)

theorem owns_bucketDeinit (b : BucketBlocks) {f : Unit → Alloc β} (hf : Owns (f ()) X R Y) :
    Owns (bucketDeinit b >>= f) (b.resources ++ X) R Y := by
  have h : Owns (free b.valueBag >>= fun _ => free b.keyBag >>= f) (b.resources ++ X) R Y := by
    rw [BucketBlocks.resources, List.append_assoc]
    exact owns_free _ (owns_free _ hf)
  exact h

/-- The buckets on top are given back. -/
theorem owns_deinitBuckets (bs : List BucketBlocks) {f : Unit → Alloc β}
    (hf : Owns (f ()) X R Y) : Owns (deinitBuckets bs >>= f) (bucketResources bs ++ X) R Y := by
  induction bs with
  | nil => exact hf
  | cons b bs ih =>
    have h : Owns (bucketDeinit b >>= fun _ => deinitBuckets bs >>= f)
        (b.resources ++ (bucketResources bs ++ X)) R Y := owns_bucketDeinit b ih
    rw [← List.append_assoc] at h
    exact h

/-- **The loop over the buckets** owns those it has initialised. -/
theorem owns_initBuckets (n : ℕ) :
    Owns (initBuckets n) [] (fun _ => True) (fun r => bucketResources r.1) := by
  induction n with
  | zero => exact ret trivial (List.Perm.refl _)
  | succ n ih =>
    refine constructs_bucketInit.bind (fun e _ => ret trivial (List.Perm.refl _)) fun b => ?_
    refine ih.call fun r _ => ret trivial ?_
    rw [List.append_nil]
    exact List.perm_append_comm

/-- **A hash map has all its buckets or none.** -/
theorem owns_hashMapInit :
    Owns hashMapInit [] (fun r => r.2 ≠ .ok → r.1 = []) (fun r => bucketResources r.1) := by
  refine (owns_initBuckets bucketCount).call fun r _ => ?_
  by_cases he : r.2 = .ok
  · have h : Owns (pure r) (bucketResources r.1 ++ []) (fun r => r.2 ≠ .ok → r.1 = [])
        (fun r => bucketResources r.1) :=
      ret (fun hne => absurd he hne) (by rw [List.append_nil])
    rw [show r = (r.1, .ok) from Prod.ext rfl he] at h ⊢
    exact owns_if_ok h
  · exact owns_if_failed he (owns_deinitBuckets r.1 (ret (fun _ => rfl) (List.Perm.refl _)))

/-- **A stack has both its blocks or none.** -/
theorem owns_stackInit :
    Owns stackInit [] (fun r => r.2 ≠ .ok → r.1 = (none, none))
      (fun r => r.1.2.toList ++ r.1.1.toList) := by
  refine acquire_bind (ret (fun _ => rfl) (List.Perm.refl _)) fun data => ?_
  refine constructs_bagInit.bind (fun e he => owns_if_failed he ?_) fun sizes => owns_if_ok ?_
  · exact release_bind (ret (fun _ => rfl) (List.Perm.refl _))
  · exact ret (fun h => absurd rfl h) (List.Perm.refl _)

theorem constructs_taskSchedulerCreate :
    Constructs taskSchedulerCreate SchedulerBlocks.resources := by
  refine acquire_bind (owns_failure (by decide) _) fun block => ?_
  refine constructs_bagInit.bind (fun e he => owns_if_failed he ?_) fun tasks => owns_if_ok ?_
  · exact release_bind (owns_failure he _)
  · exact owns_success (List.Perm.refl _)

/-- A buffer without a size needs no block. -/
theorem owns_listenerBufferInit (maxSize : ℕ) :
    Owns (listenerBufferInit maxSize) [] (fun r => r.2 ≠ .ok → r.1 = none)
      (fun r => r.1.toList) := by
  rw [listenerBufferInit]
  split
  · exact ret (fun _ => rfl) (List.Perm.refl _)
  · exact acquire_bind (ret (fun _ => rfl) (List.Perm.refl _)) fun data =>
      ret (fun h => absurd rfl h) (List.Perm.refl _)

theorem constructs_fileDumpListenerCreate (bufferSize : ℕ) :
    Constructs (fileDumpListenerCreate bufferSize) FileDumpBlocks.resources := by
  refine acquire_bind (owns_failure (by decide) _) fun block => ?_
  refine acquire_bind (release_bind (owns_failure (by decide) _)) fun file => ?_
  refine acquire_bind (release_bind (release_bind (owns_failure (by decide) _))) fun mutex => ?_
  refine (owns_listenerBufferInit bufferSize).call fun r hr => ?_
  rcases r with ⟨buffer, e⟩
  by_cases he : e = .ok
  · subst he
    exact owns_if_ok (owns_success (List.Perm.refl _))
  · obtain rfl : buffer = none := hr he
    exact owns_if_failed he (release_bind (release_bind (release_bind (owns_failure he _))))

theorem constructs_featureCallstackCreate :
    Constructs featureCallstackCreate Feature.resources := by
  refine acquire_bind (owns_failure (by decide) _) fun block => ?_
  refine owns_stackInit.call fun r hr => ?_
  rcases r with ⟨⟨data, sizes⟩, e⟩
  by_cases he : e = .ok
  · subst he
    refine owns_if_ok (owns_success ?_)
    rw [Feature.resources, List.append_assoc]
  · obtain ⟨rfl, rfl⟩ : data = none ∧ sizes = none := Prod.mk.inj (hr he)
    exact owns_if_failed he (release_bind (owns_failure he _))

theorem constructs_featureCachedStringCreate (threadSafe : Bool) :
    Constructs (featureCachedStringCreate threadSafe) Feature.resources := by
  refine acquire_bind (owns_failure (by decide) _) fun block => ?_
  refine owns_hashMapInit.call fun r hr => ?_
  rcases r with ⟨staticHashes, e⟩
  by_cases he : e = .ok
  swap
  · obtain rfl : staticHashes = [] := hr he
    exact owns_if_failed he (release_bind (owns_failure he _))
  subst he
  refine owns_if_ok (owns_hashMapInit.call fun r hr => ?_)
  rcases r with ⟨dynamicHashes, e⟩
  by_cases he : e = .ok
  swap
  · obtain rfl : dynamicHashes = [] := hr he
    exact owns_if_failed he (owns_deinitBuckets staticHashes (release_bind (owns_failure he _)))
  subst he
  refine owns_if_ok ?_
  cases threadSafe with
  | false => exact owns_success (List.Perm.refl _)
  | true =>
    refine acquire_bind ?_ fun lock => owns_success ?_
    · exact owns_deinitBuckets dynamicHashes (owns_deinitBuckets staticHashes
        (release_bind (owns_failure (by decide) _)))
    · refine List.perm_iff_count.mpr fun r => ?_
      simp only [Feature.resources, List.count_append, List.count_cons, List.count_nil,
        Option.toList_some, List.nil_append]
      omega

/-- **A feature gives everything back** when it is destroyed. -/
theorem owns_destroy (f : Feature) : Owns f.destroy f.resources (fun _ => True) fun _ => [] := by
  cases f with
  | cachedString block staticHashes dynamicHashes lock labels =>
    exact releaseAll_bind (owns_deinitBuckets dynamicHashes (owns_deinitBuckets staticHashes
      (owns_free lock (release block))))
  | callstack block data sizes => exact owns_free sizes (owns_free data (release block))
  | user n block => exact release block

end Specs

end HawkTracer.Lib
