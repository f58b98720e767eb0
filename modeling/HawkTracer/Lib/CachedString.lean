import HawkTracer.Base.Justified
import HawkTracer.Base.Run
import HawkTracer.Lib.Hash
import HawkTracer.Lib.HashMap

/-!
# Cached strings

`HT_FeatureCachedString` replaces labels by numbers. A static string is identified by its
address and a dynamic one by its hash; each kind has a map of the identifiers seen so far, and
the event that tells the reader the string is pushed when an identifier is new.

The maps are used under the lock of the feature and events are pushed under the lock of the
timeline. `HawkTracer.Lib.LabelThreads.step` has one step for each of these sections, and for
the push of the event that the caller labels with the identifier. Between the insertion and
the push another thread can find the identifier in the map and use it
(`HawkTracer.Lib.LabelThreads.used_before_mapped`).
`HawkTracer.Lib.LabelThreads.mapping_precedes_use_iff` is the exact condition on the steps.
-/

namespace HawkTracer.Lib

/-- `HT_FeatureCachedString`. -/
structure CachedString where
  dynamicHashes : HashMap CString
  staticHashes : HashMap CString

/-- The two maps of the feature. -/
inductive LabelMap where
  | dynamic
  | static
  deriving DecidableEq

namespace CachedString

/-- `ht_feature_cached_string_create`, when everything can be had. -/
def init : CachedString := ⟨.init, .init⟩

/-- One of the two maps. -/
def hashes (f : CachedString) : LabelMap → HashMap CString
  | .dynamic => f.dynamicHashes
  | .static => f.staticHashes

/-- The feature with another map. -/
def setHashes (f : CachedString) (m : HashMap CString) : LabelMap → CachedString
  | .dynamic => { f with dynamicHashes := m }
  | .static => { f with staticHashes := m }

/-- What `ht_feature_cached_string_add_mapping_` does under the lock of the feature. -/
def insertLabel (f : CachedString) (w : LabelMap) (hash : UInt64) (label : CString)
    (a : HashMap.Answers) : Bool × Option CString × CachedString :=
  let r := (f.hashes w).insert hash label a
  (r.1, r.2.1, f.setHashes r.2.2 w)

/-- The result of a call: the identifier, and the mapping events that were pushed. -/
structure Added where
  id : UInt64
  feature : CachedString
  pushed : List (UInt64 × CString)

/-- `ht_feature_cached_string_add_mapping_`. -/
def addMapping_ (f : CachedString) (w : LabelMap) (hash : UInt64) (label : CString)
    (a : HashMap.Answers) : Added :=
  match f.insertLabel w hash label a with
  | (false, _, f') => ⟨0, f', []⟩
  | (true, none, f') => ⟨hash, f', [(hash, label)]⟩
  | (true, some _, f') => ⟨hash, f', []⟩

/-- `ht_feature_cached_string_add_mapping`, for the string at an address. -/
def addMapping (f : CachedString) (address : UInt64) (label : CString) (a : HashMap.Answers) :
    Added :=
  f.addMapping_ .static address label a

/-- The identifier of a dynamic string. -/
def dynamicHash (charSigned : Bool) (label : CString) : UInt64 :=
  (djb2Hash charSigned label).toUInt64

/-- `ht_feature_cached_string_add_mapping_dynamic`; it does not look at what
`ht_feature_cached_string_add_mapping_` returns. -/
def addMappingDynamic (charSigned : Bool) (f : CachedString) (label : CString)
    (a : HashMap.Answers) : Added :=
  let hash := dynamicHash charSigned label
  match f.dynamicHashes.getValue hash with
  | none => { f.addMapping_ .dynamic hash label a with id := hash }
  | some _ => ⟨hash, f, []⟩

/-! ### What the maps hold -/

/-- The string of an identifier in one of the maps. -/
def value (f : CachedString) (w : LabelMap) (id : UInt64) : Option CString :=
  (f.hashes w).getValue id

/-- Both maps stand for functions. -/
def Sound (f : CachedString) : Prop := ∀ w, (f.hashes w).Sound

theorem sound_init : init.Sound := fun w => by
  cases w <;> exact HashMap.sound_init

theorem value_init (w : LabelMap) (id : UInt64) : init.value w id = none := by
  cases w <;> exact HashMap.getValue_eq HashMap.represents_init id

theorem hashes_setHashes (f : CachedString) (m : HashMap CString) (w w' : LabelMap) :
    (f.setHashes m w).hashes w' = if w' = w then m else f.hashes w' := by
  cases w <;> cases w' <;> rfl

/-- With enough memory an insertion succeeds. -/
theorem insertLabel_yes {f : CachedString} (h : f.Sound) (w : LabelMap) (hash : UInt64)
    (label : CString) : (f.insertLabel w hash label .yes).1 = true := by
  obtain ⟨m, hinsert, -⟩ := HashMap.insert_eq (h w) hash label
  rw [insertLabel, hinsert]

/-- **An insertion that succeeds** returns the string the identifier had before, and maps it
to the new one. -/
theorem insertLabel_of_ok {f : CachedString} (h : f.Sound) {w : LabelMap} {hash : UInt64}
    {label : CString} {a : HashMap.Answers} (hok : (f.insertLabel w hash label a).1 = true) :
    ∃ f', f.insertLabel w hash label a = (true, f.value w hash, f') ∧ f'.Sound ∧
      ∀ w' id, f'.value w' id = if w' = w ∧ id = hash then some label else f.value w' id := by
  obtain ⟨m, hinsert, hm, hvalue⟩ := HashMap.insert_of_ok (h w) hok
  refine ⟨f.setHashes m w, ?_, fun w' => ?_, fun w' id => ?_⟩
  · rw [insertLabel, hinsert]
    rfl
  · rw [hashes_setHashes]
    split
    · exact hm
    · exact h w'
  · rw [value, hashes_setHashes]
    by_cases hw : w' = w
    · subst hw
      simp only [if_pos, true_and, hvalue, Function.update_apply]
      rfl
    · rw [if_neg hw, if_neg fun h => hw h.1]
      rfl

end CachedString

/-! ### Threads -/

/-- Where a thread is in adding and using a label. -/
inductive Labelling where
  /-- The thread does neither. -/
  | outside
  /-- It has not found the hash of its dynamic string. -/
  | absent (hash : UInt64) (label : CString)
  /-- It has inserted a new identifier, and is about to push the mapping event. -/
  | mapping (hash : UInt64) (label : CString)
  /-- Its call has returned, and it is about to push an event with the identifier. -/
  | holding (id : UInt64)

/-- The identifier that the thread is going to push. -/
def Labelling.id? : Labelling → Option UInt64
  | .mapping hash _ => some hash
  | .holding id => some id
  | _ => none

/-- An event that enters the timeline, as far as labels are concerned. -/
inductive Pushed where
  | mapping (id : UInt64) (label : CString)
  | use (id : UInt64)
  deriving DecidableEq

/-- A timeline with cached strings and the threads that share it. -/
structure LabelThreads (τ : Type) where
  feature : CachedString
  thread : τ → Labelling
  /-- The events of the timeline, in the order in which they entered it. -/
  pushed : List Pushed

/-- A mapping event for the identifier is in the list. -/
def Mapped (pushed : List Pushed) (id : UInt64) : Prop := ∃ label, .mapping id label ∈ pushed

/-- **No identifier is used before it is mapped.** -/
def MappedFirst (pushed : List Pushed) : Prop :=
  Justified (fun before p => ∀ id, p = .use id → Mapped before id) pushed

theorem Mapped.append {l : List Pushed} {id : UInt64} (h : Mapped l id) (l' : List Pushed) :
    Mapped (l ++ l') id := h.imp fun _ => List.mem_append_left l'

theorem mapped_append_iff {l : List Pushed} {p : Pushed} {id : UInt64} :
    Mapped (l ++ [p]) id ↔ Mapped l id ∨ ∃ label, p = .mapping id label := by
  simp only [Mapped, List.mem_append, List.mem_singleton, exists_or, eq_comm]

namespace LabelThreads

variable {τ : Type}

/-- A step of a thread. -/
inductive Op (τ : Type) where
  /-- The thread adds the string at an address; the lock is held for the insertion. -/
  | addMapping (t : τ) (address : UInt64) (a : HashMap.Answers)
  /-- It adds a dynamic string; the lock is held for the lookup. -/
  | addMappingDynamic (t : τ) (label : CString)
  /-- It inserts the dynamic string it has not found. -/
  | insertDynamic (t : τ) (a : HashMap.Answers)
  /-- It pushes the mapping event. -/
  | pushMapping (t : τ)
  /-- It pushes an event with the identifier. -/
  | pushUse (t : τ)

section Step

variable [DecidableEq τ]

/-- The thread goes on. -/
def goto (s : LabelThreads τ) (t : τ) (l : Labelling) : LabelThreads τ :=
  { s with thread := Function.update s.thread t l }

/-- What follows the insertion; `failed` is what the call returns if it fails. -/
def insertBy (s : LabelThreads τ) (t : τ) (w : LabelMap) (hash : UInt64) (label : CString)
    (failed : UInt64) (a : HashMap.Answers) : LabelThreads τ :=
  match s.feature.insertLabel w hash label a with
  | (false, _, f) => { s with feature := f }.goto t (.holding failed)
  | (true, none, f) => { s with feature := f }.goto t (.mapping hash label)
  | (true, some _, f) => { s with feature := f }.goto t (.holding hash)

/-- The event enters the timeline. -/
def push (s : LabelThreads τ) (p : Pushed) : LabelThreads τ := { s with pushed := s.pushed ++ [p] }

variable (charSigned : Bool) (text : UInt64 → CString)

/-- What a step does, where `text` tells the strings at the addresses; a step that is not the
thread's next one does nothing. -/
def step (s : LabelThreads τ) : Op τ → LabelThreads τ
  | .addMapping t address a =>
    match s.thread t with
    | .outside => s.insertBy t .static address (text address) 0 a
    | _ => s
  | .addMappingDynamic t label =>
    match s.thread t with
    | .outside =>
      match s.feature.dynamicHashes.getValue (CachedString.dynamicHash charSigned label) with
      | none => s.goto t (.absent (CachedString.dynamicHash charSigned label) label)
      | some _ => s.goto t (.holding (CachedString.dynamicHash charSigned label))
    | _ => s
  | .insertDynamic t a =>
    match s.thread t with
    | .absent hash label => s.insertBy t .dynamic hash label hash a
    | _ => s
  | .pushMapping t =>
    match s.thread t with
    | .mapping hash label => (s.push (.mapping hash label)).goto t (.holding hash)
    | _ => s
  | .pushUse t =>
    match s.thread t with
    | .holding id => (s.push (.use id)).goto t .outside
    | _ => s

end Step

/-- A new timeline with cached strings. -/
def start : LabelThreads τ := ⟨.init, fun _ => .outside, []⟩

/-- The insertion of the step does not fail for want of memory. -/
def InsertSucceeds (text : UInt64 → CString) (s : LabelThreads τ) : Op τ → Prop
  | .addMapping t address a => s.thread t = .outside →
    (s.feature.insertLabel .static address (text address) a).1 = true
  | .insertDynamic t a => ∀ hash label, s.thread t = .absent hash label →
    (s.feature.insertLabel .dynamic hash label a).1 = true
  | _ => True

/-- **The use is not ahead of the mapping**: while a thread is still to push the mapping event
of an identifier, the identifier is used only if another thread has pushed one. -/
def NotOvertaken (s : LabelThreads τ) : Op τ → Prop
  | .pushUse t => ∀ id, s.thread t = .holding id →
    (∃ t' label, s.thread t' = .mapping id label) → Mapped s.pushed id
  | _ => True

/-! ### What always holds -/

/-- The identifier is in one of the maps. -/
def Known (s : LabelThreads τ) (id : UInt64) : Prop := ∃ w, s.feature.value w id ≠ none

/-- **What holds in every state** in which no insertion has failed. -/
structure Kept (s : LabelThreads τ) : Prop where
  sound : s.feature.Sound
  /-- A known identifier is mapped, or some thread is about to map it. -/
  known : ∀ id, s.Known id → Mapped s.pushed id ∨ ∃ t label, s.thread t = .mapping id label
  /-- What a thread is going to push is known. -/
  owned : ∀ t id, (s.thread t).id? = some id → s.Known id

theorem kept_start : Kept (start : LabelThreads τ) where
  sound := CachedString.sound_init
  known id hid := by
    obtain ⟨w, hw⟩ := hid
    exact absurd (CachedString.value_init w id) hw
  owned _ _ h := by cases h

variable [DecidableEq τ] {charSigned : Bool} {text : UInt64 → CString} {s : LabelThreads τ} {t : τ}

theorem thread_goto (s : LabelThreads τ) (t t' : τ) (l : Labelling) :
    (s.goto t l).thread t' = if t' = t then l else s.thread t' :=
  Function.update_apply _ _ _ _

/-- A thread goes on with an identifier that is known. -/
theorem owned_goto {l : Labelling} (h : ∀ t id, (s.thread t).id? = some id → s.Known id)
    (hl : ∀ id, l.id? = some id → s.Known id) (t' : τ) (id : UInt64)
    (ht' : ((s.goto t l).thread t').id? = some id) : (s.goto t l).Known id := by
  rw [thread_goto] at ht'
  split at ht'
  · exact hl id ht'
  · exact h t' id ht'

/-- The other threads that are about to push a mapping event still are. -/
theorem mapping_goto {l : Labelling} (ht : ∀ id label, s.thread t ≠ .mapping id label) {id : UInt64}
    (h : ∃ t' label, s.thread t' = .mapping id label) :
    ∃ t' label, (s.goto t l).thread t' = .mapping id label := by
  obtain ⟨t', label, ht'⟩ := h
  have hne : t' ≠ t := fun heq => ht id label (heq ▸ ht')
  exact ⟨t', label, by rw [thread_goto, if_neg hne, ht']⟩

/-- A thread that is not about to push a mapping event goes on. -/
theorem Kept.goto (h : Kept s) {l : Labelling} (ht : ∀ id label, s.thread t ≠ .mapping id label)
    (hl : ∀ id, l.id? = some id → s.Known id) : Kept (s.goto t l) where
  sound := h.sound
  known id hid := (h.known id hid).imp_right (mapping_goto ht)
  owned := owned_goto h.owned hl

omit [DecidableEq τ] in
/-- With a label inserted, its identifier is known too. -/
theorem known_insert_iff {f : CachedString} {w : LabelMap} {hash : UInt64} {label : CString}
    (hvalue : ∀ w' id, f.value w' id =
      if w' = w ∧ id = hash then some label else s.feature.value w' id) (id : UInt64) :
    ({ s with feature := f } : LabelThreads τ).Known id ↔ s.Known id ∨ id = hash := by
  simp only [Known, hvalue]
  constructor
  · rintro ⟨w', hw'⟩
    split at hw'
    · next heq => exact .inr heq.2
    · exact .inl ⟨w', hw'⟩
  · rintro (⟨w', hw'⟩ | rfl)
    · refine ⟨w', ?_⟩
      split
      · exact Option.some_ne_none _
      · exact hw'
    · refine ⟨w, ?_⟩
      rw [if_pos ⟨rfl, rfl⟩]
      exact Option.some_ne_none _

/-- **An insertion that succeeds**: the thread has a new identifier to map, or goes on with
one that was known. -/
theorem Kept.insertBy (h : Kept s) {w : LabelMap} {hash failed : UInt64} {label : CString}
    {a : HashMap.Answers} (ht : ∀ id label, s.thread t ≠ .mapping id label)
    (hok : (s.feature.insertLabel w hash label a).1 = true) :
    Kept (s.insertBy t w hash label failed a) := by
  obtain ⟨f, hinsert, hsound, hvalue⟩ := CachedString.insertLabel_of_ok h.sound hok
  let s' : LabelThreads τ := { s with feature := f }
  have hknown : ∀ id, s'.Known id ↔ s.Known id ∨ id = hash := known_insert_iff hvalue
  have howned : ∀ t id, (s'.thread t).id? = some id → s'.Known id := fun t' id ht' =>
    (hknown id).mpr (.inl (h.owned t' id ht'))
  have hhash : ∀ id, some hash = some id → s'.Known id := fun id heq =>
    (hknown id).mpr (.inr (Option.some.inj heq).symm)
  rw [LabelThreads.insertBy, hinsert]
  cases hprev : s.feature.value w hash with
  | none =>
    refine ⟨hsound, fun id hid => ?_, owned_goto howned hhash⟩
    rcases (hknown id).mp hid with hid | rfl
    · exact (h.known id hid).imp_right (mapping_goto (s := s') ht)
    · exact .inr ⟨t, label, (thread_goto s' t t _).trans (if_pos rfl)⟩
  | some prev =>
    have hbefore : s.Known hash := ⟨w, by rw [hprev]; exact Option.some_ne_none _⟩
    refine ⟨hsound, fun id hid => ?_, owned_goto howned hhash⟩
    have hid' : s.Known id := ((hknown id).mp hid).elim (fun h => h) fun heq => heq ▸ hbefore
    exact (h.known id hid').imp_right (mapping_goto (s := s') ht)

/-- **The mapping event is pushed**, and the thread goes on with the identifier. -/
theorem Kept.pushMapping (h : Kept s) {hash : UInt64} {label : CString}
    (ht : s.thread t = .mapping hash label) :
    Kept ((s.push (.mapping hash label)).goto t (.holding hash)) := by
  have howned : ∀ t id, (s.thread t).id? = some id → (s.push (.mapping hash label)).Known id :=
    h.owned
  refine ⟨h.sound, fun id hid => ?_, owned_goto howned fun id heq => ?_⟩
  · rcases h.known id hid with hmapped | ⟨t', label', ht'⟩
    · exact .inl (hmapped.append _)
    · by_cases heq : t' = t
      · subst heq
        obtain ⟨rfl, rfl⟩ := Labelling.mapping.inj (ht.symm.trans ht')
        exact .inl (mapped_append_iff.mpr (.inr ⟨label, rfl⟩))
      · exact .inr ⟨t', label', ((thread_goto _ t t' _).trans (if_neg heq)).trans ht'⟩
  · exact h.owned t id (by rw [ht]; exact heq)

/-- **A step keeps the invariant** unless its insertion fails. -/
theorem Kept.step (h : Kept s) {o : Op τ} (ho : InsertSucceeds text s o) :
    Kept (s.step charSigned text o) := by
  cases o with
  | addMapping t address a =>
    simp only [LabelThreads.step]
    cases ht : s.thread t with
    | outside => exact h.insertBy (by simp [ht]) (ho ht)
    | absent | mapping | holding => exact h
  | addMappingDynamic t label =>
    simp only [LabelThreads.step]
    cases ht : s.thread t with
    | outside =>
      dsimp only
      split
      · exact h.goto (by simp [ht]) fun _ heq => by cases heq
      · next label' hlabel =>
        refine h.goto (by simp [ht]) fun id heq => ⟨.dynamic, ?_⟩
        cases heq
        change s.feature.dynamicHashes.getValue _ ≠ none
        rw [hlabel]
        exact Option.some_ne_none _
    | absent | mapping | holding => exact h
  | insertDynamic t a =>
    simp only [LabelThreads.step]
    cases ht : s.thread t with
    | absent hash label => exact h.insertBy (by simp [ht]) (ho hash label ht)
    | outside | mapping | holding => exact h
  | pushMapping t =>
    simp only [LabelThreads.step]
    cases ht : s.thread t with
    | mapping hash label => exact h.pushMapping ht
    | outside | absent | holding => exact h
  | pushUse t =>
    simp only [LabelThreads.step]
    cases ht : s.thread t with
    | holding id =>
      have hpush : Kept (s.push (.use id)) :=
        ⟨h.sound, fun id hid => (h.known id hid).imp_left (Mapped.append · _), h.owned⟩
      exact hpush.goto (fun _ _ heq => by cases ht.symm.trans heq) fun _ heq => by cases heq
    | outside | absent | mapping => exact h

/-! ### Runs -/

/-- An insertion leaves the timeline alone. -/
theorem pushed_insertBy (s : LabelThreads τ) (t : τ) (w : LabelMap) (hash failed : UInt64)
    (label : CString) (a : HashMap.Answers) :
    (s.insertBy t w hash label failed a).pushed = s.pushed := by
  rw [insertBy]
  split <;> rfl

/-- **A step keeps the order exactly if the use is not ahead of the mapping.** -/
theorem mappedFirst_step_iff (h : Kept s) (hfirst : MappedFirst s.pushed) {o : Op τ} :
    MappedFirst (s.step charSigned text o).pushed ↔ NotOvertaken s o := by
  cases o with
  | addMappingDynamic t label =>
    refine iff_of_true ?_ trivial
    rw [LabelThreads.step]
    split
    · split <;> exact hfirst
    · exact hfirst
  | addMapping | insertDynamic =>
    refine iff_of_true ?_ trivial
    rw [LabelThreads.step]
    split
    · rw [pushed_insertBy]
      exact hfirst
    · exact hfirst
  | pushMapping t =>
    refine iff_of_true ?_ trivial
    rw [LabelThreads.step]
    split
    · exact justified_append_singleton_iff.mpr ⟨hfirst, fun _ heq => by cases heq⟩
    · exact hfirst
  | pushUse t =>
    simp only [LabelThreads.step, NotOvertaken]
    cases ht : s.thread t with
    | holding id =>
      have hiff : MappedFirst (s.pushed ++ [.use id]) ↔ Mapped s.pushed id := by
        refine (justified_append_singleton_iff.trans (and_iff_right hfirst)).trans ?_
        exact ⟨fun hid => hid id rfl, fun hid id' heq => by cases heq; exact hid⟩
      refine hiff.trans ⟨fun hid id' heq _ => by cases heq; exact hid, fun hid => ?_⟩
      exact (h.known id (h.owned t id (by rw [ht]; rfl))).elim (fun hmapped => hmapped) (hid id rfl)
    | outside | absent | mapping =>
      exact iff_of_true hfirst fun _ heq => by cases heq

/-- **When mapping events come first.** In a run of any number of threads in which no insertion
fails, every identifier is used after it is mapped, exactly if no event with an identifier is
pushed while the only mapping events for it are still to be pushed. -/
theorem mapping_precedes_use_iff (charSigned : Bool) (text : UInt64 → CString) (os : List (Op τ))
    (hok : StepsMeet (step charSigned text) (InsertSucceeds text) start os) :
    Throughout (step charSigned text) (fun s => MappedFirst s.pushed) start os ↔
      StepsMeet (step charSigned text) NotOvertaken start os :=
  throughout_iff_of_step (fun _ _ h ho => h.step ho)
    (fun _ _ h _ hfirst => mappedFirst_step_iff h hfirst) kept_start justified_nil hok

/-- A thread adds a string and uses it, and then another one does. -/
theorem mapping_precedes_use_iff_sample :
    Throughout (step true fun _ => cstr "x") (fun s => MappedFirst s.pushed) start
        [.addMapping true 64 .yes, .pushMapping true, .addMapping false 64 .yes, .pushUse false] ↔
      StepsMeet (step true fun _ => cstr "x") NotOvertaken (start : LabelThreads Bool)
        [.addMapping true 64 .yes, .pushMapping true, .addMapping false 64 .yes, .pushUse false] :=
  mapping_precedes_use_iff true (fun _ => cstr "x") _
    ⟨fun _ => rfl, trivial, fun _ => rfl, trivial, trivial⟩

/-- Two threads add the same string, and the second uses it before the first has pushed the
mapping event. -/
def overtaking : List (Op Bool) :=
  [.addMapping true 64 .yes, .addMapping false 64 .yes, .pushUse false, .pushMapping true,
   .pushUse true]

/-- **An identifier is used before it is mapped.** -/
theorem used_before_mapped :
    ¬ Throughout (step true fun _ => cstr "x") (fun s => MappedFirst s.pushed) start overtaking ∧
      (runFrom (step true fun _ => cstr "x") start overtaking).pushed =
        [.use 64, .mapping 64 (cstr "x"), .use 64] := by
  have hpushed : (runFrom (step true fun _ => cstr "x") start overtaking).pushed =
      [.use 64, .mapping 64 (cstr "x"), .use 64] := rfl
  refine ⟨fun h => ?_, hpushed⟩
  obtain ⟨label, hlabel⟩ := h.last [] (.use 64) _ hpushed 64 rfl
  cases hlabel

/-! ### One call after another -/

/-- The state after a call by thread `t`. -/
def returned (s : LabelThreads τ) (t : τ) (r : CachedString.Added) : LabelThreads τ where
  feature := r.feature
  thread := Function.update s.thread t (.holding r.id)
  pushed := s.pushed ++ r.pushed.map fun p => .mapping p.1 p.2

/-- An insertion and the push that may follow it. -/
theorem insertBy_pushMapping (s : LabelThreads τ) (t : τ) (w : LabelMap) (hash failed : UInt64)
    (label : CString) (a : HashMap.Answers) :
    (s.insertBy t w hash label failed a).step charSigned text (.pushMapping t) =
      s.returned t { s.feature.addMapping_ w hash label a with
        id := if (s.feature.insertLabel w hash label a).1 then hash else failed } := by
  rw [insertBy, CachedString.addMapping_]
  rcases s.feature.insertLabel w hash label a with ⟨_ | _, _ | prev, f⟩ <;>
    simp [step, goto, push, returned]

/-- **A call on a static string that nobody disturbs** does what
`HawkTracer.Lib.CachedString.addMapping` says. -/
theorem undisturbed_addMapping (ht : s.thread t = .outside) (address : UInt64)
    (a : HashMap.Answers) :
    runFrom (step charSigned text) s [.addMapping t address a, .pushMapping t] =
      s.returned t (s.feature.addMapping address (text address) a) := by
  have hid : (s.feature.addMapping_ .static address (text address) a).id =
      if (s.feature.insertLabel .static address (text address) a).1 then address else 0 := by
    rw [CachedString.addMapping_]
    rcases s.feature.insertLabel .static address (text address) a with ⟨_ | _, _ | prev, f⟩ <;> rfl
  have hstep : s.step charSigned text (.addMapping t address a) =
      s.insertBy t .static address (text address) 0 a := by
    rw [step, ht]
  rw [runFrom_cons, hstep, runFrom_cons, insertBy_pushMapping, ← hid]
  rfl

/-- **A call on a dynamic string that nobody disturbs** does what
`HawkTracer.Lib.CachedString.addMappingDynamic` says. -/
theorem undisturbed_addMappingDynamic (ht : s.thread t = .outside) (label : CString)
    (a : HashMap.Answers) :
    runFrom (step charSigned text) s
        [.addMappingDynamic t label, .insertDynamic t a, .pushMapping t] =
      s.returned t (s.feature.addMappingDynamic charSigned label a) := by
  rw [runFrom_cons, step, ht, CachedString.addMappingDynamic]
  dsimp only
  cases s.feature.dynamicHashes.getValue (CachedString.dynamicHash charSigned label) with
  | some label' => simp [runFrom_cons, step, goto, returned]
  | none =>
    set hash := CachedString.dynamicHash charSigned label
    have hstep : (s.goto t (.absent hash label)).step charSigned text (.insertDynamic t a) =
        (s.goto t (.absent hash label)).insertBy t .dynamic hash label hash a := by
      rw [step, thread_goto, if_pos rfl]
    dsimp only
    rw [runFrom_cons, hstep, runFrom_cons, insertBy_pushMapping, ite_self]
    simp [returned, goto]

end LabelThreads

end HawkTracer.Lib
