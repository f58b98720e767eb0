import HawkTracer.Base.Run
import HawkTracer.Lib.Hash
import Mathlib.Data.List.Nodup
import Mathlib.Data.List.Pairwise
import Mathlib.Data.Set.Function

/-!
# Listener containers and the register of their names

Timelines that are created with one listener name share a listener container, so that a
listener registered through one of them receives the events of all of them: the timelines of
the threads are made in this way. `ht_find_or_create_listener` looks for the name in the
register; if it is not there, it makes a container and registers it, for which the register
is searched once more before the container is added. Each of the three takes the mutex of the
register and releases it again. What the second search finds is reported as an error, and the
error is ignored: the call then goes on with the container it has made.

The steps of `HawkTracer.Lib.Containers.step` are the ones under the mutex. A run of them is an
interleaving of calls of `ht_timeline_create`; `HawkTracer.Lib.Containers.call` are the steps of
one call.

`HawkTracer.Lib.Containers.one_container_iff`: the timelines of a name hold one container, and
the register has it once, exactly if nobody registers the name between two steps of a call
that has not found it. `HawkTracer.Lib.Containers.sharing_iff`: for calls one after another,
containers are shared as the names say exactly if no two of the names have the same hash,
since that is all the register knows of a name.
-/

namespace HawkTracer.Lib

/-- Where a thread is inside `ht_find_or_create_listener`. -/
inductive Creating where
  /-- The thread is not inside. -/
  | outside
  /-- It has not found the name. -/
  | absent (name : CString)
  /-- It has made a container and has not found the name once more. -/
  | registering (name : CString) (container : ℕ)

/-- The listener containers with the threads that create timelines. A container is known by
the number of containers made before it. -/
structure Containers (τ : Type) where
  /-- `listeners_register`. -/
  register : List ℕ
  /-- The field `id` of the containers. -/
  id : ℕ → UInt32
  /-- The number of containers that have been made. -/
  made : ℕ
  thread : τ → Creating
  /-- A record of the timelines that have been created, with the name they were given and
  their container. -/
  timelines : List (Option CString × ℕ)

namespace Containers

variable {τ : Type}

/-- A step of a thread. `ok` is whether there is memory for what the step makes, and `created`
whether the rest of `ht_timeline_create` succeeds if this is the last step. -/
inductive Op (τ : Type) where
  /-- `ht_timeline_create` without a name. -/
  | anonymous (ok created : Bool)
  /-- The first search for the name. -/
  | find (t : τ) (name : CString) (created : Bool)
  /-- A container is made, and the name is searched for once more. -/
  | lookAgain (t : τ) (ok created : Bool)
  /-- The container is added to the register. -/
  | add (t : τ) (ok created : Bool)

section Step

variable (charSigned : Bool)

/-- `ht_registry_find_listener_container`. -/
def findContainer (s : Containers τ) (name : CString) : Option ℕ :=
  s.register.find? fun c => s.id c = djb2Hash charSigned name

/-- A container is made; its `id` is zero. -/
def make (s : Containers τ) : Containers τ :=
  { s with id := Function.update s.id s.made 0, made := s.made + 1 }

/-- The rest of `ht_timeline_create`, with the container that was found or made. -/
def createTimeline (s : Containers τ) (created : Bool) (name : Option CString) (c : ℕ) :
    Containers τ :=
  if created then { s with timelines := s.timelines ++ [(name, c)] } else s

/-- What `ht_registry_register_listener_container` does once it has not found the name. -/
def addContainer (s : Containers τ) (ok : Bool) (name : CString) (c : ℕ) : Containers τ :=
  { s with
    id := Function.update s.id c (djb2Hash charSigned name)
    register := if ok then s.register ++ [c] else s.register }

variable [DecidableEq τ]

/-- The thread goes on. -/
def goto (s : Containers τ) (t : τ) (r : Creating) : Containers τ :=
  { s with thread := Function.update s.thread t r }

/-- What a step does; a step that is not the thread's next one does nothing. -/
def step (s : Containers τ) : Op τ → Containers τ
  | .anonymous ok created => if ok then s.make.createTimeline created none s.made else s
  | .find t name created =>
    match s.thread t with
    | .outside =>
      match s.findContainer charSigned name with
      | some c => s.createTimeline created (some name) c
      | none => s.goto t (.absent name)
    | _ => s
  | .lookAgain t ok created =>
    match s.thread t with
    | .absent name =>
      if ok then
        match s.make.findContainer charSigned name with
        -- the error is ignored
        | some _ => (s.make.goto t .outside).createTimeline created (some name) s.made
        | none => s.make.goto t (.registering name s.made)
      else s.goto t .outside
    | _ => s
  | .add t ok created =>
    match s.thread t with
    | .registering name c =>
      ((s.addContainer charSigned ok name c).goto t .outside).createTimeline created (some name) c
    | _ => s

end Step

/-- The register after initialization. -/
def start : Containers τ where
  register := []
  id _ := 0
  made := 0
  thread _ := .outside
  timelines := []

/-! ### One name -/

section OneName

variable (charSigned : Bool) (n : CString)

/-- The containers in the register that are found under the name. -/
def held (s : Containers τ) : List ℕ :=
  s.register.filter fun c => s.id c = djb2Hash charSigned n

/-- **The timelines of the name share a container**, which is in the register once. -/
structure OneContainer (s : Containers τ) : Prop where
  same : ∀ c c', (some n, c) ∈ s.timelines → (some n, c') ∈ s.timelines → c = c'
  once : ∀ c, (some n, c) ∈ s.timelines → s.held charSigned n = [c]
  atMost : (s.held charSigned n).length ≤ 1

/-- **The steps of a call that nobody gets in between**: a name that was not found is still not
there when a thread searches for it once more and when it adds the container. A timeline is
created only if the container could be added. -/
def Alone (s : Containers τ) : Op τ → Prop
  | .lookAgain t ok created => ∀ name, s.thread t = .absent name → ok = true → created = true →
    s.findContainer charSigned name = none
  | .add t ok created => ∀ name c, s.thread t = .registering name c →
    (ok = true → s.findContainer charSigned name = none) ∧ (created = true → ok = true)
  | _ => True

/-- A step of a call with the name, or without a name. -/
def Op.Named : Op τ → Prop
  | .find _ name _ => name = n
  | _ => True

/-- Nothing has been done with the name yet. -/
structure Untouched (s : Containers τ) : Prop where
  outside : ∀ t, s.thread t = .outside
  register_lt : ∀ c ∈ s.register, c < s.made
  held_eq : s.held charSigned n = []
  timelines : ∀ c, (some n, c) ∉ s.timelines

theorem untouched_start : Untouched charSigned n (start : Containers τ) :=
  ⟨fun _ => rfl, by simp [start], rfl, by simp [start]⟩

/-- **What holds in every state** of a run with one name: a container that is being registered
belongs to one thread and is not in the register. -/
structure Kept (s : Containers τ) : Prop where
  register_lt : ∀ c ∈ s.register, c < s.made
  absent : ∀ t name, s.thread t = .absent name → name = n
  registering : ∀ t name c, s.thread t = .registering name c →
    name = n ∧ c < s.made ∧ c ∉ s.register
  own : ∀ t t' name name' c, s.thread t = .registering name c →
    s.thread t' = .registering name' c → t = t'

variable {charSigned n} {s : Containers τ} {c : ℕ} {name : CString}

theorem findContainer_eq_none_iff :
    s.findContainer charSigned n = none ↔ s.held charSigned n = [] := by
  rw [findContainer, List.find?_eq_none, held, List.filter_eq_nil_iff]

theorem exists_held_eq_cons (h : s.findContainer charSigned n = some c) :
    ∃ cs, s.held charSigned n = c :: cs := by
  rw [findContainer, ← List.head?_filter, List.head?_eq_some_iff] at h
  exact h

/-! ### What a step does to the containers of the name -/

theorem held_make (h : ∀ c ∈ s.register, c < s.made) :
    s.make.held charSigned n = s.held charSigned n := by
  refine List.filter_congr fun c hc => ?_
  have hne : c ≠ s.made := ne_of_lt (h c hc)
  simp only [make, Function.update_of_ne hne]

theorem findContainer_make (h : ∀ c ∈ s.register, c < s.made) :
    s.make.findContainer charSigned n = s.findContainer charSigned n := by
  rw [findContainer, findContainer, ← List.head?_filter, ← List.head?_filter]
  exact congrArg List.head? (held_make h)

theorem held_addContainer (charSigned : Bool) (n : CString) (hc : c ∉ s.register) (ok : Bool) :
    (s.addContainer charSigned ok n c).held charSigned n =
      if ok then s.held charSigned n ++ [c] else s.held charSigned n := by
  have hold : s.register.filter (fun c' => decide (Function.update s.id c
      (djb2Hash charSigned n) c' = djb2Hash charSigned n)) = s.held charSigned n := by
    refine List.filter_congr fun c' hc' => ?_
    have hne : c' ≠ c := fun heq => hc (heq ▸ hc')
    simp only [Function.update_of_ne hne]
  cases ok with
  | true =>
    simp only [held, addContainer, if_true, List.filter_append] at hold ⊢
    rw [hold]
    simp
  | false => exact hold

theorem oneContainer_congr {s' : Containers τ} (hheld : s'.held charSigned n = s.held charSigned n)
    (htimelines : ∀ c, (some n, c) ∈ s'.timelines ↔ (some n, c) ∈ s.timelines) :
    OneContainer charSigned n s' ↔ OneContainer charSigned n s := by
  constructor
  · intro h
    refine ⟨fun c c' hc hc' => h.same c c' ((htimelines c).mpr hc) ((htimelines c').mpr hc'),
      fun c hc => hheld ▸ h.once c ((htimelines c).mpr hc), hheld ▸ h.atMost⟩
  · intro h
    refine ⟨fun c c' hc hc' => h.same c c' ((htimelines c).mp hc) ((htimelines c').mp hc'),
      fun c hc => hheld.trans (h.once c ((htimelines c).mp hc)), hheld ▸ h.atMost⟩

/-- **Creating a timeline of the name** with a container. -/
theorem oneContainer_createTimeline_iff {created : Bool} :
    OneContainer charSigned n (s.createTimeline created (some n) c) ↔
      OneContainer charSigned n s ∧ (created = true → s.held charSigned n = [c]) := by
  cases created with
  | false => simp [createTimeline]
  | true =>
    have hheld : (s.createTimeline true (some n) c).held charSigned n = s.held charSigned n := rfl
    have hmem : ∀ c', (some n, c') ∈ (s.createTimeline true (some n) c).timelines ↔
        (some n, c') ∈ s.timelines ∨ c' = c := by
      simp [createTimeline]
    constructor
    · intro h
      refine ⟨⟨fun c₁ c₂ h₁ h₂ => ?_, fun c₁ h₁ => ?_, hheld ▸ h.atMost⟩, fun _ => ?_⟩
      · exact h.same c₁ c₂ ((hmem c₁).mpr (.inl h₁)) ((hmem c₂).mpr (.inl h₂))
      · exact hheld ▸ h.once c₁ ((hmem c₁).mpr (.inl h₁))
      · exact hheld ▸ h.once c ((hmem c).mpr (.inr rfl))
    · rintro ⟨h, hc⟩
      have honce : ∀ c', (some n, c') ∈ (s.createTimeline true (some n) c).timelines →
          s.held charSigned n = [c'] := by
        intro c' hc'
        rcases (hmem c').mp hc' with hc' | rfl
        · exact h.once c' hc'
        · exact hc rfl
      refine ⟨fun c₁ c₂ h₁ h₂ => ?_, honce, h.atMost⟩
      have heq := (honce c₁ h₁).symm.trans (honce c₂ h₂)
      simpa using heq

/-- **Adding a container** to the register. -/
theorem oneContainer_addContainer_iff (h : OneContainer charSigned n s) (hc : c ∉ s.register)
    {ok : Bool} :
    OneContainer charSigned n (s.addContainer charSigned ok n c) ↔
      (ok = true → s.held charSigned n = []) := by
  have hheld := held_addContainer charSigned n hc ok
  cases ok with
  | false => exact iff_of_true ((oneContainer_congr hheld fun _ => Iff.rfl).mpr h) (by simp)
  | true =>
    rw [if_pos rfl] at hheld
    constructor
    · intro h' _
      have hlen := h'.atMost
      rw [hheld, List.length_append, List.length_singleton] at hlen
      exact List.length_eq_zero_iff.mp (by omega)
    · intro hempty
      -- no timeline has been created with the name
      have hnone : ∀ c', (some n, c') ∉ s.timelines := fun c' hc' => by
        have := h.once c' hc'
        rw [hempty rfl] at this
        cases this
      refine ⟨fun c₁ _ h₁ => absurd h₁ (hnone c₁), fun c₁ h₁ => absurd h₁ (hnone c₁), ?_⟩
      rw [hheld, hempty rfl]
      rfl

/-- The container that is found is the only one. -/
theorem OneContainer.held_of_find (h : OneContainer charSigned n s)
    (hfind : s.findContainer charSigned n = some c) : s.held charSigned n = [c] := by
  obtain ⟨cs, hcs⟩ := exists_held_eq_cons hfind
  have hlen := h.atMost
  rw [hcs, List.length_cons] at hlen
  rw [hcs, List.length_eq_zero_iff.mp (by omega : cs.length = 0)]

theorem held_ne_singleton (hc : c ∉ s.register) : s.held charSigned n ≠ [c] := fun h =>
  hc (List.mem_of_mem_filter (h ▸ List.mem_singleton_self c))

/-! ### Steps -/

variable [DecidableEq τ]

theorem thread_goto_cases {t t' : τ} {r r' : Creating} (h : (s.goto t r).thread t' = r') :
    t' = t ∧ r = r' ∨ t' ≠ t ∧ s.thread t' = r' := by
  by_cases ht : t' = t
  · subst ht
    exact .inl ⟨rfl, by simpa [goto] using h⟩
  · exact .inr ⟨ht, by simpa [goto, ht] using h⟩

theorem Kept.goto (h : Kept n s) {t : τ} {r : Creating}
    (habsent : ∀ name, r = .absent name → name = n)
    (hregistering : ∀ name c, r = .registering name c → name = n ∧ c < s.made ∧ c ∉ s.register ∧
      ∀ t' name', s.thread t' ≠ .registering name' c) : Kept n (s.goto t r) := by
  refine ⟨h.register_lt, fun t' name h' => ?_, fun t' name c h' => ?_,
    fun t₁ t₂ name₁ name₂ c h₁ h₂ => ?_⟩
  · rcases thread_goto_cases h' with ⟨-, h'⟩ | ⟨-, h'⟩
    · exact habsent name h'
    · exact h.absent t' name h'
  · rcases thread_goto_cases h' with ⟨-, h'⟩ | ⟨-, h'⟩
    · obtain ⟨hname, hlt, hmem, -⟩ := hregistering name c h'
      exact ⟨hname, hlt, hmem⟩
    · exact h.registering t' name c h'
  · rcases thread_goto_cases h₁ with ⟨e₁, r₁⟩ | ⟨-, r₁⟩ <;>
      rcases thread_goto_cases h₂ with ⟨e₂, r₂⟩ | ⟨-, r₂⟩
    · exact e₁.trans e₂.symm
    · exact absurd r₂ ((hregistering name₁ c r₁).2.2.2 t₂ name₂)
    · exact absurd r₁ ((hregistering name₂ c r₂).2.2.2 t₁ name₁)
    · exact h.own t₁ t₂ name₁ name₂ c r₁ r₂

theorem Kept.outside (h : Kept n s) (t : τ) : Kept n (s.goto t .outside) :=
  h.goto (by simp) (by simp)

omit [DecidableEq τ] in
theorem Kept.make (h : Kept n s) : Kept n s.make where
  register_lt c hc := Nat.lt_succ_of_lt (h.register_lt c hc)
  absent := h.absent
  registering t name c ht := by
    obtain ⟨hname, hlt, hmem⟩ := h.registering t name c ht
    exact ⟨hname, Nat.lt_succ_of_lt hlt, hmem⟩
  own := h.own

omit [DecidableEq τ] in
theorem Kept.createTimeline (h : Kept n s) (created : Bool) (name : Option CString) (c : ℕ) :
    Kept n (s.createTimeline created name c) := by
  cases created with
  | true => exact { h with }
  | false => exact h

/-- **The container goes into the register**, and the thread leaves. -/
theorem Kept.addContainer (h : Kept n s) {t : τ} (ht : s.thread t = .registering name c)
    (ok : Bool) : Kept n ((s.addContainer charSigned ok name c).goto t .outside) := by
  obtain ⟨-, hlt, -⟩ := h.registering t name c ht
  have hmem : ∀ c', c' ∈ (s.addContainer charSigned ok name c).register →
      c' ∈ s.register ∨ c' = c := by
    cases ok with
    | true => simp [Containers.addContainer]
    | false => exact fun _ hc' => .inl hc'
  have hother : ∀ t' r, ((s.addContainer charSigned ok name c).goto t .outside).thread t' = r →
      r ≠ .outside → t' ≠ t ∧ s.thread t' = r := by
    intro t' r ht' hr
    rcases thread_goto_cases ht' with ⟨-, heq⟩ | hne
    · exact absurd heq.symm hr
    · exact hne
  refine ⟨fun c' hc' => ?_, fun t' name' ht' => ?_, fun t' name' c' ht' => ?_,
    fun t₁ t₂ name₁ name₂ c' h₁ h₂ => ?_⟩
  · rcases hmem c' hc' with hc' | rfl
    · exact h.register_lt c' hc'
    · exact hlt
  · exact h.absent t' name' (hother t' _ ht' (by simp)).2
  · obtain ⟨hne, hthread⟩ := hother t' _ ht' (by simp)
    obtain ⟨hname, hlt', hreg⟩ := h.registering t' name' c' hthread
    refine ⟨hname, hlt', fun hc' => ?_⟩
    rcases hmem c' hc' with hc' | rfl
    · exact hreg hc'
    · exact hne (h.own t' t name' name c' hthread ht)
  · exact h.own t₁ t₂ name₁ name₂ c' (hother t₁ _ h₁ (by simp)).2 (hother t₂ _ h₂ (by simp)).2

theorem Kept.step (h : Kept n s) {o : Op τ} (ho : o.Named n) : Kept n (s.step charSigned o) := by
  cases o with
  | anonymous ok created =>
    rw [Containers.step]
    split
    · exact h.make.createTimeline _ _ _
    · exact h
  | find t name created =>
    have hname : name = n := ho
    rw [Containers.step]
    split
    · split
      · exact h.createTimeline _ _ _
      · refine h.goto (fun name' heq => ?_) (by simp)
        cases heq
        exact hname
    · exact h
  | lookAgain t ok created =>
    rw [Containers.step]
    split
    · next name ht =>
      split
      · split
        · exact (h.make.outside t).createTimeline _ _ _
        · refine h.make.goto (by simp) fun name' c heq => ?_
          cases heq
          refine ⟨h.absent t name ht, Nat.lt_succ_self _, fun hmem => ?_, fun t' name' ht' => ?_⟩
          · exact lt_irrefl _ (h.register_lt _ hmem)
          · exact lt_irrefl _ (h.registering t' name' _ ht').2.1
      · exact h.outside t
    · exact h
  | add t ok created =>
    rw [Containers.step]
    split
    · next name c ht =>
      exact (h.addContainer ht ok).createTimeline _ _ _
    · exact h

theorem oneContainer_goto_iff {t : τ} {r : Creating} :
    OneContainer charSigned n (s.goto t r) ↔ OneContainer charSigned n s :=
  oneContainer_congr rfl fun _ => Iff.rfl

omit [DecidableEq τ] in
theorem oneContainer_make_iff (h : Kept n s) :
    OneContainer charSigned n s.make ↔ OneContainer charSigned n s :=
  oneContainer_congr (held_make h.register_lt) fun _ => Iff.rfl

/-- **A step keeps the timelines of the name together exactly if nobody got in between.** -/
theorem oneContainer_step_iff (h : Kept n s) (hone : OneContainer charSigned n s) {o : Op τ}
    (ho : o.Named n) : OneContainer charSigned n (s.step charSigned o) ↔ Alone charSigned s o := by
  cases o with
  | anonymous ok created =>
    refine iff_of_true ?_ trivial
    rw [step]
    split
    · refine (oneContainer_congr (s := s) ?_ fun c => ?_).mpr hone
      · cases created <;> exact held_make h.register_lt
      · cases created <;> simp [createTimeline, make]
    · exact hone
  | find t name created =>
    obtain rfl : name = n := ho
    refine iff_of_true ?_ trivial
    rw [step]
    split
    · split
      · next c hfind =>
        exact oneContainer_createTimeline_iff.mpr ⟨hone, fun _ => hone.held_of_find hfind⟩
      · exact oneContainer_goto_iff.mpr hone
    · exact hone
  | lookAgain t ok created =>
    simp only [step, Alone]
    cases ht : s.thread t with
    | absent name =>
      obtain rfl := h.absent t name ht
      simp only [Creating.absent.injEq, forall_eq', findContainer_make h.register_lt]
      cases ok with
      | false => simpa [oneContainer_goto_iff] using hone
      | true =>
        cases hfind : s.findContainer charSigned name with
        | none => simpa [oneContainer_goto_iff, oneContainer_make_iff h] using hone
        | some c =>
          have hne : s.make.held charSigned name ≠ [s.made] := held_ne_singleton fun hmem =>
            lt_irrefl _ (h.register_lt _ hmem)
          simp only [if_true, oneContainer_createTimeline_iff, oneContainer_goto_iff,
            oneContainer_make_iff h]
          exact ⟨fun h' _ hcreated => absurd (h'.2 hcreated) hne,
            fun h' => ⟨hone, fun hcreated => nomatch h' trivial hcreated⟩⟩
    | outside | registering => simpa using hone
  | add t ok created =>
    simp only [step, Alone]
    cases ht : s.thread t with
    | registering name c =>
      obtain ⟨rfl, -, hc⟩ := h.registering t name c ht
      have hheld := held_addContainer charSigned name hc ok
      have hgoto : ((s.addContainer charSigned ok name c).goto t .outside).held charSigned name =
          (s.addContainer charSigned ok name c).held charSigned name := rfl
      rw [oneContainer_createTimeline_iff, oneContainer_goto_iff,
        oneContainer_addContainer_iff hone hc, hgoto, hheld]
      simp only [Creating.registering.injEq, and_imp, forall_apply_eq_imp_iff, forall_eq',
        findContainer_eq_none_iff]
      cases ok with
      | false =>
        have hne : s.held charSigned name ≠ [c] := held_ne_singleton hc
        simp [hne]
      | true =>
        simp only [if_true, forall_const, implies_true, and_true]
        exact ⟨fun h' => h'.1, fun h' => ⟨h', fun _ => by rw [h']; rfl⟩⟩
    | outside | absent => simpa using hone

/-- **When the timelines of a name share one container.** In a run of calls with one listener
name, by any number of threads, all timelines of the name hold the same container and the
register has it once, in every state, exactly if a name that a call has not found is still
not registered at the call's later steps, and timelines are created only with a container
that could be added. -/
theorem one_container_iff (s₀ : Containers τ) (h₀ : Untouched charSigned n s₀)
    (os : List (Op τ)) (hos : ∀ o ∈ os, o.Named n) :
    Throughout (step charSigned) (OneContainer charSigned n) s₀ os ↔
      StepsMeet (step charSigned) (Alone charSigned) s₀ os := by
  have hkept : Kept n s₀ := by
    refine ⟨h₀.register_lt, fun t name ht => ?_, fun t name c ht => ?_,
      fun t t' name name' c ht => ?_⟩ <;>
      · rw [h₀.outside t] at ht
        cases ht
  have hone : OneContainer charSigned n s₀ :=
    ⟨fun c _ hc => absurd hc (h₀.timelines c), fun c hc => absurd hc (h₀.timelines c),
      by rw [h₀.held_eq]; exact Nat.zero_le 1⟩
  exact throughout_iff_of_step (fun _ _ h ho => h.step ho)
    (fun _ _ h ho hone => oneContainer_step_iff h hone ho) hkept hone (stepsMeet_const_iff.mpr hos)

theorem one_container_iff_sample :
    Untouched true (cstr "HT_GlobalTimeline") (start : Containers Bool) ∧
    (Throughout (step true) (OneContainer true (cstr "HT_GlobalTimeline")) (start : Containers Bool)
        [.find true (cstr "HT_GlobalTimeline") true, .lookAgain true true true,
          .add true true true, .find false (cstr "HT_GlobalTimeline") true] ↔
      StepsMeet (step true) (Alone true) (start : Containers Bool)
        [.find true (cstr "HT_GlobalTimeline") true, .lookAgain true true true,
          .add true true true, .find false (cstr "HT_GlobalTimeline") true]) :=
  ⟨untouched_start true _, one_container_iff start (untouched_start true _) _
    fun o ho => by
      simp only [List.mem_cons, List.not_mem_nil, or_false] at ho
      rcases ho with rfl | rfl | rfl | rfl <;> first | rfl | trivial⟩

/-- Two threads search for a name before either of them has registered it. -/
def twoSearches : List (Op Bool) :=
  [.find true (cstr "HT_GlobalTimeline") true, .find false (cstr "HT_GlobalTimeline") true,
    .lookAgain true true true, .add true true true, .lookAgain false true true]

/-- **The second thread keeps a container of its own**: its timeline has the name, and the
listeners of the name do not receive its events. -/
theorem second_container :
    ¬ Throughout (step true) (OneContainer true (cstr "HT_GlobalTimeline"))
        (start : Containers Bool) twoSearches ∧
      (runFrom (step true) (start : Containers Bool) twoSearches).timelines =
        [(some (cstr "HT_GlobalTimeline"), 0), (some (cstr "HT_GlobalTimeline"), 1)] ∧
      (runFrom (step true) (start : Containers Bool) twoSearches).register = [0] := by
  have htimelines : (runFrom (step true) (start : Containers Bool) twoSearches).timelines =
      [(some (cstr "HT_GlobalTimeline"), 0), (some (cstr "HT_GlobalTimeline"), 1)] := by decide
  refine ⟨fun h => ?_, htimelines, by decide⟩
  have hsame := h.last.same 0 1
  rw [htimelines] at hsame
  exact absurd (hsame (by simp) (by simp)) (by decide)

end OneName

/-! ### One call after another -/

section Sequential

variable (charSigned : Bool)

/-- The steps of a call of `ht_timeline_create` with everything it needs. -/
def call : Option CString → List (Op Unit)
  | none => [.anonymous true true]
  | some name => [.find () name true, .lookAgain () true true, .add () true true]

/-- **Between two calls**: the registered containers have different hashes, a timeline with a
name has the container with its hash, and a timeline without a name has one of its own. -/
structure Between (s : Containers Unit) : Prop where
  outside : s.thread () = .outside
  register_lt : ∀ c ∈ s.register, c < s.made
  timelines_lt : ∀ p ∈ s.timelines, p.2 < s.made
  nodup : (s.register.map s.id).Nodup
  named : ∀ n c, (some n, c) ∈ s.timelines → c ∈ s.register ∧ s.id c = djb2Hash charSigned n
  unnamed : ∀ c, (none, c) ∈ s.timelines → c ∉ s.register
  shared : s.timelines.Pairwise fun p q => p.2 = q.2 ↔
    ∃ m n, p.1 = some m ∧ q.1 = some n ∧ djb2Hash charSigned m = djb2Hash charSigned n

theorem between_start : Between charSigned start where
  outside := rfl
  register_lt := by simp [start]
  timelines_lt := by simp [start]
  nodup := List.nodup_nil
  named := by simp [start]
  unnamed := by simp [start]
  shared := List.Pairwise.nil

variable {charSigned} {s : Containers Unit} {name : CString} {c : ℕ}

theorem mem_of_findContainer (h : s.findContainer charSigned name = some c) :
    c ∈ s.register ∧ s.id c = djb2Hash charSigned name :=
  ⟨List.mem_of_find?_eq_some h, by simpa using List.find?_some h⟩

theorem id_ne_of_findContainer (h : s.findContainer charSigned name = none) :
    ∀ c ∈ s.register, s.id c ≠ djb2Hash charSigned name := by
  simpa [findContainer] using h

section

variable (h : Between charSigned s)

include h

/-- A call with a name that is found. -/
theorem runFrom_call_found (hfind : s.findContainer charSigned name = some c) :
    runFrom (step charSigned) s (call (some name)) =
      { s with timelines := s.timelines ++ [(some name, c)] } := by
  simp [call, step, h.outside, hfind, createTimeline]

/-- A call with a name that is not found. -/
theorem runFrom_call_absent (hfind : s.findContainer charSigned name = none) :
    runFrom (step charSigned) s (call (some name)) =
      { s with
        register := s.register ++ [s.made]
        id := Function.update (Function.update s.id s.made 0) s.made (djb2Hash charSigned name)
        made := s.made + 1
        timelines := s.timelines ++ [(some name, s.made)] } := by
  have hfind' : s.make.findContainer charSigned name = none :=
    (findContainer_make h.register_lt).trans hfind
  -- the thread is where it was
  have hthread : Function.update s.thread () .outside = s.thread := by
    rw [← h.outside, Function.update_eq_self]
  have hagain : ((s.goto () (.absent name)).make).findContainer charSigned name = none := hfind'
  simp only [call, runFrom_cons, runFrom_nil, step, h.outside, hfind]
  simp only [goto, Function.update_self, if_true] at hagain ⊢
  simp only [hagain, Function.update_self]
  simp only [createTimeline, addContainer, make, if_true, Function.update_idem, hthread]

/-- Changing the `id` of a container that is not registered yet. -/
theorem Between.update_id (x : UInt32) :
    ∀ c ∈ s.register, Function.update s.id s.made x c = s.id c := fun c hc =>
  Function.update_of_ne (ne_of_lt (h.register_lt c hc)) _ _

theorem Between.nodup_update (x : UInt32) :
    (s.register.map (Function.update s.id s.made x)).Nodup := by
  rw [List.map_congr_left (h.update_id x)]
  exact h.nodup

/-- **A call without a name** makes a container that no other timeline has. -/
theorem Between.anonymous :
    Between charSigned { s.make with timelines := s.timelines ++ [(none, s.made)] } where
  outside := h.outside
  register_lt c hc := Nat.lt_succ_of_lt (h.register_lt c hc)
  timelines_lt p hp := by
    rcases List.mem_append.mp hp with hp | hp
    · exact Nat.lt_succ_of_lt (h.timelines_lt p hp)
    · rw [List.mem_singleton.mp hp]
      exact Nat.lt_succ_self _
  nodup := h.nodup_update 0
  named n c hc := by
    obtain ⟨hmem, hid⟩ := h.named n c (by simpa using hc)
    exact ⟨hmem, (h.update_id 0 c hmem).trans hid⟩
  unnamed c hc := by
    rcases List.mem_append.mp hc with hc | hc
    · exact h.unnamed c hc
    · obtain ⟨-, rfl⟩ := Prod.mk.inj (List.mem_singleton.mp hc)
      exact fun hmem => lt_irrefl _ (h.register_lt _ hmem)
  shared := by
    refine List.pairwise_append.mpr ⟨h.shared, List.pairwise_singleton _ _, fun p hp q hq => ?_⟩
    rw [List.mem_singleton.mp hq]
    refine iff_of_false (ne_of_lt (h.timelines_lt p hp)) ?_
    rintro ⟨m, n, -, hn, -⟩
    cases hn

/-- **A call with a name that is found** shares the container with the timelines whose names
have the same hash. -/
theorem Between.found (hfind : s.findContainer charSigned name = some c) :
    Between charSigned { s with timelines := s.timelines ++ [(some name, c)] } := by
  obtain ⟨hc, hid⟩ := mem_of_findContainer hfind
  refine ⟨h.outside, h.register_lt, fun p hp => ?_, h.nodup, fun n c' hc' => ?_,
    fun c' hc' => ?_, ?_⟩
  · rcases List.mem_append.mp hp with hp | hp
    · exact h.timelines_lt p hp
    · rw [List.mem_singleton.mp hp]
      exact h.register_lt c hc
  · rcases List.mem_append.mp hc' with hc' | hc'
    · exact h.named n c' hc'
    · obtain ⟨hn, rfl⟩ := Prod.mk.inj (List.mem_singleton.mp hc')
      cases hn
      exact ⟨hc, hid⟩
  · exact h.unnamed c' (by simpa using hc')
  · refine List.pairwise_append.mpr ⟨h.shared, List.pairwise_singleton _ _, fun p hp q hq => ?_⟩
    rw [List.mem_singleton.mp hq]
    obtain ⟨nm, c'⟩ := p
    cases nm with
    | none =>
      have hne : c' ≠ c := fun heq => h.unnamed c' hp (heq ▸ hc)
      refine iff_of_false hne ?_
      rintro ⟨m, n, hm, -⟩
      cases hm
    | some m =>
      obtain ⟨hc', hid'⟩ := h.named m c' hp
      constructor
      · rintro rfl
        exact ⟨m, name, rfl, rfl, hid'.symm.trans hid⟩
      · rintro ⟨m', n', hm', hn', heq⟩
        cases hm'
        cases hn'
        exact List.inj_on_of_nodup_map h.nodup hc' hc ((hid'.trans heq).trans hid.symm)

/-- **A call with a name that is not found** registers a new container. -/
theorem Between.absent (hfind : s.findContainer charSigned name = none) :
    Between charSigned (runFrom (step charSigned) s (call (some name))) := by
  rw [runFrom_call_absent h hfind]
  have hne := id_ne_of_findContainer hfind
  simp only [Function.update_idem]
  have hid : Function.update s.id s.made (djb2Hash charSigned name) s.made =
      djb2Hash charSigned name := Function.update_self _ _ _
  refine ⟨h.outside, fun c' hc' => ?_, fun p hp => ?_, ?_, fun n c' hc' => ?_, fun c' hc' => ?_, ?_⟩
  · rcases List.mem_append.mp hc' with hc' | hc'
    · exact Nat.lt_succ_of_lt (h.register_lt c' hc')
    · exact List.mem_singleton.mp hc' ▸ Nat.lt_succ_self _
  · rcases List.mem_append.mp hp with hp | hp
    · exact Nat.lt_succ_of_lt (h.timelines_lt p hp)
    · rw [List.mem_singleton.mp hp]
      exact Nat.lt_succ_self _
  · rw [List.map_append, List.map_singleton]
    refine List.nodup_append.mpr ⟨h.nodup_update _, List.nodup_singleton _, fun x hx y hy => ?_⟩
    obtain ⟨c', hc', rfl⟩ := List.mem_map.mp hx
    rw [List.mem_singleton.mp hy]
    dsimp only
    rw [hid, h.update_id _ c' hc']
    exact hne c' hc'
  · rcases List.mem_append.mp hc' with hc' | hc'
    · obtain ⟨hmem, hid'⟩ := h.named n c' hc'
      exact ⟨List.mem_append_left _ hmem, (h.update_id _ c' hmem).trans hid'⟩
    · obtain ⟨hn, rfl⟩ := Prod.mk.inj (List.mem_singleton.mp hc')
      cases hn
      exact ⟨List.mem_append_right _ (List.mem_singleton_self _), hid⟩
  · have hc'' : (none, c') ∈ s.timelines := by simpa using hc'
    have hlt := h.timelines_lt _ hc''
    simp only [List.mem_append, List.mem_singleton, not_or]
    exact ⟨h.unnamed c' hc'', ne_of_lt hlt⟩
  · refine List.pairwise_append.mpr ⟨h.shared, List.pairwise_singleton _ _, fun p hp q hq => ?_⟩
    rw [List.mem_singleton.mp hq]
    refine iff_of_false (ne_of_lt (h.timelines_lt p hp)) ?_
    -- a timeline whose name has the same hash would have a container that is found
    rintro ⟨m, n, hm, hn, heq⟩
    cases hn
    obtain ⟨hmem, hid'⟩ := h.named m p.2 (hm ▸ hp)
    exact hne p.2 hmem (hid'.trans heq)

/-- **A call between two calls** creates one timeline. -/
theorem Between.call (name : Option CString) :
    Between charSigned (runFrom (step charSigned) s (call name)) ∧
      (runFrom (step charSigned) s (Containers.call name)).timelines.map Prod.fst =
        s.timelines.map Prod.fst ++ [name] := by
  cases name with
  | none => exact ⟨h.anonymous, List.map_append⟩
  | some name =>
    cases hfind : s.findContainer charSigned name with
    | some c =>
      rw [runFrom_call_found h hfind]
      exact ⟨h.found hfind, by simp⟩
    | none =>
      exact ⟨h.absent hfind, by simp [runFrom_call_absent h hfind]⟩

/-- **A sequence of calls.** -/
theorem Between.calls (names : List (Option CString)) :
    Between charSigned (runFrom (step charSigned) s (names.flatMap Containers.call)) ∧
      (runFrom (step charSigned) s (names.flatMap Containers.call)).timelines.map Prod.fst =
        s.timelines.map Prod.fst ++ names := by
  induction names generalizing s with
  | nil => exact ⟨h, (List.append_nil _).symm⟩
  | cons name names ih =>
    obtain ⟨hcall, hnames⟩ := h.call name
    have hrun : runFrom (step charSigned) s ((name :: names).flatMap Containers.call) =
        runFrom (step charSigned) (runFrom (step charSigned) s (Containers.call name))
          (names.flatMap Containers.call) := List.foldl_append
    obtain ⟨hrest, hall⟩ := ih hcall
    rw [hrun]
    exact ⟨hrest, by rw [hall, hnames, List.append_assoc]; rfl⟩

end

/-- **Sharing follows the names**: two timelines have the same container if and only if both
were given a name and the names are equal. -/
def SharingFollowsNames (timelines : List (Option CString × ℕ)) : Prop :=
  timelines.Pairwise fun p q => p.2 = q.2 ↔ ∃ n, p.1 = some n ∧ q.1 = some n

/-- **When sharing follows the names.** For calls of `ht_timeline_create` one after another,
with any names or none, two timelines have the same container exactly if they have the same
name – if and only if no two of the names have the same hash. -/
theorem sharing_iff (charSigned : Bool) (names : List (Option CString)) :
    (runFrom (step charSigned) start (names.flatMap call)).timelines.map Prod.fst = names ∧
      (SharingFollowsNames (runFrom (step charSigned) start (names.flatMap call)).timelines ↔
        Set.InjOn (djb2Hash charSigned) {n | some n ∈ names}) := by
  obtain ⟨hbetween, hnames⟩ := (between_start charSigned).calls names
  replace hnames : _ = names := hnames
  generalize (runFrom (step charSigned) start (names.flatMap call)) = s at hbetween hnames ⊢
  refine ⟨hnames, fun hfollows m hm n hn heq => ?_, fun hinj => ?_⟩
  · obtain ⟨p, hp, hpm⟩ := List.mem_map.mp (hnames.symm ▸ hm : some m ∈ s.timelines.map Prod.fst)
    obtain ⟨q, hq, hqn⟩ := List.mem_map.mp (hnames.symm ▸ hn : some n ∈ s.timelines.map Prod.fst)
    by_cases hpq : p = q
    · rw [hpq, hqn] at hpm
      exact (Option.some.inj hpm).symm
    · -- both names lead to the one container with the hash
      obtain ⟨hpmem, hpid⟩ := hbetween.named m p.2 (hpm ▸ hp)
      obtain ⟨hqmem, hqid⟩ := hbetween.named n q.2 (hqn ▸ hq)
      have hshared : p.2 = q.2 := List.inj_on_of_nodup_map hbetween.nodup hpmem hqmem
        ((hpid.trans heq).trans hqid.symm)
      have hsymm : Std.Symm fun p q : Option CString × ℕ =>
          p.2 = q.2 ↔ ∃ n, p.1 = some n ∧ q.1 = some n := by
        refine ⟨fun p q h => ?_⟩
        rw [eq_comm, h]
        exact exists_congr fun _ => and_comm
      obtain ⟨l, hpl, hql⟩ := (hfollows.forall hp hq hpq).mp hshared
      exact Option.some.inj (hpm.symm.trans (hpl.trans (hql.symm.trans hqn)))
  · have hmem : ∀ p ∈ s.timelines, ∀ n, p.1 = some n → some n ∈ names := by
      intro p hp n hn
      exact hnames ▸ List.mem_map.mpr ⟨p, hp, hn⟩
    refine hbetween.shared.imp_of_mem fun {p q} hp hq hshared => hshared.trans ?_
    constructor
    · rintro ⟨m, n, hm, hn, heq⟩
      exact ⟨m, hm, hinj (hmem p hp m hm) (hmem q hq n hn) heq ▸ hn⟩
    · rintro ⟨n, hp, hq⟩
      exact ⟨n, n, hp, hq, rfl⟩

/-- **Two names with one hash share a container.** -/
theorem shared_by_two_names :
    cstr "aB" ≠ cstr "b!" ∧
      (runFrom (step true) start ([some (cstr "aB"), some (cstr "b!")].flatMap call)).timelines =
        [(some (cstr "aB"), 0), (some (cstr "b!"), 0)] ∧
      ¬ SharingFollowsNames
        (runFrom (step true) start
          ([some (cstr "aB"), some (cstr "b!")].flatMap call)).timelines := by
  have hne : cstr "aB" ≠ cstr "b!" := by decide
  have htimelines :
      (runFrom (step true) start ([some (cstr "aB"), some (cstr "b!")].flatMap call)).timelines =
        [(some (cstr "aB"), 0), (some (cstr "b!"), 0)] := by decide
  refine ⟨hne, htimelines, fun h => ?_⟩
  rw [htimelines, SharingFollowsNames, List.pairwise_pair] at h
  obtain ⟨n, hn, hn'⟩ := h.mp rfl
  exact hne (Option.some.inj (hn.trans hn'.symm))

end Sequential

end Containers

end HawkTracer.Lib
