import HawkTracer.Lib.Metadata

/-!
# The staging buffer in both forms

`ht_registry_push_registry_klasses_to_listener` collects the descriptions of the klasses in a
buffer of 4096 bytes. Before an event is written, `get_size` is compared with the room that is
left. That is the size of the serialized event. A listener that takes whole structs is given the
struct, which has 48 or 64 bytes whatever the names, and which is longer than the serialized event
if the names are short. And an event that does not fit the empty buffer is written all the same.

The position is a cursor that depends on the sizes only
(`HawkTracer.Lib.StagedForms.cursor`), and the staging is right exactly if along the cursor no
event is let in that has no room (`HawkTracer.Lib.StagedForms.complete_iff`).
-/

namespace HawkTracer.Lib

namespace StagedForms

/-! ### What staging is for -/

/-- The bytes one round writes: where they start, and how many they are. -/
def write (H : Host) (serialize : Bool) (st : Staging) (e : Instance) : ℕ × ℕ :=
  ((st.checkRoom e).dataPos,
    (serializeEventToBuffer H e ((st.checkRoom e).data.drop (st.checkRoom e).dataPos) serialize).1)

/-- The writes of the staging loops. -/
def writes (H : Host) (serialize : Bool) : Staging → List Instance → List (ℕ × ℕ)
  | _, [] => []
  | st, e :: es => write H serialize st e :: writes H serialize (st.stage H serialize e) es

/-- **The staging is complete and in bounds.** The loops are the run over the descriptions by
`HawkTracer.Lib.pushKlassesFrom_eq`. -/
structure Complete (H : Host) (stamps : ℕ → Stamp) (serialize : Bool) (registry : List Klass) :
    Prop where
  inBounds : ∀ w ∈ writes H serialize .start (descriptions stamps 0 0 registry),
    w.1 + w.2 ≤ registryListenerBuffSize
  /-- No event is split, none is left out, and they come in their order. -/
  groups : ∃ groups : List (List Instance), groups.flatten = descriptions stamps 0 0 registry ∧
    (pushRegistryKlassesToListener H stamps serialize registry).1 =
      groups.map (fun g => g.flatMap (H.form serialize))
  returns : (pushRegistryKlassesToListener H stamps serialize registry).2 =
    (pushRegistryKlassesToListener H stamps serialize registry).1.flatten.length

/-! ### The cursor -/

/-- The bytes an event takes in the buffer. -/
def takes (serialize : Bool) (e : Instance) : ℕ := if serialize then e.getSize else e.klass.size

/-- The position after an event that arrives at `pos`. -/
def cursor (serialize : Bool) (pos : ℕ) (e : Instance) : ℕ :=
  (if e.getSize > registryListenerBuffSize - pos then 0 else pos) + takes serialize e

/-- **The room check is right about the event**: a serialized event is not larger than the buffer,
and a struct is not let in where only its serialized form would fit. -/
def Checked (serialize : Bool) (pos : ℕ) (e : Instance) : Prop :=
  if serialize then e.getSize ≤ registryListenerBuffSize
  else e.getSize ≤ registryListenerBuffSize - pos → e.klass.size ≤ registryListenerBuffSize - pos

instance (serialize : Bool) (pos : ℕ) (e : Instance) : Decidable (Checked serialize pos e) := by
  unfold Checked
  infer_instance

theorem fst_serializeEventToBuffer (H : Host) (e : Instance) (buffer : List UInt8)
    (serialize : Bool) :
    (serializeEventToBuffer H e buffer serialize).1 = (H.form serialize e).length := by
  rw [H.length_form]
  cases serialize with
  | true =>
    exact (e.klass.fields.serializeFrom_fst H.order e.val 0 buffer).trans (Nat.zero_add _)
  | false => rfl

variable {serialize : Bool} {st : Staging}

/-- **A write is in bounds exactly if the form fits.** -/
theorem write_inBounds_iff {H : Host} {e : Instance} :
    (write H serialize st e).1 + (write H serialize st e).2 ≤ registryListenerBuffSize ↔
      st.FormFits H serialize e := by
  rw [write, fst_serializeEventToBuffer, Staging.FormFits]

theorem forall_writes_iff {H : Host} {es : List Instance} :
    (∀ w ∈ writes H serialize st es, w.1 + w.2 ≤ registryListenerBuffSize) ↔
      StepsMeet (Staging.stage H serialize) (Staging.FormFits H serialize) st es := by
  induction es generalizing st with
  | nil => exact iff_of_true (fun _ h => nomatch h) trivial
  | cons e es ih => rw [writes, List.forall_mem_cons, ih, write_inBounds_iff, StepsMeet]

theorem dataPos_checkRoom (hpos : st.dataPos ≤ registryListenerBuffSize) (e : Instance) :
    (st.checkRoom e).dataPos =
      if e.getSize > registryListenerBuffSize - st.dataPos then 0 else st.dataPos := by
  rw [Staging.checkRoom, subSizeT_of_le hpos (by decide)]
  split <;> rfl

/-- **The cursor is the position.** -/
theorem dataPos_stage {H : Host} (hpos : st.dataPos ≤ registryListenerBuffSize) (e : Instance) :
    (st.stage H serialize e).dataPos = cursor serialize st.dataPos e := by
  have hstage : (st.stage H serialize e).dataPos = (write H serialize st e).1 +
      (write H serialize st e).2 := rfl
  rw [hstage, write, fst_serializeEventToBuffer, H.length_form, dataPos_checkRoom hpos, cursor,
    takes]

/-- **The form fits exactly if the room check is right about the event.** -/
theorem formFits_iff {H : Host} {e : Instance} (he : e.IsDescription)
    (hpos : st.dataPos ≤ registryListenerBuffSize) :
    st.FormFits H serialize e ↔ Checked serialize st.dataPos e := by
  have hklass := (he.length_form H serialize).2
  rw [Staging.FormFits, dataPos_checkRoom hpos, H.length_form]
  cases serialize with
  | true =>
    simp only [Checked, if_true]
    split <;> omega
  | false =>
    simp only [Checked, Bool.false_eq_true, if_false]
    split <;> omega

/-- The condition along the staging is the condition along the cursor. -/
theorem stepsMeet_iff {H : Host} {es : List Instance} (hes : ∀ e ∈ es, e.IsDescription)
    {groups : List (List Instance)} {current : List Instance}
    (h : st.Groups H serialize groups current) :
    StepsMeet (Staging.stage H serialize) (Staging.FormFits H serialize) st es ↔
      StepsMeet (cursor serialize) (Checked serialize) st.dataPos es := by
  induction es generalizing st groups current with
  | nil => rfl
  | cons e es ih =>
    obtain ⟨he, hes⟩ := List.forall_mem_cons.mp hes
    rw [StepsMeet, StepsMeet, formFits_iff he h.dataPos_le]
    refine and_congr_right fun hchecked => ?_
    have hfit := (formFits_iff (H := H) he h.dataPos_le).mpr hchecked
    obtain ⟨_, _, h', -⟩ := h.pushEvent he.baseFirst (he.length_form H serialize).1 hfit
    rw [← dataPos_stage (H := H) h.dataPos_le]
    exact ih hes h'

theorem complete_iff_stepsMeet (H : Host) (stamps : ℕ → Stamp) (serialize : Bool)
    (registry : List Klass) :
    Complete H stamps serialize registry ↔
      StepsMeet (cursor serialize) (Checked serialize) 0 (descriptions stamps 0 0 registry) := by
  have hiff := stepsMeet_iff
    (fun e (he : e ∈ descriptions stamps 0 0 registry) => isDescription_of_mem he)
    (Staging.groups_start H serialize)
  refine ⟨fun h => hiff.mp (forall_writes_iff.mp h.inBounds), fun h => ?_⟩
  have hfits := hiff.mpr h
  obtain ⟨groups, hgroups, hchunks, hreturns⟩ := exists_groups hfits
  exact ⟨forall_writes_iff.mpr hfits, ⟨groups, hgroups, hchunks⟩,
    by rw [hreturns, List.length_flatten]⟩

/-- **The staging is complete and in bounds** exactly if no serialized description is larger than
the buffer, and no struct is let in where only the serialized event has room. -/
theorem complete_iff (H : Host) (stamps : ℕ → Stamp) (serialize : Bool) (registry : List Klass) :
    Complete H stamps serialize registry ↔
      if serialize then ∀ K ∈ registry, K.FitsStaging
      else StepsMeet (cursor false) (Checked false) 0 (descriptions stamps 0 0 registry) := by
  rw [complete_iff_stepsMeet]
  cases serialize with
  | false => rfl
  | true =>
    rw [if_pos rfl, ← forall_getSize_le_iff stamps]
    exact stepsMeet_const_iff (C := fun e : Instance => e.getSize ≤ registryListenerBuffSize)

/-! ### Short names -/

/-- A klass with four fields besides its base. -/
def quadKlass (typeName : CString) : Klass :=
  declareEventKlass typeName htEventKlass
    [integerField "int" true 4 "x", integerField "int" true 4 "y", integerField "int" true 4 "z",
     integerField "int" true 4 "w"] 40

/-- A klass with three. -/
def tripleKlass (typeName : CString) : Klass :=
  declareEventKlass typeName htEventKlass
    [integerField "int" true 4 "x", integerField "int" true 4 "y", integerField "int" true 4 "z"] 40

/-- **A struct behind the end of the buffer**: five klasses with 23 fields in all, their bases
included, are registered after those of the library. The sixth finds the buffer filled up to the
last 48 bytes when its base is described. The 47 bytes of that event would fit, and its struct of
64 bytes is written. -/
theorem struct_out_of_bounds :
    ¬ Complete sampleHost sampleStamps false (coreKlasses ++
      [quadKlass (cstr "QuadEvent"), quadKlass (cstr "RectEvent"), quadKlass (cstr "RangeEvent"),
        tripleKlass (cstr "TripleEvent"), tripleKlass (cstr "PointEvent"),
        quadKlass (cstr "PlaneEvent")]) := by
  rw [complete_iff_stepsMeet]
  decide +kernel

end StagedForms

end HawkTracer.Lib
