import HawkTracer.Client.ChromeTrace
import HawkTracer.Parser.Reader

/-!
# The values of delivered events

A converter is given the events that a reader delivers, whatever the file is. It takes their
values out of the union by the type of the field. That cannot go wrong: the reader stores a value
as the type of its field says (`HawkTracer.Client.stored_readEvents`).

What the Chrome converter reads without such a check is all in `_get_label`. So it comes to the end
of a file exactly if the labels of all its events can be found
(`HawkTracer.Client.exists_convert_iff`).
-/

namespace HawkTracer.Client

open HawkTracer.Parser ChromeTrace

/-! ### What the reader stores -/

/-- Every value is stored as the type of its field says. -/
def Stored (e : Event) : Prop := ∀ v ∈ e.values, ChromeTrace.IsStored v

section Reading

variable {σ : Type} {P : Platform} {R : KlassRegister} {flat : Bool} {e : Event}

theorem stored_new (klass : Option UInt32) : Stored (.new klass) := by
  rintro v ⟨⟩

theorem Stored.setValue (h : Stored e) {f : EventKlassField} {x : FieldType}
    (hx : ChromeTrace.IsStored (f, x)) : Stored (e.setValue P f x) := by
  intro v hv
  rw [Event.values_setValue] at hv
  by_cases htaken : f.name ∈ e.values.map Value.name
  · rw [insertNew_of_mem htaken] at hv
    exact h v hv
  · rw [insertNew_of_not_mem htaken] at hv
    rcases List.mem_append.mp hv with hv | hv
    · exact h v hv
    · rw [List.mem_singleton.mp hv]
      exact hx

theorem Stored.merge {e' : Event} (h : Stored e) (h' : Stored e') : Stored (e.merge P e') := by
  have hall : ∀ (vs : List Value) (e : Event), (∀ v ∈ vs, ChromeTrace.IsStored v) → Stored e →
      Stored (e.setAll P vs) := by
    intro vs
    induction vs with
    | nil => exact fun e _ he => he
    | cons v vs ih =>
      intro e hvs he
      obtain ⟨hv, hvs⟩ := List.forall_mem_cons.mp hvs
      exact ih _ hvs (he.setValue hv)
  exact hall e'.values e h' h

/-- A struct and a pointer can hold anything. -/
theorem isStored_num (f : EventKlassField) (hf : f.typeId ≠ .string) (n : ℕ) :
    ChromeTrace.IsStored (f, .num f.typeId n) := by
  rw [ChromeTrace.IsStored]
  cases ht : f.typeId with
  | string => exact absurd ht hf
  | pointer | struct => trivial
  | _ => exact ⟨n, rfl⟩

variable {input : Input σ} {readSub : Event → Option Event → σ → EventResult σ}
  {base : Option Event} {r : Event × Option Event}

section

variable (hsub : ∀ {e base s r s'}, Stored e → readSub e base s = .ok r s' → Stored r.1)
  {f : EventKlassField} {s s' : σ}

include hsub

theorem Stored.readStruct (hf : f.typeId = .struct) (he : Stored e)
    (h : readStruct P R flat readSub f e base s = .ok r s') : Stored r.1 := by
  have hstored : ∀ x, ChromeTrace.IsStored (f, x) := fun x => by
    rw [ChromeTrace.IsStored, hf]
    trivial
  unfold Parser.readStruct at h
  split at h
  · split at h
    · cases h
      exact he
    · cases base with
      | none => cases h
      | some b =>
        cases h
        exact he.setValue (hstored _)
  · obtain ⟨r', s'', hr', h⟩ := Result.bind_eq_ok_iff.mp h
    split at h
    · cases h
      exact he.merge (hsub (stored_new _) hr')
    · cases h
      exact he.setValue (hstored _)

/-- One field. -/
theorem Stored.readField (he : Stored e)
    (h : readField P input R flat readSub f e base s = .ok r s') : Stored r.1 := by
  unfold Parser.readField at h
  split at h
  · next hf => exact he.readStruct hsub hf h
  · next hf =>
    obtain ⟨v, s'', -, h⟩ := Result.bind_eq_ok_iff.mp h
    cases h
    refine he.setValue ?_
    rw [ChromeTrace.IsStored, hf]
    exact ⟨v, rfl⟩
  · next hstring =>
    obtain ⟨n, s'', -, h⟩ := Result.bind_eq_ok_iff.mp h
    cases h
    exact he.setValue (isStored_num f hstring n)

theorem Stored.readFields {fs : List EventKlassField} (he : Stored e)
    (h : readFields P input R flat readSub fs e base s = .ok r s') : Stored r.1 := by
  induction fs generalizing e base s with
  | nil =>
    cases h
    exact he
  | cons f fs ih =>
    obtain ⟨r', s'', hf, hfs⟩ := Result.bind_eq_ok_iff.mp h
    exact ih (he.readField hsub hf) hfs

end

/-- **What is read is stored as the types say**, at every depth. -/
theorem Stored.readEvent {depth : ℕ} (he : Stored e) {s s' : σ}
    (h : readEvent P input R flat depth e base s = .ok r s') : Stored r.1 := by
  induction depth generalizing e base s s' r with
  | zero => cases h
  | succ depth ih =>
    rw [Parser.readEvent] at h
    split at h
    · cases h
    · exact he.readFields (fun he h => ih he h) h

end Reading

/-! ### What the reader delivers -/

section Loop

variable {σ : Type} {P : Platform} {input : UInt8 → Input σ} {flat : Bool} {depth : ℕ}
  {r : Reader σ} {header event : Event}

/-- What a reader has delivered so far is stored as the types say. -/
def AllStored (r : Reader σ) : Prop := ∀ d ∈ r.delivered, Stored d.event

theorem AllStored.called (h : AllStored r) (he : Stored event) {x : Reader σ × Option Stop}
    (hx : r.Called P header event x) : AllStored x.1 := by
  rcases hx with ⟨c, w⟩ | ⟨c, -⟩
  · exact h
  · intro d hd
    rcases List.mem_append.mp hd with hd | hd
    · exact h d hd
    · rw [List.mem_singleton.mp hd]
      exact he

/-- One round. -/
theorem AllStored.step (h : AllStored r) : AllStored (r.step P input flat depth).1 := by
  have hround := r.round_step P input flat depth
  generalize r.step P input flat depth = x at hround
  rcases hround with ⟨s, w⟩ | @⟨header, base, s, _, hread, hcalled⟩ |
    @⟨header, event, base, base', s, s', klassId, _, hread, -, hbody, hcalled⟩
  · exact h
  · exact AllStored.called (r := { r with stream := s }) h ((stored_new _).readEvent hread) hcalled
  · have hheader : Stored header := (stored_new _).readEvent hread
    have hevent : Stored event := (stored_new _).readEvent hbody
    refine AllStored.called (r := { r with stream := s' }) h ?_ hcalled
    split
    · exact hevent.merge hheader
    · exact hevent

theorem AllStored.run (h : AllStored r) (n : ℕ) : AllStored (r.run P input flat depth n).1 := by
  induction n generalizing r with
  | zero => exact h
  | succ n ih =>
    have hstep : AllStored (r.step P input flat depth).1 := h.step
    rw [Reader.run]
    rcases hr : r.step P input flat depth with ⟨r', _ | w⟩
    · rw [hr] at hstep
      exact ih hstep
    · rw [hr] at hstep
      exact hstep

end Loop

/-- **Every delivered event** of every stream. -/
theorem stored_readEvents {σ : Type} [Stream σ] (host : ByteOrder) (P : Platform) (flat : Bool)
    (depth : ℕ) (s : σ) :
    ∀ e ∈ (readEvents host P flat depth s).1.delivered.map Delivery.event, Stored e := by
  have hall : AllStored (readEvents host P flat depth s).1 := AllStored.run (by rintro d ⟨⟩) _
  intro e he
  obtain ⟨d, hd, rfl⟩ := List.mem_map.mp he
  exact hall d hd

/-! ### The Chrome converter -/

/-- What the converter can process has labels. -/
theorem exists_getLabels_of_foldlM {C : ConverterPlatform} {es : List Event} {s s' : ChromeTrace}
    (h : es.foldlM (processEvent C) s = .ok s') : ∃ r, s.converter.getLabels es = .ok r := by
  induction es generalizing s with
  | nil => exact ⟨_, rfl⟩
  | cons e es ih =>
    rw [List.foldlM_cons] at h
    obtain ⟨s₁, hfirst, hrest⟩ := except_bind_eq_ok h
    obtain ⟨⟨label, c₁⟩, hlabel, hprocess⟩ := except_bind_eq_ok hfirst
    have hconverter : s₁.converter = c₁ := by
      dsimp only at hprocess
      split at hprocess
      · rw [← Except.ok.inj hprocess]
      · obtain ⟨args, -, hprocess⟩ := except_bind_eq_ok hprocess
        rw [← Except.ok.inj hprocess, converter_write, converter_separate]
    obtain ⟨⟨labels, c'⟩, hlabels⟩ := ih hrest
    rw [hconverter] at hlabels
    exact ⟨_, Converter.getLabels_cons hlabel hlabels⟩

/-- **The Chrome converter survives a file** exactly if it survives looking for the labels, whatever
the file is and whatever labels were loaded before. -/
theorem exists_convert_iff {σ : Type} [Stream σ] (C : ConverterPlatform) (host : ByteOrder)
    (flat : Bool) (depth : ℕ) (s : σ) (m : TracepointMap) :
    let es := (readEvents host C.toPlatform flat depth s).1.delivered.map Delivery.event
    (∃ text, convert C ⟨m, 0⟩ es = .ok text) ↔
      ∃ r, (⟨m, 0⟩ : Converter).getLabels es = .ok r := by
  intro es
  have hes : ∀ e ∈ es, Stored e := stored_readEvents host _ flat depth s
  constructor
  · rintro ⟨text, htext⟩
    obtain ⟨s', hs', -⟩ := except_bind_eq_ok htext
    exact exists_getLabels_of_foldlM hs'
  · rintro ⟨⟨labels, c'⟩, hr⟩
    exact ⟨_, convert_eq hr hes⟩

end HawkTracer.Client
