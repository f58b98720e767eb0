import HawkTracer.Base.Run
import HawkTracer.Lib.ListenerBuffer

/-!
# Runs of a listener's buffer

The two ways into the buffer have different policies. Serialized events are cut where the buffer
is full. Objects are serialized whole, and the buffer is passed on before if the object has no
room; that it has room in the empty buffer is not checked. An object whose serialized form is
larger than the buffer is written past its end.

A run keeps what has been handed to the flush callback, the serialized form of what has come in,
and the place and length of every write into the block. The buffer is safe in every state of a
run exactly if no object of the run is larger than the buffer
(`HawkTracer.Lib.BufferTrace.safe_iff`).
-/

namespace HawkTracer.Lib

namespace ListenerBuffer

variable {E : Type}

/-! ### What the loops write -/

/-- The copies of the loop over serialized events: where each starts, and its length. -/
def copies : ℕ → ListenerBuffer → List UInt8 → List (ℕ × ℕ)
  | _, _, [] => []
  | 0, _, _ :: _ => []
  | n + 1, b, c :: cs =>
    (b.usage, min (c :: cs).length (b.maxSize - b.usage)) ::
      copies n (b.copySome (c :: cs)).1
        ((c :: cs).drop (min (c :: cs).length (b.maxSize - b.usage)))

/-- The serialized objects of the loop over objects: where each starts, and its length. -/
def serializations (R : EventRep E) : ListenerBuffer → List E → List (ℕ × ℕ)
  | _, [] => []
  | b, e :: es =>
    ((if R.getSize e + b.usage > b.maxSize then b.flush.1 else b).usage, R.getSize e) ::
      serializations R (b.serializeOne R e).1 es

variable {b : ListenerBuffer}

/-- **Copies are in bounds**, whatever comes in. -/
theorem Valid.copies_inBounds (h : b.Valid) (hpos : 0 < b.maxSize) (n : ℕ) (events : List UInt8) :
    ∀ w ∈ copies n b events, w.1 + w.2 ≤ b.maxSize := by
  induction n generalizing b events with
  | zero => cases events <;> exact fun _ hw => nomatch hw
  | succ n ih =>
    rcases events with _ | ⟨c, cs⟩
    · exact fun _ hw => nomatch hw
    · have hle := h.usage_le
      have hround := (h.passesOn_copySome hpos (c :: cs)).1
      have hmax := hround.maxSize
      rw [copies, List.forall_mem_cons]
      refine ⟨by dsimp only; omega, ?_⟩
      rw [← hmax]
      exact ih hround.valid (hmax ▸ hpos) _

/-- **Objects are written in bounds** exactly if none of them is larger than the buffer. -/
theorem Valid.serializations_inBounds_iff {R : EventRep E} (h : b.Valid) {es : List E} :
    (∀ w ∈ serializations R b es, w.1 + w.2 ≤ b.maxSize) ↔ ∀ e ∈ es, R.getSize e ≤ b.maxSize := by
  induction es generalizing b with
  | nil => exact iff_of_true (fun _ hw => nomatch hw) (fun _ he => nomatch he)
  | cons e es ih =>
    rw [serializations, List.forall_mem_cons, List.forall_mem_cons]
    have hfirst : (if R.getSize e + b.usage > b.maxSize then b.flush.1 else b).usage +
        R.getSize e ≤ b.maxSize ↔ R.getSize e ≤ b.maxSize := by
      split
      · rw [show b.flush.1.usage = 0 from rfl, Nat.zero_add]
      · omega
    rw [hfirst]
    -- what comes after the first object matters only if that one was in bounds
    refine and_congr_right fun hfits => ?_
    have hone := h.passesOn_serializeOne (R := R) hfits
    rw [← hone.maxSize]
    exact ih hone.valid

end ListenerBuffer

/-! ### Runs -/

open ListenerBuffer

/-- The calls a listener makes. -/
inductive BufferOp (E : Type) where
  /-- Bytes, however they came about. -/
  | serialized (events : List UInt8)
  /-- Objects, one behind the other in memory. -/
  | unserialized (events : List E)
  | flush

/-- A run of calls on one buffer. -/
structure BufferTrace where
  buffer : ListenerBuffer
  /-- What the flush callback was called with. -/
  flushed : List (List UInt8)
  /-- The serialized form of what came in. -/
  input : List UInt8
  /-- The writes into the block: where each starts, and its length. -/
  writes : List (ℕ × ℕ)
  /-- All calls have returned. -/
  returned : Bool

namespace BufferTrace

variable {E : Type} (R : CastRep E)

/-- The run after a call with the given result. -/
def record (t : BufferTrace) (bytes : List UInt8) (ws : List (ℕ × ℕ)) :
    Option (ListenerBuffer × List (List UInt8)) → BufferTrace
  | none => { t with returned := false }
  | some r =>
    { t with
      buffer := r.1
      flushed := t.flushed ++ r.2
      input := t.input ++ bytes
      writes := t.writes ++ ws }

/-- One call. -/
def step (t : BufferTrace) : BufferOp E → BufferTrace
  | .serialized events =>
    t.record events (copies (events.length + 1) t.buffer events)
      (t.buffer.processSerializedEvents events)
  | .unserialized es =>
    t.record (R.reps true es) (serializations R.toEventRep t.buffer es)
      (t.buffer.processUnserializedEvents R (R.reps false es))
  | .flush => t.record [] [] (some t.buffer.flush)

/-- An initialised buffer. -/
def start (maxSize : ℕ) : BufferTrace := ⟨init maxSize, [], [], [], true⟩

/-- **The buffer is safe**: every write has ended inside the block, the usage is within it, and
what was passed on and what is buffered are what came in. -/
structure Safe (maxSize : ℕ) (t : BufferTrace) : Prop where
  inBounds : ∀ w ∈ t.writes, w.1 + w.2 ≤ maxSize
  usage_le : t.buffer.usage ≤ maxSize
  stream : t.flushed.flatten ++ t.buffer.contents = t.input
  returned : t.returned = true

/-- The objects of a call are not larger than the buffer. -/
def Fits (maxSize : ℕ) : BufferOp E → Prop
  | .serialized _ => True
  | .unserialized es => ∀ e ∈ es, R.getSize e ≤ maxSize
  | .flush => True

/-- The block is the one the buffer was initialised with. -/
structure Sized (maxSize : ℕ) (t : BufferTrace) : Prop where
  valid : t.buffer.Valid
  maxSize : t.buffer.maxSize = maxSize

variable {R} {t : BufferTrace} {maxSize : ℕ}

theorem safe_start (maxSize : ℕ) : (start maxSize).Safe maxSize :=
  ⟨fun _ hw => (List.not_mem_nil hw).elim, Nat.zero_le _, rfl, rfl⟩

theorem sized_start (maxSize : ℕ) : (start maxSize).Sized maxSize := ⟨valid_init maxSize, rfl⟩

/-- A call that passes its bytes on and writes in bounds keeps the buffer safe. -/
theorem Safe.record (h : t.Safe maxSize) (hsized : t.Sized maxSize) {bytes : List UInt8}
    {ws : List (ℕ × ℕ)} {r : ListenerBuffer × List (List UInt8)}
    (hpass : PassesOn t.buffer bytes r) (hws : ∀ w ∈ ws, w.1 + w.2 ≤ t.buffer.maxSize) :
    (t.record bytes ws (some r)).Safe maxSize ∧ (t.record bytes ws (some r)).Sized maxSize := by
  have hmax := hpass.maxSize.trans hsized.maxSize
  refine ⟨⟨fun w hw => ?_, hmax ▸ hpass.valid.usage_le, ?_, h.returned⟩, hpass.valid, hmax⟩
  · rcases List.mem_append.mp hw with hw | hw
    · exact h.inBounds w hw
    · exact hsized.maxSize ▸ hws w hw
  · change (t.flushed ++ r.2).flatten ++ r.1.contents = t.input ++ bytes
    rw [List.flatten_append, List.append_assoc, hpass.stream, ← List.append_assoc, h.stream]

/-- **A call that meets the condition** keeps the buffer safe. -/
theorem Safe.step (hpos : 0 < maxSize) (h : t.Safe maxSize) (hsized : t.Sized maxSize)
    {o : BufferOp E} (ho : Fits R maxSize o) :
    (t.step R o).Safe maxSize ∧ (t.step R o).Sized maxSize := by
  have hmax := hsized.maxSize
  cases o with
  | serialized events =>
    obtain ⟨r, hr, hpass⟩ := processSerializedEvents_spec hsized.valid events
    rw [BufferTrace.step, hr]
    exact h.record hsized hpass (hsized.valid.copies_inBounds (hmax ▸ hpos) _ events)
  | unserialized es =>
    have hfits : ∀ e ∈ es, R.getSize e ≤ t.buffer.maxSize := hmax ▸ ho
    obtain ⟨r, hr, hpass⟩ := processUnserializedEvents_spec hsized.valid (hmax ▸ hpos) hfits
    rw [BufferTrace.step, hr]
    exact h.record hsized hpass (hsized.valid.serializations_inBounds_iff.mpr hfits)
  | flush => exact h.record hsized hsized.valid.passesOn_flush fun _ hw => nomatch hw

/-- **A call after which the buffer is safe** met the condition. -/
theorem fits_of_safe_step (hsized : t.Sized maxSize) {o : BufferOp E}
    (h : (t.step R o).Safe maxSize) : Fits R maxSize o := by
  cases o with
  | serialized events => trivial
  | flush => trivial
  | unserialized es =>
    rw [BufferTrace.step] at h
    rcases hr : t.buffer.processUnserializedEvents R (R.reps false es) with _ | r
    · rw [hr] at h
      exact absurd h.returned Bool.false_ne_true
    · rw [hr] at h
      change ∀ e ∈ es, R.getSize e ≤ maxSize
      rw [← hsized.maxSize]
      refine hsized.valid.serializations_inBounds_iff.mp fun w hw => ?_
      rw [hsized.maxSize]
      exact h.inBounds w (List.mem_append_right _ hw)

/-- **The buffer is safe throughout a run** exactly if no object of the run is larger than the
buffer. -/
theorem safe_iff (R : CastRep E) {maxSize : ℕ} (hpos : 0 < maxSize) (os : List (BufferOp E)) :
    Throughout (step R) (Safe maxSize) (start maxSize) os ↔ ∀ o ∈ os, Fits R maxSize o := by
  have hconst : StepsMeet (step R) (fun _ o => Fits R maxSize o) (start maxSize) os ↔
      ∀ o ∈ os, Fits R maxSize o := stepsMeet_const_iff
  rw [← hconst]
  exact throughout_iff_of_kept (J := Sized maxSize) (D := fun _ _ => True)
    (fun t o hsized _ hsafe ho => (hsafe.step hpos hsized ho).2)
    (fun t o hsized _ hsafe => ⟨fits_of_safe_step hsized, fun ho => (hsafe.step hpos hsized ho).1⟩)
    (sized_start maxSize) (safe_start maxSize) (stepsMeet_of_forall fun _ _ => trivial)

/-- The theorem applies: bytes are cut, an object finds no room behind them and fits the empty
buffer, and the buffer is passed on at the end. -/
theorem safe_of_small_object :
    Throughout (step (htEventRep .little)) (Safe 32) (start 32)
      [.serialized (List.replicate 50 7), .unserialized [⟨1, 2, 3⟩], .flush] :=
  (safe_iff (htEventRep .little) (by decide) _).mpr (by
    simp only [List.forall_mem_cons]
    exact ⟨trivial, fun e _ => show 20 ≤ 32 by decide, trivial, fun _ h => nomatch h⟩)

/-- **An object is written past the end of the buffer**: an `HT_Event` takes twenty bytes, and the
empty buffer has sixteen. -/
theorem object_past_the_end :
    ¬ Throughout (step (htEventRep .little)) (Safe 16) (start 16) [.unserialized [⟨1, 2, 3⟩]] := by
  intro h
  have hfits := fits_of_safe_step (sized_start 16) h.2.head
  have h20 : 20 ≤ 16 := hfits ⟨1, 2, 3⟩ (List.mem_singleton.mpr rfl)
  omega

end BufferTrace

end HawkTracer.Lib
