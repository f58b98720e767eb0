import HawkTracer.Parser.Survival

/-!
# Reading the beginning of a file

A dump may end anywhere: in a header, inside a number, inside a string. What the reader
then does follows from how it reads. A reading function is
`HawkTracer.Parser.Local` if it looks at the bytes it consumes and at no others: with
those bytes in front of anything it yields the same value, and on a part of them it
reports the end of the file. Both primitives are local, and so is everything built from
them with `HawkTracer.Parser.Result.bind`, up to `HawkTracer.Parser.readEvent`.

For a round of the loop it follows that it delivers nothing from a part of an event
(`HawkTracer.Parser.step_cut`).
-/

namespace HawkTracer.Parser

/-! ### Reading functions that are local -/

/-- **A reading function that looks only at what it consumes.** -/
def Local {α : Type} (f : FileStream → Result α FileStream) : Prop :=
  ∀ s a s', f s = .ok a s' → ∃ c, s = c ++ s' ∧ (∀ t, f (c ++ t) = .ok a t) ∧
    ∀ p q, c = p ++ q → q ≠ [] → f p = .stop .error []

theorem local_ok {α : Type} (a : α) : Local fun s => .ok a s := by
  intro s a' s' h
  cases h
  refine ⟨[], rfl, fun _ => rfl, fun p q hc hq => ?_⟩
  exact absurd (List.append_eq_nil_iff.mp hc.symm).2 hq

theorem local_stop {α : Type} (w : Stop) : Local fun s => (.stop w s : Result α FileStream) := by
  intro s a s' h
  cases h

/-- **One local function after another.** -/
theorem Local.bind {α β : Type} {f : FileStream → Result α FileStream}
    {k : α → FileStream → Result β FileStream} (hf : Local f) (hk : ∀ a, Local (k a)) :
    Local fun s => (f s).bind k := by
  intro s b s'' h
  obtain ⟨a, s', hfa, hkb⟩ := Result.bind_eq_ok_iff.mp h
  obtain ⟨c, rfl, hc, hcut⟩ := hf s a s' hfa
  obtain ⟨c', rfl, hc', hcut'⟩ := hk a s' b s'' hkb
  refine ⟨c ++ c', (List.append_assoc c c' s'').symm, fun t => ?_, fun p q hpq hq => ?_⟩
  · simp only [List.append_assoc, hc, Result.ok_bind, hc']
  · -- the cut is in what the first function consumes, or in what the second one does
    rcases List.append_eq_append_iff.mp hpq with ⟨p', rfl, hp'⟩ | ⟨q', rfl, rfl⟩
    · simp only [hc, Result.ok_bind, hcut' p' q hp' hq]
    · cases q' with
      | nil =>
        have hread := hc []
        simp only [List.append_nil] at hread
        simp only [hread, Result.ok_bind, hcut' [] c' rfl hq]
      | cons x q' => simp only [hcut p (x :: q') rfl (List.cons_ne_nil _ _), Result.stop_bind]

/-! ### The reading functions of the reader -/

variable (host : ByteOrder)

theorem local_readNumeric (c : UInt8) (t : FieldTypeId) : Local (readNumeric host c t) := by
  intro s n s' h
  cases ht : t.isNumeric with
  | false =>
    -- a pointer is never read successfully
    rw [readNumeric] at h
    split at h
    · cases h
    · rw [if_neg (by rw [ht]; decide)] at h
      cases h
  | true =>
    obtain ⟨hn, rfl⟩ := (readNumeric_eq_ok_iff host c ht).mp h
    refine ⟨_, rfl, fun t' => (readNumeric_eq_ok_iff host c ht).mpr ⟨hn, rfl⟩, fun p q hpq hq => ?_⟩
    have hlen := length_toBytes (streamOrder host c) t.sizeof n
    have hpos := List.length_pos_iff.mpr hq
    rw [hpq, List.length_append] at hlen
    rw [readNumeric_file host c ht, if_neg (by omega)]

theorem local_readString : Local (readString : FileStream → Result Name FileStream) := by
  intro s v s' h
  obtain ⟨hv, rfl⟩ := readString_eq_ok_iff.mp h
  refine ⟨v ++ [0], by simp, fun t => readString_eq_ok_iff.mpr ⟨hv, by simp⟩, fun p q hpq hq => ?_⟩
  -- without the terminator there is no zero
  have hpv : p <+: v := by
    refine List.prefix_of_prefix_length_le ⟨q, hpq.symm⟩ (List.prefix_append v [0]) ?_
    have hlen := congrArg List.length hpq
    have hpos := List.length_pos_iff.mpr hq
    simp only [List.length_append, List.length_singleton] at hlen
    omega
  rw [readString_file, if_neg fun hz => hv (hpv.subset hz)]

variable {host} {P : Platform} {R : KlassRegister} {flat : Bool} {c : UInt8}

/-- **`_read_event` is local.** -/
theorem local_readEvent (depth : ℕ) (e : Event) (base : Option Event) :
    Local (readEvent P (streamInput host c) R flat depth e base) := by
  have hclosed : Closed (fun _ f (_ : FileStream → _) => Local f) (streamInput host c)
      (streamInput host c) :=
    ⟨local_ok, local_stop, Local.bind, fun t _ => local_readNumeric host c t, local_readString⟩
  exact hclosed.readEvent depth e base

/-! ### A round -/

variable {r r' : Reader FileStream} {depth : ℕ}

/-- The second read of a round that would use up the stream. -/
theorem readBody_cut {p q : List UInt8} {ds ds' : List Delivery} {R' : KlassRegister} {c' : UInt8}
    {id : UInt32} {header : Event}
    (h : Reader.readBody P (streamInput host) flat depth ⟨p ++ q, R, c, ds⟩ id header =
      (⟨[], R', c', ds'⟩, none)) (hq : q ≠ []) :
    Reader.readBody P (streamInput host) flat depth ⟨p, R, c, ds⟩ id header =
      (⟨[], R, c, ds⟩, some .error) := by
  simp only [Reader.readBody] at h ⊢
  generalize Event.new ((R.getKlass id).map EventKlass.id) = e at h ⊢
  generalize (if flat = true then none else some header) = base at h ⊢
  rcases hread : readEvent P (streamInput host c) R flat depth e base (p ++ q) with
    ⟨⟨event, b⟩, s⟩ | ⟨w, s⟩
  · rw [hread] at h
    dsimp only at h
    have hcalled := Reader.called_finish (P := P) ⟨s, R, c, ds⟩ id header
      (if flat then event.merge P header else event)
    rw [h] at hcalled
    obtain rfl : [] = s := hcalled.stream
    obtain ⟨c₂, hs, -, hcut⟩ := local_readEvent depth _ _ _ _ _ hread
    rw [List.append_nil] at hs
    rw [hcut p q hs.symm hq]
  · rw [hread] at h
    cases h

/-- **A part of an event delivers nothing**: a round that would use up the stream stops
at the end of every shorter one, with the reader as it was. -/
theorem step_cut {p q : List UInt8} {ds ds' : List Delivery} {R' : KlassRegister} {c' : UInt8}
    (h : Reader.step P (streamInput host) flat depth ⟨p ++ q, R, c, ds⟩ =
      (⟨[], R', c', ds'⟩, none)) (hq : q ≠ []) :
    Reader.step P (streamInput host) flat depth ⟨p, R, c, ds⟩ = (⟨[], R, c, ds⟩, some .error) := by
  simp only [Reader.step] at h ⊢
  generalize Event.new ((R.getKlass 1).map EventKlass.id) = e at h ⊢
  rcases hread : readEvent P (streamInput host c) R flat depth e none (p ++ q) with
    ⟨⟨header, b⟩, s⟩ | ⟨w, s⟩
  · rw [hread] at h
    obtain ⟨c₁, hs, hc₁, hcut₁⟩ := local_readEvent depth _ _ _ _ _ hread
    by_cases hlen : p.length < c₁.length
    · -- the cut is in the header
      obtain ⟨q', rfl⟩ : p <+: c₁ := List.prefix_of_prefix_length_le ⟨q, rfl⟩ ⟨s, hs.symm⟩ hlen.le
      have hq' : q' ≠ [] := by
        rintro rfl
        simp at hlen
      rw [hcut₁ p q' rfl hq']
    · -- the cut is behind it
      obtain ⟨p', rfl⟩ : c₁ <+: p :=
        List.prefix_of_prefix_length_le ⟨s, hs.symm⟩ ⟨q, rfl⟩ (not_lt.mp hlen)
      rw [List.append_assoc, List.append_cancel_left_eq] at hs
      subst hs
      rw [hc₁ p']
      rcases hid : header.getNum (ascii "klass_id") with w | n
      · simp only [hid] at h
        exact absurd (congrArg Prod.snd h) (Option.some_ne_none w)
      · simp only [hid] at h ⊢
        split at h
        · have hs :=
            (Reader.called_callCallbacks (P := P) ⟨p' ++ q, R, c, ds⟩ c header header).stream
          rw [h] at hs
          exact absurd (List.append_eq_nil_iff.mp hs.symm).2 hq
        · next hne =>
          rw [if_neg hne]
          exact readBody_cut h hq
  · rw [hread] at h
    cases h

/-- A round keeps the built-in klasses, in both modes. -/
theorem builtIn_step (h : r.step P (streamInput host) flat depth = (r', none))
    (hR : r.register.BuiltIn) : r'.register.BuiltIn := by
  have hround := r.round_step P (streamInput host) flat depth
  rw [h] at hround
  rcases hround with ⟨s, w⟩ | ⟨-, hcalled⟩ | ⟨-, -, -, hcalled⟩
  · exact hcalled.builtIn hR
  · exact hcalled.builtIn hR

end HawkTracer.Parser
