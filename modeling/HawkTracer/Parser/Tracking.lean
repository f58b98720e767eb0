import HawkTracer.Parser.Reader

/-!
# Comparing two streams

The reader sees a stream through `read_byte` and `read_data` only, so how two streams compare
under the reader follows from how they compare under these two calls.

Two relations between the states of the streams are fixed: `R`, that reading goes on alike, and
`L`, that the reader of the first stream has stopped while the other one has gone on. A
computation on the first stream is *tracked* by one on the second
(`HawkTracer.Parser.Tracks`) if, from related states, both yield the same and leave related
states, or the first one stops and falls behind; and if what is left behind stays so whatever
the second one does. Tracking is closed under sequencing (`HawkTracer.Parser.Tracks.bind`), hence
goes from the two calls (`HawkTracer.Parser.StreamTracks`) through strings and numbers to
events, rounds and whole runs (`HawkTracer.Parser.StreamTracks.readEvents`). With an empty `L`
this is the statement that the two streams cannot be told apart.

The one place where the streams may part is a byte of a string that the first stream takes for
the end; `HawkTracer.Parser.StreamTracks` says what must be true there after one more byte.
-/

namespace HawkTracer.Parser

section Tracking

variable {σ σ' α β : Type}

/-- The stream that a result leaves. -/
def Result.state : Result α σ → σ
  | .ok _ s => s
  | .stop _ s => s

variable (R L : σ → σ' → Prop)

/-- **The results agree**, or the first one is a stop and its stream has fallen behind. -/
inductive Follows : Result α σ → Result α σ' → Prop where
  | ok {a : α} {s : σ} {s' : σ'} (h : R s s') : Follows (.ok a s) (.ok a s')
  | stop {w : Stop} {s : σ} {s' : σ'} (h : R s s') : Follows (.stop w s) (.stop w s')
  | behind {w : Stop} {s : σ} {r : Result α σ'} (h : L s r.state) : Follows (.stop w s) r

/-- **The computation `f` is tracked by `g`.** -/
structure Tracks (f : σ → Result α σ) (g : σ' → Result α σ') : Prop where
  follows : ∀ {s s'}, R s s' → Follows R L (f s) (g s')
  stays : ∀ {s s'}, L s s' → L s (g s').state

variable {R L}

theorem Tracks.ok (a : α) : Tracks R L (.ok a) (.ok a) := ⟨.ok, id⟩

theorem Tracks.stop (w : Stop) : Tracks R L (.stop w : σ → Result α σ) (.stop w) := ⟨.stop, id⟩

/-- **Tracking is closed under sequencing.** -/
theorem Tracks.bind {f : σ → Result α σ} {g : σ' → Result α σ'} {k : α → σ → Result β σ}
    {k' : α → σ' → Result β σ'} (h : Tracks R L f g) (hk : ∀ a, Tracks R L (k a) (k' a)) :
    Tracks R L (fun s => (f s).bind k) (fun s => (g s).bind k') := by
  -- the second computation goes on alone
  have hbehind : ∀ {s : σ} {r : Result α σ'}, L s r.state → L s (r.bind k').state := by
    rintro s (⟨a, s'⟩ | ⟨w, s'⟩) hL
    · exact (hk a).stays hL
    · exact hL
  refine ⟨fun {s s'} hR => ?_, fun hL => hbehind (h.stays hL)⟩
  have hfg := h.follows hR
  generalize f s = r, g s' = r' at hfg
  rcases hfg with hR | hR | hL
  · exact (hk _).follows hR
  · exact .stop hR
  · exact .behind (hbehind hL)

variable (R L) in
/-- The primitives of the reader are tracked; a number has at least one byte. -/
structure TracksInput (i : Input σ) (i' : Input σ') : Prop where
  num : ∀ t : FieldTypeId, 1 ≤ t.sizeof → Tracks R L (i.num t) (i'.num t)
  str : Tracks R L i.str i'.str

variable {P : Platform} {i : Input σ} {i' : Input σ'} {K : KlassRegister} {flat : Bool}

variable (P K flat) in
/-- **Events are tracked** if the primitives are. -/
theorem Tracks.readEvent (hi : TracksInput R L i i') (depth : ℕ) (e : Event) (base : Option Event) :
    Tracks R L (readEvent P i K flat depth e base) (readEvent P i' K flat depth e base) :=
  Closed.readEvent (C := fun _ => Tracks R L) ⟨.ok, .stop, .bind, hi.num, hi.str⟩ depth e base

end Tracking

/-! ### Rounds and runs -/

section Runs

variable {σ σ' : Type} (R L : σ → σ' → Prop)

/-- The readers differ in their streams only, and those are related. -/
structure Reader.Alike (r : Reader σ) (r' : Reader σ') : Prop where
  stream : R r.stream r'.stream
  register : r.register = r'.register
  endianness : r.endianness = r'.endianness
  delivered : r.delivered = r'.delivered

/-- One round of both readers: they do the same, or the first one stops and falls behind. -/
def Reader.StepFollows (x : Reader σ × Option Stop) (x' : Reader σ' × Option Stop) : Prop :=
  (Reader.Alike R x.1 x'.1 ∧ x.2 = x'.2) ∨ (∃ w, x.2 = some w) ∧ L x.1.stream x'.1.stream

/-- A run of both readers: they end alike, or the first one has fallen behind. -/
def Reader.RunFollows (x : Reader σ × Stop) (x' : Reader σ' × Stop) : Prop :=
  (Reader.Alike R x.1 x'.1 ∧ x.2 = x'.2) ∨ L x.1.stream x'.1.stream

variable {R L} {P : Platform} {input : UInt8 → Input σ} {input' : UInt8 → Input σ'} {flat : Bool}
  {depth : ℕ} {r : Reader σ} {r' : Reader σ'}

theorem Reader.Alike.callCallbacks (h : Reader.Alike R r r') (header event : Event) :
    Reader.StepFollows R L (r.callCallbacks P header event) (r'.callCallbacks P header event) := by
  refine Or.inl ?_
  rw [Reader.callCallbacks, Reader.callCallbacks, h.register]
  split
  · exact ⟨h, rfl⟩
  · exact ⟨⟨h.stream, rfl, h.endianness, congrArg (· ++ _) h.delivered⟩, rfl⟩

theorem Reader.Alike.finish (h : Reader.Alike R r r') (klassId : UInt32) (header event : Event) :
    Reader.StepFollows R L (r.finish P klassId header event)
      (r'.finish P klassId header event) := by
  rw [Reader.finish, Reader.finish]
  split
  · split
    · exact Or.inl ⟨h, rfl⟩
    · next n _ =>
      have h' : Reader.Alike R { r with endianness := UInt8.ofNat n }
          { r' with endianness := UInt8.ofNat n } := ⟨h.stream, h.register, rfl, h.delivered⟩
      exact h'.callCallbacks header event
  · exact h.callCallbacks header event

variable (P input flat depth) in
/-- What a round does after the first `_read_event`. -/
def Reader.afterHeader (r : Reader σ) : EventResult σ → Reader σ × Option Stop
  | .stop w s => ({ r with stream := s }, some w)
  | .ok (header, _) s =>
    match header.getNum (ascii "klass_id") with
    | .error w => ({ r with stream := s }, some w)
    | .ok klassId =>
      if UInt32.ofNat klassId = 1 then { r with stream := s }.callCallbacks P header header
      else { r with stream := s }.readBody P input flat depth (UInt32.ofNat klassId) header

theorem Reader.step_eq_afterHeader (r : Reader σ) :
    r.step P input flat depth = r.afterHeader P input flat depth
      (readEvent P (input r.endianness) r.register flat depth
        (.new ((r.register.getKlass 1).map EventKlass.id)) none r.stream) := by
  rw [Reader.step]
  split <;> next heq => rw [heq]; rfl

variable (hi : ∀ c, TracksInput R L (input c) (input' c))

include hi

/-! The second reader alone: the first one stays behind. -/

theorem Reader.stays_readBody {s : σ} (h : L s r'.stream) (klassId : UInt32) (header : Event) :
    L s (r'.readBody P input' flat depth klassId header).1.stream := by
  have hL := (Tracks.readEvent P r'.register flat (hi r'.endianness) depth
    (Event.new ((r'.register.getKlass klassId).map EventKlass.id))
    (if flat then none else some header)).stays h
  rw [Reader.readBody]
  split
  · next heq =>
    rw [heq] at hL
    exact hL
  · next heq =>
    rw [heq] at hL
    rw [(Reader.called_finish _ _ _ _).stream]
    exact hL

theorem Reader.stays_afterHeader {s : σ} {x : EventResult σ'} (h : L s x.state) :
    L s (r'.afterHeader P input' flat depth x).1.stream := by
  rcases x with ⟨⟨header, base⟩, s'⟩ | ⟨w, s'⟩
  · rw [Reader.afterHeader]
    split
    · exact h
    · split
      · have hcalled := Reader.called_callCallbacks (P := P) { r' with stream := s' } r'.endianness
          header header
        rw [hcalled.stream]
        exact h
      · have hL : L s (Reader.mk s' r'.register r'.endianness r'.delivered).stream := h
        exact Reader.stays_readBody hi hL _ header
  · exact h

theorem Reader.stays_step {s : σ} (h : L s r'.stream) :
    L s (r'.step P input' flat depth).1.stream := by
  rw [Reader.step_eq_afterHeader]
  exact Reader.stays_afterHeader hi
    ((Tracks.readEvent P r'.register flat (hi r'.endianness) depth _ none).stays h)

theorem Reader.stays_run {s : σ} {n : ℕ} (h : L s r'.stream) :
    L s (r'.run P input' flat depth n).1.stream := by
  induction n generalizing r' with
  | zero => exact h
  | succ n ih =>
    have hstep : L s (r'.step P input' flat depth).1.stream := Reader.stays_step hi h
    rw [Reader.run]
    split
    · next heq =>
      rw [heq] at hstep
      exact ih hstep
    · next heq =>
      rw [heq] at hstep
      exact hstep

/-! Both readers. -/

theorem Reader.Alike.readBody (h : Reader.Alike R r r') (klassId : UInt32) (header : Event) :
    Reader.StepFollows R L (r.readBody P input flat depth klassId header)
      (r'.readBody P input' flat depth klassId header) := by
  have hfollows := (Tracks.readEvent P r'.register flat (hi r'.endianness) depth
    (Event.new ((r'.register.getKlass klassId).map EventKlass.id))
    (if flat then none else some header)).follows h.stream
  rw [Reader.readBody, Reader.readBody, h.register, h.endianness]
  generalize readEvent P (input r'.endianness) _ _ _ _ _ _ = x,
    readEvent P (input' r'.endianness) _ _ _ _ _ _ = x' at hfollows
  rcases hfollows with hR | hR | hL
  · next a s s' =>
    have h' : Reader.Alike R ⟨s, r'.register, r'.endianness, r.delivered⟩
        ⟨s', r'.register, r'.endianness, r'.delivered⟩ := ⟨hR, rfl, rfl, h.delivered⟩
    exact h'.finish klassId header _
  · exact Or.inl ⟨⟨hR, rfl, rfl, h.delivered⟩, rfl⟩
  · refine Or.inr ⟨⟨_, rfl⟩, ?_⟩
    rcases x' with ⟨⟨event, base⟩, s'⟩ | ⟨w, s'⟩
    · dsimp only
      rw [(Reader.called_finish _ _ _ _).stream]
      exact hL
    · exact hL

theorem Reader.Alike.step (h : Reader.Alike R r r') :
    Reader.StepFollows R L (r.step P input flat depth) (r'.step P input' flat depth) := by
  have hfollows := (Tracks.readEvent P r'.register flat (hi r'.endianness) depth
    (.new ((r'.register.getKlass 1).map EventKlass.id)) none).follows h.stream
  rw [Reader.step_eq_afterHeader, Reader.step_eq_afterHeader, h.register, h.endianness]
  generalize readEvent P (input r'.endianness) _ _ _ _ _ _ = x,
    readEvent P (input' r'.endianness) _ _ _ _ _ _ = x' at hfollows
  rcases hfollows with hR | hR | hL
  · next a s s' =>
    have h' : Reader.Alike R { r with stream := s } { r' with stream := s' } :=
      ⟨hR, h.register, h.endianness, h.delivered⟩
    rw [Reader.afterHeader, Reader.afterHeader]
    split
    · exact Or.inl ⟨h', rfl⟩
    · split
      · exact h'.callCallbacks _ _
      · exact h'.readBody hi _ _
  · exact Or.inl ⟨⟨hR, h.register, h.endianness, h.delivered⟩, rfl⟩
  · exact Or.inr ⟨⟨_, rfl⟩, Reader.stays_afterHeader hi hL⟩

/-- **Runs are tracked** if the primitives are. -/
theorem Reader.Alike.run {n : ℕ} (h : Reader.Alike R r r') :
    Reader.RunFollows R L (r.run P input flat depth n) (r'.run P input' flat depth n) := by
  induction n generalizing r r' with
  | zero => exact Or.inl ⟨h, rfl⟩
  | succ n ih =>
    have hstep : Reader.StepFollows R L (r.step P input flat depth)
        (r'.step P input' flat depth) := h.step hi
    rw [Reader.run, Reader.run]
    rcases hr : r.step P input flat depth with ⟨r₁, w⟩
    rcases hr' : r'.step P input' flat depth with ⟨r₁', w'⟩
    rw [hr, hr'] at hstep
    rcases hstep with ⟨halike, hw⟩ | ⟨⟨w₀, hw⟩, hL⟩
    · obtain rfl : w = w' := hw
      rcases w with _ | w
      · exact ih halike
      · exact Or.inl ⟨halike, rfl⟩
    · obtain rfl : w = some w₀ := hw
      refine Or.inr ?_
      rcases w' with _ | w'
      · exact Reader.stays_run hi hL
      · exact hL

end Runs

/-! ### Streams -/

section Streams

variable {σ σ' : Type} [Stream σ] [Stream σ'] (R L : σ → σ' → Prop)

/-- **How two streams compare under the two calls of the reader.** A block is read alike. A byte
is read alike too, or it ends the first stream only; then one more byte shows that the second
stream is at its end as well, or leaves the first one behind. -/
structure StreamTracks : Prop where
  avail : ∀ {s s'}, R s s' → Stream.avail s = Stream.avail s'
  data : ∀ {s s'} {n : ℕ}, R s s' → 1 ≤ n →
    (Stream.readData s n).1 = (Stream.readData s' n).1 ∧
      R (Stream.readData s n).2 (Stream.readData s' n).2
  byte : ∀ {s s'}, R s s' →
    ((Stream.readByte s).1 = (Stream.readByte s').1 ∧
      R (Stream.readByte s).2 (Stream.readByte s').2) ∨
    ((Stream.readByte s).1 < 0 ∧ 0 < (Stream.readByte s').1 ∧
      ((Stream.readByte (Stream.readByte s').2).1 < 0 ∧
          R (Stream.readByte s).2 (Stream.readByte (Stream.readByte s').2).2 ∨
        L (Stream.readByte s).2 (Stream.readByte (Stream.readByte s').2).2))
  /-- A byte that was read is no longer there. -/
  shrinks : ∀ {s' : σ'}, 0 < (Stream.readByte s').1 →
    Stream.avail (Stream.readByte s').2 < Stream.avail s'
  data_stays : ∀ {s s'} {n : ℕ}, L s s' → L s (Stream.readData s' n).2
  byte_stays : ∀ {s s'}, L s s' → L s (Stream.readByte s').2

variable {R L}

theorem StreamTracks.readNumeric (h : StreamTracks R L) (host : ByteOrder) (c : UInt8)
    {t : FieldTypeId} (ht : 1 ≤ t.sizeof) :
    Tracks R L (readNumeric host c t) (readNumeric host c t) where
  follows {s s'} hR := by
    obtain ⟨hdata, hR'⟩ := h.data hR ht
    rw [Parser.readNumeric, Parser.readNumeric]
    rcases hd : Stream.readData s t.sizeof with ⟨bs, s₁⟩
    rcases hd' : Stream.readData s' t.sizeof with ⟨bs', s₁'⟩
    rw [hd, hd'] at hdata hR'
    obtain rfl : bs = bs' := hdata
    rcases bs with _ | bs
    · exact .stop hR'
    · dsimp only
      split
      · exact .ok hR'
      · exact .stop hR'
  stays {s s'} hL := by
    have hL' := h.data_stays (n := t.sizeof) hL
    rw [Parser.readNumeric]
    rcases hd : Stream.readData s' t.sizeof with ⟨bs', s₁'⟩
    rw [hd] at hL'
    rcases bs' with _ | bs'
    · exact hL'
    · dsimp only
      split <;> exact hL'

omit [Stream σ] in
/-- A string that goes on from where the first reader is left behind. -/
theorem StreamTracks.stays_readStringLoop_succ {fuel : ℕ} {s : σ}
    (ih : ∀ {s' : σ'} {length pos : ℕ} {data : List UInt8}, L s s' →
      L s (readStringLoop fuel s' length pos data).state)
    {s' : σ'} {length pos : ℕ} {data : List UInt8} (hL : L s (Stream.readByte s').2) :
    L s (readStringLoop (fuel + 1) s' length pos data).state := by
  rw [readStringLoop]
  rcases hb : Stream.readByte s' with ⟨c, s₁⟩
  rw [hb] at hL
  dsimp only
  split
  · split <;> exact ih hL
  · split <;> exact hL

section

variable (h : StreamTracks R L)

include h

theorem StreamTracks.stays_readStringLoop {fuel : ℕ} {s : σ} {s' : σ'} {length pos : ℕ}
    {data : List UInt8} (hL : L s s') : L s (readStringLoop fuel s' length pos data).state := by
  induction fuel generalizing s' length pos data with
  | zero => exact hL
  | succ fuel ih => exact stays_readStringLoop_succ ih (h.byte_stays hL)

/-- The first reader has taken a byte for the end of the stream, the second one goes on. -/
theorem StreamTracks.readStringLoop_parted {fuel : ℕ} {s : σ} {s' : σ'} {length pos : ℕ}
    {data : List UInt8} (hnext : (Stream.readByte s').1 < 0 ∧ R s (Stream.readByte s').2 ∨
      L s (Stream.readByte s').2) :
    Follows R L (.stop .error s) (readStringLoop (fuel + 1) s' length pos data) := by
  rcases hnext with ⟨hneg, hR⟩ | hL
  · rw [readStringLoop]
    rcases hb : Stream.readByte s' with ⟨c, s₁⟩
    rw [hb] at hneg hR
    dsimp only at hneg ⊢
    rw [if_neg (by omega), if_pos hneg]
    exact .stop hR
  · exact .behind (stays_readStringLoop_succ h.stays_readStringLoop hL)

theorem StreamTracks.readStringLoop {fuel : ℕ} {s : σ} {s' : σ'} {length pos : ℕ}
    {data : List UInt8} (hR : R s s') (hfuel : Stream.avail s' < fuel) :
    Follows R L (readStringLoop fuel s length pos data)
      (readStringLoop fuel s' length pos data) := by
  induction fuel generalizing s s' length pos data with
  | zero => omega
  | succ fuel ih =>
    have hshrinks : 0 < (Stream.readByte s').1 →
        Stream.avail (Stream.readByte s').2 < Stream.avail s' := h.shrinks
    have hbyte := h.byte hR
    rw [Parser.readStringLoop, Parser.readStringLoop]
    rcases hb : Stream.readByte s with ⟨c, s₁⟩
    rcases hb' : Stream.readByte s' with ⟨c', s₁'⟩
    rw [hb'] at hbyte hshrinks
    rw [hb] at hbyte
    dsimp only at hbyte hshrinks ⊢
    rcases hbyte with ⟨rfl, hR₁⟩ | ⟨hneg, hpos, hnext⟩
    · split
      · next hc =>
        have hfuel₁ : Stream.avail s₁' < fuel := by
          have := hshrinks hc
          omega
        split <;> exact ih hR₁ hfuel₁
      · split
        · exact .stop hR₁
        · exact .ok hR₁
    · have hlt := hshrinks hpos
      obtain ⟨fuel, rfl⟩ : ∃ f, fuel = f + 1 := ⟨fuel - 1, by omega⟩
      rw [if_neg (by omega), if_pos hneg, if_pos hpos]
      split <;> exact h.readStringLoop_parted hnext

theorem StreamTracks.readString : Tracks R L (readString : σ → _) (readString : σ' → _) where
  follows {s s'} hR := by
    rw [Parser.readString, Parser.readString, h.avail hR]
    exact h.readStringLoop hR (Nat.lt_succ_self _)
  stays hL := h.stays_readStringLoop hL

theorem StreamTracks.streamInput (host : ByteOrder) (c : UInt8) :
    TracksInput R L (streamInput host c : Input σ) (streamInput host c : Input σ') :=
  ⟨fun _ ht => h.readNumeric host c ht, h.readString⟩

/-- **The reader on two streams**: it ends alike, or on the first one it has fallen behind. -/
theorem StreamTracks.readEvents (host : ByteOrder) (P : Platform) (flat : Bool) (depth : ℕ) {s : σ}
    {s' : σ'} (hR : R s s') :
    Reader.RunFollows R L (readEvents host P flat depth s) (readEvents host P flat depth s') := by
  have halike : Reader.Alike R (.new s) (.new s') := ⟨hR, rfl, rfl, rfl⟩
  rw [Parser.readEvents, Parser.readEvents, h.avail hR]
  exact halike.run (h.streamInput host)

end

end Streams

end HawkTracer.Parser
