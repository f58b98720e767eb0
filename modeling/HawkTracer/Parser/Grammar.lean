import HawkTracer.Parser.Reader

/-!
# What a list of fields takes from a file

A register is a grammar: a list of fields, and the bytes a file goes on with, determine
what the reader takes (`HawkTracer.Parser.Takes`) and whether it gets into trouble on the
way (`HawkTracer.Parser.Safe`). Trouble is a struct field whose type name leads to no klass,
or structs that contain each other without end; that the file is too short is none, the
reader reports it. Both are said here in terms of the grammar alone, and shown to be what
the reader does: `HawkTracer.Parser.takes_of_readEvent`,
`HawkTracer.Parser.readFields_of_takes` and `HawkTracer.Parser.exists_fine_iff`.

The reader is modelled with a bound on its recursion. A result that did not run into the
bound is the result under every larger one
(`HawkTracer.Parser.readEvent_deeper`), so "for some bound" and "for every bound that is
large enough" are the same.
-/

namespace HawkTracer.Parser

/-! ### Deeper recursion -/

/-- Reading did not run into the bound on the recursion. -/
def Result.InDepth {α σ : Type} (r : Result α σ) : Prop := ∀ s, r ≠ .stop .depth s

theorem Result.InDepth.of_bind {α β σ : Type} {r : Result α σ} {k : α → σ → Result β σ}
    (h : (r.bind k).InDepth) : r.InDepth := by
  rintro s rfl
  exact h s rfl

section Deeper

variable {σ : Type} {P : Platform} {R : KlassRegister} {flat : Bool}

theorem readField_deeper {input : Input σ} {sub sub' : Event → Option Event → σ → EventResult σ}
    (hsub : ∀ e b s, (sub e b s).InDepth → sub' e b s = sub e b s) {f : EventKlassField}
    {e : Event} {base : Option Event} {s : σ}
    (h : (readField P input R flat sub f e base s).InDepth) :
    readField P input R flat sub' f e base s = readField P input R flat sub f e base s := by
  by_cases hstruct : f.typeId = .struct
  · rw [readField_struct sub hstruct] at h
    rw [readField_struct sub' hstruct, readField_struct sub hstruct]
    by_cases hheader : f.isHeader = true
    · rw [readStruct_of_isHeader sub' hheader, readStruct_of_isHeader sub hheader]
    · rw [readStruct_of_not_isHeader sub hheader] at h
      rw [readStruct_of_not_isHeader sub' hheader, readStruct_of_not_isHeader sub hheader,
        hsub _ _ _ h.of_bind]
  · unfold readField
    split
    · next h' => exact absurd h' hstruct
    · rfl
    · rfl

theorem readFields_deeper {input : Input σ} {sub sub' : Event → Option Event → σ → EventResult σ}
    (hsub : ∀ e b s, (sub e b s).InDepth → sub' e b s = sub e b s) {fs : List EventKlassField}
    {e : Event} {base : Option Event} {s : σ}
    (h : (readFields P input R flat sub fs e base s).InDepth) :
    readFields P input R flat sub' fs e base s = readFields P input R flat sub fs e base s := by
  induction fs generalizing e base s with
  | nil => rfl
  | cons f fs ih =>
    rw [readFields] at h
    rw [readFields, readFields, readField_deeper hsub h.of_bind]
    rcases hf : readField P input R flat sub f e base s with ⟨r, s'⟩ | ⟨w, s'⟩
    · rw [hf] at h
      exact ih h
    · rfl

/-- **A larger bound changes nothing**, if the bound was not reached. -/
theorem readEvent_deeper {input : Input σ} {d d' : ℕ} (hd : d ≤ d') {e : Event}
    {base : Option Event} {s : σ} (h : (readEvent P input R flat d e base s).InDepth) :
    readEvent P input R flat d' e base s = readEvent P input R flat d e base s := by
  induction d generalizing d' e base s with
  | zero => exact absurd rfl (h s)
  | succ d ih =>
    -- both bounds leave room for the struct fields, which are read with one less
    obtain ⟨d', rfl⟩ : ∃ m, d' = m + 1 := ⟨d' - 1, by omega⟩
    rw [readEvent] at h
    rw [readEvent, readEvent]
    rcases hk : e.klass.bind R.getKlass with _ | k
    · rfl
    · rw [hk] at h
      exact readFields_deeper (fun e b s h => ih (by omega) h) h

variable {input : UInt8 → Input σ} {d d' : ℕ}

theorem Reader.step_deeper (hd : d ≤ d') {r : Reader σ}
    (h : (r.step P input flat d).2 ≠ some .depth) :
    r.step P input flat d' = r.step P input flat d := by
  -- a round reads two events, the header and the body; neither reached the bound
  have hheader : (readEvent P (input r.endianness) r.register flat d
      (.new ((r.register.getKlass 1).map EventKlass.id)) none r.stream).InDepth := by
    intro s hs
    rw [Reader.step, hs] at h
    exact h rfl
  rw [Reader.step] at h
  rw [Reader.step, Reader.step, readEvent_deeper hd hheader]
  rcases hres : readEvent P (input r.endianness) r.register flat d
    (.new ((r.register.getKlass 1).map EventKlass.id)) none r.stream with ⟨⟨header, b⟩, s⟩ | ⟨w, s⟩
  · rw [hres] at h
    dsimp only at h ⊢
    rcases hid : header.getNum (ascii "klass_id") with w | klassId
    · rfl
    · rw [hid] at h
      dsimp only at h ⊢
      by_cases h1 : UInt32.ofNat klassId = 1
      · rw [if_pos h1, if_pos h1]
      · rw [if_neg h1] at h
        rw [if_neg h1, if_neg h1]
        have hbody : (readEvent P (input r.endianness) r.register flat d
            (.new ((r.register.getKlass (UInt32.ofNat klassId)).map EventKlass.id))
            (if flat then none else some header) s).InDepth := by
          intro s' hs'
          rw [Reader.readBody] at h
          dsimp only at h
          rw [hs'] at h
          exact h rfl
        rw [Reader.readBody, Reader.readBody]
        dsimp only
        rw [readEvent_deeper hd hbody]
  · rfl

theorem Reader.rounds_deeper (hd : d ≤ d') {k : ℕ} {r r' : Reader σ}
    (h : r.rounds P input flat d k = some r') : r.rounds P input flat d' k = some r' := by
  induction k generalizing r with
  | zero => exact h
  | succ k ih =>
    obtain ⟨r'', hstep, h⟩ := Reader.exists_step_of_rounds h
    have hdeep : r.step P input flat d' = (r'', none) := by
      rw [Reader.step_deeper hd (by rw [hstep]; simp), hstep]
    rw [Reader.rounds_succ hdeep]
    exact ih h

theorem Reader.run_deeper (hd : d ≤ d') {n : ℕ} {r : Reader σ}
    (h : (r.run P input flat d n).2 ≠ .depth) :
    r.run P input flat d' n = r.run P input flat d n := by
  induction n generalizing r with
  | zero => rfl
  | succ n ih =>
    rw [Reader.run] at h
    rcases hstep : r.step P input flat d with ⟨r'', _ | w⟩
    · rw [hstep] at h
      have hdeep : r.step P input flat d' = (r'', none) := by
        rw [Reader.step_deeper hd (by rw [hstep]; simp), hstep]
      rw [Reader.run, Reader.run, hdeep, hstep]
      exact ih h
    · rw [hstep] at h
      have hdeep : r.step P input flat d' = (r'', some w) := by
        rw [Reader.step_deeper hd (by rw [hstep]; simpa using h), hstep]
      rw [Reader.run, Reader.run, hdeep, hstep]

end Deeper

/-! ### The grammar -/

section Grammar

variable (P : Platform) (R : KlassRegister)

/-- The klass a struct field is read by. -/
def structKlass (f : EventKlassField) : Option EventKlass := R.getKlass (R.getKlassId P f.typeName)

/-- **The bytes a list of fields takes from a file**: it goes on with the first list and is
left with the second. -/
inductive Takes : List EventKlassField → List UInt8 → List UInt8 → Prop
  | nil (s : List UInt8) : Takes [] s s
  | num {f : EventKlassField} {fs : List EventKlassField} {bs s s' : List UInt8}
      (hf : f.typeId.isNumeric = true) (hbs : bs.length = f.typeId.sizeof) (h : Takes fs s s') :
      Takes (f :: fs) (bs ++ s) s'
  | str {f : EventKlassField} {fs : List EventKlassField} {v s s' : List UInt8}
      (hf : f.typeId = .string) (hv : 0 ∉ v) (h : Takes fs s s') :
      Takes (f :: fs) (v ++ 0 :: s) s'
  | header {f : EventKlassField} {fs : List EventKlassField} {s s' : List UInt8}
      (hf : f.typeId = .struct) (hheader : f.isHeader = true) (h : Takes fs s s') :
      Takes (f :: fs) s s'
  | struct {f : EventKlassField} {fs : List EventKlassField} {k : EventKlass}
      {s s' s'' : List UInt8} (hf : f.typeId = .struct) (hheader : ¬ f.isHeader = true)
      (hk : structKlass P R f = some k) (hsub : Takes k.fields s s') (h : Takes fs s' s'') :
      Takes (f :: fs) s s''

/-- **A list of fields is safe to read from a file**: wherever the bytes lead to a struct
field there is a klass for it, and the structs end somewhere. -/
inductive Safe : List EventKlassField → List UInt8 → Prop
  | nil (s : List UInt8) : Safe [] s
  | num {f : EventKlassField} {fs : List EventKlassField} {s : List UInt8}
      (hf : f.typeId.isNumeric = true)
      (h : ∀ bs s', bs.length = f.typeId.sizeof → s = bs ++ s' → Safe fs s') : Safe (f :: fs) s
  /-- A pointer is never read, so nothing after it is. -/
  | pointer {f : EventKlassField} {fs : List EventKlassField} {s : List UInt8}
      (hf : f.typeId = .pointer) : Safe (f :: fs) s
  | str {f : EventKlassField} {fs : List EventKlassField} {s : List UInt8}
      (hf : f.typeId = .string) (h : ∀ v s', 0 ∉ v → s = v ++ 0 :: s' → Safe fs s') :
      Safe (f :: fs) s
  | header {f : EventKlassField} {fs : List EventKlassField} {s : List UInt8}
      (hf : f.typeId = .struct) (hheader : f.isHeader = true) (h : Safe fs s) : Safe (f :: fs) s
  | struct {f : EventKlassField} {fs : List EventKlassField} {k : EventKlass} {s : List UInt8}
      (hf : f.typeId = .struct) (hheader : ¬ f.isHeader = true)
      (hk : structKlass P R f = some k) (hsub : Safe k.fields s)
      (h : ∀ s', Takes P R k.fields s s' → Safe fs s') : Safe (f :: fs) s

variable {P R}

theorem Takes.length_le {fs : List EventKlassField} {s s' : List UInt8} (h : Takes P R fs s s') :
    s'.length ≤ s.length := by
  induction h with
  | nil s => exact le_rfl
  | num hf hbs h ih =>
    rw [List.length_append]
    omega
  | str hf hv h ih =>
    rw [List.length_append, List.length_cons]
    omega
  | header hf hheader h ih => exact ih
  | struct hf hheader hk hsub h ihsub ih => exact ih.trans ihsub

theorem structKlass_bind (f : EventKlassField) :
    ((structKlass P R f).map EventKlass.id).bind R.getKlass = structKlass P R f := by
  rcases hk : structKlass P R f with _ | k
  · rfl
  · have hk' : R.getKlass (R.getKlassId P f.typeName) = some k := hk
    rw [Option.map_some, Option.bind_some, KlassRegister.id_of_getKlass hk', hk']

/-! ### The first field of a file -/

section Field

variable {host : ByteOrder} {c : UInt8} {flat : Bool}
  {sub : Event → Option Event → FileStream → EventResult FileStream} {f : EventKlassField}
  {fs : List EventKlassField} {e : Event} {base : Option Event}

theorem readFields_cons_num (hf : f.typeId.isNumeric = true) (s : FileStream) :
    readFields P (streamInput host c) R flat sub (f :: fs) e base s =
      if f.typeId.sizeof ≤ s.length then
        readFields P (streamInput host c) R flat sub fs (e.setValue P f (.num f.typeId
          (ofBytes (streamOrder host c) (s.take f.typeId.sizeof)))) base (s.drop f.typeId.sizeof)
      else .stop .error [] := by
  have hnum : (streamInput host c).num f.typeId s = _ := readNumeric_file host c hf s
  rw [readFields, readField_num sub hf, hnum]
  split <;> rfl

theorem readFields_cons_append (hf : f.typeId.isNumeric = true) {bs : FileStream}
    (hbs : bs.length = f.typeId.sizeof) (s : FileStream) :
    readFields P (streamInput host c) R flat sub (f :: fs) e base (bs ++ s) =
      readFields P (streamInput host c) R flat sub fs
        (e.setValue P f (.num f.typeId (ofBytes (streamOrder host c) bs))) base s := by
  rw [readFields_cons_num hf, if_pos (by simp [hbs]), List.take_left' hbs, List.drop_left' hbs]

theorem readFields_cons_toBytes (hf : f.typeId.isNumeric = true) {w n : ℕ}
    (hw : f.typeId.sizeof = w) (hn : n < 256 ^ w) (s : FileStream) :
    readFields P (streamInput host c) R flat sub (f :: fs) e base
        (toBytes (streamOrder host c) w n ++ s) =
      readFields P (streamInput host c) R flat sub fs (e.setValue P f (.num f.typeId n))
        base s := by
  subst hw
  rw [readFields_cons_append hf (length_toBytes _ _ _), ofBytes_toBytes _ hn]

theorem readFields_cons_str (hf : f.typeId = .string) {v : Name} (hv : 0 ∉ v) (s : FileStream) :
    readFields P (streamInput host c) R flat sub (f :: fs) e base (v ++ 0 :: s) =
      readFields P (streamInput host c) R flat sub fs (e.setValue P f (.str v)) base s := by
  have hstr : (streamInput host c).str (v ++ 0 :: s : FileStream) = .ok v s :=
    readString_eq_ok_iff.mpr ⟨hv, rfl⟩
  rw [readFields, readField_str sub hf, hstr]
  rfl

theorem readFields_cons_num_short (hf : f.typeId.isNumeric = true) {s : FileStream}
    (hs : s.length < f.typeId.sizeof) :
    readFields P (streamInput host c) R false sub (f :: fs) e base s = .stop .error [] := by
  rw [readFields_cons_num hf, if_neg (Nat.not_le.mpr hs)]

/-- A pointer is never read. -/
theorem exists_readFields_cons_pointer (hf : f.typeId = .pointer) (s : FileStream) :
    ∃ s', readFields P (streamInput host c) R false sub (f :: fs) e base s = .stop .error s' := by
  have hnum : ∃ s', (streamInput host c).num .pointer s = .stop .error (s' : FileStream) := by
    change ∃ s', readNumeric host c .pointer s = .stop .error s'
    rw [readNumeric]
    rcases Stream.readData s FieldTypeId.pointer.sizeof with ⟨_ | bs, s'⟩
    · exact ⟨s', rfl⟩
    · exact ⟨s', rfl⟩
  obtain ⟨s', hs'⟩ := hnum
  refine ⟨s', ?_⟩
  rw [readFields, readField_pointer sub hf, hs']
  rfl

theorem readFields_cons_str_short (hf : f.typeId = .string) {s : FileStream}
    (hs : (0 : UInt8) ∉ s) :
    readFields P (streamInput host c) R false sub (f :: fs) e base s = .stop .error [] := by
  have hstr : (streamInput host c).str s = .stop .error ([] : FileStream) := by
    change readString s = _
    rw [readString_file, if_neg hs]
  rw [readFields, readField_str sub hf, hstr]
  rfl

theorem readFields_cons_header (hf : f.typeId = .struct) (hheader : f.isHeader = true) (b : Event)
    (s : FileStream) :
    readFields P (streamInput host c) R false sub (f :: fs) e (some b) s =
      readFields P (streamInput host c) R false sub fs (e.setValue P f b.toField) (some b.movedFrom)
        s := by
  rw [readFields, readField_struct sub hf, readStruct_of_isHeader sub hheader]
  rfl

theorem readFields_cons_struct (hf : f.typeId = .struct) (hheader : ¬ f.isHeader = true)
    (s : FileStream) :
    readFields P (streamInput host c) R false sub (f :: fs) e base s =
      (sub (.new ((structKlass P R f).map EventKlass.id)) base s).bind fun r s' =>
        readFields P (streamInput host c) R false sub fs (e.setValue P f r.1.toField) r.2 s' := by
  rw [readFields, readField_struct sub hf, readStruct_of_not_isHeader sub hheader, structKlass]
  rcases sub (.new ((R.getKlass (R.getKlassId P f.typeName)).map EventKlass.id)) base s with r | w
  · rfl
  · rfl

end Field

/-- There are bytes for a number or there are not. -/
theorem split_num (n : ℕ) (s : List UInt8) :
    (∃ bs s', bs.length = n ∧ s = bs ++ s') ∨ s.length < n := by
  rcases Nat.lt_or_ge s.length n with hlt | hge
  · exact .inr hlt
  · exact .inl ⟨s.take n, s.drop n, by simpa using hge, (List.take_append_drop n s).symm⟩

/-- There is a terminated string or there is not. -/
theorem split_str (s : List UInt8) : (∃ v s', 0 ∉ v ∧ s = v ++ 0 :: s') ∨ (0 : UInt8) ∉ s := by
  by_cases hz : (0 : UInt8) ∈ s
  · have hok : readString s = .ok (s.takeWhile (· ≠ 0)) (s.dropWhile (· ≠ 0)).tail := by
      rw [readString_file, if_pos hz]
    exact .inl ⟨_, _, readString_eq_ok_iff.mp hok⟩
  · exact .inr hz

/-! ### Taking and reading -/

variable {host : ByteOrder} {c : UInt8} {s : FileStream} {fs : List EventKlassField}

theorem readFields_le {d d' : ℕ} (hd : d ≤ d') {e : Event} {base : Option Event}
    (h : (readFields P (streamInput host c) R false (readEvent P (streamInput host c) R false d)
      fs e base s).InDepth) :
    readFields P (streamInput host c) R false (readEvent P (streamInput host c) R false d') fs e
        base s =
      readFields P (streamInput host c) R false (readEvent P (streamInput host c) R false d) fs e
        base s :=
  readFields_deeper (fun _ _ _ h => readEvent_deeper hd h) h

/-- What reading a list of fields takes, given what reading a struct takes. -/
theorem takes_of_readFields {sub : Event → Option Event → FileStream → EventResult FileStream}
    (hsub : ∀ {k : Option UInt32} {b : Event} {s s' : FileStream} {r : Event × Option Event},
      sub (.new k) (some b) s = .ok r s' →
      (∃ kl, k.bind R.getKlass = some kl ∧ Takes P R kl.fields s s') ∧ ∃ b', r.2 = some b')
    {e b : Event} {s' : FileStream} {r : Event × Option Event}
    (h : readFields P (streamInput host c) R false sub fs e (some b) s = .ok r s') :
    Takes P R fs s s' ∧ ∃ b', r.2 = some b' := by
  induction fs generalizing e b s with
  | nil =>
    cases h
    exact ⟨.nil _, _, rfl⟩
  | cons f fs ih =>
    rcases f.typeId.isNumeric_or with ht | ht | ht | ht
    · rcases split_num f.typeId.sizeof s with ⟨bs, s₁, hbs, rfl⟩ | hlt
      · rw [readFields_cons_append ht hbs] at h
        obtain ⟨htakes, hb⟩ := ih h
        exact ⟨.num ht hbs htakes, hb⟩
      · rw [readFields_cons_num_short ht hlt] at h
        cases h
    · obtain ⟨s₁, hs₁⟩ := exists_readFields_cons_pointer ht s
      rw [hs₁] at h
      cases h
    · rcases split_str s with ⟨v, s₁, hv, rfl⟩ | hz
      · rw [readFields_cons_str ht hv] at h
        obtain ⟨htakes, hb⟩ := ih h
        exact ⟨.str ht hv htakes, hb⟩
      · rw [readFields_cons_str_short ht hz] at h
        cases h
    · by_cases hheader : f.isHeader = true
      · rw [readFields_cons_header ht hheader] at h
        obtain ⟨htakes, hb⟩ := ih h
        exact ⟨.header ht hheader htakes, hb⟩
      · rw [readFields_cons_struct ht hheader] at h
        obtain ⟨r₁, s₁, hr₁, hfs⟩ := Result.bind_eq_ok_iff.mp h
        obtain ⟨⟨kl, hkl, htakes⟩, b', hb'⟩ := hsub hr₁
        rw [hb'] at hfs
        obtain ⟨hrest, hb⟩ := ih hfs
        exact ⟨.struct ht hheader ((structKlass_bind f).symm.trans hkl) htakes hrest, hb⟩

theorem takes_of_readEvent {d : ℕ} {k : Option UInt32} {b : Event} {s' : FileStream}
    {r : Event × Option Event}
    (h : readEvent P (streamInput host c) R false d (.new k) (some b) s = .ok r s') :
    (∃ kl, k.bind R.getKlass = some kl ∧ Takes P R kl.fields s s') ∧ ∃ b', r.2 = some b' := by
  induction d generalizing k b s s' r with
  | zero => cases h
  | succ d ih =>
    rw [readEvent] at h
    rcases hk : (Event.new k).klass.bind R.getKlass with _ | kl
    · rw [hk] at h
      cases h
    · rw [hk] at h
      obtain ⟨htakes, hb⟩ := takes_of_readFields (fun h => ih h) h
      exact ⟨⟨kl, hk, htakes⟩, hb⟩

/-- **What a list of fields takes can be read**, if the bound on the recursion allows it. -/
theorem readFields_of_takes (host : ByteOrder) (c : UInt8) {s' : FileStream} (h : Takes P R fs s s')
    (e b : Event) :
    ∃ d r b', readFields P (streamInput host c) R false (readEvent P (streamInput host c) R false d)
      fs e (some b) s = .ok (r, some b') s' := by
  induction h generalizing e b with
  | nil s => exact ⟨0, e, b, rfl⟩
  | @num f fs bs s s' hf hbs h ih =>
    obtain ⟨d, r, b', hr⟩ := ih (e.setValue P f (.num f.typeId (ofBytes (streamOrder host c) bs))) b
    exact ⟨d, r, b', (readFields_cons_append hf hbs s).trans hr⟩
  | @str f fs v s s' hf hv h ih =>
    obtain ⟨d, r, b', hr⟩ := ih (e.setValue P f (.str v)) b
    exact ⟨d, r, b', (readFields_cons_str hf hv s).trans hr⟩
  | @header f fs s s' hf hheader h ih =>
    obtain ⟨d, r, b', hr⟩ := ih (e.setValue P f b.toField) b.movedFrom
    exact ⟨d, r, b', (readFields_cons_header hf hheader b s).trans hr⟩
  | @struct f fs k s s' s'' hf hheader hk hsub h ihsub ih =>
    have hk' : R.getKlass (R.getKlassId P f.typeName) = some k := hk
    obtain ⟨d₁, r₁, b₁, hr₁⟩ := ihsub (.new (some k.id)) b
    obtain ⟨d₂, r₂, b₂, hr₂⟩ := ih (e.setValue P f r₁.toField) b₁
    -- one bound for the struct and for what follows it
    have hsubread : readEvent P (streamInput host c) R false (max (d₁ + 1) d₂)
        (.new (some k.id)) (some b) s = .ok (r₁, some b₁) s' := by
      have hget : R.getKlass k.id = some k := by rw [KlassRegister.id_of_getKlass hk', hk']
      have hread : readEvent P (streamInput host c) R false (d₁ + 1) (.new (some k.id)) (some b) s =
          .ok (r₁, some b₁) s' := by rw [readEvent_succ rfl hget, hr₁]
      rw [readEvent_deeper (le_max_left _ _) (by rw [hread]; intro _ h; cases h), hread]
    refine ⟨max (d₁ + 1) d₂, r₂, b₂, ?_⟩
    rw [readFields_cons_struct hf hheader, hk, Option.map_some, hsubread]
    dsimp only [Result.ok_bind]
    rw [readFields_le (le_max_right _ _) (by rw [hr₂]; intro _ h; cases h), hr₂]

/-! ### Reading without trouble -/

/-- Reading succeeded, or reported an error. -/
def Result.Fine {α σ : Type} (r : Result α σ) : Prop := ∀ w s, r = .stop w s → w = .error

theorem Result.Fine.of_bind {α β σ : Type} {r : Result α σ} {k : α → σ → Result β σ}
    (h : (r.bind k).Fine) : r.Fine := by
  rintro w s rfl
  exact h w s rfl

theorem Result.Fine.inDepth {α σ : Type} {r : Result α σ} (h : r.Fine) : r.InDepth := by
  intro s hs
  cases h _ s hs

theorem Result.fine_ok {α σ : Type} (a : α) (s : σ) : (Result.ok a s).Fine := by
  intro w s' h
  cases h

theorem Result.fine_error {α σ : Type} (s : σ) : (Result.stop .error s : Result α σ).Fine := by
  intro w s' h
  cases h
  rfl

/-- If a list of fields is read without trouble it is safe, given that for a struct. -/
theorem safe_of_readFields {sub : Event → Option Event → FileStream → EventResult FileStream}
    (hsub : ∀ {k : Option UInt32} {b : Event} {s : FileStream}, (sub (.new k) (some b) s).Fine →
      ∃ kl, k.bind R.getKlass = some kl ∧ Safe P R kl.fields s ∧
      ∀ s', Takes P R kl.fields s s' → ∃ r b', sub (.new k) (some b) s = .ok (r, some b') s')
    {e b : Event} (h : (readFields P (streamInput host c) R false sub fs e (some b) s).Fine) :
    Safe P R fs s := by
  induction fs generalizing e b s with
  | nil => exact .nil s
  | cons f fs ih =>
    rcases f.typeId.isNumeric_or with ht | ht | ht | ht
    · refine .num ht ?_
      rintro bs s' hbs rfl
      rw [readFields_cons_append ht hbs] at h
      exact ih h
    · exact .pointer ht
    · refine .str ht ?_
      rintro v s' hv rfl
      rw [readFields_cons_str ht hv] at h
      exact ih h
    · by_cases hheader : f.isHeader = true
      · rw [readFields_cons_header ht hheader] at h
        exact .header ht hheader (ih h)
      · rw [readFields_cons_struct ht hheader] at h
        obtain ⟨kl, hkl, hsafe, htakes⟩ := hsub h.of_bind
        refine .struct ht hheader ((structKlass_bind f).symm.trans hkl) hsafe ?_
        -- what follows the struct has to be safe only where the struct can end
        intro s' hs'
        obtain ⟨r, b', hr⟩ := htakes s' hs'
        rw [hr] at h
        exact ih h

theorem safe_of_readEvent {d : ℕ} {k : Option UInt32} {b : Event}
    (h : (readEvent P (streamInput host c) R false d (.new k) (some b) s).Fine) :
    ∃ kl, k.bind R.getKlass = some kl ∧ Safe P R kl.fields s ∧ ∀ s', Takes P R kl.fields s s' →
      ∃ r b', readEvent P (streamInput host c) R false d (.new k) (some b) s =
        .ok (r, some b') s' := by
  induction d generalizing k b s with
  | zero => cases h _ s rfl
  | succ d ih =>
    rw [readEvent] at h ⊢
    rcases hk : (Event.new k).klass.bind R.getKlass with _ | kl
    · rw [hk] at h
      cases h _ s rfl
    · rw [hk] at h
      refine ⟨kl, hk, safe_of_readFields (fun h => ih h) h, ?_⟩
      intro s' hs'
      -- reading takes this under some bound, and more than either bound changes nothing
      obtain ⟨d', r, b', hr⟩ := readFields_of_takes host c hs' (.new k) b
      refine ⟨r, b', ?_⟩
      dsimp only
      rw [← readFields_le (le_max_left d d') h.inDepth,
        readFields_le (le_max_right d d') (by rw [hr]; intro _ h; cases h), hr]

/-- **A safe list of fields is read without trouble**, if the bound on the recursion allows
it. -/
theorem readFields_of_safe (host : ByteOrder) (c : UInt8) (h : Safe P R fs s) (e b : Event) :
    ∃ d, (readFields P (streamInput host c) R false (readEvent P (streamInput host c) R false d)
      fs e (some b) s).Fine := by
  induction h generalizing e b with
  | nil s => exact ⟨0, Result.fine_ok _ _⟩
  | @num f fs s hf h ih =>
    rcases split_num f.typeId.sizeof s with ⟨bs, s', hbs, rfl⟩ | hlt
    · obtain ⟨d, hd⟩ := ih bs s' hbs rfl
        (e.setValue P f (.num f.typeId (ofBytes (streamOrder host c) bs))) b
      refine ⟨d, ?_⟩
      rw [readFields_cons_append hf hbs]
      exact hd
    · refine ⟨0, ?_⟩
      rw [readFields_cons_num_short hf hlt]
      exact Result.fine_error _
  | @pointer f fs s hf =>
    obtain ⟨s', hs'⟩ := exists_readFields_cons_pointer hf s
    refine ⟨0, ?_⟩
    rw [hs']
    exact Result.fine_error _
  | @str f fs s hf h ih =>
    rcases split_str s with ⟨v, s', hv, rfl⟩ | hz
    · obtain ⟨d, hd⟩ := ih v s' hv rfl (e.setValue P f (.str v)) b
      refine ⟨d, ?_⟩
      rw [readFields_cons_str hf hv]
      exact hd
    · refine ⟨0, ?_⟩
      rw [readFields_cons_str_short hf hz]
      exact Result.fine_error _
  | @header f fs s hf hheader h ih =>
    obtain ⟨d, hd⟩ := ih (e.setValue P f b.toField) b.movedFrom
    refine ⟨d, ?_⟩
    rw [readFields_cons_header hf hheader]
    exact hd
  | @struct f fs k s hf hheader hk hsub h ihsub ih =>
    have hget : R.getKlass k.id = some k := by
      have hk' : R.getKlass (R.getKlassId P f.typeName) = some k := hk
      rw [KlassRegister.id_of_getKlass hk', hk']
    obtain ⟨d₁, hd₁⟩ := ihsub (.new (some k.id)) b
    rw [← readEvent_succ rfl hget] at hd₁
    rcases hr : readEvent P (streamInput host c) R false (d₁ + 1) (.new (some k.id)) (some b) s with
      ⟨⟨r₁, b₁⟩, s'⟩ | ⟨w, s'⟩
    · -- the struct is read, so it takes what it should, and the rest is read under some bound too
      obtain ⟨⟨kl, hkl, htakes⟩, b', rfl⟩ := takes_of_readEvent hr
      obtain rfl : k = kl := Option.some.inj (hget.symm.trans hkl)
      obtain ⟨d₂, hd₂⟩ := ih s' htakes (e.setValue P f r₁.toField) b'
      refine ⟨max (d₁ + 1) d₂, ?_⟩
      rw [readFields_cons_struct hf hheader, hk, Option.map_some,
        readEvent_deeper (le_max_left _ _) hd₁.inDepth, hr]
      dsimp only [Result.ok_bind]
      rw [readFields_le (le_max_right _ _) hd₂.inDepth]
      exact hd₂
    · obtain rfl := hd₁ _ _ hr
      refine ⟨d₁ + 1, ?_⟩
      rw [readFields_cons_struct hf hheader, hk, Option.map_some, hr]
      exact Result.fine_error _

/-- **An event is read without trouble if and only if its klass is there and safe.** -/
theorem exists_fine_iff {id : UInt32} {b : Event} :
    (∃ d, (readEvent P (streamInput host c) R false d
      (.new ((R.getKlass id).map EventKlass.id)) (some b) s).Fine) ↔
      ∃ k, R.getKlass id = some k ∧ Safe P R k.fields s := by
  constructor
  · rintro ⟨d, hd⟩
    obtain ⟨kl, hkl, hsafe, -⟩ := safe_of_readEvent hd
    rcases hk : R.getKlass id with _ | k
    · rw [hk] at hkl
      cases hkl
    · rw [hk, Option.map_some, Option.bind_some, KlassRegister.id_of_getKlass hk, hk] at hkl
      exact ⟨k, rfl, Option.some.inj hkl ▸ hsafe⟩
  · rintro ⟨k, hk, hsafe⟩
    obtain ⟨d, hd⟩ := readFields_of_safe host c hsafe (.new (some k.id)) b
    refine ⟨d + 1, ?_⟩
    rwa [hk, Option.map_some, readEvent_succ rfl (by rw [KlassRegister.id_of_getKlass hk, hk])]

end Grammar

end HawkTracer.Parser
