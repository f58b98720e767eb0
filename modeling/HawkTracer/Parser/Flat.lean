import HawkTracer.Parser.Reader
import Mathlib.Data.List.Forall2

/-!
# Flat and nested events

The reader builds events in two ways. In nested mode a struct field holds the event of
its own fields, the header being moved into the field `base`; in flat mode the fields of
a nested struct are merged into the event around it, first come first served, and the
header is merged last.

What both have in common is the *leaves* of the nested event
(`HawkTracer.Parser.leavesOf`): the numbers and strings at any depth, in the order in
which they were read. A flat event under construction answers exactly as the list of
leaves of the nested one that is built from the same bytes
(`HawkTracer.Parser.Mirrors`), and reading keeps the two in lockstep
(`HawkTracer.Parser.readEvent_lockstep`). The klasses by which the register grows and
the field that sets the byte order hold no structs in front of what is looked up, so the
two readers also go on in the same state
(`HawkTracer.Parser.Reader.step_agree`), and so they do over a whole stream
(`HawkTracer.Parser.flat_agrees_with_nested`).
-/

namespace HawkTracer.Parser

open KlassRegister Reader

/-! ### Leaves -/

mutual

/-- The leaves of the value of a field. The events stored in header fields are entered or
skipped. -/
def FieldType.leaves (headers : Bool) (f : EventKlassField) : FieldType → List Value
  | .num t n => [(f, .num t n)]
  | .str s => [(f, .str s)]
  | .event _ vs _ => if f.isHeader && !headers then [] else leavesOf headers vs

/-- The leaves of a list of values. -/
def leavesOf (headers : Bool) : List (EventKlassField × FieldType) → List Value
  | [] => []
  | v :: vs => leavesOfValue headers v ++ leavesOf headers vs

/-- The leaves of a value together with its field. -/
def leavesOfValue (headers : Bool) : EventKlassField × FieldType → List Value
  | (f, x) => FieldType.leaves headers f x

end

theorem leavesOf_append (headers : Bool) (vs ws : List Value) :
    leavesOf headers (vs ++ ws) = leavesOf headers vs ++ leavesOf headers ws := by
  induction vs with
  | nil => rfl
  | cons v vs ih => rw [List.cons_append, leavesOf, leavesOf, ih, List.append_assoc]

theorem leavesOf_event (headers : Bool) (f : EventKlassField) (e : Event) :
    leavesOf headers [(f, e.toField)] =
      if f.isHeader && !headers then [] else leavesOf headers e.values := by
  rw [leavesOf, leavesOfValue, Event.toField, FieldType.leaves, leavesOf, List.append_nil]

/-- The value is its only leaf. -/
def Value.IsLeaf (v : Value) : Prop := ∀ headers, leavesOf headers [v] = [v]

theorem isLeaf_num (f : EventKlassField) (t : FieldTypeId) (n : ℕ) : Value.IsLeaf (f, .num t n) :=
  fun _ => rfl

theorem isLeaf_str (f : EventKlassField) (s : Name) : Value.IsLeaf (f, .str s) :=
  fun _ => rfl

/-- The value is of the kind its field asks for. -/
structure Value.Typed (v : Value) : Prop where
  num : v.1.typeId.isNumeric = true → ∃ n, v.2 = .num v.1.typeId n
  str : v.1.typeId = .string → ∃ s, v.2 = .str s
  leaf : v.1.typeId ≠ .struct → v.IsLeaf

theorem leavesOf_eq_self {vs : List Value} (h : ∀ v ∈ vs, Value.IsLeaf v) (headers : Bool) :
    leavesOf headers vs = vs := by
  induction vs with
  | nil => rfl
  | cons v vs ih =>
    have hv := h v List.mem_cons_self
    rw [← List.singleton_append, leavesOf_append, hv headers,
      ih fun w hw => h w (List.mem_cons_of_mem v hw)]

/-! ### A flat event and the nested one -/

/-- **A flat event mirrors a nested one** if a search in it answers as a search in the
leaves of the nested one outside its header fields; inside the header fields are only
values of `H`. -/
structure Mirrors (H : List Value) (flat nested : Event) : Prop where
  klass : flat.klass = nested.klass
  get : ∀ key, flat.get key = (findKey Value.name (leavesOf false nested.values) key).map Prod.snd
  own : ∀ v ∈ leavesOf false nested.values, v ∈ leavesOf true nested.values
  all : ∀ v ∈ leavesOf true nested.values, v ∈ leavesOf false nested.values ∨ v ∈ H

theorem mirrors_new (H : List Value) (klass : Option UInt32) :
    Mirrors H (.new klass) (.new klass) where
  klass := rfl
  get _ := rfl
  own := fun _ h => h
  all := fun _ h => .inl h

section Lockstep

variable {P : Platform} {H : List Value} {flat nested : Event} {f : EventKlassField}

section

variable (h : Mirrors H flat nested) (hf : f.name ∉ nested.values.map Value.name)

include h hf

/-- One more value under a fresh name: the flat event gets its leaves. -/
theorem Mirrors.setValue {x : FieldType} {flat' : Event} (hklass : flat'.klass = flat.klass)
    (hget : ∀ key, flat'.get key =
      (flat.get key).or ((findKey Value.name (leavesOf false [(f, x)]) key).map Prod.snd))
    (hown : ∀ v ∈ leavesOf false [(f, x)], v ∈ leavesOf true [(f, x)])
    (hall : ∀ v ∈ leavesOf true [(f, x)], v ∈ leavesOf false [(f, x)] ∨ v ∈ H) :
    Mirrors H flat' (nested.setValue P f x) := by
  have hvalues : (nested.setValue P f x).values = nested.values ++ [(f, x)] :=
    insertNew_of_not_mem hf
  constructor
  · rw [hklass, h.klass, Event.klass_setValue]
  · intro key
    rw [hget, h.get, hvalues, leavesOf_append, findKey_append]
    rcases findKey Value.name (leavesOf false nested.values) key with _ | w <;> simp
  · intro v hv
    rw [hvalues, leavesOf_append, List.mem_append] at hv ⊢
    exact hv.imp (h.own v) (hown v)
  · intro v hv
    rw [hvalues, leavesOf_append, List.mem_append] at hv ⊢
    rcases hv with hv | hv
    · exact (h.all v hv).imp_left .inl
    · exact (hall v hv).imp_left .inr

theorem Mirrors.setLeaf {x : FieldType} (hx : Value.IsLeaf (f, x)) :
    Mirrors H (flat.setValue P f x) (nested.setValue P f x) := by
  refine h.setValue hf (Event.klass_setValue P flat f x) ?_ ?_ ?_
  · intro key
    rw [hx, Event.get_setValue, findKey_singleton]
    by_cases hkey : f.name = key <;> simp [Value.name, hkey]
  · intro v hv
    rwa [hx] at hv ⊢
  · intro v hv
    rw [hx] at hv ⊢
    exact .inl hv

/-- A nested struct: merged on one side, stored on the other. -/
theorem Mirrors.setStruct (hheader : ¬ f.isHeader = true) {flat' nested' : Event}
    (h' : Mirrors H flat' nested') :
    Mirrors H (flat.merge P flat') (nested.setValue P f nested'.toField) := by
  have hleaves : ∀ headers,
      leavesOf headers [(f, nested'.toField)] = leavesOf headers nested'.values := by
    intro headers
    rw [leavesOf_event, if_neg (by simp [hheader])]
  refine h.setValue hf (Event.klass_merge P flat flat') ?_ ?_ ?_
  · intro key
    rw [hleaves, Event.get_merge, h'.get]
  · rw [hleaves, hleaves]
    exact h'.own
  · rw [hleaves, hleaves]
    exact h'.all

/-- The header: left out on one side, stored on the other. -/
theorem Mirrors.setHeader (hheader : f.isHeader = true) {b : Event}
    (hb : ∀ v ∈ leavesOf true b.values, v ∈ H) :
    Mirrors H flat (nested.setValue P f b.toField) := by
  have hnone : leavesOf false [(f, b.toField)] = [] := by
    rw [leavesOf_event, if_pos (by simp [hheader])]
  refine h.setValue hf rfl ?_ ?_ ?_
  · intro key
    rw [hnone, findKey_nil, Option.map_none, Option.or_none]
  · intro v hv
    rw [hnone] at hv
    cases hv
  · intro v hv
    rw [leavesOf_event, if_neg (by simp)] at hv
    exact .inr (hb v hv)

end

/-! ### Reading in lockstep -/

variable {σ : Type} {input : Input σ} {R : KlassRegister}

/-- The results of reading in the two modes: both have stopped for one reason, or both
have an event, and the stream is where it is on the other side. What is left of the
header has only values of `H`. -/
inductive Lockstep (H : List Value) : EventResult σ → EventResult σ → Prop
  | ok {flat nested b : Event} (s : σ) (h : Mirrors H flat nested)
      (hb : ∀ v ∈ leavesOf true b.values, v ∈ H) :
      Lockstep H (.ok (flat, none) s) (.ok (nested, some b) s)
  | stop (w : Stop) (s : σ) : Lockstep H (.stop w s) (.stop w s)

theorem Lockstep.bind {rF rN : EventResult σ} (h : Lockstep H rF rN)
    {kF kN : Event × Option Event → σ → EventResult σ}
    (hk : ∀ {flat nested b : Event} (s : σ), Mirrors H flat nested →
      (∀ v ∈ leavesOf true b.values, v ∈ H) →
        Lockstep H (kF (flat, none) s) (kN (nested, some b) s)) :
    Lockstep H (rF.bind kF) (rN.bind kN) := by
  rcases h with ⟨s, h, hb⟩ | ⟨w, s⟩
  · exact hk s h hb
  · exact .stop w s

/-- The value a field is read into in nested mode. -/
theorem values_readField_nested {readSub : Event → Option Event → σ → EventResult σ}
    {base : Option Event} {s s' : σ} {r : Event × Option Event}
    (h : readField P input R false readSub f nested base s = .ok r s')
    (hf : f.name ∉ nested.values.map Value.name) :
    ∃ x, r.1.values = nested.values ++ [(f, x)] ∧ Value.Typed (f, x) := by
  have hset : ∀ x, (nested.setValue P f x).values = nested.values ++ [(f, x)] := fun x =>
    insertNew_of_not_mem hf
  rcases f.typeId.isNumeric_or with ht | ht | ht | ht
  · rw [readField_num readSub ht] at h
    obtain ⟨n, s'', -, hr⟩ := Result.bind_eq_ok_iff.mp h
    cases hr
    refine ⟨.num f.typeId n, hset _, fun _ => ⟨n, rfl⟩, fun hstr => ?_, fun _ => isLeaf_num f _ n⟩
    cases hstr ▸ ht
  · rw [readField_pointer readSub ht] at h
    obtain ⟨n, s'', -, hr⟩ := Result.bind_eq_ok_iff.mp h
    cases hr
    refine ⟨.num .pointer n, hset _, fun hnum => ?_, fun hstr => ?_, fun _ => isLeaf_num f _ n⟩
    · cases ht ▸ hnum
    · cases ht.symm.trans hstr
  · rw [readField_str readSub ht] at h
    obtain ⟨v, s'', -, hr⟩ := Result.bind_eq_ok_iff.mp h
    cases hr
    refine ⟨.str v, hset _, fun hnum => ?_, fun _ => ⟨v, rfl⟩, fun _ => isLeaf_str f v⟩
    cases ht ▸ hnum
  · have htyped : ∀ x, Value.Typed (f, x) := by
      intro x
      refine ⟨fun hnum => ?_, fun hstr => ?_, fun hne => absurd ht hne⟩
      · cases ht ▸ hnum
      · cases ht.symm.trans hstr
    rw [readField_struct readSub ht] at h
    by_cases hheader : f.isHeader = true
    · rw [readStruct_of_isHeader readSub hheader] at h
      rcases base with _ | b
      · cases h
      · cases h
        exact ⟨_, hset _, htyped _⟩
    · rw [readStruct_of_not_isHeader readSub hheader] at h
      obtain ⟨r', s'', -, hr⟩ := Result.bind_eq_ok_iff.mp h
      cases hr
      exact ⟨_, hset _, htyped _⟩

/-- **What a list of fields is read into in nested mode**: one value for each of them. -/
theorem values_readFields_nested {readSub : Event → Option Event → σ → EventResult σ}
    {fs : List EventKlassField} {base : Option Event} {s s' : σ} {r : Event × Option Event}
    (h : readFields P input R false readSub fs nested base s = .ok r s')
    (hfs : (nested.values.map Value.name ++ fs.map EventKlassField.name).Nodup) :
    ∃ ws, r.1.values = nested.values ++ ws ∧ ws.map Prod.fst = fs ∧
      ∀ w ∈ ws, Value.Typed w := by
  induction fs generalizing nested base s with
  | nil =>
    cases h
    exact ⟨[], by simp⟩
  | cons f fs ih =>
    obtain ⟨r', s'', hread, hrest⟩ := Result.bind_eq_ok_iff.mp h
    have hf : f.name ∉ nested.values.map Value.name := fun hmem =>
      (List.nodup_append.mp hfs).2.2 _ hmem _ List.mem_cons_self rfl
    obtain ⟨x, hx, htyped⟩ := values_readField_nested hread hf
    -- the name of `f` moves from the fields to come to the values, so the names stay distinct
    have hnames : r'.1.values.map Value.name ++ fs.map EventKlassField.name =
        nested.values.map Value.name ++ (f :: fs).map EventKlassField.name := by
      rw [hx]
      simp [Value.name]
    obtain ⟨ws, hws, hfst, hrest⟩ := ih hrest (hnames ▸ hfs)
    refine ⟨(f, x) :: ws, by rw [hws, hx]; simp, by simp [hfst], ?_⟩
    intro w hw
    rcases List.mem_cons.mp hw with rfl | hw
    · exact htyped
    · exact hrest w hw

section

variable {subF subN : Event → Option Event → σ → EventResult σ}
  (hsub : ∀ (k : Option UInt32) (b : Event) (s : σ), (∀ v ∈ leavesOf true b.values, v ∈ H) →
    Lockstep H (subF (.new k) none s) (subN (.new k) (some b) s))
  (h : Mirrors H flat nested) {b : Event} (hb : ∀ v ∈ leavesOf true b.values, v ∈ H)

include hsub h hb

theorem readField_lockstep (hf : f.name ∉ nested.values.map Value.name) (s : σ) :
    Lockstep H (readField P input R true subF f flat none s)
      (readField P input R false subN f nested (some b) s) := by
  unfold readField
  split
  · by_cases hheader : f.isHeader = true
    · rw [readStruct_of_isHeader subF hheader, readStruct_of_isHeader subN hheader]
      refine .ok s (h.setHeader hf hheader hb) ?_
      intro v hv
      cases hv
    · rw [readStruct_of_not_isHeader subF hheader, readStruct_of_not_isHeader subN hheader]
      exact (hsub _ b s hb).bind fun s' h' hb' => .ok s' (h.setStruct hf hheader h') hb'
  · rcases input.str s with ⟨v, s'⟩ | ⟨w, s'⟩
    · exact .ok s' (h.setLeaf hf (isLeaf_str f v)) hb
    · exact .stop w s'
  · rcases input.num f.typeId s with ⟨n, s'⟩ | ⟨w, s'⟩
    · exact .ok s' (h.setLeaf hf (isLeaf_num f _ n)) hb
    · exact .stop w s'

/-- **Reading fields keeps the two modes in lockstep.** The names still to come are fresh
in the nested event, because a klass does not repeat the name of a field. -/
theorem readFields_lockstep {fs : List EventKlassField}
    (hfs : (nested.values.map Value.name ++ fs.map EventKlassField.name).Nodup) (s : σ) :
    Lockstep H (readFields P input R true subF fs flat none s)
      (readFields P input R false subN fs nested (some b) s) := by
  induction fs generalizing flat nested b s with
  | nil => exact .ok s h hb
  | cons f fs ih =>
    have hf : f.name ∉ nested.values.map Value.name := fun hmem =>
      (List.nodup_append.mp hfs).2.2 _ hmem _ List.mem_cons_self rfl
    have hstep : Lockstep H (readField P input R true subF f flat none s)
        (readField P input R false subN f nested (some b) s) :=
      readField_lockstep hsub h hb hf s
    rw [readFields, readFields]
    -- what the nested reader returns is kept in `hN`: it tells which name is now taken
    generalize readField P input R true subF f flat none s = rF at hstep
    generalize hN : readField P input R false subN f nested (some b) s = rN at hstep
    rcases hstep with ⟨s', h', hb'⟩ | ⟨w, s'⟩
    · obtain ⟨x, hx, -⟩ := values_readField_nested hN hf
      refine ih h' hb' ?_ s'
      rw [hx]
      simpa [Value.name] using hfs
    · exact .stop w s'

end

/-- **Reading an event keeps the two modes in lockstep**, at any depth. -/
theorem readEvent_lockstep (depth : ℕ) (k : Option UInt32) {b : Event}
    (hb : ∀ v ∈ leavesOf true b.values, v ∈ H) (s : σ) :
    Lockstep H (readEvent P input R true depth (.new k) none s)
      (readEvent P input R false depth (.new k) (some b) s) := by
  induction depth generalizing k b s with
  | zero => exact .stop .depth s
  | succ depth ih =>
    rw [readEvent, readEvent]
    rcases (Event.new k).klass.bind R.getKlass with _ | kl
    · exact .stop .nullKlass s
    · exact readFields_lockstep (fun k b s hb => ih k hb s) (mirrors_new H k) hb kl.nodup s

end Lockstep

/-! ### Headers -/

/-- The names of the fields of a header. -/
def headerNames : List Name := [ascii "klass_id", ascii "timestamp", ascii "id"]

/-- A header as it is read: a leaf under each of the three names. -/
structure IsHeader (header : Event) : Prop where
  names : header.values.map Value.name = headerNames
  leaves : ∀ v ∈ header.values, Value.IsLeaf v

theorem map_findKey_eq_some_iff {vs : List Value} (hvs : (vs.map Value.name).Nodup) {key : Name}
    {x : FieldType} :
    (findKey Value.name vs key).map Prod.snd = some x ↔ ∃ v ∈ vs, v.name = key ∧ v.2 = x := by
  rw [Option.map_eq_some_iff]
  constructor
  · rintro ⟨v, hv, rfl⟩
    exact ⟨v, mem_of_findKey hv, key_of_findKey hv, rfl⟩
  · rintro ⟨v, hv, rfl, rfl⟩
    exact ⟨v, (findKey_eq_some_iff hvs).mpr ⟨hv, rfl⟩, rfl⟩

theorem IsHeader.get_eq_some_iff {header : Event} (h : IsHeader header) {key : Name}
    {x : FieldType} : header.get key = some x ↔ ∃ v ∈ header.values, v.name = key ∧ v.2 = x :=
  map_findKey_eq_some_iff (by rw [h.names]; decide)

theorem IsHeader.get_eq_none {header : Event} (h : IsHeader header) {key : Name}
    (hkey : key ∉ headerNames) : header.get key = none := by
  rw [Event.get, findKey_eq_none_iff.mpr (by rwa [h.names]), Option.map_none]

section Header

variable {σ : Type} {P : Platform} {input : Input σ} {R : KlassRegister}

/-- The mode matters for structs only. -/
theorem readFields_flat_eq_nested {subF subN : Event → Option Event → σ → EventResult σ}
    {fs : List EventKlassField} (hfs : ∀ f ∈ fs, f.typeId ≠ .struct) (e : Event)
    (base : Option Event) (s : σ) :
    readFields P input R true subF fs e base s = readFields P input R false subN fs e base s := by
  induction fs generalizing e base s with
  | nil => rfl
  | cons f fs ih =>
    have hf := hfs f List.mem_cons_self
    have hfield : readField P input R true subF f e base s =
        readField P input R false subN f e base s := by
      unfold readField
      split
      · next hstruct => exact absurd hstruct hf
      · rfl
      · rfl
    rw [readFields, readFields, hfield]
    rcases readField P input R false subN f e base s with ⟨r, s'⟩ | ⟨w, s'⟩
    · exact ih (fun f' hf' => hfs f' (List.mem_cons_of_mem f hf')) r.1 r.2 s'
    · rfl

/-- **Both modes read the same header.** -/
theorem readEvent_header_flat (hR : R.BuiltIn) (depth : ℕ) (s : σ) :
    readEvent P input R true depth (.new (some 1)) none s =
      readEvent P input R false depth (.new (some 1)) none s := by
  rcases depth with _ | depth
  · rfl
  · have hk := hR.wellKnown 1 rfl
    rw [readEvent_succ rfl hk, readEvent_succ rfl hk]
    exact readFields_flat_eq_nested (by decide) _ _ s

variable {id : UInt32} {depth : ℕ} {base : Option Event} {r : Event × Option Event} {s s' : σ}
  {k : EventKlass}

section

variable (hk : R.getKlass id = some k)
  (h : readEvent P input R false depth (.new (some id)) base s = .ok r s')

include hk h

/-- **What an event is read into in nested mode**: a value for each field of its klass. -/
theorem values_readEvent_nested :
    r.1.values.map Prod.fst = k.fields ∧ ∀ v ∈ r.1.values, Value.Typed v := by
  rcases depth with _ | depth
  · cases h
  rw [readEvent_succ rfl hk] at h
  obtain ⟨ws, hws, hfst, htyped⟩ := values_readFields_nested h k.nodup
  have hvalues : r.1.values = ws := hws
  rw [hvalues]
  exact ⟨hfst, htyped⟩

/-- A field of the klass is found in the event. -/
theorem get_readEvent_nested {f : EventKlassField} (hf : f ∈ k.fields) :
    ∃ x, r.1.get f.name = some x ∧ Value.Typed (f, x) := by
  obtain ⟨hfst, htyped⟩ := values_readEvent_nested hk h
  have hnodup : (r.1.values.map Value.name).Nodup := by
    have hnames : r.1.values.map Value.name =
        (r.1.values.map Prod.fst).map EventKlassField.name := by
      rw [List.map_map]
      rfl
    rw [hnames, hfst]
    exact k.nodup
  rw [← hfst] at hf
  obtain ⟨⟨f, x⟩, hmem, rfl⟩ := List.mem_map.mp hf
  exact ⟨x, (map_findKey_eq_some_iff hnodup).mpr ⟨_, hmem, rfl, rfl⟩, htyped _ hmem⟩

theorem get_num_readEvent_nested {f : EventKlassField} (hf : f ∈ k.fields)
    (ht : f.typeId.isNumeric = true) : ∃ n, r.1.get f.name = some (.num f.typeId n) := by
  obtain ⟨x, hx, htyped⟩ := get_readEvent_nested hk h hf
  obtain ⟨n, hn⟩ := htyped.num ht
  exact ⟨n, hx.trans (congrArg some hn)⟩

theorem get_str_readEvent_nested {f : EventKlassField} (hf : f ∈ k.fields)
    (ht : f.typeId = .string) : ∃ v, r.1.get f.name = some (.str v) := by
  obtain ⟨x, hx, htyped⟩ := get_readEvent_nested hk h hf
  obtain ⟨v, hv⟩ := htyped.str ht
  exact ⟨v, hx.trans (congrArg some hv)⟩

end

/-- An event of a well-known klass has the built-in fields, and they are leaves. -/
theorem values_readEvent_wellKnown (hR : R.BuiltIn) (hid : isWellKnownKlass id = true)
    (h : readEvent P input R false depth (.new (some id)) base s = .ok r s') :
    ∃ k, KlassRegister.new.getKlass id = some k ∧ r.1.values.map Prod.fst = k.fields ∧
      ∀ v ∈ r.1.values, Value.IsLeaf v := by
  obtain ⟨k, hk⟩ := exists_getKlass_new hid
  obtain ⟨hfst, htyped⟩ := values_readEvent_nested ((hR.wellKnown id hid).trans hk) h
  refine ⟨k, hk, hfst, ?_⟩
  intro v hv
  refine (htyped v hv).leaf (not_struct_of_wellKnown hid hk v.1 ?_)
  rw [← hfst]
  exact List.mem_map_of_mem hv

theorem isHeader_of_readEvent (hR : R.BuiltIn)
    (h : readEvent P input R false depth (.new (some 1)) none s = .ok r s') : IsHeader r.1 := by
  obtain ⟨k, hk, hfst, hleaf⟩ := values_readEvent_wellKnown hR rfl h
  have hnames : r.1.values.map Value.name = (r.1.values.map Prod.fst).map EventKlassField.name := by
    rw [List.map_map]
    rfl
  refine ⟨?_, hleaf⟩
  rw [hnames, hfst]
  cases hk
  rfl

/-! ### What the reader looks up -/

theorem Event.getNum_congr {e e' : Event} {key : Name} (h : e.get key = e'.get key) :
    e.getNum key = e'.getNum key := by
  rw [Event.getNum, Event.getNum, h]

theorem Event.getStr_congr {e e' : Event} {key : Name} (h : e.get key = e'.get key) :
    e.getStr key = e'.getStr key := by
  rw [Event.getStr, Event.getStr, h]

/-- The register does not look at the fields of a header. -/
theorem KlassRegister.handleRegisterEvents_congr {e e' : Event} (hklass : e.klass = e'.klass)
    (hget : ∀ key, key ∉ headerNames → e.get key = e'.get key) :
    R.handleRegisterEvents P e = R.handleRegisterEvents P e' := by
  unfold handleRegisterEvents
  rw [hklass, Event.getNum_congr (hget (ascii "info_klass_id") (by decide)),
    Event.getStr_congr (hget (ascii "event_klass_name") (by decide)),
    Event.getNum_congr (hget (ascii "data_type") (by decide)),
    Event.getStr_congr (hget (ascii "field_type") (by decide)),
    Event.getStr_congr (hget (ascii "field_name") (by decide)),
    Event.getNum_congr (hget (ascii "size") (by decide))]

variable {header flat nested : Event}

/-- **The register grows in the same way in both modes.** -/
theorem handleRegisterEvents_flat (hR : R.BuiltIn) (hheader : IsHeader header)
    (h : Mirrors header.values flat nested) {b : Option Event}
    (hread : readEvent P input R false depth (.new (some id)) base s = .ok (nested, b) s') :
    R.handleRegisterEvents P (flat.merge P header) = R.handleRegisterEvents P nested := by
  have hklass : nested.klass = some id := klass_readEvent hread
  have hmerge : (flat.merge P header).klass = nested.klass := by rw [Event.klass_merge, h.klass]
  by_cases hid : isWellKnownKlass id = true
  · obtain ⟨k, -, -, hleaf⟩ := values_readEvent_wellKnown hR hid hread
    refine handleRegisterEvents_congr hmerge ?_
    intro key hkey
    rw [Event.get_merge, hheader.get_eq_none hkey, Option.or_none, h.get, leavesOf_eq_self hleaf]
    rfl
  · have hne : id ≠ 2 ∧ id ≠ 3 := by
      constructor <;> rintro rfl <;> exact hid rfl
    rw [handleRegisterEvents_other R hklass hne.1 hne.2,
      handleRegisterEvents_other R (hmerge.trans hklass) hne.1 hne.2]

/-- **The byte order is found in both modes**: its field is the first of its klass, whatever
the stream has added to it. -/
theorem getNum_endianness_flat (hR : R.BuiltIn) (h : Mirrors header.values flat nested)
    {b : Option Event}
    (hread : readEvent P input R false depth (.new (some 0)) base s = .ok (nested, b) s') :
    (flat.merge P header).getNum (ascii "endianness") = nested.getNum (ascii "endianness") := by
  obtain ⟨k, fs, hk, hfs⟩ := hR.endianness
  obtain ⟨hfst, htyped⟩ := values_readEvent_nested hk hread
  rw [hfs] at hfst
  obtain ⟨⟨f, x⟩, ws, hvalues, hf, -⟩ := List.map_eq_cons_iff.mp hfst
  replace hvalues : nested.values = (f, x) :: ws := hvalues
  have hx : Value.IsLeaf (f, x) := by
    refine (htyped (f, x) ?_).leaf ?_
    · rw [hvalues]
      exact List.mem_cons_self
    · rw [hf]
      decide
  have hname : ascii "endianness" = Value.name (f, x) := by
    rw [Value.name, hf]
    rfl
  have hleaves : leavesOf false nested.values = (f, x) :: leavesOf false ws := by
    rw [hvalues, ← List.singleton_append, leavesOf_append, hx]
    rfl
  refine Event.getNum_congr ?_
  rw [Event.get_merge, h.get, hleaves, hname, findKey_cons_self, Option.map_some, Option.some_or,
    Event.get, hvalues, findKey_cons_self, Option.map_some]

end Header

/-! ### Delivered events -/

/-- The leaves of an event besides those of its header. An event of klass 1 is nothing but
a header. -/
def Event.ownLeaves (e : Event) : List Value :=
  if e.klass = some 1 then [] else leavesOf false e.values

/-- All leaves of an event. -/
def Event.leaves (e : Event) : List Value := leavesOf true e.values

/-- **What is delivered in flat mode agrees with what is delivered in nested mode**: events
of one klass, read with one header; and unless two leaves have one name, the flat event
maps exactly the names of the leaves and of the header to their values. -/
structure Delivery.Agrees (flat nested : Delivery) : Prop where
  klass : flat.event.klass = nested.event.klass
  header : flat.header = nested.header
  header_names : nested.header.values.map Value.name = headerNames
  get_iff : (nested.event.ownLeaves.map Value.name ++ headerNames).Nodup → ∀ key x,
    flat.event.get key = some x ↔
      (∃ v ∈ nested.event.leaves, v.name = key ∧ v.2 = x) ∨ nested.header.get key = some x

theorem agrees_header {header : Event} (h : IsHeader header) :
    Delivery.Agrees ⟨header, header⟩ ⟨header, header⟩ where
  klass := rfl
  header := rfl
  header_names := h.names
  get_iff := by
    intro _ key x
    change header.get key = some x ↔
      (∃ v ∈ leavesOf true header.values, v.name = key ∧ v.2 = x) ∨ header.get key = some x
    rw [leavesOf_eq_self h.leaves, ← h.get_eq_some_iff, or_self]

theorem agrees_of_mirrors {P : Platform} {header flat nested : Event} (hheader : IsHeader header)
    (h : Mirrors header.values flat nested) (hne : nested.klass ≠ some 1) :
    Delivery.Agrees ⟨header, flat.merge P header⟩ ⟨header, nested⟩ where
  klass := by rw [Event.klass_merge, h.klass]
  header := rfl
  header_names := hheader.names
  get_iff := by
    intro hnodup key x
    simp only [Event.ownLeaves, if_neg hne] at hnodup
    obtain ⟨hleaves, -, hdisjoint⟩ := List.nodup_append.mp hnodup
    have hown : flat.get key = some x ↔
        ∃ v ∈ leavesOf false nested.values, v.name = key ∧ v.2 = x := by
      rw [h.get, map_findKey_eq_some_iff hleaves]
    -- a name of the header is not among the leaves
    have hfresh : header.get key = some x → flat.get key = none := by
      intro hx
      have hkey : key ∈ headerNames := by
        by_contra hkey
        rw [hheader.get_eq_none hkey] at hx
        cases hx
      rw [h.get, findKey_eq_none_iff.mpr fun hmem => hdisjoint _ hmem _ hkey rfl, Option.map_none]
    rw [Event.get_merge, Option.or_eq_some_iff]
    constructor
    · rintro (hx | ⟨-, hx⟩)
      · obtain ⟨v, hv, hvx⟩ := hown.mp hx
        exact .inl ⟨v, h.own v hv, hvx⟩
      · exact .inr hx
    · rintro (⟨v, hv, hvx⟩ | hx)
      · rcases h.all v hv with hv | hv
        · exact .inl (hown.mpr ⟨v, hv, hvx⟩)
        · have hx := hheader.get_eq_some_iff.mpr ⟨v, hv, hvx⟩
          exact .inr ⟨hfresh hx, hx⟩
      · exact .inr ⟨hfresh hx, hx⟩

/-! ### The two readers -/

section Readers

variable {σ : Type}

/-- **The two readers agree**: they are at one place of the stream with one register and one
byte order, and what they have delivered agrees. -/
structure Reader.Agree (flat nested : Reader σ) : Prop where
  stream : flat.stream = nested.stream
  register : flat.register = nested.register
  endianness : flat.endianness = nested.endianness
  delivered : List.Forall₂ Delivery.Agrees flat.delivered nested.delivered
  builtIn : nested.register.BuiltIn

theorem Reader.agree_new (s : σ) : (Reader.new s).Agree (Reader.new s) :=
  ⟨rfl, rfl, rfl, .nil, builtIn_new⟩

/-- The two readers agree, and so do the reasons for which they have stopped. -/
def Reader.OutcomesAgree {α : Type} (a b : Reader σ × α) : Prop := a.2 = b.2 ∧ a.1.Agree b.1

variable {P : Platform} {input : UInt8 → Input σ} {depth : ℕ} {rF rN : Reader σ}
  {header eF eN : Event}

theorem Reader.callCallbacks_agree (h : rF.Agree rN)
    (hregister : rN.register.handleRegisterEvents P eF = rN.register.handleRegisterEvents P eN)
    (hagrees : Delivery.Agrees ⟨header, eF⟩ ⟨header, eN⟩) :
    Reader.OutcomesAgree (rF.callCallbacks P header eF) (rN.callCallbacks P header eN) := by
  rw [callCallbacks, callCallbacks, h.register, hregister]
  rcases hR : rN.register.handleRegisterEvents P eN with w | R
  · exact ⟨rfl, h⟩
  · refine ⟨rfl, h.stream, rfl, h.endianness, ?_, h.builtIn.handleRegisterEvents hR⟩
    exact List.rel_append h.delivered (.cons hagrees .nil)

theorem Reader.finish_agree (h : rF.Agree rN) {klassId : UInt32}
    (hregister : rN.register.handleRegisterEvents P eF = rN.register.handleRegisterEvents P eN)
    (hagrees : Delivery.Agrees ⟨header, eF⟩ ⟨header, eN⟩)
    (hendianness : klassId = 0 → eF.getNum (ascii "endianness") = eN.getNum (ascii "endianness")) :
    Reader.OutcomesAgree (rF.finish P klassId header eF) (rN.finish P klassId header eN) := by
  rw [finish, finish]
  by_cases hid : klassId = 0
  · rw [if_pos hid, if_pos hid, hendianness hid]
    rcases eN.getNum (ascii "endianness") with w | n
    · exact ⟨rfl, h⟩
    · exact callCallbacks_agree ⟨h.stream, h.register, rfl, h.delivered, h.builtIn⟩
        hregister hagrees
  · rw [if_neg hid, if_neg hid]
    exact callCallbacks_agree h hregister hagrees

theorem Reader.readBody_agree (h : rF.Agree rN) (hheader : IsHeader header) {klassId : UInt32}
    (hid : klassId ≠ 1) :
    Reader.OutcomesAgree (rF.readBody P input true depth klassId header)
      (rN.readBody P input false depth klassId header) := by
  have hlock : Lockstep header.values
      (readEvent P (input rN.endianness) rN.register true depth
        (.new ((rN.register.getKlass klassId).map EventKlass.id)) none rN.stream)
      (readEvent P (input rN.endianness) rN.register false depth
        (.new ((rN.register.getKlass klassId).map EventKlass.id)) (some header) rN.stream) :=
    readEvent_lockstep depth _ (by rw [leavesOf_eq_self hheader.leaves]; exact fun _ hv => hv) _
  have hF : readEvent P (input rF.endianness) rF.register true depth
        (.new ((rF.register.getKlass klassId).map EventKlass.id)) none rF.stream =
      readEvent P (input rN.endianness) rN.register true depth
        (.new ((rN.register.getKlass klassId).map EventKlass.id)) none rN.stream := by
    rw [h.endianness, h.register, h.stream]
  simp only [readBody, if_true, Bool.false_eq_true, if_false, hF]
  generalize readEvent P (input rN.endianness) rN.register true depth
    (.new ((rN.register.getKlass klassId).map EventKlass.id)) none rN.stream = resF at hlock
  generalize hN : readEvent P (input rN.endianness) rN.register false depth
    (.new ((rN.register.getKlass klassId).map EventKlass.id)) (some header) rN.stream = resN
    at hlock
  rcases hlock with @⟨flat, nested, b, s, hmirrors, -⟩ | ⟨w, s⟩
  · have hread : ({ rF with stream := s } : Reader σ).Agree { rN with stream := s } :=
      ⟨rfl, h.register, h.endianness, h.delivered, h.builtIn⟩
    -- the event was read, so its klass is in the register
    rcases hk : rN.register.getKlass klassId with _ | k
    · rw [hk] at hN
      rcases depth with _ | depth <;> cases hN
    · rw [hk, Option.map_some, id_of_getKlass hk] at hN
      have hklass : nested.klass = some klassId := klass_readEvent hN
      have hne : nested.klass ≠ some 1 := fun h1 => hid (Option.some.inj (hklass.symm.trans h1))
      refine finish_agree hread (handleRegisterEvents_flat h.builtIn hheader hmirrors hN)
        (agrees_of_mirrors hheader hmirrors hne) ?_
      intro h0
      rw [h0] at hN
      exact getNum_endianness_flat h.builtIn hmirrors hN
  · exact ⟨rfl, rfl, h.register, h.endianness, h.delivered, h.builtIn⟩

/-- **One round keeps the two readers in agreement.** -/
theorem Reader.step_agree (h : rF.Agree rN) :
    Reader.OutcomesAgree (rF.step P input true depth) (rN.step P input false depth) := by
  have hone : (rN.register.getKlass 1).map EventKlass.id = some 1 := by
    rw [h.builtIn.wellKnown 1 rfl]
    rfl
  have hF : readEvent P (input rF.endianness) rF.register true depth
        (.new ((rF.register.getKlass 1).map EventKlass.id)) none rF.stream =
      readEvent P (input rN.endianness) rN.register false depth (.new (some 1)) none rN.stream := by
    rw [h.endianness, h.register, h.stream, hone, readEvent_header_flat h.builtIn]
  rw [step, step, hF, hone]
  rcases hN : readEvent P (input rN.endianness) rN.register false depth (.new (some 1)) none
    rN.stream with ⟨⟨header, b⟩, s⟩ | ⟨w, s⟩
  · have hheader := isHeader_of_readEvent h.builtIn hN
    have hread : ({ rF with stream := s } : Reader σ).Agree { rN with stream := s } :=
      ⟨rfl, h.register, h.endianness, h.delivered, h.builtIn⟩
    dsimp only
    rcases header.getNum (ascii "klass_id") with w | klassId
    · exact ⟨rfl, hread⟩
    · by_cases hid : UInt32.ofNat klassId = 1
      · simp only [if_pos hid]
        exact callCallbacks_agree hread rfl (agrees_header hheader)
      · simp only [if_neg hid]
        exact readBody_agree hread hheader hid
  · exact ⟨rfl, rfl, h.register, h.endianness, h.delivered, h.builtIn⟩

/-- **So do the rounds of a run.** -/
theorem Reader.run_agree (h : rF.Agree rN) (n : ℕ) :
    Reader.OutcomesAgree (rF.run P input true depth n) (rN.run P input false depth n) := by
  induction n generalizing rF rN with
  | zero => exact ⟨rfl, h⟩
  | succ n ih =>
    have hstep : Reader.OutcomesAgree (rF.step P input true depth) (rN.step P input false depth) :=
      step_agree h
    rw [run, run]
    rcases hF : rF.step P input true depth with ⟨rF', wF⟩
    rcases hN : rN.step P input false depth with ⟨rN', wN⟩
    rw [hF, hN] at hstep
    obtain ⟨rfl, hagree⟩ : wF = wN ∧ rF'.Agree rN' := hstep
    rcases wF with _ | w
    · exact ih hagree
    · exact ⟨rfl, hagree⟩

end Readers

/-- **Flat and nested reading agree.** On every stream the two modes stop at the same place
for the same reason, with one register and one byte order, and they have delivered events
that agree one by one. -/
theorem flat_agrees_with_nested {σ : Type} [Stream σ] (host : ByteOrder) (P : Platform)
    (depth : ℕ) (s : σ) :
    let flat := readEvents host P true depth s
    let nested := readEvents host P false depth s
    flat.2 = nested.2 ∧ flat.1.stream = nested.1.stream ∧
      flat.1.register = nested.1.register ∧ flat.1.endianness = nested.1.endianness ∧
      List.Forall₂ Delivery.Agrees flat.1.delivered nested.1.delivered := by
  intro flat nested
  obtain ⟨hstop, hagree⟩ : Reader.OutcomesAgree flat nested :=
    run_agree (agree_new s) (Stream.avail s + 1)
  exact ⟨hstop, hagree.stream, hagree.register, hagree.endianness, hagree.delivered⟩

end HawkTracer.Parser
