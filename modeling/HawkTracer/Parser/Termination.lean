import HawkTracer.Base.Acyclic
import HawkTracer.Parser.Descriptions
import HawkTracer.Parser.Flat
import HawkTracer.Parser.Grammar

/-!
# When reading an event ends

`_read_event` calls itself for every struct field, with the klass that the type name of the
field leads to at that moment. The stream is finite, so the recursion can go on without end
only if from some point on it takes no bytes: a klass is entered that leads back to itself
through struct fields in front of which there is nothing to read.

`HawkTracer.Parser.Enters` says that a list of fields leads into a klass, and what has been
taken from the stream by then. `HawkTracer.Parser.ends_iff` is exact: for every register whose
struct fields have a klass, an event of a klass can be read from every stream, with success or
with an error, if and only if no klass that can be entered from it leads back to itself without
taking a byte. Nothing in the register prevents this: two description events are enough
(`HawkTracer.Parser.klass_of_itself`).
-/

namespace HawkTracer.Parser

open KlassRegister

variable {P : Platform} {R : KlassRegister} {fs fs' : List EventKlassField}
  {s s' s'' t : List UInt8}

/-! ### What is taken -/

/-- What comes behind is not looked at. -/
theorem Takes.append_right (h : Takes P R fs s s') (t : List UInt8) :
    Takes P R fs (s ++ t) (s' ++ t) := by
  induction h with
  | nil s => exact .nil _
  | num hf hbs h ih =>
    rw [List.append_assoc]
    exact .num hf hbs ih
  | str hf hv h ih =>
    rw [List.append_assoc]
    exact .str hf hv ih
  | header hf hheader h ih => exact .header hf hheader ih
  | struct hf hheader hk hsub h ihsub ih => exact .struct hf hheader hk ihsub ih

/-- What is taken is taken from the front. -/
theorem Takes.exists_eq_append (h : Takes P R fs s s') : ∃ u, s = u ++ s' ∧ Takes P R fs u [] := by
  induction h with
  | nil s => exact ⟨[], rfl, .nil []⟩
  | @num f fs bs s s' hf hbs h ih =>
    obtain ⟨u, rfl, hu⟩ := ih
    exact ⟨bs ++ u, (List.append_assoc ..).symm, .num hf hbs hu⟩
  | @str f fs v s s' hf hv h ih =>
    obtain ⟨u, rfl, hu⟩ := ih
    exact ⟨v ++ 0 :: u, by simp, .str hf hv hu⟩
  | header hf hheader h ih =>
    obtain ⟨u, rfl, hu⟩ := ih
    exact ⟨u, rfl, .header hf hheader hu⟩
  | struct hf hheader hk hsub h ihsub ih =>
    obtain ⟨u, rfl, hu⟩ := ihsub
    obtain ⟨v, rfl, hv⟩ := ih
    exact ⟨u ++ v, (List.append_assoc ..).symm, .struct hf hheader hk (hu.append_right v) hv⟩

theorem Takes.append (h : Takes P R fs s s') (h' : Takes P R fs' s' s'') :
    Takes P R (fs ++ fs') s s'' := by
  induction h with
  | nil s => exact h'
  | num hf hbs h ih => exact .num hf hbs (ih h')
  | str hf hv h ih => exact .str hf hv (ih h')
  | header hf hheader h ih => exact .header hf hheader (ih h')
  | struct hf hheader hk hsub h ihsub ih => exact .struct hf hheader hk hsub (ih h')

variable {f : EventKlassField} {k : EventKlass}

/-- The first field takes something, and the others take from what is left. -/
theorem Takes.cons_iff : Takes P R (f :: fs) s s' ↔ ∃ t, Takes P R [f] s t ∧ Takes P R fs t s' := by
  constructor
  · intro h
    cases h with
    | num hf hbs h => exact ⟨_, .num hf hbs (.nil _), h⟩
    | str hf hv h => exact ⟨_, .str hf hv (.nil _), h⟩
    | header hf hheader h => exact ⟨_, .header hf hheader (.nil _), h⟩
    | struct hf hheader hk hsub h => exact ⟨_, .struct hf hheader hk hsub (.nil _), h⟩
  · rintro ⟨t, hf, h⟩
    exact hf.append h

theorem Takes.eq_nil (h : Takes P R fs [] s) : s = [] :=
  List.length_eq_zero_iff.mp (Nat.le_zero.mp h.length_le)

theorem sizeof_pos {t : FieldTypeId} (h : t.isNumeric = true) : 0 < t.sizeof := by
  cases t <;> first | exact Nat.succ_pos _ | cases h

/-- A field that takes nothing is a struct. -/
theorem Takes.struct_of_nil (h : Takes P R [f] [] s') : f.typeId = .struct := by
  generalize hs : ([] : List UInt8) = s at h
  cases h with
  | num hf hbs h =>
    have hpos := sizeof_pos hf
    rw [(List.append_eq_nil_iff.mp hs.symm).1, List.length_nil] at hbs
    omega
  | str hf hv h => cases (List.append_eq_nil_iff.mp hs.symm).2
  | header hf hheader h => exact hf
  | struct hf hheader hk hsub h => exact hf

/-- What a struct takes is what its klass takes. -/
theorem Takes.of_struct (h : Takes P R [f] s t) (hf : f.typeId = .struct)
    (hheader : ¬ f.isHeader = true) (hk : structKlass P R f = some k) : Takes P R k.fields s t := by
  cases h with
  | num hf' _ _ | str hf' _ _ => rw [hf] at hf'; cases hf'
  | header _ hheader' _ => exact absurd hheader' hheader
  | struct _ _ hk' hsub hnil =>
    cases hnil
    cases hk.symm.trans hk'
    exact hsub

/-! ### Entering a klass -/

section Enters

variable (P R)

/-- **A list of fields leads into a klass**: the fields in front of a struct field of that
klass take exactly the given bytes. -/
def Enters (fs : List EventKlassField) (s : List UInt8) (k : EventKlass) : Prop :=
  ∃ front f back, fs = front ++ f :: back ∧ Takes P R front s [] ∧ f.typeId = .struct ∧
    ¬ f.isHeader = true ∧ structKlass P R f = some k

/-- Reading an event of the first klass leads to reading one of the second. -/
def Reaches : EventKlass → EventKlass → Prop :=
  Relation.ReflTransGen fun k k' => ∃ s, Enters P R k.fields s k'

/-- **A klass leads back to itself** through structs in front of which no byte is taken. -/
def LeadsBack (k : EventKlass) : Prop :=
  Relation.TransGen (fun k k' => Enters P R k.fields [] k') k k

/-- Every struct field of the register has a klass, the header apart. -/
def Resolves : Prop :=
  ∀ k ∈ R.klasses, ∀ f ∈ k.fields, f.typeId = .struct → ¬ f.isHeader = true →
    (structKlass P R f).isSome = true

instance : Decidable (Resolves P R) := inferInstanceAs (Decidable (∀ k ∈ R.klasses, _))

end Enters

theorem Enters.mem (h : Enters P R fs s k) : k ∈ R.klasses := by
  obtain ⟨front, f, back, -, -, -, -, hk⟩ := h
  exact mem_of_getKlass hk

/-- A struct field in front leads into its klass. -/
theorem enters_cons_of_struct (hf : f.typeId = .struct) (hheader : ¬ f.isHeader = true)
    (hk : structKlass P R f = some k) :
    Enters P R (f :: fs) [] k := ⟨[], f, fs, rfl, .nil [], hf, hheader, hk⟩

/-- A field in front takes its bytes first. -/
theorem Enters.cons (h : Enters P R fs s k) (htakes : Takes P R [f] t []) :
    Enters P R (f :: fs) (t ++ s) k := by
  obtain ⟨front, f', back, rfl, hfront, hf', hheader', hk⟩ := h
  exact ⟨f :: front, f', back, rfl, (htakes.append_right s).append hfront, hf', hheader', hk⟩

/-- How a list of fields leads into a klass without taking a byte: by its first field, or behind
a field that takes nothing either. -/
theorem Enters.cons_cases (h : Enters P R (f :: fs) [] k) :
    (f.typeId = .struct ∧ ¬ f.isHeader = true ∧ structKlass P R f = some k) ∨
      (Takes P R [f] [] [] ∧ Enters P R fs [] k) := by
  obtain ⟨front, f', back, hfs, htakes, hf', hheader', hk⟩ := h
  rcases front with _ | ⟨f'', front⟩
  · obtain ⟨rfl, rfl⟩ := List.cons.inj hfs
    exact .inl ⟨hf', hheader', hk⟩
  · obtain ⟨rfl, rfl⟩ := List.cons.inj hfs
    obtain ⟨t, hfirst, hfront⟩ := Takes.cons_iff.mp htakes
    obtain rfl := hfirst.eq_nil
    exact .inr ⟨hfirst, front, f', back, rfl, hfront, hf', hheader', hk⟩

/-- The first field has to be a struct for that. -/
theorem Enters.struct_of_cons (h : Enters P R (f :: fs) [] k) : f.typeId = .struct := by
  rcases h.cons_cases with ⟨hf, -, -⟩ | ⟨htakes, -⟩
  · exact hf
  · exact htakes.struct_of_nil

/-! ### Safety and entering -/

/-- What follows a field that can be read is safe. -/
theorem Safe.tail (h : Safe P R (f :: fs) s) (htakes : Takes P R [f] s t) : Safe P R fs t := by
  cases htakes with
  | num hf hbs hnil =>
    cases hnil
    cases h with
    | num _ h => exact h _ _ hbs rfl
    | pointer hf' | str hf' _ | header hf' _ _ | struct hf' _ _ _ _ => rw [hf'] at hf; cases hf
  | str hf hv hnil =>
    cases hnil
    cases h with
    | str _ h => exact h _ _ hv rfl
    | num hf' _ => rw [hf] at hf'; cases hf'
    | pointer hf' | header hf' _ _ | struct hf' _ _ _ _ => rw [hf'] at hf; cases hf
  | header hf hheader hnil =>
    cases hnil
    cases h with
    | header _ _ h => exact h
    | struct _ hheader' _ _ _ => exact absurd hheader hheader'
    | num hf' _ => rw [hf] at hf'; cases hf'
    | pointer hf' | str hf' _ => rw [hf'] at hf; cases hf
  | struct hf hheader hk hsub hnil =>
    cases hnil
    cases h with
    | struct _ _ hk' _ h =>
      cases hk.symm.trans hk'
      exact h _ hsub
    | header _ hheader' _ => exact absurd hheader' hheader
    | num hf' _ => rw [hf] at hf'; cases hf'
    | pointer hf' | str hf' _ => rw [hf'] at hf; cases hf

/-- A struct in front is safe. -/
theorem Safe.head (h : Safe P R (f :: fs) s) (hf : f.typeId = .struct)
    (hheader : ¬ f.isHeader = true) (hk : structKlass P R f = some k) : Safe P R k.fields s := by
  cases h with
  | struct _ _ hk' hsub _ =>
    cases hk.symm.trans hk'
    exact hsub
  | header _ hheader' _ => exact absurd hheader' hheader
  | num hf' _ => rw [hf] at hf'; cases hf'
  | pointer hf' | str hf' _ => rw [hf'] at hf; cases hf

/-- What follows fields that can be read is safe. -/
theorem Safe.drop (h : Safe P R (fs ++ fs') s) (htakes : Takes P R fs s t) : Safe P R fs' t := by
  induction fs generalizing s with
  | nil =>
    cases htakes
    exact h
  | cons f fs ih =>
    obtain ⟨u, hfirst, hrest⟩ := Takes.cons_iff.mp htakes
    exact ih (h.tail hfirst) hrest

/-- **A klass that is entered is safe.** -/
theorem Safe.of_enters (h : Safe P R fs (s ++ t)) (henters : Enters P R fs s k) :
    Safe P R k.fields t := by
  obtain ⟨front, f, back, rfl, htakes, hf, hheader, hk⟩ := henters
  exact (h.drop (htakes.append_right t)).head hf hheader hk

/-- **Where fields are safe the klasses they lead into at once do not lead back**: the recursion
into them comes to an end. -/
theorem Safe.acc_of_enters (h : Safe P R fs s) (henters : Enters P R fs [] k) :
    Acc (fun k' k => Enters P R k.fields [] k') k := by
  -- the recursion is followed through the derivation: only structs take nothing
  induction h generalizing k with
  | nil s =>
    obtain ⟨front, f, back, hfs, -⟩ := henters
    exact absurd hfs (by simp)
  | num hf h ih | pointer hf | str hf h ih =>
    rw [henters.struct_of_cons] at hf
    cases hf
  | header hf hheader h ih =>
    rcases henters.cons_cases with ⟨-, hheader', -⟩ | ⟨-, hrest⟩
    · exact absurd hheader hheader'
    · exact ih hrest
  | @struct f fs k' s hf hheader hk hsub h ihsub ih =>
    rcases henters.cons_cases with ⟨-, -, hk'⟩ | ⟨htakes, hrest⟩
    · cases hk.symm.trans hk'
      exact Acc.intro k' fun k'' hk'' => ihsub hk''
    · -- the struct takes nothing, from this stream either
      have hsame : Takes P R k'.fields s s := (htakes.of_struct hf hheader hk).append_right s
      exact ih s hsame hrest

/-- **Fields are safe if the klasses they lead into are safe** on what is left of the stream. -/
theorem safe_of_enters
    (hfs : ∀ f ∈ fs, f.typeId = .struct → ¬ f.isHeader = true →
      (structKlass P R f).isSome = true)
    (h : ∀ u s' k, s = u ++ s' → Enters P R fs u k → Safe P R k.fields s') : Safe P R fs s := by
  induction fs generalizing s with
  | nil => exact .nil s
  | cons f fs ih =>
    have hrest : ∀ v s', s = v ++ s' → Takes P R [f] v [] → Safe P R fs s' := by
      rintro v s' rfl hv
      refine ih (fun f' hf' => hfs f' (List.mem_cons_of_mem f hf')) ?_
      rintro u s'' k rfl henters
      exact h (v ++ u) s'' k (List.append_assoc ..).symm (henters.cons hv)
    rcases f.typeId.isNumeric_or with hf | hf | hf | hf
    · refine .num hf fun bs s' hbs hs => hrest bs s' hs ?_
      simpa using Takes.num (P := P) (R := R) hf hbs (.nil [])
    · exact .pointer hf
    · refine .str hf fun v s' hv hs => hrest (v ++ [0]) s' (by simpa using hs) ?_
      exact .str hf hv (.nil [])
    · by_cases hheader : f.isHeader = true
      · exact .header hf hheader (hrest [] s rfl (.header hf hheader (.nil [])))
      · obtain ⟨k, hk⟩ := Option.isSome_iff_exists.mp (hfs f List.mem_cons_self hf hheader)
        refine .struct hf hheader hk (h [] s k rfl (enters_cons_of_struct hf hheader hk)) ?_
        intro s' htakes
        obtain ⟨v, hs, hv⟩ := htakes.exists_eq_append
        exact hrest v s' hs (.struct hf hheader hk hv (.nil []))

/-! ### Reading ends -/

/-- **A klass is safe to read if the recursion into structs comes to an end** in all klasses that
reading it leads to. -/
theorem safe_of_acc (hR : Resolves P R) {k₀ : EventKlass} (hk₀ : k₀ ∈ R.klasses)
    (hacc : ∀ k, Reaches P R k₀ k → Acc (fun k' k => Enters P R k.fields [] k') k)
    (s : List UInt8) : Safe P R k₀.fields s := by
  suffices h : ∀ n k, k ∈ R.klasses → Reaches P R k₀ k → ∀ s : List UInt8, s.length = n →
      Safe P R k.fields s from h s.length k₀ hk₀ .refl s rfl
  -- with every struct the stream gets shorter, or the klass is entered at once
  intro n
  induction n using Nat.strong_induction_on with
  | _ n ihn =>
    intro k hk hreach
    induction hacc k hreach with
    | intro k _ ihk =>
      rintro s rfl
      refine safe_of_enters (hR k hk) fun u s' k' hs henters => ?_
      have hreach' : Reaches P R k₀ k' := hreach.tail ⟨u, henters⟩
      rcases u with _ | ⟨b, u⟩
      · exact ihk k' henters henters.mem hreach' s' (congrArg List.length hs).symm
      · refine ihn s'.length ?_ k' henters.mem hreach' s' rfl
        rw [hs, List.length_append, List.length_cons]
        omega

theorem Reaches.mem {k' : EventKlass} (h : Reaches P R k k') (hk : k ∈ R.klasses) :
    k' ∈ R.klasses := by
  rcases Relation.ReflTransGen.cases_tail h with rfl | ⟨k'', -, s, henters⟩
  · exact hk
  · exact henters.mem

/-- Whatever is reached from a klass that is safe on every stream is safe on every stream. -/
theorem Reaches.safe {k' : EventKlass} (h : Reaches P R k k') (hsafe : ∀ s, Safe P R k.fields s)
    (s : List UInt8) : Safe P R k'.fields s := by
  induction h generalizing s with
  | refl => exact hsafe s
  | tail _ hstep ih =>
    obtain ⟨u, henters⟩ := hstep
    exact (ih (u ++ s)).of_enters henters

/-- **A klass is safe on every stream if and only if nothing it leads to leads back to itself.** -/
theorem forall_safe_iff (hR : Resolves P R) (hk : k ∈ R.klasses) :
    (∀ s, Safe P R k.fields s) ↔ ∀ k', Reaches P R k k' → ¬ LeadsBack P R k' := by
  have hfinite : {k' | Reaches P R k k'}.Finite :=
    (List.finite_toSet R.klasses).subset fun k' hk' => Reaches.mem hk' hk
  refine Iff.trans ?_ (acc_iff_not_transGen (r := fun k k' => Enters P R k.fields [] k') hfinite
    fun k' hk' k'' henters => hk'.tail ⟨[], henters⟩)
  constructor
  · intro hsafe k' hk'
    exact Acc.intro k' fun k'' henters => (hk'.safe hsafe []).acc_of_enters henters
  · intro hacc
    exact safe_of_acc hR hk hacc

theorem Lockstep.fine_iff {σ : Type} {H : List Value} {rF rN : EventResult σ}
    (h : Lockstep H rF rN) : rF.Fine ↔ rN.Fine := by
  cases h with
  | ok s h hb => exact iff_of_true (Result.fine_ok _ s) (Result.fine_ok _ s)
  | stop w s => simp [Result.Fine]

section Ends

variable (P R) (host : ByteOrder) (c : UInt8) (flat : Bool)

/-- **Reading an event of the klass ends**, with success or with an error: there is one result
for every bound on the recursion from some bound on. In nested mode the reader has a header. -/
def ReadingEnds (k : EventKlass) (b : Event) (s : FileStream) : Prop :=
  ∃ r : EventResult FileStream, r.Fine ∧ ∃ d₀, ∀ d ≥ d₀,
    readEvent P (streamInput host c) R flat d (.new (some k.id)) (if flat then none else some b) s =
      r

variable {P R host c flat}

theorem readingEnds_iff_fine {k : EventKlass} {b : Event} {s : FileStream} :
    ReadingEnds P R host c flat k b s ↔ ∃ d, (readEvent P (streamInput host c) R flat d
      (.new (some k.id)) (if flat then none else some b) s).Fine := by
  constructor
  · rintro ⟨r, hr, d₀, h⟩
    exact ⟨d₀, (h d₀ le_rfl).symm ▸ hr⟩
  · rintro ⟨d, hd⟩
    exact ⟨_, hd, d, fun d' hd' => readEvent_deeper hd' hd.inDepth⟩

theorem readingEnds_iff_safe {k : EventKlass} (hk : k ∈ R.klasses) {b : Event} {s : FileStream} :
    ReadingEnds P R host c flat k b s ↔ Safe P R k.fields s := by
  have hget : R.getKlass k.id = some k := getKlass_eq_some_iff.mpr ⟨hk, rfl⟩
  have hnested : (∃ d, (readEvent P (streamInput host c) R false d (.new (some k.id)) (some b)
      s).Fine) ↔ Safe P R k.fields s := by
    have hiff : (∃ d, (readEvent P (streamInput host c) R false d
        (.new ((R.getKlass k.id).map EventKlass.id)) (some b) s).Fine) ↔
        ∃ k', R.getKlass k.id = some k' ∧ Safe P R k'.fields s := exists_fine_iff
    rw [hget, Option.map_some] at hiff
    rw [hiff]
    exact ⟨fun ⟨k', hk', hsafe⟩ => Option.some.inj hk' ▸ hsafe, fun hsafe => ⟨k, rfl, hsafe⟩⟩
  rw [readingEnds_iff_fine, ← hnested]
  cases flat with
  | false => rfl
  | true =>
    exact exists_congr fun d =>
      (readEvent_lockstep (H := leavesOf true b.values) d (some k.id) (fun _ h => h) s).fine_iff

/-- **When reading one event ends**: for every register whose struct fields have a klass and each
of its klasses, an event can be read from every stream, with success or with an error, if and
only if no klass that is reached from it leads back to itself without taking a byte. -/
theorem ends_iff (hR : Resolves P R) {k : EventKlass} (hk : k ∈ R.klasses) :
    (∀ b s, ReadingEnds P R host c flat k b s) ↔ ∀ k', Reaches P R k k' → ¬ LeadsBack P R k' := by
  rw [← forall_safe_iff hR hk]
  constructor
  · intro h s
    exact (readingEnds_iff_safe hk).mp (h (.new none) s)
  · intro h b s
    exact (readingEnds_iff_safe hk).mpr (h s)

end Ends

/-! ### Two registers -/

/-- The register after a klass has been described whose last field is a struct of the klass
itself; `fields` come before it. -/
def recursiveRegister (fields : List Event) : Except Stop KlassRegister :=
  KlassRegister.new.handleAll samplePlatform
    (klassEvent 20 (ascii "List") :: fields ++
      [fieldEvent 20 (ascii "List") (ascii "tail") 8 1])

/-- A klass whose first field is no struct does not lead back. -/
theorem not_leadsBack (h : k.fields.head?.map EventKlassField.typeId ≠ some .struct) :
    ¬ LeadsBack P R k := by
  intro hback
  obtain ⟨k', henters, -⟩ := Relation.TransGen.head'_iff.mp hback
  rcases hfields : k.fields with _ | ⟨f, fs⟩
  · obtain ⟨front, f, back, hfs, -⟩ := henters
    rw [hfields] at hfs
    exact absurd hfs (by simp)
  · rw [hfields] at henters h
    exact h (congrArg some henters.struct_of_cons)

/-- A list of bytes: a byte is taken before each of the nested structs, so reading ends. -/
theorem ends_of_list_of_bytes : ∃ R k,
    recursiveRegister [fieldEvent 20 (ascii "uint8_t") (ascii "head") 1 99] = .ok R ∧
    R.getKlass 20 = some k ∧ Resolves samplePlatform R ∧
    ∀ b s, ReadingEnds samplePlatform R .little 0 false k b s := by
  refine ⟨_, _, rfl, rfl, by decide, ?_⟩
  refine (ends_iff (by decide) (@mem_of_getKlass _ 20 _ rfl)).mpr fun k' hk' => ?_
  have hmem := Reaches.mem hk' (@mem_of_getKlass _ 20 _ rfl)
  exact not_leadsBack ((by decide : ∀ k ∈ _, k.fields.head?.map EventKlassField.typeId ≠
    some .struct) k' hmem)

/-- **A klass of itself.** Two descriptions make a register in which all struct fields have a
klass, and reading an event of that klass does not end, on any stream and in neither mode. -/
theorem klass_of_itself : ∃ R k, recursiveRegister [] = .ok R ∧ R.getKlass 20 = some k ∧
    Resolves samplePlatform R ∧
    ∀ host c flat b s, ¬ ReadingEnds samplePlatform R host c flat k b s := by
  refine ⟨_, _, rfl, rfl, by decide, ?_⟩
  intro host c flat b s hends
  have hsafe := (readingEnds_iff_safe (@mem_of_getKlass _ 20 _ rfl)).mp hends
  -- the only field leads into its own klass
  exact not_transGen_of_acc (Acc.intro _ fun _ h => hsafe.acc_of_enters h)
    (.single (enters_cons_of_struct rfl (by decide) rfl))

end HawkTracer.Parser
