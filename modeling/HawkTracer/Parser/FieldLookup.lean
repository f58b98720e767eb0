import HawkTracer.Base.Acyclic
import HawkTracer.Parser.Outlines

/-!
# Looking a field up through the structs of a klass

`EventKlass::get_field(name, true)` looks for a field in a klass and, at each struct field it comes
by, in the klass of the struct. That klass is not looked up: the field has been given it when it
was described, and a field that was described before its klass has been given none. The loop
dereferences what it finds there.

So the lookup is right exactly if every struct field is described after its klass
(`HawkTracer.Parser.KlassRegister.looksUp_iff`), and then the order of the descriptions does not
matter otherwise. What does not depend on the order is the outline of a klass
(`HawkTracer.Parser.KlassRegister.outline`), its name and its fields without the klasses they were
given: it is made of the descriptions of this one klass alone
(`HawkTracer.Parser.KlassRegister.outline_handleAll`). If every type name is the name of one klass,
the outlines also determine the klass a field has been given, if it has been given one.
-/

namespace HawkTracer.Parser

namespace KlassRegister

/-! ### `get_field` -/

/-- A field that was found, with the klass it belongs to. -/
abbrev FoundField := Option (UInt32 × EventKlassField)

/-- What was found in the klass of a struct field, or else what the rest of the loop finds. -/
def foundOr (found rest : Except Stop FoundField) : Except Stop FoundField :=
  match found with
  | .ok none => rest
  | found => found

/-- The loop of `_get_field`; `sub` is `get_field` of the klass of a struct field. -/
def getFieldIn (sub : UInt32 → Except Stop FoundField) (name : Name) (recursive : Bool)
    (owner : UInt32) : List EventKlassField → Except Stop FoundField
  | [] => .ok none
  | f :: fs =>
    if f.name = name then .ok (some (owner, f))
    else if f.typeId = .struct ∧ recursive = true then
      match f.klass with
      | none => .error .nullKlass
      | some id => foundOr (sub id) (getFieldIn sub name recursive owner fs)
    else getFieldIn sub name recursive owner fs

/-- `EventKlass::get_field`, of the klass with the given identifier. Nothing in the source bounds
the recursion. -/
def getField (R : KlassRegister) (name : Name) (recursive : Bool) :
    ℕ → UInt32 → Except Stop FoundField
  | 0, _ => .error .depth
  | depth + 1, id =>
    match R.getKlass id with
    | none => .error .nullKlass
    | some k => getFieldIn (R.getField name recursive depth) name recursive id k.fields

section Loop

variable {sub : UInt32 → Except Stop FoundField} {name : Name} {recursive : Bool} {owner : UInt32}
  {f : EventKlassField}

theorem getFieldIn_self (h : f.name = name) (fs : List EventKlassField) :
    getFieldIn sub name recursive owner (f :: fs) = .ok (some (owner, f)) := by
  rw [getFieldIn, if_pos h]

theorem getFieldIn_skip (h : f.name ≠ name) (hf : f.typeId ≠ .struct) (fs : List EventKlassField) :
    getFieldIn sub name recursive owner (f :: fs) = getFieldIn sub name recursive owner fs := by
  rw [getFieldIn, if_neg h, if_neg fun hand => hf hand.1]

theorem getFieldIn_null (h : f.name ≠ name) (hf : f.typeId = .struct) (hk : f.klass = none)
    (fs : List EventKlassField) : getFieldIn sub name true owner (f :: fs) = .error .nullKlass := by
  rw [getFieldIn, if_neg h, if_pos ⟨hf, rfl⟩, hk]

theorem getFieldIn_struct (h : f.name ≠ name) (hf : f.typeId = .struct) {id : UInt32}
    (hk : f.klass = some id) (fs : List EventKlassField) :
    getFieldIn sub name true owner (f :: fs) =
      foundOr (sub id) (getFieldIn sub name true owner fs) := by
  rw [getFieldIn, if_neg h, if_pos ⟨hf, rfl⟩, hk]

end Loop

/-! ### What a lookup should find -/

variable (R : KlassRegister)

/-- A klass has a struct field whose type is the other klass. -/
def Contains (id id' : UInt32) : Prop :=
  ∃ k k' f, R.getKlass id = some k ∧ R.getKlass id' = some k' ∧ f ∈ k.fields ∧
    f.typeId = .struct ∧ k'.name = f.typeName

/-- The field belongs to the klass, or to one that can be reached through struct fields. -/
def HasField (id owner : UInt32) (f : EventKlassField) : Prop :=
  Relation.ReflTransGen R.Contains id owner ∧ ∃ k, R.getKlass owner = some k ∧ f ∈ k.fields

/-- **`get_field(name, true)` returns** the given field, or `nullptr`. -/
def Returns (id : UInt32) (name : Name) (r : FoundField) : Prop :=
  ∃ d, ∀ depth, d ≤ depth → R.getField name true depth id = .ok r

/-- **Recursive lookup is right**: on every klass and for every name it returns, namely a field of
that name if there is one in the klass or in a klass that can be reached from it, and otherwise
`nullptr`. -/
def LooksUp : Prop :=
  ∀ id k, R.getKlass id = some k → ∀ name : Name, 0 ∉ name → ∃ r, R.Returns id name r ∧
    (∀ owner f, r = some (owner, f) → f.name = name ∧ R.HasField id owner f) ∧
    (r ≠ none ↔ ∃ owner f, f.name = name ∧ R.HasField id owner f)

/-- **The klasses form a family**: a type name stands for one klass, no klass has the identifier
`HT_INVALID_KLASS_ID`, and no klass contains itself. None of this depends on the order of the
descriptions. -/
structure IsFamily : Prop where
  named : ∀ id k, R.getKlass id = some k → ∀ f ∈ k.fields, f.typeId = .struct →
    ∀ id₁ k₁ id₂ k₂, R.getKlass id₁ = some k₁ → R.getKlass id₂ = some k₂ →
      k₁.name = f.typeName → k₂.name = f.typeName → id₁ = id₂
  valid : R.getKlass 0xffffffff = none
  acyclic : ∀ id, ¬ Relation.TransGen R.Contains id id

/-! ### What is known of the fields -/

/-- Every field of every klass. -/
def AllFields (Q : EventKlassField → Prop) : Prop :=
  ∀ id k, R.getKlass id = some k → ∀ f ∈ k.fields, Q f

variable {R} {R' : KlassRegister} {P : Platform} {Q : EventKlassField → Prop}

theorem allFields_new (h : ∀ f : EventKlassField, f.typeId ≠ .struct → f.klass = none → Q f) :
    new.AllFields Q := by
  intro id k hk f hf
  have hall : ∀ k ∈ new.klasses, ∀ f ∈ k.fields, f.typeId ≠ .struct ∧ f.klass = none := by decide
  obtain ⟨htype, hklass⟩ := hall k (mem_of_getKlass hk) f hf
  exact h f htype hklass

theorem allFields_addKlass_iff (name : Name) (id : UInt32) :
    (R.addKlass (.new name id)).AllFields Q ↔ R.AllFields Q := by
  constructor
  · intro h i k hk
    exact h i k (by rw [getKlass_addKlass, hk, Option.some_or])
  · intro h i k hk f hf
    rw [getKlass_addKlass] at hk
    rcases hi : R.getKlass i with _ | k'
    · -- the new klass has no fields
      rw [hi, Option.none_or] at hk
      split at hk
      · cases hk
        cases hf
      · cases hk
    · rw [hi, Option.some_or] at hk
      cases hk
      exact h i k hi f hf

theorem allFields_updateKlass_iff {id : UInt32} {k : EventKlass} (hk : R.getKlass id = some k)
    {f : EventKlassField} (hf : f.name ∉ k.fields.map EventKlassField.name) :
    (R.updateKlass id f).AllFields Q ↔ R.AllFields Q ∧ Q f := by
  have hfields : (k.addField f).fields = k.fields ++ [f] := insertNew_of_not_mem hf
  constructor
  · intro h
    have hself := h id _ (getKlass_updateKlass_self hk f)
    rw [hfields] at hself
    refine ⟨fun i k' hk' g hg => ?_, hself f (by simp)⟩
    rcases eq_or_ne i id with rfl | hne
    · obtain rfl : k' = k := Option.some.inj (hk'.symm.trans hk)
      exact hself g (List.mem_append_left _ hg)
    · exact h i k' (by rw [getKlass_updateKlass_of_ne R hne, hk']) g hg
  · rintro ⟨h, hQ⟩ i k' hk' g hg
    rcases eq_or_ne i id with rfl | hne
    · rw [getKlass_updateKlass_self hk] at hk'
      cases hk'
      rw [hfields, List.mem_append, List.mem_singleton] at hg
      rcases hg with hg | rfl
      · exact h i k hk g hg
      · exact hQ
    · rw [getKlass_updateKlass_of_ne R hne] at hk'
      exact h i k' hk' g hg

/-- **What a description adds**: nothing, or a field whose name is not taken. -/
theorem allFields_apply_iff {d : Description} (h : R.apply P d = .ok R') :
    R'.AllFields Q ↔ R.AllFields Q ∧ ∀ id name typeName typeId dataType k,
      d = .field id name typeName typeId dataType → R.getKlass id = some k →
        name ∉ k.fields.map EventKlassField.name →
          Q (R.describedField P name typeName typeId dataType) := by
  cases d with
  | nothing =>
    cases h
    exact ⟨fun h => ⟨h, nofun⟩, fun h => h.1⟩
  | klass name id =>
    cases h
    rw [allFields_addKlass_iff]
    exact ⟨fun h => ⟨h, nofun⟩, fun h => h.1⟩
  | field id name typeName typeId dataType =>
    obtain ⟨k, hk⟩ := exists_getKlass_of_addKlassField h
    rw [eq_updateKlass_of_addKlassField h]
    by_cases hname : name ∈ k.fields.map EventKlassField.name
    · rw [updateKlass_of_mem hk hname]
      refine ⟨fun h => ⟨h, ?_⟩, fun h => h.1⟩
      rintro id' name' typeName' typeId' dataType' k' ⟨⟩ hk' hname'
      obtain rfl : k' = k := Option.some.inj (hk'.symm.trans hk)
      exact absurd hname hname'
    · rw [allFields_updateKlass_iff hk hname]
      refine and_congr_right fun _ => ⟨?_,
        fun h => h id name typeName typeId dataType k rfl hk hname⟩
      rintro hQ id' name' typeName' typeId' dataType' k' ⟨⟩ - -
      exact hQ

/-! ### The klass a field has been given -/

/-- A struct field has been given a klass. -/
def Given (f : EventKlassField) : Prop := f.typeId = .struct → f.klass ≠ none

/-- The klass a field has been given is in the register, under the name of the type. -/
def Linked (R : KlassRegister) (f : EventKlassField) : Prop :=
  ∀ id, f.klass = some id → ∃ k, R.getKlass id = some k ∧ k.name = f.typeName

theorem Linked.grows {f : EventKlassField} (h : R.Linked f) (hgrow : R.Grows R') : R'.Linked f := by
  intro id hid
  obtain ⟨k, hk, hname⟩ := h id hid
  obtain ⟨k', hk', hname', -⟩ := hgrow id k hk
  exact ⟨k', hk', hname'.trans hname⟩

section

variable (hvalid : R.getKlass 0xffffffff = none)

include hvalid

/-- A klass that is found by name has the name. -/
theorem name_of_getKlassId {typeName : Name} {k : EventKlass}
    (h : R.getKlass (R.getKlassId P typeName) = some k) : k.name = typeName := by
  rw [getKlassId] at h
  split at h
  · next k' hfind =>
    have hmem : k' ∈ R.klasses :=
      (P.iterate_perm R.klasses).mem_iff.mp (List.mem_of_find?_eq_some hfind)
    obtain rfl : k' = k := Option.some.inj ((getKlass_eq_some_iff.mpr ⟨hmem, rfl⟩).symm.trans h)
    simpa using List.find?_some hfind
  · rw [hvalid] at h
    cases h

/-- A klass is found by name exactly if there is one. -/
theorem exists_getKlassId_iff {typeName : Name} :
    R.getKlass (R.getKlassId P typeName) ≠ none ↔ ∃ k ∈ R.klasses, k.name = typeName := by
  constructor
  · intro h
    obtain ⟨k, hk⟩ := Option.ne_none_iff_exists'.mp h
    exact ⟨k, mem_of_getKlass hk, name_of_getKlassId hvalid hk⟩
  · rintro ⟨k, hk, hname⟩
    rw [getKlassId]
    rcases hfind : (P.iterate R.klasses).find? fun k => k.name = typeName with _ | k'
    · have hmem : k ∈ P.iterate R.klasses := (P.iterate_perm R.klasses).mem_iff.mpr hk
      exact absurd hname (by simpa using List.find?_eq_none.mp hfind k hmem)
    · have hmem : k' ∈ R.klasses :=
        (P.iterate_perm R.klasses).mem_iff.mp (List.mem_of_find?_eq_some hfind)
      rw [hfind]
      exact Option.ne_none_iff_exists'.mpr ⟨k', getKlass_eq_some_iff.mpr ⟨hmem, rfl⟩⟩

theorem linked_describedField (name typeName : Name) (typeId : FieldTypeId) (dataType : ℕ) :
    R.Linked (R.describedField P name typeName typeId dataType) := by
  intro id hid
  simp only [describedField] at hid
  split at hid
  · obtain ⟨k, hk, rfl⟩ := Option.map_eq_some_iff.mp hid
    refine ⟨k, ?_, name_of_getKlassId hvalid hk⟩
    rw [id_of_getKlass hk]
    exact hk
  · cases hid

omit hvalid in
/-- The types of struct fields. -/
theorem getTypeId_struct_iff {size dataType : ℕ} {typeId : FieldTypeId}
    (h : getTypeId size dataType = .ok typeId) : typeId = .struct ↔ dataType = 1 := by
  unfold getTypeId at h
  split at h
  · cases h
    decide
  · cases h
    decide
  · split at h <;> cases h <;> decide
  · split at h <;> cases h <;> decide
  · cases h
    decide
  · cases h

/-! ### Described in time -/

/-- **The klass of a struct field is described before it.** A field whose name is taken is
dropped, so nothing is asked of it. -/
def DescribedBefore (R : KlassRegister) (e : Event) : Prop :=
  ∀ id name typeName dataType k,
    e.description = .ok (.field id name typeName .struct dataType) → R.getKlass id = some k →
      name ∉ k.fields.map EventKlassField.name → ∃ k' ∈ R.klasses, k'.name = typeName

omit hvalid in
theorem Grows.getKlass_eq_none (h : R.Grows R') {id : UInt32} (hid : R'.getKlass id = none) :
    R.getKlass id = none := by
  rcases hk : R.getKlass id with _ | k
  · rfl
  · obtain ⟨k', hk', -⟩ := h id k hk
    rw [hid] at hk'
    cases hk'

theorem given_describedField_iff {size dataType : ℕ} {typeId : FieldTypeId}
    (htype : getTypeId size dataType = .ok typeId) (name typeName : Name) :
    Given (R.describedField P name typeName typeId dataType) ↔
      (typeId = .struct → ∃ k ∈ R.klasses, k.name = typeName) := by
  refine forall_congr' fun hstruct => ?_
  rw [describedField, if_pos ((getTypeId_struct_iff htype).mp hstruct),
    ← exists_getKlassId_iff (P := P) hvalid]
  exact not_congr Option.map_eq_none_iff

/-- **An event leaves every struct field with a klass exactly if it describes none too early.** -/
theorem given_handle_iff {e : Event} (h : R.handleRegisterEvents P e = .ok R') :
    R'.AllFields Given ↔ R.AllFields Given ∧ R.DescribedBefore e := by
  obtain ⟨d, hd, happly⟩ := handleRegisterEvents_eq_ok h
  rw [allFields_apply_iff happly]
  refine and_congr_right fun _ => ?_
  constructor
  · intro hgiven id name typeName dataType k he hk hname
    obtain ⟨-, size, htype⟩ := of_description_field he
    have hfield := hgiven id name typeName .struct dataType k
      (Except.ok.inj (hd.symm.trans he)) hk hname
    exact (given_describedField_iff hvalid htype name typeName).mp hfield rfl
  · rintro hbefore id name typeName typeId dataType k rfl hk hname
    obtain ⟨-, size, htype⟩ := of_description_field hd
    rw [given_describedField_iff hvalid htype]
    rintro rfl
    exact hbefore id name typeName dataType k hd hk hname

end

/-- **A sequence of events leaves every struct field with a klass exactly if it describes none too
early.** -/
theorem given_handleAll_iff {events : List Event} (h : R.handleAll P events = .ok R')
    (hvalid : R'.getKlass 0xffffffff = none) :
    R'.AllFields Given ↔ R.AllFields Given ∧ StepsMeet (handle P) DescribedBefore R events := by
  induction events generalizing R with
  | nil =>
    cases h
    exact ⟨fun h => ⟨h, trivial⟩, fun h => h.1⟩
  | cons e events ih =>
    have hvalid₀ := (grows_handleAll h).getKlass_eq_none hvalid
    obtain ⟨R₁, he, hrest⟩ := handleAll_cons_eq_ok h
    have hhandle : R.handle P e = R₁ := by rw [handle, he]
    rw [ih hrest, given_handle_iff hvalid₀ he, StepsMeet, hhandle, and_assoc]

theorem linked_handleAll {events : List Event} (h : R.handleAll P events = .ok R')
    (hvalid : R'.getKlass 0xffffffff = none) (hR : R.AllFields R.Linked) :
    R'.AllFields R'.Linked := by
  induction events generalizing R with
  | nil =>
    cases h
    exact hR
  | cons e events ih =>
    have hvalid₀ := (grows_handleAll h).getKlass_eq_none hvalid
    obtain ⟨R₁, he, hrest⟩ := handleAll_cons_eq_ok h
    obtain ⟨d, -, happly⟩ := handleRegisterEvents_eq_ok he
    refine ih hrest ?_
    have hgrow := grows_apply happly
    refine (allFields_apply_iff happly).mpr ⟨fun id k hk f hf => (hR id k hk f hf).grows hgrow, ?_⟩
    intro id name typeName typeId dataType k _ _ _
    exact (linked_describedField hvalid₀ name typeName typeId dataType).grows hgrow

/-! ### The lookup returns -/

/-- The loop over the fields returns if the lookups in the klasses of the struct fields do. -/
theorem exists_getFieldIn {owner : UInt32} {name : Name} {fs : List EventKlassField}
    (hsub : ∀ f ∈ fs, f.typeId = .struct → ∃ id r, f.klass = some id ∧ R.Returns id name r) :
    ∃ d r, (∀ depth, d ≤ depth →
        getFieldIn (R.getField name true depth) name true owner fs = .ok r) ∧
      (∀ owner' f, r = some (owner', f) → (owner' = owner ∧ f ∈ fs ∧ f.name = name) ∨
        ∃ g ∈ fs, g.typeId = .struct ∧
          ∃ id, g.klass = some id ∧ R.Returns id name (some (owner', f))) ∧
      (r = none → ∀ f ∈ fs, f.name ≠ name ∧
        (f.typeId = .struct → ∃ id, f.klass = some id ∧ R.Returns id name none)) := by
  induction fs with
  | nil => exact ⟨0, none, fun _ _ => rfl, nofun, nofun⟩
  | cons f fs ih =>
    obtain ⟨d, r, hr, hfound, hmissing⟩ := ih (List.forall_mem_cons.mp hsub).2
    -- a result of the rest of the loop is one of the whole loop
    have hfound' : ∀ owner' f', r = some (owner', f') →
        (owner' = owner ∧ f' ∈ f :: fs ∧ f'.name = name) ∨ ∃ g ∈ f :: fs, g.typeId = .struct ∧
          ∃ id, g.klass = some id ∧ R.Returns id name (some (owner', f')) := by
      intro owner' f' hf'
      rcases hfound owner' f' hf' with ⟨howner, hmem, hname⟩ | ⟨g, hg, hrest⟩
      · exact .inl ⟨howner, List.mem_cons_of_mem f hmem, hname⟩
      · exact .inr ⟨g, List.mem_cons_of_mem f hg, hrest⟩
    by_cases hname : f.name = name
    · refine ⟨0, some (owner, f), fun _ _ => getFieldIn_self hname fs, ?_, nofun⟩
      rintro owner' f' ⟨⟩
      exact .inl ⟨rfl, List.mem_cons_self, hname⟩
    by_cases hstruct : f.typeId = .struct
    · obtain ⟨id, r₀, hid, d₀, hd₀⟩ := (List.forall_mem_cons.mp hsub).1 hstruct
      rcases r₀ with _ | ⟨owner₀, f₀⟩
      · refine ⟨max d d₀, r, fun depth hdepth => ?_, hfound', fun hnone => ?_⟩
        · rw [getFieldIn_struct hname hstruct hid, hd₀ depth (by omega)]
          exact hr depth (by omega)
        · exact List.forall_mem_cons.mpr ⟨⟨hname, fun _ => ⟨id, hid, d₀, hd₀⟩⟩, hmissing hnone⟩
      · refine ⟨d₀, some (owner₀, f₀), fun depth hdepth => ?_, ?_, nofun⟩
        · rw [getFieldIn_struct hname hstruct hid, hd₀ depth hdepth]
          rfl
        · rintro owner' f' ⟨⟩
          exact .inr ⟨f, List.mem_cons_self, hstruct, id, hid, d₀, hd₀⟩
    · refine ⟨d, r, fun depth hdepth => ?_, hfound', fun hnone => ?_⟩
      · rw [getFieldIn_skip hname hstruct]
        exact hr depth hdepth
      · exact List.forall_mem_cons.mpr ⟨⟨hname, fun h => absurd h hstruct⟩, hmissing hnone⟩

theorem Returns.unique {id : UInt32} {name : Name} {r r' : FoundField} (h : R.Returns id name r)
    (h' : R.Returns id name r') : r = r' := by
  obtain ⟨d, hd⟩ := h
  obtain ⟨d', hd'⟩ := h'
  exact Except.ok.inj ((hd (d + d') (by omega)).symm.trans (hd' (d + d') (by omega)))

theorem getField_succ {id : UInt32} {k : EventKlass} (hk : R.getKlass id = some k) (name : Name)
    (depth : ℕ) : R.getField name true (depth + 1) id =
      getFieldIn (R.getField name true depth) name true id k.fields := by
  rw [getField, hk]

/-- The klass a struct field has been given is the one of its type. -/
theorem Linked.contains {id id' : UInt32} {k : EventKlass} (hk : R.getKlass id = some k)
    {f : EventKlassField} (hf : f ∈ k.fields) (hstruct : f.typeId = .struct) (h : R.Linked f)
    (hid' : f.klass = some id') : R.Contains id id' := by
  obtain ⟨k', hk', hname⟩ := h id' hid'
  exact ⟨k, k', f, hk, hk', hf, hstruct, hname⟩

theorem IsFamily.acc (h : R.IsFamily) {id : UInt32} {k : EventKlass} (hk : R.getKlass id = some k) :
    Acc (fun y x => R.Contains x y) id := by
  have hmem : ∀ {id k}, R.getKlass id = some k → id ∈ R.klasses.map EventKlass.id :=
    fun hk => List.mem_map.mpr ⟨_, mem_of_getKlass hk, id_of_getKlass hk⟩
  refine acc_of_not_transGen (R.klasses.map EventKlass.id).finite_toSet ?_
    (fun id _ => h.acyclic id) (hmem hk)
  rintro x - y ⟨_, k', _, -, hk', -⟩
  exact hmem hk'

/-- **Where every struct field has been given a klass, lookup is right.** -/
theorem looksUp_of_given (hfam : R.IsFamily) (hlinked : R.AllFields R.Linked)
    (hgiven : R.AllFields Given) : R.LooksUp := by
  intro id k hk name _
  -- along the containment of klasses, which comes to an end
  induction hfam.acc hk generalizing k with
  | intro id _ ih =>
    have hstructs : ∀ f ∈ k.fields, f.typeId = .struct → ∃ id' k',
        f.klass = some id' ∧ R.getKlass id' = some k' ∧ R.Contains id id' := by
      intro f hf hstruct
      obtain ⟨id', hid'⟩ := Option.ne_none_iff_exists'.mp (hgiven id k hk f hf hstruct)
      obtain ⟨k', hk', -⟩ := hlinked id k hk f hf id' hid'
      exact ⟨id', k', hid', hk', (hlinked id k hk f hf).contains hk hf hstruct hid'⟩
    have hsub : ∀ f ∈ k.fields, f.typeId = .struct →
        ∃ id' r', f.klass = some id' ∧ R.Returns id' name r' := by
      intro f hf hstruct
      obtain ⟨id', k', hid', hk', hcontains⟩ := hstructs f hf hstruct
      obtain ⟨r', hr', -⟩ := ih id' hcontains k' hk'
      exact ⟨id', r', hid', hr'⟩
    obtain ⟨d, r, hr, hfound, hmissing⟩ := @exists_getFieldIn R id name k.fields hsub
    have hspec : ∀ owner f, r = some (owner, f) → f.name = name ∧ R.HasField id owner f := by
      intro owner f hf
      rcases hfound owner f hf with ⟨rfl, hmem, hname⟩ | ⟨g, hg, hstruct, id', hid', hreturns⟩
      · exact ⟨hname, .refl, k, hk, hmem⟩
      · obtain ⟨id'', k', hid'', hk', hcontains⟩ := hstructs g hg hstruct
        obtain rfl : id' = id'' := Option.some.inj (hid'.symm.trans hid'')
        obtain ⟨r', hr', hspec', -⟩ := ih id' hcontains k' hk'
        obtain ⟨hname, hreach, hhas⟩ := hspec' owner f (hr'.unique hreturns)
        exact ⟨hname, hreach.head hcontains, hhas⟩
    refine ⟨r, ⟨d + 1, fun depth hdepth => ?_⟩, hspec, fun hne => ?_, ?_⟩
    · obtain ⟨depth, rfl⟩ : ∃ m, depth = m + 1 := ⟨depth - 1, by omega⟩
      rw [getField_succ hk]
      exact hr depth (by omega)
    · obtain ⟨⟨owner, f⟩, hf⟩ := Option.ne_none_iff_exists'.mp hne
      exact ⟨owner, f, hspec owner f hf⟩
    · rintro ⟨owner, f, hname, hreach, k₀, hk₀, hf⟩ hnone
      rcases Relation.ReflTransGen.cases_head hreach with rfl | ⟨id', hcontains, hreach'⟩
      · obtain rfl : k₀ = k := Option.some.inj (hk₀.symm.trans hk)
        exact (hmissing hnone f hf).1 hname
      · have hcontains' := hcontains
        obtain ⟨k₁, k', g, hk₁, hk', hg, hstruct, htype⟩ := hcontains'
        obtain rfl : k₁ = k := Option.some.inj (hk₁.symm.trans hk)
        obtain ⟨id'', hid'', hreturns⟩ := (hmissing hnone g hg).2 hstruct
        obtain ⟨k'', hk'', htype'⟩ := hlinked id k₁ hk g hg id'' hid''
        obtain rfl : id'' = id' :=
          hfam.named id k₁ hk g hg hstruct id'' k'' id' k' hk'' hk' htype' htype
        obtain ⟨r', hr', -, hiff⟩ := ih id'' hcontains k' hk'
        exact hiff.mpr ⟨owner, f, hname, hreach', k₀, hk₀, hf⟩ (hr'.unique hreturns)

/-- A loop that finds nothing has come by every struct field. -/
theorem given_of_getFieldIn {sub : UInt32 → Except Stop FoundField} {name : Name} {owner : UInt32}
    {fs : List EventKlassField} (h : getFieldIn sub name true owner fs = .ok none) :
    ∀ f ∈ fs, Given f := by
  induction fs with
  | nil => simp
  | cons f fs ih =>
    by_cases hname : f.name = name
    · rw [getFieldIn_self hname] at h
      cases h
    by_cases hstruct : f.typeId = .struct
    · rcases hk : f.klass with _ | id
      · rw [getFieldIn_null hname hstruct hk] at h
        cases h
      · rw [getFieldIn_struct hname hstruct hk] at h
        have hgiven : Given f := fun _ => by simp [hk]
        rcases hsub : sub id with w | _ | r
        all_goals rw [hsub] at h
        · cases h
        · exact List.forall_mem_cons.mpr ⟨hgiven, ih h⟩
        · cases h
    · rw [getFieldIn_skip hname hstruct] at h
      exact List.forall_mem_cons.mpr ⟨fun hs => absurd hs hstruct, ih h⟩

/-- There is always a name that no field has. -/
theorem exists_fresh_name (R : KlassRegister) :
    ∃ name : Name, 0 ∉ name ∧ R.AllFields fun f => f.name ≠ name := by
  have hinj : Function.Injective fun n : ℕ => List.replicate n (1 : UInt8) :=
    List.replicate_left_injective 1
  obtain ⟨name, ⟨n, rfl⟩, hfresh⟩ := (Set.infinite_range_of_injective hinj).exists_notMem_finset
    (R.klasses.flatMap fun k => k.fields.map EventKlassField.name).toFinset
  have hzero : (0 : UInt8) ∉ List.replicate n 1 := fun hmem =>
    absurd (List.eq_of_mem_replicate hmem) (by decide)
  refine ⟨List.replicate n 1, hzero, fun id k hk f hf heq => hfresh ?_⟩
  rw [List.mem_toFinset, List.mem_flatMap]
  exact ⟨k, mem_of_getKlass hk, List.mem_map.mpr ⟨f, hf, heq⟩⟩

/-- **Where lookup is right, every struct field has been given a klass**: the lookup of a name
that no field has comes by all of them. -/
theorem given_of_looksUp (h : R.LooksUp) : R.AllFields Given := by
  intro id k hk
  obtain ⟨name, hzero, hfresh⟩ := R.exists_fresh_name
  obtain ⟨r, ⟨d, hd⟩, hfound, -⟩ := h id k hk name hzero
  have hnone : r = none := by
    rcases r with _ | ⟨owner, f⟩
    · rfl
    · obtain ⟨hname, -, k', hk', hf⟩ := hfound owner f rfl
      exact absurd hname (hfresh owner k' hk' f hf)
  have hloop := hd (d + 1) (by omega)
  rw [getField_succ hk, hnone] at hloop
  exact given_of_getFieldIn hloop

/-! ### The same lookup in another order -/

/-- The same result, up to the klasses the fields were given. -/
def SameField (r r' : FoundField) : Prop :=
  r.map (Prod.map id EventKlassField.outline) = r'.map (Prod.map id EventKlassField.outline)

/-- The same result of two lookups. -/
inductive SameResult : Except Stop FoundField → Except Stop FoundField → Prop
  | ok {r r' : FoundField} (h : SameField r r') : SameResult (.ok r) (.ok r')
  | error (w : Stop) : SameResult (.error w) (.error w)

theorem SameResult.foundOr {a a' b b' : Except Stop FoundField} (h : SameResult a a')
    (h' : SameResult b b') : SameResult (foundOr a b) (foundOr a' b') := by
  rcases h with @⟨r, r', h⟩ | w
  · rcases r with _ | r
    · obtain rfl : r' = none := Option.map_eq_none_iff.mp h.symm
      exact h'
    · obtain ⟨r', rfl, -⟩ := Option.map_eq_some_iff.mp h.symm
      exact .ok h
  · exact .error w

/-- The loop over fields of one outline that have been given the same klasses. -/
theorem sameResult_getFieldIn {sub sub' : UInt32 → Except Stop FoundField}
    (hsub : ∀ id, SameResult (sub id) (sub' id)) {name : Name} {owner : UInt32}
    {fs fs' : List EventKlassField}
    (hfs : fs.map EventKlassField.outline = fs'.map EventKlassField.outline)
    (hklass : ∀ f ∈ fs, ∀ f' ∈ fs', f.outline = f'.outline → f.typeId = .struct →
      f.klass = f'.klass) :
    SameResult (getFieldIn sub name true owner fs) (getFieldIn sub' name true owner fs') := by
  induction fs generalizing fs' with
  | nil =>
    obtain rfl := List.map_eq_nil_iff.mp hfs.symm
    exact .ok rfl
  | cons f fs ih =>
    obtain ⟨f', fs', rfl, houtline, hrest⟩ := List.map_eq_cons_iff.mp hfs.symm
    obtain ⟨hname, -, htype⟩ := EventKlassField.of_outline_eq houtline
    have ih := ih hrest.symm fun g hg g' hg' =>
      hklass g (List.mem_cons_of_mem f hg) g' (List.mem_cons_of_mem f' hg')
    by_cases h : f.name = name
    · rw [getFieldIn_self h, getFieldIn_self (hname.trans h)]
      exact .ok (by rw [SameField, Option.map_some, Option.map_some, Prod.map, Prod.map, houtline])
    have h' : f'.name ≠ name := fun heq => h (hname.symm.trans heq)
    by_cases hstruct : f.typeId = .struct
    · have hstruct' : f'.typeId = .struct := htype.trans hstruct
      have hsame := hklass f List.mem_cons_self f' List.mem_cons_self houtline.symm hstruct
      rcases hk : f.klass with _ | id
      · rw [getFieldIn_null h hstruct hk, getFieldIn_null h' hstruct' (hsame.symm.trans hk)]
        exact .error _
      · have hk' : f'.klass = some id := hsame.symm.trans hk
        rw [getFieldIn_struct h hstruct hk, getFieldIn_struct h' hstruct' hk']
        exact (hsub id).foundOr ih
    · rw [getFieldIn_skip h hstruct, getFieldIn_skip h' fun hs => hstruct (htype.symm.trans hs)]
      exact ih

theorem SameOutlines.symm (h : R.SameOutlines R') : R'.SameOutlines R := fun id => (h id).symm

theorem SameOutlines.getKlass_eq_none (h : R.SameOutlines R') {id : UInt32}
    (hid : R.getKlass id = none) : R'.getKlass id = none := by
  have hsame := h id
  rw [outline, hid, Option.map_none] at hsame
  exact Option.map_eq_none_iff.mp hsame.symm

/-- **Registers with the same outlines give the same result**, if all struct fields have been given
a klass. -/
theorem sameResult_getField (hfam : R.IsFamily) (hsame : R.SameOutlines R')
    (hlinked : R.AllFields R.Linked) (hgiven : R.AllFields Given)
    (hlinked' : R'.AllFields R'.Linked) (hgiven' : R'.AllFields Given) (name : Name) (depth : ℕ)
    (id : UInt32) :
    SameResult (R.getField name true depth id) (R'.getField name true depth id) := by
  induction depth generalizing id with
  | zero => exact .error _
  | succ depth ih =>
    rcases hk : R.getKlass id with _ | k
    · rw [getField, getField, hk, hsame.getKlass_eq_none hk]
      exact .error _
    · obtain ⟨k', hk', -, hfields⟩ := hsame.getKlass hk
      rw [getField_succ hk, getField_succ hk']
      refine sameResult_getFieldIn ih hfields.symm fun f hf f' hf' houtline hstruct => ?_
      obtain ⟨-, htypeName, htype⟩ := EventKlassField.of_outline_eq houtline
      have hstruct' : f'.typeId = .struct := htype.symm.trans hstruct
      obtain ⟨i, hi⟩ := Option.ne_none_iff_exists'.mp (hgiven id k hk f hf hstruct)
      obtain ⟨i', hi'⟩ := Option.ne_none_iff_exists'.mp (hgiven' id k' hk' f' hf' hstruct')
      -- both klasses have the name of the type, and in one register it is that of one klass
      obtain ⟨k₁, hk₁, hname₁⟩ := hlinked id k hk f hf i hi
      obtain ⟨k₂, hk₂, hname₂⟩ := hlinked' id k' hk' f' hf' i' hi'
      obtain ⟨k₃, hk₃, hname₃, -⟩ := hsame.symm.getKlass hk₂
      have hii : i = i' := hfam.named id k hk f hf hstruct i k₁ i' k₃ hk₁ hk₃ hname₁
        (hname₃.trans (hname₂.trans htypeName.symm))
      rw [hi, hi', hii]

/-! ### The main result -/

/-- **Recursive lookup is right exactly if every struct field is described after its klass**, and
then the order of the descriptions of different klasses does not matter. -/
theorem looksUp_iff {events : List Event} (h : new.handleAll P events = .ok R) (hfam : R.IsFamily) :
    (R.LooksUp ↔ StepsMeet (handle P) DescribedBefore new events) ∧
      ∀ events' R', new.handleAll P events' = .ok R' →
        (∀ id, (descriptionsIn events').filter (Description.About id) =
          (descriptionsIn events).filter (Description.About id)) →
        StepsMeet (handle P) DescribedBefore new events →
        StepsMeet (handle P) DescribedBefore new events' →
          ∀ id name r r', R.Returns id name r → R'.Returns id name r' → SameField r r' := by
  have hnew : new.AllFields Given := allFields_new fun f hf _ hstruct => absurd hstruct hf
  have hnewLinked : new.AllFields new.Linked :=
    allFields_new fun f _ hf id hid => by rw [hf] at hid; cases hid
  have hgiven := given_handleAll_iff h hfam.valid
  have hlinked := linked_handleAll h hfam.valid hnewLinked
  refine ⟨⟨fun hlooks => (hgiven.mp (given_of_looksUp hlooks)).2, fun hbefore =>
    looksUp_of_given hfam hlinked (hgiven.mpr ⟨hnew, hbefore⟩)⟩, ?_⟩
  intro events' R' h' hsame hbefore hbefore' id name r r' hr hr'
  have houtlines := sameOutlines_of_descriptions h h' fun id => (hsame id).symm
  have hvalid' := houtlines.getKlass_eq_none hfam.valid
  obtain ⟨d, hd⟩ := hr
  obtain ⟨d', hd'⟩ := hr'
  have hresult := sameResult_getField hfam houtlines hlinked (hgiven.mpr ⟨hnew, hbefore⟩)
    (linked_handleAll h' hvalid' hnewLinked)
    ((given_handleAll_iff h' hvalid').mpr ⟨hnew, hbefore'⟩) name (d + d') id
  rw [hd (d + d') (by omega), hd' (d + d') (by omega)] at hresult
  cases hresult with
  | ok hsame => exact hsame

/-- A family in which a klass is described with a larger identifier than those it contains. -/
theorem isFamily_of_klasses
    (hnamed : ∀ k ∈ R.klasses, ∀ f ∈ k.fields, f.typeId = .struct → ∀ k₁ ∈ R.klasses,
      ∀ k₂ ∈ R.klasses, k₁.name = f.typeName → k₂.name = f.typeName → k₁.id = k₂.id)
    (hvalid : R.getKlass 0xffffffff = none)
    (hless : ∀ k ∈ R.klasses, ∀ k' ∈ R.klasses, ∀ f ∈ k.fields, f.typeId = .struct →
      k'.name = f.typeName → k'.id.toNat < k.id.toNat) : R.IsFamily := by
  refine ⟨?_, hvalid, ?_⟩
  · intro id k hk f hf hstruct id₁ k₁ id₂ k₂ hk₁ hk₂ hname₁ hname₂
    rw [← id_of_getKlass hk₁, ← id_of_getKlass hk₂]
    exact hnamed k (mem_of_getKlass hk) f hf hstruct k₁ (mem_of_getKlass hk₁) k₂
      (mem_of_getKlass hk₂) hname₁ hname₂
  · have hlt : ∀ id id', Relation.TransGen R.Contains id id' → id'.toNat < id.toNat := by
      intro id id' h
      refine Relation.TransGen.trans_induction_on h ?_ fun _ _ h h' => lt_trans h' h
      rintro id id' ⟨k, k', f, hk, hk', hf, hstruct, hname⟩
      rw [← id_of_getKlass hk, ← id_of_getKlass hk']
      exact hless k (mem_of_getKlass hk) k' (mem_of_getKlass hk') f hf hstruct hname
    exact fun id h => lt_irrefl id.toNat (hlt id id h)

/-- The description of a klass with a number. -/
def baseDescription : List Event :=
  [klassEvent 20 (ascii "Base"), fieldEvent 20 (ascii "int") (ascii "x") 4 3]

/-- The description of a klass that contains the other one. -/
def derivedDescription : List Event :=
  [klassEvent 21 (ascii "Derived"), fieldEvent 21 (ascii "Base") (ascii "base") 4 1]

theorem looksUp_iff_of_base_first : ∃ R,
    new.handleAll samplePlatform (baseDescription ++ derivedDescription) = .ok R ∧ R.LooksUp := by
  have hregister : new.handleAll samplePlatform (baseDescription ++ derivedDescription) = .ok _ :=
    rfl
  refine ⟨_, hregister, ?_⟩
  refine (looksUp_iff hregister (isFamily_of_klasses (by decide) rfl (by decide))).1.mpr
    ⟨nofun, nofun, nofun, ?_, trivial⟩
  rintro id name typeName dataType k ⟨⟩ - -
  decide

/-- **A struct field that is described before its klass**: looking for the number dereferences a
null pointer; in the other order it is found. -/
theorem derived_first_dereferences_null : ∃ R R',
    new.handleAll samplePlatform (derivedDescription ++ baseDescription) = .ok R ∧ R.IsFamily ∧
    (∀ depth, R.getField (ascii "x") true (depth + 1) 21 = .error .nullKlass) ∧ ¬ R.LooksUp ∧
    new.handleAll samplePlatform (baseDescription ++ derivedDescription) = .ok R' ∧
    R'.Returns 21 (ascii "x") (some (20, ⟨ascii "x", ascii "int", .int32, none⟩)) := by
  refine ⟨_, _, rfl, isFamily_of_klasses (by decide) rfl (by decide), fun _ => rfl, ?_, rfl, 2, ?_⟩
  · intro hlooks
    obtain ⟨r, ⟨d, hd⟩, -⟩ := hlooks 21 _ rfl (ascii "x") (by decide)
    cases hd (d + 1) (by omega)
  · rintro (_ | _ | depth) hdepth
    · omega
    · omega
    · rfl

end KlassRegister

end HawkTracer.Parser
