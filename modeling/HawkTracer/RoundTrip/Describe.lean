import HawkTracer.Lib.Registry
import HawkTracer.Parser.KlassRegister
import Mathlib.Tactic.IntervalCases

/-!
# The register that the metadata builds

What the klass register of a reader holds once it has seen the descriptions of a whole
registry. Describing a klass adds it under its identifier and then adds its fields one
by one (`HawkTracer.RoundTrip.describeKlass`), but the register does not start empty,
and both additions are first-wins:

* the klasses 1, 2 and 3 are *well known*: they keep the layout the register was
  built with, and that layout has no `base`;
* klass 0, the endianness event, is built in as well, but it is not in the list of the
  well-known klasses. Its description therefore appends `base` to the built-in layout;
* every other klass gets the fields of its declaration, in their order.

The invariant over the number of klasses described so far is
`HawkTracer.RoundTrip.Describes`; what reading needs from it is the layout of each
declared klass, `HawkTracer.RoundTrip.Describes.layout`, and that the name of a klass
leads to its identifier, `HawkTracer.RoundTrip.Describes.getKlassId_eq`.
-/

namespace HawkTracer.RoundTrip

open HawkTracer.Lib HawkTracer.Parser KlassRegister

/-! ### Field types on both sides -/

/-- The type the reader gives to an integer field. -/
def integerTypeId (isSigned : Bool) (size : ℕ) : FieldTypeId :=
  match size with
  | 1 => if isSigned then .int8 else .uint8
  | 2 => if isSigned then .int16 else .uint16
  | 4 => if isSigned then .int32 else .uint32
  | _ => if isSigned then .int64 else .uint64

/-- The type the reader gives to a described field. -/
def infoTypeId (info : FieldInfo) : FieldTypeId :=
  match info.dataType with
  | .struct => .struct
  | .integer => integerTypeId info.isSigned info.size
  | .pointer => .pointer
  | _ => .string

/-- A description the reader accepts. -/
def Readable (info : FieldInfo) : Prop :=
  getTypeId (info.size % 2 ^ 64) info.extDataType = .ok (infoTypeId info)

theorem readable_info {d : FieldDecl} (h : d.Supported) : Readable d.info := by
  obtain ⟨t, cType, fieldName, size⟩ := d
  cases t with
  | integer s =>
    have hsize : size = 1 ∨ size = 2 ∨ size = 4 ∨ size = 8 := h
    rcases hsize with rfl | rfl | rfl | rfl <;> cases s <;> rfl
  | string => rfl
  | pointer => exact h.elim
  | double => exact h.elim

theorem infos_scalarFields (fields : List FieldDecl) :
    (scalarFields fields).infos = fields.map FieldDecl.info := by
  induction fields with
  | nil => rfl
  | cons f fs ih => exact congrArg _ ih

/-- The reflection data of the member `base`. -/
def baseInfo (base : Klass) : FieldInfo :=
  ⟨base.typeName, cstr "base", base.size, false, .struct⟩

theorem infos_declareEventKlass (typeName : CString) (base : Klass) (fields : List FieldDecl)
    (size : ℕ) (h : (memberNames fields).Nodup) :
    (declareEventKlass typeName base fields size h).fields.infos =
      baseInfo base :: fields.map FieldDecl.info := by
  change baseInfo base :: (scalarFields fields).infos = _
  rw [infos_scalarFields]

variable {G : Registry} {i : ℕ} {R : KlassRegister} {K : Klass}

/-- The descriptions of every klass but the root are accepted. -/
theorem readable_of_mem (hK : K ∈ G.klasses) (hroot : K ≠ htEventKlass) {info : FieldInfo}
    (hinfo : info ∈ K.fields.infos) : Readable info := by
  rcases Registry.declaredIn_of_mem hK with rfl | ⟨base, -, typeName, fields, size, h, hsup, rfl⟩
  · exact absurd rfl hroot
  · rw [infos_declareEventKlass] at hinfo
    rcases List.mem_cons.mp hinfo with rfl | hmem
    · rfl
    · obtain ⟨d, hd, rfl⟩ := List.mem_map.mp hmem
      exact readable_info (hsup d hd)

/-! ### Describing -/

variable (P : Platform)

/-- What the description of a field does to the register. -/
def describeField (i : ℕ) (R : KlassRegister) (info : FieldInfo) : KlassRegister :=
  if isWellKnownKlass (UInt32.ofNat i) then R
  else
    R.updateKlass (UInt32.ofNat i)
      (R.describedField P info.fieldName.bytes info.fieldType.bytes (infoTypeId info)
        info.extDataType)

/-- What the description of a klass does to the register. -/
def describeKlass (i : ℕ) (R : KlassRegister) (K : Klass) : KlassRegister :=
  K.fields.infos.foldl (describeField P i) (R.addKlass (.new K.typeName.bytes (UInt32.ofNat i)))

/-- What the descriptions of the klasses from identifier `i` on do to the register. -/
def describeFrom : ℕ → KlassRegister → List Klass → KlassRegister
  | _, R, [] => R
  | i, R, K :: Ks => describeFrom (i + 1) (describeKlass P i R K) Ks

/-- What reading depends on in a field. -/
def shape (f : EventKlassField) : Name × Name × FieldTypeId := (f.name, f.typeName, f.typeId)

/-- The shape of the field a description makes. -/
def infoShape (info : FieldInfo) : Name × Name × FieldTypeId :=
  (info.fieldName.bytes, info.fieldType.bytes, infoTypeId info)

variable {P}

theorem foldl_describeField_wellKnown (hi : isWellKnownKlass (UInt32.ofNat i) = true)
    (infos : List FieldInfo) (R : KlassRegister) : infos.foldl (describeField P i) R = R := by
  induction infos with
  | nil => rfl
  | cons info infos ih => rw [List.foldl_cons, describeField, if_pos hi, ih]

theorem getKlass_foldl_describeField_of_ne {id : UInt32} (hid : id ≠ UInt32.ofNat i)
    (infos : List FieldInfo) (R : KlassRegister) :
    (infos.foldl (describeField P i) R).getKlass id = R.getKlass id := by
  induction infos generalizing R with
  | nil => rfl
  | cons info infos ih =>
    rw [List.foldl_cons, ih, describeField]
    split
    · rfl
    · exact getKlass_updateKlass_of_ne R hid _

/-- The other klasses are left alone when one is described. -/
theorem getKlass_describeKlass_of_ne {id : UInt32} (hid : id ≠ UInt32.ofNat i) (R : KlassRegister)
    (K : Klass) : (describeKlass P i R K).getKlass id = R.getKlass id := by
  have hadd : (EventKlass.new K.typeName.bytes (UInt32.ofNat i)).id ≠ id := Ne.symm hid
  rw [describeKlass, getKlass_foldl_describeField_of_ne hid, getKlass_addKlass,
    if_neg hadd, Option.or_none]

/-- **Induction over a run of descriptions**: an invariant over the number of klasses
described so far that each description advances. -/
theorem describeFrom_induction {I : ℕ → KlassRegister → Prop} {klasses : List Klass}
    (step : ∀ n R K, klasses[n]? = some K → I n R → I (n + 1) (describeKlass P n R K)) {n : ℕ}
    (h : I n R) {Ks : List Klass} (hKs : klasses.drop n = Ks) :
    I (n + Ks.length) (describeFrom P n R Ks) := by
  induction Ks generalizing n R with
  | nil => exact h
  | cons K Ks ih =>
    have hget : klasses[n]? = some K := by
      rw [← List.head?_drop, hKs, List.head?_cons]
    have hdrop : klasses.drop (n + 1) = Ks := by
      rw [← List.drop_drop, hKs, List.drop_succ_cons, List.drop_zero]
    have hlen : n + (K :: Ks).length = n + 1 + Ks.length := by
      rw [List.length_cons]
      omega
    rw [describeFrom, hlen]
    exact ih (step n R K hget h) hdrop

/-- A klass that is there stays there. -/
theorem exists_getKlass_describeField {id : UInt32} (h : ∃ k, R.getKlass id = some k)
    (info : FieldInfo) : ∃ k, (describeField P i R info).getKlass id = some k := by
  obtain ⟨k, hk⟩ := h
  rw [describeField]
  split
  · exact ⟨k, hk⟩
  · exact ⟨_, by rw [getKlass_updateKlass, hk, Option.map_some]⟩

/-- The fields of a described klass: those it had, then the described ones under names
that are not taken. -/
theorem getKlass_foldl_describeField (hi : isWellKnownKlass (UInt32.ofNat i) = false)
    (infos : List FieldInfo) {k : EventKlass} (hk : R.getKlass (UInt32.ofNat i) = some k) :
    ∃ k', (infos.foldl (describeField P i) R).getKlass (UInt32.ofNat i) = some k' ∧
      k'.name = k.name ∧
      k'.fields.map shape = mergeNew Prod.fst (k.fields.map shape) (infos.map infoShape) := by
  induction infos generalizing R k with
  | nil => exact ⟨k, hk, rfl, rfl⟩
  | cons info infos ih =>
    have hstep : (describeField P i R info).getKlass (UInt32.ofNat i) =
        some (k.addField (R.describedField P info.fieldName.bytes info.fieldType.bytes
          (infoTypeId info) info.extDataType)) := by
      rw [describeField, if_neg (by rw [hi]; decide)]
      exact getKlass_updateKlass_self hk _
    obtain ⟨k', hk', hname, hfields⟩ := ih hstep
    refine ⟨k', hk', by simpa using hname, ?_⟩
    have hkey : ∀ f : EventKlassField, (shape f).1 = f.name := fun _ => rfl
    have hmap : ∀ f, (insertNew EventKlassField.name k.fields f).map shape =
        insertNew Prod.fst (k.fields.map shape) (shape f) := map_insertNew hkey k.fields
    rw [hfields, EventKlass.fields_addField, hmap, List.map_cons, mergeNew_cons]
    rfl

/-! ### The invariant -/

/-- The shapes of the fields the register is built with. -/
def builtIn (i : ℕ) : List (Name × Name × FieldTypeId) :=
  match KlassRegister.new.getKlass (UInt32.ofNat i) with
  | some k => k.fields.map shape
  | none => []

/-- The shapes of the fields of klass `i` once it has been described. -/
def shapes (i : ℕ) (K : Klass) : List (Name × Name × FieldTypeId) :=
  if isWellKnownKlass (UInt32.ofNat i) then builtIn i
  else mergeNew Prod.fst (builtIn i) (K.fields.infos.map infoShape)

theorem builtIn_describeField (h : R.BuiltIn) (n : ℕ) (info : FieldInfo) :
    (describeField P n R info).BuiltIn := by
  rw [describeField]
  split
  · exact h
  · next hn => exact h.updateKlass (by simpa using hn) _

/-- **The description of a klass keeps the built-in klasses.** -/
theorem builtIn_describeKlass (h : R.BuiltIn) (n : ℕ) (K : Klass) :
    (describeKlass P n R K).BuiltIn := by
  have hfold : ∀ (infos : List FieldInfo) (R : KlassRegister), R.BuiltIn →
      (infos.foldl (describeField P n) R).BuiltIn := by
    intro infos
    induction infos with
    | nil => exact fun _ h => h
    | cons info infos ih => exact fun R h => ih _ (builtIn_describeField h n info)
  exact hfold _ _ (h.addKlass _)

/-- **The register after the first `n` descriptions**: those klasses have the shapes
above, and nothing else has changed. -/
structure Describes (G : Registry) (n : ℕ) (R : KlassRegister) : Prop where
  described : ∀ i K, i < n → G.klasses[i]? = some K → ∃ k, R.getKlass (UInt32.ofNat i) = some k ∧
    k.name = K.typeName.bytes ∧ k.fields.map shape = shapes i K
  rest : ∀ id, (∀ i < n, id ≠ UInt32.ofNat i) → R.getKlass id = KlassRegister.new.getKlass id
  keeps : R.BuiltIn

theorem ofNat_inj {j : ℕ} (hi : i < 2 ^ 32) (hj : j < 2 ^ 32)
    (h : UInt32.ofNat i = UInt32.ofNat j) : i = j := by
  have h' := congrArg UInt32.toNat h
  rwa [UInt32.toNat_ofNat_of_lt' hi, UInt32.toNat_ofNat_of_lt' hj] at h'

theorem describes_new (G : Registry) : Describes G 0 KlassRegister.new :=
  ⟨fun _ _ h => absurd h (Nat.not_lt_zero _), fun _ _ => rfl, builtIn_new⟩

/-- The built-in klasses have the names the library gives them. -/
theorem getKlass_new_of_lt (hi : i < 4) (hK : G.klasses[i]? = some K) :
    ∃ k, KlassRegister.new.getKlass (UInt32.ofNat i) = some k ∧ k.name = K.typeName.bytes ∧
      k.fields.map shape = builtIn i := by
  have hcore : coreKlasses[i]? = some K := by
    rwa [Registry.klasses, List.getElem?_append_left (by simp [coreKlasses]; omega)] at hK
  interval_cases i <;> cases hcore <;> exact ⟨_, rfl, rfl, rfl⟩

theorem getKlass_new_of_ge (hi : 4 ≤ i) (hlt : i < 2 ^ 32) :
    KlassRegister.new.getKlass (UInt32.ofNat i) = none := by
  have hne : ∀ j < 4, (UInt32.ofNat j : UInt32) ≠ UInt32.ofNat i := fun j hj h => by
    have := ofNat_inj (by omega) hlt h
    omega
  have h0 := hne 0 (by omega)
  have h1 := hne 1 (by omega)
  have h2 := hne 2 (by omega)
  have h3 := hne 3 (by omega)
  refine findKey_eq_none_iff.mpr ?_
  change UInt32.ofNat i ∉ [(1 : UInt32), 0, 2, 3]
  simp only [List.mem_cons, List.not_mem_nil, or_false, not_or]
  exact ⟨Ne.symm h1, Ne.symm h0, Ne.symm h2, Ne.symm h3⟩

/-- The klasses that are built in have the first four identifiers. -/
theorem exists_of_getKlass_new {id : UInt32} {k : EventKlass}
    (h : KlassRegister.new.getKlass id = some k) : ∃ i < 4, id = UInt32.ofNat i := by
  refine ⟨id.toNat, ?_, UInt32.ofNat_toNat.symm⟩
  by_contra hge
  have hnone := getKlass_new_of_ge (i := id.toNat) (by omega) id.toNat_lt
  rw [UInt32.ofNat_toNat, h] at hnone
  cases hnone

theorem isWellKnownKlass_ofNat (hlt : i < 2 ^ 32) :
    isWellKnownKlass (UInt32.ofNat i) = decide (i = 1 ∨ i = 2 ∨ i = 3) := by
  have h : ∀ j < 4, (UInt32.ofNat i = UInt32.ofNat j) = (i = j) := fun j hj =>
    propext ⟨ofNat_inj hlt (by omega), fun h => h ▸ rfl⟩
  have h1 : (UInt32.ofNat i = 1) = (i = 1) := h 1 (by omega)
  have h2 : (UInt32.ofNat i = 2) = (i = 2) := h 2 (by omega)
  have h3 : (UInt32.ofNat i = 3) = (i = 3) := h 3 (by omega)
  simp only [isWellKnownKlass, h1, h2, h3]
  simp [Bool.or_assoc]

/-- **Describing one more klass keeps the invariant.** -/
theorem Describes.step {n : ℕ} (h : Describes G n R) (hK : G.klasses[n]? = some K) :
    Describes G (n + 1) (describeKlass P n R K) := by
  have hn : n < 2 ^ 32 := lt_trans (List.getElem?_eq_some_iff.mp hK).1 G.length_lt
  have hfresh : ∀ i < n, UInt32.ofNat n ≠ UInt32.ofNat i := fun i hi heq =>
    absurd (ofNat_inj hn (by omega) heq) (by omega)
  have hold : R.getKlass (UInt32.ofNat n) = KlassRegister.new.getKlass (UInt32.ofNat n) :=
    h.rest _ hfresh
  -- the klass itself, before its fields are described
  obtain ⟨k, hk, hname, hfields⟩ : ∃ k,
      (R.addKlass (.new K.typeName.bytes (UInt32.ofNat n))).getKlass (UInt32.ofNat n) = some k ∧
      k.name = K.typeName.bytes ∧ k.fields.map shape = builtIn n := by
    rw [getKlass_addKlass, hold]
    by_cases h4 : n < 4
    · obtain ⟨k, hk, hname, hfields⟩ := getKlass_new_of_lt h4 hK
      exact ⟨k, by rw [hk, Option.some_or], hname, hfields⟩
    · have hnone := getKlass_new_of_ge (by omega) hn
      refine ⟨.new K.typeName.bytes (UInt32.ofNat n), ?_, rfl, ?_⟩
      · rw [hnone, Option.none_or]
        exact if_pos rfl
      · rw [builtIn, hnone]
        rfl
  constructor
  · intro i K' hi hK'
    rcases Nat.lt_succ_iff_lt_or_eq.mp hi with hlt | rfl
    · rw [getKlass_describeKlass_of_ne (Ne.symm (hfresh i hlt))]
      exact h.described i K' hlt hK'
    · cases hK.symm.trans hK'
      cases hw : isWellKnownKlass (UInt32.ofNat i) with
      | true =>
        refine ⟨k, ?_, hname, ?_⟩
        · rw [describeKlass, foldl_describeField_wellKnown hw, hk]
        · rw [shapes, if_pos hw, hfields]
      | false =>
        obtain ⟨k', hk', hname', hfields'⟩ := getKlass_foldl_describeField hw K.fields.infos hk
        refine ⟨k', hk', hname'.trans hname, ?_⟩
        rw [shapes, if_neg (by rw [hw]; decide), hfields', hfields]
  · intro id hid
    rw [getKlass_describeKlass_of_ne (hid n (Nat.lt_succ_self n))]
    exact h.rest id fun i hi => hid i (Nat.lt_succ_of_lt hi)
  · exact builtIn_describeKlass h.keeps n K

/-- **The register after a run of descriptions.** -/
theorem Describes.run {n : ℕ} (h : Describes G n R) {Ks : List Klass}
    (hKs : G.klasses.drop n = Ks) : Describes G (n + Ks.length) (describeFrom P n R Ks) :=
  describeFrom_induction (fun _ _ _ hK h => h.step hK) h hKs

/-! ### What reading needs to know -/

/-- What reading depends on in a field that is not a struct. -/
def signature (f : EventKlassField) : Name × FieldTypeId := (f.name, f.typeId)

/-- The signature of a declared field. -/
def declSignature (d : FieldDecl) : Name × FieldTypeId := (d.fieldName.bytes, infoTypeId d.info)

/-- Whether the reader knows a klass with its `base`: the two description klasses have
a built-in layout without one. -/
def hasBase (typeName : CString) : Bool :=
  typeName ≠ eventKlassInfoEventKlass.typeName ∧ typeName ≠ eventKlassFieldInfoEventKlass.typeName

/-- **The fields of a declared klass in the register**: as they were declared, or with
`base` appended to a built-in layout, or without `base`. -/
inductive Layout (base : Klass) (decls : List FieldDecl) : Bool → List EventKlassField → Prop where
  | declared {b : EventKlassField} {fs : List EventKlassField}
      (hb : shape b = infoShape (baseInfo base))
      (hfs : fs.map signature = decls.map declSignature) :
      Layout base decls true (b :: fs)
  | appended {b : EventKlassField} {fs : List EventKlassField}
      (hb : shape b = infoShape (baseInfo base)) (hfs : fs.map signature = decls.map declSignature)
      (hbase : base = htEventKlass) : Layout base decls true (fs ++ [b])
  | headless {fs : List EventKlassField} (hfs : fs.map signature = decls.map declSignature)
      (hbase : base = htEventKlass) : Layout base decls false fs

theorem map_signature_of_shape {fs : List EventKlassField} {l : List (Name × Name × FieldTypeId)}
    (h : fs.map shape = l) : fs.map signature = l.map fun s => (s.1, s.2.2) := by
  rw [← h, List.map_map]
  rfl

theorem scalarFields_injective : Function.Injective scalarFields := by
  intro l l' h
  induction l generalizing l' with
  | nil => cases l' with
    | nil => rfl
    | cons => cases h
  | cons f fs ih => cases l' with
    | nil => cases h
    | cons f' fs' =>
      obtain ⟨hf, hfs⟩ := Fields.field.inj h
      rw [hf, ih hfs]

/-- A declaration is determined by the klass it declares, up to the base klass, of which
the name is. -/
theorem declareEventKlass_inj {t t' : CString} {base base' : Klass}
    {fields fields' : List FieldDecl}
    {size size' : ℕ} {h : (memberNames fields).Nodup} {h' : (memberNames fields').Nodup}
    (heq : declareEventKlass t base fields size h = declareEventKlass t' base' fields' size' h') :
    t = t' ∧ base.typeName = base'.typeName ∧ fields = fields' := by
  simp only [declareEventKlass, Klass.mk.injEq, Fields.struct.injEq] at heq
  obtain ⟨ht, ⟨hname, -, -, -, hfields⟩, -⟩ := heq
  exact ⟨ht, hname, scalarFields_injective hfields⟩

theorem nodup_infoShape (K : Klass) : ((K.fields.infos.map infoShape).map Prod.fst).Nodup := by
  have h := K.nodup.map CString.bytes_injective
  rw [List.map_map] at h ⊢
  exact h

theorem shapes_of_ge (hi : 4 ≤ i) (hlt : i < 2 ^ 32) (K : Klass) :
    shapes i K = K.fields.infos.map infoShape := by
  have hw : ¬ isWellKnownKlass (UInt32.ofNat i) = true := by
    rw [isWellKnownKlass_ofNat hlt, decide_eq_true_iff]
    omega
  have hbuilt : builtIn i = [] := by
    rw [builtIn, getKlass_new_of_ge hi hlt]
  rw [shapes, if_neg hw, hbuilt]
  exact mergeNew_of_disjoint (nodup_infoShape K)

theorem core_getElem? (hi : i < 9) : G.klasses[i]? = coreKlasses[i]? :=
  core_append_getElem? hi

/-- A klass that is not built in has its `base` first. -/
theorem Describes.declared {n : ℕ} (h : Describes G n R) (hi : i < n) (h4 : 4 ≤ i)
    {typeName : CString} {base : Klass} {decls : List FieldDecl} {size : ℕ}
    {hn : (memberNames decls).Nodup}
    (hK : G.klasses[i]? = some (declareEventKlass typeName base decls size hn)) :
    ∃ k b fs, R.getKlass (UInt32.ofNat i) = some k ∧ k.fields = b :: fs ∧
      shape b = infoShape (baseInfo base) ∧ fs.map signature = decls.map declSignature := by
  obtain ⟨k, hk, -, hshape⟩ := h.described i _ hi hK
  have hlt : i < 2 ^ 32 := lt_trans (List.getElem?_eq_some_iff.mp hK).1 G.length_lt
  rw [shapes_of_ge h4 hlt, infos_declareEventKlass, List.map_cons] at hshape
  obtain ⟨b, fs, hfields, hb, hfs⟩ := List.map_eq_cons_iff.mp hshape
  refine ⟨k, b, fs, hk, hfields, hb, ?_⟩
  rw [map_signature_of_shape hfs, List.map_map, List.map_map]
  rfl

/-- **The layout of every declared klass.** -/
theorem Describes.layout {n : ℕ} (h : Describes G n R) (hi : i < n) {typeName : CString}
    {base : Klass} {decls : List FieldDecl} {size : ℕ} {hn : (memberNames decls).Nodup}
    (hbase : base ∈ G.klasses)
    (hK : G.klasses[i]? = some (declareEventKlass typeName base decls size hn)) :
    ∃ k, R.getKlass (UInt32.ofNat i) = some k ∧ Layout base decls (hasBase typeName) k.fields := by
  obtain ⟨k, hk, -, hshape⟩ := h.described i _ hi hK
  refine ⟨k, hk, ?_⟩
  have hroot : ∀ K', base.typeName = K'.typeName → K' = htEventKlass → base = htEventKlass :=
    fun K' hname hK' => Registry.typeName_injOn hbase Registry.htEventKlass_mem (hK' ▸ hname)
  by_cases h4 : i < 4
  · rw [core_getElem? (by omega)] at hK
    interval_cases i
    · obtain ⟨rfl, hname, rfl⟩ := declareEventKlass_inj (Option.some.inj hK).symm
      have hb := hroot _ hname rfl
      obtain ⟨e, rest, hfields, he, hrest⟩ := List.map_eq_cons_iff.mp hshape
      obtain ⟨b, rest', rfl, hb', hnil⟩ := List.map_eq_cons_iff.mp hrest
      obtain rfl := List.map_eq_nil_iff.mp hnil
      have hsig : signature e = (ascii "endianness", .uint8) :=
        congrArg (fun s : Name × Name × FieldTypeId => (s.1, s.2.2)) he
      have hlay : Layout base endiannessInfoEventFields true ([e] ++ [b]) :=
        .appended hb' (by rw [List.map_singleton, hsig]; rfl) hb
      rw [hfields]
      exact hlay
    · cases congrArg Klass.fields (Option.some.inj hK)
    · obtain ⟨rfl, hname, rfl⟩ := declareEventKlass_inj (Option.some.inj hK).symm
      exact .headless (map_signature_of_shape hshape) (hroot _ hname rfl)
    · obtain ⟨rfl, hname, rfl⟩ := declareEventKlass_inj (Option.some.inj hK).symm
      exact .headless (map_signature_of_shape hshape) (hroot _ hname rfl)
  · -- a klass with a fresh identifier is not one of the description klasses
    have hname : ∀ j K', G.klasses[j]? = some K' → j < 4 → typeName ≠ K'.typeName := by
      intro j K' hj hj4 heq
      have := eq_of_typeName_eq G.nodup hK hj heq
      omega
    have hbaseName : hasBase typeName = true := by
      have h2 := hname 2 _ (core_getElem? (by omega)) (by omega)
      have h3 := hname 3 _ (core_getElem? (by omega)) (by omega)
      exact decide_eq_true ⟨h2, h3⟩
    obtain ⟨k', b, fs, hk', hfields, hb, hfs⟩ := h.declared hi (by omega) hK
    obtain rfl : k = k' := Option.some.inj (hk.symm.trans hk')
    rw [hbaseName, hfields]
    exact .declared hb hfs

/-- **Names lead to identifiers**, if the klasses in the register are those at some positions of
a list with distinct names, and have the names that stand there. -/
theorem getKlassId_eq_of_named {Ks : List Klass} (hnodup : (Ks.map Klass.typeName).Nodup)
    {p : ℕ → Prop}
    (hnamed : ∀ i K, p i → Ks[i]? = some K →
      ∃ k, R.getKlass (UInt32.ofNat i) = some k ∧ k.name = K.typeName.bytes)
    (honly : ∀ id k, R.getKlass id = some k → ∃ i, p i ∧ i < Ks.length ∧ id = UInt32.ofNat i)
    (hi : p i) (hK : Ks[i]? = some K) : R.getKlassId P K.typeName.bytes = UInt32.ofNat i := by
  obtain ⟨k, hk, hname⟩ := hnamed i K hi hK
  have huniq : ∀ k' ∈ R.klasses, k'.name = k.name → k' = k := by
    intro k' hk' hname'
    have hget : R.getKlass k'.id = some k' := getKlass_eq_some_iff.mpr ⟨hk', rfl⟩
    obtain ⟨j, hj, hlt, hid⟩ := honly _ _ hget
    have hK' := List.getElem?_eq_getElem hlt
    obtain ⟨k'', hk'', hname''⟩ := hnamed j _ hj hK'
    rw [hid, hk''] at hget
    cases hget
    have hbytes : Ks[j].typeName = K.typeName :=
      CString.bytes_injective (by rw [← hname'', hname', hname])
    obtain rfl := eq_of_typeName_eq hnodup hK' hK hbytes
    exact Option.some.inj (hk''.symm.trans hk)
  rw [← hname, getKlassId_of_unique P (mem_of_getKlass hk) huniq, id_of_getKlass hk]

/-- **The name of a klass leads to its identifier**, once everything is described. -/
theorem Describes.getKlassId_eq (h : Describes G G.klasses.length R) (hK : K ∈ G.klasses) :
    R.getKlassId P K.typeName.bytes = G.idOf K.typeName := by
  obtain ⟨i, -, hi⟩ := Registry.exists_index hK
  have hnamed : ∀ i K, True → G.klasses[i]? = some K →
      ∃ k, R.getKlass (UInt32.ofNat i) = some k ∧ k.name = K.typeName.bytes := by
    intro i K _ hK
    obtain ⟨k, hk, hname, -⟩ := h.described i K (List.getElem?_eq_some_iff.mp hK).1 hK
    exact ⟨k, hk, hname⟩
  have honly : ∀ id k, R.getKlass id = some k →
      ∃ i, True ∧ i < G.klasses.length ∧ id = UInt32.ofNat i := by
    intro id k hk
    by_contra hnot
    -- only the built-in klasses are left, and those have been described as well
    have hnew := h.rest id fun j hj hid => hnot ⟨j, trivial, hj, hid⟩
    obtain ⟨j, hj, hid⟩ := exists_of_getKlass_new (hnew.symm.trans hk)
    have hlen : 9 ≤ G.klasses.length := by simp [Registry.klasses, coreKlasses]
    exact hnot ⟨j, trivial, by omega, hid⟩
  rw [getKlassId_eq_of_named G.nodup hnamed honly trivial hi, Registry.idOf_eq hi]

end HawkTracer.RoundTrip
