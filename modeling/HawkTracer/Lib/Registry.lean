import HawkTracer.Lib.Metadata
import Mathlib.Data.List.Nodup

/-!
# A registry and the events that can be traced with it

The klasses a program registers after `ht_init`, each declared on top of a klass that
is registered too, from fields the stream format has a type for
(`HawkTracer.Lib.Registry`). The identifier of a klass is its position.

An event then consists of two parts that the reader treats differently: the content of
the `HT_Event` at the root of the inheritance chain (`HawkTracer.Lib.Fields.header`),
which comes first in the serialized form, and everything else in the order of the
chain (`HawkTracer.Lib.Fields.payload`).

Facts about registered klasses are proved along the chain
(`HawkTracer.Lib.Registry.chain_induction`), which ends in `HT_Event` because the
fields of a base klass are part of the fields of the derived one.
-/

namespace HawkTracer.Lib

/-! ### Header and payload -/

/-- The content of the `HT_Event` at the root. -/
def Fields.header : (fs : Fields) → fs.Inst → HTEvent
  | .htEvent, e => e
  | .nil, _ => ⟨0, 0, 0⟩
  | .field _ rest, (_, vs) => rest.header vs
  | .struct _ _ _ sub _, (v, _) => sub.header v

/-- The serialized form without the header. -/
def Fields.payload (o : ByteOrder) : (fs : Fields) → fs.Inst → List UInt8
  | .htEvent, _ => []
  | .nil, _ => []
  | .field f rest, (v, vs) => f.type.encode o f.size v ++ rest.payload o vs
  | .struct _ _ _ sub rest, (v, vs) => sub.payload o v ++ rest.payload o vs

/-- The number of nested structs down to the root. -/
def Fields.depth : Fields → ℕ
  | .htEvent => 0
  | .nil => 0
  | .field _ rest => rest.depth
  | .struct _ _ _ sub rest => max (sub.depth + 1) rest.depth

/-- A scalar that is not a `NULL` string. -/
def ScalarType.NullFree : (t : ScalarType) → (n : ℕ) → t.Val n → Prop
  | .string, _, some _ => True
  | .string, _, none => False
  | .integer _, _, _ => True
  | .pointer, _, _ => True
  | .double, _, _ => True

/-- An object none of whose strings is `NULL`. -/
def Fields.NullFree : (fs : Fields) → fs.Inst → Prop
  | .htEvent, _ => True
  | .nil, _ => True
  | .field f rest, (v, vs) => f.type.NullFree f.size v ∧ rest.NullFree vs
  | .struct _ _ _ sub rest, (v, vs) => sub.NullFree v ∧ rest.NullFree vs

theorem payload_scalarFields (o : ByteOrder) (fields : List FieldDecl)
    (v : (scalarFields fields).Inst) :
    (scalarFields fields).payload o v = (scalarFields fields).encode o v := by
  induction fields with
  | nil => rfl
  | cons f fs ih =>
    obtain ⟨v, vs⟩ := v
    exact congrArg _ (ih vs)

theorem depth_scalarFields (fields : List FieldDecl) : (scalarFields fields).depth = 0 := by
  induction fields with
  | nil => rfl
  | cons f fs ih => exact ih

@[simp] theorem depth_declareEventKlass (typeName : CString) (base : Klass)
    (fields : List FieldDecl) (size : ℕ) (h : (memberNames fields).Nodup) :
    (declareEventKlass typeName base fields size h).fields.depth = base.fields.depth + 1 := by
  simp [declareEventKlass, Fields.depth, depth_scalarFields]

/-- What `serialize` writes for an event into a buffer of `get_size` bytes. -/
def Instance.output (o : ByteOrder) (e : Instance) : List UInt8 :=
  (e.klass.fields.serialize o e.val (List.replicate e.getSize 0)).2

theorem Instance.output_eq (o : ByteOrder) {e : Instance} (h : e.klass.fields.BaseFirst) :
    e.output o = e.encode o := by
  have hroom : e.klass.fields.getSize e.val ≤ (List.replicate e.getSize (0 : UInt8)).length := by
    rw [List.length_replicate]
    exact le_refl _
  rw [Instance.output, Fields.serialize_eq o h e.val hroom, List.drop_eq_nil_of_le, List.append_nil,
    Instance.encode]
  rw [List.length_replicate]
  exact le_refl _

/-! ### Klasses the format supports -/

/-- A field the reader has a type for: an integer of 1, 2, 4 or 8 bytes, or a
string. -/
def FieldDecl.Supported (f : FieldDecl) : Prop :=
  match f.type with
  | .integer _ => f.size = 1 ∨ f.size = 2 ∨ f.size = 4 ∨ f.size = 8
  | .string => True
  | .pointer => False
  | .double => False

instance (f : FieldDecl) : Decidable f.Supported := by
  unfold FieldDecl.Supported
  cases f.type <;> infer_instance

/-- A klass declared on top of a klass of the registry. -/
def Klass.DeclaredIn (registry : List Klass) (K : Klass) : Prop :=
  ∃ base ∈ registry, ∃ typeName fields size h,
    (∀ f ∈ fields, f.Supported) ∧ K = declareEventKlass typeName base fields size h

/-- **The event-klass registry of a program**: what `ht_init` registers, and after it
the klasses of the program, whose names the linker keeps distinct. -/
structure Registry where
  user : List Klass
  declared : ∀ K ∈ user, K.DeclaredIn (coreKlasses ++ user)
  nodup : ((coreKlasses ++ user).map Klass.typeName).Nodup
  fits : ∀ K ∈ user, K.FitsStaging
  length_lt : (coreKlasses ++ user).length < 2 ^ 32

/-- The descriptions of the core klasses fit the staging buffer. -/
theorem fitsStaging_of_core {K : Klass} (hK : K ∈ coreKlasses) : K.FitsStaging := by
  simp only [coreKlasses, List.mem_cons, List.not_mem_nil, or_false] at hK
  rcases hK with rfl | rfl | rfl | rfl | rfl | rfl | rfl | rfl | rfl <;>
    exact ⟨by decide, by decide⟩

theorem fitsStaging_of_mem {user : List Klass} (hfits : ∀ K ∈ user, K.FitsStaging) {K : Klass}
    (hK : K ∈ coreKlasses ++ user) : K.FitsStaging := by
  rcases List.mem_append.mp hK with hcore | huser
  · exact fitsStaging_of_core hcore
  · exact hfits K huser

/-! ### Klasses by their position -/

section Position

variable {Ks : List Klass}

/-- A name stands at one position. -/
theorem eq_of_typeName_eq (hnodup : (Ks.map Klass.typeName).Nodup) {i j : ℕ} {K K' : Klass}
    (hi : Ks[i]? = some K) (hj : Ks[j]? = some K') (h : K.typeName = K'.typeName) : i = j := by
  have hi' : (Ks.map Klass.typeName)[i]? = some K.typeName := by
    rw [List.getElem?_map, hi, Option.map_some]
  have hj' : (Ks.map Klass.typeName)[j]? = some K.typeName := by
    rw [List.getElem?_map, hj, Option.map_some, h]
  have hlt := (List.getElem?_eq_some_iff.mp hi').1
  exact (List.getElem?_inj hlt hnodup).mp (hi'.trans hj'.symm)

theorem idxOf_typeName (hnodup : (Ks.map Klass.typeName).Nodup) {i : ℕ} {K : Klass}
    (h : Ks[i]? = some K) : (Ks.map Klass.typeName).idxOf K.typeName = i := by
  obtain ⟨hi, rfl⟩ := List.getElem?_eq_some_iff.mp h
  have hmap : i < (Ks.map Klass.typeName).length := by simpa using hi
  have hget : (Ks.map Klass.typeName)[i] = Ks[i].typeName := by simp
  rw [← hget, List.Nodup.idxOf_getElem hnodup i hmap]

/-- What `ht_init` registers comes first. -/
theorem core_append_getElem? {user : List Klass} {i : ℕ} (hi : i < 9) :
    (coreKlasses ++ user)[i]? = coreKlasses[i]? :=
  List.getElem?_append_left (by simpa [coreKlasses] using hi)

end Position

namespace Registry

variable (G : Registry)

/-- The klasses in the order of their identifiers. -/
def klasses : List Klass := coreKlasses ++ G.user

/-- The identifier of the klass of the given name: its position. -/
def idOf (typeName : CString) : UInt32 :=
  UInt32.ofNat ((G.klasses.map Klass.typeName).idxOf typeName)

/-- An event that can be traced: an object of a registered klass, with the identifier of
that klass in its header. The three klasses that steer the reader are left out. -/
structure Traced extends Instance where
  mem : klass ∈ G.klasses
  klassId_eq : (klass.fields.header val).klassId = G.idOf klass.typeName
  ordinary : G.idOf klass.typeName ∉ ([0, 2, 3] : List UInt32)

variable {G} {K : Klass}

theorem core_mem (h : K ∈ coreKlasses) : K ∈ G.klasses :=
  List.mem_append_left _ h

theorem htEventKlass_mem : htEventKlass ∈ G.klasses := core_mem (by simp [coreKlasses])

/-- Every klass but the root is declared on top of a registered one. -/
theorem declaredIn_of_mem (h : K ∈ G.klasses) : K = htEventKlass ∨ K.DeclaredIn G.klasses := by
  rcases List.mem_append.mp h with hcore | huser
  · have hroot : htEventKlass ∈ G.klasses := htEventKlass_mem
    have hcall : callstackBaseEventKlass ∈ G.klasses := core_mem (by simp [coreKlasses])
    simp only [coreKlasses, List.mem_cons, List.not_mem_nil, or_false] at hcore
    rcases hcore with rfl | rfl | rfl | rfl | rfl | rfl | rfl | rfl | rfl
    case inr.inl => exact .inl rfl
    -- the base is the root, or that of the callstack events
    all_goals first
      | exact .inr ⟨_, hroot, _, _, _, _, by decide, rfl⟩
      | exact .inr ⟨_, hcall, _, _, _, _, by decide, rfl⟩
  · exact .inr (G.declared K huser)

/-- **Induction along the inheritance chain** of a registered klass. -/
theorem chain_induction {motive : Klass → Prop} (root : motive htEventKlass)
    (derive : ∀ (typeName : CString) (base : Klass) (fields : List FieldDecl) (size : ℕ)
      (h : (memberNames fields).Nodup), declareEventKlass typeName base fields size h ∈ G.klasses →
      base ∈ G.klasses → (∀ f ∈ fields, f.Supported) → motive base →
      motive (declareEventKlass typeName base fields size h)) (hK : K ∈ G.klasses) : motive K := by
  -- the base klass has a smaller depth
  induction hd : K.fields.depth using Nat.strong_induction_on generalizing K with
  | _ d ih =>
    rcases declaredIn_of_mem hK with rfl | ⟨base, hbase, typeName, fields, size, h, hsup, rfl⟩
    · exact root
    · rw [depth_declareEventKlass] at hd
      exact derive typeName base fields size h hK hbase hsup (ih _ (by omega) hbase rfl)

theorem nodup_typeName : (G.klasses.map Klass.typeName).Nodup := G.nodup

theorem typeName_injOn {K' : Klass} (hK : K ∈ G.klasses) (hK' : K' ∈ G.klasses)
    (h : K.typeName = K'.typeName) : K = K' :=
  List.inj_on_of_nodup_map nodup_typeName hK hK' h

theorem idxOf_lt (hK : K ∈ G.klasses) :
    (G.klasses.map Klass.typeName).idxOf K.typeName < G.klasses.length := by
  have h : K.typeName ∈ G.klasses.map Klass.typeName := List.mem_map_of_mem hK
  simpa using List.idxOf_lt_length_iff.mpr h

/-- The identifier of a klass is its position in the registry. -/
theorem idOf_eq {i : ℕ} (h : G.klasses[i]? = some K) : G.idOf K.typeName = UInt32.ofNat i :=
  congrArg UInt32.ofNat (idxOf_typeName G.nodup h)

theorem idOf_injOn {K' : Klass} (hK : K ∈ G.klasses) (hK' : K' ∈ G.klasses)
    (h : G.idOf K.typeName = G.idOf K'.typeName) : K = K' := by
  have hlt := lt_trans (idxOf_lt hK) G.length_lt
  have hlt' := lt_trans (idxOf_lt hK') G.length_lt
  have h' := congrArg UInt32.toNat h
  rw [idOf, idOf, UInt32.toNat_ofNat_of_lt' hlt, UInt32.toNat_ofNat_of_lt' hlt'] at h'
  exact typeName_injOn hK hK' ((List.idxOf_inj (List.mem_map_of_mem hK)).mp h')

/-- A klass of the program has an identifier behind those of the library. -/
theorem idOf_user (hK : K ∈ G.user) : G.idOf K.typeName ∉ ([0, 2, 3] : List UInt32) := by
  obtain ⟨j, hj⟩ := List.mem_iff_getElem?.mp hK
  have hget : G.klasses[9 + j]? = some K := by
    rw [klasses, List.getElem?_append_right (Nat.le_add_right 9 j)]
    simpa [coreKlasses] using hj
  have hlt : 9 + j < 2 ^ 32 := lt_trans (List.getElem?_eq_some_iff.mp hget).1 G.length_lt
  have htoNat : (G.idOf K.typeName).toNat = 9 + j := by
    rw [idOf_eq hget, UInt32.toNat_ofNat_of_lt' hlt]
  intro hmem
  simp only [List.mem_cons, List.not_mem_nil, or_false] at hmem
  rcases hmem with h | h | h <;> rw [h] at htoNat <;> simp at htoNat <;> omega

/-- An event of a klass of the program. -/
def Traced.ofUser (G : Registry) (e : Instance) (hmem : e.klass ∈ G.user)
    (hid : (e.klass.fields.header e.val).klassId = G.idOf e.klass.typeName) : G.Traced :=
  ⟨e, List.mem_append_right _ hmem, hid, idOf_user hmem⟩

theorem exists_index (hK : K ∈ G.klasses) : ∃ i, i < 2 ^ 32 ∧ G.klasses[i]? = some K := by
  obtain ⟨i, hi, rfl⟩ := List.mem_iff_getElem.mp hK
  exact ⟨i, lt_trans hi G.length_lt, List.getElem?_eq_getElem hi⟩

theorem fits_of_mem (hK : K ∈ G.klasses) : K.FitsStaging :=
  fitsStaging_of_mem G.fits hK

/-- Every registered klass is laid out base first. -/
theorem baseFirst_of_mem (hK : K ∈ G.klasses) : K.fields.BaseFirst :=
  chain_induction (motive := fun K => K.fields.BaseFirst) trivial
    (fun _ _ fields _ _ _ _ _ ih => ⟨ih, scalars_scalarFields fields⟩) hK

/-- **The header comes first**, then the payload. -/
theorem encode_eq (o : ByteOrder) (hK : K ∈ G.klasses) (v : K.fields.Inst) :
    K.fields.encode o v = (K.fields.header v).encode o ++ K.fields.payload o v := by
  revert v
  refine chain_induction (motive := fun K => ∀ v : K.fields.Inst,
    K.fields.encode o v = (K.fields.header v).encode o ++ K.fields.payload o v) ?_ ?_ hK
  · intro v
    exact (List.append_nil _).symm
  · rintro typeName base fields size h - - - ih ⟨v, vs⟩
    change base.fields.encode o v ++ (scalarFields fields).encode o vs =
      (base.fields.header v).encode o ++
        (base.fields.payload o v ++ (scalarFields fields).payload o vs)
    rw [ih v, payload_scalarFields, List.append_assoc]

end Registry

end HawkTracer.Lib
