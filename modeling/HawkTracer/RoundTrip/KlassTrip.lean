import HawkTracer.RoundTrip.Stream

/-!
# The trip of the klass descriptions

What a reader knows about the klasses of a program once it has read the metadata. The
klasses of a `HawkTracer.RoundTrip.KlassTable` are more general than those of a
`HawkTracer.Lib.Registry`, since nothing of them is ever read back: a field may be a
pointer, and a struct of an earlier klass may stand anywhere in the list of fields, not
only at its head.

`HawkTracer.RoundTrip.Knows` is the invariant over the number of klasses described so
far. It carries what the resolution of a struct type needs: the names of the register are
those of the library, so that the name of an earlier klass leads to its identifier
(`HawkTracer.RoundTrip.Knows.getKlassId_eq`) at the moment the field is described.
`HawkTracer.RoundTrip.descriptions_survive` is the result: behind the four klasses that
both sides hard-code, the register holds the library's klasses with their field lists,
and it holds nothing else.
-/

namespace HawkTracer.RoundTrip

open HawkTracer.Lib HawkTracer.Parser KlassRegister

/-! ### Klass tables -/

/-- A field that can be described behind the given klasses: an integer of 1, 2, 4 or 8
bytes, a string, a pointer, or a struct of one of those klasses. -/
def Describable (earlier : List Klass) (info : FieldInfo) : Prop :=
  match info.dataType with
  | .integer => info.size = 1 ∨ info.size = 2 ∨ info.size = 4 ∨ info.size = 8
  | .string => True
  | .pointer => True
  | .struct => info.fieldType ∈ earlier.map Klass.typeName
  | .float => False
  | .double => False

instance (earlier : List Klass) (info : FieldInfo) : Decidable (Describable earlier info) := by
  unfold Describable
  cases info.dataType <;> infer_instance

theorem readable_of_describable {earlier : List Klass} {info : FieldInfo}
    (h : Describable earlier info) : Readable info := by
  obtain ⟨fieldType, fieldName, size, isSigned, dataType⟩ := info
  cases dataType with
  | integer =>
    have hsize : size = 1 ∨ size = 2 ∨ size = 4 ∨ size = 8 := h
    rcases hsize with rfl | rfl | rfl | rfl <;> cases isSigned <;> rfl
  | string | pointer | struct => rfl
  | float | double => exact h.elim

/-- **The klasses of a program**: what `ht_init` registers, and after it klasses with
distinct names, each with fields that can be described behind the klasses before it. -/
structure KlassTable where
  user : List Klass
  describable : ∀ n K, user[n]? = some K →
    ∀ info ∈ K.fields.infos, Describable (coreKlasses ++ user.take n) info
  nodup : ((coreKlasses ++ user).map Klass.typeName).Nodup
  fits : ∀ K ∈ user, K.FitsStaging
  length_lt : (coreKlasses ++ user).length < 2 ^ 32

namespace KlassTable

variable (T : KlassTable)

/-- The klasses in the order of their identifiers. -/
def klasses : List Klass := coreKlasses ++ T.user

/-- The identifier of the klass of the given name: its position. -/
def idOf (typeName : CString) : UInt32 :=
  UInt32.ofNat ((T.klasses.map Klass.typeName).idxOf typeName)

/-- **The field the reader should know** for a field of the library: its names, the type
given by data type, size and signedness, and for a struct the klass of its type. -/
def fieldOf (info : FieldInfo) : EventKlassField where
  name := info.fieldName.bytes
  typeName := info.fieldType.bytes
  typeId := infoTypeId info
  klass := if info.dataType = .struct then some (T.idOf info.fieldType) else none

variable {T}

theorem lt_of_getElem? {i : ℕ} {K : Klass} (h : T.klasses[i]? = some K) : i < 2 ^ 32 :=
  lt_trans (List.getElem?_eq_some_iff.mp h).1 T.length_lt

theorem idOf_eq {i : ℕ} {K : Klass} (h : T.klasses[i]? = some K) :
    T.idOf K.typeName = UInt32.ofNat i :=
  congrArg UInt32.ofNat (idxOf_typeName T.nodup h)

theorem core_getElem? {i : ℕ} (hi : i < 9) : T.klasses[i]? = coreKlasses[i]? :=
  core_append_getElem? hi

theorem fits_of_mem {K : Klass} (hK : K ∈ T.klasses) : K.FitsStaging :=
  fitsStaging_of_mem T.fits hK

/-- Behind the root, every field can be described when its turn comes. -/
theorem describable_of_getElem? {i : ℕ} {K : Klass} (h : T.klasses[i]? = some K) (hi : 4 ≤ i) :
    ∀ info ∈ K.fields.infos, Describable (T.klasses.take i) info := by
  by_cases h9 : i < 9
  · have htake : T.klasses.take i = coreKlasses.take i := by
      rw [klasses, List.take_append_of_le_length (by simp [coreKlasses]; omega)]
    rw [core_getElem? h9] at h
    rw [htake]
    interval_cases i <;> cases h <;> decide
  · have hlen : coreKlasses.length = 9 := rfl
    rw [klasses, List.getElem?_append_right (by omega)] at h
    rw [klasses, List.take_append, List.take_of_length_le (by omega)]
    exact T.describable _ K h

end KlassTable

/-! ### What the register knows -/

variable {P : Platform} {T : KlassTable} {R : KlassRegister} {n : ℕ}

/-- The identifiers in the register once `n` klasses are described: those of these
klasses, and the four that are built in. -/
def Present (n i : ℕ) : Prop := i < n ∨ i < 4

/-- **The register after the first `n` klasses** knows them by the names the library has
for them, and knows no others. -/
structure Knows (T : KlassTable) (n : ℕ) (R : KlassRegister) : Prop where
  named : ∀ i K, Present n i → T.klasses[i]? = some K →
    ∃ k, R.getKlass (UInt32.ofNat i) = some k ∧ k.name = K.typeName.bytes
  only : ∀ id k, R.getKlass id = some k →
    ∃ i, Present n i ∧ i < T.klasses.length ∧ id = UInt32.ofNat i

theorem knows_new (T : KlassTable) : Knows T 0 .new := by
  constructor
  · rintro i K (hi | hi) hK
    · exact absurd hi (Nat.not_lt_zero _)
    · rw [KlassTable.core_getElem? (by omega)] at hK
      interval_cases i <;> cases hK <;> exact ⟨_, rfl, rfl⟩
  · intro id k hk
    obtain ⟨i, hi, hid⟩ := exists_of_getKlass_new hk
    have hlen : 9 ≤ T.klasses.length := by simp [KlassTable.klasses, coreKlasses]
    exact ⟨i, .inr hi, by omega, hid⟩

section

variable (h : Knows T n R)

include h

/-- **The name of a klass that is present leads to its identifier.** -/
theorem Knows.getKlassId_eq {i : ℕ} (hi : Present n i) {K : Klass} (hK : T.klasses[i]? = some K) :
    R.getKlassId P K.typeName.bytes = UInt32.ofNat i :=
  getKlassId_eq_of_named T.nodup h.named h.only hi hK

/-- A klass whose turn has not come is not present. -/
theorem Knows.getKlass_eq_none {i : ℕ} (hi : ¬ Present n i) (hlt : i < 2 ^ 32) :
    R.getKlass (UInt32.ofNat i) = none := by
  refine Option.eq_none_iff_forall_ne_some.mpr fun k hk => ?_
  obtain ⟨j, hj, hjlt, hid⟩ := h.only _ _ hk
  obtain rfl := ofNat_inj hlt (lt_trans hjlt T.length_lt) hid
  exact hi hj

/-- **A described field is the library's field**, if a struct type is present. -/
theorem Knows.describedField_eq {earlier : List Klass} {info : FieldInfo}
    (hinfo : Describable earlier info)
    (hearlier : ∀ K ∈ earlier, ∃ i, Present n i ∧ T.klasses[i]? = some K) :
    R.describedField P info.fieldName.bytes info.fieldType.bytes (infoTypeId info)
      info.extDataType = T.fieldOf info := by
  obtain ⟨fieldType, fieldName, size, isSigned, dataType⟩ := info
  cases dataType with
  | struct =>
    obtain ⟨K, hmem, hname⟩ := List.mem_map.mp (show fieldType ∈ earlier.map _ from hinfo)
    obtain ⟨i, hi, hK⟩ := hearlier K hmem
    obtain ⟨k, hk, -⟩ := h.named i K hi hK
    cases hname
    have hklass : (R.getKlass (R.getKlassId P K.typeName.bytes)).map EventKlass.id =
        some (T.idOf K.typeName) := by
      rw [h.getKlassId_eq hi hK, hk, Option.map_some, id_of_getKlass hk, KlassTable.idOf_eq hK]
    exact congrArg (EventKlassField.mk _ _ _) hklass
  | integer => cases isSigned <;> rfl
  | string | pointer => rfl
  | float | double => exact hinfo.elim

/-! ### Describing keeps it -/

theorem Knows.addKlass {K : Klass} (hK : T.klasses[n]? = some K) :
    Knows T (n + 1) (R.addKlass (.new K.typeName.bytes (UInt32.ofNat n))) := by
  have hn := KlassTable.lt_of_getElem? hK
  constructor
  · intro i K' hi hK'
    rw [getKlass_addKlass]
    by_cases hold : Present n i
    · obtain ⟨k, hk, hname⟩ := h.named i K' hold hK'
      exact ⟨k, by rw [hk, Option.some_or], hname⟩
    · -- the one identifier that is new
      have heq : i = n := by
        unfold Present at hi hold
        omega
      subst heq
      cases hK.symm.trans hK'
      exact ⟨_, by rw [h.getKlass_eq_none hold hn, Option.none_or]; exact if_pos rfl, rfl⟩
  · intro id k hk
    rw [getKlass_addKlass] at hk
    rcases Option.or_eq_some_iff.mp hk with hold | ⟨-, hnew⟩
    · obtain ⟨i, hi, hlt, hid⟩ := h.only _ _ hold
      exact ⟨i, hi.imp_left Nat.lt_succ_of_lt, hlt, hid⟩
    · have hid : UInt32.ofNat n = id := (Option.ite_none_right_eq_some.mp hnew).1
      exact ⟨n, .inl (Nat.lt_succ_self n), (List.getElem?_eq_some_iff.mp hK).1, hid.symm⟩

theorem Knows.describeField (i : ℕ) (info : FieldInfo) : Knows T n (describeField P i R info) := by
  rw [RoundTrip.describeField]
  split
  · exact h
  · constructor
    · intro j K hj hK
      obtain ⟨k, hk, hname⟩ := h.named j K hj hK
      refine ⟨_, by rw [getKlass_updateKlass, hk, Option.map_some], ?_⟩
      split <;> exact hname
    · intro id k hk
      rw [getKlass_updateKlass] at hk
      obtain ⟨k', hk', -⟩ := Option.map_eq_some_iff.mp hk
      exact h.only id k' hk'

theorem Knows.foldl_describeField (i : ℕ) (infos : List FieldInfo) :
    Knows T n (infos.foldl (RoundTrip.describeField P i) R) := by
  induction infos generalizing R with
  | nil => exact h
  | cons info infos ih => exact ih (h.describeField i info)

/-- **The field list grows to the library's**, one description after another. -/
theorem fields_foldl_describeField {i : ℕ} (hi : isWellKnownKlass (UInt32.ofNat i) = false)
    {earlier : List Klass} (hearlier : ∀ K ∈ earlier, ∃ j, Present n j ∧ T.klasses[j]? = some K)
    {infos : List FieldInfo} (hinfos : ∀ info ∈ infos, Describable earlier info) {k : EventKlass}
    (hk : R.getKlass (UInt32.ofNat i) = some k) (hnodup : (k.fields.map EventKlassField.name ++
      infos.map fun info => info.fieldName.bytes).Nodup) :
    ∃ k', (infos.foldl (describeField P i) R).getKlass (UInt32.ofNat i) = some k' ∧
      k'.name = k.name ∧ k'.fields = k.fields ++ infos.map T.fieldOf := by
  induction infos generalizing R k with
  | nil => exact ⟨k, hk, rfl, (List.append_nil _).symm⟩
  | cons info infos ih =>
    have hfield := h.describedField_eq (P := P) (hinfos info List.mem_cons_self) hearlier
    have hfresh : (T.fieldOf info).name ∉ k.fields.map EventKlassField.name := by
      intro hmem
      exact (List.nodup_append.mp hnodup).2.2 _ hmem _ List.mem_cons_self rfl
    have hadd : (k.addField (T.fieldOf info)).fields = k.fields ++ [T.fieldOf info] := by
      rw [EventKlass.fields_addField, insertNew_of_not_mem hfresh]
    have hstep : (describeField P i R info).getKlass (UInt32.ofNat i) =
        some (k.addField (T.fieldOf info)) := by
      rw [describeField, if_neg (by rw [hi]; decide), hfield]
      exact getKlass_updateKlass_self hk _
    obtain ⟨k', hk', hname, hfields⟩ := ih (h.describeField i info)
      (fun info' hmem => hinfos info' (List.mem_cons_of_mem _ hmem)) hstep (by
        rw [hadd, List.map_append, List.append_assoc]
        exact hnodup)
    refine ⟨k', hk', by simpa using hname, ?_⟩
    rw [hfields, hadd, List.append_assoc]
    rfl

end

/-- **The register after the first `n` klasses**, with the field lists of those behind
the built-in ones. -/
structure Holds (T : KlassTable) (n : ℕ) (R : KlassRegister) : Prop extends Knows T n R where
  fields : ∀ i K k, 4 ≤ i → i < n → T.klasses[i]? = some K →
    R.getKlass (UInt32.ofNat i) = some k → k.fields = K.fields.infos.map T.fieldOf

theorem holds_new (T : KlassTable) : Holds T 0 .new :=
  ⟨knows_new T, fun _ _ _ _ h => absurd h (Nat.not_lt_zero _)⟩

/-- **Describing one more klass keeps the invariant.** -/
theorem Holds.step (h : Holds T n R) {K : Klass} (hK : T.klasses[n]? = some K) :
    Holds T (n + 1) (describeKlass P n R K) := by
  have hn := KlassTable.lt_of_getElem? hK
  have hadd := h.toKnows.addKlass hK
  refine ⟨hadd.foldl_describeField n K.fields.infos, fun i K' k' h4 hi hK' hk' => ?_⟩
  rcases Nat.lt_succ_iff_lt_or_eq.mp hi with hlt | rfl
  · have hne : UInt32.ofNat i ≠ UInt32.ofNat n := fun heq =>
      absurd (ofNat_inj (by omega) hn heq) (by omega)
    rw [getKlass_describeKlass_of_ne hne] at hk'
    exact h.fields i K' k' h4 hlt hK' hk'
  · cases hK.symm.trans hK'
    -- the klass is new, so it starts without fields
    have hnone : R.getKlass (UInt32.ofNat i) = none :=
      h.getKlass_eq_none (fun hi => by unfold Present at hi; omega) hn
    have hnew : (R.addKlass (.new K.typeName.bytes (UInt32.ofNat i))).getKlass (UInt32.ofNat i) =
        some (.new K.typeName.bytes (UInt32.ofNat i)) := by
      rw [getKlass_addKlass, hnone, Option.none_or]
      exact if_pos rfl
    have hwell : isWellKnownKlass (UInt32.ofNat i) = false := by
      rw [isWellKnownKlass_ofNat hn, decide_eq_false_iff_not]
      omega
    have hearlier : ∀ K' ∈ T.klasses.take i, ∃ j, Present (i + 1) j ∧ T.klasses[j]? = some K' := by
      intro K' hmem
      obtain ⟨j, hj, rfl⟩ := List.mem_take_iff_getElem.mp hmem
      exact ⟨j, .inl (by omega), List.getElem?_eq_getElem (by omega)⟩
    have hnodup : (K.fields.infos.map fun info => info.fieldName.bytes).Nodup := by
      have hmap := K.nodup.map CString.bytes_injective
      rwa [List.map_map] at hmap
    obtain ⟨k, hk, -, hfields⟩ := fields_foldl_describeField (P := P) hadd hwell hearlier
      (KlassTable.describable_of_getElem? hK h4) hnew hnodup
    cases hk.symm.trans hk'
    exact hfields

/-! ### Reading the metadata -/

variable (P)

/-- The register once a table has been described. -/
def tableRegister (T : KlassTable) : KlassRegister := describeFrom P 0 .new T.klasses

theorem holds_tableRegister (T : KlassTable) : Holds T T.klasses.length (tableRegister P T) := by
  have h : Holds T (0 + T.klasses.length) (describeFrom P 0 .new T.klasses) :=
    describeFrom_induction (fun _ _ _ hK h => h.step hK) (holds_new T) rfl
  rwa [Nat.zero_add] at h

variable (flat : Bool) (depth : ℕ)

/-- The content of an event derived from `HT_Event`: nothing is read for `base`. -/
theorem readsAs_header_scalars {id : UInt32} {k : EventKlass} (hk : R.getKlass id = some k)
    {b : EventKlassField} {fs : List EventKlassField} (hfields : k.fields = b :: fs)
    (hstruct : b.typeId = .struct) (hb : b.isHeader = true) {decls : List FieldDecl}
    {v : (scalarFields decls).Inst} {xs : List FieldType} (hxs : ShowsScalars decls v xs)
    (hsig : fs.map signature = decls.map declSignature) (hsup : ∀ d ∈ decls, d.Supported)
    {hdr : Option Event} (hhdr : flat = false → hdr ≠ none) :
    ∃ r, ReadsAs P R flat (depth + 1) id hdr (fun o => (scalarFields decls).encode o v) r := by
  obtain ⟨e₁, hdr₁, hread, -⟩ := readField_header (P := P) (R := R) hstruct hb hhdr (.new (some id))
  have hreads : ReadsAs P R flat (depth + 1) id hdr
      (fun o => [] ++ (scalarFields decls).encode o v) (e₁.setAll P (fs.zip xs), hdr₁) :=
    readsAs_level hk hfields hsig hsup hxs fun host o rest => hread _ _ rest
  exact ⟨_, hreads⟩

/-- **The system information can be read** once its klass has been described. -/
theorem delivers_systemInfoEvent (hW : R.BuiltIn) (hR : Holds T T.klasses.length R) (H : Host) :
    ∃ d, Delivers P flat (depth + 1) R R (fun o => (systemInfoEvent H).encode o) d := by
  have hlen : 9 ≤ T.klasses.length := by simp [KlassTable.klasses, coreKlasses]
  have hK : T.klasses[8]? = some systemInfoEventKlass := KlassTable.core_getElem? (by decide)
  obtain ⟨k, hk, -⟩ := hR.named 8 _ (.inl (by omega)) hK
  have hfields := hR.fields 8 _ k (by decide) (by omega) hK hk
  let decls : List FieldDecl := [integerField "uint8_t" false 1 "version_major",
    integerField "uint8_t" false 1 "version_minor", integerField "uint8_t" false 1 "version_patch"]
  let v : (scalarFields decls).Inst :=
    (H.versionMajor.toBitVec, H.versionMinor.toBitVec, H.versionPatch.toBitVec, ())
  have hxs : ShowsScalars decls v [.num .uint8 H.versionMajor.toNat,
      .num .uint8 H.versionMinor.toNat, .num .uint8 H.versionPatch.toNat] :=
    ⟨_, _, rfl, rfl, _, _, rfl, rfl, _, _, rfl, rfl, rfl⟩
  let h : HTEvent := ⟨8, 0, 0⟩
  obtain ⟨r, hr⟩ := readsAs_header_scalars P flat depth hk hfields rfl rfl hxs rfl (by decide)
    (passedHeader_ne_none P flat R h)
  exact ⟨_, (delivers_ordinary (h := h) hW hk (by decide) hr).1⟩

theorem builtIn_tableRegister (T : KlassTable) : (tableRegister P T).BuiltIn := by
  have hstep : ∀ n R K, T.klasses[n]? = some K → R.BuiltIn → (describeKlass P n R K).BuiltIn :=
    fun n _ K _ hR => builtIn_describeKlass hR n K
  exact describeFrom_induction (I := fun _ R => R.BuiltIn) hstep builtIn_new (n := 0) rfl

/-- **Reading the metadata of a table** ends at the end of the stream with the register
that the descriptions build. -/
theorem readEvents_metadata (host : ByteOrder) (H : Host) (stamps : ℕ → Stamp) (T : KlassTable) :
    ∃ ds, readEvents host P flat (depth + 1)
        ((pushMetadata H stamps true T.klasses).1.flatten : FileStream) =
      (⟨[], tableRegister P T, endiannessCode H.order, ds⟩, .error) := by
  have hreadable : ∀ j K, T.klasses[j]? = some K →
      isWellKnownKlass (UInt32.ofNat (0 + j)) = false →
      ∀ info ∈ K.fields.infos, Readable info := by
    intro j K hj hw info hinfo
    by_cases h4 : 4 ≤ j
    · exact readable_of_describable (KlassTable.describable_of_getElem? hj h4 info hinfo)
    · rw [Nat.zero_add, isWellKnownKlass_ofNat (by omega), decide_eq_false_iff_not] at hw
      have hj0 : j = 0 := by omega
      subst hj0
      rw [KlassTable.core_getElem? (by decide)] at hj
      cases hj
      have hall : ∀ info ∈ endiannessInfoEventKlass.fields.infos,
          Describable [htEventKlass] info := by decide
      exact readable_of_describable (hall info hinfo)
  obtain ⟨ds, hds⟩ := deliversAll_metadata_of P flat depth H stamps hreadable
    (delivers_systemInfoEvent P flat depth (builtIn_tableRegister P T) (holds_tableRegister P T) H)
  refine ⟨endiannessDelivery P flat H.order :: ds, ?_⟩
  rw [flatten_pushMetadata H stamps fun K hK => KlassTable.fits_of_mem hK]
  have hrounds := rounds_endianness_cons P flat depth (H := H) hds host H.order []
  rw [List.append_nil] at hrounds
  refine readEvents_of_rounds P flat depth (builtIn_tableRegister P T) ?_ hrounds
  exact length_le_length_flatMap fun e he => encode_ne_nil_of_mem_metadataEvents _ he

/-- **Klass descriptions survive the trip.** A reader given the metadata of a table, on a
host of either byte order and in either mode, reads it to the end. Its register then
holds every klass of the table under its identifier and with its name, with the
library's field list behind the four klasses that are built in, and no other klass. -/
theorem descriptions_survive (P : Platform) (host : ByteOrder) (H : Host) (stamps : ℕ → Stamp)
    (flat : Bool) (depth : ℕ) (T : KlassTable) :
    ∃ R ds, readEvents host P flat (depth + 1)
        ((pushMetadata H stamps true T.klasses).1.flatten : FileStream) =
        (⟨[], R, endiannessCode H.order, ds⟩, .error) ∧
      (∀ i K, T.klasses[i]? = some K → ∃ k, R.getKlass (UInt32.ofNat i) = some k ∧
        k.id = UInt32.ofNat i ∧ k.name = K.typeName.bytes ∧
        (4 ≤ i → k.fields = K.fields.infos.map T.fieldOf)) ∧
      ∀ id k, R.getKlass id = some k → ∃ i < T.klasses.length, id = UInt32.ofNat i := by
  obtain ⟨ds, hread⟩ := readEvents_metadata P flat depth host H stamps T
  have hR := holds_tableRegister P T
  refine ⟨_, ds, hread, fun i K hK => ?_, fun id k hk => ?_⟩
  · have hi := (List.getElem?_eq_some_iff.mp hK).1
    obtain ⟨k, hk, hname⟩ := hR.named i K (.inl hi) hK
    exact ⟨k, hk, id_of_getKlass hk, hname, fun h4 => hR.fields i K k h4 hi hK hk⟩
  · obtain ⟨i, -, hlt, hid⟩ := hR.only id k hk
    exact ⟨i, hlt, hid⟩

/-- The fields of a klass with a pointer. -/
def pointFields : Fields :=
  .struct (cstr "HT_Event") (cstr "base") 24 .htEvent
    (scalarFields [⟨.pointer, cstr "void*", cstr "owner", 8⟩])

/-- A table with that klass, and one that embeds it behind an integer. -/
def mixedTable : KlassTable where
  user :=
    [⟨cstr "PointEvent", pointFields, 32, by decide⟩,
     ⟨cstr "PathEvent", .field (integerField "int16_t" true 2 "steps")
        (.struct (cstr "PointEvent") (cstr "start") 32 pointFields .nil), 40, by decide⟩]
  describable := by
    intro n K hK
    rcases n with _ | _ | n
    · cases hK; decide
    · cases hK; decide
    · cases hK
  nodup := by decide
  fits := by
    intro K hK
    simp only [List.mem_cons, List.not_mem_nil, or_false] at hK
    rcases hK with rfl | rfl <;> exact ⟨by decide, by decide⟩
  length_lt := by decide

example : (mixedTable.klasses[10]?).map (fun K => K.fields.infos.map mixedTable.fieldOf) =
    some [⟨ascii "steps", ascii "int16_t", .int16, none⟩,
      ⟨ascii "start", ascii "PointEvent", .struct, some 9⟩] := by decide

end HawkTracer.RoundTrip
