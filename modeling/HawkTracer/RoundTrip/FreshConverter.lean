import HawkTracer.Client.ChromeTrace
import HawkTracer.RoundTrip.Labels

/-!
# A converter on the stream of a program

The client gives every event that its reader delivers to a converter, the metadata included. The
reader is in flat mode there.

The metadata is quiet: no event of it has a label, and its one effect on a new converter is that
it knows the klass of the mapping events afterwards
(`HawkTracer.RoundTrip.exists_quiet_metadata`). Behind it, a callstack event has its label, its
duration, its thread and the timestamp of its header, and nothing else
(`HawkTracer.RoundTrip.LabelEvent.CarriedBy`). So a new converter finds no labels up to the end of
the metadata, and behind it those that `HawkTracer.RoundTrip.resolve` says
(`HawkTracer.RoundTrip.readEvents_fresh`).
-/

namespace HawkTracer.RoundTrip

open HawkTracer.Lib HawkTracer.Parser HawkTracer.Client LabelEvent

/-! ### What a round delivers -/

section Shape

variable {P : Platform} {R R' : KlassRegister} {flat : Bool} {depth : ℕ}

/-- The event that is delivered is the one that was read. -/
theorem Delivers.event_eq (hW : R.BuiltIn) {h : HTEvent} {k : EventKlass}
    (hk : R.getKlass h.klassId = some k) (h1 : h.klassId ≠ 1) (h0 : h.klassId ≠ 0)
    {payload : ByteOrder → List UInt8} {r : Event × Option Event}
    (hr : ReadsAs P R flat (depth + 1) h.klassId (passedHeader P R flat h) payload r) {d : Delivery}
    (hd : Delivers P flat (depth + 1) R R' (fun o => h.encode o ++ payload o) d) :
    d.event = finishedEvent P R flat h r.1 := by
  have hstep := hd .little .little [] []
  rw [List.append_assoc, step_eq_finish hW hk h1 hr, Reader.finish, if_neg h0,
    Reader.callCallbacks] at hstep
  split at hstep
  · cases hstep
  · have hdelivered := congrArg (fun r => r.1.delivered) hstep
    exact congrArg Delivery.event (List.singleton_injective hdelivered).symm

/-- In flat mode the values of the header come in last. -/
theorem within_finishedEvent (hW : R.BuiltIn) (h : HTEvent) {e : Event} {names : List Name}
    (he : Within e names) : Within (finishedEvent P R true h e) (names ++ headerNames) := by
  obtain ⟨-, -, -, -, hheader⟩ := showsHeader_headerEvent (P := P) hW h
  intro key w hw
  rw [finishedEvent, if_pos rfl, Event.rawValue_merge, Option.or_eq_some_iff] at hw
  rcases hw with hw | ⟨-, hw⟩
  · exact List.mem_append_left _ (he key w hw)
  · exact List.mem_append_right _ (hheader key w.2 (get_of_rawValue hw))

/-- The timestamp of an event without a value of that name is that of the header. -/
theorem timestamp_finishedEvent (hW : R.BuiltIn) (h : HTEvent) {e : Event} {names : List Name}
    (he : Within e names) (hnames : ascii "timestamp" ∉ names) (hcached : e.Cached P) :
    (finishedEvent P R true h e).timestamp = h.timestamp := by
  obtain ⟨-, -, hheader, -⟩ := showsHeader_headerEvent (P := P) hW h
  have hnone : e.get (ascii "timestamp") = none := by
    rw [Event.get_eq_map, Option.map_eq_none_iff, Option.eq_none_iff_forall_ne_some]
    exact fun w hw => hnames (he _ w hw)
  have hget : (e.merge P (headerEvent P R h)).get (ascii "timestamp") =
      some (.num .uint64 h.timestamp.toNat) := by
    rw [Event.get_merge, hnone, Option.none_or, hheader]
  rw [finishedEvent, if_pos rfl, hcached.merge (headerEvent P R h), hget, Option.map_some,
    Option.getD_some, P.asTimestamp_uint64, UInt64.ofNat_toNat]

/-- An event of scalar fields is delivered with values of their names. -/
theorem Delivers.within_scalars (hW : R.BuiltIn) {h : HTEvent} {k : EventKlass}
    (hk : R.getKlass h.klassId = some k) (h1 : h.klassId ≠ 1) (h0 : h.klassId ≠ 0)
    {decls : List FieldDecl} (hsig : k.fields.map signature = decls.map declSignature)
    (hsup : ∀ d ∈ decls, d.Supported) {v : (scalarFields decls).Inst} {d : Delivery}
    (hd : Delivers P true (depth + 1) R R'
      (fun o => h.encode o ++ (scalarFields decls).encode o v) d)
    (hv : (scalarFields decls).NullFree v) :
    d.event.klass = some h.klassId ∧
      Within d.event (decls.map (fun d => d.fieldName.bytes) ++ headerNames) := by
  obtain ⟨xs, hxs⟩ := exists_showsScalars hsup hv
  rw [hd.event_eq hW hk h1 h0 (readsAs_scalars hk hsig hsup hxs _)]
  refine ⟨?_, within_finishedEvent hW h ((within_new _ []).setAll hsig hxs)⟩
  rw [klass_finishedEvent, Event.klass_setAll]
  rfl

end Shape

/-! ### Quiet events -/

/-- The events have no labels, and make one converter of the other. -/
def Quiet (c c' : Converter) (ds : List Delivery) : Prop :=
  c.getLabels (ds.map Delivery.event) = .ok (List.replicate ds.length [], c')

theorem quiet_nil (c : Converter) : Quiet c c [] := rfl

theorem Quiet.cons {c c' c'' : Converter} {d : Delivery} {ds : List Delivery}
    (hd : c.getLabel d.event = .ok ([], c')) (h : Quiet c' c'' ds) : Quiet c c'' (d :: ds) :=
  Converter.getLabels_cons hd h

theorem quiet_of_forall {c : Converter} {ds : List Delivery}
    (h : ∀ d ∈ ds, c.getLabel d.event = .ok ([], c)) : Quiet c c ds := by
  induction ds with
  | nil => exact quiet_nil c
  | cons d ds ih =>
    obtain ⟨hd, hds⟩ := List.forall_mem_cons.mp h
    exact (ih hds).cons hd

/-- The labels of a list behind quiet events. -/
theorem getLabels_quiet {c c' c'' : Converter} {metadata : List Delivery} {es : List Event}
    {labels : List Name} (h : Quiet c c' metadata) (h' : c'.getLabels es = .ok (labels, c'')) :
    c.getLabels (metadata.map Delivery.event ++ es) =
      .ok (List.replicate metadata.length [] ++ labels, c'') := by
  induction metadata generalizing c with
  | nil =>
    obtain ⟨-, rfl⟩ := Prod.mk.inj (Except.ok.inj h)
    exact h'
  | cons d metadata ih =>
    obtain ⟨label, c₁, labels', hfirst, hrest, heq⟩ := Converter.getLabels_cons_eq h
    rw [List.length_cons, List.replicate_succ] at heq
    obtain ⟨rfl, rfl⟩ := List.cons.inj heq
    exact Converter.getLabels_cons hfirst (ih hrest)

theorem Quiet.append {c c' c'' : Converter} {ds ds' : List Delivery} (h : Quiet c c' ds)
    (h' : Quiet c' c'' ds') : Quiet c c'' (ds ++ ds') := by
  rw [Quiet, List.map_append, List.length_append, List.replicate_add]
  exact getLabels_quiet h h'

/-- An event that has neither a `label` nor a `name`. -/
def Unlabelled (e : Event) : Prop :=
  e.rawValue (ascii "label") = none ∧ e.rawValue (ascii "name") = none

theorem unlabelled_of_within {e : Event} {names : List Name} (h : Within e names)
    (hlabel : ascii "label" ∉ names) (hname : ascii "name" ∉ names) : Unlabelled e :=
  ⟨Option.eq_none_iff_forall_ne_some.mpr fun w hw => hlabel (h _ w hw),
    Option.eq_none_iff_forall_ne_some.mpr fun w hw => hname (h _ w hw)⟩

/-- An unlabelled event that is neither a mapping event nor the description of their klass is
quiet. -/
theorem getLabel_of_unlabelled {c : Converter} {e : Event} {id : UInt32} (he : Unlabelled e)
    (hklass : e.klass = some id) (hmapping : id ≠ c.mappingKlassId)
    (hinfo : id = 2 → c.mappingKlassId = 0 →
      ∃ name, e.get (ascii "event_klass_name") = some (.str name) ∧
        name ≠ Converter.mappingKlassName) : c.getLabel e = .ok ([], c) := by
  rw [Converter.getLabel]
  by_cases hc : c.mappingKlassId = 0
  · have hset : c.trySettingMappingKlassId e = .ok c := by
      rw [Converter.trySettingMappingKlassId, hklass]
      dsimp only
      by_cases hid : id = 2
      · obtain ⟨name, hname, hne⟩ := hinfo hid hc
        rw [if_pos hid, Event.getStr_eq hname]
        exact if_neg hne
      · rw [if_neg hid]
        rfl
    rw [if_pos hc, hset]
    rfl
  · rw [if_neg hc, hklass]
    dsimp only
    rw [if_neg hmapping, he.1, he.2]
    rfl

/-! ### The metadata -/

section Metadata

variable (P : Platform) (depth : ℕ) {R : KlassRegister}

variable {P depth} in
/-- The description of a field is quiet. -/
theorem getLabel_fieldInfoEvent (hW : R.BuiltIn) {R' : KlassRegister} {s : Stamp} {i : ℕ}
    {info : FieldInfo} {d : Delivery} (hd : Delivers P true (depth + 1) R R'
      (fun o => (fieldInfoEvent s i info).encode o) d) {c : Converter} (hc : c.mappingKlassId ≠ 3) :
    c.getLabel d.event = .ok ([], c) := by
  obtain ⟨k, hk, hsig⟩ := signature_three hW
  obtain ⟨hklass, hwithin⟩ := Delivers.within_scalars (h := ⟨3, s.timestamp, s.id⟩) hW hk
    (show (3 : UInt32) ≠ 1 by decide) (show (3 : UInt32) ≠ 0 by decide) hsig (by decide) hd
    ⟨trivial, trivial, trivial, trivial, trivial, trivial⟩
  exact getLabel_of_unlabelled (unlabelled_of_within hwithin (by decide) (by decide)) hklass
    hc.symm fun h => absurd h (show (3 : UInt32) ≠ 2 by decide)

/-- What the description of a klass tells a converter. -/
def learn (c : Converter) (i : ℕ) (K : Klass) : Converter :=
  if c.mappingKlassId = 0 ∧ K.typeName.bytes = Converter.mappingKlassName then
    { c with mappingKlassId := UInt32.ofNat i }
  else c

/-- The description of a klass is quiet, and tells the identifier of the mapping klass. -/
theorem delivers_quiet_klassInfoEvent (hW : R.BuiltIn) (s : Stamp) (i : ℕ) (K : Klass) :
    ∃ d, Delivers P true (depth + 1) R (R.addKlass (.new K.typeName.bytes (UInt32.ofNat i)))
        (fun o => (klassInfoEvent s i K).encode o) d ∧
      ∀ c : Converter, c.mappingKlassId ≠ 2 → c.getLabel d.event = .ok ([], learn c i K) := by
  obtain ⟨d, hd, hklass, hname, hid⟩ := delivers_klassInfoEvent P true depth hW s i K
  obtain ⟨k, hk, hsig⟩ := signature_two hW
  obtain ⟨-, hwithin⟩ := Delivers.within_scalars (h := ⟨2, s.timestamp, s.id⟩) hW hk
    (show (2 : UInt32) ≠ 1 by decide) (show (2 : UInt32) ≠ 0 by decide) hsig (by decide) hd
    ⟨trivial, trivial, trivial, trivial⟩
  refine ⟨d, hd, fun c hc => ?_⟩
  rw [learn]
  split
  · next hlearn =>
    rw [hlearn.2] at hname
    rw [Converter.getLabel_of_description hlearn.1 hklass hname hid, ofNat_toNat_ofNat]
  · next hnot =>
    refine getLabel_of_unlabelled (unlabelled_of_within hwithin (by decide) (by decide)) hklass
      hc.symm fun _ hzero => ⟨K.typeName.bytes, hname, fun heq => hnot ⟨hzero, heq⟩⟩

/-- The converter behind the descriptions of some klasses. -/
def learnFrom (c : Converter) : ℕ → List Klass → Converter
  | _, [] => c
  | i, K :: Ks => learnFrom (learn c i K) (i + 1) Ks

/-- A converter that takes no description for a mapping event. -/
def Apart (c : Converter) : Prop := c.mappingKlassId ≠ 2 ∧ c.mappingKlassId ≠ 3

theorem exists_quiet_descriptions (hW : R.BuiltIn) (stamps : ℕ → Stamp) (i n : ℕ) {Ks : List Klass}
    (hi : ∀ j K, Ks[j]? = some K → KlassRegister.isWellKnownKlass (UInt32.ofNat (i + j)) = false →
      ∀ info ∈ K.fields.infos, Readable info)
    {c : Converter} (hc : ∀ m, Apart (learnFrom c i (Ks.take m))) :
    ∃ ds, DeliversAll P true (depth + 1) R (describeFrom P i R Ks) (descriptions stamps i n Ks)
        ds ∧ Quiet c (learnFrom c i Ks) ds := by
  induction Ks generalizing R i n c with
  | nil => exact ⟨[], .nil, quiet_nil c⟩
  | cons K Ks ih =>
    obtain ⟨d, hd, hquiet⟩ := delivers_quiet_klassInfoEvent P depth hW (stamps n) i K
    obtain ⟨ds, hds, hfields⟩ := deliversAll_fieldDescriptions P true depth
      (hW.addKlass (.new K.typeName.bytes (UInt32.ofNat i))) stamps i (n + 1)
      fun hw => ⟨hi 0 K rfl hw, exists_getKlass_addKlass R _ _⟩
    obtain ⟨ds', hds', hrest⟩ := ih (builtIn_describeKlass hW i K) (i + 1)
      (n + (K.fields.infos.length + 1))
      (fun j K' hj => by
        rw [Nat.add_assoc, Nat.add_comm 1 j]
        exact hi (j + 1) K' hj)
      fun m => hc (m + 1)
    have hfirst : Quiet c (learn c i K) (d :: ds) :=
      (quiet_of_forall fun d hd => (hfields d hd).elim fun _ ⟨_, _, _, hW', hd'⟩ =>
        getLabel_fieldInfoEvent hW' hd' (hc 1).2).cons (hquiet c (hc 0).1)
    exact ⟨d :: ds ++ ds', (DeliversAll.cons hd hds).append hds', hfirst.append hrest⟩

/-- Once a converter knows the mapping klass, it learns nothing more. -/
theorem learnFrom_of_ne_zero {c : Converter} (hc : c.mappingKlassId ≠ 0) (i : ℕ)
    (Ks : List Klass) : learnFrom c i Ks = c := by
  induction Ks generalizing i with
  | nil => rfl
  | cons K Ks ih =>
    have hlearn : learn c i K = c := if_neg fun h => hc h.1
    rw [learnFrom, hlearn, ih]

/-- Other klasses teach it nothing either. -/
theorem learnFrom_of_forall_ne {Ks : List Klass}
    (h : ∀ K ∈ Ks, K.typeName.bytes ≠ Converter.mappingKlassName) (c : Converter) (i : ℕ) :
    learnFrom c i Ks = c := by
  induction Ks generalizing i with
  | nil => rfl
  | cons K Ks ih =>
    obtain ⟨hK, hKs⟩ := List.forall_mem_cons.mp h
    have hlearn : learn c i K = c := if_neg fun h => hK h.2
    rw [learnFrom, hlearn, ih hKs]

theorem learnFrom_append (c : Converter) (i : ℕ) (Ks Ks' : List Klass) :
    learnFrom c i (Ks ++ Ks') = learnFrom (learnFrom c i Ks) (i + Ks.length) Ks' := by
  induction Ks generalizing c i with
  | nil => rfl
  | cons K Ks ih =>
    rw [List.cons_append, learnFrom, ih, learnFrom, List.length_cons, Nat.add_assoc, Nat.add_comm 1]

/-- **What a new converter knows behind some of the descriptions**: nothing, or the mapping
klass. -/
theorem learnFrom_klasses (map : TracepointMap) (G : Registry) (m : ℕ) :
    learnFrom ⟨map, 0⟩ 0 (G.klasses.take m) = ⟨map, 0⟩ ∧ m ≤ 7 ∨
      learnFrom ⟨map, 0⟩ 0 (G.klasses.take m) = ⟨map, 7⟩ := by
  have hsplit : G.klasses = coreKlasses.take 7 ++ ([stringMappingEventKlass] ++
      (coreKlasses.drop 8 ++ G.user)) := rfl
  have hlen : (coreKlasses.take 7).length = 7 := rfl
  have hothers : ∀ K ∈ coreKlasses.take 7, K.typeName.bytes ≠ Converter.mappingKlassName := by
    decide
  by_cases hm : m ≤ 7
  · refine .inl ⟨?_, hm⟩
    rw [hsplit, List.take_append_of_le_length (hlen ▸ hm)]
    exact learnFrom_of_forall_ne (fun K hK => hothers K (List.mem_of_mem_take hK)) _ _
  · refine .inr ?_
    obtain ⟨m, rfl⟩ := Nat.exists_eq_add_of_le (show 8 ≤ m by omega)
    have hlearn : learn ⟨map, 0⟩ (0 + 7) stringMappingEventKlass = ⟨map, 7⟩ := if_pos ⟨rfl, rfl⟩
    rw [hsplit, List.take_append, hlen, List.take_of_length_le (by rw [hlen]; omega),
      learnFrom_append, learnFrom_of_forall_ne hothers, hlen,
      show 8 + m - 7 = m + 1 by omega, List.singleton_append, List.take_succ_cons, learnFrom,
      hlearn]
    exact learnFrom_of_ne_zero (show (7 : UInt32) ≠ 0 by decide) _ _

theorem learnFrom_all (map : TracepointMap) (G : Registry) :
    learnFrom ⟨map, 0⟩ 0 G.klasses = ⟨map, 7⟩ := by
  have hlen : 9 ≤ G.klasses.length := by
    rw [Registry.klasses, List.length_append]
    exact Nat.le_add_right _ _
  rcases learnFrom_klasses map G G.klasses.length with ⟨-, hle⟩ | hknown
  · omega
  · rwa [List.take_length] at hknown

/-- The event with the system information is quiet. -/
theorem delivers_quiet_systemInfoEvent {G : Registry} (hR : Describes G G.klasses.length R)
    (H : Host) :
    ∃ d, Delivers P true (depth + 1) R R (fun o => (systemInfoEvent H).encode o) d ∧
      ∀ map, (⟨map, 7⟩ : Converter).getLabel d.event = .ok ([], ⟨map, 7⟩) := by
  let h : HTEvent := ⟨8, 0, 0⟩
  let decls : List FieldDecl := [integerField "uint8_t" false 1 "version_major",
     integerField "uint8_t" false 1 "version_minor",
     integerField "uint8_t" false 1 "version_patch"]
  let v : (scalarFields decls).Inst := (H.versionMajor.toBitVec, H.versionMinor.toBitVec,
    H.versionPatch.toBitVec, ())
  obtain ⟨xs, hxs⟩ := exists_showsScalars (by decide : ∀ d ∈ decls, d.Supported) (v := v)
    ⟨trivial, trivial, trivial, trivial⟩
  have hK : G.klasses[8]? = some systemInfoEventKlass := core_getElem? (by decide)
  obtain ⟨k, r, hk, hr, hvals⟩ := readsAs_declared P true depth hR (by decide) hK (by decide)
    hxs (by decide) fun b hb => readField_root P true depth hb (passedHeader_ne_none P true R h) 8
  obtain ⟨hdel, hklass⟩ := delivers_ordinary (h := h) hR.keeps hk
    (show (8 : UInt32) ∉ ([0, 1, 2, 3] : List UInt32) by decide) hr
  refine ⟨_, hdel, fun map => getLabel_of_unlabelled ?_ hklass
    (show (8 : UInt32) ≠ 7 by decide) fun h => absurd h (show (8 : UInt32) ≠ 2 by decide)⟩
  exact unlabelled_of_within (within_finishedEvent (P := P) hR.keeps h hvals.within)
    (by decide) (by decide)

/-- **The metadata of a registry is quiet**, and a new converter knows the mapping klass behind
it. -/
theorem exists_quiet_metadata (H : Host) (stamps : ℕ → Stamp) (G : Registry) (map : TracepointMap) :
    ∃ ds, DeliversAll P true (depth + 1) .new (describedRegister P G)
        (descriptions stamps 0 0 G.klasses ++ [systemInfoEvent H]) ds ∧
      ∀ o, Quiet ⟨map, 0⟩ ⟨map, 7⟩ (endiannessDelivery P true o :: ds) := by
  have hapart : ∀ m, Apart (learnFrom ⟨map, 0⟩ 0 (G.klasses.take m)) := by
    intro m
    rcases learnFrom_klasses map G m with ⟨heq, -⟩ | heq
    · rw [heq]
      exact ⟨show (0 : UInt32) ≠ 2 by decide, show (0 : UInt32) ≠ 3 by decide⟩
    · rw [heq]
      exact ⟨show (7 : UInt32) ≠ 2 by decide, show (7 : UInt32) ≠ 3 by decide⟩
  obtain ⟨ds, hds, hquiet⟩ := exists_quiet_descriptions P depth KlassRegister.builtIn_new stamps
    0 0 (fun _ _ => readable_of_getElem?) hapart
  rw [learnFrom_all] at hquiet
  obtain ⟨d, hd, hsystem⟩ := delivers_quiet_systemInfoEvent P depth
    (describes_describedRegister P G) H
  refine ⟨ds ++ [d], hds.append (.cons hd .nil), fun o => ?_⟩
  refine (hquiet.append ((quiet_nil _).cons (hsystem map))).cons ?_
  have hklass : (endiannessDelivery P true o).event.klass = some 0 := klass_finishedEvent _ _
  rw [Converter.getLabel, if_pos rfl, Converter.trySettingMappingKlassId, hklass]
  rfl

end Metadata

/-! ### The events of the program -/

/-- **What a converter finds in the event**, in flat mode. -/
def LabelEvent.CarriedBy : LabelEvent → Event → Prop
  | .mapping stamp id label, e => (mapping stamp id label).ShownBy e
  | .callstack stamp duration threadId label, e =>
    (callstack stamp duration threadId label).ShownBy e ∧
      e.get (ascii "duration") = some (.num .uint64 duration.toNat) ∧
      e.get (ascii "thread_id") = some (.num .uint32 threadId.toNat) ∧
      e.timestamp = stamp.timestamp ∧ Within e ChromeTrace.coreFields

theorem LabelEvent.CarriedBy.shown {event : LabelEvent} {e : Event} (h : event.CarriedBy e) :
    event.ShownBy e := by
  cases event with
  | mapping stamp id label => exact h
  | callstack stamp duration threadId label => exact h.1

section Delivering

variable (P : Platform) (depth : ℕ) {R : KlassRegister} {G : Registry}

/-- **A callstack event is delivered in flat mode** with its label, its duration, its thread and
its timestamp. -/
theorem delivers_flat_callstack (hR : Describes G G.klasses.length R) (stamp : Stamp)
    (duration : UInt64) (threadId : UInt32) (label : UInt64) :
    ∃ d, Delivers P true (depth + 2) R R
        (fun o => ((callstack stamp duration threadId label).traced G).encode o) d ∧
      (callstack stamp duration threadId label).CarriedBy d.event := by
  obtain ⟨d, e, hdel, hevent, hklass, hvals⟩ :=
    delivers_callstack_values P true depth hR stamp duration threadId label
  obtain ⟨f, hf, hlabel⟩ := hvals.value _ _ (.tail _ (.tail _ (.head _)))
  obtain ⟨_, -, hduration⟩ := hvals.value _ _ (.head _)
  obtain ⟨_, -, hthread⟩ := hvals.value _ _ (.tail _ (.head _))
  refine ⟨d, hdel, ?_⟩
  rw [hevent] at hklass ⊢
  refine ⟨⟨hklass, f, hf, rawValue_finishedEvent hlabel⟩,
    get_of_rawValue (rawValue_finishedEvent hduration),
    get_of_rawValue (rawValue_finishedEvent hthread),
    timestamp_finishedEvent hR.keeps _ hvals.within (by decide) hvals.cached, ?_⟩
  -- every name is one of those that a converter knows
  have hsub : (baseNames true [ascii "duration", ascii "thread_id"] ++ [ascii "label"]) ++
      headerNames ⊆ ChromeTrace.coreFields := by
    decide
  exact fun key w hw => hsub (within_finishedEvent hR.keeps _ hvals.within key w hw)

/-- Every pushed event is delivered in flat mode. -/
theorem delivers_flat_label (hR : Describes G G.klasses.length R) (e : LabelEvent) :
    ∃ d, Delivers P true (depth + 2) R R (fun o => (e.traced G).encode o) d ∧
      e.CarriedBy d.event := by
  cases e with
  | mapping stamp id label => exact delivers_mapping P true (depth + 1) hR stamp id label
  | callstack stamp duration threadId label =>
    exact delivers_flat_callstack P depth hR stamp duration threadId label

/-- **The stream of a program in front of a new converter**: it is read to its end, the metadata
is quiet, and the events behind it are those that were pushed. -/
theorem readEvents_fresh (host : ByteOrder) (H : Host) (stamps : ℕ → Stamp) (G : Registry)
    (map : TracepointMap) (events : List LabelEvent) :
    ∃ metadata ds, readEvents host P true (depth + 2)
          (streamOf H stamps G (events.map (traced G)) : FileStream) =
        (⟨[], describedRegister P G, endiannessCode H.order, metadata ++ ds⟩, .error) ∧
      Quiet ⟨map, 0⟩ ⟨map, 7⟩ metadata ∧
      List.Forall₂ (fun e d => e.CarriedBy d.event) events ds := by
  obtain ⟨metadata, hmeta, hquiet⟩ := exists_quiet_metadata P (depth + 1) H stamps G map
  obtain ⟨ds, hds, hcarried⟩ := deliversAll_of_each (f := Registry.Traced.toInstance ∘ traced G)
    fun e (_ : e ∈ events) => delivers_flat_label P depth (describes_describedRegister P G) e
  rw [← List.map_map] at hds
  have hread := readEvents_of_deliversAll P true (depth + 1) (hmeta.append hds) host H.order
  exact ⟨_ :: metadata, ds, hread, hquiet H.order, hcarried⟩

end Delivering

/-! ### The labels of the events -/

/-- The identifiers that the events map. -/
def mappedBy (events : List LabelEvent) : List UInt64 :=
  events.filterMap fun
    | .mapping _ id _ => some id
    | .callstack .. => none

/-- **Every label is mapped before it is used**, and each identifier to what it means; `known`
are mapped before. -/
def Mapped (meant : UInt64 → Name) : List UInt64 → List LabelEvent → Prop
  | _, [] => True
  | known, .mapping _ id label :: es => label.bytes = meant id ∧ Mapped meant (id :: known) es
  | known, .callstack _ _ _ label :: es => label ∈ known ∧ Mapped meant known es

variable {meant : UInt64 → Name} {known : List UInt64} {events : List LabelEvent}

theorem Mapped.mono {known' : List UInt64} (h : known ⊆ known') (hm : Mapped meant known events) :
    Mapped meant known' events := by
  induction events generalizing known known' with
  | nil => trivial
  | cons event events ih =>
    cases event with
    | mapping stamp id label => exact ⟨hm.1, ih (List.cons_subset_cons _ h) hm.2⟩
    | callstack stamp duration threadId label => exact ⟨h hm.1, ih h hm.2⟩

/-- A list behind another one knows what that one maps. -/
theorem mapped_append {events' : List LabelEvent} (h : Mapped meant known events)
    (h' : Mapped meant (known ++ mappedBy events) events') :
    Mapped meant known (events ++ events') := by
  induction events generalizing known with
  | nil =>
    rw [show known ++ mappedBy [] = known from List.append_nil _] at h'
    exact h'
  | cons event events ih =>
    cases event with
    | mapping stamp id label =>
      refine ⟨h.1, ih h.2 (h'.mono ?_)⟩
      intro k hk
      simp only [mappedBy, List.filterMap_cons, List.mem_append, List.mem_cons] at hk ⊢
      tauto
    | callstack stamp duration threadId label => exact ⟨h.1, ih h.2 h'⟩

/-- The label that an event means. -/
def LabelEvent.meaning (meant : UInt64 → Name) : LabelEvent → Name
  | .mapping .. => []
  | .callstack _ _ _ label => meant label

/-- **The labels are the meanings**, once every label is mapped. -/
theorem labelsOf_eq {m : TracepointMap}
    (hm : ∀ id ∈ known, (m.inputMap id).map MapInfo.label = some (meant id))
    (h : Mapped meant known events) : labelsOf m events = events.map (meaning meant) := by
  induction events generalizing known m with
  | nil => rfl
  | cons event events ih =>
    cases event with
    | mapping stamp id label =>
      have hm' : ∀ id' ∈ id :: known, ((m.addMapEntry id label.bytes).inputMap id').map
          MapInfo.label = some (meant id') := by
        intro id' hid'
        rw [TracepointMap.inputMap_addMapEntry]
        split
        · next heq =>
          rw [heq, ← h.1]
          rfl
        · next hne => exact hm id' ((List.mem_cons.mp hid').resolve_left hne)
      rw [labelsOf, ih hm' h.2]
      rfl
    | callstack stamp duration threadId label =>
      obtain ⟨info, hinfo, hlabel⟩ := Option.map_eq_some_iff.mp (hm label h.1)
      rw [labelsOf, TracepointMap.getLabelInfo_of_some hinfo, ih hm h.2]
      exact congrArg (· :: _) hlabel

/-- **A new converter on the stream of a program** gives every callstack event the string that
its label means, and no label to anything else. The labels are those that were loaded into its map
or that are mapped before they are used. -/
theorem getLabels_fresh (P : Platform) (depth : ℕ) (host : ByteOrder) (H : Host)
    (stamps : ℕ → Stamp) (G : Registry) (map : TracepointMap)
    (hmap : ∀ id ∈ known, (map.inputMap id).map MapInfo.label = some (meant id))
    (h : Mapped meant known events) :
    ∃ metadata ds c, readEvents host P true (depth + 2)
          (streamOf H stamps G (events.map (traced G)) : FileStream) =
        (⟨[], describedRegister P G, endiannessCode H.order, metadata ++ ds⟩, .error) ∧
      (⟨map, 0⟩ : Converter).getLabels ((metadata ++ ds).map Delivery.event) =
        .ok (List.replicate metadata.length [] ++ events.map (meaning meant), c) ∧
      List.Forall₂ LabelEvent.CarriedBy events (ds.map Delivery.event) := by
  obtain ⟨metadata, ds, hread, hquiet, hcarried⟩ :=
    readEvents_fresh P depth host H stamps G map events
  have hcarried' : List.Forall₂ LabelEvent.CarriedBy events (ds.map Delivery.event) :=
    List.forall₂_map_right_iff.mpr hcarried
  obtain ⟨c, hlabels⟩ :=
    getLabels_labelsOf (hcarried'.imp fun _ _ h => LabelEvent.CarriedBy.shown h) map
  rw [labelsOf_eq hmap h] at hlabels
  refine ⟨metadata, ds, c, hread, ?_, hcarried'⟩
  rw [List.map_append]
  exact getLabels_quiet hquiet hlabels

end HawkTracer.RoundTrip
