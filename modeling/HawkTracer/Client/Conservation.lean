import HawkTracer.Base.Fibres
import HawkTracer.Client.CallTree
import Mathlib.Data.Int.ModEq
import Mathlib.Data.UInt

/-!
# What the call graph conserves

Whatever the events are – overlapping, repeated, in any order – each of them is placed at one
path, and a node sums up the events placed at its path. Summing over all nodes is therefore
summing over all events (`HawkTracer.sum_fibres`): durations modulo `2 ^ 64`, and calls as far
as an `int` can count them. The events that a node charges to its callees are those placed right
below it, which its children sum up. `HawkTracer.Client.CallGraph.conserved_make` says this of
the forest that `CallGraph::make` returns, of its labels and of its parent links.
-/

namespace HawkTracer.Client

namespace CallGraph

/-! ### Sums in the types of the source -/

theorem ofNat_sum (l : List ℕ) : UInt64.ofNat l.sum = (l.map UInt64.ofNat).sum := by
  induction l with
  | nil => rfl
  | cons n l ih => rw [List.sum_cons, UInt64.ofNat_add, ih, List.map_cons, List.sum_cons]

theorem wrapInt_le (n : ℕ) : wrapInt n ≤ n := by
  unfold wrapInt
  rw [Int.bmod_def]
  omega

theorem wrapInt_eq_iff (n : ℕ) : wrapInt n = n ↔ n < 2 ^ 31 := by
  refine ⟨fun h => ?_, wrapInt_of_lt⟩
  unfold wrapInt at h
  rw [Int.bmod_def] at h
  omega

theorem wrapInt_modEq (n : ℤ) : wrapInt n ≡ n [ZMOD 2 ^ 32] := by
  unfold wrapInt
  exact Int.bmod_emod

/-- The counts as an `int` holds them sum up to the numbers only if all of these are in its
range. -/
theorem sum_wrapInt_eq_iff (l : List ℕ) :
    (l.map fun n : ℕ => wrapInt n).sum = l.sum ↔ ∀ n ∈ l, n < 2 ^ 31 := by
  have hle : ∀ l : List ℕ, (l.map fun n : ℕ => wrapInt n).sum ≤ l.sum := by
    intro l
    induction l with
    | nil => exact Int.le_refl 0
    | cons n l ih =>
      have hn := wrapInt_le n
      rw [List.map_cons, List.sum_cons, List.sum_cons, Int.natCast_add]
      omega
  induction l with
  | nil => simp
  | cons n l ih =>
    have hn := wrapInt_le n
    have hl := hle l
    rw [List.forall_mem_cons, ← wrapInt_eq_iff, List.map_cons, List.sum_cons, List.sum_cons,
      Int.natCast_add]
    constructor
    · intro h
      exact ⟨by omega, ih.mp (by omega)⟩
    · rintro ⟨h, hrest⟩
      rw [h, ih.mpr hrest]

theorem sum_wrapInt_modEq (l : List ℕ) :
    (l.map fun n : ℕ => wrapInt n).sum ≡ l.sum [ZMOD 2 ^ 32] := by
  induction l with
  | nil => exact Int.ModEq.refl _
  | cons n l ih =>
    rw [List.map_cons, List.sum_cons, List.sum_cons, Int.natCast_add]
    exact (wrapInt_modEq n).add ih

/-! ### The forest that is returned -/

/-- The nodes that can be reached from the root calls. -/
inductive InForest (g : CallGraph) : ℕ → Prop
  | root {call : ℕ × ℤ} (h : call ∈ g.rootCalls) : InForest g call.1
  | child {i : ℕ} {call : ℕ × ℤ} (hi : InForest g i) (h : call ∈ (g.heap i).children) :
      InForest g call.1

/-- The labels of some calls. -/
def labels (g : CallGraph) (calls : List (ℕ × ℤ)) : List Label :=
  calls.map fun call => (g.heap call.1).data.label

/-- **What the forest conserves of the events.** -/
structure Conserved (sorted : List NodeData) (g : CallGraph) : Prop where
  /-- The counts sum to the number of events, if each is in the range of its type. -/
  calls : (g.forest.map Node.calls).sum = sorted.length ↔
    ∀ x ∈ g.forest, countAt (placements sorted) x.path.reverse < 2 ^ 31
  calls_mod : (g.forest.map Node.calls).sum ≡ sorted.length [ZMOD 2 ^ 32]
  total : (g.forest.map Node.totalDuration).sum = (sorted.map NodeData.getDuration).sum
  childrenTotal : ∀ i, g.InForest i → (g.heap i).totalChildrenDuration =
    ((g.heap i).children.map fun call => (g.heap call.1).totalDuration).sum
  rootLabels : (g.labels g.rootCalls).Nodup
  childLabels : ∀ i, g.InForest i → (g.labels (g.heap i).children).Nodup
  rootParent : ∀ call ∈ g.rootCalls, (g.heap call.1).parent = none
  childParent : ∀ i, g.InForest i → ∀ call ∈ (g.heap i).children,
    (g.heap call.1).parent = some i
  /-- A node without a parent is a root call, and any other is listed by its parent. -/
  listed : ∀ i, g.InForest i → i ∈ (g.callsAt (g.heap i).parent).map Prod.fst

variable {g : CallGraph} {paths : ℕ → List Label} {placed : List (NodeData × List Label)}

theorem valid_some {i : ℕ} (hi : i < g.allocated) : g.Valid (some i) := by
  rintro j ⟨⟩
  exact hi

theorem valid_none (g : CallGraph) : g.Valid none := by
  rintro j ⟨⟩

section

variable (h : Represents g paths placed)

include h

theorem Represents.lt_of_inForest {i : ℕ} (hi : g.InForest i) : i < g.allocated := by
  induction hi with
  | root hcall => exact (((h.calls none g.valid_none).mem _).mp (List.mem_map_of_mem hcall)).1
  | child _ hcall ih =>
    exact (((h.calls _ (valid_some ih)).mem _).mp (List.mem_map_of_mem hcall)).1

/-- **The calls of one node have different labels.** -/
theorem Represents.nodup_labels {o : Option ℕ} (ho : g.Valid o) :
    (g.labels (g.callsAt o)).Nodup := by
  have hcalls := h.calls o ho
  refine List.pairwise_map.mpr ((List.pairwise_map.mp hcalls.nodup).imp_of_mem ?_)
  intro x y hx hy hne hlabel
  obtain ⟨hxlt, hxparent⟩ := (hcalls.mem x.1).mp (List.mem_map_of_mem hx)
  obtain ⟨hylt, hyparent⟩ := (hcalls.mem y.1).mp (List.mem_map_of_mem hy)
  refine hne (h.injective x.1 hxlt y.1 hylt ?_)
  rw [h.path x.1 hxlt, h.path y.1 hylt, hxparent, hyparent, hlabel]

/-- The events placed right below a node are those placed at its children. -/
theorem Represents.tail_eq_iff {i : ℕ} (hi : i < g.allocated) {x : NodeData × List Label}
    (hx : x ∈ placed) :
    x.2.tail = paths i ↔ x.2 ∈ (g.heap i).children.map fun call => paths call.1 := by
  have hcalls := h.calls (some i) (valid_some hi)
  obtain ⟨k, hk, hpath⟩ := (h.mem x.2).mpr ⟨x, hx, rfl⟩
  have htail : x.2.tail = paths i ↔ (g.heap k).parent = some i := by
    rw [← hpath, h.path k hk, List.tail_cons]
    exact h.ownerPath_eq_iff (h.valid_parent hk) hi
  rw [htail, List.mem_map]
  constructor
  · intro hparent
    obtain ⟨call, hcall, rfl⟩ := List.mem_map.mp ((hcalls.mem k).mpr ⟨hk, hparent⟩)
    exact ⟨call, hcall, hpath⟩
  · rintro ⟨call, hcall, heq⟩
    obtain ⟨hlt, hparent⟩ := (hcalls.mem call.1).mp (List.mem_map_of_mem hcall)
    rw [h.injective k hk call.1 hlt (hpath.trans heq.symm)]
    exact hparent

/-- **The duration charged to the callees is that of the children.** -/
theorem Represents.childrenTotal_eq {i : ℕ} (hi : i < g.allocated) :
    (g.heap i).totalChildrenDuration =
      ((g.heap i).children.map fun call => (g.heap call.1).totalDuration).sum := by
  have hcalls := h.calls (some i) (valid_some hi)
  have hlt : ∀ call ∈ (g.heap i).children, call.1 < g.allocated := fun call hcall =>
    ((hcalls.mem call.1).mp (List.mem_map_of_mem hcall)).1
  have hnodup : ((g.heap i).children.map fun call => paths call.1).Nodup := by
    refine List.pairwise_map.mpr ((List.pairwise_map.mp hcalls.nodup).imp_of_mem ?_)
    intro x y hx hy hne heq
    exact hne (h.injective x.1 (hlt x hx) y.1 (hlt y hy) heq)
  have hfibres := sum_fibres (fun x => x.1.getDuration.toNat) hnodup
    fun x hx => decide_eq_true_iff.trans (h.tail_eq_iff hi hx)
  rw [List.map_map] at hfibres
  calc (g.heap i).totalChildrenDuration
      = UInt64.ofNat (durations placed fun x => x.2.tail = paths i) := h.childrenTotal i hi
    _ = UInt64.ofNat ((g.heap i).children.map fun call =>
          durations placed fun x => x.2 = paths call.1).sum := by
        rw [durations, ← hfibres]
        rfl
    _ = ((g.heap i).children.map fun call => (g.heap call.1).totalDuration).sum := by
        rw [ofNat_sum, List.map_map]
        refine congrArg List.sum (List.map_congr_left fun call hcall => ?_)
        exact (h.total call.1 (hlt call hcall)).symm

end

/-! ### Sums over all nodes -/

/-- Every event is placed at the path of a node. -/
theorem mem_paths_forest {sorted : List NodeData} {y : NodeData × List Label}
    (hy : y ∈ placements sorted) : y.2 ∈ (make sorted).forest.map fun x => x.path.reverse := by
  obtain ⟨x, hx, hpath⟩ := (exists_node_iff sorted y.2).mpr ⟨y, hy, rfl⟩
  exact List.mem_map.mpr ⟨x, hx, by rw [hpath, List.reverse_reverse]⟩

theorem nodup_paths_forest (sorted : List NodeData) :
    ((make sorted).forest.map fun x => x.path.reverse).Nodup := by
  have hnodup := (nodup_forest_make sorted).map List.reverse_injective
  rwa [List.map_map] at hnodup

/-- **The events placed at the nodes are all events.** -/
theorem sum_countAt (sorted : List NodeData) :
    ((make sorted).forest.map fun x => countAt (placements sorted) x.path.reverse).sum =
      sorted.length := by
  have hfibres := sum_fibres_of_forall (fun _ => 1) (nodup_paths_forest sorted)
    fun y hy => mem_paths_forest hy
  rw [List.map_map] at hfibres
  have hlen : (placements sorted).length = sorted.length := by
    rw [← List.length_map Prod.fst, CallTree.map_fst_placements]
  calc ((make sorted).forest.map fun x => countAt (placements sorted) x.path.reverse).sum
      = ((placements sorted).map fun _ => 1).sum := by
        rw [← hfibres]
        refine congrArg List.sum (List.map_congr_left fun x _ => ?_)
        rw [Function.comp_apply, List.map_const', List.sum_replicate, countAt,
          List.countP_eq_length_filter]
        exact (Nat.mul_one _).symm
    _ = sorted.length := by
        rw [List.map_const', List.sum_replicate, hlen]
        exact Nat.mul_one _

/-- **So are their durations.** -/
theorem sum_durations (sorted : List NodeData) :
    ((make sorted).forest.map fun x =>
      durations (placements sorted) fun y => y.2 = x.path.reverse).sum =
      (sorted.map fun e => e.getDuration.toNat).sum := by
  have hfibres := sum_fibres_of_forall (fun y => y.1.getDuration.toNat)
    (nodup_paths_forest sorted) fun y hy => mem_paths_forest hy
  rw [List.map_map] at hfibres
  conv_rhs => rw [← CallTree.map_fst_placements sorted, List.map_map]
  exact hfibres

theorem map_calls_forest (sorted : List NodeData) :
    (make sorted).forest.map Node.calls = ((make sorted).forest.map fun x =>
      countAt (placements sorted) x.path.reverse).map fun n : ℕ => wrapInt n := by
  rw [List.map_map]
  refine List.map_congr_left fun x hx => ?_
  rw [Function.comp_apply, ((mem_forest_make sorted).mp hx).2.1]

/-- **Conservation**: whatever the events are, the forest accounts for all of them. -/
theorem conserved_make (sorted : List NodeData) : Conserved sorted (make sorted) := by
  obtain ⟨paths, h⟩ := represents_make sorted
  refine ⟨?_, ?_, ?_, fun i hi => h.childrenTotal_eq (h.lt_of_inForest hi),
    h.nodup_labels (valid_none _), fun i hi => ?_, fun call hcall => ?_, fun i hi call hcall => ?_,
    fun i hi => ?_⟩
  · rw [map_calls_forest, ← sum_countAt sorted, sum_wrapInt_eq_iff]
    exact List.forall_mem_map
  · rw [map_calls_forest, ← sum_countAt sorted]
    exact sum_wrapInt_modEq _
  · calc ((make sorted).forest.map Node.totalDuration).sum
        = UInt64.ofNat ((make sorted).forest.map fun x =>
            durations (placements sorted) fun y => y.2 = x.path.reverse).sum := by
          rw [ofNat_sum, List.map_map]
          exact congrArg List.sum (List.map_congr_left fun x hx =>
            ((mem_forest_make sorted).mp hx).2.2.1)
      _ = UInt64.ofNat (sorted.map fun e => e.getDuration.toNat).sum := by rw [sum_durations]
      _ = (sorted.map NodeData.getDuration).sum := by
          rw [ofNat_sum, List.map_map]
          exact congrArg List.sum (List.map_congr_left fun e _ => UInt64.ofNat_toNat)
  · exact h.nodup_labels (valid_some (h.lt_of_inForest hi))
  · exact (((h.calls none (valid_none _)).mem _).mp (List.mem_map_of_mem hcall)).2
  · exact (((h.calls _ (valid_some (h.lt_of_inForest hi))).mem _).mp (List.mem_map_of_mem hcall)).2
  · have hlt := h.lt_of_inForest hi
    exact ((h.calls _ (h.valid_parent hlt)).mem i).mpr ⟨hlt, rfl⟩

/-- **`2 ^ 31` calls of one function** are counted as a negative number. -/
theorem calls_not_conserved :
    ∃ sorted : List NodeData, ((make sorted).forest.map Node.calls).sum ≠ sorted.length := by
  have hn : 2 ^ 31 ≤ 2 ^ 31 := Nat.le_refl _
  generalize hm : 2 ^ 31 = m at hn
  have hle : m ≤ 2 ^ 31 := Nat.le_of_eq hm.symm
  have hlam := CallTree.laminar_flatCalls hle
  have harr := CallTree.arranges_flatCalls hle
  have hdistinct := CallTree.nodup_starts_flatCalls hle
  refine ⟨CallTree.flatCalls m, fun hsum => ?_⟩
  have hnode := CallTree.nodeWith_mem_forest_flatCalls hle (by omega)
  have hlt := (conserved_make _).calls.mp hsum _ hnode
  rw [CallTree.nodeWith, CallTree.countAt_placements hlam harr hdistinct,
    CallTree.callsWith_flatCalls hle] at hlt
  omega

end CallGraph

end HawkTracer.Client
