import HawkTracer.Client.CallGraph
import Mathlib.Algebra.BigOperators.Group.List.Basic
import Mathlib.Algebra.Order.BigOperators.Group.List
import Mathlib.Algebra.Order.Group.Nat
import Mathlib.Data.List.Chain
import Mathlib.Data.List.MinMax
import Mathlib.Data.List.Pairwise
import Mathlib.Data.List.Sort

/-!
# The call tree that the events describe

Events whose intervals are nested or apart describe a tree by themselves: the parent of an
event is the latest-starting other event whose interval contains it, and its path is the list of
labels from its outermost ancestor to itself (`HawkTracer.Client.CallTree.parent`,
`HawkTracer.Client.CallTree.path`).

If no two events start at the same time, `CallGraph::make` rebuilds that tree
(`HawkTracer.Client.CallTree.mem_forest_iff`): what contains an event contains all events that
start in between, so the chain of the current call has every node that a later event may
belong to. The counts are of type `int`, and hold the number of calls as long as that is in the
range of the type (`HawkTracer.Client.CallTree.rebuilds_of_distinct_starts`).

If two events start at the same time the tree depends on what `std::sort` does with them: a
callee that comes before its caller is placed beside it. So the forest is the same for every
order of the events exactly if no two of them start at the same time
(`HawkTracer.Client.CallTree.sameForests_iff`).
-/

namespace HawkTracer.Client

namespace CallTree

open CallGraph NodeData

/-! ### Events and their tree -/

/-- The interval of an event. -/
def interval (e : NodeData) : ℕ × ℕ := (e.startTs.toNat, e.stopTs.toNat)

/-- The duration of an event. -/
def duration (e : NodeData) : ℕ := e.stopTs.toNat - e.startTs.toNat

/-- **What `std::sort` may leave of the events**: all of them, ordered by their start. -/
structure Arranges (sorted events : List NodeData) : Prop where
  perm : sorted.Perm events
  ordered : sorted.Pairwise fun a b => a.startTs ≤ b.startTs

/-- **Events of a thread**: no start plus duration overflows, and any two intervals are nested
or have disjoint interiors. -/
structure Laminar (events : List NodeData) : Prop where
  start_le_stop : ∀ e ∈ events, e.startTs ≤ e.stopTs
  nested : events.Pairwise fun a b => NestedOrApart (interval a) (interval b)

/-- **The parent of an event**: the latest-starting other event that contains it. -/
def parent (events : List NodeData) (e : NodeData) : Option NodeData :=
  (events.filter fun p => p ≠ e ∧ p.contains e).argmax fun p => p.startTs.toNat

/-- The labels from an ancestor of an event, at most `n` generations in all. -/
def pathWithin (events : List NodeData) : ℕ → NodeData → List Label
  | 0, _ => []
  | n + 1, e =>
    match parent events e with
    | none => [e.label]
    | some p => pathWithin events n p ++ [e.label]

/-- **The path of an event**: the labels from its outermost ancestor to itself. There are no more
generations than events. -/
def path (events : List NodeData) (e : NodeData) : List Label := pathWithin events events.length e

/-- The number of events with a path. -/
def callsWith (events : List NodeData) (π : List Label) : ℕ :=
  events.countP fun e => path events e = π

/-- The sum of the durations of the events with a path. -/
def totalWith (events : List NodeData) (π : List Label) : ℕ :=
  ((events.filter fun e => path events e = π).map duration).sum

/-- The sum of the durations of the events whose parent has a path. -/
def childrenTotalWith (events : List NodeData) (π : List Label) : ℕ :=
  ((events.filter fun e => (parent events e).map (path events) = some π).map duration).sum

/-- The node for a path, in the types of the source. -/
def nodeWith (events : List NodeData) (π : List Label) : Node where
  path := π
  calls := wrapInt (callsWith events π)
  totalDuration := UInt64.ofNat (totalWith events π)
  totalChildrenDuration := UInt64.ofNat (childrenTotalWith events π)

/-- A node is the one for its path if it holds the counts and sums for it. -/
theorem eq_nodeWith_iff {events : List NodeData} {x : Node} :
    x = nodeWith events x.path ↔ x.calls = wrapInt (callsWith events x.path) ∧
      x.totalDuration = UInt64.ofNat (totalWith events x.path) ∧
      x.totalChildrenDuration = UInt64.ofNat (childrenTotalWith events x.path) := by
  rw [Node.ext_iff, nodeWith, eq_self, true_and]

/-- **The forest is the call tree of the events**: one node for every path, with the number of
events that have it, the sum of their durations, and the sum of the durations of the events
whose parent has it. -/
structure Rebuilds (events : List NodeData) (forest : List Node) : Prop where
  nodup : (forest.map Node.path).Nodup
  paths : ∀ π, π ∈ forest.map Node.path ↔ ∃ e ∈ events, path events e = π
  calls : ∀ x ∈ forest, x.calls = callsWith events x.path
  total : ∀ x ∈ forest, x.totalDuration.toNat = totalWith events x.path
  childrenTotal : ∀ x ∈ forest,
    x.totalChildrenDuration.toNat = childrenTotalWith events x.path

theorem contains_iff {p e : NodeData} :
    p.contains e = true ↔ p.startTs.toNat ≤ e.startTs.toNat ∧ e.stopTs.toNat ≤ p.stopTs.toNat := by
  rw [contains, Bool.and_eq_true, decide_eq_true_eq, decide_eq_true_eq,
    UInt64.le_iff_toNat_le, UInt64.le_iff_toNat_le]

variable {events sorted pre post : List NodeData} {e : NodeData}

theorem Laminar.nestedOrApart (h : Laminar events) {a b : NodeData} (ha : a ∈ events)
    (hb : b ∈ events) (hne : a ≠ b) : NestedOrApart (interval a) (interval b) := by
  have hsymm : Std.Symm fun a b : NodeData => NestedOrApart (interval a) (interval b) :=
    ⟨fun _ _ h => h.symm⟩
  exact h.nested.forall ha hb hne

theorem toNat_getDuration (h : e.startTs ≤ e.stopTs) : e.getDuration.toNat = duration e := by
  rw [getDuration, UInt64.toNat_sub_of_le _ _ h, duration]

/-! ### Distinct starts -/

/-- Events that all start at different times are strictly ordered. -/
theorem Arranges.strictly (h : Arranges sorted events) (hdistinct : (events.map startTs).Nodup) :
    sorted.Pairwise fun a b => a.startTs.toNat < b.startTs.toNat := by
  have hnodup : (sorted.map startTs).Nodup := (h.perm.map startTs).nodup_iff.mpr hdistinct
  refine (h.ordered.and (List.pairwise_map.mp hnodup)).imp ?_
  rintro a b ⟨hle, hne⟩
  refine Nat.lt_of_le_of_ne (UInt64.le_iff_toNat_le.mp hle) fun heq => ?_
  exact hne (UInt64.toNat_inj.mp heq)

section Distinct

variable (hlam : Laminar events) (hperm : (pre ++ e :: post).Perm events)
  (hstrict : (pre ++ e :: post).Pairwise fun a b => a.startTs.toNat < b.startTs.toNat)

include hlam hperm hstrict

/-- **What contains an event contains all events that start in between.** -/
theorem contains_between : pre.Pairwise fun p m => p.contains e = true → p.contains m = true := by
  obtain ⟨hpre, -, hlast⟩ := List.pairwise_append.mp hstrict
  have hmem : ∀ a ∈ pre, a ∈ events := fun a ha => hperm.mem_iff.mp (List.mem_append_left _ ha)
  have he : e ∈ events := hperm.mem_iff.mp (by simp)
  refine hpre.imp_of_mem ?_
  intro p m hp hm hpm hpe
  rw [contains_iff] at hpe ⊢
  have hme := hlast m hm e List.mem_cons_self
  have hstop := UInt64.le_iff_toNat_le.mp (hlam.start_le_stop e he)
  have hstop' := UInt64.le_iff_toNat_le.mp (hlam.start_le_stop m (hmem m hm))
  have hne : p ≠ m := by
    rintro rfl
    exact Nat.lt_irrefl _ hpm
  have hnested := hlam.nestedOrApart (hmem p hp) (hmem m hm) hne
  simp only [NestedOrApart, interval] at hnested
  omega

omit hlam in
/-- The other events that contain an event start before it. -/
theorem mem_containers_iff {p : NodeData} :
    p ∈ events.filter (fun p => p ≠ e ∧ p.contains e) ↔ p ∈ pre ∧ p.contains e = true := by
  obtain ⟨-, hrest, hlast⟩ := List.pairwise_append.mp hstrict
  rw [List.mem_filter, ← hperm.mem_iff, List.mem_append, List.mem_cons, decide_eq_true_eq]
  constructor
  · rintro ⟨hp | rfl | hp, hne, hpe⟩
    · exact ⟨hp, hpe⟩
    · exact absurd rfl hne
    · have hlt := (List.pairwise_cons.mp hrest).1 p hp
      have hle := (contains_iff.mp hpe).1
      omega
  · rintro ⟨hp, hpe⟩
    refine ⟨Or.inl hp, ?_, hpe⟩
    rintro rfl
    exact Nat.lt_irrefl _ (hlast p hp p List.mem_cons_self)

omit hlam in
/-- **The parent is the last of the earlier events that contain the event.** -/
theorem parent_eq :
    parent events e =
      ((placements pre).reverse.find? fun x => x.1.contains e).map Prod.fst := by
  have hmem : ∀ p, p ∈ events.filter (fun p => p ≠ e ∧ p.contains e) ↔
      p ∈ pre ∧ p.contains e = true := fun p => mem_containers_iff hperm hstrict
  have hfst : (placements pre).map Prod.fst = pre := Nesting.map_fst_place [] pre
  rw [parent]
  generalize events.filter _ = containers at hmem ⊢
  rcases hfind : (placements pre).reverse.find? (fun x => x.1.contains e) with _ | x
  · have hnil : containers = [] := by
      refine List.eq_nil_iff_forall_not_mem.mpr fun p hp => ?_
      obtain ⟨hpre, hpe⟩ := (hmem p).mp hp
      rw [← hfst] at hpre
      obtain ⟨y, hy, rfl⟩ := List.mem_map.mp hpre
      exact List.find?_eq_none.mp hfind y (List.mem_reverse.mpr hy) hpe
    rw [hnil, hfind]
    rfl
  · obtain ⟨hxe, later, earlier, hsplit, hlater⟩ := List.find?_eq_some_iff_append.mp hfind
    have hrev : pre.reverse = later.map Prod.fst ++ x.1 :: earlier.map Prod.fst := by
      rw [← hfst, ← List.map_reverse, hsplit, List.map_append, List.map_cons]
    have hdec : pre.reverse.Pairwise fun a b => b.startTs.toNat < a.startTs.toNat :=
      List.pairwise_reverse.mpr (List.pairwise_append.mp hstrict).1
    rw [hrev] at hdec
    have hx : x.1 ∈ containers := (hmem x.1).mpr ⟨List.mem_reverse.mp (hrev ▸ by simp), hxe⟩
    -- any other container is earlier
    have hother : ∀ p ∈ containers, p = x.1 ∨ p.startTs.toNat < x.1.startTs.toNat := by
      intro p hp
      obtain ⟨hpre, hpe⟩ := (hmem p).mp hp
      rw [← List.mem_reverse, hrev, List.mem_append, List.mem_cons] at hpre
      rcases hpre with hp | rfl | hp
      · obtain ⟨y, hy, rfl⟩ := List.mem_map.mp hp
        have hno := hlater y hy
        rw [hpe] at hno
        cases hno
      · exact Or.inl rfl
      · exact Or.inr ((List.pairwise_cons.mp (List.pairwise_append.mp hdec).2.1).1 p hp)
    rcases hmax : containers.argmax (fun p => p.startTs.toNat) with _ | m
    · rw [List.argmax_eq_none.mp hmax] at hx
      cases hx
    · have hle := List.le_of_mem_argmax hx hmax
      rcases hother m (List.argmax_mem hmax) with rfl | hlt
      · rw [hmax, hfind]
        rfl
      · exact absurd hle (Nat.not_le.mpr hlt)

end Distinct

/-- An event with the path where it is placed after the events before it. -/
def placedAfter (pre : List NodeData) (e : NodeData) : NodeData × List Label :=
  Nesting.placeOne label contains
    (Nesting.chainAfter label contains [] pre) e

/-- An event is placed right below the last earlier event that contains it. -/
theorem tail_placedAfter (hlam : Laminar events) (hperm : (pre ++ e :: post).Perm events)
    (hstrict : (pre ++ e :: post).Pairwise fun a b => a.startTs.toNat < b.startTs.toNat) :
    (placedAfter pre e).2.tail =
      (((placements pre).reverse.find? fun x => x.1.contains e).map Prod.snd).getD [] := by
  rw [placedAfter, Nesting.placeOne, List.tail_cons, Nesting.topPath_eq_head?,
    Nesting.head?_remaining (contains_between hlam hperm hstrict)]
  rfl

/-- **An event is placed at its path.** -/
theorem pathWithin_eq (hlam : Laminar events) {n : ℕ} (hn : pre.length < n)
    (hperm : (pre ++ e :: post).Perm events)
    (hstrict : (pre ++ e :: post).Pairwise fun a b => a.startTs.toNat < b.startTs.toNat) :
    pathWithin events n e = (placedAfter pre e).2.reverse := by
  induction n generalizing pre e post with
  | zero => cases hn
  | succ n ih =>
    have hcons : (placedAfter pre e).2 = e.label :: (placedAfter pre e).2.tail := rfl
    rw [pathWithin, parent_eq hperm hstrict, hcons, tail_placedAfter hlam hperm hstrict,
      List.reverse_cons]
    rcases hfind : (placements pre).reverse.find? (fun x => x.1.contains e) with _ | x <;>
      rw [hfind]
    · rfl
    · -- the parent was placed at its own path
      have hx := List.mem_reverse.mp (List.mem_of_find?_eq_some hfind)
      obtain ⟨before, between, rfl, hplace⟩ := Nesting.exists_of_mem_place hx
      rw [List.append_assoc, List.cons_append] at hperm hstrict
      have hlen : before.length < n := by
        rw [List.length_append, List.length_cons] at hn
        omega
      have hpath := ih hlen hperm hstrict
      rw [placedAfter, ← hplace] at hpath
      exact congrArg (· ++ [e.label]) hpath

variable {x : NodeData × List Label}

/-- What the placements say about an event. -/
theorem mem_placements (hlam : Laminar events) (harr : Arranges sorted events)
    (hdistinct : (events.map startTs).Nodup) (hx : x ∈ placements sorted) :
    x.2 = (path events x.1).reverse ∧
      x.2.tail = (((parent events x.1).map (path events)).getD []).reverse := by
  have hstrict := harr.strictly hdistinct
  have hperm := harr.perm
  obtain ⟨pre, post, rfl, hplace⟩ := Nesting.exists_of_mem_place hx
  have hlen : events.length = pre.length + (post.length + 1) := by
    rw [← hperm.length_eq, List.length_append, List.length_cons]
  have hpath := pathWithin_eq hlam (by omega : pre.length < events.length) hperm hstrict
  have htail := tail_placedAfter hlam hperm hstrict
  rw [placedAfter, ← hplace] at hpath htail
  refine ⟨by rw [path, hpath, List.reverse_reverse], ?_⟩
  rw [htail, parent_eq hperm hstrict]
  rcases hfind : (placements pre).reverse.find? (fun y => y.1.contains x.1) with _ | y <;>
    rw [hfind]
  · rfl
  · have hy := List.mem_reverse.mp (List.mem_of_find?_eq_some hfind)
    obtain ⟨before, between, rfl, hplace'⟩ := Nesting.exists_of_mem_place hy
    rw [List.append_assoc, List.cons_append] at hperm hstrict
    rw [List.length_append, List.length_cons] at hlen
    have hpath' := pathWithin_eq hlam (by omega : before.length < events.length) hperm hstrict
    rw [placedAfter, ← hplace'] at hpath'
    change y.2 = (path events y.1).reverse
    rw [path, hpath', List.reverse_reverse]

theorem map_fst_placements (sorted : List NodeData) : (placements sorted).map Prod.fst = sorted :=
  Nesting.map_fst_place [] sorted

/-- A sum over the events placed is a sum over the events. -/
theorem durations_placements (hlam : Laminar events) (harr : Arranges sorted events)
    {p : NodeData × List Label → Bool} (q : NodeData → Bool)
    (hpq : ∀ x ∈ placements sorted, p x = q x.1) :
    durations (placements sorted) p = ((events.filter q).map duration).sum := by
  have hvalid : ∀ e ∈ sorted.filter q, e.getDuration.toNat = duration e := fun e he =>
    toNat_getDuration (hlam.start_le_stop e (harr.perm.mem_iff.mp (List.mem_of_mem_filter he)))
  calc durations (placements sorted) p
      = (((placements sorted).filter (q ∘ Prod.fst)).map fun x => x.1.getDuration.toNat).sum := by
        rw [durations, List.filter_congr hpq]
        rfl
    _ = ((sorted.filter q).map fun e => e.getDuration.toNat).sum := by
        conv_rhs => rw [← map_fst_placements sorted, List.filter_map, List.map_map]
        rfl
    _ = ((sorted.filter q).map duration).sum := by rw [List.map_congr_left hvalid]
    _ = ((events.filter q).map duration).sum := ((harr.perm.filter q).map duration).sum_eq

variable (hlam : Laminar events) (harr : Arranges sorted events)
  (hdistinct : (events.map startTs).Nodup)

include hlam harr hdistinct

theorem placed_at_iff (hx : x ∈ placements sorted) (π : List Label) :
    x.2 = π.reverse ↔ path events x.1 = π := by
  rw [(mem_placements hlam harr hdistinct hx).1, List.reverse_inj]

theorem placed_below_iff (hx : x ∈ placements sorted) {π : List Label} (hπ : π ≠ []) :
    x.2.tail = π.reverse ↔ (parent events x.1).map (path events) = some π := by
  rw [(mem_placements hlam harr hdistinct hx).2, List.reverse_inj]
  rcases (parent events x.1).map (path events) with _ | π'
  · exact iff_of_false (Ne.symm hπ) (by simp)
  · exact Option.some_inj.symm

theorem countAt_placements (π : List Label) :
    countAt (placements sorted) π.reverse = callsWith events π := by
  have hcongr : ∀ x ∈ placements sorted, decide (x.2 = π.reverse) = true ↔
      ((fun e => decide (path events e = π)) ∘ Prod.fst) x = true := fun x hx => by
    simp only [Function.comp_apply, decide_eq_true_eq]
    exact placed_at_iff hlam harr hdistinct hx π
  rw [countAt, List.countP_congr hcongr, ← List.countP_map, map_fst_placements, callsWith,
    harr.perm.countP_eq]

/-- **The forest of `make`**: a node for every path, with the counts and sums of the call tree in
the types of the source. -/
theorem mem_forest_iff {x : Node} :
    x ∈ (make sorted).forest ↔
      (∃ e ∈ events, path events e = x.path) ∧ x = nodeWith events x.path := by
  have hexists : (∃ y ∈ placements sorted, y.2 = x.path.reverse) ↔
      ∃ e ∈ events, path events e = x.path := by
    constructor
    · rintro ⟨y, hy, hpath⟩
      have hmem : y.1 ∈ (placements sorted).map Prod.fst := List.mem_map_of_mem hy
      rw [map_fst_placements, harr.perm.mem_iff] at hmem
      exact ⟨y.1, hmem, (placed_at_iff hlam harr hdistinct hy _).mp hpath⟩
    · rintro ⟨e, he, hpath⟩
      rw [← harr.perm.mem_iff, ← map_fst_placements sorted] at he
      obtain ⟨y, hy, rfl⟩ := List.mem_map.mp he
      exact ⟨y, hy, (placed_at_iff hlam harr hdistinct hy _).mpr hpath⟩
  rw [mem_forest_make, hexists, countAt_placements hlam harr hdistinct]
  refine and_congr_right ?_
  intro hpath
  -- the path of an event is not empty
  have hne : x.path ≠ [] := by
    obtain ⟨y, hy, hpath⟩ := hexists.mpr hpath
    obtain ⟨pre, post, -, hplace⟩ := Nesting.exists_of_mem_place hy
    intro hnil
    rw [hnil, hplace] at hpath
    cases hpath
  have htotal : durations (placements sorted) (fun y => y.2 = x.path.reverse) =
      totalWith events x.path :=
    durations_placements hlam harr _ fun y hy =>
      decide_eq_decide.mpr (placed_at_iff hlam harr hdistinct hy x.path)
  have hchildren : durations (placements sorted) (fun y => y.2.tail = x.path.reverse) =
      childrenTotalWith events x.path :=
    durations_placements hlam harr (fun e => (parent events e).map (path events) = some x.path)
      fun y hy => decide_eq_decide.mpr (placed_below_iff hlam harr hdistinct hy hne)
  rw [htotal, hchildren, eq_nodeWith_iff]

/-- **`CallGraph::make` rebuilds the call tree** of events that all start at different times, if
the sums of durations and the numbers of calls are in the range of their types. -/
theorem rebuilds_of_distinct_starts
    (htotal : ∀ π, totalWith events π < 2 ^ 64 ∧ childrenTotalWith events π < 2 ^ 64)
    (hcalls : ∀ π, callsWith events π < 2 ^ 31) : Rebuilds events (make sorted).forest where
  nodup := nodup_forest_make sorted
  paths := by
    intro π
    rw [List.mem_map]
    constructor
    · rintro ⟨x, hx, rfl⟩
      exact ((mem_forest_iff hlam harr hdistinct).mp hx).1
    · intro hpath
      exact ⟨nodeWith events π, (mem_forest_iff hlam harr hdistinct).mpr ⟨hpath, rfl⟩, rfl⟩
  calls := by
    intro x hx
    obtain ⟨hnode, -, -⟩ := eq_nodeWith_iff.mp ((mem_forest_iff hlam harr hdistinct).mp hx).2
    rw [hnode, wrapInt_of_lt (hcalls x.path)]
  total := by
    intro x hx
    obtain ⟨-, hnode, -⟩ := eq_nodeWith_iff.mp ((mem_forest_iff hlam harr hdistinct).mp hx).2
    rw [hnode, UInt64.toNat_ofNat_of_lt' (htotal x.path).1]
  childrenTotal := by
    intro x hx
    obtain ⟨-, -, hnode⟩ := eq_nodeWith_iff.mp ((mem_forest_iff hlam harr hdistinct).mp hx).2
    rw [hnode, UInt64.toNat_ofNat_of_lt' (htotal x.path).2]

omit hlam harr hdistinct

theorem totals_le (events : List NodeData) (π : List Label) :
    totalWith events π ≤ (events.map duration).sum ∧
      childrenTotalWith events π ≤ (events.map duration).sum :=
  ⟨(List.filter_sublist.map duration).sum_le_sum fun _ _ => Nat.zero_le _,
    (List.filter_sublist.map duration).sum_le_sum fun _ _ => Nat.zero_le _⟩

/-- A function that calls another one twice. -/
theorem rebuilds_of_two_calls :
    let events := [NodeData.new [102] 0 10, NodeData.new [103] 1 2, NodeData.new [103] 3 2]
    Laminar events ∧ Rebuilds events (make events).forest := by
  intro events
  have hlam : Laminar events := ⟨by decide, by decide⟩
  have hsum : (events.map duration).sum < 2 ^ 64 := by decide
  refine ⟨hlam, rebuilds_of_distinct_starts hlam ⟨.refl _, by decide⟩ (by decide) ?_ ?_⟩
  · exact fun π => ⟨Nat.lt_of_le_of_lt (totals_le events π).1 hsum,
      Nat.lt_of_le_of_lt (totals_le events π).2 hsum⟩
  · exact fun π => Nat.lt_of_le_of_lt List.countP_le_length (by decide)

/-! ### More calls than an `int` can count -/

/-- Calls of one function, one after the other. -/
def flatCalls (n : ℕ) : List NodeData :=
  (List.range n).map fun i => ⟨[102], UInt64.ofNat (2 * i), UInt64.ofNat (2 * i + 1)⟩

section FlatCalls

variable {n : ℕ} (hn : n ≤ 2 ^ 31)

include hn

theorem mem_flatCalls {e : NodeData} (he : e ∈ flatCalls n) :
    e.label = [102] ∧ e.stopTs.toNat = e.startTs.toNat + 1 := by
  obtain ⟨i, hi, rfl⟩ := List.mem_map.mp he
  have hlt := List.mem_range.mp hi
  refine ⟨rfl, ?_⟩
  change (UInt64.ofNat _).toNat = (UInt64.ofNat _).toNat + 1
  rw [UInt64.toNat_ofNat_of_lt' (by omega : 2 * i < 2 ^ 64),
    UInt64.toNat_ofNat_of_lt' (by omega : 2 * i + 1 < 2 ^ 64)]

theorem flatCalls_pairwise :
    (flatCalls n).Pairwise fun a b => a.stopTs.toNat ≤ b.startTs.toNat := by
  refine List.pairwise_map.mpr ((List.pairwise_lt_range).imp_of_mem ?_)
  intro i j hi hj hij
  have hlt := List.mem_range.mp hj
  change (UInt64.ofNat _).toNat ≤ (UInt64.ofNat _).toNat
  rw [UInt64.toNat_ofNat_of_lt' (by omega : 2 * i + 1 < 2 ^ 64),
    UInt64.toNat_ofNat_of_lt' (by omega : 2 * j < 2 ^ 64)]
  omega

theorem laminar_flatCalls : Laminar (flatCalls n) where
  start_le_stop := by
    intro e he
    have hstop := (mem_flatCalls hn he).2
    rw [UInt64.le_iff_toNat_le]
    omega
  nested := (flatCalls_pairwise hn).imp fun hle => Or.inr (Or.inr (Or.inl hle))

theorem starts_flatCalls : (flatCalls n).Pairwise fun a b => a.startTs.toNat < b.startTs.toNat := by
  refine (flatCalls_pairwise hn).imp_of_mem ?_
  intro a b ha hb hle
  have hstop := (mem_flatCalls hn ha).2
  omega

theorem parent_flatCalls {e : NodeData} (he : e ∈ flatCalls n) : parent (flatCalls n) e = none := by
  have hsymm : Std.Symm fun a b : NodeData => a.stopTs.toNat ≤ b.startTs.toNat ∨
      b.stopTs.toNat ≤ a.startTs.toNat := ⟨fun _ _ h => h.symm⟩
  have hpairs : (flatCalls n).Pairwise fun a b => a.stopTs.toNat ≤ b.startTs.toNat ∨
      b.stopTs.toNat ≤ a.startTs.toNat := (flatCalls_pairwise hn).imp Or.inl
  rw [parent, List.argmax_eq_none, List.filter_eq_nil_iff]
  intro p hp hpe
  obtain ⟨hne, hcontains⟩ := of_decide_eq_true hpe
  have hle := contains_iff.mp hcontains
  have hstop := (mem_flatCalls hn hp).2
  have hstop' := (mem_flatCalls hn he).2
  have hapart := hpairs.forall hp he hne
  omega

theorem path_flatCalls {e : NodeData} (he : e ∈ flatCalls n) : path (flatCalls n) e = [[102]] := by
  obtain ⟨m, hm⟩ : ∃ m, (flatCalls n).length = m + 1 :=
    ⟨_, (Nat.succ_pred_eq_of_pos (List.length_pos_of_mem he)).symm⟩
  rw [path, hm, pathWithin, parent_flatCalls hn he, (mem_flatCalls hn he).1]

theorem callsWith_flatCalls : callsWith (flatCalls n) [[102]] = n := by
  have hall : ∀ e ∈ flatCalls n, decide (path (flatCalls n) e = [[102]]) = true := fun e he =>
    decide_eq_true (path_flatCalls hn he)
  rw [callsWith, List.countP_eq_length.mpr hall, flatCalls, List.length_map, List.length_range]

theorem totals_flatCalls : ((flatCalls n).map duration).sum = n := by
  have hone : ∀ e ∈ flatCalls n, duration e = 1 := fun e he => by
    rw [duration, (mem_flatCalls hn he).2]
    omega
  rw [List.map_congr_left hone, List.map_const', List.sum_replicate, flatCalls, List.length_map,
    List.length_range]
  exact Nat.mul_one n

theorem arranges_flatCalls : Arranges (flatCalls n) (flatCalls n) :=
  ⟨.refl _, (starts_flatCalls hn).imp fun hlt => UInt64.le_iff_toNat_le.mpr (Nat.le_of_lt hlt)⟩

theorem nodup_starts_flatCalls : ((flatCalls n).map startTs).Nodup := by
  refine List.pairwise_map.mpr ((starts_flatCalls hn).imp ?_)
  intro a b hlt heq
  rw [heq] at hlt
  exact Nat.lt_irrefl _ hlt

/-- The function has a node. -/
theorem nodeWith_mem_forest_flatCalls (hpos : 0 < n) :
    nodeWith (flatCalls n) [[102]] ∈ (make (flatCalls n)).forest := by
  obtain ⟨e, he⟩ : ∃ e, e ∈ flatCalls n := List.exists_mem_of_length_pos (by
    rwa [flatCalls, List.length_map, List.length_range])
  exact (mem_forest_iff (laminar_flatCalls hn) (arranges_flatCalls hn)
    (nodup_starts_flatCalls hn)).mpr ⟨⟨e, he, path_flatCalls hn he⟩, rfl⟩

end FlatCalls

/-- **`2 ^ 31` calls of a function are too many for the `int` that counts them**, though no sum
of durations overflows. -/
theorem calls_out_of_range :
    ∃ events : List NodeData, Laminar events ∧ Arranges events events ∧
      (events.map startTs).Nodup ∧
      (∀ π, totalWith events π < 2 ^ 64 ∧ childrenTotalWith events π < 2 ^ 64) ∧
      ¬ Rebuilds events (make events).forest := by
  have hn : 2 ^ 31 ≤ 2 ^ 31 := Nat.le_refl _
  generalize hm : 2 ^ 31 = m at hn
  have hle : m ≤ 2 ^ 31 := Nat.le_of_eq hm.symm
  refine ⟨flatCalls m, laminar_flatCalls hle, arranges_flatCalls hle, nodup_starts_flatCalls hle,
    fun π => ?_, fun h => ?_⟩
  · have htotals := totals_le (flatCalls m) π
    rw [totals_flatCalls hle] at htotals
    omega
  · -- the node of the function is there, with a negative count
    have hcount := h.calls _ (nodeWith_mem_forest_flatCalls hle (by omega))
    rw [nodeWith] at hcount
    dsimp only at hcount
    rw [callsWith_flatCalls hle, ← hm] at hcount
    exact absurd hcount (by unfold wrapInt; decide)

/-! ### The order of the events -/

/-- **The forest does not depend on the order of the events**, nor on what `std::sort` does with
events that start at the same time: it is the same up to the order of siblings. -/
def SameForests (events : List NodeData) : Prop :=
  ∀ events' sorted sorted' : List NodeData, events'.Perm events → Arranges sorted events →
    Arranges sorted' events' → (make sorted).forest.Perm (make sorted').forest

/-- Events that all start at different times can be ordered in one way only. -/
theorem Arranges.unique (hdistinct : (events.map startTs).Nodup) {sorted' : List NodeData}
    (harr : Arranges sorted events) (harr' : Arranges sorted' events) : sorted = sorted' := by
  have hsorted : sorted.Perm sorted' := harr.perm.trans harr'.perm.symm
  refine List.Perm.eq_of_pairwise ?_ harr.ordered harr'.ordered hsorted
  intro a b ha hb hab hba
  have hb' := hsorted.symm.mem_iff.mp hb
  exact List.inj_on_of_nodup_map hdistinct (harr.perm.mem_iff.mp ha) (harr.perm.mem_iff.mp hb')
    (UInt64.le_antisymm hab hba)

theorem sameForests_of_distinct_starts (hdistinct : (events.map startTs).Nodup) :
    SameForests events := by
  intro events' sorted sorted' hperm harr harr'
  rw [harr.unique hdistinct ⟨harr'.perm.trans hperm, harr'.ordered⟩]

/-- Of two events that start at the same time the longer one comes first. -/
def callerFirst (a b : NodeData) : Bool :=
  decide (a.startTs.toNat < b.startTs.toNat ∨
    a.startTs.toNat = b.startTs.toNat ∧ b.stopTs.toNat ≤ a.stopTs.toNat)

theorem callerFirst_iff {a b : NodeData} : callerFirst a b = true ↔
    a.startTs.toNat < b.startTs.toNat ∨
      a.startTs.toNat = b.startTs.toNat ∧ b.stopTs.toNat ≤ a.stopTs.toNat :=
  decide_eq_true_iff

/-- The events can be ordered with callers first. -/
theorem exists_callerFirst (events : List NodeData) :
    ∃ sorted : List NodeData, sorted.Perm events ∧
      sorted.Pairwise fun a b => callerFirst a b = true := by
  refine ⟨events.mergeSort callerFirst, List.mergeSort_perm _ _,
    List.pairwise_mergeSort ?_ ?_ events⟩
  · intro a b c
    rw [callerFirst_iff, callerFirst_iff, callerFirst_iff]
    omega
  · intro a b
    rw [Bool.or_eq_true, callerFirst_iff, callerFirst_iff]
    omega

/-- Events two of which start at the same time have such neighbours in every order by start. -/
theorem exists_neighbours {sorted : List NodeData} (harr : Arranges sorted events)
    (hdup : ¬ (events.map startTs).Nodup) :
    ∃ pre p c post, sorted = pre ++ p :: c :: post ∧ ¬ p.startTs.toNat < c.startTs.toNat := by
  by_contra hno
  have hchain : sorted.IsChain fun a b => a.startTs.toNat < b.startTs.toNat := by
    refine List.isChain_iff_forall_rel_of_append_cons_cons.mpr fun p c pre post heq => ?_
    by_contra hlt
    exact hno ⟨pre, p, c, post, heq, hlt⟩
  have htrans : Trans (fun a b : NodeData => a.startTs.toNat < b.startTs.toNat)
      (fun a b : NodeData => a.startTs.toNat < b.startTs.toNat)
      (fun a b : NodeData => a.startTs.toNat < b.startTs.toNat) := ⟨Nat.lt_trans⟩
  refine hdup ((harr.perm.map startTs).nodup_iff.mp (List.pairwise_map.mpr ?_))
  refine (List.isChain_iff_pairwise.mp hchain).imp ?_
  intro a b hlt heq
  rw [heq] at hlt
  exact Nat.lt_irrefl _ hlt

/-- **A callee that comes before its caller changes the forest.** -/
theorem forest_swap {p c : NodeData} (hpc : p.contains c = true) (hcp : c.contains p = false)
    (hsame : ∀ x ∈ pre, x.contains c = x.contains p) :
    ¬ (make (pre ++ c :: p :: post)).forest.Perm (make (pre ++ p :: c :: post)).forest := by
  intro hperm
  have hsame' : ∀ x ∈ Nesting.chainAfter label contains [] pre,
      x.1.contains c = x.1.contains p := by
    intro x hx
    have hmem := (Nesting.mem_place_of_mem_chainAfter hx).resolve_left List.not_mem_nil
    have hfst : x.1 ∈ (placements pre).map Prod.fst := List.mem_map_of_mem hmem
    rw [map_fst_placements] at hfst
    exact hsame x.1 hfst
  have htrans : ∀ a ∈ post, c.contains a = true → p.contains a = true := by
    intro a _ hca
    rw [contains_iff] at hpc hca ⊢
    omega
  obtain ⟨q, hq⟩ := Nesting.countP_place_swap hpc hcp hsame' htrans
  have hcount : countAt (placements (pre ++ c :: p :: post)) q =
      countAt (placements (pre ++ p :: c :: post)) q + 1 := hq
  have hpos : 0 < countAt (placements (pre ++ c :: p :: post)) q := by omega
  obtain ⟨y, hy, hyq⟩ := List.countP_pos_iff.mp hpos
  obtain ⟨x, hx, hxq⟩ := (exists_node_iff _ q).mpr ⟨y, hy, of_decide_eq_true hyq⟩
  have hcalls := ((mem_forest_make _).mp hx).2.1
  have hcalls' := ((mem_forest_make _).mp (hperm.mem_iff.mp hx)).2.1
  rw [hxq, List.reverse_reverse] at hcalls hcalls'
  rw [hcalls, hcount] at hcalls'
  exact wrapInt_succ_ne _ hcalls'

/-- What contains the callee contains the caller, if callers come first. -/
theorem contains_caller {x p c : NodeData} (hfirst : callerFirst x p = true)
    (hstart : p.startTs.toNat = c.startTs.toNat) (hstop : c.stopTs.toNat < p.stopTs.toNat)
    (hpos : c.startTs.toNat < c.stopTs.toNat) (hxp : NestedOrApart (interval x) (interval p)) :
    x.contains c = x.contains p := by
  rw [Bool.eq_iff_iff, contains_iff, contains_iff]
  rw [callerFirst_iff] at hfirst
  simp only [NestedOrApart, interval] at hxp
  omega

/-- **The forest is the same for every order of the events exactly if no two of them start at the
same time.** -/
theorem sameForests_iff (events : List NodeData) (hpos : ∀ e ∈ events, e.startTs < e.stopTs)
    (hne : events.Pairwise fun a b => interval a ≠ interval b)
    (hnested : events.Pairwise fun a b => NestedOrApart (interval a) (interval b)) :
    SameForests events ↔ (events.map startTs).Nodup := by
  refine ⟨fun hall => ?_, sameForests_of_distinct_starts⟩
  by_contra hdup
  obtain ⟨sorted, hperm, hfirst⟩ := exists_callerFirst events
  have harr : Arranges sorted events := by
    refine ⟨hperm, hfirst.imp fun hab => UInt64.le_iff_toNat_le.mpr ?_⟩
    have := callerFirst_iff.mp hab
    omega
  obtain ⟨pre, p, c, post, rfl, hlt⟩ := exists_neighbours harr hdup
  -- the two neighbours are a caller and a callee that start together
  obtain ⟨-, hrest, hbefore⟩ := List.pairwise_append.mp hfirst
  have hpc := callerFirst_iff.mp ((List.pairwise_cons.mp hrest).1 c List.mem_cons_self)
  have hstart : p.startTs.toNat = c.startTs.toNat := by omega
  have hstop : c.stopTs.toNat < p.stopTs.toNat := by
    have hintervals := hperm.pairwise_iff (fun h => Ne.symm h) |>.mpr hne
    have hcons := (List.pairwise_append.mp hintervals).2.1
    have hdiff := (List.pairwise_cons.mp hcons).1 c List.mem_cons_self
    have hstops : c.stopTs.toNat ≠ p.stopTs.toNat := fun heq => hdiff (Prod.ext hstart heq.symm)
    omega
  have hlam := hperm.pairwise_iff (fun h => NestedOrApart.symm h) |>.mpr hnested
  have hposc := UInt64.lt_iff_toNat_lt.mp (hpos c (hperm.mem_iff.mp (by simp)))
  have hsame : ∀ x ∈ pre, x.contains c = x.contains p := fun x hx =>
    contains_caller (hbefore x hx p List.mem_cons_self) hstart hstop hposc
      ((List.pairwise_append.mp hlam).2.2 x hx p List.mem_cons_self)
  have hpcontains : p.contains c = true := contains_iff.mpr ⟨by omega, by omega⟩
  have hcontains : c.contains p = false := by
    rw [Bool.eq_false_iff, ne_eq, contains_iff]
    omega
  -- so they may as well be sorted the other way round
  have hswap : (pre ++ c :: p :: post).Perm (pre ++ p :: c :: post) :=
    (List.Perm.swap p c post).append_left pre
  have harr' : Arranges (pre ++ c :: p :: post) events := by
    refine ⟨hswap.trans hperm, ?_⟩
    have hstarts : (pre ++ c :: p :: post).map startTs = (pre ++ p :: c :: post).map startTs := by
      simp [UInt64.toNat_inj.mp hstart]
    have hordered := List.pairwise_map.mpr harr.ordered
    rw [← hstarts] at hordered
    exact List.pairwise_map.mp hordered
  exact forest_swap hpcontains hcontains hsame (hall events _ _ (.refl _) harr' harr)

/-- Three calls that start at different times. -/
theorem sameForests_of_three_calls :
    SameForests [NodeData.new [103] 3 2, NodeData.new [102] 0 10, NodeData.new [103] 5 1] :=
  (sameForests_iff _ (by decide) (by decide) (by decide)).mpr (by decide)

/-- **A caller and a callee that start in the same tick** give one root or two, depending on
which of them comes first. -/
theorem forests_of_equal_starts :
    let caller := NodeData.new [102] 0 10
    let callee := NodeData.new [103] 0 5
    Arranges [caller, callee] [caller, callee] ∧ Arranges [callee, caller] [caller, callee] ∧
      (make [caller, callee]).rootCalls.length = 1 ∧
      (make [callee, caller]).rootCalls.length = 2 ∧ ¬ SameForests [caller, callee] := by
  intro caller callee
  have hfirst : Arranges [caller, callee] [caller, callee] := ⟨.refl _, by decide⟩
  have hsecond : Arranges [callee, caller] [caller, callee] := ⟨.swap _ _ _, by decide⟩
  refine ⟨hfirst, hsecond, by decide, by decide, fun hall => ?_⟩
  have hnone : ∀ x ∈ ([] : List NodeData), x.contains callee = x.contains caller := by
    rintro x ⟨⟩
  have hdiffer : ¬ (make ([] ++ callee :: caller :: [])).forest.Perm
      (make ([] ++ caller :: callee :: [])).forest := forest_swap (by decide) (by decide) hnone
  exact hdiffer (hall _ _ _ (.refl _) hsecond hfirst)

end CallTree

end HawkTracer.Client
