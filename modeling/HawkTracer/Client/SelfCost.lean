import HawkTracer.Base.Ticks
import HawkTracer.Client.Conservation
import HawkTracer.Lib.Klass

/-!
# The cost of a function without its callees

`CallgrindConverter::_print_function` goes through the tree below a root call and prints, for
every node, its duration minus the durations of its callees: an unsigned difference. It is the
time spent in the function itself as long as the callees of a node do not take longer than its
calls.

Where the calls of a thread are nested or apart and no two start in the same tick, they do not
(`HawkTracer.Client.CallGraph.selfCosts_of_laminar`). How long they take is read off the clock
here. An event runs for as many ticks as its duration says
(`HawkTracer.Client.CallGraph.runs`), and at every tick at most one call with a given path is
running, and its callee, if one is running, at a tick at which the call is
(`HawkTracer.Client.CallGraph.calleesRunning_le`); so the sums of the durations compare, and none
of them wraps around. But a function and its callee that start in the same tick may be sorted the
wrong way round; then both are charged to the caller, and the difference wraps around
(`HawkTracer.Client.CallGraph.selfCosts_wrap_around`). It does so as well where the intervals
overlap, as those of several threads collected under one id can.
-/

namespace HawkTracer.Client

namespace CallGraph

open HawkTracer.Ticks

/-! ### The source -/

/-- `cfn=`, `calls=` and the cost of a callee. -/
structure PrintedCall where
  cfn : Label
  calls : ℤ
  cost : UInt64
  deriving DecidableEq

/-- What `_print_function` prints about one node: `fn=`, the cost, and the callees. -/
structure PrintedFunction where
  fn : Label
  cost : UInt64
  calls : List PrintedCall
  deriving DecidableEq

/-- The name of a callee. -/
def childLabel (g : CallGraph) (fn : Label) (call : ℕ × ℤ) : Label :=
  (g.heap call.1).data.label ++ ascii "()'" ++ fn

/-- The lines for a node. -/
def printNode (g : CallGraph) (i : ℕ) (fn : Label) : PrintedFunction where
  fn := fn
  cost := (g.heap i).totalDuration - (g.heap i).totalChildrenDuration
  calls := (g.heap i).children.map fun call =>
    ⟨g.childLabel fn call, call.2, (g.heap call.1).totalDuration⟩

/-- The loop of `_print_function`, with the nodes the lines are about; nothing if the queue is
not empty after so many tests. -/
def printLoop (g : CallGraph) : ℕ → List (ℕ × Label) → Option (List (ℕ × PrintedFunction))
  | 0, _ => none
  | _ + 1, [] => some []
  | rounds + 1, (i, fn) :: queue =>
    (g.printLoop rounds
      (queue ++ (g.heap i).children.map fun call => (call.1, g.childLabel fn call))).map
      ((i, g.printNode i fn) :: ·)

/-- `_print_function`; every node is printed once. -/
def printFunction (g : CallGraph) (root : ℕ) : Option (List (ℕ × PrintedFunction)) :=
  g.printLoop (g.allocated + 1) [(root, (g.heap root).data.label ++ ascii "()")]

/-- **No cost wraps around**: in every node the callees have at most the duration of the calls,
and every cost that is printed is at most the duration of its node. -/
structure SelfCosts (g : CallGraph) : Prop where
  nodes : ∀ x ∈ g.forest, x.totalChildrenDuration ≤ x.totalDuration
  printed : ∀ call ∈ g.rootCalls, ∃ lines, g.printFunction call.1 = some lines ∧
    ∀ p ∈ lines, p.2.cost ≤ (g.heap p.1).totalDuration

/-! ### What is printed -/

variable {g : CallGraph} {paths : ℕ → List Label} {placed : List (NodeData × List Label)}

/-- **The state of the loop**: some nodes have been printed, some are in the queue, all of them
different; each of them is the root or has a parent that has been printed. -/
structure Printing (g : CallGraph) (root : ℕ) (printed : List ℕ) (queue : List (ℕ × Label)) :
    Prop where
  nodup : (printed ++ queue.map Prod.fst).Nodup
  inForest : ∀ i ∈ printed ++ queue.map Prod.fst, g.InForest i
  parent : ∀ i ∈ printed ++ queue.map Prod.fst, i = root ∨ ∃ j ∈ printed, (g.heap i).parent = some j

section Loop

variable {root i : ℕ} {fn : Label} {printed : List ℕ} {queue : List (ℕ × Label)}
  (hroot : (g.heap root).parent = none)

include hroot

/-- The children of the next node are new: one that is known is the root, or the child of a node
that has been printed. -/
theorem Printing.notMem_of_parent (hp : Printing g root printed ((i, fn) :: queue)) {k : ℕ}
    (hk : (g.heap k).parent = some i) : k ∉ printed ++ ((i, fn) :: queue).map Prod.fst := by
  have hnot : i ∉ printed := by
    have hnodup := hp.nodup
    rw [List.map_cons, List.nodup_append] at hnodup
    exact fun hmem => hnodup.2.2 i hmem i List.mem_cons_self rfl
  intro hmem
  rcases hp.parent k hmem with rfl | ⟨j, hj, hkj⟩
  · rw [hroot] at hk
    cases hk
  · rw [hk] at hkj
    exact hnot (Option.some.inj hkj ▸ hj)

/-- One node is printed, and its children are put in the queue. -/
theorem Represents.printing_step (h : Represents g paths placed)
    (hp : Printing g root printed ((i, fn) :: queue)) :
    Printing g root (printed ++ [i])
      (queue ++ (g.heap i).children.map fun call => (call.1, g.childLabel fn call)) := by
  have hi : g.InForest i := hp.inForest i (by simp)
  have hcalls := h.calls (some i) (valid_some (h.lt_of_inForest hi))
  have hchildren : ((g.heap i).children.map fun call => (call.1, g.childLabel fn call)).map
      Prod.fst = (g.heap i).children.map Prod.fst := by rw [List.map_map]; rfl
  have hfst : printed ++ [i] ++ (queue ++ (g.heap i).children.map
      fun call => (call.1, g.childLabel fn call)).map Prod.fst =
      (printed ++ ((i, fn) :: queue).map Prod.fst) ++ (g.heap i).children.map Prod.fst := by
    rw [List.map_append, hchildren, List.map_cons, List.append_assoc, List.append_assoc]
    rfl
  have hchild : ∀ k ∈ (g.heap i).children.map Prod.fst, (g.heap k).parent = some i := fun k hk =>
    ((hcalls.mem k).mp hk).2
  refine ⟨?_, ?_, ?_⟩
  · rw [hfst]
    refine List.nodup_append.mpr ⟨hp.nodup, hcalls.nodup, fun k hk k' hk' heq => ?_⟩
    subst heq
    exact hp.notMem_of_parent hroot (hchild k hk') hk
  · rw [hfst]
    intro k hk
    rcases List.mem_append.mp hk with hk | hk
    · exact hp.inForest k hk
    · obtain ⟨call, hcall, rfl⟩ := List.mem_map.mp hk
      exact .child hi hcall
  · rw [hfst]
    intro k hk
    rcases List.mem_append.mp hk with hk | hk
    · rcases hp.parent k hk with hk | ⟨j, hj, hkj⟩
      · exact .inl hk
      · exact .inr ⟨j, List.mem_append_left _ hj, hkj⟩
    · exact .inr ⟨i, by simp, hchild k hk⟩

end Loop

/-- There are no more nodes than have been allocated. -/
theorem Represents.length_printing_le (h : Represents g paths placed) {root : ℕ}
    {printed : List ℕ} {queue : List (ℕ × Label)} (hp : Printing g root printed queue) :
    printed.length + queue.length ≤ g.allocated := by
  have hsub : printed ++ queue.map Prod.fst ⊆ List.range g.allocated := fun i hi =>
    List.mem_range.mpr (h.lt_of_inForest (hp.inForest i hi))
  simpa using (List.subperm_of_subset hp.nodup hsub).length_le

/-- **The loop ends**, since no node is printed twice, and it prints nodes of the forest. -/
theorem Represents.printLoop_eq (h : Represents g paths placed) {root : ℕ}
    (hroot : (g.heap root).parent = none) {rounds : ℕ} (printed : List ℕ)
    {queue : List (ℕ × Label)} (hp : Printing g root printed queue)
    (hrounds : g.allocated < printed.length + rounds) :
    ∃ lines, g.printLoop rounds queue = some lines ∧
      ∀ p ∈ lines, g.InForest p.1 ∧ ∃ fn, p.2 = g.printNode p.1 fn := by
  induction rounds generalizing printed queue with
  | zero =>
    have hle := h.length_printing_le hp
    omega
  | succ rounds ih =>
    rcases queue with _ | ⟨⟨i, fn⟩, queue⟩
    · exact ⟨[], rfl, fun p hp => absurd hp List.not_mem_nil⟩
    · have hrounds' : g.allocated < (printed ++ [i]).length + rounds := by
        rw [List.length_append, List.length_singleton]
        omega
      obtain ⟨lines, hlines, hall⟩ := ih _ (h.printing_step hroot hp) hrounds'
      refine ⟨(i, g.printNode i fn) :: lines, by rw [printLoop, hlines]; rfl, fun p hp' => ?_⟩
      rcases List.mem_cons.mp hp' with rfl | hp'
      · exact ⟨hp.inForest i (by simp), fn, rfl⟩
      · exact hall p hp'

/-- **`_print_function` prints nodes of the forest.** -/
theorem Represents.printFunction_eq (h : Represents g paths placed) {call : ℕ × ℤ}
    (hcall : call ∈ g.rootCalls) :
    ∃ lines, g.printFunction call.1 = some lines ∧
      ∀ p ∈ lines, g.InForest p.1 ∧ ∃ fn, p.2 = g.printNode p.1 fn := by
  have hroot := (((h.calls none (valid_none g)).mem call.1).mp (List.mem_map_of_mem hcall)).2
  refine h.printLoop_eq hroot [] ⟨List.nodup_singleton _, ?_, ?_⟩ (by simp)
  · intro i hi
    rw [List.mem_singleton.mp hi]
    exact .root hcall
  · intro i hi
    exact .inl (List.mem_singleton.mp hi)

/-- An unsigned difference is at most what is subtracted from exactly if it does not wrap
around. -/
theorem sub_le_self_iff (a b : UInt64) : a - b ≤ a ↔ b ≤ a := by
  rw [UInt64.le_iff_toNat_le, UInt64.le_iff_toNat_le, UInt64.toNat_sub]
  have ha := a.toNat_lt
  have hb := b.toNat_lt
  omega

/-- **The costs that are printed** are fine if the nodes are. -/
theorem Represents.selfCosts_iff_nodes (h : Represents g paths placed) :
    SelfCosts g ↔ ∀ x ∈ g.forest, x.totalChildrenDuration ≤ x.totalDuration := by
  refine ⟨SelfCosts.nodes, fun hnodes => ⟨hnodes, fun call hcall => ?_⟩⟩
  obtain ⟨lines, hlines, hall⟩ := h.printFunction_eq hcall
  refine ⟨lines, hlines, fun p hp => ?_⟩
  obtain ⟨hin, fn, hnode⟩ := hall p hp
  rw [hnode]
  exact (sub_le_self_iff _ _).mpr (hnodes _ (h.mem_forest.mpr ⟨p.1, h.lt_of_inForest hin, rfl⟩))

/-! ### What runs at a tick -/

/-- The event is running at the tick; the clock wraps around. -/
def runs (e : NodeData) (t : Fin UInt64.size) : Bool :=
  within e.startTs.toFin e.getDuration.toNat t

/-- The last reading of the clock. -/
def lastTick : Fin UInt64.size := ⟨2 ^ 64 - 1, by decide⟩

/-- How many of the events placed are running, of those that satisfy a condition. -/
def running (placed : List (NodeData × List Label)) (p : NodeData × List Label → Bool)
    (t : Fin UInt64.size) : ℕ :=
  (placed.filter p).countP fun x => runs x.1 t

/-- How many calls are running at the path. -/
def callsRunning (placed : List (NodeData × List Label)) (π : List Label) :
    Fin UInt64.size → ℕ := running placed fun x => x.2 = π

/-- How many callees of these are running. -/
def calleesRunning (placed : List (NodeData × List Label)) (π : List Label) :
    Fin UInt64.size → ℕ := running placed fun x => x.2.tail = π

/-- **The durations are the ticks at which the events are running.** -/
theorem sum_running (placed : List (NodeData × List Label)) (p : NodeData × List Label → Bool) :
    ∑ t, running placed p t = durations placed p := by
  have hsum := sum_countP (fun x : NodeData × List Label => runs x.1) (placed.filter p)
  calc ∑ t, running placed p t
      = ((placed.filter p).map fun x => ∑ t, if runs x.1 t then 1 else 0).sum := hsum
    _ = durations placed p := by
        refine congrArg List.sum (List.map_congr_left fun x _ => ?_)
        exact sum_within _ (Nat.le_of_lt x.1.getDuration.toNat_lt)

/-- **The costs of one arrangement of the events** are fine if, at every path, the callees take no
longer than the calls and the sum of the calls does not wrap around. -/
theorem selfCosts_make_of_le {sorted : List NodeData}
    (hle : ∀ x ∈ placements sorted, durations (placements sorted) (fun y => y.2.tail = x.2) ≤
      durations (placements sorted) fun y => y.2 = x.2)
    (hfits : ∀ x ∈ placements sorted, durations (placements sorted) (fun y => y.2 = x.2) < 2 ^ 64) :
    SelfCosts (make sorted) := by
  obtain ⟨paths, h⟩ := represents_make sorted
  refine h.selfCosts_iff_nodes.mpr fun y hy => ?_
  obtain ⟨⟨x, hx, hxy⟩, -, htotal, hchildren⟩ := (mem_forest_make sorted).mp hy
  have hlt := hfits x hx
  rw [htotal, hchildren, ← hxy, UInt64.le_iff_toNat_le, UInt64.toNat_ofNat_of_lt' hlt,
    UInt64.toNat_ofNat_of_lt' (Nat.lt_of_le_of_lt (hle x hx) hlt)]
  exact hle x hx

/-! ### Calls one after another -/

section Laminar

open CallTree

variable {events sorted : List NodeData} {t : Fin UInt64.size} {x : NodeData × List Label}

theorem runs_iff {e : NodeData} (he : e.startTs ≤ e.stopTs) :
    runs e t = true ↔ e.startTs.toNat ≤ t.val ∧ t.val < e.stopTs.toNat := by
  have hle := UInt64.le_iff_toNat_le.mp he
  have hstop := e.stopTs.toNat_lt
  have hdur := toNat_getDuration he
  rw [duration] at hdur
  have hend : e.startTs.toNat + e.getDuration.toNat = e.stopTs.toNat := by omega
  have hsize : UInt64.size = 2 ^ 64 := rfl
  have hfit : e.startTs.toFin.val + e.getDuration.toNat ≤ UInt64.size := by
    change e.startTs.toNat + e.getDuration.toNat ≤ UInt64.size
    omega
  rw [runs, within_iff hfit]
  change e.startTs.toNat ≤ t.val ∧ t.val < e.startTs.toNat + e.getDuration.toNat ↔ _
  rw [hend]

/-- The parent of an event contains it, and no other event that does starts later. -/
theorem parent_spec {e p : NodeData} (hp : parent events e = some p) :
    p ∈ events ∧ p ≠ e ∧ p.contains e = true ∧
      ∀ q ∈ events, q ≠ e → q.contains e = true → q.startTs.toNat ≤ p.startTs.toNat := by
  obtain ⟨hmem, hpe⟩ := List.mem_filter.mp (List.argmax_mem hp)
  obtain ⟨hne, hcontains⟩ := of_decide_eq_true hpe
  refine ⟨hmem, hne, hcontains, fun q hq hqe hqc => ?_⟩
  have hq' : q ∈ events.filter fun p => p ≠ e ∧ p.contains e :=
    List.mem_filter.mpr ⟨hq, decide_eq_true ⟨hqe, hqc⟩⟩
  exact List.le_of_mem_argmax (f := fun p : NodeData => p.startTs.toNat) hq' hp

/-- Of two events with the same parent, or with none, none contains the other. -/
theorem not_contains_of_parent (hdistinct : (events.map NodeData.startTs).Nodup)
    {e e' : NodeData} (he : e ∈ events) (hne : e ≠ e')
    (heq : parent events e = parent events e') : ¬ e.contains e' = true := by
  intro hc
  rcases hp' : parent events e' with _ | p
  · have hmem : e ∈ events.filter fun p => p ≠ e' ∧ p.contains e' :=
      List.mem_filter.mpr ⟨he, decide_eq_true ⟨hne, hc⟩⟩
    rw [List.argmax_eq_none.mp hp'] at hmem
    cases hmem
  · obtain ⟨hmem, hpe, hpc, -⟩ := parent_spec (heq.trans hp')
    have hle := (parent_spec hp').2.2.2 e he hne hc
    have hle' := (contains_iff.mp hpc).1
    exact hpe (List.inj_on_of_nodup_map hdistinct hmem he
      (UInt64.toNat_inj.mp (Nat.le_antisymm hle' hle)))

/-- The path at which an event is placed ends with its own label. -/
theorem placed_ne_nil (hx : x ∈ placements sorted) : x.2 ≠ [] := by
  obtain ⟨pre, post, -, hplace⟩ := Nesting.exists_of_mem_place hx
  rw [hplace]
  exact List.cons_ne_nil _ _

variable (hlam : Laminar events) (hdistinct : (events.map NodeData.startTs).Nodup)

include hlam hdistinct

/-- **Two callees of one call are not running at the same time**, nor are two calls without a
caller. -/
theorem eq_of_parent_eq {e e' : NodeData} (he : e ∈ events) (he' : e' ∈ events)
    (heq : parent events e = parent events e') (ht : runs e t = true) (ht' : runs e' t = true) :
    e = e' := by
  by_contra hne
  rw [runs_iff (hlam.start_le_stop e he)] at ht
  rw [runs_iff (hlam.start_le_stop e' he')] at ht'
  have hnot := not_contains_of_parent hdistinct he hne heq
  have hnot' := not_contains_of_parent hdistinct he' (Ne.symm hne) heq.symm
  rw [contains_iff] at hnot hnot'
  have hnested := hlam.nestedOrApart he he' hne
  simp only [NestedOrApart, interval] at hnested
  omega

omit hlam in
/-- No event is placed twice. -/
theorem nodup_placements (harr : Arranges sorted events) :
    ((placements sorted).map Prod.fst).Nodup := by
  rw [map_fst_placements]
  exact List.Nodup.of_map NodeData.startTs
    ((harr.perm.map NodeData.startTs).nodup_iff.mpr hdistinct)

variable (harr : Arranges sorted events)

include harr

omit hlam hdistinct in
theorem mem_of_placed (hx : x ∈ placements sorted) : x.1 ∈ events := by
  rw [← harr.perm.mem_iff, ← map_fst_placements sorted]
  exact List.mem_map_of_mem hx

/-- An event is placed at its path, for which there is a label at least. -/
theorem placed_path {e : NodeData} (he : e ∈ events) :
    (e, (path events e).reverse) ∈ placements sorted := by
  rw [← harr.perm.mem_iff, ← map_fst_placements sorted] at he
  obtain ⟨x, hx, rfl⟩ := List.mem_map.mp he
  rw [← (mem_placements hlam harr hdistinct hx).1]
  exact hx

/-- An event placed below no other has no parent. -/
theorem parent_eq_none (hx : x ∈ placements sorted) (htail : x.2.tail = []) :
    parent events x.1 = none := by
  rcases hp : parent events x.1 with _ | p
  · rfl
  · rw [(mem_placements hlam harr hdistinct hx).2, hp] at htail
    exact absurd htail (placed_ne_nil (placed_path hlam hdistinct harr (parent_spec hp).1))

/-- The call of a callee that is running is running itself. -/
theorem exists_running_call {π : List Label} (hπ : π ≠ []) (hx : x ∈ placements sorted)
    (htail : x.2.tail = π) (hruns : runs x.1 t = true) :
    ∃ p, parent events x.1 = some p ∧ (p, π) ∈ placements sorted ∧ runs p t = true := by
  rcases hp : parent events x.1 with _ | p
  · rw [(mem_placements hlam harr hdistinct hx).2, hp] at htail
    exact absurd htail.symm hπ
  obtain ⟨hpe, -, hpc, -⟩ := parent_spec hp
  refine ⟨p, rfl, ?_, ?_⟩
  · rw [← htail, (mem_placements hlam harr hdistinct hx).2, hp]
    exact placed_path hlam hdistinct harr hpe
  · have hc := contains_iff.mp hpc
    rw [runs_iff (hlam.start_le_stop _ (mem_of_placed harr hx))] at hruns
    rw [runs_iff (hlam.start_le_stop _ hpe)]
    omega

/-- **No two calls below the same path are running at the same time.** -/
theorem eq_of_running {π : List Label} {y : NodeData × List Label} (hx : x ∈ placements sorted)
    (hy : y ∈ placements sorted) (htail : x.2.tail = π) (htail' : y.2.tail = π)
    (hruns : runs x.1 t = true) (hruns' : runs y.1 t = true) : x = y := by
  -- by induction on the path, their callers are the same call
  have hparent : parent events x.1 = parent events y.1 := by
    induction π generalizing x y with
    | nil =>
      rw [parent_eq_none hlam hdistinct harr hx htail, parent_eq_none hlam hdistinct harr hy htail']
    | cons l π ih =>
      obtain ⟨p, hp, hmem, hpruns⟩ := exists_running_call hlam hdistinct harr
        (List.cons_ne_nil l π) hx htail hruns
      obtain ⟨p', hp', hmem', hpruns'⟩ := exists_running_call hlam hdistinct harr
        (List.cons_ne_nil l π) hy htail' hruns'
      have hpp : p = p' := eq_of_parent_eq hlam hdistinct (mem_of_placed harr hmem)
        (mem_of_placed harr hmem') (ih hmem hmem' rfl rfl hpruns hpruns') hpruns hpruns'
      rw [hp, hp', hpp]
  exact List.inj_on_of_nodup_map (nodup_placements hdistinct harr) hx hy
    (eq_of_parent_eq hlam hdistinct (mem_of_placed harr hx) (mem_of_placed harr hy) hparent
      hruns hruns')

/-- At most one call below a path is running. -/
theorem calleesRunning_le_one (π : List Label) (t : Fin UInt64.size) :
    calleesRunning (placements sorted) π t ≤ 1 := by
  have hnodup : (((placements sorted).filter fun x => x.2.tail = π).filter
      fun x => runs x.1 t).Nodup :=
    ((List.Nodup.of_map _ (nodup_placements hdistinct harr)).filter _).filter _
  rw [calleesRunning, running, List.countP_eq_length_filter]
  generalize hcallees : ((placements sorted).filter fun x => x.2.tail = π).filter
    (fun x => runs x.1 t) = callees at hnodup ⊢
  rcases callees with _ | ⟨x, callees⟩
  · exact Nat.zero_le 1
  have hmem : ∀ y ∈ x :: callees, y ∈ placements sorted ∧ y.2.tail = π ∧ runs y.1 t = true := by
    intro y hy
    rw [← hcallees, List.mem_filter, List.mem_filter, decide_eq_true_eq] at hy
    exact ⟨hy.1.1, hy.1.2, hy.2⟩
  obtain ⟨hx, htail, hruns⟩ := hmem x List.mem_cons_self
  have hsub : x :: callees ⊆ [x] := fun y hy => by
    obtain ⟨hy, htail', hruns'⟩ := hmem y hy
    exact List.mem_singleton.mpr (eq_of_running hlam hdistinct harr hy hx htail' htail hruns' hruns)
  exact (List.subperm_of_subset hnodup hsub).length_le

/-- **At no tick are there more callees running than calls.** -/
theorem calleesRunning_le {π : List Label} (hπ : π ≠ []) (t : Fin UInt64.size) :
    calleesRunning (placements sorted) π t ≤ callsRunning (placements sorted) π t := by
  rcases Nat.eq_zero_or_pos (calleesRunning (placements sorted) π t) with hzero | hpos
  · rw [hzero]
    exact Nat.zero_le _
  refine Nat.le_trans (calleesRunning_le_one hlam hdistinct harr π t) ?_
  obtain ⟨x, hx, hruns⟩ := List.countP_pos_iff.mp hpos
  obtain ⟨hx, htail⟩ := List.mem_filter.mp hx
  obtain ⟨p, -, hmem, hpruns⟩ := exists_running_call hlam hdistinct harr hπ hx
    (of_decide_eq_true htail) hruns
  exact List.countP_pos_iff.mpr ⟨(p, π), List.mem_filter.mpr ⟨hmem, decide_eq_true rfl⟩, hpruns⟩

/-- At most one call with a path is running. -/
theorem callsRunning_le_one (π : List Label) (t : Fin UInt64.size) :
    callsRunning (placements sorted) π t ≤ 1 := by
  refine Nat.le_trans ?_ (calleesRunning_le_one hlam hdistinct harr π.tail t)
  refine (List.monotone_filter_right _ fun x hx => ?_).countP_le
  rw [decide_eq_true_eq] at hx ⊢
  rw [hx]

omit hdistinct in
/-- Nothing is running at the last tick of the clock, since no event ends after it. -/
theorem callsRunning_last (π : List Label) : callsRunning (placements sorted) π lastTick = 0 := by
  refine List.countP_eq_zero.mpr fun x hx hruns => ?_
  have hstop := x.1.stopTs.toNat_lt
  rw [runs_iff (hlam.start_le_stop _ (mem_of_placed harr (List.mem_of_mem_filter hx)))] at hruns
  have hlast : 2 ^ 64 - 1 < x.1.stopTs.toNat := hruns.2
  omega

/-- The durations of the calls with one path fit. -/
theorem durations_lt (π : List Label) :
    durations (placements sorted) (fun y => y.2 = π) < 2 ^ 64 := by
  have hsize : Fintype.card (Fin UInt64.size) = 2 ^ 64 := Fintype.card_fin _
  rw [← sum_running, ← hsize]
  exact sum_lt_of_le_one (callsRunning_le_one hlam hdistinct harr π) (callsRunning_last hlam harr π)

omit harr

/-- **Calls that are nested or apart, and that all start at different times**, have costs that
do not wrap around, however they have been sorted. -/
theorem selfCosts_of_laminar : ∀ sorted, Arranges sorted events → SelfCosts (make sorted) := by
  intro sorted harr
  refine selfCosts_make_of_le (fun x hx => ?_) fun x _ => durations_lt hlam hdistinct harr x.2
  rw [← sum_running, ← sum_running]
  exact Finset.sum_le_sum fun t _ => calleesRunning_le hlam hdistinct harr (placed_ne_nil hx) t

omit hlam hdistinct in
/-- A function whose callee calls another one. -/
theorem selfCosts_of_nested_calls :
    let events := [NodeData.new [102] 0 10, NodeData.new [103] 1 7, NodeData.new [104] 2 4]
    CallTree.Laminar events ∧ SelfCosts (make events) ∧
      (make events).printNode 0 (ascii "f()") = ⟨ascii "f()", 3, [⟨ascii "g()'f()", 1, 7⟩]⟩ := by
  intro events
  have hlam : CallTree.Laminar events := ⟨by decide, by decide⟩
  exact ⟨hlam, selfCosts_of_laminar hlam (by decide) events ⟨.refl _, by decide⟩, by decide⟩

end Laminar

/-- **A function and its callee that start in the same tick**: sorted the wrong way round, both
are charged to the caller, and `2 ^ 64 - 1` is printed for a function that took ten ticks. -/
theorem selfCosts_wrap_around :
    let caller := NodeData.new [102] 0 10
    let callee := NodeData.new [103] 1 7
    let inner := NodeData.new [104] 1 4
    CallTree.Laminar [inner, callee, caller] ∧
      CallTree.Arranges [caller, inner, callee] [inner, callee, caller] ∧
      ¬ SelfCosts (make [caller, inner, callee]) ∧
      (make [caller, inner, callee]).printNode 0 (ascii "f()") = ⟨ascii "f()", 18446744073709551615,
        [⟨ascii "h()'f()", 1, 4⟩, ⟨ascii "g()'f()", 1, 7⟩]⟩ := by
  intro caller callee inner
  refine ⟨⟨by decide, by decide⟩, ⟨?_, by decide⟩, fun hfine => ?_, by decide⟩
  · exact show ([caller] ++ [inner, callee]).Perm ([inner, callee] ++ [caller]) from
      List.perm_append_comm
  · exact absurd hfine.nodes (by decide)

end CallGraph

end HawkTracer.Client
