import HawkTracer.Base.Nesting
import Mathlib.Algebra.Ring.Nat
import Mathlib.Data.List.Nodup
import Mathlib.Data.List.Perm.Basic
import Mathlib.Logic.Function.Basic
import Mathlib.Order.Basic

/-!
# The call graph

`CallGraph::make` sorts the events of a thread by the time they start and adds them one by one to
a forest. The node of the last event is the current call; a new event climbs from there to the
first node whose interval contains it and becomes a call of that node. Calls with the same label
under the same node share one node, which keeps the interval of the latest of them and sums up
their durations; how often it was called stands beside the pointer to it.

The nodes live in a heap here, and a pointer is the number of a node in the order of allocation.
What the graph computes is stated through the chain of `HawkTracer.Nesting`: the nodes from the
current call to its root carry the events of the chain, although most of the other nodes on
these paths have been overwritten (`HawkTracer.Client.CallGraph.ChainAt`), and every node sums
up the events placed at its path (`HawkTracer.Client.CallGraph.Represents`). So the forest that
`make` returns has one node for every path, with the sums over the events placed there
(`HawkTracer.Client.CallGraph.mem_forest_make`, `HawkTracer.Client.CallGraph.nodup_forest_make`).
-/

namespace HawkTracer.Client

/-! ### The source -/

/-- A label, by its characters. -/
abbrev Label := List UInt8

/-- `CallGraph::NodeData`. -/
structure NodeData where
  label : Label
  startTs : UInt64
  stopTs : UInt64
  deriving DecidableEq

namespace NodeData

/-- The constructor from a duration. -/
def new (name : Label) (start dur : UInt64) : NodeData := ⟨name, start, start + dur⟩

/-- `get_duration`. -/
def getDuration (d : NodeData) : UInt64 := d.stopTs - d.startTs

/-- `current_call_contains_new_event`. -/
def contains (d e : NodeData) : Bool :=
  decide (d.startTs ≤ e.startTs) && decide (e.stopTs ≤ d.stopTs)

end NodeData

/-- `CallGraph::TreeNode`; a pointer to a node is its number. -/
structure TreeNode where
  data : NodeData
  totalDuration : UInt64
  totalChildrenDuration : UInt64
  children : List (ℕ × ℤ)
  parent : Option ℕ

/-- The constructor of `TreeNode`. -/
def TreeNode.new (d : NodeData) : TreeNode := ⟨d, d.getDuration, 0, [], none⟩

/-- The number that an `int` holds in place of `n`. -/
@[irreducible] def wrapInt (n : ℤ) : ℤ := n.bmod (2 ^ 32)

/-- `++` on an `int`. -/
def incr (n : ℤ) : ℤ := wrapInt (n + 1)

theorem incr_wrapInt (n : ℤ) : incr (wrapInt n) = wrapInt (n + 1) := by
  unfold incr wrapInt
  exact Int.bmod_add_bmod

theorem wrapInt_of_lt {n : ℕ} (h : n < 2 ^ 31) : wrapInt n = n := by
  unfold wrapInt
  exact Int.bmod_eq_of_le (by omega) (by omega)

/-- One more call always shows. -/
theorem wrapInt_succ_ne (n : ℕ) : wrapInt (n + 1 : ℕ) ≠ wrapInt n := by
  unfold wrapInt
  rw [Int.bmod_def, Int.bmod_def]
  omega

/-- `CallGraph`, with the heap of its nodes. -/
structure CallGraph where
  heap : ℕ → TreeNode
  allocated : ℕ
  rootCalls : List (ℕ × ℤ)
  currentCall : Option ℕ

namespace CallGraph

/-- A graph without calls. -/
def empty : CallGraph := ⟨fun _ => .new ⟨[], 0, 0⟩, 0, [], none⟩

/-- `std::find_if` by a label, with the count of the call it finds incremented: the node, and
the calls after that. -/
def callFrom (g : CallGraph) (label : Label) : List (ℕ × ℤ) → Option (ℕ × List (ℕ × ℤ))
  | [] => none
  | call :: calls =>
    if (g.heap call.1).data.label = label then some (call.1, (call.1, incr call.2) :: calls)
    else (g.callFrom label calls).map fun r => (r.1, call :: r.2)

/-- `_add_new_call`: the graph, the calls it was given, and the node. -/
def addNewCall (g : CallGraph) (d : NodeData) (parent : Option ℕ) (calls : List (ℕ × ℤ)) :
    CallGraph × List (ℕ × ℤ) × ℕ :=
  match g.callFrom d.label calls with
  | some (i, calls) =>
    ({ g with
      heap := Function.update g.heap i { g.heap i with
        totalDuration := (g.heap i).totalDuration + d.getDuration
        data := d } }, calls, i)
  | none =>
    ({ g with
      heap := Function.update g.heap g.allocated { TreeNode.new d with parent := parent }
      allocated := g.allocated + 1 }, calls ++ [(g.allocated, 1)], g.allocated)

/-- `_add_new_calltree`. -/
def addNewCalltree (g : CallGraph) (d : NodeData) : CallGraph :=
  match g.addNewCall d none g.rootCalls with
  | (g, calls, i) => { g with rootCalls := calls, currentCall := some i }

/-- The caller of an event is charged with its duration, the first line of
`_add_new_event_call`. -/
def charge (g : CallGraph) (caller : ℕ) (d : NodeData) : CallGraph :=
  { g with
    heap := Function.update g.heap caller { g.heap caller with
      totalChildrenDuration := (g.heap caller).totalChildrenDuration + d.getDuration } }

/-- `_add_new_event_call`. -/
def addNewEventCall (g : CallGraph) (caller : ℕ) (d : NodeData) : CallGraph :=
  match (g.charge caller d).addNewCall d (some caller)
    ((g.charge caller d).heap caller).children with
  | (g, calls, i) =>
    { g with
      heap := Function.update g.heap caller { g.heap caller with children := calls }
      currentCall := some i }

/-- The loop of `_try_add_event_to_existing_calltree`: where it leaves `_current_call`. -/
def climb (g : CallGraph) (d : NodeData) : ℕ → Option ℕ → Option ℕ
  | 0, _ => none
  | _ + 1, none => none
  | fuel + 1, some i =>
    if (g.heap i).data.contains d then some i else g.climb d fuel (g.heap i).parent

/-- `_add_event`; there are no more nodes on the way to a root than there are nodes. -/
def addEvent (g : CallGraph) (d : NodeData) : CallGraph :=
  match g.climb d (g.allocated + 1) g.currentCall with
  | some caller => g.addNewEventCall caller d
  | none => g.addNewCalltree d

/-- `make`, for the arrangement that `std::sort` leaves. -/
def make (sorted : List NodeData) : CallGraph := sorted.foldl addEvent empty

/-- A node of the forest that `make` returns: the labels from the root to it, and what it
holds. -/
@[ext] structure Node where
  path : List Label
  calls : ℤ
  totalDuration : UInt64
  totalChildrenDuration : UInt64
  deriving DecidableEq

/-- The nodes below some calls, down to a depth; `outer` are the labels around them, the
innermost first. -/
def nodes (g : CallGraph) : ℕ → List Label → List (ℕ × ℤ) → List Node
  | 0, _, _ => []
  | depth + 1, outer, calls => calls.flatMap fun call =>
    ⟨((g.heap call.1).data.label :: outer).reverse, call.2, (g.heap call.1).totalDuration,
        (g.heap call.1).totalChildrenDuration⟩ ::
      g.nodes depth ((g.heap call.1).data.label :: outer) (g.heap call.1).children

/-- **The forest**: all nodes that can be reached from the root calls. -/
def forest (g : CallGraph) : List Node := g.nodes g.allocated [] g.rootCalls

/-! ### One step -/

/-- The calls of a node, or those without a caller. -/
def callsAt (g : CallGraph) : Option ℕ → List (ℕ × ℤ)
  | none => g.rootCalls
  | some j => (g.heap j).children

/-- A pointer to a node of the graph, or none. -/
def Valid (g : CallGraph) (o : Option ℕ) : Prop := ∀ j, o = some j → j < g.allocated

/-- An event becomes a call of a node, or a root call. -/
def enter (g : CallGraph) (o : Option ℕ) (d : NodeData) : CallGraph :=
  match o with
  | none => g.addNewCalltree d
  | some caller => g.addNewEventCall caller d

theorem addEvent_eq_enter (g : CallGraph) (d : NodeData) :
    g.addEvent d = g.enter (g.climb d (g.allocated + 1) g.currentCall) d := by
  rw [addEvent]
  split <;> next h => rw [h]; rfl

variable {calls : List (ℕ × ℤ)} {o : Option ℕ} {d : NodeData} {i : ℕ}
  {chain : List (NodeData × List Label)} {g : CallGraph}

/-- What `std::find_if` finds. -/
theorem callFrom_eq_some {label : Label} {r : ℕ × List (ℕ × ℤ)}
    (h : g.callFrom label calls = some r) :
    (g.heap r.1).data.label = label ∧ ∃ front n back,
      calls = front ++ (r.1, n) :: back ∧ r.2 = front ++ (r.1, incr n) :: back := by
  induction calls generalizing r with
  | nil => cases h
  | cons call calls ih =>
    rw [callFrom] at h
    split at h
    · next hlabel =>
      cases h
      exact ⟨hlabel, [], call.2, calls, rfl, rfl⟩
    · obtain ⟨r', hr', rfl⟩ := Option.map_eq_some_iff.mp h
      obtain ⟨hlabel, front, n, back, hcalls, hr⟩ := ih hr'
      exact ⟨hlabel, call :: front, n, back, congrArg (call :: ·) hcalls, congrArg (call :: ·) hr⟩

theorem callFrom_eq_none {label : Label} (h : g.callFrom label calls = none) :
    ∀ x ∈ calls, (g.heap x.1).data.label ≠ label := by
  induction calls with
  | nil => rintro x ⟨⟩
  | cons call calls ih =>
    rw [callFrom] at h
    split at h
    · cases h
    · next hlabel =>
      exact List.forall_mem_cons.mpr ⟨hlabel, ih (Option.map_eq_none_iff.mp h)⟩

theorem callFrom_congr {g g' : CallGraph}
    (h : ∀ k, (g'.heap k).data.label = (g.heap k).data.label) (label : Label)
    (calls : List (ℕ × ℤ)) : g'.callFrom label calls = g.callFrom label calls := by
  induction calls with
  | nil => rfl
  | cons call calls ih => rw [callFrom, callFrom, h, ih]

/-- The node `k` after an event that leads to a node which was called before. -/
def afterRecall (g : CallGraph) (o : Option ℕ) (d : NodeData) (i : ℕ) (calls : List (ℕ × ℤ))
    (k : ℕ) : TreeNode where
  data := if k = i then d else (g.heap k).data
  totalDuration := if k = i then (g.heap k).totalDuration + d.getDuration
    else (g.heap k).totalDuration
  totalChildrenDuration := if o = some k then (g.heap k).totalChildrenDuration + d.getDuration
    else (g.heap k).totalChildrenDuration
  children := if o = some k then calls else (g.heap k).children
  parent := (g.heap k).parent

/-- The node `k` after an event that leads to a new node. -/
def afterNew (g : CallGraph) (o : Option ℕ) (d : NodeData) (k : ℕ) : TreeNode :=
  if k = g.allocated then { TreeNode.new d with parent := o }
  else { g.heap k with
    totalChildrenDuration := if o = some k then (g.heap k).totalChildrenDuration + d.getDuration
      else (g.heap k).totalChildrenDuration
    children := if o = some k then (g.heap k).children ++ [(g.allocated, 1)]
      else (g.heap k).children }

/-- The graph after an event that leads to a node which was called before. -/
def recalled (g : CallGraph) (o : Option ℕ) (d : NodeData) (i : ℕ) (calls : List (ℕ × ℤ)) :
    CallGraph :=
  { g with
    heap := g.afterRecall o d i calls
    rootCalls := if o = none then calls else g.rootCalls
    currentCall := some i }

/-- The graph after an event that leads to a new node. -/
def grown (g : CallGraph) (o : Option ℕ) (d : NodeData) : CallGraph :=
  { g with
    heap := g.afterNew o d
    allocated := g.allocated + 1
    rootCalls := if o = none then g.rootCalls ++ [(g.allocated, 1)] else g.rootCalls
    currentCall := some g.allocated }

theorem charge_callFrom (g : CallGraph) (j : ℕ) (d : NodeData) :
    (g.charge j d).callFrom d.label ((g.charge j d).heap j).children =
      g.callFrom d.label (g.heap j).children := by
  have hchildren : ((g.charge j d).heap j).children = (g.heap j).children := by
    simp [charge]
  rw [hchildren]
  refine callFrom_congr (fun k => ?_) _ _
  by_cases hk : k = j
  · subst hk
    simp [charge]
  · simp [charge, hk]

theorem afterNew_self (g : CallGraph) (o : Option ℕ) (d : NodeData) :
    g.afterNew o d g.allocated = { TreeNode.new d with parent := o } := if_pos rfl

theorem afterNew_of_lt (o : Option ℕ) (d : NodeData) {k : ℕ} (hk : k < g.allocated) :
    g.afterNew o d k = { g.heap k with
      totalChildrenDuration := if o = some k then (g.heap k).totalChildrenDuration + d.getDuration
        else (g.heap k).totalChildrenDuration
      children := if o = some k then (g.heap k).children ++ [(g.allocated, 1)]
        else (g.heap k).children } := if_neg (Nat.ne_of_lt hk)

theorem enter_recall (hfrom : g.callFrom d.label (g.callsAt o) = some (i, calls))
    (hi : o ≠ some i) : g.enter o d = g.recalled o d i calls := by
  rcases o with _ | j
  · have hfrom' : g.callFrom d.label g.rootCalls = some (i, calls) := hfrom
    have hheap : Function.update g.heap i { g.heap i with
        totalDuration := (g.heap i).totalDuration + d.getDuration, data := d } =
        g.afterRecall none d i calls := by
      funext k
      by_cases hk : k = i
      · subst hk
        simp [afterRecall]
      · simp [afterRecall, hk]
    simp [enter, addNewCalltree, addNewCall, hfrom', hheap, recalled]
  · have hij : i ≠ j := fun h => hi (congrArg some h.symm)
    have hfrom' := (g.charge_callFrom j d).trans hfrom
    have hheap : Function.update (Function.update (g.charge j d).heap i
        { (g.charge j d).heap i with
          totalDuration := ((g.charge j d).heap i).totalDuration + d.getDuration, data := d }) j
        { (g.charge j d).heap j with children := calls } =
        g.afterRecall (some j) d i calls := by
      funext k
      by_cases hk : k = j
      · subst hk
        simp [afterRecall, charge, hij.symm]
      · by_cases hk' : k = i
        · subst hk'
          simp [afterRecall, charge, hk, Ne.symm hk]
        · simp [afterRecall, charge, hk, hk', Ne.symm hk]
    simp only [enter, addNewEventCall, addNewCall, hfrom', Function.update_of_ne hij.symm, hheap]
    rfl

theorem enter_new (hfrom : g.callFrom d.label (g.callsAt o) = none) (ho : g.Valid o) :
    g.enter o d = g.grown o d := by
  rcases o with _ | j
  · have hfrom' : g.callFrom d.label g.rootCalls = none := hfrom
    have hheap : Function.update g.heap g.allocated { TreeNode.new d with parent := none } =
        g.afterNew none d := by
      funext k
      by_cases hk : k = g.allocated
      · subst hk
        simp [afterNew]
      · simp [afterNew, hk]
    simp [enter, addNewCalltree, addNewCall, hfrom', hheap, grown]
  · have hj : j ≠ g.allocated := Nat.ne_of_lt (ho j rfl)
    have hfrom' := (g.charge_callFrom j d).trans hfrom
    have hheap : Function.update (Function.update (g.charge j d).heap g.allocated
        { TreeNode.new d with parent := some j }) j
        { (g.charge j d).heap j with
          children := ((g.charge j d).heap j).children ++ [(g.allocated, 1)] } =
        g.afterNew (some j) d := by
      funext k
      by_cases hk : k = j
      · subst hk
        simp [afterNew, charge, hj]
      · by_cases hk' : k = g.allocated
        · subst hk'
          simp [afterNew, hk]
        · simp [afterNew, charge, hk, hk', Ne.symm hk]
    have hallocated : (g.charge j d).allocated = g.allocated := rfl
    simp only [enter, addNewEventCall, addNewCall, hfrom', hallocated,
      Function.update_of_ne hj, hheap]
    rfl

theorem callsAt_recalled_self (g : CallGraph) (o : Option ℕ) (d : NodeData) (i : ℕ)
    (calls : List (ℕ × ℤ)) : (g.recalled o d i calls).callsAt o = calls := by
  rcases o with _ | j <;> simp [callsAt, recalled, afterRecall]

theorem callsAt_recalled_of_ne (g : CallGraph) {o' : Option ℕ} (hne : o' ≠ o) (d : NodeData) (i : ℕ)
    (calls : List (ℕ × ℤ)) : (g.recalled o d i calls).callsAt o' = g.callsAt o' := by
  rcases o' with _ | j
  · simp [callsAt, recalled, hne.symm]
  · simp [callsAt, recalled, afterRecall, hne.symm]

theorem callsAt_grown_self (ho : g.Valid o) (d : NodeData) :
    (g.grown o d).callsAt o = g.callsAt o ++ [(g.allocated, 1)] := by
  rcases o with _ | j
  · simp [callsAt, grown]
  · simp [callsAt, grown, afterNew_of_lt _ d (ho j rfl)]

theorem callsAt_grown_of_ne {o' : Option ℕ} (ho' : g.Valid o') (hne : o' ≠ o) (d : NodeData) :
    (g.grown o d).callsAt o' = g.callsAt o' := by
  rcases o' with _ | j
  · simp [callsAt, grown, hne.symm]
  · simp [callsAt, grown, afterNew_of_lt _ d (ho' j rfl), hne.symm]

theorem callsAt_grown_new (g : CallGraph) (o : Option ℕ) (d : NodeData) :
    (g.grown o d).callsAt (some g.allocated) = [] :=
  congrArg TreeNode.children (g.afterNew_self o d)

/-- The nodes a node is the parent of, when there is one more. -/
theorem parent_grown_iff (g : CallGraph) (o o' : Option ℕ) (d : NodeData) (i : ℕ) :
    (i < g.allocated + 1 ∧ ((g.grown o d).heap i).parent = o') ↔
      (i < g.allocated ∧ (g.heap i).parent = o') ∨ i = g.allocated ∧ o = o' := by
  change i < g.allocated + 1 ∧ (g.afterNew o d i).parent = o' ↔ _
  rw [Nat.lt_succ_iff_lt_or_eq]
  constructor
  · rintro ⟨hi | rfl, hparent⟩
    · rw [afterNew_of_lt o d hi] at hparent
      exact Or.inl ⟨hi, hparent⟩
    · rw [afterNew_self] at hparent
      exact Or.inr ⟨rfl, hparent⟩
  · rintro (⟨hi, hparent⟩ | ⟨rfl, hparent⟩)
    · refine ⟨Or.inl hi, ?_⟩
      rw [afterNew_of_lt o d hi]
      exact hparent
    · refine ⟨Or.inr rfl, ?_⟩
      rw [afterNew_self]
      exact hparent

/-! ### Nodes and paths -/

/-- The number of events placed at a path. -/
def countAt (placed : List (NodeData × List Label)) (path : List Label) : ℕ :=
  placed.countP fun x => x.2 = path

/-- The sum of the durations of the events that satisfy a condition. -/
def durations (placed : List (NodeData × List Label)) (p : NodeData × List Label → Bool) : ℕ :=
  ((placed.filter p).map fun x => x.1.getDuration.toNat).sum

theorem countAt_concat (placed : List (NodeData × List Label)) (x : NodeData × List Label)
    (path : List Label) :
    countAt (placed ++ [x]) path = countAt placed path + if x.2 = path then 1 else 0 := by
  simp [countAt, List.countP_append, List.countP_cons]

theorem ofNat_durations_concat (placed : List (NodeData × List Label))
    (x : NodeData × List Label) (p : NodeData × List Label → Bool) :
    UInt64.ofNat (durations (placed ++ [x]) p) =
      UInt64.ofNat (durations placed p) + if p x then x.1.getDuration else 0 := by
  rw [durations, List.filter_append, List.map_append, List.sum_append, UInt64.ofNat_add,
    ← durations]
  by_cases hx : p x = true
  · simp [hx]
  · simp [hx]

/-- The path of a node, or of no node. -/
def ownerPath (paths : ℕ → List Label) : Option ℕ → List Label
  | none => []
  | some j => paths j

/-- **The calls of a node are the nodes it is the parent of**, each once and with the number of
events placed there. -/
structure CallsOf (g : CallGraph) (paths : ℕ → List Label)
    (placed : List (NodeData × List Label)) (o : Option ℕ) (calls : List (ℕ × ℤ)) : Prop where
  nodup : (calls.map Prod.fst).Nodup
  mem : ∀ i, i ∈ calls.map Prod.fst ↔ i < g.allocated ∧ (g.heap i).parent = o
  count : ∀ x ∈ calls, x.2 = wrapInt (countAt placed (paths x.1))

/-- **The graph represents the events placed**: its nodes are their paths, each once, and a node
sums up the events placed at its path. -/
structure Represents (g : CallGraph) (paths : ℕ → List Label)
    (placed : List (NodeData × List Label)) : Prop where
  path : ∀ i < g.allocated, paths i = (g.heap i).data.label :: ownerPath paths (g.heap i).parent
  parent_lt : ∀ i < g.allocated, ∀ j, (g.heap i).parent = some j → j < i
  injective : ∀ i < g.allocated, ∀ j < g.allocated, paths i = paths j → i = j
  mem : ∀ π, (∃ i < g.allocated, paths i = π) ↔ ∃ x ∈ placed, x.2 = π
  total : ∀ i < g.allocated, (g.heap i).totalDuration =
    UInt64.ofNat (durations placed fun x => x.2 = paths i)
  childrenTotal : ∀ i < g.allocated, (g.heap i).totalChildrenDuration =
    UInt64.ofNat (durations placed fun x => x.2.tail = paths i)
  calls : ∀ o, g.Valid o → CallsOf g paths placed o (g.callsAt o)

theorem represents_empty (paths : ℕ → List Label) : Represents empty paths [] where
  path := fun _ h => absurd h (Nat.not_lt_zero _)
  parent_lt := fun _ h => absurd h (Nat.not_lt_zero _)
  injective := fun _ h => absurd h (Nat.not_lt_zero _)
  mem := fun π => by
    refine iff_of_false ?_ ?_
    · rintro ⟨i, hi, -⟩
      exact Nat.not_lt_zero _ hi
    · rintro ⟨x, ⟨⟩, -⟩
  total := fun _ h => absurd h (Nat.not_lt_zero _)
  childrenTotal := fun _ h => absurd h (Nat.not_lt_zero _)
  calls := by
    rintro (_ | j) ho
    · refine ⟨List.nodup_nil, fun i => ?_, ?_⟩
      · refine iff_of_false List.not_mem_nil ?_
        rintro ⟨hi, -⟩
        exact Nat.not_lt_zero _ hi
      · rintro x ⟨⟩
    · exact absurd (ho j rfl) (Nat.not_lt_zero _)

variable {g : CallGraph} {paths : ℕ → List Label} {placed : List (NodeData × List Label)}

section

variable (h : Represents g paths placed)

include h

/-- Two owners with the same path are the same. -/
theorem Represents.owner_injective {o' : Option ℕ} (ho : g.Valid o) (ho' : g.Valid o')
    (heq : ownerPath paths o = ownerPath paths o') : o = o' := by
  rcases o with _ | i <;> rcases o' with _ | j
  · rfl
  · rw [ownerPath, ownerPath, h.path j (ho' j rfl)] at heq
    cases heq
  · rw [ownerPath, ownerPath, h.path i (ho i rfl)] at heq
    cases heq
  · exact congrArg some (h.injective i (ho i rfl) j (ho' j rfl) heq)

theorem Represents.valid_parent (hi : i < g.allocated) : g.Valid (g.heap i).parent := fun j hj =>
  Nat.lt_trans (h.parent_lt i hi j hj) hi

/-- The duration of an event at the path of another node does not count. -/
theorem Represents.ownerPath_eq_iff (ho : g.Valid o) {k : ℕ} (hk : k < g.allocated) :
    ownerPath paths o = paths k ↔ o = some k := by
  constructor
  · intro heq
    exact h.owner_injective ho (fun j hj => by cases hj; exact hk) heq
  · rintro rfl
    rfl

omit h in
/-- One more event at the path of a node counts there only. -/
theorem countAt_concat_path {n k : ℕ} (hinj : ∀ i < n, ∀ j < n, paths i = paths j → i = j)
    (hi : i < n) (hk : k < n) (d : NodeData) :
    countAt (placed ++ [(d, paths i)]) (paths k) =
      countAt placed (paths k) + if k = i then 1 else 0 := by
  rw [countAt_concat]
  by_cases hki : k = i
  · rw [hki, if_pos rfl, if_pos rfl]
  · rw [if_neg hki, if_neg fun heq => hki (hinj i hi k hk heq).symm]

omit h in
/-- The count of one call is replaced. -/
theorem mem_replace_call {front back : List (ℕ × ℤ)} {n m : ℤ}
    (hnodup : ((front ++ (i, n) :: back).map Prod.fst).Nodup) {x : ℕ × ℤ}
    (hx : x ∈ front ++ (i, m) :: back) : x = (i, m) ∨ x ∈ front ++ (i, n) :: back ∧ x.1 ≠ i := by
  rw [List.map_append, List.map_cons, List.nodup_append] at hnodup
  obtain ⟨-, hback, hfront⟩ := hnodup
  rcases List.mem_append.mp hx with hx | hx
  · have hne := hfront x.1 (List.mem_map_of_mem hx) i List.mem_cons_self
    exact Or.inr ⟨List.mem_append_left _ hx, hne⟩
  · rcases List.mem_cons.mp hx with rfl | hx
    · exact Or.inl rfl
    · refine Or.inr ⟨List.mem_append_right _ (List.mem_cons_of_mem _ hx), fun heq => ?_⟩
      have hmem : x.1 ∈ back.map Prod.fst := List.mem_map_of_mem hx
      rw [heq] at hmem
      exact (List.nodup_cons.mp hback).1 hmem

omit h in
/-- The paths where events have been placed, when there is one more. -/
theorem exists_mem_concat_iff (placed : List (NodeData × List Label)) (d : NodeData)
    (π π' : List Label) :
    (∃ x ∈ placed ++ [(d, π)], x.2 = π') ↔ (∃ x ∈ placed, x.2 = π') ∨ π = π' := by
  simp only [List.mem_append, List.mem_singleton, or_and_right, exists_or, exists_eq_left]

/-- The calls of the owner, when one of them is made once more. -/
theorem Represents.callsOf_recalled_self (ho : g.Valid o) {front back : List (ℕ × ℤ)} {n : ℤ}
    (hi : i < g.allocated) (hold : g.callsAt o = front ++ (i, n) :: back)
    (hnew : calls = front ++ (i, incr n) :: back) :
    CallsOf (g.recalled o d i calls) paths (placed ++ [(d, paths i)]) o calls := by
  have hcalls := h.calls o ho
  have hids : calls.map Prod.fst = (g.callsAt o).map Prod.fst := by rw [hold, hnew]; simp
  have hcount := hcalls.count
  rw [hold] at hcount
  refine ⟨hids ▸ hcalls.nodup, fun k => hids ▸ hcalls.mem k, fun x hx => ?_⟩
  rw [hnew] at hx
  rcases mem_replace_call (hold ▸ hcalls.nodup) hx with rfl | ⟨hx, hxi⟩
  · have hn : n = wrapInt (countAt placed (paths i)) := hcount (i, n) (by simp)
    rw [countAt_concat_path h.injective hi hi, if_pos rfl]
    change incr n = _
    rw [hn, incr_wrapInt]
    rfl
  · have hxlt := ((hcalls.mem x.1).mp (hold ▸ List.mem_map_of_mem hx)).1
    rw [hcount x hx, countAt_concat_path h.injective hi hxlt, if_neg hxi, Nat.add_zero]

/-- The calls of another owner do not count the event. -/
theorem Represents.callsOf_recalled_of_ne {o' : Option ℕ} (ho' : g.Valid o') (hne : o' ≠ o)
    (calls : List (ℕ × ℤ)) (hi : i < g.allocated) (hparent : (g.heap i).parent = o) :
    CallsOf (g.recalled o d i calls) paths (placed ++ [(d, paths i)]) o' (g.callsAt o') := by
  have hcalls := h.calls o' ho'
  refine ⟨hcalls.nodup, hcalls.mem, fun x hx => ?_⟩
  obtain ⟨hxlt, hxparent⟩ := (hcalls.mem x.1).mp (List.mem_map_of_mem hx)
  have hxi : x.1 ≠ i := fun heq => hne (by rw [← hxparent, heq, hparent])
  rw [hcalls.count x hx, countAt_concat_path h.injective hi hxlt, if_neg hxi, Nat.add_zero]

/-- **An event whose path has a node.** -/
theorem Represents.recall (ho : g.Valid o)
    (hfrom : g.callFrom d.label (g.callsAt o) = some (i, calls)) :
    i < g.allocated ∧ (g.heap i).parent = o ∧ (g.enter o d).allocated = g.allocated ∧
      Represents (g.enter o d) paths (placed ++ [(d, d.label :: ownerPath paths o)]) := by
  obtain ⟨hlabel, front, n, back, hold, hnew⟩ := callFrom_eq_some hfrom
  dsimp only at hlabel hold hnew
  obtain ⟨hi, hparent⟩ := ((h.calls o ho).mem i).mp (by rw [hold]; simp)
  have hne : o ≠ some i := fun heq => by
    rw [heq] at hparent
    exact Nat.lt_irrefl i (h.parent_lt i hi i hparent)
  have hpath : paths i = d.label :: ownerPath paths o := by rw [h.path i hi, hlabel, hparent]
  rw [enter_recall hfrom hne, ← hpath]
  refine ⟨hi, hparent, rfl, fun k hk => ?_, h.parent_lt, h.injective, fun π => ?_, fun k hk => ?_,
    fun k hk => ?_, fun o' ho' => ?_⟩
  · rw [h.path k hk]
    by_cases hki : k = i
    · subst hki
      simp [recalled, afterRecall, hlabel]
    · simp [recalled, afterRecall, hki]
  · rw [exists_mem_concat_iff, ← h.mem π]
    refine (or_iff_left_of_imp ?_).symm
    rintro rfl
    exact ⟨i, hi, rfl⟩
  · rw [ofNat_durations_concat, ← h.total k hk]
    by_cases hki : k = i
    · subst hki
      simp [recalled, afterRecall]
    · have hpaths : paths i ≠ paths k := fun heq => hki (h.injective i hi k hk heq).symm
      simp [recalled, afterRecall, hki, hpaths]
  · have htail : (paths i).tail = paths k ↔ o = some k := by
      rw [hpath]
      exact h.ownerPath_eq_iff ho hk
    rw [ofNat_durations_concat, ← h.childrenTotal k hk]
    by_cases hok : o = some k
    · simp [recalled, afterRecall, htail.mpr hok, hok]
    · simp [recalled, afterRecall, mt htail.mp hok, hok]
  · by_cases hoo : o' = o
    · subst hoo
      rw [callsAt_recalled_self]
      exact h.callsOf_recalled_self ho hi hold hnew
    · rw [callsAt_recalled_of_ne g hoo]
      exact h.callsOf_recalled_of_ne ho' hoo calls hi hparent

/-- Nothing is placed at a path that has no node, nor right below it. -/
theorem Represents.durations_of_fresh {π : List Label} (hne : π ≠ [])
    (hfresh : ∀ k < g.allocated, paths k ≠ π) :
    durations placed (fun x => x.2 = π) = 0 ∧ durations placed (fun x => x.2.tail = π) = 0 ∧
      countAt placed π = 0 := by
  have hat : ∀ x ∈ placed, x.2 ≠ π := by
    rintro x hx rfl
    obtain ⟨k, hk, heq⟩ := (h.mem x.2).mpr ⟨x, hx, rfl⟩
    exact hfresh k hk heq
  have hbelow : ∀ x ∈ placed, x.2.tail ≠ π := by
    intro x hx heq
    obtain ⟨k, hk, hkx⟩ := (h.mem x.2).mpr ⟨x, hx, rfl⟩
    rw [← hkx, h.path k hk] at heq
    rcases hparent : (g.heap k).parent with _ | j
    · rw [hparent] at heq
      exact hne heq.symm
    · rw [hparent] at heq
      exact hfresh j (h.valid_parent hk j hparent) heq
  refine ⟨?_, ?_, ?_⟩
  · rw [durations, List.filter_eq_nil_iff.mpr fun x hx => by simpa using hat x hx]
    rfl
  · rw [durations, List.filter_eq_nil_iff.mpr fun x hx => by simpa using hbelow x hx]
    rfl
  · rw [countAt, List.countP_eq_zero]
    exact fun x hx => by simpa using hat x hx

/-- A label that the owner does not call leads to a path without a node. -/
theorem Represents.fresh_path (ho : g.Valid o) (hfrom : g.callFrom d.label (g.callsAt o) = none) :
    ∀ k < g.allocated, paths k ≠ d.label :: ownerPath paths o := by
  intro k hk heq
  rw [h.path k hk] at heq
  obtain ⟨hlabel, hparent⟩ := List.cons.inj heq
  have hmem := ((h.calls o ho).mem k).mpr ⟨hk, h.owner_injective (h.valid_parent hk) ho hparent⟩
  obtain ⟨x, hx, rfl⟩ := List.mem_map.mp hmem
  exact callFrom_eq_none hfrom x hx hlabel

end

/-- **One path more**, which is none of the paths so far. -/
structure Extends (paths paths' : ℕ → List Label) (n : ℕ) (π : List Label) : Prop where
  old : ∀ k < n, paths' k = paths k
  new : paths' n = π
  fresh : ∀ k < n, paths k ≠ π

section Extends

variable {paths' : ℕ → List Label} {n : ℕ} {π : List Label}

theorem extends_update (hfresh : ∀ k < n, paths k ≠ π) :
    Extends paths (Function.update paths n π) n π :=
  ⟨fun _ hk => Function.update_of_ne (Nat.ne_of_lt hk) .., Function.update_self .., hfresh⟩

theorem Extends.injective (he : Extends paths paths' n π)
    (hinj : ∀ i < n, ∀ j < n, paths i = paths j → i = j) :
    ∀ i < n + 1, ∀ j < n + 1, paths' i = paths' j → i = j := by
  intro i hi j hj heq
  rcases Nat.lt_succ_iff_lt_or_eq.mp hi with hi | rfl <;>
    rcases Nat.lt_succ_iff_lt_or_eq.mp hj with hj | rfl
  · rw [he.old i hi, he.old j hj] at heq
    exact hinj i hi j hj heq
  · rw [he.old i hi, he.new] at heq
    exact absurd heq (he.fresh i hi)
  · rw [he.old j hj, he.new] at heq
    exact absurd heq.symm (he.fresh j hj)
  · rfl

theorem Extends.ownerPath_eq (he : Extends paths paths' n π) {o : Option ℕ}
    (ho : ∀ j, o = some j → j < n) : ownerPath paths' o = ownerPath paths o := by
  rcases o with _ | j
  · rfl
  · exact he.old j (ho j rfl)

theorem Extends.exists_iff (he : Extends paths paths' n π) (π' : List Label) :
    (∃ k < n + 1, paths' k = π') ↔ (∃ k < n, paths k = π') ∨ π = π' := by
  rw [Nat.exists_lt_succ_right, he.new]
  refine or_congr_left (exists_congr fun k => and_congr_right fun hk => ?_)
  rw [he.old k hk]

/-- The count of a call that was there does not change. -/
theorem Extends.count_old (he : Extends paths paths' g.allocated π) {o : Option ℕ}
    {calls : List (ℕ × ℤ)} (hcalls : CallsOf g paths placed o calls) (d : NodeData) :
    ∀ x ∈ calls, x.2 = wrapInt (countAt (placed ++ [(d, π)]) (paths' x.1)) := by
  intro x hx
  have hxlt := ((hcalls.mem x.1).mp (List.mem_map_of_mem hx)).1
  rw [he.old _ hxlt, countAt_concat, if_neg (he.fresh _ hxlt).symm, Nat.add_zero]
  exact hcalls.count x hx

/-- The owner of the new node has one call more. -/
theorem Extends.callsOf_grown_self (he : Extends paths paths' g.allocated π) {o : Option ℕ}
    (hcalls : CallsOf g paths placed o (g.callsAt o)) (d : NodeData)
    (hzero : countAt placed π = 0) :
    CallsOf (g.grown o d) paths' (placed ++ [(d, π)]) o (g.callsAt o ++ [(g.allocated, 1)]) := by
  have hnot : g.allocated ∉ (g.callsAt o).map Prod.fst := fun hin =>
    Nat.lt_irrefl _ ((hcalls.mem _).mp hin).1
  refine ⟨?_, fun i => ?_, fun x hx => ?_⟩
  · rw [List.map_append, List.map_singleton, ← List.concat_eq_append]
    exact List.Nodup.concat hnot hcalls.nodup
  · refine Iff.trans ?_ (parent_grown_iff g o o d i).symm
    rw [List.map_append, List.mem_append, List.map_singleton, List.mem_singleton,
      and_iff_left rfl, hcalls.mem]
  · rcases List.mem_append.mp hx with hx | hx
    · exact he.count_old hcalls d x hx
    · rw [List.mem_singleton.mp hx, he.new, countAt_concat, if_pos rfl, hzero]
      exact (wrapInt_of_lt (by omega : 0 + 1 < 2 ^ 31)).symm

/-- The others have the calls they had. -/
theorem Extends.callsOf_grown_of_ne (he : Extends paths paths' g.allocated π) {o o' : Option ℕ}
    (hne : o' ≠ o) (hcalls : CallsOf g paths placed o' (g.callsAt o')) (d : NodeData) :
    CallsOf (g.grown o d) paths' (placed ++ [(d, π)]) o' (g.callsAt o') := by
  refine ⟨hcalls.nodup, fun i => ?_, he.count_old hcalls d⟩
  refine Iff.trans ?_ (parent_grown_iff g o o' d i).symm
  rw [hcalls.mem]
  exact (or_iff_left fun hself => hne hself.2.symm).symm

end Extends

/-- The new node has no calls, and it is the parent of none. -/
theorem Represents.callsOf_grown_new (h : Represents g paths placed) (ho : g.Valid o) (d : NodeData)
    (paths' : ℕ → List Label) (placed' : List (NodeData × List Label)) :
    CallsOf (g.grown o d) paths' placed' (some g.allocated) [] := by
  refine ⟨List.nodup_nil, fun i => iff_of_false List.not_mem_nil fun hi => ?_, ?_⟩
  · rcases (parent_grown_iff g o _ d i).mp hi with ⟨hi, hparent⟩ | ⟨-, hparent⟩
    · exact Nat.lt_asymm hi (h.parent_lt i hi _ hparent)
    · exact Nat.lt_irrefl _ (ho _ hparent)
  · rintro x ⟨⟩

/-- **An event whose path has no node yet.** -/
theorem Represents.new (h : Represents g paths placed) (ho : g.Valid o)
    (hfrom : g.callFrom d.label (g.callsAt o) = none) :
    Represents (g.enter o d) (Function.update paths g.allocated (d.label :: ownerPath paths o))
      (placed ++ [(d, d.label :: ownerPath paths o)]) := by
  have hfresh := h.fresh_path ho hfrom
  have he := extends_update hfresh
  generalize hπ : d.label :: ownerPath paths o = π at he hfresh ⊢
  generalize Function.update paths g.allocated π = paths' at he ⊢
  obtain ⟨hnone, hnone', hzero⟩ := h.durations_of_fresh (hπ ▸ List.cons_ne_nil _ _) hfresh
  have htail : π.tail = ownerPath paths o := hπ ▸ rfl
  rw [enter_new hfrom ho]
  refine ⟨fun k hk => ?_, fun k hk j hj => ?_, he.injective h.injective, fun π' => ?_,
    fun k hk => ?_, fun k hk => ?_, fun o' ho' => ?_⟩
  · rcases Nat.lt_succ_iff_lt_or_eq.mp hk with hk | rfl
    · dsimp only [grown]
      rw [he.old k hk, afterNew_of_lt o d hk, h.path k hk]
      exact congrArg (_ :: ·) (he.ownerPath_eq (h.valid_parent hk)).symm
    · dsimp only [grown]
      rw [he.new, afterNew_self, he.ownerPath_eq ho, ← hπ]
      rfl
  · rcases (parent_grown_iff g o _ d k).mp ⟨hk, hj⟩ with ⟨hk, hparent⟩ | ⟨rfl, hparent⟩
    · exact h.parent_lt k hk j hparent
    · exact ho j hparent
  · rw [exists_mem_concat_iff, ← h.mem]
    exact he.exists_iff π'
  · rw [ofNat_durations_concat]
    rcases Nat.lt_succ_iff_lt_or_eq.mp hk with hk | rfl
    · simp [he.old k hk, ← h.total k hk, grown, afterNew_of_lt o d hk, (hfresh k hk).symm]
    · simp [he.new, hnone, grown, afterNew_self, TreeNode.new]
  · rw [ofNat_durations_concat]
    rcases Nat.lt_succ_iff_lt_or_eq.mp hk with hk | rfl
    · simp only [he.old k hk, ← h.childrenTotal k hk, grown, afterNew_of_lt o d hk, htail,
        h.ownerPath_eq_iff ho hk, decide_eq_true_eq]
      split <;> simp
    · have hlen : π.tail ≠ π := fun heq => by
        have := congrArg List.length heq
        rw [← hπ] at this
        simp at this
      simp [he.new, hnone', grown, afterNew_self, TreeNode.new, hlen]
  · by_cases hnew : o' = some g.allocated
    · subst hnew
      rw [callsAt_grown_new]
      exact h.callsOf_grown_new ho d paths' _
    · have hvalid : g.Valid o' := fun j hj => by
        refine Nat.lt_of_le_of_ne (Nat.le_of_lt_succ (ho' j hj)) ?_
        rintro rfl
        exact hnew hj
      by_cases hoo : o' = o
      · subst hoo
        rw [callsAt_grown_self hvalid]
        exact he.callsOf_grown_self (h.calls o' hvalid) d hzero
      · rw [callsAt_grown_of_ne hvalid hoo]
        exact he.callsOf_grown_of_ne hoo (h.calls o' hvalid) d

/-! ### The current call and its callers -/

/-- **The nodes from the current call to its root carry the events of the chain.** -/
def ChainAt (g : CallGraph) (paths : ℕ → List Label) :
    Option ℕ → List (NodeData × List Label) → Prop
  | o, [] => o = none
  | o, x :: chain => ∃ i < g.allocated, o = some i ∧ (g.heap i).data = x.1 ∧ paths i = x.2 ∧
      g.ChainAt paths (g.heap i).parent chain

theorem ChainAt.valid (h : g.ChainAt paths o chain) : g.Valid o := by
  rcases chain with _ | ⟨x, chain⟩
  · rintro j rfl
    cases h
  · obtain ⟨i, hi, rfl, -⟩ := h
    rintro j ⟨⟩
    exact hi

theorem ChainAt.topPath_eq (h : g.ChainAt paths o chain) :
    Nesting.topPath chain = ownerPath paths o := by
  rcases chain with _ | ⟨x, chain⟩
  · rw [show o = none from h]
    rfl
  · obtain ⟨i, -, rfl, -, hpath, -⟩ := h
    exact hpath.symm

/-- The climb from the current call finds what is left of the chain. -/
theorem ChainAt.climb (hg : Represents g paths placed) (h : g.ChainAt paths o chain) (d : NodeData)
    (fuel : ℕ) (hfuel : ∀ i, o = some i → i < fuel) :
    g.ChainAt paths (g.climb d fuel o) (Nesting.remaining NodeData.contains chain d) := by
  induction chain generalizing o fuel with
  | nil =>
    rw [show o = none from h]
    rcases fuel with _ | fuel <;> rfl
  | cons x chain ih =>
    obtain ⟨i, hi, rfl, hdata, hpath, hrest⟩ := h
    obtain ⟨fuel, rfl⟩ : ∃ f, fuel = f + 1 := ⟨fuel - 1, by have := hfuel i rfl; omega⟩
    rw [CallGraph.climb, hdata, Nesting.remaining, List.dropWhile_cons]
    rcases hc : x.1.contains d with _ | _
    · refine ih hrest _ fun j hj => ?_
      have hlt := hg.parent_lt i hi j hj
      have hle := hfuel i rfl
      omega
    · exact ⟨i, hi, rfl, hdata, hpath, hrest⟩

/-- A chain is not touched by what happens to later nodes. -/
theorem ChainAt.congr (hg : Represents g paths placed) {g' : CallGraph} {paths' : ℕ → List Label}
    (h : g.ChainAt paths o chain) {n : ℕ} (hn : n ≤ g'.allocated) (ho : ∀ i, o = some i → i < n)
    (hsame : ∀ k < n, k < g.allocated → (g'.heap k).data = (g.heap k).data ∧
      (g'.heap k).parent = (g.heap k).parent ∧ paths' k = paths k) : g'.ChainAt paths' o chain := by
  induction chain generalizing o with
  | nil => exact h
  | cons x chain ih =>
    obtain ⟨i, hi, rfl, hdata, hpath, hrest⟩ := h
    have hin := ho i rfl
    obtain ⟨hdata', hparent', hpath'⟩ := hsame i hin hi
    refine ⟨i, Nat.lt_of_lt_of_le hin hn, rfl, hdata'.trans hdata, hpath'.trans hpath, ?_⟩
    rw [hparent']
    exact ih hrest fun j hj => Nat.lt_trans (hg.parent_lt i hi j hj) hin

/-- **One event**: it is placed as the chain says. -/
theorem Represents.addEvent (hg : Represents g paths placed)
    (hchain : g.ChainAt paths g.currentCall chain) (d : NodeData) :
    ∃ paths', Represents (g.addEvent d) paths'
        (placed ++ [Nesting.placeOne NodeData.label NodeData.contains chain d]) ∧
      (g.addEvent d).ChainAt paths' (g.addEvent d).currentCall
        (Nesting.advance NodeData.label NodeData.contains chain d) := by
  have hclimb := hchain.climb hg d (g.allocated + 1) fun i hi =>
    Nat.lt_succ_of_lt (hchain.valid i hi)
  rw [addEvent_eq_enter, Nesting.advance, Nesting.placeOne]
  generalize g.climb d (g.allocated + 1) g.currentCall = o at hclimb ⊢
  rw [hclimb.topPath_eq]
  rcases hfrom : g.callFrom d.label (g.callsAt o) with _ | ⟨i, calls⟩
  · refine ⟨_, hg.new hclimb.valid hfrom, ?_⟩
    rw [enter_new hfrom hclimb.valid]
    refine ⟨g.allocated, Nat.lt_succ_self _, rfl, ?_, Function.update_self _ _ _, ?_⟩
    · exact congrArg TreeNode.data (afterNew_self g o d)
    · dsimp only [grown]
      rw [afterNew_self]
      refine hclimb.congr hg (Nat.le_succ _) hclimb.valid fun k hk _ => ?_
      dsimp only
      rw [afterNew_of_lt o d hk]
      exact ⟨rfl, rfl, Function.update_of_ne (Nat.ne_of_lt hk) _ _⟩
  · obtain ⟨hi, hparent, -, hrecall⟩ := hg.recall hclimb.valid hfrom
    refine ⟨paths, hrecall, ?_⟩
    have hlt : ∀ j, o = some j → j < i := fun j hj => hg.parent_lt i hi j (hparent.trans hj)
    rw [enter_recall hfrom fun heq => Nat.lt_irrefl i (hlt i heq)]
    refine ⟨i, hi, rfl, if_pos rfl, ?_, ?_⟩
    · have hlabel : (g.heap i).data.label = d.label := (callFrom_eq_some hfrom).1
      rw [hg.path i hi, hlabel, hparent]
    · change ChainAt _ _ (g.heap i).parent _
      rw [hparent]
      refine hclimb.congr hg (Nat.le_of_lt hi) hlt fun k hk _ => ?_
      exact ⟨if_neg (Nat.ne_of_lt hk), rfl, rfl⟩

/-- The events with the paths where the chain places them, the innermost label first. -/
def placements (sorted : List NodeData) : List (NodeData × List Label) :=
  Nesting.place NodeData.label NodeData.contains [] sorted

/-- **The graph that `make` builds** represents the events as the chain places them. -/
theorem represents_make (sorted : List NodeData) :
    ∃ paths, Represents (make sorted) paths (placements sorted) := by
  -- with a graph that has seen some events, the induction is on the others
  have hrun : ∀ (as : List NodeData) (g : CallGraph) (paths : ℕ → List Label)
      (placed chain : List (NodeData × List Label)), Represents g paths placed →
      g.ChainAt paths g.currentCall chain →
      ∃ paths', Represents (as.foldl CallGraph.addEvent g) paths'
        (placed ++ Nesting.place NodeData.label NodeData.contains chain as) := by
    intro as
    induction as with
    | nil =>
      intro g paths placed chain hg _
      exact ⟨paths, by rwa [Nesting.place, List.append_nil]⟩
    | cons d as ih =>
      intro g paths placed chain hg hchain
      obtain ⟨paths', hg', hchain'⟩ := hg.addEvent hchain d
      obtain ⟨paths'', hrest⟩ := ih _ _ _ _ hg' hchain'
      refine ⟨paths'', ?_⟩
      rwa [List.append_assoc] at hrest
  exact hrun sorted empty (fun _ => []) [] [] (represents_empty _) rfl

/-! ### The forest -/

section

variable (h : Represents g paths placed)

include h

/-- Every node lies no deeper than its number. -/
theorem Represents.length_path_le (hi : i < g.allocated) : (paths i).length ≤ i + 1 := by
  induction i using Nat.strong_induction_on with
  | _ i ih =>
    rw [h.path i hi]
    rcases hparent : (g.heap i).parent with _ | j
    · exact Nat.succ_le_succ (Nat.zero_le _)
    · have hj := h.parent_lt i hi j hparent
      exact Nat.succ_le_succ (Nat.le_trans (ih j hj (Nat.lt_trans hj hi)) hj)

/-- The node of the forest for a node of the graph. -/
def nodeOf (g : CallGraph) (paths : ℕ → List Label) (placed : List (NodeData × List Label))
    (i : ℕ) : Node :=
  ⟨(paths i).reverse, wrapInt (countAt placed (paths i)), (g.heap i).totalDuration,
    (g.heap i).totalChildrenDuration⟩

/-- Every ending of a path is the path of a node. -/
theorem Represents.exists_ancestor {w π : List Label} (hi : i < g.allocated)
    (hpath : paths i = w ++ π) (hne : π ≠ []) : ∃ k < g.allocated, paths k = π := by
  induction w generalizing i with
  | nil => exact ⟨i, hi, hpath⟩
  | cons l w ih =>
    rw [h.path i hi, List.cons_append] at hpath
    have htail := (List.cons.inj hpath).2
    rcases hparent : (g.heap i).parent with _ | j
    · rw [hparent] at htail
      exact absurd (List.append_eq_nil_iff.mp htail.symm).2 hne
    · rw [hparent] at htail
      exact ih (h.valid_parent hi j hparent) htail

/-- One level of the forest. -/
theorem Represents.nodes_succ (depth : ℕ) (ho : g.Valid o) :
    g.nodes (depth + 1) (ownerPath paths o) (g.callsAt o) = (g.callsAt o).flatMap fun call =>
      nodeOf g paths placed call.1 ::
        g.nodes depth (ownerPath paths (some call.1)) (g.callsAt (some call.1)) := by
  rw [nodes]
  refine List.flatMap_congr fun call hcall => ?_
  have hcalls := h.calls o ho
  obtain ⟨hlt, hparent⟩ := (hcalls.mem call.1).mp (List.mem_map_of_mem hcall)
  have hpath : (g.heap call.1).data.label :: ownerPath paths o = paths call.1 := by
    rw [h.path call.1 hlt, hparent]
  rw [hpath, hcalls.count call hcall]
  rfl

/-- **What `nodes` lists**: the nodes below an owner, down to the depth. -/
theorem Represents.mem_nodes {depth : ℕ} (ho : g.Valid o) {x : Node} :
    x ∈ g.nodes depth (ownerPath paths o) (g.callsAt o) ↔
      ∃ i < g.allocated, x = nodeOf g paths placed i ∧
        ∃ w, w ≠ [] ∧ w.length ≤ depth ∧ paths i = w ++ ownerPath paths o := by
  induction depth generalizing o with
  | zero =>
    refine iff_of_false List.not_mem_nil ?_
    rintro ⟨i, -, -, w, hne, hlen, -⟩
    exact hne (List.eq_nil_of_length_eq_zero (Nat.le_zero.mp hlen))
  | succ depth ih =>
    have hcalls := h.calls o ho
    rw [h.nodes_succ depth ho, List.mem_flatMap]
    constructor
    · rintro ⟨call, hcall, hx⟩
      obtain ⟨hlt, hparent⟩ := (hcalls.mem call.1).mp (List.mem_map_of_mem hcall)
      have hpath : paths call.1 = [(g.heap call.1).data.label] ++ ownerPath paths o := by
        rw [h.path call.1 hlt, hparent]
        rfl
      rcases List.mem_cons.mp hx with rfl | hx
      · exact ⟨call.1, hlt, rfl, _, List.cons_ne_nil _ _, Nat.succ_le_succ (Nat.zero_le _), hpath⟩
      · obtain ⟨i, hi, rfl, w, -, hlen, hw⟩ := (ih fun j hj => by cases hj; exact hlt).mp hx
        refine ⟨i, hi, rfl, w ++ [(g.heap call.1).data.label], by simp, by simpa using hlen, ?_⟩
        rw [hw, List.append_assoc, ← hpath]
        rfl
    · rintro ⟨i, hi, rfl, w, hne, hlen, hw⟩
      -- the node right below the owner on the way to `i`
      obtain ⟨w, l, rfl⟩ := List.eq_nil_or_concat w |>.resolve_left hne
      rw [List.concat_eq_append, List.append_assoc] at hw
      obtain ⟨k, hk, hkpath⟩ := h.exists_ancestor hi hw (List.cons_ne_nil _ _)
      have hparent : (g.heap k).parent = o := by
        have heq := (h.path k hk).symm.trans hkpath
        exact h.owner_injective (h.valid_parent hk) ho (List.cons.inj heq).2
      obtain ⟨call, hcall, rfl⟩ := List.mem_map.mp ((hcalls.mem k).mpr ⟨hk, hparent⟩)
      refine ⟨call, hcall, ?_⟩
      rw [← hkpath] at hw
      rcases eq_or_ne w [] with rfl | hwne
      · rw [h.injective i hi call.1 hk hw]
        exact List.mem_cons_self
      · refine List.mem_cons_of_mem _ ((ih fun j hj => by cases hj; exact hk).mpr ?_)
        rw [List.length_concat] at hlen
        exact ⟨i, hi, rfl, w, hwne, Nat.le_of_succ_le_succ hlen, hw⟩

/-- **No path is listed twice.** -/
theorem Represents.nodup_nodes {depth : ℕ} (ho : g.Valid o) :
    ((g.nodes depth (ownerPath paths o) (g.callsAt o)).map Node.path).Nodup := by
  induction depth generalizing o with
  | zero => exact List.nodup_nil
  | succ depth ih =>
    have hcalls := h.calls o ho
    have hvalid : ∀ call ∈ g.callsAt o, g.Valid (some call.1) := by
      rintro call hcall j ⟨⟩
      exact ((hcalls.mem call.1).mp (List.mem_map_of_mem hcall)).1
    have hblock : ∀ call ∈ g.callsAt o, ∀ π ∈ (nodeOf g paths placed call.1 ::
        g.nodes depth (ownerPath paths (some call.1)) (g.callsAt (some call.1))).map Node.path,
        ∃ w, π = (w ++ paths call.1).reverse := by
      intro call hcall π hπ
      obtain ⟨x, hx, rfl⟩ := List.mem_map.mp hπ
      rcases List.mem_cons.mp hx with rfl | hx
      · exact ⟨[], rfl⟩
      · obtain ⟨i, -, rfl, w, -, -, hw⟩ := (h.mem_nodes (hvalid call hcall)).mp hx
        exact ⟨w, congrArg List.reverse hw⟩
    rw [h.nodes_succ depth ho, List.map_flatMap, List.nodup_flatMap]
    constructor
    · intro call hcall
      rw [List.map_cons, List.nodup_cons]
      refine ⟨?_, ih (hvalid call hcall)⟩
      intro hmem
      obtain ⟨x, hx, hpath⟩ := List.mem_map.mp hmem
      obtain ⟨i, -, rfl, w, hne, -, hw⟩ := (h.mem_nodes (hvalid call hcall)).mp hx
      have heq := List.reverse_injective hpath
      rw [hw] at heq
      exact hne (List.append_left_eq_self.mp heq)
    · have hpairs := List.pairwise_map.mp hcalls.nodup
      refine hpairs.imp_of_mem ?_
      intro x y hx hy hne π hπx hπy
      obtain ⟨w, rfl⟩ := hblock x hx π hπx
      obtain ⟨w', hw'⟩ := hblock y hy _ hπy
      obtain ⟨hxlt, hxparent⟩ := (hcalls.mem x.1).mp (List.mem_map_of_mem hx)
      obtain ⟨hylt, hyparent⟩ := (hcalls.mem y.1).mp (List.mem_map_of_mem hy)
      have hlen : (paths x.1).length = (paths y.1).length := by
        rw [h.path x.1 hxlt, h.path y.1 hylt, hxparent, hyparent]
        rfl
      exact hne (h.injective x.1 hxlt y.1 hylt
        (List.append_inj_right' (List.reverse_injective hw') hlen))

/-- The nodes of the forest are the nodes of the graph. -/
theorem Represents.mem_forest {x : Node} :
    x ∈ g.forest ↔ ∃ i < g.allocated, x = nodeOf g paths placed i := by
  have hroot : g.Valid none := by rintro j ⟨⟩
  refine (h.mem_nodes hroot).trans ⟨?_, ?_⟩
  · rintro ⟨i, hi, hx, -⟩
    exact ⟨i, hi, hx⟩
  · rintro ⟨i, hi, hx⟩
    refine ⟨i, hi, hx, paths i, ?_, ?_, (List.append_nil _).symm⟩
    · rw [h.path i hi]
      exact List.cons_ne_nil _ _
    · exact Nat.le_trans (h.length_path_le hi) hi

end

/-- **No two nodes of the forest have the same path.** -/
theorem nodup_forest_make (sorted : List NodeData) :
    ((make sorted).forest.map Node.path).Nodup := by
  obtain ⟨paths, h⟩ := represents_make sorted
  have hroot : (make sorted).Valid none := by rintro j ⟨⟩
  exact h.nodup_nodes hroot

/-- The paths of the forest. -/
theorem exists_node_iff (sorted : List NodeData) (π : List Label) :
    (∃ x ∈ (make sorted).forest, x.path = π.reverse) ↔ ∃ y ∈ placements sorted, y.2 = π := by
  obtain ⟨paths, h⟩ := represents_make sorted
  rw [← h.mem π]
  constructor
  · rintro ⟨x, hx, hpath⟩
    obtain ⟨i, hi, rfl⟩ := h.mem_forest.mp hx
    exact ⟨i, hi, List.reverse_injective hpath⟩
  · rintro ⟨i, hi, rfl⟩
    exact ⟨_, h.mem_forest.mpr ⟨i, hi, rfl⟩, rfl⟩

/-- **The forest has a node for every path** where an event is placed, with the number of events
placed there, the sum of their durations, and the sum of the durations of the events placed
right below. -/
theorem mem_forest_make (sorted : List NodeData) {x : Node} :
    x ∈ (make sorted).forest ↔ (∃ y ∈ placements sorted, y.2 = x.path.reverse) ∧
      x.calls = wrapInt (countAt (placements sorted) x.path.reverse) ∧
      x.totalDuration =
        UInt64.ofNat (durations (placements sorted) fun y => y.2 = x.path.reverse) ∧
      x.totalChildrenDuration =
        UInt64.ofNat (durations (placements sorted) fun y => y.2.tail = x.path.reverse) := by
  obtain ⟨paths, h⟩ := represents_make sorted
  rw [h.mem_forest]
  constructor
  · rintro ⟨i, hi, rfl⟩
    have hpath : (nodeOf (make sorted) paths (placements sorted) i).path.reverse = paths i :=
      List.reverse_reverse _
    rw [hpath]
    exact ⟨(h.mem (paths i)).mp ⟨i, hi, rfl⟩, rfl, h.total i hi, h.childrenTotal i hi⟩
  · rintro ⟨hplaced, hcalls, htotal, hchildren⟩
    obtain ⟨i, hi, hpath⟩ := (h.mem _).mpr hplaced
    have hx : x.path = (paths i).reverse := by rw [hpath, List.reverse_reverse]
    rw [← hpath] at hcalls htotal hchildren
    rw [← h.total i hi] at htotal
    rw [← h.childrenTotal i hi] at hchildren
    exact ⟨i, hi, Node.ext hx hcalls htotal hchildren⟩

end CallGraph

end HawkTracer.Client
