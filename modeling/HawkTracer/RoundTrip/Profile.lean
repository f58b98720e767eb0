import HawkTracer.Base.Brackets
import HawkTracer.Client.SelfCost
import HawkTracer.Lib.Callstack

/-!
# From the scopes of a program to its profile

A program opens and closes scopes with the callstack feature, and the client makes a call graph
of the events. The program has a call tree of its own: the scopes that are open when a scope is
opened (`HawkTracer.Brackets`). Nothing of it is in the events but the readings of the clock.

As long as the clock ticks before a scope is opened, that is enough. The parent of an event is
the event of the scope around it (`HawkTracer.RoundTrip.parent_nodeOf`), so the paths of the
events are the paths of the program (`HawkTracer.RoundTrip.path_nodeOf`), and the forest that
`CallGraph::make` returns is the program's call tree
(`HawkTracer.RoundTrip.mem_forest_scopes`).
-/

namespace HawkTracer.RoundTrip

open HawkTracer.Client HawkTracer.Client.CallGraph HawkTracer.Client.CallTree

/-! ### The events of spans -/

/-- The event of a span, as the call graph has it. -/
def nodeOf (c : Brackets.Span Label) : NodeData :=
  ⟨c.label, UInt64.ofNat c.start, UInt64.ofNat c.stop⟩

/-- **The node of the call tree for a path**: how often it was called, and the times of the
calls and of their callees, in the types of the source. -/
def profileNode (spans : List (Brackets.Span Label)) (π : List Label) : Node where
  path := π
  calls := wrapInt (spans.countP fun c => c.path = π)
  totalDuration := UInt64.ofNat ((spans.filter fun c => c.path = π).map Brackets.Span.duration).sum
  totalChildrenDuration :=
    UInt64.ofNat ((spans.filter fun c => c.callerPath = some π).map Brackets.Span.duration).sum

section Spans

variable {s : Brackets.State Label} (h : Brackets.Kept s) (hclosed : s.opened = [])
  (hfits : ∀ c ∈ s.spans, c.stop < 2 ^ 64)

include h hfits

variable {c : Brackets.Span Label}

theorem interval_nodeOf (hc : c ∈ s.spans) : interval (nodeOf c) = (c.start, c.stop) := by
  have hle := h.start_le_stop c hc
  have hlt := hfits c hc
  rw [interval, nodeOf]
  dsimp only
  rw [UInt64.toNat_ofNat_of_lt' (Nat.lt_of_le_of_lt hle hlt), UInt64.toNat_ofNat_of_lt' hlt]

theorem startTs_nodeOf (hc : c ∈ s.spans) :
    (nodeOf c).startTs.toNat = c.start := congrArg Prod.fst (interval_nodeOf h hfits hc)

theorem stopTs_nodeOf (hc : c ∈ s.spans) :
    (nodeOf c).stopTs.toNat = c.stop := congrArg Prod.snd (interval_nodeOf h hfits hc)

theorem duration_nodeOf (hc : c ∈ s.spans) : duration (nodeOf c) = c.duration := by
  rw [duration, startTs_nodeOf h hfits hc, stopTs_nodeOf h hfits hc, Brackets.Span.duration]

theorem contains_nodeOf {q : Brackets.Span Label} (hq : q ∈ s.spans) (hc : c ∈ s.spans) :
    (nodeOf q).contains (nodeOf c) = true ↔ q.Encloses c := by
  rw [contains_iff, startTs_nodeOf h hfits hq, startTs_nodeOf h hfits hc, stopTs_nodeOf h hfits hq,
    stopTs_nodeOf h hfits hc, Brackets.Span.Encloses]

/-- Different spans have different events. -/
theorem eq_of_nodeOf_eq {q : Brackets.Span Label} (hq : q ∈ s.spans) (hc : c ∈ s.spans)
    (heq : nodeOf q = nodeOf c) : q = c := by
  refine h.eq_of_start_eq hq hc ?_
  rw [← startTs_nodeOf h hfits hq, heq, startTs_nodeOf h hfits hc]

theorem nodup_starts_spans : ((s.spans.map nodeOf).map NodeData.startTs).Nodup := by
  rw [List.map_map]
  refine List.pairwise_map.mpr (h.distinct.imp_of_mem fun hc hc' hne heq => hne ?_)
  rw [← startTs_nodeOf h hfits hc, ← startTs_nodeOf h hfits hc']
  exact congrArg UInt64.toNat heq

include hclosed

theorem laminar_spans : Laminar (s.spans.map nodeOf) where
  start_le_stop := by
    intro e he
    obtain ⟨c, hc, rfl⟩ := List.mem_map.mp he
    rw [UInt64.le_iff_toNat_le, startTs_nodeOf h hfits hc, stopTs_nodeOf h hfits hc]
    exact h.start_le_stop c hc
  nested := by
    refine List.pairwise_map.mpr (h.distinct.imp_of_mem fun {c c'} hc hc' _ => ?_)
    rw [interval_nodeOf h hfits hc, interval_nodeOf h hfits hc']
    exact h.nestedOrApart hclosed hc hc'

section

variable (hc : c ∈ s.spans)

include hc

/-- What contains the event of a span is the event of a span around it. -/
theorem exists_of_mem_containers {e : NodeData} (he : e ∈ s.spans.map nodeOf) (hne : e ≠ nodeOf c)
    (hcontains : e.contains (nodeOf c) = true) :
    ∃ q ∈ s.spans, e = nodeOf q ∧ q.toScope ∈ c.outer := by
  obtain ⟨q, hq, rfl⟩ := List.mem_map.mp he
  refine ⟨q, hq, rfl, ?_⟩
  have hencloses := (contains_nodeOf h hfits hq hc).mp hcontains
  exact ((h.encloses_iff hclosed hq hc).mp hencloses).resolve_left fun heq =>
    hne (congrArg nodeOf heq)

/-- A span without a scope around it has no parent. -/
theorem parent_nodeOf_of_nil (hnil : c.outer = []) :
    parent (s.spans.map nodeOf) (nodeOf c) = none := by
  rw [parent, List.argmax_eq_none, List.filter_eq_nil_iff]
  intro e he hboth
  obtain ⟨hne, hcontains⟩ := of_decide_eq_true hboth
  obtain ⟨q, -, -, hmem⟩ := exists_of_mem_containers h hclosed hfits hc he hne hcontains
  rw [hnil] at hmem
  cases hmem

/-- **The parent of an event is the event of the scope around it.** -/
theorem parent_nodeOf {p : Brackets.Span Label} (hp : p ∈ s.spans)
    {os : List (Brackets.Scope Label)} (houter : c.outer = p.toScope :: os) :
    parent (s.spans.map nodeOf) (nodeOf c) = some (nodeOf p) := by
  have hmem : p.toScope ∈ c.outer := houter ▸ List.mem_cons_self
  have hlt := h.outer_lt hc hmem
  have hencloses := (h.encloses_iff hclosed hp hc).mpr (.inr hmem)
  have hpc : nodeOf p ∈ (s.spans.map nodeOf).filter
      fun q => q ≠ nodeOf c ∧ q.contains (nodeOf c) := by
    refine List.mem_filter.mpr ⟨List.mem_map_of_mem hp, decide_eq_true ⟨fun heq => ?_, ?_⟩⟩
    · rw [eq_of_nodeOf_eq h hfits hp hc heq] at hlt
      exact Nat.lt_irrefl _ hlt
    · exact (contains_nodeOf h hfits hp hc).mpr hencloses
  rcases hparent : parent (s.spans.map nodeOf) (nodeOf c) with _ | m
  · rw [parent, List.argmax_eq_none] at hparent
    rw [hparent] at hpc
    cases hpc
  · obtain ⟨hm, hne, hcontains, hlatest⟩ := parent_spec hparent
    obtain ⟨q, hq, rfl, hqc⟩ := exists_of_mem_containers h hclosed hfits hc hm hne hcontains
    obtain ⟨hpm, hpcontains⟩ := of_decide_eq_true (List.mem_filter.mp hpc).2
    -- no scope around the span opened later than the innermost one
    have hle := hlatest (nodeOf p) (List.mem_map_of_mem hp) hpm hpcontains
    rw [startTs_nodeOf h hfits hp, startTs_nodeOf h hfits hq] at hle
    rw [houter] at hqc
    have hsorted := h.outer_sorted c hc
    rw [houter] at hsorted
    have heq : q.start = p.start := by
      rcases List.mem_cons.mp hqc with heq | hqc
      · exact congrArg Brackets.Scope.start heq
      · have hlater := (List.pairwise_cons.mp (List.pairwise_cons.mp hsorted).2).1 _ hqc
        omega
    rw [h.eq_of_start_eq hq hp heq]

/-- The caller of a span is a span. -/
theorem exists_parent {o : Brackets.Scope Label} {os : List (Brackets.Scope Label)}
    (houter : c.outer = o :: os) :
    ∃ p ∈ s.spans, p.toScope = o ∧ p.outer = os ∧
      parent (s.spans.map nodeOf) (nodeOf c) = some (nodeOf p) := by
  obtain ⟨p, hp, rfl, hos, -⟩ :=
    h.exists_caller hclosed hc (houter ▸ List.suffix_rfl : (o :: os) <:+ c.outer)
  exact ⟨p, hp, rfl, hos, parent_nodeOf h hclosed hfits hc hp houter⟩

theorem pathWithin_nodeOf {n : ℕ} (hn : c.outer.length < n) :
    pathWithin (s.spans.map nodeOf) n (nodeOf c) = c.path := by
  induction n generalizing c with
  | zero => cases hn
  | succ n ih =>
    rw [pathWithin]
    rcases houter : c.outer with _ | ⟨o, os⟩
    · rw [parent_nodeOf_of_nil h hclosed hfits hc houter, Brackets.Span.path, houter]
      rfl
    · obtain ⟨p, hp, rfl, hos, hparent⟩ := exists_parent h hclosed hfits hc houter
      have hlen : p.outer.length < n := by
        rw [houter, List.length_cons] at hn
        rw [hos]
        omega
      rw [hparent]
      dsimp only
      rw [ih hp hlen, Brackets.Span.path, Brackets.Span.path, hos, houter, List.map_cons,
        List.reverse_cons (a := c.label), List.reverse_cons]
      rfl

/-- **The path of an event is the path of the program.** -/
theorem path_nodeOf : path (s.spans.map nodeOf) (nodeOf c) = c.path := by
  refine pathWithin_nodeOf h hclosed hfits hc ?_
  rw [List.length_map]
  exact h.length_outer_lt hclosed hc

theorem parent_path_nodeOf :
    (parent (s.spans.map nodeOf) (nodeOf c)).map (path (s.spans.map nodeOf)) = c.callerPath := by
  rcases houter : c.outer with _ | ⟨o, os⟩
  · rw [parent_nodeOf_of_nil h hclosed hfits hc houter, Brackets.Span.callerPath, houter]
    rfl
  · obtain ⟨p, hp, rfl, hos, hparent⟩ := exists_parent h hclosed hfits hc houter
    rw [hparent, Option.map_some, path_nodeOf h hclosed hfits hp, Brackets.Span.callerPath, houter,
      Brackets.Span.path, hos]
    rfl

end

/-- What is summed up for a path in the graph is what is summed up in the program. -/
theorem nodeWith_spans (π : List Label) :
    nodeWith (s.spans.map nodeOf) π = profileNode s.spans π := by
  have hsum : ∀ (p : NodeData → Bool) (q : Brackets.Span Label → Bool),
      (∀ c ∈ s.spans, p (nodeOf c) = q c) →
      (((s.spans.map nodeOf).filter p).map duration).sum =
        ((s.spans.filter q).map Brackets.Span.duration).sum := by
    intro p q hpq
    rw [List.filter_map, List.map_map]
    refine congrArg List.sum ?_
    rw [List.filter_congr (p := p ∘ nodeOf) (q := q) hpq]
    exact List.map_congr_left fun c hc => duration_nodeOf h hfits (List.mem_of_mem_filter hc)
  have hcount : callsWith (s.spans.map nodeOf) π = s.spans.countP fun c => c.path = π := by
    rw [callsWith, List.countP_map]
    refine List.countP_congr fun c hc => ?_
    rw [Function.comp_apply, path_nodeOf h hclosed hfits hc]
  rw [nodeWith, profileNode, hcount, totalWith, childrenTotalWith,
    hsum _ (fun c => c.path = π) fun c hc => by rw [path_nodeOf h hclosed hfits hc],
    hsum _ (fun c => c.callerPath = some π) fun c hc => by
      rw [parent_path_nodeOf h hclosed hfits hc]]

/-- **The forest of the events is the call tree of the spans.** -/
theorem mem_forest_spans {sorted : List NodeData} (harr : Arranges sorted (s.spans.map nodeOf))
    {x : Node} :
    x ∈ (make sorted).forest ↔
      (∃ c ∈ s.spans, c.path = x.path) ∧ x = profileNode s.spans x.path := by
  rw [mem_forest_iff (laminar_spans h hclosed hfits) harr (nodup_starts_spans h hfits),
    nodeWith_spans h hclosed hfits]
  refine and_congr_left fun _ => ?_
  constructor
  · rintro ⟨e, he, hpath⟩
    obtain ⟨c, hc, rfl⟩ := List.mem_map.mp he
    exact ⟨c, hc, by rw [← hpath, path_nodeOf h hclosed hfits hc]⟩
  · rintro ⟨c, hc, hpath⟩
    exact ⟨nodeOf c, List.mem_map_of_mem hc, by rw [path_nodeOf h hclosed hfits hc, hpath]⟩

end Spans

/-! ### The scopes of the callstack feature -/

section Feature

open HawkTracer.Lib

variable {host : ByteOrder} {typeSize : ℕ → ℕ} (labelOf : ℕ → List UInt8 → Label)

/-- The label of an event: `labelOf` finds it from the klass of the event and what it has beyond
the base type. -/
def labelAt (host : ByteOrder) (event : List UInt8) : Label :=
  labelOf (EventField.klass.get host event) (event.drop EventField.threadId.stop)

/-- What a converter stores for a pushed event. -/
def pushedNode (host : ByteOrder) (event : List UInt8) : NodeData :=
  .new (labelAt labelOf host event) (UInt64.ofNat (EventField.timestamp.get host event))
    (UInt64.ofNat (EventField.duration.get host event))

/-- A call of the feature opens or closes a scope. -/
def bracketOp : CallstackOp host typeSize → Brackets.Op Label
  | .start event timestamp _ => .start (labelAt labelOf host event.bytes) timestamp.toNat
  | .stop now _ => .stop now.toNat

/-- **The clock ticks before a scope is opened**; and as before, it does not go back, and a stop
ends an open scope. -/
def Ticked (s : CallstackTrace host typeSize) (op : CallstackOp host typeSize) : Prop :=
  CallstackTrace.Allowed s op ∧ match op with
    | .start _ timestamp _ => (∀ o ∈ s.scopes.opened, o.timestamp < timestamp) ∧
        ∀ c ∈ s.scopes.finished, c.stop < timestamp
    | .stop .. => True

instance (s : CallstackTrace host typeSize) : ∀ op, Decidable (Ticked s op)
  | .start _ timestamp _ => inferInstanceAs (Decidable (CallstackTrace.Allowed s _ ∧
      (∀ o ∈ s.scopes.opened, o.timestamp < timestamp) ∧
        ∀ c ∈ s.scopes.finished, c.stop < timestamp))
  | .stop .. => inferInstanceAs (Decidable (CallstackTrace.Allowed s _ ∧ True))

/-- A scope of the feature, without its bytes. -/
def scopeOf (scope : Lib.Scope host typeSize) : Brackets.Scope Label :=
  ⟨labelAt labelOf host scope.event.bytes, scope.timestamp.toNat⟩

/-- **The two bracket structures agree.** -/
structure Follows (s : CallstackTrace host typeSize) (b : Brackets.State Label) : Prop where
  kept : s.Kept
  opened : b.opened = s.scopes.opened.map (scopeOf labelOf)
  finished : b.spans.map (fun c => (c.toScope, c.stop)) =
    s.scopes.finished.map fun c => (scopeOf labelOf c.toScope, c.stop.toNat)

theorem follows_start : Follows labelOf (.start : CallstackTrace host typeSize) Brackets.init :=
  ⟨CallstackTrace.kept_start, rfl, rfl⟩

variable {labelOf} {s : CallstackTrace host typeSize} {b : Brackets.State Label}

section

variable (h : Follows labelOf s b)

include h

/-- What holds of all open scopes. -/
theorem Follows.forall_opened (p : ℕ → Prop) (hp : ∀ o ∈ s.scopes.opened, p o.timestamp.toNat) :
    ∀ o ∈ b.opened, p o.start := by
  rw [h.opened]
  intro o ho
  obtain ⟨scope, hscope, rfl⟩ := List.mem_map.mp ho
  exact hp scope hscope

/-- What holds of all finished calls. -/
theorem Follows.forall_spans (p : ℕ → Prop) (hp : ∀ c ∈ s.scopes.finished, p c.stop.toNat) :
    ∀ c ∈ b.spans, p c.stop := by
  intro c hc
  have hmem : (c.toScope, c.stop) ∈ b.spans.map fun c => (c.toScope, c.stop) :=
    List.mem_map_of_mem hc
  rw [h.finished] at hmem
  obtain ⟨c', hc', heq⟩ := List.mem_map.mp hmem
  have hstop : c'.stop.toNat = c.stop := congrArg Prod.snd heq
  exact hstop ▸ hp c' hc'

/-- A call that the clock allows is one that the brackets allow. -/
theorem Follows.ticking {op : CallstackOp host typeSize} (hop : Ticked s op) :
    Brackets.Ticking b (bracketOp labelOf op) := by
  obtain ⟨hallowed, htick⟩ := hop
  cases op with
  | start event timestamp id =>
    refine ⟨h.forall_opened (· < timestamp.toNat) fun o ho => ?_,
      h.forall_spans (· < timestamp.toNat) fun c hc => ?_⟩
    · exact UInt64.lt_iff_toNat_lt.mp (htick.1 o ho)
    · exact UInt64.lt_iff_toNat_lt.mp (htick.2 c hc)
  | stop now thread =>
    obtain ⟨hnow, hopened⟩ := hallowed
    refine ⟨?_, h.forall_opened (· ≤ now.toNat) fun o ho => UInt64.le_iff_toNat_le.mp ?_,
      h.forall_spans (· ≤ now.toNat) fun c hc => UInt64.le_iff_toNat_le.mp ?_⟩
    · rw [h.opened]
      exact fun hnil => List.length_pos_iff.mp hopened (List.map_eq_nil_iff.mp hnil)
    · exact UInt64.le_trans (h.kept.opened_le o ho) hnow
    · exact UInt64.le_trans (h.kept.finished_le c hc) hnow

theorem Follows.step {op : CallstackOp host typeSize} (hop : Ticked s op) :
    Follows labelOf (s.step op) (Brackets.step b (bracketOp labelOf op)) := by
  have hkept := h.kept.step hop.1
  cases op with
  | start event timestamp id =>
    exact ⟨hkept, congrArg (scopeOf labelOf ⟨event, timestamp, id⟩ :: ·) h.opened, h.finished⟩
  | stop now thread =>
    obtain ⟨scope, opened, hopened⟩ := List.exists_cons_of_length_pos hop.1.2
    have hscopes : (s.step (.stop now thread)).scopes =
        ⟨opened, s.scopes.finished ++ [⟨scope, now, thread⟩]⟩ := by
      rw [CallstackTrace.step, Scopes.step, hopened]
    have hstep : Brackets.step b
        (bracketOp labelOf (.stop now thread : CallstackOp host typeSize)) =
        ⟨opened.map (scopeOf labelOf), b.spans ++
          [⟨scopeOf labelOf scope, now.toNat, opened.map (scopeOf labelOf)⟩]⟩ := by
      rw [bracketOp, Brackets.step, h.opened, hopened]
      rfl
    refine ⟨hkept, ?_, ?_⟩
    · rw [hscopes, hstep]
    · rw [hscopes, hstep, List.map_append, List.map_append, h.finished]
      rfl

/-- The events pushed are those of the spans. -/
theorem Follows.pushed_eq :
    s.feature.pushed.map (pushedNode labelOf host) = b.spans.map nodeOf := by
  -- both are what a converter would store for the finished calls
  have hspans : b.spans.map nodeOf = (b.spans.map fun c => (c.toScope, c.stop)).map
      fun p => ⟨p.1.label, UInt64.ofNat p.1.start, UInt64.ofNat p.2⟩ := by
    rw [List.map_map]
    rfl
  rw [hspans, h.finished, List.map_map]
  have hmatched := h.kept.matched
  generalize s.feature.pushed = events, s.scopes.finished = calls at hmatched
  induction hmatched with
  | nil => rfl
  | @cons event call events calls hmatch _ ih =>
    refine congrArg₂ List.cons ?_ ih
    have hle := UInt64.le_iff_toNat_le.mp hmatch.le
    have hstop : UInt64.ofNat (EventField.timestamp.get host event) +
        UInt64.ofNat (EventField.duration.get host event) = call.stop := by
      rw [hmatch.timestamp, hmatch.duration, ← UInt64.ofNat_add, Nat.add_sub_cancel' hle,
        UInt64.ofNat_toNat]
    rw [pushedNode, NodeData.new, hstop, labelAt, hmatch.klass, hmatch.rest, hmatch.timestamp,
      Function.comp_apply, UInt64.ofNat_toNat]
    dsimp only
    rw [UInt64.ofNat_toNat, scopeOf, labelAt, UInt64.ofNat_toNat]

end

variable (labelOf) in
/-- **The brackets of a run.** -/
theorem follows_run {ops : List (CallstackOp host typeSize)}
    (hops : StepsMeet CallstackTrace.step Ticked .start ops) :
    Brackets.Kept (runFrom Brackets.step Brackets.init (ops.map (bracketOp labelOf))) ∧
      Follows labelOf (runFrom CallstackTrace.step .start ops)
        (runFrom Brackets.step Brackets.init (ops.map (bracketOp labelOf))) := by
  have hstep : ∀ (s : CallstackTrace host typeSize) (b : Brackets.State Label)
      (op : CallstackOp host typeSize), Follows labelOf s b → Ticked s op →
      Brackets.Ticking b (bracketOp labelOf op) ∧
        Follows labelOf (s.step op) (Brackets.step b (bracketOp labelOf op)) :=
    fun s b op h hop => ⟨h.ticking hop, h.step hop⟩
  obtain ⟨hticking, hfollows⟩ := followed_run hstep (follows_start labelOf) hops
  exact ⟨Brackets.kept_run hticking, hfollows⟩

/-- The readings have 64 bits. -/
theorem Follows.fits (h : Follows labelOf s b) : ∀ c ∈ b.spans, c.stop < 2 ^ 64 :=
  h.forall_spans (· < 2 ^ 64) fun c _ => c.stop.toNat_lt

variable (labelOf) in
/-- **The profile of a program is its call tree.** The events that the callstack feature pushes
in a run with a ticking clock, in the order in which the call graph sorts them, become a forest
with exactly one node for every path of the program, with the calls, the time and the time of the
callees on that path. -/
theorem mem_forest_scopes {ops : List (CallstackOp host typeSize)}
    (hops : StepsMeet CallstackTrace.step Ticked .start ops)
    (hclosed : (runFrom CallstackTrace.step .start ops).scopes.opened = []) {sorted : List NodeData}
    (harr : Arranges sorted
      ((runFrom CallstackTrace.step .start ops).feature.pushed.map (pushedNode labelOf host))) :
    let spans := (runFrom Brackets.step Brackets.init (ops.map (bracketOp labelOf))).spans
    ((make sorted).forest.map Node.path).Nodup ∧ ∀ x : Node, x ∈ (make sorted).forest ↔
      (∃ c ∈ spans, c.path = x.path) ∧ x = profileNode spans x.path := by
  obtain ⟨hkept, hfollows⟩ := follows_run labelOf hops
  rw [hfollows.pushed_eq] at harr
  exact ⟨nodup_forest_make sorted, fun x =>
    mem_forest_spans hkept (by rw [hfollows.opened, hclosed]; rfl) hfollows.fits harr⟩

/-- An outer scope with an inner one, whose labels are the bytes beyond the base type. -/
theorem mem_forest_of_two_scopes :
    let inner : CallstackBaseEvent .little id :=
      ⟨CallstackTrace.labelled 41 [7], by decide, by decide⟩
    let outer : CallstackBaseEvent .little id :=
      ⟨CallstackTrace.labelled 43 [1, 2, 3], by decide, by decide⟩
    let ops : List (CallstackOp .little id) :=
      [.start outer 5 0, .start inner 6 1, .stop 7 3, .stop 9 3]
    let sorted : List NodeData := [⟨[0, 0, 0, 0, 1, 2, 3], 5, 9⟩, ⟨[0, 0, 0, 0, 7], 6, 7⟩]
    StepsMeet CallstackTrace.step Ticked .start ops ∧
      (runFrom CallstackTrace.step .start ops).scopes.opened = [] ∧
      ⟨[[0, 0, 0, 0, 1, 2, 3]], 1, 4, 1⟩ ∈ (make sorted).forest := by
  intro inner outer ops sorted
  have hops : StepsMeet CallstackTrace.step Ticked .start ops := by decide +kernel
  have hclosed : (runFrom CallstackTrace.step .start ops).scopes.opened = [] := by decide +kernel
  have harr : Arranges sorted ((runFrom CallstackTrace.step .start ops).feature.pushed.map
      (pushedNode (fun _ rest => rest) .little)) := ⟨by decide +kernel, by decide +kernel⟩
  exact ⟨hops, hclosed, ((mem_forest_scopes _ hops hclosed harr).2 _).mpr (by decide +kernel)⟩

end Feature

end HawkTracer.RoundTrip
