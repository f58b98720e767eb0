import HawkTracer.Base.Nesting
import HawkTracer.Base.Run
import Mathlib.Data.List.Perm.Subperm
import Mathlib.Data.List.Pairwise

/-!
# Brackets on a clock

Scopes are opened and closed, the last one opened first, and a clock is read each time. A scope
that has been closed is a *span*; it remembers the scopes that were open around it
(`HawkTracer.Brackets.Span.outer`).

If every scope opens later than anything that has happened before
(`HawkTracer.Brackets.Ticking`), the readings of the clock are all one needs to know: once
everything is closed, the spans whose interval contains that of a span are the ones around it
(`HawkTracer.Brackets.Kept.encloses_iff`), and each of them has the surroundings that it has in the
list (`HawkTracer.Brackets.Kept.exists_caller`).
-/

namespace HawkTracer.Brackets

variable {ι : Type}

/-- A scope that has been opened. -/
structure Scope (ι : Type) where
  label : ι
  start : ℕ
  deriving DecidableEq

/-- A scope that has been closed, with the scopes that are open around it, the innermost
first. -/
structure Span (ι : Type) extends Scope ι where
  stop : ℕ
  outer : List (Scope ι)
  deriving DecidableEq

namespace Span

/-- The labels from the outermost scope to the span itself. -/
def path (c : Span ι) : List ι := (c.label :: c.outer.map Scope.label).reverse

/-- The labels from the outermost scope to the one right around the span, if there is one. -/
def callerPath (c : Span ι) : Option (List ι) :=
  match c.outer with
  | [] => none
  | o :: os => some ((o :: os).map Scope.label).reverse

/-- How long the scope was open. -/
def duration (c : Span ι) : ℕ := c.stop - c.start

/-- The interval of the span contains that of another one. -/
def Encloses (q c : Span ι) : Prop := q.start ≤ c.start ∧ c.stop ≤ q.stop

end Span

/-- The open scopes, the innermost first, and the spans in the order in which they were
closed. -/
structure State (ι : Type) where
  opened : List (Scope ι)
  spans : List (Span ι)

/-- A scope is opened or closed, at a reading of the clock. -/
inductive Op (ι : Type) where
  | start (label : ι) (time : ℕ)
  | stop (time : ℕ)

/-- Nothing has been opened. -/
def init : State ι := ⟨[], []⟩

/-- What an operation does; there is nothing to close if no scope is open. -/
def step (s : State ι) : Op ι → State ι
  | .start label time => { s with opened := ⟨label, time⟩ :: s.opened }
  | .stop time =>
    match s.opened with
    | [] => s
    | o :: os => ⟨os, s.spans ++ [⟨o, time, os⟩]⟩

/-- **The clock ticks before a scope is opened**, and does not go back. Only open scopes are
closed. -/
def Ticking (s : State ι) : Op ι → Prop
  | .start _ time => (∀ o ∈ s.opened, o.start < time) ∧ ∀ c ∈ s.spans, c.stop < time
  | .stop time => s.opened ≠ [] ∧ (∀ o ∈ s.opened, o.start ≤ time) ∧ ∀ c ∈ s.spans, c.stop ≤ time

/-- **What holds in every state.** -/
structure Kept (s : State ι) : Prop where
  sorted : s.opened.Pairwise fun inner outer => outer.start < inner.start
  start_le_stop : ∀ c ∈ s.spans, c.start ≤ c.stop
  /-- The scopes around a span are in order, too. -/
  outer_sorted : ∀ c ∈ s.spans,
    (c.toScope :: c.outer).Pairwise fun inner outer => outer.start < inner.start
  /-- A scope around a span is still open, or has become a span, with the same surroundings. -/
  around : ∀ c ∈ s.spans, ∀ o os, (o :: os) <:+ c.outer →
    (o :: os) <:+ s.opened ∨ ∃ p ∈ s.spans, p.toScope = o ∧ p.outer = os ∧ c.stop ≤ p.stop
  /-- A span was over when a later scope was opened. -/
  before : ∀ q ∈ s.spans, ∀ o ∈ s.opened, q.start < o.start → q.stop < o.start
  /-- An open scope is around the spans that were opened later. -/
  inside : ∀ c ∈ s.spans, ∀ o ∈ s.opened, o.start < c.start → o ∈ c.outer
  /-- A span was over when a later one was opened, or is around it. -/
  apart : ∀ q ∈ s.spans, ∀ c ∈ s.spans, q.start < c.start → q.toScope ∈ c.outer ∨ q.stop < c.start
  distinct_opened : ∀ c ∈ s.spans, ∀ o ∈ s.opened, c.start ≠ o.start
  distinct : s.spans.Pairwise fun c c' => c.start ≠ c'.start

variable {s : State ι}

theorem kept_init : Kept (init : State ι) where
  sorted := .nil
  start_le_stop := by rintro c ⟨⟩
  outer_sorted := by rintro c ⟨⟩
  around := by rintro c ⟨⟩
  before := by rintro c ⟨⟩
  inside := by rintro c ⟨⟩
  apart := by rintro c ⟨⟩
  distinct_opened := by rintro c ⟨⟩
  distinct := .nil

/-- A scope is opened. -/
theorem Kept.start (h : Kept s) {label : ι} {time : ℕ} (htick : Ticking s (.start label time)) :
    Kept (step s (.start label time)) := by
  obtain ⟨hopened, hspans⟩ := htick
  have hstarts : ∀ c ∈ s.spans, c.start < time := fun c hc =>
    Nat.lt_of_le_of_lt (h.start_le_stop c hc) (hspans c hc)
  refine ⟨.cons hopened h.sorted, h.start_le_stop, h.outer_sorted, ?_, ?_, ?_, h.apart, ?_,
    h.distinct⟩
  · intro c hc o os hos
    exact (h.around c hc o os hos).imp_left fun hsuffix => hsuffix.trans (List.suffix_cons _ _)
  · rintro q hq o (_ | ⟨_, ho⟩) hlt
    · exact hspans q hq
    · exact h.before q hq o ho hlt
  · rintro c hc o (_ | ⟨_, ho⟩) hlt
    · exact absurd hlt (Nat.not_lt.mpr (Nat.le_of_lt (hstarts c hc)))
    · exact h.inside c hc o ho hlt
  · rintro c hc o (_ | ⟨_, ho⟩)
    · exact Nat.ne_of_lt (hstarts c hc)
    · exact h.distinct_opened c hc o ho

/-- The innermost scope is closed. -/
theorem Kept.stop (h : Kept s) {time : ℕ} (htick : Ticking s (.stop time)) :
    Kept (step s (.stop time)) := by
  obtain ⟨hne, hopened, hspans⟩ := htick
  obtain ⟨o, os, hos⟩ := List.exists_cons_of_ne_nil hne
  have hstep : step s (.stop time) = ⟨os, s.spans ++ [⟨o, time, os⟩]⟩ := by
    rw [step, hos]
  have hsorted := h.sorted
  rw [hos] at hsorted
  obtain ⟨houter, hsorted'⟩ := List.pairwise_cons.mp hsorted
  have ho : o ∈ s.opened := by
    rw [hos]
    exact List.mem_cons_self
  have hmem : ∀ o' ∈ os, o' ∈ s.opened := fun o' ho' => by
    rw [hos]
    exact List.mem_cons_of_mem _ ho'
  rw [hstep]
  -- in each case: the spans there were, and the new one
  refine ⟨hsorted', ?_, ?_, ?_, ?_, ?_, ?_, ?_, ?_⟩
  · intro c hc
    rcases List.mem_append.mp hc with hc | hc
    · exact h.start_le_stop c hc
    · rw [List.mem_singleton.mp hc]
      exact hopened o ho
  · intro c hc
    rcases List.mem_append.mp hc with hc | hc
    · exact h.outer_sorted c hc
    · rw [List.mem_singleton.mp hc]
      exact hsorted
  · intro c hc o' os' hsuffix
    rcases List.mem_append.mp hc with hold | hnew
    · rcases h.around c hold o' os' hsuffix with hopen | ⟨p, hp, hscope⟩
      · rw [hos, List.suffix_cons_iff] at hopen
        rcases hopen with heq | hopen
        · obtain ⟨rfl, rfl⟩ := List.cons.inj heq
          exact .inr ⟨_, List.mem_append_right _ (List.mem_singleton_self _), rfl, rfl,
            hspans c hold⟩
        · exact .inl hopen
      · exact .inr ⟨p, List.mem_append_left _ hp, hscope⟩
    · rw [List.mem_singleton.mp hnew] at hsuffix
      exact .inl hsuffix
  · intro q hq o' ho' hlt
    rcases List.mem_append.mp hq with hq | hq
    · exact h.before q hq o' (hmem o' ho') hlt
    · rw [List.mem_singleton.mp hq] at hlt
      exact absurd hlt (Nat.not_lt.mpr (Nat.le_of_lt (houter o' ho')))
  · intro c hc o' ho' hlt
    rcases List.mem_append.mp hc with hc | hc
    · exact h.inside c hc o' (hmem o' ho') hlt
    · rw [List.mem_singleton.mp hc]
      exact ho'
  · intro q hq c hc hlt
    rcases List.mem_append.mp hq with hq | hq <;> rcases List.mem_append.mp hc with hc | hc
    · exact h.apart q hq c hc hlt
    · rw [List.mem_singleton.mp hc] at hlt ⊢
      exact .inr (h.before q hq o ho hlt)
    · rw [List.mem_singleton.mp hq] at hlt ⊢
      exact .inl (h.inside c hc o ho hlt)
    · rw [List.mem_singleton.mp hq, List.mem_singleton.mp hc] at hlt
      exact absurd hlt (Nat.lt_irrefl _)
  · intro c hc o' ho'
    rcases List.mem_append.mp hc with hc | hc
    · exact h.distinct_opened c hc o' (hmem o' ho')
    · rw [List.mem_singleton.mp hc]
      exact Nat.ne_of_gt (houter o' ho')
  · refine List.pairwise_append.mpr ⟨h.distinct, List.pairwise_singleton _ _, ?_⟩
    intro c hc c' hc'
    rw [List.mem_singleton.mp hc']
    exact h.distinct_opened c hc o ho

theorem Kept.step {op : Op ι} (h : Kept s) (htick : Ticking s op) : Kept (step s op) := by
  cases op with
  | start label time => exact h.start htick
  | stop time => exact h.stop htick

/-- **The invariant of a run.** -/
theorem kept_run {ops : List (Op ι)} (hops : StepsMeet step (Ticking (ι := ι)) init ops) :
    Kept (runFrom step init ops) :=
  (throughout_of_step (fun _ _ h htick => h.step htick) kept_init hops).last

/-! ### Everything is closed -/

variable {c : Span ι}

theorem Kept.eq_of_start_eq (h : Kept s) {q : Span ι} (hc : c ∈ s.spans) (hq : q ∈ s.spans)
    (heq : c.start = q.start) : c = q := by
  by_contra hne
  have hsymm : Std.Symm fun c c' : Span ι => c.start ≠ c'.start := ⟨fun _ _ h => h.symm⟩
  exact h.distinct.forall hc hq hne heq

/-- The scopes around a span opened before it. -/
theorem Kept.outer_lt (h : Kept s) (hc : c ∈ s.spans) {o : Scope ι} (ho : o ∈ c.outer) :
    o.start < c.start :=
  (List.pairwise_cons.mp (h.outer_sorted c hc)).1 o ho

/-- **The spans around a span**: they are in its list with the scopes around them. -/
theorem Kept.exists_caller (h : Kept s) (hclosed : s.opened = []) (hc : c ∈ s.spans) {o : Scope ι}
    {os : List (Scope ι)} (hsuffix : (o :: os) <:+ c.outer) :
    ∃ p ∈ s.spans, p.toScope = o ∧ p.outer = os ∧ c.stop ≤ p.stop := by
  rcases h.around c hc o os hsuffix with hopen | hspan
  · rw [hclosed] at hopen
    cases List.suffix_nil.mp hopen
  · exact hspan

/-- **The readings of the clock tell which spans are around a span.** -/
theorem Kept.encloses_iff (h : Kept s) (hclosed : s.opened = []) {q : Span ι} (hq : q ∈ s.spans)
    (hc : c ∈ s.spans) : q.Encloses c ↔ q = c ∨ q.toScope ∈ c.outer := by
  constructor
  · rintro ⟨hstart, hstop⟩
    rcases Nat.eq_or_lt_of_le hstart with heq | hlt
    · exact .inl (h.eq_of_start_eq hq hc heq)
    · refine (h.apart q hq c hc hlt).elim .inr fun hover => ?_
      have hle := h.start_le_stop c hc
      omega
  · rintro (rfl | hmem)
    · exact ⟨Nat.le_refl _, Nat.le_refl _⟩
    · refine ⟨Nat.le_of_lt (h.outer_lt hc hmem), ?_⟩
      obtain ⟨before, after, hsplit⟩ := List.append_of_mem hmem
      obtain ⟨p, hp, hscope, -, hstop⟩ := h.exists_caller hclosed hc ⟨before, hsplit.symm⟩
      have hpq : p = q := h.eq_of_start_eq hp hq (congrArg Scope.start hscope)
      exact hpq ▸ hstop

/-- **Two spans are nested or apart.** -/
theorem Kept.nestedOrApart (h : Kept s) (hclosed : s.opened = []) {q : Span ι} (hq : q ∈ s.spans)
    (hc : c ∈ s.spans) : NestedOrApart (q.start, q.stop) (c.start, c.stop) := by
  rcases Nat.lt_trichotomy q.start c.start with hlt | heq | hlt
  · rcases h.apart q hq c hc hlt with hmem | hover
    · exact .inl ((h.encloses_iff hclosed hq hc).mpr (.inr hmem))
    · exact .inr (.inr (.inl (Nat.le_of_lt hover)))
  · rw [h.eq_of_start_eq hq hc heq]
    exact .inl ⟨Nat.le_refl _, Nat.le_refl _⟩
  · rcases h.apart c hc q hq hlt with hmem | hover
    · exact .inr (.inl ((h.encloses_iff hclosed hc hq).mpr (.inr hmem)))
    · exact .inr (.inr (.inr (Nat.le_of_lt hover)))

/-- There are fewer scopes around a span than there are spans. -/
theorem Kept.length_outer_lt (h : Kept s) (hclosed : s.opened = []) (hc : c ∈ s.spans) :
    c.outer.length < s.spans.length := by
  have hnodup : (c.toScope :: c.outer).Nodup :=
    (h.outer_sorted c hc).imp fun hlt heq => Nat.ne_of_gt hlt (congrArg Scope.start heq)
  have hsub : c.toScope :: c.outer ⊆ s.spans.map Span.toScope := by
    intro o ho
    rcases List.mem_cons.mp ho with rfl | ho
    · exact List.mem_map_of_mem hc
    · obtain ⟨before, after, hsplit⟩ := List.append_of_mem ho
      obtain ⟨p, hp, rfl, -⟩ := h.exists_caller hclosed hc ⟨before, hsplit.symm⟩
      exact List.mem_map_of_mem hp
  have hle := (List.subperm_of_subset hnodup hsub).length_le
  rwa [List.length_map, List.length_cons] at hle

end HawkTracer.Brackets
