import Mathlib.Data.List.DropRight
import Mathlib.Data.List.Induction
import Mathlib.Data.List.TakeWhile

/-!
# Nesting by a chain

Elements come one after another, and some of them enclose later ones. The chain holds the
elements that may still enclose something, the innermost first. A new element drops the
elements of the chain that do not enclose it, up to the first one that does, and is placed in
what is left: its *path* is its own label followed by the path of the element it was placed in
(`HawkTracer.Nesting.place`).

Two things are shown for an arbitrary relation `encloses`. If an element that encloses a later
one encloses everything between, the chain finds the last of the earlier elements that enclose
the new one (`HawkTracer.Nesting.head?_remaining`). And if two neighbours of which the first
encloses the second, and which are enclosed by the same earlier elements, change places, then
one path gets one element more and no other path of its length or shorter changes
(`HawkTracer.Nesting.countP_place_swap`): the chain sees the order.
-/

namespace HawkTracer

/-- One interval contains the other, or their interiors are disjoint. -/
def NestedOrApart (i j : ℕ × ℕ) : Prop :=
  (i.1 ≤ j.1 ∧ j.2 ≤ i.2) ∨ (j.1 ≤ i.1 ∧ i.2 ≤ j.2) ∨ i.2 ≤ j.1 ∨ j.2 ≤ i.1

instance (i j : ℕ × ℕ) : Decidable (NestedOrApart i j) := inferInstanceAs (Decidable (_ ∨ _))

theorem NestedOrApart.symm {i j : ℕ × ℕ} (h : NestedOrApart i j) : NestedOrApart j i := by
  unfold NestedOrApart at h ⊢
  omega

namespace Nesting

variable {α ι : Type} (label : α → ι) (encloses : α → α → Bool)

/-- What is left of a chain for a new element. -/
def remaining (chain : List (α × List ι)) (a : α) : List (α × List ι) :=
  chain.dropWhile fun x => !encloses x.1 a

/-- The path of the innermost element of a chain. -/
def topPath : List (α × List ι) → List ι
  | [] => []
  | x :: _ => x.2

/-- A new element with its path. -/
def placeOne (chain : List (α × List ι)) (a : α) : α × List ι :=
  (a, label a :: topPath (remaining encloses chain a))

/-- The chain after a new element. -/
def advance (chain : List (α × List ι)) (a : α) : List (α × List ι) :=
  placeOne label encloses chain a :: remaining encloses chain a

/-- **The elements with their paths.** -/
def place : List (α × List ι) → List α → List (α × List ι)
  | _, [] => []
  | chain, a :: as => placeOne label encloses chain a :: place (advance label encloses chain a) as

/-- The chain after the elements. -/
def chainAfter (chain : List (α × List ι)) (as : List α) : List (α × List ι) :=
  as.foldl (advance label encloses) chain

variable {label encloses} {x : α × List ι} {a : α} {chain xs ys : List (α × List ι)}

theorem remaining_cons_of_encloses (h : encloses x.1 a = true) (chain : List (α × List ι)) :
    remaining encloses (x :: chain) a = x :: chain := by
  rw [remaining, List.dropWhile_cons, h]
  rfl

theorem remaining_cons_of_not (h : encloses x.1 a = false) (chain : List (α × List ι)) :
    remaining encloses (x :: chain) a = remaining encloses chain a := by
  rw [remaining, List.dropWhile_cons, h]
  rfl

theorem remaining_append (xs chain : List (α × List ι)) (a : α) :
    remaining encloses (xs ++ chain) a =
      if (remaining encloses xs a).isEmpty then remaining encloses chain a
      else remaining encloses xs a ++ chain := List.dropWhile_append ..

theorem map_fst_remaining (chain : List (α × List ι)) (a : α) :
    (remaining encloses chain a).map Prod.fst =
      (chain.map Prod.fst).dropWhile fun x => !encloses x a := by
  rw [List.dropWhile_map]
  rfl

theorem mem_of_mem_remaining (h : x ∈ remaining encloses chain a) :
    x ∈ chain := (List.dropWhile_sublist _).mem h

/-- What is left depends on which elements of the chain enclose the new one. -/
theorem remaining_congr {b : α} (h : ∀ x ∈ chain, encloses x.1 a = encloses x.1 b) :
    remaining encloses chain a = remaining encloses chain b := by
  induction chain with
  | nil => rfl
  | cons x chain ih =>
    obtain ⟨hx, hchain⟩ := List.forall_mem_cons.mp h
    rcases hb : encloses x.1 b with _ | _
    · rw [remaining_cons_of_not (hx.trans hb), remaining_cons_of_not hb, ih hchain]
    · rw [remaining_cons_of_encloses (hx.trans hb), remaining_cons_of_encloses hb]

theorem place_cons_of_advance {chain' : List (α × List ι)}
    (h : advance label encloses chain a = x :: chain') (as : List α) :
    place label encloses chain (a :: as) = x :: place label encloses (x :: chain') as := by
  obtain ⟨rfl, rfl⟩ := List.cons.inj h
  rfl

theorem place_append (chain : List (α × List ι)) (as bs : List α) :
    place label encloses chain (as ++ bs) =
      place label encloses chain as ++
        place label encloses (chainAfter label encloses chain as) bs := by
  induction as generalizing chain with
  | nil => rfl
  | cons a as ih => exact congrArg (_ :: ·) (ih _)

theorem chainAfter_append (chain : List (α × List ι)) (as bs : List α) :
    chainAfter label encloses chain (as ++ bs) =
      chainAfter label encloses (chainAfter label encloses chain as) bs :=
  List.foldl_append

theorem map_fst_place (chain : List (α × List ι)) (as : List α) :
    (place label encloses chain as).map Prod.fst = as := by
  induction as generalizing chain with
  | nil => rfl
  | cons a as ih => exact congrArg (a :: ·) (ih _)

/-- An element of the chain has been placed. -/
theorem mem_place_of_mem_chainAfter {as : List α} (h : x ∈ chainAfter label encloses chain as) :
    x ∈ chain ∨ x ∈ place label encloses chain as := by
  induction as generalizing chain with
  | nil => exact Or.inl h
  | cons a as ih =>
    rcases ih h with hmem | hmem
    · rcases List.mem_cons.mp hmem with rfl | hmem
      · exact Or.inr List.mem_cons_self
      · exact Or.inl (mem_of_mem_remaining hmem)
    · exact Or.inr (List.mem_cons_of_mem _ hmem)

/-- An element is placed in the chain of the elements before it. -/
theorem exists_of_mem_place {as : List α} (h : x ∈ place label encloses chain as) :
    ∃ pre post, as = pre ++ x.1 :: post ∧
      x = placeOne label encloses (chainAfter label encloses chain pre) x.1 := by
  induction as generalizing chain with
  | nil => cases h
  | cons a as ih =>
    rcases List.mem_cons.mp h with rfl | h
    · exact ⟨[], as, rfl, rfl⟩
    · obtain ⟨pre, post, rfl, hx⟩ := ih h
      exact ⟨a :: pre, post, rfl, hx⟩

/-! ### The last element that encloses the new one -/

theorem topPath_eq_head? (chain : List (α × List ι)) :
    topPath chain = (chain.head?.map Prod.snd).getD [] := by
  rcases chain with _ | ⟨x, chain⟩ <;> rfl

/-- Dropping does not touch what fails the test. -/
theorem filter_dropWhile {β : Type} {p q : β → Bool} {l : List β}
    (h : ∀ x ∈ l, q x = true → p x = false) : (l.dropWhile p).filter q = l.filter q := by
  induction l with
  | nil => rfl
  | cons x l ih =>
    obtain ⟨hx, hl⟩ := List.forall_mem_cons.mp h
    rw [List.dropWhile_cons]
    split
    · next hp =>
      have hq : ¬ q x = true := fun hq => by
        rw [hx hq] at hp
        cases hp
      rw [ih hl, List.filter_cons_of_neg hq]
    · rfl

/-- The elements of the chain that enclose a new one are all the earlier ones that do. -/
theorem filter_chainAfter {as : List α}
    (h : as.Pairwise fun p m => encloses p a = true → encloses p m = true) :
    (chainAfter label encloses [] as).filter (fun x => encloses x.1 a) =
      (place label encloses [] as).reverse.filter fun x => encloses x.1 a := by
  induction as using List.reverseRecOn with
  | nil => rfl
  | append_singleton as m ih =>
    obtain ⟨has, -, hlast⟩ := List.pairwise_append.mp h
    rw [chainAfter_append, place_append, List.reverse_append]
    change (placeOne label encloses _ m :: remaining encloses _ m).filter _ =
      (placeOne label encloses _ m :: (place label encloses [] as).reverse).filter _
    have hkept : (remaining encloses (chainAfter label encloses [] as) m).filter
        (fun x => encloses x.1 a) =
        (chainAfter label encloses [] as).filter fun x => encloses x.1 a := by
      refine filter_dropWhile ?_
      intro x hx hxa
      have hmem : x.1 ∈ as := by
        rcases mem_place_of_mem_chainAfter hx with hx | hx
        · cases hx
        · have hfst := List.mem_map_of_mem (f := Prod.fst) hx
          rwa [map_fst_place] at hfst
      rw [hlast x.1 hmem m List.mem_cons_self hxa]
      rfl
    rw [List.filter_cons, List.filter_cons, hkept, ih has]

/-- **The chain finds the last earlier element that encloses the new one**, if what encloses it
encloses everything since. -/
theorem head?_remaining {as : List α}
    (h : as.Pairwise fun p m => encloses p a = true → encloses p m = true) :
    (remaining encloses (chainAfter label encloses [] as) a).head? =
      (place label encloses [] as).reverse.find? fun x => encloses x.1 a := by
  rw [← List.head?_filter, ← filter_chainAfter h, List.head?_filter, remaining,
    ← List.find?_eq_head?_dropWhile_not]

/-! ### Two neighbours change places -/

/-- **Two chains that differ in one element only.** The first chain has `c` inside `p`, the
second one lacks it, so that what was placed in `c` is placed in `p` there; the paths of all
that are longer than `m`. -/
inductive Parted (p c : α × List ι) (outer : List (α × List ι)) (m : ℕ) :
    List (α × List ι) → List (α × List ι) → Prop where
  | same (chain : List (α × List ι)) : Parted p c outer m chain chain
  | apart (xs ys : List (α × List ι)) (hfst : xs.map Prod.fst = ys.map Prod.fst)
      (hxs : ∀ x ∈ xs, m < x.2.length) (hys : ∀ y ∈ ys, m < y.2.length) :
      Parted p c outer m (xs ++ c :: p :: outer) (ys ++ p :: outer)

variable {p c : α × List ι} {outer : List (α × List ι)} {m : ℕ}

theorem topPath_append (hne : xs ≠ []) (l : List (α × List ι)) :
    topPath (xs ++ l) = topPath xs := by
  obtain ⟨x, xs, rfl⟩ := List.exists_cons_of_ne_nil hne
  rfl

theorem lt_length_topPath (hne : xs ≠ []) (h : ∀ x ∈ xs, m < x.2.length) :
    m < (topPath xs).length := by
  obtain ⟨x, xs, rfl⟩ := List.exists_cons_of_ne_nil hne
  exact h x List.mem_cons_self

/-- **Both chains go on as one, or both paths are long.** -/
def PartedAfter (label : α → ι) (encloses : α → α → Bool) (p c : α × List ι)
    (outer : List (α × List ι)) (m : ℕ) (a : α) (xs ys : List (α × List ι)) : Prop :=
  Parted p c outer m (advance label encloses xs a) (advance label encloses ys a) ∧
    (placeOne label encloses xs a = placeOne label encloses ys a ∨
      m < (placeOne label encloses xs a).2.length ∧ m < (placeOne label encloses ys a).2.length)

/-- What is left of the two chains is the same. -/
theorem partedAfter_of_remaining_eq (h : remaining encloses xs a = remaining encloses ys a) :
    PartedAfter label encloses p c outer m a xs ys := by
  rw [PartedAfter, advance, advance, placeOne, placeOne, h]
  exact ⟨.same _, Or.inl rfl⟩

/-- What is left of the two chains differs in the one element, and the parts before it
correspond. -/
theorem partedAfter_of_remaining {xs' ys' : List (α × List ι)}
    (hxs : remaining encloses xs a = xs' ++ c :: p :: outer)
    (hys : remaining encloses ys a = ys' ++ p :: outer) (hfst : xs'.map Prod.fst = ys'.map Prod.fst)
    (hlong : ∀ x ∈ xs', m < x.2.length) (hlong' : ∀ y ∈ ys', m < y.2.length)
    (htop : m < (topPath (xs' ++ c :: p :: outer)).length + 1)
    (htop' : m < (topPath (ys' ++ p :: outer)).length + 1) :
    PartedAfter label encloses p c outer m a xs ys := by
  rw [PartedAfter, advance, advance, placeOne, placeOne, hxs, hys]
  refine ⟨.apart ((a, label a :: topPath (xs' ++ c :: p :: outer)) :: xs')
    ((a, label a :: topPath (ys' ++ p :: outer)) :: ys') ?_ ?_ ?_, Or.inr ⟨htop, htop'⟩⟩
  · exact congrArg (a :: ·) hfst
  · exact List.forall_mem_cons.mpr ⟨htop, hlong⟩
  · exact List.forall_mem_cons.mpr ⟨htop', hlong'⟩

variable (label) in
theorem Parted.advance (h : Parted p c outer m xs ys) (hp : m ≤ p.2.length) (hc : m < c.2.length)
    (ha : encloses c.1 a = true → encloses p.1 a = true) :
    PartedAfter label encloses p c outer m a xs ys := by
  rcases h with _ | ⟨xs, ys, hfst, hxs, hys⟩
  · exact partedAfter_of_remaining_eq rfl
  have hfst' : (remaining encloses xs a).map Prod.fst = (remaining encloses ys a).map Prod.fst := by
    rw [map_fst_remaining, map_fst_remaining, hfst]
  by_cases hnil : remaining encloses xs a = []
  · have hnil' : remaining encloses ys a = [] := by
      rw [hnil] at hfst'
      exact List.map_eq_nil_iff.mp hfst'.symm
    have hleft : remaining encloses (xs ++ c :: p :: outer) a =
        remaining encloses (c :: p :: outer) a := by
      rw [remaining_append, hnil]
      rfl
    have hright : remaining encloses (ys ++ p :: outer) a = remaining encloses (p :: outer) a := by
      rw [remaining_append, hnil']
      rfl
    rcases hca : encloses c.1 a with _ | _
    · -- the element that one chain lacks is dropped from the other
      refine partedAfter_of_remaining_eq ?_
      rw [hleft, hright, remaining_cons_of_not hca]
    · rw [remaining_cons_of_encloses hca] at hleft
      rw [remaining_cons_of_encloses (ha hca)] at hright
      exact partedAfter_of_remaining (show _ = [] ++ c :: p :: outer from hleft)
        (show _ = [] ++ p :: outer from hright) rfl (fun _ h => by cases h)
        (fun _ h => by cases h) (Nat.lt_succ_of_lt hc) (Nat.lt_succ_of_le hp)
  · have hnil' : remaining encloses ys a ≠ [] := fun hnil' => by
      rw [hnil'] at hfst'
      exact hnil (List.map_eq_nil_iff.mp hfst')
    have hlong : ∀ x ∈ remaining encloses xs a, m < x.2.length := fun x hx =>
      hxs x (mem_of_mem_remaining hx)
    have hlong' : ∀ y ∈ remaining encloses ys a, m < y.2.length := fun y hy =>
      hys y (mem_of_mem_remaining hy)
    refine partedAfter_of_remaining ?_ ?_ hfst' hlong hlong' ?_ ?_
    · rw [remaining_append, if_neg (by rwa [List.isEmpty_iff])]
    · rw [remaining_append, if_neg (by rwa [List.isEmpty_iff])]
    · rw [topPath_append hnil]
      exact Nat.lt_succ_of_lt (lt_length_topPath hnil hlong)
    · rw [topPath_append hnil']
      exact Nat.lt_succ_of_lt (lt_length_topPath hnil' hlong')

variable [DecidableEq ι]

variable (label) in
/-- Chains that differ in one element give the short paths to the same number of elements. -/
theorem Parted.countP_place (h : Parted p c outer m xs ys) (as : List α) (hp : m ≤ p.2.length)
    (hc : m < c.2.length) (has : ∀ a ∈ as, encloses c.1 a = true → encloses p.1 a = true)
    {q : List ι} (hq : q.length ≤ m) :
    (place label encloses xs as).countP (fun x => x.2 = q) =
      (place label encloses ys as).countP fun x => x.2 = q := by
  induction as generalizing xs ys with
  | nil => rfl
  | cons a as ih =>
    obtain ⟨ha, has⟩ := List.forall_mem_cons.mp has
    obtain ⟨hnext, hplaced⟩ := h.advance label hp hc ha
    rw [place, place, List.countP_cons, List.countP_cons, ih hnext has]
    rcases hplaced with heq | ⟨hlong, hlong'⟩
    · rw [heq]
    · have hno : ∀ {x : α × List ι}, m < x.2.length → ¬ decide (x.2 = q) = true := by
        intro x hx heq
        rw [of_decide_eq_true heq] at hx
        omega
      rw [if_neg (hno hlong), if_neg (hno hlong')]

/-- **The chain sees the order of two neighbours.** If `c` is inside `p` and they are enclosed
by the same earlier elements, then with `c` first it is placed beside `p`, not inside it, and
its path there has one element more. -/
theorem countP_place_swap {pre post : List α} {p c : α} (hpc : encloses p c = true)
    (hcp : encloses c p = false)
    (hsame : ∀ x ∈ chainAfter label encloses [] pre, encloses x.1 c = encloses x.1 p)
    (htrans : ∀ a ∈ post, encloses c a = true → encloses p a = true) :
    ∃ q : List ι, (place label encloses [] (pre ++ c :: p :: post)).countP (fun x => x.2 = q) =
      (place label encloses [] (pre ++ p :: c :: post)).countP (fun x => x.2 = q) + 1 := by
  generalize hchain : chainAfter label encloses [] pre = chain at hsame
  obtain ⟨outer, houter⟩ : ∃ l, remaining encloses chain p = l := ⟨_, rfl⟩
  have hidem : remaining encloses outer p = outer := by
    rw [← houter, remaining, remaining, List.dropWhile_idempotent]
  -- with `p` first
  have hp : advance label encloses chain p = (p, label p :: topPath outer) :: outer := by
    rw [advance, placeOne, houter]
  have hinside : advance label encloses ((p, label p :: topPath outer) :: outer) c =
      (c, label c :: label p :: topPath outer) :: (p, label p :: topPath outer) :: outer := by
    rw [advance, placeOne, remaining_cons_of_encloses hpc]
    rfl
  -- with `c` first
  have hc : advance label encloses chain c = (c, label c :: topPath outer) :: outer := by
    rw [advance, placeOne, remaining_congr hsame, houter]
  have hbeside : advance label encloses ((c, label c :: topPath outer) :: outer) p =
      (p, label p :: topPath outer) :: outer := by
    rw [advance, placeOne, remaining_cons_of_not hcp, hidem]
  have hparted : Parted (p, label p :: topPath outer) (c, label c :: label p :: topPath outer)
      outer (topPath outer).length.succ
      ((c, label c :: label p :: topPath outer) :: (p, label p :: topPath outer) :: outer)
      ((p, label p :: topPath outer) :: outer) :=
    .apart [] [] rfl (fun _ h => by cases h) fun _ h => by cases h
  have hpost := hparted.countP_place label post (q := label c :: topPath outer) (Nat.le_refl _)
    (Nat.lt_succ_self _) htrans (Nat.le_refl _)
  have hlong : ¬ label c :: label p :: topPath outer = label c :: topPath outer := fun h => by
    have := congrArg List.length h
    simp at this
  refine ⟨label c :: topPath outer, ?_⟩
  rw [place_append, place_append, hchain, place_cons_of_advance hc,
    place_cons_of_advance hbeside, place_cons_of_advance hp, place_cons_of_advance hinside]
  simp only [List.countP_append, List.countP_cons, hpost, decide_eq_true_eq, if_true, if_neg hlong]
  omega

end Nesting

end HawkTracer
