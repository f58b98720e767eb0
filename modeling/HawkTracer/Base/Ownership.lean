import Mathlib.Data.List.Count
import Mathlib.Data.List.Nodup

/-!
# Ownership of resources

A program asks for resources and gives them back. Whether a request is granted is decided by the
environment: a program is run with the answers to all requests, the first, the second and so on,
and it is a function of them. A resource is known by the number of the request that was granted,
so no two are the same.

The ledger keeps what was acquired and what was released. A program balances the books
(`HawkTracer.Ledger.Balance`) if the owner of some resources becomes the owner of others, and
every resource that is neither owned at the end nor was owned at the beginning has been released
as often as acquired. Balances compose, and what a program does not touch can be added on both
sides (`HawkTracer.Ledger.Balance.trans`, `HawkTracer.Ledger.Balance.frame`), so programs are
treated one statement after another (`HawkTracer.Owns`). A program that starts and ends without
resources has released everything it acquired, exactly once
(`HawkTracer.Ledger.Balance.settled`).
-/

namespace HawkTracer

/-- A resource: what it is, and the number of the request for it. -/
abbrev Resource (κ : Type) : Type := κ × ℕ

/-- What has been asked for, acquired and released. -/
structure Ledger (κ : Type) where
  requests : ℕ
  acquired : List (Resource κ)
  released : List (Resource κ)

/-- A program on states `σ`, given the answers to all requests. -/
def Prog (σ α : Type) : Type := (ℕ → Bool) → σ → α × σ

namespace Prog

variable {σ α β κ : Type}

instance : Monad (Prog σ) where
  pure a := fun _ s => (a, s)
  bind m f := fun answers s => f (m answers s).1 answers (m answers s).2

@[simp] theorem pure_run (a : α) (answers : ℕ → Bool) (s : σ) :
    (pure a : Prog σ α) answers s = (a, s) := rfl

@[simp] theorem bind_run (m : Prog σ α) (f : α → Prog σ β) (answers : ℕ → Bool) (s : σ) :
    (m >>= f) answers s = f (m answers s).1 answers (m answers s).2 := rfl

/-- A request for a resource. -/
def acquire (k : κ) : Prog (Ledger κ) (Option (Resource κ)) := fun answers s =>
  if answers s.requests then
    (some (k, s.requests),
      { s with requests := s.requests + 1, acquired := s.acquired ++ [(k, s.requests)] })
  else (none, { s with requests := s.requests + 1 })

/-- A request that concerns a resource one has already. -/
def ask : Prog (Ledger κ) Bool := fun answers s =>
  (answers s.requests, { s with requests := s.requests + 1 })

/-- A resource is given back. -/
def release (r : Resource κ) : Prog (Ledger κ) Unit := fun _ s =>
  ((), { s with released := s.released ++ [r] })

/-- Resources are given back one after another. -/
def releaseAll : List (Resource κ) → Prog (Ledger κ) Unit
  | [] => pure ()
  | r :: rs => do
    release r
    releaseAll rs

end Prog

namespace Ledger

variable {κ : Type}

/-- From `s` to `s'`, the resources in `A` have been acquired and those in `B` released. -/
structure Entries (s s' : Ledger κ) (A B : List (Resource κ)) : Prop where
  acquired : s'.acquired = s.acquired ++ A
  released : s'.released = s.released ++ B
  requests : s.requests ≤ s'.requests
  nodup : A.Nodup
  fresh : ∀ r ∈ A, s.requests ≤ r.2 ∧ r.2 < s'.requests

variable {s s' s'' : Ledger κ}

theorem Entries.trans {A A' B B' : List (Resource κ)} (h : Entries s s' A B)
    (h' : Entries s' s'' A' B') : Entries s s'' (A ++ A') (B ++ B') where
  acquired := by rw [h'.acquired, h.acquired, List.append_assoc]
  released := by rw [h'.released, h.released, List.append_assoc]
  requests := Nat.le_trans h.requests h'.requests
  nodup := by
    refine List.nodup_append.mpr ⟨h.nodup, h'.nodup, fun r hr r' hr' heq => ?_⟩
    -- the later requests have greater numbers
    have hlt := (h.fresh r hr).2
    have hle := (h'.fresh r' hr').1
    rw [← heq] at hle
    omega
  fresh r hr := by
    have hle := h.requests
    have hle' := h'.requests
    rcases List.mem_append.mp hr with hr | hr
    · have := h.fresh r hr
      omega
    · have := h'.fresh r hr
      omega

variable [DecidableEq κ]

/-- **The books balance**: the owner of `before` becomes the owner of `after`, and everything else
is released as often as it is acquired. -/
def Balance (s s' : Ledger κ) (before after : List (Resource κ)) : Prop :=
  ∃ A B, Entries s s' A B ∧ ∀ r, before.count r + A.count r = B.count r + after.count r

/-- **Everything that was acquired has been released, exactly once**, and nothing else. -/
def Settled (s s' : Ledger κ) : Prop :=
  ∃ A B, Entries s s' A B ∧ (∀ r ∈ A, B.count r = 1) ∧ ∀ r ∈ B, r ∈ A

variable {X Y Z F : List (Resource κ)}

theorem Balance.refl (s : Ledger κ) (X : List (Resource κ)) : Balance s s X X :=
  ⟨[], [], ⟨(List.append_nil _).symm, (List.append_nil _).symm, Nat.le_refl _, List.nodup_nil,
    fun _ h => (List.not_mem_nil h).elim⟩, fun r => by simp⟩

theorem Balance.requests_le (h : Balance s s' X Y) : s.requests ≤ s'.requests := by
  obtain ⟨A, B, hentries, -⟩ := h
  exact hentries.requests

theorem Balance.trans (h : Balance s s' X Y) (h' : Balance s' s'' Y Z) : Balance s s'' X Z := by
  obtain ⟨A, B, hentries, hcount⟩ := h
  obtain ⟨A', B', hentries', hcount'⟩ := h'
  refine ⟨_, _, hentries.trans hentries', fun r => ?_⟩
  have := hcount r
  have := hcount' r
  rw [List.count_append, List.count_append]
  omega

/-- **What is not touched can be added.** -/
theorem Balance.frame (h : Balance s s' X Y) (F : List (Resource κ)) :
    Balance s s' (X ++ F) (Y ++ F) := by
  obtain ⟨A, B, hentries, hcount⟩ := h
  refine ⟨A, B, hentries, fun r => ?_⟩
  have := hcount r
  rw [List.count_append, List.count_append]
  omega

/-- The order does not matter. -/
theorem Balance.perm {X' Y' : List (Resource κ)} (h : Balance s s' X Y) (hX : X'.Perm X)
    (hY : Y.Perm Y') : Balance s s' X' Y' := by
  obtain ⟨A, B, hentries, hcount⟩ := h
  refine ⟨A, B, hentries, fun r => ?_⟩
  rw [hX.count_eq, ← hY.count_eq]
  exact hcount r

/-- **A program that starts and ends without resources leaves nothing behind.** -/
theorem Balance.settled (h : Balance s s' [] []) : Settled s s' := by
  obtain ⟨A, B, hentries, hcount⟩ := h
  have hcount : ∀ r, A.count r = B.count r := fun r => by simpa using hcount r
  refine ⟨A, B, hentries, fun r hr => ?_, fun r hr => ?_⟩
  · rw [← hcount r]
    exact List.count_eq_one_of_mem hentries.nodup hr
  · rw [← List.count_pos_iff, hcount r]
    exact List.count_pos_iff.mpr hr

/-- What is still owned has not been released. -/
theorem Balance.not_settled (h : Balance s s' [] Y) (hY : Y ≠ []) : ¬ Settled s s' := by
  rintro ⟨A', B', hentries', honce, -⟩
  obtain ⟨A, B, hentries, hcount⟩ := h
  obtain rfl : A' = A := List.append_cancel_left (hentries'.acquired.symm.trans hentries.acquired)
  obtain rfl : B' = B := List.append_cancel_left (hentries'.released.symm.trans hentries.released)
  obtain ⟨r, hr⟩ := List.exists_mem_of_ne_nil Y hY
  have hpos := List.count_pos_iff.mpr hr
  have hbalance := hcount r
  rw [List.count_nil, Nat.zero_add] at hbalance
  have hmem : r ∈ A' := List.count_pos_iff.mp (by omega)
  have hle := List.nodup_iff_count_le_one.mp hentries.nodup r
  have := honce r hmem
  omega

theorem balance_acquire (k : κ) (answers : ℕ → Bool) (s : Ledger κ) :
    Balance s (Prog.acquire k answers s).2 [] (Prog.acquire k answers s).1.toList := by
  rw [Prog.acquire]
  split
  · exact ⟨[(k, s.requests)], [],
      ⟨rfl, (List.append_nil _).symm, Nat.le_succ _, List.nodup_singleton _, fun r hr => by
        obtain rfl := List.mem_singleton.mp hr
        exact ⟨Nat.le_refl _, Nat.lt_succ_self _⟩⟩, fun r => by simp⟩
  · exact ⟨[], [], ⟨(List.append_nil _).symm, (List.append_nil _).symm, Nat.le_succ _,
      List.nodup_nil, fun _ h => (List.not_mem_nil h).elim⟩, fun r => rfl⟩

theorem balance_ask {answers : ℕ → Bool} (s : Ledger κ) : Balance s (Prog.ask answers s).2 [] [] :=
  ⟨[], [], ⟨(List.append_nil _).symm, (List.append_nil _).symm, Nat.le_succ _, List.nodup_nil,
    fun _ h => (List.not_mem_nil h).elim⟩, fun _ => rfl⟩

theorem balance_release (r : Resource κ) {answers : ℕ → Bool} (s : Ledger κ) :
    Balance s (Prog.release r answers s).2 [r] [] :=
  ⟨[], [r], ⟨(List.append_nil _).symm, rfl, Nat.le_refl _, List.nodup_nil,
    fun _ h => (List.not_mem_nil h).elim⟩, fun _ => rfl⟩

end Ledger

/-! ### Programs -/

open Ledger Prog

variable {κ α β : Type} [DecidableEq κ]

/-- **A program, run by the owner of `before`**, ends with a result of which `R` holds, and its
owner then owns `after` of the result. -/
def Owns (m : Prog (Ledger κ) α) (before : List (Resource κ)) (R : α → Prop)
    (after : α → List (Resource κ)) : Prop :=
  ∀ answers s, R (m answers s).1 ∧ Balance s (m answers s).2 before (after (m answers s).1)

namespace Owns

variable {m : Prog (Ledger κ) α} {f : α → Prog (Ledger κ) β} {X X' F : List (Resource κ)}
  {R : α → Prop} {Y : α → List (Resource κ)} {R' : β → Prop} {Z : β → List (Resource κ)}

theorem ret {a : α} (hR : R a) (hperm : X.Perm (Y a)) : Owns (pure a) X R Y := fun _ s =>
  ⟨hR, (Balance.refl s X).perm (List.Perm.refl _) hperm⟩

theorem bind (h : Owns m X R Y) (hf : ∀ a, R a → Owns (f a) (Y a) R' Z) :
    Owns (m >>= f) X R' Z := fun answers s => by
  obtain ⟨hR, hbalance⟩ := h answers s
  obtain ⟨hR', hbalance'⟩ := hf _ hR answers (m answers s).2
  exact ⟨hR', hbalance.trans hbalance'⟩

theorem frame (h : Owns m X R Y) (F : List (Resource κ)) :
    Owns m (X ++ F) R (fun a => Y a ++ F) := fun answers s =>
  ⟨(h answers s).1, (h answers s).2.frame F⟩

theorem perm (h : Owns m X R Y) (hX : X'.Perm X) : Owns m X' R Y := fun answers s =>
  ⟨(h answers s).1, (h answers s).2.perm hX (List.Perm.refl _)⟩

/-- A part of the program that starts without resources. -/
theorem call (h : Owns m [] R Y) (hf : ∀ a, R a → Owns (f a) (Y a ++ X) R' Z) :
    Owns (m >>= f) X R' Z :=
  (h.frame X).bind hf

/-- A request, granted or not. -/
theorem acquire_bind {k : κ} {f : Option (Resource κ) → Prog (Ledger κ) β}
    (hrefused : Owns (f none) X R' Z) (hgranted : ∀ r, Owns (f (some r)) (r :: X) R' Z) :
    Owns (acquire k >>= f) X R' Z := by
  have hacquire : Owns (acquire k) [] (fun _ => True) Option.toList := fun answers s =>
    ⟨trivial, balance_acquire k answers s⟩
  refine hacquire.call fun r _ => ?_
  cases r with
  | none => exact hrefused
  | some r => exact hgranted r

theorem release (r : Resource κ) : Owns (Prog.release r) [r] (fun _ => True) fun _ => [] :=
  fun _ s => ⟨trivial, balance_release r s⟩

/-- The resource on top is given back. -/
theorem release_bind {r : Resource κ} {f : Unit → Prog (Ledger κ) β} (hf : Owns (f ()) X R' Z) :
    Owns (Prog.release r >>= f) (r :: X) R' Z :=
  ((release r).frame X).bind fun _ _ => hf

/-- The resources on top are given back. -/
theorem releaseAll_bind {rs : List (Resource κ)} {f : Unit → Prog (Ledger κ) β}
    (hf : Owns (f ()) X R' Z) : Owns (releaseAll rs >>= f) (rs ++ X) R' Z := by
  have hall : Owns (releaseAll rs) rs (fun _ => True) (fun _ => []) := by
    induction rs with
    | nil => exact ret trivial (List.Perm.refl _)
    | cons r rs ih => exact release_bind ih
  exact (hall.frame X).bind fun _ _ => hf

end Owns

end HawkTracer
