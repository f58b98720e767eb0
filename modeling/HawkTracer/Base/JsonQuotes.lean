import HawkTracer.Base.Json
import Mathlib.Data.Finset.Max
import Mathlib.Data.Prod.Lex

/-!
# Strings between quotes

A program that prints JSON without escaping puts strings between quotes as they are. The text is
then *woven* from these strings and other text that has no backslash (`HawkTracer.Json.Woven`).
This file is about what such a text cannot do: if each of the strings is found again somewhere in
the document that is read from it, then none of them needed an escape
(`HawkTracer.Json.Woven.verbatim`). It does not matter where it is found, or what the document
looks like otherwise; so a string that needed an escape is lost from every document that its
quotes may have made.

A string with quotes, backslashes or control characters is spelt with backslashes, and only the
woven strings have any. A spelling that begins in a woven string may go on after its end, over an
escaped quote, but not into the next one, so it has its backslashes from that string, its *host*.
There is a backslash in a spelling for every quote and every backslash of what it stands for. Hence
the host has more backslashes than the string that is read; or as many, and then there is no quote,
the spelling lies within its host, and the host is longer. Either way a string that needs an escape
is not the last one in this order, and there are only finitely many of them.
-/

namespace HawkTracer.Json

/-! ### Spellings -/

/-- The text that pieces of a string are taken from. -/
inductive Spelling : List UInt8 → List Piece → Prop
  | nil : Spelling [] []
  | byte {b : UInt8} {u : List UInt8} {ps : List Piece} (hb : b ≠ 0x22 ∧ b ≠ 0x5c ∧ 0x20 ≤ b)
      (h : Spelling u ps) : Spelling (b :: u) (.byte b :: ps)
  | escaped {c b : UInt8} {u : List UInt8} {ps : List Piece} (hb : escape c = some b)
      (h : Spelling u ps) : Spelling (0x5c :: c :: u) (.escaped b :: ps)
  | unit {b₁ b₂ b₃ b₄ : UInt8} {n : ℕ} {u : List UInt8} {ps : List Piece}
      (hn : codeUnit b₁ b₂ b₃ b₄ = some n) (h : Spelling u ps) :
      Spelling (0x5c :: 0x75 :: b₁ :: b₂ :: b₃ :: b₄ :: u) (.unit n :: ps)

variable {s : List UInt8}

theorem exists_spelling {r : List UInt8} {ps : List Piece} (h : pieces s = some (ps, r)) :
    ∃ u, s = u ++ 0x22 :: r ∧ Spelling u ps := by
  fun_induction pieces s generalizing ps with
  | case1 => cases h
  | case2 s =>
    cases h
    exact ⟨[], rfl, .nil⟩
  | case3 => cases h
  | case4 b₁ b₂ b₃ b₄ s hb ih =>
    obtain ⟨n, hn, h⟩ := Option.bind_eq_some_iff.mp h
    obtain ⟨⟨ps', r'⟩, hps, ⟨⟩⟩ := Option.map_eq_some_iff.mp h
    obtain ⟨u, rfl, hu⟩ := ih hps
    exact ⟨_, rfl, .unit hn hu⟩
  | case5 => cases h
  | case6 c s hc hb ih =>
    obtain ⟨b, hescape, h⟩ := Option.bind_eq_some_iff.mp h
    obtain ⟨⟨ps', r'⟩, hps, ⟨⟩⟩ := Option.map_eq_some_iff.mp h
    obtain ⟨u, rfl, hu⟩ := ih hps
    exact ⟨_, rfl, .escaped hescape hu⟩
  | case7 => cases h
  | case8 b s hb hbackslash hcontrol ih =>
    obtain ⟨⟨ps', r'⟩, hps, ⟨⟩⟩ := Option.map_eq_some_iff.mp h
    obtain ⟨u, rfl, hu⟩ := ih hps
    exact ⟨_, rfl, .byte ⟨hb, hbackslash, UInt8.not_lt.mp hcontrol⟩ hu⟩

theorem ne_of_hexDigit {b : UInt8} {n : ℕ} (h : hexDigit b = some n) : b ≠ 0x22 ∧ b ≠ 0x5c := by
  constructor
  · rintro rfl
    cases h
  · rintro rfl
    cases h

theorem ne_of_codeUnit {b₁ b₂ b₃ b₄ : UInt8} {n : ℕ} (h : codeUnit b₁ b₂ b₃ b₄ = some n) :
    ∀ b ∈ [b₁, b₂, b₃, b₄], b ≠ 0x22 ∧ b ≠ 0x5c := by
  unfold codeUnit at h
  split at h
  · next h₁ h₂ h₃ h₄ =>
    simp only [List.forall_mem_cons, List.not_mem_nil, false_implies, implies_true, and_true]
    exact ⟨ne_of_hexDigit h₁, ne_of_hexDigit h₂, ne_of_hexDigit h₃, ne_of_hexDigit h₄⟩
  · cases h

theorem quote_not_mem_unit {b₁ b₂ b₃ b₄ : UInt8} {n : ℕ} (hn : codeUnit b₁ b₂ b₃ b₄ = some n) :
    (0x22 : UInt8) ∉ [0x5c, 0x75, b₁, b₂, b₃, b₄] := by
  intro hmem
  rcases List.mem_cons.mp hmem with heq | hmem
  · cases heq
  rcases List.mem_cons.mp hmem with heq | hmem
  · cases heq
  exact (ne_of_codeUnit hn _ hmem).1 rfl

/-- After an escaped quote the spelling goes on. -/
theorem Spelling.after_quote {v : List UInt8} {ps : List Piece} (h : Spelling v ps)
    {y u : List UInt8} (hv : v = y ++ 0x22 :: u) : ∃ ps', Spelling u ps' := by
  induction h generalizing y with
  | nil => exact absurd hv.symm (by simp)
  | byte hb h ih =>
    rcases y with _ | ⟨a, y⟩
    · exact absurd (List.cons.inj hv).1 hb.1
    · exact ih (List.cons.inj hv).2
  | escaped hb h ih =>
    rcases y with _ | ⟨a, _ | ⟨a', y⟩⟩
    · exact absurd (List.cons.inj hv).1 (by decide)
    · obtain rfl := (List.cons.inj (List.cons.inj hv).2).2
      exact ⟨_, h⟩
    · exact ih (List.cons.inj (List.cons.inj hv).2).2
  | @unit b₁ b₂ b₃ b₄ n v ps hn h ih =>
    rcases List.append_eq_append_iff.mp
      (show [0x5c, 0x75, b₁, b₂, b₃, b₄] ++ v = y ++ 0x22 :: u from hv) with
      ⟨z, rfl, hz⟩ | ⟨z, hz, hu⟩
    · exact ih hz
    · rcases z with _ | ⟨a, z⟩
      · exact ih (y := []) hu.symm
      · obtain rfl := (List.cons.inj hu).1
        exact absurd (hz ▸ List.mem_append_right y List.mem_cons_self) (quote_not_mem_unit hn)

/-! ### What is read from a spelling -/

/-- How a spelling is related to what it stands for. -/
structure StandsFor (u s : List UInt8) : Prop where
  /-- There is a backslash for every quote and every backslash. -/
  marks : s.count 0x22 + s.count 0x5c ≤ u.count 0x5c
  /-- There are no quotes but those. -/
  quotes : u.count 0x22 ≤ s.count 0x22
  /-- It is longer if there are backslashes. -/
  length_le : s.length ≤ u.length
  length_lt : 0x5c ∈ u → s.length < u.length
  /-- It is what it stands for if there are none. -/
  plain : 0x5c ∉ u → Plain s

theorem StandsFor.nil : StandsFor [] [] where
  marks := le_rfl
  quotes := le_rfl
  length_le := le_rfl
  length_lt h := absurd h List.not_mem_nil
  plain _ := fun _ hb => absurd hb List.not_mem_nil

theorem StandsFor.append {u u' s' : List UInt8} (h : StandsFor u s) (h' : StandsFor u' s') :
    StandsFor (u ++ u') (s ++ s') where
  marks := by
    have := h.marks
    have := h'.marks
    simp only [List.count_append]
    omega
  quotes := by
    rw [List.count_append, List.count_append]
    exact Nat.add_le_add h.quotes h'.quotes
  length_le := by
    rw [List.length_append, List.length_append]
    exact Nat.add_le_add h.length_le h'.length_le
  length_lt := by
    intro hmem
    rw [List.length_append, List.length_append]
    rcases List.mem_append.mp hmem with hmem | hmem
    · exact Nat.add_lt_add_of_lt_of_le (h.length_lt hmem) h'.length_le
    · exact Nat.add_lt_add_of_le_of_lt h.length_le (h'.length_lt hmem)
  plain := by
    intro hmem b hb
    obtain ⟨hu, hu'⟩ := not_or.mp (fun hor => hmem (List.mem_append.mpr hor))
    rcases List.mem_append.mp hb with hb | hb
    · exact h.plain hu b hb
    · exact h'.plain hu' b hb

theorem standsFor_byte {b : UInt8} (hb : b ≠ 0x22 ∧ b ≠ 0x5c ∧ 0x20 ≤ b) : StandsFor [b] [b] where
  marks := by simp [hb.1, hb.2.1]
  quotes := le_rfl
  length_le := le_rfl
  length_lt h := absurd (List.mem_singleton.mp h).symm hb.2.1
  plain _ := by
    rintro c hc
    rw [List.mem_singleton.mp hc]
    exact hb

theorem marks_singleton (b : UInt8) : [b].count 0x22 + [b].count 0x5c ≤ 1 := by
  by_cases hb : b = 0x22
  · rw [hb]
    decide
  · have hnot : [b].count 0x22 = 0 :=
      List.count_eq_zero.mpr fun h => hb (List.mem_singleton.mp h).symm
    have hle : [b].count 0x5c ≤ [b].length := List.count_le_length
    rw [List.length_singleton] at hle
    omega

theorem escape_eq_quote {b : UInt8} (h : escape 0x22 = some b) : b = 0x22 :=
  (Option.some.inj h).symm

theorem standsFor_escaped {c b : UInt8} (h : escape c = some b) : StandsFor [0x5c, c] [b] where
  marks := by
    have hpos : 0 < [0x5c, c].count 0x5c := List.count_pos_iff.mpr List.mem_cons_self
    have := marks_singleton b
    omega
  quotes := by
    by_cases hc : c = 0x22
    · subst hc
      rw [escape_eq_quote h]
      decide
    · have hnot : (0x22 : UInt8) ∉ [0x5c, c] := by simp [Ne.symm hc]
      rw [List.count_eq_zero.mpr hnot]
      exact Nat.zero_le _
  length_le := Nat.le_succ 1
  length_lt _ := Nat.lt_succ_self 1
  plain h := absurd List.mem_cons_self h

/-- A character is a single byte, or its bytes are not ASCII. -/
theorem marks_character (n : ℕ) : (character n).count 0x22 + (character n).count 0x5c ≤ 1 := by
  have hor : ∀ x m : UInt8, 0x80 ≤ m → x ||| m ≠ 0x22 ∧ x ||| m ≠ 0x5c := by
    intro x m hm
    have hle : 0x80 ≤ (x ||| m).toNat := by
      rw [UInt8.toNat_or]
      exact (UInt8.le_iff_toNat_le.mp hm).trans Nat.right_le_or
    constructor
    · intro heq
      rw [heq] at hle
      exact absurd hle (by decide)
    · intro heq
      rw [heq] at hle
      exact absurd hle (by decide)
  rw [character]
  generalize (if n.isValidChar then Char.ofNat n else Char.ofNat 0xfffd) = c
  rcases c.utf8Size_eq with h | h | h | h
  · rw [String.utf8EncodeChar_eq_singleton h]
    exact marks_singleton _
  · simp [String.utf8EncodeChar_eq_cons_cons h, hor _ 192, hor _ 128]
  · simp [String.utf8EncodeChar_eq_cons_cons_cons h, hor _ 224, hor _ 128]
  · simp [String.utf8EncodeChar_eq_cons_cons_cons_cons h, hor _ 240, hor _ 128]

theorem length_character (n : ℕ) : (character n).length ≤ 4 := by
  rw [character, String.length_utf8EncodeChar]
  exact Char.utf8Size_le_four _

theorem standsFor_character {u : List UInt8} (hmem : 0x5c ∈ u) (hquote : 0x22 ∉ u)
    (hlen : 4 < u.length) (n : ℕ) : StandsFor u (character n) where
  marks := by
    have := List.count_pos_iff.mpr hmem
    have := marks_character n
    omega
  quotes := by
    rw [List.count_eq_zero.mpr hquote]
    exact Nat.zero_le _
  length_le := (length_character n).trans hlen.le
  length_lt _ := (length_character n).trans_lt hlen
  plain h := absurd hmem h

/-- **A spelling and what it stands for.** -/
theorem Spelling.standsFor {u : List UInt8} {ps : List Piece} (h : Spelling u ps) :
    StandsFor u (decode ps) := by
  fun_induction decode ps generalizing u with
  | case1 =>
    cases h
    exact .nil
  | case2 b ps ih =>
    cases h with
    | byte hb h => exact (standsFor_byte hb).append (ih h)
  | case3 b ps ih =>
    cases h with
    | escaped hb h => exact (standsFor_escaped hb).append (ih h)
  | case4 n n' ps hpair ih =>
    cases h with
    | unit hn h =>
      cases h with
      | @unit b₁ b₂ b₃ b₄ _ u _ hn' h =>
        have hquote := fun hmem => (List.mem_append.mp hmem).elim (quote_not_mem_unit hn)
          (quote_not_mem_unit hn')
        exact (standsFor_character List.mem_cons_self hquote (by simp) _).append (ih h)
  | case5 n n' ps hpair ih | case6 n ps hne ih =>
    cases h with
    | unit hn h =>
      exact (standsFor_character List.mem_cons_self (quote_not_mem_unit hn) (by simp) n).append
        (ih h)

/-- The text has a string in it that is read as `s`. -/
def ReadIn (text s : List UInt8) : Prop := ∃ t r, 0x22 :: t <:+ text ∧ string t = some (s, r)

theorem ReadIn.exists_standsFor {text : List UInt8} (h : ReadIn text s) :
    ∃ u ps r, 0x22 :: (u ++ 0x22 :: r) <:+ text ∧ Spelling u ps ∧ StandsFor u s ∧
      isUtf8 s = true := by
  obtain ⟨t, r, hsuffix, hstring⟩ := h
  obtain ⟨⟨ps, r'⟩, hps, hread⟩ := Option.bind_eq_some_iff.mp hstring
  obtain ⟨u, rfl, hu⟩ := exists_spelling hps
  split_ifs at hread with hutf8
  cases hread
  exact ⟨u, ps, _, hsuffix, hu, hu.standsFor, hutf8⟩

/-! ### Woven texts -/

/-- **A text woven from strings** between quotes, and other text that has no backslash. -/
inductive Woven : List (List UInt8) → List UInt8 → Prop
  | nil : Woven [] []
  | other {b : UInt8} (hb : b ≠ 0x5c) {ps : List (List UInt8)} {t : List UInt8} (h : Woven ps t) :
      Woven ps (b :: t)
  | quoted (p : List UInt8) {ps : List (List UInt8)} {t : List UInt8} (h : Woven ps t) :
      Woven (p :: ps) (0x22 :: (p ++ 0x22 :: t))

variable {ps qs : List (List UInt8)} {t t' u r text : List UInt8} {us : List Piece}

theorem Woven.append (h : Woven ps t) (h' : Woven qs t') : Woven (ps ++ qs) (t ++ t') := by
  induction h with
  | nil => exact h'
  | other hb h ih => exact ih.other hb
  | quoted p h ih =>
    rw [List.cons_append, List.cons_append, List.append_assoc, List.cons_append]
    exact ih.quoted p

theorem woven_of_not_mem (h : 0x5c ∉ t) : Woven [] t := by
  induction t with
  | nil => exact .nil
  | cons b t ih =>
    rw [List.mem_cons, not_or] at h
    exact (ih h.2).other (Ne.symm h.1)

theorem woven_quoted (p : List UInt8) : Woven [p] (Json.quoted p) := Woven.nil.quoted p

/-- A string that begins outside the woven strings is over before the next of them begins. -/
theorem Woven.not_mem (h : Woven ps t) (hu : Spelling u us) (ht : t = u ++ 0x22 :: r) :
    0x5c ∉ u := by
  induction h generalizing u us with
  | nil => exact absurd ht.symm (by simp)
  | other hb h ih =>
    cases hu with
    | nil => exact List.not_mem_nil
    | byte hplain hu =>
      obtain ⟨-, ht⟩ := List.cons.inj ht
      rw [List.mem_cons, not_or]
      exact ⟨Ne.symm hplain.2.1, ih hu ht⟩
    | escaped | unit => exact absurd (List.cons.inj ht).1 hb
  | quoted p h ih =>
    cases hu with
    | nil => exact List.not_mem_nil
    | byte hplain => exact absurd (List.cons.inj ht).1.symm hplain.1
    | escaped | unit => exact absurd (List.cons.inj ht).1 (by decide)

/-- One string is the host of another, or of its spelling: it has as many backslashes, and it is
as long unless there is a quote. -/
def Hosts (p u : List UInt8) : Prop :=
  u.count 0x5c ≤ p.count 0x5c ∧ (0x22 ∉ u → u.length ≤ p.length)

theorem hosts_of_sublist {p u : List UInt8} (h : u.Sublist p) : Hosts p u :=
  ⟨h.count_le 0x5c, fun _ => h.length_le⟩

/-- A spelling that begins within a woven string has it as its host. -/
theorem Woven.hosts (h : Woven ps t) (hu : Spelling u us) {p y : List UInt8} (hy : y <:+ p)
    (heq : u ++ 0x22 :: r = y ++ 0x22 :: t) : Hosts p u := by
  rcases List.append_eq_append_iff.mp heq with ⟨z, rfl, -⟩ | ⟨z, rfl, hz⟩
  · exact hosts_of_sublist ((List.sublist_append_left u z).trans hy.sublist)
  · rcases z with _ | ⟨b, z⟩
    · rw [List.append_nil]
      exact hosts_of_sublist hy.sublist
    · obtain ⟨rfl, ht⟩ := List.cons.inj hz
      -- it goes on after an escaped quote, but not into the next string
      obtain ⟨us', hz⟩ := hu.after_quote rfl
      have hcount := List.count_eq_zero.mpr (h.not_mem hz ht)
      have hle := hy.sublist.count_le 0x5c
      refine ⟨?_, fun hquote => absurd (by simp) hquote⟩
      rw [List.count_append, List.count_cons_of_ne (by decide), hcount]
      omega

/-- Where a string may begin in the text of a woven one. -/
theorem suffix_quoted {p : List UInt8} (h : 0x22 :: s <:+ p ++ 0x22 :: t) :
    (∃ y, y <:+ p ∧ s = y ++ 0x22 :: t) ∨ s = t ∨ 0x22 :: s <:+ t := by
  induction p with
  | nil =>
    rcases List.suffix_cons_iff.mp h with heq | h
    · exact .inr (.inl (List.cons.inj heq).2)
    · exact .inr (.inr h)
  | cons b p ih =>
    rcases List.suffix_cons_iff.mp h with heq | h
    · exact .inl ⟨p, List.suffix_cons b p, (List.cons.inj heq).2⟩
    · rcases ih h with ⟨y, hy, heq⟩ | h
      · exact .inl ⟨y, hy.trans (List.suffix_cons b p), heq⟩
      · exact .inr h

/-- **Every spelling with backslashes has a host** among the woven strings. -/
theorem Woven.exists_hosts (h : Woven ps text) (hu : Spelling u us) (hmem : 0x5c ∈ u)
    (hsuffix : 0x22 :: (u ++ 0x22 :: r) <:+ text) : ∃ p ∈ ps, Hosts p u := by
  induction h with
  | nil => exact absurd (List.suffix_nil.mp hsuffix) (List.cons_ne_nil _ _)
  | other hb h ih =>
    rcases List.suffix_cons_iff.mp hsuffix with heq | hsuffix
    · exact absurd hmem (h.not_mem hu (List.cons.inj heq).2.symm)
    · exact ih hsuffix
  | quoted p h ih =>
    rcases List.suffix_cons_iff.mp hsuffix with heq | hsuffix
    · exact ⟨p, List.mem_cons_self, h.hosts hu List.suffix_rfl (List.cons.inj heq).2⟩
    · rcases suffix_quoted hsuffix with ⟨y, hy, heq⟩ | heq | hsuffix
      · exact ⟨p, List.mem_cons_self, h.hosts hu hy heq⟩
      · exact absurd hmem (h.not_mem hu heq.symm)
      · obtain ⟨q, hq, hhosts⟩ := ih hsuffix
        exact ⟨q, List.mem_cons_of_mem p hq, hhosts⟩

/-- **If all woven strings are read somewhere in the text, none of them needs an escape.** -/
theorem Woven.verbatim (h : Woven ps text) (hread : ∀ p ∈ ps, ReadIn text p) :
    ∀ p ∈ ps, Verbatim p := by
  by_contra hnot
  push Not at hnot
  obtain ⟨q, hq, hnq⟩ := hnot
  -- take the last of the others, by backslashes and then by length
  obtain ⟨p, hp, hmax⟩ := Finset.exists_max_image (ps.toFinset.filter fun p => ¬ Verbatim p)
    (fun p => toLex (p.count 0x5c, p.length)) ⟨q, by simp [hq, hnq]⟩
  obtain ⟨hp, hnp⟩ := Finset.mem_filter.mp hp
  obtain ⟨u, us, r, hsuffix, hu, hstands, hutf8⟩ :=
    (hread p (List.mem_toFinset.mp hp)).exists_standsFor
  have hmem : 0x5c ∈ u := by
    by_contra hmem
    exact hnp ⟨hstands.plain hmem, hutf8⟩
  obtain ⟨p', hp', hcount, hlength⟩ := h.exists_hosts hu hmem hsuffix
  have hpos := List.count_pos_iff.mpr hmem
  have hnp' : ¬ Verbatim p' := by
    intro hverbatim
    exact (hverbatim.1 _ (List.count_pos_iff.mp (hpos.trans_le hcount))).2.1 rfl
  have hle := hmax p' (by simp [hp', hnp'])
  have hmarks := hstands.marks
  have hquotes := hstands.quotes
  have hlt := hstands.length_lt hmem
  rcases Prod.Lex.toLex_le_toLex.mp hle with hless | ⟨hsame, hshort⟩
  · dsimp only at hless
    omega
  · dsimp only at hsame hshort
    have hnone : 0x22 ∉ u := List.count_eq_zero.mp (by omega)
    have := hlength hnone
    omega

/-! ### Documents -/

/-- The strings and keys of a value. -/
inductive Mentions (s : List UInt8) : Json → Prop
  | str : Mentions s (.str s)
  | item {v : Json} {vs : List Json} (hv : v ∈ vs) (h : Mentions s v) : Mentions s (.arr vs)
  | key {v : Json} {ms : List (List UInt8 × Json)} (hv : (s, v) ∈ ms) : Mentions s (.obj ms)
  | member {k : List UInt8} {v : Json} {ms : List (List UInt8 × Json)} (hv : (k, v) ∈ ms)
      (h : Mentions s v) : Mentions s (.obj ms)

theorem ReadIn.of_suffix (h : ReadIn t s) (ht : t <:+ text) : ReadIn text s := by
  obtain ⟨t', r, hsuffix, hread⟩ := h
  exact ⟨t', r, hsuffix.trans ht, hread⟩

/-- A scanner that finds all strings of what it reads in the text it takes it from. -/
def Finds {α : Type} (scan : Scan α) (strings : α → List UInt8 → Prop) : Prop :=
  ∀ s x r, scan s = some (x, r) → r <:+ s ∧ ∀ t, strings x t → ReadIn s t

theorem skip_suffix (s : List UInt8) : skip s <:+ s := List.dropWhile_suffix _

theorem suffix_of_skip {b : UInt8} (h : skip t = b :: r) : b :: r <:+ t := h ▸ skip_suffix t

theorem string_suffix (h : string t = some (s, r)) : r <:+ t := by
  obtain ⟨⟨ps, r'⟩, hps, hread⟩ := Option.bind_eq_some_iff.mp h
  obtain ⟨u, rfl, -⟩ := exists_spelling hps
  split_ifs at hread
  cases hread
  exact (List.suffix_cons _ _).trans (List.suffix_append u _)

theorem fraction_suffix {ds : List UInt8} (h : fraction t = some (ds, r)) : r <:+ t := by
  unfold fraction at h
  split_ifs at h
  · cases h
    exact (List.dropWhile_suffix _).trans (List.tail_suffix t)
  · cases h
    exact List.suffix_rfl

theorem exponent_suffix {e : ℤ} (h : exponent t = some (e, r)) : r <:+ t := by
  have htail : (if t.tail.head? = some 0x2b ∨ t.tail.head? = some 0x2d then t.tail.tail
      else t.tail) <:+ t := by
    split
    · exact (List.tail_suffix _).trans (List.tail_suffix t)
    · exact List.tail_suffix t
  unfold exponent at h
  dsimp only at h
  generalize (if t.tail.head? = some 0x2b ∨ t.tail.head? = some 0x2d then t.tail.tail
    else t.tail) = s at h htail
  split at h
  · split at h
    · cases h
    · obtain ⟨-, rfl⟩ := Prod.mk.inj (Option.some.inj h)
      exact (List.dropWhile_suffix _).trans htail
  · cases h
    exact List.suffix_rfl

theorem unsigned_suffix {n : ℕ × ℤ} (h : unsigned t = some (n, r)) : r <:+ t := by
  unfold unsigned at h
  dsimp only at h
  split at h
  · cases h
  · obtain ⟨⟨ds, r'⟩, hfraction, h⟩ := Option.bind_eq_some_iff.mp h
    obtain ⟨⟨e, r''⟩, hexponent, heq⟩ := Option.map_eq_some_iff.mp h
    cases heq
    exact (exponent_suffix hexponent).trans
      ((fraction_suffix hfraction).trans (List.dropWhile_suffix _))

theorem number_suffix {n : ℤ × ℤ} (h : number t = some (n, r)) : r <:+ t := by
  unfold number at h
  split at h
  · obtain ⟨⟨m, r'⟩, hunsigned, heq⟩ := Option.map_eq_some_iff.mp h
    cases heq
    exact (unsigned_suffix hunsigned).trans (List.tail_suffix t)
  · obtain ⟨⟨m, r'⟩, hunsigned, heq⟩ := Option.map_eq_some_iff.mp h
    cases heq
    exact unsigned_suffix hunsigned

section Finds

variable {α : Type} {item : Scan α} {strings : α → List UInt8 → Prop}

theorem Finds.separated (h : Finds item strings) (close : UInt8) (n : ℕ) :
    Finds (separated item close n) fun xs t => ∃ x ∈ xs, strings x t := by
  induction n with
  | zero => exact fun s xs r hread => absurd hread (by simp [Json.separated])
  | succ n ih =>
    intro s xs r hread
    rw [Json.separated] at hread
    obtain ⟨⟨x, s'⟩, hitem, hread⟩ := Option.bind_eq_some_iff.mp hread
    obtain ⟨hs', hx⟩ := h s x s' hitem
    dsimp only at hread
    split at hread
    · cases hread
    · next b t hskip =>
      have ht := (List.suffix_cons b t).trans ((suffix_of_skip hskip).trans hs')
      split_ifs at hread
      · cases hread
        refine ⟨ht, ?_⟩
        rintro t' ⟨y, hy, hstrings⟩
        rw [List.mem_singleton.mp hy] at hstrings
        exact hx t' hstrings
      · obtain ⟨⟨ys, r'⟩, hmore, heq⟩ := Option.map_eq_some_iff.mp hread
        cases heq
        obtain ⟨hr, hys⟩ := ih t ys r' hmore
        refine ⟨hr.trans ht, ?_⟩
        rintro t' ⟨y, hy, hstrings⟩
        rcases List.mem_cons.mp hy with rfl | hy
        · exact hx t' hstrings
        · exact (hys t' ⟨y, hy, hstrings⟩).of_suffix ht

theorem Finds.items (h : Finds item strings) (close : UInt8) :
    Finds (items item close) fun xs t => ∃ x ∈ xs, strings x t := by
  intro s xs r hread
  rw [Json.items] at hread
  split at hread
  · cases hread
  · next b t hskip =>
    split_ifs at hread
    · cases hread
      refine ⟨(List.suffix_cons b _).trans (suffix_of_skip hskip), ?_⟩
      rintro t' ⟨y, hy, -⟩
      exact absurd hy List.not_mem_nil
    · exact h.separated close s.length s xs r hread

end Finds

theorem readIn_string (hsuffix : 0x22 :: t <:+ text) (h : string t = some (s, r)) :
    ReadIn text s := ⟨t, r, hsuffix, h⟩

theorem Finds.member {v : Scan Json} (h : Finds v fun x t => Mentions t x) :
    Finds (member v) fun m t => t = m.1 ∨ Mentions t m.2 := by
  intro s m r hread
  rw [Json.member] at hread
  split at hread
  · cases hread
  · next b t hskip =>
    have ht := suffix_of_skip hskip
    split_ifs at hread with hb
    subst hb
    obtain ⟨⟨k, s'⟩, hkey, hread⟩ := Option.bind_eq_some_iff.mp hread
    dsimp only at hread
    split at hread
    · cases hread
    · next c u hskip' =>
      split_ifs at hread
      obtain ⟨⟨x, r'⟩, hvalue, heq⟩ := Option.map_eq_some_iff.mp hread
      cases heq
      obtain ⟨hr, hx⟩ := h u x r' hvalue
      have hu : u <:+ s := (List.suffix_cons c u).trans ((suffix_of_skip hskip').trans
        ((string_suffix hkey).trans ((List.suffix_cons _ t).trans ht)))
      refine ⟨hr.trans hu, ?_⟩
      rintro t' (rfl | hmentions)
      · exact readIn_string ht hkey
      · exact (hx t' hmentions).of_suffix hu

/-- **Whatever a value mentions is read in its text.** -/
theorem finds_value (d : ℕ) : Finds (value d) fun x t => Mentions t x := by
  induction d with
  | zero => exact fun s x r hread => absurd hread (by simp [value])
  | succ d ih =>
    intro s x r hread
    rw [value] at hread
    split at hread
    · cases hread
    · next b t hskip =>
      have hbt := suffix_of_skip hskip
      have ht := (List.suffix_cons b t).trans hbt
      split_ifs at hread with hquote hobj harr
      · subst hquote
        obtain ⟨⟨s', r'⟩, hstring, heq⟩ := Option.map_eq_some_iff.mp hread
        cases heq
        refine ⟨(string_suffix hstring).trans ht, ?_⟩
        rintro t' ⟨⟩
        exact readIn_string hbt hstring
      · obtain ⟨⟨ms, r'⟩, hitems, heq⟩ := Option.map_eq_some_iff.mp hread
        cases heq
        obtain ⟨hr, hms⟩ := ih.member.items 0x7d t ms r' hitems
        refine ⟨hr.trans ht, ?_⟩
        rintro t' (_ | _ | hv | ⟨hv, hmentions⟩)
        · exact (hms t' ⟨_, hv, .inl rfl⟩).of_suffix ht
        · exact (hms t' ⟨_, hv, .inr hmentions⟩).of_suffix ht
      · obtain ⟨⟨vs, r'⟩, hitems, heq⟩ := Option.map_eq_some_iff.mp hread
        cases heq
        obtain ⟨hr, hvs⟩ := ih.items 0x5d t vs r' hitems
        refine ⟨hr.trans ht, ?_⟩
        rintro t' (_ | ⟨hv, hmentions⟩)
        exact (hvs t' ⟨_, hv, hmentions⟩).of_suffix ht
      · cases hread
        refine ⟨(List.drop_suffix 3 t).trans ht, ?_⟩
        rintro t' ⟨⟩
      · cases hread
        refine ⟨(List.drop_suffix 3 t).trans ht, ?_⟩
        rintro t' ⟨⟩
      · cases hread
        refine ⟨(List.drop_suffix 4 t).trans ht, ?_⟩
        rintro t' ⟨⟩
      · obtain ⟨⟨n, r'⟩, hnumber, heq⟩ := Option.map_eq_some_iff.mp hread
        cases heq
        refine ⟨(number_suffix hnumber).trans hbt, ?_⟩
        rintro t' ⟨⟩

/-- **Whatever a document mentions is read in its text.** -/
theorem readIn_of_document {v : Json} (h : document text = some v) (hs : Mentions s v) :
    ReadIn text s := by
  obtain ⟨⟨v', r⟩, hvalue, hread⟩ := Option.bind_eq_some_iff.mp h
  split_ifs at hread
  cases hread
  exact (finds_value _ text _ r hvalue).2 s hs

end HawkTracer.Json
