import HawkTracer.Base.JsonQuotes

/-!
# Printers of JSON

A `HawkTracer.Json.Printed` is a text that a program without escapes prints for a value, together
with the strings that it puts between quotes as they are. It carries what is to be known about it:
the text is read as the value if none of the strings needs an escape, and it is woven from them.
Both hold by the way such texts are made: from strings, integers, and arrays and objects of them.

So for the whole document there is nothing left to prove. It is read as the value it was printed
for if no string needs an escape (`HawkTracer.Json.Printed.document`), and if a document that is
read from it mentions all the strings then none of them does
(`HawkTracer.Json.Printed.verbatim_of_document`).
-/

namespace HawkTracer.Json

variable {d : ℕ} {ps : List (List UInt8)} {t v : List UInt8}

/-! ### The pieces of a printed text -/

theorem not_mem_decimalInt (z : ℤ) : 0x5c ∉ decimalInt z := by
  have hdecimal : ∀ n, 0x5c ∉ decimal n := by
    intro n hmem
    exact absurd (isDigit_of_mem_decimal hmem) (by decide)
  rw [decimalInt]
  split
  · rw [List.mem_cons, not_or]
    exact ⟨by decide, hdecimal _⟩
  · exact hdecimal _

theorem not_mem_of_isSpace {gap : List UInt8} (hgap : ∀ b ∈ gap, isSpace b = true) :
    0x5c ∉ gap := by
  intro hmem
  exact absurd (hgap _ hmem) (by decide)

theorem Verbatim.not_mem (h : Verbatim t) : 0x5c ∉ t := fun hmem => (h.1 _ hmem).2.1 rfl

theorem not_mem_quoted (h : 0x5c ∉ t) : 0x5c ∉ quoted t := by
  simp [quoted, h]

/-- Text with no backslash after a woven one. -/
theorem Woven.append_right (h : Woven ps t) (hv : 0x5c ∉ v) : Woven ps (t ++ v) := by
  have happend := h.append (woven_of_not_mem hv)
  rwa [List.append_nil] at happend

theorem woven_joined {ι : Type} {text : ι → List UInt8} {strings : ι → List (List UInt8)}
    {sep : List UInt8} (hsep : 0x5c ∉ sep) {l : List ι} (h : ∀ i ∈ l, Woven (strings i) (text i)) :
    Woven (l.flatMap strings) (joined sep (l.map text)) := by
  induction l with
  | nil => exact .nil
  | cons i l ih =>
    obtain ⟨hi, hl⟩ := List.forall_mem_cons.mp h
    cases l with
    | nil =>
      rw [List.flatMap_singleton]
      exact hi
    | cons j l =>
      rw [List.flatMap_cons]
      exact (hi.append_right hsep).append (ih hl)

/-- The name of a member: one that is part of the program, or one that is put between quotes as
it is. -/
inductive Key where
  | fixed (name : List UInt8) (h : Verbatim name)
  | free (name : List UInt8)

def Key.name : Key → List UInt8
  | .fixed name _ => name
  | .free name => name

def Key.strings : Key → List (List UInt8)
  | .fixed _ _ => []
  | .free name => [name]

theorem Key.verbatim (k : Key) (h : ∀ s ∈ k.strings, Verbatim s) : Verbatim k.name := by
  cases k with
  | fixed name hname => exact hname
  | free name => exact h name List.mem_cons_self

theorem Woven.member (h : Woven ps v) (k : Key) :
    Woven (k.strings ++ ps) (memberText k.name v) := by
  have hvalue : Woven ps (0x3a :: 0x20 :: v) := (h.other (by decide)).other (by decide)
  cases k with
  | fixed name hname => exact (woven_of_not_mem (not_mem_quoted hname.not_mem)).append hvalue
  | free name => exact (woven_quoted name).append hvalue

theorem starts_memberText (k v : List UInt8) : Starts 0x7d (memberText k v) :=
  ⟨0x22, _, rfl, rfl, by decide⟩

/-! ### Printed values -/

/-- **A printed value**, of the given depth at most. -/
structure Printed (d : ℕ) where
  text : List UInt8
  json : Json
  /-- The strings that are put between quotes as they are. -/
  strings : List (List UInt8)
  starts : Starts 0x5d text
  woven : Woven strings text
  spells : (∀ s ∈ strings, Verbatim s) → Spells (value d) text json

namespace Printed

/-- A string. -/
def str (s : List UInt8) : Printed (d + 1) where
  text := quoted s
  json := .str s
  strings := [s]
  starts := ⟨0x22, _, rfl, rfl, by decide⟩
  woven := woven_quoted s
  spells h := spells_str d (h s List.mem_cons_self)

/-- A string that is part of the program. -/
def fixed (s : List UInt8) (h : Verbatim s) : Printed (d + 1) where
  text := quoted s
  json := .str s
  strings := []
  starts := ⟨0x22, _, rfl, rfl, by decide⟩
  woven := woven_of_not_mem (not_mem_quoted h.not_mem)
  spells _ := spells_str d h

/-- An integer. -/
def int (z : ℤ) : Printed (d + 1) where
  text := decimalInt z
  json := .int z
  strings := []
  starts := by
    obtain ⟨b, t, htext, hb⟩ := exists_decimalInt_eq_cons z
    exact ⟨b, t, htext, isSpace_of_number hb, ne_of_number hb rfl (by decide)⟩
  woven := woven_of_not_mem (not_mem_decimalInt z)
  spells _ := spells_int d z

section Items

variable (gap : List UInt8) (hgap : ∀ b ∈ gap, isSpace b = true)

/-- An array, with white space after its commas. -/
def arr (ps : List (Printed d)) : Printed (d + 1) where
  text := 0x5b :: (joined (0x2c :: gap) (ps.map text) ++ [0x5d])
  json := .arr (ps.map json)
  strings := ps.flatMap strings
  starts := ⟨0x5b, _, rfl, rfl, by decide⟩
  woven := by
    have hsep : 0x5c ∉ 0x2c :: gap := by simp [not_mem_of_isSpace hgap]
    exact ((woven_joined hsep fun p _ => p.woven).append_right (by decide)).other (by decide)
  spells h := by
    refine (spells_items (.inl rfl) (value_append hgap d) (fun p hp => p.spells ?_)
      fun p _ => p.starts).arr
    exact fun s hs => h s (List.mem_flatMap.mpr ⟨p, hp, hs⟩)

/-- An object, with white space after its commas. -/
def obj (ms : List (Key × Printed d)) : Printed (d + 1) where
  text := 0x7b :: (joined (0x2c :: gap) (ms.map fun m => memberText m.1.name m.2.text) ++ [0x7d])
  json := .obj (ms.map fun m => (m.1.name, m.2.json))
  strings := ms.flatMap fun m => m.1.strings ++ m.2.strings
  starts := ⟨0x7b, _, rfl, rfl, by decide⟩
  woven := by
    have hsep : 0x5c ∉ 0x2c :: gap := by simp [not_mem_of_isSpace hgap]
    exact ((woven_joined hsep fun m _ => m.2.woven.member m.1).append_right (by decide)).other
      (by decide)
  spells h := by
    refine (spells_items (.inr rfl) (member_append hgap (value d)) (fun m hm => ?_)
      fun m _ => starts_memberText _ _).obj
    have hstrings : ∀ s ∈ m.1.strings ++ m.2.strings, Verbatim s :=
      fun s hs => h s (List.mem_flatMap.mpr ⟨m, hm, hs⟩)
    obtain ⟨hkey, hvalue⟩ := List.forall_mem_append.mp hstrings
    exact (m.2.spells hvalue).member (m.1.verbatim hkey)

@[simp] theorem text_arr (ps : List (Printed d)) :
    (arr gap hgap ps).text = 0x5b :: (joined (0x2c :: gap) (ps.map text) ++ [0x5d]) := rfl

@[simp] theorem text_obj (ms : List (Key × Printed d)) :
    (obj gap hgap ms).text =
      0x7b :: (joined (0x2c :: gap) (ms.map fun m => memberText m.1.name m.2.text) ++ [0x7d]) := rfl

@[simp] theorem json_obj (ms : List (Key × Printed d)) :
    (obj gap hgap ms).json = .obj (ms.map fun m => (m.1.name, m.2.json)) := rfl

@[simp] theorem strings_obj (ms : List (Key × Printed d)) :
    (obj gap hgap ms).strings = ms.flatMap fun m => m.1.strings ++ m.2.strings := rfl

end Items

/-- **A printed document is read as it was meant** if no string needs an escape. -/
theorem document (p : Printed d) (hd : p.text.length = d) (h : ∀ s ∈ p.strings, Verbatim s) :
    document p.text = some p.json :=
  (p.spells h).document hd

/-- **No string needs an escape** if a document is read that mentions them all. -/
theorem verbatim_of_document (p : Printed d) {j : Json} (hj : Json.document p.text = some j)
    (h : ∀ s ∈ p.strings, Mentions s j) : ∀ s ∈ p.strings, Verbatim s :=
  p.woven.verbatim fun s hs => readIn_of_document hj (h s hs)

end Printed

end HawkTracer.Json
