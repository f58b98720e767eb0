import HawkTracer.Base.JsonText

/-!
# JSON documents

A recursive-descent reader for JSON (`HawkTracer.Json.document`), and what is needed to say of a
printed text what it is read as. `HawkTracer.Json.Spells` says that a piece of text is read as a
value, whatever comes after it. It is put together along the document: strings, numbers, members,
arrays and objects of such pieces are such pieces.
-/

namespace HawkTracer

/-- A JSON value. A number is given by mantissa and exponent. -/
inductive Json where
  | null
  | bool (b : Bool)
  | num (mantissa exponent : ℤ)
  | str (s : List UInt8)
  | arr (items : List Json)
  | obj (members : List (List UInt8 × Json))

namespace Json

/-- An integer. -/
def int (z : ℤ) : Json := .num z 0

/-- The value under a name. Of several members with that name decoders keep the last one. -/
def get (key : List UInt8) : Json → Option Json
  | .obj members => members.reverse.lookup key
  | _ => none

theorem mem_of_get {key : List UInt8} {j v : Json} (h : j.get key = some v) :
    ∃ ms, j = .obj ms ∧ (key, v) ∈ ms := by
  cases j with
  | obj ms =>
    obtain ⟨l₁, l₂, hms, -⟩ := List.lookup_eq_some_iff.mp h
    have hmem : (key, v) ∈ ms.reverse := hms ▸ List.mem_append_right l₁ List.mem_cons_self
    exact ⟨ms, rfl, List.mem_reverse.mp hmem⟩
  | null | bool | num | str | arr => cases h

/-! ### The reader -/

/-- White space. -/
def isSpace (b : UInt8) : Bool := b = 0x20 || b = 0x09 || b = 0x0a || b = 0x0d

/-- The text without white space in front. -/
def skip (s : List UInt8) : List UInt8 := s.dropWhile isSpace

section Items

variable {α : Type} (item : Scan α) (close : UInt8)

/-- One or more items, separated by commas, and the closing character. -/
def separated : ℕ → Scan (List α)
  | 0, _ => none
  | n + 1, s =>
    (item s).bind fun r =>
      match skip r.2 with
      | [] => none
      | b :: t =>
        if b = close then some ([r.1], t)
        else if b = 0x2c then (separated n t).map fun r' => (r.1 :: r'.1, r'.2)
        else none

/-- The items of an array or an object, after the opening character. There are no more of them
than characters. -/
def items : Scan (List α) := fun s =>
  match skip s with
  | [] => none
  | b :: t => if b = close then some ([], t) else separated item close s.length s

end Items

/-- A member of an object. -/
def member (value : Scan Json) : Scan (List UInt8 × Json) := fun s =>
  match skip s with
  | [] => none
  | b :: s =>
    if b = 0x22 then
      (string s).bind fun k =>
        match skip k.2 with
        | [] => none
        | b :: s => if b = 0x3a then (value s).map fun v => ((k.1, v.1), v.2) else none
    else none

/-- A value, of the given depth at most. -/
def value : ℕ → Scan Json
  | 0, _ => none
  | d + 1, s =>
    match skip s with
    | [] => none
    | b :: t =>
      if b = 0x22 then (string t).map fun r => (.str r.1, r.2)
      else if b = 0x7b then (items (member (value d)) 0x7d t).map fun r => (.obj r.1, r.2)
      else if b = 0x5b then (items (value d) 0x5d t).map fun r => (.arr r.1, r.2)
      else if b = 0x6e then
        if t.take 3 = [0x75, 0x6c, 0x6c] then some (.null, t.drop 3) else none
      else if b = 0x74 then
        if t.take 3 = [0x72, 0x75, 0x65] then some (.bool true, t.drop 3) else none
      else if b = 0x66 then
        if t.take 4 = [0x61, 0x6c, 0x73, 0x65] then some (.bool false, t.drop 4) else none
      else (number (b :: t)).map fun r => (.num r.1.1 r.1.2, r.2)

/-- **A document**: one value and white space. It is not deeper than it is long. -/
def document (s : List UInt8) : Option Json :=
  (value s.length s).bind fun r => if skip r.2 = [] then some r.1 else none

/-! ### What a text spells -/

/-- **The text is read as the value**, and nothing after it is. -/
def Spells {α : Type} (scan : Scan α) (text : List UInt8) (x : α) : Prop :=
  ∀ rest, EndsNumber rest → scan (text ++ rest) = some (x, rest)

theorem skip_cons {b : UInt8} (hb : isSpace b = false) (s : List UInt8) :
    skip (b :: s) = b :: s := by
  simp [skip, hb]

theorem skip_append {gap : List UInt8} (hgap : ∀ b ∈ gap, isSpace b = true) (s : List UInt8) :
    skip (gap ++ s) = skip s := List.dropWhile_append_of_pos hgap

theorem isSpace_of_mem_blank : ∀ b ∈ [(0x20 : UInt8)], isSpace b = true := by
  intro b hb
  rw [List.mem_singleton.mp hb]
  rfl

theorem value_append {gap : List UInt8} (hgap : ∀ b ∈ gap, isSpace b = true) (d : ℕ)
    (s : List UInt8) : value d (gap ++ s) = value d s := by
  cases d with
  | zero => rfl
  | succ d => rw [value, value, skip_append hgap]

theorem member_append {gap : List UInt8} (hgap : ∀ b ∈ gap, isSpace b = true) (v : Scan Json)
    (s : List UInt8) : member v (gap ++ s) = member v s := by
  rw [member, member, skip_append hgap]

/-- A string between quotes. -/
def quoted (s : List UInt8) : List UInt8 := 0x22 :: (s ++ [0x22])

theorem quoted_append (s rest : List UInt8) : quoted s ++ rest = 0x22 :: (s ++ 0x22 :: rest) := by
  simp [quoted]

/-- **A string.** -/
theorem spells_str (d : ℕ) {s : List UInt8} (h : Verbatim s) :
    Spells (value (d + 1)) (quoted s) (.str s) := by
  intro rest _
  rw [quoted_append, value, skip_cons (by decide)]
  simp only [if_pos]
  rw [string_append h, Option.map_some]

/-- The first character of a number. -/
theorem ne_of_number {b : UInt8} (hb : isDigit b = true ∨ b = 0x2d) {c : UInt8}
    (hc : isDigit c = false) (hminus : c ≠ 0x2d) : b ≠ c := by
  rintro rfl
  rcases hb with hb | hb
  · rw [hc] at hb
    cases hb
  · exact hminus hb

theorem isSpace_of_number {b : UInt8} (hb : isDigit b = true ∨ b = 0x2d) : isSpace b = false := by
  have hne := fun c => @ne_of_number b hb c
  simp [isSpace, hne 0x20 rfl (by decide), hne 0x09 rfl (by decide), hne 0x0a rfl (by decide),
    hne 0x0d rfl (by decide)]

theorem value_of_number {b : UInt8} (hb : isDigit b = true ∨ b = 0x2d) (d : ℕ) (s : List UInt8) :
    value (d + 1) (b :: s) = (number (b :: s)).map fun r => (.num r.1.1 r.1.2, r.2) := by
  have hne := fun c => @ne_of_number b hb c
  rw [value, skip_cons (isSpace_of_number hb)]
  simp only [if_neg (hne 0x22 rfl (by decide)), if_neg (hne 0x7b rfl (by decide)),
    if_neg (hne 0x5b rfl (by decide)), if_neg (hne 0x6e rfl (by decide)),
    if_neg (hne 0x74 rfl (by decide)), if_neg (hne 0x66 rfl (by decide))]

/-- The first character of an integer. -/
theorem exists_decimalInt_eq_cons (z : ℤ) :
    ∃ b t, decimalInt z = b :: t ∧ (isDigit b = true ∨ b = 0x2d) := by
  rw [decimalInt]
  split
  · exact ⟨_, _, rfl, .inr rfl⟩
  · obtain ⟨b, t, hb, hdigit⟩ := exists_decimal_eq_cons z.natAbs
    exact ⟨b, t, hb, .inl hdigit⟩

/-- **An integer.** -/
theorem spells_int (d : ℕ) (z : ℤ) : Spells (value (d + 1)) (decimalInt z) (int z) := by
  intro rest hrest
  obtain ⟨b, t, hb, hfirst⟩ := exists_decimalInt_eq_cons z
  have hnumber := number_decimalInt z hrest
  rw [hb, List.cons_append] at hnumber ⊢
  rw [value_of_number hfirst, hnumber, Option.map_some, int]

/-- A member, as it is printed. -/
def memberText (k v : List UInt8) : List UInt8 := quoted k ++ 0x3a :: 0x20 :: v

/-- **A member of an object.** -/
theorem Spells.member {d : ℕ} {text : List UInt8} {v : Json} (h : Spells (value d) text v)
    {k : List UInt8} (hk : Verbatim k) : Spells (member (value d)) (memberText k text) (k, v) := by
  intro rest hrest
  have htext : memberText k text ++ rest =
      0x22 :: (k ++ 0x22 :: (0x3a :: ([0x20] ++ (text ++ rest)))) := by
    simp [memberText, quoted]
  rw [htext, Json.member, skip_cons (by decide)]
  simp only [if_pos]
  rw [string_append hk, Option.bind_some]
  dsimp only
  rw [skip_cons (by decide)]
  simp only [if_pos]
  rw [value_append isSpace_of_mem_blank, h rest hrest, Option.map_some]

/-! ### Lists of items -/

/-- Texts with a separator between them. -/
def joined (sep : List UInt8) : List (List UInt8) → List UInt8
  | [] => []
  | [t] => t
  | t :: ts => t ++ sep ++ joined sep ts

/-- The first text is in front. -/
theorem exists_joined_eq (sep t : List UInt8) (ts : List (List UInt8)) :
    ∃ s, joined sep (t :: ts) = t ++ s := by
  cases ts with
  | nil => exact ⟨[], (List.append_nil t).symm⟩
  | cons t' ts => exact ⟨sep ++ joined sep (t' :: ts), by simp [joined]⟩

/-- One more text at the end. -/
theorem joined_concat (sep : List UInt8) (ts : List (List UInt8)) (t : List UInt8) :
    joined sep (ts ++ [t]) = if ts = [] then t else joined sep ts ++ sep ++ t := by
  fun_induction joined sep ts with
  | case1 => rfl
  | case2 t' => rfl
  | case3 t' ts hts ih =>
    have hne : ts ++ [t] ≠ [] := by simp
    rw [if_neg (List.cons_ne_nil t' ts), List.cons_append, joined, ih, if_neg hts]
    · simp
    · exact hne

theorem length_le_length_joined (sep : List UInt8) {ts : List (List UInt8)}
    (h : ∀ t ∈ ts, t ≠ []) : ts.length ≤ (joined sep ts).length := by
  fun_induction joined sep ts with
  | case1 => exact le_rfl
  | case2 t => exact List.length_pos_iff.mpr (h t List.mem_cons_self)
  | case3 t ts hts ih =>
    obtain ⟨ht, hrest⟩ := List.forall_mem_cons.mp h
    have hlen := ih hrest
    have hpos := List.length_pos_iff.mpr ht
    simp only [List.length_append, List.length_cons]
    omega

section Joined

variable {α ι : Type} {item : Scan α} {close : UInt8} {gap : List UInt8} {text : ι → List UInt8}
  {val : ι → α}

/-- What ends the items of an array or an object. -/
def Closes (close : UInt8) : Prop := close = 0x5d ∨ close = 0x7d

theorem Closes.endsNumber (h : Closes close) (s : List UInt8) : EndsNumber (close :: s) := by
  rcases h with rfl | rfl
  · exact endsNumber_cons (by decide) s
  · exact endsNumber_cons (by decide) s

theorem Closes.isSpace (h : Closes close) : isSpace close = false := by
  rcases h with rfl | rfl
  · rfl
  · rfl

theorem Closes.ne_comma (h : Closes close) : (0x2c : UInt8) ≠ close := by
  rcases h with rfl | rfl
  · decide
  · decide

theorem separated_gap (hgap : ∀ s, item (gap ++ s) = item s) (n : ℕ) (s : List UInt8) :
    separated item close n (gap ++ s) = separated item close n s := by
  cases n with
  | zero => rfl
  | succ n => rw [separated, separated, hgap]

/-- **Items with commas between them.** -/
theorem separated_joined (hclose : Closes close) (hgap : ∀ s, item (gap ++ s) = item s)
    {i : ι} {l : List ι} (hitem : ∀ j ∈ i :: l, Spells item (text j) (val j)) {n : ℕ}
    (hn : l.length < n) (rest : List UInt8) :
    separated item close n (joined (0x2c :: gap) ((i :: l).map text) ++ close :: rest) =
      some ((i :: l).map val, rest) := by
  induction l generalizing i n with
  | nil =>
    obtain ⟨n, rfl⟩ : ∃ m, n = m + 1 := ⟨n - 1, by omega⟩
    have hread := hitem i List.mem_cons_self (close :: rest) (hclose.endsNumber rest)
    rw [List.map_cons, List.map_nil, joined, separated, hread, Option.bind_some]
    dsimp only
    rw [skip_cons hclose.isSpace]
    exact if_pos rfl
  | cons j l ih =>
    obtain ⟨n, rfl⟩ : ∃ m, n = m + 1 := ⟨n - 1, by omega⟩
    obtain ⟨hi, hl⟩ := List.forall_mem_cons.mp hitem
    have hjoin : joined (0x2c :: gap) ((i :: j :: l).map text) ++ close :: rest = text i ++
        0x2c :: (gap ++ (joined (0x2c :: gap) ((j :: l).map text) ++ close :: rest)) := by
      simp [joined]
    rw [hjoin, separated, hi _ (endsNumber_cons (by decide) _), Option.bind_some]
    dsimp only
    rw [skip_cons (by decide)]
    dsimp only
    rw [if_neg hclose.ne_comma, if_pos rfl, separated_gap hgap, ih hl (by simpa using hn)]
    rfl

/-- The text of an item starts with something that is neither white space nor the closing
character. -/
def Starts (close : UInt8) (t : List UInt8) : Prop :=
  ∃ b s, t = b :: s ∧ isSpace b = false ∧ b ≠ close

/-- **The items of an array or an object.** -/
theorem spells_items (hclose : Closes close) (hgap : ∀ s, item (gap ++ s) = item s) {l : List ι}
    (hitem : ∀ i ∈ l, Spells item (text i) (val i)) (hstart : ∀ i ∈ l, Starts close (text i)) :
    Spells (items item close) (joined (0x2c :: gap) (l.map text) ++ [close]) (l.map val) := by
  intro rest _
  rw [List.append_assoc, List.singleton_append]
  rcases l with _ | ⟨i, l⟩
  · rw [List.map_nil, joined, List.nil_append, items, skip_cons hclose.isSpace]
    exact if_pos rfl
  · have hne : ∀ t ∈ (i :: l).map text, t ≠ [] := by
      intro t ht
      obtain ⟨j, hj, rfl⟩ := List.mem_map.mp ht
      obtain ⟨b, s, hb, -⟩ := hstart j hj
      rw [hb]
      exact List.cons_ne_nil b s
    have hlen := length_le_length_joined (0x2c :: gap) hne
    rw [List.length_map, List.length_cons] at hlen
    rw [← separated_joined (n := (joined (0x2c :: gap) ((i :: l).map text) ++ close :: rest).length)
      hclose hgap hitem (by rw [List.length_append]; omega) rest]
    -- the first character of the first item is not the closing one
    obtain ⟨b, s, hb, hspace, hnclose⟩ := hstart i List.mem_cons_self
    obtain ⟨u, hu⟩ := exists_joined_eq (0x2c :: gap) (text i) (l.map text)
    rw [List.map_cons, hu, hb, List.cons_append, List.cons_append, items, skip_cons hspace]
    exact if_neg hnclose

end Joined

/-- **An array.** -/
theorem Spells.arr {d : ℕ} {text : List UInt8} {vs : List Json}
    (h : Spells (items (value d) 0x5d) text vs) :
    Spells (value (d + 1)) (0x5b :: text) (.arr vs) := by
  intro rest hrest
  have hread := h rest hrest
  rw [List.cons_append, value, skip_cons (by decide)]
  simp [hread]

/-- **An object.** -/
theorem Spells.obj {d : ℕ} {text : List UInt8} {ms : List (List UInt8 × Json)}
    (h : Spells (items (Json.member (value d)) 0x7d) text ms) :
    Spells (value (d + 1)) (0x7b :: text) (.obj ms) := by
  intro rest hrest
  have hread := h rest hrest
  rw [List.cons_append, value, skip_cons (by decide)]
  simp [hread]

/-- **A document is read as it was meant.** -/
theorem Spells.document {d : ℕ} {text : List UInt8} {v : Json} (h : Spells (value d) text v)
    (hd : text.length = d) : document text = some v := by
  subst hd
  have hread := h [] endsNumber_nil
  rw [List.append_nil] at hread
  rw [Json.document, hread, Option.bind_some]
  exact if_pos rfl

end Json

end HawkTracer
