import Mathlib.Data.Nat.Digits.Lemmas
import Mathlib.Data.UInt

/-!
# The strings and numbers of JSON

A JSON text is a list of bytes, in UTF-8. A *scanner* takes something off the front of such a text
and leaves the rest.

The scanner of strings goes over the text piece by piece: bytes that stand for themselves, escaped
characters and UTF-16 code units. A string that is UTF-8 and has no quote, no backslash and no
control character needs no escapes: put between quotes as it is, it is read back
(`HawkTracer.Json.string_append`).

Numbers are read in full; what is printed here are integers (`HawkTracer.Json.number_decimalInt`).
-/

namespace HawkTracer.Json

/-- A scanner takes something off the front of a text. -/
abbrev Scan (α : Type) := List UInt8 → Option (α × List UInt8)

/-! ### UTF-8 -/

/-- A byte that continues a character. -/
def isContinuation (b : UInt8) : Bool := 0x80 ≤ b && b ≤ 0xbf

/-- **Well-formed UTF-8**, by the table of the Unicode standard. -/
def isUtf8 : List UInt8 → Bool
  | [] => true
  | b :: s =>
    if b ≤ 0x7f then isUtf8 s
    else
      match s with
      | [] => false
      | b₁ :: s =>
        if 0xc2 ≤ b && b ≤ 0xdf then isContinuation b₁ && isUtf8 s
        else
          match s with
          | [] => false
          | b₂ :: s =>
            if 0xe0 ≤ b && b ≤ 0xef then
              isContinuation b₁ && (b != 0xe0 || 0xa0 ≤ b₁) && (b != 0xed || b₁ ≤ 0x9f) &&
                isContinuation b₂ && isUtf8 s
            else
              match s with
              | [] => false
              | b₃ :: s =>
                0xf0 ≤ b && b ≤ 0xf4 && isContinuation b₁ && (b != 0xf0 || 0x90 ≤ b₁) &&
                  (b != 0xf4 || b₁ ≤ 0x8f) && isContinuation b₂ && isContinuation b₃ && isUtf8 s

/-! ### Strings -/

/-- What a string is made of. -/
inductive Piece where
  /-- A byte that stands for itself. -/
  | byte (b : UInt8)
  /-- A character after a backslash. -/
  | escaped (b : UInt8)
  /-- A UTF-16 code unit, `\u` and four hexadecimal digits. -/
  | unit (n : ℕ)

/-- What a character after a backslash stands for. -/
def escape (b : UInt8) : Option UInt8 :=
  if b = 0x22 ∨ b = 0x5c ∨ b = 0x2f then some b
  else if b = 0x62 then some 0x08
  else if b = 0x66 then some 0x0c
  else if b = 0x6e then some 0x0a
  else if b = 0x72 then some 0x0d
  else if b = 0x74 then some 0x09
  else none

/-- The value of a hexadecimal digit. -/
def hexDigit (b : UInt8) : Option ℕ :=
  if 0x30 ≤ b ∧ b ≤ 0x39 then some (b.toNat - 0x30)
  else if 0x41 ≤ b ∧ b ≤ 0x46 then some (b.toNat - 0x41 + 10)
  else if 0x61 ≤ b ∧ b ≤ 0x66 then some (b.toNat - 0x61 + 10)
  else none

/-- Four hexadecimal digits. -/
def codeUnit (b₁ b₂ b₃ b₄ : UInt8) : Option ℕ :=
  match hexDigit b₁, hexDigit b₂, hexDigit b₃, hexDigit b₄ with
  | some n₁, some n₂, some n₃, some n₄ => some (((n₁ * 16 + n₂) * 16 + n₃) * 16 + n₄)
  | _, _, _, _ => none

/-- The pieces of a string, after its opening quote and up to the closing one. -/
def pieces : Scan (List Piece)
  | [] => none
  | b :: s =>
    if b = 0x22 then some ([], s)
    else if b = 0x5c then
      match s with
      | [] => none
      | c :: s =>
        if c = 0x75 then
          match s with
          | b₁ :: b₂ :: b₃ :: b₄ :: s =>
            (codeUnit b₁ b₂ b₃ b₄).bind fun n => (pieces s).map fun r => (.unit n :: r.1, r.2)
          | _ => none
        else (escape c).bind fun b => (pieces s).map fun r => (.escaped b :: r.1, r.2)
    else if b < 0x20 then none
    else (pieces s).map fun r => (.byte b :: r.1, r.2)

/-- The bytes of a character; `U+FFFD` for a surrogate that has no partner. -/
def character (n : ℕ) : List UInt8 :=
  String.utf8EncodeChar (if n.isValidChar then Char.ofNat n else Char.ofNat 0xfffd)

/-- What the pieces stand for. Two code units may make one character. -/
def decode : List Piece → List UInt8
  | [] => []
  | .byte b :: ps => b :: decode ps
  | .escaped b :: ps => b :: decode ps
  | .unit n :: .unit n' :: ps =>
    if 0xd800 ≤ n ∧ n < 0xdc00 ∧ 0xdc00 ≤ n' ∧ n' < 0xe000 then
      character (0x10000 + (n - 0xd800) * 0x400 + (n' - 0xdc00)) ++ decode ps
    else character n ++ decode (.unit n' :: ps)
  | .unit n :: ps => character n ++ decode ps

/-- **A string**, after its opening quote. -/
def string : Scan (List UInt8) := fun s =>
  (pieces s).bind fun r => if isUtf8 (decode r.1) then some (decode r.1, r.2) else none

/-- Every byte stands for itself. -/
def Plain (s : List UInt8) : Prop := ∀ b ∈ s, b ≠ 0x22 ∧ b ≠ 0x5c ∧ 0x20 ≤ b

/-- **The string needs no escapes**: it is UTF-8 and has no quote, no backslash and no control
character. -/
def Verbatim (s : List UInt8) : Prop := Plain s ∧ isUtf8 s = true

instance (s : List UInt8) : Decidable (Plain s) :=
  inferInstanceAs (Decidable (∀ b ∈ s, b ≠ 0x22 ∧ b ≠ 0x5c ∧ 0x20 ≤ b))

instance (s : List UInt8) : Decidable (Verbatim s) :=
  inferInstanceAs (Decidable (Plain s ∧ isUtf8 s = true))

theorem pieces_quote (s : List UInt8) : pieces (0x22 :: s) = some ([], s) := by
  rw [pieces.eq_def]
  exact if_pos rfl

theorem pieces_byte {b : UInt8} (hb : b ≠ 0x22 ∧ b ≠ 0x5c ∧ 0x20 ≤ b) (s : List UInt8) :
    pieces (b :: s) = (pieces s).map fun r => (.byte b :: r.1, r.2) := by
  rw [pieces.eq_def]
  simp only [if_neg hb.1, if_neg hb.2.1, if_neg (UInt8.not_lt.mpr hb.2.2)]

variable {s : List UInt8}

theorem pieces_of_plain (h : Plain s) (r : List UInt8) :
    pieces (s ++ 0x22 :: r) = some (s.map .byte, r) := by
  induction s with
  | nil => exact pieces_quote r
  | cons b s ih =>
    obtain ⟨hb, hs⟩ := List.forall_mem_cons.mp h
    rw [List.cons_append, pieces_byte hb, ih hs]
    rfl

theorem decode_bytes (s : List UInt8) : decode (s.map .byte) = s := by
  induction s with
  | nil => rfl
  | cons b s ih => rw [List.map_cons, decode, ih]

theorem isUtf8_of_ascii (h : ∀ b ∈ s, b ≤ 0x7f) : isUtf8 s = true := by
  induction s with
  | nil => rfl
  | cons b s ih =>
    obtain ⟨hb, hs⟩ := List.forall_mem_cons.mp h
    rw [isUtf8.eq_def]
    simp only [if_pos hb]
    exact ih hs

/-- ASCII that is no quote, no backslash and no control character. -/
def isAscii (b : UInt8) : Bool := b ≤ 0x7f && b != 0x22 && b != 0x5c && 0x20 ≤ b

theorem verbatim_of_ascii (h : s.all isAscii = true) : Verbatim s := by
  have hbyte : ∀ b ∈ s, b ≤ 0x7f ∧ b ≠ 0x22 ∧ b ≠ 0x5c ∧ 0x20 ≤ b := by
    intro b hb
    have hascii := List.all_eq_true.mp h b hb
    simp only [isAscii, Bool.and_eq_true, decide_eq_true_eq, bne_iff_ne] at hascii
    exact ⟨hascii.1.1.1, hascii.1.1.2, hascii.1.2, hascii.2⟩
  exact ⟨fun b hb => (hbyte b hb).2, isUtf8_of_ascii fun b hb => (hbyte b hb).1⟩

/-- **A string that needs no escapes is read back.** -/
theorem string_append (h : Verbatim s) (t : List UInt8) :
    string (s ++ 0x22 :: t) = some (s, t) := by
  rw [string, pieces_of_plain h.1, Option.bind_some]
  dsimp only
  rw [decode_bytes, if_pos h.2]

/-! ### Numbers -/

/-- A decimal digit. -/
def isDigit (b : UInt8) : Bool := 0x30 ≤ b && b ≤ 0x39

/-- The number that digits make. -/
def digitsValue (ds : List UInt8) : ℕ := ds.foldl (fun n b => n * 10 + (b.toNat - 0x30)) 0

/-- The fraction of a number: its digits. -/
def fraction : Scan (List UInt8) := fun s =>
  if s.head? = some 0x2e then
    if s.tail.takeWhile isDigit = [] then none
    else some (s.tail.takeWhile isDigit, s.tail.dropWhile isDigit)
  else some ([], s)

/-- The exponent of a number. -/
def exponent : Scan ℤ := fun s =>
  if s.head? = some 0x65 ∨ s.head? = some 0x45 then
    let sign := s.tail.head?
    let s := if sign = some 0x2b ∨ sign = some 0x2d then s.tail.tail else s.tail
    if s.takeWhile isDigit = [] then none
    else
      let n : ℤ := digitsValue (s.takeWhile isDigit)
      some (if sign = some 0x2d then -n else n, s.dropWhile isDigit)
  else some (0, s)

/-- A number without its sign: mantissa and exponent. The integer part has no leading zeros. -/
def unsigned : Scan (ℕ × ℤ) := fun s =>
  let ds := s.takeWhile isDigit
  if ds = [] ∨ (ds.head? = some 0x30 ∧ ds.length ≠ 1) then none
  else
    (fraction (s.dropWhile isDigit)).bind fun f =>
      (exponent f.2).map fun e => ((digitsValue (ds ++ f.1), e.1 - f.1.length), e.2)

/-- **A number**, as mantissa and exponent of a power of ten. -/
def number : Scan (ℤ × ℤ) := fun s =>
  if s.head? = some 0x2d then (unsigned s.tail).map fun r => ((-r.1.1, r.1.2), r.2)
  else (unsigned s).map fun r => ((r.1.1, r.1.2), r.2)

/-- The digits of a natural number. -/
def decimal (n : ℕ) : List UInt8 :=
  if n = 0 then [0x30] else (Nat.digits 10 n).reverse.map fun d => UInt8.ofNat (0x30 + d)

/-- An integer, as it is printed. -/
def decimalInt (z : ℤ) : List UInt8 := if z < 0 then 0x2d :: decimal z.natAbs else decimal z.natAbs

/-- The rest of the text does not go on with the number before it. -/
def EndsNumber (s : List UInt8) : Prop :=
  ∀ b t, s = b :: t → isDigit b = false ∧ b ≠ 0x2e ∧ b ≠ 0x65 ∧ b ≠ 0x45

theorem endsNumber_nil : EndsNumber [] := nofun

theorem endsNumber_cons {b : UInt8}
    (h : isDigit b = false ∧ b ≠ 0x2e ∧ b ≠ 0x65 ∧ b ≠ 0x45) (s : List UInt8) :
    EndsNumber (b :: s) := by
  rintro b' t ⟨⟩
  exact h

theorem toNat_digit {d : ℕ} (h : d < 10) : (UInt8.ofNat (0x30 + d)).toNat = 0x30 + d := by
  rw [UInt8.toNat_ofNat']
  exact Nat.mod_eq_of_lt (by omega)

theorem isDigit_digit {d : ℕ} (h : d < 10) : isDigit (UInt8.ofNat (0x30 + d)) = true := by
  have hd := toNat_digit h
  simp only [isDigit, Bool.and_eq_true, decide_eq_true_eq, UInt8.le_iff_toNat_le, hd]
  exact ⟨Nat.le_add_right _ _, by show 48 + d ≤ 57; omega⟩

theorem isDigit_of_mem_decimal {n : ℕ} {b : UInt8} (h : b ∈ decimal n) : isDigit b = true := by
  rw [decimal] at h
  split at h
  · rw [List.mem_singleton.mp h]
    decide
  · obtain ⟨d, hd, rfl⟩ := List.mem_map.mp h
    exact isDigit_digit (Nat.digits_lt_base (by norm_num) (List.mem_reverse.mp hd))

/-- The digits of a number make the number. -/
theorem digitsValue_decimal (n : ℕ) : digitsValue (decimal n) = n := by
  rw [decimal]
  split
  · next h =>
    rw [h]
    rfl
  · have hfold : ∀ (l : List ℕ), (∀ d ∈ l, d < 10) →
        digitsValue (l.reverse.map fun d => UInt8.ofNat (0x30 + d)) = Nat.ofDigits 10 l := by
      intro l hl
      induction l with
      | nil => rfl
      | cons d l ih =>
        obtain ⟨hd, hl⟩ := List.forall_mem_cons.mp hl
        have ih := ih hl
        rw [digitsValue] at ih ⊢
        rw [List.reverse_cons, List.map_append, List.foldl_append, ih, Nat.ofDigits_cons]
        simp only [List.map_cons, List.map_nil, List.foldl_cons, List.foldl_nil, toNat_digit hd]
        omega
    rw [hfold _ fun d hd => Nat.digits_lt_base (by norm_num) hd, Nat.ofDigits_digits]

/-- A number has digits, and no leading zeros. -/
theorem decimal_leading (n : ℕ) :
    ¬ (decimal n = [] ∨ ((decimal n).head? = some 0x30 ∧ (decimal n).length ≠ 1)) := by
  rw [decimal]
  split
  · simp
  · next hn =>
    have hne : Nat.digits 10 n ≠ [] := Nat.digits_ne_nil_iff_ne_zero.mpr hn
    have hlast := Nat.getLast_digit_ne_zero 10 hn
    have hlt : (Nat.digits 10 n).getLast hne < 10 :=
      Nat.digits_lt_base (by norm_num) (List.getLast_mem hne)
    rintro (hnil | ⟨hzero, -⟩)
    · simp [hne] at hnil
    · rw [List.head?_map, List.head?_reverse, List.getLast?_eq_some_getLast hne, Option.map_some,
        Option.some.injEq] at hzero
      have htoNat := congrArg UInt8.toNat hzero
      rw [toNat_digit hlt] at htoNat
      have h48 : (0x30 : UInt8).toNat = 0x30 := rfl
      omega

theorem takeWhile_decimal (n : ℕ) {rest : List UInt8} (h : EndsNumber rest) :
    (decimal n ++ rest).takeWhile isDigit = decimal n ∧
      (decimal n ++ rest).dropWhile isDigit = rest := by
  have hall : ∀ b ∈ decimal n, isDigit b = true := fun b hb => isDigit_of_mem_decimal hb
  rw [List.takeWhile_append_of_pos hall, List.dropWhile_append_of_pos hall]
  rcases rest with _ | ⟨b, t⟩
  · simp
  · have hb := (h b t rfl).1
    simp [hb]

theorem unsigned_decimal (n : ℕ) {rest : List UInt8} (h : EndsNumber rest) :
    unsigned (decimal n ++ rest) = some ((n, 0), rest) := by
  obtain ⟨htake, hdrop⟩ := takeWhile_decimal n h
  have hfraction : fraction rest = some ([], rest) := by
    rw [fraction, if_neg]
    intro hhead
    obtain ⟨t, rfl⟩ := List.head?_eq_some_iff.mp hhead
    exact (h _ t rfl).2.1 rfl
  have hexponent : exponent rest = some (0, rest) := by
    rw [exponent, if_neg]
    rintro (hhead | hhead)
    · obtain ⟨t, rfl⟩ := List.head?_eq_some_iff.mp hhead
      exact (h _ t rfl).2.2.1 rfl
    · obtain ⟨t, rfl⟩ := List.head?_eq_some_iff.mp hhead
      exact (h _ t rfl).2.2.2 rfl
  simp only [unsigned, htake, hdrop]
  rw [if_neg (decimal_leading n), hfraction, Option.bind_some, hexponent, Option.map_some,
    List.append_nil, digitsValue_decimal]
  rfl

/-- The first character of a number. -/
theorem exists_decimal_eq_cons (n : ℕ) : ∃ b t, decimal n = b :: t ∧ isDigit b = true := by
  rcases hn : decimal n with _ | ⟨b, t⟩
  · exact absurd (.inl hn) (decimal_leading n)
  · exact ⟨b, t, rfl, isDigit_of_mem_decimal (hn ▸ List.mem_cons_self)⟩

/-- **A printed integer is read back.** -/
theorem number_decimalInt (z : ℤ) {rest : List UInt8} (h : EndsNumber rest) :
    number (decimalInt z ++ rest) = some ((z, 0), rest) := by
  rw [decimalInt]
  split
  · next hz =>
    rw [number, List.cons_append, if_pos List.head?_cons, List.tail_cons, unsigned_decimal _ h,
      Option.map_some, show -(z.natAbs : ℤ) = z by omega]
  · next hz =>
    obtain ⟨b, t, hb, hdigit⟩ := exists_decimal_eq_cons z.natAbs
    have hminus : ¬ (decimal z.natAbs ++ rest).head? = some 0x2d := by
      rw [hb, List.cons_append, List.head?_cons, Option.some.injEq]
      rintro rfl
      cases hdigit
    rw [number, if_neg hminus, unsigned_decimal _ h, Option.map_some,
      show ((z.natAbs : ℕ) : ℤ) = z by omega]

end HawkTracer.Json
