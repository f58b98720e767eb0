import HawkTracer.Base.Loop
import HawkTracer.Parser.Input

/-!
# The block of a string

`ProtocolReader::_read_string` stores a string of unknown length in a block of memory that is
made twice as large whenever it is full. Nothing in the source keeps a byte free for the
terminator; there is one since the block is checked after each byte, and not before.

`HawkTracer.Parser.readString` is about the characters. Here it is the memory that counts: the
block with what has been stored in it, sizes of 64 bits that wrap around, an allocator that may
refuse, and a list of all places that are written. No block has `2 ^ 63` bytes or more, since
the difference of two pointers into it would not be a number. The stream is the sequence of
numbers `read_byte` returns. `HawkTracer.Parser.StringBlock.readString_exact` is what
`_read_string` does with it, and `HawkTracer.Parser.StringBlock.readString_of_exact` says
that its characters are those of `HawkTracer.Parser.readString`.
-/

namespace HawkTracer.Parser

/-- What `_read_string` ends with: a string, the answer `false`, or an exception. -/
inductive StringOutcome where
  | value
  | error
  | badAlloc
  deriving DecidableEq, Repr

/-- **The variables of `_read_string`**, and what it has done so far. -/
structure StringBlock where
  length : UInt64
  pos : UInt64
  /-- The bytes of the block, as far as they have been written. -/
  data : List (Option UInt8)
  /-- The number of calls of `read_byte`. -/
  consumed : ℕ
  /-- The sizes asked for, and whether there was memory. -/
  requests : List (UInt64 × Bool)
  /-- The places written to, and the size of the block at that moment. -/
  writes : List (ℕ × ℕ)

namespace StringBlock

/-- `data[pos] = c`. -/
def store (b : StringBlock) (c : UInt8) : StringBlock :=
  { b with
    data := b.data.set b.pos.toNat (some c)
    writes := b.writes ++ [(b.pos.toNat, b.data.length)] }

/-- `malloc` or `realloc` of `length` bytes, if there is memory. -/
def realloc (b : StringBlock) : StringBlock :=
  { b with
    data := b.data.take b.length.toNat ++
      List.replicate (b.length.toNat - b.data.length) none }

/-- `free`. -/
def free (b : StringBlock) : StringBlock := { b with data := [] }

variable (alloc : ℕ → UInt64 → Bool) (reads : ℕ → ℤ)

/-- A request for `length` bytes, with the answer of the allocator. -/
def request (b : StringBlock) : Bool × StringBlock :=
  let answer := alloc b.requests.length b.length
  (answer, { b with requests := b.requests ++ [(b.length, answer)] })

/-- `data[pos++] = c`. -/
def push (b : StringBlock) (c : UInt8) : StringBlock := { b.store c with pos := b.pos + 1 }

/-- A full block is made twice as large; without memory it is freed. -/
def grow (b : StringBlock) : Bool × StringBlock :=
  if b.pos = b.length then
    let r := { b with length := b.length * 2 }.request alloc
    if r.1 then (true, r.2.realloc) else (false, r.2.free)
  else (true, b)

/-- The loop of `_read_string` and what follows it; nothing if the loop has not ended after so
many tests of its condition. -/
def readFrom : ℕ → StringBlock → Option (StringOutcome × StringBlock)
  | 0, _ => none
  | tests + 1, b =>
    let c := reads b.consumed
    let b := { b with consumed := b.consumed + 1 }
    if c > 0 then
      let r := (b.push (UInt8.ofNat c.toNat)).grow alloc
      if r.1 then readFrom tests r.2 else some (.badAlloc, r.2)
    else if c < 0 then some (.error, b.free)
    else some (.value, b.store 0)

/-- `_read_string`. -/
def readString (tests : ℕ) : Option (StringOutcome × StringBlock) :=
  let r := request alloc ⟨32, 0, [], 0, [], []⟩
  if r.1 then readFrom alloc reads tests r.2.realloc else some (.badAlloc, r.2.free)

/-- The numbers are these bytes. -/
def AreBytes (reads : ℕ → ℤ) (v : List UInt8) : Prop :=
  ∀ i (h : i < v.length), reads i = (v[i].toNat : ℤ)

/-- **The string is read**: before the end there is a zero, and these are the bytes before the
first one. -/
structure IsString (reads : ℕ → ℤ) (v : List UInt8) : Prop where
  bytes : AreBytes reads v
  nonzero : (0 : UInt8) ∉ v
  zero : reads v.length = 0

/-- The first requests, each for twice as many bytes as the one before, with the answers of the
allocator. -/
def doublings (alloc : ℕ → UInt64 → Bool) (n : ℕ) : List (UInt64 × Bool) :=
  (List.range n).map fun k => (.ofNat (32 * 2 ^ k), alloc k (.ofNat (32 * 2 ^ k)))

/-- **What `_read_string` is to do.** -/
structure Exact (alloc : ℕ → UInt64 → Bool) (reads : ℕ → ℤ) (outcome : StringOutcome)
    (b : StringBlock) : Prop where
  /-- It asks for twice as many bytes each time, and the allocator answers. -/
  requests : b.requests = doublings alloc b.requests.length
  /-- It asks for a larger block when as many bytes have been read as the last one has. -/
  filled : ∀ k, k + 1 < b.requests.length → 32 * 2 ^ k ≤ b.consumed
  /-- Every write is inside the block of that moment. -/
  inBounds : ∀ w ∈ b.writes, w.1 < w.2
  /-- There is an exception only if there is no memory. -/
  badAlloc : outcome = .badAlloc ↔ ∃ r ∈ b.requests, r.2 = false
  /-- Otherwise there is a string exactly if a zero comes before the end. -/
  value : outcome ≠ .badAlloc →
    (outcome = .value ↔ ∃ n, reads n = 0 ∧ ∀ i < n, 0 ≤ reads i)
  /-- It is what comes before the first zero, terminated, and one byte more has been read. -/
  content : outcome = .value → ∃ v, IsString reads v ∧
    b.data.take (v.length + 1) = (v ++ [0]).map some ∧ b.consumed = v.length + 1
  /-- Without a string, everything up to the end has been read. -/
  error : outcome = .error → ∃ v, AreBytes reads v ∧ (0 : UInt8) ∉ v ∧ reads v.length < 0 ∧
    b.consumed = v.length + 1
  /-- Without memory, neither a zero nor the end has been read. -/
  refused : outcome = .badAlloc → ∃ v, AreBytes reads v ∧ (0 : UInt8) ∉ v ∧ b.consumed = v.length

/-- **The bytes read so far are at the beginning of the block**, and what has been written was
inside it. -/
structure Filled (alloc : ℕ → UInt64 → Bool) (reads : ℕ → ℤ) (v : List UInt8) (b : StringBlock) :
    Prop where
  bytes : AreBytes reads v
  nonzero : (0 : UInt8) ∉ v
  consumed : b.consumed = v.length
  pos : b.pos.toNat = v.length
  length : b.data.length = b.length.toNat
  le : v.length ≤ b.length.toNat
  small : b.length.toNat < 2 ^ 63
  content : b.data.take v.length = v.map some
  inBounds : ∀ w ∈ b.writes, w.1 < w.2
  granted : ∀ r ∈ b.requests, r.2 = true
  /-- The block has been doubled whenever it was full. -/
  doubled : ∃ n, b.requests = doublings alloc (n + 1) ∧ b.length.toNat = 32 * 2 ^ n ∧
    ∀ k < n, 32 * 2 ^ k ≤ v.length

/-- **What holds when the condition of the loop is tested**: the next byte has room. -/
structure Holds (alloc : ℕ → UInt64 → Bool) (reads : ℕ → ℤ) (v : List UInt8) (b : StringBlock) :
    Prop extends Filled alloc reads v b where
  room : v.length < b.length.toNat

variable {alloc reads} {v : List UInt8} {b : StringBlock} {c : UInt8}

theorem length_doublings (n : ℕ) : (doublings alloc n).length = n := by
  rw [doublings, List.length_map, List.length_range]

theorem doublings_succ (n : ℕ) : doublings alloc (n + 1) =
    doublings alloc n ++ [(.ofNat (32 * 2 ^ n), alloc n (.ofNat (32 * 2 ^ n)))] := by
  rw [doublings, List.range_succ, List.map_append]
  rfl

theorem AreBytes.concat (h : AreBytes reads v) (hc : reads v.length = (c.toNat : ℤ)) :
    AreBytes reads (v ++ [c]) := by
  intro i hi
  rcases Nat.lt_or_ge i v.length with hlt | hge
  · rw [List.getElem_append_left hlt]
    exact h i hlt
  · obtain rfl : i = v.length := by
      rw [List.length_append, List.length_singleton] at hi
      omega
    rw [List.getElem_concat_length rfl]
    exact hc

/-- **The terminator**, or any other byte, is written inside the block, behind what has been
read. -/
theorem Holds.store (h : Holds alloc reads v b) (c : UInt8) :
    (b.store c).data.length = b.data.length ∧
      (b.store c).data.take (v.length + 1) = (v ++ [c]).map some ∧
      ∀ w ∈ (b.store c).writes, w.1 < w.2 := by
  have hlt : v.length < b.data.length := h.length.symm ▸ h.room
  refine ⟨List.length_set .., ?_, ?_⟩
  · have hlen : (v.map some).length = v.length := List.length_map ..
    rw [StringBlock.store, h.pos, List.take_set, List.take_add_one, h.content,
      List.getElem?_eq_getElem hlt, List.set_append_right _ _ hlen.le, hlen, Nat.sub_self,
      List.map_append]
    rfl
  · intro w hw
    rcases List.mem_append.mp hw with hw | hw
    · exact h.inBounds w hw
    · obtain rfl := List.mem_singleton.mp hw
      exact h.pos.symm ▸ hlt

/-! ### One round -/

/-- The state when the condition is tested for the first time. -/
theorem holds_start (halloc : alloc 0 32 = true) :
    Holds alloc reads [] (request alloc ⟨32, 0, [], 0, [], []⟩).2.realloc where
  bytes := fun _ h => absurd h (Nat.not_lt_zero _)
  nonzero := List.not_mem_nil
  consumed := rfl
  pos := rfl
  length := rfl
  le := Nat.zero_le _
  small := show 32 < 2 ^ 63 by decide
  content := rfl
  inBounds := fun _ h => absurd h List.not_mem_nil
  granted := by
    intro r hr
    obtain rfl := List.mem_singleton.mp hr
    exact halloc
  doubled := ⟨0, rfl, rfl, fun _ hk => absurd hk (Nat.not_lt_zero _)⟩
  room := show 0 < 32 by decide

/-- **A byte is stored**, which may have filled the block. -/
theorem Holds.push (h : Holds alloc reads v b) (hc : reads v.length = (c.toNat : ℤ)) (hne : c ≠ 0) :
    Filled alloc reads (v ++ [c]) ({ b with consumed := b.consumed + 1 }.push c) := by
  obtain ⟨hlen, hcontent, hwrites⟩ := h.store c
  have hroom := h.room
  have hsmall := h.small
  have hv : (v ++ [c]).length = v.length + 1 := by rw [List.length_append, List.length_singleton]
  refine ⟨h.bytes.concat hc, ?_, ?_, ?_, hlen.trans h.length, ?_, h.small, ?_, hwrites, h.granted,
    ?_⟩
  · rw [List.mem_append, List.mem_singleton, not_or]
    exact ⟨h.nonzero, Ne.symm hne⟩
  · rw [hv, ← h.consumed]
    rfl
  · change (b.pos + 1).toNat = _
    rw [UInt64.toNat_add, h.pos, hv, UInt64.toNat_one, Nat.mod_eq_of_lt (by omega)]
  · rw [hv]
    exact hroom
  · rw [hv]
    exact hcontent
  · obtain ⟨n, hrequests, hlength, hfilled⟩ := h.doubled
    exact ⟨n, hrequests, hlength, fun k hk => hv ▸ Nat.le_succ_of_le (hfilled k hk)⟩

section

variable (h : Filled alloc reads v b)

include h

/-- A full block is to be doubled: the next request. -/
theorem Filled.request_eq (hfull : v.length = b.length.toNat)
    (hdouble : (b.length * 2).toNat = b.length.toNat * 2) :
    ∃ n, ({ b with length := b.length * 2 }.request alloc).2.requests = doublings alloc (n + 1) ∧
      (b.length * 2).toNat = 32 * 2 ^ n ∧ ∀ k < n, 32 * 2 ^ k ≤ v.length := by
  obtain ⟨n, hrequests, hlength, hfilled⟩ := h.doubled
  have hnext : (b.length * 2).toNat = 32 * 2 ^ (n + 1) := by
    rw [hdouble, hlength, Nat.pow_succ, Nat.mul_assoc]
  have hofNat : b.length * 2 = .ofNat (32 * 2 ^ (n + 1)) := by
    rw [← hnext, UInt64.ofNat_toNat]
  refine ⟨n + 1, ?_, hnext, fun k hk => ?_⟩
  · have hcount : b.requests.length = n + 1 := by rw [hrequests, length_doublings]
    change b.requests ++ [(b.length * 2, alloc b.requests.length (b.length * 2))] = _
    rw [hcount, hofNat, doublings_succ (n + 1), hrequests]
  · rcases Nat.lt_or_ge k n with hlt | hge
    · exact hfilled k hlt
    · obtain rfl : k = n := Nat.le_antisymm (Nat.le_of_lt_succ hk) hge
      exact (hfull.trans hlength).ge

/-- A block of twice the size has room for the next byte. -/
theorem Filled.realloc (hfull : v.length = b.length.toNat) (hpos : 0 < b.length.toNat)
    (halloc : ∀ k n, alloc k n = true → n.toNat < 2 ^ 63)
    (hgranted : ({ b with length := b.length * 2 }.request alloc).1 = true) :
    Holds alloc reads v ({ b with length := b.length * 2 }.request alloc).2.realloc := by
  have hsmall := h.small
  have hdouble : (b.length * 2).toNat = b.length.toNat * 2 := by
    rw [UInt64.toNat_mul]
    exact Nat.mod_eq_of_lt (show b.length.toNat * 2 < 2 ^ 64 by omega)
  have hlen := h.length
  refine ⟨⟨h.bytes, h.nonzero, h.consumed, h.pos, ?_, ?_, halloc _ _ hgranted, ?_, h.inBounds, ?_,
    h.request_eq hfull hdouble⟩, ?_⟩
  · change (b.data.take (b.length * 2).toNat ++ List.replicate _ none).length = (b.length * 2).toNat
    rw [List.length_append, List.length_take, List.length_replicate]
    change min (b.length * 2).toNat _ + ((b.length * 2).toNat - b.data.length) = _
    omega
  · change _ ≤ (b.length * 2).toNat
    omega
  · change (b.data.take (b.length * 2).toNat ++ _).take v.length = _
    rw [List.take_append_of_le_length (by rw [List.length_take]; omega), List.take_take,
      Nat.min_eq_left (by omega), h.content]
  · intro r hr
    rcases List.mem_append.mp hr with hr | hr
    · exact h.granted r hr
    · obtain rfl := List.mem_singleton.mp hr
      exact hgranted
  · change _ < (b.length * 2).toNat
    omega

theorem Filled.not_refused : ¬ ∃ r ∈ b.requests, r.2 = false := by
  rintro ⟨r, hr, hfalse⟩
  rw [h.granted r hr] at hfalse
  cases hfalse

omit h in
/-- A request is refused. -/
theorem exact_badAlloc {n : ℕ} (hrequests : (b.request alloc).2.requests = doublings alloc (n + 1))
    (hfilled : ∀ k < n, 32 * 2 ^ k ≤ v.length) (hbytes : AreBytes reads v)
    (hnonzero : (0 : UInt8) ∉ v) (hconsumed : b.consumed = v.length)
    (hwrites : ∀ w ∈ b.writes, w.1 < w.2) (hrefused : (b.request alloc).1 = false) :
    Exact alloc reads .badAlloc (b.request alloc).2.free where
  requests := by
    change (b.request alloc).2.requests = doublings alloc (b.request alloc).2.requests.length
    rw [hrequests, length_doublings]
  filled k hk := by
    change k + 1 < (b.request alloc).2.requests.length at hk
    rw [hrequests, length_doublings] at hk
    exact hconsumed ▸ hfilled k (Nat.lt_of_succ_lt_succ hk)
  inBounds := hwrites
  badAlloc := iff_of_true rfl ⟨_, List.mem_append_right _ (List.mem_singleton_self _), hrefused⟩
  value hne := absurd rfl hne
  content := nofun
  error := nofun
  refused _ := ⟨v, hbytes, hnonzero, hconsumed⟩

/-- **After the check there is room for the next byte**, or there is no memory. -/
theorem Filled.grow (hpos : 0 < b.length.toNat)
    (halloc : ∀ k n, alloc k n = true → n.toNat < 2 ^ 63) :
    ((b.grow alloc).1 = true ∧ Holds alloc reads v (b.grow alloc).2) ∨
      ((b.grow alloc).1 = false ∧ Exact alloc reads .badAlloc (b.grow alloc).2) := by
  rw [StringBlock.grow]
  by_cases hfull : b.pos = b.length
  · have hlen : v.length = b.length.toNat := h.pos.symm.trans (congrArg UInt64.toNat hfull)
    rw [if_pos hfull]
    cases hanswer : ({ b with length := b.length * 2 }.request alloc).1 with
    | true =>
      rw [if_pos hanswer]
      exact .inl ⟨rfl, h.realloc hlen hpos halloc hanswer⟩
    | false =>
      rw [if_neg (hanswer ▸ Bool.false_ne_true)]
      have hdouble : (b.length * 2).toNat = b.length.toNat * 2 := by
        have hsmall := h.small
        rw [UInt64.toNat_mul]
        exact Nat.mod_eq_of_lt (show b.length.toNat * 2 < 2 ^ 64 by omega)
      obtain ⟨n, hrequests, -, hfilled⟩ := h.request_eq hlen hdouble
      exact .inr ⟨rfl, exact_badAlloc hrequests hfilled h.bytes h.nonzero h.consumed h.inBounds
        hanswer⟩
  · rw [if_neg hfull]
    refine .inl ⟨rfl, h, lt_of_le_of_ne h.le fun heq => hfull ?_⟩
    exact UInt64.toNat_inj.mp (h.pos.trans heq)

/-! ### The loop -/

theorem Filled.reads_pos {i : ℕ} (hi : i < v.length) : 0 < reads i := by
  have hne : v[i] ≠ 0 := fun h0 => h.nonzero (h0 ▸ List.getElem_mem hi)
  have hpos : 0 < v[i].toNat := Nat.pos_of_ne_zero fun h0 => hne (UInt8.toNat_inj.mp h0)
  rw [h.bytes i hi]
  exact Int.natCast_pos.mpr hpos

/-- The requests of a block that has bytes to read. -/
theorem Filled.requests_eq :
    b.requests = doublings alloc b.requests.length ∧
      ∀ k, k + 1 < b.requests.length → 32 * 2 ^ k ≤ b.consumed + 1 := by
  obtain ⟨n, hrequests, -, hfilled⟩ := h.doubled
  have hcount : b.requests.length = n + 1 := by rw [hrequests, length_doublings]
  refine ⟨by rw [hcount, hrequests], fun k hk => ?_⟩
  rw [h.consumed]
  exact Nat.le_succ_of_le (hfilled k (by omega))

end

/-- The loop ends with a zero, and the string is terminated. -/
theorem Holds.exact_value (h : Holds alloc reads v b) (hzero : reads v.length = 0) :
    Exact alloc reads .value ({ b with consumed := b.consumed + 1 }.store 0) := by
  obtain ⟨-, hcontent, hwrites⟩ := h.store 0
  refine ⟨h.requests_eq.1, h.requests_eq.2, hwrites, iff_of_false nofun h.not_refused,
    fun _ => ?_, fun _ => ?_, nofun, nofun⟩
  · exact iff_of_true rfl ⟨_, hzero, fun i hi => (h.reads_pos hi).le⟩
  · exact ⟨v, ⟨h.bytes, h.nonzero, hzero⟩, hcontent, congrArg (· + 1) h.consumed⟩

/-- The loop ends with a negative number, and no zero came before. -/
theorem Holds.exact_error (h : Holds alloc reads v b) (hneg : reads v.length < 0) :
    Exact alloc reads .error { b with consumed := b.consumed + 1 }.free := by
  refine ⟨h.requests_eq.1, h.requests_eq.2, h.inBounds, iff_of_false nofun h.not_refused,
    fun _ => iff_of_false nofun ?_, nofun,
    fun _ => ⟨v, h.bytes, h.nonzero, hneg, congrArg (· + 1) h.consumed⟩, nofun⟩
  rintro ⟨n, hn, hbefore⟩
  rcases Nat.lt_trichotomy n v.length with hlt | rfl | hgt
  · exact absurd hn (h.reads_pos hlt).ne'
  · omega
  · exact absurd (hbefore _ hgt) (by omega)

/-- A number that is not positive ends the loop. -/
theorem Holds.exists_of_nonpos (h : Holds alloc reads v b) (hend : reads v.length ≤ 0) :
    ∃ outcome b', (∀ tests, readFrom alloc reads (tests + 1) b = some (outcome, b')) ∧
      Exact alloc reads outcome b' := by
  rcases Int.lt_or_eq_of_le hend with hneg | hzero
  · refine ⟨_, _, fun tests => ?_, h.exact_error hneg⟩
    rw [readFrom, h.consumed, if_neg (by omega), if_pos hneg]
  · refine ⟨_, _, fun tests => ?_, h.exact_value hzero⟩
    rw [readFrom, h.consumed, if_neg (by omega), if_neg (by omega)]

/-- A positive number is a byte that is not zero. -/
theorem exists_byte {n : ℤ} (hpos : 0 < n) (hbyte : n ≤ 255) :
    ∃ c : UInt8, UInt8.ofNat n.toNat = c ∧ n = (c.toNat : ℤ) ∧ c ≠ 0 := by
  have hlt : n.toNat < UInt8.size := show n.toNat < 256 by omega
  have hnat : (UInt8.ofNat n.toNat).toNat = n.toNat := UInt8.toNat_ofNat_of_lt hlt
  refine ⟨_, rfl, by omega, fun h0 => ?_⟩
  rw [h0, UInt8.toNat_zero] at hnat
  omega

/-- **A round of the loop**: a byte is stored, and the loop goes on unless there is no memory. -/
theorem Holds.exists_of_pos (halloc : ∀ k n, alloc k n = true → n.toNat < 2 ^ 63)
    (h : Holds alloc reads v b) (hpos : 0 < reads v.length) (hbyte : reads v.length ≤ 255) :
    (∃ b', (∀ tests, readFrom alloc reads (tests + 1) b = some (.badAlloc, b')) ∧
      Exact alloc reads .badAlloc b') ∨
    ∃ c b', (∀ tests, readFrom alloc reads (tests + 1) b = readFrom alloc reads tests b') ∧
      Holds alloc reads (v ++ [c]) b' := by
  obtain ⟨c, hc, hread, hne⟩ := exists_byte hpos hbyte
  have hround : ∀ tests, readFrom alloc reads (tests + 1) b =
      if (({ b with consumed := b.consumed + 1 }.push c).grow alloc).1 then
        readFrom alloc reads tests (({ b with consumed := b.consumed + 1 }.push c).grow alloc).2
      else some (.badAlloc, (({ b with consumed := b.consumed + 1 }.push c).grow alloc).2) := by
    intro tests
    rw [readFrom, h.consumed, if_pos hpos, hc]
  rcases (h.push hread hne).grow (Nat.zero_lt_of_lt h.room) halloc with
    ⟨hanswer, hnext⟩ | ⟨hanswer, hexact⟩
  · exact .inr ⟨c, _, fun tests => by rw [hround, if_pos hanswer], hnext⟩
  · refine .inl ⟨_, fun tests => ?_, hexact⟩
    rw [hround, if_neg (hanswer ▸ Bool.false_ne_true)]

/-- **The loop ends**, at the latest when there is no memory for the next byte. -/
theorem Holds.exists_exact (halloc : ∀ k n, alloc k n = true → n.toNat < 2 ^ 63)
    (hbyte : ∀ i, reads i ≤ 255) {m : ℕ} (h : Holds alloc reads v b) (hm : 2 ^ 63 ≤ v.length + m) :
    ∃ outcome b', (∀ tests > m, readFrom alloc reads tests b = some (outcome, b')) ∧
      Exact alloc reads outcome b' := by
  induction m generalizing v b with
  | zero => exact absurd (h.room.trans h.small) (Nat.not_lt.mpr hm)
  | succ m ih =>
    rcases Int.lt_or_le 0 (reads v.length) with hpos | hnonpos
    · rcases h.exists_of_pos halloc hpos (hbyte _) with ⟨b', hrun, hexact⟩ | ⟨c, b₁, hrun, hnext⟩
      · exact ⟨_, b', forall_gt_of_succ hrun _, hexact⟩
      · have hlen : (v ++ [c]).length + m = v.length + (m + 1) := by
          rw [List.length_append, List.length_singleton]
          omega
        obtain ⟨outcome, b', hrest, hexact⟩ := ih hnext (hlen ▸ hm)
        exact ⟨outcome, b', forall_gt_succ hrun hrest, hexact⟩
    · obtain ⟨outcome, b', hrun, hexact⟩ := h.exists_of_nonpos hnonpos
      exact ⟨outcome, b', forall_gt_of_succ hrun _, hexact⟩

/-- **Strings of every length are read exactly**, and inside the block. -/
theorem readString_exact (halloc : ∀ k n, alloc k n = true → n.toNat < 2 ^ 63)
    (hbyte : ∀ i, reads i ≤ 255) :
    ∃ outcome b, Ends (readString alloc reads) (outcome, b) ∧ Exact alloc reads outcome b := by
  cases hanswer : alloc 0 32 with
  | true =>
    obtain ⟨outcome, b, hrun, hexact⟩ :=
      (holds_start hanswer).exists_exact halloc hbyte (Nat.le_add_left (2 ^ 63) 0)
    refine ⟨outcome, b, ⟨2 ^ 63 + 1, fun tests htests => ?_⟩, hexact⟩
    exact (if_pos hanswer).trans (hrun tests htests)
  | false =>
    have hrefused : ¬ (request alloc ⟨32, 0, [], 0, [], []⟩).1 = true := fun h =>
      Bool.false_ne_true (hanswer.symm.trans h)
    refine ⟨.badAlloc, _, ⟨0, fun tests _ => if_neg hrefused⟩, ?_⟩
    exact exact_badAlloc (n := 0) (v := []) rfl (fun _ hk => absurd hk (Nat.not_lt_zero _))
      (fun _ hi => absurd hi (Nat.not_lt_zero _)) List.not_mem_nil rfl
      (fun _ hw => absurd hw List.not_mem_nil) hanswer

/-- A string of 32 characters, and the end of the stream behind it. -/
def fullBlock (i : ℕ) : ℤ := if i < 32 then 97 else if i = 32 then 0 else -1

set_option maxRecDepth 4000 in
/-- The terminator of a string that fills the first block is in the second one. -/
theorem readString_exact_of_full_block :
    ∃ b, Ends (readString (fun _ n => decide (n.toNat < 2 ^ 63)) fullBlock) (.value, b) ∧
      Exact (fun _ n => decide (n.toNat < 2 ^ 63)) fullBlock .value b ∧
      b.data.take 33 = (List.replicate 32 (97 : UInt8) ++ [0]).map some ∧ b.consumed = 33 := by
  have hbyte : ∀ i, fullBlock i ≤ 255 := fun i => by
    rw [fullBlock]
    split
    · decide
    · split <;> decide
  obtain ⟨outcome, b, ⟨d, hends⟩, hexact⟩ :=
    @readString_exact (fun _ n => decide (n.toNat < 2 ^ 63)) fullBlock
      (fun _ _ h => of_decide_eq_true h) hbyte
  have hrun : readString (fun _ n => decide (n.toNat < 2 ^ 63)) fullBlock (d + 33) = some
      (.value, ⟨64, 32, List.replicate 32 (some 97) ++ some 0 :: List.replicate 31 none, 33,
        [(32, true), (64, true)], (List.range 32).map (·, 32) ++ [(32, 64)]⟩) := rfl
  obtain ⟨rfl, rfl⟩ :=
    Prod.mk.inj (Option.some.inj ((hends _ (Nat.le_add_right d 33)).symm.trans hrun))
  exact ⟨_, ⟨d, hends⟩, hexact, rfl, rfl⟩

/-- **The characters are those of `HawkTracer.Parser.readString`**, on every stream that knows
how many bytes can still be read. -/
theorem readString_of_exact {σ : Type} [Stream σ] {s : σ} {outcome : StringOutcome}
    (h : Exact alloc (bytesRead s) outcome b) (havail : b.consumed ≤ Stream.avail s + 1) :
    (outcome = .value → ∃ v, b.data.take (v.length + 1) = (v ++ [0]).map some ∧
      Parser.readString s = .ok v (afterBytes s b.consumed)) ∧
    (outcome = .error → Parser.readString s = .stop .error (afterBytes s b.consumed)) := by
  have hloop : ∀ v, AreBytes (bytesRead s) v → (0 : UInt8) ∉ v → bytesRead s v.length ≤ 0 →
      b.consumed = v.length + 1 → Parser.readString s =
        if bytesRead s v.length = 0 then .ok v (afterBytes s b.consumed)
        else .stop .error (afterBytes s b.consumed) := by
    intro v hv hz hend hconsumed
    have h := @readStringLoop_of_bytes _ _ s [] v (Stream.avail s + 1) 32 (List.replicate 32 0)
      hv hz hend (by omega) List.length_replicate (by decide) rfl List.not_mem_nil
    rw [← hconsumed] at h
    exact h
  constructor
  · intro hvalue
    obtain ⟨v, hv, hdata, hconsumed⟩ := h.content hvalue
    refine ⟨v, hdata, ?_⟩
    rw [hloop v hv.bytes hv.nonzero hv.zero.le hconsumed, if_pos hv.zero]
  · intro herror
    obtain ⟨v, hv, hz, hneg, hconsumed⟩ := h.error herror
    rw [hloop v hv hz hneg.le hconsumed, if_neg hneg.ne]

end StringBlock

end HawkTracer.Parser
