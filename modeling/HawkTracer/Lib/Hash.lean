import HawkTracer.Lib.Klass

/-!
# The hash of a name

`djb2_hash`, by which listener containers and cached labels are identified. It folds the
characters of the string into 32 bits. A character is converted to `unsigned int` from plain
`char`, so one of its upper half becomes a number near the largest one where `char` is
signed; which of the two it is belongs to the platform.
-/

namespace HawkTracer.Lib

/-- `(unsigned int)c` of a `char`. -/
def charToUInt (charSigned : Bool) (c : UInt8) : UInt32 :=
  if charSigned ∧ 128 ≤ c.toNat then UInt32.ofNat (c.toNat + (2 ^ 32 - 2 ^ 8))
  else UInt32.ofNat c.toNat

/-- `djb2_hash`. -/
def djb2Hash (charSigned : Bool) (str : CString) : UInt32 :=
  str.bytes.foldl (fun hash c => ((hash <<< 5) + hash) + charToUInt charSigned c) 5381

-- two characters are enough for a collision
example (charSigned : Bool) :
    djb2Hash charSigned (cstr "aB") = djb2Hash charSigned (cstr "b!") := by
  cases charSigned <;> decide

end HawkTracer.Lib
