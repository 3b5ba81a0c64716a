import HostBridge.Binary64.Nearest

/-!
# Numbers and 64-bit integers

Between the numbers and the 64-bit integers there is a conversion each way, and neither fails:
`ofInt64` rounds to the nearest number, `toInt64` drops the fraction and stays within the range.
`ofInt?` goes to a number only where that loses nothing, and finds out by going there and back.
-/

namespace HostBridge.Binary64

/-- The number nearest to an integer, of two equally near the one with the even significand. -/
def ofInt64 (n : Int64) : Binary64 :=
  if n = 0 then zero else ofParts (n.toInt < 0) (bitsOfQuotient n.toInt.natAbs 1)

/-- A finite number without its fraction. -/
def truncated (x : Binary64) : Int :=
  let size : Nat := x.significand * Nat.pow 2 x.scale.toNat / Nat.pow 2 (-x.scale).toNat
  if x.isNegative then -size else size

/-- A number without its fraction, or the integer nearest to that where it is beyond the range. A
NaN becomes zero. An infinity has the bits of `2^1024`, which is beyond the range like itself. -/
def toInt64 (x : Binary64) : Int64 :=
  if x.isNaN then 0 else .ofIntClamp x.truncated

/-- The place of a number in the order of all but NaNs. Both zeros have the same. -/
def rank (x : Binary64) : Int :=
  let magnitude : Nat := x.bits.toNat % signPlace
  if x.isNegative then -magnitude else magnitude

/-- The comparison of numbers. A NaN is neither less nor greater than anything. -/
def isLess (x y : Binary64) : Bool :=
  !x.isNaN && !y.isNaN && x.rank < y.rank

/-- `2^63`, the first number that is beyond the range of the integers. -/
def integerLimit : Binary64 := ⟨0x43E0000000000000⟩

/-- The number equal to an integer, if there is one. The limit itself would come back as the greatest
integer, which is rounded to it, so it does not count. -/
def ofInt? (n : Int64) : Option Binary64 :=
  let x := ofInt64 n
  if x.isLess integerLimit && x.toInt64 == n then some x else none

end HostBridge.Binary64
