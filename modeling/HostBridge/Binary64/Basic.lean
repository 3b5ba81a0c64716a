/-!
# Binary floating-point numbers of 64 bits

A `Binary64` is its bit pattern: one sign bit, eleven exponent bits, 52 fraction bits.
A finite number has the exact value `± significand · 2^scale`.
-/

namespace HostBridge

/-- A binary64 number, told apart by its bits: `0.0` and `-0.0` differ, as do NaNs. -/
structure Binary64 where
  bits : UInt64
  deriving DecidableEq, Repr

namespace Binary64

/-- The place value of the sign bit, `2^63`. -/
def signPlace : Nat := 0x8000000000000000

/-- How many fractions there are for one exponent, `2^52`. -/
def fractionCount : Nat := 0x10000000000000

def isNegative (x : Binary64) : Bool :=
  signPlace ≤ x.bits.toNat

def exponentField (x : Binary64) : Nat :=
  x.bits.toNat / fractionCount % 2048

def fraction (x : Binary64) : Nat :=
  x.bits.toNat % fractionCount

def isNaN (x : Binary64) : Bool :=
  x.exponentField == 2047 && x.fraction != 0

def isInfinite (x : Binary64) : Bool :=
  x.exponentField == 2047 && x.fraction == 0

/-- Both zeros. -/
def isZero (x : Binary64) : Bool :=
  x.exponentField == 0 && x.fraction == 0

/-- The integer part of a finite magnitude `significand · 2^scale`. -/
def significand (x : Binary64) : Nat :=
  if x.exponentField = 0 then x.fraction else fractionCount + x.fraction

/-- The power of two of a finite magnitude `significand · 2^scale`. -/
def scale (x : Binary64) : Int :=
  if x.exponentField = 0 then -1074 else Int.ofNat x.exponentField - 1075

/-- The grid of numbers is finer right below a power of two, unless the exponent is the
least one. -/
def isNarrowBelow (x : Binary64) : Bool :=
  x.fraction == 0 && 1 < x.exponentField

/-- Equality of the numbers: the zeros are equal and a NaN equals nothing. -/
def sameNumber (x y : Binary64) : Bool :=
  !x.isNaN && !y.isNaN && (x == y || (x.isZero && y.isZero))

def zero : Binary64 := ⟨0⟩

end Binary64

end HostBridge
