import HostBridge.Binary64.Basic

/-!
# The number nearest to a decimal

`ofDecimal` rounds `m · 10^e` to the nearest binary64 number, a tie to the one with the even
significand. The rounding is exact, on natural numbers: the decimal is a quotient, and its
binary exponent says which multiple of a power of two is to be rounded to an integer.
`nat?` goes the other way, to the natural number that a number equals.
-/

namespace HostBridge.Binary64

def nan : Binary64 := ⟨0x7FF8000000000000⟩

/-- The bits of infinity, which come right behind those of the greatest finite number. -/
def infinityBits : Nat := 0x7FF0000000000000

/-- The number with the sign and with the other bits. -/
def ofParts (negative : Bool) (magnitude : Nat) : Binary64 :=
  ⟨UInt64.ofNat ((if negative then signPlace else 0) + magnitude)⟩

def infinity (negative : Bool) : Binary64 :=
  ofParts negative infinityBits

/-- A quotient rounded to the nearest integer, a half to the even one. -/
def roundQuotient (num den : Nat) : Nat :=
  let below := num / den
  let rest := num % den
  if 2 * rest < den ∨ (2 * rest = den ∧ below % 2 = 0) then below else below + 1

/-- The greatest power of two that is no more than a positive quotient. -/
def floorLog (num den : Nat) : Int :=
  let guess := Int.ofNat (Nat.log2 num) - Int.ofNat (Nat.log2 den)
  if num * Nat.pow 2 (-guess).toNat < den * Nat.pow 2 guess.toNat then guess - 1 else guess

/-- The bits of the number nearest to a positive quotient. A significand that rounds up to
`2^53` carries over into the exponent field, as it should. -/
def bitsOfQuotient (num den : Nat) : Nat :=
  let scale := max (floorLog num den - 52) (-1074)
  let n := roundQuotient (num * Nat.pow 2 (-scale).toNat) (den * Nat.pow 2 scale.toNat)
  min infinityBits ((scale + 1074).toNat * fractionCount + n)

/-- The number nearest to `m · 10^e`. Decimals of more than 400 places before the point are
beyond the greatest number, those with as many zeros behind it beneath the least. -/
def ofDecimal (negative : Bool) (m : Nat) (e : Int) : Binary64 :=
  let places := (Nat.toDigits 10 m).length + e
  if m = 0 ∨ places < -400 then ofParts negative 0
  else if 400 < places then infinity negative
  else ofParts negative (bitsOfQuotient (m * Nat.pow 10 e.toNat) (Nat.pow 10 (-e).toNat))

/-- The natural number equal to the number, if there is one. -/
def nat? (x : Binary64) : Option Nat :=
  if x.isZero then some 0
  else if x.isNaN || x.isInfinite || x.isNegative then none
  else
    let unit := Nat.pow 2 (-x.scale).toNat
    let n := x.significand * Nat.pow 2 x.scale.toNat
    if n % unit = 0 then some (n / unit) else none

end HostBridge.Binary64
