/-!
# The shortest decimal inside an interval

A positive binary number `m · 2^q` stands for the reals that round to it: from half a
unit below to half a unit above, or from a quarter below where the binary grid is
finer underneath. `shortest` finds the coarsest decimal grid `10^e` with a point in
that interval and takes the point nearest to the number. All arithmetic is exact, on
natural numbers: quarters of the unit `2^q` are compared with multiples of `10^e` after
both sides are cleared of negative exponents.
-/

namespace HostBridge.Decimal

/-- The decimal number `digits · 10^exponent`. -/
structure Scaled where
  digits : Nat
  exponent : Int
  deriving DecidableEq, Repr

/-- A positive binary number with the interval of reals that round to it, in quarters of
`2^scale`. The ends belong to the interval when `closed` holds. -/
structure Interval where
  low : Nat
  centre : Nat
  high : Nat
  scale : Int
  closed : Bool
  deriving DecidableEq, Repr

/-- What rounds to `m · 2^q`. The ends round to the even neighbour, so they belong to an
even `m`; below a power of two the grid is twice as fine (`narrow`). -/
def Interval.around (m : Nat) (q : Int) (narrow : Bool) : Interval where
  low := 4 * m - if narrow then 1 else 2
  centre := 4 * m
  high := 4 * m + 2
  scale := q - 2
  closed := m % 2 == 0

namespace Interval

/-- The factor that clears the denominators on the binary side of a comparison with
multiples of `10^e`. -/
def binaryFactor (i : Interval) (e : Int) : Nat :=
  Nat.pow 2 i.scale.toNat * Nat.pow 10 (-e).toNat

/-- The factor that clears the denominators on the decimal side. -/
def decimalFactor (i : Interval) (e : Int) : Nat :=
  Nat.pow 10 e.toNat * Nat.pow 2 (-i.scale).toNat

/-- The decimal number `d · 10^e` lies in the interval. -/
def holds (i : Interval) (e : Int) (d : Nat) : Bool :=
  let x := d * i.decimalFactor e
  let low := i.low * i.binaryFactor e
  let high := i.high * i.binaryFactor e
  if i.closed then low ≤ x && x ≤ high else low < x && x < high

/-- The multiple of `10^e` in the interval that is nearest to the centre, if there is one.
Of two equally near the greater is taken. Only the two neighbours of the centre on the
grid can be nearest. -/
def nearestOn (i : Interval) (e : Int) : Option Nat :=
  let unit := i.decimalFactor e
  let centre := i.centre * i.binaryFactor e
  let below := centre / unit
  let above := below + 1
  match i.holds e below, i.holds e above with
  | true, true => some (if 2 * (centre % unit) < unit then below else above)
  | true, false => some below
  | false, true => some above
  | false, false => none

/-- An exponent whose power of ten is above the interval, so that the search may start
there: `2^n` is at most `10^(n/3 + 1)` and `2^(-n)` at most `10^(-(n/4))`. -/
def startExponent (i : Interval) : Int :=
  let n := Int.ofNat (Nat.log2 i.high) + 1 + i.scale
  if 0 ≤ n then n / 3 + 1 else -(-n / 4)

/-- The nearest point of the coarsest decimal grid that has a point in the interval. The
search ends at the latest on the grid of `10^scale`, which contains the centre. -/
def shortest (i : Interval) : Scaled :=
  let start := i.startExponent
  let grids := (start - min i.scale 0).toNat + 1
  let found := (List.range grids).findSome? fun (k : Nat) =>
    (i.nearestOn (start - k)).map fun d => (⟨d, start - k⟩ : Scaled)
  found.getD ⟨0, 0⟩

end Interval

/-- How a decimal number is laid out. The point stands `p` places after the first digit's
left edge; it is written out while `leastPoint ≤ p ≤ greatestPoint`, with at least one
digit on each side, and outside that range the power of ten follows an `e`. -/
structure Layout where
  leastPoint : Int
  greatestPoint : Int

/-- The digits of a decimal number under a layout. -/
def Scaled.render (x : Scaled) (layout : Layout) : List Char :=
  let digits := Nat.toDigits 10 x.digits
  let point := digits.length + x.exponent
  if layout.leastPoint ≤ point ∧ point ≤ layout.greatestPoint then
    if point ≤ 0 then
      ['0', '.'] ++ List.replicate (-point).toNat '0' ++ digits
    else if digits.length ≤ point then
      digits ++ List.replicate (point - digits.length).toNat '0' ++ ['.', '0']
    else
      digits.take point.toNat ++ ['.'] ++ digits.drop point.toNat
  else
    let mantissa :=
      match digits with
      | first :: second :: rest => first :: '.' :: second :: rest
      | short => short
    mantissa ++ ['e'] ++ (toString (point - 1)).toList

end HostBridge.Decimal
