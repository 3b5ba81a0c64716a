import HostBridge.Binary64.Basic
import HostBridge.Decimal.Shortest

/-!
# Numbers as text

A finite number is written with the fewest decimal digits that round back to it. Its
text always shows that it is no integer: by a point or by an exponent.
-/

namespace HostBridge.Binary64

/-- Numbers from `1e-4` up to but not including `1e16` are written without exponent. -/
def layout : Decimal.Layout where
  leastPoint := -3
  greatestPoint := 16

/-- The magnitude of a finite number. -/
def magnitudeText (x : Binary64) : List Char :=
  if x.isZero then ['0', '.', '0']
  else (Decimal.Interval.around x.significand x.scale x.isNarrowBelow).shortest.render layout

/-- The text of any number. A NaN has neither sign nor payload in it. -/
def toText (x : Binary64) : String :=
  if x.isNaN then "NaN"
  else
    let magnitude := if x.isInfinite then ['i', 'n', 'f'] else x.magnitudeText
    String.ofList (if x.isNegative then '-' :: magnitude else magnitude)

end HostBridge.Binary64
