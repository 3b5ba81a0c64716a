/-!
# Blank and control characters

`isBlank` is the Unicode property White_Space and `isControl` the general category
Cc. A text is blank when it holds white space only, the empty text included.
-/

namespace HostBridge.Text

/-- The Unicode property White_Space. -/
def isBlank (c : Char) : Bool :=
  let n := c.toNat
  (0x09 ≤ n && n ≤ 0x0D) || n == 0x20 || n == 0x85 || n == 0xA0 || n == 0x1680 ||
    (0x2000 ≤ n && n ≤ 0x200A) || n == 0x2028 || n == 0x2029 || n == 0x202F ||
    n == 0x205F || n == 0x3000

/-- The Unicode category Cc: the two control ranges and DEL. -/
def isControl (c : Char) : Bool :=
  c.toNat < 0x20 || (0x7F ≤ c.toNat && c.toNat < 0xA0)

/-- The text holds nothing but white space. -/
def allBlank (s : String) : Bool :=
  s.toList.all isBlank

end HostBridge.Text
