/-
Sets of code points given by tables of ranges.
-/
import BrailleTable.Text

namespace BrailleTable

/-- Closed ranges of code point numbers, ascending and apart.  Because they ascend, a look-up stops at
the first range that begins above the number sought. -/
abbrev RangeTable := List (Nat × Nat)

namespace RangeTable

def contains : RangeTable → Nat → Bool
  | [], _ => false
  | (lo, hi) :: rest, n => if n < lo then false else n ≤ hi || contains rest n

end RangeTable
end BrailleTable
