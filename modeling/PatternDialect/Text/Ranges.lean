import PatternDialect.Text.Basic

/-! Sets of characters, given as ranges of code points.

The tables of the library are those of Unicode 17. -/

namespace PatternDialect

/-- Closed ranges of code points, ascending and apart. -/
abbrev Ranges := List (Nat × Nat)

namespace Ranges

/-- Whether a code point lies in one of the ranges.  Those beyond it are not looked at. -/
def covers : Ranges → Nat → Bool
  | [], _ => false
  | (first, last) :: rest, code => first ≤ code && (code ≤ last || covers rest code)

def contains (ranges : Ranges) (c : Char) : Bool := ranges.covers c.toNat

end Ranges

end PatternDialect
