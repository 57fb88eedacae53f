/-!
# Sets of code points as ranges

A property of characters is given as a list of closed intervals of code points, in increasing
order. Membership stops at the first interval that starts above the code point.
-/

namespace MiniPascal.Text

/-- A set of code points, as closed intervals in increasing order. -/
abbrev Ranges := List (Nat × Nat)

/-- Whether a code point lies in one of the intervals. -/
def Ranges.contains : Ranges → Nat → Bool
  | [], _ => false
  | (lo, hi) :: rest, c => if c < lo then false else c ≤ hi || Ranges.contains rest c

end MiniPascal.Text
