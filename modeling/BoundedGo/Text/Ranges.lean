/-!
Sets of code points kept as closed ranges in increasing order. The lookup stops at the first
range that lies beyond the code point, so that common characters are found early.
-/
namespace BoundedGo.Text

/-- Closed ranges of code points, in increasing order and apart from each other. -/
abbrev Ranges := List (Nat × Nat)

namespace Ranges

def covers : Ranges → Nat → Bool
  | [], _ => false
  | (lo, hi) :: rest, n => if n < lo then false else if n ≤ hi then true else covers rest n

end Ranges

end BoundedGo.Text
