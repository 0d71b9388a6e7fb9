import Mathlib.Algebra.Ring.Int.Defs
import Mathlib.Tactic.Common

/-!
# Points in time

`std::time::SystemTime`, as nanoseconds from the Unix epoch. The seconds are a signed number of
64 bits; adding a duration stops the program where they do not suffice.
-/

namespace Aioduct

abbrev SystemTime := Int

namespace SystemTime

def unixEpoch : SystemTime := 0

def latest : SystemTime := 2 ^ 63 * 10 ^ 9 - 1

/-- `SystemTime + Duration::from_secs(secs)`. -/
def addSecs (time : SystemTime) (secs : Nat) : Option SystemTime :=
  if time + secs * 10 ^ 9 ≤ latest then some (time + secs * 10 ^ 9) else none

end SystemTime

/-- `std::time::Instant`, which has the same range from a zero of its own. -/
abbrev Instant := SystemTime

end Aioduct
