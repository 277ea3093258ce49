-- Sets of characters. A set is kept as the sorted list of the code points at
-- which the answer changes: it is no before the first and yes from there to
-- the second.
import Scriptlet.Rank

namespace Scriptlet.Text

/-- Whether a code point lies in one of the stretches that sorted borders mark
off: an odd number of them has been passed. -/
def between (borders : Array Nat) (c : Char) : Bool := rank borders c.toNat % 2 == 1

end Scriptlet.Text
