-- Items of lists by index. Indices count from zero; a negative one or one past
-- the last item is a fault.
import Scriptlet.Fault
import Scriptlet.Value.Display

namespace Scriptlet

namespace Heap

/-- The position in the list `r` that an index stands for. -/
def position (h : Heap) (r : ListRef) (index : Int64) : Except Fault Nat :=
  let i := index.toInt
  if 0 ≤ i ∧ i < h.length r then .ok i.toNat
  else .error (.ofCause (.indexOutOfBounds index (h.length r)))

/-- The item of `r` at an index. -/
def item (h : Heap) (r : ListRef) (index : Int64) : Except Fault Value :=
  (h.position r index).map fun i => (h.get? r i).getD (.int 0)

/-- The fault of a value that is not of the kind `expected`. -/
def mismatch (h : Heap) (expected : Kind) (v : Value) : Fault :=
  .ofCause (.typeMismatch expected.name (h.describe v))

end Heap

end Scriptlet
