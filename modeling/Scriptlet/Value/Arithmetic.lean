-- Order and arithmetic of values. Integers have 64 bits, and a result outside
-- of them is a fault. Adding a string to an integer or a string joins texts.
import Scriptlet.Fault
import Scriptlet.Integer
import Scriptlet.Value.Display

namespace Scriptlet

/-- The order of two values of one kind. Lists have none. -/
def Value.compare? : Value → Value → Option Ordering
  | .int m, .int n => some (compare m.toInt n.toInt)
  | .str s, .str t => some (compare s t)
  | .bool b, .bool c => some (compare b c)
  | _, _ => none

namespace Heap

/-- The fault of an operator that does not join these two values. -/
def unsupported (h : Heap) (operator : String) (v w : Value) : Fault :=
  .ofCause (.unsupportedOperation operator (h.describe v) (h.describe w))

/-- The integer that the exact result `r` of an operator is, or an overflow. -/
def checked (operator : String) (m n : Int64) (r : Int) : Except Fault Value :=
  match integer? r with
  | some k => .ok (.int k)
  | none => .error (.ofCause (.integerOverflow operator m n))

/-- A sum, or a text in which integers are written in decimal. -/
def add (h : Heap) (v w : Value) : Except Fault Value :=
  match v, w with
  | .int m, .int n => checked "+" m n (m.toInt + n.toInt)
  | .int m, .str t => .ok (.str (toString m.toInt ++ t))
  | .str s, .int n => .ok (.str (s ++ toString n.toInt))
  | .str s, .str t => .ok (.str (s ++ t))
  | v, w => .error (h.unsupported "+" v w)

def subtract (h : Heap) (v w : Value) : Except Fault Value :=
  match v, w with
  | .int m, .int n => checked "-" m n (m.toInt - n.toInt)
  | v, w => .error (h.unsupported "-" v w)

def multiply (h : Heap) (v w : Value) : Except Fault Value :=
  match v, w with
  | .int m, .int n => checked "*" m n (m.toInt * n.toInt)
  | v, w => .error (h.unsupported "*" v w)

end Heap

end Scriptlet
