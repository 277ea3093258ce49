-- Operations by the kinds of their operands. A pair of kinds that has no
-- implementation has no result, and what that means is for the caller to say.
import Scriptlet.Value.Arithmetic

namespace Scriptlet

inductive Operation where
  | add | sub | mult | div | equal | greater | less
  deriving DecidableEq

namespace Operation

def symbol : Operation → String
  | add => "+"
  | sub => "-"
  | mult => "*"
  | div => "/"
  | equal => "=="
  | greater => ">"
  | less => "<"

/-- The result of an operation, if the kinds of its operands have one. An
integer and a string are neither equal nor less, which is a fault. One string
is less than another if it comes after it. -/
def apply (h : Heap) (op : Operation) (v w : Value) : Except Fault (Option Value) :=
  match op, v, w with
  | add, .int _, .int _ | add, .int _, .str _ | add, .str _, .int _ | add, .str _, .str _ =>
    (h.add v w).map some
  | equal, .int m, .int n => .ok (some (.bool (m == n)))
  | equal, .str s, .str t => .ok (some (.bool (s == t)))
  | equal, .int _, .str _ | equal, .str _, .int _ | less, .int _, .str _ | less, .str _, .int _ =>
    .error (h.unsupported op.symbol v w)
  | greater, .int m, .int n => .ok (some (.bool (n.toInt < m.toInt)))
  | less, .int m, .int n => .ok (some (.bool (m.toInt < n.toInt)))
  | less, .str s, .str t => .ok (some (.bool (t < s)))
  | _, _, _ => .ok none

end Operation

end Scriptlet
