-- The place of a number in a sorted array, found by halving.

namespace Scriptlet

/-- How many entries are at most `x`, when those below `lo` are and those from
`hi` on are not. -/
def rankBetween (xs : Array Nat) (x lo hi : Nat) : Nat :=
  if _h : lo < hi then
    let mid := (lo + hi) / 2
    if xs.getD mid 0 ≤ x then rankBetween xs x (mid + 1) hi
    else rankBetween xs x lo mid
  else lo
termination_by hi - lo

/-- How many entries of a sorted array are at most `x`. -/
def rank (xs : Array Nat) (x : Nat) : Nat := rankBetween xs x 0 xs.size

end Scriptlet
