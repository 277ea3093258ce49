-- The edit distance of two texts: how few insertions, deletions and
-- replacements of single characters turn one into the other. The table of
-- distances between their starts is filled one row at a time.

namespace Scriptlet.Text

/-- The rest of a row after its entry `left`, from the row `above` it that
starts over `left`. The row belongs to the character `c` of the first text,
and the second text is `text` from here on. -/
def rowAfter (c : Char) (left : Nat) : List Char → List Nat → List Nat
  | d :: text, diagonal :: up :: above =>
    let replaced := diagonal + if c = d then 0 else 1
    let here := min (min replaced (up + 1)) (left + 1)
    here :: rowAfter c here text (up :: above)
  | _, _ => []

/-- The row below `above`, which belongs to the character `c`. -/
def nextRow (text : List Char) (above : List Nat) (c : Char) : List Nat :=
  match above with
  | [] => []
  | first :: _ => (first + 1) :: rowAfter c (first + 1) text above

/-- The last row of the table. -/
def lastRow (s t : List Char) : List Nat := s.foldl (nextRow t) (List.range (t.length + 1))

/-- How few single-character edits turn `s` into `t`. -/
def editDistance (s t : String) : Nat := (lastRow s.toList t.toList).getLastD 0

end Scriptlet.Text
