-- Finding the line of an offset. The index of a text lists where its lines
-- start, and the line of an offset is how many of them are at or before it.
import Scriptlet.Rank
import Scriptlet.Span

namespace Scriptlet

/-- The offsets at which the lines of one text start, in order. -/
structure LineIndex where
  starts : Array Nat

namespace LineIndex

/-- The offsets just after each line feed of a text that starts at `offset`. -/
def startsAfter (offset : Nat) : List Char → List Nat
  | [] => []
  | c :: cs =>
    let next := offset + c.utf8Size
    if c = '\n' then next :: startsAfter next cs else startsAfter next cs

/-- The first line starts at the first byte, and every line feed starts one
more. -/
def ofText (source : String) : LineIndex := ⟨(0 :: startsAfter 0 source.toList).toArray⟩

def lineCount (index : LineIndex) : Nat := index.starts.size

/-- The line that holds `offset`. An offset past the end is on the last line. -/
def lineOf (index : LineIndex) (offset : Nat) : Nat := rank index.starts offset

/-- The stretch between two offsets of the text. -/
def span (index : LineIndex) (start stop : Nat) : Span := ⟨start, stop, index.lineOf start⟩

end LineIndex

end Scriptlet
