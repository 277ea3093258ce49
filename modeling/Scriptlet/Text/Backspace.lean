-- Backspaces in a line. Each takes away the cluster before it, as it would have
-- done while the line was typed.
import Scriptlet.Text.Cluster

namespace Scriptlet.Text

/-- A line while it is typed: the text, last character first, and the sizes of
its clusters, last one first. -/
structure Draft where
  text : List Char
  sizes : List Nat

/-- Takes bytes off the end of a text that is given last character first. Only
whole characters go. -/
def dropBytes : Nat → List Char → List Char
  | _, [] => []
  | n, c :: cs => if c.utf8Size ≤ n then dropBytes (n - c.utf8Size) cs else c :: cs

namespace Draft

/-- Takes away the last cluster. -/
def rubOut (d : Draft) : Draft :=
  match d.sizes with
  | [] => d
  | n :: sizes => ⟨dropBytes n d.text, sizes⟩

/-- Adds a cluster. Its size is kept in one byte. -/
def append (d : Draft) (cluster : List Char) : Draft :=
  ⟨cluster.reverse ++ d.text, (String.ofList cluster).utf8ByteSize % 256 :: d.sizes⟩

def type (d : Draft) (cluster : List Char) : Draft :=
  if cluster = ['\x08'] then d.rubOut else d.append cluster

end Draft

/-- What is left of a line when each backspace has taken a cluster away. -/
def applyBackspaces (line : List Char) : List Char :=
  ((clusters line).foldl Draft.type ⟨[], []⟩).text.reverse

end Scriptlet.Text
