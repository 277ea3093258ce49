-- A name to suggest in place of one that is not known: the closest within a
-- few edits, and of equally close ones the first in order.
import Scriptlet.Text.EditDistance

namespace Scriptlet

namespace Suggestion

/-- A candidate with its distance from the name in question. -/
structure Match where
  distance : Nat
  name : String

/-- Whether `a` is to be suggested rather than `b`. -/
def Match.before (a b : Match) : Bool :=
  a.distance < b.distance || (a.distance == b.distance && a.name < b.name)

/-- The match to suggest, of two. -/
def Match.better (a b : Match) : Match := if b.before a then b else a

/-- The candidates other than `name` itself that are within `threshold` edits
of it. -/
def matchesOf (name : String) (candidates : List String) (threshold : Nat) : List Match :=
  ((candidates.filter (· != name)).map fun c => ⟨Text.editDistance name c, c⟩).filter
    fun m => m.distance ≤ threshold

/-- The candidate to suggest for `name`. -/
def closest? (name : String) (candidates : List String) (threshold : Nat) : Option String :=
  match matchesOf name candidates threshold with
  | [] => none
  | m :: ms => some (ms.foldl Match.better m).name

/-- The line that a message ends with when there is a name to suggest. -/
def hint : Option String → String
  | some name => s!"\n  hint: did you mean `{name}`?"
  | none => ""

end Suggestion

end Scriptlet
