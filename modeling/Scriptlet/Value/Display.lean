-- The text of a value. A list shows its items in brackets. A list that stands
-- inside itself is shown as `[...]` there, so the text is finite whatever the
-- heap refers to.
import Scriptlet.Remaining
import Scriptlet.Text.Quoted
import Scriptlet.Value

namespace Scriptlet

namespace Heap

mutual

/-- The text of a value that stands inside the lists `enclosing`. -/
def displayIn (h : Heap) (enclosing : List ListRef) (v : Value) : String :=
  match v with
  | .int n => toString n.toInt
  | .str s => s
  | .bool b => if b then "true" else "false"
  | .list r =>
    if h.items r = [] then "[]"
    else if r ∈ enclosing then "[...]"
    else "[" ++ displayItems h (r :: enclosing) (h.items r) ++ "]"
termination_by (remaining (List.range h.size) enclosing, 0)
decreasing_by
  rename_i hne hnot
  obtain ⟨v, hv⟩ := List.exists_mem_of_ne_nil _ hne
  exact Prod.Lex.left _ _ (remaining_cons_lt (List.mem_range.2 (lt_size_of_mem_items hv)) hnot)

/-- The texts of items with commas between them. -/
def displayItems (h : Heap) (enclosing : List ListRef) (vs : List Value) : String :=
  match vs with
  | [] => ""
  | [v] => displayIn h enclosing v
  | v :: vs => displayIn h enclosing v ++ ", " ++ displayItems h enclosing vs
termination_by (remaining (List.range h.size) enclosing, vs.length)
decreasing_by
  all_goals
    refine Prod.Lex.right _ ?_
    simp only [List.length_cons]
    omega

end

/-- The text that printing a value writes. -/
def display (h : Heap) (v : Value) : String := h.displayIn [] v

/-- A value with its kind, as messages show it. A string is quoted. -/
def describe (h : Heap) (v : Value) : String :=
  match v with
  | .str s => "string " ++ Text.quote s
  | v => v.kind.name ++ " " ++ h.display v

end Heap

end Scriptlet
