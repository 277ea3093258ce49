-- Equality of values. Lists are equal item by item. A pair of lists that is
-- already being compared counts as equal, so that lists which stand inside
-- themselves are told apart by what can be reached from them and nothing else.
import Scriptlet.Remaining
import Scriptlet.Value

namespace Scriptlet

namespace Heap

/-- Every pair of lists. -/
def allPairs (h : Heap) : List (ListRef × ListRef) :=
  (List.range h.size).flatMap fun a => (List.range h.size).map fun b => (a, b)

theorem mem_allPairs {h : Heap} {a b : ListRef} (ha : a < h.size) (hb : b < h.size) :
    (a, b) ∈ h.allPairs := by
  simp [allPairs, ha, hb]

mutual

/-- Whether two values are equal when the pairs `comparing` are taken to be. -/
def equalIn (h : Heap) (comparing : List (ListRef × ListRef)) (v w : Value) : Bool :=
  match v, w with
  | .int m, .int n => m == n
  | .str s, .str t => s == t
  | .bool b, .bool c => b == c
  | .list a, .list b =>
    if a = b ∨ (a, b) ∈ comparing then true
    else equalItems h ((a, b) :: comparing) (h.items a) (h.items b)
  | _, _ => false
termination_by (remaining h.allPairs comparing, 1)
decreasing_by
  rename_i hnot
  have hle := remaining_cons_le h.allPairs comparing (a, b)
  rcases ha : h.items a with _ | ⟨x, xs⟩
  · refine Prod.Lex.right' _ hle ?_
    simp
  · rcases hb : h.items b with _ | ⟨y, ys⟩
    · refine Prod.Lex.right' _ hle ?_
      simp
    · have hall := mem_allPairs (lt_size_of_mem_items (h := h) (r := a) (v := x) (by simp [ha]))
        (lt_size_of_mem_items (h := h) (r := b) (v := y) (by simp [hb]))
      exact Prod.Lex.left _ _ (remaining_cons_lt hall fun hm => hnot (.inr hm))

/-- Whether two lists of items are equal one by one. -/
def equalItems (h : Heap) (comparing : List (ListRef × ListRef)) (vs ws : List Value) : Bool :=
  match vs, ws with
  | [], [] => true
  | v :: vs, w :: ws => equalIn h comparing v w && equalItems h comparing vs ws
  | _, _ => false
termination_by (remaining h.allPairs comparing, 2 * min vs.length ws.length)
decreasing_by
  all_goals
    refine Prod.Lex.right _ ?_
    simp only [List.length_cons]
    omega

end

/-- Whether two values are equal. -/
def equal (h : Heap) (v w : Value) : Bool := h.equalIn [] v w

end Heap

end Scriptlet
