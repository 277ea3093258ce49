-- How much of a finite collection is still to be visited. Visiting one more
-- member leaves less, which bounds every walk that visits nothing twice.

namespace Scriptlet

/-- How many members of `all` are not among those visited. -/
def remaining {α : Type} [DecidableEq α] (all visited : List α) : Nat :=
  all.countP fun x => x ∉ visited

theorem remaining_cons_le {α : Type} [DecidableEq α] (all visited : List α) (x : α) :
    remaining all (x :: visited) ≤ remaining all visited := by
  refine List.countP_mono_left fun y _ hy => ?_
  simp_all

theorem remaining_cons_lt {α : Type} [DecidableEq α] {all visited : List α} {x : α}
    (hall : x ∈ all) (hx : x ∉ visited) :
    remaining all (x :: visited) < remaining all visited := by
  induction all with
  | nil => cases hall
  | cons y ys ih =>
    have hle := remaining_cons_le ys visited x
    unfold remaining at ih hle ⊢
    rw [List.countP_cons, List.countP_cons]
    by_cases hxy : y = x
    · subst hxy
      simp only [List.mem_cons, true_or, not_true_eq_false, decide_false, Bool.false_eq_true,
        if_false, hx, not_false_eq_true, decide_true, if_true]
      simp only [List.mem_cons] at hle
      omega
    · have := ih ((List.mem_cons.1 hall).resolve_left (Ne.symm hxy))
      simp only [List.mem_cons, hxy, false_or] at this hle ⊢
      omega

end Scriptlet
