-- The laws of the heap. What is at each position of each list is all that there is to
-- it; a new list has a reference that none had before, and storing an item changes one
-- position of one list.
import Scriptlet.Proofs.Purity

namespace Scriptlet

theorem Except.map_eq_ok_iff {ε α β : Type} {r : Except ε α} {g : α → β} {b : β} :
    r.map g = .ok b ↔ ∃ a, r = .ok a ∧ g a = b := by
  cases r <;> simp [Except.map]

namespace Heap

variable {h h' : Heap} {r q : ListRef} {i j : Nat} {v : Value}

/-! ## Positions -/

theorem length_eq (h : Heap) (r : ListRef) : h.length r = (h.items r).length := by
  simp [length, items]

theorem get?_eq (h : Heap) (r : ListRef) (i : Nat) : h.get? r i = (h.items r)[i]? := by
  simp [get?, items]

theorem get?_eq_none_iff : h.get? r i = none ↔ h.length r ≤ i := by
  rw [get?_eq, length_eq, List.getElem?_eq_none_iff]

theorem Grows.length_eq (hg : h.Grows h') (hr : r < h.size) : h'.length r = h.length r := by
  rw [Heap.length_eq, Heap.length_eq, hg.items_eq r hr]

theorem Grows.get?_eq (hg : h.Grows h') (hr : r < h.size) (i : Nat) :
    h'.get? r i = h.get? r i := by
  rw [Heap.get?_eq, Heap.get?_eq, hg.items_eq r hr]

theorem mem_items_iff : v ∈ h.items r ↔ ∃ i, h.get? r i = some v := by
  simp only [get?_eq, List.mem_iff_getElem?]

theorem mem_items_of_get? (hv : h.get? r i = some v) : v ∈ h.items r := mem_items_iff.2 ⟨i, hv⟩

theorem position_eq_ok_iff {n : Int64} :
    h.position r n = .ok i ↔ n.toInt = i ∧ i < h.length r := by
  simp only [position]
  split
  · simp only [Except.ok.injEq]
    omega
  · simp only [reduceCtorEq, false_iff]
    omega

theorem position_eq_error {n : Int64} (hn : n.toInt < 0 ∨ h.length r ≤ n.toInt) :
    h.position r n = .error (.ofCause (.indexOutOfBounds n (h.length r))) := by
  simp only [position]
  exact if_neg (by omega)

theorem item_eq_ok_iff {n : Int64} :
    h.item r n = .ok v ↔ ∃ i, h.position r n = .ok i ∧ h.get? r i = some v := by
  unfold item
  rw [Except.map_eq_ok_iff]
  refine exists_congr fun i => and_congr_right fun hi => ?_
  have hlt := (position_eq_ok_iff.1 hi).2
  cases hget : h.get? r i with
  | none => exact absurd hlt (Nat.not_lt.2 (get?_eq_none_iff.1 hget))
  | some w => simp

/-! ## New lists -/

theorem size_alloc (h : Heap) (vs : List Value) : (h.alloc vs).2.size = h.size + 1 := by
  simp [alloc, size]

theorem items_alloc_self (h : Heap) (vs : List Value) : (h.alloc vs).2.items h.size = vs := by
  simp [alloc, items, size, Array.getD_eq_getD_getElem?]

/-- A list of the heap with one more is the new one, or it was there. -/
theorem items_alloc (h : Heap) (vs : List Value) (r : ListRef) :
    (h.alloc vs).2.items r = if r = h.size then vs else h.items r := by
  split
  · next hr =>
    subst hr
    exact h.items_alloc_self vs
  · next hr =>
    have hget : (h.lists.push vs.toArray)[r]? = h.lists[r]? := Array.getElem?_push.trans (if_neg hr)
    simp [alloc, items, Array.getD_eq_getD_getElem?, hget]

/-! ## Storing -/

theorem size_set (h : Heap) (r : ListRef) (i : Nat) (v : Value) : (h.set r i v).size = h.size := by
  simp [set, size]

theorem items_set (h : Heap) (r : ListRef) (i : Nat) (v : Value) (q : ListRef) :
    (h.set r i v).items q = if q = r then (h.items r).set i v else h.items q := by
  simp only [set, items, Array.getD_eq_getD_getElem?, Array.getElem?_modify]
  by_cases hq : q = r
  · subst hq
    cases h.lists[q]? <;> simp
  · simp [hq, Ne.symm hq]

theorem length_set (h : Heap) (r : ListRef) (i : Nat) (v : Value) (q : ListRef) :
    (h.set r i v).length q = h.length q := by
  rw [length_eq, items_set, length_eq]
  split
  · next hq => simp [hq]
  · rfl

theorem get?_set_self (hi : i < h.length r) : (h.set r i v).get? r i = some v := by
  rw [length_eq] at hi
  simp [get?_eq, items_set, hi]

theorem get?_set_ne (hne : q ≠ r ∨ j ≠ i) : (h.set r i v).get? q j = h.get? q j := by
  rw [get?_eq, items_set, get?_eq]
  split
  · next hq =>
    subst hq
    rw [List.getElem?_set_ne (by simpa [eq_comm] using hne)]
  · rfl

end Heap

end Scriptlet
