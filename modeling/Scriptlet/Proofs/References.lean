-- References to lists. A run makes none up: if the bindings and the items of lists
-- refer to lists that are there, they do so all through the run. So a new list is one
-- that nothing referred to before.
import Scriptlet.Proofs.ValueInvariants.Runs

namespace Scriptlet

/-! ## Closed heaps -/

namespace Heap

/-- Whether the list that a value refers to, if it is one, is in the heap. -/
def Holds (h : Heap) (v : Value) : Prop := ∀ r, v = .list r → r < h.size

/-- Whether every item of every list is a value that the heap holds. -/
def Closed (h : Heap) : Prop := ∀ r, ∀ v ∈ h.items r, h.Holds v

variable {h h' : Heap} {v w : Value}

theorem Holds.mono (hv : h.Holds v) (hsize : h.size ≤ h'.size) : h'.Holds v :=
  fun r hr => Nat.lt_of_lt_of_le (hv r hr) hsize

theorem holds_list {r : ListRef} (hr : r < h.size) : h.Holds (.list r) := by
  rintro _ ⟨⟩
  exact hr

/-- The heap holds every value that is no list. -/
theorem holds_of_list?_eq_none (hv : v.list? = none) : h.Holds v := by
  rintro r rfl
  cases hv

theorem Closed.alloc (hc : h.Closed) {vs : List Value} (hvs : ∀ v ∈ vs, h.Holds v) :
    (h.alloc vs).2.Closed := by
  intro r v hv
  have hsize : h.size ≤ (h.alloc vs).2.size := by
    rw [size_alloc]
    exact Nat.le_succ _
  rw [items_alloc] at hv
  split at hv
  · exact (hvs v hv).mono hsize
  · exact (hc r v hv).mono hsize

theorem Closed.set (hc : h.Closed) (hv : h.Holds v) (r : ListRef) (i : Nat) :
    (h.set r i v).Closed := by
  intro q w hw
  have hsize : h.size ≤ (h.set r i v).size := Nat.le_of_eq (size_set h r i v).symm
  rw [items_set] at hw
  split at hw
  · rcases List.mem_or_eq_of_mem_set hw with hw | rfl
    · exact (hc r w hw).mono hsize
    · exact hv.mono hsize
  · exact (hc q w hw).mono hsize

/-- Evaluation makes no reference up. -/
theorem closed_invariant : ValueInvariant Closed Holds where
  mono hg hv := hv.mono hg.size_le
  scalar := holds_of_list?_eq_none
  item hc _ hv := hc _ _ hv
  alloc {h vs} hc hvs := by
    refine ⟨hc.alloc hvs, holds_list ?_⟩
    rw [size_alloc]
    exact Nat.lt_succ_self _

end Heap

/-- Whether the heap holds every value that a name is bound to. -/
def Environment.Within (env : Environment) (h : Heap) : Prop :=
  ∀ name v, env.get? name = some v → h.Holds v

theorem Environment.Within.write {env : Environment} {h : Heap} (henv : env.Within h) {v : Value}
    (hv : h.Holds v) (name : String) : (env.write name v).Within h :=
  Environment.Each.write henv hv name

/-! ## Runs -/

variable {σ : Type}

/-- Whether the lists that bindings and items refer to are all there. -/
structure WorldOf.Closed (w : WorldOf σ) : Prop where
  heap : w.heap.Closed
  env : w.env.Within w.heap

namespace WorldOf.Closed

variable {w : WorldOf σ}

theorem iff_has : w.Closed ↔ w.Has Heap.Closed Heap.Holds := by
  constructor
  · intro hw
    exact ⟨hw.heap, hw.env⟩
  · intro hw
    exact ⟨hw.heap, hw.env⟩

variable [Output σ]

/-- An index assignment stores a value that is there in a list that is there. -/
theorem keepsStores (ss : List Stmt) (w : WorldOf σ) :
    KeepsStores Heap.Closed Heap.Holds ss w := by
  intro name position e s u _ hu
  have hI := Heap.closed_invariant
  unfold Stmt.exec
  refine .evaluate_bind hI hu (position.keeps_evalInteger hI hu.heap hu.env) fun n h _ _ hu => ?_
  refine .evaluate_bind hI hu (.listNamed hu.heap hu.env name s) fun r h _ _ hu => ?_
  refine .evaluate_bind hI hu (e.keeps_eval hI hu.heap hu.env) fun x h _ hx hu => ?_
  have hposition : Eval.Keeps Heap.Closed Heap.Holds h (fun _ _ => True)
      (do Eval.ofExcept s ((← get).position r n)) :=
    .get (.ofExcept hu.heap s (fun _ _ => trivial) fun f hf => Heap.describes_of_position hf)
  refine .evaluate_bind hI hu hposition fun i h hgrows _ hu => .of_ok rfl ⟨?_, ?_⟩
  · exact hu.heap.set (hx.mono hgrows.size_le) r i
  · have hsize := Nat.le_of_eq (Heap.size_set h r i x).symm
    exact hu.env.mono fun _ hv => hv.mono hsize

/-- A run from a closed world keeps it closed. -/
theorem kept (ss : List Stmt) (w : WorldOf σ) : Kept WorldOf.Closed ss w := by
  have heq : (WorldOf.Closed : WorldOf σ → Prop) = WorldOf.Has Heap.Closed Heap.Holds :=
    funext fun _ => propext iff_has
  rw [heq]
  exact Heap.closed_invariant.kept (keepsStores ss w)

end WorldOf.Closed

end Scriptlet
