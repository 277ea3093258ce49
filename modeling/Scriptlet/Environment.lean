-- Bindings of names to values. There is one flat table, sorted by name, so
-- two environments with the same bindings are the same.
import Scriptlet.Fault
import Scriptlet.Value

namespace Scriptlet

namespace Environment

/-- One name and the value that it is bound to. -/
abbrev Binding := String × Value

/-- Whether the names of a table ascend. -/
def Sorted (bindings : List Binding) : Prop := bindings.Pairwise fun a b => a.1 < b.1

/-- The table with `name` bound to `v`, in place of any older binding. -/
def insert (name : String) (v : Value) : List Binding → List Binding
  | [] => [(name, v)]
  | b :: bs =>
    if name < b.1 then (name, v) :: b :: bs
    else if name = b.1 then (name, v) :: bs
    else b :: insert name v bs

theorem mem_insert {name : String} {v : Value} {bs : List Binding} {b : Binding}
    (h : b ∈ insert name v bs) : b = (name, v) ∨ b ∈ bs := by
  induction bs with
  | nil => simpa [insert] using h
  | cons c cs ih =>
    unfold insert at h
    split at h
    · simpa using h
    · split at h
      · rcases List.mem_cons.1 h with h | h
        · exact .inl h
        · exact .inr (List.mem_cons_of_mem _ h)
      · rcases List.mem_cons.1 h with h | h
        · exact .inr (h ▸ List.mem_cons_self)
        · exact (ih h).imp_right (List.mem_cons_of_mem _)

theorem sorted_insert {bs : List Binding} (h : Sorted bs) (name : String) (v : Value) :
    Sorted (insert name v bs) := by
  induction bs with
  | nil => exact List.pairwise_singleton _ _
  | cons c cs ih =>
    have ⟨hc, hcs⟩ := List.pairwise_cons.1 h
    unfold insert
    split
    · next hlt =>
      refine List.pairwise_cons.2 ⟨fun b hb => ?_, h⟩
      rcases List.mem_cons.1 hb with rfl | hb
      · exact hlt
      · exact String.lt_trans hlt (hc b hb)
    · next hnot =>
      split
      · next heq => exact List.pairwise_cons.2 ⟨fun b hb => heq ▸ hc b hb, hcs⟩
      · next hne =>
        refine List.pairwise_cons.2 ⟨fun b hb => ?_, ih hcs⟩
        rcases mem_insert hb with rfl | hb
        · refine Decidable.byContradiction fun hge => hne ?_
          exact String.le_antisymm (String.not_lt.1 hge) (String.not_lt.1 hnot)
        · exact hc b hb

end Environment

/-- A table of bindings. -/
structure Environment where
  bindings : List Environment.Binding
  sorted : Environment.Sorted bindings

namespace Environment

def empty : Environment := ⟨[], List.Pairwise.nil⟩

def get? (env : Environment) (name : String) : Option Value := env.bindings.lookup name

def contains (env : Environment) (name : String) : Bool := (env.get? name).isSome

def size (env : Environment) : Nat := env.bindings.length

/-- The bound names in order. -/
def names (env : Environment) : List String := env.bindings.map Prod.fst

/-- The environment with `name` bound to `v`, in place of any older binding. -/
def write (env : Environment) (name : String) (v : Value) : Environment :=
  ⟨insert name v env.bindings, sorted_insert env.sorted name v⟩

/-- The environment in which `name` is not bound. -/
def remove (env : Environment) (name : String) : Environment :=
  ⟨env.bindings.filter fun b => b.1 != name, List.Pairwise.filter _ env.sorted⟩

/-- How far a suggested name may be from one that is not bound. -/
def suggestionThreshold : Nat := 2

/-- The value of a name. A fault suggests a name that is bound. -/
def read (env : Environment) (name : String) : Except Fault Value :=
  match env.get? name with
  | some v => .ok v
  | none =>
    .error (.ofCause (.undeclaredVariable name
      (Suggestion.closest? name env.names suggestionThreshold)))

end Environment

end Scriptlet
