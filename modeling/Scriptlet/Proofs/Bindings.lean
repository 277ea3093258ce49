-- The laws of a table of bindings. What it binds each name to is all that there is to
-- it, and writing and removing change that for one name.
import Mathlib.Data.List.Sort
import Scriptlet.Environment

namespace Scriptlet

namespace Environment

variable {bs cs : List Binding} {name other : String} {v : Value}

/-! ## Tables -/

theorem lookup_cons (b : Binding) (bs : List Binding) (name : String) :
    List.lookup name (b :: bs) = if name = b.1 then some b.2 else bs.lookup name := by
  rw [List.lookup_cons]
  by_cases h : name = b.1
  · simp [h]
  · simp [h, beq_false_of_ne h]

theorem lookup_insert (bs : List Binding) (name other : String) (v : Value) :
    (insert name v bs).lookup other = if other = name then some v else bs.lookup other := by
  induction bs with
  | nil => simp [insert, lookup_cons]
  | cons b bs ih =>
    unfold insert
    split
    · rw [lookup_cons]
    · split
      · next heq =>
        simp only [lookup_cons, heq]
        split <;> rfl
      · next hne =>
        simp only [lookup_cons, ih]
        by_cases h : other = name
        · simp [h, hne]
        · simp [h]

theorem lookup_filter (keep : String → Bool) (bs : List Binding) (name : String) :
    (bs.filter fun b => keep b.1).lookup name = if keep name then bs.lookup name else none := by
  induction bs with
  | nil => simp only [List.filter_nil, List.lookup_nil, ite_self]
  | cons b bs ih =>
    by_cases h : name = b.1
    · subst h
      cases hkeep : keep b.1 <;> simp only [hkeep, List.filter_cons, lookup_cons, ih, if_true,
        Bool.false_eq_true, if_false]
    · cases hkeep : keep b.1 <;> simp only [hkeep, List.filter_cons, lookup_cons, ih, h, if_true,
        Bool.false_eq_true, if_false]

theorem mem_iff_lookup (h : Sorted bs) {b : Binding} : b ∈ bs ↔ bs.lookup b.1 = some b.2 := by
  induction bs with
  | nil => simp
  | cons c cs ih =>
    obtain ⟨hc, hcs⟩ := List.pairwise_cons.1 h
    rw [List.mem_cons, lookup_cons, ih hcs]
    by_cases hkey : b.1 = c.1
    · -- the names ascend, so `c` is the only binding of its name
      have hrest : cs.lookup b.1 ≠ some b.2 := fun hb =>
        String.lt_irrefl c.1 (hkey ▸ hc b ((ih hcs).2 hb))
      simp only [hkey] at hrest
      simp [hkey, hrest, Prod.ext_iff, eq_comm]
    · simp [hkey, Prod.ext_iff]

theorem nodup_of_sorted (h : Sorted bs) : bs.Nodup := by
  refine List.Pairwise.imp (fun {a b} hlt heq => ?_) h
  subst heq
  exact String.lt_irrefl a.1 hlt

theorem sorted_ext (hbs : Sorted bs) (hcs : Sorted cs)
    (h : ∀ name, bs.lookup name = cs.lookup name) : bs = cs := by
  have hperm : bs.Perm cs :=
    (List.perm_ext_iff_of_nodup (nodup_of_sorted hbs) (nodup_of_sorted hcs)).2 fun b => by
      rw [mem_iff_lookup hbs, mem_iff_lookup hcs, h]
  refine hperm.eq_of_pairwise (fun a b _ _ hab hba => ?_) hbs hcs
  exact (String.lt_irrefl _ (String.lt_trans hab hba)).elim

/-! ## Environments -/

variable (env : Environment)

theorem get?_write (name other : String) (v : Value) :
    (env.write name v).get? other = if other = name then some v else env.get? other :=
  lookup_insert ..

theorem get?_write_ne (h : other ≠ name) : (env.write name v).get? other = env.get? other := by
  simp [get?_write, h]

theorem get?_remove (name other : String) :
    (env.remove name).get? other = if other = name then none else env.get? other := by
  refine (lookup_filter (· != name) env.bindings other).trans ?_
  by_cases h : other = name <;> simp [h, get?]

@[simp] theorem get?_remove_self (name : String) : (env.remove name).get? name = none := by
  simp [get?_remove]

theorem get?_remove_ne (h : other ≠ name) : (env.remove name).get? other = env.get? other := by
  simp [get?_remove, h]

variable {env}

/-- Environments that bind every name alike are the same. -/
theorem ext_get? {env' : Environment} (h : ∀ name, env.get? name = env'.get? name) :
    env = env' := by
  obtain ⟨bs, hbs⟩ := env
  obtain ⟨cs, hcs⟩ := env'
  obtain rfl := sorted_ext hbs hcs h
  rfl

end Environment

end Scriptlet
