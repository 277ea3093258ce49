-- Three ways to compare values, and where they agree: the order of a kind, the equality of
-- values, and the operations on pairs of kinds. The order is total on the integers, on the
-- strings and on the booleans. The operations follow it for integers, and for strings they
-- turn it round.
import Mathlib.Order.Compare
import Scriptlet.Proofs.Comparisons.ByteOrder
import Scriptlet.Value.Equality
import Scriptlet.Value.Operation

namespace Scriptlet

/-! ## The order of a kind -/

namespace Value

variable {u v w : Value}

theorem isSome_compare?_iff : (v.compare? w).isSome ↔ v.kind = w.kind ∧ v.kind ≠ .list := by
  cases v <;> cases w <;> simp [compare?, kind]

theorem compare?_eq_iff : v.compare? w = some .eq ↔ v = w ∧ v.kind ≠ .list := by
  cases v <;> cases w <;> simp [compare?, kind, Int64.toInt_inj]

theorem compare?_swap (v w : Value) : w.compare? v = (v.compare? w).map Ordering.swap := by
  cases v <;> cases w
  case int.int | str.str | bool.bool => exact congrArg some Std.OrientedOrd.eq_swap
  all_goals rfl

theorem compare?_trans (huv : u.compare? v = some .lt) (hvw : v.compare? w = some .lt) :
    u.compare? w = some .lt := by
  cases u <;> cases v <;> simp only [compare?, Option.some.injEq, reduceCtorEq] at huv <;>
    cases w <;> simp only [compare?, Option.some.injEq, reduceCtorEq] at hvw ⊢
  case int.int.int | str.str.str | bool.bool.bool => exact Std.TransCmp.lt_trans huv hvw

/-- The order of strings is that of any numbers that stand to each other as texts do. -/
theorem compare?_str_iff {numbers : String → List Nat}
    (hnumbers : ∀ {s t}, s < t ↔ numbers s < numbers t) {s t : String} {o : Ordering} :
    (str s).compare? (str t) = some o ↔ o.Compares (numbers s) (numbers t) := by
  have hcompare : (str s).compare? (str t) = some o ↔ o.Compares s t := by
    simp only [compare?, Option.some.injEq, compare_iff]
  rw [hcompare]
  refine Ordering.compares_iff_of_compares_impl (fun {o} h => ?_) o
  cases o with
  | lt => exact hnumbers.1 h
  | eq => exact congrArg numbers h
  | gt => exact hnumbers.1 h

end Value

/-! ## Equality -/

theorem Heap.equal_eq_compare? (h : Heap) {v w : Value} (hv : v.kind ≠ .list) :
    h.equal v w = decide (v.compare? w = some .eq) := by
  rw [Bool.eq_iff_iff, decide_eq_true_iff, Value.compare?_eq_iff]
  unfold equal
  cases v <;> cases w <;> simp_all [equalIn, Value.kind]

/-! ## Operations -/

namespace Operation

variable {v w : Value}

theorem apply_equal_eq_iff (h : Heap) {x : Value} : equal.apply h v w = .ok (some x) ↔
    v.kind = w.kind ∧ v.kind ∈ [.int, .string] ∧ x = .bool (h.equal v w) := by
  unfold Heap.equal
  cases v <;> cases w <;> simp [apply, Heap.equalIn, Value.kind, eq_comm]

theorem apply_add_eq (h : Heap) : add.apply h v w =
    if v.kind ∈ [.int, .string] ∧ w.kind ∈ [.int, .string] then (h.add v w).map some
    else .ok none := by
  cases v <;> cases w <;> simp [apply, Value.kind]

theorem apply_eq_none (h : Heap) (op : Operation)
    (hkinds : v.kind ∈ [.bool, .list] ∨ w.kind ∈ [.bool, .list]) :
    op.apply h v w = .ok none := by
  cases op <;> cases v <;> cases w <;> simp [Value.kind] at hkinds <;> simp [apply]

/-- The order of two integers that a comparison asks about. -/
def asksFor : Operation → Option Ordering
  | less => some .lt
  | equal => some .eq
  | greater => some .gt
  | _ => none

theorem apply_int (h : Heap) {op : Operation} {o : Ordering} (hop : op.asksFor = some o)
    (m n : Int64) : op.apply h (.int m) (.int n) =
      .ok (some (.bool ((Value.int m).compare? (.int n) = some o))) := by
  have hequal : (m == n) = decide (m = n) := by
    rw [Bool.eq_iff_iff]
    simp
  cases op <;> cases hop <;> simp [apply, Value.compare?, compare_iff, Ordering.Compares,
    Int64.toInt_inj, hequal]

theorem apply_less_str (h : Heap) (s t : String) : less.apply h (.str s) (.str t) =
    .ok (some (.bool ((Value.str s).compare? (.str t) = some .gt))) := by
  simp [apply, Value.compare?, compare_iff, Ordering.Compares]

/-- One of the three comparisons holds of two integers, and only one. -/
theorem existsUnique_apply_int (h : Heap) (m n : Int64) :
    ∃! op, op ∈ [less, equal, greater] ∧
      op.apply h (.int m) (.int n) = .ok (some (.bool true)) := by
  have hholds (op : Operation) {o : Ordering} (hop : op.asksFor = some o) :
      op.apply h (.int m) (.int n) = .ok (some (.bool true)) ↔ o = compare m.toInt n.toInt := by
    rw [apply_int h hop]
    simp [Value.compare?, eq_comm]
  have hless := hholds less rfl
  have hequal := hholds equal rfl
  have hgreater := hholds greater rfl
  cases ho : compare m.toInt n.toInt <;> simp [ExistsUnique, ho, hless, hequal, hgreater]

/-- The operations compare and add values as the order, the equality and the sum of values
do, between the kinds that they have a result for, and on strings `<` asks for the greater
one. The order is defined just between two integers, two strings or two booleans, where it
is total, and that of strings is the order of their bytes and of their code points. -/
theorem agrees_with_order (h : Heap) (v w : Value) :
    (∀ x, equal.apply h v w = .ok (some x) ↔
      v.kind = w.kind ∧ v.kind ∈ [.int, .string] ∧ x = .bool (h.equal v w)) ∧
    (v.kind ≠ .list → h.equal v w = decide (v.compare? w = some .eq)) ∧
    (∀ m n : Int64,
      less.apply h (.int m) (.int n) =
        .ok (some (.bool ((Value.int m).compare? (.int n) = some .lt))) ∧
      greater.apply h (.int m) (.int n) =
        .ok (some (.bool ((Value.int m).compare? (.int n) = some .gt))) ∧
      ∃! op, op ∈ [less, equal, greater] ∧
        op.apply h (.int m) (.int n) = .ok (some (.bool true))) ∧
    (∀ s t : String,
      less.apply h (.str s) (.str t) =
        .ok (some (.bool ((Value.str s).compare? (.str t) = some .gt))) ∧
      greater.apply h (.str s) (.str t) = .ok none) ∧
    add.apply h v w =
      (if v.kind ∈ [.int, .string] ∧ w.kind ∈ [.int, .string] then (h.add v w).map some
      else .ok none) ∧
    (v.kind ∈ [.bool, .list] ∨ w.kind ∈ [.bool, .list] →
      ∀ op : Operation, op.apply h v w = .ok none) ∧
    ((v.compare? w).isSome ↔ v.kind = w.kind ∧ v.kind ≠ .list) ∧
    (v.compare? w = some .eq ↔ v = w ∧ v.kind ≠ .list) ∧
    w.compare? v = (v.compare? w).map Ordering.swap ∧
    (∀ x, v.compare? w = some .lt → w.compare? x = some .lt → v.compare? x = some .lt) ∧
    ∀ s t o, ((Value.str s).compare? (.str t) = some o ↔ o.Compares (utf8Bytes s) (utf8Bytes t)) ∧
      (o.Compares (utf8Bytes s) (utf8Bytes t) ↔ o.Compares (codePoints s) (codePoints t)) := by
  refine ⟨fun x => apply_equal_eq_iff h, h.equal_eq_compare?, fun m n => ?_, fun s t => ?_,
    apply_add_eq h, fun hkinds op => apply_eq_none h op hkinds, Value.isSome_compare?_iff,
    Value.compare?_eq_iff, Value.compare?_swap v w, fun x => Value.compare?_trans,
    fun s t o => ?_⟩
  · exact ⟨apply_int h rfl m n, apply_int h rfl m n, existsUnique_apply_int h m n⟩
  · exact ⟨apply_less_str h s t, rfl⟩
  · have hbytes := Value.compare?_str_iff lt_iff_utf8Bytes_lt (s := s) (t := t) (o := o)
    have hpoints := Value.compare?_str_iff lt_iff_codePoints_lt (s := s) (t := t) (o := o)
    exact ⟨hbytes, hbytes.symm.trans hpoints⟩

/-- Of two strings the one that comes after is less. -/
example : less.apply .empty (.str "b") (.str "a") = .ok (some (.bool true)) := rfl

end Operation

end Scriptlet
