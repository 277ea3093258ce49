-- Chains of `max` and `min`. Such a chain has a value where its operands are all integers,
-- all strings or all booleans, and then it is the greatest or the least of theirs, in
-- whatever order they stand and however they are grouped. Otherwise the chain stops at the
-- first operand that is not of the kind of those before it.
import Mathlib.Order.Bounds.Basic
import Scriptlet.Proofs.Chains
import Scriptlet.Proofs.Comparisons

namespace Scriptlet

/-! ## The greatest and the least value -/

/-- Values of one kind in their order. Nothing is less than a list or than a value of
another kind. -/
instance : PartialOrder Value where
  le v w := v = w ∨ v.compare? w = some .lt
  le_refl v := .inl rfl
  le_trans u v w := by
    rintro (rfl | huv) (rfl | hvw)
    · exact .inl rfl
    · exact .inr hvw
    · exact .inr huv
    · exact .inr (Value.compare?_trans huv hvw)
  le_antisymm v w := by
    rintro (rfl | hvw) (hwv | hwv)
    · rfl
    · rfl
    · exact hwv.symm
    · rw [Value.compare?_swap, hvw] at hwv
      cases hwv

namespace BinOp

variable {op : BinOp} {h : Heap} {u v w x y z : Value} {S T : Set Value}

/-- Whether `max` or `min` chooses the value `x` of several. -/
def Chooses : BinOp → Set Value → Value → Prop
  | max, S, x => IsGreatest S x
  | min, S, x => IsLeast S x
  | _, _, _ => False

theorem Chooses.mem (hx : op.Chooses S x) : x ∈ S := by
  cases op with
  | max | min => exact hx.1
  | _ => exact hx.elim

theorem Chooses.unique (hx : op.Chooses S x) (hy : op.Chooses S y) : x = y := by
  cases op with
  | max => exact IsGreatest.unique hx hy
  | min => exact IsLeast.unique hx hy
  | _ => exact hx.elim

theorem chooses_singleton (hop : op = max ∨ op = min) (v : Value) : op.Chooses {v} v := by
  rcases hop with rfl | rfl
  · exact isGreatest_singleton
  · exact isLeast_singleton

/-- Of all values it chooses the one that it chooses of its choices of some and of the
others. -/
theorem Chooses.union (hx : op.Chooses S x) (hy : op.Chooses T y) (hz : op.Chooses {x, y} z) :
    op.Chooses (S ∪ T) z := by
  have hmem : z ∈ S ∪ T := by
    rcases hz.mem with rfl | rfl
    · exact .inl hx.mem
    · exact .inr hy.mem
  cases op with
  | max =>
    refine ⟨hmem, fun v hv => ?_⟩
    rcases hv with hv | hv
    · exact (hx.2 hv).trans (hz.2 (.inl rfl))
    · exact (hy.2 hv).trans (hz.2 (.inr rfl))
  | min =>
    refine ⟨hmem, fun v hv => ?_⟩
    rcases hv with hv | hv
    · exact (hz.2 (.inl rfl)).trans (hx.2 hv)
    · exact (hz.2 (.inr rfl)).trans (hy.2 hv)
  | _ => exact hz.elim

theorem chooses_pair_of_le (hle : v ≤ w) : max.Chooses {v, w} w ∧ min.Chooses {v, w} v := by
  refine ⟨⟨.inr rfl, ?_⟩, ⟨.inl rfl, ?_⟩⟩ <;> rintro u (rfl | rfl)
  · exact hle
  · exact le_rfl
  · exact le_rfl
  · exact hle

theorem joins_extremum_iff (hop : op = max ∨ op = min) {k l : Kind} :
    op.joins k l = true ↔ k = l ∧ k ≠ .list := by
  rcases hop with rfl | rfl <;> simp [joins]

theorem exists_apply_extremum (hop : op = max ∨ op = min) (hkind : v.kind = w.kind)
    (hlist : v.kind ≠ .list) (h : Heap) :
    ∃ x, op.apply h v w = .ok x ∧ op.Chooses {v, w} x := by
  obtain ⟨order, horder⟩ := Option.isSome_iff_exists.1 (Value.isSome_compare?_iff.2 ⟨hkind, hlist⟩)
  have hpick (wanted : Ordering) :
      op.pick h wanted v w = .ok (if order = wanted then w else v) := by
    simp only [pick, horder]
  cases order with
  | lt =>
    obtain ⟨hmax, hmin⟩ := chooses_pair_of_le (.inr horder)
    rcases hop with rfl | rfl
    · exact ⟨w, hpick .lt, hmax⟩
    · exact ⟨v, hpick .gt, hmin⟩
  | eq =>
    obtain ⟨rfl, -⟩ := Value.compare?_eq_iff.1 horder
    rw [Set.pair_eq_singleton]
    refine ⟨v, ?_, chooses_singleton hop v⟩
    rcases hop with rfl | rfl
    · exact hpick .lt
    · exact hpick .gt
  | gt =>
    have hless : w.compare? v = some .lt := by
      rw [Value.compare?_swap, horder]
      rfl
    obtain ⟨hmax, hmin⟩ := chooses_pair_of_le (.inr hless)
    rw [Set.pair_comm] at hmax hmin
    rcases hop with rfl | rfl
    · exact ⟨v, hpick .lt, hmax⟩
    · exact ⟨w, hpick .gt, hmin⟩

theorem kind_ne_list_of_joins {k l : Kind} (hop : op.joins k l = true) : k ≠ .list ∧ l ≠ .list := by
  cases op <;> cases k <;> cases l <;> simp [joins] at hop ⊢

end BinOp

/-! ## Expressions that make no list -/

variable {env : Environment} {op : BinOp} {e first : Expr} {es fs : List Expr} {l : Link}
  {links : List Link} {h h' : Heap} {v x : Value} {vals : List Value}

namespace Expr

/-- An expression that does not come to a list makes none: no operator has a result for one,
and a list cannot be an index. -/
theorem heap_eq_of_eval : (e : Expr) → ∀ {h h' : Heap} {v : Value}, e.eval env h = .ok v h' →
    v.kind ≠ .list → h' = h
  | .number .., _, _, _, heval, _ | .str .., _, _, _, heval, _ => by
    unfold Expr.eval at heval
    cases heval
    rfl
  | .ident .., _, _, _, heval, _ => by
    unfold Expr.eval at heval
    exact (Eval.ofExcept_eq_ok_iff.1 heval).2
  | .list .., _, _, _, heval, hkind => by
    obtain ⟨_, _, _, _, rfl, _⟩ := exists_of_eval_list heval
    exact (hkind rfl).elim
  | .index _ position _, _, _, _, heval, _ => by
    unfold Expr.eval at heval
    obtain ⟨r, _, hlist, hitem⟩ := bind_eq_ok_iff.1 heval
    obtain ⟨-, rfl⟩ := Eval.listNamed_eq_ok_iff.1 hlist
    obtain ⟨w, h₁, hw, hat⟩ := bind_eq_ok_iff.1 hitem
    obtain ⟨n, _, hn, hread⟩ := bind_eq_ok_iff.1 hat
    obtain ⟨hint, rfl⟩ := Eval.ofKind_eq_ok_iff.1 hn
    obtain ⟨_, _, ⟨⟩, hread⟩ := bind_eq_ok_iff.1 hread
    obtain ⟨-, rfl⟩ := Eval.ofExcept_eq_ok_iff.1 hread
    refine position.heap_eq_of_eval hw fun hkind => ?_
    cases w <;> simp [Value.int?, Value.kind] at hint hkind
  | .binary family op lhs rhs s, _, _, _, heval, _ => by
    unfold Expr.eval at heval
    split at heval
    · obtain ⟨v, h₁, hv, heval⟩ := bind_eq_ok_iff.1 heval
      obtain ⟨w, h₂, hw, heval⟩ := bind_eq_ok_iff.1 heval
      obtain ⟨_, _, ⟨⟩, heval⟩ := bind_eq_ok_iff.1 heval
      obtain ⟨happly, rfl⟩ := Eval.ofExcept_eq_ok_iff.1 heval
      have hjoins : op.joins v.kind w.kind = true := by
        by_contra hjoins
        rw [BinOp.apply_of_not_joins (Bool.eq_false_iff.2 hjoins)] at happly
        cases happly
      obtain ⟨hvkind, hwkind⟩ := BinOp.kind_ne_list_of_joins hjoins
      rw [rhs.heap_eq_of_eval hw hwkind, lhs.heap_eq_of_eval hv hvkind]
    · cases heval

/-- The values that expressions have in a heap which they leave as it is. -/
def valuesOf (env : Environment) (h : Heap) (es : List Expr) : Set Value :=
  {v | ∃ e ∈ es, e.eval env h = .ok v h}

theorem valuesOf_append : valuesOf env h (es ++ fs) = valuesOf env h es ∪ valuesOf env h fs := by
  ext v
  simp [valuesOf, or_and_right, exists_or]

theorem valuesOf_singleton (hv : e.eval env h = .ok v h) : valuesOf env h [e] = {v} := by
  ext w
  simp [valuesOf, hv, eq_comm]

theorem valuesOf_of_perm (hperm : fs.Perm es) : valuesOf env h fs = valuesOf env h es := by
  ext v
  simp [valuesOf, hperm.mem_iff]

/-- Expressions that come to no list have the values that they have each by itself. -/
theorem eval_each_of_evalAll (heval : evalAll env es h = .ok vals h')
    (hvals : ∀ v ∈ vals, v.kind ≠ .list) :
    h' = h ∧ (∀ e ∈ es, ∃ v, e.eval env h = .ok v h) ∧ valuesOf env h es = {v | v ∈ vals} := by
  induction es generalizing h vals with
  | nil =>
    obtain ⟨rfl, rfl⟩ := evalAll_nil_eq_ok_iff.1 heval
    simp [valuesOf]
  | cons e es ih =>
    obtain ⟨v, ws, h₁, hv, hws, rfl⟩ := evalAll_cons_eq_ok_iff.1 heval
    rw [List.forall_mem_cons] at hvals
    obtain rfl := e.heap_eq_of_eval hv hvals.1
    obtain ⟨rfl, heach, hset⟩ := ih hws hvals.2
    refine ⟨rfl, List.forall_mem_cons.2 ⟨⟨v, hv⟩, heach⟩, ?_⟩
    rw [← List.singleton_append, valuesOf_append, valuesOf_singleton hv, hset]
    ext w
    simp

/-! ## Grouped operands -/

/-- How an expression groups operands with one operator. -/
inductive Grouped (op : BinOp) : Expr → List Expr → Prop
  | operand (e : Expr) : Grouped op e [e]
  | join {e f : Expr} {es fs : List Expr} (s : Span) : Grouped op e es → Grouped op f fs →
    Grouped op (.binary op.family op e f s) (es ++ fs)

theorem grouped_chain (hlinks : ∀ l ∈ links, l.op = op) :
    Grouped op (first.chain links) (operands first links) := by
  induction links using List.reverseRecOn with
  | nil => exact .operand first
  | append_singleton ls l ih =>
    obtain rfl : l.op = op := hlinks l (by simp)
    have hgroups : operands first (ls ++ [l]) = operands first ls ++ [l.operand] := by
      simp [operands]
    rw [chain_append, hgroups]
    exact .join l.span (ih fun p hp => hlinks p (by simp [hp])) (.operand l.operand)

/-- The value of grouped operands of one kind, by induction on how they are grouped. -/
theorem Grouped.exists_eval (hop : op = .max ∨ op = .min) (hgroups : Grouped op e es) {k : Kind}
    (hk : k ≠ .list) (heach : ∀ e ∈ es, ∃ v, e.eval env h = .ok v h)
    (hkinds : ∀ v ∈ valuesOf env h es, v.kind = k) :
    ∃ x, e.eval env h = .ok x h ∧ op.Chooses (valuesOf env h es) x := by
  induction hgroups with
  | operand e =>
    obtain ⟨v, hv⟩ := heach e (by simp)
    rw [valuesOf_singleton hv]
    exact ⟨v, hv, BinOp.chooses_singleton hop v⟩
  | @join e f es fs s _ _ ihe ihf =>
    rw [List.forall_mem_append] at heach
    rw [valuesOf_append] at hkinds ⊢
    obtain ⟨v, hv, hvchosen⟩ := ihe heach.1 fun u hu => hkinds u (.inl hu)
    obtain ⟨w, hw, hwchosen⟩ := ihf heach.2 fun u hu => hkinds u (.inr hu)
    have hvkind : v.kind = k := hkinds v (.inl hvchosen.mem)
    have hwkind : w.kind = k := hkinds w (.inr hwchosen.mem)
    obtain ⟨x, happly, hx⟩ := BinOp.exists_apply_extremum hop (hvkind.trans hwkind.symm)
      (hvkind ▸ hk) h
    refine ⟨x, ?_, hvchosen.union hwchosen hx⟩
    rw [eval_binary_of_eval hv hw, happly]
    rfl

end Expr

/-! ## Chains -/

/-- Whether values are all integers, all strings or all booleans. -/
def OneKind (vals : List Value) : Prop :=
  ∃ k ∈ [Kind.int, .string, .bool], ∀ v ∈ vals, v.kind = k

theorem oneKind_of_kind_eq (hkind : v.kind ≠ .list) (hvals : ∀ w ∈ vals, w.kind = v.kind) :
    OneKind vals := by
  refine ⟨v.kind, ?_, hvals⟩
  cases v <;> simp_all [Value.kind]

namespace Expr

/-- Operands of one kind have the same value in whatever order and however grouped. -/
theorem Grouped.eval_of_oneKind (hop : op = .max ∨ op = .min) (hone : OneKind vals)
    (heval : evalAll env es h = .ok vals h') (hgroups : Grouped op e fs) (hperm : fs.Perm es) :
    ∃ x, e.eval env h = .ok x h' ∧ op.Chooses {v | v ∈ vals} x := by
  obtain ⟨k, hk, hkinds⟩ := hone
  have hlist : k ≠ .list := by
    rintro rfl
    simp at hk
  obtain ⟨rfl, heach, hset⟩ := eval_each_of_evalAll heval fun v hv => hkinds v hv ▸ hlist
  rw [← hset, ← valuesOf_of_perm hperm]
  refine hgroups.exists_eval hop hlist (fun e he => heach e (hperm.mem_iff.1 he)) fun v hv => ?_
  rw [valuesOf_of_perm hperm, hset] at hv
  exact hkinds v hv

/-- A chain of one operand, or of operands of one kind, has a value of their kind. -/
theorem exists_eval_chain (hop : op = .max ∨ op = .min) (hlinks : ∀ l ∈ links, l.op = op)
    (heval : evalAll env (operands first links) h = .ok vals h')
    (hvals : 2 ≤ vals.length → OneKind vals) :
    ∃ x, (first.chain links).eval env h = .ok x h' ∧ op.Chooses {v | v ∈ vals} x ∧
      ∀ v ∈ vals, v.kind = x.kind := by
  obtain ⟨v, ws, h₁, hv, hws, rfl⟩ := evalAll_cons_eq_ok_iff.1 heval
  cases links with
  | nil =>
    obtain ⟨rfl, rfl⟩ := evalAll_nil_eq_ok_iff.1 hws
    refine ⟨v, hv, ?_, by simp⟩
    simpa using BinOp.chooses_singleton hop v
  | cons l links =>
    obtain ⟨w, ws, h₂, -, -, rfl⟩ := evalAll_cons_eq_ok_iff.1 hws
    have hone : OneKind (v :: w :: ws) := hvals (by simp)
    obtain ⟨x, hx, hchosen⟩ := (grouped_chain hlinks).eval_of_oneKind hop hone heval (.refl _)
    obtain ⟨k, -, hkinds⟩ := hone
    refine ⟨x, hx, hchosen, fun u hu => ?_⟩
    rw [hkinds u hu, hkinds x hchosen.mem]

/-- A chain of operands of several kinds stops at the first one of another kind than those
before it, or at the second one if the first is a list. -/
theorem eval_chain_of_not_oneKind (hop : op = .max ∨ op = .min)
    (hlinks : ∀ l ∈ links, l.op = op) (hne : links ≠ [])
    (heval : evalAll env (operands first links) h = .ok vals h') (hvals : ¬ OneKind vals) :
    ∃ us w ws ls l more, vals = us ++ w :: ws ∧ links = ls ++ l :: more ∧
      ls.length + 1 = us.length ∧ (∀ q, q <+: us → 2 ≤ q.length → OneKind q) ∧
      ¬ OneKind (us ++ [w]) ∧ ∃ x h'', op.Chooses {v | v ∈ us} x ∧
        (first.chain links).eval env h = .error ⟨.unsupportedOperation op.symbol
          (h''.describe x) (h''.describe w), some (first.chain (ls ++ [l])).span⟩ h'' := by
  have hlength : 2 ≤ vals.length := by
    have hpos : 0 < links.length := List.length_pos_iff.2 hne
    rw [length_of_evalAll heval, operands, List.length_cons, List.length_map]
    omega
  have hprefix : ¬ ∀ q, q <+: vals → 2 ≤ q.length → OneKind q := by
    intro hall
    exact hvals (hall vals List.prefix_rfl hlength)
  obtain ⟨us, w, ws, rfl, hus, hmixed⟩ := exists_shortest_prefix (by simp) hprefix
  rw [Classical.not_imp] at hmixed
  have husne : us ≠ [] := by
    rintro rfl
    simp at hmixed
  obtain ⟨ls, l, more, h₁, h₂, rfl, hls, hbefore, hw, -⟩ := exists_link_of_evalAll husne heval
  obtain ⟨x, hx, hchosen, hkinds⟩ := exists_eval_chain hop
    (fun p hp => hlinks p (by simp [hp])) hbefore (hus us List.prefix_rfl)
  have hjoins : op.joins x.kind w.kind = false := by
    by_contra hjoins
    obtain ⟨hkind, hlist⟩ := (BinOp.joins_extremum_iff hop).1 (Bool.eq_true_of_not_eq_false hjoins)
    refine hmixed.2 (oneKind_of_kind_eq hlist fun u hu => ?_)
    rcases List.mem_append.1 hu with hu | hu
    · exact hkinds u hu
    · rw [List.mem_singleton.1 hu, hkind]
  have hsymbol : (op.refusedAs x.kind w.kind).symbol = op.symbol := by
    rcases hop with rfl | rfl <;> rfl
  refine ⟨us, w, ws, ls, l, more, rfl, rfl, hls, hus, hmixed.2, x, h₂, hchosen, ?_⟩
  apply eval_chain_of_apply_error hx hw
  rw [hlinks l (by simp), BinOp.apply_of_not_joins hjoins, hsymbol]
  rfl

/-- A chain of `max` or `min` has a value if and only if its operands are all integers, all
strings or all booleans. It is the greatest or the least of theirs, and the same for all
orders and groupings of the operands. Otherwise the chain stops at the node of the first
operands, two or more, that are not of one such kind. -/
theorem eval_extremum_chain (hop : op = .max ∨ op = .min) (hlinks : ∀ l ∈ links, l.op = op)
    (hne : links ≠ []) (heval : evalAll env (operands first links) h = .ok vals h') :
    ((∃ x h'', (first.chain links).eval env h = .ok x h'') ↔ OneKind vals) ∧
    (OneKind vals → ∃ x, op.Chooses {v | v ∈ vals} x ∧
      (first.chain links).eval env h = .ok x h' ∧
      ∀ e es, Grouped op e es → es.Perm (operands first links) → e.eval env h = .ok x h') ∧
    (¬ OneKind vals → ∃ us w ws ls l more, vals = us ++ w :: ws ∧ links = ls ++ l :: more ∧
      ls.length + 1 = us.length ∧ (∀ q, q <+: us → 2 ≤ q.length → OneKind q) ∧
      ¬ OneKind (us ++ [w]) ∧ ∃ x h'', op.Chooses {v | v ∈ us} x ∧
        (first.chain links).eval env h = .error ⟨.unsupportedOperation op.symbol
          (h''.describe x) (h''.describe w), some (first.chain (ls ++ [l])).span⟩ h'') := by
  have hstops := eval_chain_of_not_oneKind hop hlinks hne heval
  have hvalue (hone : OneKind vals) {e : Expr} {es : List Expr} (hgroups : Grouped op e es)
      (hperm : es.Perm (operands first links)) :=
    hgroups.eval_of_oneKind hop hone heval hperm
  have hchain : Grouped op (first.chain links) (operands first links) := grouped_chain hlinks
  refine ⟨⟨?_, fun hone => ?_⟩, fun hone => ?_, hstops⟩
  · rintro ⟨x, h'', hx⟩
    by_contra hvals
    obtain ⟨_, _, _, _, _, _, -, -, -, -, -, _, _, -, herror⟩ := hstops hvals
    cases hx.symm.trans herror
  · obtain ⟨x, hx, -⟩ := hvalue hone hchain (.refl _)
    exact ⟨x, h', hx⟩
  · obtain ⟨x, hx, hchosen⟩ := hvalue hone hchain (.refl _)
    refine ⟨x, hchosen, hx, fun e es hgroups hperm => ?_⟩
    obtain ⟨y, hy, hychosen⟩ := hvalue hone hgroups hperm
    rw [hy, hychosen.unique hchosen]

/-- The greatest of `1 max 3 max 2` is also that of `3 max (2 max 1)`. -/
theorem eval_max_of_regrouped :
    let links : List Link := [⟨.max, .number 3 ⟨6, 7, 1⟩, ⟨0, 7, 1⟩⟩,
      ⟨.max, .number 2 ⟨12, 13, 1⟩, ⟨0, 13, 1⟩⟩]
    let inner := binary .extremum .max (.number 2 ⟨12, 13, 1⟩) (.number 1 ⟨0, 1, 1⟩) ⟨0, 13, 1⟩
    ∃ x, BinOp.max.Chooses {v | v ∈ [.int 1, .int 3, .int 2]} x ∧
      ((number 1 ⟨0, 1, 1⟩).chain links).eval .empty .empty = .ok x .empty ∧
      (binary .extremum .max (.number 3 ⟨6, 7, 1⟩) inner ⟨0, 13, 1⟩).eval .empty .empty =
        .ok x .empty := by
  intro links inner
  have heval : evalAll .empty (operands (number 1 ⟨0, 1, 1⟩) links) .empty =
      .ok [.int 1, .int 3, .int 2] .empty := rfl
  have hone : OneKind [.int 1, .int 3, .int 2] := ⟨.int, by simp, by simp [Value.kind]⟩
  obtain ⟨-, hchooses, -⟩ :=
    eval_extremum_chain (.inl rfl) (by simp [links]) (by simp [links]) heval
  obtain ⟨x, hx, hchain, hgroups⟩ := hchooses hone
  have hinner : Grouped .max inner [.number 2 ⟨12, 13, 1⟩, .number 1 ⟨0, 1, 1⟩] :=
    .join _ (.operand _) (.operand _)
  refine ⟨x, hx, hchain, hgroups _ _ (.join _ (.operand _) hinner) ?_⟩
  exact List.perm_append_singleton (number 1 ⟨0, 1, 1⟩) [number 3 ⟨6, 7, 1⟩, number 2 ⟨12, 13, 1⟩]

end Expr

end Scriptlet
