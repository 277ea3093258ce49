-- How lists change. A run stores items one position of one list at a time, where an
-- index assignment does; whatever leads to the list sees the new item, and nothing else
-- has changed. All other statements and all expressions leave the lists that were there
-- as they are, and a new list is one of its own.
import Scriptlet.Proofs.References

namespace Scriptlet

/-! ## Changes to a heap -/

namespace Heap

/-- The lists that were there have the lengths that they had, and the items that they
had at all positions but those of `slots`. -/
structure ChangesOnly (slots : ListRef → Nat → Prop) (h h' : Heap) : Prop where
  size_le : h.size ≤ h'.size
  length_eq : ∀ r < h.size, h'.length r = h.length r
  get?_eq : ∀ r < h.size, ∀ i, ¬ slots r i → h'.get? r i = h.get? r i

/-- The item `x` at the position `i` of the list `r`, and every other item of the lists
that were there as before. -/
structure Replaced (r : ListRef) (i : Nat) (x : Value) (h h' : Heap) : Prop where
  stored : h'.get? r i = some x
  changes : ChangesOnly (fun q j => q = r ∧ j = i) h h'

/-- The value at the end of a path of positions that starts at a value: each position is
one in the list that the path has come to. -/
def follow? (h : Heap) (v : Value) : List Nat → Option Value
  | [] => some v
  | i :: path => v.list?.bind fun r => (h.get? r i).bind fun v => h.follow? v path

variable {slots : ListRef → Nat → Prop} {h h' h'' : Heap} {r : ListRef} {i : Nat} {x : Value}

theorem Grows.changesOnly (hg : h.Grows h') : ChangesOnly slots h h' where
  size_le := hg.size_le
  length_eq _ hr := hg.length_eq hr
  get?_eq _ hr i _ := hg.get?_eq hr i

theorem ChangesOnly.trans (a : ChangesOnly slots h h') (b : ChangesOnly slots h' h'') :
    ChangesOnly slots h h'' where
  size_le := a.size_le.trans b.size_le
  length_eq r hr := (b.length_eq r (hr.trans_le a.size_le)).trans (a.length_eq r hr)
  get?_eq r hr i hi := (b.get?_eq r (hr.trans_le a.size_le) i hi).trans (a.get?_eq r hr i hi)

theorem ChangesOnly.mono {more : ListRef → Nat → Prop} (hc : ChangesOnly slots h h')
    (hle : ∀ r i, slots r i → more r i) : ChangesOnly more h h' where
  size_le := hc.size_le
  length_eq := hc.length_eq
  get?_eq r hr i hi := hc.get?_eq r hr i fun hslot => hi (hle r i hslot)

theorem changesOnly_set (hslot : slots r i) (h : Heap) (x : Value) :
    ChangesOnly slots h (h.set r i x) where
  size_le := Nat.le_of_eq (h.size_set r i x).symm
  length_eq q _ := h.length_set r i x q
  get?_eq q _ j hj := get?_set_ne <| by
    by_contra! hsame
    obtain ⟨rfl, rfl⟩ := hsame
    exact hj hslot

theorem Grows.replaced_set (hg : h.Grows h') (hi : i < h'.length r) (x : Value) :
    Replaced r i x h (h'.set r i x) where
  stored := get?_set_self hi
  changes := hg.changesOnly.trans (changesOnly_set ⟨rfl, rfl⟩ h' x)

theorem follow?_append (h : Heap) (v : Value) (path rest : List Nat) :
    h.follow? v (path ++ rest) = (h.follow? v path).bind fun v => h.follow? v rest := by
  induction path generalizing v with
  | nil => rfl
  | cons i path ih => simp only [List.cons_append, follow?, Option.bind_assoc, ih]

theorem follow?_cons_eq_some_iff {v : Value} {path : List Nat} :
    h.follow? v (i :: path) = some x ↔
      ∃ r y, v = .list r ∧ h.get? r i = some y ∧ h.follow? y path = some x := by
  simp only [follow?, Option.bind_eq_some_iff, Value.list?_eq_some_iff]
  constructor
  · rintro ⟨r, hr, y, hy, hpath⟩
    exact ⟨r, y, hr, hy, hpath⟩
  · rintro ⟨r, y, hr, hy, hpath⟩
    exact ⟨r, hr, y, hy, hpath⟩

/-- A value that is no list leads to none. -/
theorem follow?_ne_list {v : Value} (hv : v.list? = none) (path : List Nat) :
    h.follow? v path ≠ some (.list r) := by
  intro hpath
  cases path with
  | nil =>
    cases hpath
    cases hv
  | cons i path =>
    obtain ⟨_, _, rfl, -, -⟩ := follow?_cons_eq_some_iff.1 hpath
    cases hv

/-- What was there leads to nothing that was made later. -/
theorem Grows.lt_size_of_follow? (hg : h.Grows h') (hc : h.Closed) {v : Value} (hv : h.Holds v)
    {path : List Nat} (hpath : h'.follow? v path = some (.list r)) : r < h.size := by
  induction path generalizing v with
  | nil =>
    cases hpath
    exact hv r rfl
  | cons i path ih =>
    obtain ⟨q, y, rfl, hy, hrest⟩ := follow?_cons_eq_some_iff.1 hpath
    rw [hg.get?_eq (hv q rfl)] at hy
    exact ih (hc q y (mem_items_of_get? hy)) hrest

/-- Whatever path leads to the list, one position more leads to the new item. -/
theorem Replaced.follow? (hr : Replaced r i x h h') {v : Value} {path : List Nat}
    (hpath : h'.follow? v path = some (.list r)) : h'.follow? v (path ++ [i]) = some x := by
  rw [follow?_append, hpath]
  simp [Heap.follow?, Value.list?, hr.stored]

end Heap

/-! ## Expressions -/

/-- An index expression reads the item at the position that its index comes to, in the
list that its name is bound to. -/
theorem Expr.eval_index {env : Environment} {name : String} {position : Expr} {s : Span}
    {h h' : Heap} {r : ListRef} {n : Int64} {i : Nat} {x : Value} (hr : r < h.size)
    (hname : env.get? name = some (.list r)) (hn : position.evalInteger env h = .ok n h')
    (hi : n.toInt = i) (hx : h.get? r i = some x) :
    (Expr.index name position s).eval env h = .ok x h' := by
  have hgrows : h.Grows h' := (position.pure_evalInteger env).ok h n h' hn
  have hlt : i < h.length r := by
    refine Nat.lt_of_not_le fun hle => ?_
    rw [Heap.get?_eq_none_iff.2 hle] at hx
    cases hx
  have hitem : h'.item r n = .ok x := Heap.item_eq_ok_iff.2
    ⟨i, Heap.position_eq_ok_iff.2 ⟨hi, hgrows.length_eq hr ▸ hlt⟩, (hgrows.get?_eq hr i).trans hx⟩
  obtain ⟨v, h₁, hv, hinteger⟩ := bind_eq_ok_iff.1 hn
  unfold Expr.eval
  refine bind_eq_ok_iff.2 ⟨r, h, Eval.listNamed_eq_ok_iff.2 ⟨hname, rfl⟩, ?_⟩
  refine bind_eq_ok_iff.2 ⟨v, h₁, hv, bind_eq_ok_iff.2 ⟨n, h', hinteger, ?_⟩⟩
  exact bind_eq_ok_iff.2 ⟨h', h', rfl, Eval.ofExcept_eq_ok_iff.2 ⟨hitem, rfl⟩⟩

/-- A list literal makes a list when its items are done, after all that were there. -/
theorem Expr.exists_of_eval_list {env : Environment} {items : List Expr} {s : Span} {h h' : Heap}
    {v : Value} (heval : (Expr.list items s).eval env h = .ok v h') :
    ∃ vs h₁, Expr.evalAll env items h = .ok vs h₁ ∧ h.Grows h₁ ∧ v = .list h₁.size ∧
      h' = (h₁.alloc vs).2 := by
  unfold Expr.eval at heval
  obtain ⟨vs, h₁, hitems, heval⟩ := bind_eq_ok_iff.1 heval
  obtain ⟨_, _, ⟨⟩, ⟨⟩⟩ := bind_eq_ok_iff.1 heval
  exact ⟨vs, h₁, hitems, (Expr.pure_evalAll env items).ok h vs h₁ hitems, rfl, rfl⟩

/-! ## Statements without bodies -/

variable {σ : Type} [Output σ]

/-- Whether the statement is an index assignment that, run in the world `w`, stores an
item at the position `i` of the list `r`: its name is bound to the list, its index comes
to the position, and nothing stops it. -/
def Stmt.Stores (s : Stmt) (w : WorldOf σ) (r : ListRef) (i : Nat) : Prop :=
  ∃ name position e span n h result v, s = .indexAssign name position e span ∧
    w.env.get? name = some (.list r) ∧ position.evalInteger w.env w.heap = .ok n h ∧
    n.toInt = i ∧ s.exec w = .ok result v

namespace Stmt

variable {name : String} {position e : Expr} {span : Span} {w v : WorldOf σ} {r : ListRef}
  {i : Nat}

/-- An index assignment that is not stopped stores one item in one list. -/
theorem replaced_of_exec (hw : w.Closed) {result : Option Value}
    (h : (indexAssign name position e span).exec w = .ok result v) :
    ∃ r i x, (indexAssign name position e span).Stores w r i ∧
      w.env.get? name = some (.list r) ∧ i < w.heap.length r ∧ result = some x ∧
      v.env = w.env ∧ Heap.Replaced r i x w.heap v.heap := by
  obtain ⟨x, rfl, hdoes⟩ := (exec_eq_ok_iff (s := indexAssign ..) trivial).1 h
  cases hdoes with
  | @store _ _ _ _ n h₁ r _ h₂ i hn hname heval hi =>
    have hgrows : w.heap.Grows h₂ :=
      ((position.pure_evalInteger w.env).ok _ _ _ hn).trans ((e.pure_eval w.env).ok _ _ _ heval)
    obtain ⟨hni, hlt⟩ := Heap.position_eq_ok_iff.1 hi
    have hr : r < w.heap.size := hw.env name _ hname r rfl
    refine ⟨r, i, x, ?_, hname, hgrows.length_eq hr ▸ hlt, rfl, rfl, hgrows.replaced_set hlt x⟩
    exact ⟨name, position, e, span, n, h₁, _, _, rfl, hname, hn, hni, h⟩
  | print hprinted => cases hprinted

/-- An index assignment stops at an index that is negative or too large, and what was
there is as before. -/
theorem exec_out_of_bounds (hw : w.Closed) {n : Int64} {h₁ : Heap}
    (hname : w.env.get? name = some (.list r))
    (hn : position.evalInteger w.env w.heap = .ok n h₁)
    (hout : n.toInt < 0 ∨ w.heap.length r ≤ n.toInt) :
    ∃ f v, (indexAssign name position e span).exec w = .error f v ∧ Untouched w v ∧
      ∀ x h₂, e.eval w.env h₁ = .ok x h₂ →
        f = ⟨.indexOutOfBounds n (w.heap.length r), some span⟩ := by
  have hr : r < w.heap.size := hw.env name _ hname r rfl
  have hgrows : w.heap.Grows h₁ := (position.pure_evalInteger w.env).ok _ _ _ hn
  unfold exec
  have hlist : Eval.listNamed w.env name span h₁ = .ok r h₁ :=
    Eval.listNamed_eq_ok_iff.2 ⟨hname, rfl⟩
  rw [Exec.evaluate_bind_of_ok hn, Exec.evaluate_bind_of_ok hlist]
  cases heval : e.eval w.env h₁ with
  | ok x h₂ =>
    have hgrows₂ := hgrows.trans ((e.pure_eval w.env).ok _ _ _ heval)
    have hlength := hgrows₂.length_eq hr
    have hstop : (do Eval.ofExcept span ((← get).position r n) : Eval Nat) h₂ =
        .error ⟨.indexOutOfBounds n (w.heap.length r), some span⟩ h₂ := by
      refine bind_eq_error_iff.2 (.inr ⟨h₂, h₂, rfl, ?_⟩)
      rw [Heap.position_eq_error (hlength ▸ hout), hlength]
      rfl
    rw [Exec.evaluate_bind_of_ok heval]
    exact ⟨_, _, Exec.evaluate_bind_of_error hstop, ⟨rfl, rfl, hgrows₂⟩, fun _ _ _ => rfl⟩
  | error f h₂ =>
    have hgrows₂ := hgrows.trans ((e.pure_eval w.env).error _ _ _ heval).1
    refine ⟨f, _, Exec.evaluate_bind_of_error heval, ⟨rfl, rfl, hgrows₂⟩, ?_⟩
    rintro _ _ ⟨⟩

/-- A statement without a body changes the slots that it stores in, and no others. -/
theorem changesOnly_of_simple {s : Stmt} (hs : s.Simple) (w : WorldOf σ) :
    Heap.ChangesOnly (s.Stores w) w.heap (Exec.worldAfter s.exec w).heap := by
  cases hexec : s.exec w with
  | error f v =>
    rw [Exec.worldAfter_of_error hexec]
    cases (Stmt.atomic_exec hs).stopped w f v hexec with
    | evaluation huntouched _ => exact huntouched.heap.changesOnly
    | output _ hgrows _ _ => exact hgrows.changesOnly
  | ok result v =>
    rw [Exec.worldAfter_of_ok hexec]
    obtain ⟨x, rfl, hdoes⟩ := (exec_eq_ok_iff hs).1 hexec
    cases hdoes with
    | @assign _ e _ _ _ heval => exact ((e.pure_eval w.env).ok _ _ _ heval).changesOnly
    | @print _ e _ _ _ _ heval _ => exact ((e.pure_eval w.env).ok _ _ _ heval).changesOnly
    | @store name position e span n h₁ r _ h₂ i hn hname heval hi =>
      have hgrows : w.heap.Grows h₂ :=
        ((position.pure_evalInteger w.env).ok _ _ _ hn).trans ((e.pure_eval w.env).ok _ _ _ heval)
      refine hgrows.changesOnly.trans (Heap.changesOnly_set ?_ h₂ x)
      exact ⟨name, position, e, span, n, h₁, _, _, rfl, hname, hn,
        (Heap.position_eq_ok_iff.1 hi).1, hexec⟩

end Stmt

/-! ## Runs -/

/-- Whether a run of the program from `w` comes to an index assignment that stores an
item at the position `i` of the list `r`. -/
def Program.StoresIn (p : Program) (w : WorldOf σ) (r : ListRef) (i : Nat) : Prop :=
  ∃ s u, Reaches p.stmts w s u ∧ s.Stores u r i

theorem changesOnly_of_run (p : Program) (w : WorldOf σ) :
    Heap.ChangesOnly (p.StoresIn w) w.heap (Exec.worldAfter p.run w).heap := by
  rw [Program.worldAfter_run]
  refine Stmt.keeps_execAll (I := fun u => Heap.ChangesOnly (p.StoresIn w) w.heap u.heap) none
    p.stmts ?_ (Heap.Grows.refl w.heap).changesOnly
  constructor
  · intro e u hu
    exact hu.trans (Exec.untouched_worldAfter (fun env => e.pure_eval env) u).heap.changesOnly
  · intro s u hreaches hs hu
    refine hu.trans ((Stmt.changesOnly_of_simple hs u).mono fun r i hstores => ?_)
    exact ⟨s, u, hreaches, hstores⟩
  · intro _ _ _ _ _ _ v _ hv
    exact hv
  · intro _ _ _ _ _ _ v hv
    exact hv

/-- Lists change through index assignments and nothing else, one slot at a time. In a run
from a closed world, whether or not it comes to an end:
* each list that was there keeps its length, and the item of each of its slots that no
  index assignment which the run comes to stores in;
* an index assignment that is not stopped replaces one slot of the list that its name is
  bound to: every path that leads to the list and every name of it reads the new item
  there, and no other slot of any list changes. It is stopped at an index that is
  negative or too large, and changes nothing then;
* a list literal comes to a list that no name and no item of a list referred to. -/
theorem lists_change_by_slots (p : Program) (w : WorldOf σ) (hw : w.Closed) :
    Heap.ChangesOnly (p.StoresIn w) w.heap (Exec.worldAfter p.run w).heap ∧
    (∀ name position e span u, Reaches p.stmts w (.indexAssign name position e span) u →
      (∀ result v, (Stmt.indexAssign name position e span).exec u = .ok result v →
        ∃ r i x, (Stmt.indexAssign name position e span).Stores u r i ∧
          u.env.get? name = some (.list r) ∧ i < u.heap.length r ∧ result = some x ∧
          v.env = u.env ∧ Heap.Replaced r i x u.heap v.heap ∧
          (∀ a path, v.heap.follow? a path = some (.list r) →
            v.heap.follow? a (path ++ [i]) = some x) ∧
          ∀ other index s (n : Int64) h, v.env.get? other = some (.list r) →
            index.evalInteger v.env v.heap = .ok n h → n.toInt = i →
            (Expr.index other index s).eval v.env v.heap = .ok x h) ∧
      ∀ r (n : Int64) h, u.env.get? name = some (.list r) →
        position.evalInteger u.env u.heap = .ok n h →
        n.toInt < 0 ∨ u.heap.length r ≤ n.toInt →
        ∃ f v, (Stmt.indexAssign name position e span).exec u = .error f v ∧ Untouched u v ∧
          ∀ x h', e.eval u.env h = .ok x h' →
            f = ⟨.indexOutOfBounds n (u.heap.length r), some span⟩) ∧
    ∀ env items span h x h', h.Closed → Environment.Within env h →
      (Expr.list items span).eval env h = .ok x h' →
      ∃ r, x = .list r ∧ h.size ≤ r ∧ h'.size = r + 1 ∧
        (∀ name, env.get? name ≠ some x) ∧ ∀ q i, h.get? q i ≠ some x := by
  have hreached {s : Stmt} {u : WorldOf σ} (hreaches : Reaches p.stmts w s u) : u.Closed :=
    (WorldOf.Closed.kept p.stmts w).reached hreaches hw
  refine ⟨changesOnly_of_run p w, fun name position e span u hreaches => ⟨?_, ?_⟩, ?_⟩
  · intro result v hexec
    have hu := hreached hreaches
    obtain ⟨r, i, x, hstores, hname, hi, hresult, henv, hreplaced⟩ := Stmt.replaced_of_exec hu hexec
    refine ⟨r, i, x, hstores, hname, hi, hresult, henv, hreplaced, ?_, ?_⟩
    · intro a path
      exact hreplaced.follow?
    · intro other index s n h hother hn hni
      have hr : r < v.heap.size := (hu.env name _ hname r rfl).trans_le hreplaced.changes.size_le
      exact Expr.eval_index hr hother hn hni hreplaced.stored
  · intro r n h hname hn hout
    exact Stmt.exec_out_of_bounds (hreached hreaches) hname hn hout
  · intro env items span h x h' hc henv heval
    obtain ⟨vs, h₁, -, hgrows, rfl, rfl⟩ := Expr.exists_of_eval_list heval
    have hnew : ¬ h.Holds (.list h₁.size) := fun hold =>
      Nat.not_lt.2 hgrows.size_le (hold h₁.size rfl)
    refine ⟨h₁.size, rfl, hgrows.size_le, h₁.size_alloc vs, fun name hname => ?_, fun q i hi => ?_⟩
    · exact hnew (henv name _ hname)
    · exact hnew (hc q _ (Heap.mem_items_of_get? hi))

/-- A list that stands inside itself and holds another one, into which it is then stored:
the path that goes round it and through the other list comes back to it. -/
theorem lists_change_by_slots_round_a_cycle :
    let span : Span := ⟨0, 0, 1⟩
    let s := Stmt.indexAssign "a" (.number 1 span) (.ident "b" span) span
    let w : World := ⟨(Environment.empty.write "a" (.list 0)).write "b" (.list 1),
      ⟨#[#[.int 3, .int 4], #[.list 0, .list 1]]⟩, .unlimited⟩
    w.Closed ∧ ∃ v, s.exec w = .ok (some (.list 1)) v ∧
      v.heap.follow? (.list 1) [1, 1, 0] = some (.list 0) ∧
      v.heap.follow? (.list 1) [1, 1, 0, 1] = some (.list 1) ∧
      (Exec.worldAfter (Program.mk [s]).run w).heap.length 0 = 2 := by
  intro span s w
  have hw : w.Closed := by
    constructor
    · intro r v hv
      have hr : r < 2 := Heap.lt_size_of_mem_items hv
      obtain rfl | rfl : r = 0 ∨ r = 1 := Nat.le_one_iff_eq_zero_or_eq_one.1 (Nat.le_of_lt_succ hr)
      · obtain rfl | rfl : v = .int 3 ∨ v = .int 4 := by simpa [w, Heap.items] using hv
        all_goals exact Heap.holds_of_list?_eq_none rfl
      · obtain rfl | rfl : v = .list 0 ∨ v = .list 1 := by simpa [w, Heap.items] using hv
        all_goals exact Heap.holds_list (by decide)
    · have hempty : Environment.empty.Within w.heap := by
        rintro _ _ ⟨⟩
      exact (hempty.write (Heap.holds_list (by decide)) "a").write
        (Heap.holds_list (by decide)) "b"
  obtain ⟨hchanges, hassigned, -⟩ := lists_change_by_slots ⟨[s]⟩ w hw
  let v : World := { w with heap := w.heap.set 0 1 (.list 1) }
  have hexec : s.exec w = .ok (some (.list 1)) v := rfl
  obtain ⟨r, i, x, hstores, hname, -, hresult, -, -, hpaths, -⟩ :=
    (hassigned "a" _ _ span w .here).1 _ v hexec
  obtain ⟨_, _, _, _, n, h, _, _, hs, -, hn, hi, -⟩ := hstores
  obtain rfl : r = 0 := by
    have hbound : w.env.get? "a" = some (.list 0) := by simp [w, Environment.get?_write]
    rw [hbound] at hname
    cases hname
    rfl
  obtain rfl : i = 1 := by
    cases hs
    cases hn
    exact Int.ofNat.inj hi.symm
  cases hresult
  have hback : v.heap.follow? (.list 1) [1, 1, 0] = some (.list 0) := rfl
  exact ⟨hw, v, hexec, hback, hpaths _ _ hback, (hchanges.length_eq 0 (by decide)).trans rfl⟩

end Scriptlet
