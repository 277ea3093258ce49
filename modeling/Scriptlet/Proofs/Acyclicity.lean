-- Where cycles come from. A new list holds values that were there before it, so it is not
-- among the lists that they lead to, and it takes an index assignment to store a list into
-- one that is older. A program without index assignments makes no list contain itself, and
-- no text of it shows a list as `[...]`.
import Mathlib
import Scriptlet.Proofs.Display
import Scriptlet.Proofs.Visiting

namespace Scriptlet

namespace Heap

/-- Whether each list that a value leads to is in the heap, and none that contains itself. -/
def Acyclic (h : Heap) (v : Value) : Prop :=
  ∀ path r, h.follow? v path = some (.list r) → r < h.size ∧ ¬ h.ContainsItself r

variable {h h' : Heap} {v x : Value} {r : ListRef} {path : List Nat}

/-! ## Values that lead to no cycle -/

/-- Where every list refers to older ones only, a value that refers to lists below `n` leads
to no others. -/
theorem lt_of_follow? (hold : ∀ r q, .list q ∈ h.items r → q < r) {n : Nat}
    (hv : ∀ q, v = .list q → q < n) (hpath : h.follow? v path = some (.list r)) : r < n := by
  induction path generalizing v with
  | nil =>
    cases hpath
    exact hv r rfl
  | cons i path ih =>
    obtain ⟨p, x, rfl, hx, hrest⟩ := follow?_cons_eq_some_iff.1 hpath
    refine ih (fun q hq => ?_) hrest
    subst hq
    exact (hold p q (mem_items_of_get? hx)).trans (hv p rfl)

theorem not_containsItself_of_older (hold : ∀ r q, .list q ∈ h.items r → q < r) (r : ListRef) :
    ¬ h.ContainsItself r := by
  rintro ⟨round, hne, hback⟩
  obtain ⟨i, rest, rfl⟩ := List.exists_cons_of_ne_nil hne
  obtain ⟨_, x, ⟨⟩, hx, hrest⟩ := follow?_cons_eq_some_iff.1 hback
  refine Nat.lt_irrefl r (lt_of_follow? hold (fun q hq => ?_) hrest)
  subst hq
  exact hold r q (mem_items_of_get? hx)

/-- In a closed heap without cycles no value leads to one. -/
theorem acyclic_of_closed (hc : h.Closed) (hno : ∀ r, ¬ h.ContainsItself r) (hv : h.Holds v) :
    h.Acyclic v :=
  fun _ r hpath => ⟨(Grows.refl h).lt_size_of_follow? hc hv hpath, hno r⟩

namespace Acyclic

theorem of_follow? (hv : h.Acyclic v) (hpath : h.follow? v path = some x) : h.Acyclic x := by
  intro rest r hrest
  refine hv (path ++ rest) r ?_
  rw [follow?_append, hpath, Option.bind_some, hrest]

theorem of_get? (hr : h.Acyclic (.list r)) {i : Nat} (hx : h.get? r i = some x) :
    h.Acyclic x := by
  have hpath : h.follow? (.list r) [i] = some x :=
    follow?_cons_eq_some_iff.2 ⟨r, x, rfl, hx, rfl⟩
  exact hr.of_follow? hpath

/-- More lists are none that the value leads to. -/
theorem follow?_eq (hv : h.Acyclic v) (hg : h.Grows h') (path : List Nat) :
    h'.follow? v path = h.follow? v path := by
  induction path generalizing v with
  | nil => rfl
  | cons i path ih =>
    unfold follow?
    cases hlist : v.list? with
    | none => rfl
    | some r =>
      obtain rfl := Value.list?_eq_some_iff.1 hlist
      have hr : r < h.size := (hv [] r rfl).1
      rw [Option.bind_some, Option.bind_some, hg.get?_eq hr]
      cases hx : h.get? r i with
      | none => rfl
      | some x => exact ih (hv.of_get? hx)

theorem mono (hv : h.Acyclic v) (hg : h.Grows h') : h'.Acyclic v := by
  intro path r hpath
  rw [hv.follow?_eq hg] at hpath
  obtain ⟨hr, hno⟩ := hv path r hpath
  refine ⟨hr.trans_le hg.size_le, ?_⟩
  rintro ⟨round, hne, hback⟩
  rw [(hv.of_follow? hpath).follow?_eq hg] at hback
  exact hno ⟨round, hne, hback⟩

theorem of_list?_eq_none (hv : v.list? = none) : h.Acyclic v :=
  fun path _ hpath => absurd hpath (follow?_ne_list hv path)

/-- The items of a new list do not lead to it. -/
theorem alloc {vs : List Value} (hvs : ∀ v ∈ vs, h.Acyclic v) :
    (h.alloc vs).2.Acyclic (.list h.size) := by
  have hgrows := h.grows_alloc vs
  have hitem {i : Nat} {x : Value} (hx : (h.alloc vs).2.get? h.size i = some x) : h.Acyclic x :=
    hvs x (h.items_alloc_self vs ▸ mem_items_of_get? hx)
  intro path r hpath
  cases path with
  | nil =>
    cases hpath
    refine ⟨by rw [size_alloc]; exact Nat.lt_succ_self _, ?_⟩
    rintro ⟨round, hne, hback⟩
    obtain ⟨i, rest, rfl⟩ := List.exists_cons_of_ne_nil hne
    obtain ⟨_, x, ⟨⟩, hx, hrest⟩ := follow?_cons_eq_some_iff.1 hback
    rw [(hitem hx).follow?_eq hgrows] at hrest
    exact Nat.lt_irrefl _ (hitem hx rest _ hrest).1
  | cons i rest =>
    obtain ⟨_, x, ⟨⟩, hx, hrest⟩ := follow?_cons_eq_some_iff.1 hpath
    exact (hitem hx).mono hgrows rest r hrest

end Acyclic

/-! ## Texts without marks -/

/-- Whether the text of a value shows no list as `[...]`. -/
def Unmarked (h : Heap) (v : Value) : Prop :=
  ∃ o : Outline, h.display v = o.text ∧ h.Outlines [] v o ∧ ∀ path, o.at? path ≠ some .again

theorem Acyclic.unmarked (hv : h.Acyclic v) : h.Unmarked v := by
  obtain ⟨o, htext, ho⟩ := exists_outline h [] v
  refine ⟨o, htext, ho, fun path hpath => ?_⟩
  obtain ⟨r, ⟨path, hpath⟩, hr⟩ := (exists_mark_iff ho).1 ⟨path, hpath⟩
  exact (hv path r hpath).2 hr

/-! ## Heaps that grow without cycles -/

/-- The lists of `h` as they were, and more lists, none of which leads to a cycle. -/
structure GrowsAcyclic (h h' : Heap) : Prop where
  grows : h.Grows h'
  added : ∀ r, h.size ≤ r → r < h'.size → h'.Acyclic (.list r)

theorem GrowsAcyclic.refl (h : Heap) : h.GrowsAcyclic h :=
  ⟨.refl h, fun _ hle hlt => absurd hlt (Nat.not_lt.2 hle)⟩

/-- A path either stays in the lists that were there, or comes through a new one. -/
theorem Grows.follow?_or (hg : h.Grows h') (hpath : h'.follow? v path = some x) :
    h.follow? v path = some x ∨
      ∃ q rest, h.size ≤ q ∧ q < h'.size ∧ h'.follow? (.list q) rest = some x := by
  induction path generalizing v with
  | nil => exact .inl hpath
  | cons i path ih =>
    obtain ⟨q, y, rfl, hy, hrest⟩ := follow?_cons_eq_some_iff.1 hpath
    rcases Nat.lt_or_ge q h.size with hlt | hge
    · rw [hg.get?_eq hlt] at hy
      exact (ih hrest).imp_left fun hold => follow?_cons_eq_some_iff.2 ⟨q, y, rfl, hy, hold⟩
    · exact .inr ⟨q, i :: path, hge, lt_size_of_mem_items (mem_items_of_get? hy), hpath⟩

/-- A list that contains itself did so before. -/
theorem GrowsAcyclic.containsItself (hg : h.GrowsAcyclic h') (hr : h'.ContainsItself r) :
    h.ContainsItself r := by
  have ⟨round, hne, hback⟩ := hr
  rcases hg.grows.follow?_or hback with hold | ⟨q, rest, hge, hlt, hrest⟩
  · exact ⟨round, hne, hold⟩
  · exact absurd hr (hg.added q hge hlt rest r hrest).2

/-- Evaluation makes no cycle. -/
theorem acyclic_invariant (start : Heap) : ValueInvariant start.GrowsAcyclic Acyclic where
  mono hg hv := hv.mono hg
  scalar := Acyclic.of_list?_eq_none
  item _ hr hv := by
    obtain ⟨i, hi⟩ := mem_items_iff.1 hv
    exact hr.of_get? hi
  alloc {h vs} hc hvs := by
    have hgrows := h.grows_alloc vs
    have hnew := Acyclic.alloc hvs
    refine ⟨⟨hc.grows.trans hgrows, fun r hle hlt => ?_⟩, hnew⟩
    rw [size_alloc] at hlt
    rcases Nat.lt_succ_iff_lt_or_eq.1 hlt with hlt | rfl
    · exact (hc.added r hle hlt).mono hgrows
    · exact hnew

end Heap

/-! ## Runs -/

/-- Whether the program has no index assignment, at any depth. -/
def Program.NeverStores (p : Program) : Prop :=
  ∀ name position e span, .statement (.indexAssign name position e span) ∉ p.nodes

variable {σ : Type} [Output σ]

theorem Program.NeverStores.keepsStores {p : Program} (hp : p.NeverStores)
    (C : Heap → Prop) (V : Heap → Value → Prop) (w : WorldOf σ) : KeepsStores C V p.stmts w :=
  fun name position e span _ hreaches _ =>
    absurd (hreaches.nodes_subset (Stmt.mem_nodes _)) (hp name position e span)

/-- Only index assignments make cycles. If a program has none, and no name leads to a list
that contains itself when it starts, then
* in every world that it comes to the lists of the start are as they were, no name leads to
  a list that contains itself, and no list contains itself that did not at the start;
* what it prints are texts of values, and none of them shows a list as `[...]`;
* neither does the message that it stops with, if it stops. -/
theorem acyclic_of_run (p : Program) (w : WorldOf σ) (hp : p.NeverStores)
    (hw : w.env.Each w.heap.Acyclic) :
    (∀ v, p.Visits w v → w.heap.Grows v.heap ∧ v.env.Each v.heap.Acyclic ∧
      ∀ r, v.heap.ContainsItself r → w.heap.ContainsItself r) ∧
    (∃ texts, (Exec.worldAfter p.run w).sink = (Output.flush (Output.after w.sink texts)).1 ∧
      ∀ text ∈ texts, ∃ h x ending, p.Prints w h x ending ∧ text = h.display x ++ ending ∧
        h.Unmarked x) ∧
    ∀ f v, p.run w = .error f v → f.cause.Describes v.heap v.heap.Unmarked := by
  have hI := Heap.acyclic_invariant w.heap
  have hstores := hp.keepsStores w.heap.GrowsAcyclic Heap.Acyclic w
  have hstart : w.Has w.heap.GrowsAcyclic Heap.Acyclic := ⟨.refl w.heap, hw⟩
  refine ⟨fun v hv => ?_, ?_, fun f v hrun => ?_⟩
  · have hvisited := hI.has_of_visits hstores hstart hv
    exact ⟨hvisited.heap.grows, hvisited.env, fun r => hvisited.heap.containsItself⟩
  · obtain ⟨s, hsink, texts, rfl, htexts⟩ := p.exists_hasPrinted w
    refine ⟨texts, hsink, fun text htext => ?_⟩
    obtain ⟨h, x, ending, hprints, rfl⟩ := htexts text htext
    exact ⟨h, x, ending, hprints, rfl, (hI.of_prints hstores hstart hprints).unmarked⟩
  · exact (hI.describes_of_run hstores hstart hrun).mono fun _ hx => hx.unmarked

/-- An index assignment stores a list into itself, and the list is shown so. -/
example :
    let span : Span := ⟨0, 0, 1⟩
    let a := Expr.ident "a" span
    let p : Program := ⟨[.indexAssign "a" (.number 0 span) a span, .print a span]⟩
    let w : World := ⟨Environment.empty.write "a" (.list 0), ⟨#[#[.int 7]]⟩, .unlimited⟩
    (Exec.worldAfter p.run w).sink.written = "[[...]]".toUTF8 := by
  cbv

/-- A loop that puts the list of the turn before into a new one each time, and a sum that
stops at the last of them. -/
theorem acyclic_of_nested_lists :
    let span : Span := ⟨0, 0, 1⟩
    let a := Expr.ident "a" span
    let nest := Stmt.assign "a" (.list [a, .ident "i" span] span) span
    let bounds : Range := ⟨.number 1 span, .number 2 span, span⟩
    let sum := Expr.binary .sum .add (.number 1 span) a span
    let p : Program := ⟨[.loop "i" bounds [nest] span, .printLine a span, .print sum span]⟩
    let w : World := ⟨Environment.empty.write "a" (.list 1), ⟨#[#[], #[.list 0]]⟩, .unlimited⟩
    let h : Heap := ⟨#[#[], #[.list 0], #[.list 1, .int 1], #[.list 2, .int 2]]⟩
    let f : Fault := ⟨.unsupportedOperation "+" "int 1" "list [[[[]], 1], 2]", some span⟩
    p.NeverStores ∧ w.env.Each w.heap.Acyclic ∧
      p.run w = .error f ⟨Environment.empty.write "a" (.list 3), h,
        ⟨"[[[[]], 1], 2]\n".toUTF8, none, false⟩⟩ ∧
      (∀ r, ¬ h.ContainsItself r) ∧ f.cause.Describes h h.Unmarked := by
  intro span a nest bounds sum p w h f
  have hitem : ∀ r, ∀ x ∈ w.heap.items r, r = 1 ∧ x = .list 0 := by
    intro r x hx
    have hr : r < 2 := Heap.lt_size_of_mem_items hx
    obtain rfl | rfl : r = 0 ∨ r = 1 := Nat.le_one_iff_eq_zero_or_eq_one.1 (Nat.le_of_lt_succ hr)
    · cases hx
    · exact ⟨rfl, List.mem_singleton.1 hx⟩
  have hclosed : w.heap.Closed := by
    intro r x hx
    obtain ⟨-, rfl⟩ := hitem r x hx
    exact Heap.holds_list (by decide)
  have hno : ∀ r, ¬ w.heap.ContainsItself r := by
    refine Heap.not_containsItself_of_older fun r q hq => ?_
    obtain ⟨rfl, ⟨⟩⟩ := hitem r _ hq
    exact Nat.zero_lt_one
  have hp : p.NeverStores := by
    intro name position e s hmem
    simp [p, Program.nodes, Stmt.allNodes, Stmt.nodes, Range.nodes, Expr.nodes, Expr.allNodes,
      bounds, nest, sum, a] at hmem
  have hw : w.env.Each w.heap.Acyclic := by
    have hempty : Environment.empty.Each w.heap.Acyclic := by
      rintro _ _ ⟨⟩
    exact hempty.write (Heap.acyclic_of_closed hclosed hno (Heap.holds_list (by decide))) "a"
  have hrun : p.run w = .error f ⟨Environment.empty.write "a" (.list 3), h,
      ⟨"[[[[]], 1], 2]\n".toUTF8, none, false⟩⟩ := by cbv
  obtain ⟨hvisits, -, hfault⟩ := acyclic_of_run p w hp hw
  have hend := (hvisits _ (.inr (.inr rfl))).2.2
  rw [Exec.worldAfter_of_error hrun] at hend
  exact ⟨hp, hw, hrun, fun r hr => hno r (hend r hr), hfault f _ hrun⟩

end Scriptlet
