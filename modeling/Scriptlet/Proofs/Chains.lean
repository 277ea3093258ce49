-- Chains of operators, such as `a + b - c`, which lean to the left. A node joins all that
-- comes before it to one more operand, so the operands have their values in order, and a
-- node that stops is where the whole chain stops.
import Mathlib.Data.List.Induction
import Scriptlet.Proofs.Slots
import Scriptlet.Proofs.Refusals

namespace Scriptlet

/-- An operator with the operand after it, and the place of the node that they make. -/
structure Link where
  op : BinOp
  operand : Expr
  span : Span

/-- The node that joins a link to what comes before it. -/
def Link.join (before : Expr) (l : Link) : Expr :=
  .binary l.op.family l.op before l.operand l.span

/-- A chain of operators that leans to the left. -/
def Expr.chain (first : Expr) (links : List Link) : Expr := links.foldl Link.join first

/-- The operands of a chain, from the left. -/
def Expr.operands (first : Expr) (links : List Link) : List Expr :=
  first :: links.map Link.operand

theorem Expr.operands_append (first : Expr) (ls more : List Link) :
    operands first (ls ++ more) = operands first ls ++ more.map Link.operand := by
  simp [operands]

variable {env : Environment} {e first : Expr} {es fs : List Expr} {l : Link}
  {links ls more : List Link} {h h₁ h₂ h' : Heap} {v w : Value} {us ws vals : List Value}
  {f : Fault}

/-! ## Values from the left -/

namespace Expr

theorem evalAll_nil_eq_ok_iff : evalAll env [] h = .ok vals h' ↔ vals = [] ∧ h' = h := by
  simp [evalAll, pure, EStateM.pure, eq_comm]

theorem evalAll_cons_eq_ok_iff : evalAll env (e :: es) h = .ok vals h' ↔
    ∃ v ws h₁, e.eval env h = .ok v h₁ ∧ evalAll env es h₁ = .ok ws h' ∧ vals = v :: ws := by
  simp only [evalAll, bind_eq_ok_iff]
  constructor
  · rintro ⟨v, h₁, hv, ws, _, hws, ⟨⟩⟩
    exact ⟨v, ws, h₁, hv, hws, rfl⟩
  · rintro ⟨v, ws, h₁, hv, hws, rfl⟩
    exact ⟨v, h₁, hv, ws, h', hws, rfl⟩

theorem length_of_evalAll (heval : evalAll env es h = .ok vals h') : vals.length = es.length := by
  induction es generalizing h vals with
  | nil => simp [(evalAll_nil_eq_ok_iff.1 heval).1]
  | cons e es ih =>
    obtain ⟨v, ws, h₁, -, hws, rfl⟩ := evalAll_cons_eq_ok_iff.1 heval
    rw [List.length_cons, List.length_cons, ih hws]

theorem exists_of_evalAll_append (heval : evalAll env (es ++ fs) h = .ok vals h') :
    ∃ us ws h₁, evalAll env es h = .ok us h₁ ∧ evalAll env fs h₁ = .ok ws h' ∧
      vals = us ++ ws := by
  induction es generalizing h vals with
  | nil => exact ⟨[], vals, h, rfl, heval, rfl⟩
  | cons e es ih =>
    obtain ⟨v, _, h₁, hv, hrest, rfl⟩ := evalAll_cons_eq_ok_iff.1 heval
    obtain ⟨us, ws, h₂, hus, hws, rfl⟩ := ih hrest
    exact ⟨v :: us, ws, h₂, evalAll_cons_eq_ok_iff.2 ⟨v, us, h₁, hv, hus, rfl⟩, hws, rfl⟩

theorem eq_nil_of_evalAll_links (heval : evalAll env (links.map Link.operand) h = .ok [] h') :
    links = [] ∧ h' = h := by
  have hlength := length_of_evalAll heval
  obtain rfl : links = [] := by simpa using hlength.symm
  exact ⟨rfl, (evalAll_nil_eq_ok_iff.1 heval).2⟩

/-- Where the values of a chain are split, its links are. -/
theorem exists_link_of_evalAll (hus : us ≠ [])
    (heval : evalAll env (operands first links) h = .ok (us ++ w :: ws) h') :
    ∃ ls l more h₁ h₂, links = ls ++ l :: more ∧ ls.length + 1 = us.length ∧
      evalAll env (operands first ls) h = .ok us h₁ ∧ l.operand.eval env h₁ = .ok w h₂ ∧
      evalAll env (more.map Link.operand) h₂ = .ok ws h' := by
  obtain ⟨n, hn⟩ : ∃ n, us.length = n + 1 := Nat.exists_eq_succ_of_ne_zero (by simpa using hus)
  have hlength : us.length + (ws.length + 1) = links.length + 1 := by
    simpa [operands] using length_of_evalAll heval
  have hlt : n < links.length := by omega
  obtain ⟨ls, l, more, rfl, hls⟩ : ∃ ls l more, links = ls ++ l :: more ∧ ls.length = n := by
    refine ⟨links.take n, links[n], links.drop (n + 1), ?_, List.length_take_of_le hlt.le⟩
    rw [← List.drop_eq_getElem_cons hlt, List.take_append_drop]
  rw [operands_append, List.map_cons] at heval
  obtain ⟨us', ws', h₁, hbefore, hafter, hvals⟩ := exists_of_evalAll_append heval
  have hus' : us'.length = us.length := by
    rw [length_of_evalAll hbefore, hn, ← hls]
    simp [operands]
  obtain ⟨rfl, rfl⟩ := List.append_inj hvals hus'.symm
  obtain ⟨_, _, h₂, hw, hws, ⟨⟩⟩ := evalAll_cons_eq_ok_iff.1 hafter
  exact ⟨ls, l, more, h₁, h₂, rfl, hls ▸ hn.symm, hbefore, hw, hws⟩

/-! ## Nodes of a chain -/

theorem chain_append : first.chain (ls ++ more) = (first.chain ls).chain more :=
  List.foldl_append ..

theorem span_chain_concat : (first.chain (ls ++ [l])).span = l.span := by
  rw [chain_append]
  rfl

theorem eval_chain_concat (hv : (first.chain ls).eval env h = .ok v h₁)
    (hw : l.operand.eval env h₁ = .ok w h₂) : (first.chain (ls ++ [l])).eval env h =
      Eval.ofExcept l.span (l.op.apply h₂ v w) h₂ := by
  rw [chain_append]
  exact eval_binary_of_eval hv hw

theorem eval_chain_of_error (heval : e.eval env h = .error f h') (more : List Link) :
    (e.chain more).eval env h = .error f h' := by
  induction more generalizing e with
  | nil => exact heval
  | cons l more ih =>
    apply ih
    unfold Link.join Expr.eval
    rw [if_pos rfl]
    exact bind_eq_error_iff.2 (.inl heval)

/-- A chain stops at its first node whose operator fails. -/
theorem eval_chain_of_apply_error {cause : FaultCause}
    (hv : (first.chain ls).eval env h = .ok v h₁) (hw : l.operand.eval env h₁ = .ok w h₂)
    (happly : l.op.apply h₂ v w = .error (.ofCause cause)) (more : List Link) :
    (first.chain (ls ++ l :: more)).eval env h =
      .error ⟨cause, some (first.chain (ls ++ [l])).span⟩ h₂ := by
  have hnode : (first.chain (ls ++ [l])).eval env h = .error ⟨cause, some l.span⟩ h₂ := by
    rw [eval_chain_concat hv hw, happly]
    rfl
  rw [List.append_cons, chain_append, span_chain_concat]
  exact eval_chain_of_error hnode more

end Expr

/-! ## Where a chain stops -/

/-- Of the beginnings of a list that do not have a property there is a shortest. -/
theorem exists_shortest_prefix {α : Type} {P : List α → Prop} {xs : List α} (hnil : P [])
    (hxs : ¬ ∀ q, q <+: xs → P q) :
    ∃ p x rest, xs = p ++ x :: rest ∧ (∀ q, q <+: p → P q) ∧ ¬ P (p ++ [x]) := by
  induction xs using List.reverseRecOn with
  | nil =>
    refine (hxs fun q hq => ?_).elim
    rwa [List.prefix_nil.1 hq]
  | append_singleton ys y ih =>
    by_cases hys : ∀ q, q <+: ys → P q
    · refine ⟨ys, y, [], rfl, hys, fun hy => hxs fun q hq => ?_⟩
      rcases List.prefix_concat_iff.1 hq with rfl | hq
      · exact hy
      · exact hys q hq
    · obtain ⟨p, x, rest, rfl, hp, hx⟩ := ih hys
      exact ⟨p, x, rest ++ [y], by simp, hp, hx⟩

end Scriptlet
