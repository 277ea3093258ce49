-- The bindings that a run changes: those of the names that it assigns, and of the names
-- that its loops count with. A loop leaves its name unbound, and so it stays unless it is
-- assigned.
import Scriptlet.Proofs.Bindings
import Scriptlet.Proofs.Effects
import Scriptlet.Proofs.Keeping
import Scriptlet.Proofs.Outputs

namespace Scriptlet

/-! ## Names assigned and counted -/

/-- Whether the program assigns the name, at any depth. -/
def Program.Assigns (p : Program) (name : String) : Prop :=
  ∃ e s, Node.statement (.assign name e s) ∈ p.nodes

/-- Whether a loop of the program counts with the name, at any depth. -/
def Program.Counts (p : Program) (name : String) : Prop :=
  ∃ range body s, Node.statement (.loop name range body s) ∈ p.nodes

variable {σ : Type}

/-! ## Bindings that are kept -/

variable [Output σ]

/-- A statement without a body keeps all bindings but that of the name that it assigns. -/
theorem Stmt.get?_of_simple {s : Stmt} (hs : s.Simple) {name : String}
    (hnot : ∀ e span, s ≠ .assign name e span) (w : WorldOf σ) :
    (Exec.worldAfter s.exec w).env.get? name = w.env.get? name := by
  cases hexec : s.exec w with
  | error f v =>
    rw [Exec.worldAfter_of_error hexec]
    cases (Stmt.atomic_exec hs).stopped w f v hexec with
    | evaluation huntouched _ => rw [huntouched.env]
    | output henv _ _ _ => rw [henv]
  | ok result v =>
    rw [Exec.worldAfter_of_ok hexec]
    obtain ⟨x, -, hdoes⟩ := (exec_eq_ok_iff hs).1 hexec
    cases hdoes with
    | @assign other e span _ _ _ =>
      refine Environment.get?_write_ne _ fun hname => hnot e span ?_
      rw [hname]
    | store | print => rfl

/-- A name that no statement which a run comes to assigns or counts with keeps its
binding, whether or not the run comes to an end. -/
theorem Program.get?_of_run (p : Program) (w : WorldOf σ) {name : String}
    (hassigns : ∀ e s u, ¬ Reaches p.stmts w (.assign name e s) u)
    (hcounts : ∀ range body s u, ¬ Reaches p.stmts w (.loop name range body s) u) :
    (Exec.worldAfter p.run w).env.get? name = w.env.get? name := by
  rw [Program.worldAfter_run]
  refine Stmt.keeps_execAll (I := fun u => u.env.get? name = w.env.get? name) none p.stmts ?_ rfl
  constructor
  · intro e u hu
    rwa [(Exec.untouched_worldAfter (fun env => e.pure_eval env) u).env]
  · intro s u hreaches hs hu
    refine (Stmt.get?_of_simple hs (fun e span hassign => ?_) u).trans hu
    exact hassigns e span u (hassign ▸ hreaches)
  · intro var range body span u hreaches v n hv
    refine (Environment.get?_write_ne _ fun hname => ?_).trans hv
    exact hcounts range body span u (hname ▸ hreaches)
  · intro var range body span u hreaches v hv
    refine (Environment.get?_remove_ne _ fun hname => ?_).trans hv
    exact hcounts range body span u (hname ▸ hreaches)

/-! ## Names that stay unbound -/

/-- A step that, where it comes to an end, leaves a name unbound that was unbound. -/
structure LeavesUnbound {α : Type} (name : String) (step : Exec σ α) : Prop where
  unbound : ∀ w a v, step w = .ok a v → w.env.get? name = none → v.env.get? name = none

namespace LeavesUnbound

variable {α β : Type} {name var : String}

omit [Output σ]

theorem pure (a : α) : LeavesUnbound name (Pure.pure a : Exec σ α) := by
  refine ⟨fun w b v h hw => ?_⟩
  cases h
  exact hw

theorem bind {step : Exec σ α} {next : α → Exec σ β} (h : LeavesUnbound name step)
    (hnext : ∀ a, LeavesUnbound name (next a)) : LeavesUnbound name (step >>= next) := by
  refine ⟨fun w b v hstep hw => ?_⟩
  obtain ⟨a, u, hfirst, hrest⟩ := bind_eq_ok_iff.1 hstep
  exact (hnext a).unbound u b v hrest (h.unbound w a u hfirst hw)

theorem evaluate (step : Environment → Eval α) :
    LeavesUnbound name (Exec.evaluate step : Exec σ α) := by
  refine ⟨fun w a v h hw => ?_⟩
  obtain ⟨_, -, rfl⟩ := Exec.evaluate_eq_ok_iff.1 h
  exact hw

theorem assign (hvar : var ≠ name) (x : Value) :
    LeavesUnbound name (Exec.assign var x : Exec σ Unit) := by
  refine ⟨fun w a v h hw => ?_⟩
  cases h
  exact (Environment.get?_write_ne _ hvar.symm).trans hw

theorem unbind (var : String) : LeavesUnbound name (Exec.unbind var : Exec σ (Option Value)) := by
  refine ⟨fun w a v h hw => ?_⟩
  cases h
  rw [Environment.get?_remove, hw, ite_self]

theorem iterate {body : Exec σ (Option Value)} (hbody : LeavesUnbound name body)
    (hvar : var ≠ name) (stride : Int) (n : Nat) (i : Int) :
    LeavesUnbound name (Exec.iterate var body stride n i) := by
  induction n generalizing i with
  | zero => exact pure ()
  | succ n ih => exact (assign hvar _).bind fun _ => hbody.bind fun _ => ih _

/-- A name that one of the turns of a loop leaves unbound, the turns after it do too. -/
theorem iterate_after {body : Exec σ (Option Value)} (hbody : LeavesUnbound name body)
    (hvar : var ≠ name) {stride : Int} {n k : Nat} {i : Int} {w u v : WorldOf σ} (hk : k < n)
    (hturn : Exec.beforeTurn var body stride k i w = .ok () u)
    (hu : ∀ result x, body u = .ok result x → x.env.get? name = none)
    (h : Exec.iterate var body stride n i w = .ok () v) : v.env.get? name = none := by
  induction k generalizing n i w with
  | zero =>
    obtain ⟨n, rfl⟩ := Nat.exists_eq_add_one.2 hk
    rw [Exec.beforeTurn_zero] at hturn
    unfold Exec.iterate at h
    obtain ⟨⟨⟩, x, hassign, h⟩ := bind_eq_ok_iff.1 h
    cases hassign.symm.trans hturn
    obtain ⟨result, y, hfirst, hrest⟩ := bind_eq_ok_iff.1 h
    exact (hbody.iterate hvar ..).unbound y () v hrest (hu result y hfirst)
  | succ k ih =>
    obtain ⟨n, rfl⟩ := Nat.exists_eq_add_one.2 (Nat.zero_lt_of_lt hk)
    rw [Exec.beforeTurn_succ] at hturn
    unfold Exec.iterate at h
    obtain ⟨⟨⟩, x, hassign, h⟩ := bind_eq_ok_iff.1 h
    obtain ⟨⟨⟩, x', hassign', hturn⟩ := bind_eq_ok_iff.1 hturn
    cases hassign.symm.trans hassign'
    obtain ⟨result, y, hfirst, hrest⟩ := bind_eq_ok_iff.1 h
    obtain ⟨result', y', hfirst', hturn⟩ := bind_eq_ok_iff.1 hturn
    cases hfirst.symm.trans hfirst'
    exact ih (Nat.lt_of_succ_lt_succ hk) hturn hrest

end LeavesUnbound

/-- A loop that comes to an end leaves the name that it counts with unbound. -/
theorem Stmt.get?_of_loop {var : String} {range : Range} {body : List Stmt} {span : Span}
    {w v : WorldOf σ} {result : Option Value}
    (h : (loop var range body span).exec w = .ok result v) : v.env.get? var = none := by
  unfold exec Exec.forRange at h
  obtain ⟨lo, w₁, -, h⟩ := bind_eq_ok_iff.1 h
  obtain ⟨hi, w₂, -, h⟩ := bind_eq_ok_iff.1 h
  obtain ⟨⟨⟩, w₃, -, hunbind⟩ := bind_eq_ok_iff.1 h
  cases hunbind
  exact Environment.get?_remove_self ..

/-- Whether none of these nodes assigns the name. -/
def Node.Unassigned (name : String) (ns : List Node) : Prop :=
  ∀ e span, .statement (.assign name e span) ∉ ns

theorem Node.Unassigned.mono {name : String} {ns ms : List Node} (h : Unassigned name ms)
    (hle : ns ⊆ ms) : Unassigned name ns := fun e span hmem => h e span (hle hmem)

theorem Stmt.leavesUnbound_of_simple {name : String} {s : Stmt} (hs : s.Simple)
    (h : Node.Unassigned name s.nodes) :
    LeavesUnbound name (s.exec : Exec σ (Option Value)) := by
  refine ⟨fun w result v hexec hw => ?_⟩
  rw [← Exec.worldAfter_of_ok hexec, Stmt.get?_of_simple hs (fun e span hassign => ?_), hw]
  exact h e span (hassign ▸ s.mem_nodes)

mutual

theorem Stmt.leavesUnbound_exec {name : String} : (s : Stmt) → Node.Unassigned name s.nodes →
    LeavesUnbound name (s.exec : Exec σ (Option Value))
  | .assign .., h => Stmt.leavesUnbound_of_simple trivial h
  | .indexAssign .., h => Stmt.leavesUnbound_of_simple trivial h
  | .print .., h => Stmt.leavesUnbound_of_simple trivial h
  | .printLine .., h => Stmt.leavesUnbound_of_simple trivial h
  | .loop var range body span, h => by
    have hbody : LeavesUnbound name (Stmt.execAll none body : Exec σ (Option Value)) :=
      Stmt.leavesUnbound_execAll none body (h.mono fun n hn => by simp [nodes, hn])
    by_cases hvar : var = name
    · subst hvar
      exact ⟨fun w result v hexec _ => Stmt.get?_of_loop hexec⟩
    · unfold Stmt.exec
      refine (LeavesUnbound.evaluate _).bind fun lo => (LeavesUnbound.evaluate _).bind fun hi => ?_
      exact (hbody.iterate hvar ..).bind fun _ => .unbind var
  | .branch cond thenBody none span, h => by
    unfold Stmt.exec
    refine (LeavesUnbound.evaluate _).bind fun taken => ?_
    split
    · exact Stmt.leavesUnbound_execAll none thenBody (h.mono fun n hn => by simp [nodes, hn])
    · exact .pure _
  | .branch cond thenBody (some elseBody) span, h => by
    unfold Stmt.exec
    refine (LeavesUnbound.evaluate _).bind fun taken => ?_
    split
    · exact Stmt.leavesUnbound_execAll none thenBody (h.mono fun n hn => by simp [nodes, hn])
    · exact Stmt.leavesUnbound_execAll none elseBody (h.mono fun n hn => by simp [nodes, hn])

/-- Statements that do not assign a name leave it unbound if it was unbound, whatever their
loops count with. -/
theorem Stmt.leavesUnbound_execAll {name : String} (last : Option Value) : (ss : List Stmt) →
    Node.Unassigned name (Stmt.allNodes ss) →
    LeavesUnbound name (Stmt.execAll last ss : Exec σ (Option Value))
  | [], _ => by
    unfold Stmt.execAll
    exact .pure _
  | s :: ss, h => by
    unfold Stmt.execAll
    refine (Stmt.leavesUnbound_exec s (h.mono (List.subset_append_left ..))).bind fun last => ?_
    exact Stmt.leavesUnbound_execAll last ss (h.mono (List.subset_append_right ..))

end

/-! ## Runs -/

/-- A name that the first of some statements leaves unbound, the others do too. -/
theorem Stmt.get?_of_first {name : String} {s : Stmt} {ss : List Stmt} {w v : WorldOf σ}
    (h : Node.Unassigned name (Stmt.allNodes (s :: ss))) {last result : Option Value}
    (hexec : execAll last (s :: ss) w = .ok result v)
    (hs : ∀ result x, s.exec w = .ok result x → x.env.get? name = none) :
    v.env.get? name = none := by
  unfold execAll at hexec
  obtain ⟨r, x, hfirst, hexec⟩ := bind_eq_ok_iff.1 hexec
  have hrest := leavesUnbound_execAll (σ := σ) r ss (h.mono (List.subset_append_right ..))
  exact hrest.unbound x result v hexec (hs r x hfirst)

/-- If a run comes to an end that comes to a loop, the name of the loop is unbound then,
unless a statement assigns it. -/
theorem Stmt.get?_of_reaches_loop {ss : List Stmt} {s : Stmt} {w u : WorldOf σ}
    (hreaches : Reaches ss w s u) {name : String} {range : Range} {body : List Stmt} {span : Span}
    (hs : s = .loop name range body span) (h : Node.Unassigned name (Stmt.allNodes ss))
    {last result : Option Value} {v : WorldOf σ} (hexec : execAll last ss w = .ok result v) :
    v.env.get? name = none := by
  induction hreaches generalizing last result v with
  | here =>
    subst hs
    exact Stmt.get?_of_first h hexec fun _ _ => Stmt.get?_of_loop
  | next hfirst _ ih =>
    unfold execAll at hexec
    obtain ⟨r, x, hfirst', hexec⟩ := bind_eq_ok_iff.1 hexec
    cases hfirst.symm.trans hfirst'
    exact ih hs (h.mono (List.subset_append_right ..)) hexec
  | @thenBody cond thenBody elseBody _ _ _ _ _ _ htaken _ ih =>
    refine Stmt.get?_of_first h hexec fun r x hbranch => ?_
    rw [Stmt.exec_of_taken htaken] at hbranch
    refine ih hs (h.mono fun n hn => ?_) hbranch
    cases elseBody <;> simp [allNodes, nodes, hn]
  | elseBody htaken _ ih =>
    refine Stmt.get?_of_first h hexec fun r x hbranch => ?_
    rw [Stmt.exec_of_not_taken htaken] at hbranch
    refine ih hs (h.mono fun n hn => ?_) hbranch
    simp [allNodes, nodes, hn]
  | @body var _ body _ _ _ _ _ _ _ _ _ _ _ hlo hhi hn hturn _ ih =>
    have hbody : Node.Unassigned name (allNodes body) :=
      h.mono fun n hn => by simp [allNodes, nodes, hn]
    refine Stmt.get?_of_first h hexec fun r x hloop => ?_
    by_cases hvar : var = name
    · subst hvar
      exact Stmt.get?_of_loop hloop
    unfold exec Exec.forRange at hloop
    obtain ⟨lo, w₁, hlo', hloop⟩ := bind_eq_ok_iff.1 hloop
    cases hlo.symm.trans hlo'
    obtain ⟨hi, w₂, hhi', hloop⟩ := bind_eq_ok_iff.1 hloop
    cases hhi.symm.trans hhi'
    obtain ⟨⟨⟩, w₃, hiterate, hunbind⟩ := bind_eq_ok_iff.1 hloop
    refine (LeavesUnbound.unbind var).unbound w₃ r x hunbind ?_
    exact (leavesUnbound_execAll none body hbody).iterate_after hvar hn hturn
      (fun _ _ hturned => ih hs hbody hturned) hiterate

theorem Program.exists_execAll_of_run {p : Program} {w v : WorldOf σ} {result : Option Value}
    (h : p.run w = .ok result v) :
    ∃ u, Stmt.execAll none p.stmts w = .ok result u ∧ v.env = u.env := by
  cases hexec : Stmt.execAll none p.stmts w with
  | error f u =>
    rw [Program.run_of_error hexec] at h
    cases h
  | ok r u =>
    have henv : v.env = u.env := by
      rw [← Exec.worldAfter_of_ok h, Program.worldAfter_run, Exec.worldAfter_of_ok hexec]
    unfold run at h
    rw [hexec] at h
    obtain ⟨_, _, -, ⟨⟩⟩ := bind_eq_ok_iff.1 h
    exact ⟨u, rfl, henv⟩

/-- The bindings that a run changes. Whether or not it comes to an end,
* a name that the program neither assigns nor counts with is bound as it was;
* a name that is bound after it was bound before, or the program assigns it or counts
  with it.

If it comes to an end, a name that the program does not assign is unbound then where the run
has come to a loop that counts with it, and else bound as it was. -/
theorem bindings_of_run (p : Program) (w : WorldOf σ) :
    (∀ name, ¬ p.Assigns name → ¬ p.Counts name →
      (Exec.worldAfter p.run w).env.get? name = w.env.get? name) ∧
    (∀ name, (Exec.worldAfter p.run w).env.contains name →
      w.env.contains name ∨ p.Assigns name ∨ p.Counts name) ∧
    ∀ result v, p.run w = .ok result v → ∀ name, ¬ p.Assigns name →
      ((∃ range body s u, Reaches p.stmts w (.loop name range body s) u) →
        v.env.get? name = none) ∧
      ((∀ range body s u, ¬ Reaches p.stmts w (.loop name range body s) u) →
        v.env.get? name = w.env.get? name) := by
  have hnever {name : String} (hassigns : ¬ p.Assigns name) (e : Expr) (s : Span) (u : WorldOf σ) :
      ¬ Reaches p.stmts w (.assign name e s) u := fun hreaches =>
    hassigns ⟨e, s, hreaches.nodes_subset (Stmt.mem_nodes _)⟩
  have hkept {name : String} (hassigns : ¬ p.Assigns name) (hcounts : ¬ p.Counts name) :
      (Exec.worldAfter p.run w).env.get? name = w.env.get? name := by
    refine p.get?_of_run w (hnever hassigns) fun range body s u hreaches => hcounts ?_
    exact ⟨range, body, s, hreaches.nodes_subset (Stmt.mem_nodes _)⟩
  refine ⟨fun name => hkept, fun name hbound => ?_, fun result v hrun name hassigns => ⟨?_, ?_⟩⟩
  · by_contra! hnot
    obtain ⟨hunbound, hassigns, hcounts⟩ := hnot
    refine hunbound ?_
    unfold Environment.contains at hbound ⊢
    rwa [← hkept hassigns hcounts]
  · rintro ⟨range, body, s, u, hreaches⟩
    obtain ⟨x, hexec, henv⟩ := Program.exists_execAll_of_run hrun
    rw [henv]
    exact Stmt.get?_of_reaches_loop hreaches rfl (fun e s hmem => hassigns ⟨e, s, hmem⟩) hexec
  · intro hcounts
    rw [← Exec.worldAfter_of_ok hrun]
    exact p.get?_of_run w (hnever hassigns) hcounts

/-- A loop that counts with the name of the loop around it, and one in a branch that is not
taken: the first name is unbound at the end, and the second one is bound as it was. -/
theorem bindings_of_nested_loops :
    let span : Span := ⟨0, 0, 1⟩
    let range : Range := ⟨.number 1 span, .number 1 span, span⟩
    let cond := Expr.binary .comparison .gt (.number 1 span) (.number 2 span) span
    let p := Program.mk [
      .branch cond [.loop "k" range [] span] none span,
      .loop "i" range [.loop "i" range [.assign "n" (.ident "i" span) span] span] span]
    let w : World := ⟨(Environment.empty.write "i" (.int 5)).write "k" (.int 9), ⟨#[]⟩, .unlimited⟩
    ¬ p.Assigns "i" ∧ ¬ p.Assigns "k" ∧ ∃ result v, p.run w = .ok result v ∧
      v.env.get? "i" = none ∧ v.env.get? "k" = some (.int 9) := by
  intro span range cond p w
  have hassigns {name : String} (hne : name ≠ "n") : ¬ p.Assigns name := by
    rintro ⟨e, s, hmem⟩
    simp [p, cond, range, Program.nodes, Stmt.allNodes, Stmt.nodes, Range.nodes, Expr.nodes, hne]
      at hmem
  obtain ⟨result, v, hrun⟩ : ∃ result v, p.run w = .ok result v := ⟨_, _, rfl⟩
  have hskipped (range' body s u) : ¬ Reaches p.stmts w (.loop "k" range' body s) u := by
    have hcond : Exec.evaluate (fun env => cond.evalBoolean env) w = .ok false w := rfl
    intro hreaches
    cases hreaches with
    | thenBody htaken _ => cases hcond.symm.trans htaken
    | next _ hreaches =>
      have hmem := hreaches.nodes_subset (Stmt.mem_nodes _)
      simp [range, Stmt.allNodes, Stmt.nodes, Range.nodes, Expr.nodes] at hmem
  obtain ⟨-, -, hbound⟩ := bindings_of_run p w
  refine ⟨hassigns (by decide), hassigns (by decide), result, v, hrun, ?_, ?_⟩
  · have hbranch : (Stmt.branch cond [.loop "k" range [] span] none span).exec w = .ok none w := rfl
    exact (hbound result v hrun "i" (hassigns (by decide))).1
      ⟨_, _, _, _, .next hbranch .here⟩
  · rw [(hbound result v hrun "k" (hassigns (by decide))).2 hskipped]
    rfl

end Scriptlet
