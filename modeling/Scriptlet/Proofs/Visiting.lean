-- The worlds that a run visits: those before and after its statements, those between the
-- turns of its loops, and those inside its expressions, whose operands may have made lists
-- by then. What a run keeps, all of them have.
import Scriptlet.Proofs.ValueInvariants.Runs

namespace Scriptlet

/-! ## Inside an expression -/

/-- The heap that a step leaves, whether or not it comes to a value. -/
def Eval.heapAfter {α : Type} (step : Eval α) (h : Heap) : Heap :=
  match step h with
  | .ok _ h' | .error _ h' => h'

/-- `e.Visits env h h'`: the heap is `h'` at some point while `e` is evaluated in `env` from
the heap `h`. -/
inductive Expr.Visits (env : Environment) : Expr → Heap → Heap → Prop
  | before {e h} : Visits env e h h
  | after {e h} : Visits env e h (Eval.heapAfter (e.eval env) h)
  | item {es e rest span h vs h₁ h'} : Expr.evalAll env es h = .ok vs h₁ →
    Visits env e h₁ h' → Visits env (.list (es ++ e :: rest) span) h h'
  | position {name position span h r h₁ h'} : Eval.listNamed env name span h = .ok r h₁ →
    Visits env position h₁ h' → Visits env (.index name position span) h h'
  | lhs {op lhs rhs span h h'} : Visits env lhs h h' →
    Visits env (.binary op.family op lhs rhs span) h h'
  | rhs {op lhs rhs span h v h₁ h'} : lhs.eval env h = .ok v h₁ → Visits env rhs h₁ h' →
    Visits env (.binary op.family op lhs rhs span) h h'

/-- `s.Evaluates env h e h'`: run with the bindings `env` from the heap `h`, the statement
evaluates `e` before any body of it, and the heap is `h'` then. -/
inductive Stmt.Evaluates (env : Environment) (h : Heap) : Stmt → Expr → Heap → Prop
  | assigned {name e span} : Evaluates env h (.assign name e span) e h
  | position {name position e span} :
    Evaluates env h (.indexAssign name position e span) position h
  | stored {name position e span n h₁ r h₂} : position.evalInteger env h = .ok n h₁ →
    Eval.listNamed env name span h₁ = .ok r h₂ →
    Evaluates env h (.indexAssign name position e span) e h₂
  | printed {s e ending} : s.printed? = some (e, ending) → Evaluates env h s e h
  | low {var range body span} : Evaluates env h (.loop var range body span) range.lo h
  | high {var range body span lo h₁} : range.lo.evalInteger env h = .ok lo h₁ →
    Evaluates env h (.loop var range body span) range.hi h₁
  | condition {cond thenBody elseBody span} :
    Evaluates env h (.branch cond thenBody elseBody span) cond h

/-! ## Runs -/

variable {σ : Type} [Output σ]

/-- `Visits ss w v`: while the statements `ss` run from the world `w`, it is `v` at some
point. -/
inductive Visits (ss : List Stmt) (w : WorldOf σ) : WorldOf σ → Prop
  | before {s u} : Reaches ss w s u → Visits ss w u
  | inside {s u e h h'} : Reaches ss w s u → s.Evaluates u.env u.heap e h →
    e.Visits u.env h h' → Visits ss w { u with heap := h' }
  | turn {var range body span u u₁ u₂ lo hi n v} :
    Reaches ss w (.loop var range body span) u →
    Exec.evaluate (fun env => range.lo.evalInteger env) u = .ok lo u₁ →
    Exec.evaluate (fun env => range.hi.evalInteger env) u₁ = .ok hi u₂ →
    n < Exec.iterations lo hi →
    Exec.beforeTurn var (Stmt.execAll none body) (Exec.stride lo hi) n lo.toInt u₂ = .ok () v →
    Visits ss w v
  | turns {var range body span u u₁ u₂ lo hi n v} :
    Reaches ss w (.loop var range body span) u →
    Exec.evaluate (fun env => range.lo.evalInteger env) u = .ok lo u₁ →
    Exec.evaluate (fun env => range.hi.evalInteger env) u₁ = .ok hi u₂ →
    n ≤ Exec.iterations lo hi →
    Exec.iterate var (Stmt.execAll none body) (Exec.stride lo hi) n lo.toInt u₂ = .ok () v →
    Visits ss w v
  | after {s u} : Reaches ss w s u → Visits ss w (Exec.worldAfter s.exec u)

/-- Whether the world is `v` at some point of a run of the program from `w`, from its start
to the flush at its end. -/
def Program.Visits (p : Program) (w v : WorldOf σ) : Prop :=
  v = w ∨ Scriptlet.Visits p.stmts w v ∨ v = Exec.worldAfter p.run w

/-- All that a run visits outside of expressions has what the run keeps. -/
theorem Kept.visits {I : WorldOf σ → Prop} {ss : List Stmt} {w v : WorldOf σ}
    (h : Kept I ss w) (hw : I w)
    (hinside : ∀ (s : Stmt) (u : WorldOf σ) (e : Expr) (h h' : Heap), I u →
      s.Evaluates u.env u.heap e h → e.Visits u.env h h' → I { u with heap := h' })
    (hv : Visits ss w v) : I v := by
  have hloop {var range body span u u₁ u₂ lo hi}
      (hreaches : Reaches ss w (.loop var range body span) u)
      (hlo : Exec.evaluate (fun env => range.lo.evalInteger env) u = .ok lo u₁)
      (hhi : Exec.evaluate (fun env => range.hi.evalInteger env) u₁ = .ok hi u₂) :
      KeptByTurns I var (Stmt.execAll none body) (Exec.stride lo hi) (Exec.iterations lo hi)
        lo.toInt u₂ ∧ I u₂ := by
    have hu : I u := h.reached hreaches hw
    have hu₁ : I u₁ := Exec.worldAfter_of_ok hlo ▸ h.integer range.lo hu
    have hu₂ : I u₂ := Exec.worldAfter_of_ok hhi ▸ h.integer range.hi hu₁
    exact ⟨(h.alone hreaches).turns hlo hhi, hu₂⟩
  cases hv with
  | before hreaches => exact h.reached hreaches hw
  | inside hreaches hevaluates hvisits =>
    exact hinside _ _ _ _ _ (h.reached hreaches hw) hevaluates hvisits
  | turn hreaches hlo hhi hn hturn =>
    obtain ⟨hturns, hu₂⟩ := hloop hreaches hlo hhi
    exact hturns.beforeTurn hn hu₂ hturn
  | turns hreaches hlo hhi hn hiterate =>
    obtain ⟨hturns, hu₂⟩ := hloop hreaches hlo hhi
    exact Exec.worldAfter_of_ok hiterate ▸ (hturns.fewer hn).iterate hu₂
  | @after s u hreaches => exact Stmt.keeps_exec s (h.alone hreaches) (h.reached hreaches hw)

/-! ## Values -/

namespace ValueInvariant

variable {C : Heap → Prop} {V : Heap → Value → Prop} {env : Environment} {e : Expr} {h h' : Heap}

omit [Output σ] in
/-- Evaluation visits heaps that have grown from the one that it starts in. -/
theorem grows_of_visits (hI : ValueInvariant C V) (hvisits : e.Visits env h h') (hc : C h)
    (henv : env.Each (V h)) : h.Grows h' ∧ C h' := by
  induction hvisits with
  | @before _ h => exact ⟨.refl h, hc⟩
  | @after e h =>
    have hkeeps := e.keeps_eval hI hc henv
    unfold Eval.heapAfter
    cases hend : e.eval env h with
    | ok v h' =>
      obtain ⟨hgrows, hc', -⟩ := hkeeps.ok v h' hend
      exact ⟨hgrows, hc'⟩
    | error f h' =>
      obtain ⟨hgrows, hc', -⟩ := hkeeps.error f h' hend
      exact ⟨hgrows, hc'⟩
  | @item es _ _ _ _ _ _ _ hes _ ih =>
    obtain ⟨hgrows, hc₁, -⟩ := (Expr.keeps_evalAll hI es hc henv).ok _ _ hes
    obtain ⟨hgrows', hc'⟩ := ih hc₁ (henv.mono fun _ => hI.mono hgrows)
    exact ⟨hgrows.trans hgrows', hc'⟩
  | position hlist _ ih =>
    obtain ⟨-, rfl⟩ := Eval.listNamed_eq_ok_iff.1 hlist
    exact ih hc henv
  | lhs _ ih => exact ih hc henv
  | @rhs _ lhs _ _ _ _ _ _ hlhs _ ih =>
    obtain ⟨hgrows, hc₁, -⟩ := (lhs.keeps_eval hI hc henv).ok _ _ hlhs
    obtain ⟨hgrows', hc'⟩ := ih hc₁ (henv.mono fun _ => hI.mono hgrows)
    exact ⟨hgrows.trans hgrows', hc'⟩

omit [Output σ] in
theorem grows_of_evaluates (hI : ValueInvariant C V) {s : Stmt} (hs : s.Evaluates env h e h')
    (hc : C h) (henv : env.Each (V h)) : h.Grows h' ∧ C h' := by
  cases hs with
  | @stored _ position _ _ _ _ _ _ hn hlist =>
    obtain ⟨-, rfl⟩ := Eval.listNamed_eq_ok_iff.1 hlist
    obtain ⟨hgrows, hc', -⟩ := (position.keeps_evalInteger hI hc henv).ok _ _ hn
    exact ⟨hgrows, hc'⟩
  | @high _ range _ _ _ _ hlo =>
    obtain ⟨hgrows, hc', -⟩ := (range.lo.keeps_evalInteger hI hc henv).ok _ _ hlo
    exact ⟨hgrows, hc'⟩
  | _ => exact ⟨.refl h, hc⟩

/-- Whatever a run visits has the properties that evaluation and index assignments keep. -/
theorem has_of_visits (hI : ValueInvariant C V) {p : Program} {w v : WorldOf σ}
    (hstores : KeepsStores C V p.stmts w) (hw : w.Has C V) (hv : p.Visits w v) : v.Has C V := by
  have hkept := hI.kept hstores
  rcases hv with rfl | hv | rfl
  · exact hw
  · refine hkept.visits hw (fun s u e h h' hu hevaluates hvisits => ?_) hv
    obtain ⟨hgrows, hc⟩ := hI.grows_of_evaluates hevaluates hu.heap hu.env
    have henv := hu.env.mono fun _ => hI.mono hgrows
    obtain ⟨hgrows', hc'⟩ := hI.grows_of_visits hvisits hc henv
    exact ⟨hc', henv.mono fun _ => hI.mono hgrows'⟩
  · rw [p.worldAfter_run]
    have hend := Stmt.keeps_execAll none p.stmts hkept hw
    exact ⟨hend.heap, hend.env⟩

end ValueInvariant

end Scriptlet
