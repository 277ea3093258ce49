-- The names of a tree. Of all bindings, evaluation sees those of the names that stand in
-- the tree, and no more. What else is bound shows in one place: in the name that a
-- fault suggests for one that is not bound.
import Scriptlet.Proofs.Nodes.Members
import Scriptlet.Evaluation

namespace Scriptlet

/-! ## Names of nodes -/

namespace Node

/-- The name that a node reads or binds. -/
def name? : Node → Option String
  | statement (.assign name ..) | statement (.indexAssign name ..)
  | statement (.loop name ..) => some name
  | expression (.ident name _) | expression (.index name ..) => some name
  | _ => none

/-- Whether all names of these nodes are some of `names`. -/
def NamedIn (names : String → Prop) (ns : List Node) : Prop :=
  ∀ n ∈ ns, ∀ name, n.name? = some name → names name

variable {names : String → Prop} {n : Node} {ns ms : List Node}

theorem NamedIn.head (h : NamedIn names (n :: ns)) {name : String} (hn : n.name? = some name) :
    names name := h n List.mem_cons_self name hn

@[simp] theorem namedIn_cons :
    NamedIn names (n :: ns) ↔ (∀ name, n.name? = some name → names name) ∧ NamedIn names ns :=
  List.forall_mem_cons

@[simp] theorem namedIn_append :
    NamedIn names (ns ++ ms) ↔ NamedIn names ns ∧ NamedIn names ms := List.forall_mem_append

end Node

/-- Whether a name stands anywhere in the program. -/
def Program.Mentions (p : Program) (name : String) : Prop :=
  ∃ n ∈ p.nodes, n.name? = some name

theorem Program.namedIn_nodes {p : Program} {names : String → Prop}
    (h : ∀ name, p.Mentions name → names name) : Node.NamedIn names p.nodes :=
  fun n hn name hname => h name ⟨n, hn, hname⟩

/-! ## Faults without suggestions -/

/-- The cause without the name that it suggests. -/
def FaultCause.withoutHint : FaultCause → FaultCause
  | undeclaredVariable name _ => undeclaredVariable name none
  | cause => cause

def Fault.withoutHint (f : Fault) : Fault := { f with cause := f.cause.withoutHint }

namespace Eval

variable {α β : Type}

/-- The evaluation with faults that suggest no names. -/
def withoutHints (step : Eval α) : Eval α := step.adaptExcept Fault.withoutHint

theorem withoutHints_bind (step : Eval α) (next : α → Eval β) :
    withoutHints (step >>= next) = withoutHints step >>= fun a => withoutHints (next a) := by
  funext h
  simp only [withoutHints, EStateM.adaptExcept, Bind.bind, EStateM.bind]
  cases step h <;> rfl

/-- Evaluations that are the same without suggestions come to the same value, or stop with
faults that are the same without suggestions. -/
theorem ok_or_error_of_withoutHints {step other : Eval α}
    (h : step.withoutHints = other.withoutHints) (heap : Heap) :
    (∃ a heap', step heap = .ok a heap' ∧ other heap = .ok a heap') ∨
      ∃ f g heap', step heap = .error f heap' ∧ other heap = .error g heap' ∧
        f.withoutHint = g.withoutHint := by
  have hheap := congrFun h heap
  simp only [withoutHints, EStateM.adaptExcept] at hheap
  cases hstep : step heap <;> cases hother : other heap <;> rw [hstep, hother] at hheap
  case ok.ok =>
    cases hheap
    exact .inl ⟨_, _, rfl, rfl⟩
  case error.error =>
    obtain ⟨hf, rfl⟩ := EStateM.Result.error.inj hheap
    exact .inr ⟨_, _, _, rfl, rfl, hf⟩
  case ok.error | error.ok => cases hheap

/-- Whether a step does the same in all environments that give `names` the same values,
but for the names that faults suggest. -/
def Reads (names : String → Prop) (step : Environment → Eval α) : Prop :=
  ∀ env env' : Environment, (∀ name, names name → env.get? name = env'.get? name) →
    (step env).withoutHints = (step env').withoutHints

namespace Reads

variable {names : String → Prop} {step : Environment → Eval α}

theorem const (step : Eval α) : Reads names fun _ => step := fun _ _ _ => rfl

theorem bind {next : Environment → α → Eval β} (h : Reads names step)
    (hnext : ∀ a, Reads names fun env => next env a) :
    Reads names fun env => step env >>= next env := by
  intro env env' hagree
  rw [withoutHints_bind, withoutHints_bind, h env env' hagree]
  exact congrArg _ (funext fun a => hnext a env env' hagree)

theorem read {name : String} (hname : names name) (s : Span) :
    Reads names fun env => ofExcept s (env.read name) := by
  intro env env' hagree
  simp only [Environment.read, hagree name hname]
  cases env'.get? name <;> rfl

theorem listNamed {name : String} (hname : names name) (s : Span) :
    Reads names fun env => listNamed env name s :=
  (read hname s).bind fun _ => const _

end Reads

end Eval

/-! ## Expressions -/

mutual

/-- An expression reads the bindings of the names that stand in it. -/
theorem Expr.reads_eval {names : String → Prop} : (e : Expr) → Node.NamedIn names e.nodes →
    Eval.Reads names fun env => e.eval env
  | .number n s, _ => by
    unfold Expr.eval
    exact .const _
  | .str raw s, _ => by
    unfold Expr.eval
    exact .const _
  | .ident name s, h => by
    unfold Expr.eval
    exact .read (h.head rfl) s
  | .list items s, h => by
    unfold Expr.eval
    exact (Expr.reads_evalAll items (Node.namedIn_cons.1 h).2).bind fun _ => .const _
  | .index name position s, h => by
    unfold Expr.eval
    refine (Eval.Reads.listNamed (h.head rfl) s).bind fun r => ?_
    exact (Expr.reads_eval position (Node.namedIn_cons.1 h).2).bind fun _ => .const _
  | .binary family op lhs rhs s, h => by
    have hoperands := Node.namedIn_append.1 (Node.namedIn_cons.1 h).2
    unfold Expr.eval
    split
    · refine (Expr.reads_eval lhs hoperands.1).bind fun v => ?_
      exact (Expr.reads_eval rhs hoperands.2).bind fun _ => .const _
    · exact .const _

theorem Expr.reads_evalAll {names : String → Prop} : (es : List Expr) →
    Node.NamedIn names (Expr.allNodes es) → Eval.Reads names fun env => Expr.evalAll env es
  | [], _ => by
    unfold Expr.evalAll
    exact .const _
  | e :: es, h => by
    have hall := Node.namedIn_append.1 h
    unfold Expr.evalAll
    refine (Expr.reads_eval e hall.1).bind fun v => ?_
    exact (Expr.reads_evalAll es hall.2).bind fun _ => .const _

end

namespace Expr

variable {names : String → Prop}

theorem reads_evalInteger (e : Expr) (h : Node.NamedIn names e.nodes) :
    Eval.Reads names fun env => e.evalInteger env :=
  (e.reads_eval h).bind fun _ => .const _

theorem reads_evalBoolean (e : Expr) (h : Node.NamedIn names e.nodes) :
    Eval.Reads names fun env => e.evalBoolean env :=
  (e.reads_eval h).bind fun _ => .const _

end Expr

end Scriptlet
