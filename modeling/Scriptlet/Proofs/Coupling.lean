-- Two runs of one program, from worlds that differ. What the parts of a run do alike
-- from related worlds, whole runs do, up to where the first of them breaks off.
import Scriptlet.Proofs.Names
import Scriptlet.Proofs.Reaching

namespace Scriptlet

variable {σ : Type} {α β : Type}

/-- Which worlds of two runs go together, which faults do, and which faults of the first
run break it off, so that nothing is said of the second one any more. -/
structure Coupling (σ : Type) where
  Worlds : WorldOf σ → WorldOf σ → Prop
  Faults : Fault → Fault → Prop
  Breaks : Fault → Prop

namespace Coupling

/-- Outcomes that go together. -/
inductive Outcomes (C : Coupling σ) :
    EStateM.Result Fault (WorldOf σ) α → EStateM.Result Fault (WorldOf σ) α → Prop
  | ok {a w v} : C.Worlds w v → Outcomes C (.ok a w) (.ok a v)
  | error {f g w v} : C.Worlds w v → C.Faults f g → Outcomes C (.error f w) (.error g v)
  | broken {f w other} : C.Breaks f → Outcomes C (.error f w) other

/-- A step of which the outcomes go together in worlds that do. -/
structure Couples (C : Coupling σ) (step : Exec σ α) : Prop where
  outcomes : ∀ w v, C.Worlds w v → C.Outcomes (step w) (step v)

namespace Couples

variable {C : Coupling σ} {step : Exec σ α}

theorem ok (h : C.Couples step) {w v w' : WorldOf σ} {a : α} (hw : C.Worlds w v)
    (hstep : step w = .ok a w') : ∃ v', step v = .ok a v' ∧ C.Worlds w' v' := by
  have hout := h.outcomes w v hw
  rw [hstep] at hout
  generalize step v = other at hout
  cases hout with
  | ok hw' => exact ⟨_, rfl, hw'⟩

theorem pure (a : α) : C.Couples (Pure.pure a) := ⟨fun _ _ hw => .ok hw⟩

theorem bind {next : α → Exec σ β} (h : C.Couples step) (hnext : ∀ a, C.Couples (next a)) :
    C.Couples (step >>= next) := by
  refine ⟨fun w v hw => ?_⟩
  have hout := h.outcomes w v hw
  simp only [Bind.bind, EStateM.bind]
  generalize step w = r at hout
  generalize step v = other at hout
  cases hout with
  | ok hw' => exact (hnext _).outcomes _ _ hw'
  | error hw' hf => exact .error hw' hf
  | broken hf => exact .broken hf

theorem map (h : C.Couples step) (g : α → β) : C.Couples (g <$> step) := h.bind fun _ => pure _

end Couples

variable [Output σ]

/-- What a run is made of goes together, if it reads and binds no other names than
`names`. -/
structure Laws (C : Coupling σ) (names : String → Prop) : Prop where
  heap : ∀ w v, C.Worlds w v → w.heap = v.heap
  evaluate : ∀ {α : Type} {step : Environment → Eval α}, Eval.Reads names step →
    C.Couples (Exec.evaluate step)
  assign : ∀ name x, names name → C.Couples (Exec.assign name x)
  unbind : ∀ name, names name → C.Couples (Exec.unbind name)
  setItem : ∀ r i x, C.Couples (Exec.setItem r i x)
  output : ∀ s text, C.Couples (Exec.output s text)

namespace Laws

variable {C : Coupling σ} {names : String → Prop}

theorem printValue (h : C.Laws names) {e : Expr} (he : Node.NamedIn names e.nodes)
    (ending : String) : C.Couples (Exec.printValue e ending) := by
  refine (h.evaluate (e.reads_eval he)).bind fun x => ⟨fun w v hw => ?_⟩
  have htext : C.Couples (do Exec.output e.span (w.heap.display x ++ ending); return x) :=
    (h.output ..).bind fun _ => .pure x
  -- Both runs look at the heap, which is the same.
  change C.Outcomes _
    ((do Exec.output e.span (v.heap.display x ++ ending); return x : Exec σ Value) v)
  rw [← h.heap w v hw]
  exact htext.outcomes w v hw

theorem iterate (h : C.Laws names) {var : String} (hvar : names var)
    {body : Exec σ (Option Value)} (hbody : C.Couples body) (stride : Int) (n : Nat) (i : Int) :
    C.Couples (Exec.iterate var body stride n i) := by
  induction n generalizing i with
  | zero => exact .pure ()
  | succ n ih => exact (h.assign var _ hvar).bind fun _ => hbody.bind fun _ => ih _

theorem forRange (h : C.Laws names) {var : String} (hvar : names var)
    {body : Exec σ (Option Value)} (hbody : C.Couples body) (lo hi : Int64) :
    C.Couples (Exec.forRange var lo hi body) :=
  (h.iterate hvar hbody ..).bind fun _ => h.unbind var hvar

theorem beforeTurn (h : C.Laws names) {var : String} (hvar : names var)
    {body : Exec σ (Option Value)} (hbody : C.Couples body) (stride : Int) (n : Nat) (i : Int) :
    C.Couples (Exec.beforeTurn var body stride n i) :=
  (h.iterate hvar hbody ..).bind fun _ => h.assign var _ hvar

end Laws

end Coupling

/-! ## Statements -/

variable [Output σ] {C : Coupling σ} {names : String → Prop}

/-- The names in the bounds of a loop and in its body. -/
theorem Node.NamedIn.loop {var : String} {range : Range} {body : List Stmt} {s : Span}
    (h : NamedIn names (Stmt.loop var range body s).nodes) :
    names var ∧ NamedIn names range.lo.nodes ∧ NamedIn names range.hi.nodes ∧
      NamedIn names (Stmt.allNodes body) := by
  simp only [Stmt.nodes, Range.nodes, List.cons_append, namedIn_cons, namedIn_append] at h
  obtain ⟨hvar, -, ⟨hlo, hhi⟩, hbody⟩ := h
  exact ⟨hvar var rfl, hlo, hhi, hbody⟩

/-- The names in the condition of a branch and in its bodies. -/
theorem Node.NamedIn.branch {cond : Expr} {thenBody : List Stmt} {elseBody : Option (List Stmt)}
    {s : Span} (h : NamedIn names (Stmt.branch cond thenBody elseBody s).nodes) :
    NamedIn names cond.nodes ∧ NamedIn names (Stmt.allNodes thenBody) ∧
      ∀ body ∈ elseBody, NamedIn names (Stmt.allNodes body) := by
  cases elseBody with
  | none =>
    simp only [Stmt.nodes, namedIn_cons, namedIn_append] at h
    refine ⟨h.2.1, h.2.2, ?_⟩
    rintro _ ⟨⟩
  | some body =>
    simp only [Stmt.nodes, namedIn_cons, namedIn_append] at h
    obtain ⟨-, ⟨hcond, hthen⟩, helse⟩ := h
    refine ⟨hcond, hthen, ?_⟩
    rintro _ ⟨⟩
    exact helse

mutual

theorem Stmt.couples_exec (h : C.Laws names) : (s : Stmt) → Node.NamedIn names s.nodes →
    C.Couples s.exec
  | .assign name e s, hs => by
    unfold Stmt.exec
    refine (h.evaluate (e.reads_eval (Node.namedIn_cons.1 hs).2)).bind fun x => ?_
    exact (h.assign name x (hs.head rfl)).bind fun _ => .pure _
  | .indexAssign name position e s, hs => by
    have hoperands := Node.namedIn_append.1 (Node.namedIn_cons.1 hs).2
    unfold Stmt.exec
    refine (h.evaluate (position.reads_evalInteger hoperands.1)).bind fun n => ?_
    refine (h.evaluate (.listNamed (hs.head rfl) s)).bind fun r => ?_
    refine (h.evaluate (e.reads_eval hoperands.2)).bind fun x => ?_
    refine (h.evaluate (.const _)).bind fun i => ?_
    exact (h.setItem r i x).bind fun _ => .pure _
  | .print e s, hs | .printLine e s, hs => by
    unfold Stmt.exec
    exact (h.printValue (Node.namedIn_cons.1 hs).2 _).map some
  | .loop var range body s, hs => by
    obtain ⟨hvar, hlo, hhi, hbody⟩ := hs.loop
    unfold Stmt.exec
    refine (h.evaluate (range.lo.reads_evalInteger hlo)).bind fun lo => ?_
    refine (h.evaluate (range.hi.reads_evalInteger hhi)).bind fun hi => ?_
    exact h.forRange hvar (Stmt.couples_execAll h none body hbody) lo hi
  | .branch cond thenBody none s, hs => by
    obtain ⟨hcond, hthen, -⟩ := hs.branch
    unfold Stmt.exec
    refine (h.evaluate (cond.reads_evalBoolean hcond)).bind fun taken => ?_
    split
    · exact Stmt.couples_execAll h none thenBody hthen
    · exact .pure _
  | .branch cond thenBody (some elseBody) s, hs => by
    obtain ⟨hcond, hthen, helse⟩ := hs.branch
    unfold Stmt.exec
    refine (h.evaluate (cond.reads_evalBoolean hcond)).bind fun taken => ?_
    split
    · exact Stmt.couples_execAll h none thenBody hthen
    · exact Stmt.couples_execAll h none elseBody (helse elseBody rfl)

/-- What the parts of a run do alike, whole runs do. -/
theorem Stmt.couples_execAll (h : C.Laws names) (last : Option Value) : (ss : List Stmt) →
    Node.NamedIn names (Stmt.allNodes ss) → C.Couples (Stmt.execAll last ss)
  | [], _ => by
    unfold Stmt.execAll
    exact .pure _
  | s :: ss, hs => by
    obtain ⟨hfirst, hrest⟩ := Node.namedIn_append.1 hs
    unfold Stmt.execAll
    exact (Stmt.couples_exec h s hfirst).bind fun last => Stmt.couples_execAll h last ss hrest

end

/-- What the first run comes to, the second one does too. -/
theorem Coupling.Laws.reaches (h : C.Laws names) {ss : List Stmt} {s : Stmt} {w u v : WorldOf σ}
    (hreaches : Reaches ss w s u) (hss : Node.NamedIn names (Stmt.allNodes ss))
    (hw : C.Worlds w v) : ∃ u', Reaches ss v s u' ∧ C.Worlds u u' := by
  induction hreaches generalizing v with
  | here => exact ⟨v, .here, hw⟩
  | next hs _ ih =>
    obtain ⟨hfirst, hrest⟩ := Node.namedIn_append.1 hss
    obtain ⟨v', hs', hv'⟩ := (Stmt.couples_exec h _ hfirst).ok hw hs
    obtain ⟨u', hreaches, hu'⟩ := ih hrest hv'
    exact ⟨u', .next hs' hreaches, hu'⟩
  | @thenBody cond _ _ _ _ _ _ _ _ htaken _ ih =>
    obtain ⟨hcond, hthen, -⟩ := (Node.namedIn_append.1 hss).1.branch
    obtain ⟨v', htaken', hv'⟩ := (h.evaluate (cond.reads_evalBoolean hcond)).ok hw htaken
    obtain ⟨u', hreaches, hu'⟩ := ih hthen hv'
    exact ⟨u', .thenBody htaken' hreaches, hu'⟩
  | @elseBody cond _ elseBody _ _ _ _ _ _ htaken _ ih =>
    obtain ⟨hcond, -, helse⟩ := (Node.namedIn_append.1 hss).1.branch
    obtain ⟨v', htaken', hv'⟩ := (h.evaluate (cond.reads_evalBoolean hcond)).ok hw htaken
    obtain ⟨u', hreaches, hu'⟩ := ih (helse elseBody rfl) hv'
    exact ⟨u', .elseBody htaken' hreaches, hu'⟩
  | @body var range body span _ _ _ _ lo hi n _ _ _ hlo hhi hn hturn _ ih =>
    obtain ⟨hvar, hlow, hhigh, hbody⟩ := (Node.namedIn_append.1 hss).1.loop
    obtain ⟨v₁, hlo', hv₁⟩ := (h.evaluate (range.lo.reads_evalInteger hlow)).ok hw hlo
    obtain ⟨v₂, hhi', hv₂⟩ := (h.evaluate (range.hi.reads_evalInteger hhigh)).ok hv₁ hhi
    have hcouples := Stmt.couples_execAll h none body hbody
    obtain ⟨v₃, hturn', hv₃⟩ := (h.beforeTurn hvar hcouples _ n _).ok hv₂ hturn
    obtain ⟨u', hreaches, hu'⟩ := ih hbody hv₃
    exact ⟨u', .body hlo' hhi' hn hturn' hreaches, hu'⟩

end Scriptlet
