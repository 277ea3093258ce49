-- Properties that all values of a run have. A program makes scalars and new lists, takes
-- items out of lists and passes values on. A property of values that each of these keeps
-- is one of every value that a name is bound to, and of every value that a fault tells of.
import Scriptlet.Proofs.Bindings
import Scriptlet.Proofs.Heaps
import Scriptlet.Proofs.Keeping
import Scriptlet.Proofs.Refusals

namespace Scriptlet

/-! ## Operators -/

theorem Heap.list?_of_checked {operator : String} {m n : Int64} {r : Int} {x : Value}
    (hx : checked operator m n r = .ok x) : x.list? = none := by
  unfold checked at hx
  split at hx <;> cases hx
  rfl

theorem Heap.list?_of_add {h : Heap} {v w x : Value} (hx : h.add v w = .ok x) :
    x.list? = none := by
  unfold add at hx
  split at hx
  · exact list?_of_checked hx
  all_goals
    cases hx
    try rfl

theorem Heap.list?_of_subtract {h : Heap} {v w x : Value} (hx : h.subtract v w = .ok x) :
    x.list? = none := by
  unfold subtract at hx
  split at hx
  · exact list?_of_checked hx
  · cases hx

theorem Operation.list?_of_apply {h : Heap} {op : Operation} {v w x : Value}
    (hx : op.apply h v w = .ok (some x)) : x.list? = none := by
  have hadd {v w : Value} (hx : (h.add v w).map some = .ok (some x)) : x.list? = none := by
    obtain ⟨y, hsum, ⟨⟩⟩ := Except.map_eq_ok_iff.1 hx
    exact Heap.list?_of_add hsum
  unfold apply at hx
  split at hx
  case h_1 | h_2 | h_3 | h_4 => exact hadd hx
  all_goals
    cases hx
    try rfl

namespace BinOp

variable {h : Heap} {op : BinOp} {v w x : Value}

theorem list?_of_perform {operation : Operation} (hx : op.perform h operation v w = .ok x) :
    x.list? = none := by
  unfold perform at hx
  split at hx
  · cases hx
  · next y hy =>
    cases hx
    exact operation.list?_of_apply hy
  · cases hx

theorem eq_or_eq_of_pick {wanted : Ordering} (hx : op.pick h wanted v w = .ok x) :
    x = v ∨ x = w := by
  unfold pick at hx
  split at hx <;> cases hx
  split
  · exact .inr rfl
  · exact .inl rfl

theorem list?_opposite (hv : v.list? = none) : (opposite v).list? = none := by
  cases v with
  | bool b => rfl
  | _ => exact hv

/-- An operator gives back one of its operands, or a value that is no list. -/
theorem eq_or_list?_of_apply (hx : op.apply h v w = .ok x) :
    (x = v ∨ x = w) ∨ x.list? = none := by
  unfold apply at hx
  cases op with
  | max | min => exact .inl (eq_or_eq_of_pick hx)
  | add => exact .inr (Heap.list?_of_add hx)
  | sub => exact .inr (Heap.list?_of_subtract hx)
  | gt | lt | eq => exact .inr (list?_of_perform hx)
  | ne =>
    obtain ⟨y, hy, rfl⟩ := Except.map_eq_ok_iff.1 hx
    exact .inr (list?_opposite (list?_of_perform hy))

end BinOp

/-! ## Values that faults tell of -/

/-- Whether each text of a value in the cause describes, in the heap `h`, a value with
`P`. -/
def FaultCause.Describes (h : Heap) (P : Value → Prop) : FaultCause → Prop
  | unsupportedOperation _ lhs rhs =>
    (∃ v, P v ∧ lhs = h.describe v) ∧ ∃ v, P v ∧ rhs = h.describe v
  | typeMismatch _ got => ∃ v, P v ∧ got = h.describe v
  | _ => True

theorem FaultCause.Describes.mono {h : Heap} {P Q : Value → Prop} {cause : FaultCause}
    (hcause : cause.Describes h P) (hle : ∀ v, P v → Q v) : cause.Describes h Q := by
  cases cause with
  | unsupportedOperation =>
    obtain ⟨⟨v, hv, hlhs⟩, w, hw, hrhs⟩ := hcause
    exact ⟨⟨v, hle v hv, hlhs⟩, w, hle w hw, hrhs⟩
  | typeMismatch =>
    obtain ⟨v, hv, hgot⟩ := hcause
    exact ⟨v, hle v hv, hgot⟩
  | _ => trivial

section Causes

variable {h : Heap} {P : Value → Prop} {f : Fault}

theorem Environment.describes_of_read {env : Environment} {name : String}
    (hf : env.read name = .error f) : f.cause.Describes h P := by
  unfold read at hf
  split at hf <;> cases hf
  trivial

theorem Heap.describes_of_position {r : ListRef} {i : Int64} (hf : h.position r i = .error f) :
    f.cause.Describes h P := by
  simp only [position] at hf
  split at hf <;> cases hf
  trivial

theorem Heap.describes_of_item {r : ListRef} {i : Int64} (hf : h.item r i = .error f) :
    f.cause.Describes h P := by
  unfold item at hf
  cases hposition : h.position r i with
  | ok n =>
    rw [hposition] at hf
    cases hf
  | error g =>
    rw [hposition] at hf
    cases hf
    exact describes_of_position hposition

theorem BinOp.describes_of_apply {op : BinOp} {v w : Value} (hf : op.apply h v w = .error f)
    (hv : P v) (hw : P w) : f.cause.Describes h P := by
  cases hop : op.joins v.kind w.kind with
  | false =>
    rw [apply_of_not_joins hop] at hf
    cases hf
    exact ⟨⟨v, hv, rfl⟩, w, hw, rfl⟩
  | true =>
    obtain ⟨m, n, rfl⟩ := eq_overflow_of_joins hop hf
    trivial

end Causes

/-! ## Properties that evaluation keeps -/

/-- A property `V` of values, in heaps that have the property `C`: more lists do not take
it away, scalars have it, and so do the items of a list that has it and a new list of
values that have it. -/
structure ValueInvariant (C : Heap → Prop) (V : Heap → Value → Prop) : Prop where
  mono : ∀ {h h' v}, h.Grows h' → V h v → V h' v
  scalar : ∀ {h v}, v.list? = none → V h v
  item : ∀ {h r v}, C h → V h (.list r) → v ∈ h.items r → V h v
  alloc : ∀ {h vs}, C h → (∀ v ∈ vs, V h v) →
    C (h.alloc vs).2 ∧ V (h.alloc vs).2 (.list h.size)

/-- Whether every value that a name is bound to has the property. -/
def Environment.Each (P : Value → Prop) (env : Environment) : Prop :=
  ∀ name v, env.get? name = some v → P v

namespace Environment.Each

variable {P Q : Value → Prop} {env : Environment}

theorem mono (henv : env.Each P) (hle : ∀ v, P v → Q v) : env.Each Q :=
  fun name v hv => hle v (henv name v hv)

theorem write (henv : env.Each P) {v : Value} (hv : P v) (name : String) :
    (env.write name v).Each P := by
  intro other w hw
  rw [get?_write] at hw
  split at hw
  · cases hw
    exact hv
  · exact henv other w hw

theorem remove (henv : env.Each P) (name : String) : (env.remove name).Each P := by
  intro other w hw
  rw [get?_remove] at hw
  split at hw
  · cases hw
  · exact henv other w hw

end Environment.Each

/-- How a step ends that starts in the heap `h`: in one that has grown from it and has `C`,
with a value of which `post` holds there, or with a fault that tells of values with `V`. -/
structure Eval.Keeps {α : Type} (C : Heap → Prop) (V : Heap → Value → Prop) (h : Heap)
    (post : α → Heap → Prop) (step : Eval α) : Prop where
  ok : ∀ a h', step h = .ok a h' → h.Grows h' ∧ C h' ∧ post a h'
  error : ∀ f h', step h = .error f h' → h.Grows h' ∧ C h' ∧ f.cause.Describes h' (V h')

variable {C : Heap → Prop} {V : Heap → Value → Prop}

namespace Eval.Keeps

variable {α β : Type} {h : Heap} {post : α → Heap → Prop} {after : β → Heap → Prop}

theorem pure (hc : C h) {a : α} (ha : post a h) : Keeps C V h post (do return a : Eval α) := by
  constructor
  · rintro _ _ ⟨⟩
    exact ⟨.refl h, hc, ha⟩
  · rintro _ _ ⟨⟩

theorem throw (hc : C h) {f : Fault} (hf : f.cause.Describes h (V h)) :
    Keeps C V h post (MonadExcept.throw f : Eval α) := by
  constructor
  · rintro _ _ ⟨⟩
  · rintro _ _ ⟨⟩
    exact ⟨.refl h, hc, hf⟩

theorem mono {step : Eval α} {weaker : α → Heap → Prop} (hstep : Keeps C V h post step)
    (hle : ∀ a h, post a h → weaker a h) : Keeps C V h weaker step := by
  refine ⟨fun a h' ha => ?_, hstep.error⟩
  obtain ⟨hgrows, hc, hpost⟩ := hstep.ok a h' ha
  exact ⟨hgrows, hc, hle a h' hpost⟩

theorem bind {step : Eval α} {next : α → Eval β} (hstep : Keeps C V h post step)
    (hnext : ∀ a h', h.Grows h' → C h' → post a h' → Keeps C V h' after (next a)) :
    Keeps C V h after (step >>= next) := by
  constructor
  · intro b h'' hbind
    obtain ⟨a, h', ha, hb⟩ := bind_eq_ok_iff.1 hbind
    obtain ⟨hgrows, hc, hpost⟩ := hstep.ok a h' ha
    obtain ⟨hgrows', hc', hafter⟩ := (hnext a h' hgrows hc hpost).ok b h'' hb
    exact ⟨hgrows.trans hgrows', hc', hafter⟩
  · intro f h'' hbind
    rcases bind_eq_error_iff.1 hbind with hf | ⟨a, h', ha, hf⟩
    · exact hstep.error f h'' hf
    · obtain ⟨hgrows, hc, hpost⟩ := hstep.ok a h' ha
      obtain ⟨hgrows', hc', hcause⟩ := (hnext a h' hgrows hc hpost).error f h'' hf
      exact ⟨hgrows.trans hgrows', hc', hcause⟩

/-- A step that looks at the heap first. -/
theorem get {next : Heap → Eval α} (hnext : Keeps C V h post (next h)) :
    Keeps C V h post (MonadState.get >>= next) := ⟨hnext.ok, hnext.error⟩

theorem ofExcept (hc : C h) (s : Span) {r : Except Fault α} (hok : ∀ a, r = .ok a → post a h)
    (herror : ∀ f, r = .error f → f.cause.Describes h (V h)) :
    Keeps C V h post (Eval.ofExcept s r) := by
  cases r with
  | ok a => exact pure hc (hok a rfl)
  | error f => exact throw hc (herror f rfl)

theorem ofKind (hc : C h) {expected : Kind} {view : Value → Option α} {s : Span} {v : Value}
    (hv : V h v) : Keeps C V h (fun a _ => view v = some a) (Eval.ofKind expected view s v) := by
  unfold Eval.ofKind
  split
  · next a ha => exact pure hc ha
  · exact get (throw hc ⟨v, hv, rfl⟩)

theorem listNamed (hc : C h) {env : Environment} (henv : env.Each (V h)) (name : String)
    (s : Span) : Keeps C V h (fun r h => V h (.list r)) (Eval.listNamed env name s) := by
  have hread : Keeps C V h (fun v h => V h v) (Eval.ofExcept s (env.read name)) :=
    ofExcept hc s (fun v hv => henv name v (Environment.read_eq_ok_iff.1 hv))
      fun f hf => Environment.describes_of_read hf
  refine hread.bind fun v h' _ hc' hv => ?_
  have hlist : Keeps C V h' (fun r _ => v.list? = some r) (Eval.ofKind .list Value.list? s v) :=
    ofKind hc' hv
  refine ⟨fun r h'' hr => ?_, hlist.error⟩
  obtain ⟨hview, rfl⟩ := Eval.ofKind_eq_ok_iff.1 hr
  obtain rfl := Value.list?_eq_some_iff.1 hview
  exact ⟨.refl _, hc', hv⟩

end Eval.Keeps

namespace ValueInvariant

variable (hI : ValueInvariant C V)

include hI

theorem keeps_alloc {h : Heap} (hc : C h) {vs : List Value} (hvs : ∀ v ∈ vs, V h v) :
    Eval.Keeps C V h (fun r h => V h (.list r)) (modifyGet fun h => h.alloc vs) := by
  obtain ⟨hc', hr⟩ := hI.alloc hc hvs
  constructor
  · rintro _ _ ⟨⟩
    exact ⟨h.grows_alloc vs, hc', hr⟩
  · rintro _ _ ⟨⟩

theorem item_of_eq_ok {h : Heap} (hc : C h) {r : ListRef} (hr : V h (.list r)) {i : Int64}
    {v : Value} (hv : h.item r i = .ok v) : V h v := by
  obtain ⟨i, -, hget⟩ := Heap.item_eq_ok_iff.1 hv
  exact hI.item hc hr (Heap.mem_items_of_get? hget)

theorem apply_of_eq_ok {h : Heap} {op : BinOp} {v w x : Value} (hx : op.apply h v w = .ok x)
    (hv : V h v) (hw : V h w) : V h x := by
  rcases BinOp.eq_or_list?_of_apply hx with (rfl | rfl) | hscalar
  · exact hv
  · exact hw
  · exact hI.scalar hscalar

end ValueInvariant

mutual

theorem Expr.keeps_eval (hI : ValueInvariant C V) {env : Environment} : (e : Expr) →
    {h : Heap} → C h → env.Each (V h) → Eval.Keeps C V h (fun v h => V h v) (e.eval env)
  | .number .. , _, hc, _ | .str .. , _, hc, _ => by
    unfold Expr.eval
    exact .pure hc (hI.scalar rfl)
  | .ident name s, _, hc, henv => by
    unfold Expr.eval
    exact .ofExcept hc s (fun v hv => henv name v (Environment.read_eq_ok_iff.1 hv))
      fun f hf => Environment.describes_of_read hf
  | .list items s, _, hc, henv => by
    unfold Expr.eval
    refine (Expr.keeps_evalAll hI items hc henv).bind fun vs h _ hc hvs => ?_
    exact (hI.keeps_alloc hc hvs).bind fun r h _ hc hr => .pure hc hr
  | .index name position s, _, hc, henv => by
    unfold Expr.eval
    refine (Eval.Keeps.listNamed hc henv name s).bind fun r h hgrows hc hr => ?_
    have henv := henv.mono fun _ => hI.mono hgrows
    refine (Expr.keeps_eval hI position hc henv).bind fun v h hgrows hc hv => ?_
    have hr := hI.mono hgrows hr
    refine (Eval.Keeps.ofKind hc hv).bind fun i h hgrows hc _ => .get ?_
    exact .ofExcept hc s (fun v hv => hI.item_of_eq_ok hc (hI.mono hgrows hr) hv)
      fun f hf => Heap.describes_of_item hf
  | .binary family op lhs rhs s, _, hc, henv => by
    unfold Expr.eval
    split
    · refine (Expr.keeps_eval hI lhs hc henv).bind fun v h hgrows hc hv => ?_
      have henv := henv.mono fun _ => hI.mono hgrows
      refine (Expr.keeps_eval hI rhs hc henv).bind fun w h hgrows hc hw => .get ?_
      have hv := hI.mono hgrows hv
      exact .ofExcept hc s (fun x hx => hI.apply_of_eq_ok hx hv hw)
        fun f hf => BinOp.describes_of_apply hf hv hw
    · exact .throw hc trivial

theorem Expr.keeps_evalAll (hI : ValueInvariant C V) {env : Environment} : (es : List Expr) →
    {h : Heap} → C h → env.Each (V h) →
    Eval.Keeps C V h (fun vs h => ∀ v ∈ vs, V h v) (Expr.evalAll env es)
  | [], _, hc, _ => by
    unfold Expr.evalAll
    exact .pure hc (List.forall_mem_nil _)
  | e :: es, _, hc, henv => by
    unfold Expr.evalAll
    refine (Expr.keeps_eval hI e hc henv).bind fun v h hgrows hc hv => ?_
    have henv := henv.mono fun _ => hI.mono hgrows
    refine (Expr.keeps_evalAll hI es hc henv).bind fun vs h hgrows hc hvs => ?_
    exact .pure hc (List.forall_mem_cons.2 ⟨hI.mono hgrows hv, hvs⟩)

end

section Kinds

variable (hI : ValueInvariant C V) {env : Environment} (e : Expr) {h : Heap} (hc : C h)
  (henv : env.Each (V h))

include hI hc henv

theorem Expr.keeps_evalInteger : Eval.Keeps C V h (fun _ _ => True) (e.evalInteger env) :=
  (e.keeps_eval hI hc henv).bind fun _ _ _ hc hv =>
    (Eval.Keeps.ofKind hc hv).mono fun _ _ _ => trivial

theorem Expr.keeps_evalBoolean : Eval.Keeps C V h (fun _ _ => True) (e.evalBoolean env) :=
  (e.keeps_eval hI hc henv).bind fun _ _ _ hc hv =>
    (Eval.Keeps.ofKind hc hv).mono fun _ _ _ => trivial

end Kinds

end Scriptlet
