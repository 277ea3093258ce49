-- A document is read as a tree if it is one of the JSON forms of the tree, and not
-- otherwise. The functions that read and the forms take a container apart in the same
-- steps, so one induction on how many may still be opened gives both directions.
import Scriptlet.Proofs.Decoding.Forms

namespace Scriptlet.Decode

/-! ## Scalars -/

theorem variant?_eq_some_iff {j content : Json} {name : String} :
    variant? j = some (name, content) ↔ j = .variant name content := by
  constructor
  · intro h
    unfold variant? at h
    split at h
    · cases h
      rfl
    · cases h
  · rintro rfl
    rfl

theorem string?_eq_some_iff {j : Json} {s : String} :
    string? j = some s ↔ j = .ofString s := by
  constructor
  · intro h
    unfold string? at h
    split at h
    · cases h
      rfl
    · cases h
  · rintro rfl
    rfl

theorem number?_eq_some_iff {j : Json} {k : Int64} : number? j = some k ↔ j = .int k.toInt := by
  constructor
  · intro h
    unfold number? at h
    split at h
    · rw [toInt_of_integer? h]
    · cases h
  · rintro rfl
    exact integer?_toInt k

theorem offset?_eq_some_iff {j : Json} {k : Nat} {n : Nat} :
    offset? j = some k ↔ Forms.offset k n j := by
  constructor
  · intro h
    unfold offset? at h
    split at h
    · split at h
      · next hm =>
        cases h
        exact ⟨hm.2, by rw [Json.ofNat, Int.toNat_of_nonneg hm.1]⟩
      · cases h
    · cases h
  · rintro ⟨hk, rfl⟩
    have hk : 0 ≤ (k : Int) ∧ (k : Int).toNat < UInt64.size := by simpa using hk
    exact (if_pos hk).trans (congrArg some (Int.toNat_natCast k))

theorem operator?_eq_some_iff {tag : String} {op : BinOp} :
    operator? tag = some op ↔ tag = op.tag := by
  constructor
  · intro h
    have htag := List.find?_some (p := fun op : BinOp => op.tag == tag) h
    exact (beq_iff_eq.1 htag).symm
  · rintro rfl
    cases op <;> decide

theorem family?_eq_some_iff {tag : String} {f : Family} : family? tag = some f ↔ tag = f.tag := by
  constructor
  · intro h
    have htag := List.find?_some (p := fun f : Family => f.tag == tag) h
    exact (beq_iff_eq.1 htag).symm
  · rintro rfl
    cases f <;> decide

/-! ## Records -/

/-- The forms of a record are the documents that are read as contents of its fields. -/
theorem forms_record_succ {fields : List (String × FormsIn (Option Json))}
    (h : (fields.map Prod.fst).Nodup) {n : Nat} {j : Json} :
    Forms.record fields (n + 1) j ↔ ∃ contents,
      record? (fields.map Prod.fst) j = some contents ∧
        Forms.each (fields.map Prod.snd) n contents := by
  simp only [Forms.record, Forms.around, record?_eq_some_iff h, and_comm]

/-! ## Parts of a node -/

theorem binOp?_eq_some_iff {n : Nat} {j : Json} {op : BinOp} :
    binOp? n j = some op ↔ op.forms n j := by
  constructor
  · intro h
    unfold binOp? at h
    split at h
    · rw [operator?_eq_some_iff.1 h]
      exact .inl rfl
    · cases h
    · split at h
      · next hvariant =>
        rw [variant?_eq_some_iff.1 hvariant, operator?_eq_some_iff.1 h]
        exact .inr ⟨.null, rfl, rfl⟩
      · cases h
  · rintro (rfl | h)
    · cases n <;> exact operator?_eq_some_iff.2 rfl
    · cases n with
      | zero => exact h.elim
      | succ n =>
        obtain ⟨v, rfl, rfl⟩ := h
        exact operator?_eq_some_iff.2 rfl

theorem span?_eq_some_iff {n : Nat} {j : Json} {s : Span} :
    span? n j = some s ↔ s.forms n j := by
  cases n with
  | zero => simp [span?, Span.forms, Forms.record]
  | succ n =>
    rw [Span.forms, forms_record_succ (by simp), span?]
    constructor
    · intro h
      split at h
      · next start stop line hrecord =>
        simp only [Option.bind_eq_bind, Option.bind_eq_some_iff, Option.pure_def,
          Option.some.injEq] at h
        obtain ⟨_, hstart, _, hstop, _, hline, rfl⟩ := h
        exact ⟨_, hrecord, .cons ⟨start, rfl, offset?_eq_some_iff.1 hstart⟩ (.cons
          ⟨stop, rfl, offset?_eq_some_iff.1 hstop⟩ (.cons
          ⟨line, rfl, offset?_eq_some_iff.1 hline⟩ .nil))⟩
      · cases h
    · rintro ⟨_, hrecord, _ | ⟨⟨start, rfl, hstart⟩, _ | ⟨⟨stop, rfl, hstop⟩,
        _ | ⟨⟨line, rfl, hline⟩, _ | _⟩⟩⟩⟩
      simp only [List.map_cons, List.map_nil] at hrecord
      simp only [hrecord, offset?_eq_some_iff.2 hstart, offset?_eq_some_iff.2 hstop,
        offset?_eq_some_iff.2 hline, Option.bind_eq_bind, Option.bind_some, Option.pure_def]

/-- The forms of a node are the documents that are read as a node there, whose content is
one of the forms of its content. -/
theorem forms_node_iff {content : Forms} {n : Nat} {j : Json} {s : Span} :
    Forms.node content s n j ↔ ∃ v, node? n j = some (v, s) ∧ content (n - 1) v := by
  cases n with
  | zero => simp [node?, Forms.node, Forms.record]
  | succ n =>
    rw [Forms.node, forms_record_succ (by simp), Nat.add_sub_cancel, node?]
    constructor
    · rintro ⟨_, hrecord, _ | ⟨⟨v, rfl, hv⟩, _ | ⟨⟨span, rfl, hspan⟩, _ | _⟩⟩⟩
      simp only [List.map_cons, List.map_nil] at hrecord
      refine ⟨v, ?_, hv⟩
      simp only [hrecord, span?_eq_some_iff.2 hspan, Option.map_some]
    · rintro ⟨v, h, hv⟩
      split at h
      · next content span hrecord =>
        obtain ⟨_, hspan, heq⟩ := Option.map_eq_some_iff.1 h
        cases heq
        exact ⟨_, hrecord, .cons ⟨_, rfl, hv⟩ (.cons ⟨span, rfl, span?_eq_some_iff.1 hspan⟩ .nil)⟩
      · cases h

/-! ## Expressions -/

/-- The forms of an array are the arrays whose items are read one by one. -/
theorem forms_array_succ {α : Type} {read : Nat → Json → Option α} {forms : α → Forms} {n : Nat}
    (h : ∀ {v a}, read n v = some a ↔ forms a n v) {j : Json} {as : List α} :
    Forms.array (as.map forms) (n + 1) j ↔ ∃ vs, j = .arr vs ∧ vs.mapM (read n) = some as := by
  have hitems (vs : List Json) :
      Forms.each (as.map forms) n vs ↔ vs.mapM (read n) = some as := by
    rw [mapM_eq_some_iff, Forms.each, List.forall₂_map_left_iff]
    simp only [h]
    exact ⟨.flip, .flip⟩
  simp only [Forms.array, Forms.around, hitems, and_comm]

theorem exprForm?_family (f : Family) (n : Nat) (j : Json) (span : Span) :
    exprForm? (n + 1) (.variant f.tag j) span =
      (operands? n j).map fun (op, l, r) => .binary f op l r span := by
  -- No tag of a family is one of the tags that are looked for before it.
  have hform : exprForm? (n + 1) (.variant f.tag j) span = (do
      let family ← family? f.tag
      let (op, lhs, rhs) ← operands? n j
      return .binary family op lhs rhs span) := by
    cases f <;> rfl
  rw [hform, family?_eq_some_iff.2 rfl]
  cases operands? n j <;> rfl

mutual

theorem expr?_eq_some_iff : (n : Nat) → {j : Json} → {e : Expr} →
    (expr? n j = some e ↔ e.forms n j)
  | 0, j, e => by simp [expr?, Expr.forms, Forms.node, Forms.record]
  | n + 1, j, e => by
    simp only [expr?, Option.bind_eq_bind, Option.bind_eq_some_iff, Prod.exists,
      exprForm?_eq_some_iff n, Expr.forms, forms_node_iff, Nat.add_sub_cancel]
    constructor
    · rintro ⟨content, s, hnode, rfl, hform⟩
      exact ⟨content, hnode, hform⟩
    · rintro ⟨content, hnode, hform⟩
      exact ⟨content, e.span, hnode, rfl, hform⟩

theorem exprForm?_eq_some_iff : (n : Nat) → {j : Json} → {s : Span} → {e : Expr} →
    (exprForm? n j s = some e ↔ e.span = s ∧ e.contentForms n j)
  | 0, j, s, e => by cases e <;> simp [exprForm?, Expr.contentForms, Forms.variant]
  | n + 1, j, s, e => by
    constructor
    · intro h
      unfold exprForm? at h
      split at h
      · next v hvariant =>
        obtain ⟨k, hk, rfl⟩ := Option.map_eq_some_iff.1 h
        exact ⟨rfl, v, number?_eq_some_iff.1 hk, variant?_eq_some_iff.1 hvariant⟩
      · next v hvariant =>
        obtain ⟨raw, hraw, rfl⟩ := Option.map_eq_some_iff.1 h
        exact ⟨rfl, v, string?_eq_some_iff.1 hraw, variant?_eq_some_iff.1 hvariant⟩
      · next v hvariant =>
        obtain ⟨name, hname, rfl⟩ := Option.map_eq_some_iff.1 h
        exact ⟨rfl, v, string?_eq_some_iff.1 hname, variant?_eq_some_iff.1 hvariant⟩
      · next v hvariant =>
        obtain ⟨items, hitems, rfl⟩ := Option.map_eq_some_iff.1 h
        exact ⟨rfl, v, (exprs?_eq_some_iff n).1 hitems, variant?_eq_some_iff.1 hvariant⟩
      · next v hvariant =>
        obtain ⟨⟨name, position⟩, hindex, rfl⟩ := Option.map_eq_some_iff.1 h
        exact ⟨rfl, v, (index?_eq_some_iff n).1 hindex, variant?_eq_some_iff.1 hvariant⟩
      · next tag v _ _ _ _ _ hvariant =>
        simp only [Option.bind_eq_bind, Option.bind_eq_some_iff, Option.pure_def,
          Option.some.injEq] at h
        obtain ⟨family, hfamily, ⟨op, lhs, rhs⟩, hoperands, rfl⟩ := h
        rw [family?_eq_some_iff.1 hfamily] at hvariant
        exact ⟨rfl, v, (operands?_eq_some_iff n).1 hoperands, variant?_eq_some_iff.1 hvariant⟩
      · cases h
    · rintro ⟨rfl, h⟩
      cases e with
      | number k s =>
        obtain ⟨v, hv, rfl⟩ := h
        exact congrArg (Option.map (Expr.number · s)) (number?_eq_some_iff.2 hv)
      | str raw s =>
        obtain ⟨v, hv, rfl⟩ := h
        exact congrArg (Option.map (Expr.str · s)) (string?_eq_some_iff.2 hv)
      | ident name s =>
        obtain ⟨v, hv, rfl⟩ := h
        exact congrArg (Option.map (Expr.ident · s)) (string?_eq_some_iff.2 hv)
      | list items s =>
        obtain ⟨v, hv, rfl⟩ := h
        exact congrArg (Option.map (Expr.list · s)) ((exprs?_eq_some_iff n).2 hv)
      | index name position s =>
        obtain ⟨v, hv, rfl⟩ := h
        exact congrArg (Option.map fun i => Expr.index i.1 i.2 s) ((index?_eq_some_iff n).2 hv)
      | binary family op lhs rhs s =>
        obtain ⟨v, hv, rfl⟩ := h
        rw [exprForm?_family, (operands?_eq_some_iff n).2 hv]
        rfl

theorem exprs?_eq_some_iff : (n : Nat) → {j : Json} → {es : List Expr} →
    (exprs? n j = some es ↔ Forms.array (Expr.allForms es) n j)
  | 0, j, es => by simp [exprs?, Forms.array]
  | n + 1, j, es => by
    rw [Expr.allForms_eq_map, forms_array_succ (expr?_eq_some_iff n)]
    constructor
    · intro h
      unfold exprs? at h
      split at h
      · cases h
      · next heq =>
        cases heq
        exact ⟨_, rfl, h⟩
      · cases h
    · rintro ⟨vs, rfl, h⟩
      exact h

theorem index?_eq_some_iff : (n : Nat) → {j : Json} → {name : String} → {e : Expr} →
    (index? n j = some (name, e) ↔ Forms.index name e.forms n j)
  | 0, j, name, e => by simp [index?, Forms.index, Forms.record]
  | n + 1, j, name, e => by
    rw [Forms.index, forms_record_succ (by simp), index?]
    constructor
    · intro h
      split at h
      · next v w hrecord =>
        simp only [Option.bind_eq_bind, Option.bind_eq_some_iff, Option.pure_def,
          Option.some.injEq, Prod.mk.injEq] at h
        obtain ⟨_, hname, _, hposition, rfl, rfl⟩ := h
        exact ⟨_, hrecord, .cons ⟨v, rfl, string?_eq_some_iff.1 hname⟩
          (.cons ⟨w, rfl, (expr?_eq_some_iff n).1 hposition⟩ .nil)⟩
      · cases h
    · rintro ⟨_, hrecord, _ | ⟨⟨v, rfl, hname⟩, _ | ⟨⟨w, rfl, hposition⟩, _ | _⟩⟩⟩
      simp only [List.map_cons, List.map_nil] at hrecord
      simp only [hrecord, string?_eq_some_iff.2 hname, (expr?_eq_some_iff n).2 hposition,
        Option.bind_eq_bind, Option.bind_some, Option.pure_def]

theorem operands?_eq_some_iff : (n : Nat) → {j : Json} → {op : BinOp} → {l r : Expr} →
    (operands? n j = some (op, l, r) ↔ Forms.operands op l.forms r.forms n j)
  | 0, j, op, l, r => by simp [operands?, Forms.operands, Forms.record]
  | n + 1, j, op, l, r => by
    rw [Forms.operands, forms_record_succ (by simp), operands?]
    constructor
    · intro h
      split at h
      · next u v w hrecord =>
        simp only [Option.bind_eq_bind, Option.bind_eq_some_iff, Option.pure_def,
          Option.some.injEq, Prod.mk.injEq] at h
        obtain ⟨_, hop, _, hl, _, hr, rfl, rfl, rfl⟩ := h
        exact ⟨_, hrecord, .cons ⟨u, rfl, binOp?_eq_some_iff.1 hop⟩
          (.cons ⟨v, rfl, (expr?_eq_some_iff n).1 hl⟩
          (.cons ⟨w, rfl, (expr?_eq_some_iff n).1 hr⟩ .nil))⟩
      · cases h
    · rintro ⟨_, hrecord, _ | ⟨⟨u, rfl, hop⟩, _ | ⟨⟨v, rfl, hl⟩, _ | ⟨⟨w, rfl, hr⟩, _ | _⟩⟩⟩⟩
      simp only [List.map_cons, List.map_nil] at hrecord
      simp only [hrecord, binOp?_eq_some_iff.2 hop, (expr?_eq_some_iff n).2 hl,
        (expr?_eq_some_iff n).2 hr, Option.bind_eq_bind, Option.bind_some, Option.pure_def]

end

/-! ## Statements -/

theorem range?_eq_some_iff {n : Nat} {j : Json} {r : Range} :
    range? n j = some r ↔ r.forms n j := by
  rw [Range.forms, forms_node_iff]
  rcases n with _ | _ | n
  · simp [range?, node?]
  · simp [range?, Forms.bounds, Forms.record]
  · have hnames : ([("lo", Forms.given r.lo.forms), ("hi", Forms.given r.hi.forms)].map
        Prod.fst).Nodup := by simp
    rw [Nat.add_sub_cancel, range?, Forms.bounds, Option.bind_eq_bind, Option.bind_eq_some_iff]
    simp only [forms_record_succ hnames, Prod.exists]
    constructor
    · rintro ⟨content, s, hnode, h⟩
      split at h
      · next v w hrecord =>
        simp only [Option.bind_eq_bind, Option.bind_eq_some_iff, Option.pure_def,
          Option.some.injEq] at h
        obtain ⟨_, hlo, _, hhi, rfl⟩ := h
        exact ⟨content, hnode, _, hrecord, .cons ⟨v, rfl, (expr?_eq_some_iff n).1 hlo⟩
          (.cons ⟨w, rfl, (expr?_eq_some_iff n).1 hhi⟩ .nil)⟩
      · cases h
    · rintro ⟨content, hnode, _, hrecord, _ | ⟨⟨v, rfl, hlo⟩, _ | ⟨⟨w, rfl, hhi⟩, _ | _⟩⟩⟩
      simp only [List.map_cons, List.map_nil] at hrecord
      refine ⟨content, r.span, hnode, ?_⟩
      simp only [hrecord, (expr?_eq_some_iff n).2 hlo, (expr?_eq_some_iff n).2 hhi,
        Option.bind_eq_bind, Option.bind_some, Option.pure_def]

theorem assign?_eq_some_iff {n : Nat} {j : Json} {s : Span} {t : Stmt} :
    assign? n j s = some t ↔
      ∃ name value, t = .assign name value s ∧ Forms.assign name value.forms n j := by
  cases n with
  | zero => simp [assign?, Forms.assign, Forms.record]
  | succ n =>
    rw [assign?]
    constructor
    · intro h
      split at h
      · next v w hrecord =>
        simp only [Option.bind_eq_bind, Option.bind_eq_some_iff, Option.pure_def,
          Option.some.injEq] at h
        obtain ⟨name, hname, value, hvalue, rfl⟩ := h
        refine ⟨name, value, rfl, (forms_record_succ (by simp)).2 ⟨_, hrecord, ?_⟩⟩
        exact .cons ⟨v, rfl, string?_eq_some_iff.1 hname⟩
          (.cons ⟨w, rfl, (expr?_eq_some_iff n).1 hvalue⟩ .nil)
      · cases h
    · rintro ⟨name, value, rfl, h⟩
      obtain ⟨_, hrecord, _ | ⟨⟨v, rfl, hname⟩, _ | ⟨⟨w, rfl, hvalue⟩, _ | _⟩⟩⟩ :=
        (forms_record_succ (by simp)).1 h
      simp only [List.map_cons, List.map_nil] at hrecord
      simp only [hrecord, string?_eq_some_iff.2 hname, (expr?_eq_some_iff n).2 hvalue,
        Option.bind_eq_bind, Option.bind_some, Option.pure_def]

theorem indexAssign?_eq_some_iff {n : Nat} {j : Json} {s : Span} {t : Stmt} :
    indexAssign? n j s = some t ↔ ∃ name position value,
      t = .indexAssign name position value s ∧
        Forms.indexAssign name position.forms value.forms n j := by
  cases n with
  | zero => simp [indexAssign?, Forms.indexAssign, Forms.record]
  | succ n =>
    rw [indexAssign?]
    constructor
    · intro h
      split at h
      · next v w hrecord =>
        simp only [Option.bind_eq_bind, Option.bind_eq_some_iff, Option.pure_def,
          Option.some.injEq] at h
        obtain ⟨⟨name, position⟩, htarget, value, hvalue, rfl⟩ := h
        refine ⟨name, position, value, rfl, (forms_record_succ (by simp)).2 ⟨_, hrecord, ?_⟩⟩
        exact .cons ⟨v, rfl, (index?_eq_some_iff n).1 htarget⟩
          (.cons ⟨w, rfl, (expr?_eq_some_iff n).1 hvalue⟩ .nil)
      · cases h
    · rintro ⟨name, position, value, rfl, h⟩
      obtain ⟨_, hrecord, _ | ⟨⟨v, rfl, htarget⟩, _ | ⟨⟨w, rfl, hvalue⟩, _ | _⟩⟩⟩ :=
        (forms_record_succ (by simp)).1 h
      simp only [List.map_cons, List.map_nil] at hrecord
      simp only [hrecord, (index?_eq_some_iff n).2 htarget, (expr?_eq_some_iff n).2 hvalue,
        Option.bind_eq_bind, Option.bind_some, Option.pure_def]

mutual

theorem stmt?_eq_some_iff : (n : Nat) → {j : Json} → {t : Stmt} →
    (stmt? n j = some t ↔ t.forms n j)
  | 0, j, t => by simp [stmt?, Stmt.forms, Forms.node, Forms.record]
  | n + 1, j, t => by
    simp only [stmt?, Option.bind_eq_bind, Option.bind_eq_some_iff, Prod.exists,
      stmtForm?_eq_some_iff n, Stmt.forms, forms_node_iff, Nat.add_sub_cancel]
    constructor
    · rintro ⟨content, s, hnode, rfl, hform⟩
      exact ⟨content, hnode, hform⟩
    · rintro ⟨content, hnode, hform⟩
      exact ⟨content, t.span, hnode, rfl, hform⟩

theorem stmtForm?_eq_some_iff : (n : Nat) → {j : Json} → {s : Span} → {t : Stmt} →
    (stmtForm? n j s = some t ↔ t.span = s ∧ t.contentForms n j)
  | 0, j, s, t => by
    cases t <;> simp [stmtForm?, Stmt.contentForms, Forms.variant]
  | n + 1, j, s, t => by
    constructor
    · intro h
      unfold stmtForm? at h
      split at h
      · next v hvariant =>
        obtain ⟨value, hvalue, rfl⟩ := Option.map_eq_some_iff.1 h
        exact ⟨rfl, v, (expr?_eq_some_iff n).1 hvalue, variant?_eq_some_iff.1 hvariant⟩
      · next v hvariant =>
        obtain ⟨value, hvalue, rfl⟩ := Option.map_eq_some_iff.1 h
        exact ⟨rfl, v, (expr?_eq_some_iff n).1 hvalue, variant?_eq_some_iff.1 hvariant⟩
      · next v hvariant =>
        obtain ⟨name, value, rfl, hv⟩ := assign?_eq_some_iff.1 h
        exact ⟨rfl, v, hv, variant?_eq_some_iff.1 hvariant⟩
      · next v hvariant =>
        obtain ⟨name, position, value, rfl, hv⟩ := indexAssign?_eq_some_iff.1 h
        exact ⟨rfl, v, hv, variant?_eq_some_iff.1 hvariant⟩
      · next v hvariant =>
        obtain ⟨var, range, body, rfl, hv⟩ := (loop?_eq_some_iff n).1 h
        exact ⟨rfl, v, hv, variant?_eq_some_iff.1 hvariant⟩
      · next v hvariant =>
        obtain ⟨cond, thenBody, elseBody, rfl, hv⟩ := (branch?_eq_some_iff n).1 h
        exact ⟨rfl, v, hv, variant?_eq_some_iff.1 hvariant⟩
      · cases h
    · rintro ⟨rfl, h⟩
      cases t with
      | print value s =>
        obtain ⟨v, hv, rfl⟩ := h
        exact congrArg (Option.map (Stmt.print · s)) ((expr?_eq_some_iff n).2 hv)
      | printLine value s =>
        obtain ⟨v, hv, rfl⟩ := h
        exact congrArg (Option.map (Stmt.printLine · s)) ((expr?_eq_some_iff n).2 hv)
      | assign name value s =>
        obtain ⟨v, hv, rfl⟩ := h
        exact assign?_eq_some_iff.2 ⟨name, value, rfl, hv⟩
      | indexAssign name position value s =>
        obtain ⟨v, hv, rfl⟩ := h
        exact indexAssign?_eq_some_iff.2 ⟨name, position, value, rfl, hv⟩
      | loop var range body s =>
        obtain ⟨v, hv, rfl⟩ := h
        exact (loop?_eq_some_iff n).2 ⟨var, range, body, rfl, hv⟩
      | branch cond thenBody elseBody s =>
        obtain ⟨v, hv, rfl⟩ := h
        exact (branch?_eq_some_iff n).2 ⟨cond, thenBody, elseBody, rfl, hv⟩

theorem loop?_eq_some_iff : (n : Nat) → {j : Json} → {s : Span} → {t : Stmt} →
    (loop? n j s = some t ↔ ∃ var range body, t = .loop var range body s ∧
      Forms.loop var range.forms (.array (Stmt.allForms body)) n j)
  | 0, j, s, t => by simp [loop?, Forms.loop, Forms.record]
  | n + 1, j, s, t => by
    rw [loop?]
    constructor
    · intro h
      split at h
      · next u v w hrecord =>
        simp only [Option.bind_eq_bind, Option.bind_eq_some_iff, Option.pure_def,
          Option.some.injEq] at h
        obtain ⟨var, hvar, range, hrange, body, hbody, rfl⟩ := h
        refine ⟨var, range, body, rfl, (forms_record_succ (by simp)).2 ⟨_, hrecord, ?_⟩⟩
        exact .cons ⟨u, rfl, string?_eq_some_iff.1 hvar⟩
          (.cons ⟨v, rfl, range?_eq_some_iff.1 hrange⟩
          (.cons ⟨w, rfl, (stmts?_eq_some_iff n).1 hbody⟩ .nil))
      · cases h
    · rintro ⟨var, range, body, rfl, h⟩
      obtain ⟨_, hrecord, _ | ⟨⟨u, rfl, hvar⟩, _ | ⟨⟨v, rfl, hrange⟩,
        _ | ⟨⟨w, rfl, hbody⟩, _ | _⟩⟩⟩⟩ := (forms_record_succ (by simp)).1 h
      simp only [List.map_cons, List.map_nil] at hrecord
      simp only [hrecord, string?_eq_some_iff.2 hvar, range?_eq_some_iff.2 hrange,
        (stmts?_eq_some_iff n).2 hbody, Option.bind_eq_bind, Option.bind_some, Option.pure_def]

theorem branch?_eq_some_iff : (n : Nat) → {j : Json} → {s : Span} → {t : Stmt} →
    (branch? n j s = some t ↔ ∃ cond thenBody elseBody, t = .branch cond thenBody elseBody s ∧
      Forms.branch cond.forms (.array (Stmt.allForms thenBody)) (Stmt.elseForms elseBody) n j)
  | 0, j, s, t => by simp [branch?, Forms.branch, Forms.record]
  | n + 1, j, s, t => by
    rw [branch?]
    -- the field of a branch without `else` may be absent or empty
    have hwithout {u v : Json} {w : Option Json} (hw : Stmt.elseForms none n w)
        (hrecord : record? ["cond", "then_body", "else_body"] j = some [some u, some v, w])
        (h : (do return Stmt.branch (← expr? n u) (← stmts? n v) none s) = some t) :
        ∃ cond thenBody elseBody, t = .branch cond thenBody elseBody s ∧
          Forms.branch cond.forms (.array (Stmt.allForms thenBody)) (Stmt.elseForms elseBody)
            (n + 1) j := by
      simp only [Option.bind_eq_bind, Option.bind_eq_some_iff, Option.pure_def,
        Option.some.injEq] at h
      obtain ⟨cond, hcond, thenBody, hthen, rfl⟩ := h
      refine ⟨cond, thenBody, none, rfl, (forms_record_succ (by simp)).2 ⟨_, hrecord, ?_⟩⟩
      exact .cons ⟨u, rfl, (expr?_eq_some_iff n).1 hcond⟩
        (.cons ⟨v, rfl, (stmts?_eq_some_iff n).1 hthen⟩ (.cons hw .nil))
    constructor
    · intro h
      split at h
      · next hrecord => exact hwithout (.inl rfl) hrecord h
      · next hrecord => exact hwithout (.inr rfl) hrecord h
      · next u v w _ hrecord =>
        simp only [Option.bind_eq_bind, Option.bind_eq_some_iff, Option.pure_def,
          Option.some.injEq] at h
        obtain ⟨cond, hcond, thenBody, hthen, elseBody, helse, rfl⟩ := h
        refine ⟨cond, thenBody, some elseBody, rfl,
          (forms_record_succ (by simp)).2 ⟨_, hrecord, ?_⟩⟩
        exact .cons ⟨u, rfl, (expr?_eq_some_iff n).1 hcond⟩
          (.cons ⟨v, rfl, (stmts?_eq_some_iff n).1 hthen⟩
          (.cons ⟨w, rfl, (stmts?_eq_some_iff n).1 helse⟩ .nil))
      · cases h
    · rintro ⟨cond, thenBody, elseBody, rfl, h⟩
      obtain ⟨_, hrecord, _ | ⟨⟨u, rfl, hcond⟩, _ | ⟨⟨v, rfl, hthen⟩,
        _ | ⟨helse, _ | _⟩⟩⟩⟩ := (forms_record_succ (by simp)).1 h
      simp only [List.map_cons, List.map_nil] at hrecord
      cases elseBody with
      | none =>
        rcases helse with rfl | rfl <;>
          simp only [hrecord, (expr?_eq_some_iff n).2 hcond, (stmts?_eq_some_iff n).2 hthen,
            Option.bind_eq_bind, Option.bind_some, Option.pure_def]
      | some elseBody =>
        obtain ⟨w, rfl, hw⟩ := helse
        have hnull : w ≠ .null := by
          rintro rfl
          cases n with
          | zero => exact hw
          | succ n =>
            obtain ⟨_, _, hw⟩ := hw
            cases hw
        simp only [hrecord, (expr?_eq_some_iff n).2 hcond, (stmts?_eq_some_iff n).2 hthen,
          (stmts?_eq_some_iff n).2 hw, Option.bind_eq_bind, Option.bind_some, Option.pure_def]

theorem stmts?_eq_some_iff : (n : Nat) → {j : Json} → {ss : List Stmt} →
    (stmts? n j = some ss ↔ Forms.array (Stmt.allForms ss) n j)
  | 0, j, ss => by simp [stmts?, Forms.array]
  | n + 1, j, ss => by
    rw [Stmt.allForms_eq_map, forms_array_succ (stmt?_eq_some_iff n)]
    constructor
    · intro h
      unfold stmts? at h
      split at h
      · cases h
      · next heq =>
        cases heq
        exact ⟨_, rfl, h⟩
      · cases h
    · rintro ⟨vs, rfl, h⟩
      exact h

end

theorem program?_eq_some_iff {n : Nat} {j : Json} {p : Program} :
    program? n j = some p ↔ p.forms n j := by
  cases n with
  | zero => simp [program?, Program.forms, Forms.record]
  | succ n =>
    rw [Program.forms, forms_record_succ (by simp), program?]
    constructor
    · intro h
      split at h
      · next v hrecord =>
        obtain ⟨ss, hss, rfl⟩ := Option.map_eq_some_iff.1 h
        exact ⟨_, hrecord, .cons ⟨v, rfl, (stmts?_eq_some_iff n).1 hss⟩ .nil⟩
      · cases h
    · rintro ⟨_, hrecord, _ | ⟨⟨v, rfl, hv⟩, _ | _⟩⟩
      simp only [List.map_cons, List.map_nil] at hrecord
      simp only [hrecord, (stmts?_eq_some_iff n).2 hv, Option.map_some]

end Scriptlet.Decode
