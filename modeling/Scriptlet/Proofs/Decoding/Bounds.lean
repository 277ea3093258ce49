-- How deep the printed form of a tree nests. It is one of the forms of the tree, and none
-- of the others nests less, so a tree that was read is read back from what it prints.
import Scriptlet.Proofs.Decoding.Forms
import Scriptlet.Proofs.Nodes.Members

namespace Scriptlet

/-! ## How deep containers nest -/

mutual

/-- How many containers stand around the innermost one, itself counted. -/
def Json.depth : Json → Nat
  | .arr items => Json.itemsDepth items + 1
  | .obj fields => Json.fieldsDepth fields + 1
  | _ => 0

def Json.itemsDepth : List Json → Nat
  | [] => 0
  | v :: vs => max v.depth (Json.itemsDepth vs)

def Json.fieldsDepth : List (Json.Text × Json) → Nat
  | [] => 0
  | (_, v) :: fs => max v.depth (Json.fieldsDepth fs)

end

namespace Json

@[simp] theorem depth_ofString (s : String) : (ofString s).depth = 0 := by
  simp [ofString, depth]

@[simp] theorem depth_ofNat (n : Nat) : (ofNat n).depth = 0 := by
  simp [ofNat, depth]

@[simp] theorem depth_int (n : Int) : (int n).depth = 0 := by
  simp [depth]

@[simp] theorem depth_null : null.depth = 0 := by
  simp [depth]

@[simp] theorem depth_arr (items : List Json) : (arr items).depth = itemsDepth items + 1 := by
  rw [depth]

/-- The deepest of some fields. -/
def deepest (fields : List (String × Json)) : Nat := fields.foldr (fun f d => max f.2.depth d) 0

@[simp] theorem depth_ofFields (fields : List (String × Json)) :
    (ofFields fields).depth = deepest fields + 1 := by
  have hfields : fieldsDepth (fields.map fun f => (.whole f.1, f.2)) = deepest fields := by
    induction fields with
    | nil => simp [fieldsDepth, deepest]
    | cons f fields ih =>
      rw [List.map_cons, fieldsDepth, ih]
      rfl
  rw [ofFields, depth]
  exact congrArg (· + 1) hfields

@[simp] theorem depth_variant (name : String) (content : Json) :
    (variant name content).depth = content.depth + 1 := by
  simp [variant, deepest]

@[simp] theorem depth_index (name : String) (position : Json) :
    (index name position).depth = position.depth + 1 := by
  simp [index, deepest]

end Json

@[simp] theorem Span.depth_toJson (s : Span) : s.toJson.depth = 1 := by
  simp [toJson, Json.deepest]

theorem Json.depth_node {content : Json} (h : 1 ≤ content.depth) (span : Span) :
    (node content span).depth = content.depth + 1 := by
  simp only [node, depth_ofFields, deepest, List.foldr_cons, List.foldr_nil, Span.depth_toJson]
  omega

theorem Json.depth_node_variant (tag : String) (content : Json) (span : Span) :
    (node (.variant tag content) span).depth = content.depth + 2 := by
  rw [depth_node (by simp), depth_variant]

/-! ## Stretches that can be read -/

/-- Whether the numbers of a stretch have 64 bits. -/
structure Span.Fits (s : Span) : Prop where
  start : s.start < UInt64.size
  stop : s.stop < UInt64.size
  line : s.line < UInt64.size

/-- Whether all nodes stand at such stretches. -/
def Program.Fits (p : Program) : Prop := ∀ n ∈ p.nodes, n.span.Fits

/-! ## The form that nests least -/

namespace Forms

/-- Whether `c` is among what may stand for a part wherever `d` containers may nest,
provided `fits`, and nothing else may with fewer of them. What may stand for it with some
may do so with more. -/
structure Least {α : Type} (part : FormsIn α) (c : α) (d : Nat) (fits : Prop) : Prop where
  mem : ∀ {n}, fits → d ≤ n → part n c
  le : ∀ {n c'}, part n c' → fits ∧ d ≤ n
  mono : ∀ {n m c'}, n ≤ m → part n c' → part m c'

/-- The same for several parts, of which the deepest decides. -/
inductive LeastEach {α : Type} : List (FormsIn α) → List α → Nat → Prop → Prop
  | nil : LeastEach [] [] 0 True
  | cons {part c d fits parts cs d' fits'} : Least part c d fits → LeastEach parts cs d' fits' →
    LeastEach (part :: parts) (c :: cs) (max d d') (fits ∧ fits')

section

variable {α : Type} {part : FormsIn α} {c : α} {d : Nat} {fits fits' : Prop}

theorem Least.of_iff (h : Least part c d fits) (hfits : fits ↔ fits') : Least part c d fits' :=
  ⟨fun hf => h.mem (hfits.2 hf), fun hc => (h.le hc).imp_left hfits.1, h.mono⟩

/-- One more container nests one deeper. -/
theorem Least.around (h : Least part c d fits) {holds : Json → α → Prop} {v : Json}
    (hv : holds v c) : Least (around holds part) v (d + 1) fits := by
  constructor
  · intro n hfits hn
    obtain ⟨n, rfl⟩ := Nat.exists_eq_add_of_le' (Nat.one_le_of_lt hn)
    exact ⟨c, h.mem hfits (Nat.le_of_succ_le_succ hn), hv⟩
  · intro n w hw
    cases n with
    | zero => exact hw.elim
    | succ n =>
      obtain ⟨c', hc', -⟩ := hw
      exact (h.le hc').imp_right Nat.succ_le_succ
  · intro n m w hnm hw
    cases n with
    | zero => exact hw.elim
    | succ n =>
      obtain ⟨m, rfl⟩ := Nat.exists_eq_add_of_le' (Nat.one_le_of_lt hnm)
      obtain ⟨c', hc', hw⟩ := hw
      exact ⟨c', h.mono (Nat.le_of_succ_le_succ hnm) hc', hw⟩

theorem LeastEach.least {parts : List (FormsIn α)} {cs : List α}
    (h : LeastEach parts cs d fits) : Least (each parts) cs d fits := by
  induction h with
  | nil =>
    refine ⟨fun _ _ => .nil, fun _ => ⟨trivial, Nat.zero_le _⟩, fun _ hcs => ?_⟩
    cases hcs
    exact .nil
  | cons hpart _ ih =>
    refine ⟨fun hfits hn => ?_, fun hcs => ?_, fun hnm hcs => ?_⟩
    · obtain ⟨hd, hd'⟩ := Nat.max_le.1 hn
      exact .cons (hpart.mem hfits.1 hd) (ih.mem hfits.2 hd')
    · cases hcs with
      | cons hc hcs =>
        obtain ⟨hfits, hd⟩ := hpart.le hc
        obtain ⟨hfits', hd'⟩ := ih.le hcs
        exact ⟨⟨hfits, hfits'⟩, Nat.max_le.2 ⟨hd, hd'⟩⟩
    · cases hcs with
      | cons hc hcs => exact .cons (hpart.mono hnm hc) (ih.mono hnm hcs)

end

/-- Whether a document is the least deep of some forms. -/
abbrev LeastForm (forms : Forms) (v : Json) (fits : Prop) : Prop := Least forms v v.depth fits

variable {forms : Forms} {v : Json} {fits : Prop}

theorem least_scalar (h : v.depth = 0) : LeastForm (scalar v) v True :=
  ⟨fun _ _ => rfl, fun _ => ⟨trivial, by omega⟩, fun _ hw => hw⟩

theorem least_offset (k : Nat) : LeastForm (offset k) (.ofNat k) (k < UInt64.size) :=
  ⟨fun hk _ => ⟨hk, rfl⟩, fun hw => ⟨hw.1, by simp⟩, fun _ hw => hw⟩

theorem Least.variant (h : LeastForm forms v fits) (name : String) :
    LeastForm (.variant name forms) (.variant name v) fits := by
  rw [LeastForm, Json.depth_variant]
  exact h.around rfl

theorem Least.given (h : LeastForm forms v fits) : Least (given forms) (some v) v.depth fits :=
  ⟨fun hfits hn => ⟨v, rfl, h.mem hfits hn⟩, fun ⟨_, _, hw⟩ => h.le hw,
    fun hnm ⟨w, hfield, hw⟩ => ⟨w, hfield, h.mono hnm hw⟩⟩

theorem least_nothing : Least nothing (some .null) Json.null.depth True :=
  ⟨fun _ _ => .inr rfl, fun _ => ⟨trivial, by simp⟩, fun _ hfield => hfield⟩

theorem LeastEach.array {items : List Forms} {vs : List Json}
    (h : LeastEach items vs (Json.itemsDepth vs) fits) :
    LeastForm (.array items) (.arr vs) fits := by
  rw [LeastForm, Json.depth_arr]
  exact h.least.around rfl

/-- A record that is written field by field has no other fields. -/
theorem isRecord_ofFields (vs : List (String × Json)) :
    (Json.ofFields vs).IsRecord (vs.map Prod.fst) (vs.map fun f => some f.2) := by
  have hpresent : Json.present (vs.map Prod.fst) (vs.map fun f => some f.2) =
      vs.map fun f => (.whole f.1, f.2) := by
    induction vs with
    | nil => rfl
    | cons f vs ih => exact congrArg ((.whole f.1, f.2) :: ·) ih
  have hperm : (vs.map fun f => (Json.Text.whole f.1, f.2)).Perm
      (Json.present (vs.map Prod.fst) (vs.map fun f => some f.2) ++ []) := by
    rw [hpresent, List.append_nil]
  exact .fields (by simp) (by simp) hperm

theorem LeastEach.record {fields : List (String × FormsIn (Option Json))}
    (vs : List (String × Json)) (hnames : fields.map Prod.fst = vs.map Prod.fst)
    (h : LeastEach (fields.map Prod.snd) (vs.map fun f => some f.2) (Json.deepest vs) fits) :
    LeastForm (.record fields) (.ofFields vs) fits := by
  have hv := isRecord_ofFields vs
  rw [← hnames] at hv
  rw [LeastForm, Json.depth_ofFields]
  exact h.least.around hv

end Forms

/-! ## Printed trees -/

open Forms (Least LeastEach LeastForm least_scalar least_offset least_nothing)

theorem Span.least_forms (s : Span) : LeastForm s.forms s.toJson s.Fits := by
  refine Least.of_iff (LeastEach.record [("start", _), ("end", _), ("line", _)] rfl
    (.cons (least_offset s.start).given (.cons (least_offset s.stop).given
      (.cons (least_offset s.line).given .nil)))) ?_
  exact ⟨fun h => ⟨h.1, h.2.1, h.2.2.1⟩, fun h => ⟨h.start, h.stop, h.line, trivial⟩⟩

theorem Forms.Least.node {content : Forms} {v : Json} {fits : Prop}
    (h : LeastForm content v fits) (s : Span) :
    LeastForm (.node content s) (.node v s) (s.Fits ∧ fits) := by
  refine Least.of_iff (LeastEach.record [("node", _), ("span", _)] rfl
    (.cons h.given (.cons s.least_forms.given .nil))) ?_
  exact ⟨fun h => ⟨h.2.1, h.1⟩, fun h => ⟨h.2, h.1, trivial⟩⟩

theorem Span.least_leaf (s : Span) {v : Json} (hv : v.depth = 0) (name : String) :
    LeastForm (.node (.variant name (.scalar v)) s) (.node (.variant name v) s) s.Fits :=
  (((least_scalar hv).variant name).node s).of_iff (by rw [and_true])

theorem BinOp.least_forms (op : BinOp) : LeastForm op.forms (.ofString op.tag) True :=
  ⟨fun _ _ => .inl rfl, fun _ => ⟨trivial, by simp⟩, fun hnm hw =>
    hw.imp_right (((least_scalar Json.depth_null).variant op.tag).mono hnm)⟩

theorem Forms.Least.index {position : Forms} {v : Json} {fits : Prop}
    (h : LeastForm position v fits) (name : String) :
    LeastForm (.index name position) (.index name v) fits := by
  refine Least.of_iff (LeastEach.record [("name", _), ("index", _)] rfl
    (.cons (least_scalar (Json.depth_ofString name)).given (.cons h.given .nil))) ?_
  rw [true_and, and_true]

theorem Forms.Least.operands {l r : Forms} {v w : Json} {fits fits' : Prop}
    (hl : LeastForm l v fits) (hr : LeastForm r w fits') (op : BinOp) :
    LeastForm (.operands op l r) (.ofFields [("op", .ofString op.tag), ("lhs", v), ("rhs", w)])
      (fits ∧ fits') := by
  refine Least.of_iff (LeastEach.record [("op", _), ("lhs", _), ("rhs", _)] rfl
    (.cons op.least_forms.given (.cons hl.given (.cons hr.given .nil)))) ?_
  rw [true_and, and_true]

mutual

theorem Expr.least_forms : (e : Expr) → LeastForm e.forms e.toJson (∀ n ∈ e.nodes, n.span.Fits)
  | .number k s => by
    rw [Expr.forms, Expr.contentForms, Expr.toJson, nodes, List.forall_mem_singleton]
    exact s.least_leaf (Json.depth_int _) "Number"
  | .str raw s => by
    rw [Expr.forms, Expr.contentForms, Expr.toJson, nodes, List.forall_mem_singleton]
    exact s.least_leaf (Json.depth_ofString raw) "Str"
  | .ident name s => by
    rw [Expr.forms, Expr.contentForms, Expr.toJson, nodes, List.forall_mem_singleton]
    exact s.least_leaf (Json.depth_ofString name) "Ident"
  | .list items s => by
    rw [Expr.forms, Expr.contentForms, Expr.toJson, nodes, List.forall_mem_cons]
    exact ((Expr.least_allForms items).array.variant "List").node s
  | .index name position s => by
    rw [Expr.forms, Expr.contentForms, Expr.toJson, nodes, List.forall_mem_cons]
    exact (((Expr.least_forms position).index name).variant "Index").node s
  | .binary family op lhs rhs s => by
    rw [Expr.forms, Expr.contentForms, Expr.toJson, nodes, List.forall_mem_cons,
      List.forall_mem_append]
    exact (((Expr.least_forms lhs).operands (Expr.least_forms rhs) op).variant family.tag).node s

theorem Expr.least_allForms : (es : List Expr) →
    LeastEach (Expr.allForms es) (Expr.allToJson es) (Json.itemsDepth (Expr.allToJson es))
      (∀ n ∈ Expr.allNodes es, n.span.Fits)
  | [] => by
    simp only [Expr.allForms, Expr.allToJson, Expr.allNodes, Json.itemsDepth, List.not_mem_nil,
      false_implies, implies_true]
    exact .nil
  | e :: es => by
    rw [Expr.allForms, Expr.allToJson, Expr.allNodes, List.forall_mem_append]
    exact .cons (Expr.least_forms e) (Expr.least_allForms es)

end

section

variable {u v w : Json} {fits fits' fits'' : Prop}

theorem Forms.Least.bounds {lo hi : Forms} (hlo : LeastForm lo v fits)
    (hhi : LeastForm hi w fits') :
    LeastForm (.bounds lo hi) (.ofFields [("lo", v), ("hi", w)]) (fits ∧ fits') := by
  refine Least.of_iff (LeastEach.record [("lo", _), ("hi", _)] rfl
    (.cons hlo.given (.cons hhi.given .nil))) ?_
  rw [and_true]

theorem Forms.Least.assign {value : Forms} (h : LeastForm value v fits) (name : String) :
    LeastForm (.assign name value) (.ofFields [("name", .ofString name), ("value", v)]) fits := by
  refine Least.of_iff (LeastEach.record [("name", _), ("value", _)] rfl
    (.cons (least_scalar (Json.depth_ofString name)).given (.cons h.given .nil))) ?_
  rw [true_and, and_true]

theorem Forms.Least.indexAssign {position value : Forms} (hposition : LeastForm position v fits)
    (hvalue : LeastForm value w fits') (name : String) :
    LeastForm (.indexAssign name position value)
      (.ofFields [("target", .index name v), ("value", w)]) (fits ∧ fits') := by
  refine Least.of_iff (LeastEach.record [("target", _), ("value", _)] rfl
    (.cons (hposition.index name).given (.cons hvalue.given .nil))) ?_
  rw [and_true]

theorem Forms.Least.loop {range body : Forms} (hrange : LeastForm range v fits)
    (hbody : LeastForm body w fits') (var : String) :
    LeastForm (.loop var range body)
      (.ofFields [("var", .ofString var), ("range", v), ("body", w)]) (fits ∧ fits') := by
  refine Least.of_iff (LeastEach.record [("var", _), ("range", _), ("body", _)] rfl
    (.cons (least_scalar (Json.depth_ofString var)).given
      (.cons hrange.given (.cons hbody.given .nil)))) ?_
  rw [true_and, and_true]

theorem Forms.Least.branch {cond thenBody : Forms} {elseBody : FormsIn (Option Json)}
    (hcond : LeastForm cond u fits) (hthen : LeastForm thenBody v fits')
    (helse : Least elseBody (some w) w.depth fits'') :
    LeastForm (.branch cond thenBody elseBody)
      (.ofFields [("cond", u), ("then_body", v), ("else_body", w)]) (fits ∧ fits' ∧ fits'') := by
  refine Least.of_iff (LeastEach.record [("cond", _), ("then_body", _), ("else_body", _)] rfl
    (.cons hcond.given (.cons hthen.given (.cons helse .nil)))) ?_
  rw [and_true]

end

theorem Range.least_forms (r : Range) :
    LeastForm r.forms r.toJson (∀ n ∈ r.nodes, n.span.Fits) := by
  rw [nodes, List.forall_mem_cons, List.forall_mem_append]
  exact (r.lo.least_forms.bounds r.hi.least_forms).node r.span

mutual

theorem Stmt.least_forms : (s : Stmt) → LeastForm s.forms s.toJson (∀ n ∈ s.nodes, n.span.Fits)
  | .assign name value s => by
    rw [Stmt.forms, Stmt.contentForms, Stmt.toJson, nodes, List.forall_mem_cons]
    exact ((value.least_forms.assign name).variant "Assign").node s
  | .indexAssign name position value s => by
    rw [Stmt.forms, Stmt.contentForms, Stmt.toJson, nodes, List.forall_mem_cons,
      List.forall_mem_append]
    exact ((position.least_forms.indexAssign value.least_forms name).variant "IndexAssign").node s
  | .print value s => by
    rw [Stmt.forms, Stmt.contentForms, Stmt.toJson, nodes, List.forall_mem_cons]
    exact (value.least_forms.variant "Print").node s
  | .printLine value s => by
    rw [Stmt.forms, Stmt.contentForms, Stmt.toJson, nodes, List.forall_mem_cons]
    exact (value.least_forms.variant "PrintLine").node s
  | .loop var range body s => by
    rw [Stmt.forms, Stmt.contentForms, Stmt.toJson, nodes, List.forall_mem_cons,
      List.forall_mem_append]
    exact ((range.least_forms.loop (Stmt.least_allForms body).array var).variant "For").node s
  | .branch cond thenBody none s => by
    rw [Stmt.forms, Stmt.contentForms, Stmt.toJson, nodes, List.forall_mem_cons,
      List.forall_mem_append]
    have hbranch := cond.least_forms.branch (Stmt.least_allForms thenBody).array least_nothing
    exact ((hbranch.of_iff (by rw [and_true])).variant "If").node s
  | .branch cond thenBody (some elseBody) s => by
    rw [Stmt.forms, Stmt.contentForms, Stmt.toJson, nodes, List.forall_mem_cons,
      List.forall_mem_append, List.forall_mem_append, and_assoc]
    exact ((cond.least_forms.branch (Stmt.least_allForms thenBody).array
      (Stmt.least_allForms elseBody).array.given).variant "If").node s

theorem Stmt.least_allForms : (ss : List Stmt) →
    LeastEach (Stmt.allForms ss) (Stmt.allToJson ss) (Json.itemsDepth (Stmt.allToJson ss))
      (∀ n ∈ Stmt.allNodes ss, n.span.Fits)
  | [] => by
    simp only [Stmt.allForms, Stmt.allToJson, Stmt.allNodes, Json.itemsDepth, List.not_mem_nil,
      false_implies, implies_true]
    exact .nil
  | s :: ss => by
    rw [Stmt.allForms, Stmt.allToJson, Stmt.allNodes, List.forall_mem_append]
    exact .cons (Stmt.least_forms s) (Stmt.least_allForms ss)

end

/-- The printed form of a program is one of its forms and nests least. -/
theorem Program.least_forms (p : Program) : LeastForm p.forms p.toJson p.Fits := by
  refine Least.of_iff (LeastEach.record [("stmts", _)] rfl
    (.cons (Stmt.least_allForms p.stmts).array.given .nil)) ?_
  rw [and_true]
  rfl

end Scriptlet
