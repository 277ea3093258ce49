-- What literals come to: the data that they spell, in lists that are all new. Each of
-- them stands at one place in the value and at no place anywhere else, so the value has
-- no cycles, and printing it writes the data back.
import Scriptlet.Proofs.Display
import Scriptlet.Proofs.Joining
import Scriptlet.Proofs.Literals.Spelling

namespace Scriptlet

/-! ## Data in a heap -/

namespace Heap

/-- Whether a value has just the structure of the data. -/
inductive Represents (h : Heap) : Value → Datum → Prop
  | int {n nonneg} : Represents h (.int n) (.int n nonneg)
  | str {s plain} : Represents h (.str s) (.str s plain)
  | list {r ds} : List.Forall₂ (Represents h) (h.items r) ds → Represents h (.list r) (.list ds)

/-- The value at the end of a path that starts at one of some values. -/
def followAny? (h : Heap) (vs : List Value) : List Nat → Option Value
  | [] => none
  | i :: path => vs[i]?.bind fun v => h.follow? v path

theorem follow?_list (h : Heap) (r : ListRef) (i : Nat) (path : List Nat) :
    h.follow? (.list r) (i :: path) = h.followAny? (h.items r) (i :: path) := by
  simp only [follow?, followAny?, Value.list?, Option.bind_some, get?_eq]

end Heap

/-- Paths that lead to lists from `lo` on and before `hi`, no two of them to the same. -/
structure LeadsInto (lo hi : Nat) (reach : List Nat → Option Value) : Prop where
  bounds : ∀ path (r : Nat), reach path = some (.list r) → lo ≤ r ∧ r < hi
  unique : ∀ path other r, reach path = some (.list r) → reach other = some (.list r) →
    other = path

namespace LeadsInto

variable {h : Heap} {v : Value} {vs : List Value} {lo mid hi : Nat}

theorem of_no_list {reach : List Nat → Option Value}
    (hnone : ∀ path r, reach path ≠ some (.list r)) : LeadsInto lo hi reach := by
  constructor
  · intro path r hpath
    exact absurd hpath (hnone path r)
  · intro path other r hpath
    exact absurd hpath (hnone path r)

theorem of_scalar (hv : v.list? = none) : LeadsInto lo hi (h.follow? v) :=
  of_no_list fun path _ => Heap.follow?_ne_list hv path

theorem nil : LeadsInto lo hi (h.followAny? []) := by
  apply of_no_list
  intro path r hpath
  cases path <;> cases hpath

/-- The lists of the first value come before those of the others. -/
theorem cons (hv : LeadsInto lo mid (h.follow? v)) (hvs : LeadsInto mid hi (h.followAny? vs))
    (hlo : lo ≤ mid) (hhi : mid ≤ hi) : LeadsInto lo hi (h.followAny? (v :: vs)) := by
  have hcases : ∀ path r, h.followAny? (v :: vs) path = some (.list r) →
      (∃ rest, path = 0 :: rest ∧ h.follow? v rest = some (.list r)) ∨
      ∃ i rest, path = (i + 1) :: rest ∧ h.followAny? vs (i :: rest) = some (.list r) := by
    intro path r hpath
    rcases path with _ | ⟨_ | i, rest⟩
    · cases hpath
    · exact .inl ⟨rest, rfl, hpath⟩
    · exact .inr ⟨i, rest, rfl, hpath⟩
  constructor
  · intro path r hpath
    rcases hcases path r hpath with ⟨rest, rfl, hrest⟩ | ⟨i, rest, rfl, hrest⟩
    · have := hv.bounds rest r hrest
      omega
    · have := hvs.bounds (i :: rest) r hrest
      omega
  · intro path other r hpath hother
    rcases hcases path r hpath with ⟨p, rfl, hp⟩ | ⟨i, p, rfl, hp⟩ <;>
      rcases hcases other r hother with ⟨q, rfl, hq⟩ | ⟨j, q, rfl, hq⟩
    · rw [hv.unique p q r hp hq]
    · have := hv.bounds p r hp
      have := hvs.bounds (j :: q) r hq
      omega
    · have := hv.bounds q r hq
      have := hvs.bounds (i :: p) r hp
      omega
    · cases hvs.unique (i :: p) (j :: q) r hp hq
      rfl

/-- A list that is made after those that its items lead to. -/
theorem list {r : Nat} (hvs : LeadsInto lo r (h.followAny? (h.items r))) (hlo : lo ≤ r) :
    LeadsInto lo (r + 1) (h.follow? (.list r)) := by
  constructor
  · intro path q hpath
    cases path with
    | nil =>
      cases hpath
      omega
    | cons i path =>
      rw [Heap.follow?_list] at hpath
      have := hvs.bounds _ q hpath
      omega
  · intro path other q hpath hother
    cases path with
    | nil =>
      cases hpath
      cases other with
      | nil => rfl
      | cons j other =>
        rw [Heap.follow?_list] at hother
        have := hvs.bounds _ r hother
        omega
    | cons i path =>
      rw [Heap.follow?_list] at hpath
      cases other with
      | nil =>
        cases hother
        have := hvs.bounds _ r hpath
        omega
      | cons j other =>
        rw [Heap.follow?_list] at hother
        exact hvs.unique _ _ q hpath hother

end LeadsInto

/-! ## Evaluation -/

theorem unquote_of_quoted {raw s : String} (h : raw.toList = '"' :: (s.toList ++ ['"'])) :
    unquote raw = s := by
  simp [unquote, h]

/-- Whether every expression that denotes the data makes it, out of lists that it makes
for it, and they stay so whatever lists are made later. -/
def Datum.Built (d : Datum) : Prop :=
  ∀ e : Expr, e.Denotes d → ∀ env h, ∃ v h', e.eval env h = .ok v h' ∧ h.Grows h' ∧
    ∀ later : Heap, h'.Grows later →
      later.Represents v d ∧ LeadsInto h.size h'.size (later.follow? v)

theorem exists_evalAll_of_denotes {es : List Expr} {ds : List Datum}
    (hes : List.Forall₂ Expr.Denotes es ds) (hds : ∀ d ∈ ds, d.Built) (env : Environment)
    (h : Heap) : ∃ vs h', Expr.evalAll env es h = .ok vs h' ∧ h.Grows h' ∧
      ∀ later : Heap, h'.Grows later → List.Forall₂ later.Represents vs ds ∧
        LeadsInto h.size h'.size (later.followAny? vs) := by
  induction hes generalizing h with
  | nil =>
    refine ⟨[], h, ?_, .refl h, fun later _ => ⟨.nil, .nil⟩⟩
    rw [Expr.evalAll]
    rfl
  | @cons e d es ds he _ ih =>
    obtain ⟨hd, hds⟩ := List.forall_mem_cons.1 hds
    obtain ⟨v, h₁, hv, hgrows, hvalue⟩ := hd e he env h
    obtain ⟨vs, h₂, hvs, hgrows', hvalues⟩ := ih hds h₁
    refine ⟨v :: vs, h₂, ?_, hgrows.trans hgrows', ?_⟩
    · rw [Expr.evalAll, bind_eq_ok_iff]
      exact ⟨v, h₁, hv, bind_eq_ok_iff.2 ⟨vs, h₂, hvs, rfl⟩⟩
    · intro later hlater
      obtain ⟨hrepresents, hleads⟩ := hvalue later (hgrows'.trans hlater)
      obtain ⟨hrest, hleads'⟩ := hvalues later hlater
      exact ⟨.cons hrepresents hrest, hleads.cons hleads' hgrows.size_le hgrows'.size_le⟩

/-- A literal makes the data that it denotes. -/
theorem Datum.built (d : Datum) : d.Built := by
  induction d using Datum.items_induction with
  | int n nonneg =>
    intro e he env h
    cases he
    refine ⟨.int n, h, ?_, .refl h, fun later _ => ⟨.int, .of_scalar rfl⟩⟩
    rw [Expr.eval]
    rfl
  | str s plain =>
    intro e he env h
    cases he with
    | str hraw =>
      refine ⟨.str s, h, ?_, .refl h, fun later _ => ⟨.str, .of_scalar rfl⟩⟩
      rw [Expr.eval, unquote_of_quoted hraw]
      rfl
  | list ds ih =>
    intro e he env h
    cases he with
    | list hes =>
      obtain ⟨vs, h₁, hvs, hgrows, hvalues⟩ := exists_evalAll_of_denotes hes ih env h
      refine ⟨.list h₁.size, (h₁.alloc vs).2, ?_, hgrows.trans (h₁.grows_alloc vs), ?_⟩
      · rw [Expr.eval, bind_eq_ok_iff]
        exact ⟨vs, h₁, hvs, rfl⟩
      · intro later hlater
        obtain ⟨hrepresents, hleads⟩ := hvalues later ((h₁.grows_alloc vs).trans hlater)
        have hitems : later.items h₁.size = vs := by
          rw [hlater.items_eq _ (by simp [Heap.size_alloc]), Heap.items_alloc_self]
        rw [Heap.size_alloc]
        refine ⟨.list (hitems ▸ hrepresents), LeadsInto.list (hitems ▸ hleads) hgrows.size_le⟩

/-! ## Printing -/

namespace Heap

variable {h h' : Heap} {v : Value} {d : Datum}

theorem texts_eq {vs : List Value} {ds : List Datum} {os : List Outline}
    (hds : List.Forall₂ h.Represents vs ds) (hos : List.Forall₂ h.Writes vs os)
    (htext : ∀ d ∈ ds, ∀ v o, h.Represents v d → h.Writes v o → o.text = d.shown) :
    Outline.texts os = Datum.allShown ds := by
  induction hds generalizing os with
  | nil =>
    cases hos
    rfl
  | cons hv _ ih =>
    obtain ⟨hd, hds⟩ := List.forall_mem_cons.1 htext
    cases hos with
    | cons ho hos => rw [Outline.texts, Datum.allShown, hd _ _ hv ho, ih hos hds]

/-- The outline that writes the whole of the data has the text that the data is shown
with. -/
theorem Represents.text_eq {o : Outline} (hv : h.Represents v d) (ho : h.Writes v o) :
    o.text = d.shown := by
  induction d using Datum.items_induction generalizing v o with
  | int n nonneg =>
    cases hv
    cases ho
    rw [Outline.text, Datum.shown]
  | str s plain =>
    cases hv
    cases ho
    rw [Outline.text, Datum.shown]
  | list ds ih =>
    cases hv with
    | list hds =>
      cases ho with
      | list hos =>
        have htexts := texts_eq hds hos fun d hd v o => ih d hd
        rw [Outline.text, Datum.shown, htexts]

/-- A value whose lists stand at one place each is shown as the data that it is. -/
theorem Represents.display_eq {lo hi : Nat} (hv : h.Represents v d)
    (hleads : LeadsInto lo hi (h.follow? v)) : h.display v = d.shown := by
  obtain ⟨o, htext, ho⟩ := exists_outline h [] v
  have hmark : ∀ path, o.at? path ≠ some .again := by
    intro path hpath
    obtain ⟨r, ⟨before, hbefore⟩, round, hne, hround⟩ := (exists_mark_iff ho).1 ⟨path, hpath⟩
    have hagain : h.follow? v (before ++ round) = some (.list r) := by
      rw [follow?_append, hbefore, Option.bind_some, hround]
    have hsame := hleads.unique before _ r hbefore hagain
    exact hne (List.append_right_eq_self.1 hsame)
  rw [display, htext]
  exact hv.text_eq (writes_of_outlines ho hmark)

end Heap

/-! ## In a session -/

/-- A source that is one statement without a body does what that does. -/
theorem Session.run_of_does {source : String} {stmt : Stmt}
    (hcompile : compile source = .ok ⟨[stmt]⟩)
    (hsimple : stmt.Simple) {s s' : Session} {v : Value} {printed : ByteArray}
    (hdoes : Does (⟨s.env, s.heap, .unlimited⟩ : World) stmt v
      ⟨s'.env, s'.heap, ⟨printed, none, false⟩⟩) :
    s.run source = (.ok (some v), printed, s') := by
  have hexec : Stmt.execAll none [stmt] (⟨s.env, s.heap, .unlimited⟩ : World) =
      .ok (some v) ⟨s'.env, s'.heap, ⟨printed, none, false⟩⟩ := by
    rw [Stmt.execAll, bind_eq_ok_iff]
    exact ⟨_, _, (Stmt.exec_eq_ok_iff hsimple).2 ⟨v, rfl, hdoes⟩, rfl⟩
  unfold Session.run
  rw [runSource_of_compile hcompile, Program.run_of_ok hexec rfl]
  rfl

/-- A literal, however it is laid out, is assigned in every session. The name is then
bound to the data: to lists that were not there before, each at the end of one path only,
and out of reach of all that was there. Printing the name shows the data. -/
theorem Session.run_literal {text : String} {d : Datum} (h : Spells (.part d) text.toList)
    (s : Session) : ∃ v s', s.run ("x = " ++ text ++ ";") = (.ok (some v), .empty, s') ∧
      s'.env = s.env.write "x" v ∧ s.heap.Grows s'.heap ∧ s'.heap.Represents v d ∧
      (∀ path r, s'.heap.follow? v path = some (.list r) → s.heap.size ≤ r ∧
        ∀ other, s'.heap.follow? v other = some (.list r) → other = path) ∧
      (s.heap.Closed → ∀ u path r, s.heap.Holds u →
        s'.heap.follow? u path = some (.list r) → r < s.heap.size) ∧
      s'.run "println x;" = (.ok (some v), (d.shown ++ "\n").toUTF8, s') := by
  obtain ⟨e, span, hcompile, he⟩ := exists_compile_literal h
  obtain ⟨v, heap, heval, hgrows, hlater⟩ := d.built e he s.env s.heap
  obtain ⟨hrepresents, hleads⟩ := hlater heap (.refl heap)
  refine ⟨v, ⟨s.env.write "x" v, heap⟩, run_of_does hcompile trivial (.assign heval), rfl,
    hgrows, hrepresents, ?_, ?_, ?_⟩
  · intro path r hpath
    refine ⟨(hleads.bounds path r hpath).1, ?_⟩
    intro other hother
    exact hleads.unique path other r hpath hother
  · intro hclosed u path r hu hpath
    exact hgrows.lt_size_of_follow? hclosed hu hpath
  · have hprint : compile "println x;" =
        .ok ⟨[.printLine (.ident "x" ⟨8, 9, 1⟩) ⟨0, 10, 1⟩]⟩ := by cbv
    have hread : (Expr.ident "x" ⟨8, 9, 1⟩).eval (s.env.write "x" v) heap = .ok v heap := by
      rw [Expr.eval, Eval.ofExcept_eq_ok_iff, Environment.read_eq_ok_iff, Environment.get?_write]
      simp
    have htext : heap.display v ++ "\n" = d.shown ++ "\n" := by
      rw [hrepresents.display_eq hleads]
    refine run_of_does hprint trivial (.prints rfl hread htext ?_)
    rw [Sink.unlimited, Sink.write_unlimited, ByteArray.empty_append]

/-- Zeros before digits, parentheses around a string, a comment inside a list, and a comma
at its end. -/
theorem Session.run_literal_in_layout :
    let text := "[007, (\"]//\"), // two\n[],]"
    ∃ v s', start.run ("x = " ++ text ++ ";") = (.ok (some v), .empty, s') ∧
      s'.run "println x;" = (.ok (some v), "[7, ]//, []]\n".toUTF8, s') := by
  intro text
  let seven : Datum := .int 7 (by decide)
  let marks : Datum := .str "]//" (by simp)
  have hseven : Spells (.part seven) ([] ++ ("007".toList ++ [])) :=
    .part .nil (.int (by simp) (by simp) (by decide)) .nil
  have hquoted : Spells (.part marks) ([] ++ ('"' :: ("]//".toList ++ ['"']) ++ [])) :=
    .part .nil .str .nil
  have hmarks := Spells.part (.blank (c := ' ') rfl .nil) (.parens hquoted) .nil
  have hcomment : Gap (' ' :: '/' :: '/' :: (" two".toList ++ '\n' :: [])) :=
    .blank rfl (.comment (by decide) .nil)
  have hempty := Spells.part hcomment (.list (.none .nil)) .nil
  have hlist := Spells.list (.comma hseven (.comma hmarks (.comma hempty (.none .nil))))
  have hspells : Spells (.part (.list [seven, marks, .list []])) text.toList := by
    convert Spells.part .nil hlist .nil using 1
    cbv
  obtain ⟨v, s', hrun, -, -, -, -, -, hprint⟩ := run_literal hspells start
  exact ⟨v, s', hrun, hprint⟩

end Scriptlet
