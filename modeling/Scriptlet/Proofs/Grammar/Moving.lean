-- Moved tokens spell the moved tree: the grammar never looks at where a token
-- stands. And statements that follow each other are spelled by tokens that do.
import Scriptlet.Proofs.Grammar
import Scriptlet.Proofs.Nodes

namespace Scriptlet.Grammar

/-- Tokens with their stretches changed. -/
def Tokens.mapSpans (f : Span → Span) (ts : Tokens) : Tokens := ts.map fun t => (t.1, f t.2)

namespace Tokens

variable (f : Span → Span)

@[simp] theorem mapSpans_nil : Tokens.mapSpans f [] = [] := rfl

@[simp] theorem mapSpans_cons (t : Token) (s : Span) (ts : Tokens) :
    Tokens.mapSpans f ((t, s) :: ts) = (t, f s) :: Tokens.mapSpans f ts := rfl

@[simp] theorem mapSpans_append (ts us : Tokens) :
    Tokens.mapSpans f (ts ++ us) = Tokens.mapSpans f ts ++ Tokens.mapSpans f us :=
  List.map_append

theorem opening_mapSpans {ts : Tokens} (hne : ts ≠ []) :
    opening (Tokens.mapSpans f ts) = f (opening ts) := by
  obtain ⟨t, ts, rfl⟩ := List.exists_cons_of_ne_nil hne
  rfl

theorem closing_mapSpans {ts : Tokens} (hne : ts ≠ []) :
    closing (Tokens.mapSpans f ts) = f (closing ts) := by
  unfold closing Tokens.mapSpans
  rw [List.getLast?_map, List.getLast?_eq_some_getLast hne]
  rfl

theorem cover_mapSpans {f : Span → Span} (hf : ∀ a b, f (.cover a b) = .cover (f a) (f b))
    {ts us : Tokens} (hts : ts ≠ []) (hus : us ≠ []) :
    Span.cover (opening (Tokens.mapSpans f ts)) (closing (Tokens.mapSpans f us)) =
      f (.cover (opening ts) (closing us)) := by
  rw [opening_mapSpans f hts, closing_mapSpans f hus, hf]

end Tokens

/-- The phrase with every stretch changed. -/
def Phrase.mapSpans (f : Span → Span) : Phrase → Phrase
  | program p => program (p.mapSpans f)
  | statements ss => statements (Stmt.mapAllSpans f ss)
  | block ss => block (Stmt.mapAllSpans f ss)
  | statement s => statement (s.mapSpans f)
  | range r => range (r.mapSpans f)
  | target name e => target name (e.mapSpans f)
  | expression e => expression (e.mapSpans f)
  | sum e => sum (e.mapSpans f)
  | extremum e => extremum (e.mapSpans f)
  | term e => term (e.mapSpans f)
  | leading es => leading (Expr.mapAllSpans f es)
  | items es => items (Expr.mapAllSpans f es)

/-- Moved operands with a moved symbol between them spell the moved node of the operator,
as whatever phrase `P` they do so. -/
theorem Derives.binary_mapSpans (P : Expr → Phrase) {f : Span → Span}
    (hf : ∀ a b, f (.cover a b) = .cover (f a) (f b)) {family : Family} {op : BinOp} {s : Symbol}
    {l r : Expr} {ts us : Tokens} {b : Span} (hts : ts ≠ []) (hus : us ≠ [])
    (h : Derives (P (.binary family op (l.mapSpans f) (r.mapSpans f)
      (.cover (opening (Tokens.mapSpans f ts)) (closing (Tokens.mapSpans f us)))))
      (Tokens.mapSpans f ts ++ (.symbol s, f b) :: Tokens.mapSpans f us)) :
    Derives (P ((Expr.binary family op l r (.cover (opening ts) (closing us))).mapSpans f))
      (Tokens.mapSpans f (ts ++ (.symbol s, b) :: us)) := by
  rw [Tokens.cover_mapSpans hf hts hus] at h
  rwa [Expr.mapSpans, Tokens.mapSpans_append, Tokens.mapSpans_cons]

theorem Derives.mapSpans {f : Span → Span} (hf : ∀ a b, f (.cover a b) = .cover (f a) (f b))
    {ph : Phrase} {ts : Tokens} (h : Derives ph ts) :
    Derives (ph.mapSpans f) (Tokens.mapSpans f ts) := by
  induction h with
  | program _ ih => exact .program ih
  | noStatement => exact .noStatement
  | nextStatement _ _ ihss ihs =>
    simpa [Phrase.mapSpans, Stmt.mapAllSpans_eq_map] using Derives.nextStatement ihss ihs
  | block _ ih => simpa [Phrase.mapSpans] using Derives.block ih
  | assign _ ih => simpa [Phrase.mapSpans, Stmt.mapSpans, hf] using Derives.assign ih
  | @indexAssign _ _ _ _ _ b c hi _ ihi ihe =>
    have h := Derives.indexAssign (b := f b) (c := f c) ihi ihe
    rw [Tokens.opening_mapSpans f (hi.ne_nil trivial)] at h
    simpa [Phrase.mapSpans, Stmt.mapSpans, hf] using h
  | print _ ih => simpa [Phrase.mapSpans, Stmt.mapSpans, hf] using Derives.print ih
  | printLine _ ih => simpa [Phrase.mapSpans, Stmt.mapSpans, hf] using Derives.printLine ih
  | @loop var _ _ _ _ a b c _ hss ihr ihss =>
    have h := @Derives.loop var _ _ _ _ (f a) (f b) (f c) ihr ihss
    rw [Tokens.closing_mapSpans f (hss.ne_nil trivial)] at h
    simpa [Phrase.mapSpans, Stmt.mapSpans, hf] using h
  | @branch _ _ _ _ a _ hss ihe ihss =>
    have h := Derives.branch (a := f a) ihe ihss
    rw [Tokens.closing_mapSpans f (hss.ne_nil trivial)] at h
    simpa [Phrase.mapSpans, Stmt.mapSpans, hf] using h
  | @branchElse _ _ _ _ _ _ a b _ _ hrs ihe ihss ihrs =>
    have h := Derives.branchElse (a := f a) (b := f b) ihe ihss ihrs
    rw [Tokens.closing_mapSpans f (hrs.ne_nil trivial)] at h
    simpa [Phrase.mapSpans, Stmt.mapSpans, hf] using h
  | @range _ _ _ _ b hlo hhi ihlo ihhi =>
    have h := Derives.range (b := f b) ihlo ihhi
    rw [Tokens.cover_mapSpans hf (hlo.ne_nil trivial) (hhi.ne_nil trivial)] at h
    simpa [Phrase.mapSpans, Range.mapSpans] using h
  | target _ ih => simpa [Phrase.mapSpans] using Derives.target ih
  | comparison hop hl hr ihl ihr =>
    exact Derives.binary_mapSpans .expression hf (hl.ne_nil trivial) (hr.ne_nil trivial)
      (.comparison hop ihl ihr)
  | ofSum _ ih => exact .ofSum ih
  | sum hop hl hr ihl ihr =>
    exact Derives.binary_mapSpans .sum hf (hl.ne_nil trivial) (hr.ne_nil trivial)
      (.sum hop ihl ihr)
  | ofExtremum _ ih => exact .ofExtremum ih
  | extremum hop hl hr ihl ihr =>
    exact Derives.binary_mapSpans .extremum hf (hl.ne_nil trivial) (hr.ne_nil trivial)
      (.extremum hop ihl ihr)
  | ofTerm _ ih => exact .ofTerm ih
  | number => exact .number
  | str => exact .str
  | ident => exact .ident
  | index hi ih =>
    have h := Derives.index ih
    unfold extent at h
    rw [Tokens.cover_mapSpans hf (hi.ne_nil trivial) (hi.ne_nil trivial)] at h
    exact h
  | list _ ih => simpa [Phrase.mapSpans, Expr.mapSpans, hf] using Derives.list ih
  | parens _ ih => simpa [Phrase.mapSpans] using Derives.parens ih
  | noLeading => exact .noLeading
  | nextLeading _ _ ihes ihe =>
    simpa [Phrase.mapSpans, Expr.mapAllSpans_eq_map] using Derives.nextLeading ihes ihe
  | items _ ih => exact .items ih
  | itemsLast _ _ ihes ihe =>
    simpa [Phrase.mapSpans, Expr.mapAllSpans_eq_map] using Derives.itemsLast ihes ihe

/-- The statements of two texts, one after the other. -/
theorem Derives.append_statements {ss rs : List Stmt} {ts us : Tokens}
    (hss : Derives (.statements ss) ts) (hrs : Derives (.statements rs) us) :
    Derives (.statements (ss ++ rs)) (ts ++ us) := by
  generalize hph : Phrase.statements rs = ph at hrs
  induction hrs generalizing rs with
  | noStatement =>
    cases hph
    simpa using hss
  | @nextStatement rs' r us vs _ hr ih _ =>
    cases hph
    rw [← List.append_assoc, ← List.append_assoc]
    exact .nextStatement (ih rfl) hr
  | _ => cases hph

end Scriptlet.Grammar
