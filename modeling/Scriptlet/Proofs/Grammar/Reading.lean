-- What the parser reads, the grammar derives. Every state of the parser tells
-- how the tokens before it are made up: of whole phrases, and of the tokens of
-- the brackets, operators, statements and blocks that are still open.
import Scriptlet.Proofs.Parsing

namespace Scriptlet.Grammar

/-! ## Operands and waiting operators -/

/-- `ts` spell the phrase that `kind` makes of the operand, and its ends are
theirs. -/
structure Spells (kind : Expr → Phrase) (x : Operand) (ts : Tokens) : Prop where
  derives : Derives (kind x.expr) ts
  first : x.first = opening ts
  last : x.last = closing ts

/-- The tokens of a left operand that waits with its operator, if one does. -/
inductive Waits (kind : Expr → Phrase) (f : Family) : Option (Operand × BinOp) → Tokens → Prop
  | none : Waits kind f none []
  | some {x op s ts b} : Spells kind x ts → Operator f s op →
    Waits kind f (some (x, op)) (ts ++ [(.symbol s, b)])

/-- The tokens between the innermost bracket and the operand that comes next. -/
inductive WaitsAll (p : Pending) : Tokens → Prop
  | mk {ts us vs} : Waits .sum .comparison p.comparison ts → Waits .sum .sum p.sum us →
    Waits .extremum .extremum p.extremum vs → WaitsAll p (ts ++ us ++ vs)

theorem Spells.ne_nil {kind : Expr → Phrase} (solid : ∀ e, (kind e).Solid) {x : Operand}
    {ts : Tokens} (h : Spells kind x ts) : ts ≠ [] := h.derives.ne_nil (solid _)

/-- An operand joined to the one that waits for it spells a phrase of the next
level. -/
theorem Waits.close {kind kind' kind'' : Expr → Phrase} {f : Family}
    {waiting : Option (Operand × BinOp)} {ts us : Tokens} {x : Operand}
    (h : Waits kind f waiting ts) (hx : Spells kind' x us)
    (pass : ∀ {e ts}, Derives (kind' e) ts → Derives (kind'' e) ts)
    (join : ∀ {op s l r ts us b}, Operator f s op → Derives (kind l) ts → Derives (kind' r) us →
      Derives (kind'' (.binary f op l r (.cover (opening ts) (closing us))))
        (ts ++ (.symbol s, b) :: us))
    (solid : ∀ e, (kind e).Solid) (solid' : ∀ e, (kind' e).Solid) :
    Spells kind'' (Pending.close f waiting x) (ts ++ us) := by
  cases h with
  | none => exact ⟨pass hx.derives, hx.first, hx.last⟩
  | @some y op s ts b hy hop =>
    have hts := hy.ne_nil solid
    have hus := hx.ne_nil solid'
    have hjoin := join (b := b) hop hy.derives hx.derives
    rw [← hy.first, ← hx.last] at hjoin
    refine ⟨?_, ?_, ?_⟩
    · simpa [Pending.close, Operand.join] using hjoin
    · simp [Pending.close, Operand.join, hts, hy.first]
    · simp [Pending.close, Operand.join, hus, hx.last]

theorem spells_closeExtremum {p : Pending} {x : Operand} {ts us : Tokens}
    (h : Waits .extremum .extremum p.extremum ts) (hx : Spells .term x us) :
    Spells .extremum (p.closeExtremum x) (ts ++ us) :=
  h.close hx .ofTerm .extremum (fun _ => trivial) (fun _ => trivial)

theorem spells_closeSum {p : Pending} {x : Operand} {ts us vs : Tokens}
    (hsum : Waits .sum .sum p.sum ts) (hext : Waits .extremum .extremum p.extremum us)
    (hx : Spells .term x vs) : Spells .sum (p.closeSum x) (ts ++ (us ++ vs)) :=
  hsum.close (spells_closeExtremum hext hx) .ofExtremum .sum (fun _ => trivial)
    (fun _ => trivial)

theorem WaitsAll.spells_closeAll {p : Pending} {x : Operand} {ts us : Tokens}
    (h : WaitsAll p ts) (hx : Spells .term x us) :
    Spells .expression (p.closeAll x) (ts ++ us) := by
  obtain ⟨hcomp, hsum, hext⟩ := h
  have := hcomp.close (spells_closeSum hsum hext hx) .ofSum .comparison (fun _ => trivial)
    (fun _ => trivial)
  simpa [Pending.closeAll] using this

theorem waitsAll_empty : WaitsAll .empty [] :=
  (.mk .none .none .none : WaitsAll .empty ([] ++ [] ++ []))

/-! ## The reader of expressions -/

/-- The tokens up to and with the innermost open bracket. -/
inductive Opens : List Frame → Tokens → Prop
  | nil : Opens [] []
  | group {fs outer first ts us} : Opens fs ts → WaitsAll outer us →
    Opens (⟨.group, first, outer⟩ :: fs) (ts ++ us ++ [(.symbol .openParen, first)])
  | index {fs outer first name ts us b} : Opens fs ts → WaitsAll outer us →
    Opens (⟨.index name, first, outer⟩ :: fs)
      (ts ++ us ++ [(.ident name, first), (.symbol .openBracket, b)])
  | list {fs outer first items ts us vs} : Opens fs ts → WaitsAll outer us →
    Derives (.leading items.reverse) vs →
    Opens (⟨.list items, first, outer⟩ :: fs)
      (ts ++ us ++ (.symbol .openBracket, first) :: vs)

/-- The tokens that a reader of an expression has taken. -/
inductive Took : ExprReader → Tokens → Prop
  | operand {fs p ts us} : Opens fs ts → WaitsAll p us → Took (.operand fs p) (ts ++ us)
  | identifier {fs p name span ts us} : Opens fs ts → WaitsAll p us →
    Took (.identifier fs p name span) (ts ++ us ++ [(.ident name, span)])
  | operator {fs p x ts us vs} : Opens fs ts → WaitsAll p us → Spells .term x vs →
    Took (.operator fs p x) (ts ++ us ++ vs)

theorem Took.of_eq {r : ExprReader} {ts us : Tokens} (h : Took r ts) (heq : ts = us) :
    Took r us := heq ▸ h

theorem took_start : Took .start [] := .operand .nil waitsAll_empty

/-- The operand read last, and what is before it. -/
theorem Took.lastOperand {r : ExprReader} {ts : Tokens} (h : Took r ts) {fs : List Frame}
    {p : Pending} {x : Operand} (hx : r.lastOperand? = some (fs, p, x)) :
    ∃ us vs ws, ts = us ++ vs ++ ws ∧ Opens fs us ∧ WaitsAll p vs ∧ Spells .term x ws := by
  cases h with
  | operand => simp [ExprReader.lastOperand?] at hx
  | identifier hfs hp =>
    simp only [ExprReader.lastOperand?, Option.some.injEq, Prod.mk.injEq] at hx
    obtain ⟨rfl, rfl, rfl⟩ := hx
    exact ⟨_, _, _, rfl, hfs, hp, .ident, rfl, rfl⟩
  | operator hfs hp hx' =>
    simp only [ExprReader.lastOperand?, Option.some.injEq, Prod.mk.injEq] at hx
    obtain ⟨rfl, rfl, rfl⟩ := hx
    exact ⟨_, _, _, rfl, hfs, hp, hx'⟩

/-- An expression that can end here is one by the grammar. -/
theorem Took.complete {r : ExprReader} {ts : Tokens} (h : Took r ts) {x : Operand}
    (hx : r.complete? = some x) : Spells .expression x ts := by
  unfold ExprReader.complete? at hx
  split at hx
  · next p y hlast =>
    cases hx
    obtain ⟨us, vs, ws, rfl, hfs, hp, hy⟩ := h.lastOperand hlast
    cases hfs
    exact hp.spells_closeAll hy
  · cases hx

theorem took_pushOperator {fs : List Frame} {p : Pending} {x : Operand} {ts us vs : Tokens}
    (hfs : Opens fs ts) (hp : WaitsAll p us) (hx : Spells .term x vs) {s : Symbol} {op : BinOp}
    (hop : s.binOp? = some op) {r : ExprReader}
    (hr : ExprReader.pushOperator fs p x op = some r) (b : Span) :
    Took r (ts ++ us ++ vs ++ [(.symbol s, b)]) := by
  obtain ⟨hcomp, hsum, hext⟩ := hp
  have hoperator : Operator op.family s op := operator_iff.2 ⟨hop, rfl⟩
  unfold ExprReader.pushOperator at hr
  split at hr
  · next hf =>
    cases hr
    rw [hf] at hoperator
    have := Took.operand hfs (p := { p with extremum := some (p.closeExtremum x, op) })
      (.mk hcomp hsum (.some (b := b) (spells_closeExtremum hext hx) hoperator))
    exact this.of_eq (by simp)
  · next hf =>
    cases hr
    rw [hf] at hoperator
    have := Took.operand hfs (p := { p with sum := some (p.closeSum x, op), extremum := none })
      (.mk hcomp (.some (b := b) (spells_closeSum hsum hext hx) hoperator) .none)
    exact this.of_eq (by simp)
  · next hf =>
    rw [hf] at hoperator
    split at hr
    · next hnone =>
      cases hr
      rw [hnone] at hcomp
      cases hcomp
      have := Took.operand hfs (p := ⟨some (p.closeSum x, op), none, none⟩)
        (.mk (.some (b := b) (spells_closeSum hsum hext hx) hoperator) .none .none)
      exact this.of_eq (by simp)
    · cases hr

/-- A bracket or comma ends the expression `x` in the innermost bracket. -/
theorem took_closeFrame {fs : List Frame} {x : Operand} {ts us : Tokens} (hfs : Opens fs ts)
    (hx : Derives (.expression x.expr) us) {s : Symbol} {c : Span} {r : ExprReader}
    (hr : ExprReader.closeFrame fs x s c = some r) : Took r (ts ++ us ++ [(.symbol s, c)]) := by
  cases hfs with
  | nil => cases hr
  | @group _ _ first _ _ hfs hp =>
    simp only [ExprReader.closeFrame] at hr
    split at hr <;> cases hr
    have hterm := Derives.parens (a := first) (b := c) hx
    exact (Took.operator (x := ⟨first, c, x.expr⟩) hfs hp
      ⟨hterm, by simp, by simp⟩).of_eq (by simp)
  | @index _ _ first name _ _ b hfs hp =>
    simp only [ExprReader.closeFrame] at hr
    split at hr <;> cases hr
    have htarget : Derives (.target name x.expr) ((.ident name, first) ::
        (.symbol .openBracket, b) :: us ++ [(.symbol .closeBracket, c)]) := .target hx
    exact (Took.operator (x := ⟨first, c, .index name x.expr (.cover first c)⟩) hfs hp
      ⟨by simpa [extent] using htarget.index, by simp, by simp⟩).of_eq (by simp)
  | @list _ _ first _ _ _ _ hfs hp hitems =>
    simp only [ExprReader.closeFrame] at hr
    split at hr <;> cases hr
    · have hterm := Derives.list (a := first) (b := c) (.itemsLast hitems hx)
      exact (Took.operator (x := ⟨first, c, .list _ (.cover first c)⟩) hfs hp
        ⟨by simpa using hterm, by simp, by simp⟩).of_eq (by simp)
    · have hleading := Derives.nextLeading (b := c) hitems hx
      rw [← List.reverse_cons] at hleading
      exact (Took.operand (.list hfs hp hleading) waitsAll_empty).of_eq (by simp)

theorem took_afterOperand {fs : List Frame} {p : Pending} {x : Operand} {ts us vs : Tokens}
    (hfs : Opens fs ts) (hp : WaitsAll p us) (hx : Spells .term x vs) {s : Symbol} {b : Span}
    {r : ExprReader} (hr : ExprReader.afterOperand fs p x s b = some r) :
    Took r (ts ++ us ++ vs ++ [(.symbol s, b)]) := by
  unfold ExprReader.afterOperand at hr
  split at hr
  · next hop => exact took_pushOperator hfs hp hx hop hr b
  · exact (took_closeFrame hfs (hp.spells_closeAll hx).derives hr).of_eq (by simp)

theorem took_closeList {fs : List Frame} {p : Pending} {ts us : Tokens} (hfs : Opens fs ts)
    (hp : WaitsAll p us) {c : Span} {r : ExprReader}
    (hr : ExprReader.closeList fs p c = some r) :
    Took r (ts ++ us ++ [(.symbol .closeBracket, c)]) := by
  unfold ExprReader.closeList at hr
  split at hr
  · next items first outer fs =>
    split at hr
    · next hempty =>
      cases hr
      obtain ⟨hcomp, hsum, hext⟩ := hp
      simp only [Pending.isEmpty, Bool.and_eq_true, Option.isNone_iff_eq_none] at hempty
      rw [hempty.1.1] at hcomp
      rw [hempty.1.2] at hsum
      rw [hempty.2] at hext
      cases hcomp; cases hsum; cases hext
      obtain _ | _ | _ | ⟨hfs, hp, hitems⟩ := hfs
      have hterm := Derives.list (a := first) (b := c) (.items hitems)
      exact (Took.operator (x := ⟨first, c, .list _ (.cover first c)⟩) hfs hp
        ⟨hterm, by simp, by simp⟩).of_eq (by simp)
    · cases hr
  · cases hr

theorem Took.step {r r' : ExprReader} {ts : Tokens} (h : Took r ts) {t : Token} {span : Span}
    (hr : r.step t span = some r') : Took r' (ts ++ [(t, span)]) := by
  cases h with
  | operand hfs hp =>
    cases t with
    | int n =>
      cases hr
      exact .operator hfs hp ⟨.number, rfl, rfl⟩
    | str raw =>
      cases hr
      exact .operator hfs hp ⟨.str, rfl, rfl⟩
    | ident name =>
      cases hr
      exact .identifier hfs hp
    | symbol s =>
      cases s with
      | openParen =>
        cases hr
        exact (Took.operand (.group hfs hp) waitsAll_empty).of_eq (by simp)
      | openBracket =>
        cases hr
        have hopen := @Opens.list _ _ span [] _ _ [] hfs hp .noLeading
        exact (Took.operand hopen waitsAll_empty).of_eq (by simp)
      | closeBracket => exact took_closeList hfs hp hr
      | _ => cases hr
  | @identifier fs p name first _ _ hfs hp =>
    cases t with
    | symbol s =>
      by_cases hs : s = .openBracket
      · subst hs
        cases hr
        exact (Took.operand (.index (b := span) hfs hp) waitsAll_empty).of_eq (by simp)
      · rw [ExprReader.step_of_lastOperand rfl hs] at hr
        exact took_afterOperand hfs hp ⟨.ident, rfl, rfl⟩ hr
    | _ => cases hr
  | operator hfs hp hx =>
    cases t with
    | symbol s => exact took_afterOperand hfs hp hx hr
    | _ => cases hr

/-! ## The parser of statements -/

/-- The tokens up to and with the brace that opens the innermost block. -/
inductive Encloses : List (BlockOwner × List Stmt) → Tokens → Prop
  | nil : Encloses [] []
  | loop {outer before first var r ts us vs b c d} : Encloses outer ts →
    Derives (.statements before.reverse) us → Derives (.range r) vs →
    Encloses ((.loop first var r, before) :: outer)
      (ts ++ us ++ (.symbol .loop, first) :: (.ident var, b) :: (.symbol .within, c) :: vs ++
        [(.symbol .openBrace, d)])
  | thenBranch {outer before first e ts us vs b} : Encloses outer ts →
    Derives (.statements before.reverse) us → Derives (.expression e) vs →
    Encloses ((.thenBranch first e, before) :: outer)
      (ts ++ us ++ (.symbol .cond, first) :: vs ++ [(.symbol .openBrace, b)])
  | elseBranch {outer before first e ss ts us vs ws b c} : Encloses outer ts →
    Derives (.statements before.reverse) us → Derives (.expression e) vs →
    Derives (.block ss) ws →
    Encloses ((.elseBranch first e ss, before) :: outer)
      (ts ++ us ++ (.symbol .cond, first) :: vs ++ ws ++
        [(.symbol .otherwise, b), (.symbol .openBrace, c)])

/-- The tokens of everything before the statement that is being read. -/
inductive Precedes : Scope → Tokens → Prop
  | mk {done outer ts us} : Encloses outer ts → Derives (.statements done.reverse) us →
    Precedes ⟨done, outer⟩ (ts ++ us)

/-- The tokens of a statement before the expression that is being read. -/
inductive Introduces : Span → Purpose → Tokens → Prop
  | assign {first name b} :
    Introduces first (.assign name) [(.ident name, first), (.symbol .assign, b)]
  | target {first name b} :
    Introduces first (.target name) [(.ident name, first), (.symbol .openBracket, b)]
  | indexAssign {name i ts b} : Derives (.target name i) ts →
    Introduces (opening ts) (.indexAssign name i) (ts ++ [(.symbol .assign, b)])
  | print {first} : Introduces first .print [(.symbol .print, first)]
  | printLine {first} : Introduces first .printLine [(.symbol .println, first)]
  | cond {first} : Introduces first .cond [(.symbol .cond, first)]
  | lo {first var b c} :
    Introduces first (.lo var) [(.symbol .loop, first), (.ident var, b), (.symbol .within, c)]
  | hi {first var x ts b c d} : Spells .expression x ts →
    Introduces first (.hi var x)
      ((.symbol .loop, first) :: (.ident var, b) :: (.symbol .within, c) :: ts ++
        [(.symbol .range, d)])

/-- The tokens that have been read of the current statement. -/
inductive Begins : Stage → Tokens → Prop
  | ready : Begins .ready []
  | afterThen {first e ss ts us} : Derives (.expression e) ts → Derives (.block ss) us →
    Begins (.afterThen first e ss (closing us)) ((.symbol .cond, first) :: ts ++ us)
  | afterElse {first e ss ts us b} : Derives (.expression e) ts → Derives (.block ss) us →
    Begins (.afterElse first e ss)
      ((.symbol .cond, first) :: ts ++ us ++ [(.symbol .otherwise, b)])
  | named {first name} : Begins (.named first name) [(.ident name, first)]
  | indexed {name i ts} : Derives (.target name i) ts → Begins (.indexed (opening ts) name i) ts
  | afterFor {first} : Begins (.afterFor first) [(.symbol .loop, first)]
  | afterVar {first var b} :
    Begins (.afterVar first var) [(.symbol .loop, first), (.ident var, b)]
  | expression {first purpose r ts us} : Introduces first purpose ts → Took r us →
    Begins (.expression first purpose r) (ts ++ us)

/-- The tokens that a parser has taken. -/
inductive Consumed : Parser → Tokens → Prop
  | mk {scope stage ts us} : Precedes scope ts → Begins stage us →
    Consumed ⟨scope, stage⟩ (ts ++ us)

theorem Consumed.of_eq {p : Parser} {ts us : Tokens} (h : Consumed p ts) (heq : ts = us) :
    Consumed p us := heq ▸ h

theorem Precedes.push {scope : Scope} {s : Stmt} {ts us : Tokens} (h : Precedes scope ts)
    (hs : Derives (.statement s) us) : Precedes (scope.push s) (ts ++ us) := by
  obtain ⟨houter, hdone⟩ := h
  have hnext := hdone.nextStatement hs
  rw [← List.reverse_cons] at hnext
  rw [List.append_assoc]
  exact .mk houter hnext

theorem Precedes.ready {scope : Scope} {ts : Tokens} (h : Precedes scope ts) :
    Consumed ⟨scope, .ready⟩ ts :=
  (Consumed.mk h .ready).of_eq (List.append_nil ts)

theorem Precedes.finish {scope : Scope} {s : Stmt} {ts us : Tokens} (h : Precedes scope ts)
    (hs : Derives (.statement s) us) : Consumed (Parser.finish scope s) (ts ++ us) :=
  (h.push hs).ready

/-- At the start of a block nothing precedes in it. -/
theorem Encloses.ready {outer : List (BlockOwner × List Stmt)} {ts : Tokens}
    (h : Encloses outer ts) : Consumed ⟨⟨[], outer⟩, .ready⟩ ts :=
  (@Precedes.mk [] outer ts [] h .noStatement).ready.of_eq (List.append_nil ts)

theorem consumed_start : Consumed .start [] := Encloses.nil.ready

theorem Precedes.reading {scope : Scope} {first : Span} {purpose : Purpose} {ts us : Tokens}
    (h : Precedes scope ts) (hp : Introduces first purpose us) :
    Consumed (Parser.reading scope first purpose) (ts ++ us) :=
  (Consumed.mk h (.expression hp took_start)).of_eq (by simp)

/-- A parser between two statements has read whole statements. -/
theorem Consumed.precedes {p : Parser} {ts : Tokens} (h : Consumed p ts) {scope : Scope}
    (hp : p.boundary? = some scope) : Precedes scope ts := by
  obtain ⟨hscope, hstage⟩ := h
  cases hstage with
  | ready =>
    cases hp
    rwa [List.append_nil]
  | afterThen he hss =>
    cases hp
    exact hscope.push (.branch he hss)
  | _ => cases hp

theorem Precedes.closeBlock {scope : Scope} {ts : Tokens} (h : Precedes scope ts) {c : Span}
    {q : Parser} (hq : Parser.closeBlock scope c = some q) :
    Consumed q (ts ++ [(.symbol .closeBrace, c)]) := by
  obtain ⟨houter, hdone⟩ := h
  cases houter with
  | nil => cases hq
  | @loop _ _ first var _ _ _ _ b d o houter hbefore hr =>
    cases hq
    have hloop := @Derives.loop var _ _ _ _ first b d hr (.block (a := o) (b := c) hdone)
    have := (Precedes.mk houter hbefore).finish hloop
    simpa using this
  | @thenBranch _ _ first _ _ _ _ o houter hbefore he =>
    cases hq
    have hthen := @Begins.afterThen first _ _ _ _ he (.block (a := o) (b := c) hdone)
    have := Consumed.mk (.mk houter hbefore) hthen
    simpa using this
  | @elseBranch _ _ first _ _ _ _ _ _ b o houter hbefore he hss =>
    cases hq
    have hbranch :=
      Derives.branchElse (a := first) (b := b) he hss (.block (a := o) (b := c) hdone)
    have := (Precedes.mk houter hbefore).finish hbranch
    simpa using this

theorem Precedes.begin {scope : Scope} {ts : Tokens} (h : Precedes scope ts) {t : Token}
    {span : Span} {q : Parser} (hq : Parser.begin scope t span = some q) :
    Consumed q (ts ++ [(t, span)]) := by
  cases t with
  | ident name =>
    cases hq
    exact .mk h .named
  | symbol s =>
    cases s with
    | print =>
      cases hq
      exact h.reading .print
    | println =>
      cases hq
      exact h.reading .printLine
    | loop =>
      cases hq
      exact .mk h .afterFor
    | cond =>
      cases hq
      exact h.reading .cond
    | closeBrace => exact h.closeBlock hq
    | _ => cases hq
  | _ => cases hq

/-- The symbol after the expression `x` of a statement. -/
theorem Precedes.endExpression {scope : Scope} {ts us vs : Tokens} (h : Precedes scope ts)
    {first : Span} {purpose : Purpose} (hp : Introduces first purpose us) {x : Operand}
    (hx : Spells .expression x vs) {s : Symbol} {c : Span} {q : Parser}
    (hq : Parser.endExpression scope first purpose x s c = some q) :
    Consumed q (ts ++ us ++ vs ++ [(.symbol s, c)]) := by
  cases hp with
  | @assign _ name b =>
    cases s <;> cases hq
    have := h.finish (@Derives.assign name _ _ first b c hx.derives)
    simpa using this
  | @target _ name b =>
    cases s <;> cases hq
    have := Consumed.mk h (.indexed (@Derives.target name _ _ first b c hx.derives))
    simpa using this
  | @indexAssign _ _ _ b hi =>
    cases s <;> cases hq
    have := h.finish (Derives.indexAssign (b := b) (c := c) hi hx.derives)
    simpa using this
  | print =>
    cases s <;> cases hq
    have := h.finish (Derives.print (a := first) (b := c) hx.derives)
    simpa using this
  | printLine =>
    cases s <;> cases hq
    have := h.finish (Derives.printLine (a := first) (b := c) hx.derives)
    simpa using this
  | cond =>
    cases s <;> cases hq
    obtain ⟨houter, hdone⟩ := h
    exact (Encloses.thenBranch (b := c) houter hdone hx.derives).ready.of_eq (by simp)
  | @lo _ var b d =>
    cases s <;> cases hq
    have := h.reading (@Introduces.hi first var x vs b d c hx)
    simpa using this
  | @hi _ var y us b d o hy =>
    cases s <;> cases hq
    obtain ⟨houter, hdone⟩ := h
    have hrange := Derives.range (b := o) hy.derives hx.derives
    rw [← hy.first, ← hx.last] at hrange
    exact (Encloses.loop (b := b) (c := d) (d := c) houter hdone hrange).ready.of_eq (by simp)

theorem Consumed.step {p q : Parser} {ts : Tokens} (h : Consumed p ts) {t : Token} {span : Span}
    (hq : p.step t span = some q) : Consumed q (ts ++ [(t, span)]) := by
  obtain ⟨hscope, hstage⟩ := h
  cases hstage with
  | ready => exact (hscope.begin hq).of_eq (by simp)
  | afterThen he hss =>
    by_cases ht : t = .symbol .otherwise
    · subst ht
      cases hq
      exact (Consumed.mk hscope (.afterElse (b := span) he hss)).of_eq (by simp)
    · rw [Parser.step_of_boundary rfl ht] at hq
      exact ((hscope.push (.branch he hss)).begin hq).of_eq (by simp)
  | @afterElse _ _ _ _ _ b he hss =>
    obtain ⟨houter, hdone⟩ := hscope
    cases t with
    | symbol s =>
      cases s <;> cases hq
      exact (Encloses.elseBranch (b := b) (c := span) houter hdone he hss).ready.of_eq (by simp)
    | _ => cases hq
  | named =>
    cases t with
    | symbol s =>
      cases s <;> cases hq
      · exact (hscope.reading (.assign (b := span))).of_eq (by simp)
      · exact (hscope.reading (.target (b := span))).of_eq (by simp)
    | _ => cases hq
  | indexed hi =>
    cases t with
    | symbol s =>
      cases s <;> cases hq
      exact (hscope.reading (.indexAssign (b := span) hi)).of_eq (by simp)
    | _ => cases hq
  | afterFor =>
    cases t with
    | ident var =>
      cases hq
      exact (Consumed.mk hscope (.afterVar (b := span))).of_eq (by simp)
    | _ => cases hq
  | @afterVar _ _ b =>
    cases t with
    | symbol s =>
      cases s <;> cases hq
      exact (hscope.reading (.lo (b := b) (c := span))).of_eq (by simp)
    | _ => cases hq
  | @expression first purpose r _ _ hp hr =>
    rcases hstep : r.step t span with _ | r'
    · rw [Parser.step_expression_none hstep] at hq
      unfold Parser.leaveExpression at hq
      split at hq
      · next hx => exact (hscope.endExpression hp (hr.complete hx) hq).of_eq (by simp)
      · cases hq
    · rw [Parser.step_expression_some hstep] at hq
      cases hq
      exact (Consumed.mk hscope (.expression hp (hr.step hstep))).of_eq (by simp)

theorem Consumed.steps {p q : Parser} {ts us : Tokens} (h : Consumed p ts)
    (hq : p.steps us = some q) : Consumed q (ts ++ us) := by
  induction us generalizing p ts with
  | nil =>
    cases hq
    exact h.of_eq (by simp)
  | cons t us ih =>
    rw [Parser.steps_cons] at hq
    obtain ⟨m, hm, hq⟩ := Option.bind_eq_some_iff.1 hq
    exact (ih (h.step hm) hq).of_eq (by simp)

/-- A parser that may end here has read a program. -/
theorem Consumed.done {p : Parser} {ts : Tokens} (h : Consumed p ts) {ss : List Stmt}
    (hss : p.done? = some ss) : Derives (.program ⟨ss⟩) ts := by
  obtain ⟨done, hp, rfl⟩ := Parser.done?_eq_some_iff.1 hss
  obtain ⟨houter, hdone⟩ := h.precedes hp
  cases houter
  exact .program hdone

end Scriptlet.Grammar
