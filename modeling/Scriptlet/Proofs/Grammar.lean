-- The grammar of the language, as a relation between phrases and the tokens
-- that spell them. Each rule is one production with the tree that it builds.
-- A node stands from the first token of its phrase to the last one, and
-- parentheses leave no node.
import Scriptlet.Syntax
import Scriptlet.Token

namespace Scriptlet.Grammar

/-- Tokens with where they stand. -/
abbrev Tokens := List (Token × Span)

/-! ## Places of phrases -/

/-- Where the first token stands. -/
def opening (ts : Tokens) : Span := (ts.head?.map Prod.snd).getD default

/-- Where the last token stands. -/
def closing (ts : Tokens) : Span := (ts.getLast?.map Prod.snd).getD default

/-- The stretch from the first token to the last one. -/
def extent (ts : Tokens) : Span := .cover (opening ts) (closing ts)

@[simp] theorem opening_cons (t : Token × Span) (ts : Tokens) : opening (t :: ts) = t.2 := rfl

@[simp] theorem opening_append {ts : Tokens} (h : ts ≠ []) (us : Tokens) :
    opening (ts ++ us) = opening ts := by
  obtain ⟨t, ts, rfl⟩ := List.exists_cons_of_ne_nil h
  rfl

@[simp] theorem closing_singleton (t : Token × Span) : closing [t] = t.2 := rfl

@[simp] theorem closing_append (ts : Tokens) {us : Tokens} (h : us ≠ []) :
    closing (ts ++ us) = closing us := by
  unfold closing
  rw [List.getLast?_append, List.getLast?_eq_some_getLast h, Option.some_or]

@[simp] theorem closing_cons (t : Token × Span) {us : Tokens} (h : us ≠ []) :
    closing (t :: us) = closing us := closing_append [t] h

/-! ## The productions -/

/-- The symbols that write the operators of each family. -/
inductive Operator : Family → Symbol → BinOp → Prop
  | max : Operator .extremum .max .max
  | min : Operator .extremum .min .min
  | add : Operator .sum .plus .add
  | sub : Operator .sum .minus .sub
  | gt : Operator .comparison .greater .gt
  | lt : Operator .comparison .less .lt
  | eq : Operator .comparison .equal .eq
  | ne : Operator .comparison .notEqual .ne

/-- A nonterminal of the grammar with the tree that a phrase of it stands for. -/
inductive Phrase where
  | program (p : Program)
  | statements (ss : List Stmt)
  | block (ss : List Stmt)
  | statement (s : Stmt)
  | range (r : Range)
  | target (name : String) (position : Expr)
  | expression (e : Expr)
  | sum (e : Expr)
  | extremum (e : Expr)
  | term (e : Expr)
  /-- The items of a list that have a comma after them. -/
  | leading (es : List Expr)
  | items (es : List Expr)

/-- `Derives ph ts`: the tokens `ts` spell the phrase `ph`. -/
inductive Derives : Phrase → Tokens → Prop
  | program {ss ts} :
    Derives (.statements ss) ts → Derives (.program ⟨ss⟩) ts
  | noStatement :
    Derives (.statements []) []
  | nextStatement {ss s ts us} :
    Derives (.statements ss) ts → Derives (.statement s) us →
    Derives (.statements (ss ++ [s])) (ts ++ us)
  | block {ss ts a b} :
    Derives (.statements ss) ts →
    Derives (.block ss) ((.symbol .openBrace, a) :: ts ++ [(.symbol .closeBrace, b)])
  | assign {name e ts a b c} :
    Derives (.expression e) ts →
    Derives (.statement (.assign name e (.cover a c)))
      ((.ident name, a) :: (.symbol .assign, b) :: ts ++ [(.symbol .semicolon, c)])
  | indexAssign {name i e ts us b c} :
    Derives (.target name i) ts → Derives (.expression e) us →
    Derives (.statement (.indexAssign name i e (.cover (opening ts) c)))
      (ts ++ (.symbol .assign, b) :: us ++ [(.symbol .semicolon, c)])
  | print {e ts a b} :
    Derives (.expression e) ts →
    Derives (.statement (.print e (.cover a b)))
      ((.symbol .print, a) :: ts ++ [(.symbol .semicolon, b)])
  | printLine {e ts a b} :
    Derives (.expression e) ts →
    Derives (.statement (.printLine e (.cover a b)))
      ((.symbol .println, a) :: ts ++ [(.symbol .semicolon, b)])
  | loop {var r ss ts us a b c} :
    Derives (.range r) ts → Derives (.block ss) us →
    Derives (.statement (.loop var r ss (.cover a (closing us))))
      ((.symbol .loop, a) :: (.ident var, b) :: (.symbol .within, c) :: ts ++ us)
  | branch {e ss ts us a} :
    Derives (.expression e) ts → Derives (.block ss) us →
    Derives (.statement (.branch e ss none (.cover a (closing us))))
      ((.symbol .cond, a) :: ts ++ us)
  | branchElse {e ss rs ts us vs a b} :
    Derives (.expression e) ts → Derives (.block ss) us → Derives (.block rs) vs →
    Derives (.statement (.branch e ss (some rs) (.cover a (closing vs))))
      ((.symbol .cond, a) :: ts ++ us ++ (.symbol .otherwise, b) :: vs)
  | range {lo hi ts us b} :
    Derives (.expression lo) ts → Derives (.expression hi) us →
    Derives (.range ⟨lo, hi, .cover (opening ts) (closing us)⟩) (ts ++ (.symbol .range, b) :: us)
  | target {name i ts a b c} :
    Derives (.expression i) ts →
    Derives (.target name i)
      ((.ident name, a) :: (.symbol .openBracket, b) :: ts ++ [(.symbol .closeBracket, c)])
  | comparison {op s l r ts us b} :
    Operator .comparison s op → Derives (.sum l) ts → Derives (.sum r) us →
    Derives (.expression (.binary .comparison op l r (.cover (opening ts) (closing us))))
      (ts ++ (.symbol s, b) :: us)
  | ofSum {e ts} :
    Derives (.sum e) ts → Derives (.expression e) ts
  | sum {op s l r ts us b} :
    Operator .sum s op → Derives (.sum l) ts → Derives (.extremum r) us →
    Derives (.sum (.binary .sum op l r (.cover (opening ts) (closing us))))
      (ts ++ (.symbol s, b) :: us)
  | ofExtremum {e ts} :
    Derives (.extremum e) ts → Derives (.sum e) ts
  | extremum {op s l r ts us b} :
    Operator .extremum s op → Derives (.extremum l) ts → Derives (.term r) us →
    Derives (.extremum (.binary .extremum op l r (.cover (opening ts) (closing us))))
      (ts ++ (.symbol s, b) :: us)
  | ofTerm {e ts} :
    Derives (.term e) ts → Derives (.extremum e) ts
  | number {n a} :
    Derives (.term (.number n a)) [(.int n, a)]
  | str {raw a} :
    Derives (.term (.str raw a)) [(.str raw, a)]
  | ident {name a} :
    Derives (.term (.ident name a)) [(.ident name, a)]
  | index {name i ts} :
    Derives (.target name i) ts → Derives (.term (.index name i (extent ts))) ts
  | list {es ts a b} :
    Derives (.items es) ts →
    Derives (.term (.list es (.cover a b)))
      ((.symbol .openBracket, a) :: ts ++ [(.symbol .closeBracket, b)])
  | parens {e ts a b} :
    Derives (.expression e) ts →
    Derives (.term e) ((.symbol .openParen, a) :: ts ++ [(.symbol .closeParen, b)])
  | noLeading :
    Derives (.leading []) []
  | nextLeading {es e ts us b} :
    Derives (.leading es) ts → Derives (.expression e) us →
    Derives (.leading (es ++ [e])) (ts ++ us ++ [(.symbol .comma, b)])
  | items {es ts} :
    Derives (.leading es) ts → Derives (.items es) ts
  | itemsLast {es e ts us} :
    Derives (.leading es) ts → Derives (.expression e) us →
    Derives (.items (es ++ [e])) (ts ++ us)

/-- Whether some tokens are a whole program. -/
def Sentence (ts : Tokens) : Prop := ∃ p, Derives (.program p) ts

/-- Whether some tokens are how a whole program starts. -/
def Viable (ts : Tokens) : Prop := ∃ rest, Sentence (ts ++ rest)

/-! ## Phrases with at least one token -/

/-- The phrases that cannot be empty. -/
def Phrase.Solid : Phrase → Prop
  | program _ | statements _ | leading _ | items _ => False
  | _ => True

theorem Derives.ne_nil {ph : Phrase} {ts : Tokens} (h : Derives ph ts) (solid : ph.Solid) :
    ts ≠ [] := by
  induction h with
  | program | noStatement | nextStatement | noLeading | nextLeading | items | itemsLast =>
    exact solid.elim
  | ofSum _ ih | ofExtremum _ ih | ofTerm _ ih | index _ ih => exact ih trivial
  | _ => simp

theorem Derives.expression_of_term {e : Expr} {ts : Tokens} (h : Derives (.term e) ts) :
    Derives (.expression e) ts := .ofSum (.ofExtremum (.ofTerm h))

end Scriptlet.Grammar
