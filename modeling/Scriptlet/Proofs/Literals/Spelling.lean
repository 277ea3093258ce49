-- Literals: data written out in a source. Blanks and comments can stand between any
-- two of its tokens, a comma after the last item of a list, and parentheses around
-- any part. However it is laid out, it is read as an expression that denotes the data.
import Scriptlet.Proofs.Lexing.LongestMatch
import Scriptlet.Proofs.Rendering
import Scriptlet.Proofs.Slices

namespace Scriptlet

open Grammar (Tokens Derives)

/-! ## Data -/

/-- What literals can spell: integers that are not negative, strings without quotes and
line feeds, and lists of such data. -/
inductive Datum where
  | int (n : Int64) (nonneg : 0 ≤ n.toInt)
  | str (s : String) (plain : ∀ c ∈ s.toList, c ≠ '"' ∧ c ≠ '\n')
  | list (items : List Datum)

namespace Datum

mutual

/-- How data is shown: integers in decimal, strings as they are, and the items of a list
in brackets with commas between them. -/
def shown : Datum → String
  | int n _ => toString n.toInt
  | str s _ => s
  | list items => "[" ++ ", ".intercalate (allShown items) ++ "]"

def allShown : List Datum → List String
  | [] => []
  | d :: ds => d.shown :: allShown ds

end

/-- What holds of a list when it holds of its items holds of all data, if it holds of
integers and strings. -/
@[elab_as_elim]
theorem items_induction {motive : Datum → Prop} (int : ∀ n nonneg, motive (int n nonneg))
    (str : ∀ s plain, motive (str s plain))
    (list : ∀ items, (∀ d ∈ items, motive d) → motive (list items)) : ∀ d, motive d
  | .int n nonneg => int n nonneg
  | .str s plain => str s plain
  | .list items => list items fun d _ => items_induction int str list d

end Datum

/-! ## Texts of literals -/

/-- Blanks and comments, each comment up to the end of its line. -/
inductive Gap : List Char → Prop
  | nil : Gap []
  | blank {c : Char} {rest : List Char} : isBlank c = true → Gap rest → Gap (c :: rest)
  | comment {line rest : List Char} : '\n' ∉ line → Gap rest →
    Gap ('/' :: '/' :: (line ++ '\n' :: rest))

/-- What can be spelled: data with nothing around it, data with gaps around it, and what
stands between the brackets of a list. -/
inductive Literal where
  | bare (d : Datum)
  | part (d : Datum)
  | items (ds : List Datum)

/-- `Spells l text`: the text writes the literal. -/
inductive Spells : Literal → List Char → Prop
  | int {n : Int64} {nonneg} {digits : List Char} : digits ≠ [] → (∀ c ∈ digits, c.isDigit = true) →
    n.toInt = Nat.ofDigitChars 10 digits 0 → Spells (.bare (.int n nonneg)) digits
  | str {s plain} : Spells (.bare (.str s plain)) ('"' :: (s.toList ++ ['"']))
  | list {ds text} : Spells (.items ds) text → Spells (.bare (.list ds)) ('[' :: (text ++ [']']))
  | parens {d text} : Spells (.part d) text → Spells (.bare d) ('(' :: (text ++ [')']))
  | part {d before text after} : Gap before → Spells (.bare d) text → Gap after →
    Spells (.part d) (before ++ (text ++ after))
  | none {gap} : Gap gap → Spells (.items []) gap
  | last {d text} : Spells (.part d) text → Spells (.items [d]) text
  | comma {d ds text more} : Spells (.part d) text → Spells (.items ds) more →
    Spells (.items (d :: ds)) (text ++ ',' :: more)

/-- `e.Denotes d`: the expression writes the data out. -/
inductive Expr.Denotes : Expr → Datum → Prop
  | int {n nonneg s} : Denotes (.number n s) (.int n nonneg)
  | str {t plain raw s} : raw.toList = '"' :: (t.toList ++ ['"']) →
    Denotes (.str raw s) (.str t plain)
  | list {es ds s} : List.Forall₂ Denotes es ds → Denotes (.list es s) (.list ds)

/-- Tokens that spell an expression which denotes the literal. -/
def Literal.ReadBy : Literal → Tokens → Prop
  | bare d, us | part d, us => ∃ e, e.Denotes d ∧ Derives (.term e) us
  | items ds, us => ∃ es, List.Forall₂ Expr.Denotes es ds ∧ Derives (.items es) us

/-! ## Gaps -/

namespace Gap

variable {gap : List Char}

theorem tokensFrom_append (h : Gap gap) (p : Position) (rest : List Char) :
    tokensFrom p (gap ++ rest) = tokensFrom (p.advance gap) rest := by
  induction h generalizing p with
  | nil => rfl
  | blank hc _ ih => rw [List.cons_append, tokensFrom_blank hc, ih, Position.advance_cons]
  | @comment line more hline _ ih =>
    have hmatch : Pattern.comment.Matches ('/' :: '/' :: line) := ⟨line, rfl, hline⟩
    have hfirst := Lexeme.Runs.comment.first_eq hmatch ('\n' :: (more ++ rest))
    rw [List.takeWhile_cons_of_neg (by simp), List.dropWhile_cons_of_neg (by simp),
      List.append_nil] at hfirst
    have htext : '/' :: '/' :: (line ++ '\n' :: more) ++ rest =
        '/' :: ('/' :: line ++ '\n' :: (more ++ rest)) := by simp
    have hplace : p.advance ('/' :: '/' :: (line ++ '\n' :: more)) =
        ((p.advance ('/' :: '/' :: line)).next '\n').advance more := by
      rw [← Position.advance_cons, ← Position.advance_append]
      rfl
    rw [htext, tokensFrom_of_skip (by rw [hfirst]), hfirst, tokensFrom_blank rfl, ih, hplace]

theorem fenced (h : Gap gap) {rest : List Char} (hrest : Fenced rest) : Fenced (gap ++ rest) := by
  cases h with
  | nil => exact hrest
  | blank hc _ => exact fenced_of_isBlank hc _
  | comment => exact fenced_cons (by decide) _

end Gap

namespace ReadsAs

variable {gap text : List Char} {P Q : Tokens → Prop}

theorem of_gap (h : Gap gap) : ReadsAs gap (· = []) := by
  intro p rest _ _
  refine ⟨[], rfl, ?_⟩
  rw [h.tokensFrom_append]
  cases tokensFrom (p.advance gap) rest <;> rfl

theorem after_gap (hgap : Gap gap) (h : ReadsAs text P) : ReadsAs (gap ++ text) P := by
  intro p rest hline hrest
  have hline' : 1 ≤ (p.advance gap).line := by
    rw [Position.line_advance]
    omega
  obtain ⟨us, hus, htokens⟩ := h (p.advance gap) rest hline' hrest
  refine ⟨us, hus, ?_⟩
  rw [List.append_assoc, hgap.tokensFrom_append, Position.advance_append]
  exact htokens

theorem before_gap (h : ReadsAs text P) (hgap : Gap gap) : ReadsAs (text ++ gap) P := by
  refine (h.append (of_gap hgap) fun rest hrest => hgap.fenced hrest).mono ?_
  rintro _ ⟨us, vs, hus, rfl, rfl⟩
  rwa [List.append_nil]

/-- A lexeme that is taken whatever stands after it. -/
theorem after_mark {c : Char} {s : Symbol}
    (hfirst : ∀ cs, Lexeme.first c cs = ⟨.token (.symbol s), [c], cs⟩) (h : ReadsAs text P) :
    ReadsAs (c :: text) (Followed (Token.symbol s).Alone P) := by
  intro p rest hline hrest
  have hline' : 1 ≤ (p.advance [c]).line := by
    rw [Position.line_advance]
    omega
  obtain ⟨us, hus, htokens⟩ := h (p.advance [c]) rest hline' hrest
  refine ⟨(.symbol s, p.spanTo (p.advance [c])) :: us, ⟨_, us, ⟨_, rfl⟩, hus, rfl⟩, ?_⟩
  rw [List.cons_append, tokensFrom_of_token (t := .symbol s) (by rw [hfirst]), hfirst, htokens,
    ← Position.advance_append, List.singleton_append]
  cases tokensFrom (p.advance (c :: text)) rest <;> rfl

end ReadsAs

/-! ## Reading literals -/

/-- A run of digits is the integer that they write, also with zeros before it. -/
theorem readsAs_digits {digits : List Char} {n : Int64} (hne : digits ≠ [])
    (hdigits : ∀ c ∈ digits, c.isDigit = true) (hn : n.toInt = Nat.ofDigitChars 10 digits 0) :
    ReadsAs digits (Token.int n).Alone := by
  intro p rest _ hrest
  obtain ⟨c, cs, rfl⟩ := List.exists_cons_of_ne_nil hne
  obtain ⟨hc, hcs⟩ := List.forall_mem_cons.1 hdigits
  have hfirst : Lexeme.first c cs = ⟨.token (.int n), c :: cs, []⟩ := by
    rw [Lexeme.first_of_isDigit hc, Lexeme.run_all _ c hcs,
      Lexeme.number_eq_token_iff.2 ⟨n, hn, rfl⟩]
  have hread := tokensFrom_append_of_token (t := .int n) (by rw [hfirst]) (.inr hrest) p
  rw [hfirst] at hread
  exact ⟨_, ⟨_, rfl⟩, hread⟩

theorem Grammar.Derives.cons_items {e : Expr} {es : List Expr} {ts us : Tokens} {b : Span}
    (he : Derives (.expression e) ts) (hes : Derives (.items es) us) :
    Derives (.items (e :: es)) (ts ++ (.symbol .comma, b) :: us) := by
  cases hes with
  | items hleading => exact .items (he.cons_leading hleading)
  | itemsLast hleading hlast =>
    have h := Derives.itemsLast (he.cons_leading (b := b) hleading) hlast
    rwa [List.append_assoc, List.cons_append] at h

/-- However a literal is laid out, it is read as an expression that denotes it. -/
theorem Spells.readsAs {l : Literal} {text : List Char} (h : Spells l text) :
    ReadsAs text l.ReadBy := by
  induction h with
  | int hne hdigits hn =>
    refine (readsAs_digits hne hdigits hn).mono ?_
    rintro _ ⟨a, rfl⟩
    exact ⟨_, .int, .number⟩
  | @str t plain =>
    let raw := String.ofList ('"' :: (t.toList ++ ['"']))
    have hraw : raw.toList = '"' :: (t.toList ++ ['"']) := String.toList_ofList
    have hwritten : (Token.str raw).Written := ⟨t.toList, hraw, plain⟩
    have hread := hwritten.readsAs
    rw [Token.text, hraw] at hread
    refine hread.mono ?_
    rintro _ ⟨a, rfl⟩
    exact ⟨_, .str hraw, .str⟩
  | @list ds text _ ih =>
    have hclose : (Token.symbol .closeBracket).Written := trivial
    have hinner := ih.append hclose.readsAs fun rest _ => fenced_cons (by decide) rest
    refine (hinner.after_mark (c := '[') (s := .openBracket) fun _ => rfl).mono ?_
    rintro _ ⟨_, _, ⟨a, rfl⟩, ⟨us, _, ⟨es, hes, hitems⟩, ⟨b, rfl⟩, rfl⟩, rfl⟩
    exact ⟨_, .list hes, .list hitems⟩
  | @parens d text _ ih =>
    have hclose : (Token.symbol .closeParen).Written := trivial
    have hinner := ih.append hclose.readsAs fun rest _ => fenced_cons (by decide) rest
    refine (hinner.after_mark (c := '(') (s := .openParen) fun _ => rfl).mono ?_
    rintro _ ⟨_, _, ⟨a, rfl⟩, ⟨us, _, ⟨e, he, hterm⟩, ⟨b, rfl⟩, rfl⟩, rfl⟩
    exact ⟨e, he, .parens hterm.expression_of_term⟩
  | part hbefore _ hafter ih => exact (ih.before_gap hafter).after_gap hbefore
  | none hgap =>
    refine (ReadsAs.of_gap hgap).mono ?_
    rintro _ rfl
    exact ⟨[], .nil, .items .noLeading⟩
  | last _ ih =>
    refine ih.mono ?_
    rintro us ⟨e, he, hterm⟩
    exact ⟨[e], .cons he .nil, .itemsLast .noLeading hterm.expression_of_term⟩
  | @comma d ds text more _ _ ih ihs =>
    have hmore := ihs.after_mark (c := ',') (s := .comma) fun _ => rfl
    refine (ih.append hmore fun rest _ => fenced_cons (by decide) _).mono ?_
    rintro _ ⟨us, _, ⟨e, he, hterm⟩, ⟨_, vs, ⟨b, rfl⟩, ⟨es, hes, hitems⟩, rfl⟩, rfl⟩
    exact ⟨e :: es, .cons he hes, hterm.expression_of_term.cons_items hitems⟩

/-- A literal can be assigned. -/
theorem exists_compile_literal {text : String} {d : Datum}
    (h : Spells (.part d) text.toList) : ∃ e span,
      compile ("x = " ++ text ++ ";") = .ok ⟨[.assign "x" e span]⟩ ∧ e.Denotes d := by
  refine exists_compile_assign (h.readsAs.mono ?_)
  rintro us ⟨e, he, hterm⟩
  exact ⟨e, he, hterm.expression_of_term⟩

end Scriptlet
