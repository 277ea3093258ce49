-- Inputs of a session. An input that is an expression is no program. It is printed,
-- unless a comment at its end takes in the semicolon that is put after it.
import Scriptlet.Proofs.Lexing.Munching
import Scriptlet.Proofs.Slices
import Scriptlet.Session

namespace Scriptlet

open Grammar (Tokens Derives)

/-! ## How phrases end -/

namespace Grammar

/-- The terminals that statements end with. -/
def EndsStatement (t : Terminal) : Prop := t = .symbol .semicolon ∨ t = .symbol .closeBrace

/-- What the last token of a phrase is, if it has one. -/
def Phrase.LastIs : Phrase → Terminal → Prop
  | program _, t | statements _, t | block _, t | statement _, t => EndsStatement t
  | leading _, _ | items _, _ => True
  | _, t => ¬ EndsStatement t

theorem last_append {P : Token × Span → Prop} (ts : Tokens) {us : Tokens} (hne : us ≠ [])
    (h : ∀ t ∈ us.getLast?, P t) : ∀ t ∈ (ts ++ us).getLast?, P t := by
  rwa [List.getLast?_append_of_ne_nil ts hne]

theorem last_append_cons {P : Token × Span → Prop} (ts : Tokens) (u : Token × Span) {us : Tokens}
    (hne : us ≠ []) (h : ∀ t ∈ us.getLast?, P t) : ∀ t ∈ (ts ++ u :: us).getLast?, P t := by
  rw [List.append_cons]
  exact last_append _ hne h

theorem last_concat {P : Token × Span → Prop} (ts : Tokens) {t : Token × Span} (h : P t) :
    ∀ u ∈ (ts ++ [t]).getLast?, P u := by
  refine last_append (P := P) ts (List.cons_ne_nil t []) ?_
  intro u hu
  cases hu
  exact h

theorem Derives.lastIs {ph : Phrase} {ts : Tokens} (h : Derives ph ts) :
    ∀ t ∈ ts.getLast?, ph.LastIs t.1.terminal := by
  induction h with
  | program _ ih | ofSum _ ih | ofExtremum _ ih | ofTerm _ ih | index _ ih => exact ih
  | noStatement => simp
  | nextStatement _ hs _ ih => exact last_append _ (hs.ne_nil trivial) ih
  | assign | indexAssign | print | printLine => exact last_concat _ (.inl rfl)
  | block => exact last_concat _ (.inr rfl)
  | loop _ hss _ ih | branch _ hss _ ih => exact last_append _ (hss.ne_nil trivial) ih
  | branchElse _ _ hrs _ _ ih => exact last_append_cons _ _ (hrs.ne_nil trivial) ih
  | range _ hhi _ ih => exact last_append_cons _ _ (hhi.ne_nil trivial) ih
  | comparison _ _ hr _ ih | sum _ _ hr _ ih | extremum _ _ hr _ ih =>
    exact last_append_cons _ _ (hr.ne_nil trivial) ih
  | number | str | ident =>
    exact last_concat [] (by simp [Phrase.LastIs, EndsStatement, Token.terminal])
  | target | list | parens =>
    exact last_concat _ (by simp [Phrase.LastIs, EndsStatement, Token.terminal])
  | noLeading | nextLeading | items | itemsLast => simp [Phrase.LastIs]

/-- An expression is no program, also with other tokens before it. -/
theorem Derives.not_program {e : Expr} {ts : Tokens} (h : Derives (.expression e) ts)
    (before : Tokens) (p : Program) : ¬ Derives (.program p) (before ++ ts) := by
  intro hp
  have hne := h.ne_nil trivial
  have hlast := List.getLast?_eq_some_getLast hne
  have hprogram := hp.lastIs
  rw [List.getLast?_append_of_ne_nil before hne] at hprogram
  exact h.lastIs _ hlast (hprogram _ hlast)

end Grammar

/-! ## Inputs that end in a comment -/

/-- Whether the last match of a text is a comment, which then goes on in whatever is
put after it. -/
def EndsInComment (text : List Char) : Prop :=
  ∃ ms line, Munch text ms ('/' :: '/' :: line) ∧ '\n' ∉ line

theorem tokensFrom_comment (p : Position) {line : List Char} (h : '\n' ∉ line) :
    tokensFrom p ('/' :: '/' :: line) = .ok [] := by
  have hmatch : Pattern.comment.Matches ('/' :: '/' :: line) := ⟨line, rfl, h⟩
  have hfirst := Lexeme.Runs.comment.first_eq hmatch []
  rw [List.takeWhile_nil, List.dropWhile_nil, List.append_nil] at hfirst
  rw [tokensFrom_of_skip (by rw [hfirst]), hfirst, tokensFrom]

/-- Matches of a text that has tokens have some of them. -/
theorem Munch.exists_tokensOf {text rest : List Char} {ms : List Match} (h : Munch text ms rest)
    {p : Position} {ts : Tokens} (hts : tokensFrom p text = .ok ts) (before : List Char) :
    ∃ us, TokensOf before ms us := by
  induction h generalizing p ts before with
  | done text => exact ⟨[], .nil⟩
  | @next m more ms rest hm _ ih =>
    obtain ⟨c, cs, htext, hfirst⟩ := hm.exists_first
    rw [htext, List.cons_append] at hts
    cases hreading : m.reading with
    | skip =>
      rw [tokensFrom_of_skip (by rw [hfirst, hreading]), hfirst] at hts
      obtain ⟨us, hus⟩ := ih hts (before ++ m.text)
      exact ⟨us, .skip (Match.reading_eq_skip_iff.1 hreading) hus⟩
    | token t =>
      rw [tokensFrom_of_token (t := t) (by rw [hfirst, hreading]), hfirst] at hts
      obtain ⟨vs, hvs, -⟩ := exists_of_map_eq_ok hts
      obtain ⟨us, hus⟩ := ih hvs (before ++ m.text)
      exact ⟨_, .token (Match.reading_eq_token_iff.1 hreading) hus⟩
    | fault f =>
      rw [tokensFrom_of_fault (f := f) (by rw [hfirst, hreading])] at hts
      cases hts

/-- A comment at the end of an input takes in what is put after it on its line. -/
theorem tokenize_append_of_comment {input more : String} {ts : Tokens}
    (h : tokenize input = .ok ts) (hend : EndsInComment input.toList)
    (hmore : '\n' ∉ more.toList) : tokenize (input ++ more) = .ok ts := by
  obtain ⟨ms, line, hms, hline⟩ := hend
  obtain ⟨us, hus⟩ := hms.exists_tokensOf h []
  have hinput := hms.tokensFrom_eq hus
  have hhead : (('/' :: '/' :: line) ++ more.toList).head? = ('/' :: '/' :: line).head? := rfl
  have happend := hms.tokensFrom_append hus hhead
  have hboth : '\n' ∉ line ++ more.toList := by
    rw [List.mem_append]
    rintro (hmem | hmem)
    · exact hline hmem
    · exact hmore hmem
  rw [List.cons_append, List.cons_append, tokensFrom_comment _ hboth] at happend
  rw [tokensFrom_comment _ hline, ← tokenize, h] at hinput
  rw [tokenize, String.toList_append, hinput]
  exact happend

theorem tokensFrom_blanks (p : Position) {text : List Char} (h : ∀ c ∈ text, isBlank c = true)
    (more : List Char) : tokensFrom p (text ++ more) = tokensFrom (p.advance text) more := by
  induction text generalizing p with
  | nil => rfl
  | cons c cs ih =>
    obtain ⟨hc, hcs⟩ := List.forall_mem_cons.1 h
    rw [List.cons_append, tokensFrom_blank hc, ih _ hcs, Position.advance_cons]

theorem Munch.exists_last {text rest : List Char} {ms : List Match} (h : Munch text ms rest)
    (hrest : rest = []) (hne : ms ≠ []) :
    ∃ init m, ms = init ++ [m] ∧ Munch text init m.text ∧ m.Longest m.text := by
  induction h with
  | done text => exact absurd rfl hne
  | @next m more ms rest hm hms ih =>
    by_cases hmore : ms = []
    · subst hmore
      cases hms
      subst hrest
      rw [List.append_nil] at hm ⊢
      exact ⟨[], m, rfl, .done m.text, hm⟩
    · obtain ⟨init, last, rfl, hinit, hlast⟩ := ih hrest hmore
      exact ⟨m :: init, last, rfl, .next hm hinit, hlast⟩

theorem TokensOf.exists_append {before : List Char} {ms ns : List Match} {ts : Tokens}
    (h : TokensOf before (ms ++ ns) ts) : ∃ us vs, us ++ vs = ts ∧ TokensOf before ms us ∧
      TokensOf (before ++ Match.texts ms) ns vs := by
  induction ms generalizing before ts with
  | nil => exact ⟨[], ts, rfl, .nil, by simpa using h⟩
  | cons m ms ih =>
    rw [Match.texts_cons, ← List.append_assoc]
    cases h with
    | skip hskip h =>
      obtain ⟨us, vs, rfl, hus, hvs⟩ := ih h
      exact ⟨us, vs, rfl, .skip hskip hus, hvs⟩
    | token ht h =>
      obtain ⟨us, vs, rfl, hus, hvs⟩ := ih h
      exact ⟨_ :: us, vs, rfl, .token ht hus, hvs⟩

/-- The last match is read as it was with something after it that does not go on with
it, if it is no comment. -/
theorem Match.Longest.tokensFrom_fenced {m : Match} (hm : m.Longest m.text)
    (hcomment : m.pattern ≠ .comment) {more : List Char} (hmore : Fenced more)
    {before : List Char} {ts : Tokens} (hts : TokensOf before [m] ts) :
    tokensFrom (Position.origin.advance before) (m.text ++ more) =
      (tokensFrom (Position.origin.advance (before ++ m.text)) more).map (ts ++ ·) := by
  rw [Position.advance_append]
  cases hts with
  | skip hskip hts =>
    cases hts
    obtain ⟨p, text⟩ := m
    cases p with
    | blanks =>
      rw [tokensFrom_blanks _ fun c hc => Lexeme.isBlank_iff.2 (hm.here.matched.2 c hc)]
      cases tokensFrom ((Position.origin.advance before).advance text) more <;> rfl
    | comment => exact absurd rfl hcomment
    | _ => exact hskip.elim
  | token ht hts =>
    cases hts
    have hm : m.Longest (m.text ++ []) := by rwa [List.append_nil]
    rw [hm.tokensFrom_token ht (.inr hmore), Position.spanTo_after]
    rfl

/-- An input without a comment at its end keeps its tokens with something after it that
none of them goes on with. -/
theorem tokenize_append_of_fenced {input more : String} {ts : Tokens}
    (h : tokenize input = .ok ts) (hend : ¬ EndsInComment input.toList)
    (hmore : Fenced more.toList) : tokenize (input ++ more) =
      (tokensFrom (Position.origin.advance input.toList) more.toList).map (ts ++ ·) := by
  obtain ⟨ms, hms, hts⟩ := exists_munch_of_tokenize h
  have hwhole := hms.texts_append
  rw [List.append_nil] at hwhole
  rw [tokenize, String.toList_append]
  by_cases hne : ms = []
  · subst hne
    cases hts
    rw [← hwhole]
    simp only [Match.texts_nil, List.nil_append, Position.advance_nil]
    cases tokensFrom .origin more.toList <;> rfl
  · obtain ⟨init, m, rfl, hinit, hm⟩ := hms.exists_last rfl hne
    obtain ⟨us, vs, rfl, hus, hvs⟩ := hts.exists_append
    have hcomment : m.pattern ≠ .comment := by
      intro hp
      obtain ⟨p, text⟩ := m
      obtain rfl : p = .comment := hp
      obtain ⟨line, rfl, hline⟩ := hm.here.matched
      exact hend ⟨init, line, hinit, hline⟩
    have hhead : (m.text ++ more.toList).head? = m.text.head? := by
      obtain ⟨c, cs, htext⟩ := List.exists_cons_of_ne_nil hm.here.matched.ne_nil
      rw [htext]
      rfl
    have hread := hinit.tokensFrom_append hus hhead
    rw [List.nil_append] at hvs hread
    have hplace : Match.texts init ++ m.text = input.toList := by simpa using hwhole
    rw [hm.tokensFrom_fenced hcomment hmore hvs, hplace] at hread
    refine hread.trans ?_
    cases tokensFrom (Position.origin.advance input.toList) more.toList with
    | error e => rfl
    | ok ws => exact congrArg Except.ok (List.append_assoc us vs ws).symm

theorem tokenize_append_semicolon {input : String} {ts : Tokens} (h : tokenize input = .ok ts)
    (hend : ¬ EndsInComment input.toList) :
    ∃ a, tokenize (input ++ ";") = .ok (ts ++ [(.symbol .semicolon, a)]) := by
  have hfenced : Fenced ";".toList := fenced_cons (by decide) []
  have hmark := tokensFrom_text (t := .symbol .semicolon) trivial fenced_nil
    (Position.origin.advance input.toList)
  have htext : (Token.symbol .semicolon).text.toList = ";".toList := rfl
  rw [List.append_nil, tokensFrom, htext] at hmark
  rw [tokenize_append_of_fenced h hend hfenced, hmark]
  exact ⟨_, rfl⟩

/-! ## What is run for an input -/

theorem tokenize_println_eq (text : String) : tokenize ("println " ++ text) =
    (((tokenize text).map (Tokens.mapSpans (.shift 8 0))).mapError (.shift 8 0)).map
      ((.symbol .println, ⟨0, 7, 1⟩) :: ·) := by
  have hword : (Token.symbol .println).Written := trivial
  have hread := tokensFrom_text hword (fenced_of_isBlank (c := ' ') rfl text.toList) .origin
  have htext : ("println " ++ text).toList =
      (Token.symbol .println).text.toList ++ ' ' :: text.toList := by
    simp [Token.text, Symbol.spelling]
  have hplace : (Position.origin.advance (Token.symbol .println).text.toList).next ' ' =
      Position.origin.shift 8 0 := by cbv
  rw [tokenize, htext, hread, tokensFrom_blank rfl, hplace, tokensFrom_shift]
  rfl

theorem tokenize_println {text : String} {ts : Tokens} (h : tokenize text = .ok ts) :
    tokenize ("println " ++ text) =
      .ok ((.symbol .println, ⟨0, 7, 1⟩) :: Tokens.mapSpans (.shift 8 0) ts) := by
  rw [tokenize_println_eq, h]
  rfl

theorem exists_of_tokenize_println {text : String} {ts : Tokens}
    (h : tokenize ("println " ++ text) = .ok ts) : ∃ us, tokenize text = .ok us ∧
      ts = (.symbol .println, ⟨0, 7, 1⟩) :: Tokens.mapSpans (.shift 8 0) us := by
  rw [tokenize_println_eq] at h
  cases htext : tokenize text with
  | error e =>
    rw [htext] at h
    cases h
  | ok us =>
    rw [htext] at h
    cases h
    exact ⟨us, rfl, rfl⟩

namespace Session

/-- An input that is no program is run as the statement that prints it, if that is
one. -/
theorem sourceFor_of_not_compiles {input : String} (h : ∀ p, compile input ≠ .ok p) :
    sourceFor input =
      if compiles ("println " ++ input ++ ";") then "println " ++ input ++ ";" else input := by
  unfold sourceFor
  rw [compiles_eq_false_iff.2 h]
  rfl

/-- An expression is no program. -/
theorem not_compile_of_expression {input : String} (before : Tokens) {ts : Tokens} {e : Expr}
    (htokens : tokenize input = .ok (before ++ ts)) (he : Derives (.expression e) ts)
    (p : Program) : compile input ≠ .ok p := by
  intro hp
  obtain ⟨us, hus, hprogram⟩ := compile_eq_ok_iff.1 hp
  cases htokens.symm.trans hus
  exact he.not_program before p hprogram

/-- With a semicolon after it an expression can be printed. -/
theorem compile_println {input : String} {ts : Tokens} {e : Expr} {a : Span}
    (htokens : tokenize (input ++ ";") = .ok (ts ++ [(.symbol .semicolon, a)]))
    (he : Derives (.expression e) ts) : ∃ e' span,
      compile ("println " ++ input ++ ";") = .ok ⟨[.printLine e' span]⟩ ∧
        e'.eraseSpans = e.eraseSpans := by
  have hprinted := tokenize_println htokens
  rw [Tokens.mapSpans_append, ← String.append_assoc] at hprinted
  have hstatement := Derives.printLine (a := ⟨0, 7, 1⟩) (b := a.shift 8 0)
    (he.mapSpans (Span.shift_cover 8 0))
  exact ⟨_, _, compile_eq_ok_iff.2 ⟨_, hprinted, hstatement.singleton_program⟩,
    Expr.eraseSpans_mapSpans ..⟩

/-- An input that is an expression is no program. Without a comment at its end what is
run for it is one statement, which prints that expression. With one it is left as it
is. -/
theorem sourceFor_expression {input : String} {ts : Tokens} {e : Expr}
    (htokens : tokenize input = .ok ts) (he : Derives (.expression e) ts) :
    (¬ EndsInComment input.toList → sourceFor input = "println " ++ input ++ ";" ∧
      ∃ e' span, compile (sourceFor input) = .ok ⟨[.printLine e' span]⟩ ∧
        e'.eraseSpans = e.eraseSpans) ∧
    (EndsInComment input.toList → sourceFor input = input ∧
      ∀ p, compile (sourceFor input) ≠ .ok p) := by
  have hinput : ∀ p, compile input ≠ .ok p := by
    intro p
    exact not_compile_of_expression [] htokens he p
  have hsource := sourceFor_of_not_compiles hinput
  constructor
  · intro hend
    obtain ⟨a, hsemicolon⟩ := tokenize_append_semicolon htokens hend
    obtain ⟨e', span, hcompile, herased⟩ := compile_println hsemicolon he
    rw [if_pos (compiles_iff.2 ⟨_, hcompile⟩)] at hsource
    rw [hsource]
    exact ⟨rfl, e', span, hcompile, herased⟩
  · intro hend
    have hsemicolon : tokenize (input ++ ";") = .ok ts :=
      tokenize_append_of_comment htokens hend (by decide)
    have hprinted := tokenize_println hsemicolon
    rw [← String.append_assoc] at hprinted
    have hnone := not_compile_of_expression [_] hprinted (he.mapSpans (Span.shift_cover 8 0))
    rw [compiles_eq_false_iff.2 hnone] at hsource
    rw [hsource]
    exact ⟨rfl, hinput⟩

/-- A comment inside an expression, and one that the line ends before the input does. -/
theorem sourceFor_expression_on_two_lines :
    let input := "x max // the greater\n 3 // of both\n"
    ∃ e' span, compile (sourceFor input) = .ok ⟨[.printLine e' span]⟩ ∧ e'.eraseSpans =
      .binary .extremum .max (.ident "x" default) (.number 3 default) default := by
  intro input
  have htokens : tokenize input = .ok [(.ident "x", ⟨0, 1, 1⟩), (.symbol .max, ⟨2, 5, 1⟩),
    (.int 3, ⟨22, 23, 2⟩)] := by cbv
  have hx : Derives (.extremum _) [(.ident "x", ⟨0, 1, 1⟩)] := .ofTerm .ident
  have hthree : Derives (.term _) [(.int 3, ⟨22, 23, 2⟩)] := .number
  have he := Derives.ofSum (.ofExtremum (.extremum (b := ⟨2, 5, 1⟩) .max hx hthree))
  obtain ⟨hprinted, hleft⟩ := sourceFor_expression htokens he
  have hend : ¬ EndsInComment input.toList := by
    intro hend
    have hcompiles : compiles (sourceFor input) = true := by cbv
    obtain ⟨p, hp⟩ := compiles_iff.1 hcompiles
    exact (hleft hend).2 p hp
  exact (hprinted hend).2

/-- An integer with a comment after it is an expression, and no program comes of it. -/
theorem sourceFor_keeps_commented_integer :
    let input := "1 // one"
    ∃ ts e, tokenize input = .ok ts ∧ Derives (.expression e) ts ∧
      ¬ ∃ e' span, compile (sourceFor input) = .ok ⟨[.printLine e' span]⟩ ∧
        e'.eraseSpans = e.eraseSpans := by
  intro input
  have htokens : tokenize input = .ok [(.int 1, ⟨0, 1, 1⟩)] := by cbv
  have he := Derives.ofSum (.ofExtremum (.ofTerm (.number (n := 1) (a := ⟨0, 1, 1⟩))))
  refine ⟨_, _, htokens, he, ?_⟩
  rintro ⟨e', span, hcompile, -⟩
  have hrefused : compiles (sourceFor input) = false := by cbv
  exact compiles_eq_false_iff.1 hrefused _ hcompile

end Session

end Scriptlet
