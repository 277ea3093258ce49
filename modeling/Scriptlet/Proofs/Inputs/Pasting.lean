-- What an input comes to between `println ` and `;`. It is only asked to be some
-- program, so an input that goes on after an expression and a semicolon is rewritten
-- as well, and all that comes after them is run with it.
import Scriptlet.Proofs.Inputs
import Scriptlet.Proofs.Rendering

namespace Scriptlet

open Grammar (Tokens Derives)

namespace Grammar

/-! ## What tells a statement -/

/-- The symbols that stand in statements and in no expression of one. -/
def TellsStatement (s : Symbol) : Prop :=
  s ∈ [.assign, .semicolon, .print, .println, .loop, .cond]

instance (s : Symbol) : Decidable (TellsStatement s) := inferInstanceAs (Decidable (s ∈ _))

/-- Whether a token tells that a statement is spelled. -/
def tellsStatement (t : Token × Span) : Bool :=
  match t.1 with
  | .symbol s => TellsStatement s
  | _ => false

/-- The phrases that statements are made of. -/
def Phrase.Inner : Phrase → Prop
  | program _ | statements _ | block _ | statement _ => False
  | _ => True

theorem not_tellsStatement_operator {f : Family} {s : Symbol} {op : BinOp}
    (h : Operator f s op) (b : Span) : tellsStatement (.symbol s, b) = false := by
  cases h <;> rfl

/-- Nothing inside an expression tells a statement. -/
theorem Derives.not_tellsStatement {ph : Phrase} {ts : Tokens} (h : Derives ph ts)
    (hinner : ph.Inner) : ∀ t ∈ ts, tellsStatement t = false := by
  induction h with
  | program | noStatement | nextStatement | block | assign | indexAssign | print | printLine
  | loop | branch | branchElse => exact hinner.elim
  | ofSum _ ih | ofExtremum _ ih | ofTerm _ ih | index _ ih | items _ ih => exact ih trivial
  | number | str | ident => simp [tellsStatement]
  | noLeading => simp
  | comparison hop _ _ ihl ihr | sum hop _ _ ihl ihr | extremum hop _ _ ihl ihr =>
    refine List.forall_mem_append.2 ⟨ihl trivial, List.forall_mem_cons.2 ⟨?_, ihr trivial⟩⟩
    exact not_tellsStatement_operator hop _
  | range _ _ ihl ihr =>
    exact List.forall_mem_append.2 ⟨ihl trivial, List.forall_mem_cons.2 ⟨rfl, ihr trivial⟩⟩
  | target _ ih =>
    refine List.forall_mem_append.2 ⟨?_, List.forall_mem_singleton.2 rfl⟩
    exact List.forall_mem_cons.2 ⟨rfl, List.forall_mem_cons.2 ⟨rfl, ih trivial⟩⟩
  | list _ ih | parens _ ih =>
    refine List.forall_mem_append.2 ⟨?_, List.forall_mem_singleton.2 rfl⟩
    exact List.forall_mem_cons.2 ⟨rfl, ih trivial⟩
  | nextLeading _ _ ihes ihe =>
    refine List.forall_mem_append.2 ⟨?_, List.forall_mem_singleton.2 rfl⟩
    exact List.forall_mem_append.2 ⟨ihes trivial, ihe trivial⟩
  | itemsLast _ _ ihes ihe => exact List.forall_mem_append.2 ⟨ihes trivial, ihe trivial⟩

theorem find?_append_cons {ts us : Tokens} {t : Token × Span}
    (hts : ∀ u ∈ ts, tellsStatement u = false) (ht : tellsStatement t = true) :
    (ts ++ t :: us).find? tellsStatement = some t := by
  have hnone : ts.find? tellsStatement = none := by
    rw [List.find?_eq_none]
    intro u hu
    rw [hts u hu]
    exact Bool.false_ne_true
  rw [List.find?_append, hnone, Option.none_or, List.find?_cons_of_pos ht]

/-- The first token that tells a statement is no semicolon. -/
theorem Derives.find?_statement {s : Stmt} {ts : Tokens} (h : Derives (.statement s) ts) :
    ∃ t a, ts.find? tellsStatement = some (.symbol t, a) ∧ t ≠ .semicolon := by
  cases h with
  | assign => exact ⟨.assign, _, rfl, by decide⟩
  | @indexAssign _ _ _ _ us b c hi =>
    refine ⟨.assign, b, ?_, by decide⟩
    rw [List.append_assoc]
    exact find?_append_cons (hi.not_tellsStatement trivial) rfl
  | print => exact ⟨.print, _, rfl, by decide⟩
  | printLine => exact ⟨.println, _, rfl, by decide⟩
  | loop => exact ⟨.loop, _, rfl, by decide⟩
  | branch | branchElse => exact ⟨.cond, _, rfl, by decide⟩

theorem Derives.find?_statements {ss : List Stmt} {ts : Tokens} (h : Derives (.statements ss) ts) :
    ts = [] ∨ ∃ t a, ts.find? tellsStatement = some (.symbol t, a) ∧ t ≠ .semicolon := by
  generalize hph : Phrase.statements ss = ph at h
  induction h generalizing ss with
  | noStatement => exact .inl rfl
  | nextStatement _ hs ih _ =>
    refine .inr ?_
    rcases ih rfl with rfl | ⟨t, a, hfind, ht⟩
    · exact hs.find?_statement
    · refine ⟨t, a, ?_, ht⟩
      rw [List.find?_append, hfind, Option.some_or]
  | _ => cases hph

/-- Without their last token, tokens that have `t` after `es` are `es`, or they still
have `t` after it. -/
theorem eq_or_exists_of_append_cons {es rs ts : Tokens} {t u : Token × Span}
    (h : es ++ t :: rs = ts ++ [u]) : (rs = [] ∧ ts = es) ∨ ∃ more, ts = es ++ t :: more := by
  rcases rs.eq_nil_or_concat' with rfl | ⟨more, last, rfl⟩
  · exact .inl ⟨rfl, (List.append_inj' h rfl).1.symm⟩
  · rw [← List.cons_append, ← List.append_assoc] at h
    exact .inr ⟨more, (List.append_inj' h rfl).1.symm⟩

/-- No statements start with an expression and a semicolon. -/
theorem Derives.not_statements {e : Expr} {es : Tokens} (he : Derives (.expression e) es)
    (b : Span) (rest : Tokens) (ss : List Stmt) :
    ¬ Derives (.statements ss) (es ++ (.symbol .semicolon, b) :: rest) := by
  intro hss
  have hfind : (es ++ (.symbol .semicolon, b) :: rest).find? tellsStatement =
      some (.symbol .semicolon, b) := find?_append_cons (he.not_tellsStatement trivial) rfl
  rcases hss.find?_statements with hnil | ⟨t, a, ht, hne⟩
  · simp at hnil
  · rw [hfind] at ht
    cases ht
    exact hne rfl

/-! ## The first statement -/

theorem Derives.eq_nil_iff {ss : List Stmt} {ts : Tokens} (h : Derives (.statements ss) ts) :
    ss = [] ↔ ts = [] := by
  cases h with
  | noStatement => simp
  | nextStatement _ hs => simp [hs.ne_nil trivial]

/-- Statements that are spelled by some tokens have a first one. -/
theorem Derives.exists_first {ss : List Stmt} {ts : Tokens} (h : Derives (.statements ss) ts)
    (hne : ts ≠ []) : ∃ s rest us vs, ss = s :: rest ∧ ts = us ++ vs ∧
      Derives (.statement s) us ∧ Derives (.statements rest) vs := by
  generalize hph : Phrase.statements ss = ph at h
  induction h generalizing ss with
  | noStatement => exact absurd rfl hne
  | @nextStatement ss' s ts us hss hs ih _ =>
    cases hph
    by_cases hts : ts = []
    · obtain rfl := hss.eq_nil_iff.2 hts
      subst hts
      exact ⟨s, [], us, [], rfl, by simp, hs, .noStatement⟩
    · obtain ⟨first, rest, vs, ws, rfl, rfl, hfirst, hrest⟩ := ih hts rfl
      exact ⟨first, rest ++ [s], vs, ws ++ us, rfl, List.append_assoc .., hfirst,
        .nextStatement hrest hs⟩
  | _ => cases hph

/-- A statement that starts with `println` prints the expression up to its semicolon. -/
theorem Derives.exists_of_println {s : Stmt} {a : Span} {us : Tokens}
    (h : Derives (.statement s) us) (hus : us.head? = some (.symbol .println, a)) :
    ∃ e es b, us = (.symbol .println, a) :: es ++ [(.symbol .semicolon, b)] ∧
      Derives (.expression e) es ∧ s = .printLine e (.cover a b) := by
  cases h with
  | printLine he =>
    cases hus
    exact ⟨_, _, _, rfl, he, rfl⟩
  | indexAssign hi =>
    cases hi
    cases hus
  | _ => cases hus

end Grammar

/-! ## The input under the semicolon -/

theorem Match.Longest.of_append {m : Match} {rest more : List Char}
    (h : m.Longest (m.text ++ (rest ++ more))) : m.Longest (m.text ++ rest) where
  here := ⟨h.here.matched, List.prefix_append ..⟩
  length_le n hn := by
    refine h.length_le n ⟨hn.matched, hn.starts.trans ?_⟩
    rw [← List.append_assoc]
    exact List.prefix_append ..
  not_symbol := h.not_symbol

/-- Matches stay the longest ones where less stands after them. -/
theorem Munch.of_append {text rest more : List Char} {ms : List Match}
    (h : Munch text ms (rest ++ more)) : Munch (Match.texts ms ++ rest) ms rest := by
  generalize hleft : rest ++ more = left at h
  induction h with
  | done text => exact .done rest
  | next hm hms ih =>
    rw [← hms.texts_append, ← hleft, ← List.append_assoc (Match.texts _)] at hm
    rw [Match.texts_cons, List.append_assoc]
    exact .next hm.of_append (ih hleft)

/-- A match that ends with a semicolon is that mark, or it is a comment. -/
theorem Pattern.Matches.of_semicolon {p : Pattern} {text : List Char}
    (h : p.Matches (text ++ [';'])) : p = .symbol .semicolon ∧ text = [] ∨
      p = .comment ∧ ∃ line, text = '/' :: '/' :: line ∧ '\n' ∉ line := by
  have hmem : ';' ∈ text ++ [';'] := by simp
  cases p with
  | blanks => simpa using h.2 _ hmem
  | digits => simpa using h.2 _ hmem
  | string =>
    obtain ⟨body, heq, -⟩ := h
    rw [← List.cons_append] at heq
    cases (List.append_inj' heq rfl).2
  | name =>
    obtain ⟨c, cs, heq, hc, hcs⟩ := h
    rw [heq] at hmem
    rcases List.mem_cons.1 hmem with rfl | hmem
    · simp at hc
    · simpa using hcs _ hmem
  | symbol s =>
    have hlast : s.spelling.toList.getLast? = some ';' := by
      rw [← h]
      simp
    obtain rfl : s = .semicolon := by
      cases s <;> simp [Symbol.spelling] at hlast
      rfl
    have heq : text ++ [';'] = [] ++ [';'] := h
    exact .inl ⟨rfl, List.append_cancel_right heq⟩
  | comment =>
    obtain ⟨line, heq, hline⟩ := h
    refine .inr ⟨rfl, ?_⟩
    rcases line.eq_nil_or_concat' with rfl | ⟨init, c, rfl⟩
    · simpa using congrArg List.getLast? heq
    · rw [← List.cons_append, ← List.cons_append] at heq
      obtain ⟨rfl, -⟩ := List.append_inj' heq rfl
      exact ⟨init, rfl, fun hmem => hline (List.mem_append_left _ hmem)⟩

/-- A text that ends with a semicolon has the tokens that it has without it, and then
the semicolon, if that does not stand in a comment. -/
theorem tokenize_of_append_semicolon {input : String} {us : Tokens}
    (h : tokenize (input ++ ";") = .ok us) :
    (EndsInComment input.toList ∧ tokenize input = .ok us) ∨
      ∃ ts a, tokenize input = .ok ts ∧ us = ts ++ [(.symbol .semicolon, a)] := by
  obtain ⟨ms, hms, hts⟩ := exists_munch_of_tokenize h
  have htexts : Match.texts ms = input.toList ++ [';'] := by
    simpa using hms.texts_append
  have hne : ms ≠ [] := by
    rintro rfl
    simp at htexts
  obtain ⟨init, m, rfl, hinit, hm⟩ := hms.exists_last rfl hne
  obtain ⟨us, vs, rfl, hus, hvs⟩ := hts.exists_append
  obtain ⟨p, mtext⟩ := m
  rcases mtext.eq_nil_or_concat' with rfl | ⟨text, c, rfl⟩
  · exact absurd rfl hm.here.matched.ne_nil
  · simp only [Match.texts_append, Match.texts_cons, Match.texts_nil, List.append_nil,
      ← List.append_assoc] at htexts
    obtain ⟨hplace, hc⟩ := List.append_inj' htexts rfl
    cases hc
    have hinput : Munch input.toList init text := by
      rw [← hplace]
      exact hinit.of_append
    rcases hm.here.matched.of_semicolon with ⟨rfl, rfl⟩ | ⟨rfl, line, rfl, hline⟩
    · have htokens := tokenize_of_munch hinput hus
      cases hvs with
      | skip hskip => exact hskip.elim
      | token ht hnil =>
        cases hnil
        cases ht
        exact .inr ⟨us, _, htokens, rfl⟩
    · refine .inl ⟨⟨init, line, hinput, hline⟩, ?_⟩
      cases hvs with
      | token ht => exact ht.elim
      | skip _ hnil =>
        cases hnil
        rw [tokenize, hinput.tokensFrom_eq hus, tokensFrom_comment _ hline]
        rfl

/-! ## What is rewritten -/

namespace Session

/-- With a semicolon after it, an input spells an expression, a semicolon, and
statements. -/
def GoesOn (input : String) (e : Expr) (ss : List Stmt) : Prop :=
  ∃ es b rs, tokenize (input ++ ";") = .ok (es ++ (.symbol .semicolon, b) :: rs) ∧
    Derives (.expression e) es ∧ Derives (.statements ss) rs

variable {input : String} {e : Expr} {ss : List Stmt}

/-- Such an input starts with the expression, so it is no program. -/
theorem GoesOn.not_compile (h : GoesOn input e ss) (p : Program) : compile input ≠ .ok p := by
  obtain ⟨es, b, rs, htokens, he, -⟩ := h
  intro hp
  obtain ⟨ts, hts, hprogram⟩ := compile_eq_ok_iff.1 hp
  rcases tokenize_of_append_semicolon htokens with ⟨-, hsame⟩ | ⟨us, a, hus, hconcat⟩
  · cases hts.symm.trans hsame
    cases hprogram with
    | program hss => exact he.not_statements b rs _ hss
  · cases hts.symm.trans hus
    rcases Grammar.eq_or_exists_of_append_cons hconcat with ⟨-, rfl⟩ | ⟨more, rfl⟩
    · exact he.not_program [] p hprogram
    · cases hprogram with
      | program hss => exact he.not_statements b more _ hss

/-- Between `println ` and `;` it is the statement that prints the expression, and then
the statements. -/
theorem GoesOn.compile_println (h : GoesOn input e ss) :
    ∃ span, compile ("println " ++ input ++ ";") =
      .ok ⟨.printLine (e.mapSpans (.shift 8 0)) span :: Stmt.mapAllSpans (.shift 8 0) ss⟩ := by
  obtain ⟨es, b, rs, htokens, he, hss⟩ := h
  have hprinted := tokenize_println htokens
  rw [← String.append_assoc, Tokens.mapSpans_append, Tokens.mapSpans_cons,
    ← List.cons_append, List.append_cons] at hprinted
  have hstatement := Derives.printLine (a := ⟨0, 7, 1⟩) (b := b.shift 8 0)
    (he.mapSpans (Span.shift_cover 8 0))
  have hstatements := hstatement.cons_statements (hss.mapSpans (Span.shift_cover 8 0))
  exact ⟨_, compile_eq_ok_iff.2 ⟨_, hprinted, .program hstatements⟩⟩

/-- Whatever is a program between `println ` and `;` goes on in this way. -/
theorem exists_goesOn_of_compile {p : Program}
    (h : compile ("println " ++ input ++ ";") = .ok p) : ∃ e ss, GoesOn input e ss := by
  obtain ⟨ts, hts, hprogram⟩ := compile_eq_ok_iff.1 h
  rw [String.append_assoc] at hts
  obtain ⟨us, hus, rfl⟩ := exists_of_tokenize_println hts
  cases hprogram with
  | program hss =>
    obtain ⟨s, rest, vs, ws, rfl, heq, hs, hrest⟩ := hss.exists_first (List.cons_ne_nil _ _)
    have hhead : vs.head? = some (.symbol .println, ⟨0, 7, 1⟩) := by
      have hsame := congrArg List.head? heq
      rw [List.head?_append_of_ne_nil _ (hs.ne_nil trivial)] at hsame
      exact hsame.symm
    obtain ⟨e, es, b, rfl, he, rfl⟩ := hs.exists_of_println hhead
    have hmoved : Tokens.mapSpans (.shift 8 0) us = es ++ (.symbol .semicolon, b) :: ws := by
      simpa using heq
    have hback := congrArg (Tokens.mapSpans (.unshift 8 0)) hmoved
    rw [Tokens.mapSpans_unshift, Tokens.mapSpans_append, Tokens.mapSpans_cons] at hback
    rw [hback] at hus
    have hcover : ∀ a b : Span, (Span.cover a b).unshift 8 0 =
        .cover (a.unshift 8 0) (b.unshift 8 0) := fun _ _ => rfl
    exact ⟨_, _, _, _, _, hus, he.mapSpans hcover, hrest.mapSpans hcover⟩

/-- Such an input is an expression by itself just if nothing comes after the semicolon,
and the semicolon is not in a comment. -/
theorem GoesOn.expression_iff (h : GoesOn input e ss) :
    (∃ ts e', tokenize input = .ok ts ∧ Derives (.expression e') ts) ↔
      ss = [] ∧ ¬ EndsInComment input.toList := by
  obtain ⟨es, b, rs, htokens, he, hss⟩ := h
  constructor
  · rintro ⟨ts, e', hts, he'⟩
    have hno := he'.not_tellsStatement trivial
    have hend : ¬ EndsInComment input.toList := by
      intro hend
      cases htokens.symm.trans (tokenize_append_of_comment hts hend (by decide))
      cases hno (.symbol .semicolon, b) (by simp)
    refine ⟨hss.eq_nil_iff.2 ?_, hend⟩
    obtain ⟨a, ha⟩ := tokenize_append_semicolon hts hend
    have hsame := Except.ok.inj (htokens.symm.trans ha)
    rcases Grammar.eq_or_exists_of_append_cons hsame with ⟨hnil, -⟩ | ⟨more, rfl⟩
    · exact hnil
    · cases hno (.symbol .semicolon, b) (by simp)
  · rintro ⟨rfl, hend⟩
    obtain rfl := hss.eq_nil_iff.1 rfl
    rcases tokenize_of_append_semicolon htokens with ⟨hcomment, -⟩ | ⟨ts, a, hts, hsame⟩
    · exact absurd hcomment hend
    · obtain ⟨rfl, -⟩ := List.append_inj' hsame rfl
      exact ⟨_, e, hts, he⟩

end Session

end Scriptlet
