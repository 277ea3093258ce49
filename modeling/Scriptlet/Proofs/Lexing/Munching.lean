-- Reading a text match by match. The longest match is taken at every place from left
-- to right, up to the end or to the first place that has none or whose digits are
-- out of range. The tokens are the matches that are not skipped, each where it stands.
import Scriptlet.Proofs.Compilation
import Scriptlet.Proofs.Lexing.LongestMatch

namespace Scriptlet

open Grammar (Tokens Ascending closing)

/-! ## Places -/

/-- The stretch of a text that stands after another. -/
def Span.after (before text : List Char) : Span :=
  ⟨(String.ofList before).utf8ByteSize, (String.ofList (before ++ text)).utf8ByteSize,
    1 + before.count '\n'⟩

namespace Position

theorem offset_after (text : List Char) :
    (origin.advance text).offset = (String.ofList text).utf8ByteSize := by
  rw [← offset_advance_origin, String.toList_ofList]

theorem line_after (p : Position) (text : List Char) :
    (p.advance text).line = p.line + text.count '\n' := by
  induction text generalizing p with
  | nil => rfl
  | cons c cs ih =>
    rw [advance_cons, ih, List.count_cons]
    simp only [next, beq_iff_eq]
    split <;> omega

theorem spanTo_after (before text : List Char) :
    (origin.advance before).spanTo ((origin.advance before).advance text) =
      Span.after before text := by
  rw [← advance_append, spanTo, offset_after, offset_after, line_after]
  rfl

end Position

/-! ## Matches and their tokens -/

/-- Longest matches, one after the other from the head of a text, and what is left
after them. -/
inductive Munch : List Char → List Match → List Char → Prop
  | done (text : List Char) : Munch text [] text
  | next {m : Match} {more : List Char} {ms : List Match} {rest : List Char} :
    m.Longest (m.text ++ more) → Munch more ms rest → Munch (m.text ++ more) (m :: ms) rest

/-- The tokens of matches that stand after some text. -/
inductive TokensOf : List Char → List Match → Tokens → Prop
  | nil {before : List Char} : TokensOf before [] []
  | skip {before : List Char} {m : Match} {ms : List Match} {ts : Tokens} :
    m.pattern.Skipped → TokensOf (before ++ m.text) ms ts → TokensOf before (m :: ms) ts
  | token {before : List Char} {m : Match} {t : Token} {ms : List Match} {ts : Tokens} :
    m.Denotes t → TokensOf (before ++ m.text) ms ts →
    TokensOf before (m :: ms) ((t, Span.after before m.text) :: ts)

/-- The text that some matches take. -/
def Match.texts (ms : List Match) : List Char := ms.flatMap Match.text

@[simp] theorem Match.texts_nil : texts [] = [] := rfl

@[simp] theorem Match.texts_cons (m : Match) (ms : List Match) :
    texts (m :: ms) = m.text ++ texts ms := rfl

@[simp] theorem Match.texts_append (ms ns : List Match) :
    texts (ms ++ ns) = texts ms ++ texts ns := by
  simp [texts]

/-- Where reading stops short of the end: the message and the stretch that it is
about. -/
inductive Stuck (before : List Char) : List Char → String → Span → Prop
  | outOfRange {digits rest : List Char} :
    Match.Longest ⟨.digits, digits⟩ (digits ++ rest) → OutOfRange digits →
    Stuck before (digits ++ rest) ("integer literal out of range: " ++ String.ofList digits)
      (Span.after before digits)
  | unexpected {c : Char} {rest : List Char} :
    (∀ m : Match, ¬ m.At (c :: rest)) → c ≠ '"' →
    Stuck before (c :: rest) ("unexpected character: " ++ Text.quote (String.ofList [c]))
      (Span.after before [c])
  /-- A string that is not closed before the end of its line. -/
  | unclosed {line rest : List Char} :
    (∀ m : Match, ¬ m.At ('"' :: (line ++ rest))) → '\n' ∉ line → (∀ d ∈ rest.head?, d = '\n') →
    Stuck before ('"' :: (line ++ rest))
      ("unexpected character: " ++ Text.quote (String.ofList ('"' :: line)))
      (Span.after before ('"' :: line))

/-! ## From matches to tokens -/

namespace Match.Longest

variable {m : Match} {more : List Char}

theorem exists_first (h : m.Longest (m.text ++ more)) : ∃ c cs, m.text = c :: cs ∧
    Lexeme.first c (cs ++ more) = ⟨m.reading, m.text, more⟩ := by
  obtain ⟨p, text⟩ := m
  obtain ⟨c, cs, rfl⟩ := List.exists_cons_of_ne_nil h.here.matched.ne_nil
  exact ⟨c, cs, rfl, Lexeme.first_of_longest h⟩

/-- A match is skipped where something else stands after it, if that starts alike. -/
theorem tokensFrom_skip (h : m.Longest (m.text ++ more)) (hskip : m.pattern.Skipped)
    {rest : List Char} (hhead : rest.head? = more.head?) (p : Position) :
    tokensFrom p (m.text ++ rest) = tokensFrom (p.advance m.text) rest := by
  obtain ⟨c, cs, htext, hfirst⟩ := h.exists_first
  have hreading : (Lexeme.first c (cs ++ more)).reading = .skip := by
    rw [hfirst, Match.reading_eq_skip_iff.2 hskip]
  have hsame : rest.head? = (Lexeme.first c (cs ++ more)).rest.head? := by
    rw [hfirst, hhead]
  have hread := tokensFrom_append_of_skip hreading hsame p
  rwa [hfirst] at hread

/-- A match is a token where something else stands after it, if that starts alike or
with nothing that a token goes on with. -/
theorem tokensFrom_token (h : m.Longest (m.text ++ more)) {t : Token} (ht : m.Denotes t)
    {rest : List Char} (hhead : rest.head? = more.head? ∨ Fenced rest) (p : Position) :
    tokensFrom p (m.text ++ rest) = (tokensFrom (p.advance m.text) rest).map
      ((t, p.spanTo (p.advance m.text)) :: ·) := by
  obtain ⟨c, cs, htext, hfirst⟩ := h.exists_first
  have hreading : (Lexeme.first c (cs ++ more)).reading = .token t := by
    rw [hfirst, Match.reading_eq_token_iff.2 ht]
  have hsame : rest.head? = (Lexeme.first c (cs ++ more)).rest.head? ∨ Fenced rest := by
    rwa [hfirst]
  have hread := tokensFrom_append_of_token hreading hsame p
  rwa [hfirst] at hread

end Match.Longest

theorem Munch.head?_append {text rest more : List Char} {ms : List Match}
    (h : Munch text ms rest) (hhead : (rest ++ more).head? = rest.head?) :
    (text ++ more).head? = text.head? := by
  cases h with
  | done => exact hhead
  | next hm _ =>
    obtain ⟨c, cs, htext, -⟩ := hm.exists_first
    simp [htext]

/-- The tokens of matches are read off the text that they take, and then those of the
text after it, also where it goes on further than it did. -/
theorem Munch.tokensFrom_append {text rest : List Char} {ms : List Match}
    (h : Munch text ms rest) {before : List Char} {ts : Tokens} (hts : TokensOf before ms ts)
    {more : List Char} (hhead : (rest ++ more).head? = rest.head?) :
    tokensFrom (Position.origin.advance before) (text ++ more) =
      (tokensFrom (Position.origin.advance (before ++ Match.texts ms)) (rest ++ more)).map
        (ts ++ ·) := by
  induction h generalizing before ts with
  | done text =>
    cases hts
    simp only [Match.texts_nil, List.append_nil]
    cases tokensFrom (Position.origin.advance before) (text ++ more) <;> rfl
  | @next m text ms rest hm hms ih =>
    have hsame := hms.head?_append hhead
    rw [List.append_assoc]
    cases hts with
    | skip hskip hts =>
      rw [hm.tokensFrom_skip hskip hsame, ← Position.advance_append, ih hts hhead,
        List.append_assoc, Match.texts_cons]
    | token ht hts =>
      rw [hm.tokensFrom_token ht (.inl hsame), Position.spanTo_after, ← Position.advance_append,
        ih hts hhead, List.append_assoc, Match.texts_cons]
      cases tokensFrom (Position.origin.advance (before ++ (m.text ++ Match.texts ms)))
        (rest ++ more) <;> rfl

theorem Munch.tokensFrom_eq {text rest : List Char} {ms : List Match} (h : Munch text ms rest)
    {ts : Tokens} (hts : TokensOf [] ms ts) : tokensFrom .origin text =
      (tokensFrom (Position.origin.advance (Match.texts ms)) rest).map (ts ++ ·) := by
  have hhead : (rest ++ []).head? = rest.head? := by
    rw [List.append_nil]
  have happend := h.tokensFrom_append hts hhead
  rwa [List.append_nil, List.append_nil, List.nil_append] at happend

theorem Stuck.exists_error {before text : List Char} {message : String} {span : Span}
    (h : Stuck before text message span) :
    ∃ e, tokensFrom (Position.origin.advance before) text = .error e ∧ e.message = message ∧
      e.span = span := by
  cases h with
  | @outOfRange digits rest hdigits hrange =>
    obtain ⟨c, cs, htext, hfirst⟩ := hdigits.exists_first
    obtain rfl : digits = c :: cs := htext
    have hreading : (Lexeme.first c (cs ++ rest)).reading = .fault .outOfRange := by
      rw [hfirst, Match.reading_eq_fault_iff]
      exact ⟨rfl, rfl, hrange⟩
    refine ⟨_, tokensFrom_of_fault hreading _, ?_, ?_⟩
    · rw [hfirst]
      rfl
    · rw [hfirst]
      exact Position.spanTo_after ..
  | unexpected hnone hc =>
    have hreading := Lexeme.unexpected_of_not_at hnone
    refine ⟨_, tokensFrom_of_fault hreading _, ?_, ?_⟩
    · rw [Lexeme.first_of_unexpected hreading hc]
      rfl
    · rw [Lexeme.first_of_unexpected hreading hc]
      exact Position.spanTo_after ..
  | unclosed hnone hline hrest =>
    have hfirst := Lexeme.first_of_unclosed hnone hline hrest
    have hreading := Lexeme.unexpected_of_not_at hnone
    refine ⟨_, tokensFrom_of_fault hreading _, ?_, ?_⟩
    · rw [hfirst]
      rfl
    · rw [hfirst]
      exact Position.spanTo_after ..

/-! ## From a text to matches -/

theorem exists_stuck (before : List Char) {c : Char} {cs : List Char} {f : LexFault}
    (h : (Lexeme.first c cs).reading = .fault f) :
    ∃ message span, Stuck before (c :: cs) message span := by
  cases f with
  | outOfRange =>
    have hfound : (Lexeme.first c cs).reading ≠ .fault .unexpected := by
      simp [h]
    obtain ⟨⟨p, text⟩, rest, hm, hwhole, hfirst⟩ := Lexeme.exists_longest hfound
    rw [hfirst] at h
    obtain ⟨hdigits, -, hrange⟩ := Match.reading_eq_fault_iff.1 h
    obtain rfl : p = .digits := hdigits
    rw [← hwhole] at hm ⊢
    exact ⟨_, _, .outOfRange hm hrange⟩
  | unexpected =>
    have hnone := Lexeme.not_at_of_unexpected h
    by_cases hc : c = '"'
    · subst hc
      obtain ⟨line, rest, rfl, hline, hrest⟩ := Lexeme.exists_of_unclosed h
      exact ⟨_, _, .unclosed hnone hline hrest⟩
    · exact ⟨_, _, .unexpected hnone hc⟩

/-- Every text is read match by match, up to its end or to where reading stops. -/
theorem exists_munch (before text : List Char) : ∃ ms ts rest,
    Munch text ms rest ∧ TokensOf before ms ts ∧
      (rest = [] ∨ ∃ message span, Stuck (before ++ Match.texts ms) rest message span) := by
  induction hn : text.length using Nat.strongRecOn generalizing before text with
  | ind n ih =>
    cases text with
    | nil => exact ⟨[], [], [], .done [], .nil, .inl rfl⟩
    | cons c cs =>
      by_cases hfault : ∃ f, (Lexeme.first c cs).reading = .fault f
      · obtain ⟨f, hf⟩ := hfault
        obtain ⟨message, span, hstuck⟩ := exists_stuck before hf
        refine ⟨[], [], c :: cs, .done _, .nil, .inr ⟨message, span, ?_⟩⟩
        simpa using hstuck
      · obtain ⟨m, rest, hm, hwhole, hfirst⟩ :=
          Lexeme.exists_longest fun h => hfault ⟨.unexpected, h⟩
        have hlength := congrArg List.length hwhole
        have hpos := List.length_pos_iff.2 hm.here.matched.ne_nil
        rw [List.length_append] at hlength
        obtain ⟨ms, ts, rest', hms, hts, hend⟩ :=
          ih rest.length (by omega) (before ++ m.text) rest rfl
        have hmunch : Munch (c :: cs) (m :: ms) rest' := by
          rw [← hwhole] at hm ⊢
          exact .next hm hms
        rw [List.append_assoc, ← Match.texts_cons] at hend
        cases hreading : m.reading with
        | skip => exact ⟨_, _, _, hmunch, .skip (Match.reading_eq_skip_iff.1 hreading) hts, hend⟩
        | token t =>
          exact ⟨_, _, _, hmunch, .token (Match.reading_eq_token_iff.1 hreading) hts, hend⟩
        | fault f => exact absurd ⟨f, by rw [hfirst, hreading]⟩ hfault

/-! ## What stands between tokens -/

/-- A text of nothing but blanks and comments. -/
inductive Filler : List Char → Prop
  | nil : Filler []
  | next {p : Pattern} {text rest : List Char} :
    p.Skipped → p.Matches text → Filler rest → Filler (text ++ rest)

theorem Munch.texts_append {text rest : List Char} {ms : List Match} (h : Munch text ms rest) :
    Match.texts ms ++ rest = text := by
  induction h with
  | done text => rfl
  | next _ _ ih => rw [Match.texts_cons, List.append_assoc, ih]

theorem Munch.matched {text rest : List Char} {ms : List Match} (h : Munch text ms rest) :
    ∀ m ∈ ms, m.pattern.Matches m.text := by
  induction h with
  | done text => simp
  | next hm _ ih => exact List.forall_mem_cons.2 ⟨hm.here.matched, ih⟩

theorem filler_texts {ms : List Match} (hms : ∀ m ∈ ms, m.pattern.Matches m.text)
    (hskip : ∀ m ∈ ms, m.pattern.Skipped) : Filler (Match.texts ms) := by
  induction ms with
  | nil => exact .nil
  | cons m ms ih =>
    obtain ⟨hm, hms⟩ := List.forall_mem_cons.1 hms
    obtain ⟨hmskip, hskip⟩ := List.forall_mem_cons.1 hskip
    exact .next hmskip hm (ih hms hskip)

namespace TokensOf

variable {before : List Char} {ms : List Match} {us vs : Tokens}

/-- Up to the first token, or to the end if there is none, all matches are skipped. -/
theorem exists_gap (h : TokensOf before ms vs) : ∃ gap right, ms = gap ++ right ∧
    (∀ m ∈ gap, m.pattern.Skipped) ∧
    (vs.head?.map (·.2.start)).getD (String.ofList (before ++ Match.texts ms)).utf8ByteSize =
      (String.ofList (before ++ Match.texts gap)).utf8ByteSize := by
  induction h with
  | nil => exact ⟨[], [], rfl, by simp, rfl⟩
  | @skip before m ms ts hskip _ ih =>
    obtain ⟨gap, right, rfl, hgap, hstart⟩ := ih
    refine ⟨m :: gap, right, rfl, List.forall_mem_cons.2 ⟨hskip, hgap⟩, ?_⟩
    rw [List.append_assoc, List.append_assoc] at hstart
    exact hstart
  | @token before m t ms ts _ _ _ =>
    refine ⟨[], m :: ms, rfl, by simp, ?_⟩
    simp [Span.after]

/-- The last of the first tokens ends where the matches of the others start. -/
theorem exists_split (h : TokensOf before ms (us ++ vs)) (hne : us ≠ []) : ∃ left right,
    ms = left ++ right ∧ TokensOf (before ++ Match.texts left) right vs ∧
      (closing us).stop = (String.ofList (before ++ Match.texts left)).utf8ByteSize := by
  generalize hts : us ++ vs = ts at h
  induction h generalizing us with
  | nil => simp [hne] at hts
  | @skip before m ms ts _ _ ih =>
    obtain ⟨left, right, rfl, htokens, hstop⟩ := ih hne hts
    rw [List.append_assoc] at htokens hstop
    exact ⟨m :: left, right, rfl, htokens, hstop⟩
  | @token before m t ms ts _ hrest ih =>
    obtain ⟨u, us, rfl⟩ := List.exists_cons_of_ne_nil hne
    obtain ⟨rfl, rfl⟩ := List.cons.inj hts
    by_cases hus : us = []
    · subst hus
      refine ⟨[m], ms, rfl, ?_, ?_⟩
      · simpa using hrest
      · simp [Span.after]
    · obtain ⟨left, right, rfl, htokens, hstop⟩ := ih hus rfl
      rw [List.append_assoc] at htokens hstop
      refine ⟨m :: left, right, rfl, htokens, ?_⟩
      rw [Grammar.closing_cons _ hus]
      exact hstop

end TokensOf

/-- Before, between and after the tokens of a source stands nothing but filler. -/
theorem exists_filler {source : String} {ms : List Match} (hms : Munch source.toList ms [])
    {us vs : Tokens} (hts : TokensOf [] ms (us ++ vs)) : ∃ left gap right : String,
      source = left ++ gap ++ right ∧ Filler gap.toList ∧
      left.utf8ByteSize = (closing us).stop ∧
      (left ++ gap).utf8ByteSize = (vs.head?.map (·.2.start)).getD source.utf8ByteSize := by
  obtain ⟨left, rest, rfl, hrest, hstop⟩ : ∃ left rest, ms = left ++ rest ∧
      TokensOf (Match.texts left) rest vs ∧
      (closing us).stop = (String.ofList (Match.texts left)).utf8ByteSize := by
    by_cases hus : us = []
    · subst hus
      exact ⟨[], ms, rfl, hts, rfl⟩
    · exact hts.exists_split hus
  obtain ⟨gap, right, rfl, hgap, hstart⟩ := hrest.exists_gap
  have hmatched := (List.forall_mem_append.1 (List.forall_mem_append.1 hms.matched).2).1
  have hwhole : source = String.ofList (Match.texts left) ++ String.ofList (Match.texts gap) ++
      String.ofList (Match.texts right) := by
    rw [← String.ofList_append, ← String.ofList_append, List.append_assoc,
      ← Match.texts_append, ← Match.texts_append, ← List.append_nil (Match.texts _),
      hms.texts_append, String.ofList_toList]
  refine ⟨_, _, _, hwhole, ?_, hstop.symm, ?_⟩
  · rw [String.toList_ofList]
    exact filler_texts hmatched hgap
  · rw [← String.ofList_append, ← hstart, Match.texts_append, String.ofList_append,
      String.ofList_append, ← String.append_assoc, ← hwhole]

/-! ## Sources -/

theorem tokenize_of_munch {source : String} {ms : List Match} {ts : Tokens}
    (hms : Munch source.toList ms []) (hts : TokensOf [] ms ts) : tokenize source = .ok ts := by
  rw [tokenize, hms.tokensFrom_eq hts, tokensFrom, Except.map, List.append_nil]

theorem tokenize_of_stuck {source : String} {ms : List Match} {ts : Tokens} {rest : List Char}
    {message : String} {span : Span} (hms : Munch source.toList ms rest) (hts : TokensOf [] ms ts)
    (hstuck : Stuck (Match.texts ms) rest message span) :
    ∃ e, tokenize source = .error e ∧ e.message = message ∧ e.span = span := by
  obtain ⟨e, he, hmessage, hspan⟩ := hstuck.exists_error
  refine ⟨e, ?_, hmessage, hspan⟩
  rw [tokenize, hms.tokensFrom_eq hts, he]
  rfl

theorem exists_munch_of_tokenize {source : String} {ts : Tokens} (h : tokenize source = .ok ts) :
    ∃ ms, Munch source.toList ms [] ∧ TokensOf [] ms ts := by
  obtain ⟨ms, us, rest, hms, hus, rfl | ⟨message, span, hstuck⟩⟩ := exists_munch [] source.toList
  · have hsame := tokenize_of_munch hms hus
    cases h.symm.trans hsame
    exact ⟨ms, hms, hus⟩
  · obtain ⟨e, he, -⟩ := tokenize_of_stuck hms hus hstuck
    cases h.symm.trans he

/-- A source is read from left to right, the longest match at every place. Its tokens
are the matches that are no blanks and no comments, each where it stands, with nothing
but blanks and comments around them. Reading fails just at the first place that has no
match or digits out of range. -/
theorem tokenize_takes_longest (source : String) :
    (∀ ts, tokenize source = .ok ts ↔ ∃ ms, Munch source.toList ms [] ∧ TokensOf [] ms ts) ∧
    (∀ message span, (∃ e, tokenize source = .error e ∧ e.message = message ∧ e.span = span) ↔
      ∃ ms ts rest, Munch source.toList ms rest ∧ TokensOf [] ms ts ∧
        Stuck (Match.texts ms) rest message span) ∧
    ∀ us vs, tokenize source = .ok (us ++ vs) → Ascending (us ++ vs) ∧
      ∃ left gap right : String, source = left ++ gap ++ right ∧ Filler gap.toList ∧
        left.utf8ByteSize = (closing us).stop ∧
        (left ++ gap).utf8ByteSize = (vs.head?.map (·.2.start)).getD source.utf8ByteSize := by
  refine ⟨?_, ?_, ?_⟩
  · intro ts
    refine ⟨exists_munch_of_tokenize, ?_⟩
    rintro ⟨ms, hms, hts⟩
    exact tokenize_of_munch hms hts
  · intro message span
    constructor
    · rintro ⟨e, he, rfl, rfl⟩
      obtain ⟨ms, ts, rest, hms, hts, rfl | ⟨message, span, hstuck⟩⟩ :=
        exists_munch [] source.toList
      · cases he.symm.trans (tokenize_of_munch hms hts)
      · obtain ⟨e', he', rfl, rfl⟩ := tokenize_of_stuck hms hts hstuck
        cases he.symm.trans he'
        exact ⟨ms, ts, rest, hms, hts, hstuck⟩
    · rintro ⟨ms, ts, rest, hms, hts, hstuck⟩
      exact tokenize_of_stuck hms hts hstuck
  · intro us vs h
    obtain ⟨ms, hms, hts⟩ := exists_munch_of_tokenize h
    exact ⟨ascending_of_tokenize h, exists_filler hms hts⟩

end Scriptlet
