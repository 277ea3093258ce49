-- Tokens written out. The tokens that a text can have are those with a text of
-- their own that reads as them, and texts of tokens with a blank between two
-- read as these tokens again.
import Mathlib
import Scriptlet.Proofs.Lexing.Surroundings

namespace Scriptlet

open Grammar (Tokens)

/-! ## What tokens carry -/

/-- A letter or underscore, then letters, digits and underscores, and no keyword. -/
structure IsName (name : String) : Prop where
  chars : ∃ c cs, name.toList = c :: cs ∧ (c.isAlpha = true ∨ c = '_') ∧
    ∀ d ∈ cs, d.isAlpha = true ∨ d.isDigit = true ∨ d = '_'
  not_keyword : ∀ s ∈ Symbol.keywords, name ≠ s.spelling

/-- A quote, then characters other than quotes and line feeds, and a quote. -/
def IsStringLiteral (raw : String) : Prop :=
  ∃ body, raw.toList = '"' :: (body ++ ['"']) ∧ ∀ c ∈ body, c ≠ '"' ∧ c ≠ '\n'

/-- Whether some text has this token. -/
def Token.Written : Token → Prop
  | symbol _ => True
  | int n => 0 ≤ n.toInt
  | str raw => IsStringLiteral raw
  | ident name => IsName name

theorem isNameStart_iff {c : Char} : isNameStart c = true ↔ c.isAlpha = true ∨ c = '_' := by
  simp [isNameStart]

theorem isNameChar_iff {c : Char} :
    isNameChar c = true ↔ c.isAlpha = true ∨ c.isDigit = true ∨ c = '_' := by
  simp only [isNameChar, Bool.or_eq_true, isNameStart_iff, or_assoc, or_comm (a := c = '_')]

theorem isStringChar_iff {c : Char} : isStringChar c = true ↔ c ≠ '"' ∧ c ≠ '\n' := by
  simp [isStringChar]

theorem Symbol.keyword?_eq_none {word : List Char} :
    keyword? word = none ↔ ∀ s ∈ keywords, word ≠ s.spelling.toList := by
  simp [keyword?, eq_comm (a := word)]

/-! ## Reading gives such tokens -/

namespace Lexeme

theorem written_of_number {digits : List Char} {t : Token} (h : number digits = .token t) :
    t.Written := by
  unfold number at h
  split at h
  · next n hn =>
    cases h
    have := toInt_of_integer? hn
    simp only [Token.Written, this]
    omega
  · cases h

theorem written_of_word {c : Char} {cs : List Char} {t : Token} (hc : isNameStart c = true)
    (h : word (c :: cs.takeWhile isNameChar) = .token t) : t.Written := by
  unfold word at h
  split at h
  · cases h
    trivial
  · next hnone =>
    cases h
    refine ⟨⟨c, cs.takeWhile isNameChar, String.toList_ofList, isNameStart_iff.1 hc, ?_⟩, ?_⟩
    · intro d hd
      exact isNameChar_iff.1 (List.all_eq_true.1 List.all_takeWhile d hd)
    · intro s hs heq
      apply Symbol.keyword?_eq_none.1 hnone s hs
      rw [← heq, String.toList_ofList]

theorem written_of_string {cs : List Char} {t : Token} (h : (string cs).reading = .token t) :
    t.Written := by
  unfold string at h
  split at h
  · cases h
    refine ⟨cs.takeWhile isStringChar, String.toList_ofList, ?_⟩
    intro c hc
    exact isStringChar_iff.1 (List.all_eq_true.1 List.all_takeWhile c hc)
  · cases h

theorem written_of_first {c : Char} {cs : List Char} {t : Token}
    (h : (first c cs).reading = .token t) : t.Written := by
  rcases first_cases c cs with hc | ⟨rfl, hcs⟩ | hc | hc | rfl | hmark
  · rw [first_of_isBlank hc] at h
    cases h
  · rw [first_comment hcs] at h
    cases h
  · rw [first_of_isDigit hc] at h
    exact written_of_number h
  · rw [first_of_isNameStart hc] at h
    exact written_of_word hc h
  · exact written_of_string h
  · rw [hmark] at h
    obtain ⟨s, -, rfl⟩ := mark?_of_mark_token h
    trivial

end Lexeme

theorem written_of_tokensFrom {p : Position} {cs : List Char} {ts : Tokens}
    (h : tokensFrom p cs = .ok ts) : ∀ t ∈ ts, t.1.Written := by
  induction p, cs using text_induction generalizing ts with
  | nil p =>
    rw [tokensFrom] at h
    cases h
    simp
  | cons p c cs ih =>
    have hlength := Lexeme.length_rest_first c cs
    rcases hreading : (Lexeme.first c cs).reading with _ | t | f
    · rw [tokensFrom_of_skip hreading] at h
      exact ih _ _ hlength h
    · rw [tokensFrom_of_token hreading] at h
      obtain ⟨us, hus, rfl⟩ := exists_of_map_eq_ok h
      exact List.forall_mem_cons.2 ⟨Lexeme.written_of_first hreading, ih _ _ hlength hus⟩
    · rw [tokensFrom_of_fault hreading] at h
      cases h

/-! ## The text of a token reads as the token -/

namespace Lexeme

theorem run_all (r : List Char → Reading) {p : Char → Bool} (c : Char) {cs : List Char}
    (h : ∀ d ∈ cs, p d = true) : run r p c cs = ⟨r (c :: cs), c :: cs, []⟩ := by
  have htake : cs.takeWhile p = cs := List.takeWhile_eq_self_iff.2 h
  have hdrop : cs.dropWhile p = [] := List.dropWhile_eq_nil_iff.2 h
  unfold run
  rw [htake, hdrop]

end Lexeme

theorem Token.first_text {t : Token} (h : t.Written) :
    ∃ c cs, t.text.toList = c :: cs ∧ Lexeme.first c cs = ⟨.token t, c :: cs, []⟩ := by
  cases t with
  | symbol s => cases s <;> exact ⟨_, _, rfl, by cbv⟩
  | int n =>
    have hn : 0 ≤ n.toInt := h
    have htext : (toString n.toInt).toList = Nat.toDigits 10 n.toInt.toNat := by
      rw [Int.toString_eq_repr, Int.repr_eq_if, if_pos hn, Nat.toList_repr]
    obtain ⟨c, cs, hdigits⟩ := List.exists_cons_of_ne_nil (Nat.toDigits_ne_nil (n := n.toInt.toNat)
      (b := 10))
    have hall : ∀ d ∈ c :: cs, d.isDigit = true := by
      intro d hd
      rw [← hdigits] at hd
      exact Nat.isDigit_of_mem_toDigits (by decide) (by decide) hd
    obtain ⟨hc, hcs⟩ := List.forall_mem_cons.1 hall
    have hvalue : (Nat.ofDigitChars 10 (c :: cs) 0 : Int) = n.toInt := by
      rw [← hdigits, Nat.ofDigitChars_toDigits (by decide) (by decide), Int.toNat_of_nonneg hn]
    refine ⟨c, cs, htext.trans hdigits, ?_⟩
    rw [Lexeme.first_of_isDigit hc, Lexeme.run_all _ c hcs, Lexeme.number, hvalue, integer?_toInt]
  | str raw =>
    obtain ⟨body, hraw, hbody⟩ := h
    have hall : ∀ c ∈ body, isStringChar c = true := by
      intro c hc
      exact isStringChar_iff.2 (hbody c hc)
    refine ⟨'"', body ++ ['"'], hraw, ?_⟩
    rw [Lexeme.first_quote, Lexeme.string, List.takeWhile_append_of_pos hall,
      List.dropWhile_append_of_pos hall]
    simp [isStringChar, ← hraw]
  | ident name =>
    obtain ⟨⟨c, cs, hname, hc, hcs⟩, hkeyword⟩ := h
    refine ⟨c, cs, hname, ?_⟩
    have hnone : Symbol.keyword? (c :: cs) = none := by
      rw [Symbol.keyword?_eq_none, ← hname]
      intro s hs heq
      exact hkeyword s hs (String.toList_inj.1 heq)
    rw [Lexeme.first_of_isNameStart (isNameStart_iff.2 hc),
      Lexeme.run_all _ c fun d hd => isNameChar_iff.2 (hcs d hd), Lexeme.word, hnone, ← hname,
      String.ofList_toList]

/-- The text of a token is one token, unless what follows goes on with it. -/
theorem tokensFrom_text {t : Token} (h : t.Written) {rest : List Char} (hrest : Fenced rest)
    (p : Position) : tokensFrom p (t.text.toList ++ rest) =
      (tokensFrom (p.advance t.text.toList) rest).map
        ((t, p.spanTo (p.advance t.text.toList)) :: ·) := by
  obtain ⟨c, cs, htext, hfirst⟩ := t.first_text h
  have happend : tokensFrom p ((Lexeme.first c cs).text ++ rest) = _ :=
    tokensFrom_append_of_token (t := t) (by rw [hfirst]) (.inr hrest) p
  rw [hfirst, ← htext] at happend
  exact happend

/-! ## Texts of many tokens -/

/-- Wherever the text stands, up to something that no token goes on with, it is
read as tokens of which `P` holds. -/
def ReadsAs (text : List Char) (P : Tokens → Prop) : Prop :=
  ∀ (p : Position) (rest : List Char), 1 ≤ p.line → Fenced rest →
    ∃ us, P us ∧ tokensFrom p (text ++ rest) =
      (tokensFrom (p.advance text) rest).map (us ++ ·)

/-- Tokens of which `P` holds, and then tokens of which `Q` holds. -/
def Followed (P Q : Tokens → Prop) (ts : Tokens) : Prop :=
  ∃ us vs, P us ∧ Q vs ∧ us ++ vs = ts

/-- The token, wherever it stands, and nothing else. -/
def Token.Alone (t : Token) (ts : Tokens) : Prop := ∃ a, ts = [(t, a)]

theorem Token.Written.readsAs {t : Token} (h : t.Written) : ReadsAs t.text.toList t.Alone := by
  intro p rest _ hrest
  exact ⟨_, ⟨_, rfl⟩, tokensFrom_text h hrest p⟩

theorem ReadsAs.mono {text : List Char} {P Q : Tokens → Prop} (h : ReadsAs text P)
    (hPQ : ∀ us, P us → Q us) : ReadsAs text Q := by
  intro p rest hline hrest
  obtain ⟨us, hus, htokens⟩ := h p rest hline hrest
  exact ⟨us, hPQ us hus, htokens⟩

theorem ReadsAs.append {xs ys : List Char} {P Q : Tokens → Prop} (hxs : ReadsAs xs P)
    (hys : ReadsAs ys Q) (hfenced : ∀ rest, Fenced rest → Fenced (ys ++ rest)) :
    ReadsAs (xs ++ ys) (Followed P Q) := by
  intro p rest hline hrest
  have hline' : 1 ≤ (p.advance xs).line := by
    rw [Position.line_advance]
    omega
  obtain ⟨us, hus, htokens⟩ := hxs p (ys ++ rest) hline (hfenced rest hrest)
  obtain ⟨vs, hvs, htokens'⟩ := hys (p.advance xs) rest hline' hrest
  refine ⟨us ++ vs, ⟨us, vs, hus, hvs, rfl⟩, ?_⟩
  rw [List.append_assoc, htokens, htokens', Position.advance_append]
  cases tokensFrom ((p.advance xs).advance ys) rest with
  | error e => rfl
  | ok ws => exact congrArg Except.ok (List.append_assoc us vs ws).symm

theorem ReadsAs.space {text : List Char} {P : Tokens → Prop} (h : ReadsAs text P) :
    ReadsAs (' ' :: text) P := by
  intro p rest hline hrest
  obtain ⟨us, hus, htokens⟩ := h (p.next ' ') rest (by simpa [Position.next] using hline) hrest
  exact ⟨us, hus, (tokensFrom_blank rfl p _).trans htokens⟩

theorem ReadsAs.append_space {xs ys : List Char} {P Q : Tokens → Prop} (hxs : ReadsAs xs P)
    (hys : ReadsAs ys Q) : ReadsAs (xs ++ ' ' :: ys) (Followed P Q) :=
  hxs.append hys.space fun _ _ => fenced_of_isBlank rfl _

theorem ReadsAs.exists_tokenize {text : String} {P : Tokens → Prop}
    (h : ReadsAs text.toList P) : ∃ us, tokenize text = .ok us ∧ P us := by
  obtain ⟨us, hus, htokens⟩ := h .origin [] (by decide) fenced_nil
  refine ⟨us, ?_, hus⟩
  rw [List.append_nil, tokensFrom] at htokens
  rw [tokenize, htokens, Except.map, List.append_nil]

/-- The texts of some tokens with a space between two. -/
def Token.joined (ts : List Token) : String := " ".intercalate (ts.map Token.text)

theorem readsAs_joined {ts : List Token} (h : ∀ t ∈ ts, t.Written) :
    ReadsAs (Token.joined ts).toList fun us => us.map Prod.fst = ts := by
  induction ts with
  | nil =>
    intro p rest _ _
    refine ⟨[], rfl, ?_⟩
    simp only [Token.joined, List.map_nil, String.intercalate_nil, String.toList_empty,
      List.nil_append, Position.advance_nil]
    cases tokensFrom p rest <;> rfl
  | cons t ts ih =>
    obtain ⟨ht, hts⟩ := List.forall_mem_cons.1 h
    cases ts with
    | nil =>
      have htext : (Token.joined [t]).toList = t.text.toList := by
        rw [Token.joined, List.map_singleton, String.intercalate_singleton]
      rw [htext]
      refine ht.readsAs.mono ?_
      rintro us ⟨a, rfl⟩
      rfl
    | cons u ts =>
      have htext : (Token.joined (t :: u :: ts)).toList =
          t.text.toList ++ ' ' :: (Token.joined (u :: ts)).toList := by
        simp only [Token.joined, List.map_cons, String.intercalate_cons_cons, String.toList_append]
        simp
      rw [htext]
      refine (ht.readsAs.append_space (ih hts)).mono ?_
      rintro us ⟨_, vs, ⟨a, rfl⟩, hvs, rfl⟩
      rw [List.singleton_append, List.map_cons, hvs]

/-- The tokens of a source, written out with a space between two, are its tokens
again. -/
theorem tokenize_joined {source : String} {ts : Tokens} (h : tokenize source = .ok ts) :
    ∃ us, tokenize (Token.joined (ts.map Prod.fst)) = .ok us ∧
      us.map Prod.fst = ts.map Prod.fst := by
  have hwritten : ∀ t ∈ ts.map Prod.fst, t.Written := by
    intro t ht
    obtain ⟨u, hu, rfl⟩ := List.mem_map.1 ht
    exact written_of_tokensFrom h u hu
  exact (readsAs_joined hwritten).exists_tokenize

/-- Words that go on from keywords, leading zeros, and a string with what would be a
comment outside it. -/
theorem tokenize_joined_lookalikes :
    let source := "printer=007..forx// x\nprint\"a // b\"==in_;"
    ∃ ts us, tokenize source = .ok ts ∧ tokenize (Token.joined (ts.map Prod.fst)) = .ok us ∧
      us.map Prod.fst = ts.map Prod.fst := by
  intro source
  have hsource : tokenize source = .ok [(.ident "printer", ⟨0, 7, 1⟩),
    (.symbol .assign, ⟨7, 8, 1⟩), (.int 7, ⟨8, 11, 1⟩), (.symbol .range, ⟨11, 13, 1⟩),
    (.ident "forx", ⟨13, 17, 1⟩), (.symbol .print, ⟨22, 27, 2⟩), (.str "\"a // b\"", ⟨27, 35, 2⟩),
    (.symbol .equal, ⟨35, 37, 2⟩), (.ident "in_", ⟨37, 40, 2⟩),
    (.symbol .semicolon, ⟨40, 41, 2⟩)] := by cbv
  obtain ⟨us, hus, hsame⟩ := tokenize_joined hsource
  exact ⟨_, us, hsource, hus, hsame⟩

end Scriptlet
