-- Lexemes in other surroundings. What a lexeme is depends on its own text and on
-- the one character after it, so a piece cut out of a text has the same tokens
-- as it had there, also where something is put after it that no token goes on
-- with.
import Mathlib
import Scriptlet.Proofs.Lexing.LineBreak

namespace Scriptlet

open Grammar (Tokens)

/-! ## What ends a token -/

/-- Whether no token that stands before this text goes on in it. -/
def Fenced (rest : List Char) : Prop := ∀ c ∈ rest.head?, isNameChar c = false ∧ c ≠ '='

theorem fenced_nil : Fenced [] := by
  intro c hc
  cases hc

theorem fenced_cons {c : Char} (hc : isNameChar c = false ∧ c ≠ '=') (cs : List Char) :
    Fenced (c :: cs) := by
  intro d hd
  cases hd
  exact hc

theorem fenced_of_isBlank {c : Char} (hc : isBlank c = true) (cs : List Char) :
    Fenced (c :: cs) := by
  apply fenced_cons
  simp only [isBlank, Bool.or_eq_true, beq_iff_eq] at hc
  rcases hc with ((rfl | rfl) | rfl) | rfl <;> decide

theorem isDigit_of_not_isNameChar {c : Char} (h : isNameChar c = false) : c.isDigit = false := by
  unfold isNameChar at h
  exact (Bool.or_eq_false_iff.1 h).2

/-! ## Marks -/

namespace Symbol

theorem length_spelling_le {s : Symbol} (h : s ∈ marks) : s.spelling.toList.length ≤ 2 := by
  revert s
  decide

theorem isPrefixOf_congr {xs : List Char} (h : xs.length ≤ 2) (c : Char) {cs ds : List Char}
    (heq : cs.head? = ds.head?) : xs.isPrefixOf (c :: cs) = xs.isPrefixOf (c :: ds) := by
  match xs with
  | [] => rfl
  | [a] => simp [List.isPrefixOf]
  | [a, b] =>
    cases cs <;> cases ds <;> simp_all [List.isPrefixOf]
  | _ :: _ :: _ :: _ => simp at h

/-- A mark is told by two characters. -/
theorem mark?_congr (c : Char) {cs ds : List Char} (h : cs.head? = ds.head?) :
    mark? (c :: cs) = mark? (c :: ds) :=
  List.find?_congr fun _ hs => isPrefixOf_congr (length_spelling_le hs) c h

theorem mark?_eq_some {text : List Char} {s : Symbol} (h : mark? text = some s) :
    s ∈ marks ∧ s.spelling.toList <+: text :=
  ⟨List.mem_of_find?_eq_some h, List.isPrefixOf_iff_prefix.1
    (List.find?_some (p := fun s : Symbol => s.spelling.toList.isPrefixOf text) h)⟩

/-- The only marks of which one starts the other are `=` and `==`. -/
theorem mark?_spelling {s : Symbol} (hs : s ∈ marks) {rest : List Char} (h : Fenced rest) :
    mark? (s.spelling.toList ++ rest) = some s := by
  have heq : ['='].isPrefixOf rest = false := by
    cases rest with
    | nil => rfl
    | cons c cs =>
      have hc := (h c rfl).2
      simpa [List.isPrefixOf] using Ne.symm hc
  cases s <;> simp [marks] at hs <;> simp [mark?, marks, spelling, List.isPrefixOf, heq]

end Symbol

/-! ## The kinds of lexemes -/

theorem not_isDigit_of_isNameStart {c : Char} (h : isNameStart c = true) :
    c.isDigit = false := by
  unfold isNameStart at h
  rcases Bool.or_eq_true_iff.1 h with halpha | hunderscore
  · simp only [Char.isAlpha, Char.isUpper, Char.isLower, Char.isDigit] at halpha ⊢
    grind
  · rw [beq_iff_eq.1 hunderscore]
    rfl

namespace Lexeme

theorem first_of_isDigit {c : Char} (h : c.isDigit = true) (cs : List Char) :
    first c cs = run number Char.isDigit c cs := by
  have hblank : isBlank c = false := by
    by_contra hc
    simp only [isBlank, Bool.not_eq_false, Bool.or_eq_true, beq_iff_eq] at hc
    rcases hc with ((rfl | rfl) | rfl) | rfl <;> simp at h
  have hslash : c ≠ '/' := by
    rintro rfl
    simp at h
  simp [first, hblank, hslash, h]

theorem first_of_isNameStart {c : Char} (h : isNameStart c = true) (cs : List Char) :
    first c cs = run word isNameChar c cs := by
  have hblank : isBlank c = false := by
    by_contra hc
    simp only [isBlank, Bool.not_eq_false, Bool.or_eq_true, beq_iff_eq] at hc
    rcases hc with ((rfl | rfl) | rfl) | rfl <;> simp [isNameStart] at h
  have hslash : c ≠ '/' := by
    rintro rfl
    simp [isNameStart] at h
  simp [first, hblank, hslash, not_isDigit_of_isNameStart h, h]

theorem first_quote (cs : List Char) : first '"' cs = string cs := rfl

theorem first_of_mark? {c : Char} {cs : List Char} {s : Symbol}
    (h : Symbol.mark? (c :: cs) = some s) : first c cs = mark c cs := by
  obtain ⟨hs, hprefix⟩ := Symbol.mark?_eq_some h
  cases s <;> simp [Symbol.marks] at hs <;>
    simp [Symbol.spelling, List.cons_prefix_cons] at hprefix <;>
    obtain ⟨rfl, -⟩ := hprefix <;> rfl

theorem Splits.text_eq_cons {lexeme : Lexeme} {c : Char} {cs : List Char}
    (h : lexeme.Splits (c :: cs)) : lexeme.text = c :: lexeme.text.tail := by
  obtain ⟨d, ds, htext⟩ := List.exists_cons_of_ne_nil h.text_ne_nil
  have hwhole := h.whole
  rw [htext, List.cons_append, List.cons.injEq] at hwhole
  rw [htext, hwhole.1, List.tail_cons]

theorem Splits.tail_append_rest {lexeme : Lexeme} {c : Char} {cs : List Char}
    (h : lexeme.Splits (c :: cs)) : lexeme.text.tail ++ lexeme.rest = cs := by
  have hwhole := h.whole
  rw [h.text_eq_cons, List.cons_append, List.cons.injEq] at hwhole
  exact hwhole.2

theorem first_of_isBlank {c : Char} (h : isBlank c = true) (cs : List Char) :
    first c cs = run (fun _ => .skip) isBlank c cs := by
  simp [first, h]

theorem first_comment {cs : List Char} (h : cs.head? = some '/') :
    first '/' cs = run (fun _ => .skip) (· != '\n') '/' cs := by
  simp [first, isBlank, h]

/-- The character that a lexeme starts with tells its kind, but for a slash. -/
theorem first_cases (c : Char) (cs : List Char) :
    isBlank c = true ∨ (c = '/' ∧ cs.head? = some '/') ∨ c.isDigit = true ∨
      isNameStart c = true ∨ c = '"' ∨ first c cs = mark c cs := by
  unfold first
  by_cases hblank : isBlank c = true
  · exact .inl hblank
  by_cases hslash : c = '/' ∧ cs.head? = some '/'
  · exact .inr (.inl hslash)
  by_cases hdigit : c.isDigit = true
  · exact .inr (.inr (.inl hdigit))
  by_cases hname : isNameStart c = true
  · exact .inr (.inr (.inr (.inl hname)))
  by_cases hquote : c = '"'
  · exact .inr (.inr (.inr (.inr (.inl hquote))))
  · simp [hblank, hslash, hdigit, hname, hquote]

theorem number_ne_skip (digits : List Char) : number digits ≠ .skip := by
  unfold number
  split <;> simp

theorem word_ne_skip (text : List Char) : word text ≠ .skip := by
  unfold word
  split <;> simp

theorem string_ne_skip (cs : List Char) : (string cs).reading ≠ .skip := by
  unfold string
  split <;> simp

theorem mark_ne_skip (c : Char) (cs : List Char) : (mark c cs).reading ≠ .skip := by
  unfold mark
  split <;> simp

theorem mark?_of_mark_token {c : Char} {cs : List Char} {t : Token}
    (h : (mark c cs).reading = .token t) : ∃ s, Symbol.mark? (c :: cs) = some s ∧
      t = .symbol s := by
  unfold mark at h
  split at h
  · next s hs =>
    cases h
    exact ⟨s, hs, rfl⟩
  · cases h

theorem text_mark {c : Char} {cs : List Char} {s : Symbol}
    (h : Symbol.mark? (c :: cs) = some s) : (mark c cs).text = s.spelling.toList := by
  have heq := List.prefix_iff_eq_take.1 (Symbol.mark?_eq_some h).2
  rw [String.length_toList] at heq
  unfold mark
  rw [h]
  exact heq.symm

end Lexeme

/-! ## One lexeme with other text after it -/

theorem head?_append_congr (xs : List Char) {ys zs : List Char} (h : ys.head? = zs.head?) :
    (xs ++ ys).head? = (xs ++ zs).head? := by
  simp only [List.head?_append, h]

theorem takeWhile_takeWhile_append {p : Char → Bool} (cs : List Char) {rest : List Char}
    (h : ∀ d ∈ rest.head?, p d = false) :
    (cs.takeWhile p ++ rest).takeWhile p = cs.takeWhile p := by
  have hrest : rest.takeWhile p = [] := by
    cases rest with
    | nil => rfl
    | cons d rest => simp [h d rfl]
  rw [List.takeWhile_append_of_pos (List.all_eq_true.1 List.all_takeWhile), hrest,
    List.append_nil]

theorem dropWhile_takeWhile_append {p : Char → Bool} (cs : List Char) {rest : List Char}
    (h : ∀ d ∈ rest.head?, p d = false) : (cs.takeWhile p ++ rest).dropWhile p = rest := by
  have heq := List.takeWhile_append_dropWhile (p := p) (l := cs.takeWhile p ++ rest)
  rw [takeWhile_takeWhile_append cs h] at heq
  exact List.append_cancel_left heq

theorem not_of_head?_dropWhile {p : Char → Bool} {cs : List Char} :
    ∀ d ∈ (cs.dropWhile p).head?, p d = false := by
  intro d hd
  have := List.head?_dropWhile_not p cs
  rw [Option.mem_def.1 hd] at this
  simpa using this

namespace Lexeme

theorem run_append (r : List Char → Reading) {p : Char → Bool} (c : Char) (cs : List Char)
    {rest : List Char} (h : ∀ d ∈ rest.head?, p d = false) :
    run r p c (cs.takeWhile p ++ rest) = { run r p c cs with rest } := by
  unfold run
  rw [takeWhile_takeWhile_append cs h, dropWhile_takeWhile_append cs h]

/-- A string that is closed goes no further. -/
theorem string_append_of_token {cs : List Char} {t : Token} (h : (string cs).reading = .token t)
    (rest : List Char) : string ((string cs).text.tail ++ rest) = { string cs with rest } := by
  unfold string at h ⊢
  rcases hdrop : cs.dropWhile isStringChar with _ | ⟨d, after⟩
  · simp [hdrop] at h
  · by_cases hd : d = '"'
    · subst hd
      simp only [List.tail_cons, List.append_assoc]
      rw [takeWhile_takeWhile_append cs (by simp [isStringChar]),
        dropWhile_takeWhile_append cs (by simp [isStringChar])]
      rfl
    · simp [hdrop, hd] at h

theorem mark_append {c : Char} {cs rest : List Char}
    (h : Symbol.mark? (c :: ((mark c cs).text.tail ++ rest)) = Symbol.mark? (c :: cs)) :
    mark c ((mark c cs).text.tail ++ rest) = { mark c cs with rest } := by
  unfold mark at h ⊢
  rcases hs : Symbol.mark? (c :: cs) with _ | s
  · simp_all
  · have hle := (Symbol.mark?_eq_some hs).2.length_le
    have hpos := spelling_length_pos s
    obtain ⟨n, hn⟩ : ∃ n, s.spelling.length = n + 1 := ⟨_, (Nat.succ_pred_eq_of_pos hpos).symm⟩
    rw [String.length_toList, hn, List.length_cons] at hle
    simp only [hs, hn, List.take_succ_cons, List.tail_cons] at h ⊢
    simp only [h, hn, List.take_succ_cons, List.drop_succ_cons]
    rw [List.take_left' (by simp; omega), List.drop_left' (by simp; omega)]

/-- The character after a run is not one of its own. -/
theorem not_of_head?_run {r : List Char → Reading} {p : Char → Bool} {c : Char}
    {cs rest : List Char} (h : rest.head? = (run r p c cs).rest.head?) :
    ∀ d ∈ rest.head?, p d = false := by
  rw [h]
  exact not_of_head?_dropWhile

/-- A run of blanks or a comment, with the same character after it. -/
theorem first_append_of_skip {c : Char} {cs rest : List Char}
    (hskip : (first c cs).reading = .skip) (h : rest.head? = (first c cs).rest.head?) :
    first c ((first c cs).text.tail ++ rest) = { first c cs with rest } := by
  rcases first_cases c cs with hc | ⟨rfl, hcs⟩ | hc | hc | rfl | hmark
  · rw [first_of_isBlank hc] at h ⊢
    rw [first_of_isBlank hc]
    exact run_append _ c cs (not_of_head?_run h)
  · rw [first_comment hcs] at h ⊢
    have hhead : ((run (fun _ => .skip) (· != '\n') '/' cs).text.tail ++ rest).head? =
        some '/' := by
      cases cs with
      | nil => cases hcs
      | cons d cs =>
        cases hcs
        simp [run]
    rw [first_comment hhead]
    exact run_append _ '/' cs (not_of_head?_run h)
  · rw [first_of_isDigit hc] at hskip
    exact absurd hskip (number_ne_skip _)
  · rw [first_of_isNameStart hc] at hskip
    exact absurd hskip (word_ne_skip _)
  · rw [first_quote] at hskip
    exact absurd hskip (string_ne_skip _)
  · rw [hmark] at hskip
    exact absurd hskip (mark_ne_skip c cs)

/-- A token, with the same character after it or with a text in which it does not
go on. -/
theorem first_append_of_token {c : Char} {cs rest : List Char} {t : Token}
    (ht : (first c cs).reading = .token t)
    (h : rest.head? = (first c cs).rest.head? ∨ Fenced rest) :
    first c ((first c cs).text.tail ++ rest) = { first c cs with rest } := by
  rcases first_cases c cs with hc | ⟨rfl, hcs⟩ | hc | hc | rfl | hmark
  · rw [first_of_isBlank hc] at ht
    cases ht
  · rw [first_comment hcs] at ht
    cases ht
  · rw [first_of_isDigit hc] at h ⊢
    rw [first_of_isDigit hc]
    refine run_append _ c cs ?_
    rcases h with h | h
    · exact not_of_head?_run h
    · intro d hd
      exact isDigit_of_not_isNameChar (h d hd).1
  · rw [first_of_isNameStart hc] at h ⊢
    rw [first_of_isNameStart hc]
    refine run_append _ c cs ?_
    rcases h with h | h
    · exact not_of_head?_run h
    · intro d hd
      exact (h d hd).1
  · rw [first_quote] at ht ⊢
    rw [first_quote]
    exact string_append_of_token ht rest
  · rw [hmark] at ht h ⊢
    obtain ⟨s, hs, rfl⟩ := mark?_of_mark_token ht
    have hsplits := splits_mark c cs
    have hsame : Symbol.mark? (c :: ((mark c cs).text.tail ++ rest)) =
        Symbol.mark? (c :: cs) := by
      rcases h with h | h
      · refine Symbol.mark?_congr c ?_
        rw [head?_append_congr _ h, hsplits.tail_append_rest]
      · rw [← List.cons_append, ← hsplits.text_eq_cons, text_mark hs, hs]
        exact Symbol.mark?_spelling (Symbol.mark?_eq_some hs).1 h
    rw [first_of_mark? (hsame.trans hs)]
    exact mark_append hsame

end Lexeme

/-! ## Pieces of a text -/

theorem exists_of_map_eq_ok {ε α β : Type} {r : Except ε α} {f : α → β} {b : β}
    (h : r.map f = .ok b) : ∃ a, r = .ok a ∧ f a = b := by
  cases r with
  | error e => cases h
  | ok a =>
    cases h
    exact ⟨a, rfl, rfl⟩

/-- What is skipped is skipped where other text follows. -/
theorem tokensFrom_append_of_skip {c : Char} {cs rest : List Char}
    (hskip : (Lexeme.first c cs).reading = .skip)
    (h : rest.head? = (Lexeme.first c cs).rest.head?) (p : Position) :
    tokensFrom p ((Lexeme.first c cs).text ++ rest) =
      tokensFrom (p.advance (Lexeme.first c cs).text) rest := by
  have hfirst := Lexeme.first_append_of_skip hskip h
  rw [(Lexeme.splits_first c cs).text_eq_cons, List.cons_append,
    tokensFrom_of_skip (by rw [hfirst, hskip]), hfirst,
    ← (Lexeme.splits_first c cs).text_eq_cons]

/-- A token is read alike where other text follows. -/
theorem tokensFrom_append_of_token {c : Char} {cs rest : List Char} {t : Token}
    (ht : (Lexeme.first c cs).reading = .token t)
    (h : rest.head? = (Lexeme.first c cs).rest.head? ∨ Fenced rest) (p : Position) :
    tokensFrom p ((Lexeme.first c cs).text ++ rest) =
      (tokensFrom (p.advance (Lexeme.first c cs).text) rest).map
        ((t, p.spanTo (p.advance (Lexeme.first c cs).text)) :: ·) := by
  have hfirst := Lexeme.first_append_of_token ht h
  rw [(Lexeme.splits_first c cs).text_eq_cons, List.cons_append,
    tokensFrom_of_token (by rw [hfirst, ht]), hfirst, ← (Lexeme.splits_first c cs).text_eq_cons]

/-- Before a token stands a piece of the text, and from there on the text has the
token and those after it. -/
theorem exists_before_token {p : Position} {cs : List Char} {before after : Tokens}
    {t : Token × Span} (h : tokensFrom p cs = .ok (before ++ t :: after)) :
    ∃ left right, cs = left ++ right ∧ tokensFrom (p.advance left) right = .ok (t :: after) ∧
      t.2.start = (p.advance left).offset ∧ t.2.line = (p.advance left).line := by
  induction p, cs using text_induction generalizing before with
  | nil p =>
    rw [tokensFrom] at h
    simp at h
  | cons p c cs ih =>
    have hwhole := (Lexeme.splits_first c cs).whole
    have hlength := Lexeme.length_rest_first c cs
    rcases hreading : (Lexeme.first c cs).reading with _ | u | f
    · rw [tokensFrom_of_skip hreading] at h
      obtain ⟨left, right, hright, htokens, hplace⟩ := ih _ _ hlength h
      refine ⟨(Lexeme.first c cs).text ++ left, right, ?_, ?_⟩
      · rw [← hwhole, hright, List.append_assoc]
      · rw [Position.advance_append]
        exact ⟨htokens, hplace⟩
    · have htokens := h
      rw [tokensFrom_of_token hreading] at h
      obtain ⟨us, hus, heq⟩ := exists_of_map_eq_ok h
      rcases before with _ | ⟨b, before⟩
      · cases heq
        exact ⟨[], c :: cs, rfl, htokens, rfl, rfl⟩
      · cases heq
        obtain ⟨left, right, hright, htokens, hplace⟩ := ih _ _ hlength hus
        refine ⟨(Lexeme.first c cs).text ++ left, right, ?_, ?_⟩
        · rw [← hwhole, hright, List.append_assoc]
        · rw [Position.advance_append]
          exact ⟨htokens, hplace⟩
    · rw [tokensFrom_of_fault hreading] at h
      cases h

/-- Some tokens are all that a piece of the text has, and where it stands elsewhere
and other text is put after it they stay as they are. -/
theorem exists_piece {p : Position} {cs : List Char} {us after : Tokens} (hne : us ≠ [])
    (h : tokensFrom p cs = .ok (us ++ after)) :
    ∃ piece right, cs = piece ++ right ∧ piece ≠ [] ∧
      (p.advance piece).offset = (Grammar.closing us).stop ∧
      ∀ bytes lines rest, Fenced rest → tokensFrom (p.shift bytes lines) (piece ++ rest) =
        (tokensFrom ((p.shift bytes lines).advance piece) rest).map
          (Tokens.mapSpans (.shift bytes lines) us ++ ·) := by
  induction p, cs using text_induction generalizing us with
  | nil p =>
    rw [tokensFrom] at h
    simp [hne] at h
  | cons p c cs ih =>
    have hsplits := Lexeme.splits_first c cs
    have hlength := Lexeme.length_rest_first c cs
    have hhead : ∀ {piece right rest : List Char}, (Lexeme.first c cs).rest = piece ++ right →
        piece ≠ [] → (piece ++ rest).head? = (Lexeme.first c cs).rest.head? := by
      intro piece right rest heq hpiece
      obtain ⟨d, ds, rfl⟩ := List.exists_cons_of_ne_nil hpiece
      rw [heq]
      rfl
    rcases hreading : (Lexeme.first c cs).reading with _ | t | f
    · rw [tokensFrom_of_skip hreading] at h
      obtain ⟨piece, right, hrest, hpiece, hstop, hmore⟩ := ih _ _ hlength hne h
      refine ⟨(Lexeme.first c cs).text ++ piece, right, ?_, by simp [hpiece], ?_, ?_⟩
      · rw [← hsplits.whole, hrest, List.append_assoc]
      · rw [Position.advance_append, hstop]
      · intro bytes lines rest hfenced
        rw [List.append_assoc, tokensFrom_append_of_skip hreading (hhead hrest hpiece),
          Position.advance_append, Position.advance_shift, hmore bytes lines rest hfenced]
    · rw [tokensFrom_of_token hreading] at h
      obtain ⟨vs, hvs, heq⟩ := exists_of_map_eq_ok h
      obtain ⟨u, us, rfl⟩ := List.exists_cons_of_ne_nil hne
      cases heq
      rcases us.eq_nil_or_concat with rfl | ⟨_, _, hconcat⟩
      · refine ⟨(Lexeme.first c cs).text, _, hsplits.whole.symm, hsplits.text_ne_nil, rfl, ?_⟩
        intro bytes lines rest hfenced
        rw [tokensFrom_append_of_token hreading (.inr hfenced), Position.advance_shift,
          Position.spanTo_shift]
        rfl
      · have hus : us ≠ [] := by
          rw [hconcat]
          simp
        obtain ⟨piece, right, hrest, hpiece, hstop, hmore⟩ := ih _ _ hlength hus hvs
        refine ⟨(Lexeme.first c cs).text ++ piece, right, ?_, by simp [hpiece], ?_, ?_⟩
        · rw [← hsplits.whole, hrest, List.append_assoc]
        · rw [Position.advance_append, hstop, Grammar.closing_cons _ hus]
        · intro bytes lines rest hfenced
          rw [List.append_assoc, tokensFrom_append_of_token hreading (.inl (hhead hrest hpiece)),
            Position.advance_append, Position.advance_shift, hmore bytes lines rest hfenced,
            Position.spanTo_shift]
          cases tokensFrom (((p.advance (Lexeme.first c cs).text).shift bytes lines).advance piece)
            rest <;> rfl
    · rw [tokensFrom_of_fault hreading] at h
      cases h

end Scriptlet
