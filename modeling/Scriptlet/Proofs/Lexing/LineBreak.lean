-- Reading a text line by line. No lexeme but a run of blanks goes past a line
-- feed, so the tokens of a text up to one do not depend on what follows it,
-- and those after it are the ones that the rest has by itself, further on.
import Mathlib.Data.List.Find
import Scriptlet.Proofs.Grammar.Moving
import Scriptlet.Proofs.Lexing

namespace Scriptlet

open Grammar (Tokens)

/-! ## Moving a text -/

/-- The same stretch when so many bytes and lines are put before its text. -/
def Span.shift (bytes lines : Nat) (s : Span) : Span :=
  ⟨s.start + bytes, s.stop + bytes, s.line + lines⟩

theorem Span.shift_cover (bytes lines : Nat) (a b : Span) :
    (cover a b).shift bytes lines = cover (a.shift bytes lines) (b.shift bytes lines) := rfl

def Position.shift (bytes lines : Nat) (p : Position) : Position :=
  ⟨p.offset + bytes, p.line + lines⟩

def LexError.shift (bytes lines : Nat) (e : LexError) : LexError :=
  { e with span := e.span.shift bytes lines }

namespace Position

theorem next_shift (bytes lines : Nat) (p : Position) (c : Char) :
    (p.shift bytes lines).next c = (p.next c).shift bytes lines := by
  simp only [next, shift, Position.mk.injEq]
  refine ⟨by omega, ?_⟩
  split <;> omega

theorem advance_shift (bytes lines : Nat) (p : Position) (text : List Char) :
    (p.shift bytes lines).advance text = (p.advance text).shift bytes lines := by
  induction text generalizing p with
  | nil => rfl
  | cons c cs ih => rw [advance_cons, next_shift, ih, advance_cons]

theorem spanTo_shift (bytes lines : Nat) (p q : Position) :
    (p.shift bytes lines).spanTo (q.shift bytes lines) = (p.spanTo q).shift bytes lines := rfl

end Position

/-- A text that stands elsewhere has the same tokens, or the same error. -/
theorem tokensFrom_shift (bytes lines : Nat) (p : Position) (cs : List Char) :
    tokensFrom (p.shift bytes lines) cs =
      ((tokensFrom p cs).map (Tokens.mapSpans (.shift bytes lines))).mapError
        (.shift bytes lines) := by
  induction p, cs using text_induction with
  | nil p =>
    rw [tokensFrom, tokensFrom]
    rfl
  | cons p c cs ih =>
    have ih := ih (p.advance (Lexeme.first c cs).text) _ (Lexeme.length_rest_first c cs)
    rcases hreading : (Lexeme.first c cs).reading with _ | t | f
    · rw [tokensFrom_of_skip hreading, tokensFrom_of_skip hreading, Position.advance_shift, ih]
    · rw [tokensFrom_of_token hreading, tokensFrom_of_token hreading, Position.advance_shift, ih,
        Position.spanTo_shift]
      cases tokensFrom (p.advance (Lexeme.first c cs).text) (Lexeme.first c cs).rest <;> rfl
    · rw [tokensFrom_of_fault hreading, tokensFrom_of_fault hreading, Position.advance_shift,
        Position.spanTo_shift]
      rfl

/-! ## Lexemes before a line feed -/

theorem takeWhile_append_stop {p : Char → Bool} {d : Char} (hd : p d = false) (xs ys : List Char) :
    (xs ++ d :: ys).takeWhile p = xs.takeWhile p := by
  induction xs with
  | nil => simp [hd]
  | cons x xs ih => simp only [List.cons_append, List.takeWhile_cons, ih]

theorem dropWhile_append_stop {p : Char → Bool} {d : Char} (hd : p d = false) (xs ys : List Char) :
    (xs ++ d :: ys).dropWhile p = xs.dropWhile p ++ d :: ys := by
  induction xs with
  | nil => simp [hd]
  | cons x xs ih =>
    simp only [List.cons_append, List.dropWhile_cons, ih]
    split <;> rfl

theorem isPrefixOf_append_stop {xs : List Char} {d : Char} (hd : d ∉ xs) (ys zs : List Char) :
    xs.isPrefixOf (ys ++ d :: zs) = xs.isPrefixOf ys := by
  induction xs generalizing ys with
  | nil => simp
  | cons x xs ih =>
    obtain ⟨hx, hxs⟩ := not_or.1 (mt List.mem_cons.2 hd)
    cases ys with
    | nil => simp [List.isPrefixOf, Ne.symm hx]
    | cons y ys => simp only [List.cons_append, List.isPrefixOf_cons_cons, ih hxs]

theorem Symbol.lineFeed_notMem_spelling (s : Symbol) : '\n' ∉ s.spelling.toList := by
  cases s <;> decide

namespace Lexeme

/-- The lexeme with more text after it. -/
def followedBy (lexeme : Lexeme) (more : List Char) : Lexeme :=
  { lexeme with rest := lexeme.rest ++ more }

theorem run_lineFeed (r : List Char → Reading) {p : Char → Bool} (hp : p '\n' = false) (c : Char)
    (cs ds : List Char) :
    run r p c (cs ++ '\n' :: ds) = (run r p c cs).followedBy ('\n' :: ds) := by
  unfold run followedBy
  rw [takeWhile_append_stop hp, dropWhile_append_stop hp]

theorem string_lineFeed (cs ds : List Char) :
    string (cs ++ '\n' :: ds) = (string cs).followedBy ('\n' :: ds) := by
  unfold string
  rw [takeWhile_append_stop rfl, dropWhile_append_stop rfl]
  rcases cs.dropWhile isStringChar with _ | ⟨d, rest⟩
  · rfl
  · by_cases hd : d = '"'
    · subst hd
      rfl
    · simp [hd, followedBy]

theorem mark_lineFeed (c : Char) (cs ds : List Char) :
    mark c (cs ++ '\n' :: ds) = (mark c cs).followedBy ('\n' :: ds) := by
  have hmark : Symbol.mark? (c :: (cs ++ '\n' :: ds)) = Symbol.mark? (c :: cs) :=
    List.find?_congr fun s _ => isPrefixOf_append_stop s.lineFeed_notMem_spelling (c :: cs) ds
  unfold mark
  rw [hmark]
  rcases hs : Symbol.mark? (c :: cs) with _ | s
  · rfl
  · unfold Symbol.mark? at hs
    have hfound : s.spelling.toList.isPrefixOf (c :: cs) = true :=
      List.find?_some (p := fun s : Symbol => s.spelling.toList.isPrefixOf (c :: cs)) hs
    have hle := (List.isPrefixOf_iff_prefix.1 hfound).length_le
    rw [String.length_toList] at hle
    simp only [followedBy]
    rw [← List.cons_append, List.take_append_of_le_length hle,
      List.drop_append_of_le_length hle]

theorem first_lineFeed {c : Char} (hc : isBlank c = false) (cs ds : List Char) :
    first c (cs ++ '\n' :: ds) = (first c cs).followedBy ('\n' :: ds) := by
  have hslash : (cs ++ '\n' :: ds).head? = some '/' ↔ cs.head? = some '/' := by
    cases cs <;> simp
  unfold first
  simp only [hc, Bool.false_eq_true, ↓reduceIte, hslash]
  split
  · exact run_lineFeed _ rfl ..
  split
  · exact run_lineFeed _ rfl ..
  split
  · exact run_lineFeed _ rfl ..
  split
  · exact string_lineFeed ..
  · exact mark_lineFeed ..

theorem first_blank {c : Char} (hc : isBlank c = true) (cs : List Char) :
    first c cs = ⟨.skip, c :: cs.takeWhile isBlank, cs.dropWhile isBlank⟩ := by
  simp [first, hc, run]

end Lexeme

/-! ## Tokens before and after a line feed -/

/-- A blank has no token, whatever follows. -/
theorem tokensFrom_blank {c : Char} (hc : isBlank c = true) (p : Position) (cs : List Char) :
    tokensFrom p (c :: cs) = tokensFrom (p.next c) cs := by
  have hfirst := Lexeme.first_blank hc cs
  rw [tokensFrom_of_skip (by rw [hfirst]), hfirst, Position.advance_cons]
  rcases cs with _ | ⟨d, cs⟩
  · rfl
  · by_cases hd : isBlank d = true
    · have hfirst := Lexeme.first_blank hd cs
      rw [tokensFrom_of_skip (by rw [hfirst]), hfirst, List.takeWhile_cons_of_pos hd,
        List.dropWhile_cons_of_pos hd]
    · rw [List.takeWhile_cons_of_neg hd, List.dropWhile_cons_of_neg hd]
      rfl

/-- The tokens before a line feed, and then those after it. -/
theorem tokensFrom_lineFeed (p : Position) (cs ds : List Char) :
    tokensFrom p (cs ++ '\n' :: ds) = (tokensFrom p cs).bind fun ts =>
      (tokensFrom ((p.advance cs).next '\n') ds).map (ts ++ ·) := by
  induction p, cs using text_induction with
  | nil p =>
    rw [tokensFrom, List.nil_append, tokensFrom_blank rfl, Position.advance_nil]
    cases tokensFrom (p.next '\n') ds <;> rfl
  | cons p c cs ih =>
    by_cases hc : isBlank c = true
    · rw [List.cons_append, tokensFrom_blank hc, tokensFrom_blank hc, ih _ _ (Nat.le_refl _),
        Position.advance_cons]
    · have hfirst := Lexeme.first_lineFeed (Bool.eq_false_iff.2 hc) cs ds
      have hstop : p.advance (c :: cs) =
          (p.advance (Lexeme.first c cs).text).advance (Lexeme.first c cs).rest := by
        rw [← Position.advance_append, (Lexeme.splits_first c cs).whole]
      have ih := ih (p.advance (Lexeme.first c cs).text) _ (Lexeme.length_rest_first c cs)
      rw [← hstop] at ih
      have hreading :
          (Lexeme.first c (cs ++ '\n' :: ds)).reading = (Lexeme.first c cs).reading := by
        rw [hfirst]
        rfl
      rw [List.cons_append]
      rcases hread : (Lexeme.first c cs).reading with _ | t | f
      · rw [tokensFrom_of_skip (hreading.trans hread), tokensFrom_of_skip hread, hfirst]
        exact ih
      · rw [tokensFrom_of_token (hreading.trans hread), tokensFrom_of_token hread, hfirst]
        simp only [Lexeme.followedBy, ih]
        cases tokensFrom (p.advance (Lexeme.first c cs).text) (Lexeme.first c cs).rest with
        | error e => rfl
        | ok ts => cases tokensFrom ((p.advance (c :: cs)).next '\n') ds <;> rfl
      · rw [tokensFrom_of_fault (hreading.trans hread), tokensFrom_of_fault hread, hfirst]
        rfl

/-! ## Two texts with a line feed between -/

/-- How many line feeds a text has. -/
def lineFeeds (source : String) : Nat := lineFeedsBefore source source.utf8ByteSize

/-- The place after a source and a line feed. -/
theorem next_advance_shift (bytes lines : Nat) (source : String) :
    ((Position.origin.shift bytes lines).advance source.toList).next '\n' =
      Position.origin.shift (bytes + source.utf8ByteSize + 1) (lines + lineFeeds source + 1) := by
  have hoffset := Position.offset_advance_origin source
  have hline : (Position.origin.advance source.toList).line = _ :=
    Position.line_advance_origin (List.append_nil _).symm
  rw [hoffset] at hline
  have hsize : '\n'.utf8Size = 1 := rfl
  rw [Position.advance_shift]
  simp only [Position.next, Position.shift, Position.origin, ↓reduceIte, Position.mk.injEq,
    lineFeeds] at hoffset hline ⊢
  omega

/-- The tokens of a text, a line feed and another text are those of the first and
then those of the second, further on. The first error of the two is the error of the
whole, and one of the second is further on too, with the same message. -/
theorem tokenize_across_lineFeed (first second : String) :
    (tokenize (first ++ "\n" ++ second) =
      match tokenize first, tokenize second with
      | .error e, _ => .error e
      | .ok _, .error e => .error (e.shift (first.utf8ByteSize + 1) (lineFeeds first + 1))
      | .ok ts, .ok us =>
        .ok (ts ++ Tokens.mapSpans (.shift (first.utf8ByteSize + 1) (lineFeeds first + 1)) us)) ∧
    ∀ (e : LexError) (bytes lines : Nat), (e.shift bytes lines).message = e.message ∧
      (e.shift bytes lines).span = e.span.shift bytes lines := by
  refine ⟨?_, fun e bytes lines => ⟨rfl, rfl⟩⟩
  have htext : (first ++ "\n" ++ second).toList = first.toList ++ '\n' :: second.toList := by
    simp
  have hplace := next_advance_shift 0 0 first
  simp only [Nat.zero_add] at hplace
  have horigin : Position.origin.shift 0 0 = .origin := rfl
  rw [horigin] at hplace
  unfold tokenize
  rw [htext, tokensFrom_lineFeed, hplace, tokensFrom_shift]
  cases tokensFrom .origin first.toList with
  | error e => rfl
  | ok ts => cases tokensFrom .origin second.toList <;> rfl

end Scriptlet
