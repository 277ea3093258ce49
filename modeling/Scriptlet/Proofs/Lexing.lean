-- Where tokens stand. A lexeme takes characters from the head of the text and
-- none twice, so tokens follow each other without overlap and the span of each
-- one is the stretch that its characters take up.
import Scriptlet.Proofs.Lines
import Scriptlet.Syntax.Parser
import Scriptlet.Token.Lexer

namespace Scriptlet

/-! ## Positions -/

namespace Position

theorem offset_advance (p : Position) (text : List Char) :
    (p.advance text).offset = p.offset + (text.flatMap String.utf8EncodeChar).length := by
  induction text generalizing p with
  | nil => rfl
  | cons c cs ih =>
    rw [advance_cons, ih, List.flatMap_cons, List.length_append, String.length_utf8EncodeChar]
    simp only [next]
    omega

theorem line_advance (p : Position) (text : List Char) :
    (p.advance text).line = p.line + (text.flatMap String.utf8EncodeChar).count 10 := by
  induction text generalizing p with
  | nil => rfl
  | cons c cs ih =>
    have hc := count_lineFeed_take_utf8 c c.utf8Size
    rw [List.take_of_length_le (by simp)] at hc
    rw [advance_cons, ih, List.flatMap_cons, List.count_append, hc]
    simp only [next, c.utf8Size_pos, and_true]
    split <;> omega

theorem offset_le_advance (p : Position) (text : List Char) :
    p.offset ≤ (p.advance text).offset := by
  rw [offset_advance]
  omega

theorem offset_lt_advance (p : Position) {text : List Char} (h : text ≠ []) :
    p.offset < (p.advance text).offset := by
  obtain ⟨c, cs, rfl⟩ := List.exists_cons_of_ne_nil h
  rw [offset_advance, List.flatMap_cons, List.length_append, String.length_utf8EncodeChar]
  have := c.utf8Size_pos
  omega

/-- The point after a whole text is at the number of its bytes. -/
theorem offset_advance_origin (source : String) :
    (origin.advance source.toList).offset = source.utf8ByteSize := by
  rw [offset_advance, ← utf8_eq_flatMap, origin, Nat.zero_add]
  rfl

/-- Walking over a text counts the lines that the line feeds before a point
make. -/
theorem line_advance_origin {source : String} {before after : List Char}
    (h : source.toList = before ++ after) :
    (origin.advance before).line =
      1 + lineFeedsBefore source (origin.advance before).offset := by
  rw [line_advance, offset_advance, lineFeedsBefore, utf8_eq_flatMap, h, List.flatMap_append]
  simp only [origin, Nat.zero_add]
  rw [List.take_left]

end Position

/-! ## Lexemes -/

namespace Lexeme

/-- A lexeme that takes some characters of a text and leaves the others. -/
structure Splits (lexeme : Lexeme) (text : List Char) : Prop where
  whole : lexeme.text ++ lexeme.rest = text
  text_ne_nil : lexeme.text ≠ []

theorem splits_run (r : List Char → Reading) (p : Char → Bool) (c : Char) (cs : List Char) :
    (run r p c cs).Splits (c :: cs) where
  whole := by simp [run]
  text_ne_nil := by simp [run]

theorem splits_string (cs : List Char) : (string cs).Splits ('"' :: cs) := by
  have h := List.takeWhile_append_dropWhile (p := isStringChar) (l := cs)
  unfold string
  split
  · next rest eq =>
    rw [eq] at h
    exact ⟨by simp [h], by simp⟩
  · exact ⟨by simp, by simp⟩

theorem splits_mark (c : Char) (cs : List Char) : (mark c cs).Splits (c :: cs) := by
  unfold mark
  split
  · next s _ =>
    have := spelling_length_pos s
    refine ⟨List.take_append_drop .., fun h => ?_⟩
    have := congrArg List.length h
    simp only [List.length_take, List.length_cons, List.length_nil] at this
    omega
  · exact ⟨rfl, by simp⟩

theorem splits_first (c : Char) (cs : List Char) : (first c cs).Splits (c :: cs) := by
  unfold first
  split
  · exact splits_run ..
  split
  · exact splits_run ..
  split
  · exact splits_run ..
  split
  · exact splits_run ..
  split
  · next hc => exact hc ▸ splits_string cs
  · exact splits_mark c cs

end Lexeme

/-! ## Tokens -/

/-- A stretch of at least one character of a text that starts at `p`. -/
def Position.Stretch (p : Position) (text : List Char) (span : Span) : Prop :=
  ∃ before inside after, text = before ++ inside ++ after ∧ inside ≠ [] ∧
    span = (p.advance before).spanTo ((p.advance before).advance inside)

theorem Position.Stretch.after {p : Position} {text rest : List Char} {span : Span}
    (h : (p.advance text).Stretch rest span) : p.Stretch (text ++ rest) span := by
  obtain ⟨before, inside, after, rfl, hne, rfl⟩ := h
  refine ⟨text ++ before, inside, after, by simp, hne, ?_⟩
  rw [advance_append]

theorem Position.Stretch.start_lt {p : Position} {text : List Char} {span : Span}
    (h : p.Stretch text span) : span.start < span.stop := by
  obtain ⟨before, inside, after, rfl, hne, rfl⟩ := h
  exact offset_lt_advance _ hne

theorem Position.Stretch.le_start {p : Position} {text : List Char} {span : Span}
    (h : p.Stretch text span) : p.offset ≤ span.start := by
  obtain ⟨before, inside, after, rfl, hne, rfl⟩ := h
  exact offset_le_advance p before

theorem Position.Stretch.stop_le {p : Position} {text : List Char} {span : Span}
    (h : p.Stretch text span) : span.stop ≤ (p.advance text).offset := by
  obtain ⟨before, inside, after, rfl, hne, rfl⟩ := h
  rw [advance_append, advance_append]
  exact offset_le_advance _ after

/-- The line of a stretch of a source is where its line index has the start. -/
theorem Position.Stretch.line_eq {source : String} {span : Span}
    (h : origin.Stretch source.toList span) :
    span.line = 1 + lineFeedsBefore source span.start := by
  obtain ⟨before, inside, after, heq, hne, rfl⟩ := h
  rw [List.append_assoc] at heq
  exact line_advance_origin heq

/-- Induction on a text, down to any shorter one at any position. -/
theorem text_induction {motive : Position → List Char → Prop} (nil : ∀ p, motive p [])
    (cons : ∀ p c cs, (∀ q ds, ds.length ≤ cs.length → motive q ds) → motive p (c :: cs))
    (p : Position) (cs : List Char) : motive p cs := by
  induction hn : cs.length using Nat.strongRecOn generalizing p cs with
  | ind n ih =>
    cases cs with
    | nil => exact nil p
    | cons c cs =>
      simp only [List.length_cons] at hn
      exact cons p c cs fun q ds hle => ih _ (by omega) q ds rfl

theorem tokensFrom_of_skip {c : Char} {cs : List Char}
    (h : (Lexeme.first c cs).reading = .skip) (p : Position) : tokensFrom p (c :: cs) =
      tokensFrom (p.advance (Lexeme.first c cs).text) (Lexeme.first c cs).rest := by
  simp [tokensFrom, h]

theorem tokensFrom_of_token {c : Char} {cs : List Char} {t : Token}
    (h : (Lexeme.first c cs).reading = .token t) (p : Position) : tokensFrom p (c :: cs) =
      (tokensFrom (p.advance (Lexeme.first c cs).text) (Lexeme.first c cs).rest).map
        ((t, p.spanTo (p.advance (Lexeme.first c cs).text)) :: ·) := by
  simp [tokensFrom, h]

theorem tokensFrom_of_fault {c : Char} {cs : List Char} {f : LexFault}
    (h : (Lexeme.first c cs).reading = .fault f) (p : Position) : tokensFrom p (c :: cs) =
      .error ⟨f, (Lexeme.first c cs).text, p.spanTo (p.advance (Lexeme.first c cs).text)⟩ := by
  simp [tokensFrom, h]

/-- Every token stands at a stretch of the text, and before the next one. -/
theorem stretches_of_tokensFrom {p : Position} {cs : List Char} {ts : List (Token × Span)}
    (h : tokensFrom p cs = .ok ts) :
    (∀ t ∈ ts, p.Stretch cs t.2) ∧ ts.Pairwise fun a b => a.2.stop ≤ b.2.start := by
  induction p, cs using text_induction generalizing ts with
  | nil p =>
    rw [tokensFrom] at h
    cases h
    exact ⟨by simp, .nil⟩
  | cons p c cs ih =>
    have hsplits := Lexeme.splits_first c cs
    have hlength := Lexeme.length_rest_first c cs
    rw [← hsplits.whole]
    rcases hreading : (Lexeme.first c cs).reading with _ | t | f
    · rw [tokensFrom_of_skip hreading] at h
      obtain ⟨hmem, hpairwise⟩ := ih _ _ hlength h
      exact ⟨fun t ht => (hmem t ht).after, hpairwise⟩
    · rw [tokensFrom_of_token hreading] at h
      rcases hus : tokensFrom (p.advance (Lexeme.first c cs).text) (Lexeme.first c cs).rest with
        e | us
      · rw [hus] at h
        cases h
      · rw [hus] at h
        cases h
        obtain ⟨hmem, hpairwise⟩ := ih _ _ hlength hus
        refine ⟨List.forall_mem_cons.2 ⟨?_, fun u hu => (hmem u hu).after⟩,
          List.pairwise_cons.2 ⟨fun u hu => (hmem u hu).le_start, hpairwise⟩⟩
        exact ⟨[], _, _, rfl, hsplits.text_ne_nil, rfl⟩
    · rw [tokensFrom_of_fault hreading] at h
      cases h

/-- Locating the tokens of a source changes nothing. -/
theorem locate_of_tokenize {source : String} {ts : List (Token × Span)}
    (h : tokenize source = .ok ts) : (LineIndex.ofText source).locate ts = ts := by
  have hmem := (stretches_of_tokensFrom h).1
  unfold LineIndex.locate
  conv => rhs; rw [← List.map_id ts]
  refine List.map_congr_left fun t ht => ?_
  obtain ⟨t, span⟩ := t
  simp only [LineIndex.span, LineIndex.lineOf_eq, id_eq]
  rw [← (hmem _ ht).line_eq]

end Scriptlet
