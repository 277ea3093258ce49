-- Longest matches. The patterns of the language are said of whole texts, with no
-- word on how they are found. The lexeme at the head of a text is the longest match
-- of any of them, and there is a fault where none matches.
import Mathlib
import Scriptlet.Proofs.Lexing.Writing

namespace Scriptlet

/-! ## Patterns -/

/-- What a lexeme can be. -/
inductive Pattern where
  | blanks | comment | symbol (s : Symbol) | digits | string | name

namespace Pattern

/-- Whether a text, all of it, is of the pattern. -/
def Matches : Pattern → List Char → Prop
  | blanks, text => text ≠ [] ∧ ∀ c ∈ text, c = ' ' ∨ c = '\t' ∨ c = '\n' ∨ c = '\r'
  | comment, text => ∃ line, text = '/' :: '/' :: line ∧ '\n' ∉ line
  | symbol s, text => text = s.spelling.toList
  | digits, text => text ≠ [] ∧ ∀ c ∈ text, c.isDigit = true
  | string, text => ∃ body, text = '"' :: (body ++ ['"']) ∧ ∀ c ∈ body, c ≠ '"' ∧ c ≠ '\n'
  | name, text => ∃ c cs, text = c :: cs ∧ (c.isAlpha = true ∨ c = '_') ∧
      ∀ d ∈ cs, d.isAlpha = true ∨ d.isDigit = true ∨ d = '_'

/-- Whether a match of the pattern is no token. -/
def Skipped : Pattern → Prop
  | blanks | comment => True
  | _ => False

theorem Matches.ne_nil {p : Pattern} {text : List Char} (h : p.Matches text) : text ≠ [] := by
  cases p with
  | blanks => exact h.1
  | digits => exact h.1
  | comment =>
    obtain ⟨line, rfl, -⟩ := h
    simp
  | string =>
    obtain ⟨body, rfl, -⟩ := h
    simp
  | name =>
    obtain ⟨c, cs, rfl, -⟩ := h
    simp
  | symbol s =>
    intro hnil
    have hlength := congrArg List.length (hnil.symm.trans h)
    have := Lexeme.spelling_length_pos s
    simp only [String.length_toList, List.length_nil] at hlength
    omega

end Pattern

/-- A piece of a text and the pattern that it is of. -/
structure Match where
  pattern : Pattern
  text : List Char

namespace Match

/-- A match at the head of a text. -/
structure At (m : Match) (text : List Char) : Prop where
  matched : m.pattern.Matches m.text
  starts : m.text <+: text

/-- The longest match at the head of a text. Of two patterns with the same text a
symbol goes before a name. -/
structure Longest (m : Match) (text : List Char) : Prop where
  here : m.At text
  length_le : ∀ n : Match, n.At text → n.text.length ≤ m.text.length
  not_symbol : m.pattern = .name → ∀ s : Symbol, m.text ≠ s.spelling.toList

/-- The token that a match is. Digits are an integer if they are in range. -/
def Denotes : Match → Token → Prop
  | ⟨.symbol s, _⟩, t => t = .symbol s
  | ⟨.digits, text⟩, t => ∃ n : Int64, n.toInt = Nat.ofDigitChars 10 text 0 ∧ t = .int n
  | ⟨.string, text⟩, t => t = .str (String.ofList text)
  | ⟨.name, text⟩, t => t = .ident (String.ofList text)
  | _, _ => False

/-- What the lexer makes of a match. -/
def reading : Match → Reading
  | ⟨.blanks, _⟩ | ⟨.comment, _⟩ => .skip
  | ⟨.symbol s, _⟩ => .token (.symbol s)
  | ⟨.digits, text⟩ => Lexeme.number text
  | ⟨.string, text⟩ => .token (.str (String.ofList text))
  | ⟨.name, text⟩ => .token (.ident (String.ofList text))

end Match

/-! ## What is made of a match -/

/-- Digits past the largest integer. -/
def OutOfRange (digits : List Char) : Prop :=
  Int64.maxValue.toInt < Nat.ofDigitChars 10 digits 0

theorem integer?_eq_none_iff {n : Nat} :
    integer? n = none ↔ Int64.maxValue.toInt < n := by
  have hmin : Int64.minValue.toInt ≤ (n : Int) := by
    have : Int64.minValue.toInt ≤ 0 := by decide
    omega
  unfold integer?
  split <;> simp <;> omega

namespace Lexeme

theorem number_eq_token_iff {digits : List Char} {t : Token} :
    number digits = .token t ↔
      ∃ n : Int64, n.toInt = Nat.ofDigitChars 10 digits 0 ∧ t = .int n := by
  constructor
  · intro h
    unfold number at h
    split at h
    · next n hn =>
      cases h
      exact ⟨n, toInt_of_integer? hn, rfl⟩
    · cases h
  · rintro ⟨n, hn, rfl⟩
    unfold number
    rw [← hn, integer?_toInt]

theorem number_eq_fault_iff {digits : List Char} {f : LexFault} :
    number digits = .fault f ↔ f = .outOfRange ∧ OutOfRange digits := by
  unfold number OutOfRange
  rw [← integer?_eq_none_iff]
  cases integer? (Nat.ofDigitChars 10 digits 0) with
  | none => simp [eq_comm]
  | some n => simp

end Lexeme

namespace Match

variable {m : Match}

theorem reading_eq_skip_iff : m.reading = .skip ↔ m.pattern.Skipped := by
  obtain ⟨p, text⟩ := m
  cases p <;> simp [reading, Pattern.Skipped, Lexeme.number_ne_skip]

theorem reading_eq_token_iff {t : Token} : m.reading = .token t ↔ m.Denotes t := by
  obtain ⟨p, text⟩ := m
  cases p with
  | digits => exact Lexeme.number_eq_token_iff
  | _ => simp [reading, Denotes, eq_comm]

theorem reading_eq_fault_iff {f : LexFault} :
    m.reading = .fault f ↔ m.pattern = .digits ∧ f = .outOfRange ∧ OutOfRange m.text := by
  obtain ⟨p, text⟩ := m
  cases p with
  | digits => simp [reading, Lexeme.number_eq_fault_iff]
  | _ => simp [reading]

end Match

/-! ## Runs -/

namespace Lexeme

/-- The patterns that are taken as runs, with what is made of one and with the
characters that it goes on with. -/
inductive Runs : Pattern → (List Char → Reading) → (Char → Bool) → Prop
  | blanks : Runs .blanks (fun _ => .skip) isBlank
  | comment : Runs .comment (fun _ => .skip) (· != '\n')
  | digits : Runs .digits number Char.isDigit
  | name : Runs .name word isNameChar

theorem isBlank_iff {c : Char} :
    isBlank c = true ↔ c = ' ' ∨ c = '\t' ∨ c = '\n' ∨ c = '\r' := by
  simp [isBlank, or_assoc]

namespace Runs

variable {p : Pattern} {r : List Char → Reading} {q : Char → Bool} {c : Char} {cs : List Char}

theorem all_of_matches (h : Runs p r q) (hm : p.Matches (c :: cs)) : ∀ d ∈ cs, q d = true := by
  intro d hd
  cases h with
  | blanks => exact isBlank_iff.2 (hm.2 d (List.mem_cons_of_mem c hd))
  | comment =>
    obtain ⟨line, heq, hline⟩ := hm
    cases heq
    rcases List.mem_cons.1 hd with rfl | hd
    · decide
    · rw [bne_iff_ne]
      rintro rfl
      exact hline hd
  | digits => exact hm.2 d (List.mem_cons_of_mem c hd)
  | name =>
    obtain ⟨_, _, heq, -, hcs⟩ := hm
    cases heq
    exact isNameChar_iff.2 (hcs d hd)

/-- More characters of the run make a longer match. -/
theorem matches_append (h : Runs p r q) (hm : p.Matches (c :: cs)) {ds : List Char}
    (hds : ∀ d ∈ ds, q d = true) : p.Matches (c :: (cs ++ ds)) := by
  cases h with
  | blanks =>
    have hmore : ∀ d ∈ ds, d = ' ' ∨ d = '\t' ∨ d = '\n' ∨ d = '\r' := by
      intro d hd
      exact isBlank_iff.1 (hds d hd)
    rw [← List.cons_append]
    exact ⟨List.cons_ne_nil _ _, List.forall_mem_append.2 ⟨hm.2, hmore⟩⟩
  | comment =>
    obtain ⟨line, heq, hline⟩ := hm
    cases heq
    refine ⟨line ++ ds, rfl, ?_⟩
    rw [List.mem_append]
    rintro (hmem | hmem)
    · exact hline hmem
    · simpa using hds _ hmem
  | digits =>
    rw [← List.cons_append]
    exact ⟨List.cons_ne_nil _ _, List.forall_mem_append.2 ⟨hm.2, hds⟩⟩
  | name =>
    obtain ⟨_, _, heq, hc, hcs⟩ := hm
    cases heq
    refine ⟨c, cs ++ ds, rfl, hc, List.forall_mem_append.2 ⟨hcs, ?_⟩⟩
    intro d hd
    exact isNameChar_iff.1 (hds d hd)

theorem first_eq_run (h : Runs p r q) (hm : p.Matches (c :: cs)) (rest : List Char) :
    first c (cs ++ rest) = run r q c (cs ++ rest) := by
  cases h with
  | blanks => exact first_of_isBlank (isBlank_iff.2 (hm.2 c List.mem_cons_self)) _
  | comment =>
    obtain ⟨line, heq, -⟩ := hm
    cases heq
    exact first_comment rfl
  | digits => exact first_of_isDigit (hm.2 c List.mem_cons_self) _
  | name =>
    obtain ⟨_, _, heq, hc, -⟩ := hm
    cases heq
    exact first_of_isNameStart (isNameStart_iff.2 hc) _

/-- The run takes a match and all that can be added to it. -/
theorem first_eq (h : Runs p r q) (hm : p.Matches (c :: cs)) (rest : List Char) :
    first c (cs ++ rest) =
      ⟨r (c :: (cs ++ rest.takeWhile q)), c :: (cs ++ rest.takeWhile q), rest.dropWhile q⟩ := by
  have hall := h.all_of_matches hm
  rw [h.first_eq_run hm, run, List.takeWhile_append_of_pos hall, List.dropWhile_append_of_pos hall]

/-- A run from a character that is a match by itself is a match. -/
theorem matches_text (h : Runs p r q) (hm : p.Matches [c]) (cs : List Char) :
    p.Matches (run r q c cs).text :=
  h.matches_append hm (List.all_eq_true.1 List.all_takeWhile)

theorem reading_ne_unexpected (h : Runs p r q) (text : List Char) :
    r text ≠ .fault .unexpected := by
  cases h with
  | blanks | comment => simp
  | digits => simp [number_eq_fault_iff]
  | name =>
    unfold word
    split <;> simp

/-- A match of the run that cannot be made longer is all that is taken. -/
theorem first_of_longest (h : Runs p r q) (hm : p.Matches (c :: cs)) {rest : List Char}
    (hle : ∀ n : Match, n.At (c :: (cs ++ rest)) → n.text.length ≤ (c :: cs).length) :
    first c (cs ++ rest) = ⟨r (c :: cs), c :: cs, rest⟩ := by
  have hmore : Match.At ⟨p, c :: (cs ++ rest.takeWhile q)⟩ (c :: (cs ++ rest)) := by
    refine ⟨h.matches_append hm (List.all_eq_true.1 List.all_takeWhile), ?_⟩
    rw [List.cons_prefix_cons, List.prefix_append_right_inj]
    exact ⟨rfl, List.takeWhile_prefix q⟩
  have hlength := hle _ hmore
  have hnone : rest.takeWhile q = [] := by
    rw [← List.length_eq_zero_iff]
    simp only [List.length_cons, List.length_append] at hlength
    omega
  have hrest := List.takeWhile_append_dropWhile (p := q) (l := rest)
  rw [hnone, List.nil_append] at hrest
  rw [h.first_eq hm, hnone, hrest, List.append_nil]

end Runs

end Lexeme

/-! ## Symbols -/

namespace Symbol

theorem mem_keywords_or_marks (s : Symbol) : s ∈ keywords ∨ s ∈ marks := by
  cases s <;> decide

theorem spelling_injective {s t : Symbol} (h : s.spelling = t.spelling) : s = t := by
  cases s <;> cases t <;> simp [spelling] at h ⊢

theorem name_matches_keyword {s : Symbol} (h : s ∈ keywords) :
    Pattern.name.Matches s.spelling.toList := by
  obtain ⟨c, cs, hspelling, hc, hcs⟩ : ∃ c cs, s.spelling.toList = c :: cs ∧
      isNameStart c = true ∧ cs.all isNameChar = true := by
    cases s <;> simp [keywords] at h <;> exact ⟨_, _, rfl, by cbv, by cbv⟩
  refine ⟨c, cs, hspelling, isNameStart_iff.1 hc, ?_⟩
  intro d hd
  exact isNameChar_iff.1 (List.all_eq_true.1 hcs d hd)

theorem mem_keywords_of_name_matches {s : Symbol} (h : Pattern.name.Matches s.spelling.toList) :
    s ∈ keywords := by
  obtain ⟨c, cs, hspelling, hc, -⟩ := h
  rcases s.mem_keywords_or_marks with hs | hs
  · exact hs
  · -- No mark starts like a name.
    have hstart : s.spelling.toList.head?.all (fun c => !isNameStart c) = true := by
      cases s <;> simp [marks] at hs <;> cbv
    simp [hspelling, isNameStart_iff.2 hc] at hstart

theorem keyword?_spelling {s : Symbol} (h : s ∈ keywords) :
    keyword? s.spelling.toList = some s := by
  cases s <;> simp [keywords] at h <;> cbv

theorem keyword?_eq_some {word : List Char} {s : Symbol} (h : keyword? word = some s) :
    word = s.spelling.toList := by
  have := List.find?_some (p := fun s : Symbol => s.spelling.toList == word) h
  exact (beq_iff_eq.1 this).symm

/-- No mark at the head of a text is longer than the one that is found. -/
theorem exists_mark? {s : Symbol} (hs : s ∈ marks) (rest : List Char) :
    ∃ t, mark? (s.spelling.toList ++ rest) = some t ∧ s.spelling.length ≤ t.spelling.length := by
  have hcases : s = equal ∨ s = notEqual ∨ s = range ∨ s.spelling.length = 1 := by
    cases s <;> simp [marks] at hs <;> decide
  rcases hcases with rfl | rfl | rfl | hlength
  · exact ⟨equal, rfl, Nat.le_refl _⟩
  · exact ⟨notEqual, rfl, Nat.le_refl _⟩
  · exact ⟨range, rfl, Nat.le_refl _⟩
  · have hfound : (mark? (s.spelling.toList ++ rest)).isSome = true := by
      rw [mark?, List.find?_isSome]
      exact ⟨s, hs, List.isPrefixOf_iff_prefix.2 (List.prefix_append _ rest)⟩
    obtain ⟨t, ht⟩ := Option.isSome_iff_exists.1 hfound
    have := Lexeme.spelling_length_pos t
    exact ⟨t, ht, by omega⟩

end Symbol

/-! ## The lexeme and the matches at its place -/

namespace Lexeme

/-- A string that is closed is taken to the closing quote. -/
theorem first_of_string {cs rest : List Char} (h : Pattern.string.Matches ('"' :: cs)) :
    first '"' (cs ++ rest) = ⟨.token (.str (String.ofList ('"' :: cs))), '"' :: cs, rest⟩ := by
  obtain ⟨body, heq, hbody⟩ := h
  cases heq
  have hall : ∀ c ∈ body, isStringChar c = true := by
    intro c hc
    exact isStringChar_iff.2 (hbody c hc)
  rw [first_quote, string, List.append_assoc, List.takeWhile_append_of_pos hall,
    List.dropWhile_append_of_pos hall]
  simp [isStringChar]

/-- A mark that no longer one contains is taken as it is. -/
theorem first_of_mark {s : Symbol} (hs : s ∈ Symbol.marks) {c : Char} {cs rest : List Char}
    (hspelling : c :: cs = s.spelling.toList)
    (hle : ∀ t : Symbol, t.spelling.toList <+: c :: (cs ++ rest) →
      t.spelling.length ≤ s.spelling.length) :
    first c (cs ++ rest) = ⟨.token (.symbol s), c :: cs, rest⟩ := by
  obtain ⟨t, ht, hlength⟩ := Symbol.exists_mark? hs rest
  rw [← hspelling, List.cons_append] at ht
  have hstarts := (Symbol.mark?_eq_some ht).2
  have hother := hle t hstarts
  have hsame : t.spelling.toList = c :: cs := by
    have heq : t.spelling.toList.length = (c :: cs).length := by
      rw [hspelling, String.length_toList, String.length_toList]
      omega
    have hwhole := List.prefix_append (c :: cs) rest
    exact (List.prefix_of_prefix_length_le hstarts hwhole heq.le).eq_of_length heq
  obtain rfl : t = s := Symbol.spelling_injective (String.toList_inj.1 (hsame.trans hspelling))
  have hn : t.spelling.length = (c :: cs).length := by
    rw [← String.length_toList, hspelling]
  rw [first_of_mark? ht, mark, ht]
  simp only [hn, ← List.cons_append, List.take_left, List.drop_left]

/-- The lexeme at the head of a text is no shorter than a match there, and is not the
fault of a text without one. -/
theorem length_le_first {p : Pattern} {c : Char} {cs : List Char} (hm : p.Matches (c :: cs))
    (rest : List Char) : (c :: cs).length ≤ (first c (cs ++ rest)).text.length ∧
      (first c (cs ++ rest)).reading ≠ .fault .unexpected := by
  have hruns {p r q} (h : Lexeme.Runs p r q) (hm : p.Matches (c :: cs)) :
      (c :: cs).length ≤ (first c (cs ++ rest)).text.length ∧
        (first c (cs ++ rest)).reading ≠ .fault .unexpected := by
    rw [h.first_eq hm]
    refine ⟨?_, h.reading_ne_unexpected _⟩
    simp only [List.length_cons, List.length_append]
    omega
  cases p with
  | blanks => exact hruns .blanks hm
  | comment => exact hruns .comment hm
  | digits => exact hruns .digits hm
  | name => exact hruns .name hm
  | string =>
    obtain ⟨_, heq, -⟩ := id hm
    obtain ⟨rfl, -⟩ := List.cons.inj heq
    rw [first_of_string hm]
    exact ⟨Nat.le_refl _, by simp⟩
  | symbol s =>
    have hspelling : c :: cs = s.spelling.toList := hm
    rcases s.mem_keywords_or_marks with hs | hs
    · apply hruns .name
      rw [hspelling]
      exact Symbol.name_matches_keyword hs
    · obtain ⟨t, ht, hle⟩ := Symbol.exists_mark? hs rest
      rw [← hspelling, List.cons_append] at ht
      rw [first_of_mark? ht, text_mark ht, hspelling, String.length_toList, String.length_toList]
      refine ⟨hle, ?_⟩
      simp [mark, ht]

/-- A longest match is taken as it is. -/
theorem first_of_longest {p : Pattern} {c : Char} {cs rest : List Char}
    (h : Match.Longest ⟨p, c :: cs⟩ (c :: (cs ++ rest))) :
    first c (cs ++ rest) = ⟨Match.reading ⟨p, c :: cs⟩, c :: cs, rest⟩ := by
  obtain ⟨⟨hm, -⟩, hle, hname⟩ := h
  cases p with
  | blanks => exact Runs.blanks.first_of_longest hm hle
  | comment => exact Runs.comment.first_of_longest hm hle
  | digits => exact Runs.digits.first_of_longest hm hle
  | name =>
    have hnone : Symbol.keyword? (c :: cs) = none :=
      Symbol.keyword?_eq_none.2 fun s _ => hname rfl s
    rw [Runs.name.first_of_longest hm hle, word, hnone]
    rfl
  | string =>
    obtain ⟨_, heq, -⟩ := id hm
    obtain ⟨rfl, -⟩ := List.cons.inj heq
    exact first_of_string hm
  | symbol s =>
    have hspelling : c :: cs = s.spelling.toList := hm
    rcases s.mem_keywords_or_marks with hs | hs
    · have hname : Pattern.name.Matches (c :: cs) := hspelling ▸ Symbol.name_matches_keyword hs
      rw [Runs.name.first_of_longest hname hle, word, hspelling, Symbol.keyword?_spelling hs]
      rfl
    · refine first_of_mark hs hspelling ?_
      intro t ht
      have hlength := hle ⟨.symbol t, t.spelling.toList⟩ ⟨rfl, ht⟩
      rwa [hspelling, String.length_toList, String.length_toList] at hlength

/-- A comment is the run after its two slashes. -/
theorem matches_comment {cs : List Char} (h : cs.head? = some '/') :
    Pattern.comment.Matches (first '/' cs).text := by
  obtain ⟨ds, rfl⟩ := List.head?_eq_some_iff.1 h
  have hslashes : Pattern.comment.Matches ['/', '/'] := ⟨[], rfl, List.not_mem_nil⟩
  rw [first_comment h]
  exact Runs.comment.matches_append hslashes (List.all_eq_true.1 List.all_takeWhile)

/-- A word is a name, unless it is the spelling of a symbol. -/
theorem matches_word {c : Char} (hc : isNameStart c = true) (cs : List Char) :
    ∃ p : Pattern, p.Matches (first c cs).text ∧
      (p = .name → ∀ s : Symbol, (first c cs).text ≠ s.spelling.toList) := by
  have hletter : Pattern.name.Matches [c] :=
    ⟨c, [], rfl, isNameStart_iff.1 hc, by simp⟩
  have hname := Runs.name.matches_text hletter cs
  rw [first_of_isNameStart hc]
  cases hkeyword : Symbol.keyword? (run word isNameChar c cs).text with
  | some s => exact ⟨.symbol s, Symbol.keyword?_eq_some hkeyword, by simp⟩
  | none =>
    refine ⟨.name, hname, ?_⟩
    intro _ s heq
    have hs : s ∈ Symbol.keywords := by
      apply Symbol.mem_keywords_of_name_matches
      rwa [← heq]
    exact Symbol.keyword?_eq_none.1 hkeyword s hs heq

theorem matches_string {cs : List Char} (h : (string cs).reading ≠ .fault .unexpected) :
    Pattern.string.Matches (string cs).text := by
  unfold string at h ⊢
  split at h
  · refine ⟨cs.takeWhile isStringChar, rfl, ?_⟩
    intro c hc
    exact isStringChar_iff.1 (List.all_eq_true.1 List.all_takeWhile c hc)
  · exact absurd rfl h

/-- The lexeme is a match of some pattern, but for the fault of a text without one. -/
theorem exists_matches {c : Char} {cs : List Char}
    (h : (first c cs).reading ≠ .fault .unexpected) :
    ∃ p : Pattern, p.Matches (first c cs).text ∧
      (p = .name → ∀ s : Symbol, (first c cs).text ≠ s.spelling.toList) := by
  rcases first_cases c cs with hc | ⟨rfl, hcs⟩ | hc | hc | rfl | hmark
  · have hblank : Pattern.blanks.Matches [c] := ⟨by simp, by simpa using isBlank_iff.1 hc⟩
    rw [first_of_isBlank hc]
    exact ⟨.blanks, Runs.blanks.matches_text hblank cs, by simp⟩
  · exact ⟨.comment, matches_comment hcs, by simp⟩
  · have hdigit : Pattern.digits.Matches [c] := ⟨by simp, by simpa using hc⟩
    rw [first_of_isDigit hc]
    exact ⟨.digits, Runs.digits.matches_text hdigit cs, by simp⟩
  · exact matches_word hc cs
  · exact ⟨.string, matches_string h, by simp⟩
  · rw [hmark] at h ⊢
    cases hs : Symbol.mark? (c :: cs) with
    | none => simp [mark, hs] at h
    | some s => exact ⟨.symbol s, text_mark hs, by simp⟩

/-- Where some pattern matches, the lexeme is the longest match. -/
theorem exists_longest {c : Char} {cs : List Char}
    (h : (first c cs).reading ≠ .fault .unexpected) :
    ∃ (m : Match) (rest : List Char), m.Longest (c :: cs) ∧ m.text ++ rest = c :: cs ∧
      first c cs = ⟨m.reading, m.text, rest⟩ := by
  have hsplits := splits_first c cs
  obtain ⟨p, hm, hname⟩ := exists_matches h
  have hlongest : Match.Longest ⟨p, (first c cs).text⟩ (c :: cs) := by
    refine ⟨⟨hm, ⟨_, hsplits.whole⟩⟩, ?_, hname⟩
    rintro ⟨p', text⟩ ⟨hm', rest, heq⟩
    obtain ⟨d, ds, rfl⟩ := List.exists_cons_of_ne_nil hm'.ne_nil
    obtain ⟨rfl, rfl⟩ := List.cons.inj heq
    exact (length_le_first hm' rest).1
  refine ⟨_, _, hlongest, hsplits.whole, ?_⟩
  have hmatch : Match.Longest ⟨p, c :: (first c cs).text.tail⟩
      (c :: ((first c cs).text.tail ++ (first c cs).rest)) := by
    rwa [hsplits.tail_append_rest, ← hsplits.text_eq_cons]
  have hfirst := first_of_longest hmatch
  rwa [hsplits.tail_append_rest, ← hsplits.text_eq_cons] at hfirst

/-- Where the lexeme is the fault of a text without a match, there is none. -/
theorem not_at_of_unexpected {c : Char} {cs : List Char}
    (h : (first c cs).reading = .fault .unexpected) (m : Match) : ¬ m.At (c :: cs) := by
  obtain ⟨p, text⟩ := m
  rintro ⟨hm, rest, heq⟩
  obtain ⟨d, ds, rfl⟩ := List.exists_cons_of_ne_nil hm.ne_nil
  obtain ⟨rfl, rfl⟩ := List.cons.inj heq
  exact (length_le_first hm rest).2 h

theorem unexpected_of_not_at {c : Char} {cs : List Char} (h : ∀ m : Match, ¬ m.At (c :: cs)) :
    (first c cs).reading = .fault .unexpected := by
  by_contra hreading
  obtain ⟨m, -, hm, -⟩ := exists_longest hreading
  exact h m hm.here

/-! ## The text of a fault -/

/-- A character that starts nothing is the whole of the fault, if it is no quote. -/
theorem first_of_unexpected {c : Char} {cs : List Char}
    (h : (first c cs).reading = .fault .unexpected) (hc : c ≠ '"') :
    first c cs = ⟨.fault .unexpected, [c], cs⟩ := by
  rcases first_cases c cs with hblank | ⟨rfl, hcs⟩ | hdigit | hname | hquote | hmark
  · rw [first_of_isBlank hblank] at h
    cases h
  · rw [first_comment hcs] at h
    cases h
  · rw [first_of_isDigit hdigit] at h
    exact absurd h (Runs.digits.reading_ne_unexpected _)
  · rw [first_of_isNameStart hname] at h
    exact absurd h (Runs.name.reading_ne_unexpected _)
  · exact absurd hquote hc
  · rw [hmark] at h ⊢
    cases hs : Symbol.mark? (c :: cs) with
    | none => simp [mark, hs]
    | some s => simp [mark, hs] at h

/-- Where a string is not closed, the line of its quote ends without another. -/
theorem exists_of_unclosed {cs : List Char} (h : (first '"' cs).reading = .fault .unexpected) :
    ∃ line rest, cs = line ++ rest ∧ '\n' ∉ line ∧ ∀ d ∈ rest.head?, d = '\n' := by
  refine ⟨cs.takeWhile isStringChar, cs.dropWhile isStringChar,
    List.takeWhile_append_dropWhile.symm, ?_, ?_⟩
  · intro hmem
    have := List.all_eq_true.1 List.all_takeWhile _ hmem
    exact (isStringChar_iff.1 this).2 rfl
  · intro d hd
    have hstop := not_of_head?_dropWhile d hd
    obtain ⟨ds, hds⟩ := List.head?_eq_some_iff.1 (Option.mem_def.1 hd)
    by_contra hline
    obtain rfl : d = '"' := by
      simpa [isStringChar, hline] using hstop
    simp [first_quote, string, hds] at h

/-- From a quote that none on its line closes, the fault goes up to the end of the
line. -/
theorem first_of_unclosed {line rest : List Char}
    (h : ∀ m : Match, ¬ m.At ('"' :: (line ++ rest))) (hline : '\n' ∉ line)
    (hrest : ∀ d ∈ rest.head?, d = '\n') :
    first '"' (line ++ rest) = ⟨.fault .unexpected, '"' :: line, rest⟩ := by
  have hquote : '"' ∉ line := by
    intro hmem
    obtain ⟨body, more, rfl, hbody⟩ := List.eq_append_cons_of_mem hmem
    refine h ⟨.string, '"' :: (body ++ ['"'])⟩ ⟨⟨body, rfl, ?_⟩, more ++ rest, by simp⟩
    intro c hc
    refine ⟨?_, ?_⟩
    · rintro rfl
      exact hbody hc
    · rintro rfl
      exact hline (List.mem_append_left _ hc)
  have hall : ∀ c ∈ line, isStringChar c = true := by
    intro c hc
    refine isStringChar_iff.2 ⟨?_, ?_⟩
    · rintro rfl
      exact hquote hc
    · rintro rfl
      exact hline hc
  rw [first_quote, string, List.takeWhile_append_of_pos hall, List.dropWhile_append_of_pos hall]
  cases rest with
  | nil => simp
  | cons d rest =>
    obtain rfl := hrest d rfl
    simp [isStringChar]

end Lexeme

end Scriptlet
