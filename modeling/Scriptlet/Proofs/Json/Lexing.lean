-- How a document is written, token by token. A token may have many texts, and blanks may
-- stand anywhere between two of them. The lexer reads some tokens from exactly the texts that
-- write them, and both printed forms are such texts.
import Scriptlet.Json.Printer
import Scriptlet.Proofs.Json.Strings

namespace Scriptlet.Json

/-! ## One token -/

/-- Parts of a string between their quotes. -/
def Quoted (parts : List Char → Prop) (cs : List Char) : Prop :=
  ∃ inside, parts inside ∧ cs = '"' :: (inside ++ ['"'])

/-- A text of one token. A string that is no text and a number that is no integer are
kept as they were written. -/
def Token.Written : Token → List Char → Prop
  | .int n, cs => NumberWritten (.int n) cs
  | .real literal, cs => NumberWritten (.real literal) cs
  | .str (.whole s), cs => Quoted (CharsWritten s.toList) cs
  | .str (.broken literal), cs => cs = literal.toList ∧
    Quoted (fun inside => (∃ ps, PiecesWritten ps inside) ∧ ∀ text, ¬CharsWritten text inside) cs
  | t, cs => cs = t.spelling

theorem written_of_scanned {cs : List Char} {s : Scanned} (h : scanString cs = some s) :
    ∃ text, (Token.str s.string).Written ('"' :: text) ∧ cs = text ++ s.rest := by
  obtain ⟨inside, hinside, htext, rfl⟩ := written_of_scanString h
  refine ⟨_, ?_, rfl⟩
  unfold Scanned.string
  split
  · next text hpieces =>
    refine ⟨inside, ?_, by rw [htext]⟩
    rw [String.toList_ofList]
    exact charsWritten_of_assemble hinside hpieces
  · next hpieces =>
    refine ⟨by rw [String.toList_ofList], inside, ⟨⟨_, hinside⟩, fun text hchars => ?_⟩,
      by rw [htext]⟩
    obtain ⟨ps, hps, hwhole⟩ := hchars.exists_pieces
    rw [hps.unique hinside, hpieces] at hwhole
    cases hwhole

theorem NumberWritten.written {t : Token} {cs : List Char} (h : NumberWritten t cs) :
    t.Written cs := by
  cases h with
  | int n => exact .int n
  | real h => exact .real h

theorem written_of_number? {negative : Bool} {cs rest : List Char} {t : Token}
    (h : number? negative cs = some (t, rest)) :
    ∃ text, t.Written (signOf negative ++ text) ∧ text ≠ [] ∧ cs = text ++ rest := by
  obtain ⟨whole, fraction, exponent, hw, hf, he, rfl, rfl⟩ := number?_eq_some h
  exact ⟨_, (numberWritten_numberToken hw hf he).written,
    List.append_ne_nil_of_left_ne_nil hw.areDigits.1 _, rfl⟩

/-- What is taken for a token is a text of it. -/
theorem written_of_firstToken {c : Char} {cs rest : List Char} {t : Token}
    (h : firstToken c cs = some (t, rest)) : ∃ text, t.Written (c :: text) ∧ cs = text ++ rest := by
  unfold firstToken at h
  split at h
  iterate 9
    · cases h
      exact ⟨_, rfl, rfl⟩
  · obtain ⟨s, hs, heq⟩ := Option.map_eq_some_iff.1 h
    cases heq
    exact written_of_scanned hs
  · obtain ⟨text, ht, -, htext⟩ := written_of_number? h
    exact ⟨text, ht, htext⟩
  · split at h
    · obtain ⟨text, ht, hne, htext⟩ := written_of_number? h
      obtain ⟨d, text, rfl⟩ := List.exists_cons_of_ne_nil hne
      obtain ⟨rfl, rfl⟩ := List.cons.inj htext
      exact ⟨text, ht, rfl⟩
    · cases h

def Token.IsNumber : Token → Prop
  | .int _ | .real _ => True
  | _ => False

theorem firstToken_of_scanned {inside : List Char} {ps : List Piece}
    (h : PiecesWritten ps inside) (rest : List Char) :
    firstToken '"' (inside ++ ['"'] ++ rest) =
      some (.str (Scanned.string ⟨ps, inside ++ ['"'], rest⟩), rest) := by
  rw [List.append_assoc, List.singleton_append, firstToken, h.scanString_eq]
  rfl

/-- A text of a token is read as the token. After a number, the text must not go on with
it. -/
theorem Token.Written.firstToken_eq {t : Token} {cs rest : List Char} (h : t.Written cs)
    (hrest : t.IsNumber → Apart rest) : ∃ c tail, cs = c :: tail ∧ isBlank c = false ∧
      firstToken c (tail ++ rest) = some (t, rest) := by
  cases t with
  | int n => exact NumberWritten.firstToken_eq h (hrest trivial)
  | real literal => exact NumberWritten.firstToken_eq h (hrest trivial)
  | str t =>
    cases t with
    | whole s =>
      obtain ⟨inside, hchars, rfl⟩ := h
      obtain ⟨ps, hps, hwhole⟩ := hchars.exists_pieces
      refine ⟨'"', _, rfl, rfl, (firstToken_of_scanned hps rest).trans ?_⟩
      simp only [Scanned.string, hwhole, String.ofList_toList]
    | broken literal =>
      obtain ⟨hliteral, inside, ⟨⟨ps, hps⟩, hnone⟩, rfl⟩ := h
      refine ⟨'"', _, rfl, rfl, (firstToken_of_scanned hps rest).trans ?_⟩
      have hbroken : assemble ps = none := by
        rw [Option.eq_none_iff_forall_ne_some]
        intro text htext
        exact hnone text (charsWritten_of_assemble hps htext)
      simp only [Scanned.string, hbroken, hliteral, String.ofList_toList]
  | bool b =>
    cases h
    cases b <;> exact ⟨_, _, rfl, rfl, rfl⟩
  | _ =>
    cases h
    exact ⟨_, _, rfl, rfl, rfl⟩

/-! ## Texts of many tokens -/

/-- A text that writes tokens one after another, with blanks around them. -/
inductive Written : List Token → List Char → Prop
  | nil : Written [] []
  | blank {ts c cs} : isBlank c = true → Written ts cs → Written ts (c :: cs)
  | token {t ts text cs} : t.Written text → Written ts cs → Written (t :: ts) (text ++ cs)

theorem written_of_lex {cs : List Char} {ts : List Token} (h : lex cs = some ts) :
    Written ts cs := by
  fun_induction lex cs generalizing ts with
  | case1 =>
    cases h
    exact .nil
  | case2 c cs hc ih => exact .blank hc (ih h)
  | case3 c cs _ t rest hfirst ih =>
    obtain ⟨ts, hts, rfl⟩ := Option.map_eq_some_iff.1 h
    obtain ⟨text, ht, rfl⟩ := written_of_firstToken hfirst
    exact .token ht (ih hts)
  | case4 => cases h

theorem apart_nil : Apart [] := by
  intro c hc
  cases hc

theorem apart_of_isBlank {c : Char} (h : isBlank c = true) (cs : List Char) : Apart (c :: cs) := by
  intro d hd
  cases hd
  simp only [isBlank, Bool.or_eq_true, beq_iff_eq] at h
  rcases h with ((rfl | rfl) | rfl) | rfl <;> decide

/-- Whether a token can come after a number. -/
def Token.Ends : Token → Prop
  | comma | closeArr | closeObj => True
  | _ => False

theorem Token.Ends.apart {t : Token} (h : t.Ends) {text : List Char} (ht : t.Written text)
    (cs : List Char) : Apart (text ++ cs) := by
  intro c hc
  cases t with
  | comma | closeArr | closeObj =>
    cases ht
    cases hc
    decide
  | _ => exact h.elim

theorem Written.apart {ts : List Token} {cs : List Char} (h : Written ts cs)
    (hends : ∀ t ∈ ts.head?, t.Ends) : Apart cs := by
  cases h with
  | nil => exact apart_nil
  | blank hc _ => exact apart_of_isBlank hc _
  | token ht _ => exact (hends _ rfl).apart ht _

/-- Tokens of which no number stands right before what could go on with it. -/
def Separated : List Token → Prop
  | [] => True
  | t :: ts => (t.IsNumber → ∀ u ∈ ts.head?, u.Ends) ∧ Separated ts

theorem Written.lex_eq {ts : List Token} {cs : List Char} (h : Written ts cs)
    (hts : Separated ts) : lex cs = some ts := by
  induction h with
  | nil => rw [lex]
  | blank hc _ ih =>
    rw [lex, if_pos hc]
    exact ih hts
  | @token t ts text rest ht hrest ih =>
    obtain ⟨hnumber, hts⟩ := hts
    obtain ⟨c, cs, rfl, hblank, hfirst⟩ :=
      ht.firstToken_eq fun hn => hrest.apart (hnumber hn)
    rw [List.cons_append, lex, if_neg (by rw [hblank]; exact Bool.false_ne_true)]
    split
    · next t' rest' heq =>
      rw [hfirst] at heq
      cases heq
      rw [ih hts]
      rfl
    · next heq =>
      rw [hfirst] at heq
      cases heq

theorem Written.blanks {ts : List Token} {cs bs : List Char} (hbs : ∀ c ∈ bs, isBlank c = true)
    (h : Written ts cs) : Written ts (bs ++ cs) := by
  induction bs with
  | nil => exact h
  | cons c bs ih =>
    obtain ⟨hc, hbs⟩ := List.forall_mem_cons.1 hbs
    exact .blank hc (ih hbs)

/-- A line feed after the whole text is one more blank. -/
theorem Written.concat_lineFeed {ts : List Token} {cs : List Char} (h : Written ts cs) :
    Written ts (cs ++ ['\n']) := by
  induction h with
  | nil => exact .blank rfl .nil
  | blank hc _ ih => exact .blank hc ih
  | token ht _ ih =>
    rw [List.append_assoc]
    exact .token ht ih

/-! ## The two printed forms -/

/-- Whether a token has a text of its own. A string that is no text and a number that is
no integer are kept as they were written, which may be anything. -/
def Token.Plain : Token → Prop
  | real _ | str (.broken _) => False
  | _ => True

theorem Token.Plain.written {t : Token} (h : t.Plain) : t.Written t.spelling := by
  cases t with
  | real literal => exact h.elim
  | int n => exact .int n
  | str t =>
    cases t with
    | broken literal => exact h.elim
    | whole s => exact ⟨_, charsWritten_escape s.toList, rfl⟩
  | _ => rfl

theorem written_compact {ts : List Token} (h : ∀ t ∈ ts, t.Plain) :
    Written ts (ts.flatMap Token.spelling) := by
  induction ts with
  | nil => exact .nil
  | cons t ts ih =>
    obtain ⟨ht, hts⟩ := List.forall_mem_cons.1 h
    exact .token ht.written (ih hts)

theorem isBlank_of_mem_newLine {depth : Nat} {c : Char} (h : c ∈ newLine depth) :
    isBlank c = true := by
  rcases List.mem_cons.1 h with rfl | h
  · rfl
  · rw [(List.mem_replicate.1 h).2]
    rfl

theorem isBlank_of_mem_indentation {depth : Nat} {before after : Token} {c : Char}
    (h : c ∈ indentation depth before after) : isBlank c = true := by
  unfold indentation at h
  split at h
  · cases h
  split at h
  · exact isBlank_of_mem_newLine h
  split at h
  · rw [List.mem_singleton.1 h]
    rfl
  · cases h

theorem written_spaced {depth : Nat} {before : Token} {ts : List Token}
    (h : ∀ t ∈ ts, t.Plain) : Written ts (spaced depth before ts) := by
  induction ts generalizing depth before with
  | nil => exact .nil
  | cons t ts ih =>
    obtain ⟨ht, hts⟩ := List.forall_mem_cons.1 h
    exact .blanks (fun c => isBlank_of_mem_indentation) (.token ht.written (ih hts))

end Scriptlet.Json
