-- From text to tokens. At every place the longest lexeme is taken: a run of
-- blanks, a comment up to its line feed, or one token. Reading stops at the
-- first place where nothing matches or an integer is too large.
import Scriptlet.Integer
import Scriptlet.Span
import Scriptlet.Text.Quoted
import Scriptlet.Token

namespace Scriptlet

/-! ## Character classes -/

def isBlank (c : Char) : Bool := c == ' ' || c == '\t' || c == '\n' || c == '\r'

/-- Whether an identifier can start with `c`: an ASCII letter or an
underscore. -/
def isNameStart (c : Char) : Bool := c.isAlpha || c == '_'

def isNameChar (c : Char) : Bool := isNameStart c || c.isDigit

/-- Whether `c` can stand between the quotes of a string. -/
def isStringChar (c : Char) : Bool := c != '"' && c != '\n'

/-! ## One lexeme -/

/-- Why the text at some place is not a lexeme. -/
inductive LexFault where
  /-- Nothing matches here. -/
  | unexpected
  /-- An integer is past the largest of 64 bits. -/
  | outOfRange
  deriving DecidableEq

/-- What one lexeme stands for. -/
inductive Reading where
  | skip
  | token (t : Token)
  | fault (f : LexFault)

/-- A lexeme: what it stands for, its text, and the text after it. -/
structure Lexeme where
  reading : Reading
  text : List Char
  rest : List Char

namespace Lexeme

/-- The lexeme made of `c` and the longest run of `p` after it. -/
def run (reading : List Char → Reading) (p : Char → Bool) (c : Char) (cs : List Char) :
    Lexeme :=
  let text := c :: cs.takeWhile p
  ⟨reading text, text, cs.dropWhile p⟩

/-- An integer, or the fault of one that is too large. -/
def number (digits : List Char) : Reading :=
  match integer? (Nat.ofDigitChars 10 digits 0) with
  | some n => .token (.int n)
  | none => .fault .outOfRange

/-- A keyword, or else an identifier. -/
def word (text : List Char) : Reading :=
  match Symbol.keyword? text with
  | some s => .token (.symbol s)
  | none => .token (.ident (String.ofList text))

/-- A string after its opening quote. Without a closing quote on the same line
the fault takes everything up to the end of the line. -/
def string (cs : List Char) : Lexeme :=
  let body := cs.takeWhile isStringChar
  match cs.dropWhile isStringChar with
  | '"' :: rest =>
    let text := '"' :: (body ++ ['"'])
    ⟨.token (.str (String.ofList text)), text, rest⟩
  | rest => ⟨.fault .unexpected, '"' :: body, rest⟩

/-- The longest mark, or the fault of a character that starts no lexeme. -/
def mark (c : Char) (cs : List Char) : Lexeme :=
  match Symbol.mark? (c :: cs) with
  | some s =>
    let n := s.spelling.length
    ⟨.token (.symbol s), (c :: cs).take n, (c :: cs).drop n⟩
  | none => ⟨.fault .unexpected, [c], cs⟩

/-- The longest lexeme at the head of a text that is not empty. -/
def first (c : Char) (cs : List Char) : Lexeme :=
  if isBlank c then run (fun _ => .skip) isBlank c cs
  else if c = '/' ∧ cs.head? = some '/' then run (fun _ => .skip) (· != '\n') c cs
  else if c.isDigit then run number Char.isDigit c cs
  else if isNameStart c then run word isNameChar c cs
  else if c = '"' then string cs
  else mark c cs

/-! ## A lexeme takes at least one character -/

theorem length_rest_run (r : List Char → Reading) (p : Char → Bool) (c : Char)
    (cs : List Char) : (run r p c cs).rest.length ≤ cs.length := by
  simpa [run] using (List.dropWhile_suffix p).length_le

theorem length_rest_string (cs : List Char) : (string cs).rest.length ≤ cs.length := by
  have h := (List.dropWhile_suffix (l := cs) isStringChar).length_le
  unfold string
  split
  · next rest eq => rw [eq] at h; simp only [List.length_cons] at h ⊢; omega
  · exact h

theorem spelling_length_pos (s : Symbol) : 0 < s.spelling.length := by
  cases s <;> decide

theorem length_rest_mark (c : Char) (cs : List Char) : (mark c cs).rest.length ≤ cs.length := by
  unfold mark
  split
  · next s _ =>
    have := spelling_length_pos s
    simp only [List.length_drop, List.length_cons]
    omega
  · simp

theorem length_rest_first (c : Char) (cs : List Char) : (first c cs).rest.length ≤ cs.length := by
  unfold first
  split
  · exact length_rest_run ..
  split
  · exact length_rest_run ..
  split
  · exact length_rest_run ..
  split
  · exact length_rest_run ..
  split
  · exact length_rest_string cs
  · exact length_rest_mark c cs

end Lexeme

/-! ## A whole text -/

/-- The place where a text stops being made of lexemes, and what stands there. -/
structure LexError where
  fault : LexFault
  text : List Char
  span : Span

def LexError.message (e : LexError) : String :=
  match e.fault with
  | .unexpected => "unexpected character: " ++ Text.quote (String.ofList e.text)
  | .outOfRange => "integer literal out of range: " ++ String.ofList e.text

/-- The tokens of the rest of a text that starts at `p`. -/
def tokensFrom (p : Position) : List Char → Except LexError (List (Token × Span))
  | [] => .ok []
  | c :: cs =>
    let lexeme := Lexeme.first c cs
    let stop := p.advance lexeme.text
    match lexeme.reading with
    | .skip => tokensFrom stop lexeme.rest
    | .token t => (tokensFrom stop lexeme.rest).map ((t, p.spanTo stop) :: ·)
    | .fault f => .error ⟨f, lexeme.text, p.spanTo stop⟩
termination_by cs => cs.length
decreasing_by
  all_goals exact Nat.lt_succ_of_le (Lexeme.length_rest_first c cs)

/-- The tokens of a source text, each with where it stands. -/
def tokenize (source : String) : Except LexError (List (Token × Span)) :=
  tokensFrom .origin source.toList

end Scriptlet
