-- From text to the tokens of a document. Blanks are the four of the format. A
-- number is read as far as it goes and must be whole; a string may write any
-- character by its number, the larger ones as two halves.
import Scriptlet.Json

namespace Scriptlet.Json

/-! ## Numbers -/

/-- One or more digits at the head of a text. -/
def digits? (cs : List Char) : Option (List Char × List Char) :=
  match cs.takeWhile Char.isDigit with
  | [] => none
  | ds => some (ds, cs.dropWhile Char.isDigit)

/-- The digits of an integer, which starts with a zero only if it is one. -/
def whole? (cs : List Char) : Option (List Char × List Char) :=
  match cs with
  | '0' :: rest => some (['0'], rest)
  | cs => digits? cs

/-- A point and digits, or nothing. -/
def fraction? (cs : List Char) : Option (List Char × List Char) :=
  match cs with
  | '.' :: rest => (digits? rest).map fun (ds, rest) => ('.' :: ds, rest)
  | cs => some ([], cs)

/-- The sign of an exponent, or nothing. -/
def exponentSign (cs : List Char) : List Char × List Char :=
  match cs with
  | '+' :: rest => (['+'], rest)
  | '-' :: rest => (['-'], rest)
  | cs => ([], cs)

/-- An exponent, or nothing. -/
def exponent? (cs : List Char) : Option (List Char × List Char) :=
  match cs with
  | c :: rest =>
    if c = 'e' ∨ c = 'E' then
      let signed := exponentSign rest
      (digits? signed.2).map fun (ds, rest) => (c :: (signed.1 ++ ds), rest)
    else some ([], cs)
  | [] => some ([], cs)

/-- The token of a number. Minus zero is not an integer. -/
def numberToken (negative : Bool) (whole rest : List Char) : Token :=
  let sign := if negative then ['-'] else []
  let n := Nat.ofDigitChars 10 whole 0
  if rest ≠ [] ∨ negative ∧ n = 0 then .real (String.ofList (sign ++ whole ++ rest))
  else .int (if negative then -n else n)

/-- A number without its sign. -/
def number? (negative : Bool) (cs : List Char) : Option (Token × List Char) := do
  let (whole, cs) ← whole? cs
  let (fraction, cs) ← fraction? cs
  let (exponent, cs) ← exponent? cs
  return (numberToken negative whole (fraction ++ exponent), cs)

/-! ## Strings -/

/-- A part of a string: a character, or half of one that was written by its
number. -/
inductive Piece where
  | char (c : Char)
  | high (n : Nat)
  | low (n : Nat)

def hexValue? (c : Char) : Option Nat :=
  if c.isDigit then some (c.toNat - '0'.toNat)
  else if 'a' ≤ c ∧ c ≤ 'f' then some (c.toNat - 'a'.toNat + 10)
  else if 'A' ≤ c ∧ c ≤ 'F' then some (c.toNat - 'A'.toNat + 10)
  else none

/-- The piece with this number of sixteen bits. -/
def Piece.ofNat (n : Nat) : Piece :=
  if 0xd800 ≤ n ∧ n < 0xdc00 then .high (n - 0xd800)
  else if 0xdc00 ≤ n ∧ n < 0xe000 then .low (n - 0xdc00)
  else .char (Char.ofNat n)

/-- A piece written by its four hexadecimal digits. -/
def numbered? (a b c d : Char) : Option Piece := do
  let a ← hexValue? a
  let b ← hexValue? b
  let c ← hexValue? c
  let d ← hexValue? d
  return .ofNat (((a * 16 + b) * 16 + c) * 16 + d)

/-- The character that a short escape writes. -/
def shortEscape? : Char → Option Char
  | '"' => some '"'
  | '\\' => some '\\'
  | '/' => some '/'
  | 'b' => some '\x08'
  | 'f' => some '\x0c'
  | 'n' => some '\n'
  | 'r' => some '\r'
  | 't' => some '\t'
  | _ => none

/-- A string after its opening quote: its pieces, the characters that write
them with the closing quote, and the rest of the text. -/
structure Scanned where
  pieces : List Piece
  text : List Char
  rest : List Char

/-- The string with one more piece in front, written by `text`. -/
def Scanned.cons (p : Piece) (text : List Char) (s : Scanned) : Scanned :=
  ⟨p :: s.pieces, text ++ s.text, s.rest⟩

/-- A string up to its closing quote. A control character must be escaped. -/
def scanString : List Char → Option Scanned
  | [] => none
  | '"' :: rest => some ⟨[], ['"'], rest⟩
  | '\\' :: 'u' :: a :: b :: c :: d :: rest =>
    match numbered? a b c d with
    | some p => (scanString rest).map (.cons p ['\\', 'u', a, b, c, d])
    | none => none
  | '\\' :: e :: rest =>
    match shortEscape? e with
    | some c => (scanString rest).map (.cons (.char c) ['\\', e])
    | none => none
  | c :: rest =>
    if c.toNat < 0x20 ∨ c = '\\' then none
    else (scanString rest).map (.cons (.char c) [c])

/-- The text of some pieces. A high half and the low half right after it make
one character; any other half stands alone. -/
def assemble : List Piece → Option (List Char)
  | [] => some []
  | .char c :: ps => (assemble ps).map (c :: ·)
  | .high h :: .low l :: ps =>
    (assemble ps).map (Char.ofNat (0x10000 + h * 0x400 + l) :: ·)
  | _ :: _ => none

/-- The string that was scanned. -/
def Scanned.string (s : Scanned) : Text :=
  match assemble s.pieces with
  | some cs => .whole (String.ofList cs)
  | none => .broken (String.ofList ('"' :: s.text))

/-! ## One token -/

def isBlank (c : Char) : Bool := c == ' ' || c == '\n' || c == '\t' || c == '\r'

/-- A token that starts with `c`, and the text after it. -/
def firstToken (c : Char) (cs : List Char) : Option (Token × List Char) :=
  match c, cs with
  | '[', cs => some (.openArr, cs)
  | ']', cs => some (.closeArr, cs)
  | '\x7b', cs => some (.openObj, cs)
  | '\x7d', cs => some (.closeObj, cs)
  | ',', cs => some (.comma, cs)
  | ':', cs => some (.colon, cs)
  | 'n', 'u' :: 'l' :: 'l' :: cs => some (.null, cs)
  | 't', 'r' :: 'u' :: 'e' :: cs => some (.bool true, cs)
  | 'f', 'a' :: 'l' :: 's' :: 'e' :: cs => some (.bool false, cs)
  | '"', cs => (scanString cs).map fun s => (.str s.string, s.rest)
  | '-', cs => number? true cs
  | c, cs => if c.isDigit then number? false (c :: cs) else none

/-! ## A token takes at least one character -/

theorem length_digits? {cs ds rest : List Char} (h : digits? cs = some (ds, rest)) :
    rest.length < cs.length := by
  unfold digits? at h
  split at h
  · cases h
  · next ds' hne =>
    cases h
    have := congrArg List.length (List.takeWhile_append_dropWhile (p := Char.isDigit) (l := cs))
    have hpos : 0 < (cs.takeWhile Char.isDigit).length := List.length_pos_iff.mpr hne
    simp only [List.length_append] at this
    omega

theorem length_whole? {cs ds rest : List Char} (h : whole? cs = some (ds, rest)) :
    rest.length < cs.length := by
  unfold whole? at h
  split at h
  · cases h; simp
  · exact length_digits? h

theorem length_fraction? {cs ds rest : List Char} (h : fraction? cs = some (ds, rest)) :
    rest.length ≤ cs.length := by
  unfold fraction? at h
  split at h
  · next r =>
    obtain ⟨⟨ds', rest'⟩, hd, he⟩ := Option.map_eq_some_iff.1 h
    cases he
    have := length_digits? hd
    simp only [List.length_cons]
    omega
  · cases h; simp

theorem length_exponentSign (cs : List Char) : (exponentSign cs).2.length ≤ cs.length := by
  unfold exponentSign
  split <;> simp

theorem length_exponent? {cs ds rest : List Char} (h : exponent? cs = some (ds, rest)) :
    rest.length ≤ cs.length := by
  unfold exponent? at h
  split at h
  · next c r =>
    split at h
    · obtain ⟨⟨ds', rest'⟩, hd, he⟩ := Option.map_eq_some_iff.1 h
      cases he
      have := length_digits? hd
      have := length_exponentSign r
      simp only [List.length_cons]
      omega
    · cases h; simp
  · cases h; simp

theorem length_number? {negative : Bool} {cs rest : List Char} {t : Token}
    (h : number? negative cs = some (t, rest)) : rest.length < cs.length := by
  simp only [number?, Option.bind_eq_bind, Option.bind_eq_some_iff, Option.pure_def,
    Option.some.injEq, Prod.mk.injEq, Prod.exists] at h
  obtain ⟨_, _, hw, _, _, hf, _, _, he, _, rfl⟩ := h
  have := length_whole? hw
  have := length_fraction? hf
  have := length_exponent? he
  omega

theorem length_scanString {cs : List Char} {s : Scanned} (h : scanString cs = some s) :
    s.rest.length < cs.length := by
  fun_induction scanString cs generalizing s with
  | case1 => cases h
  | case2 rest => cases h; simp
  | case3 a b c d rest p _ ih =>
    obtain ⟨s', hs, rfl⟩ := Option.map_eq_some_iff.1 h
    have := ih hs
    simp only [Scanned.cons, List.length_cons]
    omega
  | case4 => cases h
  | case5 e rest _ c _ ih =>
    obtain ⟨s', hs, rfl⟩ := Option.map_eq_some_iff.1 h
    have := ih hs
    simp only [Scanned.cons, List.length_cons]
    omega
  | case6 => cases h
  | case7 => cases h
  | case8 c rest _ _ _ _ ih =>
    obtain ⟨s', hs, rfl⟩ := Option.map_eq_some_iff.1 h
    have := ih hs
    simp only [Scanned.cons, List.length_cons]
    omega

theorem length_firstToken {c : Char} {cs rest : List Char} {t : Token}
    (h : firstToken c cs = some (t, rest)) : rest.length ≤ cs.length := by
  unfold firstToken at h
  split at h
  iterate 6 (· cases h; exact Nat.le_refl _)
  iterate 3 (· cases h; simp only [List.length_cons]; omega)
  · obtain ⟨s, hs, he⟩ := Option.map_eq_some_iff.1 h
    cases he
    exact Nat.le_of_lt (length_scanString hs)
  · exact Nat.le_of_lt (length_number? h)
  · split at h
    · exact Nat.le_of_lt_succ (length_number? h)
    · cases h

/-! ## A whole text -/

/-- The tokens of a text, or none where something is not a token. -/
def lex : List Char → Option (List Token)
  | [] => some []
  | c :: cs =>
    if isBlank c then lex cs
    else
      match _h : firstToken c cs with
      | some (t, rest) => (lex rest).map (t :: ·)
      | none => none
termination_by cs => cs.length
decreasing_by
  · simp
  · exact Nat.lt_succ_of_le (length_firstToken _h)

end Scriptlet.Json
