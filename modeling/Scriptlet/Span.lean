-- Places in a source text. Offsets count the bytes of its UTF-8 form and
-- lines count from one. A line feed belongs to the line that it ends.

namespace Scriptlet

/-! ## Spans -/

/-- A stretch of a source text: its first offset, the offset after its last,
and the line on which it starts. -/
structure Span where
  start : Nat
  stop : Nat
  line : Nat
  deriving DecidableEq, Inhabited

namespace Span

/-- The stretch from the start of `first` to the end of `last`. -/
def cover (first last : Span) : Span := ⟨first.start, last.stop, first.line⟩

def display (s : Span) : String := s!"{s.start}..{s.stop} (line {s.line})"

@[simp] theorem cover_start (a b : Span) : (cover a b).start = a.start := rfl

@[simp] theorem cover_stop (a b : Span) : (cover a b).stop = b.stop := rfl

@[simp] theorem cover_line (a b : Span) : (cover a b).line = a.line := rfl

end Span

/-! ## Walking over a text -/

/-- A point between two characters of a text. -/
structure Position where
  offset : Nat
  line : Nat
  deriving DecidableEq

namespace Position

/-- The point before the first character. -/
def origin : Position := ⟨0, 1⟩

/-- The point after one more character. -/
def next (p : Position) (c : Char) : Position :=
  ⟨p.offset + c.utf8Size, if c = '\n' then p.line + 1 else p.line⟩

/-- The point after some more text. -/
def advance (p : Position) (text : List Char) : Position := text.foldl next p

/-- The stretch from `p` to a later point. -/
def spanTo (p q : Position) : Span := ⟨p.offset, q.offset, p.line⟩

@[simp] theorem advance_nil (p : Position) : p.advance [] = p := rfl

@[simp] theorem advance_cons (p : Position) (c : Char) (cs : List Char) :
    p.advance (c :: cs) = (p.next c).advance cs := rfl

theorem advance_append (p : Position) (xs ys : List Char) :
    p.advance (xs ++ ys) = (p.advance xs).advance ys := by
  simp [advance, List.foldl_append]

end Position

end Scriptlet
