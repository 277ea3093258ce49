-- JSON documents, as trees and as tokens. A document keeps what it cannot
-- give a value to as it was written, so that a reader can pass over parts
-- that it has no use for.

namespace Scriptlet

namespace Json

/-- A string of a document. Some escapes write half a character; a string in
which such a half stands alone is no text and keeps its literal. -/
inductive Text where
  | whole (s : String)
  | broken (literal : String)
  deriving DecidableEq

end Json

/-- A JSON document. An object keeps all of its fields in order, and a number
that is not written as an integer keeps its literal. -/
inductive Json where
  | null
  | bool (b : Bool)
  | int (n : Int)
  | real (literal : String)
  | str (t : Json.Text)
  | arr (items : List Json)
  | obj (fields : List (Json.Text × Json))

namespace Json

/-- A string that is a text. -/
def ofString (s : String) : Json := str (.whole s)

def ofNat (n : Nat) : Json := int n

/-- An object whose keys are texts. -/
def ofFields (fields : List (String × Json)) : Json :=
  obj (fields.map fun (k, v) => (.whole k, v))

/-! ## Tokens -/

inductive Token where
  | openArr | closeArr | openObj | closeObj | comma | colon
  | null
  | bool (b : Bool)
  | int (n : Int)
  | real (literal : String)
  | str (t : Text)
  deriving DecidableEq

mutual

/-- The tokens of a document, in front of further tokens. -/
def tokensTo : Json → List Token → List Token
  | null, ts => .null :: ts
  | bool b, ts => .bool b :: ts
  | int n, ts => .int n :: ts
  | real literal, ts => .real literal :: ts
  | str t, ts => .str t :: ts
  | arr [], ts => .openArr :: .closeArr :: ts
  | arr (v :: vs), ts => .openArr :: v.tokensTo (itemsTo vs (.closeArr :: ts))
  | obj [], ts => .openObj :: .closeObj :: ts
  | obj ((k, v) :: fs), ts =>
    .openObj :: .str k :: .colon :: v.tokensTo (fieldsTo fs (.closeObj :: ts))

/-- Further items of an array, each after a comma. -/
def itemsTo : List Json → List Token → List Token
  | [], ts => ts
  | v :: vs, ts => .comma :: v.tokensTo (itemsTo vs ts)

/-- Further fields of an object, each after a comma. -/
def fieldsTo : List (Text × Json) → List Token → List Token
  | [], ts => ts
  | (k, v) :: fs, ts => .comma :: .str k :: .colon :: v.tokensTo (fieldsTo fs ts)

end

/-- The tokens of a document. -/
def tokens (j : Json) : List Token := j.tokensTo []

end Json

end Scriptlet
