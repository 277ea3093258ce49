-- From tokens to a document. The parser takes one token at a time and keeps
-- the containers that are still open, so nesting has no limit here.
import Scriptlet.Json.Lexer

namespace Scriptlet.Json

/-! ## The state -/

/-- An open container with what it holds so far, the last part first. -/
inductive Frame where
  | items (done : List Json)
  /-- An object, and the key of the field being read. -/
  | field (done : List (Text × Json)) (key : Text)

/-- What the parser waits for. -/
inductive Await where
  | value
  /-- The first item of an array, or its end. -/
  | firstItem
  /-- The first key of an object, or its end. -/
  | firstKey
  /-- The next key of an object that holds these fields. -/
  | key (done : List (Text × Json))
  | colon (done : List (Text × Json)) (key : Text)
  /-- The end of the container around a finished value, or a comma. -/
  | next (v : Json)

structure Parser where
  frames : List Frame
  await : Await

namespace Parser

def start : Parser := ⟨[], .value⟩

/-- The value that a token is by itself. -/
def scalar? : Token → Option Json
  | .null => some .null
  | .bool b => some (.bool b)
  | .int n => some (.int n)
  | .real literal => some (.real literal)
  | .str t => some (.str t)
  | _ => none

/-- The parser after the first token of a value. -/
def beginValue (frames : List Frame) (t : Token) : Option Parser :=
  match t with
  | .openArr => some ⟨frames, .firstItem⟩
  | .openObj => some ⟨frames, .firstKey⟩
  | t => (scalar? t).map fun v => ⟨frames, .next v⟩

/-- The parser after a token that follows the finished value `v`. -/
def afterValue (frames : List Frame) (v : Json) (t : Token) : Option Parser :=
  match frames, t with
  | .items done :: fs, .comma => some ⟨.items (v :: done) :: fs, .value⟩
  | .items done :: fs, .closeArr => some ⟨fs, .next (.arr (v :: done).reverse)⟩
  | .field done k :: fs, .comma => some ⟨fs, .key ((k, v) :: done)⟩
  | .field done k :: fs, .closeObj => some ⟨fs, .next (.obj ((k, v) :: done).reverse)⟩
  | _, _ => none

/-- The parser after one more token, if the token can stand there. -/
def step (p : Parser) (t : Token) : Option Parser :=
  match p.await, t with
  | .value, t => beginValue p.frames t
  | .firstItem, .closeArr => some ⟨p.frames, .next (.arr [])⟩
  | .firstItem, t => beginValue (.items [] :: p.frames) t
  | .firstKey, .closeObj => some ⟨p.frames, .next (.obj [])⟩
  | .firstKey, .str k => some ⟨p.frames, .colon [] k⟩
  | .key done, .str k => some ⟨p.frames, .colon done k⟩
  | .colon done k, .colon => some ⟨.field done k :: p.frames, .value⟩
  | .next v, t => afterValue p.frames v t
  | _, _ => none

/-- The document, if it can end here. -/
def done? (p : Parser) : Option Json :=
  match p.frames, p.await with
  | [], .next v => some v
  | _, _ => none

/-- Feeds tokens to a parser. -/
def run (p : Parser) : List Token → Option Json
  | [] => p.done?
  | t :: ts =>
    match p.step t with
    | some p => p.run ts
    | none => none

end Parser

/-- The document that some tokens write. -/
def ofTokens? (ts : List Token) : Option Json := Parser.start.run ts

/-- The document that a text writes. Nothing but blanks may stand around it. -/
def parse? (source : String) : Option Json := (lex source.toList).bind ofTokens?

end Scriptlet.Json
