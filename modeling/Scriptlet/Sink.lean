-- Where a program prints. An output takes one text at a time; it may refuse a
-- text, or refuse to be flushed, and says why. A sink is an output that keeps
-- what is printed and may hold only so many bytes: what goes past that is lost,
-- and the write that it belongs to fails.

namespace Scriptlet

/-! ## Outputs -/

/-- What can be printed to. A write and a flush leave the output in a new state,
with a message if they failed. -/
class Output (σ : Type) where
  write : σ → String → σ × Option String
  flush : σ → σ × Option String

/-! ## Sinks -/

/-- The bytes printed so far, how many the sink can hold if there is a limit,
and whether a flush fails. -/
structure Sink where
  written : ByteArray
  limit : Option Nat
  flushFails : Bool

namespace Sink

/-- An empty sink that never fails. -/
def unlimited : Sink := ⟨.empty, none, false⟩

/-- How many of `n` more bytes fit. -/
def fitting (s : Sink) (n : Nat) : Nat :=
  match s.limit with
  | some limit => min n (limit - s.written.size)
  | none => n

/-- The message of a write that does not fit. -/
def closedMessage : String := "sink closed"

/-- The message of a flush that fails. -/
def flushMessage : String := "flush failed"

/-- The sink after a text, of which it keeps what fits. -/
def write (s : Sink) (text : String) : Sink × Option String :=
  let bytes := text.toUTF8
  let n := s.fitting bytes.size
  ({ s with written := s.written ++ bytes.extract 0 n },
    if n = bytes.size then none else some closedMessage)

def flush (s : Sink) : Sink × Option String :=
  (s, if s.flushFails then some flushMessage else none)

instance : Output Sink := ⟨write, flush⟩

end Sink

end Scriptlet
