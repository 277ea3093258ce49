-- The form in which a listing of tokens shows each one.
import Scriptlet.Span
import Scriptlet.Text.Quoted
import Scriptlet.Token

namespace Scriptlet.Token

/-- The label of a token, with what it carries in parentheses. -/
def label : Token → String
  | symbol s => s.label
  | int n => s!"IntLit({n.toInt})"
  | str raw => s!"StringLit({Text.quote raw})"
  | ident name => s!"Ident({Text.quote name})"

/-- A line of a token listing. -/
def listing (t : Token) (span : Span) : String := s!"{t.label} @ {span.display}"

end Scriptlet.Token
