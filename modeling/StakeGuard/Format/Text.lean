import StakeGuard.Format.Form
import StakeGuard.Format.Json.Parser
import StakeGuard.Format.Json.Printer

/-!
# Forms as JSON text

Values from JSON texts and as JSON texts without blanks.
-/

namespace StakeGuard.Form

variable {α : Type}

/-- The value that a whole JSON text is, if it is one of this form. -/
def ofJsonText? (f : Form α) (text : List Char) : Option α := (Json.parse text).bind f.ofJson?

/-- The text of a value without blanks. -/
def jsonText (f : Form α) (a : α) : String := (f.toJson a).compact

end StakeGuard.Form
