import StakeGuard.Format.Shapes
import StakeGuard.Format.Text

/-!
# Loading the configuration

The configuration of a node from its file and its environment: the file first, where there is one,
then the overrides, then the checks.
-/

namespace StakeGuard

namespace Configuration

/-- The configuration that the bytes of a file write. -/
def ofFile (contents : Bytes) : Except ConfigurationError Configuration :=
  match String.fromUTF8? ⟨contents.toArray⟩ with
  | none => .error .unreadable
  | some text =>
    match Form.configuration.ofJsonText? text.toList with
    | none => .error .malformed
    | some c => .ok c

/-- The configuration of a node, from the contents of its file if there is one, and its
environment. -/
def load (file : Option Bytes) (environment : Environment) :
    Except ConfigurationError Configuration :=
  match file.elim (.ok default) ofFile with
  | .error e => .error e
  | .ok c =>
    match c.applyOverrides environment with
    | (some e, _) => .error e
    | (none, c) => c.validate.map fun _ => c

end Configuration

end StakeGuard
