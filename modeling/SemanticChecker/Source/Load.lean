import SemanticChecker.Source.Decode
import SemanticChecker.Source.Directory

/-! Loads a unit from a file. -/
namespace SemanticChecker

inductive LoadError where
  | unreadable (path : String) (cause : ReadError)
  | malformed
  deriving DecidableEq, Repr

def LoadError.message : LoadError → String
  | unreadable path cause => s!"failed to read '{path}': {cause.message}"
  | malformed => "invalid declaration table"

/-- Reads a unit from a file; a unit that does not say where it is from gets the path of the file. -/
def SourceUnit.load (directory : Directory) (path : String) : Except LoadError SourceUnit :=
  match directory.read path with
  | .error cause => .error (.unreadable path cause)
  | .ok contents =>
    match SourceUnit.ofText? contents with
    | none => .error .malformed
    | some unit => .ok { unit with path := some (unit.path.getD path) }

end SemanticChecker
