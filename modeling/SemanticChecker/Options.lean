import SemanticChecker.Options.Document
import SemanticChecker.Source.Directory

/-! The options of a check and how they are read from an options document. -/
namespace SemanticChecker

structure CheckOptions where
  /-- Diagnostics kept before the rest are only counted. -/
  maxDiagnostics : Nat := 256
  /-- Permits work side by side; it changes no answer. -/
  parallel : Bool := true
  /-- Whether a warning makes a program ineligible. -/
  warningsAsErrors : Bool := false
  /-- The kind of an integer literal that nothing else decides. -/
  defaultInteger : Primitive := .int64
  defaultFloat : Primitive := .float64
  deriving DecidableEq, Repr

inductive OptionsError where
  | malformed
  | notAnInteger (kind : Primitive)
  | notAFloat (kind : Primitive)
  | unreadable (path : String)
  /-- The document in the file is refused for the given reason. -/
  | refused (path : String) (reason : OptionsError)
  deriving DecidableEq, Repr

namespace OptionsError

def message : OptionsError → String
  | malformed => "invalid check options"
  | notAnInteger kind => s!"default_integer must be an integer kind, found {kind.name}"
  | notAFloat kind => s!"default_float must be a float kind, found {kind.name}"
  | unreadable path => s!"failed to read options from '{path}'"
  | refused path _ => s!"failed to load options from '{path}'"

/-- How many reasons the error gives, one inside the other: a malformed document and an unreadable
file each have one more, which is not told. -/
def causes : OptionsError → Nat
  | malformed => 2
  | notAnInteger _ => 1
  | notAFloat _ => 1
  | unreadable _ => 2
  | refused _ reason => reason.causes + 1

end OptionsError

namespace CheckOptions

def set? (options : CheckOptions) (name : String) (value : OptionWord) : Option CheckOptions :=
  match name with
  | "max_diagnostics" => value.natural?.map fun value => { options with maxDiagnostics := value }
  | "parallel" => value.bool?.map fun value => { options with parallel := value }
  | "warnings_as_errors" => value.bool?.map fun value => { options with warningsAsErrors := value }
  | "default_integer" => value.kind?.map fun kind => { options with defaultInteger := kind }
  | "default_float" => value.kind?.map fun kind => { options with defaultFloat := kind }
  | _ => none

def ofEntries? (entries : List (String × OptionWord)) : Option CheckOptions := do
  let options ← entries.foldlM (fun (options : CheckOptions) (name, value) => options.set? name value) {}
  if (entries.map (·.1)).Nodup then some options else none

def validate (options : CheckOptions) : Except OptionsError CheckOptions :=
  if !options.defaultInteger.isInteger then .error (.notAnInteger options.defaultInteger)
  else if !options.defaultFloat.isFloat then .error (.notAFloat options.defaultFloat)
  else .ok options

def ofText (text : String) : Except OptionsError CheckOptions :=
  match OptionDocument.entries? text >>= ofEntries? with
  | some options => options.validate
  | none => .error .malformed

def load (directory : Directory) (path : String) : Except OptionsError CheckOptions :=
  match directory.read path with
  | .error _ => .error (.unreadable path)
  | .ok text =>
    match ofText text with
    | .ok options => .ok options
    | .error reason => .error (.refused path reason)

end CheckOptions

end SemanticChecker
