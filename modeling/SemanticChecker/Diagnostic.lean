import SemanticChecker.Source.Declaration

/-! What the checker reports: a code, a message and the place it is about. -/
namespace SemanticChecker

inductive DiagnosticLevel where
  | error | warning
  deriving DecidableEq, Repr

inductive DiagnosticCode where
  | unresolvedType | aliasCycle | constraintViolation | missingOverride | compositionCycle
  | duplicateVariant | tupleArityMismatch | noneUseError | noneUseWarning | duplicateField
  | duplicateDeclaration | typeMismatch | unresolvedName | unknownMember | argumentCountMismatch
  | notConstructible | enumValueMismatch | ambiguousMethod | immutableTupleSlot
  | useBeforeAssignment | diagnosticLimit | internal
  deriving DecidableEq, Repr

namespace DiagnosticCode

def all : List DiagnosticCode :=
  [unresolvedType, aliasCycle, constraintViolation, missingOverride, compositionCycle,
    duplicateVariant, tupleArityMismatch, noneUseError, noneUseWarning, duplicateField,
    duplicateDeclaration, typeMismatch, unresolvedName, unknownMember, argumentCountMismatch,
    notConstructible, enumValueMismatch, ambiguousMethod, immutableTupleSlot,
    useBeforeAssignment, diagnosticLimit, internal]

def name : DiagnosticCode → String
  | unresolvedType => "UnresolvedType"
  | aliasCycle => "AliasCycle"
  | constraintViolation => "ConstraintViolation"
  | missingOverride => "MissingOverride"
  | compositionCycle => "CompositionCycle"
  | duplicateVariant => "DuplicateVariant"
  | tupleArityMismatch => "TupleArityMismatch"
  | noneUseError => "NoneUseError"
  | noneUseWarning => "NoneUseWarning"
  | duplicateField => "DuplicateField"
  | duplicateDeclaration => "DuplicateDeclaration"
  | typeMismatch => "TypeMismatch"
  | unresolvedName => "UnresolvedName"
  | unknownMember => "UnknownMember"
  | argumentCountMismatch => "ArgumentCountMismatch"
  | notConstructible => "NotConstructible"
  | enumValueMismatch => "EnumValueMismatch"
  | ambiguousMethod => "AmbiguousMethod"
  | immutableTupleSlot => "ImmutableTupleSlot"
  | useBeforeAssignment => "UseBeforeAssignment"
  | diagnosticLimit => "DiagnosticLimit"
  | internal => "Internal"

def ofName? (text : String) : Option DiagnosticCode :=
  all.find? fun code => code.name == text

/-- Only a possible None and the notice of a reached limit leave a unit checkable as it is. -/
def level : DiagnosticCode → DiagnosticLevel
  | noneUseWarning | diagnosticLimit => .warning
  | _ => .error

end DiagnosticCode

structure Diagnostic where
  code : DiagnosticCode
  message : String
  span : Option Span := none
  source : Option UnitId := none
  deriving DecidableEq, Repr

namespace Diagnostic

def level (d : Diagnostic) : DiagnosticLevel :=
  d.code.level

def isError (d : Diagnostic) : Bool :=
  d.level == .error

def inSource (d : Diagnostic) (unit : UnitId) : Diagnostic :=
  { d with source := some unit }

/-- One line for a reader: level, code, message and, if known, where it starts. -/
def text (d : Diagnostic) : String :=
  let level := match d.level with
    | .error => "error"
    | .warning => "warning"
  let place := match d.span with
    | some span => s!" at {span.line}:{span.column}"
    | none => ""
  level ++ "[" ++ d.code.name ++ "]: " ++ d.message ++ place

@[simp] theorem isError_inSource (d : Diagnostic) (unit : UnitId) :
    (d.inSource unit).isError = d.isError := rfl

end Diagnostic

end SemanticChecker
