import SemanticChecker.Bound
import SemanticChecker.Diagnostic
import SemanticChecker.Source.Expr
import SemanticChecker.Ty.Describe
import SemanticChecker.Ty.Unifier

/-! What can be wrong with a body, and how it is told. -/
namespace SemanticChecker

/-- The role in which a value, or a type, is not what is expected. -/
inductive Role where
  | fieldDefault (field : String)
  | returnValue
  | initializer (name : String)
  | assignment (name : String)
  | fieldAssignment (field : String)
  | listElement
  | dictKey
  | dictValue
  | operand (operator : Operator)
  | condition
  | thenBranch
  | elseBranch
  | typeArgument
  /-- The argument at a position, counted from one, of what is called. -/
  | argument (position : Nat) (called : String)
  | bound (name parameter : String)
  deriving DecidableEq, Repr

def Role.text : Role → String
  | fieldDefault field => s!"default of field '{field}'"
  | returnValue => "return value"
  | initializer name => s!"initializer of '{name}'"
  | assignment name => s!"assignment to '{name}'"
  | fieldAssignment field => s!"assignment to field '{field}'"
  | listElement => "list element"
  | dictKey => "dict key"
  | dictValue => "dict value"
  | operand operator => s!"operand of '{operator.symbol}'"
  | condition => "if condition"
  | thenBranch => "then branch"
  | elseBranch => "else branch"
  | typeArgument => "type argument"
  | argument position called => s!"argument {position} of '{called}'"
  | bound name parameter => s!"bound '{name}' of '{parameter}'"

inductive Problem where
  | mismatch (role : Role) (expected found : Ty)
  /-- A tuple with the wrong number of slots where a value is stored. -/
  | slotCount (role : Role) (expected found : Ty) (expectedCount foundCount : Nat)
  /-- A tuple with the wrong number of slots where types are unified. -/
  | tupleClash (role : Role) (expected found : Ty)
  | missingReturn (function : String) (result : Ty)
  | untypedBinding (name : String)
  | literalRange (value : Int) (kind : Primitive)
  | untypedNone
  | emptyList
  | emptyDict
  | genericValue (name : String)
  | typeAsValue (name : String)
  | unknownName (name : String)
  | uncalledMethod (name : String) (object : Ty)
  | noField (object : Ty) (name : String)
  | noSlot (object : Ty) (name : String)
  | noVariant (enum variant : String)
  | noMethod (receiver : Ty) (name : String)
  | notCallable (callee : Ty)
  | notConstructible (struct : String) (abstractMethods : List String)
  /-- A call takes from `least` to `most` arguments. -/
  | argumentCount (called : String) (least most found : Nat)
  | typeArgumentCount (called : String) (expected found : Nat)
  | nonePassed (position : Nat) (called : String)
  | unsatisfiedBound (type : Ty) (bound parameter owner : String) (cause : BoundError)
  | uninferred (parameter called : String)
  | slotAssignment
  | invalidTarget
  | incomparable (left right : Ty)
  | operandMismatch (operator : Operator) (left right : Ty)
  | unordered (operator : Operator) (type : Ty)
  | notNumeric (operator : Operator) (type : Ty)
  | missingElse

namespace Problem

def code : Problem → DiagnosticCode
  | slotCount .. | tupleClash .. => .tupleArityMismatch
  | untypedBinding _ | untypedNone | emptyList | emptyDict | genericValue _ | uninferred .. =>
    .unresolvedType
  | unknownName _ => .unresolvedName
  | uncalledMethod .. | noField .. | noSlot .. | noVariant .. | noMethod .. => .unknownMember
  | notConstructible .. => .notConstructible
  | argumentCount .. | typeArgumentCount .. => .argumentCountMismatch
  | nonePassed .. => .noneUseError
  | unsatisfiedBound .. => .constraintViolation
  | slotAssignment => .immutableTupleSlot
  | mismatch .. | missingReturn .. | literalRange .. | typeAsValue _ | notCallable _
  | invalidTarget | incomparable .. | operandMismatch .. | unordered .. | notNumeric ..
  | missingElse => .typeMismatch

def countText (least most : Nat) : String :=
  if least = most then toString most else s!"{least} to {most}"

def message (names : TypeNames) : Problem → String
  | mismatch role expected found =>
    s!"{role.text}: expected {expected.describe names}, found {found.describe names}"
  | slotCount role expected found expectedCount foundCount =>
    s!"{role.text}: expected {expected.describe names} with {expectedCount} slot(s), " ++
      s!"found {found.describe names} with {foundCount}"
  | tupleClash role expected found =>
    s!"{role.text}: expected {expected.describe names}, found {found.describe names}"
  | missingReturn function result =>
    s!"function '{function}' may exit without returning a value of type {result.describe names}"
  | untypedBinding name => s!"cannot infer the type of '{name}' without an annotation or initializer"
  | literalRange value kind => s!"integer literal {value} does not fit in {kind.name}"
  | untypedNone => "None needs a known type here; add a type annotation"
  | emptyList => "cannot infer the element type of an empty list"
  | emptyDict => "cannot infer the key and value types of an empty dict"
  | genericValue name =>
    s!"generic function '{name}' must be called so its type arguments can be inferred"
  | typeAsValue name => s!"'{name}' is a type, not a value"
  | unknownName name => s!"unknown name '{name}'"
  | uncalledMethod name object => s!"method '{name}' of {object.describe names} must be called"
  | noField object name => s!"{object.describe names} has no field '{name}'"
  | noSlot object name => s!"{object.describe names} has no slot '{name}'"
  | noVariant enum variant => s!"enum '{enum}' has no variant '{variant}'"
  | noMethod receiver name => s!"{receiver.describe names} has no method '{name}'"
  | notCallable callee => s!"{callee.describe names} is not callable"
  | notConstructible struct abstractMethods =>
    let detail := match abstractMethods with
      | [] => ""
      | methods => "; abstract method(s): " ++ ", ".intercalate methods
    s!"struct '{struct}' is not concrete and cannot be constructed" ++ detail
  | argumentCount called least most found =>
    s!"'{called}' expects {countText least most} argument(s), found {found}"
  | typeArgumentCount called expected found =>
    s!"'{called}' expects {expected} type argument(s), found {found}"
  | nonePassed position called => s!"None passed as argument {position} of '{called}'"
  | unsatisfiedBound type bound parameter owner cause =>
    s!"{type.describe names} does not satisfy bound '{bound}' of type parameter '{parameter}' " ++
      s!"of '{owner}': {cause.message}"
  | uninferred parameter called =>
    s!"cannot infer type parameter '{parameter}' of '{called}'; pass it explicitly"
  | slotAssignment => "tuple slots cannot be reassigned after construction"
  | invalidTarget => "invalid assignment target"
  | incomparable left right => s!"cannot compare {left.describe names} with {right.describe names}"
  | operandMismatch operator left right =>
    s!"operator '{operator.symbol}': expected {left.describe names}, found {right.describe names}"
  | unordered operator type =>
    s!"operator '{operator.symbol}' requires ordered operands, found {type.describe names}"
  | notNumeric operator type =>
    s!"operator '{operator.symbol}' requires numeric operands, found {type.describe names}"
  | missingElse => "an if used as a value needs an else branch"

def diagnostic (names : TypeNames) (span : Span) (problem : Problem) : Diagnostic :=
  { code := problem.code, message := problem.message names, span := some span }

def ofUnifyError (role : Role) : UnifyError → Problem
  | .tupleArity expected found => tupleClash role expected found
  | .mismatch expected found => mismatch role expected found
  | .occurs expected found => mismatch role expected found

def ofUnassignable (role : Role) (expected found : Ty) : Problem :=
  match expected, found with
  | .tuple left, .tuple right =>
    if left.length = right.length then mismatch role expected found
    else slotCount role expected found left.length right.length
  | _, _ => mismatch role expected found

end Problem

end SemanticChecker
