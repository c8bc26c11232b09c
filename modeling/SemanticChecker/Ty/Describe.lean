import SemanticChecker.Ty.Basic

/-! Types as text for messages and answers. -/
namespace SemanticChecker

structure TypeNames where
  struct : StructId → String
  enum : EnumId → String

namespace Ty

def isRepetition : List Ty → Bool
  | first :: second :: rest => (second :: rest).all (· == first)
  | _ => false

def repetitionText (slot : String) (count : Nat) : String :=
  "(" ++ slot ++ ": " ++ toString count ++ ")"

def tupleText (slots : List String) : String :=
  "(" ++ ", ".intercalate slots ++ ")"

def appliedText (name : String) : List String → String
  | [] => name
  | arguments => name ++ "[" ++ ", ".intercalate arguments ++ "]"

def functionText (parameters : List String) : List String → String
  | [] => "fn(" ++ ", ".intercalate parameters ++ ")"
  | [single] => "fn(" ++ ", ".intercalate parameters ++ ") -> " ++ single
  | many => "fn(" ++ ", ".intercalate parameters ++ ") -> (" ++ ", ".intercalate many ++ ")"

mutual

/-- The type as written in messages, such as `Dict[str, (int32: 3)]`. -/
def describe (names : TypeNames) : Ty → String
  | .primitive kind => kind.name
  | .tuple slots =>
    if isRepetition slots then repetitionText (describeFirst names slots) slots.length
    else tupleText (describeEach names slots)
  | .list element => "List[" ++ describe names element ++ "]"
  | .dict key value => "Dict[" ++ describe names key ++ ", " ++ describe names value ++ "]"
  | .struct id arguments => appliedText (names.struct id) (describeEach names arguments)
  | .enum id => names.enum id
  | .function parameters returns =>
    functionText (describeEach names parameters) (describeEach names returns)
  | .parameter name => name
  | .bounded name _ _ => name
  | .slot index => "?" ++ toString index
  | .error => "<error>"

def describeFirst (names : TypeNames) : List Ty → String
  | [] => ""
  | t :: _ => describe names t

def describeEach (names : TypeNames) : List Ty → List String
  | [] => []
  | t :: ts => describe names t :: describeEach names ts

end

end Ty

end SemanticChecker
