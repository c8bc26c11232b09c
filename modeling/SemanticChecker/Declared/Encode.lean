import SemanticChecker.Declared.Signature
import SemanticChecker.Source.Encode

/-! Types and signatures as documents. A type is written as it is shown in messages. -/
namespace SemanticChecker

def Ty.toJson (names : TypeNames) (t : Ty) : Json :=
  .text (t.describe names)

/-- A type parameter: its name, and its bound if it has one. Any other type is written as a type. -/
def Ty.parameterJson (names : TypeNames) : Ty → Json
  | .parameter name => .array [.text name, .null]
  | .bounded name bound arguments =>
    .array [.text name, .array [.text bound, .array (arguments.map (Ty.toJson names))]]
  | t => t.toJson names

def Ty.parametersJson (names : TypeNames) (parameters : List Ty) : Json :=
  .array (parameters.map (Ty.parameterJson names))

def Ty.namedJson (names : TypeNames) (params : List (String × Ty)) : Json :=
  .array (params.map fun (name, t) => .array [.text name, t.toJson names])

def Signature.toJson (names : TypeNames) (s : Signature) : Json :=
  .record [("type_parameters", Ty.parametersJson names s.typeParameters),
    ("params", Ty.namedJson names s.params), ("returns", .array (s.returns.map (Ty.toJson names))),
    ("ty", s.type.toJson names), ("result", s.result.toJson names), ("is_generic", .bool s.isGeneric)]

end SemanticChecker
