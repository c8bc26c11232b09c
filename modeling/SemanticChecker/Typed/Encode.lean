import SemanticChecker.Declared.Encode
import SemanticChecker.Diagnostic.Encode
import SemanticChecker.Typed.Program

/-! The typed program as a document, for code generators that do not share its types. Integers are
written as texts and floating-point numbers as their bits, so that no reader can lose a digit. -/
namespace SemanticChecker

def StructRef.toJson (reference : StructRef) : Json :=
  .array [.natural reference.id.index, .bool reference.concrete]

def EnumValue.toJson : EnumValue → Json
  | int value => .case "Int" (.text (toString value))
  | float value => .case "Float" (.text (FloatText.bits value))
  | str value => .case "Str" (.text value)

def EnumVariant.toJson (variant : EnumVariant) : Json :=
  .array [.text variant.name, variant.value.toJson]

def Literal.toExactJson : Literal → Json
  | .integer value => .case "Integer" (.text (toString value))
  | .float value => .case "Float" (.text (FloatText.bits value))
  | .string value => .case "String" (.text value)
  | .boolean value => .case "Boolean" (.bool value)
  | .none => .text "None"

def TypedExprKind.form : TypedExprKind → String
  | .literal _ => "Literal"
  | .enumVariant _ _ _ => "EnumVariant"
  | .tuple _ => "Tuple"
  | .list _ => "List"
  | .dict _ => "Dict"
  | .ident _ => "Variable"
  | .functionRef _ => "FunctionRef"
  | .assign _ _ => "Assignment"
  | .call _ _ _ => "Call"
  | .field _ _ => "Field"
  | .tupleSlot _ _ => "TupleSlot"
  | .binary _ _ _ => "Binary"
  | .cond _ _ _ => "If"

mutual

/-- An expression: its form, its type, its place and what it holds. -/
def TypedExpr.toJson (names : TypeNames) : TypedExpr → Json
  | ⟨kind, type, span⟩ =>
    .array [.text kind.form, type.toJson names, span.toNumbers, kind.toJson names]

def TypedExprKind.toJson (names : TypeNames) : TypedExprKind → Json
  | .literal value => value.toExactJson
  | .enumVariant id variant index => .array [.natural id.index, .text variant, .natural index]
  | .tuple items => .array (TypedExpr.listToJson names items)
  | .list items => .array (TypedExpr.listToJson names items)
  | .dict entries => .array (TypedExpr.entriesToJson names entries)
  | .ident name => .text name
  | .functionRef id => .natural id.index
  | .assign target value => .array [target.toJson names, value.toJson names]
  | .call callee typeArguments arguments =>
    .record [("callee", callee.toJson names),
      ("type_arguments", .array (typeArguments.map (Ty.toJson names))),
      ("arguments", .array (TypedExpr.listToJson names arguments))]
  | .field object name => .array [object.toJson names, .text name]
  | .tupleSlot tuple index => .array [tuple.toJson names, .natural index]
  | .binary operator left right =>
    .array [.text operator.name, left.toJson names, right.toJson names]
  | .cond condition thenBranch elseBranch =>
    .record [("condition", condition.toJson names), ("then", thenBranch.toJson names),
      ("else", TypedBlock.optionToJson names elseBranch)]

def Callee.toJson (names : TypeNames) : Callee → Json
  | .function id => .array [.text "Function", .natural id.index]
  | .method receiver origin name =>
    .array [.text "Method", receiver.toJson names, .natural origin.index, .text name]
  | .builtin receiver name => .array [.text "Builtin", receiver.toJson names, .text name]
  | .boundMethod receiver name => .array [.text "BoundMethod", receiver.toJson names, .text name]
  | .construct reference => .array [.text "Construct", reference.toJson]
  | .value value => .array [.text "Value", value.toJson names]

def TypedExpr.listToJson (names : TypeNames) : List TypedExpr → List Json
  | [] => []
  | item :: rest => item.toJson names :: TypedExpr.listToJson names rest

def TypedExpr.entriesToJson (names : TypeNames) : List (TypedExpr × TypedExpr) → List Json
  | [] => []
  | (key, value) :: rest =>
    .array [key.toJson names, value.toJson names] :: TypedExpr.entriesToJson names rest

def TypedExpr.optionToJson (names : TypeNames) : Option TypedExpr → Json
  | none => .null
  | some value => value.toJson names

def TypedStatement.toJson (names : TypeNames) : TypedStatement → Json
  | .bind name type initializer span =>
    .case "Let" (.record [("name", .text name), ("ty", type.toJson names),
      ("initializer", TypedExpr.optionToJson names initializer), ("span", span.toNumbers)])
  | .expression value => .case "Expression" (value.toJson names)
  | .ret value span =>
    .case "Return" (.record [("value", TypedExpr.optionToJson names value), ("span", span.toNumbers)])

def TypedStatement.listToJson (names : TypeNames) : List TypedStatement → List Json
  | [] => []
  | statement :: rest => statement.toJson names :: TypedStatement.listToJson names rest

def TypedBlock.toJson (names : TypeNames) : TypedBlock → Json
  | ⟨statements, type, diverges⟩ =>
    .record [("ty", type.toJson names), ("diverges", .bool diverges),
      ("statements", .array (TypedStatement.listToJson names statements))]

def TypedBlock.optionToJson (names : TypeNames) : Option TypedBlock → Json
  | none => .null
  | some block => block.toJson names

end

def TypedFunction.toJson (names : TypeNames) (function : TypedFunction) : Json :=
  .record [("name", .text function.name), ("owner", .optional StructRef.toJson function.owner),
    ("type_parameters", Ty.parametersJson names function.typeParameters),
    ("params", Ty.namedJson names function.params),
    ("returns", .array (function.returns.map (Ty.toJson names))), ("generic", .bool function.generic),
    ("span", function.span.toNumbers), ("body", TypedBlock.optionToJson names function.body)]

def TypedField.toJson (names : TypeNames) (field : TypedField) : Json :=
  .record [("name", .text field.name), ("ty", field.type.toJson names),
    ("origin", .natural field.origin.index), ("default", TypedExpr.optionToJson names field.default)]

def TypedStruct.toJson (names : TypeNames) (struct : TypedStruct) : Json :=
  .record [("name", .text struct.name), ("ref", struct.reference.toJson),
    ("ty", struct.type.toJson names),
    ("type_parameters", Ty.parametersJson names struct.typeParameters),
    ("fields", .array (struct.fields.map (TypedField.toJson names))),
    ("methods", .array (struct.methods.map (TypedFunction.toJson names)))]

def TypedEnum.toJson (names : TypeNames) (typed : TypedEnum) : Json :=
  .record [("id", .natural typed.id.index), ("name", .text typed.name),
    ("ty", typed.type.toJson names), ("backing", .text typed.backing.name),
    ("variants", .array (typed.variants.map EnumVariant.toJson))]

def TypedProgram.toJson (names : TypeNames) (program : TypedProgram) : Json :=
  .record [("structs", .array (program.structs.map (TypedStruct.toJson names))),
    ("enums", .array (program.enums.map (TypedEnum.toJson names))),
    ("functions", .array (program.functions.map (TypedFunction.toJson names)))]

end SemanticChecker
