import SemanticChecker.Json.Writer
import SemanticChecker.Source.Declaration
import SemanticChecker.Text.Decimal

/-! Writes the tree of a unit as a document. Every field is written, in a fixed order. -/
namespace SemanticChecker

def Json.optional (write : α → Json) : Option α → Json
  | none => .null
  | some value => write value

def Json.case (tag : String) (payload : Json) : Json :=
  .record [(tag, payload)]

def Span.toJson (span : Span) : Json :=
  .record [("line", .natural span.line), ("column", .natural span.column),
    ("end_line", .natural span.endLine), ("end_column", .natural span.endColumn)]

mutual

def TypeExpr.toJson : TypeExpr → Json
  | ⟨kind, span⟩ => .record [("kind", kind.toJson), ("span", span.toJson)]

def TypeExprKind.toJson : TypeExprKind → Json
  | .named name arguments =>
    .case "Named" (.record [("name", .text name), ("arguments", .array (TypeExpr.listToJson arguments))])
  | .tuple elements => .case "Tuple" (.array (TypeExpr.listToJson elements))
  | .repeated element arity =>
    .case "RepeatedTuple" (.record [("element", element.toJson), ("arity", .natural arity)])
  | .function parameters returns =>
    .case "Function" (.record [("parameters", .array (TypeExpr.listToJson parameters)),
      ("returns", .array (TypeExpr.listToJson returns))])

def TypeExpr.listToJson : List TypeExpr → List Json
  | [] => []
  | type :: rest => type.toJson :: TypeExpr.listToJson rest

end

def BoundExpr.toJson (bound : BoundExpr) : Json :=
  .record [("name", .text bound.name), ("arguments", .array (bound.arguments.map TypeExpr.toJson)),
    ("span", bound.span.toJson)]

def TypeParameter.toJson (parameter : TypeParameter) : Json :=
  .record [("name", .text parameter.name), ("bound", .optional BoundExpr.toJson parameter.bound),
    ("span", parameter.span.toJson)]

def Literal.toJson : Literal → Json
  | .integer value => .case "Integer" (.number (toString value))
  | .float value => .case "Float" (.number (FloatText.inUnit value))
  | .string value => .case "String" (.text value)
  | .boolean value => .case "Boolean" (.bool value)
  | .none => .text "None"

mutual

def Expr.toJson : Expr → Json
  | ⟨kind, span⟩ => .record [("kind", kind.toJson), ("span", span.toJson)]

def ExprKind.toJson : ExprKind → Json
  | .literal value => .case "Literal" value.toJson
  | .tuple items => .case "Tuple" (.array (Expr.listToJson items))
  | .list items => .case "List" (.array (Expr.listToJson items))
  | .dict entries => .case "Dict" (.array (Expr.entriesToJson entries))
  | .ident name => .case "Variable" (.text name)
  | .assign target value =>
    .case "Assignment" (.record [("target", target.toJson), ("value", value.toJson)])
  | .call callee typeArguments arguments =>
    .case "Call" (.record [("callee", callee.toJson),
      ("type_arguments", .array (typeArguments.map TypeExpr.toJson)),
      ("arguments", .array (Expr.listToJson arguments))])
  | .field object name => .case "Field" (.record [("object", object.toJson), ("field", .text name)])
  | .binary operator left right =>
    .case "Binary" (.record [("operator", .text operator.name), ("left", left.toJson),
      ("right", right.toJson)])
  | .cond condition thenBranch elseBranch =>
    .case "If" (.record [("condition", condition.toJson),
      ("then_branch", .record [("statements", .array (Statement.listToJson thenBranch))]),
      ("else_branch", Statement.branchToJson elseBranch)])

def Expr.listToJson : List Expr → List Json
  | [] => []
  | item :: rest => item.toJson :: Expr.listToJson rest

def Expr.entriesToJson : List (Expr × Expr) → List Json
  | [] => []
  | (key, value) :: rest =>
    .record [("key", key.toJson), ("value", value.toJson)] :: Expr.entriesToJson rest

def Expr.optionToJson : Option Expr → Json
  | none => .null
  | some value => value.toJson

def Statement.toJson : Statement → Json
  | .bind name type initializer span =>
    .case "Let" (.record [("name", .text name), ("type_annotation", .optional TypeExpr.toJson type),
      ("initializer", Expr.optionToJson initializer), ("span", span.toJson)])
  | .expression value => .case "Expression" value.toJson
  | .ret value span =>
    .case "Return" (.record [("expression", Expr.optionToJson value), ("span", span.toJson)])

def Statement.listToJson : List Statement → List Json
  | [] => []
  | statement :: rest => statement.toJson :: Statement.listToJson rest

def Statement.branchToJson : Option (List Statement) → Json
  | none => .null
  | some statements => .record [("statements", .array (Statement.listToJson statements))]

end

def ParameterDecl.toJson (parameter : ParameterDecl) : Json :=
  .record [("name", .text parameter.name), ("type_annotation", parameter.type.toJson),
    ("span", parameter.span.toJson)]

def FunctionDecl.toJson (decl : FunctionDecl) : Json :=
  .record [("name", .text decl.name),
    ("type_parameters", .array (decl.typeParameters.map TypeParameter.toJson)),
    ("parameters", .array (decl.parameters.map ParameterDecl.toJson)),
    ("returns", .array (decl.returns.map TypeExpr.toJson)),
    ("body", Statement.branchToJson decl.body), ("span", decl.span.toJson)]

def FieldDecl.toJson (decl : FieldDecl) : Json :=
  .record [("name", .text decl.name), ("type_annotation", decl.type.toJson),
    ("default", Expr.optionToJson decl.default), ("span", decl.span.toJson)]

def StructDecl.toJson (decl : StructDecl) : Json :=
  .record [("name", .text decl.name),
    ("type_parameters", .array (decl.typeParameters.map TypeParameter.toJson)),
    ("composes", .array (decl.composes.map TypeExpr.toJson)),
    ("fields", .array (decl.fields.map FieldDecl.toJson)),
    ("methods", .array (decl.methods.map FunctionDecl.toJson)), ("span", decl.span.toJson)]

def VariantDecl.toJson (decl : VariantDecl) : Json :=
  .record [("name", .text decl.name), ("value", .optional Literal.toJson decl.value),
    ("span", decl.span.toJson)]

def EnumDecl.toJson (decl : EnumDecl) : Json :=
  .record [("name", .text decl.name), ("backing", decl.backing.toJson),
    ("variants", .array (decl.variants.map VariantDecl.toJson)), ("span", decl.span.toJson)]

def AliasDecl.toJson (decl : AliasDecl) : Json :=
  .record [("name", .text decl.name), ("target", decl.target.toJson), ("span", decl.span.toJson)]

def Declaration.toJson : Declaration → Json
  | .struct decl => .case "Struct" decl.toJson
  | .enum decl => .case "Enum" decl.toJson
  | .function decl => .case "Function" decl.toJson
  | .typeAlias decl => .case "TypeAlias" decl.toJson

def SourceUnit.toJson (unit : SourceUnit) : Json :=
  .record [("id", .natural unit.id.number), ("module", .text unit.module.text),
    ("path", .optional Json.text unit.path),
    ("declarations", .array (unit.declarations.map Declaration.toJson))]

def SourceUnit.toText (unit : SourceUnit) : String :=
  unit.toJson.write

end SemanticChecker
