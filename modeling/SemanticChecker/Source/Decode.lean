import SemanticChecker.Json.Number
import SemanticChecker.Json.Reader
import SemanticChecker.Json.Shape
import SemanticChecker.Source.Declaration

/-! Reads the tree of a unit from a document. Every reader takes the number of containers that may
still be opened; opening one more than that refuses the document, however well it is formed. -/
namespace SemanticChecker

/-- Reads something of type `α`, given how many containers may still be opened. -/
abbrev TreeReader (α : Type) := Nat → Json → Option α

namespace TreeReader

def depthLimit : Nat := 127

def listOf (read : TreeReader α) : TreeReader (List α)
  | 0, _ => none
  | depth + 1, json => do (← json.items?).mapM (read depth)

def number64 : Json → Option Nat :=
  Json.natural? (UInt64.size - 1)

def span : TreeReader Span
  | 0, _ => none
  | _ + 1, json => do
    let m ← json.members? ["line", "column", "end_line", "end_column"]
    return {
      line := ← m.required "line" number64
      column := ← m.required "column" number64
      endLine := ← m.required "end_line" number64
      endColumn := ← m.required "end_column" number64 }

def spanOf (m : Members) (depth : Nat) : Option Span :=
  m.defaulted "span" {} (span depth)

mutual

def typeExpr : Nat → Json → Option TypeExpr
  | 0, _ => none
  | depth + 1, json => do
    let m ← json.members? ["kind", "span"]
    return ⟨← m.required "kind" (typeExprKind depth), ← spanOf m depth⟩

def typeExprs : Nat → Json → Option (List TypeExpr)
  | 0, _ => none
  | depth + 1, json => do (← json.items?).mapM (typeExpr depth)

def typeExprKind : Nat → Json → Option TypeExprKind
  | 0, _ => none
  | depth + 1, json => do
    match ← json.tagged? with
    | ("Named", payload) => namedType depth payload
    | ("Tuple", payload) => return .tuple (← typeExprs depth payload)
    | ("RepeatedTuple", payload) => repeatedType depth payload
    | ("Function", payload) => functionType depth payload
    | _ => none

def namedType : Nat → Json → Option TypeExprKind
  | 0, _ => none
  | depth + 1, json => do
    let m ← json.members? ["name", "arguments"]
    return .named (← m.required "name" Json.text?) (← m.defaulted "arguments" [] (typeExprs depth))

def repeatedType : Nat → Json → Option TypeExprKind
  | 0, _ => none
  | depth + 1, json => do
    let m ← json.members? ["element", "arity"]
    return .repeated (← m.required "element" (typeExpr depth)) (← m.required "arity" number64)

def functionType : Nat → Json → Option TypeExprKind
  | 0, _ => none
  | depth + 1, json => do
    let m ← json.members? ["parameters", "returns"]
    return .function (← m.required "parameters" (typeExprs depth))
      (← m.defaulted "returns" [] (typeExprs depth))

end

def boundExpr : TreeReader BoundExpr
  | 0, _ => none
  | depth + 1, json => do
    let m ← json.members? ["name", "arguments", "span"]
    return {
      name := ← m.required "name" Json.text?
      arguments := ← m.defaulted "arguments" [] (typeExprs depth)
      span := ← spanOf m depth }

def typeParameter : TreeReader TypeParameter
  | 0, _ => none
  | depth + 1, json => do
    let m ← json.members? ["name", "bound", "span"]
    return {
      name := ← m.required "name" Json.text?
      bound := ← m.optional "bound" (boundExpr depth)
      span := ← spanOf m depth }

def literal (depth : Nat) (json : Json) : Option Literal :=
  if json.bareTag? depth == some "None" then some .none
  else if depth = 0 then none
  else do
    match ← json.tagged? with
    | ("Integer", payload) => return .integer (← payload.integer?)
    | ("Float", payload) => return .float (← payload.float?)
    | ("String", payload) => return .string (← payload.text?)
    | ("Boolean", payload) => return .boolean (← payload.bool?)
    | _ => .none

def operator (depth : Nat) (json : Json) : Option Operator :=
  json.bareTag? depth >>= Operator.ofName?

mutual

def expr : Nat → Json → Option Expr
  | 0, _ => none
  | depth + 1, json => do
    let m ← json.members? ["kind", "span"]
    return ⟨← m.required "kind" (exprKind depth), ← spanOf m depth⟩

def exprs : Nat → Json → Option (List Expr)
  | 0, _ => none
  | depth + 1, json => do (← json.items?).mapM (expr depth)

def exprKind : Nat → Json → Option ExprKind
  | 0, _ => none
  | depth + 1, json => do
    match ← json.tagged? with
    | ("Literal", payload) => return .literal (← literal depth payload)
    | ("Tuple", payload) => return .tuple (← exprs depth payload)
    | ("List", payload) => return .list (← exprs depth payload)
    | ("Dict", payload) => return .dict (← entries depth payload)
    | ("Variable", payload) => return .ident (← payload.text?)
    | ("Assignment", payload) => assignment depth payload
    | ("Call", payload) => call depth payload
    | ("Field", payload) => field depth payload
    | ("Binary", payload) => binary depth payload
    | ("If", payload) => conditional depth payload
    | _ => none

def entries : Nat → Json → Option (List (Expr × Expr))
  | 0, _ => none
  | depth + 1, json => do (← json.items?).mapM (entry depth)

def entry : Nat → Json → Option (Expr × Expr)
  | 0, _ => none
  | depth + 1, json => do
    let m ← json.members? ["key", "value"]
    return (← m.required "key" (expr depth), ← m.required "value" (expr depth))

def assignment : Nat → Json → Option ExprKind
  | 0, _ => none
  | depth + 1, json => do
    let m ← json.members? ["target", "value"]
    return .assign (← m.required "target" (expr depth)) (← m.required "value" (expr depth))

def call : Nat → Json → Option ExprKind
  | 0, _ => none
  | depth + 1, json => do
    let m ← json.members? ["callee", "type_arguments", "arguments"]
    return .call (← m.required "callee" (expr depth))
      (← m.defaulted "type_arguments" [] (typeExprs depth))
      (← m.defaulted "arguments" [] (exprs depth))

def field : Nat → Json → Option ExprKind
  | 0, _ => none
  | depth + 1, json => do
    let m ← json.members? ["object", "field"]
    return .field (← m.required "object" (expr depth)) (← m.required "field" Json.text?)

def binary : Nat → Json → Option ExprKind
  | 0, _ => none
  | depth + 1, json => do
    let m ← json.members? ["operator", "left", "right"]
    return .binary (← m.required "operator" (operator depth)) (← m.required "left" (expr depth))
      (← m.required "right" (expr depth))

def conditional : Nat → Json → Option ExprKind
  | 0, _ => none
  | depth + 1, json => do
    let m ← json.members? ["condition", "then_branch", "else_branch"]
    return .cond (← m.required "condition" (expr depth)) (← m.required "then_branch" (block depth))
      (← m.optional "else_branch" (block depth))

def block : Nat → Json → Option (List Statement)
  | 0, _ => none
  | depth + 1, json => do
    let m ← json.members? ["statements"]
    m.required "statements" (statements depth)

def statements : Nat → Json → Option (List Statement)
  | 0, _ => none
  | depth + 1, json => do (← json.items?).mapM (statement depth)

def statement : Nat → Json → Option Statement
  | 0, _ => none
  | depth + 1, json => do
    match ← json.tagged? with
    | ("Let", payload) => binding depth payload
    | ("Expression", payload) => return .expression (← expr depth payload)
    | ("Return", payload) => returned depth payload
    | _ => none

def binding : Nat → Json → Option Statement
  | 0, _ => none
  | depth + 1, json => do
    let m ← json.members? ["name", "type_annotation", "initializer", "span"]
    return .bind (← m.required "name" Json.text?) (← m.optional "type_annotation" (typeExpr depth))
      (← m.optional "initializer" (expr depth)) (← spanOf m depth)

def returned : Nat → Json → Option Statement
  | 0, _ => none
  | depth + 1, json => do
    let m ← json.members? ["expression", "span"]
    return .ret (← m.optional "expression" (expr depth)) (← spanOf m depth)

end

def parameterDecl : TreeReader ParameterDecl
  | 0, _ => none
  | depth + 1, json => do
    let m ← json.members? ["name", "type_annotation", "span"]
    return {
      name := ← m.required "name" Json.text?
      type := ← m.required "type_annotation" (typeExpr depth)
      span := ← spanOf m depth }

def functionDecl : TreeReader FunctionDecl
  | 0, _ => none
  | depth + 1, json => do
    let m ← json.members? ["name", "type_parameters", "parameters", "returns", "body", "span"]
    return {
      name := ← m.required "name" Json.text?
      typeParameters := ← m.defaulted "type_parameters" [] (listOf typeParameter depth)
      parameters := ← m.defaulted "parameters" [] (listOf parameterDecl depth)
      returns := ← m.defaulted "returns" [] (typeExprs depth)
      body := ← m.optional "body" (block depth)
      span := ← spanOf m depth }

def fieldDecl : TreeReader FieldDecl
  | 0, _ => none
  | depth + 1, json => do
    let m ← json.members? ["name", "type_annotation", "default", "span"]
    return {
      name := ← m.required "name" Json.text?
      type := ← m.required "type_annotation" (typeExpr depth)
      default := ← m.optional "default" (expr depth)
      span := ← spanOf m depth }

def structDecl : TreeReader StructDecl
  | 0, _ => none
  | depth + 1, json => do
    let m ← json.members? ["name", "type_parameters", "composes", "fields", "methods", "span"]
    return {
      name := ← m.required "name" Json.text?
      typeParameters := ← m.defaulted "type_parameters" [] (listOf typeParameter depth)
      composes := ← m.defaulted "composes" [] (typeExprs depth)
      fields := ← m.defaulted "fields" [] (listOf fieldDecl depth)
      methods := ← m.defaulted "methods" [] (listOf functionDecl depth)
      span := ← spanOf m depth }

def variantDecl : TreeReader VariantDecl
  | 0, _ => none
  | depth + 1, json => do
    let m ← json.members? ["name", "value", "span"]
    return {
      name := ← m.required "name" Json.text?
      value := ← m.optional "value" (literal depth)
      span := ← spanOf m depth }

def enumDecl : TreeReader EnumDecl
  | 0, _ => none
  | depth + 1, json => do
    let m ← json.members? ["name", "backing", "variants", "span"]
    return {
      name := ← m.required "name" Json.text?
      backing := ← m.required "backing" (typeExpr depth)
      variants := ← m.required "variants" (listOf variantDecl depth)
      span := ← spanOf m depth }

def aliasDecl : TreeReader AliasDecl
  | 0, _ => none
  | depth + 1, json => do
    let m ← json.members? ["name", "target", "span"]
    return {
      name := ← m.required "name" Json.text?
      target := ← m.required "target" (typeExpr depth)
      span := ← spanOf m depth }

def declaration : TreeReader Declaration
  | 0, _ => none
  | depth + 1, json => do
    match ← json.tagged? with
    | ("Struct", payload) => return .struct (← structDecl depth payload)
    | ("Enum", payload) => return .enum (← enumDecl depth payload)
    | ("Function", payload) => return .function (← functionDecl depth payload)
    | ("TypeAlias", payload) => return .typeAlias (← aliasDecl depth payload)
    | _ => none

def sourceUnit : TreeReader SourceUnit
  | 0, _ => none
  | depth + 1, json => do
    let m ← json.members? ["id", "module", "path", "declarations"]
    return {
      id := ⟨← m.required "id" (Json.natural? (UInt32.size - 1))⟩
      module := ← m.defaulted "module" {} fun json => json.text?.map ModulePath.ofText
      path := ← m.optional "path" Json.text?
      declarations := ← m.required "declarations" (listOf declaration depth) }

end TreeReader

namespace SourceUnit

def ofJson? (json : Json) : Option SourceUnit :=
  TreeReader.sourceUnit TreeReader.depthLimit json

def ofText? (text : String) : Option SourceUnit :=
  Json.ofText? text >>= ofJson?

end SourceUnit

end SemanticChecker
