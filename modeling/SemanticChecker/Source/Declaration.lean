import SemanticChecker.Source.Expr
import SemanticChecker.Source.ModulePath

/-! The declarations of a unit. -/
namespace SemanticChecker

structure FieldDecl where
  name : String
  type : TypeExpr
  default : Option Expr := none
  span : Span := {}

structure ParameterDecl where
  name : String
  type : TypeExpr
  span : Span := {}

/-- A function, or a method; a method without a body is abstract. -/
structure FunctionDecl where
  name : String
  typeParameters : List TypeParameter := []
  parameters : List ParameterDecl := []
  returns : List TypeExpr := []
  body : Option Block := none
  span : Span := {}

structure StructDecl where
  name : String
  typeParameters : List TypeParameter := []
  composes : List TypeExpr := []
  fields : List FieldDecl := []
  methods : List FunctionDecl := []
  span : Span := {}

structure VariantDecl where
  name : String
  value : Option Literal := none
  span : Span := {}

structure EnumDecl where
  name : String
  backing : TypeExpr
  variants : List VariantDecl
  span : Span := {}

structure AliasDecl where
  name : String
  target : TypeExpr
  span : Span := {}

inductive Declaration where
  | struct (decl : StructDecl)
  | enum (decl : EnumDecl)
  | function (decl : FunctionDecl)
  | typeAlias (decl : AliasDecl)

namespace Declaration

def name : Declaration → String
  | struct decl => decl.name
  | enum decl => decl.name
  | function decl => decl.name
  | typeAlias decl => decl.name

def span : Declaration → Span
  | struct decl => decl.span
  | enum decl => decl.span
  | function decl => decl.span
  | typeAlias decl => decl.span

end Declaration

/-- The number a unit was handed over under; two units may share one. -/
structure UnitId where
  number : Nat
  deriving DecidableEq, Repr, Inhabited

structure SourceUnit where
  id : UnitId
  module : ModulePath := {}
  path : Option String := none
  declarations : List Declaration

end SemanticChecker
