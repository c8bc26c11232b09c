import SemanticChecker.Source.Span

/-! Types as they are written, before any name in them has a meaning. -/
namespace SemanticChecker

mutual

inductive TypeExpr where
  | mk (kind : TypeExprKind) (span : Span)

inductive TypeExprKind where
  /-- A name applied to arguments: `int32`, `List[int]`, `Box[T]`. -/
  | named (name : String) (arguments : List TypeExpr)
  | tuple (elements : List TypeExpr)
  | repeated (element : TypeExpr) (arity : Nat)
  | function (parameters returns : List TypeExpr)

end

def TypeExpr.kind : TypeExpr → TypeExprKind
  | ⟨kind, _⟩ => kind

def TypeExpr.span : TypeExpr → Span
  | ⟨_, span⟩ => span

/-- A bound as written on a type parameter: `Signed`, `Collection[I]`. -/
structure BoundExpr where
  name : String
  arguments : List TypeExpr := []
  span : Span := {}

structure TypeParameter where
  name : String
  bound : Option BoundExpr := none
  span : Span := {}

end SemanticChecker
