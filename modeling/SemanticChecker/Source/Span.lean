/-! Places in the source text. -/
namespace SemanticChecker

/-- Where something starts and ends; all zeros when nobody said. -/
structure Span where
  line : Nat := 0
  column : Nat := 0
  endLine : Nat := 0
  endColumn : Nat := 0
  deriving DecidableEq, Repr, Inhabited

end SemanticChecker
