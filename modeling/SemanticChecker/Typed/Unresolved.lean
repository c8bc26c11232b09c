import SemanticChecker.Typed.Program

/-! Every type in a typed program with the place it is at, and the first one that must not reach code
generation. -/
namespace SemanticChecker

mutual

/-- The types of an expression and of all inside it, outermost first and left to right. -/
def TypedExpr.types : TypedExpr → List (Ty × Span)
  | ⟨kind, type, span⟩ => (type, span) :: kind.types span

def TypedExprKind.types (span : Span) : TypedExprKind → List (Ty × Span)
  | .literal _ => []
  | .enumVariant _ _ _ => []
  | .tuple items => TypedExpr.typesOfEach items
  | .list items => TypedExpr.typesOfEach items
  | .dict entries => TypedExpr.typesOfEntries entries
  | .ident _ => []
  | .functionRef _ => []
  | .assign target value => target.types ++ value.types
  | .call callee typeArguments arguments =>
    callee.types ++ typeArguments.map (fun t => (t, span)) ++ TypedExpr.typesOfEach arguments
  | .field object _ => object.types
  | .tupleSlot tuple _ => tuple.types
  | .binary _ left right => left.types ++ right.types
  | .cond condition thenBranch elseBranch =>
    condition.types ++ thenBranch.types ++ TypedBlock.typesOfOption elseBranch

def Callee.types : Callee → List (Ty × Span)
  | .function _ => []
  | .method receiver _ _ => receiver.types
  | .builtin receiver _ => receiver.types
  | .boundMethod receiver _ => receiver.types
  | .construct _ => []
  | .value value => value.types

def TypedExpr.typesOfEach : List TypedExpr → List (Ty × Span)
  | [] => []
  | item :: rest => item.types ++ TypedExpr.typesOfEach rest

def TypedExpr.typesOfEntries : List (TypedExpr × TypedExpr) → List (Ty × Span)
  | [] => []
  | (key, value) :: rest => key.types ++ value.types ++ TypedExpr.typesOfEntries rest

def TypedExpr.typesOfOption : Option TypedExpr → List (Ty × Span)
  | none => []
  | some value => value.types

def TypedStatement.types : TypedStatement → List (Ty × Span)
  | .bind _ type initializer span => (type, span) :: TypedExpr.typesOfOption initializer
  | .expression value => value.types
  | .ret value _ => TypedExpr.typesOfOption value

def TypedStatement.typesOfEach : List TypedStatement → List (Ty × Span)
  | [] => []
  | statement :: rest => statement.types ++ TypedStatement.typesOfEach rest

def TypedBlock.types : TypedBlock → List (Ty × Span)
  | ⟨statements, _, _⟩ => TypedStatement.typesOfEach statements

def TypedBlock.typesOfOption : Option TypedBlock → List (Ty × Span)
  | none => []
  | some block => block.types

end

/-- A type in a program, its place, and whether type parameters may stand there. -/
structure TypeSite where
  type : Ty
  span : Span
  generic : Bool

namespace TypeSite

def isUnresolved (site : TypeSite) : Bool :=
  site.type.isUnresolved site.generic

def ofTypes (generic : Bool) (types : List (Ty × Span)) : List TypeSite :=
  types.map fun (type, span) => ⟨type, span, generic⟩

end TypeSite

def TypedFunction.sites (function : TypedFunction) : List TypeSite :=
  let signature := (function.params.map (·.2) ++ function.returns).map fun t => (t, function.span)
  TypeSite.ofTypes function.generic (signature ++ TypedBlock.typesOfOption function.body)

def TypedField.sites (generic : Bool) (field : TypedField) : List TypeSite :=
  TypeSite.ofTypes generic ((field.type, {}) :: TypedExpr.typesOfOption field.default)

def TypedStruct.sites (struct : TypedStruct) : List TypeSite :=
  let generic := !struct.typeParameters.isEmpty
  struct.fields.flatMap (TypedField.sites generic) ++ struct.methods.flatMap TypedFunction.sites

namespace TypedProgram

def sites (program : TypedProgram) : List TypeSite :=
  program.structs.flatMap TypedStruct.sites ++ program.functions.flatMap TypedFunction.sites

def findUnresolved? (program : TypedProgram) : Option TypeSite :=
  program.sites.find? TypeSite.isUnresolved

end TypedProgram

end SemanticChecker
