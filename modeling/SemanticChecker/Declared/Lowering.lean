import SemanticChecker.Bound
import SemanticChecker.Declared.Table

/-! The meaning of written types. A name is looked for among the type parameters in scope, the
innermost last, then among the primitives, the built-in containers, the declared names and the
built-in aliases. -/
namespace SemanticChecker

structure TypeScope where
  table : DeclTable
  aliasOf : String → LowerM Ty
  module : ModulePath
  /-- The type parameters in scope; of two of one name the last counts. -/
  parameters : List Ty := []

/-- What a name of a type stands for before it is applied to arguments. -/
inductive TypeHead where
  | type (t : Ty)
  | list
  | dict
  | struct (id : StructId) (arity : Nat)
  | typeAlias (name : String)

namespace TypeHead

def arity : TypeHead → Nat
  | type _ => 0
  | list => 1
  | dict => 2
  | struct _ arity => arity
  | typeAlias _ => 0

def ofSymbol? (table : DeclTable) (name : String) : Symbol → Option TypeHead
  | .struct id =>
    let arity := match table.struct? id with
      | some own => own.decl.typeParameters.length
      | none => 0
    some (.struct id arity)
  | .enum id => some (.type (.enum id))
  | .function _ => none
  | .typeAlias => some (.typeAlias name)

/-- The head applied to arguments; structs that are applied to some have their bounds checked later. -/
def apply (aliasOf : String → LowerM Ty) (span : Span) (arguments : List Ty) : TypeHead → LowerM Ty
  | type t => pure t
  | list =>
    match arguments with
    | [element] => pure (.list element)
    | _ => pure .error
  | dict =>
    match arguments with
    | [key, value] => pure (.dict key value)
    | _ => pure .error
  | struct id _ => do
    unless arguments.isEmpty do
      LowerM.addPending { owner := id, arguments, span }
    return .struct id arguments
  | typeAlias name => aliasOf name

end TypeHead

namespace TypeScope

def parameter? (scope : TypeScope) (name : String) : Option Ty :=
  scope.parameters.reverse.find? fun t => t.parameterName? == some name

def head? (scope : TypeScope) (name : String) : Option TypeHead :=
  match scope.parameter? name with
  | some t => some (.type t)
  | none =>
    match Primitive.ofName? name with
    | some kind => some (.type (.primitive kind))
    | none =>
      if name = "List" then some .list
      else if name = "Dict" then some .dict
      else
        match scope.table.resolveName scope.module name with
        | some (qualified, symbol) => TypeHead.ofSymbol? scope.table qualified symbol
        | none => (builtinAlias? name).map fun kind => .type (.primitive kind)

def extend (scope : TypeScope) (parameters : List Ty) : TypeScope :=
  { scope with parameters := scope.parameters ++ parameters }

end TypeScope

def expectArguments (name : String) (expected found : Nat) : LowerM Unit := do
  unless found = expected do
    throw (.argumentCount name expected found)

mutual

/-- The type that an expression stands for. Arguments are counted before any of them is looked at. -/
def TypeExpr.lower (scope : TypeScope) : TypeExpr → LowerM Ty
  | ⟨kind, span⟩ => kind.lower scope span

def TypeExprKind.lower (scope : TypeScope) (span : Span) : TypeExprKind → LowerM Ty
  | .named name arguments => do
    match scope.head? name with
    | none => throw (.unresolved name)
    | some head =>
      expectArguments name head.arity arguments.length
      let arguments ← TypeExpr.lowerAll scope arguments
      head.apply scope.aliasOf span arguments
  | .tuple elements => do return .tuple (← TypeExpr.lowerAll scope elements)
  | .repeated element arity => do
    let element ← element.lower scope
    return .tuple (List.replicate arity element)
  | .function parameters returns => do
    let parameters ← TypeExpr.lowerAll scope parameters
    let returns ← TypeExpr.lowerAll scope returns
    return .function parameters returns

def TypeExpr.lowerAll (scope : TypeScope) : List TypeExpr → LowerM (List Ty)
  | [] => pure []
  | type :: rest => do
    let first ← type.lower scope
    return first :: (← TypeExpr.lowerAll scope rest)

end

def AliasTarget.lower (table : DeclTable) (aliasOf : String → LowerM Ty) : AliasTarget → LowerM Ty
  | .type t => pure t
  | .expression written path => written.lower { table, aliasOf, module := path }

def DeclTable.resolveAlias (table : DeclTable) (name : String) : LowerM Ty := do
  let count := (← get).aliases.entries.length
  SemanticChecker.resolveAlias (AliasTarget.lower table) (count + 1) name

/-- Reports and struct applications gathered while written types are given their meaning. -/
structure Findings where
  pending : List PendingBound := []
  diagnostics : List Diagnostic := []

abbrev FindM := StateM Findings

namespace FindM

def report (diagnostic : Diagnostic) : FindM Unit :=
  modify fun s => { s with diagnostics := s.diagnostics ++ [diagnostic] }

def reporting (span : Span) (work : LowerM α) : FindM (Option α) := do
  let (result, done) := (work.run).run {}
  modify fun s => { s with pending := s.pending ++ done.pending }
  match result with
  | .ok value => return some value
  | .error error =>
    report (error.diagnostic span)
    return none

end FindM

namespace Declarations

def scope (declared : Declarations) (module : ModulePath) (parameters : List Ty) : TypeScope where
  table := declared.table
  aliasOf name :=
    match declared.aliases.type? name with
    | some t => pure t
    | none => throw (.unresolved name)
  module := module
  parameters := parameters

end Declarations

namespace TypeScope

def lowerReported (scope : TypeScope) (type : TypeExpr) : FindM (Option Ty) :=
  FindM.reporting type.span (type.lower scope)

def lowerOrError (scope : TypeScope) (type : TypeExpr) : FindM Ty := do
  return (← scope.lowerReported type).getD .error

def lowerBound (scope : TypeScope) (bounds : BoundTable) (bound : BoundExpr) : LowerM BoundRef := do
  match bounds.parameterCount? bound.name with
  | none => throw (.unknownBound bound.name)
  | some expected =>
    expectArguments bound.name expected bound.arguments.length
    return { name := bound.name, arguments := ← TypeExpr.lowerAll scope bound.arguments }

/-- Gives type parameters their bounds, in order. The names of all of them are in scope from the start:
`done` have their bounds already, the rest still have none. -/
def declareParameters (scope : TypeScope) (bounds : BoundTable) (done : List Ty) :
    List TypeParameter → FindM (List Ty)
  | [] => return done
  | parameter :: rest => do
    let unbounded := (parameter :: rest).map fun p => Ty.parameter p.name
    let inner := scope.extend (done ++ unbounded)
    let bound ← match parameter.bound with
      | none => pure none
      | some bound => FindM.reporting bound.span (inner.lowerBound bounds bound)
    scope.declareParameters bounds (done ++ [Ty.ofParameter parameter.name bound]) rest

def lowerParams (scope : TypeScope) : List ParameterDecl → FindM (List (String × Ty))
  | [] => return []
  | parameter :: rest => do
    let t ← scope.lowerOrError parameter.type
    return (parameter.name, t) :: (← scope.lowerParams rest)

def lowerReturns (scope : TypeScope) : List TypeExpr → FindM (List Ty)
  | [] => return []
  | type :: rest => do
    let t ← scope.lowerOrError type
    return t :: (← scope.lowerReturns rest)

/-- The signature of a function; parts without a meaning become the error type. -/
def lowerSignature (scope : TypeScope) (bounds : BoundTable) (decl : FunctionDecl) :
    FindM Signature := do
  let typeParameters ← scope.declareParameters bounds [] decl.typeParameters
  let inner := scope.extend typeParameters
  let params ← inner.lowerParams decl.parameters
  let returns ← inner.lowerReturns decl.returns
  return { typeParameters, params, returns }

end TypeScope

end SemanticChecker
