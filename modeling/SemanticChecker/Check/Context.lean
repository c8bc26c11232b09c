import SemanticChecker.Builtin
import SemanticChecker.Check.Problem
import SemanticChecker.Composition.Resolver
import SemanticChecker.Declared.Lowering
import SemanticChecker.Options
import SemanticChecker.Typed.Program

/-! Everything that is known before bodies are checked, and what checking a body may read and
change. -/
namespace SemanticChecker

structure CheckContext where
  declared : Declarations
  bounds : BoundTable
  compositions : Compositions
  options : CheckOptions

namespace CheckContext

def table (ctx : CheckContext) : DeclTable :=
  ctx.declared.table

def names (ctx : CheckContext) : TypeNames :=
  ctx.table.names

def layout? (ctx : CheckContext) (id : StructId) : Option Layout :=
  ctx.compositions.layout? id

def structRef (ctx : CheckContext) (id : StructId) : StructRef :=
  ⟨id, ctx.compositions.isConcrete id⟩

/-- What the type parameters of a struct stand for under arguments. -/
def instantiation (ctx : CheckContext) (id : StructId) (arguments : List Ty) : Instantiation :=
  match ctx.table.struct? id with
  | some own => own.instantiation arguments
  | none => []

/-- Whether a struct applied to arguments composes the expected type. -/
def hasAncestor (ctx : CheckContext) (id : StructId) (arguments : List Ty) (expected : Ty) : Bool :=
  match ctx.layout? id with
  | none => false
  | some layout =>
    let σ := ctx.instantiation id arguments
    layout.ancestors.any fun ancestor => ancestor.instantiate σ == expected

mutual

/-- Whether a value of a type may be stored where another is expected: the types are equal, one is the
error type, a struct composes the expected one, or tuples agree slot by slot. -/
def isAssignable (ctx : CheckContext) (expected : Ty) : Ty → Bool
  | .struct id arguments =>
    expected == .struct id arguments || expected.isError || ctx.hasAncestor id arguments expected
  | .tuple found =>
    expected == .tuple found || expected.isError ||
      match expected with
      | .tuple slots => areAssignable ctx slots found
      | _ => false
  | .error => true
  | found => expected == found || expected.isError

def areAssignable (ctx : CheckContext) : List Ty → List Ty → Bool
  | [], [] => true
  | expected :: slots, found :: rest => isAssignable ctx expected found && areAssignable ctx slots rest
  | _, _ => false

end

/-- A method of a struct applied to arguments, and the struct that declares it. -/
def structMethod? (ctx : CheckContext) (id : StructId) (arguments : List Ty) (name : String) :
    Option (StructId × Signature) := do
  let layout ← ctx.layout? id
  let method ← layout.method? name
  return (method.origin, method.signature.instantiate (ctx.instantiation id arguments))

def fieldType? (ctx : CheckContext) (id : StructId) (arguments : List Ty) (name : String) : Option Ty := do
  let layout ← ctx.layout? id
  let field ← layout.field? name
  return field.type.instantiate (ctx.instantiation id arguments)

def methodLookup (ctx : CheckContext) : MethodLookup := fun receiver name =>
  match receiver with
  | .struct id arguments => (ctx.structMethod? id arguments name).map fun (_, signature) => signature.type
  | .bounded _ bound arguments => ctx.bounds.method? ⟨bound, arguments⟩ name
  | receiver => receiver.builtinMethod? name

def checkBound (ctx : CheckContext) (t : Ty) (bound : BoundRef) : Except BoundError (List Ty) :=
  ctx.bounds.check ctx.methodLookup t bound

def satisfies (ctx : CheckContext) (t : Ty) (bound : String) : Bool :=
  ctx.bounds.satisfies ctx.methodLookup t bound

def instantiateBound (σ : Instantiation) (bound : BoundRef) : BoundRef :=
  { bound with arguments := bound.arguments.map (Ty.instantiate σ) }

def boundOf? : Ty → Option (String × BoundRef)
  | .bounded name bound arguments => some (name, ⟨bound, arguments⟩)
  | _ => none

/-- Checks a struct applied to arguments against the bounds of its type parameters. -/
def checkPending (ctx : CheckContext) (pending : PendingBound) : List Diagnostic :=
  match ctx.table.struct? pending.owner with
  | none => []
  | some own =>
    let σ := own.instantiation pending.arguments
    (own.typeParameters.zip pending.arguments).filterMap fun (parameter, argument) => do
      let (name, bound) ← boundOf? parameter
      match ctx.checkBound argument (instantiateBound σ bound) with
      | .ok _ => none
      | .error cause =>
        let problem := Problem.unsatisfiedBound argument bound.name name own.decl.name cause
        some (problem.diagnostic ctx.names pending.span)

end CheckContext

/-- What checking changes: the number of the next slot, and the diagnostics so far. -/
structure CheckState where
  nextSlot : Nat := 0
  diagnostics : List Diagnostic := []

abbrev CheckM := StateM CheckState

structure BodyContext where
  program : CheckContext
  module : ModulePath
  typeParameters : List Ty
  result : Ty := .unit

abbrev Env := List (String × Ty)

namespace CheckM

def reportAll (diagnostics : List Diagnostic) : CheckM Unit :=
  modify fun s => { s with diagnostics := s.diagnostics ++ diagnostics }

def freshSlot : CheckM Ty :=
  modifyGet fun s => (.slot s.nextSlot, { s with nextSlot := s.nextSlot + 1 })

end CheckM

namespace BodyContext

def report (body : BodyContext) (span : Span) (problem : Problem) : CheckM Unit :=
  CheckM.reportAll [problem.diagnostic body.program.names span]

def expectAssignable (body : BodyContext) (role : Role) (expected found : Ty) (span : Span) :
    CheckM Unit := do
  unless body.program.isAssignable expected found do
    body.report span (Problem.ofUnassignable role expected found)

/-- Reports a value that cannot be stored where a type is expected, if one is. -/
def expectStored (body : BodyContext) (role : Role) (expected : Option Ty) (found : Ty) (span : Span) :
    CheckM Unit :=
  match expected with
  | some t => body.expectAssignable role t found span
  | none => pure ()

/-- The type that is written in the body; what it applies has its bounds checked at once. -/
def lowerType (body : BodyContext) (type : TypeExpr) : CheckM (Option Ty) := do
  let scope := body.program.declared.scope body.module body.typeParameters
  let (t, found) := (scope.lowerReported type).run {}
  CheckM.reportAll found.diagnostics
  CheckM.reportAll (found.pending.flatMap body.program.checkPending)
  return t

/-- The type that may be written for a name. The outer option says whether one is, the inner whether it has a
meaning. -/
def lowerWritten (body : BodyContext) : Option TypeExpr → CheckM (Option (Option Ty))
  | some type => do return some (← body.lowerType type)
  | none => return none

/-- The copy of a type that a name in scope has, or that an alias stands for. Types that are built up from
such copies have their parts in common in memory. -/
def shareType (body : BodyContext) (env : Env) (t : Ty) : Ty :=
  t.shareWith (env.map (·.2) ++ body.program.declared.aliases.types)

@[simp] theorem shareType_eq (body : BodyContext) (env : Env) (t : Ty) : body.shareType env t = t :=
  t.shareWith_eq _

def symbol? (body : BodyContext) (name : String) : Option Symbol :=
  (body.program.table.resolveName body.module name).map (·.2)

def enumNamed? (body : BodyContext) (env : Env) (expr : Expr) : Option EnumId := do
  let name ← expr.name?
  match env.lookup name, body.symbol? name with
  | none, some (.enum id) => some id
  | _, _ => none

end BodyContext

end SemanticChecker
