import SemanticChecker.Check.Context

/-! Calls, arguments apart: what is called, what it takes, and how the type arguments of a call are
found from those written, from the arguments and from bounds. -/
namespace SemanticChecker

structure CallShape where
  name : String
  typeParameters : List Ty := []
  params : List Ty
  returns : List Ty
  /-- How many leading parameters must be given; the others have defaults. -/
  required : Nat

namespace CallShape

def ofTypes (name : String) (params returns : List Ty) : CallShape :=
  { name, params, returns, required := params.length }

def ofSignature (name : String) (s : Signature) : CallShape :=
  { name, typeParameters := s.typeParameters, params := s.parameterTypes, returns := s.returns
    required := s.params.length }

def ofLayout (own : StructDef) (layout : Layout) : CallShape :=
  { name := own.decl.name
    typeParameters := own.typeParameters
    params := layout.fields.map fun field => field.type
    returns := [own.selfType]
    required := layout.requiredArity }

end CallShape

/-- What is called, and what the call is checked against unless that is not known. -/
structure CallTarget where
  callee : Callee
  shape : Option CallShape

namespace BodyContext

def functionTarget (body : BodyContext) (id : FunctionId) : CallTarget :=
  { callee := .function id
    shape := (body.program.table.function? id).map fun own =>
      .ofSignature own.decl.name own.signature }

/-- The construction of a struct; one that is not concrete is reported. -/
def constructTarget (body : BodyContext) (id : StructId) (span : Span) : CheckM CallTarget := do
  let reference := body.program.structRef id
  match body.program.table.struct? id, body.program.layout? id with
  | some own, some layout =>
    unless reference.concrete do
      body.report span (.notConstructible own.decl.name (layout.abstractMethods.map (·.name)))
    return ⟨.construct reference, some (.ofLayout own layout)⟩
  | _, _ => return ⟨.construct reference, none⟩

def valueTarget (body : BodyContext) (callee : TypedExpr) (span : Span) : CheckM CallTarget := do
  match callee.type with
  | .function params returns => return ⟨.value callee, some (.ofTypes "function value" params returns)⟩
  | .error => return ⟨.value callee, none⟩
  | other =>
    body.report span (.notCallable other)
    return ⟨.value callee, none⟩

def memberTarget (body : BodyContext) (callee : Callee) (receiver : Ty) (name : String)
    (method : Option Ty) (span : Span) : CheckM CallTarget := do
  match method with
  | some (.function params returns) => return ⟨callee, some (.ofTypes name params returns)⟩
  | _ =>
    body.report span (.noMethod receiver name)
    return ⟨callee, none⟩

/-- A field of a struct that is called like a method: it has to hold a function. -/
def fieldTarget (body : BodyContext) (receiver : TypedExpr) (type : Option Ty) (name : String)
    (calleeSpan span : Span) : CheckM CallTarget := do
  let callee := Callee.value ⟨.field receiver name, type.getD .error, calleeSpan⟩
  body.memberTarget callee receiver.type name type span

def methodTarget (body : BodyContext) (receiver : TypedExpr) (name : String) (calleeSpan span : Span) :
    CheckM CallTarget := do
  match receiver.type with
  | .struct id arguments =>
    match body.program.structMethod? id arguments name with
    | some (origin, signature) =>
      return ⟨.method receiver origin name, some (.ofSignature name signature)⟩
    | none =>
      let type := body.program.fieldType? id arguments name
      body.fieldTarget receiver type name calleeSpan span
  | .bounded _ bound arguments =>
    let method := body.program.bounds.method? ⟨bound, arguments⟩ name
    body.memberTarget (.boundMethod receiver name) receiver.type name method span
  | .error => return ⟨.value receiver, none⟩
  | other => body.memberTarget (.builtin receiver name) other name (other.builtinMethod? name) span

end BodyContext

/-- A call whose type arguments are being found. -/
structure OpenCall where
  shape : CallShape
  slots : Instantiation
  unifier : Unifier := {}

namespace OpenCall

def params (call : OpenCall) : List Ty :=
  call.shape.params.map (Ty.instantiate call.slots)

def closed? (call : OpenCall) (t : Ty) : Option Ty :=
  let t := call.unifier.resolve t
  if t.hasSlot then none else some t

end OpenCall

namespace CheckM

def freshSlots : List Ty → CheckM (List (String × Ty))
  | [] => return []
  | t :: rest =>
    match t.parameterName? with
    | none => freshSlots rest
    | some name => do
      let slot ← freshSlot
      return (name, slot) :: (← freshSlots rest)

end CheckM

namespace BodyContext

def unify (body : BodyContext) (u : Unifier) (role : Role) (expected found : Ty) (span : Span) :
    CheckM Unifier := do
  let outcome := u.unify expected found
  match outcome.clash with
  | some error => body.report span (Problem.ofUnifyError role error)
  | none => pure ()
  return outcome.unifier

def bindTypeArguments (body : BodyContext) (call : OpenCall) :
    List (Ty × TypeExpr) → CheckM OpenCall
  | [] => return call
  | (parameter, argument) :: rest => do
    let slot := parameter.parameterName? >>= call.slots.get?
    match slot, ← body.lowerType argument with
    | some slot, some t =>
      let unifier ← body.unify call.unifier .typeArgument slot t argument.span
      body.bindTypeArguments { call with unifier } rest
    | _, _ => body.bindTypeArguments call rest

/-- Starts a call: counts the arguments and takes over the type arguments that are written. -/
def openCall (body : BodyContext) (shape : CallShape) (typeArguments : List TypeExpr)
    (argumentCount : Nat) (span : Span) : CheckM OpenCall := do
  let most := shape.params.length
  if argumentCount < shape.required || most < argumentCount then
    body.report span (.argumentCount shape.name shape.required most argumentCount)
  let slots ← CheckM.freshSlots shape.typeParameters
  let call : OpenCall := { shape, slots := Instantiation.ofPairs slots }
  if typeArguments.isEmpty then return call
  else if typeArguments.length = shape.typeParameters.length then
    body.bindTypeArguments call (shape.typeParameters.zip typeArguments)
  else
    body.report span
      (.typeArgumentCount shape.name shape.typeParameters.length typeArguments.length)
    return call

/-- Matches an argument with its parameter. Where the types do not unify, a value that may be stored
in the parameter will do. -/
def acceptArgument (body : BodyContext) (call : OpenCall) (position : Nat) (parameter : Ty)
    (value : TypedExpr) (span : Span) : CheckM OpenCall := do
  let outcome := call.unifier.unify parameter value.type
  let call := { call with unifier := outcome.unifier }
  match outcome.clash with
  | none => return call
  | some error =>
    let stored := match call.closed? parameter with
      | some t => body.program.isAssignable t value.type
      | none => false
    unless stored do
      body.report span (Problem.ofUnifyError (.argument position call.shape.name) error)
    return call

/-- A bound that a type argument has to satisfy. -/
structure BoundGoal where
  parameter : String
  slot : Ty
  bound : BoundRef

def boundGoals (call : OpenCall) : List BoundGoal :=
  call.shape.typeParameters.filterMap fun parameter => do
    let (name, bound) ← CheckContext.boundOf? parameter
    let slot ← call.slots.get? name
    return ⟨name, slot, bound⟩

/-- Unifies the arguments of a bound with what its parameters stand for. -/
def unifyBound (body : BodyContext) (role : Role) (span : Span) (u : Unifier) :
    List (Ty × Ty) → CheckM Unifier
  | [] => return u
  | (argument, binding) :: rest => do
    if binding.isError then body.unifyBound role span u rest
    else
      let u ← body.unify u role argument binding span
      body.unifyBound role span u rest

/-- Checks a bound whose type argument is found; that may find others. -/
def meetGoal (body : BodyContext) (call : OpenCall) (goal : BoundGoal) (candidate : Ty) (span : Span) :
    CheckM OpenCall := do
  let arguments := goal.bound.arguments.map fun t => call.unifier.resolve (t.instantiate call.slots)
  match body.program.checkBound candidate ⟨goal.bound.name, arguments⟩ with
  | .ok bindings =>
    let role := Role.bound goal.bound.name goal.parameter
    let unifier ← body.unifyBound role span call.unifier (arguments.zip bindings)
    return { call with unifier }
  | .error cause =>
    body.report span
      (.unsatisfiedBound candidate goal.bound.name goal.parameter call.shape.name cause)
    return call

/-- Goes through the bounds once; those whose type argument is still open are left. -/
def boundPass (body : BodyContext) (span : Span) (call : OpenCall) :
    List BoundGoal → CheckM (OpenCall × List BoundGoal)
  | [] => return (call, [])
  | goal :: rest => do
    match call.closed? goal.slot with
    | none =>
      let (call, left) ← body.boundPass span call rest
      return (call, goal :: left)
    | some candidate =>
      let call ← body.meetGoal call goal candidate span
      body.boundPass span call rest

/-- Goes through the bounds again as long as that settles one of them. -/
def boundPasses (body : BodyContext) (span : Span) :
    Nat → OpenCall → List BoundGoal → CheckM OpenCall
  | 0, call, _ => return call
  | passes + 1, call, goals => do
    let (call, left) ← body.boundPass span call goals
    if left.length = goals.length then return call
    else body.boundPasses span passes call left

/-- The type arguments that were found; one that was not is reported. -/
def foundTypeArguments (body : BodyContext) (call : OpenCall) (span : Span) :
    List Ty → CheckM (List Ty)
  | [] => return []
  | parameter :: rest => do
    match parameter.parameterName? with
    | none => body.foundTypeArguments call span rest
    | some name =>
      match (call.slots.get? name).map call.closed? with
      | none => body.foundTypeArguments call span rest
      | some (some t) => return t :: (← body.foundTypeArguments call span rest)
      | some none =>
        body.report span (.uninferred name call.shape.name)
        return .error :: (← body.foundTypeArguments call span rest)

/-- Ends a call: checks bounds, and answers the type arguments and the type of the result. -/
def closeCall (body : BodyContext) (call : OpenCall) (span : Span) : CheckM (List Ty × Ty) := do
  let goals := boundGoals call
  let call ← body.boundPasses span (goals.length + 1) call goals
  let typeArguments ← body.foundTypeArguments call span call.shape.typeParameters
  let returns := call.shape.returns.map (Ty.instantiate call.slots)
  return (typeArguments, (call.closed? (Ty.ofReturns returns)).getD .error)

def openTarget (body : BodyContext) (target : CallTarget) (typeArguments : List TypeExpr)
    (argumentCount : Nat) (span : Span) : CheckM (Option OpenCall) := do
  match target.shape with
  | some shape => return some (← body.openCall shape typeArguments argumentCount span)
  | none => return none

/-- The parameters of a call; none are known of one that was not opened. -/
def openParams : Option OpenCall → List Ty
  | some call => call.params
  | none => []

/-- The call with its arguments. One that was not opened has no type. -/
def closeTarget (body : BodyContext) (callee : Callee) (call : Option OpenCall)
    (arguments : List TypedExpr) (span : Span) : CheckM TypedExpr := do
  match call with
  | some call =>
    let (typeArguments, result) ← body.closeCall call span
    return ⟨.call callee typeArguments arguments, result, span⟩
  | none => return ⟨.call callee [] arguments, .error, span⟩

end BodyContext

end SemanticChecker
